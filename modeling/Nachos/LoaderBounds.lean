import Nachos.ArgumentBlock
import Nachos.LoadFailure

/-!
# Does the loader stay inside the address space?

`Load` compares no segment with the size of the address space.  The copying
of a segment leaves the page table at the first address behind the last page,
unless a read at a negative position of the file has aborted before.
-/

namespace Nachos

open Library

/-! ## Builds with and without `RDATA` -/

namespace NoffHeader

/-- The header without the segment of read-only data. -/
def ofBytesWithoutRdata (bytes : List (BitVec 8)) : NoffHeader where
  noffMagic := wordAt bytes 0
  code := segmentAt bytes 4
  initData := segmentAt bytes 16
  readonlyData := ⟨0, 0, 0⟩
  uninitData := segmentAt bytes 28

end NoffHeader

namespace AddrSpace

/-- The header in a build with or without `RDATA`. -/
def readHeaderIn (rdata : Bool) (executable : OpenFile) (h : Host)
    (garbage : LoadGarbage) : Except Fault (NoffHeader × Host) :=
  if rdata then readHeader executable h garbage
  else do
    let (bytes, h) ← executable.readAt h 40 0 (some 40)
    let bytes := bytes.getD []
    let noffH := NoffHeader.ofBytesWithoutRdata
      (bytes ++ garbage.header.drop bytes.length)
    if noffH.noffMagic ≠ noffMagicNumber ∧
        wordToHost noffH.noffMagic = noffMagicNumber then
      return (noffH.swapHeader, h)
    else return (noffH, h)

/-- `Load` after the header has been read. -/
def loadImage (space : AddrSpace) (executable : OpenFile)
    (noffH : NoffHeader) (k : Kernel) (argc : ℤ) (argv : List CString) :
    Except Fault (Bool × AddrSpace × Kernel) := do
  assert (noffH.noffMagic = noffMagicNumber)
  let numPages := noffH.numPages
  let (space, machine) ← space.allocateMemory k.machine numPages
  assert (numPages ≤ numPhysPages)
  let k ← space.copySegments executable noffH { k with machine := machine }
  let (space, machine) ← space.copyArguments k.machine argc argv
  let (_, fileSystem, host) ←
    k.fileSystem.closeFile k.host executable.fileDescriptorId
  return (true, space,
    { k with
      machine := machine, fileSystem := fileSystem, host := host })

/-- `AddrSpace::Load` in a build with or without `RDATA`. -/
def loadIn (rdata : Bool) (space : AddrSpace) (k : Kernel)
    (garbage : LoadGarbage) (fileName : CString) (argc : ℤ)
    (argv : List CString) : Except Fault (Bool × AddrSpace × Kernel) :=
  match k.fileSystem.openNamed k.host fileName garbage.openType with
  | (none, fileSystem, host) =>
      return (false, space,
        { k with fileSystem := fileSystem, host := host })
  | (some executable, fileSystem, host) => do
      let (noffH, host) ← readHeaderIn rdata executable host garbage
      space.loadImage executable noffH
        { k with fileSystem := fileSystem, host := host } argc argv

theorem loadIn_true : loadIn true = load := rfl

/-! ## Segments and the address space -/

end AddrSpace

namespace Segment

/-- The bytes of the file that can be read before the position is negative as
an `int`. -/
def readable (segment : Segment) : ℕ :=
  2 ^ 31 - segment.inFileAddr.toNat

/-- So many bytes of a segment lie in the pages. -/
def Inside (segment : Segment) (count numPages : ℕ) : Prop :=
  count = 0 ∨ segment.virtualAddr.toNat + count ≤ numPages * pageSize

/-- The addresses of a loop that copies lie in the pages; the loop ends with
the first read at a negative position. -/
def CopiesInside (segment : Segment) (count numPages : ℕ) : Prop :=
  segment.Inside (min count (segment.readable + 1)) numPages

instance (segment : Segment) (count numPages : ℕ) :
    Decidable (segment.Inside count numPages) := by
  unfold Inside
  infer_instance

instance (segment : Segment) (count numPages : ℕ) :
    Decidable (segment.CopiesInside count numPages) := by
  unfold CopiesInside
  infer_instance

theorem address_eq (segment : Segment) {i n : ℕ}
    (hlt : segment.virtualAddr.toNat + i < n) (hsmall : n ≤ memorySize) :
    (segment.virtualAddr + BitVec.ofNat 32 i).toNat =
      segment.virtualAddr.toNat + i := by
  have hbound : memorySize = 16384 := rfl
  rw [BitVec.toNat_add, BitVec.toNat_ofNat]
  omega

theorem position_nonneg {segment : Segment} {i : ℕ}
    (hlt : i < segment.readable) :
    0 ≤ (segment.inFileAddr + BitVec.ofNat 32 i).toInt := by
  unfold readable at hlt
  rw [BitVec.toInt_eq_toNat_cond, BitVec.toNat_add, BitVec.toNat_ofNat]
  split <;> omega

theorem position_readable (segment : Segment) :
    (segment.inFileAddr + BitVec.ofNat 32 segment.readable).toInt < 0 := by
  have hlt := segment.inFileAddr.isLt
  unfold readable
  rw [BitVec.toInt_eq_toNat_cond, BitVec.toNat_add, BitVec.toNat_ofNat]
  split <;> omega

end Segment

namespace AddrSpace

section Segments

variable {space : AddrSpace} {entries : List TranslationEntry}
variable {executable : OpenFile} {k : Kernel}

/-- What copying a segment does: the memory of the space changes, and the
position in the file. -/
structure Copies (space : AddrSpace) (executable : OpenFile)
    (k k' : Kernel) : Prop where
  fileSystem : k'.fileSystem = k.fileSystem
  «open» : ∃ position, k'.host.file executable.file = some position
  writes : space.Writes k.machine k'.machine

theorem Copies.trans {k' k'' : Kernel}
    (hfirst : space.Copies executable k k')
    (hsecond : space.Copies executable k' k'') :
    space.Copies executable k k'' where
  fileSystem := hsecond.fileSystem.trans hfirst.fileSystem
  «open» := hsecond.open
  writes := hfirst.writes.trans hsecond.writes

/-- A read of one byte at a position that is not negative. -/
theorem readAt_one (executable : OpenFile) {h : Host} {position : HostFile} {place : ℤ}
    (hfile : h.file executable.file = some position) (hplace : 0 ≤ place) :
    ∃ bytes host, executable.readAt h 1 place (some 1) =
        .ok (some bytes, host) ∧
      ∃ position', host.file executable.file = some position' := by
  let sought := h.setFile executable.file
    (some { position with offset := place.toNat })
  have hsought : sought.file executable.file =
      some { position with offset := place.toNat } :=
    Host.file_setFile_self hfile _
  have hread : executable.readAt h 1 place (some 1) =
      .ok (sought.readPartial executable.file 1 (some 1)) := by
    simp only [OpenFile.readAt, Host.lseek, hfile, if_pos hplace, bind,
      Except.bind]
    rfl
  rw [Host.readPartial_eq hsought] at hread
  exact ⟨_, _, hread, _, Host.file_setFile_self hsought _⟩

theorem readAt_negative {h : Host} {place : ℤ} (hplace : place < 0) :
    executable.readAt h 1 place (some 1) = .error .abort := by
  have hlseek : h.lseek executable.file place = .error .abort := by
    unfold Host.lseek
    split
    · rw [if_neg (not_le.mpr hplace)]
    · rfl
  rw [OpenFile.readAt, hlseek]
  rfl

theorem copyByte_of_store
    {segment : Segment} {i : ℕ} {paddr : ℤ} {byte : BitVec 8}
    {rest : List (BitVec 8)} {host : Host} {machine : Machine}
    (haddress : space.physicalAddress
      (segment.virtualAddr + BitVec.ofNat 32 i) = .ok paddr)
    (hread : executable.readAt k.host 1
      (segment.inFileAddr + BitVec.ofNat 32 i).toInt (some 1) =
        .ok (some (byte :: rest), host))
    (hstore : k.machine.store paddr byte = .ok machine) :
    space.copyByte executable segment i k =
      .ok { k with host := host, machine := machine } := by
  rw [copyByte, haddress]
  change executable.readAt k.host 1
    (segment.inFileAddr + BitVec.ofNat 32 i).toInt (some 1) >>= _ = _
  rw [hread]
  change k.machine.store paddr byte >>= _ = _
  rw [hstore]
  rfl

theorem zeroByte_of_store
    {segment : Segment} {i : ℕ} {paddr : ℤ} {machine : Machine}
    (haddress : space.physicalAddress
      (segment.virtualAddr + BitVec.ofNat 32 i) = .ok paddr)
    (hstore : k.machine.store paddr 0 = .ok machine) :
    space.zeroByte segment i k = .ok { k with machine := machine } := by
  rw [zeroByte, haddress]
  change k.machine.store paddr 0 >>= _ = _
  rw [hstore]
  rfl

/-- The rounds of a loop over a segment: they succeed in the pages, below a
limit, and fail behind the pages. -/
structure Rounds (space : AddrSpace) (executable : OpenFile)
    (segment : Segment) (limit : ℕ)
    (body : ℕ → Kernel → Except Fault Kernel) : Prop where
  inside : ∀ i k, (∃ position, k.host.file executable.file = some position) →
    segment.virtualAddr.toNat + i < space.numPages * pageSize → i < limit →
    ∃ k', body i k = .ok k' ∧ space.Copies executable k k'
  outside : ∀ i k, space.numPages * pageSize ≤
      (segment.virtualAddr + BitVec.ofNat 32 i).toNat →
    body i k = .error .undefinedBehaviour

theorem Mapped.copyRounds (hmap : space.Mapped entries)
    (executable : OpenFile) (segment : Segment) :
    space.Rounds executable segment segment.readable
      (space.copyByte executable segment) where
  inside := by
    intro i k hopen haddr hread
    have haddress := segment.address_eq haddr hmap.size_le
    rcases hopen with ⟨position, hfile⟩
    rcases readAt_one executable hfile
      (Segment.position_nonneg hread) with ⟨bytes, host, hbytes, hopen'⟩
    have hlt : (segment.virtualAddr + BitVec.ofNat 32 i).toNat <
        space.numPages * pageSize := by
      rwa [haddress]
    cases bytes with
    | nil =>
        rcases hmap.physical k.machine hlt with ⟨paddr, hphysical, -⟩
        refine ⟨{ k with host := host }, ?_, rfl, hopen', .refl _ _⟩
        rw [copyByte, hphysical]
        simp only [bind, Except.bind, hbytes]
        rfl
    | cons byte rest =>
        rcases hmap.storeByte k.machine hlt byte with
          ⟨paddr, machine, hphysical, -, hstore, -, hwrites⟩
        exact ⟨_, copyByte_of_store hphysical hbytes hstore, rfl, hopen',
          hwrites⟩
  outside := by
    intro i k hout
    rw [copyByte, hmap.physicalAddress_outside hout]
    rfl

theorem Mapped.zeroRounds (hmap : space.Mapped entries)
    (executable : OpenFile) (segment : Segment) (limit : ℕ) :
    space.Rounds executable segment limit (space.zeroByte segment) where
  inside := by
    intro i k hopen haddr _
    have haddress := segment.address_eq haddr hmap.size_le
    rcases hmap.storeByte k.machine (by rwa [haddress]) 0 with
      ⟨paddr, machine, hphysical, -, hstore, -, hwrites⟩
    exact ⟨_, zeroByte_of_store hphysical hstore, rfl, hopen, hwrites⟩
  outside := by
    intro i k hout
    rw [zeroByte, hmap.physicalAddress_outside hout]
    rfl

section Loops

variable {segment : Segment} {limit count : ℕ}
variable {body : ℕ → Kernel → Except Fault Kernel}

/-- The rounds up to a number that is in the pages and below the limit. -/
theorem Rounds.step (hrounds : space.Rounds executable segment limit body)
    {failing : ℕ} (hbelow : failing ≤ limit)
    (hinside : segment.Inside failing space.numPages) (i : ℕ) (before : Kernel)
    (hi : i < failing) (hbefore : space.Copies executable k before) :
    ∃ after, body i before = .ok after ∧
      space.Copies executable k after := by
  unfold Segment.Inside at hinside
  rcases hrounds.inside i before hbefore.open (by omega) (by omega) with
    ⟨after, hround, hafter⟩
  exact ⟨after, hround, hbefore.trans hafter⟩

/-- A loop in the pages and below the limit. -/
theorem Rounds.loop (hrounds : space.Rounds executable segment limit body)
    (hopen : ∃ position, k.host.file executable.file = some position)
    (hinside : segment.Inside count space.numPages) (hbelow : count ≤ limit) :
    ∃ k', countedLoop body 0 count k = .ok k' ∧
      space.Copies executable k k' := by
  have hstart : space.Copies executable k k := ⟨rfl, hopen, .refl _ _⟩
  exact countedLoop_spec (fun _ k' => space.Copies executable k k') hstart
    fun i before _ hi =>
      hrounds.step hbelow hinside i before (by omega)

/-- A loop that leaves the pages at or below the limit. -/
theorem Rounds.loop_outside
    (hrounds : space.Rounds executable segment limit body)
    (hopen : ∃ position, k.host.file executable.file = some position)
    (hsmall : space.numPages ≤ numPhysPages)
    (houtside : ¬segment.Inside (min count (limit + 1)) space.numPages) :
    countedLoop body 0 count k = .error .undefinedBehaviour := by
  have hsize : space.numPages * pageSize ≤ 16384 :=
    Nat.mul_le_mul_right pageSize hsmall
  have haddr := segment.virtualAddr.isLt
  let failing := space.numPages * pageSize - segment.virtualAddr.toNat
  unfold Segment.Inside at houtside
  have hstart : space.Copies executable k k := ⟨rfl, hopen, .refl _ _⟩
  have hinside : segment.Inside failing space.numPages := by
    unfold Segment.Inside
    omega
  apply countedLoop_fails (fun _ k' => space.Copies executable k k') hstart
    (Nat.zero_le failing) (by omega)
  · intro i before _ hi hbefore
    exact hrounds.step (by omega) hinside i before hi hbefore
  · intro before _
    apply hrounds.outside
    rw [BitVec.toNat_add, BitVec.toNat_ofNat]
    omega

end Loops

/-- The loop that reads at a negative position. -/
theorem Mapped.copySegment_stops (hmap : space.Mapped entries)
    {segment : Segment} {count : ℕ}
    (hopen : ∃ position, k.host.file executable.file = some position)
    (hinside : segment.CopiesInside count space.numPages)
    (hstops : segment.readable < count) :
    countedLoop (space.copyByte executable segment) 0 count k =
      .error .abort := by
  have hrounds := hmap.copyRounds executable segment
  unfold Segment.CopiesInside Segment.Inside at hinside
  have haddr : segment.virtualAddr.toNat + segment.readable <
      space.numPages * pageSize := by
    omega
  have hstart : space.Copies executable k k := ⟨rfl, hopen, .refl _ _⟩
  apply countedLoop_fails (fun _ k' => space.Copies executable k k') hstart
    (Nat.zero_le segment.readable) (by omega)
  · intro i before _ hi hbefore
    exact hrounds.step le_rfl (.inr haddr.le) i before hi hbefore
  · intro before _
    have haddress := segment.address_eq haddr hmap.size_le
    rcases hmap.physical before.machine (by rwa [haddress]) with
      ⟨paddr, hphysical, -⟩
    rw [copyByte, hphysical]
    simp only [bind, Except.bind, readAt_negative segment.position_readable]

/-- The three ends of a copying loop. -/
theorem Mapped.copySegment_cases (hmap : space.Mapped entries)
    (segment : Segment) (count : ℕ)
    (hopen : ∃ position,
      k.host.file executable.file = some position) :
    (segment.CopiesInside count space.numPages ∧ count ≤ segment.readable ∧
      ∃ k', countedLoop (space.copyByte executable segment) 0 count k =
        .ok k' ∧ space.Copies executable k k') ∨
    (segment.CopiesInside count space.numPages ∧ segment.readable < count ∧
      countedLoop (space.copyByte executable segment) 0 count k =
        .error .abort) ∨
    (¬segment.CopiesInside count space.numPages ∧
      countedLoop (space.copyByte executable segment) 0 count k =
        .error .undefinedBehaviour) := by
  have hrounds := hmap.copyRounds executable segment
  by_cases hinside : segment.CopiesInside count space.numPages
  · rcases Nat.lt_or_ge segment.readable count with hstops | hread
    · exact .inr (.inl ⟨hinside, hstops,
        hmap.copySegment_stops hopen hinside hstops⟩)
    · have hall : segment.Inside count space.numPages := by
        unfold Segment.CopiesInside Segment.Inside at *
        omega
      exact .inl ⟨hinside, hread, hrounds.loop hopen hall hread⟩
  · exact .inr (.inr ⟨hinside, hrounds.loop_outside hopen hmap.small hinside⟩)

theorem Mapped.zeroSegment_cases (hmap : space.Mapped entries)
    (segment : Segment) (count : ℕ)
    (hopen : ∃ position,
      k.host.file executable.file = some position) :
    (segment.Inside count space.numPages ∧
      ∃ k', countedLoop (space.zeroByte segment) 0 count k = .ok k' ∧
        space.Copies executable k k') ∨
    (¬segment.Inside count space.numPages ∧
      countedLoop (space.zeroByte segment) 0 count k =
        .error .undefinedBehaviour) := by
  have hrounds := hmap.zeroRounds executable segment count
  by_cases hinside : segment.Inside count space.numPages
  · exact .inl ⟨hinside, hrounds.loop hopen hinside le_rfl⟩
  · refine .inr ⟨hinside, hrounds.loop_outside hopen hmap.small ?_⟩
    rwa [Nat.min_eq_left (Nat.le_succ count)]

end Segments

end AddrSpace

/-! ## The image -/

namespace NoffHeader

open AddrSpace (rounds ArgumentsFit)

/-- The rounds of the loop over the read-only data. -/
def readonlyRounds (noffH : NoffHeader) : ℕ :=
  if 0 < noffH.readonlyData.size.toInt then
    rounds noffH.readonlyData.virtualAddr
  else 0

/-- The loops of `Load` that are reached stay in the pages. -/
def SegmentsInside (noffH : NoffHeader) (numPages : ℕ) : Prop :=
  noffH.code.CopiesInside (rounds noffH.code.size) numPages ∧
    (rounds noffH.code.size ≤ noffH.code.readable →
      noffH.uninitData.Inside (rounds noffH.uninitData.size) numPages ∧
        noffH.initData.CopiesInside (rounds noffH.initData.size) numPages ∧
        (rounds noffH.initData.size ≤ noffH.initData.readable →
          noffH.readonlyData.CopiesInside noffH.readonlyRounds numPages))

/-- No loop of `Load` comes to a negative position of the file. -/
def SegmentsRead (noffH : NoffHeader) : Prop :=
  rounds noffH.code.size ≤ noffH.code.readable ∧
    rounds noffH.initData.size ≤ noffH.initData.readable ∧
    noffH.readonlyRounds ≤ noffH.readonlyData.readable

instance (noffH : NoffHeader) (numPages : ℕ) :
    Decidable (noffH.SegmentsInside numPages) := by
  unfold SegmentsInside
  infer_instance

instance (noffH : NoffHeader) : Decidable noffH.SegmentsRead := by
  unfold SegmentsRead
  infer_instance

end NoffHeader

namespace AddrSpace

section Image

variable {space : AddrSpace} {entries : List TranslationEntry}
variable {executable : OpenFile} {noffH : NoffHeader} {k : Kernel}

theorem copySegments_eq
    (space : AddrSpace) (executable : OpenFile) (noffH : NoffHeader)
    (k : Kernel) : space.copySegments executable noffH k =
      countedLoop (space.copyByte executable noffH.code) 0
        (rounds noffH.code.size) k >>= fun k =>
      countedLoop (space.zeroByte noffH.uninitData) 0
        (rounds noffH.uninitData.size) k >>= fun k =>
      countedLoop (space.copyByte executable noffH.initData) 0
        (rounds noffH.initData.size) k >>=
      countedLoop (space.copyByte executable noffH.readonlyData) 0
        noffH.readonlyRounds := by
  unfold copySegments NoffHeader.readonlyRounds
  by_cases hsize : 0 < noffH.readonlyData.size.toInt
  · simp only [if_pos hsize]
  · simp only [if_neg hsize]
    rfl

/-- The three ends of the copying of the image. -/
theorem Mapped.copySegments_cases (hmap : space.Mapped entries)
    (noffH : NoffHeader)
    (hopen : ∃ position,
      k.host.file executable.file = some position) :
    (noffH.SegmentsInside space.numPages ∧ noffH.SegmentsRead ∧
      ∃ k', space.copySegments executable noffH k = .ok k' ∧
        space.Copies executable k k') ∨
    (noffH.SegmentsInside space.numPages ∧ ¬noffH.SegmentsRead ∧
      space.copySegments executable noffH k = .error .abort) ∨
    (¬noffH.SegmentsInside space.numPages ∧
      space.copySegments executable noffH k =
        .error .undefinedBehaviour) := by
  rw [copySegments_eq, NoffHeader.SegmentsInside, NoffHeader.SegmentsRead]
  rcases hmap.copySegment_cases noffH.code (rounds noffH.code.size) hopen with
    ⟨hcode, hreadCode, k₁, hloop₁, hcopies₁⟩ |
      ⟨hcode, hstops, hloop₁⟩ | ⟨hcode, hloop₁⟩
  · rw [hloop₁, ok_bind]
    rcases hmap.zeroSegment_cases noffH.uninitData
      (rounds noffH.uninitData.size) hcopies₁.open with
      ⟨huninit, k₂, hloop₂, hcopies₂⟩ | ⟨huninit, hloop₂⟩
    · rw [hloop₂, ok_bind]
      rcases hmap.copySegment_cases noffH.initData
        (rounds noffH.initData.size) hcopies₂.open with
        ⟨hinit, hreadInit, k₃, hloop₃, hcopies₃⟩ |
          ⟨hinit, hstops, hloop₃⟩ | ⟨hinit, hloop₃⟩
      · rw [hloop₃, ok_bind]
        rcases hmap.copySegment_cases noffH.readonlyData
          noffH.readonlyRounds hcopies₃.open with
          ⟨hreadonly, hread, k₄, hloop₄, hcopies₄⟩ |
            ⟨hreadonly, hstops, hloop₄⟩ | ⟨hreadonly, hloop₄⟩
        · exact .inl ⟨⟨hcode, fun _ => ⟨huninit, hinit, fun _ => hreadonly⟩⟩,
            ⟨hreadCode, hreadInit, hread⟩, k₄, hloop₄,
            ((hcopies₁.trans hcopies₂).trans hcopies₃).trans hcopies₄⟩
        · exact .inr (.inl
            ⟨⟨hcode, fun _ => ⟨huninit, hinit, fun _ => hreadonly⟩⟩,
              fun hall => hstops.not_ge hall.2.2, hloop₄⟩)
        · exact .inr (.inr ⟨fun hall =>
            hreadonly ((hall.2 hreadCode).2.2 hreadInit), hloop₄⟩)
      · refine .inr (.inl ⟨⟨hcode, fun _ => ⟨huninit, hinit, ?_⟩⟩,
          fun hall => hstops.not_ge hall.2.1, by rw [hloop₃, error_bind]⟩)
        exact fun hread => (hstops.not_ge hread).elim
      · exact .inr (.inr ⟨fun hall => hinit (hall.2 hreadCode).2.1,
          by rw [hloop₃, error_bind]⟩)
    · exact .inr (.inr ⟨fun hall => huninit (hall.2 hreadCode).1,
        by rw [hloop₂, error_bind]⟩)
  · refine .inr (.inl ⟨⟨hcode, ?_⟩, fun hall => hstops.not_ge hall.1,
      by rw [hloop₁, error_bind]⟩)
    exact fun hread => (hstops.not_ge hread).elim
  · exact .inr (.inr ⟨fun hall => hcode hall.1, by rw [hloop₁, error_bind]⟩)

end Image

/-! ## The executable -/

/-- The file of a program while it is loaded. -/
structure Executable (k : Kernel) (f : OpenFile) : Prop where
  «open» : ∃ position, k.host.file f.file = some position
  slot : k.fileSystem.fileSlot f.fileDescriptorId =
    .object (.ofFile (.object f))
  low : 2 ≤ f.fileDescriptorId
  high : f.fileDescriptorId < maxFileOpen

theorem file_of_readAt
    {f : OpenFile} {h h' : Host} {numBytes : ℕ} {place : ℤ}
    {answer : HostAnswer} {bytes : Option (List (BitVec 8))}
    (hread : f.readAt h numBytes place answer = .ok (bytes, h')) :
    ∃ position, h'.file f.file = some position := by
  rcases ok_of_bind hread with ⟨sought, hlseek, hresult⟩
  have hsought : ∃ position, sought.file f.file = some position := by
    unfold Host.lseek at hlseek
    split at hlseek
    next position hfile =>
      split at hlseek
      · cases hlseek
        exact ⟨_, Host.file_setFile_self hfile _⟩
      · cases hlseek
    next => cases hlseek
  rcases hsought with ⟨position, hfile⟩
  cases answer with
  | none =>
      rw [Host.readPartial_none] at hresult
      cases hresult
      exact ⟨position, hfile⟩
  | some limit =>
      rw [Host.readPartial_eq hfile] at hresult
      cases hresult
      exact ⟨_, Host.file_setFile_self hfile _⟩

theorem executable_of_openNamed
    {k : Kernel} {fileName : CString} {garbageType : ℤ} {f : OpenFile}
    {fs : FileSystem} {h : Host}
    (hopen : k.fileSystem.openNamed k.host fileName garbageType =
      (some f, fs, h)) :
    Executable { k with fileSystem := fs, host := h } f := by
  unfold FileSystem.openNamed Host.openForReadWrite at hopen
  cases hinode : k.host.directory fileName with
  | none => simp [hinode] at hopen
  | some inode =>
      cases hfree : k.fileSystem.findFreeSlot with
      | none => simp [hinode, hfree] at hopen
      | some id =>
          simp only [hinode, hfree, Option.map_some] at hopen
          cases hopen
          rcases FileSystem.findFreeSlot_spec hfree with ⟨hlow, hhigh, -⟩
          constructor
          case «open» => exact ⟨⟨inode, 0⟩, by simp [Host.file, Host.openInode]⟩
          case slot => simp [FileSystem.setSlot]
          case low => exact hlow
          case high => exact hhigh

theorem Executable.readHeader
    {k : Kernel} {f : OpenFile} (hexec : Executable k f) {rdata : Bool}
    {garbage : LoadGarbage} {noffH : NoffHeader} {h : Host}
    (hheader : readHeaderIn rdata f k.host garbage = .ok (noffH, h)) :
    Executable { k with host := h } f := by
  refine ⟨?_, hexec.slot, hexec.low, hexec.high⟩
  unfold readHeaderIn AddrSpace.readHeader at hheader
  split at hheader
  · rcases ok_of_bind hheader with ⟨⟨bytes, host⟩, hread, hresult⟩
    have hfile := file_of_readAt hread
    simp only at hresult
    split at hresult <;> cases hresult <;> exact hfile
  · rcases ok_of_bind hheader with ⟨⟨bytes, host⟩, hread, hresult⟩
    have hfile := file_of_readAt hread
    simp only at hresult
    split at hresult <;> cases hresult <;> exact hfile

theorem Executable.closeFile
    {k : Kernel} {f : OpenFile} (hexec : Executable k f) :
    ∃ h, k.fileSystem.closeFile k.host f.fileDescriptorId =
      .ok (0, k.fileSystem.setSlot f.fileDescriptorId .null, h) := by
  rcases hexec.open with ⟨position, hfile⟩
  have hlow := hexec.low
  have hhigh := hexec.high
  have hrange : ¬((f.fileDescriptorId : ℤ) < 2 ∨
      (f.fileDescriptorId : ℤ) ≥ maxFileOpen) := by
    omega
  refine ⟨k.host.setFile f.file none, ?_⟩
  simp only [FileSystem.closeFile, if_neg hrange, Int.toNat_natCast,
    hexec.slot, Pointer.isNull, Pointer.deref_object, ok_bind]
  simp only [FileSlot.delete, FileSlot.ofFile, FileSlot.deleteFile,
    Pointer.isNull, Pointer.deref_object, ok_bind, Host.close, hfile]
  rfl

theorem Executable.of_copies
    {space : AddrSpace} {k k' : Kernel} {f : OpenFile}
    (hexec : Executable k f) (hcopies : space.Copies f k k') :
    Executable k' f where
  «open» := hcopies.open
  slot := by rw [hcopies.fileSystem, hexec.slot]
  low := hexec.low
  high := hexec.high

end AddrSpace

/-! ## Staying inside -/

namespace NoffHeader

open AddrSpace (rounds ArgumentsFit)

/-- The image and the arguments lie in the pages of the address space. -/
def ImageFits (noffH : NoffHeader) (argv : List CString) : Prop :=
  noffH.code.Inside (rounds noffH.code.size) noffH.numPages ∧
    noffH.initData.Inside (rounds noffH.initData.size) noffH.numPages ∧
    noffH.readonlyData.Inside (rounds noffH.readonlyData.size)
      noffH.numPages ∧
    noffH.uninitData.Inside (rounds noffH.uninitData.size) noffH.numPages ∧
    ArgumentsFit noffH.numPages argv

/-- The headers and arguments `Load` can deal with when `free` frames are
free. -/
def CanLoad (noffH : NoffHeader) (argv : List CString) (free : ℕ) : Prop :=
  noffH.numPages ≤ free ∧
    noffH.SegmentsInside noffH.numPages ∧
    (noffH.SegmentsRead →
      noffH.readonlyData.Inside (rounds noffH.readonlyData.size)
          noffH.numPages ∧
        ArgumentsFit noffH.numPages argv)

/-- Loops that end before the file does have copied their segments. -/
theorem SegmentsInside.imageFits
    {noffH : NoffHeader} {argv : List CString}
    (hinside : noffH.SegmentsInside noffH.numPages)
    (hread : noffH.SegmentsRead)
    (hrest : noffH.readonlyData.Inside (rounds noffH.readonlyData.size)
        noffH.numPages ∧ ArgumentsFit noffH.numPages argv) :
    noffH.ImageFits argv := by
  rcases hinside with ⟨hcode, hothers⟩
  rcases hread with ⟨hcodeRead, hinitRead, -⟩
  rcases hothers hcodeRead with ⟨huninit, hinit, -⟩
  have hall : ∀ {segment : Segment} {count numPages : ℕ},
      segment.CopiesInside count numPages → count ≤ segment.readable →
        segment.Inside count numPages := by
    intro segment count numPages hcopies hle
    unfold Segment.CopiesInside Segment.Inside at *
    omega
  exact ⟨hall hcode hcodeRead, hall hinit hinitRead, hrest.1, huninit,
    hrest.2⟩

instance (noffH : NoffHeader) (argv : List CString) (free : ℕ) :
    Decidable (noffH.CanLoad argv free) := by
  unfold CanLoad
  infer_instance

end NoffHeader

namespace AddrSpace

/-- `Load` aborts, or returns with all that it loads inside the pages, and has
written to frames only that were free and are now those of the space. -/
def LoadsInside (k : Kernel) (noffH : NoffHeader) (argv : List CString)
    (result : Except Fault (Bool × AddrSpace × Kernel)) : Prop :=
  result = .error .abort ∨
    ∃ success space k', result = .ok (success, space, k') ∧
      (success = true → noffH.ImageFits argv) ∧
      ∀ paddr : ℕ,
        k'.machine.mainMemory paddr ≠ k.machine.mainMemory paddr →
          ((paddr / pageSize : ℕ) : ℤ) ∈ space.physicalPages ∧
            ¬k.machine.pageTableMap.Holds (paddr / pageSize : ℕ)

section Loading

variable {space : AddrSpace} {executable : OpenFile} {noffH : NoffHeader}
variable {k : Kernel} {argv : List CString}

theorem not_loadsInside_undefined :
    ¬LoadsInside k noffH argv (.error .undefinedBehaviour) := by
  rintro (habort | ⟨success, space, k', hok, -⟩)
  · cases habort
  · cases hok

theorem loadsInside_pure {k' : Kernel} :
    LoadsInside k noffH argv (pure (true, space, k')) ↔
      noffH.ImageFits argv ∧ ∀ paddr : ℕ,
        k'.machine.mainMemory paddr ≠ k.machine.mainMemory paddr →
          ((paddr / pageSize : ℕ) : ℤ) ∈ space.physicalPages ∧
            ¬k.machine.pageTableMap.Holds (paddr / pageSize : ℕ) := by
  constructor
  · rintro (habort | ⟨success, space', k'', hok, himage, hchanged⟩)
    · cases habort
    · cases hok
      exact ⟨himage rfl, hchanged⟩
  · rintro ⟨himage, hchanged⟩
    exact .inr ⟨true, space, k', rfl, fun _ => himage, hchanged⟩

/-- `Load` once the page table is there. -/
theorem loadImage_of_allocated {space' : AddrSpace} {machine : Machine}
    {argc : ℤ} (hmagic : noffH.noffMagic = noffMagicNumber)
    (hallocate : space.allocateMemory k.machine noffH.numPages =
      .ok (space', machine))
    (hsmall : noffH.numPages ≤ numPhysPages) :
    space.loadImage executable noffH k argc argv =
      space'.copySegments executable noffH { k with machine := machine } >>=
        fun k => space'.copyArguments k.machine argc argv >>= fun s =>
        k.fileSystem.closeFile k.host executable.fileDescriptorId >>=
        fun t => pure (true, s.1, { k with
          machine := s.2, fileSystem := t.2.1, host := t.2.2 }) := by
  simp only [loadImage, assert_of_true hmagic, ok_bind, hallocate,
    assert_of_true hsmall]

theorem loadImage_tooFew {argc : ℤ}
    (hmagic : noffH.noffMagic = noffMagicNumber)
    (hbits : k.machine.pageTableMap.numBits = numPhysPages)
    (hfew : ¬noffH.numPages ≤
      numPhysPages - k.machine.pageTableMap.marked.card) :
    space.loadImage executable noffH k argc argv =
      .error .undefinedBehaviour := by
  have hallocate := @allocateMemory_tooFew space k.machine noffH.numPages
    (by omega)
  simp only [loadImage, assert_of_true hmagic, ok_bind, hallocate,
    error_bind]

/-- What is written after the allocation lies in the granted frames. -/
theorem changed_inside {space' : AddrSpace} {entries : List TranslationEntry}
    {bm : Bitmap} {m' : Machine}
    (hgranted : Granted k.machine.pageTableMap bm entries)
    (htable : space'.pageTable = .table entries)
    (hwrites : space'.Writes { k.machine with
      pageTableMap := bm
      mainMemory := zeroed (entries.map TranslationEntry.physicalPage)
        k.machine.mainMemory } m')
    (paddr : ℕ)
    (hchanged : m'.mainMemory paddr ≠ k.machine.mainMemory paddr) :
    ((paddr / pageSize : ℕ) : ℤ) ∈ space'.physicalPages ∧
      ¬k.machine.pageTableMap.Holds (paddr / pageSize : ℕ) := by
  have hpages : space'.physicalPages =
      entries.map TranslationEntry.physicalPage := by
    simp only [physicalPages, htable]
  have hmem : ((paddr / pageSize : ℕ) : ℤ) ∈ space'.physicalPages := by
    by_contra hout
    have hsame : m'.mainMemory paddr =
        zeroed (entries.map TranslationEntry.physicalPage)
          k.machine.mainMemory paddr := by
      by_contra hne
      exact hout (hwrites.inside paddr hne)
    rw [hpages] at hout
    exact hchanged (hsame.trans (if_neg hout))
  refine ⟨hmem, ?_⟩
  rw [hpages] at hmem
  rcases List.mem_map.mp hmem with ⟨entry, hentry, heq⟩
  rw [← heq]
  exact hgranted.free entry hentry

/-- `Load` of an image into free frames. -/
theorem loadImage_inside_iff
    (space : AddrSpace) (argv : List CString)
    (hmagic : noffH.noffMagic = noffMagicNumber)
    (hbits : k.machine.pageTableMap.numBits = numPhysPages)
    (hexec : Executable k executable) :
    LoadsInside k noffH argv
        (space.loadImage executable noffH k argv.length argv) ↔
      noffH.CanLoad argv
        (numPhysPages - k.machine.pageTableMap.marked.card) := by
  by_cases hfree : noffH.numPages ≤
      numPhysPages - k.machine.pageTableMap.marked.card
  · have hle := k.machine.pageTableMap.card_marked_le
    have hroom : k.machine.pageTableMap.marked.card + noffH.numPages ≤
        numPhysPages := by omega
    rcases space.allocateMemory_mapped k.machine hbits hroom with
      ⟨bm, entries, hgranted, hmap, hallocate⟩
    rw [loadImage_of_allocated hmagic hallocate (by omega)]
    set space' : AddrSpace := { space with
      numPages := noffH.numPages, pageTable := .table entries }
    set k₀ : Kernel := { k with machine := { k.machine with
      pageTableMap := bm
      mainMemory := zeroed (entries.map TranslationEntry.physicalPage)
        k.machine.mainMemory } }
    have hexec₀ : Executable k₀ executable :=
      ⟨hexec.open, hexec.slot, hexec.low, hexec.high⟩
    rcases hmap.copySegments_cases noffH hexec₀.open with
      ⟨hinside, hread, k₁, hcopy, hcopies⟩ | ⟨hinside, hstops, hcopy⟩ |
        ⟨houtside, hcopy⟩
    · rw [hcopy, ok_bind]
      by_cases hargs : ArgumentsFit noffH.numPages argv
      · rcases hmap.copyArguments k₁.machine hargs with
          ⟨m', hblock, hstored⟩
        rcases (hexec₀.of_copies hcopies).closeFile with ⟨h, hclose⟩
        rw [hblock, ok_bind, hclose, ok_bind]
        have hchanged := changed_inside hgranted hmap.table
          (hcopies.writes.trans hstored.writes)
        rw [loadsInside_pure, physicalPages_withArguments]
        constructor
        · rintro ⟨himage, -⟩
          exact ⟨hfree, hinside, fun _ => ⟨himage.2.2.1, hargs⟩⟩
        · intro hcan
          exact ⟨hinside.imageFits hread (hcan.2.2 hread), hchanged⟩
      · rw [hmap.copyArguments_misfit k₁.machine hargs, error_bind]
        refine iff_of_false not_loadsInside_undefined ?_
        exact fun hcan => hargs (hcan.2.2 hread).2
    · rw [hcopy, error_bind]
      refine iff_of_true (.inl rfl) ⟨hfree, hinside, ?_⟩
      exact fun hread => (hstops hread).elim
    · rw [hcopy, error_bind]
      refine iff_of_false not_loadsInside_undefined ?_
      exact fun hcan => houtside hcan.2.1
  · rw [loadImage_tooFew hmagic hbits hfree]
    refine iff_of_false not_loadsInside_undefined ?_
    exact fun hcan => hfree hcan.1

/-- `Load` of a file that can be opened. -/
theorem loadIn_of_open
    (space : AddrSpace) {rdata : Bool} (garbage : LoadGarbage)
    {fileName : CString}
    {fileSystem : FileSystem} {h h' : Host}
    (hopen : k.fileSystem.openNamed k.host fileName garbage.openType =
      (some executable, fileSystem, h))
    (hheader : readHeaderIn rdata executable h garbage = .ok (noffH, h'))
    (argc : ℤ) (argv : List CString) :
    space.loadIn rdata k garbage fileName argc argv =
        space.loadImage executable noffH
          { k with fileSystem := fileSystem, host := h' } argc argv ∧
      Executable { k with fileSystem := fileSystem, host := h' }
        executable := by
  refine ⟨?_, (executable_of_openNamed hopen).readHeader hheader⟩
  simp only [loadIn, hopen, hheader, ok_bind]

/-- `Load` of an executable, in either build, stays inside the new address
space if and only if there are frames enough and the loops that are reached
and the argument block stay below the last page. -/
theorem load_inside_iff
    {rdata : Bool} {garbage : LoadGarbage} {fileName : CString}
    {fileSystem : FileSystem} {h h' : Host}
    (hbits : k.machine.pageTableMap.numBits = numPhysPages)
    (hopen : k.fileSystem.openNamed k.host fileName garbage.openType =
      (some executable, fileSystem, h))
    (hheader : readHeaderIn rdata executable h garbage = .ok (noffH, h'))
    (hmagic : noffH.noffMagic = noffMagicNumber) :
    LoadsInside k noffH argv
        (space.loadIn rdata k garbage fileName argv.length argv) ↔
      noffH.CanLoad argv
        (numPhysPages - k.machine.pageTableMap.marked.card) := by
  rcases loadIn_of_open space garbage hopen hheader argv.length argv with
    ⟨heq, hexec⟩
  rw [heq]
  exact loadImage_inside_iff (k := { k with
    fileSystem := fileSystem, host := h' }) space argv hmagic hbits hexec

end Loading

/-! ## Executables that are not loaded inside -/

/-- A machine with free frames only, and an executable whose header has the
words. -/
def imageKernel (words : List (BitVec 32)) : Kernel :=
  { fullKernel with
    machine := { fullKernel.machine with
      pageTableMap := ⟨numPhysPages, List.replicate 4 0, rfl⟩ }
    host := { fullKernel.host with
      contents := fun _ => words.flatMap wordBytes } }

theorem imageKernel_free (words : List (BitVec 32)) :
    numPhysPages - (imageKernel words).machine.pageTableMap.marked.card =
      numPhysPages := by
  change numPhysPages -
    (⟨numPhysPages, List.replicate 4 0, rfl⟩ : Bitmap).marked.card = _
  decide +kernel

theorem wordAt_take {bytes : List (BitVec 8)} {i : ℕ} (hlt : i + 3 < 52) :
    NoffHeader.wordAt (bytes.take 52) i = NoffHeader.wordAt bytes i := by
  have hget : ∀ j < 52, (bytes.take 52).getD j 0 = bytes.getD j 0 := by
    intro j hj
    rw [List.getD_eq_getElem?_getD, List.getElem?_take_of_lt hj,
      List.getD_eq_getElem?_getD]
  rw [NoffHeader.wordAt, hget _ hlt, hget _ (by omega), hget _ (by omega),
    hget _ (by omega), NoffHeader.wordAt]

theorem ofBytes_take (bytes : List (BitVec 8)) :
    NoffHeader.ofBytes (bytes.take 52) = NoffHeader.ofBytes bytes := by
  simp only [NoffHeader.ofBytes, NoffHeader.segmentAt]
  repeat rw [wordAt_take (by omega)]

/-- The header that `Load` reads from the file `[97]`. -/
theorem imageKernel_header (words : List (BitVec 32)) :
    ∃ executable fileSystem h h',
      (imageKernel words).fileSystem.openNamed (imageKernel words).host [97]
          0 = (some executable, fileSystem, h) ∧
        readHeaderIn true executable h ⟨0, []⟩ =
          .ok (NoffHeader.ofBytes (words.flatMap wordBytes), h') := by
  have hread : ∃ h', OpenFile.readAt ⟨0, .object [97], 0, 0, 2⟩
      ((imageKernel words).host.openInode 0).2 noffHeaderSize 0
        (some noffHeaderSize) =
      .ok (some ((words.flatMap wordBytes).take 52), h') := ⟨_, rfl⟩
  rcases hread with ⟨h', hread⟩
  refine ⟨⟨0, .object [97], 0, 0, 2⟩, _,
    ((imageKernel words).host.openInode 0).2, h', rfl, ?_⟩
  simp only [readHeaderIn, if_true, readHeader, hread, ok_bind,
    Option.getD_some, List.drop_nil, List.append_nil, ofBytes_take]
  exact if_neg fun hswap => hswap.1 hswap.2

/-- The header of the words. -/
def imageHeader (words : List (BitVec 32)) : NoffHeader :=
  NoffHeader.ofBytes (words.flatMap wordBytes)

/-- `Load` of the executable by a process with the arguments. -/
def loadWords (words : List (BitVec 32)) (argv : List CString) :
    Except Fault (Bool × AddrSpace × Kernel) :=
  (new ⟨0, 0, 0, 0, 0⟩).loadIn true (imageKernel words) ⟨0, []⟩ [97]
    argv.length argv

/-- An image `Load` cannot deal with. -/
theorem loadWords_outside {words : List (BitVec 32)} {argv : List CString}
    (hmagic : (imageHeader words).noffMagic = noffMagicNumber)
    (hcannot : ¬(imageHeader words).CanLoad argv numPhysPages) :
    ¬LoadsInside (imageKernel words) (imageHeader words) argv
      (loadWords words argv) := by
  rcases imageKernel_header words with
    ⟨executable, fileSystem, h, h', hopen, hheader⟩
  rcases loadIn_of_open (new ⟨0, 0, 0, 0, 0⟩) ⟨0, []⟩ hopen hheader
    argv.length argv with ⟨heq, hexec⟩
  have hiff := loadImage_inside_iff
    (k := { imageKernel words with fileSystem := fileSystem, host := h' })
    (new ⟨0, 0, 0, 0, 0⟩) argv hmagic rfl hexec
  rw [loadWords, heq]
  intro hinside
  have hcan := hiff.mp hinside
  rw [imageKernel_free] at hcan
  exact hcannot hcan

/-- Code only, at the start of the space. -/
def codeOnly : List (BitVec 32) :=
  [noffMagicNumber, 0, 52, 64, 0, 0, 0, 0, 0, 0, 0, 0, 0]

/-- A code segment behind the last page. -/
def segmentBehind : List (BitVec 32) :=
  [noffMagicNumber, 2000, 52, 1, 0, 0, 0, 0, 0, 0, 0, 0, 0]

/-- Read-only data behind 2048 bytes of code. -/
def readonlyBehindCode : List (BitVec 32) :=
  [noffMagicNumber, 0, 52, 2048, 0, 0, 0, 2048, 2100, 4, 0, 0, 0]

theorem load_inside_codeOnly :
    LoadsInside (imageKernel codeOnly) (imageHeader codeOnly) [[97]]
      (loadWords codeOnly [[97]]) := by
  rcases imageKernel_header codeOnly with
    ⟨executable, fileSystem, h, h', hopen, hheader⟩
  have hmagic : (imageHeader codeOnly).noffMagic = noffMagicNumber := by
    decide +kernel
  apply (load_inside_iff rfl hopen hheader hmagic).mpr
  rw [imageKernel_free]
  decide +kernel

/-- Each of a segment behind the last page, a loop that is bounded by an
address and forty long arguments makes `Load` leave the address space. -/
theorem load_leaves_space :
    ¬LoadsInside (imageKernel segmentBehind) (imageHeader segmentBehind)
        [[97]] (loadWords segmentBehind [[97]]) ∧
      ¬LoadsInside (imageKernel readonlyBehindCode)
        (imageHeader readonlyBehindCode) [[97]]
        (loadWords readonlyBehindCode [[97]]) ∧
      ¬LoadsInside (imageKernel codeOnly) (imageHeader codeOnly)
        (List.replicate 40 (List.replicate 33 97))
        (loadWords codeOnly (List.replicate 40 (List.replicate 33 97))) := by
  refine ⟨?_, ?_, ?_⟩
  · exact loadWords_outside (by decide +kernel) (by decide +kernel)
  · exact loadWords_outside (by decide +kernel) (by decide +kernel)
  · exact loadWords_outside (by decide +kernel) (by decide +kernel)

end AddrSpace

end Nachos
