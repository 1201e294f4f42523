import Nachos.LoadedImage

/-!
# The read-only data of a program

The loop over the read-only data runs up to its address, not up to its size.
It stops short when the segment is longer than its address is large, and goes
on into what lies behind the segment when the segment is shorter.
-/

namespace Nachos

open Library

namespace Segment

open AddrSpace (rounds)

theorem covers_add {segment : Segment} {i : ℕ} (hi : i < rounds segment.size) :
    segment.Covers (segment.virtualAddr.toNat + i) :=
  ⟨Nat.le_add_right _ _, Nat.add_lt_add_left hi _⟩

/-- An address that two segments apart from each other both count up to lies
behind one of them. -/
theorem Apart.behind {segment other : Segment} (hapart : segment.Apart other)
    {i j : ℕ} (hj : j < rounds other.size)
    (heq : segment.virtualAddr.toNat + i = other.virtualAddr.toNat + j) :
    rounds segment.size ≤ i := by
  unfold Apart at hapart
  omega

end Segment

namespace NoffHeader

open AddrSpace (rounds)

/-- The loop that runs up to the address does no harm: it ends inside the
pages and the file positions, the bytes it leaves out are zero in the file,
and the bytes behind the segment are those that lie there anyway. -/
structure ReadonlyHarmless (noffH : NoffHeader) (file : List (BitVec 8)) :
    Prop where
  reads : noffH.SegmentsRead
  inside : noffH.readonlyData.Inside noffH.readonlyRounds noffH.numPages
  leftOut : ∀ i < rounds noffH.readonlyData.size,
    noffH.readonlyData.virtualAddr.toNat ≤ i →
      file[noffH.readonlyData.inFileAddr.toNat + i]? = some 0
  copied : ∀ segment ∈ [noffH.code, noffH.initData], ∀ i j byte,
    rounds noffH.readonlyData.size ≤ i →
    i < noffH.readonlyData.virtualAddr.toNat → j < rounds segment.size →
    noffH.readonlyData.virtualAddr.toNat + i =
      segment.virtualAddr.toNat + j →
    file[noffH.readonlyData.inFileAddr.toNat + i]? = some byte →
      file[segment.inFileAddr.toNat + j]? = some byte
  zeroed : ∀ i byte, rounds noffH.readonlyData.size ≤ i →
    i < noffH.readonlyData.virtualAddr.toNat →
    noffH.uninitData.Covers (noffH.readonlyData.virtualAddr.toNat + i) →
    file[noffH.readonlyData.inFileAddr.toNat + i]? = some byte → byte = 0

section Readonly

variable {noffH : NoffHeader} {file : List (BitVec 8)} {argv : List CString}

/-- A segment that is not empty lies at a small address. -/
theorem readonlyRounds_eq (hplaced : noffH.Placed file argv)
    (hsmall : noffH.numPages ≤ numPhysPages)
    (hpositive : 0 < noffH.readonlyData.size.toInt) :
    noffH.readonlyRounds = noffH.readonlyData.virtualAddr.toNat := by
  have hsize : noffH.numPages * pageSize ≤ 16384 :=
    Nat.mul_le_mul_right pageSize hsmall
  have hbelow := hplaced.below noffH.readonlyData (by simp)
  have hrounds : rounds noffH.readonlyData.size ≠ 0 := by
    unfold AddrSpace.rounds
    omega
  unfold Segment.Below argumentStart at hbelow
  rw [readonlyRounds, if_pos hpositive, AddrSpace.rounds,
    BitVec.toInt_eq_toNat_cond, if_pos (by omega), Int.toNat_natCast]

end Readonly

end NoffHeader

namespace AddrSpace

section Image

variable {noffH : NoffHeader} {file : List (BitVec 8)} {argv : List CString}

/-- Where the last loop has read a byte, it is the byte of the image. -/
theorem programImage_copied {i : ℕ} {byte : BitVec 8}
    (hlt : i < noffH.readonlyRounds)
    (hbyte : file[noffH.readonlyData.inFileAddr.toNat + i]? = some byte) :
    programImage file noffH (noffH.readonlyData.virtualAddr.toNat + i) =
      byte := by
  apply overlay_inside
  rw [segmentBytes_getElem? _ _ hlt, hbyte]

/-- Elsewhere the other segments are seen. -/
theorem programImage_base {address : ℕ}
    (hnone : ∀ i < noffH.readonlyRounds,
      address = noffH.readonlyData.virtualAddr.toNat + i →
        file[noffH.readonlyData.inFileAddr.toNat + i]? = none) :
    programImage file noffH address = baseImage file noffH address := by
  apply overlay_outside
  rintro ⟨hle, hlt⟩
  obtain ⟨i, rfl⟩ := Nat.exists_eq_add_of_le hle
  have hread : i < (segmentBytes file noffH.readonlyData
      noffH.readonlyRounds).length := by omega
  have hround : i < noffH.readonlyRounds :=
    hread.trans_le (List.length_take_le _ _)
  have hget := List.getElem?_eq_getElem hread
  rw [segmentBytes_getElem? _ _ hround, hnone i hround rfl] at hget
  cases hget

/-- A segment of the file is in the image as it is below the last loop, when
that loop agrees with it. -/
theorem programImage_segment {segment : Segment} {j : ℕ}
    (hbase : file[segment.inFileAddr.toNat + j]? =
      some (baseImage file noffH (segment.virtualAddr.toNat + j)))
    (hagrees : ∀ i byte, i < noffH.readonlyRounds →
      noffH.readonlyData.virtualAddr.toNat + i =
        segment.virtualAddr.toNat + j →
      file[noffH.readonlyData.inFileAddr.toNat + i]? = some byte →
        file[segment.inFileAddr.toNat + j]? = some byte) :
    file[segment.inFileAddr.toNat + j]? =
      some (programImage file noffH (segment.virtualAddr.toNat + j)) := by
  by_cases hread : ∃ i byte, i < noffH.readonlyRounds ∧
      noffH.readonlyData.virtualAddr.toNat + i =
        segment.virtualAddr.toNat + j ∧
      file[noffH.readonlyData.inFileAddr.toNat + i]? = some byte
  · obtain ⟨i, byte, hlt, heq, hbyte⟩ := hread
    rw [hagrees i byte hlt heq hbyte, ← heq, programImage_copied hlt hbyte]
  · rw [hbase, programImage_base]
    intro i hlt heq
    by_contra hsome
    obtain ⟨byte, hbyte⟩ := Option.ne_none_iff_exists'.mp hsome
    exact hread ⟨i, byte, hlt, heq.symm, hbyte⟩

/-- The uninitialised data stays zero when the last loop copies zeros. -/
theorem programImage_uninitData (hplaced : noffH.Placed file argv) {j : ℕ}
    (hj : j < rounds noffH.uninitData.size)
    (hzero : ∀ i byte, i < noffH.readonlyRounds →
      noffH.readonlyData.virtualAddr.toNat + i =
        noffH.uninitData.virtualAddr.toNat + j →
      file[noffH.readonlyData.inFileAddr.toNat + i]? = some byte →
        byte = 0) :
    programImage file noffH (noffH.uninitData.virtualAddr.toNat + j) = 0 := by
  obtain ⟨-, -, hcodeApart, -, hinitApart, -⟩ := hplaced.apart_all
  have hcovers := Segment.covers_add hj
  by_cases hread : ∃ i byte, i < noffH.readonlyRounds ∧
      noffH.readonlyData.virtualAddr.toNat + i =
        noffH.uninitData.virtualAddr.toNat + j ∧
      file[noffH.readonlyData.inFileAddr.toNat + i]? = some byte
  · obtain ⟨i, byte, hlt, heq, hbyte⟩ := hread
    rw [← heq, programImage_copied hlt hbyte, hzero i byte hlt heq hbyte]
  · rw [programImage_base, baseImage_other hplaced
      (hcodeApart.symm.not_covers hcovers)
      (hinitApart.symm.not_covers hcovers)]
    intro i hlt heq
    by_contra hsome
    obtain ⟨byte, hbyte⟩ := Option.ne_none_iff_exists'.mp hsome
    exact hread ⟨i, byte, hlt, heq.symm, hbyte⟩

end Image

/-! ## The image with read-only data -/

/-- The program finds each segment as the header prescribes it. -/
structure ReadonlyImage (file : List (BitVec 8)) (noffH : NoffHeader)
    (space : AddrSpace) (entries : List TranslationEntry) (m : Machine) :
    Prop where
  table : space.pageTable = .table entries
  readonlyData : SegmentLoaded entries m file noffH.readonlyData
  code : SegmentLoaded entries m file noffH.code
  initData : SegmentLoaded entries m file noffH.initData
  uninitData : ∀ i < rounds noffH.uninitData.size,
    (install entries m).userByte
      (noffH.uninitData.virtualAddr + BitVec.ofNat 32 i) = some 0

section Loaded

variable {noffH : NoffHeader} {file : List (BitVec 8)} {argv : List CString}
variable {space : AddrSpace} {entries : List TranslationEntry}
variable {m m' : Machine}

theorem ImageLoaded.segments_byte
    (hloaded : ImageLoaded file noffH argv m space entries m')
    (hsmall : noffH.numPages ≤ numPhysPages)
    (hfits : ArgumentsFit noffH.numPages argv)
    (hplaced : noffH.Placed file argv) :
    ∀ segment ∈ [noffH.code, noffH.initData, noffH.readonlyData,
      noffH.uninitData], ∀ i < rounds segment.size,
      (install entries m').userByte
          (segment.virtualAddr + BitVec.ofNat 32 i) =
        some (programImage file noffH (segment.virtualAddr.toNat + i)) := by
  intro segment hmem i hi
  exact hloaded.segment_byte hsmall hfits (hplaced.below segment hmem) hi

/-- The image is right if the loop does no harm. -/
theorem ImageLoaded.readonlyImage
    (hloaded : ImageLoaded file noffH argv m space entries m')
    (hsmall : noffH.numPages ≤ numPhysPages)
    (hfits : ArgumentsFit noffH.numPages argv)
    (hplaced : noffH.Placed file argv)
    (hpositive : 0 < noffH.readonlyData.size.toInt)
    (hharmless : noffH.ReadonlyHarmless file) :
    ReadonlyImage file noffH space entries m' := by
  have hrounds := NoffHeader.readonlyRounds_eq hplaced hsmall hpositive
  have hreadonlyIn := hplaced.inFile noffH.readonlyData (by simp)
  have hbyte := hloaded.segments_byte hsmall hfits hplaced
  -- only the bytes behind the read-only data can be bytes of others
  have hagrees : ∀ segment ∈ [noffH.code, noffH.initData],
      noffH.readonlyData.Apart segment → ∀ j < rounds segment.size,
      ∀ i byte, i < noffH.readonlyRounds →
      noffH.readonlyData.virtualAddr.toNat + i =
        segment.virtualAddr.toNat + j →
      file[noffH.readonlyData.inFileAddr.toNat + i]? = some byte →
        file[segment.inFileAddr.toNat + j]? = some byte := by
    intro segment hmem hapart j hj i byte hi heq hget
    have hbehind := hapart.behind hj heq
    exact hharmless.copied segment hmem i j byte hbehind (by omega) hj heq
      hget
  obtain ⟨-, hcodeApart, -, hinitApart, -, huninitApart⟩ :=
    hplaced.apart_all
  constructor
  case table => exact hloaded.table
  case readonlyData =>
    intro i hi
    rw [hbyte _ (by simp) i hi]
    obtain ⟨byte, hget, -⟩ := segmentBytes_eq_some hreadonlyIn hi
    by_cases hshort : i < noffH.readonlyRounds
    · rw [hget, programImage_copied hshort hget]
    · -- the loop ends before this byte
      have hcovers : noffH.readonlyData.Covers
          (noffH.readonlyData.virtualAddr.toNat + i) :=
        Segment.covers_add hi
      have hnone : ∀ i' < noffH.readonlyRounds,
          noffH.readonlyData.virtualAddr.toNat + i =
            noffH.readonlyData.virtualAddr.toNat + i' →
          file[noffH.readonlyData.inFileAddr.toNat + i']? = none := by
        intro i' hi' heq
        omega
      rw [hharmless.leftOut i hi (by omega), programImage_base hnone,
        baseImage_other hplaced (hcodeApart.symm.not_covers hcovers)
          (hinitApart.symm.not_covers hcovers)]
  case code =>
    intro j hj
    rw [hbyte _ (by simp) j hj]
    exact (programImage_segment (baseImage_code hplaced hj)
      (hagrees _ (by simp) hcodeApart.symm j hj)).symm
  case initData =>
    intro j hj
    rw [hbyte _ (by simp) j hj]
    exact (programImage_segment (baseImage_initData hplaced hj)
      (hagrees _ (by simp) hinitApart.symm j hj)).symm
  case uninitData =>
    intro j hj
    rw [hbyte _ (by simp) j hj]
    rw [programImage_uninitData hplaced hj]
    intro i byte hi heq hget
    have hbehind := huninitApart.behind hj heq
    refine hharmless.zeroed i byte hbehind (by omega) ?_ hget
    rw [heq]
    exact Segment.covers_add hj

/-- The loop does no harm if the image is right. -/
theorem ReadonlyImage.harmless
    (himage : ReadonlyImage file noffH space entries m')
    (hloaded : ImageLoaded file noffH argv m space entries m')
    (hsmall : noffH.numPages ≤ numPhysPages)
    (hfits : ArgumentsFit noffH.numPages argv)
    (hplaced : noffH.Placed file argv)
    (hpositive : 0 < noffH.readonlyData.size.toInt)
    (hinside : noffH.SegmentsInside noffH.numPages)
    (hread : noffH.SegmentsRead) : noffH.ReadonlyHarmless file := by
  have hrounds := NoffHeader.readonlyRounds_eq hplaced hsmall hpositive
  have hbyte := hloaded.segments_byte hsmall hfits hplaced
  obtain ⟨-, hcodeApart, -, hinitApart, -, -⟩ := hplaced.apart_all
  constructor
  case reads => exact hread
  case inside =>
    have hcopies := (hinside.2 hread.1).2.2 hread.2.1
    have hreadable := hread.2.2
    unfold Segment.CopiesInside at hcopies
    rwa [Nat.min_eq_left (by omega)] at hcopies
  case leftOut =>
    intro i hi hleft
    have hcovers := Segment.covers_add hi
    have hnone : ∀ i' < noffH.readonlyRounds,
        noffH.readonlyData.virtualAddr.toNat + i =
          noffH.readonlyData.virtualAddr.toNat + i' →
        file[noffH.readonlyData.inFileAddr.toNat + i']? = none := by
      intro i' hi' heq
      omega
    rw [← himage.readonlyData i hi, hbyte _ (by simp) i hi,
      programImage_base hnone,
      baseImage_other hplaced (hcodeApart.symm.not_covers hcovers)
        (hinitApart.symm.not_covers hcovers)]
  case copied =>
    intro segment hmem i j byte _ hi hj heq hget
    have hsegment : SegmentLoaded entries m' file segment := by
      rcases List.mem_pair.mp hmem with rfl | rfl
      · exact himage.code
      · exact himage.initData
    have hany : segment ∈ [noffH.code, noffH.initData, noffH.readonlyData,
        noffH.uninitData] := by
      rcases List.mem_pair.mp hmem with rfl | rfl <;> simp
    rw [← hsegment j hj, hbyte segment hany j hj, ← heq,
      programImage_copied (by omega) hget]
  case zeroed =>
    intro i byte _ hi hcovers hget
    obtain ⟨hle, hlt⟩ := hcovers
    obtain ⟨j, hj⟩ := Nat.exists_eq_add_of_le hle
    have hzero := himage.uninitData j (by omega)
    rw [hbyte _ (by simp) j (by omega), ← hj,
      programImage_copied (by omega) hget] at hzero
    exact Option.some.inj hzero

/-! ## Load -/

variable {k : Kernel} {f : OpenFile} {fs : FileSystem} {h h' : Host}
variable {inode : ℕ} {garbage : LoadGarbage} {fileName : CString}

/-- There is room for the arguments above a segment that is not empty. -/
theorem argumentsFit_of_placed (hplaced : noffH.Placed file argv)
    (hpositive : 0 < noffH.readonlyData.size.toInt) :
    ArgumentsFit noffH.numPages argv := by
  have hbelow := hplaced.below noffH.readonlyData (by simp)
  have hrounds : rounds noffH.readonlyData.size ≠ 0 := by
    unfold AddrSpace.rounds
    omega
  have hpages : noffH.numPages * pageSize % 128 = 0 := Nat.mul_mod_left _ _
  unfold Segment.Below NoffHeader.argumentStart blockWords divRoundUp at hbelow
  unfold ArgumentsFit
  split at hbelow <;> omega

theorem segmentsInside_of_harmless (hplaced : noffH.Placed file argv)
    (hharmless : noffH.ReadonlyHarmless file) :
    noffH.SegmentsInside noffH.numPages := by
  apply segmentsInside_of_placed hplaced
  have hinside := hharmless.inside
  have hreadable := hharmless.reads.2.2
  unfold Segment.CopiesInside
  rwa [Nat.min_eq_left (by omega)]

/-- An image with read-only data is loaded as its header describes exactly
when the loop that runs up to the address does no harm. -/
theorem loadImage_readonly_iff (space : AddrSpace)
    (hbits : k.machine.pageTableMap.numBits = numPhysPages)
    (hexec : Executable k f) (hfile : ReadsFile k.host f file)
    (hmagic : noffH.noffMagic = noffMagicNumber)
    (hpositive : 0 < noffH.readonlyData.size.toInt)
    (hplaced : noffH.Placed file argv)
    (hfree : noffH.numPages ≤
      numPhysPages - k.machine.pageTableMap.marked.card) :
    (∃ space' k' entries,
      space.loadImage f noffH k argv.length argv = .ok (true, space', k') ∧
        ReadonlyImage file noffH space' entries k'.machine) ↔
      noffH.ReadonlyHarmless file := by
  have hsmall : noffH.numPages ≤ numPhysPages := by omega
  have hfits := argumentsFit_of_placed hplaced hpositive
  constructor
  · rintro ⟨space', k', entries, hload, himage⟩
    obtain ⟨hinside, hread, -⟩ := loadImage_fits hmagic hbits hexec hload
    obtain ⟨space'', k'', entries', hload', hloaded, -⟩ :=
      loadImage_shows space hmagic hbits hexec hfile hfree hinside hread hfits
    rw [hload'] at hload
    cases hload
    obtain rfl : entries = entries' := by
      have htable := himage.table.symm.trans hloaded.table
      cases htable
      rfl
    exact himage.harmless hloaded hsmall hfits hplaced hpositive hinside hread
  · intro hharmless
    have hinside := segmentsInside_of_harmless hplaced hharmless
    obtain ⟨space', k', entries, hload, hloaded, -⟩ :=
      loadImage_shows space hmagic hbits hexec hfile hfree hinside
        hharmless.reads hfits
    exact ⟨space', k', entries, hload,
      hloaded.readonlyImage hsmall hfits hplaced hpositive hharmless⟩

/-- `Load` of a program with read-only data, in the build of the Makefile. -/
theorem load_readonly_iff (space : AddrSpace)
    (hbits : k.machine.pageTableMap.numBits = numPhysPages)
    (hinode : k.host.directory fileName = some inode)
    (hopen : k.fileSystem.openNamed k.host fileName garbage.openType =
      (some f, fs, h))
    (hheader : readHeaderIn true f h garbage = .ok (noffH, h'))
    (hmagic : noffH.noffMagic = noffMagicNumber)
    (hpositive : 0 < noffH.readonlyData.size.toInt)
    (hplaced : noffH.Placed (k.host.contents inode) argv)
    (hfree : noffH.numPages ≤
      numPhysPages - k.machine.pageTableMap.marked.card) :
    (∃ space' k' entries,
      space.loadIn true k garbage fileName argv.length argv =
          .ok (true, space', k') ∧
        ReadonlyImage (k.host.contents inode) noffH space' entries
          k'.machine) ↔
      noffH.ReadonlyHarmless (k.host.contents inode) := by
  have hfile := readsFile_of_readHeader
    (readsFile_of_openNamed hinode hopen) hheader
  obtain ⟨heq, hexec⟩ :=
    loadIn_of_open space garbage hopen hheader argv.length argv
  rw [heq]
  exact loadImage_readonly_iff (k := { k with fileSystem := fs, host := h' })
    space hbits hexec hfile hmagic hpositive hplaced hfree

end Loaded

/-! ## Three programs -/

/-- `Load` of the words, by a process with one argument, builds their
image. -/
def BuildsReadonly (words : List (BitVec 32)) : Prop :=
  ∃ space k entries, loadWords words [[97]] = .ok (true, space, k) ∧
    ReadonlyImage (words.flatMap wordBytes) (imageHeader words) space entries
      k.machine

/-- The header describes read-only data, in segments that are where they
should be. -/
structure WellPlaced (words : List (BitVec 32)) : Prop where
  magic : (imageHeader words).noffMagic = noffMagicNumber
  positive : 0 < (imageHeader words).readonlyData.size.toInt
  placed : (imageHeader words).Placed (words.flatMap wordBytes) [[97]]
  free : (imageHeader words).numPages ≤
    numPhysPages - (imageKernel words).machine.pageTableMap.marked.card

theorem WellPlaced.builds_iff {words : List (BitVec 32)}
    (hwell : WellPlaced words) : BuildsReadonly words ↔
      (imageHeader words).ReadonlyHarmless (words.flatMap wordBytes) := by
  obtain ⟨f, fs, h, h', hopen, hheader⟩ := imageKernel_header words
  have hinode : (imageKernel words).host.directory [97] = some 0 := rfl
  have hfile := readsFile_of_readHeader
    (readsFile_of_openNamed hinode hopen) hheader
  obtain ⟨heq, hexec⟩ := loadIn_of_open (new ⟨0, 0, 0, 0, 0⟩) ⟨0, []⟩ hopen
    hheader ([[97]] : List CString).length [[97]]
  have hiff := loadImage_readonly_iff
    (k := { imageKernel words with fileSystem := fs, host := h' })
    (new ⟨0, 0, 0, 0, 0⟩) rfl hexec hfile hwell.magic hwell.positive
    hwell.placed hwell.free
  unfold BuildsReadonly loadWords
  rw [heq]
  exact hiff

/-- Four bytes of code, and four of read-only data behind them. -/
def readonlyEven : List (BitVec 32) :=
  [noffMagicNumber, 0, 52, 4, 0, 0, 0, 4, 56, 4, 8, 0, 4, 0x04030201,
    0x08070605]

/-- The read-only data is twice as long as its address is large. -/
def readonlyLong : List (BitVec 32) :=
  [noffMagicNumber, 0, 52, 4, 0, 0, 0, 4, 56, 8, 0, 0, 0, 0x04030201,
    0x08070605, 0x0c0b0a09]

/-- Behind the read-only data is initialised data, and in the file something
else. -/
def readonlyShort : List (BitVec 32) :=
  [noffMagicNumber, 0, 52, 8, 12, 68, 4, 8, 60, 4, 0, 0, 0, 0x04030201,
    0x08070605, 0x0c0b0a09, 0x100f0e0d, 0x14131211]

theorem wellPlaced_even : WellPlaced readonlyEven := by
  constructor
  case placed => constructor <;> decide +kernel
  case free => rw [imageKernel_free]; decide +kernel
  all_goals decide +kernel

theorem wellPlaced_long : WellPlaced readonlyLong := by
  constructor
  case placed => constructor <;> decide +kernel
  case free => rw [imageKernel_free]; decide +kernel
  all_goals decide +kernel

theorem wellPlaced_short : WellPlaced readonlyShort := by
  constructor
  case placed => constructor <;> decide +kernel
  case free => rw [imageKernel_free]; decide +kernel
  all_goals decide +kernel

theorem load_readonly_even : BuildsReadonly readonlyEven := by
  obtain ⟨f, fs, h, h', hopen, hheader⟩ := imageKernel_header readonlyEven
  have hwell := wellPlaced_even
  refine (load_readonly_iff (k := imageKernel readonlyEven)
    (new ⟨0, 0, 0, 0, 0⟩) rfl rfl hopen hheader hwell.magic hwell.positive
    hwell.placed hwell.free).mpr ?_
  have hend : (imageHeader readonlyEven).readonlyData.virtualAddr.toNat =
      rounds (imageHeader readonlyEven).readonlyData.size := by
    decide +kernel
  constructor
  case reads => decide +kernel
  case inside => decide +kernel
  case leftOut =>
    intro i hi hleft
    change (imageHeader readonlyEven).readonlyData.virtualAddr.toNat ≤ i
      at hleft
    change i < rounds (imageHeader readonlyEven).readonlyData.size at hi
    omega
  case copied =>
    intro segment _ i j byte hbehind hi
    change rounds (imageHeader readonlyEven).readonlyData.size ≤ i at hbehind
    change i < (imageHeader readonlyEven).readonlyData.virtualAddr.toNat at hi
    omega
  case zeroed =>
    intro i byte hbehind hi
    change rounds (imageHeader readonlyEven).readonlyData.size ≤ i at hbehind
    change i < (imageHeader readonlyEven).readonlyData.virtualAddr.toNat at hi
    omega

/-- The second half of the read-only data is not copied, and initialised data
is overwritten. -/
theorem load_readonly_harms :
    (WellPlaced readonlyLong ∧ ¬BuildsReadonly readonlyLong) ∧
      WellPlaced readonlyShort ∧ ¬BuildsReadonly readonlyShort := by
  refine ⟨⟨wellPlaced_long, ?_⟩, wellPlaced_short, ?_⟩
  · intro hbuilds
    have hharmless := wellPlaced_long.builds_iff.mp hbuilds
    have hzero := hharmless.leftOut 4 (by decide +kernel) (by decide +kernel)
    revert hzero
    decide +kernel
  · intro hbuilds
    have hharmless := wellPlaced_short.builds_iff.mp hbuilds
    have hcopied := hharmless.copied _ (List.mem_pair.mpr (.inr rfl)) 4 0
      0x0d (by decide +kernel) (by decide +kernel) (by decide +kernel)
      (by decide +kernel) (by decide +kernel)
    revert hcopied
    decide +kernel

end AddrSpace

end Nachos
