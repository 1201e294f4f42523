import Nachos.ArgumentLayout
import Nachos.Library.Overlay

/-!
# The image of a program

Each byte of a segment goes through the page table on its own.  What the
program finds is stated on virtual addresses: the segments are laid, in the
order of the loops of `Load`, over zeros, and the arguments over all of them.
-/

namespace Nachos

open Library

namespace AddrSpace

/-! ## Reading the executable -/

/-- The open file has the bytes. -/
def ReadsFile (h : Host) (f : OpenFile) (bytes : List (BitVec 8)) : Prop :=
  ∃ position, h.file f.file = some position ∧
    h.contents position.inode = bytes

/-- The bytes that a loop of so many rounds reads. -/
def segmentBytes (file : List (BitVec 8)) (segment : Segment) (count : ℕ) :
    List (BitVec 8) :=
  (file.drop segment.inFileAddr.toNat).take count

theorem segmentBytes_getElem?
    (file : List (BitVec 8)) (segment : Segment) {i count : ℕ}
    (hlt : i < count) : (segmentBytes file segment count)[i]? =
      file[segment.inFileAddr.toNat + i]? := by
  rw [segmentBytes, List.getElem?_take_of_lt hlt, List.getElem?_drop]

theorem readAt_file
    {f : OpenFile} {h : Host} {file : List (BitVec 8)} {place : ℤ}
    (hfile : ReadsFile h f file) (hplace : 0 ≤ place) (numBytes limit : ℕ) :
    ∃ h', f.readAt h numBytes place (some limit) =
        .ok (some ((file.drop place.toNat).take (min numBytes limit)), h') ∧
      ReadsFile h' f file := by
  obtain ⟨position, hposition, rfl⟩ := hfile
  let sought := h.setFile f.file
    (some { position with offset := place.toNat })
  have hsought : sought.file f.file =
      some { position with offset := place.toNat } :=
    Host.file_setFile_self hposition _
  have hread : f.readAt h numBytes place (some limit) =
      .ok (sought.readPartial f.file numBytes (some limit)) := by
    simp only [OpenFile.readAt, Host.lseek, hposition, if_pos hplace, bind,
      Except.bind]
    rfl
  rw [Host.readPartial_eq hsought, Host.remaining_eq hsought] at hread
  exact ⟨_, hread, _, Host.file_setFile_self hsought _, rfl⟩

theorem readsFile_of_readHeader
    {rdata : Bool} {f : OpenFile} {h h' : Host} {garbage : LoadGarbage}
    {noffH : NoffHeader} {file : List (BitVec 8)}
    (hfile : ReadsFile h f file)
    (hheader : readHeaderIn rdata f h garbage = .ok (noffH, h')) :
    ReadsFile h' f file := by
  unfold readHeaderIn AddrSpace.readHeader at hheader
  split at hheader
  · obtain ⟨after, hread, hfile'⟩ := readAt_file hfile
      (le_refl 0) noffHeaderSize noffHeaderSize
    rw [hread, ok_bind] at hheader
    simp only at hheader
    split at hheader <;> cases hheader <;> exact hfile'
  · obtain ⟨after, hread, hfile'⟩ := readAt_file hfile
      (le_refl 0) 40 40
    rw [hread, ok_bind] at hheader
    simp only at hheader
    split at hheader <;> cases hheader <;> exact hfile'

theorem readsFile_of_openNamed
    {fs fs' : FileSystem} {h h' : Host} {fileName : CString}
    {garbageType : ℤ} {f : OpenFile} {inode : ℕ}
    (hinode : h.directory fileName = some inode)
    (hopen : fs.openNamed h fileName garbageType = (some f, fs', h')) :
    ReadsFile h' f (h.contents inode) := by
  unfold FileSystem.openNamed Host.openForReadWrite at hopen
  cases hfree : fs.findFreeSlot with
  | none => simp [hinode, hfree] at hopen
  | some id =>
      simp only [hinode, hfree, Option.map_some] at hopen
      cases hopen
      exact ⟨⟨inode, 0⟩, by simp [Host.file, Host.openInode], rfl⟩

/-- Closing the file of an executable undoes what opening it did to the
descriptor table. -/
theorem setSlot_of_openNamed
    {fs fs' : FileSystem} {h h' : Host} {fileName : CString}
    {garbageType : ℤ} {f : OpenFile}
    (hopen : fs.openNamed h fileName garbageType = (some f, fs', h')) :
    fs'.setSlot f.fileDescriptorId .null = fs := by
  unfold FileSystem.openNamed Host.openForReadWrite at hopen
  cases hinode : h.directory fileName with
  | none => simp [hinode] at hopen
  | some inode =>
      cases hfree : fs.findFreeSlot with
      | none => simp [hinode, hfree] at hopen
      | some id =>
          obtain ⟨-, -, hnull⟩ := FileSystem.findFreeSlot_spec hfree
          simp only [hinode, hfree, Option.map_some] at hopen
          cases hopen
          rw [FileSystem.setSlot_setSlot, FileSystem.setSlot_self hnull]

/-! ## The loops over the segments -/

/-- The kernel after a loop that has stored the bytes. -/
structure CopiedTo (space : AddrSpace) (f : OpenFile)
    (file : List (BitVec 8)) (vaddr : BitVec 32) (bytes : List (BitVec 8))
    (k k' : Kernel) : Prop where
  stores : space.storeBytes vaddr bytes k.machine = .ok k'.machine
  fileSystem : k'.fileSystem = k.fileSystem
  reads : ReadsFile k'.host f file

section Loops

variable {space : AddrSpace} {entries : List TranslationEntry}
variable {f : OpenFile} {file : List (BitVec 8)} {segment : Segment}

/-- The address of the next round. -/
theorem address_succ (segment : Segment) (i : ℕ) :
    segment.virtualAddr + BitVec.ofNat 32 i + 1 =
      segment.virtualAddr + BitVec.ofNat 32 (i + 1) := by
  rw [BitVec.ofNat_add, BitVec.add_assoc]
  rfl

theorem Mapped.address_lt (hmap : space.Mapped entries)
    {i : ℕ} (hlt : segment.virtualAddr.toNat + i < space.numPages * pageSize) :
    (segment.virtualAddr + BitVec.ofNat 32 i).toNat <
      space.numPages * pageSize := by
  rwa [segment.address_eq hlt hmap.size_le]

/-- The copying of a segment stores what there is to read; behind the end of
the file it does nothing. -/
theorem Mapped.copyRounds_stores (hmap : space.Mapped entries)
    (segment : Segment) (count i : ℕ) (k : Kernel) (hfile : ReadsFile k.host f file)
    (hinside : segment.virtualAddr.toNat + i + count ≤
      space.numPages * pageSize)
    (hreadable : i + count ≤ segment.readable) :
    ∃ k', countedLoop (space.copyByte f segment) i count k = .ok k' ∧
      space.CopiedTo f file (segment.virtualAddr + BitVec.ofNat 32 i)
        ((file.drop (segment.inFileAddr.toNat + i)).take count) k k' := by
  induction count generalizing i k with
  | zero => exact ⟨k, rfl, rfl, rfl, hfile⟩
  | succ count ih =>
      have hlt := hmap.address_lt
        (show segment.virtualAddr.toNat + i < space.numPages * pageSize by
          omega)
      have hplace : 0 ≤ (segment.inFileAddr + BitVec.ofNat 32 i).toInt :=
        Segment.position_nonneg (by omega)
      have hposition : (segment.inFileAddr + BitVec.ofNat 32 i).toInt.toNat =
          segment.inFileAddr.toNat + i := by
        unfold Segment.readable at hreadable
        rw [BitVec.toInt_eq_toNat_cond, BitVec.toNat_add, BitVec.toNat_ofNat]
          at hplace ⊢
        split_ifs at hplace ⊢ <;> omega
      obtain ⟨host, hread, hfile'⟩ := readAt_file hfile hplace 1 1
      rw [hposition] at hread
      have hnext : file.drop (segment.inFileAddr.toNat + (i + 1)) =
          (file.drop (segment.inFileAddr.toNat + i)).drop 1 := by
        rw [List.drop_drop, add_assoc]
      cases hrest : file.drop (segment.inFileAddr.toNat + i) with
      | nil =>
          rw [hrest] at hread hnext
          obtain ⟨paddr, hphysical, -⟩ := hmap.physical k.machine hlt
          have hround : space.copyByte f segment i k =
              .ok { k with host := host } := by
            rw [copyByte, hphysical]
            simp only [bind, Except.bind, hread]
            rfl
          obtain ⟨k', hloop, hcopied⟩ := ih (i + 1) { k with host := host }
            hfile' (by omega) (by omega)
          rw [hnext] at hcopied
          refine ⟨k', ?_, ?_, hcopied.fileSystem, hcopied.reads⟩
          · rw [countedLoop_succ, hround]
            exact hloop
          · have hnone := hcopied.stores
            rw [List.drop_nil, List.take_nil, AddrSpace.storeBytes] at hnone
            rw [List.take_nil, AddrSpace.storeBytes]
            exact hnone
      | cons byte rest =>
          rw [hrest] at hread hnext
          obtain ⟨paddr, machine, hphysical, -, hstore, -⟩ :=
            hmap.storeByte k.machine hlt byte
          have hround := copyByte_of_store hphysical hread hstore
          obtain ⟨k', hloop, hcopied⟩ := ih (i + 1)
            { k with host := host, machine := machine } hfile' (by omega)
            (by omega)
          rw [hnext, ← address_succ] at hcopied
          refine ⟨k', ?_, ?_, hcopied.fileSystem, hcopied.reads⟩
          · rw [countedLoop_succ, hround]
            exact hloop
          · rw [List.take_succ_cons, storeBytes_cons _ hphysical hstore]
            exact hcopied.stores

/-- The zeroing of a segment. -/
theorem Mapped.zeroRounds_stores (hmap : space.Mapped entries)
    (segment : Segment) (count i : ℕ) (k : Kernel) (hfile : ReadsFile k.host f file)
    (hinside : segment.virtualAddr.toNat + i + count ≤
      space.numPages * pageSize) :
    ∃ k', countedLoop (space.zeroByte segment) i count k = .ok k' ∧
      space.CopiedTo f file (segment.virtualAddr + BitVec.ofNat 32 i)
        (List.replicate count 0) k k' := by
  induction count generalizing i k with
  | zero => exact ⟨k, rfl, rfl, rfl, hfile⟩
  | succ count ih =>
      have hlt := hmap.address_lt
        (show segment.virtualAddr.toNat + i < space.numPages * pageSize by
          omega)
      obtain ⟨paddr, machine, hphysical, -, hstore, -⟩ :=
        hmap.storeByte k.machine hlt 0
      have hround := zeroByte_of_store (k := k) hphysical hstore
      obtain ⟨k', hloop, hcopied⟩ := ih (i + 1)
        { k with machine := machine } hfile (by omega)
      rw [← address_succ] at hcopied
      refine ⟨k', ?_, ?_, hcopied.fileSystem, hcopied.reads⟩
      · rw [countedLoop_succ, hround]
        exact hloop
      · rw [List.replicate_succ, storeBytes_cons _ hphysical hstore]
        exact hcopied.stores

end Loops

/-! ## What the program finds -/

/-- The program finds the image in its pages. -/
def Shows (space : AddrSpace) (entries : List TranslationEntry) (m : Machine)
    (image : ℕ → BitVec 8) : Prop :=
  ∀ vaddr : BitVec 32, vaddr.toNat < space.numPages * pageSize →
    (install entries m).userByte vaddr = some (image vaddr.toNat)

section Showing

variable {space : AddrSpace} {entries : List TranslationEntry}
variable {m m' : Machine} {image : ℕ → BitVec 8}

/-- Bytes that have been stored lie over the image. -/
theorem Stored.shows (hmap : space.Mapped entries) {vaddr : BitVec 32}
    {bytes : List (BitVec 8)}
    (hstored : space.Stored entries vaddr bytes m m')
    (hfits : vaddr.toNat + bytes.length ≤ space.numPages * pageSize)
    (hshows : space.Shows entries m image) :
    space.Shows entries m' (overlay vaddr.toNat bytes image) := by
  intro addr haddr
  have hsize : space.numPages * pageSize ≤ 16384 := hmap.size_le
  by_cases hcovered : Covered vaddr.toNat bytes addr.toNat
  · obtain ⟨hle, hlt⟩ := hcovered
    obtain ⟨i, hi⟩ := Nat.exists_eq_add_of_le hle
    have hget : i < bytes.length := by omega
    have hsame : addr = vaddr + BitVec.ofNat 32 i := by
      apply BitVec.eq_of_toNat_eq
      rw [BitVec.toNat_add, BitVec.toNat_ofNat]
      omega
    rw [hi, overlay_inside (List.getElem?_eq_getElem hget), hsame]
    exact hstored.holds.userByte_eq hget
  · have hbefore := hshows addr haddr
    obtain ⟨paddr, hphys, hbyte⟩ := Option.map_eq_some_iff.mp hbefore
    have hkept : m'.mainMemory paddr = m.mainMemory paddr := by
      apply hstored.outside
      intro i hi hother
      have hsame := (hmap.distinct m).physical_inj hphys hother
      apply hcovered
      rw [hsame, Covered, BitVec.toNat_add, BitVec.toNat_ofNat]
      omega
    rw [overlay_outside hcovered, Machine.userByte, install_physical _ _ m,
      hphys, Option.map_some, install_mainMemory, hkept]
    rw [install_mainMemory] at hbyte
    rw [hbyte]

/-- The pages of a new space are zero. -/
theorem Mapped.shows_zero (hmap : space.Mapped entries) {memory : ℕ → BitVec 8}
    (hzeroed : m.mainMemory =
      zeroed (entries.map TranslationEntry.physicalPage) memory) :
    space.Shows entries m fun _ => 0 := by
  intro addr haddr
  obtain ⟨paddr, -, hphys, -, hpage⟩ := hmap.physical m haddr
  simp only [physicalPages, hmap.table] at hpage
  rw [Machine.userByte, Machine.physical_of_writing hphys, Option.map_some,
    install_mainMemory, hzeroed, zeroed, if_pos hpage]

end Showing

/-! ## The image of the segments -/

/-- The segments but for the read-only data, in the order of the loops of
`Load`, over zeros. -/
def baseImage (file : List (BitVec 8)) (noffH : NoffHeader) : ℕ → BitVec 8 :=
  overlay noffH.initData.virtualAddr.toNat
    (segmentBytes file noffH.initData (rounds noffH.initData.size))
    (overlay noffH.uninitData.virtualAddr.toNat
      (List.replicate (rounds noffH.uninitData.size) 0)
      (overlay noffH.code.virtualAddr.toNat
        (segmentBytes file noffH.code (rounds noffH.code.size))
        fun _ => 0))

/-- The read-only data is copied last. -/
def programImage (file : List (BitVec 8)) (noffH : NoffHeader) :
    ℕ → BitVec 8 :=
  overlay noffH.readonlyData.virtualAddr.toNat
    (segmentBytes file noffH.readonlyData noffH.readonlyRounds)
    (baseImage file noffH)

/-- The strings, and then the array, over the image. -/
def argumentImage (space : AddrSpace) (argv : List CString)
    (image : ℕ → BitVec 8) : ℕ → BitVec 8 :=
  overlay (space.arrayAt argv).toNat
    (pointerArray (space.stringsAt argv) argv)
    (overlay (space.stringsAt argv).toNat (block argv) image)

theorem stringsAt_withArguments (space : AddrSpace) (argv : List CString) :
    (space.withArguments argv).stringsAt argv = space.stringsAt argv := by
  simp only [stringsAt, withArguments]

theorem arrayAt_withArguments (space : AddrSpace) (argv : List CString) :
    (space.withArguments argv).arrayAt argv = space.arrayAt argv := by
  rw [arrayAt, stringsAt_withArguments, ← arrayAt]

theorem shows_withArguments {space : AddrSpace}
    {entries : List TranslationEntry} {m : Machine} {image : ℕ → BitVec 8}
    (argv : List CString) : (space.withArguments argv).Shows entries m image ↔
      space.Shows entries m image := Iff.rfl

/-- The kernel after a loop of `Load`, when the program finds the image. -/
structure ShownAfter (space : AddrSpace) (entries : List TranslationEntry)
    (f : OpenFile) (file : List (BitVec 8)) (image : ℕ → BitVec 8)
    (k k' : Kernel) : Prop where
  shows : space.Shows entries k'.machine image
  writes : space.Writes k.machine k'.machine
  fileSystem : k'.fileSystem = k.fileSystem
  reads : ReadsFile k'.host f file

section Segments

variable {space : AddrSpace} {entries : List TranslationEntry}
variable {f : OpenFile} {file : List (BitVec 8)} {image : ℕ → BitVec 8}

theorem Mapped.shownAfter (hmap : space.Mapped entries)
    {vaddr : BitVec 32} {bytes : List (BitVec 8)} {k k' : Kernel}
    (hcopied : space.CopiedTo f file vaddr bytes k k')
    (hfits : vaddr.toNat + bytes.length ≤ space.numPages * pageSize)
    (hshows : space.Shows entries k.machine image) :
    space.ShownAfter entries f file (overlay vaddr.toNat bytes image)
      k k' := by
  obtain ⟨m', hstores, hstored⟩ := hmap.storeBytes bytes vaddr k.machine hfits
  obtain rfl : k'.machine = m' :=
    Except.ok.inj (hcopied.stores.symm.trans hstores)
  exact ⟨hstored.shows hmap hfits hshows, hstored.writes,
    hcopied.fileSystem, hcopied.reads⟩

/-- A segment that is copied lies over the image. -/
theorem Mapped.copySegment_shows (hmap : space.Mapped entries)
    {segment : Segment} {count : ℕ} {k : Kernel}
    (hfile : ReadsFile k.host f file)
    (hshows : space.Shows entries k.machine image)
    (hinside : segment.Inside count space.numPages)
    (hread : count ≤ segment.readable) :
    ∃ k', countedLoop (space.copyByte f segment) 0 count k = .ok k' ∧
      space.ShownAfter entries f file
        (overlay segment.virtualAddr.toNat (segmentBytes file segment count)
          image) k k' := by
  rcases hinside with rfl | hinside
  · have hnone : segmentBytes file segment 0 = [] := by
      rw [segmentBytes, List.take_zero]
    rw [hnone, overlay_nil]
    exact ⟨k, rfl, hshows, .refl _ _, rfl, hfile⟩
  · obtain ⟨k', hloop, hcopied⟩ := hmap.copyRounds_stores
      segment count 0 k hfile (by omega) (by omega)
    have hstart : segment.virtualAddr + BitVec.ofNat 32 0 =
        segment.virtualAddr := by simp
    have hlength : (segmentBytes file segment count).length ≤ count :=
      List.length_take_le _ _
    rw [hstart, Nat.add_zero] at hcopied
    exact ⟨k', hloop, hmap.shownAfter hcopied (by omega) hshows⟩

/-- A segment that is zeroed lies over the image. -/
theorem Mapped.zeroSegment_shows (hmap : space.Mapped entries)
    {segment : Segment} {count : ℕ} {k : Kernel}
    (hfile : ReadsFile k.host f file)
    (hshows : space.Shows entries k.machine image)
    (hinside : segment.Inside count space.numPages) :
    ∃ k', countedLoop (space.zeroByte segment) 0 count k = .ok k' ∧
      space.ShownAfter entries f file
        (overlay segment.virtualAddr.toNat (List.replicate count 0) image)
        k k' := by
  rcases hinside with rfl | hinside
  · rw [List.replicate_zero, overlay_nil]
    exact ⟨k, rfl, hshows, .refl _ _, rfl, hfile⟩
  · obtain ⟨k', hloop, hcopied⟩ := hmap.zeroRounds_stores
      segment count 0 k hfile (by omega)
    have hstart : segment.virtualAddr + BitVec.ofNat 32 0 =
        segment.virtualAddr := by simp
    rw [hstart] at hcopied
    refine ⟨k', hloop, hmap.shownAfter hcopied ?_ hshows⟩
    rw [List.length_replicate]
    exact hinside

/-- The loops leave the image of the program. -/
theorem Mapped.copySegments_shows (hmap : space.Mapped entries)
    {noffH : NoffHeader} {k : Kernel} (hfile : ReadsFile k.host f file)
    (hshows : space.Shows entries k.machine fun _ => 0)
    (hinside : noffH.SegmentsInside space.numPages)
    (hread : noffH.SegmentsRead) :
    ∃ k', space.copySegments f noffH k = .ok k' ∧
      space.ShownAfter entries f file (programImage file noffH) k k' := by
  have hall : ∀ {segment : Segment} {count : ℕ},
      segment.CopiesInside count space.numPages → count ≤ segment.readable →
        segment.Inside count space.numPages := by
    intro segment count hcopies hle
    unfold Segment.CopiesInside Segment.Inside at *
    omega
  obtain ⟨hcode, hothers⟩ := hinside
  obtain ⟨hcodeRead, hinitRead, hreadonlyRead⟩ := hread
  obtain ⟨huninit, hinit, hreadonly⟩ := hothers hcodeRead
  obtain ⟨k₁, hloop₁, hshown₁⟩ := hmap.copySegment_shows hfile hshows
    (hall hcode hcodeRead) hcodeRead
  obtain ⟨k₂, hloop₂, hshown₂⟩ := hmap.zeroSegment_shows hshown₁.reads
    hshown₁.shows huninit
  obtain ⟨k₃, hloop₃, hshown₃⟩ := hmap.copySegment_shows hshown₂.reads
    hshown₂.shows (hall hinit hinitRead) hinitRead
  obtain ⟨k₄, hloop₄, hshown₄⟩ := hmap.copySegment_shows hshown₃.reads
    hshown₃.shows (hall (hreadonly hinitRead) hreadonlyRead) hreadonlyRead
  refine ⟨k₄, ?_, hshown₄.shows, ?_, ?_, hshown₄.reads⟩
  · rw [copySegments_eq, hloop₁, ok_bind, hloop₂, ok_bind, hloop₃, ok_bind,
      hloop₄]
  · exact ((hshown₁.writes.trans hshown₂.writes).trans
      hshown₃.writes).trans hshown₄.writes
  · rw [hshown₄.fileSystem, hshown₃.fileSystem, hshown₂.fileSystem,
      hshown₁.fileSystem]

end Segments

/-! ## Load -/

/-- What `Load` leaves of the executable, when it returns `TRUE`. -/
structure ImageLoaded (file : List (BitVec 8)) (noffH : NoffHeader)
    (argv : List CString) (m : Machine) (space : AddrSpace)
    (entries : List TranslationEntry) (m' : Machine) : Prop where
  table : space.pageTable = .table entries
  pages : space.numPages = noffH.numPages
  length : entries.length = noffH.numPages
  array : space.argv = space.arrayAt argv
  shows : space.Shows entries m'
    (space.argumentImage argv (programImage file noffH))
  changed : ∀ paddr : ℕ, m'.mainMemory paddr ≠ m.mainMemory paddr →
    ((paddr / pageSize : ℕ) : ℤ) ∈ space.physicalPages ∧
      ¬m.pageTableMap.Holds (paddr / pageSize : ℕ)

/-- `Load` of an image that fits, into free frames. -/
theorem loadImage_shows
    (space : AddrSpace) {f : OpenFile} {noffH : NoffHeader} {k : Kernel}
    {argv : List CString} {file : List (BitVec 8)}
    (hmagic : noffH.noffMagic = noffMagicNumber)
    (hbits : k.machine.pageTableMap.numBits = numPhysPages)
    (hexec : Executable k f) (hfile : ReadsFile k.host f file)
    (hfree : noffH.numPages ≤
      numPhysPages - k.machine.pageTableMap.marked.card)
    (hinside : noffH.SegmentsInside noffH.numPages)
    (hread : noffH.SegmentsRead) (hargs : ArgumentsFit noffH.numPages argv) :
    ∃ space' k' entries,
      space.loadImage f noffH k argv.length argv = .ok (true, space', k') ∧
        ImageLoaded file noffH argv k.machine space' entries k'.machine ∧
        k'.fileSystem = k.fileSystem.setSlot f.fileDescriptorId .null := by
  have hle := k.machine.pageTableMap.card_marked_le
  have hroom : k.machine.pageTableMap.marked.card + noffH.numPages ≤
      numPhysPages := by omega
  obtain ⟨bm, entries, hgranted, hmap, hallocate⟩ :=
    space.allocateMemory_mapped k.machine hbits hroom
  rw [loadImage_of_allocated hmagic hallocate (by omega)]
  set mapped : AddrSpace := { space with
    numPages := noffH.numPages, pageTable := .table entries }
  set k₀ : Kernel := { k with machine := { k.machine with
    pageTableMap := bm
    mainMemory := zeroed (entries.map TranslationEntry.physicalPage)
      k.machine.mainMemory } }
  have hexec₀ : Executable k₀ f :=
    ⟨hexec.open, hexec.slot, hexec.low, hexec.high⟩
  have hzero : mapped.Shows entries k₀.machine fun _ => 0 :=
    hmap.shows_zero rfl
  obtain ⟨k₁, hcopy, hshown⟩ :=
    hmap.copySegments_shows (k := k₀) hfile hzero hinside hread
  have hexec₁ : Executable k₁ f := by
    obtain ⟨position, hposition, -⟩ := hshown.reads
    refine ⟨⟨position, hposition⟩, ?_, hexec.low, hexec.high⟩
    rw [hshown.fileSystem, hexec₀.slot]
  obtain ⟨m₁, m', harguments, hstrings, harray⟩ :=
    hmap.storeArguments k₁.machine hargs
  obtain ⟨h, hclose⟩ := hexec₁.closeFile
  rw [hshown.fileSystem] at hclose
  have hblock := toNat_stringsAt_of_fits hmap.small hargs
  have hbelow := toNat_arrayAt hmap.small hargs
  have hchanged := changed_inside hgranted hmap.table
    (hshown.writes.trans (hstrings.writes.trans harray.writes))
  refine ⟨mapped.withArguments argv, { k₁ with
    machine := m'
    fileSystem := k.fileSystem.setSlot f.fileDescriptorId .null
    host := h }, entries, ?_, ?_, ?_⟩
  · rw [hcopy, ok_bind, harguments, ok_bind, hshown.fileSystem, hclose,
      ok_bind]
    rfl
  · constructor
    case table => exact hmap.table
    case pages => rfl
    case length => exact hmap.length
    case array => exact (arrayAt_withArguments mapped argv).symm
    case shows =>
      rw [shows_withArguments, argumentImage, arrayAt_withArguments,
        stringsAt_withArguments]
      apply harray.shows hmap (by rw [length_pointerArray]; omega)
      exact hstrings.shows hmap (by omega) hshown.shows
    case changed =>
      rw [physicalPages_withArguments]
      exact hchanged
  · rfl

/-- An image is loaded only when all of it fits. -/
theorem loadImage_fits
    {space space' : AddrSpace} {f : OpenFile} {noffH : NoffHeader}
    {k k' : Kernel} {argv : List CString} {success : Bool}
    (hmagic : noffH.noffMagic = noffMagicNumber)
    (hbits : k.machine.pageTableMap.numBits = numPhysPages)
    (hexec : Executable k f)
    (hload : space.loadImage f noffH k argv.length argv =
      .ok (success, space', k')) :
    noffH.SegmentsInside noffH.numPages ∧ noffH.SegmentsRead ∧
      ArgumentsFit noffH.numPages argv := by
  have hle := k.machine.pageTableMap.card_marked_le
  by_cases hfree : noffH.numPages ≤
      numPhysPages - k.machine.pageTableMap.marked.card
  · have hroom : k.machine.pageTableMap.marked.card + noffH.numPages ≤
        numPhysPages := by omega
    obtain ⟨bm, entries, -, hmap, hallocate⟩ :=
      space.allocateMemory_mapped k.machine hbits hroom
    rw [loadImage_of_allocated hmagic hallocate (by omega)] at hload
    set k₀ : Kernel := { k with machine := { k.machine with
      pageTableMap := bm
      mainMemory := zeroed (entries.map TranslationEntry.physicalPage)
        k.machine.mainMemory } }
    obtain ⟨k₁, hcopy, hload⟩ := ok_of_bind hload
    obtain ⟨s, hargs, -⟩ := ok_of_bind hload
    rcases hmap.copySegments_cases (k := k₀) noffH hexec.open with
      ⟨hinside, hread, -⟩ | ⟨-, -, hfails⟩ | ⟨-, hfails⟩
    · refine ⟨hinside, hread, ?_⟩
      by_contra hmisfit
      rw [hmap.copyArguments_misfit k₁.machine hmisfit] at hargs
      cases hargs
    · cases hcopy.symm.trans hfails
    · cases hcopy.symm.trans hfails
  · rw [loadImage_tooFew hmagic hbits hfree] at hload
    cases hload

end AddrSpace

/-! ## Segments that do not meet -/

namespace Segment

open AddrSpace (rounds)

/-- The address is one of the segment. -/
def Covers (segment : Segment) (address : ℕ) : Prop :=
  segment.virtualAddr.toNat ≤ address ∧
    address < segment.virtualAddr.toNat + rounds segment.size

/-- Segments that are not empty do not meet. -/
def Apart (segment other : Segment) : Prop :=
  rounds segment.size = 0 ∨ rounds other.size = 0 ∨
    segment.virtualAddr.toNat + rounds segment.size ≤
        other.virtualAddr.toNat ∨
      other.virtualAddr.toNat + rounds other.size ≤
        segment.virtualAddr.toNat

/-- A segment that is not empty ends at an address or below. -/
def Below (segment : Segment) (bound : ℕ) : Prop :=
  rounds segment.size = 0 ∨
    segment.virtualAddr.toNat + rounds segment.size ≤ bound

/-- The raw bytes of a segment that is not empty are inside the file. -/
def InFile (segment : Segment) (file : List (BitVec 8)) : Prop :=
  rounds segment.size = 0 ∨
    segment.inFileAddr.toNat + rounds segment.size ≤ file.length

instance (segment other : Segment) : Decidable (segment.Apart other) := by
  unfold Apart
  infer_instance

instance (segment : Segment) (bound : ℕ) :
    Decidable (segment.Below bound) := by
  unfold Below
  infer_instance

instance (segment : Segment) (file : List (BitVec 8)) :
    Decidable (segment.InFile file) := by
  unfold InFile
  infer_instance

theorem Apart.not_covers {segment other : Segment} {address : ℕ}
    (hapart : segment.Apart other) (hcovers : segment.Covers address) :
    ¬other.Covers address := by
  unfold Apart Covers at *
  omega

theorem Apart.symm {segment other : Segment} (hapart : segment.Apart other) :
    other.Apart segment := by
  unfold Apart at *
  omega

end Segment

namespace NoffHeader

open AddrSpace (rounds ArgumentsFit)

/-- Where the argument block starts. -/
def argumentStart (noffH : NoffHeader) (argv : List CString) : ℕ :=
  noffH.numPages * pageSize - (4 * AddrSpace.blockWords argv + 8)

/-- The segments do not meet, lie below the argument block and have their raw
bytes inside the file. -/
structure Placed (noffH : NoffHeader) (file : List (BitVec 8))
    (argv : List CString) : Prop where
  apart : [noffH.code, noffH.initData, noffH.readonlyData,
    noffH.uninitData].Pairwise Segment.Apart
  below : ∀ segment ∈ [noffH.code, noffH.initData, noffH.readonlyData,
    noffH.uninitData], segment.Below (noffH.argumentStart argv)
  inFile : ∀ segment ∈ [noffH.code, noffH.initData, noffH.readonlyData],
    segment.InFile file

section Placement

variable {noffH : NoffHeader} {file : List (BitVec 8)} {argv : List CString}

theorem Placed.apart_all (hplaced : noffH.Placed file argv) :
    noffH.code.Apart noffH.initData ∧ noffH.code.Apart noffH.readonlyData ∧
      noffH.code.Apart noffH.uninitData ∧
      noffH.initData.Apart noffH.readonlyData ∧
      noffH.initData.Apart noffH.uninitData ∧
      noffH.readonlyData.Apart noffH.uninitData := by
  have hapart := hplaced.apart
  simp only [List.pairwise_cons, List.mem_cons, List.not_mem_nil, or_false,
    forall_eq_or_imp, forall_eq] at hapart
  exact ⟨hapart.1.1, hapart.1.2.1, hapart.1.2.2, hapart.2.1.1,
    hapart.2.1.2, hapart.2.2.1⟩

end Placement

end NoffHeader

/-! ## Reading the image -/

namespace AddrSpace

theorem covered_segmentBytes
    {file : List (BitVec 8)} {segment : Segment} (hin : segment.InFile file)
    (address : ℕ) :
    Covered segment.virtualAddr.toNat
        (segmentBytes file segment (rounds segment.size)) address ↔
      segment.Covers address := by
  have hlength : (segmentBytes file segment (rounds segment.size)).length =
      rounds segment.size := by
    unfold Segment.InFile at hin
    rw [segmentBytes, List.length_take, List.length_drop]
    omega
  rw [Covered, Segment.Covers, hlength]

theorem segmentBytes_eq_some
    {file : List (BitVec 8)} {segment : Segment} (hin : segment.InFile file)
    {i : ℕ} (hlt : i < rounds segment.size) :
    ∃ byte, file[segment.inFileAddr.toNat + i]? = some byte ∧
      (segmentBytes file segment (rounds segment.size))[i]? = some byte := by
  have hinside : segment.inFileAddr.toNat + i < file.length := by
    unfold Segment.InFile at hin
    omega
  refine ⟨_, List.getElem?_eq_getElem hinside, ?_⟩
  rw [segmentBytes_getElem? file segment hlt]
  exact List.getElem?_eq_getElem hinside

section Reading

variable {noffH : NoffHeader} {file : List (BitVec 8)} {argv : List CString}

theorem covered_uninitData (address : ℕ) :
    Covered noffH.uninitData.virtualAddr.toNat
        (List.replicate (rounds noffH.uninitData.size) (0 : BitVec 8))
        address ↔ noffH.uninitData.Covers address := by
  rw [Covered, Segment.Covers, List.length_replicate]

theorem baseImage_code (hplaced : noffH.Placed file argv) {i : ℕ}
    (hlt : i < rounds noffH.code.size) :
    file[noffH.code.inFileAddr.toNat + i]? =
      some (baseImage file noffH (noffH.code.virtualAddr.toNat + i)) := by
  obtain ⟨hinit, -, huninit, -⟩ := hplaced.apart_all
  have hcovers : noffH.code.Covers (noffH.code.virtualAddr.toNat + i) :=
    ⟨Nat.le_add_right _ _, Nat.add_lt_add_left hlt _⟩
  have hinitIn := hplaced.inFile noffH.initData (by simp)
  obtain ⟨byte, hbyte, hget⟩ :=
    segmentBytes_eq_some (hplaced.inFile noffH.code (by simp)) hlt
  rw [baseImage, overlay_outside
      ((covered_segmentBytes hinitIn _).not.mpr (hinit.not_covers hcovers)),
    overlay_outside
      ((covered_uninitData _).not.mpr (huninit.not_covers hcovers)),
    overlay_inside hget, hbyte]

theorem baseImage_initData (hplaced : noffH.Placed file argv) {i : ℕ}
    (hlt : i < rounds noffH.initData.size) :
    file[noffH.initData.inFileAddr.toNat + i]? =
      some (baseImage file noffH
        (noffH.initData.virtualAddr.toNat + i)) := by
  obtain ⟨byte, hbyte, hget⟩ :=
    segmentBytes_eq_some (hplaced.inFile noffH.initData (by simp)) hlt
  rw [baseImage, overlay_inside hget, hbyte]

/-- Everything else is zero. -/
theorem baseImage_other (hplaced : noffH.Placed file argv) {address : ℕ}
    (hcode : ¬noffH.code.Covers address)
    (hinit : ¬noffH.initData.Covers address) :
    baseImage file noffH address = 0 := by
  have hcodeIn := hplaced.inFile noffH.code (by simp)
  have hinitIn := hplaced.inFile noffH.initData (by simp)
  rw [baseImage, overlay_outside ((covered_segmentBytes hinitIn _).not.mpr
    hinit)]
  by_cases huninit : noffH.uninitData.Covers address
  · obtain ⟨hle, hlt⟩ := huninit
    obtain ⟨i, rfl⟩ := Nat.exists_eq_add_of_le hle
    apply overlay_inside
    rw [List.getElem?_replicate, if_pos (by omega)]
  · rw [overlay_outside ((covered_uninitData _).not.mpr huninit),
      overlay_outside ((covered_segmentBytes hcodeIn _).not.mpr hcode)]

/-- Outside of the argument block the program finds the image of the
segments. -/
theorem argumentImage_outside {space : AddrSpace} {image : ℕ → BitVec 8}
    (hsmall : space.numPages ≤ numPhysPages)
    (hfits : ArgumentsFit space.numPages argv) {address : ℕ}
    (hout : address < (space.arrayAt argv).toNat ∨
      space.numPages * pageSize ≤ address + 8) :
    space.argumentImage argv image address = image address := by
  have hstrings := toNat_stringsAt_of_fits hsmall hfits
  have harray := toNat_arrayAt hsmall hfits
  rw [argumentImage, overlay_outside, overlay_outside]
  · unfold Covered
    omega
  · unfold Covered
    rw [length_pointerArray]
    omega

end Reading

/-! ## The right image -/

/-- The program finds the raw bytes of the segment. -/
def SegmentLoaded (entries : List TranslationEntry) (m : Machine)
    (file : List (BitVec 8)) (segment : Segment) : Prop :=
  ∀ i < rounds segment.size,
    (install entries m).userByte
        (segment.virtualAddr + BitVec.ofNat 32 i) =
      file[segment.inFileAddr.toNat + i]?

/-- What a `Load` that succeeds is for, when there is no read-only data. -/
structure RightImage (file : List (BitVec 8)) (noffH : NoffHeader)
    (k : Kernel) (space : AddrSpace) (entries : List TranslationEntry)
    (k' : Kernel) : Prop where
  table : space.pageTable = .table entries
  pages : entries.length = noffH.numPages
  code : SegmentLoaded entries k'.machine file noffH.code
  initData : SegmentLoaded entries k'.machine file noffH.initData
  zero : ∀ vaddr : BitVec 32,
    vaddr.toNat < noffH.numPages * pageSize →
    ¬noffH.code.Covers vaddr.toNat → ¬noffH.initData.Covers vaddr.toNat →
    (vaddr.toNat < space.argv.toNat ∨
      noffH.numPages * pageSize ≤ vaddr.toNat + 8) →
      (install entries k'.machine).userByte vaddr = some 0
  otherFrames : ∀ paddr : ℕ,
    k.machine.pageTableMap.Holds (paddr / pageSize : ℕ) →
      k'.machine.mainMemory paddr = k.machine.mainMemory paddr
  slots : k'.fileSystem = k.fileSystem

section Loaded

variable {noffH : NoffHeader} {file : List (BitVec 8)} {argv : List CString}
variable {space : AddrSpace} {entries : List TranslationEntry}
variable {k k' : Kernel} {m m' : Machine}

theorem ImageLoaded.array_eq
    (hloaded : ImageLoaded file noffH argv m space entries m')
    (hsmall : noffH.numPages ≤ numPhysPages)
    (hfits : ArgumentsFit noffH.numPages argv) :
    space.argv.toNat = noffH.argumentStart argv := by
  rw [← hloaded.pages] at hsmall hfits
  have hwords := toNat_arrayAt_words hsmall hfits
  rw [hloaded.pages] at hwords
  rw [hloaded.array, NoffHeader.argumentStart]
  omega

/-- Below the argument block the program finds the segments. -/
theorem ImageLoaded.userByte
    (hloaded : ImageLoaded file noffH argv m space entries m')
    (hsmall : noffH.numPages ≤ numPhysPages)
    (hfits : ArgumentsFit noffH.numPages argv) {vaddr : BitVec 32}
    (hbelow : vaddr.toNat < noffH.argumentStart argv) :
    (install entries m').userByte vaddr =
      some (programImage file noffH vaddr.toNat) := by
  have hinside : vaddr.toNat < space.numPages * pageSize := by
    rw [hloaded.pages]
    unfold NoffHeader.argumentStart at hbelow
    omega
  rw [← hloaded.array_eq hsmall hfits, hloaded.array] at hbelow
  rw [← hloaded.pages] at hsmall hfits
  rw [hloaded.shows vaddr hinside,
    argumentImage_outside hsmall hfits (.inl hbelow)]

/-- The bytes of a segment below the argument block. -/
theorem ImageLoaded.segment_byte
    (hloaded : ImageLoaded file noffH argv m space entries m')
    (hsmall : noffH.numPages ≤ numPhysPages)
    (hfits : ArgumentsFit noffH.numPages argv) {segment : Segment}
    (hbelow : segment.Below (noffH.argumentStart argv)) {i : ℕ}
    (hlt : i < rounds segment.size) :
    (install entries m').userByte
        (segment.virtualAddr + BitVec.ofNat 32 i) =
      some (programImage file noffH (segment.virtualAddr.toNat + i)) := by
  have hsize : noffH.numPages * pageSize ≤ memorySize :=
    Nat.mul_le_mul_right _ hsmall
  have hend : segment.virtualAddr.toNat + i < noffH.argumentStart argv := by
    unfold Segment.Below at hbelow
    omega
  have haddress := segment.address_eq (i := i)
    (show segment.virtualAddr.toNat + i < noffH.numPages * pageSize by
      unfold NoffHeader.argumentStart at hend
      omega) hsize
  rw [hloaded.userByte hsmall hfits (by rwa [haddress]), haddress]

theorem ImageLoaded.rightImage
    (hloaded : ImageLoaded file noffH argv k.machine space entries
      k'.machine)
    (hsmall : noffH.numPages ≤ numPhysPages)
    (hfits : ArgumentsFit noffH.numPages argv)
    (hplaced : noffH.Placed file argv)
    (hreadonly : noffH.readonlyRounds = 0)
    (hslots : k'.fileSystem = k.fileSystem) :
    RightImage file noffH k space entries k' := by
  have himage : programImage file noffH = baseImage file noffH := by
    rw [programImage, hreadonly, segmentBytes, List.take_zero, overlay_nil]
  constructor
  case table => exact hloaded.table
  case pages => exact hloaded.length
  case code =>
    intro i hi
    rw [hloaded.segment_byte hsmall hfits (hplaced.below _ (by simp)) hi,
      himage, baseImage_code hplaced hi]
  case initData =>
    intro i hi
    rw [hloaded.segment_byte hsmall hfits (hplaced.below _ (by simp)) hi,
      himage, baseImage_initData hplaced hi]
  case zero =>
    intro vaddr hinside hcode hinit hout
    rw [hloaded.array] at hout
    rw [← hloaded.pages] at hinside hout hsmall hfits
    rw [hloaded.shows vaddr hinside,
      argumentImage_outside hsmall hfits hout, himage,
      baseImage_other hplaced hcode hinit]
  case otherFrames =>
    intro paddr hheld
    by_contra hne
    exact (hloaded.changed paddr hne).2 hheld
  case slots => exact hslots

/-! ## Load without read-only data -/

variable {f : OpenFile} {fs : FileSystem} {h h' : Host} {inode : ℕ}
variable {rdata : Bool} {garbage : LoadGarbage} {fileName : CString}

/-- The position of each byte inside a file is a number of type `int`. -/
theorem segmentsRead_of_placed (hplaced : noffH.Placed file argv)
    (hreadonly : noffH.readonlyRounds = 0) (hlength : file.length ≤ 2 ^ 31) :
    noffH.SegmentsRead := by
  have hcode := hplaced.inFile noffH.code (by simp)
  have hinit := hplaced.inFile noffH.initData (by simp)
  unfold Segment.InFile at hcode hinit
  unfold NoffHeader.SegmentsRead Segment.readable
  omega

theorem segmentsInside_of_placed (hplaced : noffH.Placed file argv)
    (hreadonly : noffH.readonlyData.CopiesInside noffH.readonlyRounds
      noffH.numPages) : noffH.SegmentsInside noffH.numPages := by
  have hcode := hplaced.below noffH.code (by simp)
  have hinit := hplaced.below noffH.initData (by simp)
  have huninit := hplaced.below noffH.uninitData (by simp)
  unfold Segment.Below NoffHeader.argumentStart at hcode hinit huninit
  refine ⟨?_, fun _ => ⟨?_, ?_, fun _ => hreadonly⟩⟩
  · unfold Segment.CopiesInside Segment.Inside
    omega
  · unfold Segment.Inside
    omega
  · unfold Segment.CopiesInside Segment.Inside
    omega

/-- `Load` of an executable without read-only data, in either build: with
room for the arguments and frames enough it succeeds, and when it succeeds the
program finds the image its header describes. -/
theorem load_builds_image (space : AddrSpace)
    (hbits : k.machine.pageTableMap.numBits = numPhysPages)
    (hinode : k.host.directory fileName = some inode)
    (hopen : k.fileSystem.openNamed k.host fileName garbage.openType =
      (some f, fs, h))
    (hheader : readHeaderIn rdata f h garbage = .ok (noffH, h'))
    (hmagic : noffH.noffMagic = noffMagicNumber)
    (hreadonly : noffH.readonlyData.size = 0)
    (hplaced : noffH.Placed (k.host.contents inode) argv)
    (hfree : noffH.numPages ≤
      numPhysPages - k.machine.pageTableMap.marked.card) :
    (ArgumentsFit noffH.numPages argv →
      (k.host.contents inode).length ≤ 2 ^ 31 →
      ∃ space' k', space.loadIn rdata k garbage fileName argv.length argv =
        .ok (true, space', k')) ∧
    ∀ space' k', space.loadIn rdata k garbage fileName argv.length argv =
        .ok (true, space', k') →
      ∃ entries,
        RightImage (k.host.contents inode) noffH k space' entries k' := by
  have hrounds : noffH.readonlyRounds = 0 := by
    rw [NoffHeader.readonlyRounds, hreadonly]
    rfl
  have hsmall : noffH.numPages ≤ numPhysPages := by omega
  have hfile := readsFile_of_readHeader
    (readsFile_of_openNamed hinode hopen) hheader
  obtain ⟨heq, hexec⟩ :=
    loadIn_of_open space garbage hopen hheader argv.length argv
  have hnone : noffH.readonlyData.CopiesInside noffH.readonlyRounds
      noffH.numPages := by
    rw [hrounds]
    exact .inl (Nat.zero_min _)
  have hinside := segmentsInside_of_placed hplaced hnone
  rw [heq]
  constructor
  · intro hargs hlength
    have hread := segmentsRead_of_placed hplaced hrounds hlength
    obtain ⟨space', k', entries, hload, -⟩ :=
      loadImage_shows (k := { k with fileSystem := fs, host := h' }) space
        hmagic hbits hexec hfile hfree hinside hread hargs
    exact ⟨space', k', hload⟩
  · intro space' k' hload
    obtain ⟨-, hread, hargs⟩ :=
      loadImage_fits (k := { k with fileSystem := fs, host := h' }) hmagic
        hbits hexec hload
    obtain ⟨space'', k'', entries, hload', hloaded, hslots⟩ :=
      loadImage_shows (k := { k with fileSystem := fs, host := h' }) space
        hmagic hbits hexec hfile hfree hinside hread hargs
    rw [hload'] at hload
    cases hload
    have hclosed : k'.fileSystem = k.fileSystem :=
      hslots.trans (setSlot_of_openNamed hopen)
    exact ⟨entries, hloaded.rightImage (k := k) hsmall hargs hplaced hrounds
      hclosed⟩

end Loaded

/-- Four bytes of code, of initialised data and of uninitialised data. -/
def threeSegments : List (BitVec 32) :=
  [noffMagicNumber, 0, 52, 4, 4, 56, 4, 0, 0, 0, 8, 0, 4, 0x04030201,
    0x08070605]

theorem threeSegments_placed :
    (imageHeader threeSegments).Placed (threeSegments.flatMap wordBytes)
      [[97]] := by
  constructor <;> decide +kernel

theorem load_builds_three_segments :
    ∃ space k entries, loadWords threeSegments [[97]] = .ok (true, space, k) ∧
      RightImage (threeSegments.flatMap wordBytes) (imageHeader threeSegments)
        (imageKernel threeSegments) space entries k := by
  obtain ⟨f, fs, h, h', hopen, hheader⟩ := imageKernel_header threeSegments
  have himage := load_builds_image (k := imageKernel threeSegments)
    (new ⟨0, 0, 0, 0, 0⟩) rfl rfl hopen hheader (by decide +kernel)
    (by decide +kernel) threeSegments_placed
    (by rw [imageKernel_free]; decide +kernel)
  obtain ⟨space, k, hload⟩ :=
    himage.1 (by decide +kernel) (by decide +kernel)
  obtain ⟨entries, hright⟩ := himage.2 space k hload
  exact ⟨space, k, entries, hload, hright⟩

end AddrSpace

end Nachos
