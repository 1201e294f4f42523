import Mathlib.Algebra.Order.Floor.Div
import Nachos.DiskFiles

/-!
# The free map of the disk: `pbitmap.cc`, and `Allocate` and `Deallocate`

The map of the sectors that are in use is a bitmap in memory, which is read
from a file and written back to it.  A header takes its data sectors from the
map and gives them back.
-/

namespace Nachos.Filesys

open Library
open Scheduling (Disk sectorSize numSectors)

/-! ## `class PersistentBitmap` -/

namespace PersistentBitmap

/-- `(char *)map`. -/
def bytes (b : Bitmap) : Block :=
  .ofWords fun k => b.map.getD k 0

/-- `numWords * sizeof(unsigned)`. -/
def size (b : Bitmap) : ℤ :=
  b.map.length * 4

/-- `PersistentBitmap::FetchFrom`. -/
def fetchFrom (b : Bitmap) (file : OpenFile) (disk : Disk) (fresh : Block) :
    Except Fault Bitmap := do
  let (_, map) ← file.readAt disk fresh (bytes b) 0 (size b) 0
  return { b with
    map := (List.range b.map.length).map fun k => map.word (4 * k)
    numWords := by simpa using b.numWords }

/-- `PersistentBitmap::PersistentBitmap(file, numItems)`. -/
def ofFile (file : OpenFile) (disk : Disk) (fresh : Block) (numItems : ℕ) :
    Except Fault Bitmap := do
  let b ← Bitmap.init numItems
  fetchFrom b file disk fresh

/-- `PersistentBitmap::WriteBack`. -/
def writeBack (b : Bitmap) (file : OpenFile) (disk : Disk) (fresh : Block) :
    Except Fault Disk := do
  let (_, disk) ← file.writeAt disk fresh (bytes b) (size b) 0
  return disk

end PersistentBitmap

/-- How many sectors the disk has. -/
def diskSize : ℕ := numSectors.toNat

/-- The bit of a sector in the file of the free map. -/
def FileHeader.marks (hdr : FileHeader) (disk : Disk) (sector : ℕ) : Bool :=
  ((hdr.content disk).word (4 * (sector / bitsInWord))).getLsbD
    (sector % bitsInWord)

/-- The file has one bit for each sector. -/
structure FileHeader.HoldsMap (hdr : FileHeader) : Prop where
  valid : hdr.Valid
  nodup : hdr.sectors.Nodup
  length : hdr.fileLength = sectorSize

namespace PersistentBitmap

variable {b : Bitmap} {file : OpenFile} {disk : Disk} {fresh : Block}

theorem getD_map_range (words : ℕ → BitVec 32) {k n : ℕ} (hlt : k < n) :
    ((List.range n).map words).getD k 0 = words k := by
  simp [List.getD_eq_getElem?_getD, hlt]

theorem length_map (hbits : b.numBits = diskSize) : b.map.length = 32 := by
  rw [b.numWords, hbits]
  rfl

theorem size_map (hbits : b.numBits = diskSize) : size b = 128 := by
  rw [size, length_map hbits]
  rfl

theorem map_pos (hmap : file.hdr.HoldsMap) :
    ((0 : ℕ) : ℤ) < file.hdr.fileLength := by
  rw [hmap.length]
  decide

theorem word_lt {sector : ℕ} (hsector : sector < diskSize) :
    sector / bitsInWord < 32 := by
  have hlt : sector < 1024 := hsector
  unfold bitsInWord
  omega

theorem clamp_map (hmap : file.hdr.HoldsMap) :
    (file.clamp 128 0).toNat = sectorSize := by
  rw [OpenFile.clamp, hmap.length]
  rfl

theorem fetchFrom_spec
    (hmap : file.hdr.HoldsMap) (hidle : disk.active = false)
    (hbits : b.numBits = diskSize) :
    ∃ b', fetchFrom b file disk fresh = .ok b' ∧ b'.numBits = diskSize ∧
      ∀ sector < diskSize, b'.bit sector = file.hdr.marks disk sector := by
  have hlength := length_map hbits
  have hread : file.readAt disk fresh (bytes b) 0 128 0 = _ :=
    OpenFile.readAt_spec hmap.valid hidle (by decide) (map_pos hmap)
  rw [clamp_map hmap] at hread
  rw [fetchFrom, size_map hbits, hread, ok_bind]
  refine ⟨_, rfl, hbits, ?_⟩
  intro sector hsector
  have hword := word_lt hsector
  have hsame : (Block.copy (fun a => file.hdr.content disk (0 + a)) 0
      (bytes b) 0 sectorSize).word (4 * (sector / bitsInWord)) =
      (file.hdr.content disk).word (4 * (sector / bitsInWord)) := by
    apply Block.word_congr
    intro j hj
    have hlt : 4 * (sector / bitsInWord) + j < 0 + sectorSize := by
      unfold sectorSize
      omega
    rw [Block.copy_apply, if_pos ⟨Nat.zero_le _, hlt⟩, Nat.sub_zero,
      Nat.zero_add, Nat.zero_add]
  rw [Bitmap.bit_eq_getLsbD, FileHeader.marks, Bitmap.word,
    getD_map_range _ (hlength.symm ▸ hword), hsame]

theorem ofFile_spec
    (hmap : file.hdr.HoldsMap) (hidle : disk.active = false) :
    ∃ b, ofFile file disk fresh diskSize = .ok b ∧ b.numBits = diskSize ∧
      ∀ sector < diskSize, b.bit sector = file.hdr.marks disk sector := by
  have hpos : 0 < diskSize := by decide
  obtain ⟨b, hinit, hbits, -⟩ := Bitmap.init_spec hpos
  rw [ofFile, hinit, ok_bind]
  exact fetchFrom_spec hmap hidle hbits

theorem writeBack_spec
    (hmap : file.hdr.HoldsMap) (hidle : disk.active = false)
    (hbits : b.numBits = diskSize) :
    ∃ disk', writeBack b file disk fresh = .ok disk' ∧
      disk'.active = false ∧
      (∀ sector, sector ∉ file.hdr.sectors →
        disk'.sectors sector = disk.sectors sector) ∧
      ∀ sector < diskSize, file.hdr.marks disk' sector = b.bit sector := by
  obtain ⟨disk', hwrite, hactive, hothers, hcontent⟩ :=
    @OpenFile.writeAt_spec file disk fresh 0 128 (bytes b)
      hmap.valid hmap.nodup hidle (by decide) (map_pos hmap)
  rw [clamp_map hmap, hmap.length] at hcontent
  refine ⟨disk', ?_, hactive, hothers, ?_⟩
  · rw [writeBack, size_map hbits, hwrite]
    rfl
  · intro sector hsector
    have hword := word_lt hsector
    have hsame : (file.hdr.content disk').word (4 * (sector / bitsInWord)) =
        (bytes b).word (4 * (sector / bitsInWord)) := by
      apply Block.word_congr
      intro j hj
      have hlt : 4 * (sector / bitsInWord) + j < sectorSize := by
        unfold sectorSize
        omega
      rw [hcontent _ (by exact_mod_cast hlt), Block.copy_apply,
        if_pos ⟨Nat.zero_le _, by omega⟩]
      congr 1
      omega
    rw [FileHeader.marks, hsame, bytes, Block.word_ofWords,
      Bitmap.bit_eq_getLsbD, Bitmap.word]

end PersistentBitmap

/-! ## `Allocate` -/

namespace FileHeader

variable {hdr hdr' : FileHeader} {bm bm' : Bitmap}

/-- The sectors that have been put into the header, `count` of them, and the
map that is left when it was `bm` before. -/
structure Allocated (hdr : FileHeader) (bm : Bitmap) (count : ℕ)
    (hdr' : FileHeader) (bm' : Bitmap) : Prop where
  numBytes : hdr'.numBytes = hdr.numBytes
  numSectors : hdr'.numSectors = hdr.numSectors
  numBits : bm'.numBits = bm.numBits
  card : bm'.marked.card = bm.marked.card + count
  nodup : ((hdr'.dataSectors.take count).map BitVec.toInt).Nodup
  free : ∀ sector ∈ (hdr'.dataSectors.take count).map BitVec.toInt,
    bm.InRange sector ∧ ¬bm.Holds sector
  taken : ∀ sector, bm'.Holds sector ↔ bm.Holds sector ∨
    sector ∈ (hdr'.dataSectors.take count).map BitVec.toInt

theorem toInt_ofInt_sector
    {sector : ℕ} (hlt : sector < 2 ^ 31) :
    (BitVec.ofInt 32 sector).toInt = sector := by
  apply BitVec.toInt_ofInt_eq_self (by decide)
  · omega
  · omega

theorem setDataSector_ok
    (hdr : FileHeader) {i : ℕ} (hi : i < numDirect) (sector : ℤ) :
    ∃ hdr', hdr.setDataSector i sector = .ok hdr' ∧
      hdr'.numBytes = hdr.numBytes ∧ hdr'.numSectors = hdr.numSectors ∧
      hdr'.dataSectors = hdr.dataSectors.set i (.ofInt 32 sector) :=
  ⟨_, if_pos hi, rfl, rfl, rfl⟩

/-- One more sector is taken while the map is not full. -/
theorem Allocated.allocateSector
    {count : ℕ} (hallocated : Allocated hdr bm count hdr' bm')
    (hbits : bm.numBits ≤ 2 ^ 31) (hfree : bm'.marked.card < bm'.numBits)
    (hcount : count < numDirect) :
    ∃ s, allocateSector count (hdr', bm') = .ok s ∧
      Allocated hdr bm (count + 1) s.1 s.2 := by
  obtain ⟨sector, hlt, hclear, hfind⟩ := Bitmap.findAndSet_of_card_lt hfree
  have hnew : ¬bm'.Holds sector := by
    rw [Bitmap.holds_natCast hlt, hclear]
    simp
  have hnew' := (hallocated.taken sector).not.mp hnew
  push Not at hnew'
  have hrange : bm.InRange sector := by
    rw [hallocated.numBits] at hlt
    exact Bitmap.inRange_natCast hlt
  have hvalue : (BitVec.ofInt 32 sector).toInt = sector := by
    apply toInt_ofInt_sector
    have hsame := hallocated.numBits
    omega
  obtain ⟨hdr'', hset, hnumBytes, hnumSectors, hdataSectors⟩ :=
    setDataSector_ok hdr' hcount sector
  have htake : hdr''.dataSectors.take (count + 1) =
      hdr'.dataSectors.take count ++ [.ofInt 32 sector] := by
    rw [hdataSectors]
    have hlength : count < (hdr'.dataSectors.set count
        (.ofInt 32 sector)).length := by
      rw [List.length_set, hdr'.length_dataSectors]
      exact hcount
    rw [List.take_succ_eq_append_getElem hlength,
      List.take_set_of_le le_rfl, List.getElem_set_self]
  have hpos : 0 ≤ (sector : ℤ) := Int.natCast_nonneg sector
  refine ⟨(hdr'', bm'.setBit sector), ?_, ?_⟩
  · rw [FileHeader.allocateSector, hfind, ok_bind]
    simp only [hset, ok_bind, assert_of_true hpos]
    rfl
  · constructor
    case numBytes => exact hnumBytes.trans hallocated.numBytes
    case numSectors => exact hnumSectors.trans hallocated.numSectors
    case numBits => exact hallocated.numBits
    case card =>
      have hmem : sector ∉ bm'.marked := by simp [hclear]
      rw [Bitmap.marked_setBit hlt, Finset.card_insert_of_notMem hmem,
        hallocated.card]
      omega
    case nodup =>
      simp only [htake, List.map_append, List.map_singleton, hvalue]
      apply hallocated.nodup.append (List.nodup_singleton _)
      intro other hold hlast
      rw [List.mem_singleton.mp hlast] at hold
      exact hnew'.2 hold
    case free =>
      simp only [htake, List.map_append, List.map_singleton, hvalue]
      intro other hother
      obtain hold | hlast := List.mem_append.mp hother
      · exact hallocated.free other hold
      · rw [List.mem_singleton.mp hlast]
        exact ⟨hrange, hnew'.1⟩
    case taken =>
      intro other
      simp only [htake, List.map_append, List.map_singleton, hvalue]
      rw [Bitmap.holds_setBit hlt, hallocated.taken, List.mem_append,
        List.mem_singleton, or_assoc]

theorem allocateSectors_spec
    {count : ℕ} (hbits : bm.numBits ≤ 2 ^ 31)
    (hfree : bm.marked.card + count ≤ bm.numBits) (hcount : count ≤ numDirect) :
    ∃ hdr' bm', countedLoop allocateSector 0 count (hdr, bm) =
      .ok (hdr', bm') ∧ Allocated hdr bm count hdr' bm' := by
  let Inv : ℕ → FileHeader × Bitmap → Prop := fun i s =>
    Allocated hdr bm i s.1 s.2
  have hzero : Inv 0 (hdr, bm) := by
    constructor <;> simp
  have hround : ∀ i s, 0 ≤ i → i < 0 + count → Inv i s →
      ∃ s', allocateSector i s = .ok s' ∧ Inv (i + 1) s' := by
    intro i s _ hlt hinv
    have hroom : s.2.marked.card < s.2.numBits := by
      rw [hinv.card, hinv.numBits]
      omega
    exact hinv.allocateSector hbits hroom (by omega)
  obtain ⟨⟨hdr', bm'⟩, hloop, hinv⟩ := countedLoop_spec Inv hzero hround
  rw [Nat.zero_add] at hinv
  exact ⟨hdr', bm', hloop, hinv⟩

/-- The first two assignments of `Allocate`. -/
def sized (hdr : FileHeader) (fileSize : ℤ) : FileHeader :=
  { hdr with
    numBytes := .ofInt 32 fileSize
    numSectors := .ofInt 32 (divRoundUpInt fileSize sectorSize) }

theorem allocate_eq (hdr : FileHeader) (bm : Bitmap) (fileSize : ℤ) :
    hdr.allocate bm fileSize =
      if ((bm.numBits - bm.marked.card : ℕ) : ℤ) <
          divRoundUpInt fileSize sectorSize then
        .ok (false, hdr.sized fileSize, bm)
      else do
        let (hdr', bm') ← countedLoop allocateSector 0
          (divRoundUpInt fileSize sectorSize).toNat (hdr.sized fileSize, bm)
        return (true, hdr', bm') := by
  rw [allocate, Bitmap.numClear_eq]
  rfl

theorem allocate_few
    {fileSize : ℤ} (hdr : FileHeader)
    (hfew : ((bm.numBits - bm.marked.card : ℕ) : ℤ) <
      divRoundUpInt fileSize sectorSize) :
    hdr.allocate bm fileSize = .ok (false, hdr.sized fileSize, bm) := by
  rw [allocate_eq, if_pos hfew]

theorem allocate_room
    {fileSize : ℤ} (hdr : FileHeader) (hbits : bm.numBits ≤ 2 ^ 31)
    (hroom : ¬((bm.numBits - bm.marked.card : ℕ) : ℤ) <
      divRoundUpInt fileSize sectorSize)
    (hdirect : divRoundUpInt fileSize sectorSize ≤ numDirect) :
    ∃ hdr' bm', hdr.allocate bm fileSize = .ok (true, hdr', bm') ∧
      Allocated (hdr.sized fileSize) bm
        (divRoundUpInt fileSize sectorSize).toNat hdr' bm' := by
  have hcard := bm.card_marked_le
  obtain ⟨hdr', bm', hloop, hallocated⟩ := @allocateSectors_spec
    (hdr.sized fileSize) bm (divRoundUpInt fileSize sectorSize).toNat hbits
    (by omega) (by omega)
  refine ⟨hdr', bm', ?_, hallocated⟩
  rw [allocate_eq, if_neg hroom, hloop]
  rfl

/-- What a header and the map are like after `Allocate` has returned `TRUE`. -/
structure Took (bm : Bitmap) (fileSize : ℕ) (hdr : FileHeader)
    (bm' : Bitmap) : Prop where
  valid : hdr.Valid
  fileLength : hdr.fileLength = fileSize
  nodup : hdr.sectors.Nodup
  numBits : bm'.numBits = bm.numBits
  card : bm'.marked.card = bm.marked.card + fileSize ⌈/⌉ sectorSize
  free : ∀ sector ∈ hdr.sectors, ¬bm.Holds sector
  taken : ∀ sector, bm'.Holds sector ↔
    bm.Holds sector ∨ sector ∈ hdr.sectors

theorem divRoundUpInt_natCast (fileSize : ℕ) :
    divRoundUpInt fileSize sectorSize = (fileSize ⌈/⌉ sectorSize : ℕ) := by
  have hnonneg : 0 ≤ (fileSize : ℤ) := Int.natCast_nonneg fileSize
  rw [divRoundUpInt, Int.tdiv_eq_ediv_of_nonneg hnonneg,
    Int.tmod_eq_emod_of_nonneg hnonneg, Nat.ceilDiv_eq_add_pred_div]
  unfold sectorSize
  split_ifs <;> omega

theorem ceilDiv_le {fileSize : ℕ} (hsize : fileSize ≤ maxFileSize) :
    fileSize ⌈/⌉ sectorSize ≤ numDirect ∧
      fileSize ≤ fileSize ⌈/⌉ sectorSize * sectorSize := by
  rw [Nat.ceilDiv_eq_add_pred_div]
  unfold maxFileSize numDirect sectorSize at *
  omega

theorem isSector_of_inRange
    {sector : ℤ} (hbits : bm.numBits = diskSize) (hrange : bm.InRange sector) :
    IsSector sector := by
  rw [Bitmap.InRange, hbits] at hrange
  exact hrange

/-- `Allocate` fails only where the map has too few sectors. -/
theorem allocate_spec
    (hdr : FileHeader) {fileSize : ℕ} (hbits : bm.numBits = diskSize)
    (hsize : fileSize ≤ maxFileSize) :
    if fileSize ⌈/⌉ sectorSize ≤ diskSize - bm.marked.card then
      ∃ hdr' bm', hdr.allocate bm fileSize = .ok (true, hdr', bm') ∧
        Took bm fileSize hdr' bm'
    else ∃ hdr', hdr.allocate bm fileSize = .ok (false, hdr', bm) := by
  obtain ⟨hdirect, hspace⟩ := ceilDiv_le hsize
  have hsectors := divRoundUpInt_natCast fileSize
  have hcard := bm.card_marked_le
  split_ifs with hroom
  · have hbits' : bm.numBits ≤ 2 ^ 31 := by
      rw [hbits]
      decide
    obtain ⟨hdr', bm', hallocate, hallocated⟩ := @allocate_room bm fileSize hdr
      hbits' (by omega) (by omega)
    rw [hsectors, Int.toNat_natCast] at hallocated
    have hnumSectors : hdr'.numSectors.toInt =
        (fileSize ⌈/⌉ sectorSize : ℕ) := by
      rw [hallocated.numSectors, sized, hsectors]
      apply toInt_ofInt_sector
      unfold numDirect at hdirect
      omega
    have hlength : hdr'.fileLength = fileSize := by
      rw [fileLength, hallocated.numBytes]
      apply toInt_ofInt_sector
      unfold maxFileSize numDirect sectorSize at hsize
      omega
    have hlisted : hdr'.sectors =
        (hdr'.dataSectors.take (fileSize ⌈/⌉ sectorSize)).map
          BitVec.toInt := by
      rw [sectors, hnumSectors, Int.toNat_natCast]
    refine ⟨hdr', bm', hallocate, ?_⟩
    constructor
    case valid =>
      constructor
      case count =>
        rw [hnumSectors]
        omega
      case exist =>
        intro sector hsector
        rw [hlisted] at hsector
        exact isSector_of_inRange hbits (hallocated.free sector hsector).1
      case fits =>
        rw [hlength, hnumSectors]
        exact_mod_cast hspace
    case fileLength => exact hlength
    case nodup => rw [hlisted]; exact hallocated.nodup
    case numBits => exact hallocated.numBits
    case card => exact hallocated.card
    case free =>
      intro sector hsector
      rw [hlisted] at hsector
      exact (hallocated.free sector hsector).2
    case taken => rw [hlisted]; exact hallocated.taken
  · exact ⟨_, allocate_few hdr (by omega)⟩

/-! ## `Deallocate` -/

/-- The sectors of a header are given back, if the map has them. -/
theorem deallocate_spec
    (hvalid : hdr.Valid) (hnodup : hdr.sectors.Nodup)
    (hholds : ∀ sector ∈ hdr.sectors, bm.Holds sector) :
    ∃ bm', hdr.deallocate bm = .ok bm' ∧ bm'.numBits = bm.numBits ∧
      ∀ sector, bm'.Holds sector ↔
        bm.Holds sector ∧ sector ∉ hdr.sectors := by
  have hlength := length_sectors hvalid
  let Inv : ℕ → Bitmap → Prop := fun i bm' => bm'.numBits = bm.numBits ∧
    ∀ sector, bm'.Holds sector ↔
      bm.Holds sector ∧ sector ∉ hdr.sectors.take i
  have hzero : Inv 0 bm := by simp [Inv]
  have hround : ∀ i bm', 0 ≤ i → i < 0 + hdr.sectors.length → Inv i bm' →
      ∃ bm'', hdr.deallocateSector i bm' = .ok bm'' ∧ Inv (i + 1) bm'' := by
    rintro i bm' - hi ⟨hsame, hinv⟩
    rw [Nat.zero_add] at hi
    have hmem := List.getElem_mem hi
    have hfresh : hdr.sectors[i] ∉ hdr.sectors.take i := by
      intro htaken
      obtain ⟨j, hj, heq⟩ := List.mem_take_iff_getElem.mp htaken
      have hsame := (hnodup.getElem_inj_iff).mp heq
      omega
    have hheld := (hinv hdr.sectors[i]).mpr ⟨hholds _ hmem, hfresh⟩
    obtain ⟨sector, hsector⟩ := Int.eq_ofNat_of_zero_le hheld.1.1
    have hlt : sector < bm'.numBits := by
      have hrange := hheld.1.2
      rw [hsector] at hrange
      exact_mod_cast hrange
    have hbit : bm'.bit sector = true := by
      rw [hsector] at hheld
      exact (Bitmap.holds_natCast hlt).mp hheld
    refine ⟨bm'.clearBit sector, ?_, hsame, ?_⟩
    · rw [deallocateSector, dataSector_eq hi, ok_bind, hsector,
        Bitmap.test_eq hlt, ok_bind, assert_of_true hbit, ok_bind,
        Bitmap.clear_eq hlt]
    · intro other
      rw [Bitmap.holds_clearBit hlt, hinv,
        List.take_succ_eq_append_getElem hi, List.mem_append,
        List.mem_singleton, hsector, not_or, and_assoc]
  obtain ⟨bm', hloop, hsame, hinv⟩ := countedLoop_spec Inv hzero hround
  refine ⟨bm', ?_, hsame, ?_⟩
  · rw [deallocate, ← hlength]
    exact hloop
  · simpa using hinv

end FileHeader

end Nachos.Filesys
