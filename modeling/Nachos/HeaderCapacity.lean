import Nachos.DiskAllocation

/-!
# The capacity of a file header

A header is as large as a sector, so that it lists at most `numDirect` data
sectors.  `Allocate` compares the size of the new file with the free sectors
of the disk only: a file that the disk has room for and the header has not is
allocated beyond the end of the table.
-/

namespace Nachos.Filesys

open Library
open Scheduling (sectorSize)

namespace FileHeader

/-- A header that has been filled from the map `bm`. -/
structure FilledFrom (hdr : FileHeader) (bm : Bitmap) : Prop where
  count : hdr.numSectors.toInt ≤ numDirect
  nodup : hdr.sectors.Nodup
  free : ∀ sector ∈ hdr.sectors, bm.InRange sector ∧ ¬bm.Holds sector
  reached : ∀ offset : ℕ, (offset : ℤ) < hdr.fileLength →
    ∃ sector ∈ hdr.sectors, hdr.byteToSector offset = .ok sector

/-- `Allocate` returns `FALSE` and leaves the map as it is, or it returns
`TRUE` with a header that lists free sectors for every byte of the file. -/
def AllocatesWithin (hdr : FileHeader) (bm : Bitmap) (fileSize : ℤ) : Prop :=
  (∃ hdr', hdr.allocate bm fileSize = .ok (false, hdr', bm)) ∨
    ∃ hdr' bm', hdr.allocate bm fileSize = .ok (true, hdr', bm') ∧
      hdr'.FilledFrom bm

variable {hdr hdr' : FileHeader} {bm bm' : Bitmap} {fileSize : ℤ}

/-! ## The number of sectors -/

theorem divRoundUpInt_nonpos (hneg : fileSize < 0) :
    divRoundUpInt fileSize sectorSize ≤ 0 ∧
      fileSize ≤ divRoundUpInt fileSize sectorSize := by
  obtain ⟨n, rfl⟩ : ∃ n : ℕ, fileSize = -n :=
    ⟨fileSize.natAbs, by omega⟩
  have hnonneg : 0 ≤ (n : ℤ) := Int.natCast_nonneg n
  have hmod : ¬-((n : ℤ) % (sectorSize : ℕ)) > 0 := by
    have hmod' := Int.emod_nonneg (n : ℤ)
      (show ((sectorSize : ℕ) : ℤ) ≠ 0 by decide)
    omega
  rw [divRoundUpInt, Int.neg_tdiv, Int.neg_tmod,
    Int.tdiv_eq_ediv_of_nonneg hnonneg, Int.tmod_eq_emod_of_nonneg hnonneg,
    if_neg hmod]
  unfold sectorSize
  omega

/-- A size that is not negative, and its sectors. -/
theorem divRoundUpInt_bounds (hnonneg : 0 ≤ fileSize) :
    fileSize ≤ divRoundUpInt fileSize sectorSize * 128 ∧
      divRoundUpInt fileSize sectorSize * 128 < fileSize + 128 := by
  obtain ⟨n, rfl⟩ := Int.eq_ofNat_of_zero_le hnonneg
  rw [divRoundUpInt_natCast, Nat.ceilDiv_eq_add_pred_div]
  unfold sectorSize
  omega

theorem divRoundUpInt_le_numDirect_iff :
    divRoundUpInt fileSize sectorSize ≤ numDirect ↔ fileSize ≤ maxFileSize := by
  have hdirect : numDirect = 30 := rfl
  have hmax : maxFileSize = 3840 := rfl
  by_cases hneg : fileSize < 0
  · have hnonpos := divRoundUpInt_nonpos hneg
    omega
  · have hbounds := divRoundUpInt_bounds (not_lt.mp hneg)
    omega

section Sized

variable (hlow : -2 ^ 31 ≤ fileSize) (hhigh : fileSize < 2 ^ 31)

include hlow hhigh

theorem toInt_numBytes_sized : (hdr.sized fileSize).fileLength = fileSize := by
  rw [fileLength, sized]
  apply BitVec.toInt_ofInt_eq_self (by decide) <;> omega

theorem toInt_numSectors_sized :
    (hdr.sized fileSize).numSectors.toInt =
      divRoundUpInt fileSize sectorSize := by
  rw [sized]
  by_cases hneg : fileSize < 0
  · have hnonpos := divRoundUpInt_nonpos hneg
    apply BitVec.toInt_ofInt_eq_self (by decide) <;> omega
  · have hbounds := divRoundUpInt_bounds (not_lt.mp hneg)
    apply BitVec.toInt_ofInt_eq_self (by decide) <;> omega

end Sized

/-! ## A size the header has room for -/

theorem Allocated.filledFrom
    (hlow : -2 ^ 31 ≤ fileSize) (hhigh : fileSize < 2 ^ 31)
    (hsize : fileSize ≤ maxFileSize)
    (hallocated : Allocated (hdr.sized fileSize) bm
      (divRoundUpInt fileSize sectorSize).toNat hdr' bm') :
    hdr'.FilledFrom bm := by
  have hdirect := divRoundUpInt_le_numDirect_iff.mpr hsize
  have hnumSectors : hdr'.numSectors.toInt =
      divRoundUpInt fileSize sectorSize := by
    rw [hallocated.numSectors, toInt_numSectors_sized hlow hhigh]
  have hlength : hdr'.fileLength = fileSize := by
    rw [fileLength, hallocated.numBytes]
    exact toInt_numBytes_sized hlow hhigh
  have hlisted : hdr'.sectors =
      (hdr'.dataSectors.take (divRoundUpInt fileSize sectorSize).toNat).map
        BitVec.toInt := by
    rw [sectors, hnumSectors]
  constructor
  case count => rwa [hnumSectors]
  case nodup =>
    rw [hlisted]
    exact hallocated.nodup
  case free =>
    rw [hlisted]
    exact hallocated.free
  case reached =>
    intro offset hoffset
    rw [hlength] at hoffset
    have hbounds := @divRoundUpInt_bounds fileSize (by omega)
    have hi : offset / sectorSize < hdr'.sectors.length := by
      rw [hlisted, List.length_map, List.length_take,
        hdr'.length_dataSectors]
      unfold sectorSize at *
      omega
    exact ⟨_, List.getElem_mem hi, dataSector_eq hi⟩

/-! ## A size it has no room for -/

/-- There is no entry in the table for another sector. -/
theorem allocateSector_numDirect (s : FileHeader × Bitmap) :
    allocateSector numDirect s = .error .undefinedBehaviour := by
  obtain ⟨hfind, -⟩ | ⟨i, -, -, -, hfind⟩ := s.2.findAndSet_cases
  all_goals
    rw [allocateSector, hfind, ok_bind]
    rfl

theorem allocate_overflow
    (hdr : FileHeader) (hbits : bm.numBits ≤ 2 ^ 31)
    (hroom : ¬((bm.numBits - bm.marked.card : ℕ) : ℤ) <
      divRoundUpInt fileSize sectorSize)
    (hsize : ¬fileSize ≤ maxFileSize) :
    hdr.allocate bm fileSize = .error .undefinedBehaviour := by
  have hdirect := divRoundUpInt_le_numDirect_iff.not.mpr hsize
  let Inv : ℕ → FileHeader × Bitmap → Prop := fun i s =>
    Allocated (hdr.sized fileSize) bm i s.1 s.2
  have hzero : Inv 0 (hdr.sized fileSize, bm) := by
    constructor <;> simp
  have hround : ∀ i s, 0 ≤ i → i < numDirect → Inv i s →
      ∃ s', allocateSector i s = .ok s' ∧ Inv (i + 1) s' := by
    intro i s _ hlt hinv
    have hfree : s.2.marked.card < s.2.numBits := by
      rw [hinv.card, hinv.numBits]
      omega
    exact hinv.allocateSector hbits hfree hlt
  rw [allocate_eq, if_neg hroom,
    countedLoop_fails Inv hzero (Nat.zero_le numDirect) (by omega) hround
      fun s _ => allocateSector_numDirect s]
  rfl

theorem not_allocatesWithin_of_error
    {e : Fault} (hfails : hdr.allocate bm fileSize = .error e) :
    ¬hdr.AllocatesWithin bm fileSize := by
  rintro (⟨hdr', hallocate⟩ | ⟨hdr', bm', hallocate, -⟩)
  · rw [hfails] at hallocate
    cases hallocate
  · rw [hfails] at hallocate
    cases hallocate

/-- The map of a disk that has been formatted, with a sector for the header of
a new file. -/
def formattedMap : Bitmap :=
  ⟨1024, 63 :: List.replicate 31 0, rfl⟩

/-- One byte more than a header can list, on a disk that is almost empty. -/
theorem not_allocatesWithin_formattedMap :
    ¬AllocatesWithin ⟨0, 0, List.replicate 30 0, rfl⟩ formattedMap 3841 := by
  have hfree : formattedMap.numBits - formattedMap.marked.card = 1018 := by
    decide +kernel
  have hroom : ¬((formattedMap.numBits - formattedMap.marked.card : ℕ) : ℤ) <
      divRoundUpInt 3841 sectorSize := by
    rw [hfree]
    decide
  exact not_allocatesWithin_of_error
    (allocate_overflow _ (by decide) hroom (by decide))

/-- `Allocate` keeps to the table exactly when the table is large enough for
the file, or when the disk has too few sectors for it. -/
theorem allocatesWithin_iff
    (hdr : FileHeader) (hbits : bm.numBits < 2 ^ 31)
    (hlow : -2 ^ 31 ≤ fileSize) (hhigh : fileSize < 2 ^ 31) :
    hdr.AllocatesWithin bm fileSize ↔
      fileSize ≤ maxFileSize ∨
        ((bm.numBits - bm.marked.card : ℕ) : ℤ) <
          divRoundUpInt fileSize sectorSize := by
  constructor
  · intro hwithin
    by_contra hneither
    rw [not_or] at hneither
    have hoverflow := allocate_overflow hdr hbits.le hneither.2 hneither.1
    exact not_allocatesWithin_of_error hoverflow hwithin
  · intro hcondition
    by_cases hfew : ((bm.numBits - bm.marked.card : ℕ) : ℤ) <
        divRoundUpInt fileSize sectorSize
    · exact .inl ⟨_, allocate_few hdr hfew⟩
    · have hsize := hcondition.resolve_right hfew
      obtain ⟨hdr', bm', hallocate, hallocated⟩ := allocate_room hdr
        hbits.le hfew (divRoundUpInt_le_numDirect_iff.mpr hsize)
      exact .inr ⟨hdr', bm', hallocate,
        hallocated.filledFrom hlow hhigh hsize⟩

theorem allocatesWithin_formattedMap :
    AllocatesWithin ⟨0, 0, List.replicate 30 0, rfl⟩ formattedMap 3840 :=
  (@allocatesWithin_iff formattedMap 3840 ⟨0, 0, List.replicate 30 0, rfl⟩
    (by decide) (by decide) (by decide)).mpr (.inl (by decide))

end FileHeader

end Nachos.Filesys
