import Nachos.HeaderCapacity

/-!
# A file on the disk as an array of bytes

A header with a data sector for each part of the file makes the disk an array
of bytes: `WriteAt` stores into a range of it, cut at the end of the file, and
`ReadAt` gets the range back, whatever the sectors are that it lies in.
-/

namespace Nachos.Filesys

open Library
open Scheduling (Disk sectorSize)

/-- When a read request has been served, the disk is what it was. -/
theorem callBack_of_readRequest
    {disk disk' : Disk} {sectorNumber : ℤ} {data : Scheduling.Sector}
    (hrequest : disk.readRequest sectorNumber = .ok (disk', data)) :
    disk'.callBack = disk := by
  rcases ok_of_bind hrequest with ⟨_, hidle, hrequest⟩
  rcases ok_of_bind hrequest with ⟨_, _, hrequest⟩
  cases hrequest
  have hactive : disk.active = false := by
    by_contra hbusy
    rw [assert_of_false hbusy] at hidle
    cases hidle
  rw [Disk.callBack, ← hactive]

/-- The header lists distinct sectors, one for each part of the file. -/
structure FileHeader.IsFile (hdr : FileHeader) : Prop where
  numSectors : hdr.numSectors.toInt = divRoundUpInt hdr.fileLength sectorSize
  direct : hdr.numSectors.toInt ≤ numDirect
  exist : ∀ sector ∈ hdr.sectors, IsSector sector
  nodup : hdr.sectors.Nodup

theorem FileHeader.IsFile.valid
    {hdr : FileHeader} (hfile : hdr.IsFile) (hpos : 0 < hdr.fileLength) :
    hdr.Valid := by
  have hbounds := divRoundUpInt_bounds hpos.le
  have hsize : (sectorSize : ℤ) = 128 := rfl
  have hdirect := hfile.direct
  rw [← hfile.numSectors] at hbounds
  constructor
  case count => omega
  case exist => exact hfile.exist
  case fits =>
    rw [hsize]
    exact hbounds.1

namespace OpenFile

/-- The number of bytes that `ReadAt` and `WriteAt` return. -/
def transferred (f : OpenFile) (numBytes : ℤ) (position : ℕ) : ℕ :=
  if numBytes ≤ 0 ∨ (position : ℤ) ≥ f.hdr.fileLength then 0
  else (min numBytes (f.hdr.fileLength - position)).toNat

variable {f : OpenFile} {disk : Disk} {fresh into source : Block}
variable {start position : ℕ} {numBytes : ℤ}

theorem copy_zero (source target : Block) (i j : ℕ) :
    source.copy i target j 0 = target := by
  funext a
  rw [Block.copy_apply, if_neg (by omega)]

theorem transferred_eq_clamp
    (hnumBytes : 0 < numBytes) (hposition : (position : ℤ) < f.hdr.fileLength) :
    (f.clamp numBytes position).toNat = f.transferred numBytes position := by
  obtain ⟨-, hmin, -⟩ := clamp_spec hnumBytes hposition
  have hnormal : ¬(numBytes ≤ 0 ∨ (position : ℤ) ≥ f.hdr.fileLength) := by
    omega
  rw [transferred, if_neg hnormal]
  omega

theorem transferred_le_length
    (hpos : 0 < f.transferred numBytes position) :
    (position : ℤ) + f.transferred numBytes position ≤ f.hdr.fileLength := by
  unfold transferred at *
  split_ifs at * <;> omega

theorem readAt_eq
    (hfile : f.hdr.IsFile) (hidle : disk.active = false) (fresh into : Block)
    (start : ℕ) (numBytes : ℤ) (position : ℕ) :
    f.readAt disk fresh into start numBytes position =
      .ok ((f.transferred numBytes position : ℤ),
        Block.copy (fun a => f.hdr.content disk (position + a)) 0 into start
          (f.transferred numBytes position)) := by
  by_cases hnothing : numBytes ≤ 0 ∨ (position : ℤ) ≥ f.hdr.fileLength
  · rw [readAt, if_pos hnothing, transferred, if_pos hnothing, copy_zero]
    rfl
  · have hnumBytes : 0 < numBytes := by omega
    have hposition : (position : ℤ) < f.hdr.fileLength := by omega
    rw [readAt_spec (hfile.valid (by omega)) hidle hnumBytes hposition,
      transferred_eq_clamp hnumBytes hposition]

theorem writeAt_eq
    (hfile : f.hdr.IsFile) (hidle : disk.active = false)
    (fresh source : Block) (numBytes : ℤ) (position : ℕ) :
    ∃ disk', f.writeAt disk fresh source numBytes position =
        .ok ((f.transferred numBytes position : ℤ), disk') ∧
      disk'.active = false ∧
      (∀ sector, sector ∉ f.hdr.sectors →
        disk'.sectors sector = disk.sectors sector) ∧
      ∀ a : ℕ, (a : ℤ) < f.hdr.fileLength → f.hdr.content disk' a =
        source.copy 0 (f.hdr.content disk) position
          (f.transferred numBytes position) a := by
  by_cases hnothing : numBytes ≤ 0 ∨ (position : ℤ) ≥ f.hdr.fileLength
  · refine ⟨disk, ?_, hidle, fun _ _ => rfl, fun a _ => ?_⟩
    · rw [writeAt, if_pos hnothing, transferred, if_pos hnothing]
      rfl
    · rw [transferred, if_pos hnothing, copy_zero]
  · have hnumBytes : 0 < numBytes := by omega
    have hposition : (position : ℤ) < f.hdr.fileLength := by omega
    rw [← transferred_eq_clamp hnumBytes hposition]
    exact writeAt_spec source (hfile.valid (by omega)) hfile.nodup hidle
      hnumBytes hposition

theorem file_is_byte_array
    (hfile : f.hdr.IsFile) (hidle : disk.active = false)
    (fresh source into : Block) (start : ℕ) (numBytes : ℤ) (position : ℕ)
    (_hsum : position + numBytes < 2 ^ 31) :
    (∃ read, f.readAt disk fresh into start numBytes position =
        .ok ((f.transferred numBytes position : ℤ), read) ∧
      (∀ a < f.transferred numBytes position,
        read (start + a) = f.hdr.content disk (position + a)) ∧
      ∀ a, ¬(start ≤ a ∧ a < start + f.transferred numBytes position) →
        read a = into a) ∧
    (∀ sectorNumber disk' data,
      disk.readRequest sectorNumber = .ok (disk', data) →
        disk'.callBack = disk) ∧
    ∃ disk', f.writeAt disk fresh source numBytes position =
        .ok ((f.transferred numBytes position : ℤ), disk') ∧
      (∀ a < f.transferred numBytes position,
        f.hdr.content disk' (position + a) = source a) ∧
      (∀ a : ℕ, (a : ℤ) < f.hdr.fileLength →
        ¬(position ≤ a ∧ a < position + f.transferred numBytes position) →
          f.hdr.content disk' a = f.hdr.content disk a) ∧
      (∀ sector, sector ∉ f.hdr.sectors →
        disk'.sectors sector = disk.sectors sector) ∧
      ∃ read, f.readAt disk' fresh into start numBytes position =
          .ok ((f.transferred numBytes position : ℤ), read) ∧
        ∀ a < f.transferred numBytes position,
          read (start + a) = source a := by
  obtain ⟨disk', hwrite, hidle', hothers, hcontent⟩ :=
    writeAt_eq hfile hidle fresh source numBytes position
  have hstored : ∀ a < f.transferred numBytes position,
      f.hdr.content disk' (position + a) = source a := by
    intro a ha
    have hfits := transferred_le_length (Nat.zero_lt_of_lt ha)
    rw [hcontent _ (by push_cast; omega), Block.copy_apply,
      if_pos (by omega)]
    congr 1
    omega
  have hdelivered : ∀ (content : Block),
      ∀ a < f.transferred numBytes position,
        Block.copy (fun a => content (position + a)) 0 into start
          (f.transferred numBytes position) (start + a) =
            content (position + a) := by
    intro content a ha
    rw [Block.copy_apply, if_pos (by omega)]
    congr 1
    omega
  refine ⟨⟨_, readAt_eq hfile hidle fresh into start numBytes position,
    hdelivered _, fun a ha => ?_⟩,
    fun _ _ _ hrequest => callBack_of_readRequest hrequest,
    disk', hwrite, hstored, fun a ha hout => ?_, hothers,
    _, readAt_eq hfile hidle' fresh into start numBytes position, ?_⟩
  · rw [Block.copy_apply, if_neg ha]
  · rw [hcontent a ha, Block.copy_apply, if_neg hout]
  · intro a ha
    rw [hdelivered _ a ha, hstored a ha]

/-- A range that goes from the first into the last sector of a file, and past
its end. -/
theorem file_is_byte_array_past_end :
    ∃ disk', writeAt ⟨200, 2, 9 :: 5 :: List.replicate 28 0, rfl⟩
        ⟨fun _ _ => 7, false⟩ (fun _ => 0) (fun a => .ofNat 8 a) 150 100 =
          .ok (100, disk') ∧
      FileHeader.content ⟨200, 2, 9 :: 5 :: List.replicate 28 0, rfl⟩ disk'
        (100 + 99) = 99 := by
  have hfile : FileHeader.IsFile
      ⟨200, 2, 9 :: 5 :: List.replicate 28 0, rfl⟩ := by
    constructor <;> decide
  obtain ⟨-, -, disk', hwrite, hstored, -⟩ :=
    @file_is_byte_array ⟨200, 2, 9 :: 5 :: List.replicate 28 0, rfl⟩
      ⟨fun _ _ => 7, false⟩ hfile rfl (fun _ => 0) (fun a => .ofNat 8 a)
      (fun _ => 0) 0 150 100 (by decide)
  exact ⟨disk', hwrite, hstored 99 (by decide)⟩

end OpenFile

end Nachos.Filesys
