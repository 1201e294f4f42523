import Nachos.DiskConsistency
import Nachos.DiskByteArray
import Nachos.FileStore

/-!
# What the files on the disk hold

The directory, the headers and the data sectors of a consistent disk stand for
a finite map from names to bytes.  `Create` and `Remove` change it at one name
only, and so does a write to the sectors of one file.
-/

namespace Nachos.Filesys

open Library
open Scheduling (Disk Sector sectorSize)

/-- The bytes of a file, as far as it goes. -/
def FileHeader.contents (hdr : FileHeader) (disk : Disk) : List (BitVec 8) :=
  (List.range hdr.fileLength.toNat).map (hdr.content disk)

/-- The bytes of the file of an entry. -/
def fileBytes (disk : Disk) (e : DirectoryEntry) : List (BitVec 8) :=
  (FileHeader.onDisk disk e.sector.toInt).contents disk

/-- An entry that is in use, as it is seen by the name. -/
def namedFile (disk : Disk) (e : DirectoryEntry) :
    (_ : CString) × List (BitVec 8) :=
  ⟨e.fileName, fileBytes disk e⟩

/-- The files that are on the disk. -/
def filesOn (disk : Disk) : Files :=
  ((directoryOf disk).files.map (namedFile disk)).toFinmap

/-! ## The map that a disk stands for -/

section Represents

variable {disk disk' : Disk} {e : DirectoryEntry} {name : CString}
variable {bytes : List (BitVec 8)}

@[simp] theorem FileHeader.length_contents (hdr : FileHeader) (disk : Disk) :
    (hdr.contents disk).length = hdr.fileLength.toNat := by
  simp [contents]

theorem keys_namedFile (disk : Disk) :
    ((directoryOf disk).files.map (namedFile disk)).keys =
      (directoryOf disk).names := by
  simp only [List.keys, List.map_map, Directory.names]
  rfl

theorem nodupKeys_namedFile (hnames : (directoryOf disk).names.Nodup) :
    ((directoryOf disk).files.map (namedFile disk)).NodupKeys := by
  rwa [List.NodupKeys, keys_namedFile]

theorem lookup_filesOn (hnames : (directoryOf disk).names.Nodup) :
    (filesOn disk).lookup name = some bytes ↔
      ∃ e ∈ (directoryOf disk).files,
        e.fileName = name ∧ fileBytes disk e = bytes := by
  rw [filesOn, Finmap.dlookup_list_toFinmap, ← Option.mem_def,
    List.mem_dlookup_iff (nodupKeys_namedFile hnames), List.mem_map]
  constructor
  · rintro ⟨e, he, heq⟩
    cases heq
    exact ⟨e, he, rfl, rfl⟩
  · rintro ⟨e, he, rfl, rfl⟩
    exact ⟨e, he, rfl⟩

theorem lookup_filesOn_of_mem
    (hnames : (directoryOf disk).names.Nodup)
    (he : e ∈ (directoryOf disk).files) :
    (filesOn disk).lookup e.fileName = some (fileBytes disk e) :=
  (lookup_filesOn hnames).mpr ⟨e, he, rfl, rfl⟩

theorem mem_filesOn (hnames : (directoryOf disk).names.Nodup) :
    name ∈ filesOn disk ↔ name ∈ (directoryOf disk).names := by
  rw [Finmap.mem_iff, Directory.names, List.mem_map]
  constructor
  · rintro ⟨bytes, hlookup⟩
    obtain ⟨e, he, hname, -⟩ := (lookup_filesOn hnames).mp hlookup
    exact ⟨e, he, hname⟩
  · rintro ⟨e, he, rfl⟩
    exact ⟨_, lookup_filesOn_of_mem hnames he⟩

/-- The map is known by what it has for each name. -/
theorem filesOn_eq
    {files : Files} (hnames : (directoryOf disk).names.Nodup)
    (hlookup : ∀ name bytes, files.lookup name = some bytes ↔
      ∃ e ∈ (directoryOf disk).files,
        e.fileName = name ∧ fileBytes disk e = bytes) :
    filesOn disk = files := by
  apply Finmap.ext_lookup
  intro name
  apply Option.ext
  intro bytes
  rw [lookup_filesOn hnames, hlookup]

/-- The entries of the map are those of the directory. -/
theorem entries_filesOn (hnames : (directoryOf disk).names.Nodup) :
    (filesOn disk).entries =
      ((directoryOf disk).files.map (namedFile disk) : Multiset _) := by
  have hnodup := nodupKeys_namedFile hnames
  refine Multiset.coe_eq_coe.mpr
    (List.lookup_ext (List.nodupKeys_dedupKeys _) hnodup ?_)
  intro name bytes
  simp only [List.toAList, List.dlookup_dedupKeys]

theorem card_keys_filesOn (hnames : (directoryOf disk).names.Nodup) :
    (filesOn disk).keys.card = (directoryOf disk).files.length := by
  have hkeys : (filesOn disk).keys = (directoryOf disk).names.toFinset := by
    ext name
    rw [Finmap.mem_keys, mem_filesOn hnames, List.mem_toFinset]
  rw [hkeys, List.toFinset_card_of_nodup hnames, Directory.names,
    List.length_map]

theorem sectorsTaken_filesOn (hnames : (directoryOf disk).names.Nodup) :
    sectorsTaken (filesOn disk) = ((directoryOf disk).files.map fun e =>
      sectorsFor (fileBytes disk e).length).sum := by
  rw [sectorsTaken, entries_filesOn hnames, Multiset.map_coe,
    Multiset.sum_coe, List.map_map]
  rfl

/-- A file depends on its sectors only. -/
theorem fileBytes_congr
    (hvalid : (FileHeader.onDisk disk e.sector.toInt).Valid)
    (hsame : ∀ sector ∈ fileSectors disk e,
      disk'.sectors sector = disk.sectors sector) :
    fileBytes disk' e = fileBytes disk e := by
  have hheader : FileHeader.onDisk disk' e.sector.toInt =
      FileHeader.onDisk disk e.sector.toInt :=
    FileHeader.onDisk_congr (hsame _ List.mem_cons_self)
  have hroom := fileLength_le hvalid
  simp only [fileBytes, FileHeader.contents, hheader]
  apply List.map_congr_left
  intro a ha
  have hlt := List.mem_range.mp ha
  apply content_congr
  · exact fun sector hsector =>
      hsame sector (List.mem_cons_of_mem _ hsector)
  · omega

end Represents

/-! ## Space -/

/-- A file has just the data sectors that it needs. -/
theorem FileHeader.IsFile.length_sectors
    {hdr : FileHeader} (hfile : hdr.IsFile) :
    hdr.sectors.length = hdr.fileLength.toNat ⌈/⌉ sectorSize := by
  have hdirect := hfile.direct
  rw [FileHeader.sectors, List.length_map, List.length_take,
    hdr.length_dataSectors]
  rw [hfile.numSectors] at hdirect ⊢
  by_cases hneg : hdr.fileLength < 0
  · have hnone := FileHeader.divRoundUpInt_nonpos hneg
    have hzero : hdr.fileLength.toNat = 0 := by omega
    rw [hzero, Nat.ceilDiv_eq_add_pred_div]
    unfold sectorSize at *
    omega
  · obtain ⟨n, hn⟩ := Int.eq_ofNat_of_zero_le (not_lt.mp hneg)
    rw [hn, FileHeader.divRoundUpInt_natCast] at hdirect ⊢
    rw [Int.toNat_natCast, Int.toNat_natCast]
    omega

/-- Each sector is free or in use. -/
theorem Consistent.freeSectors_add
    {disk : Disk} (hconsistent : Consistent disk) :
    freeSectors disk + (used disk).length = diskSize := by
  have hnodup : ((used disk).map Int.toNat).Nodup := by
    apply List.Nodup.map_on _ hconsistent.nodup
    intro sector hsector other hother heq
    have hnonneg := (hconsistent.exist sector hsector).1
    have hnonneg' := (hconsistent.exist other hother).1
    omega
  have hmarked : ((Finset.range diskSize).filter fun sector =>
      ¬marks disk sector = false) =
        ((used disk).map Int.toNat).toFinset := by
    ext sector
    simp only [Finset.mem_filter, Finset.mem_range, Bool.not_eq_false,
      List.mem_toFinset, List.mem_map]
    constructor
    · rintro ⟨hlt, hmarks⟩
      exact ⟨sector, (hconsistent.marked sector hlt).mp hmarks,
        Int.toNat_natCast sector⟩
    · rintro ⟨other, hother, rfl⟩
      obtain ⟨hnonneg, hbound⟩ := hconsistent.exist other hother
      have hlt : other.toNat < diskSize := by
        unfold diskSize
        omega
      refine ⟨hlt, (hconsistent.marked _ hlt).mpr ?_⟩
      rwa [Int.toNat_of_nonneg hnonneg]
  have hsum := Finset.card_filter_add_card_filter_not
    (s := Finset.range diskSize) fun sector => marks disk sector = false
  rwa [hmarked, List.toFinset_card_of_nodup hnodup, List.length_map,
    Finset.card_range] at hsum

/-- The header of a file, with a length that is not negative. -/
structure FileHeader.IsSized (hdr : FileHeader) : Prop extends hdr.IsFile where
  nonneg : 0 ≤ hdr.fileLength

/-- A consistent disk whose files have the data sectors that they need. -/
structure Intact (fs : FileSystem) : Prop where
  sound : Sound fs
  map : (mapHeader fs.disk).IsFile
  directory : (directoryHeader fs.disk).IsFile
  files : ∀ e ∈ (directoryOf fs.disk).files,
    (FileHeader.onDisk fs.disk e.sector.toInt).IsSized

section Space

variable {fs : FileSystem} {name : CString}

theorem Intact.names (hintact : Intact fs) :
    (directoryOf fs.disk).names.Nodup :=
  hintact.sound.consistent.names

/-- The free sectors, from the lengths of the files. -/
theorem Intact.freeSectors_add (hintact : Intact fs) :
    freeSectors fs.disk + (systemSectors + sectorsTaken (filesOn fs.disk)) =
      diskSize := by
  have hall := hintact.sound.consistent.freeSectors_add
  have hfiles : ((directoryOf fs.disk).files.flatMap
      (fileSectors fs.disk)).length = sectorsTaken (filesOn fs.disk) := by
    rw [sectorsTaken_filesOn hintact.names, List.length_flatMap]
    congr 1
    apply List.map_congr_left
    intro e he
    rw [fileSectors, List.length_cons,
      (hintact.files e he).toIsFile.length_sectors, fileBytes,
      FileHeader.length_contents, sectorsFor, Nat.add_comm]
  rw [used, List.length_append, List.length_append, List.length_append,
    hintact.map.length_sectors, hintact.directory.length_sectors, hfiles,
    hintact.sound.map.length, hintact.sound.table.length] at hall
  rw [systemSectors, sectorsFor, sectorsFor]
  have hmap : freeMapFileSize = sectorSize := rfl
  have hdirectory : directoryFileSize = numDirEntries * entrySize :=
    Nat.mul_comm _ _
  rw [hmap, hdirectory]
  simp only [Int.toNat_natCast, List.length_cons, List.length_nil] at hall
  omega

/-- There is a free entry as long as the table is not full. -/
theorem Intact.exists_free_entry (hintact : Intact fs) :
    (∃ e ∈ (directoryOf fs.disk).table, e.inUse = false) ↔
      (filesOn fs.disk).keys.card < numDirEntries := by
  rw [card_keys_filesOn hintact.names,
    ← Directory.length_directory (directoryHeader fs.disk) fs.disk]
  change _ ↔ (List.filter _ (directoryOf fs.disk).table).length <
    (directoryOf fs.disk).table.length
  rw [List.length_filter_lt_length_iff_exists]
  simp

/-- The condition of `create_spec`, by the names and the lengths. -/
theorem Intact.canCreate_iff (hintact : Intact fs) (size : ℕ) :
    FileStore.CanCreate (filesOn fs.disk) name size ↔
      name ∉ (directoryOf fs.disk).names ∧
        (∃ e ∈ (directoryOf fs.disk).table, e.inUse = false) ∧
        1 + size ⌈/⌉ sectorSize ≤ freeSectors fs.disk := by
  have hspace := hintact.freeSectors_add
  have hroom : systemSectors + sectorsTaken (filesOn fs.disk) +
      sectorsFor size ≤ diskSize ↔
        1 + size ⌈/⌉ sectorSize ≤ freeSectors fs.disk := by
    unfold sectorsFor
    omega
  rw [FileStore.CanCreate, mem_filesOn hintact.names,
    hintact.exists_free_entry, hroom]

end Space

end Nachos.Filesys
