import Nachos.DiskFileSystem

/-!
# The disk stays consistent

An operation writes the data sectors of the map and of the directory, and a
sector that was free.  All other sectors that are in use are kept, so that the
headers are still there, and what the two files hold is all that changes.
-/

namespace Nachos.Filesys

open Library
open Scheduling (Disk Sector sectorSize)

/-! ## What depends on which sectors -/

section Depends

variable {disk disk' : Disk} {hdr : FileHeader}

theorem content_congr
    (hsame : ∀ sector ∈ hdr.sectors,
      disk'.sectors sector = disk.sectors sector)
    {a : ℕ} (ha : a < hdr.sectors.length * sectorSize) :
    hdr.content disk' a = hdr.content disk a := by
  have hi : a / sectorSize < hdr.sectors.length :=
    Nat.div_lt_of_lt_mul (by rwa [Nat.mul_comm])
  have hget : hdr.sectors.getD (a / sectorSize) 0 =
      hdr.sectors[a / sectorSize] := by
    simp [List.getD_eq_getElem?_getD, hi]
  rw [FileHeader.content, FileHeader.content, hget,
    hsame _ (List.getElem_mem hi)]

/-- The data sectors have room for the file. -/
theorem fileLength_le (hvalid : hdr.Valid) :
    hdr.fileLength ≤ (hdr.sectors.length * sectorSize : ℕ) := by
  have hlength := FileHeader.length_sectors hvalid
  have hcount := hvalid.count
  have hfits := hvalid.fits
  unfold sectorSize at *
  omega

theorem marks_congr
    (hmap : hdr.HoldsMap)
    (hsame : ∀ sector ∈ hdr.sectors,
      disk'.sectors sector = disk.sectors sector)
    {sector : ℕ} (hsector : sector < diskSize) :
    hdr.marks disk' sector = hdr.marks disk sector := by
  have hroom := fileLength_le hmap.valid
  rw [hmap.length] at hroom
  have hword : (hdr.content disk').word (4 * (sector / bitsInWord)) =
      (hdr.content disk).word (4 * (sector / bitsInWord)) := by
    apply Block.word_congr
    intro j hj
    apply content_congr hsame
    have hlt : sector < 1024 := hsector
    unfold bitsInWord sectorSize at *
    omega
  rw [FileHeader.marks, FileHeader.marks, hword]

theorem directory_congr
    (htable : hdr.HoldsTable)
    (hsame : ∀ sector ∈ hdr.sectors,
      disk'.sectors sector = disk.sectors sector) :
    hdr.directory disk' = hdr.directory disk := by
  have hroom := fileLength_le htable.valid
  rw [htable.length] at hroom
  apply Directory.ofBytes_congr
  intro a ha
  apply content_congr hsame
  omega

end Depends

/-! ## The invariant -/

/-- A consistent disk, and the headers of its two files in memory. -/
structure Sound (fs : FileSystem) : Prop where
  consistent : Consistent fs.disk
  idle : fs.disk.active = false
  mapFile : fs.freeMapFile.hdr = mapHeader fs.disk
  directoryFile : fs.directoryFile.hdr = directoryHeader fs.disk
  map : (mapHeader fs.disk).HoldsMap
  table : (directoryHeader fs.disk).HoldsTable
  files : ∀ e ∈ (directoryOf fs.disk).files,
    (FileHeader.onDisk fs.disk e.sector.toInt).Valid

section Used

variable {disk disk' : Disk} {sector : ℤ} {e : DirectoryEntry}

theorem mem_used :
    sector ∈ used disk ↔ sector = freeMapSector ∨ sector = directorySector ∨
      sector ∈ (mapHeader disk).sectors ∨
      sector ∈ (directoryHeader disk).sectors ∨
      ∃ e ∈ (directoryOf disk).files, sector ∈ fileSectors disk e := by
  simp [used]

theorem mem_used_of_fileSectors
    (he : e ∈ (directoryOf disk).files) (hsector : sector ∈ fileSectors disk e) :
    sector ∈ used disk :=
  mem_used.mpr (.inr (.inr (.inr (.inr ⟨e, he, hsector⟩))))

/-- What the sectors in use are besides the data of the two files. -/
structure Apart (disk : Disk) (sector : ℤ) : Prop where
  map : sector ∉ (mapHeader disk).sectors
  directory : sector ∉ (directoryHeader disk).sectors

/-- The sectors in use are in use for one purpose. -/
theorem Consistent.apart (hconsistent : Consistent disk) :
    Apart disk freeMapSector ∧ Apart disk directorySector ∧
      (∀ e ∈ (directoryOf disk).files, ∀ sector ∈ fileSectors disk e,
        Apart disk sector) ∧
      ∀ sector ∈ (mapHeader disk).sectors,
        sector ∉ (directoryHeader disk).sectors := by
  have hnodup := hconsistent.nodup
  unfold used at hnodup
  obtain ⟨hheaders, -, hfiles⟩ := List.nodup_append'.mp hnodup
  obtain ⟨hmap, -, hdirectory⟩ := List.nodup_append'.mp hheaders
  obtain ⟨-, -, hfixed⟩ := List.nodup_append'.mp hmap
  refine ⟨⟨?_, ?_⟩, ⟨?_, ?_⟩, ?_, ?_⟩
  · exact hfixed (by simp)
  · exact hdirectory (by simp)
  · exact hfixed (by simp)
  · exact hdirectory (by simp)
  · intro e he sector hsector
    have hmem : sector ∈ (directoryOf disk).files.flatMap (fileSectors disk) :=
      List.mem_flatMap.mpr ⟨e, he, hsector⟩
    constructor
    · intro hin
      exact hfiles (List.mem_append_left _ (List.mem_append_right _ hin)) hmem
    · intro hin
      exact hfiles (List.mem_append_right _ hin) hmem
  · intro sector hsector
    exact hdirectory (List.mem_append_right _ hsector)

end Used

/-! ## A step of the file system -/

/-- The disk is idle, and the sectors in use are kept, but for the data of the
two files. -/
structure Kept (disk disk' : Disk) : Prop where
  idle : disk'.active = false
  kept : ∀ sector ∈ used disk, Apart disk sector →
    disk'.sectors sector = disk.sectors sector

section Kept

variable {disk disk' : Disk} {e : DirectoryEntry}

theorem Kept.mapHeader
    (hkept : Kept disk disk') (hconsistent : Consistent disk) :
    mapHeader disk' = Filesys.mapHeader disk :=
  FileHeader.onDisk_congr
    (hkept.kept _ (mem_used.mpr (.inl rfl)) hconsistent.apart.1)

theorem Kept.directoryHeader
    (hkept : Kept disk disk') (hconsistent : Consistent disk) :
    directoryHeader disk' = Filesys.directoryHeader disk :=
  FileHeader.onDisk_congr
    (hkept.kept _ (mem_used.mpr (.inr (.inl rfl))) hconsistent.apart.2.1)

theorem Kept.header
    (hkept : Kept disk disk') (hconsistent : Consistent disk)
    (he : e ∈ (directoryOf disk).files) :
    FileHeader.onDisk disk' e.sector.toInt =
      FileHeader.onDisk disk e.sector.toInt := by
  have hmem : e.sector.toInt ∈ fileSectors disk e := List.mem_cons_self
  exact FileHeader.onDisk_congr (hkept.kept _
    (mem_used_of_fileSectors he hmem) (hconsistent.apart.2.2.1 e he _ hmem))

theorem Kept.flatMap
    (hkept : Kept disk disk') (hconsistent : Consistent disk)
    {files : List DirectoryEntry}
    (hfiles : ∀ e ∈ files, e ∈ (directoryOf disk).files) :
    files.flatMap (fileSectors disk') = files.flatMap (fileSectors disk) := by
  rw [List.flatMap_def, List.flatMap_def]
  congr 1
  apply List.map_congr_left
  intro e he
  rw [fileSectors, fileSectors, hkept.header hconsistent (hfiles e he)]

/-- An entry is added. -/
theorem Kept.used_added
    (hkept : Kept disk disk') (hconsistent : Consistent disk)
    (hfiles : (directoryOf disk').files.Perm (e :: (directoryOf disk).files)) :
    (used disk').Perm (fileSectors disk' e ++ used disk) := by
  have hold := hkept.flatMap hconsistent fun _ he => he
  have hnew := hfiles.flatMap_right (fileSectors disk')
  rw [List.flatMap_cons, hold] at hnew
  unfold used
  rw [hkept.mapHeader hconsistent, hkept.directoryHeader hconsistent]
  exact (hnew.append_left _).trans (List.perm_append_comm_assoc _ _ _)

/-- An entry is removed. -/
theorem Kept.used_removed
    (hkept : Kept disk disk') (hconsistent : Consistent disk)
    (hfiles : (directoryOf disk).files.Perm (e :: (directoryOf disk').files)) :
    (used disk).Perm (fileSectors disk e ++ used disk') := by
  have hold := hkept.flatMap hconsistent fun _ he =>
    hfiles.mem_iff.mpr (List.mem_cons_of_mem _ he)
  have hnew := hfiles.flatMap_right (fileSectors disk)
  rw [List.flatMap_cons, ← hold] at hnew
  unfold used
  rw [hkept.mapHeader hconsistent, hkept.directoryHeader hconsistent]
  exact (hnew.append_left _).trans (List.perm_append_comm_assoc _ _ _)

end Kept

section Step

variable {fs : FileSystem} {disk' : Disk} {e : DirectoryEntry}

/-- The headers in memory are those on the disk. -/
theorem Sound.kept
    (hsound : Sound fs) (hkept : Kept fs.disk disk')
    (hconsistent : Consistent disk')
    (hfiles : ∀ e ∈ (directoryOf disk').files,
      (FileHeader.onDisk disk' e.sector.toInt).Valid) :
    Sound { fs with disk := disk' } := by
  have hmap := hkept.mapHeader hsound.consistent
  have hdirectory := hkept.directoryHeader hsound.consistent
  constructor
  case consistent => exact hconsistent
  case idle => exact hkept.idle
  case mapFile => exact hsound.mapFile.trans hmap.symm
  case directoryFile => exact hsound.directoryFile.trans hdirectory.symm
  case map => exact hmap ▸ hsound.map
  case table => exact hdirectory ▸ hsound.table
  case files => exact hfiles

/-- A file is created in sectors that were free. -/
theorem Sound.created
    (hsound : Sound fs) (hkept : Kept fs.disk disk')
    (hfiles : (directoryOf disk').files.Perm
      (e :: (directoryOf fs.disk).files))
    (hname : e.fileName ∉ (directoryOf fs.disk).names)
    (hvalid : (FileHeader.onDisk disk' e.sector.toInt).Valid)
    (hnodup : (fileSectors disk' e).Nodup)
    (hfree : ∀ sector ∈ fileSectors disk' e,
      IsSector sector ∧ sector ∉ used fs.disk)
    (hmarks : ∀ sector < diskSize, marks disk' sector = true ↔
      marks fs.disk sector = true ∨ (sector : ℤ) ∈ fileSectors disk' e) :
    Sound { fs with disk := disk' } := by
  have hused := hkept.used_added hsound.consistent hfiles
  apply hsound.kept hkept
  · constructor
    case exist =>
      intro sector hsector
      obtain hnew | hold := List.mem_append.mp (hused.mem_iff.mp hsector)
      · exact (hfree sector hnew).1
      · exact hsound.consistent.exist sector hold
    case marked =>
      intro sector hsector
      rw [hmarks sector hsector, hsound.consistent.marked sector hsector,
        hused.mem_iff, List.mem_append]
      exact or_comm
    case nodup =>
      apply hused.nodup_iff.mpr
      apply hnodup.append hsound.consistent.nodup
      intro sector hnew hold
      exact (hfree sector hnew).2 hold
    case names =>
      have hnames := hfiles.map DirectoryEntry.fileName
      apply hnames.nodup_iff.mpr
      exact List.nodup_cons.mpr ⟨hname, hsound.consistent.names⟩
  · intro e' he'
    obtain rfl | hold := List.mem_cons.mp (hfiles.mem_iff.mp he')
    · exact hvalid
    · rw [hkept.header hsound.consistent hold]
      exact hsound.files e' hold

/-- A file is removed. -/
theorem Sound.removed
    (hsound : Sound fs) (hkept : Kept fs.disk disk')
    (hfiles : (directoryOf fs.disk).files.Perm
      (e :: (directoryOf disk').files))
    (hmarks : ∀ sector < diskSize, marks disk' sector = true ↔
      marks fs.disk sector = true ∧
        (sector : ℤ) ∉ fileSectors fs.disk e) :
    Sound { fs with disk := disk' } := by
  have hused := hkept.used_removed hsound.consistent hfiles
  have hnodup := hused.nodup_iff.mp hsound.consistent.nodup
  obtain ⟨-, hrest, hdisjoint⟩ := List.nodup_append'.mp hnodup
  have hold : ∀ e' ∈ (directoryOf disk').files,
      e' ∈ (directoryOf fs.disk).files := fun e' he' =>
    hfiles.mem_iff.mpr (List.mem_cons_of_mem _ he')
  apply hsound.kept hkept
  · constructor
    case exist =>
      intro sector hsector
      exact hsound.consistent.exist sector
        (hused.mem_iff.mpr (List.mem_append_right _ hsector))
    case marked =>
      intro sector hsector
      rw [hmarks sector hsector, hsound.consistent.marked sector hsector,
        hused.mem_iff, List.mem_append]
      constructor
      · rintro ⟨hfile | hin, hother⟩
        · exact (hother hfile).elim
        · exact hin
      · intro hin
        exact ⟨.inr hin, fun hfile => hdisjoint hfile hin⟩
    case nodup => exact hrest
    case names =>
      have hnames := hfiles.map DirectoryEntry.fileName
      exact (List.nodup_cons.mp
        (hnames.nodup_iff.mp hsound.consistent.names)).2
  · intro e' he'
    rw [hkept.header hsound.consistent (hold e' he')]
    exact hsound.files e' (hold e' he')

end Step

/-! ## What an operation reads -/

/-- The map in memory is that on the disk. -/
structure Maps (disk : Disk) (bm : Bitmap) : Prop where
  numBits : bm.numBits = diskSize
  bits : ∀ sector < diskSize, bm.bit sector = marks disk sector

section Read

variable {fs : FileSystem} {bm : Bitmap} {e : DirectoryEntry}

theorem Sound.directory
    (hsound : Sound fs) (fresh : ℕ → DirectoryEntry) (buffer : Block) :
    (Directory.new fresh numDirEntries).fetchFrom fs.directoryFile fs.disk
      buffer = .ok (directoryOf fs.disk) := by
  have hlength : (Directory.new fresh numDirEntries).table.length =
      numDirEntries := by
    simp [Directory.new]
  rw [Directory.fetchFrom_spec (hsound.directoryFile ▸ hsound.table)
    hsound.idle hlength, hsound.directoryFile]
  rfl

theorem Sound.freeMap (hsound : Sound fs) (buffer : Block) :
    ∃ bm, PersistentBitmap.ofFile fs.freeMapFile fs.disk buffer diskSize =
      .ok bm ∧ Maps fs.disk bm := by
  obtain ⟨bm, hread, hbits, hbit⟩ := PersistentBitmap.ofFile_spec
    (hsound.mapFile ▸ hsound.map) hsound.idle
  rw [hsound.mapFile] at hbit
  exact ⟨bm, hread, hbits, hbit⟩

theorem Maps.holds
    (hmaps : Maps fs.disk bm) (hsound : Sound fs) (sector : ℤ) :
    bm.Holds sector ↔ sector ∈ used fs.disk := by
  constructor
  · rintro ⟨hrange, hbit⟩
    obtain ⟨n, rfl⟩ := Int.eq_ofNat_of_zero_le hrange.1
    have hlt : n < diskSize := by
      have hbound := hrange.2
      rw [hmaps.numBits] at hbound
      exact_mod_cast hbound
    rw [Int.toNat_natCast, hmaps.bits n hlt] at hbit
    exact (hsound.consistent.marked n hlt).mp hbit
  · intro hused
    have hsector := hsound.consistent.exist sector hused
    obtain ⟨n, rfl⟩ := Int.eq_ofNat_of_zero_le hsector.1
    have hlt : n < diskSize := by
      have hbound : (n : ℤ) < diskSize := hsector.2
      exact_mod_cast hbound
    apply (Bitmap.holds_natCast (hmaps.numBits.symm ▸ hlt)).mpr
    rw [hmaps.bits n hlt]
    exact (hsound.consistent.marked n hlt).mpr hused

theorem Maps.freeSectors (hmaps : Maps fs.disk bm) :
    freeSectors fs.disk = diskSize - bm.marked.card := by
  have hmarked : bm.marked = (Finset.range diskSize).filter
      fun sector => ¬marks fs.disk sector = false := by
    ext sector
    simp only [Bitmap.mem_marked, Finset.mem_filter, Finset.mem_range,
      hmaps.numBits, Bool.not_eq_false]
    constructor
    · rintro ⟨hlt, hbit⟩
      exact ⟨hlt, hmaps.bits sector hlt ▸ hbit⟩
    · rintro ⟨hlt, hbit⟩
      exact ⟨hlt, (hmaps.bits sector hlt).trans hbit⟩
  have hsum := Finset.card_filter_add_card_filter_not
    (s := Finset.range diskSize) fun sector => marks fs.disk sector = false
  rw [← hmarked, Finset.card_range] at hsum
  rw [Filesys.freeSectors]
  omega

/-- The sector of an entry in use. -/
theorem Sound.sector
    (hsound : Sound fs) (he : e ∈ (directoryOf fs.disk).files) :
    IsSector e.sector.toInt := by
  apply hsound.consistent.exist
  exact mem_used_of_fileSectors he List.mem_cons_self

end Read

/-! ## What an operation writes -/

/-- The map and the directory have been written to their files. -/
structure Written (disk : Disk) (mapFile directoryFile : OpenFile)
    (bm : Bitmap) (directory : Directory) (disk' : Disk) : Prop where
  idle : disk'.active = false
  others : ∀ sector, sector ∉ mapFile.hdr.sectors →
    sector ∉ directoryFile.hdr.sectors →
      disk'.sectors sector = disk.sectors sector
  marks : ∀ sector < diskSize,
    mapFile.hdr.marks disk' sector = bm.bit sector
  directory : directoryFile.hdr.directory disk' = directory

section Write

variable {disk : Disk} {mapFile directoryFile : OpenFile} {bm : Bitmap}
variable {directory : Directory} {buffer : Block}

/-- The directory first, as `Create` does it. -/
theorem write_directory_map
    (hmap : mapFile.hdr.HoldsMap) (htable : directoryFile.hdr.HoldsTable)
    (hapart : ∀ sector ∈ mapFile.hdr.sectors,
      sector ∉ directoryFile.hdr.sectors)
    (hidle : disk.active = false) (hbits : bm.numBits = diskSize)
    (hlength : directory.table.length = numDirEntries) :
    ∃ disk₁ disk₂, directory.writeBack directoryFile disk buffer = .ok disk₁ ∧
      PersistentBitmap.writeBack bm mapFile disk₁ buffer = .ok disk₂ ∧
      Written disk mapFile directoryFile bm directory disk₂ := by
  obtain ⟨disk₁, hwrite₁, hidle₁, hothers₁, hdirectory⟩ :=
    @Directory.writeBack_spec directory directoryFile disk buffer htable hidle
      hlength
  obtain ⟨disk₂, hwrite₂, hidle₂, hothers₂, hmarks⟩ :=
    @PersistentBitmap.writeBack_spec bm mapFile disk₁ buffer hmap hidle₁ hbits
  refine ⟨disk₁, disk₂, hwrite₁, hwrite₂, ?_⟩
  constructor
  case idle => exact hidle₂
  case others =>
    intro sector hnotMap hnotDirectory
    rw [hothers₂ sector hnotMap, hothers₁ sector hnotDirectory]
  case marks => exact hmarks
  case directory =>
    rw [← hdirectory]
    apply directory_congr htable
    intro sector hsector
    exact hothers₂ sector fun hin => hapart sector hin hsector

/-- The map first, as `Remove` and the constructor do it. -/
theorem write_map_directory
    (hmap : mapFile.hdr.HoldsMap) (htable : directoryFile.hdr.HoldsTable)
    (hapart : ∀ sector ∈ mapFile.hdr.sectors,
      sector ∉ directoryFile.hdr.sectors)
    (hidle : disk.active = false) (hbits : bm.numBits = diskSize)
    (hlength : directory.table.length = numDirEntries) :
    ∃ disk₁ disk₂, PersistentBitmap.writeBack bm mapFile disk buffer =
        .ok disk₁ ∧
      directory.writeBack directoryFile disk₁ buffer = .ok disk₂ ∧
      Written disk mapFile directoryFile bm directory disk₂ := by
  obtain ⟨disk₁, hwrite₁, hidle₁, hothers₁, hmarks⟩ :=
    @PersistentBitmap.writeBack_spec bm mapFile disk buffer hmap hidle hbits
  obtain ⟨disk₂, hwrite₂, hidle₂, hothers₂, hdirectory⟩ :=
    @Directory.writeBack_spec directory directoryFile disk₁ buffer htable
      hidle₁ hlength
  refine ⟨disk₁, disk₂, hwrite₁, hwrite₂, ?_⟩
  constructor
  case idle => exact hidle₂
  case others =>
    intro sector hnotMap hnotDirectory
    rw [hothers₂ sector hnotDirectory, hothers₁ sector hnotMap]
  case marks =>
    intro sector hsector
    rw [← hmarks sector hsector]
    apply marks_congr hmap _ hsector
    intro other hother
    exact hothers₂ other (hapart other hother)
  case directory => exact hdirectory

end Write

section Kept

variable {fs : FileSystem} {disk disk' : Disk} {bm : Bitmap}
variable {directory : Directory}

/-- The files of the map and of the directory, as they are open. -/
theorem Sound.openFiles (hsound : Sound fs) :
    fs.freeMapFile.hdr.HoldsMap ∧ fs.directoryFile.hdr.HoldsTable ∧
      ∀ sector ∈ fs.freeMapFile.hdr.sectors,
        sector ∉ fs.directoryFile.hdr.sectors := by
  rw [hsound.mapFile, hsound.directoryFile]
  exact ⟨hsound.map, hsound.table, hsound.consistent.apart.2.2.2⟩

/-- The sectors in use are kept when the two files are written, unless they
had been written before. -/
theorem Written.kept
    (hwritten : Written disk fs.freeMapFile fs.directoryFile bm directory
      disk')
    (hsound : Sound fs)
    (hbefore : ∀ sector ∈ used fs.disk,
      disk.sectors sector = fs.disk.sectors sector) :
    Kept fs.disk disk' := by
  constructor
  case idle => exact hwritten.idle
  case kept =>
    intro sector hused hapart
    rw [hwritten.others sector (hsound.mapFile ▸ hapart.map)
      (hsound.directoryFile ▸ hapart.directory)]
    exact hbefore sector hused

theorem Written.directoryOf
    (hwritten : Written disk fs.freeMapFile fs.directoryFile bm directory
      disk')
    (hsound : Sound fs) (hkept : Kept fs.disk disk') :
    directoryOf disk' = directory := by
  rw [Filesys.directoryOf, hkept.directoryHeader hsound.consistent,
    ← hsound.directoryFile]
  exact hwritten.directory

theorem Written.marks_eq
    (hwritten : Written disk fs.freeMapFile fs.directoryFile bm directory
      disk')
    (hsound : Sound fs) (hkept : Kept fs.disk disk') {sector : ℕ}
    (hsector : sector < diskSize) :
    Filesys.marks disk' sector = bm.bit sector := by
  rw [Filesys.marks, hkept.mapHeader hsound.consistent, ← hsound.mapFile]
  exact hwritten.marks sector hsector

end Kept

/-! ## `Create` -/

section Create

variable {fs : FileSystem} {bm bm' : Bitmap} {hdr : FileHeader}
variable {directory : Directory} {e : DirectoryEntry} {sector fileSize : ℕ}

/-- `Create` writes the header, the directory and the map. -/
theorem Sound.writeCreated
    (hsound : Sound fs) (buffer : Block) (hmaps : Maps fs.disk bm)
    (hsector : sector < diskSize) (hclear : bm.bit sector = false)
    (htook : FileHeader.Took (bm.setBit sector) fileSize hdr bm')
    (hlength : directory.table.length = numDirEntries)
    (hfiles : directory.files.Perm (e :: (directoryOf fs.disk).files))
    (hvalue : e.sector.toInt = sector)
    (hname : e.fileName ∉ (directoryOf fs.disk).names) :
    ∃ disk₁ disk₂ disk₃, hdr.writeBack fs.disk sector = .ok disk₁ ∧
      directory.writeBack fs.directoryFile disk₁ buffer = .ok disk₂ ∧
      PersistentBitmap.writeBack bm' fs.freeMapFile disk₂ buffer = .ok disk₃ ∧
      Sound { fs with disk := disk₃ } := by
  have hlt : sector < bm.numBits := hmaps.numBits.symm ▸ hsector
  have hexists : IsSector sector :=
    FileHeader.isSector_of_inRange hmaps.numBits (Bitmap.inRange_natCast hlt)
  have hunused : (sector : ℤ) ∉ used fs.disk := by
    rw [← hmaps.holds hsound, Bitmap.holds_natCast hlt, hclear]
    simp
  have hbits : bm'.numBits = diskSize := htook.numBits.trans hmaps.numBits
  obtain ⟨hmap, htable, hapart⟩ := hsound.openFiles
  obtain ⟨disk₁, hwrite₁, hidle₁, hheader, hothers⟩ :=
    hdr.writeBack_spec hsound.idle hexists
  obtain ⟨disk₂, disk₃, hwrite₂, hwrite₃, hwritten⟩ :=
    @write_directory_map disk₁ fs.freeMapFile fs.directoryFile bm' directory
      buffer hmap htable hapart hidle₁ hbits hlength
  have hkept := hwritten.kept hsound fun other hused =>
    hothers other fun heq => hunused (heq ▸ hused)
  have hdirectory := hwritten.directoryOf hsound hkept
  -- the header of the new file
  have honDisk : FileHeader.onDisk disk₃ sector = hdr := by
    rw [← hheader]
    apply FileHeader.onDisk_congr
    apply hwritten.others
    · intro hin
      rw [hsound.mapFile] at hin
      exact hunused (mem_used.mpr (.inr (.inr (.inl hin))))
    · intro hin
      rw [hsound.directoryFile] at hin
      exact hunused (mem_used.mpr (.inr (.inr (.inr (.inl hin)))))
  have hnew : fileSectors disk₃ e = (sector : ℤ) :: hdr.sectors := by
    rw [fileSectors, hvalue, honDisk]
  have hfresh : ∀ other ∈ hdr.sectors,
      other ∉ used fs.disk ∧ other ≠ (sector : ℤ) := by
    intro other hother
    have hfree := htook.free other hother
    rw [Bitmap.holds_setBit hlt, hmaps.holds hsound] at hfree
    exact not_or.mp hfree
  refine ⟨disk₁, disk₂, disk₃, hwrite₁, hwrite₂, hwrite₃, ?_⟩
  apply hsound.created hkept (e := e)
  · rwa [hdirectory]
  · exact hname
  · rw [hvalue, honDisk]
    exact htook.valid
  · rw [hnew]
    apply List.nodup_cons.mpr
    exact ⟨fun hin => (hfresh _ hin).2 rfl, htook.nodup⟩
  · intro other hother
    rw [hnew] at hother
    obtain rfl | hin := List.mem_cons.mp hother
    · exact ⟨hexists, hunused⟩
    · exact ⟨htook.valid.exist other hin, (hfresh other hin).1⟩
  · intro other hother
    have hlt' : other < bm'.numBits := hbits.symm ▸ hother
    rw [hwritten.marks_eq hsound hkept hother, hnew,
      ← Bitmap.holds_natCast hlt', htook.taken, Bitmap.holds_setBit hlt,
      hmaps.holds hsound, ← hsound.consistent.marked other hother,
      List.mem_cons, or_assoc]

/-- `Create` succeeds exactly when there is no file of the name and there is
space, and it changes nothing when it does not. -/
theorem create_spec
    (hsound : Sound fs) {name : CString} (hname : IsName name)
    (hsize : fileSize ≤ maxFileSize) (heap : Heap) :
    ∃ result fs', fs.create name fileSize heap = .ok (result, fs') ∧
      (result = true ↔ name ∉ (directoryOf fs.disk).names ∧
        (∃ e ∈ (directoryOf fs.disk).table, e.inUse = false) ∧
        1 + fileSize ⌈/⌉ sectorSize ≤ freeSectors fs.disk) ∧
      (result = false → fs' = fs) ∧ Sound fs' := by
  rw [FileSystem.create, hsound.directory, ok_bind]
  by_cases hpresent : name ∈ (directoryOf fs.disk).names
  · obtain ⟨e, directory, -, hfind, -, -, hperm⟩ :=
      Directory.remove_spec hname hpresent
    have hsector := hsound.sector (hperm.mem_iff.mpr List.mem_cons_self)
    have hne : (directoryOf fs.disk).find name ≠ -1 := by
      have hnonneg := hsector.1
      omega
    rw [if_pos hne]
    exact ⟨false, fs, rfl, by simp [hpresent], fun _ => rfl, hsound⟩
  · have heq := Directory.find_absent hname hpresent
    obtain ⟨bm, hread, hmaps⟩ := hsound.freeMap heap.buffer
    have hspace := hmaps.freeSectors
    rw [if_neg (not_not.mpr heq), hread, ok_bind]
    obtain ⟨hfind, hall⟩ | ⟨sector, hlt, hclear, -, hfind⟩ :=
      bm.findAndSet_cases
    · have hfull : bm.marked = Finset.range diskSize := by
        ext sector
        simp only [Bitmap.mem_marked, hmaps.numBits, Finset.mem_range,
          and_iff_left_iff_imp]
        exact fun hlt => hall sector (hmaps.numBits.symm ▸ hlt)
      rw [hfull, Finset.card_range, Nat.sub_self] at hspace
      rw [hfind, ok_bind]
      exact ⟨false, fs, rfl, by simp [hspace], fun _ => rfl, hsound⟩
    · have hne : (sector : ℤ) ≠ -1 := by omega
      have hcard : (bm.setBit sector).marked.card = bm.marked.card + 1 := by
        rw [Bitmap.marked_setBit hlt,
          Finset.card_insert_of_notMem (by simp [hclear])]
      have hle := (bm.setBit sector).card_marked_le
      rw [Bitmap.numBits_setBit, hmaps.numBits, hcard] at hle
      rw [hfind, ok_bind]
      simp only [hne, if_false]
      by_cases hentry : ∃ e ∈ (directoryOf fs.disk).table, e.inUse = false
      · obtain ⟨e, directory, hadd, hlength, hperm⟩ :=
          Directory.add_spec hname hpresent sector hentry
        have hallocate := @FileHeader.allocate_spec (bm.setBit sector)
          (heap.header 0) fileSize hmaps.numBits hsize
        rw [hcard] at hallocate
        simp only [hadd, not_true_eq_false, if_false]
        split_ifs at hallocate with hroom
        · obtain ⟨hdr, bm', hallocated, htook⟩ := hallocate
          have hvalue : (e.fill name sector).sector.toInt = sector := by
            apply FileHeader.toInt_ofInt_sector
            have hdisk : diskSize = 1024 := rfl
            have hbits := hmaps.numBits
            omega
          have hfree : (e.fill name sector).fileName ∉
              (directoryOf fs.disk).names := by
            rwa [DirectoryEntry.fileName_fill e hname]
          obtain ⟨disk₁, disk₂, disk₃, hwrite₁, hwrite₂, hwrite₃, hafter⟩ :=
            hsound.writeCreated heap.buffer hmaps (hmaps.numBits ▸ hlt) hclear
              htook (hlength.trans (Directory.length_directory _ _)) hperm
              hvalue hfree
          refine ⟨true, { fs with disk := disk₃ }, ?_, ?_, by simp, hafter⟩
          · simp only [hallocated, ok_bind, not_true_eq_false, if_false,
              hwrite₁, hwrite₂, hwrite₃]
            rfl
          · have hspace' : 1 + fileSize ⌈/⌉ sectorSize ≤
                freeSectors fs.disk := by
              omega
            exact ⟨fun _ => ⟨hpresent, hentry, hspace'⟩, fun _ => rfl⟩
        · obtain ⟨hdr, hallocated⟩ := hallocate
          refine ⟨false, fs, ?_, ?_, fun _ => rfl, hsound⟩
          · rw [hallocated]
            rfl
          · have hspace' : ¬1 + fileSize ⌈/⌉ sectorSize ≤
                freeSectors fs.disk := by
              omega
            simp [hspace']
      · have hfull : ∀ e ∈ (directoryOf fs.disk).table, e.inUse = true := by
          intro e he
          by_contra hunused
          exact hentry ⟨e, he, Bool.eq_false_iff.mpr hunused⟩
        rw [Directory.add_full hname hpresent sector hfull]
        exact ⟨false, fs, rfl, by simp [hentry], fun _ => rfl, hsound⟩

end Create

/-! ## `Remove` -/

theorem Consistent.nodup_fileSectors
    {disk : Disk} {e : DirectoryEntry} (hconsistent : Consistent disk)
    (he : e ∈ (directoryOf disk).files) : (fileSectors disk e).Nodup := by
  have hnodup := hconsistent.nodup
  unfold used at hnodup
  obtain ⟨-, hfiles, -⟩ := List.nodup_append'.mp hnodup
  exact (List.nodup_flatMap.mp hfiles).1 e he

section Remove

variable {fs : FileSystem}

/-- The sectors of a file are given back to the map. -/
theorem Sound.release
    (hsound : Sound fs) {bm : Bitmap} (hmaps : Maps fs.disk bm)
    {e : DirectoryEntry} (he : e ∈ (directoryOf fs.disk).files) :
    ∃ bm₁ bm₂,
      (FileHeader.onDisk fs.disk e.sector.toInt).deallocate bm = .ok bm₁ ∧
      bm₁.clear e.sector.toInt = .ok bm₂ ∧ bm₂.numBits = diskSize ∧
      ∀ sector, bm₂.Holds sector ↔
        bm.Holds sector ∧ sector ∉ fileSectors fs.disk e := by
  have hnodup := hsound.consistent.nodup_fileSectors he
  have hholds : ∀ sector ∈ (FileHeader.onDisk fs.disk
      e.sector.toInt).sectors, bm.Holds sector := by
    intro sector hsector
    apply (hmaps.holds hsound sector).mpr
    exact mem_used_of_fileSectors he (List.mem_cons_of_mem _ hsector)
  obtain ⟨bm₁, hdeallocate, hbits₁, hholds₁⟩ := FileHeader.deallocate_spec
    (hsound.files e he) (List.nodup_cons.mp hnodup).2 hholds
  have hbits : bm₁.numBits = diskSize := hbits₁.trans hmaps.numBits
  have hsector := hsound.sector he
  obtain ⟨n, hn⟩ := Int.eq_ofNat_of_zero_le hsector.1
  have hlt : n < bm₁.numBits := by
    have hbound : e.sector.toInt < diskSize := hsector.2
    rw [hn] at hbound
    rw [hbits]
    exact_mod_cast hbound
  refine ⟨bm₁, bm₁.clearBit n, hdeallocate, ?_, hbits, ?_⟩
  · rw [hn, Bitmap.clear_eq hlt]
  · intro sector
    rw [Bitmap.holds_clearBit hlt, hholds₁, fileSectors, List.mem_cons,
      not_or, hn, and_assoc]
    exact and_congr_right fun _ => and_comm

/-- `Remove` succeeds exactly when there is a file of the name, and it changes
nothing when it does not. -/
theorem remove_spec
    (hsound : Sound fs) {name : CString} (hname : IsName name) (heap : Heap) :
    ∃ result fs', fs.remove name heap = .ok (result, fs') ∧
      (result = true ↔ name ∈ (directoryOf fs.disk).names) ∧
      (result = false → fs' = fs) ∧ Sound fs' := by
  rw [FileSystem.remove, hsound.directory, ok_bind]
  by_cases hpresent : name ∈ (directoryOf fs.disk).names
  · obtain ⟨e, directory, -, hfind, hremove, hlength, hperm⟩ :=
      Directory.remove_spec hname hpresent
    have he := hperm.mem_iff.mpr List.mem_cons_self
    have hsector := hsound.sector he
    have hne : e.sector.toInt ≠ -1 := by
      have hnonneg := hsector.1
      omega
    obtain ⟨bm, hread, hmaps⟩ := hsound.freeMap heap.buffer
    obtain ⟨bm₁, bm₂, hdeallocate, hclear, hbits, hholds⟩ :=
      hsound.release hmaps he
    obtain ⟨hmap, htable, hapart⟩ := hsound.openFiles
    obtain ⟨disk₁, disk₂, hwrite₁, hwrite₂, hwritten⟩ :=
      @write_map_directory fs.disk fs.freeMapFile fs.directoryFile bm₂
        directory heap.buffer hmap htable hapart hsound.idle hbits
        (hlength.trans (Directory.length_directory _ _))
    have hkept := hwritten.kept hsound fun _ _ => rfl
    refine ⟨true, { fs with disk := disk₂ }, ?_, by simp [hpresent], by simp,
      ?_⟩
    · simp only [hfind, hne, if_false,
        FileHeader.fetchFrom_eq hsound.idle hsector, ok_bind, hread,
        hdeallocate, hclear, hremove, hwrite₁, hwrite₂]
      rfl
    · apply hsound.removed hkept (e := e)
      · rwa [hwritten.directoryOf hsound hkept]
      · intro sector hsector
        have hlt : sector < bm₂.numBits := hbits.symm ▸ hsector
        rw [hwritten.marks_eq hsound hkept hsector,
          ← Bitmap.holds_natCast hlt, hholds, hmaps.holds hsound,
          ← hsound.consistent.marked sector hsector]
  · have hfind := Directory.find_absent hname hpresent
    simp only [hfind, if_true]
    exact ⟨false, fs, rfl, by simp [hpresent], fun _ => rfl, hsound⟩

end Remove

/-! ## The formatted disk -/

section Format

/-- The map and the headers that the constructor makes. -/
structure Formatted (bm : Bitmap) (mapHdr dirHdr : FileHeader) : Prop where
  map : mapHdr.HoldsMap
  table : dirHdr.HoldsTable
  numBits : bm.numBits = diskSize
  holds : ∀ sector, bm.Holds sector ↔
    sector ∈ [freeMapSector, directorySector] ++ mapHdr.sectors ++
      dirHdr.sectors
  nodup : ([freeMapSector, directorySector] ++ mapHdr.sectors ++
    dirHdr.sectors).Nodup

/-- The assertions of the constructor hold. -/
theorem format_allocates (heap : Heap) :
    ∃ bm₀ bm₁ bm₂ bm₃ bm₄ mapHdr dirHdr, Bitmap.init diskSize = .ok bm₀ ∧
      bm₀.mark freeMapSector = .ok bm₁ ∧
      bm₁.mark directorySector = .ok bm₂ ∧
      (heap.header 0).allocate bm₂ freeMapFileSize =
        .ok (true, mapHdr, bm₃) ∧
      (heap.header 1).allocate bm₃ directoryFileSize =
        .ok (true, dirHdr, bm₄) ∧
      Formatted bm₄ mapHdr dirHdr := by
  have hpos : 0 < diskSize := by decide
  obtain ⟨bm₀, hinit, hbits₀, hclear⟩ := Bitmap.init_spec hpos
  have hempty : bm₀.marked = ∅ := by
    ext sector
    simp [hclear]
  have hlt₀ : 0 < bm₀.numBits := by rw [hbits₀]; decide
  have hlt₁ : 1 < (bm₀.setBit 0).numBits := by
    rw [Bitmap.numBits_setBit, hbits₀]
    decide
  have hbits₂ : ((bm₀.setBit 0).setBit 1).numBits = diskSize := hbits₀
  have hcard₂ : ((bm₀.setBit 0).setBit 1).marked.card = 2 := by
    rw [Bitmap.marked_setBit hlt₁, Bitmap.marked_setBit hlt₀, hempty]
    rfl
  have hmapSize : freeMapFileSize ≤ maxFileSize := by decide
  have hdirectorySize : directoryFileSize ≤ maxFileSize := by decide
  have hmapSectors : freeMapFileSize ⌈/⌉ sectorSize = 1 := by
    rw [Nat.ceilDiv_eq_add_pred_div]
    rfl
  have hdirectorySectors : directoryFileSize ⌈/⌉ sectorSize = 2 := by
    rw [Nat.ceilDiv_eq_add_pred_div]
    rfl
  have hallocate₀ := (heap.header 0).allocate_spec hbits₂ hmapSize
  rw [hmapSectors, hcard₂, if_pos (by decide)] at hallocate₀
  obtain ⟨mapHdr, bm₃, hallocated₀, htook₀⟩ := hallocate₀
  have hbits₃ : bm₃.numBits = diskSize := htook₀.numBits.trans hbits₂
  have hallocate₁ := (heap.header 1).allocate_spec hbits₃ hdirectorySize
  rw [hdirectorySectors, htook₀.card, hcard₂, hmapSectors,
    if_pos (by decide)] at hallocate₁
  obtain ⟨dirHdr, bm₄, hallocated₁, htook₁⟩ := hallocate₁
  have hnone : ∀ sector, ¬bm₀.Holds sector := by
    rintro sector ⟨-, hbit⟩
    rw [hclear] at hbit
    cases hbit
  have hfixed : ∀ sector, ((bm₀.setBit 0).setBit 1).Holds sector ↔
      sector ∈ [freeMapSector, directorySector] := by
    intro sector
    rw [Bitmap.holds_setBit hlt₁, Bitmap.holds_setBit hlt₀]
    simp [hnone, freeMapSector, directorySector]
  refine ⟨bm₀, bm₀.setBit 0, (bm₀.setBit 0).setBit 1, bm₃, bm₄, mapHdr,
    dirHdr, hinit, Bitmap.mark_eq hlt₀, Bitmap.mark_eq hlt₁, hallocated₀,
    hallocated₁, ?_⟩
  constructor
  case map => exact ⟨htook₀.valid, htook₀.nodup, htook₀.fileLength⟩
  case table => exact ⟨htook₁.valid, htook₁.nodup, htook₁.fileLength⟩
  case numBits => exact htook₁.numBits.trans hbits₃
  case holds =>
    intro sector
    rw [htook₁.taken, htook₀.taken, hfixed, List.mem_append, List.mem_append]
  case nodup =>
    apply List.Nodup.append _ htook₁.nodup
    · intro sector hbefore hin
      apply htook₁.free sector hin
      rw [htook₀.taken, hfixed]
      exact List.mem_append.mp hbefore
    · apply List.Nodup.append (by decide) htook₀.nodup
      intro sector hbefore hin
      exact htook₀.free sector hin ((hfixed sector).mpr hbefore)

/-- Formatting succeeds on every disk. -/
theorem format_spec
    {disk : Disk} (hidle : disk.active = false) (heap : Heap) :
    ∃ fs, FileSystem.format disk heap = .ok fs ∧ Sound fs := by
  obtain ⟨bm₀, bm₁, bm₂, bm₃, bm₄, mapHdr, dirHdr, hinit, hmark₁, hmark₂,
    hallocated₀, hallocated₁, hformatted⟩ := format_allocates heap
  obtain ⟨hheaders, -, hdirectory⟩ := List.nodup_append'.mp hformatted.nodup
  obtain ⟨-, -, hfixed⟩ := List.nodup_append'.mp hheaders
  have hexist : IsSector freeMapSector ∧ IsSector directorySector := by
    constructor <;> decide
  -- the two headers
  obtain ⟨disk₁, hwrite₀, hidle₁, hheader₀, -⟩ :=
    mapHdr.writeBack_spec hidle hexist.1
  obtain ⟨disk₂, hwrite₁, hidle₂, hheader₁, hothers⟩ :=
    dirHdr.writeBack_spec hidle₁ hexist.2
  have hstill : FileHeader.onDisk disk₂ freeMapSector = mapHdr :=
    (FileHeader.onDisk_congr (hothers _ (by decide))).trans hheader₀
  have hopen₀ : OpenFile.new disk₂ freeMapSector = .ok ⟨mapHdr⟩ := by
    rw [OpenFile.new, FileHeader.fetchFrom_eq hidle₂ hexist.1, hstill]
    rfl
  have hopen₁ : OpenFile.new disk₂ directorySector = .ok ⟨dirHdr⟩ := by
    rw [OpenFile.new, FileHeader.fetchFrom_eq hidle₂ hexist.2, hheader₁]
    rfl
  -- the two files
  have hlength : (Directory.new heap.table numDirEntries).table.length =
      numDirEntries := by
    simp [Directory.new]
  obtain ⟨disk₃, disk₄, hwrite₃, hwrite₄, hwritten⟩ :=
    @write_map_directory disk₂ ⟨mapHdr⟩ ⟨dirHdr⟩ bm₄ _ heap.buffer
      hformatted.map hformatted.table
      (fun sector hin => hdirectory (List.mem_append_right _ hin)) hidle₂
      hformatted.numBits hlength
  have hmapHeader : mapHeader disk₄ = mapHdr := by
    rw [← hstill]
    exact FileHeader.onDisk_congr (hwritten.others freeMapSector
      (hfixed (by simp)) (hdirectory (by simp)))
  have hdirectoryHeader : directoryHeader disk₄ = dirHdr := by
    rw [← hheader₁]
    exact FileHeader.onDisk_congr (hwritten.others directorySector
      (hfixed (by simp)) (hdirectory (by simp)))
  have hdirectoryOf : directoryOf disk₄ =
      Directory.new heap.table numDirEntries := by
    rw [directoryOf, hdirectoryHeader]
    exact hwritten.directory
  have hfiles : (directoryOf disk₄).files = [] := by
    rw [hdirectoryOf]
    simp [Directory.files, Directory.new, DirectoryEntry.release]
  have hused : used disk₄ = [freeMapSector, directorySector] ++
      mapHdr.sectors ++ dirHdr.sectors := by
    rw [used, hmapHeader, hdirectoryHeader, hfiles, List.flatMap_nil,
      List.append_nil]
  refine ⟨⟨disk₄, ⟨mapHdr⟩, ⟨dirHdr⟩⟩, ?_, ?_⟩
  · simp only [FileSystem.format, hinit, hmark₁, hmark₂, hallocated₀,
      hallocated₁, hwrite₀, hwrite₁, hopen₀, hopen₁, hwrite₃, hwrite₄,
      ok_bind, assert_of_true]
    rfl
  · constructor
    case consistent =>
      constructor
      case exist =>
        intro sector hsector
        rw [hused, ← hformatted.holds] at hsector
        exact FileHeader.isSector_of_inRange hformatted.numBits hsector.1
      case marked =>
        intro sector hsector
        have hlt : sector < bm₄.numBits := hformatted.numBits.symm ▸ hsector
        have hbit : marks disk₄ sector = bm₄.bit sector := by
          rw [marks, hmapHeader]
          exact hwritten.marks sector hsector
        rw [hbit, hused, ← hformatted.holds, Bitmap.holds_natCast hlt]
      case nodup => rw [hused]; exact hformatted.nodup
      case names => rw [Directory.names, hfiles]; exact List.nodup_nil
    case idle => exact hwritten.idle
    case mapFile => exact hmapHeader.symm
    case directoryFile => exact hdirectoryHeader.symm
    case map => rw [hmapHeader]; exact hformatted.map
    case table => rw [hdirectoryHeader]; exact hformatted.table
    case files => rw [hfiles]; simp

end Format

/-! ## Runs -/

/-- When an operation returns `TRUE`. -/
def Succeeds (disk : Disk) : Action → Prop
  | .create name initialSize _ => name ∉ (directoryOf disk).names ∧
      (∃ e ∈ (directoryOf disk).table, e.inUse = false) ∧
      1 + initialSize.toNat ⌈/⌉ sectorSize ≤ freeSectors disk
  | .remove name _ => name ∈ (directoryOf disk).names

/-- The operations of a run have proper arguments. -/
def properOnly (_ : List Event) (_ : FileSystem) (action : Action) : Prop :=
  Proper action

section Runs

variable {start fs : FileSystem} {trace : List Event} {action : Action}

/-- A proper operation returns. -/
theorem call_spec (hsound : Sound fs) (hproper : Proper action) :
    ∃ result fs', call fs action = .ok (result, fs') ∧
      (result = true ↔ Succeeds fs.disk action) ∧
      (result = false → fs' = fs) ∧ Sound fs' := by
  cases action with
  | create name initialSize heap =>
      obtain ⟨hname, hnonneg, hsize⟩ := hproper
      obtain ⟨fileSize, rfl⟩ := Int.eq_ofNat_of_zero_le hnonneg
      exact create_spec hsound hname (by exact_mod_cast hsize) heap
  | remove name heap => exact remove_spec hsound hproper heap

theorem sound_of_run
    (hstart : Sound start) (hrun : (system start).Run properOnly trace fs) :
    Sound fs := by
  apply hrun.invariant fun _ fs => Sound fs
  · exact hstart
  · intro trace s s' action event _ hsound hproper hstep
    obtain ⟨result, fs', hcall, -, -, hafter⟩ := call_spec hsound hproper
    have hmove : (system start).step s action =
        .ok (fs', ⟨action, result⟩) := by
      change (call s action >>= fun _ => _) = _
      rw [hcall]
      rfl
    cases hmove.symm.trans hstep
    exact hafter

/-- The constructor that does not format finds the file system as it is. -/
theorem Sound.reopen (hsound : Sound fs) :
    FileSystem.reopen fs.disk = .ok fs := by
  obtain ⟨disk, ⟨mapHdr⟩, ⟨dirHdr⟩⟩ := fs
  have hmap : IsSector freeMapSector := by decide
  have hdirectory : IsSector directorySector := by decide
  have hmapFile : mapHdr = FileHeader.onDisk disk freeMapSector :=
    hsound.mapFile
  have hdirectoryFile : dirHdr = FileHeader.onDisk disk directorySector :=
    hsound.directoryFile
  rw [FileSystem.reopen, OpenFile.new, OpenFile.new,
    FileHeader.fetchFrom_eq hsound.idle hmap,
    FileHeader.fetchFrom_eq hsound.idle hdirectory, hmapFile, hdirectoryFile]
  rfl

/-- On a disk that has been formatted, whatever it held before, every run of
`Create` and `Remove` keeps the structures consistent, no assertion fails, and
the operations succeed exactly when they should and else change nothing. -/
theorem disk_consistent (sectors : ℤ → Sector) (heap : Heap) :
    ∃ start, FileSystem.format (Disk.new sectors) heap = .ok start ∧
      ∀ trace fs, (system start).Run properOnly trace fs →
        Consistent fs.disk ∧
        ∀ action, Proper action →
          ∃ result fs', call fs action = .ok (result, fs') ∧
            (result = true ↔ Succeeds fs.disk action) ∧
            (result = false → fs'.disk = fs.disk) := by
  obtain ⟨start, hformat, hstart⟩ :=
    @format_spec (Disk.new sectors) rfl heap
  refine ⟨start, hformat, ?_⟩
  intro trace fs hrun
  have hsound := sound_of_run hstart hrun
  refine ⟨hsound.consistent, ?_⟩
  intro action hproper
  obtain ⟨result, fs', hcall, hsucceeds, hunchanged, -⟩ :=
    call_spec hsound hproper
  exact ⟨result, fs', hcall, hsucceeds,
    fun hfailed => congrArg FileSystem.disk (hunchanged hfailed)⟩

end Runs

end Nachos.Filesys
