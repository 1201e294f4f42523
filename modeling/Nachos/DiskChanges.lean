import Nachos.DiskContents

/-!
# How the files on the disk change

`Create` adds a file and `Remove` takes one away, and the sectors of all other
files are kept.  A write to the sectors of a file changes the bytes of that
file and nothing else.
-/

namespace Nachos.Filesys

open Library
open Scheduling (Disk Sector sectorSize)

/-! ## `Create` -/

section Create

variable {hdr hdr' : FileHeader} {bm bm' : Bitmap} {fs fs' : FileSystem}
variable {directory : Directory} {e : DirectoryEntry} {name : CString}
variable {sector fileSize : ℕ} {heap : Heap}

/-- A header that has been filled is that of a file of the size. -/
theorem FileHeader.allocate_isFile
    (hbits : bm.numBits = diskSize) (hsize : fileSize ≤ maxFileSize)
    (hallocate : hdr.allocate bm fileSize = .ok (true, hdr', bm')) :
    hdr'.IsFile ∧ hdr'.fileLength = fileSize ∧
      bm'.numBits = bm.numBits := by
  have hsize' : (fileSize : ℤ) ≤ maxFileSize := by exact_mod_cast hsize
  have hmax : maxFileSize = 3840 := rfl
  have hdirect := divRoundUpInt_le_numDirect_iff.mpr hsize'
  by_cases hfew : ((bm.numBits - bm.marked.card : ℕ) : ℤ) <
      divRoundUpInt fileSize sectorSize
  · rw [allocate_few hdr hfew] at hallocate
    cases hallocate
  · have hbits' : bm.numBits ≤ 2 ^ 31 := by
      rw [hbits]
      decide
    obtain ⟨hdr'', bm'', hallocate'', hallocated⟩ :=
      allocate_room hdr hbits' hfew hdirect
    cases hallocate.symm.trans hallocate''
    have hfilled := hallocated.filledFrom (by omega) (by omega) hsize'
    have hlength : hdr'.fileLength = fileSize := by
      rw [fileLength, hallocated.numBytes]
      exact toInt_numBytes_sized (by omega) (by omega)
    refine ⟨?_, hlength, hallocated.numBits⟩
    constructor
    case numSectors =>
      rw [hallocated.numSectors, hlength]
      exact toInt_numSectors_sized (by omega) (by omega)
    case direct => exact hfilled.count
    case exist =>
      intro sector hsector
      exact isSector_of_inRange hbits (hfilled.free sector hsector).1
    case nodup => exact hfilled.nodup

/-- What `Create` has written, when the sectors were free. -/
theorem Sound.writeCreated_kept
    (hsound : Sound fs) (buffer : Block) (hmaps : Maps fs.disk bm)
    (hsector : sector < diskSize) (hclear : bm.bit sector = false)
    (hbits : bm'.numBits = diskSize)
    (hlength : directory.table.length = numDirEntries) :
    ∃ disk₁ disk₂ disk₃, hdr.writeBack fs.disk sector = .ok disk₁ ∧
      directory.writeBack fs.directoryFile disk₁ buffer = .ok disk₂ ∧
      PersistentBitmap.writeBack bm' fs.freeMapFile disk₂ buffer = .ok disk₃ ∧
      Kept fs.disk disk₃ ∧ directoryOf disk₃ = directory ∧
      FileHeader.onDisk disk₃ sector = hdr := by
  have hlt : sector < bm.numBits := hmaps.numBits.symm ▸ hsector
  have hexists : IsSector sector :=
    FileHeader.isSector_of_inRange hmaps.numBits (Bitmap.inRange_natCast hlt)
  have hunused : (sector : ℤ) ∉ used fs.disk := by
    rw [← hmaps.holds hsound, Bitmap.holds_natCast hlt, hclear]
    simp
  obtain ⟨hmap, htable, hapart⟩ := hsound.openFiles
  obtain ⟨disk₁, hwrite₁, hidle₁, hheader, hothers⟩ :=
    hdr.writeBack_spec hsound.idle hexists
  obtain ⟨disk₂, disk₃, hwrite₂, hwrite₃, hwritten⟩ :=
    @write_directory_map disk₁ fs.freeMapFile fs.directoryFile bm' directory
      buffer hmap htable hapart hidle₁ hbits hlength
  have hkept := hwritten.kept hsound fun other hused =>
    hothers other fun heq => hunused (heq ▸ hused)
  refine ⟨disk₁, disk₂, disk₃, hwrite₁, hwrite₂, hwrite₃, hkept,
    hwritten.directoryOf hsound hkept, ?_⟩
  rw [← hheader]
  apply FileHeader.onDisk_congr
  apply hwritten.others
  · intro hin
    rw [hsound.mapFile] at hin
    exact hunused (mem_used.mpr (.inr (.inr (.inl hin))))
  · intro hin
    rw [hsound.directoryFile] at hin
    exact hunused (mem_used.mpr (.inr (.inr (.inr (.inl hin)))))

/-- A file of the size has been added. -/
structure Added (disk disk' : Disk) (name : CString) (fileSize : ℕ)
    (e : DirectoryEntry) : Prop where
  kept : Kept disk disk'
  files : (directoryOf disk').files.Perm (e :: (directoryOf disk).files)
  fileName : e.fileName = name
  isFile : (FileHeader.onDisk disk' e.sector.toInt).IsFile
  fileLength : (FileHeader.onDisk disk' e.sector.toInt).fileLength = fileSize

theorem create_added
    (hsound : Sound fs) (hname : IsName name)
    (hsize : fileSize ≤ maxFileSize)
    (hcreate : fs.create name fileSize heap = .ok (true, fs')) :
    ∃ e, Added fs.disk fs'.disk name fileSize e := by
  obtain ⟨result, fs'', hcreate', hresult, -, -⟩ :=
    create_spec hsound hname hsize heap
  cases hcreate.symm.trans hcreate'
  obtain ⟨habsent, hentry, -⟩ := hresult.mp rfl
  obtain ⟨bm, hread, hmaps⟩ := hsound.freeMap heap.buffer
  have hnot := Directory.find_absent hname habsent
  rw [FileSystem.create, hsound.directory, ok_bind, if_neg (not_not.mpr hnot),
    hread, ok_bind] at hcreate
  obtain ⟨hfind, -⟩ | ⟨sector, hlt, hclear, -, hfind⟩ := bm.findAndSet_cases
  · rw [hfind, ok_bind] at hcreate
    cases hcreate
  · have hne : (sector : ℤ) ≠ -1 := by omega
    obtain ⟨e, directory, hadd, hlength, hperm⟩ :=
      Directory.add_spec hname habsent sector hentry
    have hbits : (bm.setBit sector).numBits = diskSize := hmaps.numBits
    have hallocate := (heap.header 0).allocate_spec hbits hsize
    simp only [hfind, ok_bind, hne, if_false, hadd,
      not_true_eq_false] at hcreate
    split_ifs at hallocate with hroom
    · obtain ⟨hdr, bm', hallocated, htook⟩ := hallocate
      obtain ⟨hfile, hsized, -⟩ :=
        FileHeader.allocate_isFile hbits hsize hallocated
      obtain ⟨disk₁, disk₂, disk₃, hwrite₁, hwrite₂, hwrite₃, hkept,
        hdirectory, hheader⟩ :=
          @Sound.writeCreated_kept hdr bm bm' fs directory sector hsound
            heap.buffer hmaps (hmaps.numBits ▸ hlt) hclear
            (htook.numBits.trans hbits)
            (hlength.trans (Directory.length_directory _ _))
      simp only [hallocated, ok_bind, not_true_eq_false, if_false, hwrite₁,
        hwrite₂, hwrite₃] at hcreate
      cases hcreate
      have hvalue : (e.fill name sector).sector.toInt = sector := by
        apply FileHeader.toInt_ofInt_sector
        have hdisk : diskSize = 1024 := rfl
        have hsame := hmaps.numBits
        omega
      refine ⟨e.fill name sector, ?_⟩
      constructor
      case kept => exact hkept
      case files => rwa [hdirectory]
      case fileName => exact DirectoryEntry.fileName_fill e hname sector
      case isFile => rwa [hvalue, hheader]
      case fileLength => rwa [hvalue, hheader]
    · obtain ⟨hdr, hallocated⟩ := hallocate
      rw [hallocated] at hcreate
      cases hcreate

end Create

/-! ## `Remove` -/

section Remove

variable {fs fs' : FileSystem} {name : CString} {heap : Heap}

/-- The file of an entry has been taken away. -/
structure Dropped (disk disk' : Disk) (name : CString) (e : DirectoryEntry) :
    Prop where
  kept : Kept disk disk'
  files : (directoryOf disk).files.Perm (e :: (directoryOf disk').files)
  fileName : e.fileName = name

theorem remove_dropped
    (hsound : Sound fs) (hname : IsName name)
    (hremove : fs.remove name heap = .ok (true, fs')) :
    ∃ e, Dropped fs.disk fs'.disk name e := by
  obtain ⟨result, fs'', hremove', hresult, -, -⟩ :=
    remove_spec hsound hname heap
  cases hremove.symm.trans hremove'
  obtain ⟨e, directory, hsame, hfind, hdirectory, hlength, hperm⟩ :=
    Directory.remove_spec hname (hresult.mp rfl)
  have he := hperm.mem_iff.mpr List.mem_cons_self
  have hsector := hsound.sector he
  have hne : e.sector.toInt ≠ -1 := by
    have hnonneg := hsector.1
    omega
  obtain ⟨bm, hread, hmaps⟩ := hsound.freeMap heap.buffer
  obtain ⟨bm₁, bm₂, hdeallocate, hclear, hbits, -⟩ := hsound.release hmaps he
  obtain ⟨hmap, htable, hapart⟩ := hsound.openFiles
  obtain ⟨disk₁, disk₂, hwrite₁, hwrite₂, hwritten⟩ :=
    @write_map_directory fs.disk fs.freeMapFile fs.directoryFile bm₂
      directory heap.buffer hmap htable hapart hsound.idle hbits
      (hlength.trans (Directory.length_directory _ _))
  have hkept := hwritten.kept hsound fun _ _ => rfl
  simp only [FileSystem.remove, hsound.directory, hfind, hne, if_false,
    FileHeader.fetchFrom_eq hsound.idle hsector, ok_bind, hread, hdeallocate,
    hclear, hdirectory, hwrite₁, hwrite₂] at hremove
  cases hremove
  refine ⟨e, hkept, ?_, hsame⟩
  rwa [hwritten.directoryOf hsound hkept]

end Remove

/-! ## The files, before and after -/

/-- A file of the name has the header. -/
def HasHeader (disk : Disk) (name : CString) (hdr : FileHeader) : Prop :=
  ∃ e ∈ (directoryOf disk).files,
    e.fileName = name ∧ FileHeader.onDisk disk e.sector.toInt = hdr

section Files

variable {fs fs' : FileSystem} {disk' : Disk} {e : DirectoryEntry}
variable {name other : CString} {hdr : FileHeader} {fileSize : ℕ}

theorem Kept.fileBytes
    (hkept : Kept fs.disk disk') (hsound : Sound fs)
    (he : e ∈ (directoryOf fs.disk).files) :
    fileBytes disk' e = Filesys.fileBytes fs.disk e := by
  apply fileBytes_congr (hsound.files e he)
  intro sector hsector
  exact hkept.kept sector (mem_used_of_fileSectors he hsector)
    (hsound.consistent.apart.2.2.1 e he sector hsector)

/-- Names that are not twice in a directory are known by the entry. -/
theorem eq_of_fileName
    {directory : Directory} {e' : DirectoryEntry}
    (hnames : directory.names.Nodup) (he : e ∈ directory.files)
    (he' : e' ∈ directory.files) (hsame : e.fileName = e'.fileName) :
    e = e' :=
  List.inj_on_of_nodup_map hnames he he' hsame

theorem Added.mem
    {disk : Disk} (hadded : Added disk disk' name fileSize e)
    {e' : DirectoryEntry} :
    e' ∈ (directoryOf disk').files ↔
      e' = e ∨ e' ∈ (directoryOf disk).files := by
  rw [hadded.files.mem_iff, List.mem_cons]

theorem Added.filesOn
    (hsound : Sound fs) (hnames : (directoryOf disk').names.Nodup)
    (hadded : Added fs.disk disk' name fileSize e) :
    filesOn disk' =
      (Filesys.filesOn fs.disk).insert name (fileBytes disk' e) := by
  have hperm := hadded.files.map DirectoryEntry.fileName
  rw [List.map_cons, hadded.fileName] at hperm
  have habsent := (List.nodup_cons.mp (hperm.nodup_iff.mp hnames)).1
  apply filesOn_eq hnames
  intro other bytes
  by_cases heq : other = name
  · subst heq
    rw [Finmap.lookup_insert]
    constructor
    · intro hsome
      cases hsome
      exact ⟨e, hadded.mem.mpr (.inl rfl), hadded.fileName, rfl⟩
    · rintro ⟨e', he', hname', rfl⟩
      obtain rfl | hold := hadded.mem.mp he'
      · rfl
      · exact absurd (List.mem_map.mpr ⟨e', hold, hname'⟩) habsent
  · rw [Finmap.lookup_insert_of_ne _ heq,
      lookup_filesOn hsound.consistent.names]
    constructor
    · rintro ⟨e', he', hname', rfl⟩
      exact ⟨e', hadded.mem.mpr (.inr he'), hname',
        hadded.kept.fileBytes hsound he'⟩
    · rintro ⟨e', he', rfl, rfl⟩
      obtain rfl | hold := hadded.mem.mp he'
      · exact (heq hadded.fileName).elim
      · exact ⟨e', hold, rfl, (hadded.kept.fileBytes hsound hold).symm⟩

theorem Added.hasHeader
    (hsound : Sound fs) (hadded : Added fs.disk disk' name fileSize e)
    (hheader : HasHeader fs.disk other hdr) : HasHeader disk' other hdr := by
  obtain ⟨e', he', hname', rfl⟩ := hheader
  exact ⟨e', hadded.mem.mpr (.inr he'), hname',
    hadded.kept.header hsound.consistent he'⟩

theorem Dropped.mem
    {disk : Disk} (hdropped : Dropped disk disk' name e)
    (hnames : (directoryOf disk).names.Nodup) {e' : DirectoryEntry} :
    e' ∈ (directoryOf disk').files ↔
      e' ∈ (directoryOf disk).files ∧ e'.fileName ≠ name := by
  have hperm := hdropped.files.map DirectoryEntry.fileName
  rw [List.map_cons, hdropped.fileName] at hperm
  have habsent := (List.nodup_cons.mp (hperm.nodup_iff.mp hnames)).1
  rw [hdropped.files.mem_iff, List.mem_cons]
  constructor
  · intro he'
    exact ⟨.inr he', fun heq =>
      habsent (List.mem_map.mpr ⟨e', he', heq⟩)⟩
  · rintro ⟨rfl | he', hne⟩
    · exact (hne hdropped.fileName).elim
    · exact he'

theorem Dropped.filesOn
    (hsound : Sound fs) (hnames : (directoryOf disk').names.Nodup)
    (hdropped : Dropped fs.disk disk' name e) :
    filesOn disk' = (Filesys.filesOn fs.disk).erase name := by
  have hmem := fun e' =>
    @Dropped.mem disk' e name fs.disk hdropped hsound.consistent.names e'
  apply filesOn_eq hnames
  intro other bytes
  by_cases heq : other = name
  · subst heq
    rw [Finmap.lookup_erase]
    constructor
    · intro hnone
      cases hnone
    · rintro ⟨e', he', hname', -⟩
      exact (((hmem e').mp he').2 hname').elim
  · rw [Finmap.lookup_erase_ne heq, lookup_filesOn hsound.consistent.names]
    constructor
    · rintro ⟨e', he', rfl, rfl⟩
      exact ⟨e', (hmem e').mpr ⟨he', heq⟩, rfl,
        hdropped.kept.fileBytes hsound he'⟩
    · rintro ⟨e', he', hname', rfl⟩
      have hold := ((hmem e').mp he').1
      exact ⟨e', hold, hname', (hdropped.kept.fileBytes hsound hold).symm⟩

theorem Dropped.hasHeader
    (hsound : Sound fs) (hdropped : Dropped fs.disk disk' name e)
    (hne : other ≠ name) (hheader : HasHeader fs.disk other hdr) :
    HasHeader disk' other hdr := by
  obtain ⟨e', he', rfl, rfl⟩ := hheader
  exact ⟨e', (hdropped.mem hsound.consistent.names).mpr ⟨he', hne⟩, rfl,
    hdropped.kept.header hsound.consistent he'⟩

end Files

/-! ## Writing to a file -/

section Write

variable {disk disk' : Disk} {e e' : DirectoryEntry} {sector : ℤ}

theorem Consistent.not_fixed
    (hconsistent : Consistent disk) (he : e ∈ (directoryOf disk).files)
    (hsector : sector ∈ fileSectors disk e) :
    sector ≠ freeMapSector ∧ sector ≠ directorySector := by
  have hnodup := hconsistent.nodup
  unfold used at hnodup
  obtain ⟨-, -, hfiles⟩ := List.nodup_append'.mp hnodup
  have hmem : sector ∈ (directoryOf disk).files.flatMap (fileSectors disk) :=
    List.mem_flatMap.mpr ⟨e, he, hsector⟩
  constructor
  · rintro rfl
    exact hfiles (by simp) hmem
  · rintro rfl
    exact hfiles (by simp) hmem

theorem Consistent.not_mem_fileSectors
    (hconsistent : Consistent disk) (he : e ∈ (directoryOf disk).files)
    (he' : e' ∈ (directoryOf disk).files) (hne : e ≠ e')
    (hsector : sector ∈ fileSectors disk e) :
    sector ∉ fileSectors disk e' := by
  have hnodup := hconsistent.nodup
  unfold used at hnodup
  obtain ⟨-, hfiles, -⟩ := List.nodup_append'.mp hnodup
  have hsymm : Std.Symm
      (Function.onFun List.Disjoint (fileSectors disk)) :=
    ⟨fun _ _ hdisjoint => hdisjoint.symm⟩
  exact (List.nodup_flatMap.mp hfiles).2.forall he he' hne hsector

/-- The data sectors of one file are all that is written. -/
structure WrittenTo (disk disk' : Disk) (hdr : FileHeader) : Prop where
  idle : disk'.active = false
  others : ∀ sector, sector ∉ hdr.sectors →
    disk'.sectors sector = disk.sectors sector

variable {hdr : FileHeader} {name other : CString}

/-- The sectors that no write to a file changes. -/
theorem WrittenTo.apart
    (hwritten : WrittenTo disk disk' (FileHeader.onDisk disk e.sector.toInt))
    (hconsistent : Consistent disk) (he : e ∈ (directoryOf disk).files) :
    (∀ sector ∈ [freeMapSector, directorySector] ++
        (mapHeader disk).sectors ++ (directoryHeader disk).sectors,
      disk'.sectors sector = disk.sectors sector) ∧
    (∀ e' ∈ (directoryOf disk).files,
      disk'.sectors e'.sector.toInt = disk.sectors e'.sector.toInt) ∧
    ∀ e' ∈ (directoryOf disk).files, e' ≠ e →
      ∀ sector ∈ fileSectors disk e',
        disk'.sectors sector = disk.sectors sector := by
  have hfile : ∀ sector ∈ (FileHeader.onDisk disk e.sector.toInt).sectors,
      sector ∈ fileSectors disk e := fun _ => List.mem_cons_of_mem _
  have hother : ∀ e' ∈ (directoryOf disk).files, e' ≠ e →
      ∀ sector ∈ fileSectors disk e',
        disk'.sectors sector = disk.sectors sector := by
    intro e' he' hne sector hsector
    exact hwritten.others sector fun hin =>
      hconsistent.not_mem_fileSectors he he' hne.symm (hfile sector hin)
        hsector
  refine ⟨?_, ?_, hother⟩
  · intro sector hsector
    apply hwritten.others
    intro hin
    have hfixed := hconsistent.not_fixed he (hfile sector hin)
    have hapart := hconsistent.apart.2.2.1 e he sector (hfile sector hin)
    simp only [List.mem_append, List.mem_cons, List.not_mem_nil, or_false]
      at hsector
    obtain (rfl | rfl) | hmap | hdirectory := or_assoc.mp hsector
    · exact hfixed.1 rfl
    · exact hfixed.2 rfl
    · exact hapart.map hmap
    · exact hapart.directory hdirectory
  · intro e' he'
    by_cases heq : e' = e
    · subst heq
      apply hwritten.others
      exact (List.nodup_cons.mp (hconsistent.nodup_fileSectors he)).1
    · exact hother e' he' heq _ List.mem_cons_self

/-- What is known of the disk after a write to a file. -/
structure Rewritten (disk disk' : Disk) (e : DirectoryEntry) : Prop where
  mapHeader : mapHeader disk' = mapHeader disk
  directoryHeader : directoryHeader disk' = directoryHeader disk
  directory : directoryOf disk' = directoryOf disk
  marks : ∀ sector < diskSize, marks disk' sector = marks disk sector
  headers : ∀ e' ∈ (directoryOf disk).files,
    FileHeader.onDisk disk' e'.sector.toInt =
      FileHeader.onDisk disk e'.sector.toInt
  bytes : ∀ e' ∈ (directoryOf disk).files, e' ≠ e →
    fileBytes disk' e' = fileBytes disk e'

variable {fs : FileSystem}

theorem WrittenTo.rewritten
    (hwritten : WrittenTo fs.disk disk'
      (FileHeader.onDisk fs.disk e.sector.toInt))
    (hsound : Sound fs) (he : e ∈ (directoryOf fs.disk).files) :
    Rewritten fs.disk disk' e := by
  obtain ⟨hsystem, hheaders, hothers⟩ :=
    hwritten.apart hsound.consistent he
  simp only [List.mem_append, List.mem_cons, List.not_mem_nil, or_false]
    at hsystem
  have hmap : mapHeader disk' = mapHeader fs.disk :=
    FileHeader.onDisk_congr (hsystem _ (.inl (.inl (.inl rfl))))
  have hdirectory : directoryHeader disk' = directoryHeader fs.disk :=
    FileHeader.onDisk_congr (hsystem _ (.inl (.inl (.inr rfl))))
  constructor
  case mapHeader => exact hmap
  case directoryHeader => exact hdirectory
  case directory =>
    rw [directoryOf, hdirectory]
    exact directory_congr hsound.table fun sector hsector =>
      hsystem sector (.inr hsector)
  case marks =>
    intro sector hsector
    rw [marks, hmap]
    exact marks_congr hsound.map
      (fun sector hsector => hsystem sector (.inl (.inr hsector))) hsector
  case headers =>
    exact fun e' he' => FileHeader.onDisk_congr (hheaders e' he')
  case bytes =>
    exact fun e' he' hne =>
      fileBytes_congr (hsound.files e' he') (hothers e' he' hne)

theorem Rewritten.used (hrewritten : Rewritten disk disk' e) :
    used disk' = used disk := by
  have hfiles : (directoryOf disk).files.flatMap (fileSectors disk') =
      (directoryOf disk).files.flatMap (fileSectors disk) := by
    rw [List.flatMap_def, List.flatMap_def]
    congr 1
    apply List.map_congr_left
    intro e' he'
    rw [fileSectors, fileSectors, hrewritten.headers e' he']
  rw [Filesys.used, Filesys.used, hrewritten.mapHeader,
    hrewritten.directoryHeader, hrewritten.directory, hfiles]

/-- A write to a file keeps the structures of the disk. -/
theorem Rewritten.intact
    (hrewritten : Rewritten fs.disk disk' e) (hidle : disk'.active = false)
    (hintact : Intact fs) : Intact { fs with disk := disk' } := by
  have hsound := hintact.sound
  constructor
  case sound =>
    constructor
    case consistent =>
      constructor
      case exist =>
        rw [hrewritten.used]
        exact hsound.consistent.exist
      case marked =>
        intro sector hsector
        rw [hrewritten.used, hrewritten.marks sector hsector]
        exact hsound.consistent.marked sector hsector
      case nodup =>
        rw [hrewritten.used]
        exact hsound.consistent.nodup
      case names =>
        rw [hrewritten.directory]
        exact hsound.consistent.names
    case idle => exact hidle
    case mapFile => exact hsound.mapFile.trans hrewritten.mapHeader.symm
    case directoryFile =>
      exact hsound.directoryFile.trans hrewritten.directoryHeader.symm
    case map => exact hrewritten.mapHeader ▸ hsound.map
    case table => exact hrewritten.directoryHeader ▸ hsound.table
    case files =>
      intro e' he'
      rw [hrewritten.directory] at he'
      rw [hrewritten.headers e' he']
      exact hsound.files e' he'
  case map => exact hrewritten.mapHeader ▸ hintact.map
  case directory => exact hrewritten.directoryHeader ▸ hintact.directory
  case files =>
    intro e' he'
    rw [hrewritten.directory] at he'
    rw [hrewritten.headers e' he']
    exact hintact.files e' he'

theorem Rewritten.hasHeader
    (hrewritten : Rewritten disk disk' e)
    (hheader : HasHeader disk other hdr) : HasHeader disk' other hdr := by
  obtain ⟨e', he', rfl, rfl⟩ := hheader
  refine ⟨e', ?_, rfl, hrewritten.headers e' he'⟩
  rwa [hrewritten.directory]

/-- The bytes of one file are all that changes. -/
theorem Rewritten.filesOn
    (hrewritten : Rewritten fs.disk disk' e) (hsound : Sound fs)
    (he : e ∈ (directoryOf fs.disk).files) :
    filesOn disk' =
      (Filesys.filesOn fs.disk).insert e.fileName (fileBytes disk' e) := by
  have hnames := hsound.consistent.names
  have hnames' : (directoryOf disk').names.Nodup :=
    hrewritten.directory.symm ▸ hnames
  apply filesOn_eq hnames'
  intro other bytes
  rw [hrewritten.directory]
  by_cases heq : other = e.fileName
  · subst heq
    rw [Finmap.lookup_insert]
    constructor
    · intro hsome
      cases hsome
      exact ⟨e, he, rfl, rfl⟩
    · rintro ⟨e', he', hname', rfl⟩
      rw [eq_of_fileName hnames he' he hname']
  · rw [Finmap.lookup_insert_of_ne _ heq, lookup_filesOn hnames]
    have hsame : ∀ e' ∈ (directoryOf fs.disk).files, e'.fileName = other →
        fileBytes disk' e' = fileBytes fs.disk e' := by
      rintro e' he' rfl
      exact hrewritten.bytes e' he' fun hin => heq (hin ▸ rfl)
    constructor
    · rintro ⟨e', he', hname', rfl⟩
      exact ⟨e', he', hname', hsame e' he' hname'⟩
    · rintro ⟨e', he', hname', rfl⟩
      exact ⟨e', he', hname', (hsame e' he' hname').symm⟩

end Write

/-! ## The steps from one disk to the next -/

section Steps

variable {fs : FileSystem} {name other : CString} {hdr : FileHeader}
variable {fileSize : ℕ}

theorem Kept.intact
    {fs' : FileSystem} (hkept : Kept fs.disk fs'.disk) (hintact : Intact fs)
    (hsound : Sound fs')
    (hfiles : ∀ e ∈ (directoryOf fs'.disk).files,
      (FileHeader.onDisk fs'.disk e.sector.toInt).IsSized) :
    Intact fs' where
  sound := hsound
  map := hkept.mapHeader hintact.sound.consistent ▸ hintact.map
  directory :=
    hkept.directoryHeader hintact.sound.consistent ▸ hintact.directory
  files := hfiles

/-- `Create` on a disk that is intact. -/
theorem Intact.create
    (hintact : Intact fs) (hname : IsName name)
    (hsize : fileSize ≤ maxFileSize) (heap : Heap) :
    (¬FileStore.CanCreate (filesOn fs.disk) name fileSize ∧
      fs.create name fileSize heap = .ok (false, fs)) ∨
    FileStore.CanCreate (filesOn fs.disk) name fileSize ∧
      ∃ fs' bytes, fs.create name fileSize heap = .ok (true, fs') ∧
        bytes.length = fileSize ∧ Intact fs' ∧
        filesOn fs'.disk = (filesOn fs.disk).insert name bytes ∧
        ∀ other hdr, HasHeader fs.disk other hdr →
          HasHeader fs'.disk other hdr := by
  obtain ⟨result, fs', hcreate, hresult, hunchanged, hsound⟩ :=
    create_spec hintact.sound hname hsize heap
  rw [← hintact.canCreate_iff] at hresult
  cases result with
  | false =>
      rw [hunchanged rfl] at hcreate
      exact .inl ⟨fun hcan => Bool.noConfusion (hresult.mpr hcan), hcreate⟩
  | true =>
      obtain ⟨e, hadded⟩ := create_added hintact.sound hname hsize hcreate
      have hlength := hadded.fileLength
      refine .inr ⟨hresult.mp rfl, fs', fileBytes fs'.disk e, hcreate, ?_, ?_,
        hadded.filesOn hintact.sound hsound.consistent.names,
        fun _ _ => hadded.hasHeader hintact.sound⟩
      · rw [fileBytes, FileHeader.length_contents, hlength,
          Int.toNat_natCast]
      · apply hadded.kept.intact hintact hsound
        intro e' he'
        obtain rfl | hold := hadded.mem.mp he'
        · exact ⟨hadded.isFile, by rw [hlength]; omega⟩
        · rw [hadded.kept.header hintact.sound.consistent hold]
          exact hintact.files e' hold

/-- `Remove` on a disk that is intact. -/
theorem Intact.remove
    (hintact : Intact fs) (hname : IsName name) (heap : Heap) :
    ∃ fs', fs.remove name heap =
        .ok (decide (name ∈ filesOn fs.disk), fs') ∧ Intact fs' ∧
      filesOn fs'.disk = (filesOn fs.disk).erase name ∧
      ∀ other hdr, other ≠ name → HasHeader fs.disk other hdr →
        HasHeader fs'.disk other hdr := by
  obtain ⟨result, fs', hremove, hresult, hunchanged, hsound⟩ :=
    remove_spec hintact.sound hname heap
  rw [← mem_filesOn hintact.names] at hresult
  cases result with
  | false =>
      have habsent : name ∉ filesOn fs.disk := fun hin =>
        Bool.noConfusion (hresult.mpr hin)
      obtain rfl := hunchanged rfl
      refine ⟨fs', by simpa [habsent] using hremove, hintact, ?_,
        fun _ _ _ => id⟩
      apply Finmap.ext_lookup
      intro other
      by_cases heq : other = name
      · rw [heq, Finmap.lookup_erase, Finmap.lookup_eq_none.mpr habsent]
      · rw [Finmap.lookup_erase_ne heq]
  | true =>
      have hpresent := hresult.mp rfl
      obtain ⟨e, hdropped⟩ := remove_dropped hintact.sound hname hremove
      refine ⟨fs', by simpa [hpresent] using hremove, ?_,
        hdropped.filesOn hintact.sound hsound.consistent.names,
        fun _ _ hne => hdropped.hasHeader hintact.sound hne⟩
      apply hdropped.kept.intact hintact hsound
      intro e' he'
      have hold := ((hdropped.mem hintact.names).mp he').1
      rw [hdropped.kept.header hintact.sound.consistent hold]
      exact hintact.files e' hold

/-- The disk that has been formatted has no files. -/
theorem format_intact
    {disk : Disk} (hidle : disk.active = false) (heap : Heap) :
    ∃ fs, FileSystem.format disk heap = .ok fs ∧ Intact fs ∧
      filesOn fs.disk = ∅ := by
  obtain ⟨fs, hformat, hsound⟩ := format_spec hidle heap
  obtain ⟨bm₀, bm₁, bm₂, bm₃, bm₄, mapHdr, dirHdr, hinit, hmark₁, hmark₂,
    hallocated₀, hallocated₁, hformatted⟩ := format_allocates heap
  obtain ⟨hheaders, -, hdirectory⟩ := List.nodup_append'.mp hformatted.nodup
  obtain ⟨-, -, hfixed⟩ := List.nodup_append'.mp hheaders
  have hexist : IsSector freeMapSector ∧ IsSector directorySector := by
    constructor <;> decide
  -- the bits of the maps
  have hbits₂ : bm₂.numBits = diskSize := by
    have hpos : 0 < diskSize := by decide
    obtain ⟨bm, hinit', hbits, -⟩ := Bitmap.init_spec hpos
    cases hinit.symm.trans hinit'
    have hlt₀ : 0 < bm₀.numBits := by rw [hbits]; decide
    have hlt₁ : 1 < (bm₀.setBit 0).numBits := by
      rw [Bitmap.numBits_setBit, hbits]
      decide
    cases hmark₁.symm.trans (Bitmap.mark_eq hlt₀)
    cases hmark₂.symm.trans (Bitmap.mark_eq hlt₁)
    exact hbits
  have hmapSize : freeMapFileSize ≤ maxFileSize := by decide
  have hdirectorySize : directoryFileSize ≤ maxFileSize := by decide
  obtain ⟨hmapFile, -, hbits₃⟩ :=
    FileHeader.allocate_isFile hbits₂ hmapSize hallocated₀
  obtain ⟨hdirectoryFile, -⟩ :=
    FileHeader.allocate_isFile (hbits₃.trans hbits₂) hdirectorySize
      hallocated₁
  -- the files that have been written
  obtain ⟨disk₁, hwrite₀, hidle₁, hheader₀, -⟩ :=
    mapHdr.writeBack_spec hidle hexist.1
  obtain ⟨disk₂, hwrite₁, hidle₂, hheader₁, hothers⟩ :=
    dirHdr.writeBack_spec hidle₁ hexist.2
  have hstill : FileHeader.onDisk disk₂ freeMapSector = mapHdr :=
    (FileHeader.onDisk_congr (hothers _ (by decide))).trans hheader₀
  have hopen₀ : OpenFile.new disk₂ freeMapSector = .ok ⟨mapHdr⟩ := by
    rw [OpenFile.new, FileHeader.fetchFrom_eq hidle₂ hexist.1, hstill]
    rfl
  have hopen₁ : OpenFile.new disk₂ directorySector = .ok ⟨dirHdr⟩ := by
    rw [OpenFile.new, FileHeader.fetchFrom_eq hidle₂ hexist.2, hheader₁]
    rfl
  have hlength : (Directory.new heap.table numDirEntries).table.length =
      numDirEntries := by
    simp [Directory.new]
  obtain ⟨disk₃, disk₄, hwrite₃, hwrite₄, hwritten⟩ :=
    @write_map_directory disk₂ ⟨mapHdr⟩ ⟨dirHdr⟩ bm₄ _ heap.buffer
      hformatted.map hformatted.table
      (fun sector hin => hdirectory (List.mem_append_right _ hin)) hidle₂
      hformatted.numBits hlength
  have hformat' := hformat
  simp only [FileSystem.format, hinit, hmark₁, hmark₂, hallocated₀,
    hallocated₁, hwrite₀, hwrite₁, hopen₀, hopen₁, hwrite₃, hwrite₄, ok_bind,
    assert_of_true] at hformat'
  cases hformat'
  have hmapHeader : mapHdr = mapHeader disk₄ := hsound.mapFile
  have hdirectoryHeader : dirHdr = directoryHeader disk₄ :=
    hsound.directoryFile
  have hfiles : (directoryOf disk₄).files = [] := by
    have hnew := hwritten.directory
    rw [hdirectoryHeader] at hnew
    rw [directoryOf, hnew]
    simp [Directory.files, Directory.new, DirectoryEntry.release]
  refine ⟨_, hformat, ?_, ?_⟩
  · constructor
    case sound => exact hsound
    case map => exact hmapHeader ▸ hmapFile
    case directory => exact hdirectoryHeader ▸ hdirectoryFile
    case files => rw [hfiles]; simp
  · rw [filesOn, hfiles]
    rfl

end Steps

end Nachos.Filesys
