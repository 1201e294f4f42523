import Nachos.DiskChanges
import Nachos.FileSessions
import Nachos.Library.Refinement

/-!
# The file system on the disk is a store of files

Every session on a formatted disk is a run of the store: each call returns
what the store would return, whatever sectors the files are in and however
the calls on different files alternate.
-/

namespace Nachos.Filesys

open Library
open Scheduling (Disk sectorSize)

/-! ## Transfers as transfers of lists -/

section Transfers

variable {f : OpenFile} {disk : Disk} {position : ℕ} {numBytes : ℤ}

theorem getElem?_contents {hdr : FileHeader} {a : ℕ}
    (ha : a < hdr.fileLength.toNat) :
    (hdr.contents disk)[a]? = some (hdr.content disk a) := by
  simp [FileHeader.contents, ha]

theorem length_readable (bytes : List (BitVec 8)) :
    (FileStore.readable bytes numBytes position).length =
      min numBytes.toNat (bytes.length - position) := by
  simp [FileStore.readable]

theorem length_fitting (bytes new : List (BitVec 8)) :
    (FileStore.fitting bytes new position).length =
      min (bytes.length - position) new.length := by
  simp [FileStore.fitting]

@[simp] theorem length_firstBytes (b : Block) (count : ℤ) :
    (firstBytes b count).length = count.toNat := by
  simp [firstBytes]

/-- What `ReadAt` and `WriteAt` return, by the length of the file. -/
theorem transferred_eq (f : OpenFile) (numBytes : ℤ) (position : ℕ) :
    f.transferred numBytes position =
      min numBytes.toNat (f.hdr.fileLength.toNat - position) := by
  unfold OpenFile.transferred
  split_ifs <;> omega

theorem readAt_readable
    (hfile : f.hdr.IsFile) (hidle : disk.active = false)
    (fresh into : Block) :
    ∃ result into', f.readAt disk fresh into 0 numBytes position =
        .ok (result, into') ∧
      result = (FileStore.readable (f.hdr.contents disk) numBytes
        position).length ∧
      firstBytes into' result =
        FileStore.readable (f.hdr.contents disk) numBytes position := by
  have hlength := @length_readable position numBytes (f.hdr.contents disk)
  rw [FileHeader.length_contents, ← transferred_eq] at hlength
  refine ⟨_, _, OpenFile.readAt_eq hfile hidle fresh into 0 numBytes position,
    by rw [hlength], ?_⟩
  apply List.ext_getElem?
  intro i
  by_cases hi : i < f.transferred numBytes position
  · have hin := transferred_eq f numBytes position
    rw [firstBytes, List.getElem?_map, Int.toNat_natCast,
      List.getElem?_range hi, Option.map_some, Block.copy_apply,
      if_pos (by omega), FileStore.readable, List.getElem?_take,
      if_pos (by omega), List.getElem?_drop, getElem?_contents (by omega)]
    simp
  · rw [List.getElem?_eq_none (by rw [length_firstBytes]; omega),
      List.getElem?_eq_none (by omega)]

theorem writeAt_fitting
    (hfile : f.hdr.IsFile) (hidle : disk.active = false)
    (fresh source : Block) :
    ∃ disk', f.writeAt disk fresh source numBytes position =
        .ok ((FileStore.fitting (f.hdr.contents disk)
          (firstBytes source numBytes) position).length, disk') ∧
      WrittenTo disk disk' f.hdr ∧
      f.hdr.contents disk' = splice (f.hdr.contents disk) position
        (FileStore.fitting (f.hdr.contents disk)
          (firstBytes source numBytes) position) := by
  generalize hnew : FileStore.fitting (f.hdr.contents disk)
    (firstBytes source numBytes) position = new
  have hlength : new.length = f.transferred numBytes position := by
    rw [← hnew, length_fitting, FileHeader.length_contents,
      length_firstBytes, transferred_eq, Nat.min_comm]
  have hcount := transferred_eq f numBytes position
  obtain ⟨disk', hwrite, hidle', hothers, hcontent⟩ :=
    OpenFile.writeAt_eq hfile hidle fresh source numBytes position
  refine ⟨disk', by rw [hwrite, hlength], ⟨hidle', hothers⟩, ?_⟩
  by_cases hnothing : new = []
  · have hzero : f.transferred numBytes position = 0 := by
      rw [← hlength, hnothing, List.length_nil]
    rw [hnothing, splice_nil]
    apply List.map_congr_left
    intro a ha
    have hlt := List.mem_range.mp ha
    rw [hcontent a (by omega), hzero, OpenFile.copy_zero]
  · have hpos : 0 < new.length := List.length_pos_iff.mpr hnothing
    have hfits : position + new.length ≤ (f.hdr.contents disk).length := by
      rw [FileHeader.length_contents]
      omega
    apply List.ext_getElem?
    intro a
    by_cases ha : a < f.hdr.fileLength.toNat
    · rw [getElem?_contents ha, hcontent a (by omega), Block.copy_apply]
      split_ifs with hin
      · obtain ⟨i, rfl⟩ := Nat.exists_eq_add_of_le hin.1
        have hi : i < new.length := by omega
        rw [getElem?_splice_inside (by omega) hi, ← hnew,
          FileStore.fitting, List.getElem?_take, if_pos
            (by rw [FileHeader.length_contents]; omega),
          firstBytes, List.getElem?_map, List.getElem?_range (by omega)]
        simp
      · rw [getElem?_splice_outside hfits (by omega),
          getElem?_contents ha]
    · rw [List.getElem?_eq_none (by rw [FileHeader.length_contents]; omega),
        List.getElem?_eq_none (by
          rw [length_splice hfits, FileHeader.length_contents]
          omega)]

end Transfers

/-! ## The store that a session stands for -/

def handleOf (f : CString × OpenedFile) : Handle :=
  ⟨f.1, f.2.seekPosition⟩

def Session.store (s : Session) : FileStore where
  files := filesOn s.fs.disk
  handles := s.opened.map (Option.map handleOf)

/-- The disk is intact, and the headers in memory are those of the files of
the names. -/
structure Faithful (s : Session) : Prop where
  intact : Intact s.fs
  headers : ∀ name f, some (name, f) ∈ s.opened →
    HasHeader s.fs.disk name f.file.hdr

section Open

variable {s : Session} {handle position : ℕ} {name : CString}
variable {f : OpenedFile} {numBytes : ℤ}

/-- A file that is open, and the entry that it has. -/
theorem Faithful.file
    (hfaithful : Faithful s)
    (hopen : s.opened[handle]? = some (some (name, f))) :
    ∃ e ∈ (directoryOf s.fs.disk).files, e.fileName = name ∧
      FileHeader.onDisk s.fs.disk e.sector.toInt = f.file.hdr ∧
      s.file handle = .ok (name, f) ∧
      s.store.file handle = .ok (⟨name, f.seekPosition⟩,
        f.file.hdr.contents s.fs.disk) := by
  obtain ⟨e, he, rfl, hheader⟩ :=
    hfaithful.headers name f (List.mem_of_getElem? hopen)
  have hlookup := lookup_filesOn_of_mem hfaithful.intact.names he
  rw [fileBytes, hheader] at hlookup
  refine ⟨e, he, rfl, hheader, by rw [Session.file, hopen], ?_⟩
  simp only [FileStore.file, Session.store, List.getElem?_map, hopen,
    Option.map_some, handleOf, hlookup]

theorem Faithful.isSized
    (hfaithful : Faithful s)
    (hopen : s.opened[handle]? = some (some (name, f))) :
    f.file.hdr.IsSized := by
  obtain ⟨e, he, -, hheader, -⟩ := hfaithful.file hopen
  exact hheader ▸ hfaithful.intact.files e he

/-- A file is closed, or its position is changed. -/
theorem Faithful.setFile
    (hfaithful : Faithful s)
    (hopen : s.opened[handle]? = some (some (name, f)))
    {f' : Option (CString × OpenedFile)}
    (hsame : ∀ g ∈ f', g.1 = name ∧ g.2.file = f.file) :
    Faithful (s.setFile handle f') ∧
      (s.setFile handle f').store =
        s.store.setHandle handle (f'.map handleOf) := by
  constructor
  · constructor
    case intact => exact hfaithful.intact
    case headers =>
      intro other g hg
      obtain hold | hnew := List.mem_or_eq_of_mem_set hg
      · exact hfaithful.headers other g hold
      · obtain ⟨hname, hfile⟩ := hsame (other, g) hnew.symm
        obtain rfl : other = name := hname
        rw [hfile]
        exact hfaithful.headers other f (List.mem_of_getElem? hopen)
  · simp only [Session.store, Session.setFile, FileStore.setHandle,
      List.map_set]

/-- The data sectors of a file that is open are written. -/
theorem Faithful.setDisk
    (hfaithful : Faithful s)
    (hopen : s.opened[handle]? = some (some (name, f)))
    {disk' : Disk} {new : List (BitVec 8)}
    (hwritten : WrittenTo s.fs.disk disk' f.file.hdr)
    (hcontents : f.file.hdr.contents disk' =
      splice (f.file.hdr.contents s.fs.disk) position
        (FileStore.fitting (f.file.hdr.contents s.fs.disk) new position)) :
    Faithful (s.setDisk disk') ∧
      (s.setDisk disk').store = s.store.putAt name
        (f.file.hdr.contents s.fs.disk) new position := by
  obtain ⟨e, he, rfl, hheader, -⟩ := hfaithful.file hopen
  rw [← hheader] at hwritten
  have hsound := hfaithful.intact.sound
  have hrewritten := hwritten.rewritten hsound he
  have hbytes : fileBytes disk' e = f.file.hdr.contents disk' := by
    rw [fileBytes, hrewritten.headers e he, hheader]
  constructor
  · constructor
    case intact => exact hrewritten.intact hwritten.idle hfaithful.intact
    case headers =>
      exact fun other g hg =>
        hrewritten.hasHeader (hfaithful.headers other g hg)
  · simp only [Session.store, Session.setDisk, FileStore.putAt,
      hrewritten.filesOn hsound he, hbytes, hcontents]

end Open

/-! ## Steps -/

/-- `Open` finds the header of the file, if there is one of the name. -/
theorem open_spec
    {fs : FileSystem} {name : CString} (hsound : Sound fs)
    (hname : IsName name) (heap : Heap) :
    (∃ e ∈ (directoryOf fs.disk).files, e.fileName = name ∧
      fs.open name heap =
        .ok (some ⟨⟨FileHeader.onDisk fs.disk e.sector.toInt⟩, 0⟩)) ∨
    name ∉ (directoryOf fs.disk).names ∧ fs.open name heap = .ok none := by
  rw [FileSystem.open, hsound.directory, ok_bind]
  by_cases hpresent : name ∈ (directoryOf fs.disk).names
  · obtain ⟨e, directory, hsame, hfind, -, -, hperm⟩ :=
      Directory.remove_spec hname hpresent
    have he := hperm.mem_iff.mpr List.mem_cons_self
    have hsector := hsound.sector he
    have hge : e.sector.toInt ≥ 0 := hsector.1
    refine .inl ⟨e, he, hsame, ?_⟩
    simp only [hfind, hge, if_true, OpenFile.new,
      FileHeader.fetchFrom_eq hsound.idle hsector, ok_bind]
    rfl
  · have hfind := Directory.find_absent hname hpresent
    have hlt : ¬(-1 : ℤ) ≥ 0 := by decide
    refine .inr ⟨hpresent, ?_⟩
    simp only [hfind, hlt, if_false]
    rfl

/-- The call returns, and it is a call on the store. -/
def Stores (s : Session) (call : SessionCall) : Prop :=
  ∃ s' event call', s.step call = .ok (s', event) ∧ Faithful s' ∧
    FileStore.step s.store call' = .ok (s'.store, event)

section Steps

variable {s : Session} {handle : ℕ} {name : CString}
variable {f : OpenedFile} {heap : Heap}

theorem Faithful.create
    (hfaithful : Faithful s) {initialSize : ℤ} (hname : IsName name)
    (hnonneg : 0 ≤ initialSize) (hsize : initialSize ≤ maxFileSize) :
    Stores s (.create name initialSize heap) := by
  obtain ⟨size, rfl⟩ := Int.eq_ofNat_of_zero_le hnonneg
  obtain ⟨hcannot, hcreate⟩ | ⟨hcan, fs', bytes, hcreate, rfl, hintact, hfiles,
    hheaders⟩ := hfaithful.intact.create hname (by exact_mod_cast hsize) heap
  · refine ⟨s, .created name size false,
      .create name (List.replicate size 0), ?_, hfaithful, ?_⟩
    · rw [Session.step, hcreate]
      rfl
    · rw [FileStore.step, List.length_replicate]
      exact if_neg hcannot
  · refine ⟨{ s with fs := fs' }, .created name bytes.length true,
      .create name bytes, ?_, ⟨hintact, ?_⟩, ?_⟩
    · rw [Session.step, hcreate]
      rfl
    · exact fun other g hg => hheaders other _ (hfaithful.headers other g hg)
    · have hstore : FileStore.CanCreate s.store.files name bytes.length :=
        hcan
      rw [FileStore.step, if_pos hstore]
      simp only [Session.store, hfiles]
      rfl

theorem Faithful.remove
    (hfaithful : Faithful s) (hname : IsName name)
    (hclosed : name ∉ s.openNames) : Stores s (.remove name heap) := by
  obtain ⟨fs', hremove, hintact, hfiles, hheaders⟩ :=
    hfaithful.intact.remove hname heap
  refine ⟨{ s with fs := fs' },
    .removed name (decide (name ∈ filesOn s.fs.disk)), .remove name, ?_,
    ⟨hintact, ?_⟩, ?_⟩
  · rw [Session.step, hremove]
    rfl
  · intro other g hg
    apply hheaders other _ _ (hfaithful.headers other g hg)
    rintro rfl
    exact hclosed (List.mem_filterMap.mpr ⟨_, hg, rfl⟩)
  · simp only [FileStore.step, Session.store, hfiles]
    rfl

theorem Faithful.open
    (hfaithful : Faithful s) (hname : IsName name) :
    Stores s (.open name heap) := by
  obtain ⟨e, he, rfl, hopen⟩ | ⟨habsent, hopen⟩ :=
    open_spec hfaithful.intact.sound hname heap
  · have hmem : e.fileName ∈ s.store.files :=
      Finmap.mem_iff.mpr ⟨_, lookup_filesOn_of_mem hfaithful.intact.names he⟩
    refine ⟨{ s with opened := s.opened ++ [some (e.fileName,
        ⟨⟨FileHeader.onDisk s.fs.disk e.sector.toInt⟩, 0⟩)] },
      .opened e.fileName (some s.opened.length), .open e.fileName, ?_,
      ⟨hfaithful.intact, ?_⟩, ?_⟩
    · rw [Session.step, hopen]
      rfl
    · intro other g hg
      obtain hold | hnew := List.mem_append.mp hg
      · exact hfaithful.headers other g hold
      · cases List.mem_singleton.mp hnew
        exact ⟨e, he, rfl, rfl⟩
    · rw [FileStore.step, if_pos hmem]
      simp [Session.store, handleOf]
      rfl
  · have hnot : name ∉ s.store.files :=
      (mem_filesOn hfaithful.intact.names).not.mpr habsent
    refine ⟨s, .opened name none, .open name, ?_, hfaithful, ?_⟩
    · rw [Session.step, hopen]
      rfl
    · rw [FileStore.step, if_neg hnot]
      rfl

theorem Faithful.handled
    (hfaithful : Faithful s)
    (hopen : s.opened[handle]? = some (some (name, f))) (position : ℕ) :
    Stores s (.close handle) ∧ Stores s (.seek handle position) ∧
      Stores s (.length handle) := by
  obtain ⟨-, -, -, -, hfile, hstore⟩ := hfaithful.file hopen
  refine ⟨?_, ?_, ?_⟩
  · obtain ⟨hafter, heq⟩ := @Faithful.setFile s handle name f hfaithful hopen
      none (fun _ hg => nomatch hg)
    refine ⟨_, .closed handle, .close handle, ?_, hafter, ?_⟩
    · rw [Session.step, hfile]
      rfl
    · rw [FileStore.step, hstore, heq]
      rfl
  · obtain ⟨hafter, heq⟩ := @Faithful.setFile s handle name f hfaithful hopen
      (some (name, f.seek position)) (fun g hg => by
        cases hg
        exact ⟨rfl, rfl⟩)
    refine ⟨_, .sought handle position, .seek handle position, ?_, hafter, ?_⟩
    · rw [Session.step, hfile]
      rfl
    · rw [FileStore.step, hstore, heq]
      rfl
  · refine ⟨s, .measured handle f.length, .length handle, ?_, hfaithful, ?_⟩
    · rw [Session.step, hfile]
      rfl
    · have hlength : ((f.file.hdr.contents s.fs.disk).length : ℤ) =
          f.length := by
        rw [FileHeader.length_contents]
        exact Int.toNat_of_nonneg (hfaithful.isSized hopen).nonneg
      rw [FileStore.step, hstore, ← hlength]
      rfl

/-- `Read` on a file that is open. -/
theorem Faithful.readFile
    (hfaithful : Faithful s) (fresh into : Block)
    (hopen : s.opened[handle]? = some (some (name, f))) (numBytes : ℤ) :
    ∃ into', f.read s.fs.disk fresh into numBytes =
        .ok ((FileStore.readable (f.file.hdr.contents s.fs.disk) numBytes
            f.seekPosition).length, into',
          f.seek (f.seekPosition + (FileStore.readable
            (f.file.hdr.contents s.fs.disk) numBytes
              f.seekPosition).length)) ∧
      firstBytes into' (FileStore.readable (f.file.hdr.contents s.fs.disk)
          numBytes f.seekPosition).length =
        FileStore.readable (f.file.hdr.contents s.fs.disk) numBytes
          f.seekPosition := by
  obtain ⟨_, into', hread, rfl, hbytes⟩ :=
    @readAt_readable f.file s.fs.disk f.seekPosition numBytes
      (hfaithful.isSized hopen).toIsFile hfaithful.intact.sound.idle fresh into
  refine ⟨into', ?_, hbytes⟩
  rw [OpenedFile.read, hread]
  rfl

/-- `Write` on a file that is open. -/
theorem Faithful.writeFile
    (hfaithful : Faithful s) (fresh source : Block)
    (hopen : s.opened[handle]? = some (some (name, f))) (numBytes : ℤ)
    {count : ℕ} (hcount : count = (FileStore.fitting
      (f.file.hdr.contents s.fs.disk) (firstBytes source numBytes)
        f.seekPosition).length) :
    ∃ disk', f.write s.fs.disk fresh source numBytes =
        .ok (count, disk', f.seek (f.seekPosition + count)) ∧
      Faithful ((s.setDisk disk').setFile handle
        (some (name, f.seek (f.seekPosition + count)))) ∧
      ((s.setDisk disk').setFile handle
          (some (name, f.seek (f.seekPosition + count)))).store =
        (s.store.putAt name (f.file.hdr.contents s.fs.disk)
          (firstBytes source numBytes) f.seekPosition).setHandle handle
            (some ⟨name, f.seekPosition + count⟩) := by
  subst hcount
  obtain ⟨disk', hwrite, hwritten, hcontents⟩ :=
    @writeAt_fitting f.file s.fs.disk f.seekPosition numBytes
      (hfaithful.isSized hopen).toIsFile hfaithful.intact.sound.idle fresh
      source
  obtain ⟨hfaithful', hput⟩ := hfaithful.setDisk hopen hwritten hcontents
  obtain ⟨hafter, heq⟩ := @Faithful.setFile (s.setDisk disk') handle name f
    hfaithful' hopen (some (name, f.seek (f.seekPosition +
      (FileStore.fitting (f.file.hdr.contents s.fs.disk)
        (firstBytes source numBytes) f.seekPosition).length))) (fun g hg => by
      cases hg
      exact ⟨rfl, rfl⟩)
  refine ⟨disk', ?_, hafter, ?_⟩
  · rw [OpenedFile.write, hwrite]
    rfl
  · rw [heq, hput]
    rfl

theorem Faithful.read
    (hfaithful : Faithful s) (fresh into : Block)
    (hopen : s.opened[handle]? = some (some (name, f))) (numBytes : ℤ)
    (position : ℕ) :
    Stores s (.read handle numBytes fresh into) ∧
      Stores s (.readAt handle numBytes position fresh into) := by
  obtain ⟨-, -, -, -, hfile, hstore⟩ := hfaithful.file hopen
  constructor
  · obtain ⟨into', hread, hbytes⟩ :=
      hfaithful.readFile fresh into hopen numBytes
    obtain ⟨hafter, heq⟩ := @Faithful.setFile s handle name f hfaithful hopen
      (some (name, f.seek (f.seekPosition + (FileStore.readable
        (f.file.hdr.contents s.fs.disk) numBytes f.seekPosition).length)))
      (fun g hg => by
        cases hg
        exact ⟨rfl, rfl⟩)
    refine ⟨_, .read handle name f.seekPosition numBytes
      (firstBytes into' (FileStore.readable (f.file.hdr.contents s.fs.disk)
        numBytes f.seekPosition).length), .read handle numBytes, ?_, hafter,
      ?_⟩
    · simp only [Session.step, hfile, ok_bind, hread]
      rfl
    · rw [FileStore.step, hstore, heq, hbytes]
      rfl
  · obtain ⟨result, into', hread, -, hbytes⟩ :=
      @readAt_readable f.file s.fs.disk position numBytes
        (hfaithful.isSized hopen).toIsFile hfaithful.intact.sound.idle fresh
        into
    refine ⟨s, .read handle name position numBytes (firstBytes into' result),
      .readAt handle numBytes position, ?_, hfaithful, ?_⟩
    · simp only [Session.step, hfile, ok_bind, hread]
      rfl
    · rw [FileStore.step, hstore, hbytes]
      rfl

theorem Faithful.write
    (hfaithful : Faithful s) (fresh source : Block)
    (hopen : s.opened[handle]? = some (some (name, f))) (numBytes : ℤ)
    (position : ℕ) :
    Stores s (.write handle source numBytes fresh) ∧
      Stores s (.writeAt handle source numBytes position fresh) := by
  obtain ⟨-, -, -, -, hfile, hstore⟩ := hfaithful.file hopen
  constructor
  · obtain ⟨disk', hwrite, hafter, heq⟩ :=
      hfaithful.writeFile fresh source hopen numBytes rfl
    refine ⟨_, .wrote handle name f.seekPosition (firstBytes source numBytes)
      (FileStore.fitting (f.file.hdr.contents s.fs.disk)
        (firstBytes source numBytes) f.seekPosition).length,
      .write handle (firstBytes source numBytes), ?_, hafter, ?_⟩
    · simp only [Session.step, hfile, ok_bind, hwrite]
      rfl
    · rw [FileStore.step, hstore, heq]
      rfl
  · obtain ⟨disk', hwrite, hwritten, hcontents⟩ :=
      @writeAt_fitting f.file s.fs.disk position numBytes
        (hfaithful.isSized hopen).toIsFile hfaithful.intact.sound.idle fresh
        source
    obtain ⟨hafter, hput⟩ := hfaithful.setDisk hopen hwritten hcontents
    refine ⟨_, .wrote handle name position (firstBytes source numBytes)
      (FileStore.fitting (f.file.hdr.contents s.fs.disk)
        (firstBytes source numBytes) position).length,
      .writeAt handle (firstBytes source numBytes) position, ?_, hafter, ?_⟩
    · simp only [Session.step, hfile, ok_bind, hwrite]
      rfl
    · rw [FileStore.step, hstore, hput]
      rfl

/-- Nothing of what is on the disk is lost when the machine is started
again. -/
theorem Faithful.restart (hfaithful : Faithful s) : Stores s .restart := by
  refine ⟨⟨s.fs, []⟩, .restarted, .restart, ?_, ⟨hfaithful.intact, ?_⟩, rfl⟩
  · rw [Session.step, hfaithful.intact.sound.reopen]
    rfl
  · intro name f hf
    cases hf

theorem Faithful.stores
    (hfaithful : Faithful s) {trace : List FileEvent} {call : SessionCall}
    (hallowed : s.Allowed trace call) : Stores s call :=
  match call, hallowed with
  | .create _ _ _, ⟨hname, hnonneg, hsize⟩ =>
      hfaithful.create hname hnonneg hsize
  | .remove _ _, ⟨hname, hclosed⟩ => hfaithful.remove hname hclosed
  | .open _ _, hname => hfaithful.open hname
  | .close _, ⟨_, _, hopen, _⟩ => (hfaithful.handled hopen 0).1
  | .seek _ position, ⟨⟨_, _, hopen, _⟩, _⟩ =>
      (hfaithful.handled hopen position).2.1
  | .length _, ⟨_, _, hopen, _⟩ => (hfaithful.handled hopen 0).2.2
  | .read _ numBytes fresh into, ⟨_, _, hopen, _⟩ =>
      (hfaithful.read fresh into hopen numBytes 0).1
  | .readAt _ numBytes position fresh into, ⟨⟨_, _, hopen, _⟩, _⟩ =>
      (hfaithful.read fresh into hopen numBytes position).2
  | .write _ source numBytes fresh, ⟨_, _, hopen, _⟩ =>
      (hfaithful.write fresh source hopen numBytes 0).1
  | .writeAt _ source numBytes position fresh, ⟨⟨_, _, hopen, _⟩, _⟩ =>
      (hfaithful.write fresh source hopen numBytes position).2
  | .restart, _ => hfaithful.restart

end Steps

/-! ## Runs -/

section Runs

variable {start : FileSystem} {s : Session} {trace : List FileEvent}

theorem refines_store
    (hintact : Intact start) (hfiles : filesOn start.disk = ∅) :
    (Session.system start).Refines FileStore.system
      (fun trace s call => s.Allowed trace call)
      fun s t => Faithful s ∧ t = s.store := by
  constructor
  case start =>
    refine ⟨⟨hintact, fun name f hf => nomatch hf⟩, ?_⟩
    change (⟨∅, []⟩ : FileStore) = ⟨filesOn start.disk, []⟩
    rw [hfiles]
  case step =>
    rintro trace s t s' call event ⟨hfaithful, rfl⟩ hallowed hstep
    obtain ⟨s'', event', call', hstep', hafter, hstore⟩ :=
      hfaithful.stores hallowed
    cases hstep.symm.trans hstep'
    exact ⟨call', s'.store, hstore, hafter, rfl⟩

end Runs

end Nachos.Filesys
