import Nachos.DescriptorTable

/-!
# Which file an identifier stands for

The mode of an open file stands in its `OpenFile`, its position in the host
and the identifier in the table.  That the three belong together, and to the
`Open` that the trace tells of, is an invariant of the runs that take calls on
files only.
-/

namespace Nachos

open Library

/-! ## The files of the host -/

namespace Host

variable {h h' : Host}

/-- The descriptors that are open stay on their files. -/
def KeepsFiles (h h' : Host) : Prop :=
  ∀ fd position, h.file fd = some position →
    ∃ position', h'.file fd = some position' ∧
      position'.inode = position.inode

theorem SameFiles.keepsFiles (hsame : h.SameFiles h') : h.KeepsFiles h' := by
  intro fd position hfile
  have hinode := hsame.inode fd
  rw [hfile, Option.map_some] at hinode
  exact Option.map_eq_some_iff.mp hinode

theorem file_lt {fd : ℕ} (hopen : h.file fd ≠ none) :
    fd < h.files.length := by
  by_contra hout
  apply hopen
  rw [file, List.getElem?_eq_none (not_lt.mp hout)]
  rfl

/-- A file that has just been opened. -/
structure Opened (h h' : Host) (inode : ℕ) : Prop where
  old : ∀ fd, h.file fd ≠ none → h'.file fd = h.file fd
  new : h'.file h.files.length = some ⟨inode, 0⟩

theorem Opened.keepsFiles
    {inode : ℕ} (hopened : h.Opened h' inode) : h.KeepsFiles h' := by
  intro fd position hfile
  refine ⟨position, ?_, rfl⟩
  rw [hopened.old fd (by simp [hfile]), hfile]

theorem opened_of_files
    {inode : ℕ} (hfiles : h'.files = h.files ++ [some ⟨inode, 0⟩]) :
    h.Opened h' inode := by
  constructor
  case old =>
    intro fd hopen
    rw [file, file, hfiles, List.getElem?_append_left (file_lt hopen)]
  case new =>
    rw [file, hfiles]
    simp

/-- `OpenForWrite` empties the file or makes a new one. -/
theorem openForWrite_ok
    {name : CString} {fd : ℕ} {answer : HostAnswer}
    (hopen : h.openForWrite name answer = .ok (fd, h')) :
    ∃ inode, fd = h.files.length ∧ h'.directory name = some inode ∧
      h.Opened h' inode ∧
      (∀ other, other ≠ inode → h'.contents other = h.contents other) ∧
      ∀ other, other ≠ name → h'.directory other = h.directory other := by
  unfold openForWrite at hopen
  split at hopen
  next => cases hopen
  next inode hfound =>
    cases hopen
    refine ⟨inode, rfl, hfound, opened_of_files rfl, ?_, fun _ _ => rfl⟩
    exact fun other hne => Function.update_of_ne hne _ _
  next =>
    cases hopen
    refine ⟨h.inodes, rfl, Function.update_self _ _ _, opened_of_files rfl,
      ?_, ?_⟩
    · exact fun other hne => Function.update_of_ne hne _ _
    · exact fun other hne => Function.update_of_ne hne _ _

/-- `Create` empties the file or makes a new one, and opens nothing. -/
theorem create_ok
    {name : CString} {answer : HostAnswer} {created : Bool}
    (hcreate : FileSystem.create h name answer = .ok (created, h')) :
    ∃ inode, h'.directory name = some inode ∧ h.KeepsFiles h' ∧
      (∀ other, other ≠ inode → h'.contents other = h.contents other) ∧
      ∀ other, other ≠ name → h'.directory other = h.directory other := by
  rcases ok_of_bind hcreate with ⟨⟨fd, opened⟩, hopen, hclose⟩
  rcases ok_of_bind hclose with ⟨closed, hclosed, hresult⟩
  cases hresult
  rcases openForWrite_ok hopen with
    ⟨inode, rfl, hname, hopened, hcontents, hdirectory⟩
  rw [close, hopened.new] at hclosed
  cases hclosed
  refine ⟨inode, hname, ?_, hcontents, hdirectory⟩
  intro fd position hfile
  refine ⟨position, ?_, rfl⟩
  have hlt := file_lt (h := h) (by simp [hfile] : h.file fd ≠ none)
  rw [file_setFile_of_ne (by omega), hopened.old fd (by simp [hfile]), hfile]

/-- A written file keeps its descriptors. -/
theorem keepsFiles_written
    {fd offset : ℕ} {position : HostFile} (hfile : h.file fd = some position)
    (bytes : List (BitVec 8)) :
    h.KeepsFiles ((h.setContents position.inode bytes).setFile fd
      (some { position with offset := offset })) := by
  intro fd' position' hfile'
  have hcontents : ∀ fd, (h.setContents position.inode bytes).file fd =
      h.file fd := fun _ => rfl
  by_cases heq : fd' = fd
  · subst heq
    rw [hfile] at hfile'
    cases hfile'
    exact ⟨_, file_setFile_self (by rw [hcontents, hfile]) _, rfl⟩
  · refine ⟨position', ?_, rfl⟩
    rw [file_setFile_of_ne heq, hcontents, hfile']

end Host

theorem openTyped_ok
    {h h' : Host} {name : CString} {type : ℤ} {id : ℕ} {answer : HostAnswer}
    {f : Pointer OpenFile}
    (hopen : FileSystem.openTyped h name type id answer = .ok (f, h')) :
    (f = .null ∧ h' = h ∧ h.directory name = none) ∨
      ∃ inode, f = .object ⟨type, .object name, h.files.length, 0, id⟩ ∧
        h'.directory name = some inode ∧ h.Opened h' inode ∧
        (type ≠ 4 → h'.contents = h.contents ∧
          h'.directory = h.directory) ∧
        (∀ other, other ≠ inode → h'.contents other = h.contents other) ∧
        ∀ other, other ≠ name → h'.directory other = h.directory other := by
  by_cases htype : type = 4
  · simp only [FileSystem.openTyped, if_pos htype] at hopen
    cases hwrite : h.openForWrite name answer with
    | error fault =>
        rw [hwrite] at hopen
        cases hopen
    | ok opened =>
        rcases opened with ⟨fd, h₁⟩
        rw [hwrite] at hopen
        cases hopen
        rcases Host.openForWrite_ok hwrite with
          ⟨inode, rfl, hname, hopened, hcontents, hdirectory⟩
        exact .inr ⟨inode, rfl, hname, hopened, fun hne => (hne htype).elim,
          hcontents, hdirectory⟩
  · cases hfound : h.directory name with
    | none =>
        simp only [FileSystem.openTyped, if_neg htype,
          Host.openForReadWrite, hfound] at hopen
        cases hopen
        exact .inl ⟨rfl, rfl, rfl⟩
    | some inode =>
        rw [Kernel.openTyped_existing hfound htype] at hopen
        cases hopen
        exact .inr ⟨inode, rfl, hfound, Host.opened_of_files rfl,
          fun _ => ⟨rfl, rfl⟩, fun _ _ => rfl, fun _ _ => rfl⟩

/-! ## What the trace tells -/

/-- The calls of the runs. -/
def fileCalls : List SystemCall :=
  [.create, .open, .close, .read, .write, .seek, .remove]

/-- The runs take calls on files only. -/
def onFiles (_ : List DescriptorEvent) (_ : Kernel) :
    DescriptorAction → Prop
  | .call _ _ call => call ∈ fileCalls
  | .load .. => False

instance (trace : List DescriptorEvent) (k : Kernel)
    (action : DescriptorAction) : Decidable (onFiles trace k action) := by
  cases action with
  | call m env call => exact inferInstanceAs (Decidable (call ∈ fileCalls))
  | load => exact isFalse id

/-- The path that a call gets leads to a file. -/
def Names (m : Machine) (call : SystemCall) (h : Host) (inode : ℕ) : Prop :=
  ∃ filename m', m.user2System (m.readRegister 4) (nameLimit call) =
      .ok (filename, m') ∧
    h.directory (cString filename) = some inode

/-- An `Open` has returned an identifier for a file. -/
def DescriptorEvent.Opens (event : DescriptorEvent) (id inode : ℕ)
    (mode : ℤ) : Prop :=
  ∃ m env, event.action = .call m env .open ∧ m.AsksForId .open ∧
    (m.readRegister 5).toInt = mode ∧ event.result = BitVec.ofNat 32 id ∧
    Names m .open event.after.host inode

/-- The identifier was opened on the file in this mode and has not been closed
since. -/
def OpenOn (trace : List DescriptorEvent) (id inode : ℕ) (mode : ℤ) :
    Prop :=
  StepSystem.Since (·.Opens id inode mode) (·.Frees id) trace

/-- The slot is that of a file, by its mode and its descriptor. -/
def FileSystem.Entry (fs : FileSystem) (id : ℕ) (mode : ℤ) (fd : ℕ) : Prop :=
  ∃ f, fs.fileSlot id = .object (.ofFile (.object f)) ∧ f.type = mode ∧
    f.file = fd

/-- Mode, position and identifier of each open file belong together. -/
structure FilesKnown (trace : List DescriptorEvent) (k : Kernel) : Prop where
  plain : ∀ id, k.fileSystem.fileSlot id = .null ∨
    ∃ f, k.fileSystem.fileSlot id = .object (.ofFile f)
  range : ∀ id mode fd, k.fileSystem.Entry id mode fd → id < maxFileOpen
  valid : ∀ id mode fd, k.fileSystem.Entry id mode fd →
    k.host.file fd ≠ none
  distinct : ∀ id id' mode mode' fd, k.fileSystem.Entry id mode fd →
    k.fileSystem.Entry id' mode' fd → id = id'
  granted : ∀ id mode fd, k.fileSystem.Entry id mode fd →
    mode = 2 ∨ mode = 3 ∨ ∃ inode, OpenOn trace id inode mode
  known : ∀ id inode mode, id < maxFileOpen → OpenOn trace id inode mode →
    ∃ fd position, k.fileSystem.Entry id mode fd ∧
      k.host.file fd = some position ∧ position.inode = inode

section Steps

variable {trace : List DescriptorEvent} {event : DescriptorEvent}
variable {k k' : Kernel}

/-- There are no sockets. -/
theorem FilesKnown.file_of_slot
    (hknown : FilesKnown trace k) {id : ℕ} {slot : FileSlot}
    (hslot : k.fileSystem.fileSlot id = .object slot) :
    ∃ f, slot = .ofFile f := by
  rcases hknown.plain id with hnull | ⟨f, hfile⟩
  · cases hslot.symm.trans hnull
  · cases hslot.symm.trans hfile
    exact ⟨f, rfl⟩

/-- A step that neither opens nor closes. -/
theorem FilesKnown.frame
    (hknown : FilesKnown trace k)
    (hplain : ∀ id, k'.fileSystem.fileSlot id = .null ∨
      ∃ f, k'.fileSystem.fileSlot id = .object (.ofFile f))
    (hentries : ∀ id mode fd, k'.fileSystem.Entry id mode fd ↔
      k.fileSystem.Entry id mode fd)
    (hfiles : k.host.KeepsFiles k'.host)
    (hopens : ∀ id inode mode, id < maxFileOpen →
      ¬event.Opens id inode mode)
    (hfrees : ∀ id, id < maxFileOpen → ¬event.Frees id) :
    FilesKnown (trace ++ [event]) k' := by
  have hopenOn : ∀ id inode mode, id < maxFileOpen →
      (OpenOn (trace ++ [event]) id inode mode ↔
        OpenOn trace id inode mode) := by
    intro id inode mode hid
    rw [OpenOn, StepSystem.since_append]
    constructor
    · rintro (hnow | ⟨hbefore, -⟩)
      · exact (hopens id inode mode hid hnow).elim
      · exact hbefore
    · exact fun hbefore => .inr ⟨hbefore, hfrees id hid⟩
  constructor
  case plain => exact hplain
  case range =>
    intro id mode fd hentry
    exact hknown.range id mode fd ((hentries id mode fd).mp hentry)
  case valid =>
    intro id mode fd hentry
    have hopen := hknown.valid id mode fd ((hentries id mode fd).mp hentry)
    rcases Option.ne_none_iff_exists'.mp hopen with ⟨position, hposition⟩
    rcases hfiles fd position hposition with ⟨position', hposition', -⟩
    simp [hposition']
  case distinct =>
    intro id id' mode mode' fd hentry hentry'
    exact hknown.distinct id id' mode mode' fd ((hentries _ _ _).mp hentry)
      ((hentries _ _ _).mp hentry')
  case granted =>
    intro id mode fd hentry
    have hbefore := (hentries id mode fd).mp hentry
    have hid := hknown.range id mode fd hbefore
    rcases hknown.granted id mode fd hbefore with h2 | h3 | ⟨inode, hopen⟩
    · exact .inl h2
    · exact .inr (.inl h3)
    · exact .inr (.inr ⟨inode, (hopenOn id inode mode hid).mpr hopen⟩)
  case known =>
    intro id inode mode hid hopen
    rcases hknown.known id inode mode hid ((hopenOn id inode mode hid).mp hopen)
      with ⟨fd, position, hentry, hposition, rfl⟩
    rcases hfiles fd position hposition with ⟨position', hposition', hinode⟩
    exact ⟨fd, position', (hentries id mode fd).mpr hentry, hposition',
      hinode⟩

theorem entry_setSlot_of_ne
    {fs : FileSystem} {id id' : ℕ} (hne : id' ≠ id) (slot : Pointer FileSlot)
    (mode : ℤ) (fd : ℕ) :
    (fs.setSlot id slot).Entry id' mode fd ↔ fs.Entry id' mode fd := by
  rw [FileSystem.Entry, FileSystem.fileSlot_setSlot_of_ne hne,
    FileSystem.Entry]

theorem entry_setSlot_self
    {fs : FileSystem} {id fd : ℕ} {f : OpenFile} {mode : ℤ} :
    (fs.setSlot id (.object (.ofFile (.object f)))).Entry id mode fd ↔
      f.type = mode ∧ f.file = fd := by
  constructor
  · rintro ⟨f', hslot, hmode, hfd⟩
    rw [FileSystem.fileSlot_setSlot_self] at hslot
    cases hslot
    exact ⟨hmode, hfd⟩
  · rintro ⟨hmode, hfd⟩
    exact ⟨f, FileSystem.fileSlot_setSlot_self _ _, hmode, hfd⟩

theorem plain_setSlot
    (hplain : ∀ id, k.fileSystem.fileSlot id = .null ∨
      ∃ f, k.fileSystem.fileSlot id = .object (.ofFile f))
    {slot : Pointer FileSlot}
    (hslot : slot = .null ∨ ∃ f, slot = .object (.ofFile f)) (id' id : ℕ) :
    (k.fileSystem.setSlot id' slot).fileSlot id = .null ∨
      ∃ f, (k.fileSystem.setSlot id' slot).fileSlot id =
        .object (.ofFile f) := by
  by_cases heq : id = id'
  · subst heq
    rwa [FileSystem.fileSlot_setSlot_self]
  · rw [FileSystem.fileSlot_setSlot_of_ne heq]
    exact hplain id

/-- A step that opens a file in a free slot. -/
theorem FilesKnown.opened
    (hknown : FilesKnown trace k) {id inode : ℕ} {f : OpenFile}
    (hid : id < maxFileOpen) (hfree : k.fileSystem.fileSlot id = .null)
    (hfile : f.file = k.host.files.length)
    (hfs : k'.fileSystem =
      k.fileSystem.setSlot id (.object (.ofFile (.object f))))
    (hopened : k.host.Opened k'.host inode)
    (hopens : ∀ id' inode' mode', id' < maxFileOpen →
      (event.Opens id' inode' mode' ↔
        id' = id ∧ inode' = inode ∧ mode' = f.type))
    (hfrees : ∀ id, id < maxFileOpen → ¬event.Frees id) :
    FilesKnown (trace ++ [event]) k' := by
  have hopenOn : ∀ id' inode' mode', id' < maxFileOpen →
      (OpenOn (trace ++ [event]) id' inode' mode' ↔
        id' = id ∧ inode' = inode ∧ mode' = f.type ∨
          OpenOn trace id' inode' mode') := by
    intro id' inode' mode' hid'
    rw [OpenOn, StepSystem.since_append, hopens id' inode' mode' hid']
    exact or_congr_right (and_iff_left (hfrees id' hid'))
  have hnone : ∀ mode fd, ¬k.fileSystem.Entry id mode fd := by
    rintro mode fd ⟨f', hslot, -⟩
    rw [hfree] at hslot
    cases hslot
  have hnew : ∀ mode fd, k'.fileSystem.Entry id mode fd ↔
      f.type = mode ∧ k.host.files.length = fd := by
    intro mode fd
    rw [hfs, entry_setSlot_self, hfile]
  have hold : ∀ id' mode fd, id' ≠ id →
      (k'.fileSystem.Entry id' mode fd ↔ k.fileSystem.Entry id' mode fd) := by
    intro id' mode fd hne
    rw [hfs, entry_setSlot_of_ne hne]
  have hbelow : ∀ id' mode fd, k.fileSystem.Entry id' mode fd →
      fd ≠ k.host.files.length := fun id' mode fd hentry =>
    (Host.file_lt (hknown.valid id' mode fd hentry)).ne
  constructor
  case plain =>
    intro id'
    rw [hfs]
    exact plain_setSlot hknown.plain (.inr ⟨_, rfl⟩) id id'
  case range =>
    intro id' mode fd hentry
    by_cases heq : id' = id
    · rwa [heq]
    · exact hknown.range id' mode fd ((hold id' mode fd heq).mp hentry)
  case valid =>
    intro id' mode fd hentry
    by_cases heq : id' = id
    · subst heq
      rw [← ((hnew mode fd).mp hentry).2, hopened.new]
      simp
    · have hopen := hknown.valid id' mode fd ((hold id' mode fd heq).mp hentry)
      rwa [hopened.old fd hopen]
  case distinct =>
    intro id₁ id₂ mode₁ mode₂ fd hentry₁ hentry₂
    by_cases heq₁ : id₁ = id <;> by_cases heq₂ : id₂ = id
    · rw [heq₁, heq₂]
    · subst heq₁
      have hlast := ((hnew mode₁ fd).mp hentry₁).2
      have hbefore := (hold id₂ mode₂ fd heq₂).mp hentry₂
      exact (hbelow id₂ mode₂ fd hbefore hlast.symm).elim
    · subst heq₂
      have hlast := ((hnew mode₂ fd).mp hentry₂).2
      have hbefore := (hold id₁ mode₁ fd heq₁).mp hentry₁
      exact (hbelow id₁ mode₁ fd hbefore hlast.symm).elim
    · exact hknown.distinct id₁ id₂ mode₁ mode₂ fd
        ((hold id₁ mode₁ fd heq₁).mp hentry₁)
        ((hold id₂ mode₂ fd heq₂).mp hentry₂)
  case granted =>
    intro id' mode fd hentry
    by_cases heq : id' = id
    · subst heq
      rcases (hnew mode fd).mp hentry with ⟨rfl, -⟩
      exact .inr (.inr ⟨inode, (hopenOn id' inode f.type hid).mpr
        (.inl ⟨rfl, rfl, rfl⟩)⟩)
    · have hbefore := (hold id' mode fd heq).mp hentry
      have hid' := hknown.range id' mode fd hbefore
      rcases hknown.granted id' mode fd hbefore with
        h2 | h3 | ⟨inode', hopen⟩
      · exact .inl h2
      · exact .inr (.inl h3)
      · exact .inr (.inr ⟨inode', (hopenOn id' inode' mode hid').mpr
          (.inr hopen)⟩)
  case known =>
    intro id' inode' mode hid' hopen
    rcases (hopenOn id' inode' mode hid').mp hopen with
      ⟨rfl, rfl, rfl⟩ | hbefore
    · exact ⟨_, _, (hnew _ _).mpr ⟨rfl, rfl⟩, hopened.new, rfl⟩
    · rcases hknown.known id' inode' mode hid' hbefore with
        ⟨fd, position, hentry, hposition, hinode⟩
      have hne : id' ≠ id := by
        rintro rfl
        exact hnone mode fd hentry
      refine ⟨fd, position, (hold id' mode fd hne).mpr hentry, ?_, hinode⟩
      rw [hopened.old fd (by simp [hposition]), hposition]

/-- A step that frees a slot. -/
theorem FilesKnown.closed
    (hknown : FilesKnown trace k) {id : ℕ}
    (hfs : k'.fileSystem = k.fileSystem.setSlot id .null)
    (hfiles : ∀ fd, (∀ mode, ¬k.fileSystem.Entry id mode fd) →
      k'.host.file fd = k.host.file fd)
    (hopens : ∀ id inode mode, ¬event.Opens id inode mode)
    (hfrees : ∀ id', id' < maxFileOpen → (event.Frees id' ↔ id' = id)) :
    FilesKnown (trace ++ [event]) k' := by
  have hopenOn : ∀ id' inode mode, id' < maxFileOpen →
      (OpenOn (trace ++ [event]) id' inode mode ↔
        id' ≠ id ∧ OpenOn trace id' inode mode) := by
    intro id' inode mode hid'
    rw [OpenOn, StepSystem.since_append, hfrees id' hid', and_comm]
    exact or_iff_right (hopens id' inode mode)
  have hnone : ∀ mode fd, ¬k'.fileSystem.Entry id mode fd := by
    rintro mode fd ⟨f, hslot, -⟩
    rw [hfs, FileSystem.fileSlot_setSlot_self] at hslot
    cases hslot
  have hentries : ∀ id' mode fd, k'.fileSystem.Entry id' mode fd ↔
      id' ≠ id ∧ k.fileSystem.Entry id' mode fd := by
    intro id' mode fd
    by_cases heq : id' = id
    · subst heq
      exact iff_of_false (hnone mode fd) fun h => h.1 rfl
    · rw [hfs, entry_setSlot_of_ne heq]
      exact (and_iff_right heq).symm
  have hother : ∀ id' mode fd, id' ≠ id → k.fileSystem.Entry id' mode fd →
      k'.host.file fd = k.host.file fd := by
    intro id' mode fd hne hentry
    apply hfiles
    intro mode' hentry'
    exact hne (hknown.distinct id' id mode mode' fd hentry hentry')
  constructor
  case plain =>
    intro id'
    rw [hfs]
    exact plain_setSlot hknown.plain (.inl rfl) id id'
  case range =>
    intro id' mode fd hentry
    exact hknown.range id' mode fd ((hentries id' mode fd).mp hentry).2
  case valid =>
    intro id' mode fd hentry
    rcases (hentries id' mode fd).mp hentry with ⟨hne, hbefore⟩
    rw [hother id' mode fd hne hbefore]
    exact hknown.valid id' mode fd hbefore
  case distinct =>
    intro id₁ id₂ mode₁ mode₂ fd hentry₁ hentry₂
    exact hknown.distinct id₁ id₂ mode₁ mode₂ fd
      ((hentries id₁ mode₁ fd).mp hentry₁).2
      ((hentries id₂ mode₂ fd).mp hentry₂).2
  case granted =>
    intro id' mode fd hentry
    rcases (hentries id' mode fd).mp hentry with ⟨hne, hbefore⟩
    have hid' := hknown.range id' mode fd hbefore
    rcases hknown.granted id' mode fd hbefore with h2 | h3 | ⟨inode, hopen⟩
    · exact .inl h2
    · exact .inr (.inl h3)
    · exact .inr (.inr ⟨inode, (hopenOn id' inode mode hid').mpr
        ⟨hne, hopen⟩⟩)
  case known =>
    intro id' inode mode hid' hopen
    rcases (hopenOn id' inode mode hid').mp hopen with ⟨hne, hbefore⟩
    rcases hknown.known id' inode mode hid' hbefore with
      ⟨fd, position, hentry, hposition, hinode⟩
    exact ⟨fd, position, (hentries id' mode fd).mpr ⟨hne, hentry⟩,
      (hother id' mode fd hne hentry).trans hposition, hinode⟩

/-- Only an `Open` that has not failed opens. -/
theorem not_opens
    {m : Machine} {env : Environment} {call : SystemCall} {id inode : ℕ}
    {mode : ℤ} (hid : id < maxFileOpen)
    (hnot : call ≠ .open ∨ ¬m.AsksForId .open ∨ k'.register 2 = -1) :
    ¬DescriptorEvent.Opens ⟨.call m env call, k'⟩ id inode mode := by
  rintro ⟨m', env', haction, hasks, -, hresult, -⟩
  cases haction
  rcases hnot with hcall | hmode | hfailed
  · exact hcall rfl
  · exact hmode hasks
  · exact ofNat_ne_neg_one hid (hresult.symm.trans hfailed)

theorem not_frees
    {m : Machine} {env : Environment} {call : SystemCall} {id : ℕ}
    (hnot : call ≠ .close ∨ k'.register 2 = -1) :
    ¬DescriptorEvent.Frees ⟨.call m env call, k'⟩ id := by
  rintro ⟨m', env', haction, -, hresult⟩
  cases haction
  rcases hnot with hcall | hfailed
  · exact hcall rfl
  · exact absurd (hfailed.symm.trans hresult) (by decide)

/-- A file that is only read, written or moved in keeps mode and descriptor. -/
theorem entry_setSlot_offset
    {fs : FileSystem} {id : ℕ} {slot : FileSlot} {f : OpenFile}
    (hplain : fs.fileSlot id = .null ∨
      ∃ f, fs.fileSlot id = .object (.ofFile f))
    (hslot : fs.fileSlot id = .object slot)
    (hopen : slot.fileOpen = .object f) (position : ℤ) :
    slot = .ofFile (.object f) ∧ ∀ id' mode fd,
      (fs.setSlot id (.object { slot with
        fileOpen := .object { f with currentOffset := position } })).Entry
          id' mode fd ↔ fs.Entry id' mode fd := by
  have hfile : slot = .ofFile (.object f) := by
    rw [hslot] at hplain
    rcases hplain with hnull | ⟨f', hobject⟩
    · cases hnull
    · cases hobject
      cases hopen
      rfl
  refine ⟨hfile, ?_⟩
  subst hfile
  intro id' mode fd
  by_cases heq : id' = id
  · subst heq
    change (fs.setSlot id' (.object (.ofFile (.object { f with
      currentOffset := position })))).Entry id' mode fd ↔ _
    rw [entry_setSlot_self, FileSystem.Entry, hslot]
    constructor
    · rintro ⟨hmode, hfd⟩
      exact ⟨f, rfl, hmode, hfd⟩
    · rintro ⟨f', hobject, hmode, hfd⟩
      cases hobject
      exact ⟨hmode, hfd⟩
  · exact entry_setSlot_of_ne heq _ _ _

/-- What an `Open` that has found or made a file tells in the trace. -/
theorem opens_iff
    {m m' : Machine} {env : Environment} {filename : List (BitVec 8)}
    {id id' inode inode' : ℕ} {mode : ℤ}
    (hname : m.user2System (m.readRegister 4) maxFileLength =
      .ok (filename, m'))
    (hdirectory : k'.host.directory (cString filename) = some inode)
    (hasks : m.AsksForId .open) (hresult : k'.register 2 = BitVec.ofNat 32 id)
    (hid : id < maxFileOpen) (hid' : id' < maxFileOpen) :
    DescriptorEvent.Opens ⟨.call m env .open, k'⟩ id' inode' mode ↔
      id' = id ∧ inode' = inode ∧ mode = (m.readRegister 5).toInt := by
  constructor
  · rintro ⟨m₁, env₁, haction, -, hmode, hgiven, filename', m₂, hcopy, hfound⟩
    cases haction
    have hcopies := Except.ok.inj (hcopy.symm.trans hname)
    cases hcopies
    refine ⟨?_, ?_, hmode.symm⟩
    · exact (ofNat_inj hid' hid).mp (hgiven.symm.trans hresult)
    · exact Option.some.inj (hfound.symm.trans hdirectory)
  · rintro ⟨rfl, rfl, rfl⟩
    exact ⟨m, env, rfl, hasks, rfl, hresult, filename, m', hname, hdirectory⟩

/-- What a `Close` that has succeeded tells in the trace. -/
theorem frees_iff
    {m : Machine} {env : Environment} {id : ℕ}
    (hlow : 2 ≤ (m.readRegister 4).toInt)
    (hhigh : (m.readRegister 4).toInt < maxFileOpen)
    (hresult : k'.register 2 = 0) (hid : id < maxFileOpen) :
    DescriptorEvent.Frees ⟨.call m env .close, k'⟩ id ↔
      id = (m.readRegister 4).toInt.toNat := by
  have hregister : m.readRegister 4 =
      BitVec.ofNat 32 (m.readRegister 4).toInt.toNat := by
    rw [← BitVec.ofInt_natCast, Int.toNat_of_nonneg (by omega),
      BitVec.ofInt_toInt]
  constructor
  · rintro ⟨m', env', haction, hgiven, -⟩
    cases haction
    exact (ofNat_inj hid (by omega)).mp (hgiven.symm.trans hregister)
  · rintro rfl
    exact ⟨m, env, rfl, hregister, hresult⟩

/-- Only the descriptor of the slot that is deleted is closed. -/
theorem file_of_delete
    {fs : FileSystem} {id : ℕ} {f : Pointer OpenFile} {h h' : Host}
    (hslot : fs.fileSlot id = .object (.ofFile f))
    (hdelete : (FileSlot.ofFile f).delete h = .ok h') {fd : ℕ}
    (hother : ∀ mode, ¬fs.Entry id mode fd) : h'.file fd = h.file fd := by
  cases f with
  | null =>
      cases hdelete
      rfl
  | dangling => cases hdelete
  | object f =>
      have hne : fd ≠ f.file := by
        rintro rfl
        exact hother f.type ⟨f, hslot, rfl, rfl⟩
      rcases ok_of_bind hdelete with ⟨closed, hclose, hresult⟩
      cases hresult
      change h.close f.file = .ok h' at hclose
      unfold Host.close at hclose
      split at hclose
      · cases hclose
        exact Host.file_setFile_of_ne hne _
      · cases hclose

/-- One call on files. -/
theorem FilesKnown.call
    (hknown : FilesKnown trace k) {m : Machine} {env : Environment}
    {call : SystemCall} (hfiles : call ∈ fileCalls)
    (hcall : k.callFrom m env call = .ok k') :
    FilesKnown (trace ++ [⟨.call m env call, k'⟩]) k' := by
  rcases Kernel.ends_of_handle hcall with
    ⟨fs, h, result, hreturned, heffect⟩
  have hfs := hreturned.fileSystem
  have hhost := hreturned.host
  have hframe : fs = k.fileSystem → k.host.KeepsFiles h →
      (call ≠ .open ∨ ¬m.AsksForId .open ∨ k'.register 2 = -1) →
      (call ≠ .close ∨ k'.register 2 = -1) →
      FilesKnown (trace ++ [⟨.call m env call, k'⟩]) k' := by
    rintro rfl hkeeps hopens hfrees
    have hsame : k'.fileSystem = k.fileSystem := hfs
    apply hknown.frame
    · rw [hsame]
      exact hknown.plain
    · intro id mode fd
      rw [hsame]
    · rwa [hhost]
    · exact fun id inode mode hid => not_opens hid hopens
    · exact fun id _ => not_frees hfrees
  have hoffset : ∀ {id slot f} (position : ℤ),
      fs = k.fileSystem.setSlot id (.object { slot with
        fileOpen := .object { f with currentOffset := position } }) →
      k.fileSystem.fileSlot id = .object slot → slot.fileOpen = .object f →
      k.host.KeepsFiles h → call ≠ .open → call ≠ .close →
      FilesKnown (trace ++ [⟨.call m env call, k'⟩]) k' := by
    rintro id slot f position rfl hslot hopen hkeeps hopens hfrees
    rcases entry_setSlot_offset (hknown.plain id) hslot hopen position with
      ⟨rfl, hentries⟩
    apply hknown.frame
    · rw [hfs]
      exact plain_setSlot hknown.plain (.inr ⟨_, rfl⟩) id
    · rw [hfs]
      exact hentries
    · rwa [hhost]
    · exact fun id inode mode hid => not_opens hid (.inl hopens)
    · exact fun id _ => not_frees (.inl hfrees)
  have hsame := Host.SameFiles.keepsFiles (.refl k.host)
  cases heffect with
  | refused =>
      exact hframe rfl hsame (.inr (.inr hreturned.register_two))
        (.inr hreturned.register_two)
  | answered hkeeps hhosts =>
      refine hframe rfl hhosts.keepsFiles (.inl ?_) (.inl ?_)
      · rintro rfl
        exact absurd hkeeps (by decide)
      · rintro rfl
        exact absurd hkeeps (by decide)
  | console h0 h1 h4 =>
      refine hframe rfl hsame (.inr (.inl ?_)) (.inl (by decide))
      rintro (hother | ⟨-, hmode | hmode | hmode⟩)
      · cases hother
      · exact h0 hmode
      · exact h1 hmode
      · exact h4 hmode
  | created _ hcreate =>
      rcases Host.create_ok hcreate with ⟨inode, -, hkeeps, -⟩
      exact hframe rfl hkeeps (.inl (by decide)) (.inl (by decide))
  | @opened filename m' id f h hname hfree hopen hmode =>
      rcases FileSystem.findFreeSlot_spec hfree with ⟨-, hhigh, hnull⟩
      have hresult : k'.register 2 = BitVec.ofNat 32 id := by
        rw [hreturned.register_two, BitVec.ofInt_natCast]
      rcases openTyped_ok hopen with
        ⟨rfl, rfl, hmissing⟩ | ⟨inode, rfl, hdirectory, hopened, -⟩
      · apply hknown.frame
        · rw [hfs]
          exact plain_setSlot hknown.plain (.inr ⟨_, rfl⟩) id
        · intro id' mode fd
          rw [hfs]
          by_cases heq : id' = id
          · subst heq
            have hnull' : k.fileSystem.fileSlot id' = .null := hnull
            constructor
            · rintro ⟨f, hslot, -⟩
              rw [FileSystem.fileSlot_setSlot_self] at hslot
              cases hslot
            · rintro ⟨f, hslot, -⟩
              cases hslot.symm.trans hnull'
          · exact entry_setSlot_of_ne heq _ _ _
        · rw [hhost]
          exact hsame
        · rintro id' inode mode - ⟨m₁, env₁, haction, -, -, -, names⟩
          cases haction
          rcases names with ⟨filename', m₂, hcopy, hfound⟩
          cases Except.ok.inj (hcopy.symm.trans hname)
          rw [hhost] at hfound
          cases hfound.symm.trans hmissing
        · exact fun id _ => not_frees (.inl (by decide))
      · apply hknown.opened hhigh hnull rfl hfs
        · rw [hhost]
          exact hopened
        · intro id' inode' mode' hid'
          rw [← hhost] at hdirectory
          exact opens_iff hname hdirectory (.inr ⟨rfl, hmode⟩) hresult hhigh
            hid'
        · exact fun id _ => not_frees (.inl (by decide))
  | @closed slot h hlow hhigh hslot htype hdelete =>
      obtain ⟨f, rfl⟩ := hknown.file_of_slot hslot
      apply hknown.closed hfs
      · intro fd hother
        rw [hhost]
        exact file_of_delete hslot hdelete hother
      · exact fun id inode mode hopens => by
          rcases hopens with ⟨m', env', haction, -⟩
          cases haction
      · intro id' hid'
        exact frees_iff hlow hhigh hreturned.register_two hid'
  | socketClosed hwhich hlow hhigh hslot =>
      rcases hwhich with ⟨rfl, htype⟩ | rfl
      · obtain ⟨f, rfl⟩ := hknown.file_of_slot hslot
        cases htype
      · exact absurd hfiles (by decide)
  | moved hwhich hslot hopen hhosts =>
      refine hoffset _ rfl hslot hopen hhosts.keepsFiles ?_ ?_
      · rcases hwhich with rfl | rfl | rfl <;> decide
      · rcases hwhich with rfl | rfl | rfl <;> decide
  | written _ hslot hopen _ hposition _ =>
      exact hoffset _ rfl hslot hopen (Host.keepsFiles_written hposition _)
        (by decide) (by decide)
  | removed hname =>
      refine hframe rfl ?_ (.inl (by decide)) (.inl (by decide))
      intro fd position hposition
      refine ⟨position, ?_, rfl⟩
      rw [← hposition]
      unfold FileSystem.remove Host.unlink
      split <;> rfl
  | socketOpened => exact absurd hfiles (by decide)
  | notExecuted => exact absurd hfiles (by decide)
  | executed => exact absurd hfiles (by decide)

/-- The constructor has opened the console only. -/
theorem filesKnown_start
    {start : Kernel} {h : Host} {stdin stdout : HostAnswer}
    (hnew : FileSystem.new h stdin stdout =
      .ok (start.fileSystem, start.host)) :
    FilesKnown [] start := by
  rcases FileSystem.new_ok hnew with
    ⟨h₂, stdinName, stdoutName, inode, inode', hfs, hfiles⟩
  have hslots : ∀ id, start.fileSystem.fileSlot id =
      if id = 0 then .object (.ofFile (.object
        ⟨2, .object stdinName, h₂.files.length, 0, 0⟩))
      else if id = 1 then .object (.ofFile (.object
        ⟨3, .object stdoutName, h₂.files.length + 1, 0, 1⟩))
      else .null := by
    intro id
    rw [hfs]
    by_cases h1 : id = 1
    · subst h1
      rfl
    · rw [FileSystem.fileSlot_setSlot_of_ne h1, if_neg h1]
      by_cases h0 : id = 0
      · subst h0
        rfl
      · rw [FileSystem.fileSlot_setSlot_of_ne h0, if_neg h0]
  have hentries : ∀ id mode fd, start.fileSystem.Entry id mode fd →
      id = 0 ∧ mode = 2 ∧ fd = h₂.files.length ∨
        id = 1 ∧ mode = 3 ∧ fd = h₂.files.length + 1 := by
    rintro id mode fd ⟨f, hslot, rfl, rfl⟩
    rw [hslots] at hslot
    split_ifs at hslot with h0 h1
    · cases hslot
      exact .inl ⟨h0, rfl, rfl⟩
    · cases hslot
      exact .inr ⟨h1, rfl, rfl⟩
  have hmax : maxFileOpen = 20 := rfl
  constructor
  case plain =>
    intro id
    rw [hslots]
    split_ifs
    · exact .inr ⟨_, rfl⟩
    · exact .inr ⟨_, rfl⟩
    · exact .inl rfl
  case range =>
    intro id mode fd hentry
    rcases hentries id mode fd hentry with ⟨rfl, -⟩ | ⟨rfl, -⟩ <;> omega
  case valid =>
    intro id mode fd hentry
    rw [Host.file, hfiles]
    rcases hentries id mode fd hentry with ⟨-, -, rfl⟩ | ⟨-, -, rfl⟩
    · simp
    · simp
  case distinct =>
    intro id id' mode mode' fd hentry hentry'
    rcases hentries id mode fd hentry with ⟨rfl, -, hfd⟩ | ⟨rfl, -, hfd⟩ <;>
      rcases hentries id' mode' fd hentry' with
        ⟨rfl, -, hfd'⟩ | ⟨rfl, -, hfd'⟩ <;> omega
  case granted =>
    intro id mode fd hentry
    rcases hentries id mode fd hentry with ⟨-, rfl, -⟩ | ⟨-, rfl, -⟩
    · exact .inl rfl
    · exact .inr (.inl rfl)
  case known =>
    intro id inode mode _ hopen
    exact (StepSystem.not_since_nil hopen).elim

theorem filesKnown_of_run
    {start k : Kernel} {h : Host} {stdin stdout : HostAnswer}
    {trace : List DescriptorEvent}
    (hnew : FileSystem.new h stdin stdout =
      .ok (start.fileSystem, start.host))
    (hrun : (descriptorSystem start).Run onFiles trace k) :
    FilesKnown trace k := by
  apply hrun.invariant
  · exact filesKnown_start hnew
  · intro trace s s' action event _ hknown hfiles hmove
    cases action with
    | call m env call =>
        rcases ok_of_bind hmove with ⟨k', hcall, hresult⟩
        cases hresult
        exact hknown.call hfiles hcall
    | load => exact hfiles.elim

end Steps

end Nachos
