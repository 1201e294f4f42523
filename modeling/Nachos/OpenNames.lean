import Nachos.DescriptorKinds
import Nachos.FileContents
import Nachos.OpenFiles

/-!
# Files that are open under a name

`Remove` compares the name with those of the slots.  The constructor of
`OpenFile` stores a pointer to the name, and `handle_SC_Open` frees the name
before it returns; so `Remove` looks at memory that belongs to someone else,
except for the two files of the console.
-/

namespace Nachos

open Library

/-- A file that has its name still. -/
def Kernel.NamedAt (k : Kernel) (id : ℕ) (name : CString) : Prop :=
  ∃ f, k.fileSystem.fileSlot id = .object (.ofFile (.object f)) ∧
    f.fName = .object name

/-- `Open` has opened a file under the name and returned the slot. -/
def DescriptorEvent.OpensNamed (event : DescriptorEvent) (id : ℕ)
    (name : CString) : Prop :=
  ∃ m env filename m' f, event.action = .call m env .open ∧
    m.AsksForId .open ∧
    m.user2System (m.readRegister 4) maxFileLength = .ok (filename, m') ∧
    cString filename = name ∧ event.result = BitVec.ofNat 32 id ∧
    event.after.fileSystem.fileSlot id = .object (.ofFile (.object f))

/-- The slot was opened under the name and has not been closed since.  The
files of the console are open from the start. -/
def OpenUnder (start : Kernel) (trace : List DescriptorEvent) (id : ℕ)
    (name : CString) : Prop :=
  StepSystem.Lasting (start.NamedAt id name) (·.OpensNamed id name)
    (·.Frees id) trace

/-- What a slot holds, by what has happened to it. -/
inductive SlotHistory (start : Kernel) (trace : List DescriptorEvent)
    (id : ℕ) : Pointer FileSlot → Prop
  | free : (∀ name, ¬OpenUnder start trace id name) →
      SlotHistory start trace id .null
  /-- The host has not opened the file. -/
  | failed : (∀ name, ¬OpenUnder start trace id name) →
      SlotHistory start trace id (.object (.ofFile .null))
  | file {f : OpenFile} {name : CString} :
      (∀ name', OpenUnder start trace id name' ↔ name' = name) →
      f.fName = (if id < reverseFD then .object name else .dangling) →
      SlotHistory start trace id (.object (.ofFile (.object f)))

section History

variable {start : Kernel} {trace : List DescriptorEvent} {id : ℕ}
variable {slot : Pointer FileSlot} {event : DescriptorEvent}

theorem openUnder_keep
    (hopens : ∀ name, ¬event.OpensNamed id name) (hfrees : ¬event.Frees id)
    (name : CString) :
    OpenUnder start (trace ++ [event]) id name ↔
      OpenUnder start trace id name := by
  rw [OpenUnder, StepSystem.lasting_append, OpenUnder]
  constructor
  · rintro (hopen | ⟨hbefore, -⟩)
    · exact (hopens name hopen).elim
    · exact hbefore
  · intro hbefore
    exact .inr ⟨hbefore, hfrees⟩

theorem SlotHistory.keep
    (hhistory : SlotHistory start trace id slot)
    (hopens : ∀ name, ¬event.OpensNamed id name) (hfrees : ¬event.Frees id) :
    SlotHistory start (trace ++ [event]) id slot := by
  have hkeep : ∀ name, OpenUnder start (trace ++ [event]) id name ↔
      OpenUnder start trace id name :=
    openUnder_keep hopens hfrees
  cases hhistory with
  | free hnone => exact .free fun name => (hkeep name).not.mpr (hnone name)
  | failed hnone => exact .failed fun name => (hkeep name).not.mpr (hnone name)
  | file hone hname => exact .file (fun name => (hkeep name).trans (hone name)) hname

/-- A file keeps its name when its position moves. -/
theorem SlotHistory.moved
    {slot : FileSlot} {f : OpenFile}
    (hhistory : SlotHistory start trace id (.object slot))
    (hopen : slot.fileOpen = .object f) (position : ℤ) :
    SlotHistory start trace id (.object { slot with
      fileOpen := .object { f with currentOffset := position } }) := by
  cases hhistory with
  | failed => cases hopen
  | file hone hname =>
      cases hopen
      exact .file hone hname

/-- The position of a file moves in one of the slots. -/
theorem SlotHistory.moveSlot
    {fs : FileSystem} {id' : ℕ} {slot : FileSlot} {f : OpenFile}
    (hhistory : SlotHistory start trace id (fs.fileSlot id))
    (hslot : fs.fileSlot id' = .object slot)
    (hopen : slot.fileOpen = .object f) (position : ℤ) :
    SlotHistory start trace id ((fs.setSlot id' (.object { slot with
      fileOpen := .object { f with currentOffset := position } })).fileSlot
        id) := by
  by_cases heq : id = id'
  · subst heq
    rw [hslot] at hhistory
    rw [FileSystem.fileSlot_setSlot_self]
    exact hhistory.moved hopen position
  · rw [FileSystem.fileSlot_setSlot_of_ne heq]
    exact hhistory

/-- A slot that is closed is open under no name. -/
theorem slotHistory_of_frees (hfrees : event.Frees id) :
    SlotHistory start (trace ++ [event]) id .null := by
  apply SlotHistory.free
  intro name hopen
  have hclose := hfrees
  obtain ⟨m, env, haction, -, -⟩ := hclose
  obtain hopens | ⟨-, hkept⟩ := StepSystem.lasting_append.mp hopen
  · obtain ⟨m', env', -, -, -, hopened, -⟩ := hopens
    cases haction.symm.trans hopened
  · exact hkept hfrees

/-- A slot that is open has one name. -/
theorem SlotHistory.named
    {name : CString}
    (hhistory : SlotHistory start trace id slot)
    (hopen : OpenUnder start trace id name) :
    ∃ f, slot = .object (.ofFile (.object f)) ∧
      f.fName = (if id < reverseFD then .object name else .dangling) ∧
      ∀ name', OpenUnder start trace id name' → name' = name := by
  cases hhistory with
  | free hnone => exact (hnone name hopen).elim
  | failed hnone => exact (hnone name hopen).elim
  | @file f opened hone hname =>
      have heq := (hone name).mp hopen
      subst heq
      exact ⟨f, rfl, hname, fun name' => (hone name').mp⟩

end History

/-! ## One call -/

section Step

variable {start k k' : Kernel} {trace : List DescriptorEvent} {id : ℕ}
variable {m : Machine} {env : Environment} {call : SystemCall}

/-- The event of a call. -/
def callEvent (m : Machine) (env : Environment) (call : SystemCall)
    (k' : Kernel) : DescriptorEvent :=
  ⟨.call m env call, k'⟩

theorem not_opens_of_ne (hcall : call ≠ .open) (name : CString) :
    ¬(callEvent m env call k').OpensNamed id name := by
  rintro ⟨m', env', -, -, -, haction, -⟩
  cases haction
  exact hcall rfl

theorem not_frees_of_ne (hcall : call ≠ .close) :
    ¬(callEvent m env call k').Frees id := by
  rintro ⟨m', env', haction, -⟩
  cases haction
  exact hcall rfl

theorem not_opens_of_failed
    (hid : id < maxFileOpen) (hresult : k'.register 2 = -1)
    (name : CString) : ¬(callEvent m env call k').OpensNamed id name := by
  rintro ⟨m', env', -, -, -, -, -, -, -, hgiven, -⟩
  exact ofNat_ne_neg_one hid (hgiven.symm.trans hresult)

theorem not_frees_of_failed (hresult : k'.register 2 = -1) :
    ¬(callEvent m env call k').Frees id := by
  rintro ⟨m', env', -, -, hzero⟩
  have hminus : (0 : BitVec 32) = -1 := hzero.symm.trans hresult
  exact absurd hminus (by decide)

/-- The slot that `Open` has taken. -/
theorem slotHistory_of_opened
    {filename : List (BitVec 8)} {m' : Machine} {f : Pointer OpenFile}
    {h h' : Host} {fs : FileSystem}
    (hfree : SlotHistory start trace id .null) (hlow : 2 ≤ id)
    (hname : m.user2System (m.readRegister 4) maxFileLength =
      .ok (filename, m'))
    (hopened : FileSystem.openTyped h (cString filename)
      (m.readRegister 5).toInt id env.answer = .ok (f, h'))
    (hmode : m.AsksForId .open) (hgiven : k'.register 2 = BitVec.ofNat 32 id)
    (hslot : k'.fileSystem =
      fs.setSlot id (.object (.ofFile (Kernel.freeName f)))) :
    SlotHistory start (trace ++ [callEvent m env .open k']) id
      ((fs.setSlot id (.object (.ofFile (Kernel.freeName f)))).fileSlot
        id) := by
  have hnone : ∀ name, ¬OpenUnder start trace id name := by
    cases hfree with
    | free hnone => exact hnone
  have hafter : k'.fileSystem.fileSlot id =
      .object (.ofFile (Kernel.freeName f)) := by
    rw [hslot]
    exact FileSystem.fileSlot_setSlot_self _ _
  rw [FileSystem.fileSlot_setSlot_self]
  obtain ⟨rfl, -, -⟩ | ⟨inode, rfl, -⟩ := openTyped_ok hopened
  · apply SlotHistory.failed
    intro name hopen
    obtain hopens | ⟨hbefore, -⟩ := StepSystem.lasting_append.mp hopen
    · obtain ⟨-, -, -, -, g, -, -, -, -, -, hfile⟩ := hopens
      cases hafter.symm.trans hfile
    · exact hnone name hbefore
  · have hunnamed : ¬id < reverseFD := not_lt.mpr hlow
    apply SlotHistory.file
    · intro name
      constructor
      · intro hopen
        obtain hopens | ⟨hbefore, -⟩ := StepSystem.lasting_append.mp hopen
        · obtain ⟨m₁, env₁, filename₁, m₂, g, haction, -, hcopy, rfl, -⟩ :=
            hopens
          cases haction
          cases hname.symm.trans hcopy
          rfl
        · exact (hnone name hbefore).elim
      · rintro rfl
        exact StepSystem.lasting_append.mpr (.inl ⟨m, env, filename, m', _,
          rfl, hmode, hname, rfl, hgiven, hafter⟩)
    · rw [if_neg hunnamed]

/-- The slots after a call on files. -/
theorem slotHistory_of_call
    (hbefore : ∀ id < maxFileOpen,
      SlotHistory start trace id (k.fileSystem.fileSlot id))
    (hfiles : call ∈ fileCalls) (hcall : k.callFrom m env call = .ok k')
    (hid : id < maxFileOpen) :
    SlotHistory start (trace ++ [callEvent m env call k']) id
      (k'.fileSystem.fileSlot id) := by
  have hnow := hbefore id hid
  obtain ⟨fs, h, result, hreturned, heffect⟩ := Kernel.ends_of_handle hcall
  have hfs := hreturned.fileSystem
  rw [hfs]
  cases heffect with
  | refused =>
      exact hnow.keep (not_opens_of_failed hid hreturned.register_two)
        (not_frees_of_failed hreturned.register_two)
  | answered hkeeps =>
      have hopen : call ≠ .open := by
        rintro rfl
        exact absurd hkeeps (by decide)
      have hclose : call ≠ .close := by
        rintro rfl
        exact absurd hkeeps (by decide)
      exact hnow.keep (not_opens_of_ne hopen) (not_frees_of_ne hclose)
  | console hread hreadOnly hwrite =>
      refine hnow.keep ?_ (not_frees_of_ne (by decide))
      rintro name ⟨m', env', filename, m'', f, haction, hmode, -⟩
      cases haction
      obtain hsocket | ⟨-, hmode | hmode | hmode⟩ := hmode
      · cases hsocket
      · exact hread hmode
      · exact hreadOnly hmode
      · exact hwrite hmode
  | created =>
      exact hnow.keep (not_opens_of_ne (by decide)) (not_frees_of_ne (by decide))
  | removed =>
      exact hnow.keep (not_opens_of_ne (by decide)) (not_frees_of_ne (by decide))
  | @opened filename m' id' f h hname htaken hopened hmode =>
      obtain ⟨hlow, hhigh, hnull⟩ := FileSystem.findFreeSlot_spec htaken
      have hgiven : k'.register 2 = BitVec.ofNat 32 id' := by
        rw [hreturned.register_two, BitVec.ofInt_natCast]
      by_cases heq : id = id'
      · subst heq
        have hfresh : SlotHistory start trace id .null := hnull ▸ hnow
        exact slotHistory_of_opened hfresh hlow hname hopened
          (.inr ⟨rfl, hmode⟩) hgiven hfs
      · rw [FileSystem.fileSlot_setSlot_of_ne heq]
        refine hnow.keep ?_ (not_frees_of_ne (by decide))
        rintro name ⟨-, -, -, -, -, -, -, -, -, hresult, -⟩
        exact heq ((ofNat_inj hid hhigh).mp (hresult.symm.trans hgiven))
  | @closed slot h hlow hhigh hslot htype hdelete =>
      have hargument : m.readRegister 4 =
          BitVec.ofNat 32 (m.readRegister 4).toInt.toNat := by
        have hlow' : 2 ≤ (m.readRegister 4).toInt := hlow
        rw [← BitVec.ofInt_natCast, Int.toNat_of_nonneg (by omega),
          BitVec.ofInt_toInt]
      by_cases heq : id = (m.readRegister 4).toInt.toNat
      · have hclosed : (k.fileSystem.setSlot (m.readRegister 4).toInt.toNat
            .null).fileSlot id = .null := by
          rw [← heq]
          exact FileSystem.fileSlot_setSlot_self _ _
        refine Eq.mpr (congrArg _ hclosed) (slotHistory_of_frees ?_)
        rw [← heq] at hargument
        exact ⟨m, env, rfl, hargument, hreturned.register_two⟩
      · have hother : (k.fileSystem.setSlot (m.readRegister 4).toInt.toNat
            .null).fileSlot id = k.fileSystem.fileSlot id :=
          FileSystem.fileSlot_setSlot_of_ne heq _
        refine Eq.mpr (congrArg _ hother)
          (hnow.keep (not_opens_of_ne (by decide)) ?_)
        rintro ⟨m', env', haction, hid', -⟩
        cases haction
        have hhigh' : (m.readRegister 4).toInt < maxFileOpen := hhigh
        exact heq ((ofNat_inj hid (by omega)).mp (hid'.symm.trans hargument))
  | @socketClosed _ slot h hclose hlow hhigh hslot =>
      obtain ⟨-, htype⟩ | rfl := hclose
      · have hlow' : 2 ≤ (m.readRegister 4).toInt := hlow
        have hhigh' : (m.readRegister 4).toInt < maxFileOpen := hhigh
        have hsocket := hbefore (m.readRegister 4).toInt.toNat (by omega)
        have hslot' : k.fileSystem.fileSlot (m.readRegister 4).toInt.toNat =
            .object slot := hslot
        rw [hslot'] at hsocket
        cases hsocket with
        | failed => cases htype
        | file => cases htype
      · exact absurd hfiles (by decide)
  | @moved _ id' slot f position h result hmoves hslot hopen =>
      have hother : call ≠ .open ∧ call ≠ .close := by
        obtain rfl | rfl | rfl := hmoves
        · exact ⟨by decide, by decide⟩
        · exact ⟨by decide, by decide⟩
        · exact ⟨by decide, by decide⟩
      have hmoved := hnow.moveSlot hslot hopen position
      exact hmoved.keep (not_opens_of_ne hother.1) (not_frees_of_ne hother.2)
  | @written slot f position bytes hoccupied hslot hopen =>
      have hmoved := hnow.moveSlot hslot hopen
        (position.offset + bytes.length)
      exact hmoved.keep (not_opens_of_ne (by decide))
        (not_frees_of_ne (by decide))
  | socketOpened => exact absurd hfiles (by decide)
  | notExecuted => exact absurd hfiles (by decide)
  | executed => exact absurd hfiles (by decide)

end Step

section Runs

variable {start k : Kernel} {trace : List DescriptorEvent}
variable {h : Host} {stdin stdout : HostAnswer}

theorem slotHistory_start
    (hnew : FileSystem.new h stdin stdout =
      .ok (start.fileSystem, start.host)) (id : ℕ) :
    SlotHistory start [] id (start.fileSystem.fileSlot id) := by
  obtain ⟨h₂, stdinName, stdoutName, -, -, hfs, -⟩ := FileSystem.new_ok hnew
  have hopen : ∀ name, OpenUnder start [] id name ↔ start.NamedAt id name :=
    fun name => StepSystem.lasting_nil
  have hconsole : ∀ f name, f.fName = .object name → id < reverseFD →
      start.fileSystem.fileSlot id = .object (.ofFile (.object f)) →
      SlotHistory start [] id (.object (.ofFile (.object f))) := by
    intro f name hname hid hslot
    apply SlotHistory.file
    · intro name'
      rw [hopen]
      constructor
      · rintro ⟨f', hslot', hname'⟩
        cases hslot.symm.trans hslot'
        cases hname.symm.trans hname'
        rfl
      · rintro rfl
        exact ⟨f, hslot, hname⟩
    · rw [if_pos hid, hname]
  obtain rfl | rfl | ⟨hne0, hne1⟩ : id = 0 ∨ id = 1 ∨ id ≠ 0 ∧ id ≠ 1 := by
    omega
  · have hslot : start.fileSystem.fileSlot 0 = .object (.ofFile (.object
        ⟨2, .object stdinName, h₂.files.length, 0, 0⟩)) := by
      rw [hfs]
      rfl
    rw [hslot]
    exact hconsole _ stdinName rfl (by decide) hslot
  · have hslot : start.fileSystem.fileSlot 1 = .object (.ofFile (.object
        ⟨3, .object stdoutName, h₂.files.length + 1, 0, 1⟩)) := by
      rw [hfs]
      rfl
    rw [hslot]
    exact hconsole _ stdoutName rfl (by decide) hslot
  · have hslot : start.fileSystem.fileSlot id = .null := by
      rw [hfs, FileSystem.fileSlot_setSlot_of_ne hne1,
        FileSystem.fileSlot_setSlot_of_ne hne0]
    rw [hslot]
    apply SlotHistory.free
    intro name hnamed
    obtain ⟨f, hslot', -⟩ := (hopen name).mp hnamed
    cases hslot.symm.trans hslot'

/-- In a run of calls on files each slot holds what its history tells. -/
theorem slotHistory_of_run
    (hnew : FileSystem.new h stdin stdout =
      .ok (start.fileSystem, start.host))
    (hrun : (descriptorSystem start).Run onFiles trace k) :
    ∀ id < maxFileOpen,
      SlotHistory start trace id (k.fileSystem.fileSlot id) := by
  refine hrun.invariant (fun trace k => ∀ id < maxFileOpen,
    SlotHistory start trace id (k.fileSystem.fileSlot id)) ?_ ?_
  · exact fun id _ => slotHistory_start hnew id
  · intro trace s s' action event _ hbefore hguard hmove
    cases action with
    | call m env call =>
        obtain ⟨k', hcall, hresult⟩ := ok_of_bind hmove
        cases hresult
        exact fun id hid => slotHistory_of_call hbefore hguard hcall hid
    | load => exact hguard.elim

end Runs

/-! ## `Remove` -/

/-- The name that `Remove` finds for an open slot: that of the console's file,
or what the freed memory holds. -/
def NameShown (start : Kernel) (trace : List DescriptorEvent)
    (env : Environment) (name : CString) (id : ℕ) : Prop :=
  ∃ opened, OpenUnder start trace id opened ∧
    (if id < reverseFD then opened else env.freedName id) = name

/-- The name is that of an open file. -/
def NameOpen (start : Kernel) (trace : List DescriptorEvent)
    (name : CString) : Prop :=
  ∃ id < maxFileOpen, OpenUnder start trace id name

/-- `Remove` refuses the name of an open file, and unlinks any other file that
exists. -/
structure RemovesClosed (start : Kernel) (trace : List DescriptorEvent)
    (k : Kernel) (name : CString) (k' : Kernel) : Prop where
  refused : NameOpen start trace name →
    k'.register 2 = -1 ∧ k'.host.directory = k.host.directory
  unlinked : ¬NameOpen start trace name →
    k'.register 2 = (if k.host.directory name = none then -1 else 0) ∧
      k'.host.directory = Function.update k.host.directory name none

/-- The search of `Remove` follows no `NULL` pointer, and the names it finds
tell which files are open. -/
structure SearchSound (start : Kernel) (trace : List DescriptorEvent)
    (env : Environment) (k : Kernel) (name : CString) : Prop where
  reached : ∀ i < maxFileOpen,
    k.fileSystem.fileSlot i = .object (.ofFile .null) →
      ∃ j < i, NameShown start trace env name j
  sound : k.host.directory name = none ∨
    ((∃ j < maxFileOpen, NameShown start trace env name j) ↔
      NameOpen start trace name)

section Remove

variable {start k : Kernel} {trace : List DescriptorEvent}
variable {env : Environment} {name : CString}

/-- The name in the slot of a file that has been opened. -/
theorem slotName_opened
    {id : ℕ} {f : OpenFile} {opened : CString}
    (hslot : k.fileSystem.fileSlot id = .object (.ofFile (.object f)))
    (hname : f.fName =
      if id < reverseFD then .object opened else .dangling) :
    k.slotName env id =
      .ok (if id < reverseFD then opened else env.freedName id) := by
  simp only [Kernel.slotName, hslot, Pointer.deref_object, ok_bind,
    FileSlot.ofFile, hname]
  split_ifs
  · rfl
  · rfl

theorem searchedAt_of_history
    {id : ℕ} (hhistory : SlotHistory start trace id (k.fileSystem.fileSlot id)) :
    Kernel.SearchedAt env k name
      (fun i => k.fileSystem.fileSlot i = .object (.ofFile .null))
      (NameShown start trace env name) id := by
  generalize hslot : k.fileSystem.fileSlot id = slot at hhistory
  cases hhistory with
  | free hnone =>
      apply Kernel.SearchedAt.passed
      · rw [hslot]
        rfl
      · simp [hslot]
      · rintro ⟨opened, hopen, -⟩
        exact hnone opened hopen
  | failed hnone =>
      apply Kernel.SearchedAt.faults
      · simp [hslot, Pointer.isNull]
      · rw [Kernel.slotName, hslot]
        rfl
      · exact hslot
      · rintro ⟨opened, hopen, -⟩
        exact hnone opened hopen
  | @file f opened hone hname =>
      have hshows : k.slotName env id =
          .ok (if id < reverseFD then opened else env.freedName id) :=
        slotName_opened hslot hname
      refine Kernel.SearchedAt.compared ?_ hshows ?_ ?_
      · simp [hslot, Pointer.isNull]
      · simp [hslot, FileSlot.ofFile]
      · constructor
        · rintro ⟨other, hopen, hshown⟩
          rw [(hone other).mp hopen] at hshown
          exact hshown
        · intro hshown
          exact ⟨opened, (hone opened).mpr rfl, hshown⟩

/-- A `Remove` that has found the name. -/
theorem removesClosed_refused_iff {k' : Kernel}
    (hresult : k'.register 2 = -1) (hhost : k'.host = k.host) :
    RemovesClosed start trace k name k' ↔
      k.host.directory name = none ∨ NameOpen start trace name := by
  constructor
  · intro hremoves
    by_contra hneither
    obtain ⟨hexists, hclosed⟩ := not_or.mp hneither
    have hzero := (hremoves.unlinked hclosed).1
    rw [hresult, if_neg hexists] at hzero
    exact absurd hzero (by decide)
  · intro heither
    constructor
    case refused =>
      intro _
      exact ⟨hresult, congrArg Host.directory hhost⟩
    case unlinked =>
      intro hclosed
      have hmissing := heither.resolve_right hclosed
      rw [if_pos hmissing, hhost]
      refine ⟨hresult, ?_⟩
      rw [← hmissing, Function.update_eq_self]

/-- A `Remove` that has not found the name. -/
theorem removesClosed_removed_iff {k' : Kernel}
    (hresult : k'.register 2 =
      (if k.host.directory name = none then -1 else 0))
    (hhost : k'.host.directory =
      Function.update k.host.directory name none) :
    RemovesClosed start trace k name k' ↔
      k.host.directory name = none ∨ ¬NameOpen start trace name := by
  constructor
  · intro hremoves
    by_contra hneither
    obtain ⟨hexists, hopen⟩ := not_or.mp hneither
    have hminus := (hremoves.refused (not_not.mp hopen)).1
    rw [hresult, if_neg hexists] at hminus
    exact absurd hminus (by decide)
  · intro heither
    constructor
    case refused =>
      intro hopen
      have hmissing := heither.resolve_right (not_not.mpr hopen)
      rw [hresult, if_pos hmissing, hhost]
      refine ⟨rfl, ?_⟩
      rw [← hmissing, Function.update_eq_self]
    case unlinked => exact fun _ => ⟨hresult, hhost⟩

theorem remove_eq (h : Host) (name : CString) :
    ((FileSystem.remove h name).1 = true ↔ h.directory name ≠ none) ∧
      (FileSystem.remove h name).2.directory =
        Function.update h.directory name none := by
  unfold FileSystem.remove Host.unlink
  cases hfound : h.directory name with
  | none =>
      refine ⟨by simp, ?_⟩
      exact (hfound ▸ Function.update_eq_self name h.directory).symm
  | some inode => exact ⟨by simp, rfl⟩

/-- In every state of a run of calls on files, `Remove` refuses the open files
and removes the others exactly when its search is sound. -/
theorem remove_respects_iff
    {h : Host} {stdin stdout : HostAnswer} {m m' : Machine}
    {filename : List (BitVec 8)}
    (hnew : FileSystem.new h stdin stdout =
      .ok (start.fileSystem, start.host))
    (hrun : (descriptorSystem start).Run onFiles trace k)
    (hcopy : m.user2System (m.readRegister 4) (maxFileLength + 1) =
      .ok (filename, m')) :
    (∃ k', k.callFrom m env .remove = .ok k' ∧
        RemovesClosed start trace k (cString filename) k') ↔
      SearchSound start trace env k (cString filename) := by
  have hhistory := slotHistory_of_run hnew hrun
  have hcopied : ({ k with machine := m } : Kernel).user2System
      (m.readRegister 4) (maxFileLength + 1) = _ :=
    Kernel.user2System_eq hcopy
  have hremove := @Kernel.remove_copied env _ _ _ hcopied
  obtain ⟨hfinds, hfaults⟩ := @Kernel.nameInUse_search env
    { k with machine := m } (cString filename) _ _ 0 maxFileOpen
      fun id _ hid => searchedAt_of_history (hhistory id (by omega))
  rw [← List.range_eq_range'] at hfinds hfaults
  rw [Kernel.callFrom, hremove]
  by_cases hreached : Kernel.Preceded
      (fun i => k.fileSystem.fileSlot i = .object (.ofFile .null))
      (NameShown start trace env (cString filename)) 0 maxFileOpen
  · obtain ⟨inUse, hiff, hfound⟩ := hfinds hreached
    have hshown : inUse = true ↔
        ∃ j < maxFileOpen, NameShown start trace env (cString filename) j := by
      simpa [Kernel.Among] using hiff
    have hsound : SearchSound start trace env k (cString filename) ↔
        k.host.directory (cString filename) = none ∨
          (inUse = true ↔ NameOpen start trace (cString filename)) := by
      rw [hshown]
      refine ⟨fun h => h.sound, fun h => ⟨?_, h⟩⟩
      intro i hi hnull
      obtain ⟨j, -, hlt, hj⟩ := hreached i (Nat.zero_le _) (by omega) hnull
      exact ⟨j, hlt, hj⟩
    rw [hfound, hsound]
    simp only [ok_bind, Except.ok.injEq, exists_eq_left']
    cases inUse with
    | true =>
        simp only [if_true, true_iff]
        exact removesClosed_refused_iff rfl rfl
    | false =>
        obtain ⟨hremoved, hdirectory⟩ := remove_eq k.host (cString filename)
        simp only [Bool.false_eq_true, if_false, false_iff]
        refine removesClosed_removed_iff ?_ hdirectory
        rw [Kernel.register_two_returns]
        by_cases hmissing : k.host.directory (cString filename) = none
        · rw [if_pos hmissing, if_neg (hremoved.not.mpr (not_not.mpr hmissing))]
          rfl
        · rw [if_neg hmissing, if_pos (hremoved.mpr hmissing)]
          rfl
  · rw [hfaults hreached]
    apply iff_of_false
    · rintro ⟨k', hcall, -⟩
      cases hcall
    · intro hsound
      apply hreached
      intro i _ hi hnull
      obtain ⟨j, hlt, hj⟩ := hsound.reached i (by omega) hnull
      exact ⟨j, Nat.zero_le _, hlt, hj⟩

end Remove

/-- The files `a` and `b` are created. -/
def createTwo : List DescriptorAction :=
  [.call (callerWith .create 0 [97, 0]) Kernel.willing .create,
    .call (callerWith .create 0 [98, 0]) Kernel.willing .create]

/-- The program opens the file `a`. -/
def openFirst (k : Kernel) : Except Fault Kernel :=
  k.callFrom (callerWith .open 0 [97, 0]) Kernel.willing .open

/-- `Remove` of a name while the freed memory holds `shown`. -/
def removeShown (name shown : CString) (k : Kernel) : Except Fault Kernel :=
  k.callFrom (callerWith .remove 0 (name ++ [0]))
    { Kernel.willing with freedName := fun _ => shown } .remove

/-- `a` has been opened in slot 2, and the console has slots 0 and 1; what
`Remove` returns for some names and memories. -/
def firstOpened (_ : List DescriptorEvent) (k : Kernel) : Bool :=
  match openFirst k with
  | .error _ => false
  | .ok k =>
      k.register 2 = 2 ∧ k.fileSystem.fileSlot 2 =
        .object (.ofFile (.object ⟨0, .dangling, 6, 0, 2⟩)) ∧
      (∀ id < maxFileOpen, 2 < id → k.fileSystem.fileSlot id = .null) ∧
      (∀ id < reverseFD, k.slotName Kernel.willing id ≠ .ok [98]) ∧
      (∀ id < maxFileOpen, k.fileSystem.fileSlot id ≠
        .object (.ofFile .null)) ∧
      (removeShown [97] [] k).map (·.register 2) = .ok 0 ∧
      (removeShown [98] [98] k).map (·.register 2) = .ok (-1) ∧
      k.host.directory [98] ≠ none

theorem not_nameOpen_second
    {trace : List DescriptorEvent} {k : Kernel}
    (hrun : (descriptorSystem freshKernel).Run onFiles trace k)
    (hfirst : OpenUnder freshKernel trace 2 [97])
    (hothers : ∀ id < maxFileOpen, 2 < id → k.fileSystem.fileSlot id = .null)
    (hconsole : ∀ id < reverseFD, k.slotName Kernel.willing id ≠ .ok [98]) :
    ¬NameOpen freshKernel trace [98] := by
  rintro ⟨id, hid, hopen⟩
  obtain ⟨f, hslot, hname, honly⟩ :=
    (slotHistory_of_run freshKernel_new hrun id hid).named hopen
  obtain hlow | rfl | hhigh : id < 2 ∨ id = 2 ∨ 2 < id := by omega
  · have hconsoleId : id < reverseFD := hlow
    apply hconsole id hlow
    rw [slotName_opened hslot hname, if_pos hconsoleId]
  · cases honly [97] hfirst
  · cases (hothers id hid hhigh).symm.trans hslot

theorem exists_firstOpened :
    ∃ trace k, (descriptorSystem freshKernel).Run onFiles trace k ∧
      OpenUnder freshKernel trace 2 [97] ∧ ¬NameOpen freshKernel trace [98] ∧
      (∀ id < maxFileOpen, k.fileSystem.fileSlot id ≠
        .object (.ofFile .null)) ∧
      (removeShown [97] [] k).map (·.register 2) = .ok 0 ∧
      (removeShown [98] [98] k).map (·.register 2) = .ok (-1) ∧
      k.host.directory [98] ≠ none := by
  have hreplays : (descriptorSystem freshKernel).Replays onFiles createTwo
      firstOpened = true := by
    decide +kernel
  obtain ⟨trace, k, hrun, hopened⟩ :=
    StepSystem.exists_run_of_replays hreplays
  unfold firstOpened at hopened
  split at hopened
  next => cases hopened
  next k' hcall =>
    obtain ⟨hgiven, hslot, hothers, hconsole, hremoves⟩ :=
      of_decide_eq_true hopened
    have hstep : (descriptorSystem freshKernel).step k
        (.call (callerWith .open 0 [97, 0]) Kernel.willing .open) =
          .ok (k', callEvent (callerWith .open 0 [97, 0]) Kernel.willing
            .open k') := by
      change (openFirst k >>= fun k => pure (k, _)) = _
      rw [hcall]
      rfl
    have hfiles : onFiles trace k
        (.call (callerWith .open 0 [97, 0]) Kernel.willing .open) := by
      change SystemCall.open ∈ fileCalls
      decide
    have hafter := StepSystem.Run.step hrun hfiles hstep
    have hfirst : OpenUnder freshKernel (trace ++ [callEvent
        (callerWith .open 0 [97, 0]) Kernel.willing .open k']) 2 [97] :=
      StepSystem.lasting_append.mpr (.inl ⟨_, _, _, _, _, rfl,
        .inr ⟨rfl, by decide⟩, rfl, rfl, hgiven, hslot⟩)
    exact ⟨_, k', hafter, hfirst,
      not_nameOpen_second hafter hfirst hothers hconsole, hremoves⟩

theorem removeShown_copy (name : CString) (hname : name ∈ [[97], [98]]) :
    ∃ filename m', (callerWith .remove 0 (name ++ [0])).user2System
      ((callerWith .remove 0 (name ++ [0])).readRegister 4)
      (maxFileLength + 1) = .ok (filename, m') ∧ cString filename = name := by
  simp only [List.mem_cons, List.not_mem_nil, or_false] at hname
  obtain rfl | rfl := hname
  · exact ⟨_, _, rfl, rfl⟩
  · exact ⟨_, _, rfl, rfl⟩

/-- The freed memory holds the name still. -/
theorem remove_respects_iff_first :
    ∃ trace k k', (descriptorSystem freshKernel).Run onFiles trace k ∧
      NameOpen freshKernel trace [97] ∧ removeShown [97] [97] k = .ok k' ∧
      RemovesClosed freshKernel trace k [97] k' := by
  obtain ⟨trace, k, hrun, hfirst, -, hfiles, -⟩ := exists_firstOpened
  obtain ⟨filename, m', hcopy, hname⟩ := removeShown_copy [97] (by decide)
  have hiff := @remove_respects_iff _ _ _
    { Kernel.willing with freedName := fun _ => [97] } _ _ _ _ _ _
    freshKernel_new hrun hcopy
  rw [hname] at hiff
  have hopen : NameOpen freshKernel trace [97] := ⟨2, by decide, hfirst⟩
  obtain ⟨k', hcall, hremoves⟩ := hiff.mpr
    ⟨fun i hi hnull => (hfiles i hi hnull).elim,
      .inr ⟨fun _ => hopen, fun _ => ⟨2, by decide, [97], hfirst, rfl⟩⟩⟩
  exact ⟨trace, k, k', hrun, hopen, hcall, hremoves⟩

/-- The open file `a` is unlinked when the freed memory holds nothing; and
`b`, which is not open, is refused when it holds `b`. -/
theorem remove_unlinks_open :
    ∃ trace k a b, (descriptorSystem freshKernel).Run onFiles trace k ∧
      removeShown [97] [] k = .ok a ∧
      ¬RemovesClosed freshKernel trace k [97] a ∧
      removeShown [98] [98] k = .ok b ∧
      ¬RemovesClosed freshKernel trace k [98] b := by
  obtain ⟨trace, k, hrun, hfirst, hsecond, -, hzero, hminus, hexists⟩ :=
    exists_firstOpened
  cases ha : removeShown [97] [] k with
  | error fault =>
      rw [ha] at hzero
      cases hzero
  | ok a =>
      cases hb : removeShown [98] [98] k with
      | error fault =>
          rw [hb] at hminus
          cases hminus
      | ok b =>
          rw [ha] at hzero
          rw [hb] at hminus
          refine ⟨trace, k, a, b, hrun, ha, ?_, hb, ?_⟩
          · intro hremoves
            have hrefused := (hremoves.refused ⟨2, by decide, hfirst⟩).1
            have hreturned : a.register 2 = 0 := Except.ok.inj hzero
            rw [hreturned] at hrefused
            exact absurd hrefused (by decide)
          · intro hremoves
            have hunlinked := (hremoves.unlinked hsecond).1
            have hreturned : b.register 2 = -1 := Except.ok.inj hminus
            rw [hreturned, if_neg hexists] at hunlinked
            exact absurd hunlinked (by decide)

end Nachos
