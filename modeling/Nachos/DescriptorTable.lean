import Nachos.FileNames
import Nachos.Library.StepSystem
import Nachos.LoadFailure

/-!
# Runs on the descriptor table

The table lives through any sequence of system calls and of `Load`, which
takes a slot for the executable and frees it again.  Slots are taken where
`FindFreeSlot` finds one, and freed by `Close` only; the slots of the console
keep what the constructor has put into them.
-/

namespace Nachos

open Library

/-! ## Load -/

namespace AddrSpace

theorem copyByte_fileSystem
    {space : AddrSpace} {executable : OpenFile} {segment : Segment} {i : ℕ}
    {k k' : Kernel} (hcopy : space.copyByte executable segment i k = .ok k') :
    k'.fileSystem = k.fileSystem := by
  rcases ok_of_bind hcopy with ⟨paddr, -, hcopy⟩
  rcases ok_of_bind hcopy with ⟨⟨bytes, host⟩, -, hcopy⟩
  simp only at hcopy
  split at hcopy
  · rcases ok_of_bind hcopy with ⟨machine, -, hresult⟩
    cases hresult
    rfl
  · cases hcopy
    rfl

theorem zeroByte_fileSystem
    {space : AddrSpace} {segment : Segment} {i : ℕ} {k k' : Kernel}
    (hzero : space.zeroByte segment i k = .ok k') :
    k'.fileSystem = k.fileSystem := by
  rcases ok_of_bind hzero with ⟨paddr, -, hzero⟩
  rcases ok_of_bind hzero with ⟨machine, -, hresult⟩
  cases hresult
  rfl

theorem loop_fileSystem
    {body : ℕ → Kernel → Except Fault Kernel}
    (hround : ∀ i k k', body i k = .ok k' → k'.fileSystem = k.fileSystem)
    {start count : ℕ} {k k' : Kernel}
    (hloop : countedLoop body start count k = .ok k') :
    k'.fileSystem = k.fileSystem :=
  countedLoop_invariant (fun _ s => s.fileSystem = k.fileSystem) rfl
    (fun i s s' _ _ hbefore hbody => (hround i s s' hbody).trans hbefore) hloop

theorem copySegments_fileSystem
    {space : AddrSpace} {executable : OpenFile} {noffH : NoffHeader}
    {k k' : Kernel}
    (hcopy : space.copySegments executable noffH k = .ok k') :
    k'.fileSystem = k.fileSystem := by
  have hbyte := fun segment i (k k' : Kernel) =>
    @copyByte_fileSystem space executable segment i k k'
  rcases ok_of_bind hcopy with ⟨k₁, hcode, hcopy⟩
  rcases ok_of_bind hcopy with ⟨k₂, hzero, hcopy⟩
  rcases ok_of_bind hcopy with ⟨k₃, hdata, hcopy⟩
  have hbefore : k₃.fileSystem = k.fileSystem := by
    rw [loop_fileSystem (hbyte _) hdata,
      loop_fileSystem (fun _ _ _ => zeroByte_fileSystem) hzero,
      loop_fileSystem (hbyte _) hcode]
  split at hcopy
  · rw [loop_fileSystem (hbyte _) hcopy, hbefore]
  · cases hcopy
    exact hbefore

end AddrSpace

theorem FileSystem.closeFile_taken
    {fs fs' : FileSystem} {h h' : Host} {id : ℕ} {result : ℤ}
    {slot : FileSlot} (hlow : 2 ≤ id) (hhigh : id < maxFileOpen)
    (hclose : (fs.setSlot id (.object slot)).closeFile h id =
      .ok (result, fs', h')) :
    fs' = fs.setSlot id .null := by
  unfold FileSystem.closeFile at hclose
  have hrange : ¬((id : ℤ) < 2 ∨ (id : ℤ) ≥ maxFileOpen) := by omega
  have hslot : (fs.setSlot id (.object slot)).fileSlot (id : ℤ).toNat =
      .object slot := by
    rw [Int.toNat_natCast]
    exact Function.update_self _ _ _
  rw [if_neg hrange, if_neg (by rw [hslot]; simp [Pointer.isNull]), hslot]
    at hclose
  rcases ok_of_bind hclose with ⟨slot', -, hclose⟩
  rcases ok_of_bind hclose with ⟨host, -, hresult⟩
  cases hresult
  rw [Int.toNat_natCast, FileSystem.setSlot_setSlot]

/-- Whether a program was loaded or not, the table is as before. -/
theorem AddrSpace.load_fileSystem
    {space space' : AddrSpace} {k k' : Kernel} {garbage : LoadGarbage}
    {fileName : CString} {argc : ℤ} {argv : List CString} {loaded : Bool}
    (hload : space.load k garbage fileName argc argv =
      .ok (loaded, space', k')) :
    k'.fileSystem = k.fileSystem := by
  unfold AddrSpace.load FileSystem.openNamed at hload
  cases hfound : k.host.openForReadWrite fileName with
  | none =>
      simp only [hfound] at hload
      cases hload
      rfl
  | some opened =>
      cases hfree : k.fileSystem.findFreeSlot with
      | none =>
          simp only [hfound, hfree] at hload
          cases hload
          rfl
      | some id =>
          rcases FileSystem.findFreeSlot_spec hfree with
            ⟨hlow, hhigh, hnull⟩
          simp only [hfound, hfree] at hload
          rcases ok_of_bind hload with ⟨⟨noffH, host⟩, -, hload⟩
          rcases ok_of_bind hload with ⟨-, -, hload⟩
          rcases ok_of_bind hload with ⟨⟨allocated, machine⟩, -, hload⟩
          rcases ok_of_bind hload with ⟨-, -, hload⟩
          rcases ok_of_bind hload with ⟨copied, hsegments, hload⟩
          rcases ok_of_bind hload with ⟨⟨loaded, machine'⟩, -, hload⟩
          rcases ok_of_bind hload with ⟨⟨closed, fs, host'⟩, hclose, hload⟩
          cases hload
          rw [AddrSpace.copySegments_fileSystem hsegments] at hclose
          have htable := FileSystem.closeFile_taken hlow hhigh hclose
          exact htable.trans (FileSystem.setSlot_self hnull)

/-! ## The moves of the table -/

/-- The ways in which a call changes the table. -/
inductive FileSystem.Move (fs : FileSystem) : FileSystem → Prop
  | stay : Move fs fs
  | take {id : ℕ} {slot : FileSlot} :
      fs.findFreeSlot = some id → Move fs (fs.setSlot id (.object slot))
  | seek {id : ℕ} {slot : FileSlot} {f : OpenFile} {position : ℤ} :
      fs.fileSlot id = .object slot → slot.fileOpen = .object f →
        Move fs (fs.setSlot id (.object { slot with
          fileOpen := .object { f with currentOffset := position } }))
  /-- A socket that is closed leaves its pointer in the slot. -/
  | leave {id : ℕ} :
      2 ≤ id → Move fs (fs.setSlot id .dangling)

/-- The calls that return an identifier of the table. -/
def Machine.AsksForId (m : Machine) (call : SystemCall) : Prop :=
  call = .socketTCPOpen ∨ call = .open ∧ ((m.readRegister 5).toInt = 0 ∨
    (m.readRegister 5).toInt = 1 ∨ (m.readRegister 5).toInt = 4)

namespace Kernel

variable {env : Environment} {k k' : Kernel} {call : SystemCall}
variable {fs : FileSystem} {h : Host} {result : Option ℤ}

/-- Only `Close` puts a `NULL` into the table. -/
theorem Effect.move (heffect : k.Effect env call fs h result) :
    k.fileSystem.Move fs ∨
      call = .close ∧ result = some 0 ∧ 2 ≤ (k.register 4).toInt ∧
        fs = k.fileSystem.setSlot (k.register 4).toInt.toNat .null := by
  cases heffect with
  | refused => exact .inl .stay
  | answered _ _ => exact .inl .stay
  | console _ _ _ => exact .inl .stay
  | created _ _ => exact .inl .stay
  | opened _ hfree _ _ => exact .inl (.take hfree)
  | closed hlow _ _ _ _ => exact .inr ⟨rfl, rfl, hlow, rfl⟩
  | socketClosed _ hlow _ _ => exact .inl (.leave (by omega))
  | moved _ hslot hopen _ => exact .inl (.seek hslot hopen)
  | written _ hslot hopen _ _ _ => exact .inl (.seek hslot hopen)
  | removed _ => exact .inl .stay
  | socketOpened hfree _ => exact .inl (.take hfree)
  | notExecuted _ _ => exact .inl .stay
  | executed hfree => exact .inl (.take hfree)

theorem Effect.returnsId
    (heffect : k.Effect env call fs h result) (hid : k.machine.AsksForId call) :
    result = some (-1) ∨ ∃ (id : ℕ) (slot : FileSlot), result = some id ∧
      k.fileSystem.findFreeSlot = some id ∧
      fs = k.fileSystem.setSlot id (.object slot) := by
  cases heffect with
  | refused => exact .inl rfl
  | answered hkeeps _ =>
      rcases hid with rfl | ⟨rfl, -⟩
      · exact absurd hkeeps (by decide)
      · exact absurd hkeeps (by decide)
  | console h0 h1 h4 =>
      rcases hid with hcall | ⟨-, hmode⟩
      · cases hcall
      · rcases hmode with h | h | h
        · exact (h0 h).elim
        · exact (h1 h).elim
        · exact (h4 h).elim
  | opened _ hfree _ _ => exact .inr ⟨_, _, rfl, hfree, rfl⟩
  | socketOpened hfree _ => exact .inr ⟨_, _, rfl, hfree, rfl⟩
  | socketClosed hcall _ _ _ =>
      rcases hcall with ⟨rfl, -⟩ | rfl
      · rcases hid with hcall | ⟨hcall, -⟩ <;> cases hcall
      · rcases hid with hcall | ⟨hcall, -⟩ <;> cases hcall
  | moved hcall _ _ _ =>
      rcases hcall with rfl | rfl | rfl
      all_goals rcases hid with hcall | ⟨hcall, -⟩ <;> cases hcall
  | _ => rcases hid with hcall | ⟨hcall, -⟩ <;> cases hcall

end Kernel

/-! ## The slots of the console -/

namespace FileSystem

/-- The slots of the console hold the files that the start state has there, at
whatever position. -/
def SameConsole (start fs : FileSystem) : Prop :=
  ∀ i < reverseFD, ∃ f position,
    start.fileSlot i = .object (.ofFile (.object f)) ∧
      fs.fileSlot i = .object (.ofFile (.object { f with
        currentOffset := position }))

variable {start fs fs' : FileSystem}

theorem fileSlot_setSlot_self (id : ℕ) (slot : Pointer FileSlot) :
    (fs.setSlot id slot).fileSlot id = slot :=
  Function.update_self _ _ _

theorem fileSlot_setSlot_of_ne
    {id i : ℕ} (hne : i ≠ id) (slot : Pointer FileSlot) :
    (fs.setSlot id slot).fileSlot i = fs.fileSlot i :=
  Function.update_of_ne hne _ _

theorem SameConsole.setSlot
    (hconsole : SameConsole start fs) {id : ℕ} (hid : 2 ≤ id)
    (slot : Pointer FileSlot) : SameConsole start (fs.setSlot id slot) := by
  intro i hi
  have hreserved : reverseFD = 2 := rfl
  rw [fileSlot_setSlot_of_ne (by omega)]
  exact hconsole i hi

theorem SameConsole.move
    (hconsole : SameConsole start fs) (hmove : fs.Move fs') :
    SameConsole start fs' := by
  cases hmove with
  | stay => exact hconsole
  | take hfree => exact hconsole.setSlot (findFreeSlot_spec hfree).1 _
  | leave hid => exact hconsole.setSlot hid _
  | @seek id slot f position hslot hopen =>
      intro i hi
      rcases hconsole i hi with ⟨f', position', hstart, hnow⟩
      by_cases heq : i = id
      · subst heq
        rw [hslot] at hnow
        cases hnow
        cases hopen
        exact ⟨f', position, hstart, fileSlot_setSlot_self _ _⟩
      · rw [fileSlot_setSlot_of_ne heq]
        exact ⟨f', position', hstart, hnow⟩

/-- A slot that is taken stays so. -/
theorem Move.taken
    (hmove : fs.Move fs') {i : ℕ} (htaken : fs.fileSlot i ≠ .null) :
    fs'.fileSlot i ≠ .null := by
  have hset : ∀ (id : ℕ) (slot : Pointer FileSlot), slot ≠ .null →
      (fs.setSlot id slot).fileSlot i ≠ .null := by
    intro id slot hslot
    by_cases heq : i = id
    · subst heq
      rwa [fileSlot_setSlot_self]
    · rwa [fileSlot_setSlot_of_ne heq]
  cases hmove with
  | stay => exact htaken
  | take _ => exact hset _ _ (by simp)
  | leave _ => exact hset _ _ (by simp)
  | seek _ _ => exact hset _ _ (by simp)

end FileSystem

/-! ## Runs -/

inductive DescriptorAction
  /-- A system call of a program that has made `m` of the machine. -/
  | call (m : Machine) (env : Environment) (call : SystemCall)
  | load (m : Machine) (space : AddrSpace) (garbage : LoadGarbage)
      (fileName : CString) (argc : ℤ) (argv : List CString)

/-- An action and the state after it. -/
structure DescriptorEvent where
  action : DescriptorAction
  after : Kernel

/-- The kernel from a start state on; a fault ends the run. -/
def descriptorSystem (start : Kernel) :
    StepSystem Kernel DescriptorAction DescriptorEvent Fault where
  start := start
  step k action :=
    match action with
    | .call m env call => do
        let k ← k.callFrom m env call
        return (k, ⟨action, k⟩)
    | .load m space garbage fileName argc argv => do
        let (_, _, k) ← space.load { k with machine := m } garbage fileName
          argc argv
        return (k, ⟨action, k⟩)

namespace DescriptorEvent

def result (event : DescriptorEvent) : BitVec 32 :=
  event.after.register 2

/-- The call has returned an identifier. -/
def Gives (event : DescriptorEvent) (id : ℕ) : Prop :=
  ∃ m env call, event.action = .call m env call ∧ m.AsksForId call ∧
    event.result = BitVec.ofNat 32 id

/-- `Close` has freed an identifier. -/
def Frees (event : DescriptorEvent) (id : ℕ) : Prop :=
  ∃ m env, event.action = .call m env .close ∧
    m.readRegister 4 = BitVec.ofNat 32 id ∧ event.result = 0

end DescriptorEvent

/-- An identifier that was returned and has not been freed since. -/
def InUse (trace : List DescriptorEvent) (id : ℕ) : Prop :=
  StepSystem.Since (·.Gives id) (·.Frees id) trace

section Invariant

variable {start k k' : Kernel} {trace : List DescriptorEvent}

/-- What holds after each action: the console is in its slots, and the slots
of the identifiers in use are taken. -/
structure TableKept (start : Kernel) (trace : List DescriptorEvent)
    (k : Kernel) : Prop where
  console : start.fileSystem.SameConsole k.fileSystem
  taken : ∀ id < maxFileOpen, InUse trace id →
    k.fileSystem.fileSlot id ≠ .null

/-- Identifiers are told apart by what register 2 holds. -/
theorem ofNat_inj
    {id id' : ℕ} (hid : id < maxFileOpen) (hid' : id' < maxFileOpen) :
    BitVec.ofNat 32 id = BitVec.ofNat 32 id' ↔ id = id' := by
  have hmax : maxFileOpen = 20 := rfl
  constructor
  · intro heq
    have hnat := congrArg BitVec.toNat heq
    rwa [BitVec.toNat_ofNat, BitVec.toNat_ofNat, Nat.mod_eq_of_lt (by omega),
      Nat.mod_eq_of_lt (by omega)] at hnat
  · rintro rfl
    rfl

theorem ofNat_ne_neg_one {id : ℕ} (hid : id < maxFileOpen) :
    BitVec.ofNat 32 id ≠ -1 := by
  intro heq
  have hmax : maxFileOpen = 20 := rfl
  have hnat := congrArg BitVec.toNat heq
  rw [BitVec.toNat_ofNat, Nat.mod_eq_of_lt (by omega)] at hnat
  have hlast : (-1 : BitVec 32).toNat = 4294967295 := by decide
  omega

/-- An identifier that a call has returned is the slot it has taken. -/
theorem taken_of_asksForId
    {m : Machine} {env : Environment} {call : SystemCall}
    (hcall : k.callFrom m env call = .ok k') (hasks : m.AsksForId call) :
    k'.register 2 = -1 ∨ ∃ (id : ℕ) (slot : FileSlot),
      k'.register 2 = BitVec.ofNat 32 id ∧
        k.fileSystem.findFreeSlot = some id ∧
        k'.fileSystem.fileSlot id = .object slot := by
  rcases Kernel.ends_of_handle hcall with
    ⟨fs, h, result, hreturned, heffect⟩
  rcases heffect.returnsId hasks with rfl | ⟨id, slot, rfl, hfree, rfl⟩
  · exact .inl hreturned.register_two
  · refine .inr ⟨id, slot, ?_, hfree, ?_⟩
    · rw [hreturned.register_two, BitVec.ofInt_natCast]
    · rw [hreturned.fileSystem]
      exact FileSystem.fileSlot_setSlot_self _ _

/-- One system call. -/
theorem TableKept.call
    (hkept : TableKept start trace k) {m : Machine} {env : Environment}
    {call : SystemCall} (hcall : k.callFrom m env call = .ok k') :
    TableKept start (trace ++ [⟨.call m env call, k'⟩]) k' := by
  rcases Kernel.ends_of_handle hcall with
    ⟨fs, h, result, hreturned, heffect⟩
  have hfs := hreturned.fileSystem
  constructor
  case console =>
    rw [hfs]
    rcases heffect.move with hmove | ⟨-, -, hlow, rfl⟩
    · exact hkept.console.move hmove
    · exact hkept.console.setSlot (by omega) _
  case taken =>
    intro id hid huse
    rcases StepSystem.since_append.mp huse with
      ⟨m', env', call', haction, hasks, hresult⟩ | ⟨hbefore, hkeeps⟩
    · cases haction
      rcases taken_of_asksForId hcall hasks with
        hfailed | ⟨id', slot, hgiven, hfree, hslot⟩
      · exact (ofNat_ne_neg_one hid (hresult.symm.trans hfailed)).elim
      · have hid' := (FileSystem.findFreeSlot_spec hfree).2.1
        obtain rfl : id' = id :=
          (ofNat_inj hid' hid).mp (hgiven.symm.trans hresult)
        rw [hslot]
        simp
    · have htaken := hkept.taken id hid hbefore
      rw [hfs]
      rcases heffect.move with hmove | ⟨rfl, rfl, hlow, rfl⟩
      · exact hmove.taken htaken
      · have hne : id ≠ (m.readRegister 4).toInt.toNat := by
          rintro rfl
          apply hkeeps
          refine ⟨m, env, rfl, ?_, hreturned.register_two⟩
          have hlow' : 2 ≤ (m.readRegister 4).toInt := hlow
          rw [← BitVec.ofInt_natCast, Int.toNat_of_nonneg (by omega),
            BitVec.ofInt_toInt]
        have hother : (k.fileSystem.setSlot (m.readRegister 4).toInt.toNat
            .null).fileSlot id = k.fileSystem.fileSlot id :=
          FileSystem.fileSlot_setSlot_of_ne hne _
        exact fun hnull => htaken (hother.symm.trans hnull)

/-- One `Load`. -/
theorem TableKept.load
    (hkept : TableKept start trace k) {event : DescriptorEvent}
    (hfs : k'.fileSystem = k.fileSystem)
    (hload : ∀ m env call, event.action ≠ .call m env call) :
    TableKept start (trace ++ [event]) k' := by
  constructor
  case console =>
    rw [hfs]
    exact hkept.console
  case taken =>
    intro id hid huse
    rw [hfs]
    rcases StepSystem.since_append.mp huse with
      ⟨m, env, call, haction, -⟩ | ⟨hbefore, -⟩
    · exact (hload m env call haction).elim
    · exact hkept.taken id hid hbefore

theorem tableKept_of_reaches
    (hstart : start.fileSystem.SameConsole start.fileSystem)
    (hrun : (descriptorSystem start).Reaches trace k) :
    TableKept start trace k := by
  apply hrun.invariant
  · exact ⟨hstart, fun id _ huse => (StepSystem.not_since_nil huse).elim⟩
  · intro trace s s' action event _ hkept _ hmove
    cases action with
    | call m env call =>
        rcases ok_of_bind hmove with ⟨k', hcall, hresult⟩
        cases hresult
        exact hkept.call hcall
    | load m space garbage fileName argc argv =>
        rcases ok_of_bind hmove with ⟨⟨loaded, space', k'⟩, hload, hresult⟩
        cases hresult
        have hfs := AddrSpace.load_fileSystem hload
        apply hkept.load hfs
        intro m env call haction
        cases haction

end Invariant

/-! ## The constructor -/

section Constructor

variable {fs : FileSystem} {h h' : Host} {stdin stdout : HostAnswer}

theorem directory_of_openForWrite
    {name other : CString} {inode fd : ℕ} {answer : HostAnswer}
    (hfound : h.directory name = some inode)
    (hopen : h.openForWrite other answer = .ok (fd, h')) :
    h'.directory name = some inode := by
  unfold Host.openForWrite at hopen
  split at hopen
  next => cases hopen
  next =>
    cases hopen
    exact hfound
  next hmissing =>
    cases hopen
    have hne : name ≠ other := by
      rintro rfl
      rw [hmissing] at hfound
      cases hfound
    exact (Function.update_of_ne hne _ _).trans hfound

theorem directory_of_create_other
    {name other : CString} {inode : ℕ} {answer : HostAnswer} {created : Bool}
    (hfound : h.directory name = some inode)
    (hcreate : FileSystem.create h other answer = .ok (created, h')) :
    h'.directory name = some inode := by
  rcases ok_of_bind hcreate with ⟨⟨fd, opened⟩, hopen, hclose⟩
  rcases ok_of_bind hclose with ⟨closed, hclosed, hresult⟩
  cases hresult
  rw [Kernel.directory_of_close hclosed]
  exact directory_of_openForWrite hfound hopen

/-- The constructor opens the files of the console, one after the other. -/
theorem FileSystem.new_ok
    (hnew : FileSystem.new h stdin stdout = .ok (fs, h')) :
    ∃ (h₂ : Host) (stdinName stdoutName : CString) (inode inode' : ℕ),
      fs = ((FileSystem.mk fun _ => .null).setSlot 0 (.object (.ofFile
        (.object ⟨2, .object stdinName, h₂.files.length, 0, 0⟩)))).setSlot 1
          (.object (.ofFile (.object
            ⟨3, .object stdoutName, h₂.files.length + 1, 0, 1⟩))) ∧
      h'.files = h₂.files ++ [some ⟨inode, 0⟩] ++ [some ⟨inode', 0⟩] := by
  rcases ok_of_bind hnew with ⟨⟨created, h₁⟩, hstdin, hnew⟩
  rcases ok_of_bind hnew with ⟨⟨created', h₂⟩, hstdout, hnew⟩
  rcases (Kernel.directory_of_create hstdin).2 with ⟨inode, hinode⟩
  rcases (Kernel.directory_of_create hstdout).2 with ⟨inode', hinode'⟩
  have hkept := directory_of_create_other hinode hstdout
  rcases ok_of_bind hnew with ⟨⟨f, h₃⟩, hopen, hnew⟩
  rw [Kernel.openTyped_existing hkept (by decide)] at hopen
  cases hopen
  rcases ok_of_bind hnew with ⟨⟨f', h₄⟩, hopen', hnew⟩
  have hexisting := Kernel.openTyped_existing
    (h := { h₂ with files := h₂.files ++ [some ⟨inode, 0⟩] }) hinode'
    (show (3 : ℤ) ≠ 4 by decide) 1 none
  rw [hexisting] at hopen'
  cases hopen'
  cases hnew
  have hlength : (h₂.files ++ [some (⟨inode, 0⟩ : HostFile)]).length =
      h₂.files.length + 1 := List.length_append
  exact ⟨h₂, _, _, inode, inode', by rw [hlength], rfl⟩

/-- The constructor leaves the console in its slots. -/
theorem FileSystem.new_console
    (hnew : FileSystem.new h stdin stdout = .ok (fs, h')) :
    fs.SameConsole fs := by
  rcases new_ok hnew with ⟨h₂, stdinName, stdoutName, -, -, rfl, -⟩
  intro i hi
  have hreserved : reverseFD = 2 := rfl
  rcases (show i = 0 ∨ i = 1 by omega) with rfl | rfl
  · exact ⟨_, _, rfl, rfl⟩
  · exact ⟨_, _, rfl, rfl⟩

end Constructor

/-- A host without files. -/
def emptyHost : Host where
  directory := fun _ => none
  inodes := 0
  contents := fun _ => []
  files := []
  sockets := []

end Nachos
