import Nachos.SystemCalls

/-!
# The semaphores of user programs: `threads/stable.cc` and `threads/sem.cc`

`Create` takes the entry that the bitmap grants and does not look at the
names; `Wait` and `Signal` go through the entries until one has the name.  The
kernel can only be preempted where a thread sleeps or where `P` or `V` turns
the interrupts on again, and nothing but the return is left to do then: a call
that has come that far has returned.
-/

namespace Nachos

/-- `MAX_SEMAPHORE`. -/
def maxSemaphore : ℕ := 10

/-! ## Data -/

/-- The semaphore of an entry.  Its value is what a register holds, and `int`
wraps around. -/
structure UserSemaphore where
  value : BitVec 32
  queue : List ℕ
  deriving DecidableEq

structure Sem where
  name : CString
  sem : UserSemaphore
  deriving DecidableEq

structure STable where
  bm : Bitmap
  semTab : ℕ → Option Sem

/-- What a process does: it is in user mode, or in a `Wait` on a name, in the
queue of an entry or taken out of it. -/
inductive Waiter
  | user
  | asleep (name : CString) (id : ℕ)
  | ready (name : CString) (id : ℕ)
  deriving DecidableEq

structure Semaphores where
  table : STable
  process : ℕ → Waiter

/-- The process at hand and what it has done.  `passed` and `released` have
returned 0, `missed` has returned -1. -/
inductive SemaphoreEvent
  | created (p : ℕ) (name : CString) (value : BitVec 32) (result : ℤ)
  | passed (p : ℕ) (name : CString) (id : ℕ)
  | slept (p : ℕ) (name : CString) (id : ℕ)
  | released (p : ℕ) (name : CString) (id : ℕ)
  | missed (p : ℕ) (name : CString)
  deriving DecidableEq

inductive SemaphoreCall
  | createSemaphore
  | wait
  | signal
  deriving DecidableEq

inductive SemaphoreAction
  /-- A call of a process that has made `m` of the machine. -/
  | call (p : ℕ) (m : Machine) (call : SemaphoreCall)
  /-- A process that was taken out of a queue runs again. -/
  | resume (p : ℕ)

/-! ## The functions of the table -/

/-- `Sem::Sem`, with a name of 50 bytes. -/
def Sem.new (na : CString) (i : BitVec 32) : Except Fault Sem :=
  if na.length < 50 then .ok ⟨na, ⟨i, []⟩⟩ else .error .undefinedBehaviour

namespace STable

/-- `STable::STable`. -/
def new : Except Fault STable := do
  let bm ← Bitmap.init maxSemaphore
  return ⟨bm, fun _ => none⟩

/-- `STable::Create`. -/
def create (t : STable) (name : CString) (init : BitVec 32) :
    Except Fault (ℤ × STable) := do
  let (id, bm) ← t.bm.findAndSet
  let t := { t with bm := bm }
  if id = -1 then return (-1, t)
  else
    let sem ← Sem.new name init
    return (id, { t with
      semTab := Function.update t.semTab id.toNat (some sem) })

/-- The name of an entry that is not `NULL`. -/
def nameAt (t : STable) (i : ℕ) : Option CString :=
  (t.semTab i).map Sem.name

/-- The loop of `Wait` and `Signal`: the first entry with the name. -/
def search (t : STable) (name : CString) : Option ℕ :=
  (List.range maxSemaphore).find? fun i => decide (t.nameAt i = some name)

def setSem (t : STable) (id : ℕ) (entry : Sem) (sem : UserSemaphore) :
    STable :=
  { t with
    semTab := Function.update t.semTab id (some { entry with sem := sem }) }

end STable

namespace Semaphores

/-- A process in another mode. -/
def setProcess (s : Semaphores) (p : ℕ) (mode : Waiter) : Semaphores :=
  { s with process := Function.update s.process p mode }

/-- The semaphore of an entry in another state. -/
def setSem (s : Semaphores) (id : ℕ) (entry : Sem) (sem : UserSemaphore) :
    Semaphores :=
  { s with table := s.table.setSem id entry sem }

/-- One round of the loop of `Semaphore::P`. -/
def semaphoreP (s : Semaphores) (p : ℕ) (name : CString) (id : ℕ) :
    Except Fault (Semaphores × SemaphoreEvent) :=
  match s.table.semTab id with
  | none => .error .nullDereference
  | some entry =>
      if entry.sem.value = 0 then
        let sem := { entry.sem with queue := entry.sem.queue ++ [p] }
        .ok ((s.setSem id entry sem).setProcess p (.asleep name id),
          .slept p name id)
      else
        let sem := { entry.sem with value := entry.sem.value - 1 }
        .ok ((s.setSem id entry sem).setProcess p .user, .passed p name id)

/-- `ReadyToRun`. -/
def wake (s : Semaphores) (p : ℕ) : Semaphores :=
  match s.process p with
  | .asleep name id => s.setProcess p (.ready name id)
  | _ => s

/-- `Semaphore::V`. -/
def semaphoreV (s : Semaphores) (p : ℕ) (name : CString) (id : ℕ) :
    Except Fault (Semaphores × SemaphoreEvent) :=
  match s.table.semTab id with
  | none => .error .nullDereference
  | some entry =>
      match entry.sem.queue with
      | [] =>
          .ok (s.setSem id entry ⟨entry.sem.value + 1, []⟩,
            .released p name id)
      | u :: waiting =>
          .ok ((s.setSem id entry ⟨entry.sem.value + 1, waiting⟩).wake u,
            .released p name id)

/-- `STable::Create`. -/
def create (s : Semaphores) (p : ℕ) (name : CString) (init : BitVec 32) :
    Except Fault (Semaphores × SemaphoreEvent) := do
  let (id, table) ← s.table.create name init
  return ({ s with table := table }, .created p name init id)

/-- `STable::Wait`. -/
def wait (s : Semaphores) (p : ℕ) (name : CString) :
    Except Fault (Semaphores × SemaphoreEvent) :=
  match s.table.search name with
  | none => .ok (s, .missed p name)
  | some id => s.semaphoreP p name id

/-- `STable::Signal`. -/
def signal (s : Semaphores) (p : ℕ) (name : CString) :
    Except Fault (Semaphores × SemaphoreEvent) :=
  match s.table.search name with
  | none => .ok (s, .missed p name)
  | some id => s.semaphoreV p name id

/-- The function that a call reaches. -/
def perform (s : Semaphores) (p : ℕ) (name : CString) (init : BitVec 32) :
    SemaphoreCall → Except Fault (Semaphores × SemaphoreEvent)
  | .createSemaphore => s.create p name init
  | .wait => s.wait p name
  | .signal => s.signal p name

end Semaphores

/-- The name that a call gets: the kernel copies 33 bytes of it at most. -/
def Machine.semaphoreName (m : Machine) : Except Fault CString := do
  let (buffer, _) ← m.user2System (m.readRegister 4) (maxFileLength + 1)
  return cString buffer

/-! ## The handlers -/

/-- The result of a call, in register 2. -/
def SemaphoreEvent.result : SemaphoreEvent → Option ℤ
  | .created _ _ _ result => some result
  | .passed .. => some 0
  | .released .. => some 0
  | .missed .. => some (-1)
  | .slept .. => none

/-- What a function of `sTable` returns to its handler; a process that sleeps
does not return yet. -/
def answerOf (outcome : Except Fault (Semaphores × SemaphoreEvent)) :
    Except Fault ℤ := do
  match (← outcome).2.result with
  | some result => return result
  | none => .error .waitsForever

def Semaphores.tables (s : Semaphores) (p : ℕ) (base : Tables) : Tables :=
  { base with
    create := fun name init =>
      answerOf (s.create p name (BitVec.ofInt 32 init))
    wait := fun name => answerOf (s.wait p name)
    signal := fun name => answerOf (s.signal p name) }

def SemaphoreCall.systemCall : SemaphoreCall → SystemCall
  | .createSemaphore => .createSemaphore
  | .wait => .wait
  | .signal => .signal

theorem Kernel.onSemaphore_eq
    {k : Kernel} {act : CString → Except Fault ℤ} {name : CString}
    {result : ℤ} (hname : k.machine.semaphoreName = .ok name)
    (hact : act name = .ok result) :
    ∃ k', k.onSemaphore act = .ok k' ∧
      k'.register 2 = BitVec.ofInt 32 result := by
  rcases ok_of_bind hname with ⟨⟨buffer, m⟩, hcopy, hbuffer⟩
  obtain rfl : cString buffer = name := Except.ok.inj hbuffer
  have hcopied : k.user2System (k.register 4) (maxFileLength + 1) =
      .ok (buffer, { k with machine := m }) := user2System_eq hcopy
  by_cases hfailed : result = -1
  · refine ⟨Kernel.returns { k with machine := m } (-1), ?_, ?_⟩
    · simp only [onSemaphore, hcopied, bind, Except.bind, hact,
        if_pos hfailed]
      rfl
    · rw [hfailed]
      rfl
  · refine ⟨Kernel.returns { k with machine := m } result, ?_, rfl⟩
    simp only [onSemaphore, hcopied, bind, Except.bind, hact, if_neg hfailed]
    rfl

/-- The handlers put what the table returns into register 2. -/
theorem Semaphores.callFrom_eq
    {s s' : Semaphores} {p : ℕ} {m : Machine} {call : SemaphoreCall}
    {name : CString} {event : SemaphoreEvent} {result : ℤ}
    (hname : m.semaphoreName = .ok name)
    (hperform : s.perform p name (m.readRegister 5) call = .ok (s', event))
    (hresult : event.result = some result) (k : Kernel) (env : Environment) :
    ∃ k', k.callFrom m { env with tables := s.tables p env.tables }
        call.systemCall = .ok k' ∧ k'.register 2 = BitVec.ofInt 32 result := by
  have hanswer : answerOf (s.perform p name (m.readRegister 5) call) =
      .ok result := by
    rw [answerOf, hperform]
    simp only [bind, Except.bind, hresult]
    rfl
  have hregister : BitVec.ofInt 32 (m.readRegister 5).toInt =
      m.readRegister 5 := BitVec.ofInt_toInt
  cases call with
  | createSemaphore =>
      let act := fun name => answerOf (s.create p name
        (BitVec.ofInt 32 (m.readRegister 5).toInt))
      have hact : act name = .ok result := by
        rw [← hanswer, ← hregister]
        rfl
      exact Kernel.onSemaphore_eq (k := { k with machine := m }) hname hact
  | wait =>
      exact Kernel.onSemaphore_eq (k := { k with machine := m }) hname hanswer
  | signal =>
      exact Kernel.onSemaphore_eq (k := { k with machine := m }) hname hanswer

end Nachos
