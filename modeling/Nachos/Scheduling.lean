import Nachos.Interrupt
import Nachos.ArgumentPassing

/-!
# Kernel threads: `threads/thread.cc`, `scheduler.cc` and `synch.cc`

There is one processor.  Behind `SWITCH` it goes on in another thread: inside
of that thread's own call of `Run`, or at the root of a thread that has not
run yet.  A step below is what the kernel does between two points at which
something else can happen: with interrupts disabled that is `SWITCH`, and the
interrupts that arrive while there is no thread to run.
-/

namespace Nachos.Scheduling

open Library

abbrev SemaphoreId := ℕ

inductive ThreadStatus
  | justCreated
  | running
  | ready
  | blocked
  deriving DecidableEq

/-- An `AddrSpace`: where its page table stands, and what `InitRegisters`
reads. -/
structure Space where
  pageTable : ℕ
  numPages : ℕ
  stackptr : BitVec 32
  argc : BitVec 32
  argv : BitVec 32
  deriving DecidableEq

/-- Where a thread goes on when the processor is switched to it, with the
interrupt level that its caller is going to restore. -/
inductive Resume
  | root
  | yield (oldLevel : IntStatus)
  | semaphoreP (s : SemaphoreId) (oldLevel : IntStatus)
  | finish
  deriving DecidableEq

/-- A thread; `resume` is what is on its stack, if it has one. -/
structure Thread where
  status : ThreadStatus
  space : Option Space
  userRegisters : ℕ → BitVec 32
  resume : Option Resume

structure Semaphore where
  value : BitVec 32
  queue : List ThreadId
  deriving DecidableEq

/-- What a context switch touches of the machine. -/
structure UserState where
  registers : ℕ → BitVec 32
  pageTable : Option ℕ
  pageTableSize : ℕ

/-- Where the processor is: in the code of the current thread, in its `Sleep`
about to look for another thread, in `Idle` below that `Sleep`, or right
behind `SWITCH`. -/
inductive Control
  | running
  | sleeping (finishing : Bool)
  | idling (finishing : Bool)
  | switched
  deriving DecidableEq

structure Threads where
  threads : ThreadId → Option Thread
  currentThread : ThreadId
  readyList : List ThreadId
  toBeDestroyed : Option ThreadId
  semaphores : SemaphoreId → Semaphore
  level : IntStatus
  machine : UserState
  control : Control

namespace Threads

/-! ## Objects and lists -/

def thread (k : Threads) (t : ThreadId) : Except Fault Thread :=
  match k.threads t with
  | some th => .ok th
  | none => .error .undefinedBehaviour

def setThread (k : Threads) (t : ThreadId) (th : Thread) : Threads :=
  { k with threads := Function.update k.threads t (some th) }

def setSemaphore (k : Threads) (s : SemaphoreId) (sem : Semaphore) :
    Threads :=
  { k with semaphores := Function.update k.semaphores s sem }

/-- `List::Append`. -/
def append (list : List ThreadId) (item : ThreadId) :
    Except Fault (List ThreadId) := do
  assert (item ∉ list)
  return list ++ [item]

/-! ## `SaveUserState`, `RestoreUserState`, `RestoreState` -/

/-- The registers of the first file, for the others those of the second. -/
def copyRegisters (source target : ℕ → BitVec 32) : ℕ → BitVec 32 :=
  fun i => if i < numTotalRegs then source i else target i

def saveUserState (k : Threads) (t : ThreadId) (th : Thread) : Threads :=
  k.setThread t { th with
    userRegisters := copyRegisters k.machine.registers th.userRegisters }

def restoreUserState (th : Thread) (machine : UserState) : UserState :=
  { machine with
    registers := copyRegisters th.userRegisters machine.registers }

/-- `AddrSpace::RestoreState`. -/
def restoreState (space : Space) (machine : UserState) : UserState :=
  { machine with
    pageTable := some space.pageTable, pageTableSize := space.numPages }

/-! ## The scheduler -/

/-- `Scheduler::ReadyToRun`. -/
def readyToRun (k : Threads) (t : ThreadId) : Except Fault Threads := do
  assert (k.level = .intOff)
  let th ← k.thread t
  let k := k.setThread t { th with status := .ready }
  let readyList ← append k.readyList t
  return { k with readyList := readyList }

/-- `Scheduler::FindNextToRun`. -/
def findNextToRun (k : Threads) :
    Except Fault (Option ThreadId × Threads) := do
  assert (k.level = .intOff)
  match k.readyList with
  | [] => return (none, k)
  | next :: rest => return (some next, { k with readyList := rest })

/-- The mark of `Scheduler::Run` for a thread that has finished. -/
def markFinished (k : Threads) (finishing : Bool) : Except Fault Threads :=
  if finishing then do
    assert (k.toBeDestroyed = none)
    return { k with toBeDestroyed := some k.currentThread }
  else .ok k

/-- `SaveUserState` of the thread that runs, if it has an address space. -/
def saveOldThread (k : Threads) : Except Fault Threads := do
  let oldThread ← k.thread k.currentThread
  match oldThread.space with
  | none => return k
  | some _ => return k.saveUserState k.currentThread oldThread

/-- `Scheduler::Run`, up to `SWITCH`. -/
def run (k : Threads) (nextThread : ThreadId) (finishing : Bool) :
    Except Fault Threads := do
  assert (k.level = .intOff)
  let k ← k.markFinished finishing
  let k ← k.saveOldThread
  let k := { k with currentThread := nextThread }
  let next ← k.thread nextThread
  let k := k.setThread nextThread { next with status := .running }
  return { k with control := .switched }

/-- `Scheduler::CheckToBeDestroyed`. -/
def checkToBeDestroyed (k : Threads) : Except Fault Threads :=
  match k.toBeDestroyed with
  | none => .ok k
  | some t => do
      let _ ← k.thread t
      assert (t ≠ k.currentThread)
      return { k with
        threads := Function.update k.threads t none, toBeDestroyed := none }

/-- The rest of `Scheduler::Run`, behind `SWITCH`. -/
def returnFromRun (k : Threads) : Except Fault Threads := do
  assert (k.level = .intOff)
  let k ← k.checkToBeDestroyed
  let oldThread ← k.thread k.currentThread
  match oldThread.space with
  | none => return k
  | some space =>
      return { k with
        machine := restoreState space (restoreUserState oldThread k.machine) }

/-- `Thread::Begin`. -/
def begin (k : Threads) : Except Fault Threads := do
  let k ← k.checkToBeDestroyed
  return { k with level := .intOn, control := .running }

/-! ## Threads and semaphores -/

/-- A thread object at an address that is free. -/
def newThread (k : Threads) (t : ThreadId)
    (garbage : ℕ → BitVec 32) : Threads :=
  k.setThread t ⟨.justCreated, none, garbage, none⟩

/-- `Thread::Fork`. -/
def fork (k : Threads) (t : ThreadId) : Except Fault Threads := do
  let th ← k.thread t
  let k := k.setThread t { th with resume := some .root }
  let oldLevel := k.level
  let k ← { k with level := .intOff }.readyToRun t
  return { k with level := oldLevel }

/-- The current thread is about to be switched from, in a call that goes on
at `resume`. -/
def leaveAt (k : Threads) (resume : Resume) : Except Fault Threads := do
  let th ← k.thread k.currentThread
  return k.setThread k.currentThread { th with resume := some resume }

/-- `Thread::Sleep`, up to the search for a thread to run. -/
def sleep (k : Threads) (finishing : Bool) : Except Fault Threads := do
  assert (k.level = .intOff)
  let th ← k.thread k.currentThread
  let k := k.setThread k.currentThread { th with status := .blocked }
  return { k with control := .sleeping finishing }

/-- The condition of the loop in `Thread::Sleep`, and what follows it. -/
def searchNext (k : Threads) (finishing : Bool) : Except Fault Threads := do
  match ← k.findNextToRun with
  | (none, k) => return { k with control := .idling finishing }
  | (some next, k) => k.run next finishing

/-- `Thread::Finish`, up to the search for a thread to run. -/
def finish (k : Threads) : Except Fault Threads := do
  let k ← { k with level := .intOff }.leaveAt .finish
  k.sleep true

/-- `Thread::Yield`, up to `SWITCH`. -/
def yield (k : Threads) : Except Fault Threads := do
  let oldLevel := k.level
  match ← { k with level := .intOff }.findNextToRun with
  | (none, k) => return { k with level := oldLevel }
  | (some next, k) =>
      let k ← k.leaveAt (.yield oldLevel)
      let k ← k.readyToRun k.currentThread
      k.run next false

/-- The test of the loop in `Semaphore::P`, with what comes behind it. -/
def testValue (k : Threads) (s : SemaphoreId) (oldLevel : IntStatus) :
    Except Fault Threads := do
  let sem := k.semaphores s
  if sem.value = 0 then
    let queue ← append sem.queue k.currentThread
    let k ← (k.setSemaphore s { sem with queue := queue }).leaveAt
      (.semaphoreP s oldLevel)
    k.sleep false
  else
    let k := k.setSemaphore s { sem with value := sem.value - 1 }
    return { k with level := oldLevel, control := .running }

/-- `Semaphore::P`. -/
def semaphoreP (k : Threads) (s : SemaphoreId) : Except Fault Threads :=
  let oldLevel := k.level
  { k with level := .intOff }.testValue s oldLevel

/-- `Semaphore::V`; `none` is returned if the queue is empty, and the thread
that has been made ready otherwise. -/
def semaphoreV (k : Threads) (s : SemaphoreId) :
    Except Fault (Option ThreadId × Threads) := do
  let oldLevel := k.level
  let k := { k with level := .intOff }
  let sem := k.semaphores s
  match sem.queue with
  | [] =>
      let k := k.setSemaphore s { sem with value := sem.value + 1 }
      return (none, { k with level := oldLevel })
  | t :: rest =>
      let k ← (k.setSemaphore s { sem with queue := rest }).readyToRun t
      let k := k.setSemaphore s { value := sem.value + 1, queue := rest }
      return (some t, { k with level := oldLevel })

/-- What the current thread does behind `SWITCH`; a thread is never switched
to before `StackAllocate`, nor when it has finished. -/
def goOn (k : Threads) : Except Fault Threads := do
  let th ← k.thread k.currentThread
  match th.resume with
  | some .root => k.begin
  | some (.yield oldLevel) =>
      let k ← k.returnFromRun
      return { k with level := oldLevel, control := .running }
  | some (.semaphoreP s oldLevel) =>
      let k ← k.returnFromRun
      k.testValue s oldLevel
  | some .finish => .error .undefinedBehaviour
  | none => .error .undefinedBehaviour

end Threads

/-! ## The steps -/

/-- What the running thread does, what an interrupt handler does to it or to
the idle machine, and how the processor goes on where a thread has called
`Sleep` or `Run`. -/
inductive Action
  | newThread (t : ThreadId) (garbage : ℕ → BitVec 32)
  | fork (t : ThreadId)
  | yield
  | finish
  | semaphoreP (s : SemaphoreId)
  | semaphoreV (s : SemaphoreId)
  | handlerV (s : SemaphoreId)
  | search
  | idleReturns
  | goOn

/-- `tested` is the semaphore whose value a thread has tested again, and
whether it has passed. -/
inductive Event
  | created (t : ThreadId)
  | forked (t : ThreadId)
  | yielded (t : ThreadId)
  | finished (t : ThreadId)
  | acquired (s : SemaphoreId) (t : ThreadId)
  | blocked (s : SemaphoreId) (t : ThreadId)
  | released (s : SemaphoreId) (woken : Option ThreadId)
  | searched
  | idled
  | resumed (t : ThreadId) (destroyed : Option ThreadId)
      (tested : Option (SemaphoreId × Bool))
  deriving DecidableEq

/-- An action is not possible in a state, or it takes the simulator down. -/
inductive StepError
  | disabled
  | fault (fault : Fault)
  deriving DecidableEq

namespace Threads

def simulate {α : Type} (outcome : Except Fault α) : Except StepError α :=
  outcome.mapError .fault

theorem ok_of_simulate
    {α : Type} {outcome : Except Fault α} {a : α}
    (h : simulate outcome = .ok a) : outcome = .ok a := by
  cases outcome with
  | error fault => cases h
  | ok b =>
      cases h
      rfl

theorem simulate_ok_bind
    {α β : Type} {outcome : Except Fault α} {f : α → Except StepError β}
    {answer : β} (h : (simulate outcome >>= f) = .ok answer) :
    ∃ a, outcome = .ok a ∧ f a = .ok answer := by
  cases outcome with
  | error fault => cases h
  | ok a => exact ⟨a, rfl, h⟩

/-- The semaphore that the current thread tests when it goes on. -/
def retests (k : Threads) : Option SemaphoreId :=
  match (k.threads k.currentThread).bind Thread.resume with
  | some (.semaphoreP s _) => some s
  | _ => none

/-- The condition of the loop in `Semaphore::P` is false. -/
def passes (k : Threads) (s : SemaphoreId) : Bool :=
  (k.semaphores s).value != 0

/-- A thread is forked once, after its creation. -/
def step (k : Threads) (action : Action) : Except StepError (Threads × Event) :=
  match k.control, action with
  | .running, .newThread t garbage =>
      if (k.threads t).isNone then
        .ok (k.newThread t garbage, .created t)
      else .error .disabled
  | .running, .fork t =>
      if (k.threads t).any (fun th => th.status = .justCreated) then do
        let k ← simulate (k.fork t)
        return (k, .forked t)
      else .error .disabled
  | .running, .yield => do
      let k' ← simulate k.yield
      return (k', .yielded k.currentThread)
  | .running, .finish => do
      let k' ← simulate k.finish
      return (k', .finished k.currentThread)
  | .running, .semaphoreP s => do
      let k' ← simulate (k.semaphoreP s)
      return (k', if k.passes s then .acquired s k.currentThread
        else .blocked s k.currentThread)
  | .running, .semaphoreV s => do
      let (woken, k) ← simulate (k.semaphoreV s)
      return (k, .released s woken)
  -- `OneTick` has disabled the interrupts, and enables them again
  | .running, .handlerV s => do
      let (woken, k) ← simulate ({ k with level := .intOff }.semaphoreV s)
      return ({ k with level := .intOn }, .released s woken)
  | .idling _, .handlerV s => do
      let (woken, k) ← simulate (k.semaphoreV s)
      return (k, .released s woken)
  | .idling finishing, .idleReturns =>
      .ok ({ k with control := .sleeping finishing }, .idled)
  | .sleeping finishing, .search => do
      let k ← simulate (k.searchNext finishing)
      return (k, .searched)
  | .switched, .goOn => do
      let k' ← simulate k.goOn
      return (k', .resumed k.currentThread k.toBeDestroyed
        (k.retests.map fun s => (s, k.passes s)))
  | _, _ => .error .disabled

/-- `main`, the thread that the simulator starts in. -/
def mainThread : ThreadId := 0

/-- The state after `Kernel::Initialize`, with semaphores that have not been
used yet. -/
def start (garbage : ℕ → BitVec 32) (machine : UserState)
    (initial : SemaphoreId → BitVec 32) : Threads where
  threads := Function.update (fun _ => none) mainThread
    (some ⟨.running, none, garbage, none⟩)
  currentThread := mainThread
  readyList := []
  toBeDestroyed := none
  semaphores s := ⟨initial s, []⟩
  level := .intOn
  machine := machine
  control := .running

def system (garbage : ℕ → BitVec 32) (machine : UserState)
    (initial : SemaphoreId → BitVec 32) :
    StepSystem Threads Action Event StepError where
  start := start garbage machine initial
  step := step

end Threads

end Nachos.Scheduling
