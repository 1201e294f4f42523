import Nachos.Library.StepSystem
import Nachos.Conditions

/-!
# Synchronized lists: `threads/synchlist.cc`

Any number of threads call `Append` and `RemoveFront` on one list.  A step is
what one of them does between two points at which another one can run: a
thread may be preempted before and behind every access to the lock, to the
condition and to the list.
-/

namespace Nachos.Scheduling

open Library

/-- What a thread acquires the lock for: to go on in `Append`, in
`RemoveFront`, or at the end of `Wait`. -/
inductive Goal (α : Type)
  | append (item : α)
  | remove
  | wait (w : WaiterId)
  deriving DecidableEq

/-- What a thread releases the lock after. -/
inductive After (α : Type)
  | append
  | remove (item : α)
  | wait (w : WaiterId)
  deriving DecidableEq

/-- The statement that a thread is about to execute. -/
inductive Point (α : Type)
  | outside
  -- `Acquire`
  | acquiring (goal : Goal α)
  | acquired (goal : Goal α)
  -- `Append`, and `Signal`
  | appending (item : α)
  | signalling
  | waking (w : WaiterId)
  -- `RemoveFront`
  | testing
  | removing
  | returning (item : α)
  -- `Wait`
  | waiting
  | sleeping (w : WaiterId)
  | deleting (w : WaiterId)
  -- `Release`
  | releasing (after : After α)
  | released (after : After α)
  deriving DecidableEq

structure SynchList (α : Type) where
  list : List α
  lock : Lock
  listEmpty : Condition
  point : ThreadId → Point α

namespace SynchList

/-- A thread calls `Append` or `RemoveFront`, takes a step in a call, or makes
a semaphore to wait for. -/
inductive Action (α : Type)
  | append (t : ThreadId) (item : α)
  | removeFront (t : ThreadId)
  | go (t : ThreadId)
  | wait (t : ThreadId) (w : WaiterId)

inductive Event (α : Type)
  | silent
  | inserted (item : α)
  | removed (t : ThreadId) (item : α)
  | returned (t : ThreadId) (item : α)
  | signalled (w : WaiterId)
  | reacquired (w : WaiterId)
  deriving DecidableEq

variable {α : Type} [DecidableEq α]

def setPoint (l : SynchList α) (t : ThreadId) (point : Point α) :
    SynchList α :=
  { l with point := Function.update l.point t point }

/-- Behind `P` in `Acquire`. -/
def Goal.event : Goal α → Event α
  | .wait w => .reacquired w
  | .append _ => .silent
  | .remove => .silent

/-- Behind `Acquire`. -/
def Goal.next : Goal α → Point α
  | .append item => .appending item
  | .remove => .testing
  | .wait w => .deleting w

/-- Behind `Release`. -/
def After.next : After α → Point α
  | .append => .outside
  | .remove item => .returning item
  | .wait w => .sleeping w

/-- `waiter->P()`, from one test to the next. -/
def sleepOn (l : SynchList α) (t : ThreadId) (w : WaiterId)
    (sem : Semaphore) : SynchList α :=
  let (sem, passes) := sem.test t
  let l := { l with listEmpty := l.listEmpty.setWaiter w (some sem) }
  if passes then l.setPoint t (.acquiring (.wait w)) else l

/-- `Condition::Wait`, up to the call of `Release`. -/
def wait (l : SynchList α) (t : ThreadId) (w : WaiterId) :
    Except Fault (SynchList α) := do
  assert (l.lock.isHeldBy t = true)
  let listEmpty ← l.listEmpty.append w
  return { l with listEmpty := listEmpty }.setPoint t (.releasing (.wait w))

/-- `Condition::Signal`, up to the call of `V`. -/
def signal (l : SynchList α) (t : ThreadId) : Except Fault (SynchList α) := do
  assert (l.lock.isHeldBy t = true)
  match l.listEmpty.waitQueue with
  | [] => return l.setPoint t (.releasing .append)
  | w :: rest =>
      return { l with listEmpty := { l.listEmpty with waitQueue := rest } }
        |>.setPoint t (.waking w)

/-- The next statement of a thread, if it is not asleep. -/
def go (l : SynchList α) (t : ThreadId) :
    Except StepError (SynchList α × Event α) :=
  match l.point t with
  | .outside => .error .disabled
  | .acquiring goal =>
      if t ∈ l.lock.semaphore.queue then .error .disabled
      else
        let (lock, passes) := l.lock.test t
        let l := { l with lock := lock }
        if passes then .ok (l.setPoint t (.acquired goal), Goal.event goal)
        else .ok (l, .silent)
  | .acquired goal =>
      .ok ({ l with lock := l.lock.hold t }.setPoint t (Goal.next goal),
        .silent)
  | .appending item => do
      Threads.simulate (assert (item ∉ l.list))
      return ({ l with list := l.list ++ [item] }.setPoint t .signalling,
        .inserted item)
  | .signalling => do
      let l ← Threads.simulate (l.signal t)
      return (l, .silent)
  | .waking w =>
      match l.listEmpty.waiters w with
      | none => .error (.fault .undefinedBehaviour)
      | some sem =>
          let l := { l with
            listEmpty := l.listEmpty.setWaiter w (some sem.give) }
          .ok (l.setPoint t (.releasing .append), .signalled w)
  | .testing =>
      if l.list = [] then .ok (l.setPoint t .waiting, .silent)
      else .ok (l.setPoint t .removing, .silent)
  | .removing =>
      match l.list with
      | [] => .error (.fault .abort)
      | item :: rest =>
          .ok ({ l with list := rest }.setPoint t (.releasing (.remove item)),
            .removed t item)
  | .returning item => .ok (l.setPoint t .outside, .returned t item)
  | .waiting => .error .disabled
  | .sleeping w =>
      match l.listEmpty.waiters w with
      | none => .error (.fault .undefinedBehaviour)
      | some sem =>
          if t ∈ sem.queue then .error .disabled
          else .ok (l.sleepOn t w sem, .silent)
  | .deleting w =>
      match l.listEmpty.waiters w with
      | none => .error (.fault .undefinedBehaviour)
      | some _ =>
          let l := { l with listEmpty := l.listEmpty.setWaiter w none }
          .ok (l.setPoint t .testing, .silent)
  | .releasing after => do
      let lock ← Threads.simulate (l.lock.drop t)
      return ({ l with lock := lock }.setPoint t (.released after), .silent)
  | .released after =>
      .ok ({ l with lock := l.lock.give }.setPoint t (After.next after),
        .silent)

/-- A semaphore is made where there is none. -/
def step (l : SynchList α) (action : Action α) :
    Except StepError (SynchList α × Event α) :=
  match action with
  | .append t item =>
      if l.point t = .outside then
        .ok (l.setPoint t (.acquiring (.append item)), .silent)
      else .error .disabled
  | .removeFront t =>
      if l.point t = .outside then
        .ok (l.setPoint t (.acquiring .remove), .silent)
      else .error .disabled
  | .go t => l.go t
  | .wait t w =>
      if l.point t = .waiting ∧ l.listEmpty.waiters w = none then do
        let l ← Threads.simulate (l.wait t w)
        return (l, .silent)
      else .error .disabled

/-- `SynchList::SynchList`. -/
def start : SynchList α where
  list := []
  lock := .new
  listEmpty := .new
  point _ := .outside

def system (α : Type) [DecidableEq α] :
    StepSystem (SynchList α) (Action α) (Event α) StepError where
  start := start
  step := step

/-! ## What the events say -/

/-- The items that have been put into the list, in this order. -/
def inserted (trace : List (Event α)) : List α :=
  trace.filterMap fun
    | .inserted item => some item
    | _ => none

/-- The items that have been taken from the list, in this order. -/
def removed (trace : List (Event α)) : List α :=
  trace.filterMap fun
    | .removed _ item => some item
    | _ => none

/-- The items that a thread has taken from the list. -/
def removedBy (t : ThreadId) (trace : List (Event α)) : List α :=
  trace.filterMap fun
    | .removed u item => if u = t then some item else none
    | _ => none

/-- The items that `RemoveFront` has returned to a thread. -/
def returnedTo (t : ThreadId) (trace : List (Event α)) : List α :=
  trace.filterMap fun
    | .returned u item => if u = t then some item else none
    | _ => none

/-- The consumers that have been signalled, after one more event. -/
def Event.signals (signalled : List WaiterId) : Event α → List WaiterId
  | .signalled w => signalled ++ [w]
  | .reacquired w => signalled.erase w
  | _ => signalled

/-- The consumers that have been signalled and have not acquired the lock
since, by the semaphores that they have waited for. -/
def signalled (trace : List (Event α)) : List WaiterId :=
  trace.foldl Event.signals []

end SynchList

end Nachos.Scheduling
