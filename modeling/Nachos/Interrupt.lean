import Nachos.Library.StepSystem
import Nachos.Basic

/-!
# Simulated interrupts: `machine/interrupt.cc` and `machine/stats.h`

Simulated time advances when interrupts are enabled, when a user instruction
has been executed and when the machine is idle.  An `int` of the host that
overflows has undefined behaviour.  The interrupt handlers are those of the
devices; what counts of them here is which interrupts they schedule, and
whether they ask for a context switch.
-/

namespace Nachos

open Library

/-- `SystemTick`. -/
def systemTick : ℤ := 10

/-- `UserTick`. -/
def userTick : ℤ := 1

inductive IntStatus
  | intOff
  | intOn
  deriving DecidableEq

inductive MachineStatus
  | idleMode
  | systemMode
  | userMode
  deriving DecidableEq

inductive IntType
  | timerInt
  | diskInt
  | consoleWriteInt
  | consoleReadInt
  | networkSendInt
  | networkRecvInt
  deriving DecidableEq

/-- `callOnInterrupt` is the number of a device.  The objects are told apart
by `serial`, which is how many there were before. -/
structure PendingInterrupt where
  callOnInterrupt : ℕ
  when : ℤ
  type : IntType
  serial : ℕ
  deriving DecidableEq

/-- `PendingCompare`. -/
def pendingCompare (x y : PendingInterrupt) : ℤ :=
  if x.when < y.when then -1 else if x.when > y.when then 1 else 0

/-- `SortedList::Insert`, behind its assertion. -/
def SortedList.insert {T : Type} (compare : T → T → ℤ) (item : T) :
    List T → List T
  | [] => [item]
  | first :: rest =>
      if compare item first < 0 then item :: first :: rest
      else first :: insert compare item rest

structure Statistics where
  totalTicks : ℤ
  idleTicks : ℤ
  systemTicks : ℤ
  userTicks : ℤ
  deriving DecidableEq

/-- The arguments of `Interrupt::Schedule`. -/
structure ScheduleRequest where
  toCall : ℕ
  fromNow : ℤ
  type : IntType
  deriving DecidableEq

/-- What a handler does: the interrupts that it schedules, in order, and
whether it calls `YieldOnReturn`. -/
structure HandlerCall where
  requests : List ScheduleRequest
  yieldOnReturn : Bool
  deriving DecidableEq

inductive Occurrence
  | scheduled (interrupt : PendingInterrupt)
  | fired (interrupt : PendingInterrupt) (now : ℤ)
  deriving DecidableEq

/-- The interrupts and the clock.  The objects that have been allocated, and
the history, are there for the statements only. -/
structure Interrupt where
  level : IntStatus
  pending : List PendingInterrupt
  inHandler : Bool
  yieldOnReturn : Bool
  status : MachineStatus
  stats : Statistics
  allocated : ℕ
  history : List Occurrence
  deriving DecidableEq

/-- How the simulation can end: with a fault, in `Halt`, or in a loop that has
gone beyond its number of rounds. -/
inductive Ending
  | fault (fault : Fault)
  | halt
  | outOfFuel
  deriving DecidableEq

/-- `ASSERT(condition)`. -/
def ensure (condition : Prop) [Decidable condition] : Except Ending Unit :=
  (assert condition).mapError .fault

/-- The sum of two integers of the host. -/
def addInt (x y : ℤ) : Except Ending ℤ :=
  if -2 ^ 31 ≤ x + y ∧ x + y < 2 ^ 31 then .ok (x + y)
  else .error (.fault .undefinedBehaviour)

/-- The clock is set to a time in the future, if it is one. -/
def Statistics.advanceTo (stats : Statistics) (when : ℤ) :
    Except Ending Statistics :=
  if when > stats.totalTicks then do
    let idleTicks ← addInt stats.idleTicks (when - stats.totalTicks)
    return { stats with idleTicks := idleTicks, totalTicks := when }
  else .ok stats

/-- The clock advances by one tick of the machine's mode. -/
def Statistics.tick (stats : Statistics) (status : MachineStatus) :
    Except Ending Statistics :=
  if status = .systemMode then do
    let totalTicks ← addInt stats.totalTicks systemTick
    let systemTicks ← addInt stats.systemTicks systemTick
    return { stats with totalTicks := totalTicks, systemTicks := systemTicks }
  else do
    let totalTicks ← addInt stats.totalTicks userTick
    let userTicks ← addInt stats.userTicks userTick
    return { stats with totalTicks := totalTicks, userTicks := userTicks }

namespace Interrupt

/-- `Interrupt::Interrupt` and `Statistics::Statistics`. -/
def start : Interrupt where
  level := .intOff
  pending := []
  inHandler := false
  yieldOnReturn := false
  status := .systemMode
  stats := ⟨0, 0, 0, 0⟩
  allocated := 0
  history := []

/-- `Interrupt::Schedule`. -/
def schedule (s : Interrupt) (request : ScheduleRequest) :
    Except Ending Interrupt := do
  let when ← addInt s.stats.totalTicks request.fromNow
  let toOccur : PendingInterrupt :=
    ⟨request.toCall, when, request.type, s.allocated⟩
  ensure (request.fromNow > 0)
  ensure (toOccur ∉ s.pending)
  return { s with
    pending := SortedList.insert pendingCompare toOccur s.pending
    allocated := s.allocated + 1
    history := s.history ++ [.scheduled toOccur] }

/-- `next->callOnInterrupt->CallBack()`. -/
def callBack (s : Interrupt) (handler : HandlerCall) :
    Except Ending Interrupt := do
  let s ← handler.requests.foldlM schedule s
  return { s with yieldOnReturn := s.yieldOnReturn || handler.yieldOnReturn }

/-- `!pending->IsEmpty() && (pending->Front()->when <= stats->totalTicks)`. -/
def frontIsDue (s : Interrupt) : Bool :=
  s.pending.head?.any (fun front => front.when ≤ s.stats.totalTicks)

/-- The loop of `CheckIfDue`, for a number of rounds.  The handlers are those
that are called, one after the other. -/
def fireDue : ℕ → (ℕ → HandlerCall) → Interrupt → Except Ending Interrupt
  | 0, _, _ => .error .outOfFuel
  | fuel + 1, handlers, s =>
      match s.pending with
      | [] => .error (.fault .abort)
      | next :: rest => do
          let s ← callBack { s with
            pending := rest
            history := s.history ++ [.fired next s.stats.totalTicks] }
            (handlers 0)
          if s.frontIsDue then fireDue fuel (fun k => handlers (k + 1)) s
          else return s

/-- `Interrupt::CheckIfDue`.  The loop takes one round for each interrupt that
is pending ahead of it, at most. -/
def checkIfDue (s : Interrupt) (advanceClock : Bool)
    (handlers : ℕ → HandlerCall) : Except Ending (Interrupt × Bool) := do
  ensure (s.level = .intOff)
  match s.pending with
  | [] => return (s, false)
  | next :: _ =>
      if next.when > s.stats.totalTicks ∧ advanceClock = false then
        return (s, false)
      else
        let stats ← s.stats.advanceTo next.when
        let s ← fireDue s.pending.length handlers
          { s with stats := stats, inHandler := true }
        return ({ s with inHandler := false }, true)

/-- `Interrupt::OneTick`, up to `Yield` if that is called. -/
def oneTick (s : Interrupt) (handlers : ℕ → HandlerCall) :
    Except Ending Interrupt := do
  let stats ← s.stats.tick s.status
  let (s, _) ← checkIfDue { s with stats := stats, level := .intOff } false
    handlers
  let s := { s with level := .intOn }
  if s.yieldOnReturn then
    return { s with yieldOnReturn := false, status := .systemMode }
  else return s

/-- `Interrupt::SetLevel`. -/
def setLevel (s : Interrupt) (now : IntStatus) (handlers : ℕ → HandlerCall) :
    Except Ending Interrupt := do
  ensure (now = .intOff ∨ s.inHandler = false)
  if now = .intOn ∧ s.level = .intOff then
    oneTick { s with level := now } handlers
  else return { s with level := now }

/-- `Interrupt::Idle`. -/
def idle (s : Interrupt) (handlers : ℕ → HandlerCall) :
    Except Ending Interrupt := do
  let (s, fired) ← checkIfDue { s with status := .idleMode } true handlers
  if fired then return { s with status := .systemMode }
  else .error .halt

/-- What the kernel and the machine do with the interrupts.  `setStatus` is
also the rest of `OneTick` when the thread that has called `Yield` in it is
resumed. -/
inductive Action
  | schedule (request : ScheduleRequest)
  | oneTick (handlers : ℕ → HandlerCall)
  | setLevel (now : IntStatus) (handlers : ℕ → HandlerCall)
  | idle (handlers : ℕ → HandlerCall)
  | setStatus (st : MachineStatus)

def perform (s : Interrupt) : Action → Except Ending Interrupt
  | .schedule request => s.schedule request
  | .oneTick handlers => s.oneTick handlers
  | .setLevel now handlers => s.setLevel now handlers
  | .idle handlers => s.idle handlers
  | .setStatus st => .ok { s with status := st }

/-- Nothing but the states is observed. -/
def system : StepSystem Interrupt Action Unit Ending where
  start := start
  step s action := do
    let s' ← s.perform action
    return (s', ())

end Interrupt

end Nachos
