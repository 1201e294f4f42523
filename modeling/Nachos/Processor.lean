import Nachos.HardwareRuns
import Nachos.ThreadPlaces

/-!
# The processor: kernel threads on the machine with its devices

While a thread runs with interrupts enabled, `OneTick` lets the time pass: the
devices whose interrupts are due call `V` on semaphores of the kernel, and the
timer makes the thread yield.  When there is no thread to run, `Idle` waits for
the next interrupt.
-/

namespace Nachos.Scheduling

open Library

/-- The threads, on the machine.  The level of the interrupts is that of the
threads, except within the machine. -/
structure Processor where
  hardware : Hardware
  threads : Threads

/-- How a step of the processor can fail. -/
abbrev ProcessorError := Ending ⊕ StepError

namespace Processor

/-- The time. -/
def now (p : Processor) : ℤ :=
  p.hardware.interrupt.stats.totalTicks

/-- Time passes, in the thread that runs or in `Idle`; a device is asked
something, or something comes for it from outside; the threads take a step. -/
inductive Action
  | oneTick
  | idle
  | device (action : Hardware.Action)
  | thread (action : Scheduling.Action)

def onHardware {α : Type} (outcome : Except Ending α) :
    Except ProcessorError α :=
  outcome.mapError .inl

def onThreads {α : Type} (outcome : Except StepError α) :
    Except ProcessorError α :=
  outcome.mapError .inr

/-- The handlers of the devices call `V`, each on the semaphore of its
device. -/
def handlersV (semaphoreOf : Device → SemaphoreId) (k : Threads) :
    List Device → Except StepError (Threads × List Scheduling.Event)
  | [] => .ok (k, [])
  | device :: calls => do
      let (k, event) ← Threads.step k (.handlerV (semaphoreOf device))
      let (k, events) ← handlersV semaphoreOf k calls
      return (k, event :: events)

/-- `OneTick`, with the `Yield` in it. -/
def oneTick (semaphoreOf : Device → SemaphoreId) (p : Processor) :
    Except ProcessorError (Processor × List Scheduling.Event) := do
  let (hardware, calls, yields) ← onHardware p.hardware.oneTick
  let (threads, events) ← onThreads (handlersV semaphoreOf p.threads calls)
  if yields then do
    let (threads, event) ← onThreads (Threads.step threads .yield)
    return (⟨hardware, threads⟩, events ++ [event])
  else return (⟨hardware, threads⟩, events)

/-- The loop of `Sleep` calls `Idle`, with interrupts disabled. -/
def idle (semaphoreOf : Device → SemaphoreId) (p : Processor) :
    Except ProcessorError (Processor × List Scheduling.Event) := do
  let (hardware, calls) ← onHardware { p.hardware with
    interrupt := { p.hardware.interrupt with level := .intOff } }.idle
  let (threads, events) ← onThreads (handlersV semaphoreOf p.threads calls)
  let (threads, event) ← onThreads (Threads.step threads .idleReturns)
  return (⟨hardware, threads⟩, events ++ [event])

/-- What has happened to the threads in a step. -/
def step (semaphoreOf : Device → SemaphoreId) (p : Processor) :
    Action → Except ProcessorError (Processor × List Scheduling.Event)
  | .oneTick =>
      match p.threads.control with
      | .running => p.oneTick semaphoreOf
      | _ => .error (.inr .disabled)
  | .idle =>
      match p.threads.control with
      | .idling _ => p.idle semaphoreOf
      | _ => .error (.inr .disabled)
  | .device action =>
      match action with
      | .oneTick | .setLevel _ | .idle => .error (.inr .disabled)
      | _ => do
          let (hardware, _) ← onHardware (p.hardware.step action)
          return ({ p with hardware := hardware }, [])
  | .thread action =>
      match action with
      | .handlerV _ | .idleReturns => .error (.inr .disabled)
      | _ => do
          let (threads, event) ← onThreads (Threads.step p.threads action)
          return ({ p with threads := threads }, [event])

def system (semaphoreOf : Device → SemaphoreId) (start : Processor) :
    StepSystem Processor Action (List Scheduling.Event) ProcessorError where
  start := start
  step := step semaphoreOf

/-- What the processor does next, unless the thread that runs has something
else to do. -/
def next (p : Processor) : Action :=
  match p.threads.control with
  | .running => .oneTick
  | .idling _ => .idle
  | .sleeping _ => .thread .search
  | .switched => .thread .goOn

/-- The devices are asked and served as they are made for. -/
def Sane (_ : List (List Scheduling.Event)) (p : Processor) : Action → Prop
  | .device action => Hardware.Sane [] p.hardware action
  | _ => True

/-- Moreover, the timer is not turned off. -/
def Timed (trace : List (List Scheduling.Event)) (p : Processor)
    (action : Action) : Prop :=
  Sane trace p action ∧ action ≠ .device .disableTimer

/-- The processor has been switched to the thread, and has gone on in it. -/
def Dispatched (t : ThreadId) (trace : List (List Scheduling.Event)) : Prop :=
  ∃ events ∈ trace, ∃ destroyed tested,
    Scheduling.Event.resumed t destroyed tested ∈ events

end Processor

end Nachos.Scheduling
