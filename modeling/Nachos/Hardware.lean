import Nachos.Interrupt
import Nachos.ConsoleInput
import Nachos.DiskTiming

/-!
# The machine with its devices, as `Kernel::Initialize` puts it together

The handlers of the interrupts are here those of the devices: a device may
schedule its next interrupt, and it calls the object of the kernel that waits
for it.  What that object does is to call `V` on a semaphore; the handlers tell
which ones have done so.
-/

namespace Nachos.Scheduling

open Library

/-- `ConsoleTime`. -/
def consoleTime : ℤ := 100

/-- `NetworkTime`. -/
def networkTime : ℤ := 100

/-- `TimerTicks`. -/
def timerTicks : ℤ := 100

/-- The devices that schedule interrupts. -/
inductive Device
  | timer
  | consoleInput
  | consoleOutput
  | disk
  | networkInput
  | networkOutput
  deriving DecidableEq

namespace Device

/-- The number that a device goes by in the interrupts. -/
def number : Device → ℕ
  | timer => 0
  | consoleInput => 1
  | consoleOutput => 2
  | disk => 3
  | networkInput => 4
  | networkOutput => 5

def ofNumber : ℕ → Option Device
  | 0 => some timer
  | 1 => some consoleInput
  | 2 => some consoleOutput
  | 3 => some disk
  | 4 => some networkInput
  | 5 => some networkOutput
  | _ => none

@[simp] theorem ofNumber_number (device : Device) :
    ofNumber device.number = some device := by
  cases device <;> rfl

theorem number_inj {device other : Device} :
    device.number = other.number ↔ device = other := by
  cases device <;> cases other <;> decide

/-- The type that a device schedules its interrupts with. -/
def intType : Device → IntType
  | timer => .timerInt
  | consoleInput => .consoleReadInt
  | consoleOutput => .consoleWriteInt
  | disk => .diskInt
  | networkInput => .networkRecvInt
  | networkOutput => .networkSendInt

end Device

/-- `class Timer`, without its `Alarm`. -/
structure Timer where
  randomize : Bool
  disable : Bool

/-- The simulated machine.  `random` are the numbers that `RandomNumber` is
going to return; `socket` holds the packets that have come for this host.  The
input of the network is there when the post office has been opened. -/
structure Hardware where
  interrupt : Interrupt
  timer : Timer
  consoleInput : ConsoleInput
  consoleOutput : ConsoleOutput
  disk : TimedDisk
  networkInput : Option NetworkInput
  networkOutput : NetworkOutput
  hostName : BitVec 32
  socket : List (Buffer maxWireSize)
  random : ℕ → ℕ

/-- What a device does, as a part of the simulation. -/
def Hardware.simulate {α : Type} (outcome : Except Fault α) :
    Except Ending α :=
  outcome.mapError .fault

namespace Hardware

/-- `kernel->interrupt->Schedule(this, ...)` in a device. -/
def schedule (h : Hardware) (device : Device) (fromNow : ℤ) :
    Except Ending Hardware := do
  let interrupt ← h.interrupt.schedule ⟨device.number, fromNow, device.intType⟩
  return { h with interrupt := interrupt }

/-! ## The handlers -/

/-- `Timer::SetInterrupt`. -/
def setInterrupt (h : Hardware) : Except Ending Hardware :=
  if h.timer.disable = false then
    if h.timer.randomize then
      { h with random := fun k => h.random (k + 1) }.schedule .timer
        (1 + ((h.random 0 : ℤ) % (timerTicks * 2)))
    else h.schedule .timer timerTicks
  else .ok h

/-- `Alarm::CallBack`, with `Interrupt::YieldOnReturn`. -/
def alarmCallBack (h : Hardware) : Except Ending Hardware :=
  if h.interrupt.status ≠ .idleMode then do
    ensure (h.interrupt.inHandler = true)
    return { h with interrupt := { h.interrupt with yieldOnReturn := true } }
  else .ok h

/-- `callOnInterrupt->CallBack()`; with `true` the device has called the object
of the kernel. -/
def callBack (h : Hardware) : Device → Except Ending (Hardware × Bool)
  | .timer => do
      let h ← h.alarmCallBack
      let h ← h.setInterrupt
      return (h, false)
  | .consoleInput => do
      let (consoleInput, called) ← simulate
        { h.consoleInput with
          scheduled := h.consoleInput.scheduled - 1 }.callBack
      let h := { h with consoleInput := consoleInput }
      if called then return (h, true)
      else do
        let h ← h.schedule .consoleInput consoleTime
        return (h, false)
  | .consoleOutput =>
      .ok ({ h with consoleOutput := h.consoleOutput.callBack }, true)
  | .disk => .ok ({ h with disk := h.disk.callBack }, true)
  | .networkInput =>
      match h.networkInput with
      | none => .error (.fault .undefinedBehaviour)
      | some networkInput => do
          let h ← h.schedule .networkInput networkTime
          let (networkInput, socket, called) ← simulate
            (networkInput.callBack h.hostName h.socket)
          return ({ h with
            networkInput := some networkInput, socket := socket }, called)
  | .networkOutput =>
      .ok ({ h with networkOutput := h.networkOutput.callBack }, true)

/-- The loop of `CheckIfDue`, for a number of rounds, with the devices that
have called the kernel. -/
def fireDue : ℕ → Hardware → Except Ending (Hardware × List Device)
  | 0, _ => .error .outOfFuel
  | fuel + 1, h =>
      match h.interrupt.pending with
      | [] => .error (.fault .abort)
      | next :: rest =>
          match Device.ofNumber next.callOnInterrupt with
          | none => .error (.fault .undefinedBehaviour)
          | some device => do
              let now := h.interrupt.stats.totalTicks
              let (h, called) ← { h with interrupt := { h.interrupt with
                pending := rest
                history := h.interrupt.history ++
                  [Occurrence.fired next now] } }.callBack device
              let calls := if called then [device] else []
              if h.interrupt.frontIsDue then do
                let (h, more) ← fireDue fuel h
                return (h, calls ++ more)
              else return (h, calls)

/-! ## The clock -/

/-- `Interrupt::CheckIfDue`. -/
def checkIfDue (h : Hardware) (advanceClock : Bool) :
    Except Ending (Hardware × Bool × List Device) := do
  ensure (h.interrupt.level = .intOff)
  match h.interrupt.pending with
  | [] => return (h, false, [])
  | next :: _ =>
      if next.when > h.interrupt.stats.totalTicks ∧ advanceClock = false then
        return (h, false, [])
      else
        let stats ← h.interrupt.stats.advanceTo next.when
        let (h, calls) ← fireDue h.interrupt.pending.length
          { h with interrupt := { h.interrupt with
            stats := stats, inHandler := true } }
        return ({ h with interrupt := { h.interrupt with
          inHandler := false } }, true, calls)

/-- `Interrupt::OneTick`, up to `Yield` if that is called. -/
def oneTick (h : Hardware) : Except Ending (Hardware × List Device × Bool) := do
  let stats ← h.interrupt.stats.tick h.interrupt.status
  let (h, _, calls) ← { h with interrupt := { h.interrupt with
    stats := stats, level := .intOff } }.checkIfDue false
  let interrupt := { h.interrupt with level := .intOn }
  if interrupt.yieldOnReturn then
    return ({ h with interrupt := { interrupt with
      yieldOnReturn := false, status := .systemMode } }, calls, true)
  else return ({ h with interrupt := interrupt }, calls, false)

/-- `Interrupt::SetLevel`. -/
def setLevel (h : Hardware) (now : IntStatus) :
    Except Ending (Hardware × List Device × Bool) := do
  ensure (now = .intOff ∨ h.interrupt.inHandler = false)
  let interrupt := { h.interrupt with level := now }
  if now = .intOn ∧ h.interrupt.level = .intOff then
    oneTick { h with interrupt := interrupt }
  else return ({ h with interrupt := interrupt }, [], false)

/-- `Interrupt::Idle`. -/
def idle (h : Hardware) : Except Ending (Hardware × List Device) := do
  let (h, fired, calls) ← { h with interrupt := { h.interrupt with
    status := .idleMode } }.checkIfDue true
  if fired then
    return ({ h with interrupt := { h.interrupt with
      status := .systemMode } }, calls)
  else .error .halt

/-! ## What the kernel asks of the devices -/

/-- `ConsoleInput::GetChar`. -/
def getChar (h : Hardware) : Except Ending (Hardware × BitVec 8) := do
  let (ch, consoleInput) := h.consoleInput.getChar
  let h' := { h with consoleInput := consoleInput }
  if h.consoleInput.incoming ≠ eof then do
    let h' ← h'.schedule .consoleInput consoleTime
    return (h', ch)
  else return (h', ch)

/-- `ConsoleOutput::PutChar`. -/
def putChar (h : Hardware) (ch : BitVec 8) : Except Ending Hardware := do
  let consoleOutput ← simulate (h.consoleOutput.putChar ch)
  { h with consoleOutput := consoleOutput }.schedule .consoleOutput consoleTime

/-- `Disk::ReadRequest` and `Disk::WriteRequest`. -/
def diskRequest (h : Hardware) (r : DiskRequest) :
    Except Ending (Hardware × Sector) := do
  let (disk, data, ticks) ← simulate
    (h.disk.request h.interrupt.stats.totalTicks r)
  let h ← { h with disk := disk }.schedule .disk ticks
  return (h, data)

/-- `NetworkOutput::Send`. -/
def send (h : Hardware) (packet : Packet) : Except Ending Hardware := do
  let networkOutput ← simulate (h.networkOutput.send h.hostName packet)
  { h with networkOutput := networkOutput }.schedule .networkOutput networkTime

/-- `NetworkInput::Receive`. -/
def receive (h : Hardware) (data : Buffer maxPacketSize) :
    Except Ending (Hardware × PacketHeader × Buffer maxPacketSize) :=
  match h.networkInput with
  | none => .error (.fault .nullDereference)
  | some networkInput => do
      let (hdr, data, networkInput) ← simulate (networkInput.receive data)
      return ({ h with networkInput := some networkInput }, hdr, data)

/-- `NetworkInput::NetworkInput`, for the post office. -/
def openNetworkInput (h : Hardware) (garbage : NetworkInput) :
    Except Ending Hardware :=
  { h with networkInput := some (.new garbage) }.schedule .networkInput
    networkTime

/-! ## The steps -/

/-- What the kernel and the machine do, and what comes from outside.  The mode
is set where a user program is entered or left, and where the thread that has
yielded in `OneTick` goes on. -/
inductive Action
  | oneTick
  | setLevel (now : IntStatus)
  | idle
  | setStatus (user : Bool)
  | disableTimer
  | openNetworkInput (garbage : NetworkInput)
  | getChar
  | putChar (ch : BitVec 8)
  | diskRequest (r : DiskRequest)
  | send (packet : Packet)
  | receive (data : Buffer maxPacketSize)
  | typed (ch : BitVec 8)
  | inputEnds
  | arrives (packet : Buffer maxWireSize)

/-- A device has called the kernel, and the thread that runs has been told to
yield, or the machine has been idle. -/
inductive Event
  | quiet
  | ticked (calls : List Device) (yields : Bool)
  | idled (calls : List Device)
  deriving DecidableEq

def step (h : Hardware) : Action → Except Ending (Hardware × Event)
  | .oneTick => do
      let (h, calls, yields) ← h.oneTick
      return (h, .ticked calls yields)
  | .setLevel now => do
      let (h, calls, yields) ← h.setLevel now
      return (h, .ticked calls yields)
  | .idle => do
      let (h, calls) ← h.idle
      return (h, .idled calls)
  | .setStatus user =>
      .ok ({ h with interrupt := { h.interrupt with
        status := if user then .userMode else .systemMode } }, .quiet)
  | .disableTimer =>
      .ok ({ h with timer := { h.timer with disable := true } }, .quiet)
  | .openNetworkInput garbage => do
      let h ← h.openNetworkInput garbage
      return (h, .quiet)
  | .getChar => do
      let (h, _) ← h.getChar
      return (h, .quiet)
  | .putChar ch => do
      let h ← h.putChar ch
      return (h, .quiet)
  | .diskRequest r => do
      let (h, _) ← h.diskRequest r
      return (h, .quiet)
  | .send packet => do
      let h ← h.send packet
      return (h, .quiet)
  | .receive data => do
      let (h, _) ← h.receive data
      return (h, .quiet)
  | .typed ch =>
      .ok ({ h with consoleInput := { h.consoleInput with
        unread := h.consoleInput.unread ++ [ch] } }, .quiet)
  | .inputEnds =>
      .ok ({ h with consoleInput := { h.consoleInput with ended := true } },
        .quiet)
  | .arrives packet =>
      .ok ({ h with socket := h.socket ++ [packet] }, .quiet)

/-- The devices, before any of them has scheduled an interrupt. -/
def blank (randomize : Bool) (hostName : BitVec 32) (random : ℕ → ℕ)
    (sectors : ℤ → Sector) : Hardware where
  interrupt := .start
  timer := ⟨randomize, false⟩
  consoleInput := .new
  consoleOutput := .new
  disk := .new sectors
  networkInput := none
  networkOutput := .new
  hostName := hostName
  socket := []
  random := random

/-- `Timer::Timer`, `ConsoleInput::ConsoleInput`, and the other devices, up to
`new SynchDisk()`. -/
def boot (randomize : Bool) (hostName : BitVec 32) (random : ℕ → ℕ)
    (sectors : ℤ → Sector) : Except Ending Hardware := do
  let h ← (blank randomize hostName random sectors).setInterrupt
  h.schedule .consoleInput consoleTime

def system (start : Hardware) : StepSystem Hardware Action Event Ending where
  start := start
  step := step

end Hardware

end Nachos.Scheduling
