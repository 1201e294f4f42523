import Nachos.Library.StepSystem
import Nachos.Locks
import Nachos.Network

/-!
# Synchronized devices: `synchdisk.cc`, `synchconsole.cc` and `post.cc`

A device takes one request at a time, and tells with an interrupt that it can
take the next one.  Any number of threads call the kernel's interface to it,
which is the same for the disk, for the console and for the network: a thread
acquires a lock, makes its request, and waits for the interrupt before it
releases the lock.
-/

namespace Nachos.Scheduling

open Library

/-! ## The devices -/

/-- A request by its number: the kernel has made as many before. -/
abbrev RequestId := ℕ

/-- `SectorSize`. -/
def sectorSize : ℕ := 128

/-- `NumSectors`. -/
def numSectors : ℤ := 32 * 32

abbrev Sector := Fin sectorSize → BitVec 8

/-- `class Disk`, with what the file of the simulated disk contains. -/
structure Disk where
  sectors : ℤ → Sector
  active : Bool

inductive DiskRequest
  | read (sectorNumber : ℤ)
  | write (sectorNumber : ℤ) (data : Sector)

/-- The sector of the request exists. -/
def DiskRequest.InRange : DiskRequest → Prop
  | .read sectorNumber => 0 ≤ sectorNumber ∧ sectorNumber < numSectors
  | .write sectorNumber _ => 0 ≤ sectorNumber ∧ sectorNumber < numSectors

namespace Disk

/-- `Disk::Disk`. -/
def new (sectors : ℤ → Sector) : Disk :=
  ⟨sectors, false⟩

/-- `Disk::ReadRequest`, with what it puts into the buffer of the caller. -/
def readRequest (disk : Disk) (sectorNumber : ℤ) :
    Except Fault (Disk × Sector) := do
  assert (disk.active = false)
  assert (0 ≤ sectorNumber ∧ sectorNumber < numSectors)
  return ({ disk with active := true }, disk.sectors sectorNumber)

/-- `Disk::WriteRequest`. -/
def writeRequest (disk : Disk) (sectorNumber : ℤ) (data : Sector) :
    Except Fault Disk := do
  assert (disk.active = false)
  assert (0 ≤ sectorNumber ∧ sectorNumber < numSectors)
  return ⟨Function.update disk.sectors sectorNumber data, true⟩

/-- Either request, with what is in the buffer of the caller behind it. -/
def request (disk : Disk) : DiskRequest → Except Fault (Disk × Sector)
  | .read sectorNumber => disk.readRequest sectorNumber
  | .write sectorNumber data => do
      let disk ← disk.writeRequest sectorNumber data
      return (disk, data)

/-- `Disk::CallBack`, up to the call of `SynchDisk::CallBack`. -/
def callBack (disk : Disk) : Disk :=
  { disk with active := false }

end Disk

/-- `class ConsoleOutput`, with the characters that have been written. -/
structure ConsoleOutput where
  written : List (BitVec 8)
  putBusy : Bool

namespace ConsoleOutput

/-- `ConsoleOutput::ConsoleOutput`. -/
def new : ConsoleOutput :=
  ⟨[], false⟩

/-- `ConsoleOutput::PutChar`. -/
def putChar (console : ConsoleOutput) (ch : BitVec 8) :
    Except Fault ConsoleOutput := do
  assert (console.putBusy = false)
  return ⟨console.written ++ [ch], true⟩

/-- `ConsoleOutput::CallBack`, up to the call of
`SynchConsoleOutput::CallBack`. -/
def callBack (console : ConsoleOutput) : ConsoleOutput :=
  { console with putBusy := false }

end ConsoleOutput

/-! ## The kernel's interface to them -/

/-- What the kernel calls a device with: what it does before it acquires the
lock, the flag that the device asserts to be down, the request, and what the
device does when its interrupt occurs. -/
structure Driver (Device Call Request Answer : Type) where
  prepare : Call → Except Fault Request
  busy : Device → Bool
  request : Device → Request → Except Fault (Device × Answer)
  callBack : Device → Device
  busy_callBack : ∀ device, busy (callBack device) = false

/-- `SynchDisk::ReadSector` and `SynchDisk::WriteSector`. -/
def synchDisk : Driver Disk DiskRequest DiskRequest Sector where
  prepare := .ok
  busy := Disk.active
  request := Disk.request
  callBack := Disk.callBack
  busy_callBack _ := rfl

/-- `SynchConsoleOutput::PutChar`. -/
def synchConsoleOutput : Driver ConsoleOutput (BitVec 8) (BitVec 8) Unit where
  prepare := .ok
  busy := ConsoleOutput.putBusy
  request console ch := do
    let console ← console.putChar ch
    return (console, ())
  callBack := ConsoleOutput.callBack
  busy_callBack _ := rfl

/-- `PostOfficeOutput::Send`. -/
def postOfficeOutput (hostName : BitVec 32) :
    Driver NetworkOutput Letter Packet Unit where
  prepare letter := letter.frame hostName
  busy := NetworkOutput.sendBusy
  request network packet := do
    let network ← network.send hostName packet
    return (network, ())
  callBack := NetworkOutput.callBack
  busy_callBack _ := rfl

namespace SynchDevice

/-- The statement that a thread is about to execute. -/
inductive Point (Request Answer : Type)
  | outside
  -- `Acquire`
  | acquiring (request : Request)
  | acquired (request : Request)
  | requesting (request : Request)
  -- `P`
  | waiting (id : RequestId) (answer : Answer)
  -- `Release`
  | releasing (id : RequestId) (answer : Answer)
  | released (id : RequestId) (answer : Answer)
  | returning (id : RequestId) (answer : Answer)

end SynchDevice

/-- A device with its lock and its semaphore.  `scheduled` are the requests
whose interrupt has been scheduled and has not occurred, and `issued` is the
number of requests that have been made. -/
structure SynchDevice (Device Request Answer : Type) where
  device : Device
  lock : Lock
  waitFor : Semaphore
  scheduled : List RequestId
  issued : RequestId
  point : ThreadId → SynchDevice.Point Request Answer

namespace SynchDevice

/-- A thread makes a call, or takes a step in one, or the interrupt of a
request occurs. -/
inductive Action (Call : Type)
  | call (t : ThreadId) (call : Call)
  | go (t : ThreadId)
  | interrupt (id : RequestId)

inductive Event (Answer : Type)
  | silent
  | issued (t : ThreadId) (id : RequestId)
  | completed (id : RequestId)
  | returned (t : ThreadId) (id : RequestId) (answer : Answer)

variable {Device Call Request Answer : Type}

def setPoint (s : SynchDevice Device Request Answer) (t : ThreadId)
    (point : Point Request Answer) : SynchDevice Device Request Answer :=
  { s with point := Function.update s.point t point }

/-- The next statement of a thread, if it is not asleep. -/
def go (driver : Driver Device Call Request Answer)
    (s : SynchDevice Device Request Answer) (t : ThreadId) :
    Except StepError (SynchDevice Device Request Answer × Event Answer) :=
  match s.point t with
  | .outside => .error .disabled
  | .acquiring request =>
      if t ∈ s.lock.semaphore.queue then .error .disabled
      else
        let (lock, passes) := s.lock.test t
        let s := { s with lock := lock }
        if passes then .ok (s.setPoint t (.acquired request), .silent)
        else .ok (s, .silent)
  | .acquired request =>
      .ok ({ s with lock := s.lock.hold t }.setPoint t (.requesting request),
        .silent)
  | .requesting request => do
      let (device, answer) ← Threads.simulate (driver.request s.device request)
      return ({ s with
        device := device
        scheduled := s.scheduled ++ [s.issued]
        issued := s.issued + 1 }.setPoint t (.waiting s.issued answer),
          .issued t s.issued)
  | .waiting id answer =>
      if t ∈ s.waitFor.queue then .error .disabled
      else
        let (waitFor, passes) := s.waitFor.test t
        let s := { s with waitFor := waitFor }
        if passes then .ok (s.setPoint t (.releasing id answer), .silent)
        else .ok (s, .silent)
  | .releasing id answer => do
      let lock ← Threads.simulate (s.lock.drop t)
      return ({ s with lock := lock }.setPoint t (.released id answer), .silent)
  | .released id answer =>
      .ok ({ s with lock := s.lock.give }.setPoint t (.returning id answer),
        .silent)
  | .returning id answer =>
      .ok (s.setPoint t .outside, .returned t id answer)

def step (driver : Driver Device Call Request Answer)
    (s : SynchDevice Device Request Answer) (action : Action Call) :
    Except StepError (SynchDevice Device Request Answer × Event Answer) :=
  match action with
  | .call t call =>
      match s.point t with
      | .outside => do
          let request ← Threads.simulate (driver.prepare call)
          return (s.setPoint t (.acquiring request), .silent)
      | _ => .error .disabled
  | .go t => s.go driver t
  | .interrupt id =>
      if id ∈ s.scheduled then
        .ok ({ s with
          device := driver.callBack s.device
          scheduled := s.scheduled.erase id
          waitFor := s.waitFor.give }, .completed id)
      else .error .disabled

/-- `SynchDisk::SynchDisk`, `SynchConsoleOutput::SynchConsoleOutput` and
`PostOfficeOutput::PostOfficeOutput`. -/
def start (device : Device) : SynchDevice Device Request Answer where
  device := device
  lock := .new
  waitFor := ⟨0, []⟩
  scheduled := []
  issued := 0
  point _ := .outside

def system (driver : Driver Device Call Request Answer) (device : Device) :
    StepSystem (SynchDevice Device Request Answer) (Action Call) (Event Answer)
      StepError where
  start := start device
  step := step driver

/-! ## What the events say -/

/-- The requests that have been made, and by whom. -/
def issues (trace : List (Event Answer)) : List (ThreadId × RequestId) :=
  trace.filterMap fun
    | .issued t id => some (t, id)
    | _ => none

/-- The requests that a thread has made. -/
def issuedBy (t : ThreadId) (trace : List (Event Answer)) : List RequestId :=
  trace.filterMap fun
    | .issued u id => if u = t then some id else none
    | _ => none

/-- The requests whose interrupt has occurred. -/
def completed (trace : List (Event Answer)) : List RequestId :=
  trace.filterMap fun
    | .completed id => some id
    | _ => none

/-- The requests for which a call has returned to a thread. -/
def returnedTo (t : ThreadId) (trace : List (Event Answer)) : List RequestId :=
  trace.filterMap fun
    | .returned u id _ => if u = t then some id else none
    | _ => none

end SynchDevice

end Nachos.Scheduling
