import Nachos.Devices
import Nachos.Library.Rotation

/-!
# How long the disk takes: the simulated time of `disk.cc`

The sectors of a track pass the head one after the other, and the head is moved
from track to track.  While it stays on a track, what passes is kept in the
track buffer.
-/

namespace Nachos.Scheduling

open Library

/-- `SectorsPerTrack`. -/
def sectorsPerTrack : ℕ := 32

/-- `RotationTime`. -/
def rotationTime : ℕ := 500

/-- `SeekTime`. -/
def seekTime : ℕ := 500

/-- `class Disk`, with what it knows of the head. -/
structure TimedDisk where
  disk : Disk
  lastSector : ℤ
  bufferInit : ℤ

def DiskRequest.sectorNumber : DiskRequest → ℤ
  | .read sectorNumber | .write sectorNumber _ => sectorNumber

def DiskRequest.writing : DiskRequest → Bool
  | .read _ => false
  | .write _ _ => true

namespace TimedDisk

/-- `Disk::Disk`. -/
def new (sectors : ℤ → Sector) : TimedDisk :=
  ⟨Disk.new sectors, 0, 0⟩

/-- `Disk::TimeToSeek`: the seek, and the rotation after it. -/
def timeToSeek (d : TimedDisk) (totalTicks newSector : ℤ) : ℤ × ℤ :=
  let newTrack := newSector.tdiv sectorsPerTrack
  let oldTrack := d.lastSector.tdiv sectorsPerTrack
  let seek := |newTrack - oldTrack| * seekTime
  let past := (totalTicks + seek).tmod rotationTime
  (seek, if past > 0 then rotationTime - past else 0)

/-- `Disk::ModuloDiff`. -/
def moduloDiff (target current : ℤ) : ℤ :=
  let toOffset := target.tmod sectorsPerTrack
  let fromOffset := current.tmod sectorsPerTrack
  (toOffset - fromOffset + sectorsPerTrack).tmod sectorsPerTrack

/-- The condition for the track buffer in `ComputeLatency`. -/
def inTrackBuffer (d : TimedDisk) (timeAfter newSector : ℤ) : Prop :=
  (timeAfter - d.bufferInit).tdiv rotationTime >
    moduloDiff newSector (d.bufferInit.tdiv rotationTime)

instance (d : TimedDisk) (timeAfter newSector : ℤ) :
    Decidable (d.inTrackBuffer timeAfter newSector) :=
  inferInstanceAs (Decidable (_ > _))

/-- `Disk::ComputeLatency`. -/
def computeLatency (d : TimedDisk) (totalTicks newSector : ℤ)
    (writing : Bool) : ℤ :=
  let (seek, rotation) := d.timeToSeek totalTicks newSector
  let timeAfter := totalTicks + seek + rotation
  if writing = false ∧ seek = 0 ∧ d.inTrackBuffer timeAfter newSector then
    rotationTime
  else
    let rotation := rotation +
      moduloDiff newSector (timeAfter.tdiv rotationTime) * rotationTime
    seek + rotation + rotationTime

/-- `Disk::UpdateLast`. -/
def updateLast (d : TimedDisk) (totalTicks newSector : ℤ) : TimedDisk :=
  let (seek, rotate) := d.timeToSeek totalTicks newSector
  { d with
    bufferInit := if seek ≠ 0 then totalTicks + seek + rotate else d.bufferInit
    lastSector := newSector }

/-- `Disk::ReadRequest` and `Disk::WriteRequest`, with the ticks until the
interrupt; `Interrupt::Schedule` asserts that there are some. -/
def request (d : TimedDisk) (totalTicks : ℤ) (r : DiskRequest) :
    Except Fault (TimedDisk × Sector × ℤ) := do
  let ticks := d.computeLatency totalTicks r.sectorNumber r.writing
  let (disk, data) ← d.disk.request r
  assert (ticks > 0)
  return ({ d with disk := disk }.updateLast totalTicks r.sectorNumber, data,
    ticks)

/-- `Disk::CallBack`. -/
def callBack (d : TimedDisk) : TimedDisk :=
  { d with disk := d.disk.callBack }

end TimedDisk

/-! ## The disk in time -/

/-- Where the head is, and when it has come or will come there. -/
structure DiskHead where
  track : ℕ
  arrival : ℕ

/-- The head goes to another track, or stays where it is. -/
def DiskHead.moveTo (head : DiskHead) (now track : ℕ) : DiskHead :=
  if track = head.track then head
  else ⟨track, now + ((track : ℤ) - head.track).natAbs * seekTime⟩

/-- The disk at a time, with the time when its interrupt is due, if one is
pending, and its head. -/
structure DiskClock where
  totalTicks : ℕ
  disk : TimedDisk
  due : Option ℤ
  head : DiskHead

inductive DiskMove
  | pass (ticks : ℕ)
  | request (r : DiskRequest)
  | interrupt

/-- Of a request it is known when it was made, when it is going to be done,
and how the head goes to its track. -/
inductive DiskEvent
  | passed (ticks : ℕ)
  | requested (r : DiskRequest) (start : ℕ) (finish : ℤ) (head : DiskHead)
  | interrupted

namespace DiskClock

def step (c : DiskClock) : DiskMove → Except Fault (DiskClock × DiskEvent)
  | .pass ticks =>
      return ({ c with totalTicks := c.totalTicks + ticks }, .passed ticks)
  | .request r => do
      let (disk, _, ticks) ← c.disk.request c.totalTicks r
      let head := c.head.moveTo c.totalTicks
        (r.sectorNumber.toNat / sectorsPerTrack)
      return ({ c with
        disk := disk, due := some (c.totalTicks + ticks), head := head },
        .requested r c.totalTicks (c.totalTicks + ticks) head)
  | .interrupt =>
      return ({ c with disk := c.disk.callBack, due := none }, .interrupted)

def system (sectors : ℤ → Sector) :
    StepSystem DiskClock DiskMove DiskEvent Fault where
  start := ⟨0, .new sectors, none, ⟨0, 0⟩⟩
  step := step

/-- An interrupt comes when it is due, or later. -/
def InTime (_ : List DiskEvent) (c : DiskClock) : DiskMove → Prop
  | .interrupt => ∃ due, c.due = some due ∧ due ≤ c.totalTicks
  | _ => True

end DiskClock

/-- When a request is done.  A read is done when the sector has passed once
since the head has come to the track, but it takes no less than it takes to
transfer the sector.  A write has to wait until the sector comes. -/
def DoneAt (r : DiskRequest) (start : ℕ) (head : DiskHead) (finish : ℤ) :
    Prop :=
  ∃ slot, IsLeast (passes sectorsPerTrack rotationTime
      (r.sectorNumber.toNat % sectorsPerTrack)
      (if r.writing then max start head.arrival else head.arrival)) slot ∧
    finish = (max (start + rotationTime) ((slot + 1) * rotationTime) : ℕ)

end Nachos.Scheduling
