import Nachos.DiskTiming

/-!
# The latency of the disk is that of a disk that rotates

`ComputeLatency` knows of the head only the last sector and where the track
buffer begins.  In every run this is enough: a request is done when the sector
has passed the head.
-/

namespace Nachos.Scheduling

open Library

/-! ## Natural numbers -/

section Cast

variable {d : TimedDisk} {last sector now : ℕ}

/-- The next beginning of a sector. -/
def boundary (time : ℕ) : ℕ := time ⌈/⌉ rotationTime

theorem boundary_bounds (time : ℕ) :
    time ≤ boundary time * 500 ∧ boundary time * 500 < time + 500 := by
  rw [boundary, Nat.ceilDiv_eq_add_pred_div]
  unfold rotationTime
  omega

theorem boundary_mono {time time' : ℕ} (hle : time ≤ time') :
    boundary time ≤ boundary time' := by
  have hbefore := boundary_bounds time
  have hafter := boundary_bounds time'
  omega

/-- The ticks of a seek from the track of a sector to that of another. -/
def seekTicks (last sector : ℕ) : ℕ :=
  ((sector / sectorsPerTrack : ℕ) - (last / sectorsPerTrack : ℕ) : ℤ).natAbs *
    seekTime

theorem timeToSeek_eq (hlast : d.lastSector = last) :
    d.timeToSeek now sector = (((seekTicks last sector : ℕ) : ℤ),
      (boundary (now + seekTicks last sector) * 500 -
        (now + seekTicks last sector) : ℤ)) := by
  have hseek : |(sector : ℤ).tdiv sectorsPerTrack -
      d.lastSector.tdiv sectorsPerTrack| * seekTime =
        (seekTicks last sector : ℕ) := by
    rw [hlast, Int.tdiv_eq_ediv_of_nonneg (Int.natCast_nonneg _),
      Int.tdiv_eq_ediv_of_nonneg (Int.natCast_nonneg _), seekTicks]
    push_cast
    rfl
  have hbounds := boundary_bounds (now + seekTicks last sector)
  simp only [TimedDisk.timeToSeek, hseek, Prod.mk.injEq, true_and]
  generalize seekTicks last sector = seek at *
  rw [Int.tmod_eq_emod_of_nonneg (by omega)]
  unfold rotationTime
  split_ifs <;> omega

theorem moduloDiff_eq (sector slot : ℕ) :
    TimedDisk.moduloDiff sector slot =
      (slotsUntil sectorsPerTrack (sector % sectorsPerTrack) slot : ℕ) := by
  have hslot : slot % 32 < 32 := Nat.mod_lt _ (by decide)
  rw [TimedDisk.moduloDiff, slotsUntil,
    Int.tmod_eq_emod_of_nonneg (Int.natCast_nonneg sector),
    Int.tmod_eq_emod_of_nonneg (Int.natCast_nonneg slot),
    Int.tmod_eq_emod_of_nonneg (by unfold sectorsPerTrack; omega)]
  unfold sectorsPerTrack
  omega

end Cast

/-! ## The latency of a request -/

section Latency

variable {d : TimedDisk} {head : DiskHead} {last sector now : ℕ}

/-- The first slot of a sector from a time on. -/
def firstSlot (sector time : ℕ) : ℕ :=
  boundary time +
    slotsUntil sectorsPerTrack (sector % sectorsPerTrack) (boundary time)

theorem isLeast_firstSlot (sector time : ℕ) :
    IsLeast (passes sectorsPerTrack rotationTime (sector % sectorsPerTrack)
      time) (firstSlot sector time) :=
  isLeast_passes (by decide) (Nat.mod_lt _ (by decide))

/-- Without the track buffer a request waits for its sector. -/
theorem wait_eq (sector now seek : ℕ) :
    (now : ℤ) + (seek + ((boundary (now + seek) * 500 - (now + seek)) +
      TimedDisk.moduloDiff sector ((now + seek +
        (boundary (now + seek) * 500 - (now + seek) : ℤ)).tdiv
          rotationTime) * rotationTime) + rotationTime) =
      ((firstSlot sector (now + seek) + 1) * rotationTime : ℕ) := by
  have hslot : ((now : ℤ) + seek + (boundary (now + seek) * 500 -
      (now + seek))).tdiv rotationTime = (boundary (now + seek) : ℕ) := by
    rw [Int.tdiv_eq_ediv_of_nonneg (by omega)]
    unfold rotationTime
    omega
  rw [hslot, moduloDiff_eq, firstSlot]
  unfold rotationTime
  push_cast
  ring

theorem moveTo_stay (hseek : seekTicks last sector = 0)
    (htrack : head.track = last / sectorsPerTrack) :
    head.moveTo now (sector / sectorsPerTrack) = head := by
  have hsame : sector / sectorsPerTrack = head.track := by
    rw [htrack]
    unfold seekTicks seekTime at hseek
    omega
  rw [DiskHead.moveTo, if_pos hsame]

theorem moveTo_seek (hseek : seekTicks last sector ≠ 0)
    (htrack : head.track = last / sectorsPerTrack) :
    head.moveTo now (sector / sectorsPerTrack) =
      ⟨sector / sectorsPerTrack, now + seekTicks last sector⟩ := by
  have hother : sector / sectorsPerTrack ≠ head.track := by
    rw [htrack]
    intro heq
    apply hseek
    simp [seekTicks, heq]
  rw [DiskHead.moveTo, if_neg hother, htrack]
  rfl

/-- What has passed since the head came to the track is in the track
buffer. -/
theorem inTrackBuffer_iff
    (hbuffer : d.bufferInit = boundary head.arrival * 500)
    (harrival : head.arrival ≤ now) :
    d.inTrackBuffer (boundary now * 500 : ℕ) sector ↔
      firstSlot sector head.arrival < boundary now := by
  have hmono := boundary_mono harrival
  have hstart : d.bufferInit.tdiv rotationTime =
      (boundary head.arrival : ℕ) := by
    rw [hbuffer, Int.tdiv_eq_ediv_of_nonneg (by omega)]
    unfold rotationTime
    omega
  have hpassed : (((boundary now * 500 : ℕ) : ℤ) - d.bufferInit).tdiv
      rotationTime = (boundary now - boundary head.arrival : ℕ) := by
    rw [hbuffer, Int.tdiv_eq_ediv_of_nonneg (by omega)]
    unfold rotationTime
    omega
  rw [TimedDisk.inTrackBuffer, hstart, hpassed, moduloDiff_eq, firstSlot]
  omega

/-- A sector that has not yet passed comes next when it passes for the first
time. -/
theorem firstSlot_eq
    (harrival : head.arrival ≤ now)
    (hpending : boundary now ≤ firstSlot sector head.arrival) :
    firstSlot sector now = firstSlot sector head.arrival := by
  obtain ⟨hnow, hleast⟩ := isLeast_firstSlot sector now
  obtain ⟨harrived, hleast'⟩ := isLeast_firstSlot sector head.arrival
  have hbounds := boundary_bounds now
  apply Nat.le_antisymm
  · apply hleast
    refine ⟨harrived.1, ?_⟩
    unfold rotationTime
    omega
  · exact hleast' ⟨hnow.1, harrival.trans hnow.2⟩

/-- When a request is done, from the track buffer or after a wait. -/
theorem finish_eq
    (hlast : d.lastSector = last)
    (hbuffer : d.bufferInit = boundary head.arrival * 500)
    (harrival : head.arrival ≤ now) (writing : Bool) :
    now + d.computeLatency now sector writing =
      if writing = false ∧ seekTicks last sector = 0 ∧
          firstSlot sector head.arrival < boundary now then
        ((now + rotationTime : ℕ) : ℤ)
      else ((firstSlot sector (now + seekTicks last sector) + 1) *
        rotationTime : ℕ) := by
  have hbuffered : (writing = false ∧ ((seekTicks last sector : ℕ) : ℤ) = 0 ∧
      d.inTrackBuffer (now + (seekTicks last sector : ℕ) +
        (boundary (now + seekTicks last sector) * 500 -
          (now + (seekTicks last sector : ℕ)))) sector) ↔
      writing = false ∧ seekTicks last sector = 0 ∧
        firstSlot sector head.arrival < boundary now := by
    rw [Int.natCast_eq_zero]
    refine and_congr_right fun _ => and_congr_right fun hseek => ?_
    rw [← inTrackBuffer_iff hbuffer harrival, hseek]
    have htime : (now : ℤ) + (0 : ℕ) +
        (boundary (now + 0) * 500 - (now + (0 : ℕ))) =
          (boundary now * 500 : ℕ) := by
      push_cast
      ring_nf
    rw [htime]
  simp only [TimedDisk.computeLatency, timeToSeek_eq hlast, hbuffered]
  split_ifs
  · push_cast
    rfl
  · exact wait_eq sector now (seekTicks last sector)

theorem doneAt_of_least
    {r : DiskRequest} {slot : ℕ} {finish : ℤ}
    (hsector : r.sectorNumber = sector)
    (hslot : slot = firstSlot sector
      (if r.writing then max now head.arrival else head.arrival))
    (hfinish : finish =
      (max (now + rotationTime) ((slot + 1) * rotationTime) : ℕ)) :
    DoneAt r now head finish := by
  refine ⟨slot, ?_, hfinish⟩
  rw [hslot, hsector, Int.toNat_natCast]
  exact isLeast_firstSlot sector _

theorem doneAt_latency
    {r : DiskRequest} (hsector : r.sectorNumber = sector)
    (hlast : d.lastSector = last)
    (htrack : head.track = last / sectorsPerTrack)
    (hbuffer : d.bufferInit = boundary head.arrival * 500)
    (harrival : head.arrival ≤ now) :
    DoneAt r now (head.moveTo now (sector / sectorsPerTrack))
      (now + d.computeLatency now sector r.writing) := by
  have hlate : ∀ time, now ≤ time →
      (((firstSlot sector time + 1) * rotationTime : ℕ) : ℤ) =
        (max (now + rotationTime)
          ((firstSlot sector time + 1) * rotationTime) : ℕ) := by
    intro time hle
    have hbegin := (isLeast_firstSlot sector time).1.2
    refine congrArg Nat.cast (max_eq_right ?_).symm
    unfold rotationTime at *
    omega
  rw [finish_eq hlast hbuffer harrival]
  by_cases hseek : seekTicks last sector = 0
  · rw [moveTo_stay hseek htrack]
    simp only [hseek, Nat.add_zero, true_and]
    cases hwriting : r.writing with
    | true =>
        rw [if_neg (by simp)]
        apply doneAt_of_least hsector rfl
        rw [hwriting, if_pos rfl, max_eq_left harrival]
        exact hlate now le_rfl
    | false =>
        apply doneAt_of_least hsector rfl
        rw [hwriting, if_neg Bool.false_ne_true]
        by_cases hpassed : firstSlot sector head.arrival < boundary now
        · have hslots := boundary_bounds now
          rw [if_pos ⟨rfl, hpassed⟩]
          refine congrArg Nat.cast (max_eq_left ?_).symm
          unfold rotationTime
          omega
        · have hnow := hlate now le_rfl
          rw [firstSlot_eq harrival (not_lt.mp hpassed)] at hnow ⊢
          rw [if_neg (by simp [hpassed])]
          exact hnow
  · rw [moveTo_seek hseek htrack, if_neg (by simp [hseek])]
    apply doneAt_of_least hsector rfl
    have htime : (if r.writing then max now (now + seekTicks last sector)
        else now + seekTicks last sector) = now + seekTicks last sector := by
      split_ifs <;> omega
    simp only [htime]
    exact hlate _ (Nat.le_add_right now (seekTicks last sector))

/-- No request takes longer than a seek over the whole disk and a full
rotation. -/
def maxLatency : ℕ := 64 * rotationTime

theorem latency_bounds
    (hlast : d.lastSector = last) (hlt : last < numSectors)
    (hsector : sector < numSectors) (now : ℕ) (writing : Bool) :
    0 < d.computeLatency now sector writing ∧
      d.computeLatency now sector writing < maxLatency := by
  have hwait := wait_eq sector now (seekTicks last sector)
  have hbegin :=
    (isLeast_firstSlot sector (now + seekTicks last sector)).1.2
  have hbounds := boundary_bounds (now + seekTicks last sector)
  have hslot : firstSlot sector (now + seekTicks last sector) <
      boundary (now + seekTicks last sector) + 32 :=
    Nat.add_lt_add_left (slotsUntil_lt (by decide)) _
  have hseek : seekTicks last sector ≤ 31 * 500 := by
    unfold seekTicks sectorsPerTrack seekTime
    unfold numSectors at hlt hsector
    omega
  simp only [TimedDisk.computeLatency, timeToSeek_eq hlast]
  unfold maxLatency
  split_ifs
  · exact ⟨by decide, by decide⟩
  · unfold rotationTime at *
    omega

end Latency

/-! ## Runs -/

section Runs

variable {c c' : DiskClock} {r : DiskRequest} {event : DiskEvent}

/-- What the disk knows of its head. -/
structure Tracks (c : DiskClock) (last : ℕ) : Prop where
  lastSector : c.disk.lastSector = last
  exist : (last : ℤ) < numSectors
  track : c.head.track = last / sectorsPerTrack
  buffer : c.disk.bufferInit = boundary c.head.arrival * 500
  arrived : c.disk.disk.active = false → c.head.arrival ≤ c.totalTicks
  arrives : ∀ due, c.due = some due → (c.head.arrival : ℤ) ≤ due

/-- What is true of a request. -/
def WellTimed : DiskEvent → Prop
  | .requested r start finish head =>
      DoneAt r start head finish ∧ start < finish ∧
        finish < start + maxLatency
  | _ => True

theorem DoneAt.arrival_le
    {start : ℕ} {head : DiskHead} {finish : ℤ}
    (hdone : DoneAt r start head finish) : (head.arrival : ℤ) ≤ finish := by
  obtain ⟨slot, ⟨⟨-, htime⟩, -⟩, rfl⟩ := hdone
  have harrival : head.arrival ≤ slot * rotationTime := by
    split_ifs at htime
    · exact (le_max_right _ _).trans htime
    · exact htime
  apply Int.ofNat_le.mpr
  apply le_max_of_le_right
  exact harrival.trans (Nat.mul_le_mul_right _ (Nat.le_succ slot))

theorem Disk.request_ok
    {disk : Disk} (hidle : disk.active = false) (hrange : r.InRange) :
    ∃ disk' data, disk.request r = .ok (disk', data) ∧
      disk'.active = true := by
  cases r with
  | read sectorNumber =>
      have hsector : 0 ≤ sectorNumber ∧ sectorNumber < numSectors := hrange
      refine ⟨{ disk with active := true }, disk.sectors sectorNumber, ?_,
        rfl⟩
      rw [Disk.request, readRequest, assert_of_true hidle, ok_bind,
        assert_of_true hsector]
      rfl
  | write sectorNumber data =>
      have hsector : 0 ≤ sectorNumber ∧ sectorNumber < numSectors := hrange
      refine ⟨⟨Function.update disk.sectors sectorNumber data, true⟩, data,
        ?_, rfl⟩
      rw [Disk.request, writeRequest, assert_of_true hidle, ok_bind,
        assert_of_true hsector]
      rfl

theorem of_assert
    {condition : Prop} [Decidable condition] {result : Unit}
    (hassert : assert condition = .ok result) : condition := by
  by_contra hfalse
  rw [assert_of_false hfalse] at hassert
  cases hassert

theorem Disk.of_request_ok
    {disk : Disk} {result : Disk × Sector}
    (hrequest : disk.request r = .ok result) :
    disk.active = false ∧ r.InRange := by
  cases r with
  | read sectorNumber =>
      obtain ⟨_, hidle, hrequest⟩ := ok_of_bind hrequest
      obtain ⟨_, hassert, -⟩ := ok_of_bind hrequest
      have hsector : 0 ≤ sectorNumber ∧ sectorNumber < numSectors :=
        of_assert hassert
      exact ⟨of_assert hidle, hsector⟩
  | write sectorNumber data =>
      obtain ⟨_, hwrite, -⟩ := ok_of_bind hrequest
      obtain ⟨_, hidle, hwrite⟩ := ok_of_bind hwrite
      obtain ⟨_, hassert, -⟩ := ok_of_bind hwrite
      have hsector : 0 ≤ sectorNumber ∧ sectorNumber < numSectors :=
        of_assert hassert
      exact ⟨of_assert hidle, hsector⟩

/-- Where the head is after a request. -/
theorem updateLast_spec
    {d : TimedDisk} {head : DiskHead} {last sector now : ℕ}
    (hlast : d.lastSector = last)
    (htrack : head.track = last / sectorsPerTrack)
    (hbuffer : d.bufferInit = boundary head.arrival * 500) :
    (d.updateLast now sector).lastSector = sector ∧
      (head.moveTo now (sector / sectorsPerTrack)).track =
        sector / sectorsPerTrack ∧
      (d.updateLast now sector).bufferInit =
        boundary (head.moveTo now (sector / sectorsPerTrack)).arrival *
          500 := by
  simp only [TimedDisk.updateLast, timeToSeek_eq hlast, true_and]
  refine ⟨?_, ?_⟩
  · rw [DiskHead.moveTo]
    split_ifs with hsame
    · exact hsame.symm
    · rfl
  · by_cases hseek : seekTicks last sector = 0
    · rw [moveTo_stay hseek htrack, hseek]
      simpa using hbuffer
    · have hmoves : ((seekTicks last sector : ℕ) : ℤ) ≠ 0 := by omega
      rw [moveTo_seek hseek htrack, if_pos hmoves]
      push_cast
      ring

theorem DiskClock.step_request
    {disk' : Disk} {data : Sector}
    (hrequest : c.disk.disk.request r = .ok (disk', data))
    (hpos : c.disk.computeLatency c.totalTicks r.sectorNumber r.writing > 0) :
    ∃ finish head, c.step (.request r) =
        .ok (⟨c.totalTicks, { c.disk with disk := disk' }.updateLast
          c.totalTicks r.sectorNumber, some finish, head⟩,
          .requested r c.totalTicks finish head) ∧
      finish = c.totalTicks +
        c.disk.computeLatency c.totalTicks r.sectorNumber r.writing ∧
      head = c.head.moveTo c.totalTicks
        (r.sectorNumber.toNat / sectorsPerTrack) := by
  refine ⟨_, _, ?_, rfl, rfl⟩
  simp only [step, TimedDisk.request, hrequest, ok_bind, assert_of_true hpos]
  rfl

theorem Tracks.request
    {last : ℕ} (htracks : Tracks c last)
    (hidle : c.disk.disk.active = false) (hrange : r.InRange) :
    ∃ c' event sector, c.step (.request r) = .ok (c', event) ∧
      WellTimed event ∧ Tracks c' sector := by
  obtain ⟨sector, hsector⟩ : ∃ sector : ℕ, r.sectorNumber = sector := by
    cases r <;> exact Int.eq_ofNat_of_zero_le hrange.1
  have hexists : (sector : ℤ) < numSectors := by
    rw [← hsector]
    cases r <;> exact hrange.2
  have harrived := htracks.arrived hidle
  have hdone := @doneAt_latency c.disk c.head last sector c.totalTicks r
    hsector htracks.lastSector htracks.track htracks.buffer harrived
  obtain ⟨hpos, hbound⟩ := latency_bounds htracks.lastSector htracks.exist
    hexists c.totalTicks r.writing
  obtain ⟨disk', data, hrequest, hactive⟩ := Disk.request_ok hidle hrange
  obtain ⟨hlast', htrack', hbuffer'⟩ := @updateLast_spec
    { c.disk with disk := disk' } c.head last sector c.totalTicks
    htracks.lastSector htracks.track htracks.buffer
  obtain ⟨finish, head, hstep, hfinish, hhead⟩ :=
    DiskClock.step_request hrequest (hsector ▸ hpos)
  rw [hsector] at hstep hfinish hhead
  rw [Int.toNat_natCast] at hhead
  subst hhead
  rw [← hfinish] at hdone
  refine ⟨_, _, sector, hstep, ⟨hdone, by omega, by omega⟩, ?_⟩
  constructor
  case lastSector => exact hlast'
  case exist => exact hexists
  case track => exact htrack'
  case buffer => exact hbuffer'
  case arrived =>
    intro hnot
    exact absurd (hactive.symm.trans hnot) (by decide)
  case arrives =>
    rintro due hdue
    cases hdue
    exact hdone.arrival_le

theorem Tracks.step
    {last : ℕ} (htracks : Tracks c last) {trace : List DiskEvent}
    {move : DiskMove} (hintime : c.InTime trace move)
    (hstep : c.step move = .ok (c', event)) :
    WellTimed event ∧ ∃ sector, Tracks c' sector := by
  cases move with
  | pass ticks =>
      cases hstep
      refine ⟨trivial, last, ?_⟩
      constructor
      case arrived =>
        exact fun hidle => (htracks.arrived hidle).trans
          (Nat.le_add_right _ _)
      all_goals first
        | exact htracks.lastSector
        | exact htracks.exist
        | exact htracks.track
        | exact htracks.buffer
        | exact htracks.arrives
  | request r =>
      have hbegin : c.disk.disk.active = false ∧ r.InRange := by
        obtain ⟨_, hrequest, -⟩ := ok_of_bind hstep
        obtain ⟨_, hdisk, -⟩ := ok_of_bind hrequest
        exact Disk.of_request_ok hdisk
      obtain ⟨c'', event', sector, hstep', hevent, htracks'⟩ :=
        htracks.request hbegin.1 hbegin.2
      cases hstep.symm.trans hstep'
      exact ⟨hevent, sector, htracks'⟩
  | interrupt =>
      obtain ⟨due, hdue, hle⟩ := hintime
      have harrives := htracks.arrives due hdue
      cases hstep
      refine ⟨trivial, last, ?_⟩
      constructor
      case lastSector => exact htracks.lastSector
      case exist => exact htracks.exist
      case track => exact htracks.track
      case buffer => exact htracks.buffer
      case arrived =>
        intro _
        change c.head.arrival ≤ c.totalTicks
        omega
      case arrives =>
        intro due hnone
        cases hnone

theorem Tracks.ofRun
    {sectors : ℤ → Sector} {trace : List DiskEvent}
    (hrun : (DiskClock.system sectors).Run
      (fun trace c move => c.InTime trace move) trace c) :
    (∀ event ∈ trace, WellTimed event) ∧ ∃ last, Tracks c last := by
  refine hrun.invariant
    (fun trace c => (∀ event ∈ trace, WellTimed event) ∧
      ∃ last, Tracks c last) ?_ ?_
  · refine ⟨by simp, 0, ?_⟩
    constructor
    case arrived => exact fun _ => Nat.zero_le _
    case arrives =>
      intro due hnone
      cases hnone
    case exist => decide
    case buffer =>
      change (0 : ℤ) = boundary 0 * 500
      simp [boundary]
    all_goals rfl
  · rintro trace c c' move event - ⟨hevents, last, htracks⟩ hintime hstep
    obtain ⟨hevent, hafter⟩ := htracks.step hintime hstep
    refine ⟨?_, hafter⟩
    intro event' hmem
    obtain hold | hnew := List.mem_append.mp hmem
    · exact hevents event' hold
    · rw [List.mem_singleton.mp hnew]
      exact hevent

end Runs

end Nachos.Scheduling
