import Nachos.HardwareInterrupts

/-!
# Runs of the machine with its devices

In every run each device has the interrupts pending that it has to have, none
of them is far ahead, and whatever the kernel may ask of the machine is done:
no assertion of a device fails, and `Idle` never halts the machine.
-/

namespace Nachos.Scheduling

open Library

/-- An action of the interrupts goes on from what can be reached. -/
theorem reached_perform
    {s s' : Interrupt} {action : Interrupt.Action}
    (hreached : Interrupt.Reached s) (hperform : s.perform action = .ok s') :
    Interrupt.Reached s' := by
  obtain ⟨trace, hrun⟩ := hreached
  have hstep : Interrupt.system.step s action = .ok (s', ()) := by
    simp only [Interrupt.system, hperform]
    rfl
  exact ⟨_, .step hrun trivial hstep⟩

namespace Hardware

open Interrupt (addInt_eq ending_ok_bind ending_ok_of_bind insert_perm)

variable {h h' : Hardware} {device : Device}

/-! ## What the kernel asks of the devices -/

section Requests

/-- A device other than the timer may schedule an interrupt. -/
structure Requests (h h' : Hardware) : Prop where
  wired : h'.Wired []
  timer : h'.timer = h.timer
  settled : Settled h → Settled h'
  stats : h'.interrupt.stats = h.interrupt.stats
  pending : h'.pendingOf .timer = h.pendingOf .timer
  interrupt : ∃ action, h.interrupt.perform action = .ok h'.interrupt

/-- An action of the interrupts that leaves them as they are. -/
theorem perform_nothing (s : Interrupt) :
    s.perform (.setStatus s.status) = .ok s :=
  rfl

theorem requests_of_eq
    (hwired : h.Wired []) (hinterrupt : h'.interrupt = h.interrupt)
    (htimer : h'.timer = h.timer)
    (hexpected : ∀ other count,
      h.Expects other count → h'.Expects other count) :
    Requests h h' where
  wired := hwired.change hinterrupt (by rw [htimer]) hexpected
  timer := htimer
  settled hsettled := by
    constructor
    · rw [hinterrupt]
      exact hsettled.inHandler
    · rw [hinterrupt]
      exact hsettled.yieldOnReturn
    · rw [hinterrupt]
      exact hsettled.status
  stats := by rw [hinterrupt]
  pending := by rw [pendingOf, hinterrupt]; rfl
  interrupt := ⟨_, by rw [hinterrupt]; exact perform_nothing _⟩

/-- A device takes a request, and schedules the interrupt for it. -/
theorem requests_of_schedule
    {before : Hardware} {fromNow : ℤ}
    (hschedule : before.schedule device fromNow = .ok h')
    (hwired : h.Wired []) (hother : device ≠ .timer)
    (hinterrupt : before.interrupt = h.interrupt)
    (htimer : before.timer = h.timer)
    (hdelay : fromNow ≤ device.maxDelay before)
    (hexpected : ∀ other count, h.Expects other count →
      before.Expects other (count + [device].count other)) :
    Requests h h' := by
  have hpaid : before.Wired [device] :=
    hwired.change hinterrupt (by rw [htimer]) hexpected
  have hwired' := hpaid.schedule hdelay hschedule
  have habstract : h.interrupt.schedule
      ⟨device.number, fromNow, device.intType⟩ = .ok h'.interrupt := by
    obtain ⟨interrupt, hscheduled, hdone⟩ := ending_ok_of_bind hschedule
    cases hdone
    rw [← hinterrupt]
    exact hscheduled
  obtain ⟨item, hnumber, -, -, rfl⟩ := schedule_spec hschedule
  constructor
  case wired => exact hwired'
  case timer => exact htimer
  case settled =>
    intro hsettled
    exact ⟨hinterrupt ▸ hsettled.inHandler,
      hinterrupt ▸ hsettled.yieldOnReturn, hinterrupt ▸ hsettled.status⟩
  case stats => rw [hinterrupt]
  case pending =>
    rw [pendingOf, pendingOf, ← hinterrupt]
    apply filter_insert_of_not
    rw [hnumber, decide_eq_false_iff_not, Device.number_inj]
    exact hother
  case interrupt =>
    exact ⟨.schedule ⟨device.number, fromNow, device.intType⟩, habstract⟩

theorem getChar_requests
    {ch : BitVec 8} (hwired : h.Wired [])
    (hget : h.getChar = .ok (h', ch)) : Requests h h' := by
  unfold getChar at hget
  simp only [ConsoleInput.getChar] at hget
  split at hget
  next hbuffered =>
    obtain ⟨h₁, hschedule, hdone⟩ := ending_ok_of_bind hget
    cases hdone
    refine requests_of_schedule hschedule hwired (by decide) rfl rfl le_rfl ?_
    intro other count hexpected
    cases other
    case consoleInput =>
      obtain ⟨heq, hle, hempty⟩ := hexpected
      have hzero : count = 0 := by
        by_contra hpos
        exact hbuffered (hempty (by omega))
      refine ⟨?_, ?_, fun _ => rfl⟩
      · rw [heq]
        rfl
      · rw [hzero]
        rfl
    all_goals exact hexpected
  next hempty =>
    cases hget
    refine requests_of_eq hwired rfl rfl ?_
    intro other count hexpected
    cases other
    case consoleInput =>
      obtain ⟨heq, hle, -⟩ := hexpected
      refine ⟨?_, hle, fun _ => rfl⟩
      simpa only [hempty, if_false] using heq
    all_goals exact hexpected

theorem putChar_requests
    {ch : BitVec 8} (hwired : h.Wired []) (hput : h.putChar ch = .ok h') :
    Requests h h' := by
  obtain ⟨console, hconsole, hschedule⟩ := ending_ok_of_bind hput
  obtain ⟨⟨⟩, hassert, hdone⟩ := ok_of_bind (simulate_ok hconsole)
  have hidle := of_assert hassert
  cases hdone
  refine requests_of_schedule hschedule hwired (by decide) rfl rfl le_rfl ?_
  intro other count hexpected
  cases other
  case consoleOutput =>
    change count = if h.consoleOutput.putBusy then 1 else 0 at hexpected
    rw [hidle] at hexpected
    rw [hexpected]
    rfl
  all_goals exact hexpected

theorem send_requests
    {packet : Packet} (hwired : h.Wired []) (hsend : h.send packet = .ok h') :
    Requests h h' := by
  obtain ⟨network, -, hschedule⟩ := ending_ok_of_bind hsend
  refine requests_of_schedule hschedule hwired (by decide) rfl rfl le_rfl ?_
  intro other count hexpected
  cases other
  case networkOutput => trivial
  all_goals exact hexpected

theorem openNetworkInput_requests
    {garbage : NetworkInput} (hwired : h.Wired [])
    (hclosed : h.networkInput = none)
    (hopen : h.openNetworkInput garbage = .ok h') : Requests h h' := by
  unfold openNetworkInput at hopen
  refine requests_of_schedule hopen hwired (by decide) rfl rfl le_rfl ?_
  intro other count hexpected
  cases other
  case networkInput =>
    obtain ⟨hcount, -, hpackets⟩ := hexpected
    rw [hclosed] at hcount
    refine ⟨by rw [hcount]; rfl, ?_, hpackets⟩
    rintro _ ⟨⟩
    exact Nat.zero_le _
  all_goals exact hexpected

theorem receive_requests
    {data data' : Buffer maxPacketSize} {hdr : PacketHeader}
    (hwired : h.Wired []) (hreceive : h.receive data = .ok (h', hdr, data')) :
    Requests h h' := by
  cases hopened : h.networkInput with
  | none =>
      simp only [receive, hopened] at hreceive
      cases hreceive
  | some networkInput =>
      simp only [receive, hopened] at hreceive
      obtain ⟨⟨hdr', buffer, networkInput'⟩, hdevice, hdone⟩ :=
        ending_ok_of_bind hreceive
      cases hdone
      have hempty : networkInput'.inHdr.length = 0 := by
        have hok := simulate_ok hdevice
        unfold NetworkInput.receive at hok
        simp only at hok
        split at hok
        · obtain ⟨inbox, -, hok⟩ := ok_of_bind hok
          cases hok
          rfl
        · cases hok
          rfl
      refine requests_of_eq hwired rfl rfl ?_
      intro other count hexpected
      cases other
      case networkInput =>
        obtain ⟨hcount, -, hpackets⟩ := hexpected
        rw [hopened] at hcount
        refine ⟨hcount, ?_, hpackets⟩
        rintro _ ⟨⟩
        rw [hempty]
        exact Nat.zero_le _
      all_goals exact hexpected

/-- The disk asserts that it is idle, and that the sector exists. -/
theorem diskRequest_spec
    {r : DiskRequest} {data : Sector}
    (hdisk : h.diskRequest r = .ok (h', data)) :
    h.disk.disk.active = false ∧ r.InRange ∧ ∃ disk : TimedDisk,
      disk.disk.active = true ∧ disk.lastSector = r.sectorNumber ∧
      { h with disk := disk }.schedule .disk
        (h.disk.computeLatency h.interrupt.stats.totalTicks r.sectorNumber
          r.writing) = .ok h' := by
  obtain ⟨⟨disk, _, ticks⟩, hrequest, hdisk⟩ := ending_ok_of_bind hdisk
  obtain ⟨h₁, hschedule, hdone⟩ := ending_ok_of_bind hdisk
  cases hdone
  obtain ⟨⟨disk', _⟩, hstart, hrequest⟩ := ok_of_bind (simulate_ok hrequest)
  obtain ⟨⟨⟩, -, hdone⟩ := ok_of_bind hrequest
  cases hdone
  obtain ⟨hidle, hrange⟩ := Disk.of_request_ok hstart
  obtain ⟨disk'', _, hsame, hactive⟩ := Disk.request_ok hidle hrange
  cases hstart.symm.trans hsame
  exact ⟨hidle, hrange, _, hactive, rfl, hschedule⟩

theorem DiskRequest.exists_sector {r : DiskRequest} (hrange : r.InRange) :
    ∃ sector : ℕ, r.sectorNumber = sector ∧ (sector : ℤ) < numSectors := by
  cases r with
  | read sectorNumber =>
      obtain ⟨hnonneg, hlt⟩ := hrange
      exact ⟨sectorNumber.toNat, (Int.toNat_of_nonneg hnonneg).symm,
        (Int.toNat_of_nonneg hnonneg).symm ▸ hlt⟩
  | write sectorNumber data =>
      obtain ⟨hnonneg, hlt⟩ := hrange
      exact ⟨sectorNumber.toNat, (Int.toNat_of_nonneg hnonneg).symm,
        (Int.toNat_of_nonneg hnonneg).symm ▸ hlt⟩

theorem diskRequest_requests
    {r : DiskRequest} {data : Sector} (hwired : h.Wired [])
    (hnow : 0 ≤ h.interrupt.stats.totalTicks)
    (hdisk : h.diskRequest r = .ok (h', data)) : Requests h h' := by
  obtain ⟨hidle, hrange, disk, hactive, hlast, hschedule⟩ :=
    diskRequest_spec hdisk
  obtain ⟨sector, hsector, hlt⟩ := DiskRequest.exists_sector hrange
  obtain ⟨-, last, hbefore, hexists⟩ := hwired.expected .disk
  obtain ⟨now, hnat⟩ := Int.eq_ofNat_of_zero_le hnow
  obtain ⟨-, hbound⟩ := latency_bounds hbefore hexists hlt now r.writing
  refine requests_of_schedule hschedule hwired (by decide) rfl rfl ?_ ?_
  · rw [hsector, hnat]
    exact hbound.le
  intro other count hexpected
  cases other
  case disk =>
    obtain ⟨hcount, -⟩ := hexpected
    rw [hidle] at hcount
    refine ⟨?_, sector, hlast.trans hsector, hlt⟩
    rw [hactive, hcount]
    rfl
  all_goals exact hexpected

end Requests

/-! ## A step -/

section Steps

variable {action : Action} {event : Event}

/-- The kernel makes one post office; packets come that are for this host. -/
def Sane (_ : List Event) (h : Hardware) : Action → Prop
  | .openNetworkInput _ => h.networkInput = none
  | .arrives packet => IsPacketFor h.hostName packet
  | _ => True

/-- The machine is in order, between two steps. -/
structure Sound (h : Hardware) : Prop where
  wired : h.Wired []
  settled : Settled h
  reached : Interrupt.Reached h.interrupt
  counts : Counts h.interrupt.stats

/-- The thread that runs has to yield, or none has been running. -/
def Event.EndsSlice : Event → Prop
  | .quiet => False
  | .ticked _ yields => yields = true
  | .idled _ => True

/-- What a step does. -/
structure Moves (h h' : Hardware) (action : Action) (event : Event) :
    Prop where
  wired : h'.Wired []
  settled : Settled h'
  interrupt : ∃ act, h.interrupt.perform act = .ok h'.interrupt
  randomize : h'.timer.randomize = h.timer.randomize
  disable : action ≠ .disableTimer → h'.timer.disable = h.timer.disable
  pending : ¬event.EndsSlice → h'.pendingOf .timer = h.pendingOf .timer
  elapsed : (∀ calls, event ≠ .idled calls) →
    h'.interrupt.stats.totalTicks ≤ h.interrupt.stats.totalTicks + systemTick
  quiet : event = .quiet → h'.interrupt.stats = h.interrupt.stats
  counts : Counts h.interrupt.stats → Counts h'.interrupt.stats

theorem Requests.moves
    (hrequests : Requests h h') (hsettled : Settled h) :
    Moves h h' action .quiet where
  wired := hrequests.wired
  settled := hrequests.settled hsettled
  interrupt := hrequests.interrupt
  randomize := by rw [hrequests.timer]
  disable _ := by rw [hrequests.timer]
  pending _ := hrequests.pending
  elapsed _ := by
    rw [hrequests.stats]
    unfold systemTick
    omega
  quiet _ := hrequests.stats
  counts hcounts := hrequests.stats ▸ hcounts

theorem Ticks.moves
    {calls : List Device} {yields : Bool} (hticks : Ticks h h' yields)
    (hinterrupt : ∃ act, h.interrupt.perform act = .ok h'.interrupt) :
    Moves h h' action (.ticked calls yields) where
  wired := hticks.wired
  settled := hticks.settled
  interrupt := hinterrupt
  randomize := by rw [hticks.timer]
  disable _ := by rw [hticks.timer]
  pending hslice := hticks.slices (by simpa [Event.EndsSlice] using hslice)
  elapsed _ := hticks.elapsed
  quiet := nofun
  counts := hticks.counts

theorem step_moves
    (hwired : h.Wired []) (hsettled : Settled h)
    (hnow : 0 ≤ h.interrupt.stats.totalTicks) {trace : List Event}
    (hsane : Sane trace h action) (hstep : h.step action = .ok (h', event)) :
    Moves h h' action event := by
  cases action with
  | oneTick =>
      obtain ⟨⟨h₁, calls, yields⟩, htick, hdone⟩ := ending_ok_of_bind hstep
      cases hdone
      obtain ⟨hticks, -, handlers, habstract⟩ :=
        oneTick_ticks hwired hsettled htick
      exact hticks.moves ⟨.oneTick handlers, habstract⟩
  | setLevel now =>
      obtain ⟨⟨h₁, calls, yields⟩, hset, hdone⟩ := ending_ok_of_bind hstep
      cases hdone
      obtain ⟨hticks, handlers, habstract⟩ :=
        setLevel_ticks hwired hsettled hset
      exact hticks.moves ⟨.setLevel now handlers, habstract⟩
  | idle =>
      obtain ⟨⟨h₁, calls⟩, hidle, hdone⟩ := ending_ok_of_bind hstep
      cases hdone
      obtain ⟨hwired', hsettled', htimer, hcounts, handlers, habstract⟩ :=
        idle_waits hwired hsettled hidle
      exact ⟨hwired', hsettled', ⟨.idle handlers, habstract⟩, by rw [htimer],
        fun _ => by rw [htimer], fun hslice => absurd trivial hslice,
        fun hnever => absurd rfl (hnever calls), nofun, hcounts⟩
  | setStatus user =>
      cases hstep
      refine ⟨hwired.of_interrupt rfl le_rfl,
        ⟨hsettled.inHandler, hsettled.yieldOnReturn, ?_⟩,
        ⟨.setStatus _, rfl⟩, rfl, fun _ => rfl, fun _ => rfl, fun _ => ?_,
        fun _ => rfl, id⟩
      · cases user <;> exact nofun
      · unfold systemTick
        simp
  | disableTimer =>
      cases hstep
      refine ⟨hwired.change rfl rfl ?_,
        ⟨hsettled.inHandler, hsettled.yieldOnReturn, hsettled.status⟩,
        ⟨_, perform_nothing _⟩, rfl, fun hother => absurd rfl hother,
        fun _ => rfl, fun _ => ?_, fun _ => rfl, id⟩
      · intro other count hexpected
        cases other
        case timer => exact ⟨hexpected.1, nofun⟩
        all_goals exact hexpected
      · unfold systemTick
        simp
  | openNetworkInput garbage =>
      obtain ⟨h₁, hopen, hdone⟩ := ending_ok_of_bind hstep
      cases hdone
      exact (openNetworkInput_requests hwired hsane hopen).moves hsettled
  | getChar =>
      obtain ⟨⟨h₁, ch⟩, hget, hdone⟩ := ending_ok_of_bind hstep
      cases hdone
      exact (getChar_requests hwired hget).moves hsettled
  | putChar ch =>
      obtain ⟨h₁, hput, hdone⟩ := ending_ok_of_bind hstep
      cases hdone
      exact (putChar_requests hwired hput).moves hsettled
  | diskRequest r =>
      obtain ⟨⟨h₁, data⟩, hdisk, hdone⟩ := ending_ok_of_bind hstep
      cases hdone
      exact (diskRequest_requests hwired hnow hdisk).moves hsettled
  | send packet =>
      obtain ⟨h₁, hsend, hdone⟩ := ending_ok_of_bind hstep
      cases hdone
      exact (send_requests hwired hsend).moves hsettled
  | receive data =>
      obtain ⟨⟨h₁, hdr, data'⟩, hreceive, hdone⟩ := ending_ok_of_bind hstep
      cases hdone
      exact (receive_requests hwired hreceive).moves hsettled
  | typed ch =>
      cases hstep
      refine Requests.moves ?_ hsettled
      refine requests_of_eq hwired rfl rfl ?_
      intro other count hexpected
      cases other <;> exact hexpected
  | inputEnds =>
      cases hstep
      refine Requests.moves ?_ hsettled
      refine requests_of_eq hwired rfl rfl ?_
      intro other count hexpected
      cases other <;> exact hexpected
  | arrives packet =>
      cases hstep
      refine Requests.moves ?_ hsettled
      refine requests_of_eq hwired rfl rfl ?_
      intro other count hexpected
      cases other
      case networkInput =>
        obtain ⟨hcount, hheaders, hpackets⟩ := hexpected
        refine ⟨hcount, hheaders, fun other hmem => ?_⟩
        obtain hold | hnew := List.mem_append.mp hmem
        · exact hpackets other hold
        · rw [List.mem_singleton.mp hnew]
          exact hsane
      all_goals exact hexpected

end Steps

/-! ## No step fails -/

section Total

/-- The clock is not about to overflow. -/
structure Early (h : Hardware) : Prop where
  nonneg : 0 ≤ h.interrupt.stats.totalTicks
  bound : h.interrupt.stats.totalTicks + maxLatency < 2 ^ 31

/-- What is scheduled next is not in the list. -/
def Fresh (h : Hardware) : Prop :=
  ∀ p ∈ h.interrupt.pending, p.serial < h.interrupt.allocated

theorem ensure_of_true
    {condition : Prop} [Decidable condition] (htrue : condition) :
    ensure condition = .ok () := by
  rw [ensure, assert_of_true htrue]
  rfl

theorem schedule_total
    {fromNow : ℤ} (device : Device) (hearly : Early h) (hfresh : Fresh h)
    (hpos : 0 < fromNow) (hdelay : fromNow ≤ maxLatency) :
    ∃ h', h.schedule device fromNow = .ok h' := by
  obtain ⟨hnonneg, hbound⟩ := hearly
  have hsum : addInt h.interrupt.stats.totalTicks fromNow =
      .ok (h.interrupt.stats.totalTicks + fromNow) :=
    if_pos ⟨by omega, by omega⟩
  have hnew : (⟨device.number, h.interrupt.stats.totalTicks + fromNow,
      device.intType, h.interrupt.allocated⟩ : PendingInterrupt) ∉
        h.interrupt.pending :=
    fun hmem => lt_irrefl _ (hfresh _ hmem)
  simp only [schedule, Interrupt.schedule, hsum, ending_ok_bind,
    ensure_of_true hpos, ensure_of_true hnew]
  exact ⟨_, rfl⟩

theorem setInterrupt_total
    (hearly : Early h) (hfresh : Fresh h) :
    ∃ h', h.setInterrupt = .ok h' := by
  unfold setInterrupt
  split
  · split
    · have hnonneg := Int.emod_nonneg (h.random 0 : ℤ)
        (show timerTicks * 2 ≠ 0 by decide)
      have hlt := Int.emod_lt_of_pos (h.random 0 : ℤ)
        (show 0 < timerTicks * 2 by decide)
      have hmax : timerTicks * 2 ≤ maxLatency := by decide
      exact schedule_total .timer ⟨hearly.nonneg, hearly.bound⟩ hfresh
        (by omega) (by omega)
    · exact schedule_total .timer hearly hfresh (by decide) (by decide)
  · exact ⟨h, rfl⟩

theorem simulate_of_ok {α : Type} {outcome : Except Fault α} {a : α}
    (hok : outcome = .ok a) : simulate outcome = .ok a := by
  rw [hok]
  rfl

/-- The console asserts that nothing is buffered. -/
theorem consoleInput_total {console : ConsoleInput}
    (hempty : console.incoming = eof) :
    ∃ console' called, console.callBack = .ok (console', called) := by
  unfold ConsoleInput.callBack
  rw [assert_of_true hempty, ok_bind]
  cases console.unread with
  | cons ch unread => exact ⟨_, _, rfl⟩
  | nil =>
      cases console.ended with
      | true => exact ⟨_, _, rfl⟩
      | false => exact ⟨_, _, rfl⟩

/-- The network asserts that a packet is for this host. -/
theorem networkInput_total
    {hostName : BitVec 32} {socket : List (Buffer maxWireSize)}
    (network : NetworkInput)
    (hpackets : ∀ packet ∈ socket, IsPacketFor hostName packet) :
    ∃ network' socket' called, network.callBack hostName socket =
      .ok (network', socket', called) := by
  unfold NetworkInput.callBack
  split
  · exact ⟨_, _, _, rfl⟩
  cases socket with
  | nil => exact ⟨_, _, _, rfl⟩
  | cons packet rest =>
      obtain ⟨hto, hlength⟩ := hpackets packet List.mem_cons_self
      have hsource : (Header.ofBytes packet.val).length.toNat ≤
          (packet.val.drop headerSize).length := by
        rw [List.length_drop, packet.property]
        exact hlength
      obtain ⟨inbox, hcopy, -⟩ := bcopy_ok network.inbox hsource
        ((Nat.zero_add _).trans_le hlength)
      simp only [assert_of_true (And.intro hto hlength), ok_bind, hcopy]
      exact ⟨_, _, _, rfl⟩

theorem callBack_total
    (hwired : h.Wired [device]) (hinside : h.interrupt.inHandler = true)
    (hearly : Early h) (hfresh : Fresh h) :
    ∃ h' called, h.callBack device = .ok (h', called) := by
  cases device
  case timer =>
    have halarm : ∃ h₁, h.alarmCallBack = .ok h₁ := by
      unfold alarmCallBack
      split
      · rw [ensure_of_true hinside]
        exact ⟨_, rfl⟩
      · exact ⟨_, rfl⟩
    obtain ⟨h₁, halarm⟩ := halarm
    have hsame := alarmCallBack_spec halarm
    obtain ⟨h₂, hset⟩ := @setInterrupt_total h₁
      (hsame ▸ ⟨hearly.nonneg, hearly.bound⟩) (hsame ▸ hfresh)
    refine ⟨h₂, false, ?_⟩
    simp only [callBack, halarm, ending_ok_bind, hset]
    rfl
  case consoleInput =>
    obtain ⟨-, hle, hempty⟩ := hwired.expected .consoleInput
    change (h.pendingOf .consoleInput).length + 1 ≤ 1 at hle
    obtain ⟨console, called, hconsole⟩ := @consoleInput_total
      { h.consoleInput with scheduled := h.consoleInput.scheduled - 1 }
      (hempty (by rw [List.count_singleton_self]; omega))
    cases called with
    | true =>
        refine ⟨{ h with consoleInput := console }, true, ?_⟩
        simp only [callBack, simulate_of_ok hconsole, ending_ok_bind]
        rfl
    | false =>
        obtain ⟨h₁, hschedule⟩ := @schedule_total
          { h with consoleInput := console } consoleTime .consoleInput
          ⟨hearly.nonneg, hearly.bound⟩ hfresh (by decide) (by decide)
        refine ⟨h₁, false, ?_⟩
        simp only [callBack, simulate_of_ok hconsole, ending_ok_bind,
          hschedule]
        rfl
  case consoleOutput => exact ⟨_, _, rfl⟩
  case disk => exact ⟨_, _, rfl⟩
  case networkInput =>
    obtain ⟨hcount, -, hpackets⟩ := hwired.expected .networkInput
    cases hopened : h.networkInput with
    | none =>
        rw [hopened] at hcount
        cases hcount
    | some network =>
        obtain ⟨h₁, hschedule⟩ := @schedule_total h networkTime .networkInput
          hearly hfresh (by decide) (by decide)
        have hsame : h₁.hostName = h.hostName ∧ h₁.socket = h.socket := by
          obtain ⟨item, -, -, -, rfl⟩ := schedule_spec hschedule
          exact ⟨rfl, rfl⟩
        obtain ⟨network', socket', called, hnetwork⟩ :=
          networkInput_total network hpackets
        refine ⟨{ h₁ with networkInput := some network', socket := socket' },
          called, ?_⟩
        simp only [callBack, hopened, hschedule, ending_ok_bind, hsame,
          simulate_of_ok hnetwork]
        rfl
  case networkOutput => exact ⟨_, _, rfl⟩

theorem Fresh.of_timely (htimely : Interrupt.Timely h.interrupt) : Fresh h :=
  fun _ hp => htimely.allocated _ (htimely.mem_scheduled hp)

/-- The loop of `CheckIfDue` comes to its end, and no handler fails. -/
theorem fireDue_total
    {fuel : ℕ} (hwired : h.Wired []) (htimely : Interrupt.Timely h.interrupt)
    (hdue : h.interrupt.frontIsDue = true)
    (hfuel : h.interrupt.dueCount ≤ fuel)
    (hinside : h.interrupt.inHandler = true) (hearly : Early h) :
    ∃ h' calls, h.fireDue fuel = .ok (h', calls) := by
  induction fuel generalizing h with
  | zero =>
      obtain ⟨next, rest, hpending, hnext⟩ := Interrupt.front_due hdue
      unfold Interrupt.dueCount at hfuel
      rw [hpending, List.countP_cons_of_pos (by simpa using hnext)] at hfuel
      omega
  | succ fuel ih =>
      obtain ⟨next, rest, hpending, hnext⟩ := Interrupt.front_due hdue
      obtain ⟨device, hnumber, -, -⟩ := hwired.named next
        (hpending ▸ List.mem_cons_self)
      have htimely' := htimely.fire hpending hnext
      have hwired' := @Wired.remove h device [] hwired next rest
        (h.interrupt.history ++ [.fired next h.interrupt.stats.totalTicks])
        hpending hnumber
      have hcount : h.interrupt.dueCount = Interrupt.dueCount
          { h.interrupt with
            pending := rest
            history := h.interrupt.history ++
              [.fired next h.interrupt.stats.totalTicks] } + 1 := by
        unfold Interrupt.dueCount
        rw [hpending, List.countP_cons_of_pos (by simpa using hnext)]
      obtain ⟨h₁, called, hcall⟩ := callBack_total hwired' hinside
        ⟨hearly.nonneg, hearly.bound⟩ (.of_timely htimely')
      obtain ⟨hwired₁, hhandles, -, handler, habstract⟩ :=
        callBack_answers hwired' hcall
      have hscheduling := Interrupt.scheduling_of_callBack habstract
      simp only [fireDue, hpending, hnumber, Device.ofNumber_number, hcall,
        ending_ok_bind]
      split
      next hagain =>
        have hearly₁ : Early h₁ := by
          constructor
          · rw [hhandles.stats]
            exact hearly.nonneg
          · rw [hhandles.stats]
            exact hearly.bound
        rw [hcount] at hfuel
        have hless := hscheduling.dueCount.trans_le
          (Nat.le_of_succ_le_succ hfuel)
        obtain ⟨h₂, more, hrest⟩ := ih hwired₁ (hscheduling.timely htimely')
          hagain hless (hhandles.inHandler.trans hinside) hearly₁
        rw [hrest]
        exact ⟨_, _, rfl⟩
      next => exact ⟨_, _, rfl⟩

theorem maxDelay_le (h : Hardware) (device : Device) :
    device.maxDelay h ≤ maxLatency := by
  unfold Device.maxDelay
  cases device
  case timer =>
    simp only
    split <;> decide
  all_goals
    simp only
    decide

/-- The clock may be advanced to the next interrupt. -/
theorem advanceTo_total
    {stats : Statistics} {when : ℤ} (hcounts : Counts stats)
    (hsum : stats.totalTicks =
      stats.idleTicks + stats.systemTicks + stats.userTicks)
    (hahead : when ≤ stats.totalTicks + maxLatency)
    (hclock : stats.totalTicks + maxLatency < 2 ^ 31) :
    ∃ stats', stats.advanceTo when = .ok stats' ∧
      stats'.totalTicks ≤ stats.totalTicks + maxLatency := by
  obtain ⟨hidle, hsystem, huser⟩ := hcounts
  unfold Statistics.advanceTo
  split
  next hlater =>
    have hidleTicks : addInt stats.idleTicks (when - stats.totalTicks) =
        .ok (stats.idleTicks + (when - stats.totalTicks)) :=
      if_pos ⟨by omega, by omega⟩
    rw [hidleTicks]
    exact ⟨_, rfl, hahead⟩
  next => exact ⟨stats, rfl, by omega⟩

/-- `CheckIfDue` does not fail. -/
theorem checkIfDue_total
    (hwired : h.Wired []) (htimely : Interrupt.Timely h.interrupt)
    (hcounts : Counts h.interrupt.stats) (hoff : h.interrupt.level = .intOff)
    (hclock : h.interrupt.stats.totalTicks + 2 * maxLatency < 2 ^ 31)
    (advanceClock : Bool) :
    ∃ h' fired calls, h.checkIfDue advanceClock = .ok (h', fired, calls) := by
  have hsum := htimely.total
  simp only [checkIfDue, ensure_of_true hoff, ending_ok_bind]
  cases hpending : h.interrupt.pending with
  | nil => exact ⟨_, _, _, rfl⟩
  | cons next rest =>
      simp only
      split
      next => exact ⟨_, _, _, rfl⟩
      next =>
        obtain ⟨device, -, -, hwhen⟩ := hwired.named next
          (hpending ▸ List.mem_cons_self)
        have hdelay := maxDelay_le h device
        obtain ⟨stats, hadvance, hbound⟩ := @advanceTo_total
          h.interrupt.stats next.when hcounts hsum (by omega) (by omega)
        obtain ⟨hle, -, hcounts'⟩ := advanceTo_le hadvance
        obtain ⟨-, hdue, hsum'⟩ := Interrupt.advanceTo_inv hadvance hsum
        have hnonneg := hcounts.idle
        have hnonneg' := hcounts.system
        have hnonneg'' := hcounts.user
        have hbefore : { h with interrupt := { h.interrupt with
            stats := stats, inHandler := true } }.Wired [] :=
          hwired.of_interrupt rfl hle
        obtain ⟨h₁, calls, hfire⟩ := @fireDue_total _ h.interrupt.pending.length
          hbefore (htimely.of_stats _ true _ _ hle hsum')
          (by simpa [Interrupt.frontIsDue, hpending] using hdue)
          List.countP_le_length rfl ⟨by simp only; omega, by simp only; omega⟩
        simp only [hpending] at hfire
        simp only [hadvance, ending_ok_bind, hfire]
        exact ⟨_, _, _, rfl⟩

theorem tick_total
    {stats : Statistics} (hcounts : Counts stats)
    (hsum : stats.totalTicks =
      stats.idleTicks + stats.systemTicks + stats.userTicks)
    (hclock : stats.totalTicks + systemTick < 2 ^ 31) (status : MachineStatus) :
    ∃ stats', stats.tick status = .ok stats' := by
  obtain ⟨hidle, hsystem, huser⟩ := hcounts
  unfold systemTick at hclock
  unfold Statistics.tick systemTick userTick
  split
  · have htotal : addInt stats.totalTicks 10 = .ok (stats.totalTicks + 10) :=
      if_pos ⟨by omega, by omega⟩
    have hpart : addInt stats.systemTicks 10 = .ok (stats.systemTicks + 10) :=
      if_pos ⟨by omega, by omega⟩
    rw [htotal, ending_ok_bind, hpart]
    exact ⟨_, rfl⟩
  · have htotal : addInt stats.totalTicks 1 = .ok (stats.totalTicks + 1) :=
      if_pos ⟨by omega, by omega⟩
    have hpart : addInt stats.userTicks 1 = .ok (stats.userTicks + 1) :=
      if_pos ⟨by omega, by omega⟩
    rw [htotal, ending_ok_bind, hpart]
    exact ⟨_, rfl⟩

theorem oneTick_total
    (hwired : h.Wired []) (htimely : Interrupt.Timely h.interrupt)
    (hcounts : Counts h.interrupt.stats)
    (hclock : h.interrupt.stats.totalTicks + 2 ^ 16 < 2 ^ 31) :
    ∃ h' calls yields, h.oneTick = .ok (h', calls, yields) := by
  have hmax : (maxLatency : ℤ) = 32000 := rfl
  obtain ⟨stats, htick⟩ := tick_total hcounts htimely.total
    (by unfold systemTick; omega) h.interrupt.status
  obtain ⟨hle, hbound, hcounts'⟩ := tick_le htick
  obtain ⟨-, hsum⟩ := Interrupt.tick_inv htick htimely.total
  have hbefore : { h with interrupt := { h.interrupt with
      stats := stats, level := .intOff } }.Wired [] :=
    hwired.of_interrupt rfl hle
  unfold systemTick at hbound
  obtain ⟨h₁, fired, calls, hcheck⟩ := checkIfDue_total hbefore
    (htimely.of_stats .intOff _ _ _ hle hsum) (hcounts' hcounts) rfl
    (by simp only; omega) false
  simp only [oneTick, htick, ending_ok_bind, hcheck]
  split <;> exact ⟨_, _, _, rfl⟩

/-- When the clock may be advanced, the first interrupt fires. -/
theorem checkIfDue_fires
    {fired : Bool} {calls : List Device}
    (hcheck : h.checkIfDue true = .ok (h', fired, calls))
    (hpending : h.interrupt.pending ≠ []) : fired = true := by
  obtain ⟨next, rest, hcons⟩ := List.exists_cons_of_ne_nil hpending
  obtain ⟨⟨⟩, -, hcheck⟩ := ending_ok_of_bind hcheck
  simp only [hcons] at hcheck
  rw [if_neg (by simp)] at hcheck
  obtain ⟨stats, -, hcheck⟩ := ending_ok_of_bind hcheck
  obtain ⟨⟨h₁, calls'⟩, -, hdone⟩ := ending_ok_of_bind hcheck
  cases hdone
  rfl

/-- `Idle` does not halt the machine while an interrupt is pending. -/
theorem idle_total
    (hwired : h.Wired []) (htimely : Interrupt.Timely h.interrupt)
    (hcounts : Counts h.interrupt.stats) (hoff : h.interrupt.level = .intOff)
    (hpending : h.interrupt.pending ≠ [])
    (hclock : h.interrupt.stats.totalTicks + 2 ^ 16 < 2 ^ 31) :
    ∃ h' calls, h.idle = .ok (h', calls) := by
  have hmax : (maxLatency : ℤ) = 32000 := rfl
  have hbefore : { h with interrupt := { h.interrupt with
      status := .idleMode } }.Wired [] := hwired.of_interrupt rfl le_rfl
  obtain ⟨h₁, fired, calls, hcheck⟩ := checkIfDue_total hbefore
    (htimely.of_stats _ _ _ .idleMode le_rfl htimely.total) hcounts hoff
    (by simp only; omega) true
  obtain rfl := checkIfDue_fires hcheck hpending
  simp only [idle, hcheck, ending_ok_bind]
  exact ⟨_, _, rfl⟩

/-- What the callers of the machine have to see to. -/
def Permits (h : Hardware) : Action → Prop
  | .idle => h.interrupt.level = .intOff ∧
      (h.timer.disable = false ∨ h.networkInput.isSome)
  | .putChar _ => h.consoleOutput.putBusy = false
  | .diskRequest r => h.disk.disk.active = false ∧ r.InRange
  | .send packet => h.networkOutput.sendBusy = false ∧
      0 < packet.hdr.length.toNat ∧
      packet.hdr.length.toNat ≤ maxPacketSize ∧
      packet.hdr.fromAddress = h.hostName
  | .receive _ => h.networkInput.isSome
  | _ => True

/-- The timer or the network is always there. -/
theorem pending_of_permits
    (hwired : h.Wired [])
    (hdevice : h.timer.disable = false ∨ h.networkInput.isSome) :
    h.interrupt.pending ≠ [] := by
  intro hnil
  have hnone : ∀ device, h.pendingOf device = [] := by
    intro device
    rw [pendingOf, hnil]
    rfl
  obtain henabled | hopened := hdevice
  · have hone := (hwired.expected .timer).2 henabled
    rw [hnone] at hone
    cases hone
  · have hone := (hwired.expected .networkInput).1
    rw [hnone, if_pos hopened] at hone
    cases hone

theorem send_total
    {packet : Packet} (hearly : Early h) (hfresh : Fresh h)
    (hpermits : h.networkOutput.sendBusy = false ∧
      0 < packet.hdr.length.toNat ∧
      packet.hdr.length.toNat ≤ maxPacketSize ∧
      packet.hdr.fromAddress = h.hostName) :
    ∃ h', h.send packet = .ok h' := by
  have hdata : packet.hdr.length.toNat ≤ packet.data.val.length := by
    rw [packet.data.property]
    exact hpermits.2.2.1
  obtain ⟨wire, rest, hwire, -⟩ := concatenate_ok packet.hdr packet.buffer
    hdata (Nat.add_le_add_left hpermits.2.2.1 headerSize)
  have hsend : ∃ network,
      h.networkOutput.send h.hostName packet = .ok network := by
    unfold NetworkOutput.send Packet.frame
    rw [assert_of_true hpermits, ok_bind]
    split
    · exact ⟨_, rfl⟩
    · rw [hwire]
      exact ⟨_, rfl⟩
  obtain ⟨network, hsend⟩ := hsend
  obtain ⟨h₁, hschedule⟩ := @schedule_total
    { h with networkOutput := network } networkTime .networkOutput
    ⟨hearly.nonneg, hearly.bound⟩ hfresh (by decide) (by decide)
  refine ⟨h₁, ?_⟩
  simp only [send, simulate_of_ok hsend, ending_ok_bind, hschedule]

theorem receive_total
    (hwired : h.Wired []) (hopened : h.networkInput.isSome)
    (data : Buffer maxPacketSize) :
    ∃ h' hdr data', h.receive data = .ok (h', hdr, data') := by
  obtain ⟨network, hnetwork⟩ := Option.isSome_iff_exists.mp hopened
  obtain ⟨-, hheaders, -⟩ := hwired.expected .networkInput
  have hlength := hheaders network hnetwork
  obtain ⟨copied, hcopy, -⟩ := bcopy_ok data
    (hlength.trans network.inbox.property.ge)
    ((Nat.zero_add _).trans_le hlength)
  have hreceive : ∃ hdr data' network',
      network.receive data = .ok (hdr, data', network') := by
    unfold NetworkInput.receive
    simp only
    split
    · rw [hcopy]
      exact ⟨_, _, _, rfl⟩
    · exact ⟨_, _, _, rfl⟩
  obtain ⟨hdr, data', network', hreceive⟩ := hreceive
  refine ⟨{ h with networkInput := some network' }, hdr, data', ?_⟩
  simp only [receive, hnetwork, simulate_of_ok hreceive, ending_ok_bind]
  rfl

theorem diskRequest_total
    {r : DiskRequest} (hwired : h.Wired []) (hearly : Early h)
    (hfresh : Fresh h) (hidle : h.disk.disk.active = false)
    (hrange : r.InRange) :
    ∃ h' data, h.diskRequest r = .ok (h', data) := by
  obtain ⟨sector, hsector, hlt⟩ := DiskRequest.exists_sector hrange
  obtain ⟨-, last, hbefore, hexists⟩ := hwired.expected .disk
  obtain ⟨now, hnow⟩ := Int.eq_ofNat_of_zero_le hearly.nonneg
  obtain ⟨hpos, hbound⟩ := latency_bounds hbefore hexists hlt now r.writing
  rw [← hnow, ← hsector] at hpos hbound
  obtain ⟨disk, data, hrequest, -⟩ := Disk.request_ok hidle hrange
  have hstart : ∃ disk', h.disk.request h.interrupt.stats.totalTicks r =
      .ok (disk', data, h.disk.computeLatency h.interrupt.stats.totalTicks
        r.sectorNumber r.writing) := by
    simp only [TimedDisk.request, hrequest, ok_bind, assert_of_true hpos]
    exact ⟨_, rfl⟩
  obtain ⟨disk', hstart⟩ := hstart
  obtain ⟨h₁, hschedule⟩ := @schedule_total { h with disk := disk' } _ .disk
    ⟨hearly.nonneg, hearly.bound⟩ hfresh hpos hbound.le
  refine ⟨h₁, data, ?_⟩
  simp only [diskRequest, simulate_of_ok hstart, ending_ok_bind, hschedule]
  rfl

theorem getChar_total (hearly : Early h) (hfresh : Fresh h) :
    ∃ h' ch, h.getChar = .ok (h', ch) := by
  unfold getChar
  simp only
  split
  · obtain ⟨h₁, hschedule⟩ := @schedule_total
      { h with consoleInput := h.consoleInput.getChar.2 } consoleTime
      .consoleInput ⟨hearly.nonneg, hearly.bound⟩ hfresh (by decide)
      (by decide)
    rw [hschedule]
    exact ⟨_, _, rfl⟩
  · exact ⟨_, _, rfl⟩

theorem putChar_total
    (hearly : Early h) (hfresh : Fresh h)
    (hidle : h.consoleOutput.putBusy = false) (ch : BitVec 8) :
    ∃ h', h.putChar ch = .ok h' := by
  obtain ⟨h₁, hschedule⟩ := @schedule_total
    { h with consoleOutput := ⟨h.consoleOutput.written ++ [ch], true⟩ }
    consoleTime .consoleOutput ⟨hearly.nonneg, hearly.bound⟩ hfresh
    (by decide) (by decide)
  refine ⟨h₁, ?_⟩
  have hput : h.consoleOutput.putChar ch =
      .ok ⟨h.consoleOutput.written ++ [ch], true⟩ := by
    rw [ConsoleOutput.putChar, assert_of_true hidle]
    rfl
  simp only [putChar, simulate_of_ok hput, ending_ok_bind, hschedule]

/-- A step that its caller may take is not refused. -/
theorem step_total
    {action : Action} (hsound : Sound h)
    (hclock : h.interrupt.stats.totalTicks + 2 ^ 16 < 2 ^ 31)
    (hpermits : Permits h action) :
    ∃ h' event, h.step action = .ok (h', event) := by
  obtain ⟨hwired, hsettled, hreached, hcounts⟩ := hsound
  have htimely := hreached.orderly.timely
  have hsum := htimely.total
  have hmax : (maxLatency : ℤ) = 32000 := rfl
  have hearly : Early h := by
    obtain ⟨hidle, hsystem, huser⟩ := hcounts
    exact ⟨by omega, by omega⟩
  have hfresh : Fresh h := .of_timely htimely
  cases action with
  | oneTick =>
      obtain ⟨h₁, calls, yields, htick⟩ :=
        oneTick_total hwired htimely hcounts hclock
      simp only [step, htick, ending_ok_bind]
      exact ⟨_, _, rfl⟩
  | setLevel now =>
      have hset : ∃ h' calls yields,
          h.setLevel now = .ok (h', calls, yields) := by
        simp only [setLevel, ensure_of_true (Or.inr hsettled.inHandler),
          ending_ok_bind]
        split
        · have hbefore : { h with interrupt := { h.interrupt with
              level := now } }.Wired [] := hwired.of_interrupt rfl le_rfl
          exact oneTick_total hbefore
            (htimely.of_stats _ _ _ _ le_rfl hsum) hcounts hclock
        · exact ⟨_, _, _, rfl⟩
      obtain ⟨h₁, calls, yields, hset⟩ := hset
      simp only [step, hset, ending_ok_bind]
      exact ⟨_, _, rfl⟩
  | idle =>
      obtain ⟨h₁, calls, hidle⟩ := idle_total hwired htimely hcounts
        hpermits.1 (pending_of_permits hwired hpermits.2) hclock
      simp only [step, hidle, ending_ok_bind]
      exact ⟨_, _, rfl⟩
  | openNetworkInput garbage =>
      obtain ⟨h₁, hschedule⟩ := @schedule_total
        { h with networkInput := some (.new garbage) } networkTime
        .networkInput ⟨hearly.nonneg, hearly.bound⟩ hfresh (by decide)
        (by decide)
      simp only [step, openNetworkInput, hschedule, ending_ok_bind]
      exact ⟨_, _, rfl⟩
  | getChar =>
      obtain ⟨h₁, ch, hget⟩ := getChar_total hearly hfresh
      simp only [step, hget, ending_ok_bind]
      exact ⟨_, _, rfl⟩
  | putChar ch =>
      obtain ⟨h₁, hput⟩ := putChar_total hearly hfresh hpermits ch
      simp only [step, hput, ending_ok_bind]
      exact ⟨_, _, rfl⟩
  | diskRequest r =>
      obtain ⟨h₁, data, hdisk⟩ := diskRequest_total hwired hearly hfresh
        hpermits.1 hpermits.2
      simp only [step, hdisk, ending_ok_bind]
      exact ⟨_, _, rfl⟩
  | send packet =>
      obtain ⟨h₁, hsend⟩ := send_total hearly hfresh hpermits
      simp only [step, hsend, ending_ok_bind]
      exact ⟨_, _, rfl⟩
  | receive data =>
      obtain ⟨h₁, hdr, data', hreceive⟩ := receive_total hwired hpermits data
      simp only [step, hreceive, ending_ok_bind]
      exact ⟨_, _, rfl⟩
  | setStatus user => exact ⟨_, _, rfl⟩
  | disableTimer => exact ⟨_, _, rfl⟩
  | typed ch => exact ⟨_, _, rfl⟩
  | inputEnds => exact ⟨_, _, rfl⟩
  | arrives packet => exact ⟨_, _, rfl⟩

end Total

/-! ## All runs -/

section Runs

variable {start : Hardware} {trace : List Event}

theorem Sound.step
    {action : Action} {event : Event} (hsound : Sound h)
    (hsane : Sane trace h action) (hstep : h.step action = .ok (h', event)) :
    Sound h' ∧ Moves h h' action event := by
  have hsum := hsound.reached.orderly.timely.total
  obtain ⟨hidle, hsystem, huser⟩ := hsound.counts
  have hmoves := step_moves hsound.wired hsound.settled (by omega) hsane hstep
  obtain ⟨act, habstract⟩ := hmoves.interrupt
  exact ⟨⟨hmoves.wired, hmoves.settled,
    reached_perform hsound.reached habstract, hmoves.counts hsound.counts⟩,
    hmoves⟩

theorem Sound.run
    (hstart : Sound start) (hrun : (system start).Run Sane trace h) :
    Sound h := by
  refine hrun.invariant (fun _ h => Sound h) hstart ?_
  intro trace h h' action event _ hsound hsane hstep
  exact (hsound.step hsane hstep).1

theorem schedule_keeps
    {fromNow : ℤ} (hschedule : h.schedule device fromNow = .ok h')
    (hreached : Interrupt.Reached h.interrupt) (hsettled : Settled h)
    (hcounts : Counts h.interrupt.stats) :
    Interrupt.Reached h'.interrupt ∧ Settled h' ∧
      Counts h'.interrupt.stats ∧ h'.interrupt.stats = h.interrupt.stats := by
  obtain ⟨interrupt, habstract, hdone⟩ := ending_ok_of_bind hschedule
  have hperform : h.interrupt.perform (.schedule ⟨device.number, fromNow,
      device.intType⟩) = .ok interrupt := habstract
  obtain ⟨item, -, -, -, rfl⟩ := schedule_spec hschedule
  cases hdone
  exact ⟨reached_perform hreached hperform,
    ⟨hsettled.inHandler, hsettled.yieldOnReturn, hsettled.status⟩, hcounts,
    rfl⟩

/-- The devices have been made, and the timer and the keyboard have scheduled
their first interrupts. -/
theorem boot_sound
    (randomize : Bool) (hostName : BitVec 32) (random : ℕ → ℕ)
    (sectors : ℤ → Sector) :
    ∃ start, boot randomize hostName random sectors = .ok start ∧
      Sound start ∧ start.timer = ⟨randomize, false⟩ := by
  generalize hblank : blank randomize hostName random sectors = h₀
  have hinterrupt : h₀.interrupt = .start := by
    rw [← hblank]
    rfl
  have hwired : h₀.Wired [.timer, .consoleInput] := by
    rw [← hblank]
    constructor
    · intro device
      cases device
      case timer => exact ⟨le_rfl, fun _ => rfl⟩
      case consoleInput => exact ⟨rfl, le_rfl, fun _ => rfl⟩
      case consoleOutput => exact rfl
      case disk => exact ⟨rfl, 0, rfl, by decide⟩
      case networkInput => exact ⟨rfl, nofun, nofun⟩
      case networkOutput => trivial
    · exact nofun
  have hearly : Early h₀ := by
    constructor
    · rw [hinterrupt]
      exact le_rfl
    · rw [hinterrupt]
      decide
  have hfresh : Fresh h₀ := by
    unfold Fresh
    rw [hinterrupt]
    exact nofun
  obtain ⟨h₁, hset⟩ := setInterrupt_total hearly hfresh
  have hwired₁ := hwired.setInterrupt hset
  obtain ⟨hdisabled, -⟩ | ⟨random', fromNow, -, hschedule⟩ :=
    setInterrupt_spec hset
  · rw [← hblank] at hdisabled
    cases hdisabled
  obtain ⟨hreached, hsettled, hcounts, hstats⟩ :=
    @schedule_keeps _ _ .timer fromNow hschedule
      (by rw [hinterrupt]; exact ⟨[], .start⟩)
      (by constructor <;> rw [hinterrupt] <;> first | rfl | exact nofun)
      (by rw [hinterrupt]; exact ⟨le_rfl, le_rfl, le_rfl⟩)
  have hearly₁ : Early h₁ := by
    constructor
    · rw [hstats]
      exact hearly.nonneg
    · rw [hstats]
      exact hearly.bound
  obtain ⟨h₂, hschedule₂⟩ := @schedule_total h₁ consoleTime .consoleInput
    hearly₁ (.of_timely hreached.orderly.timely) (by decide) (by decide)
  obtain ⟨hreached₂, hsettled₂, hcounts₂, -⟩ :=
    schedule_keeps hschedule₂ hreached hsettled hcounts
  refine ⟨h₂, ?_, ⟨hwired₁.schedule le_rfl hschedule₂, hsettled₂, hreached₂,
    hcounts₂⟩, ?_⟩
  · rw [boot, hblank, hset, ending_ok_bind, hschedule₂]
  · obtain ⟨item, -, -, -, rfl⟩ := schedule_spec hschedule
    obtain ⟨item₂, -, -, -, rfl⟩ := schedule_spec hschedule₂
    rw [← hblank]
    rfl

end Runs

end Hardware

end Nachos.Scheduling
