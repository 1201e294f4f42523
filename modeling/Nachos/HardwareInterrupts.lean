import Nachos.Hardware
import Nachos.SimulatedTime
import Nachos.DiskLatency

/-!
# Which interrupts the devices have pending

What the machine does with its devices, the interrupts do with some handlers.
Each device has just the interrupts pending that its state calls for, in the
firing loop but for the one that is being handled.
-/

namespace Nachos.Scheduling

open Library

/-- The interrupts of a device that are pending. -/
def Hardware.pendingOf (h : Hardware) (device : Device) :
    List PendingInterrupt :=
  h.interrupt.pending.filter fun p => p.callOnInterrupt = device.number

/-- A device schedules its interrupts no further ahead. -/
def Device.maxDelay (h : Hardware) : Device → ℤ
  | timer => if h.timer.randomize then timerTicks * 2 else timerTicks
  | consoleInput | consoleOutput => consoleTime
  | networkInput | networkOutput => networkTime
  | disk => maxLatency

/-- A packet for this host, as `NetworkOutput::Send` of another one makes
it. -/
def IsPacketFor (hostName : BitVec 32) (packet : Buffer maxWireSize) : Prop :=
  (Header.ofBytes packet.val).toAddress = hostName ∧
    (Header.ofBytes packet.val).length.toNat ≤ maxPacketSize

/-- A device is in a state that calls for so many interrupts. -/
def Hardware.Expects (h : Hardware) : Device → ℕ → Prop
  | .timer, count => count ≤ 1 ∧ (h.timer.disable = false → count = 1)
  | .consoleInput, count => count = h.consoleInput.scheduled ∧ count ≤ 1 ∧
      (count = 1 → h.consoleInput.incoming = eof)
  | .consoleOutput, count => count = if h.consoleOutput.putBusy then 1 else 0
  | .disk, count => (count = if h.disk.disk.active then 1 else 0) ∧
      ∃ last : ℕ, h.disk.lastSector = last ∧ (last : ℤ) < numSectors
  | .networkInput, count =>
      (count = if h.networkInput.isSome then 1 else 0) ∧
      (∀ networkInput ∈ h.networkInput,
        networkInput.inHdr.length.toNat ≤ maxPacketSize) ∧
      ∀ packet ∈ h.socket, IsPacketFor h.hostName packet
  | .networkOutput, _ => True

/-- The pending interrupts are those that the devices expect, where one that is
not in the list counts for each device in `handled`. -/
structure Hardware.Wired (h : Hardware) (handled : List Device) : Prop where
  expected : ∀ device,
    h.Expects device ((h.pendingOf device).length + handled.count device)
  named : ∀ p ∈ h.interrupt.pending, ∃ device : Device,
    p.callOnInterrupt = device.number ∧ p.type = device.intType ∧
      p.when ≤ h.interrupt.stats.totalTicks + device.maxDelay h

namespace Hardware

open Interrupt (addInt_eq ending_ok_of_bind insert_perm)

variable {h h' : Hardware} {device : Device} {handled : List Device}

/-! ## The list of interrupts -/

section Lists

theorem expects_interrupt (h : Hardware) (interrupt : Interrupt)
    (device : Device) (count : ℕ) :
    { h with interrupt := interrupt }.Expects device count ↔
      h.Expects device count := by
  cases device <;> exact Iff.rfl

theorem length_pendingOf_insert (item : PendingInterrupt) (device : Device) :
    ((SortedList.insert pendingCompare item h.interrupt.pending).filter
        fun p => p.callOnInterrupt = device.number).length =
      (h.pendingOf device).length +
        if item.callOnInterrupt = device.number then 1 else 0 := by
  rw [(insert_perm.filter _).length_eq, List.filter_cons]
  by_cases hitem : item.callOnInterrupt = device.number
  · simp [hitem, pendingOf]
  · simp [hitem, pendingOf]

/-- Only the interrupts and the time count, and time may pass. -/
theorem Wired.of_interrupt
    (hwired : h.Wired handled) {interrupt : Interrupt}
    (hpending : interrupt.pending = h.interrupt.pending)
    (hlater : h.interrupt.stats.totalTicks ≤ interrupt.stats.totalTicks) :
    { h with interrupt := interrupt }.Wired handled where
  expected device := by
    rw [expects_interrupt, pendingOf, hpending]
    exact hwired.expected device
  named p hp := by
    obtain ⟨device, hnumber, htype, hwhen⟩ := hwired.named p (hpending ▸ hp)
    exact ⟨device, hnumber, htype, hwhen.trans (Int.add_le_add_right hlater _)⟩

/-- The front of the list is about to be handled. -/
theorem Wired.remove
    (hwired : h.Wired handled) {next : PendingInterrupt}
    {rest : List PendingInterrupt} {history : List Occurrence}
    (hpending : h.interrupt.pending = next :: rest)
    (hnext : next.callOnInterrupt = device.number) :
    { h with interrupt := { h.interrupt with
      pending := rest, history := history } }.Wired (device :: handled) where
  expected other := by
    have hexpected := hwired.expected other
    rw [pendingOf, hpending, List.filter_cons] at hexpected
    rw [expects_interrupt, pendingOf, List.count_cons]
    by_cases hsame : device = other
    · subst hsame
      simp only [hnext, decide_true, if_true, List.length_cons] at hexpected
      simp only [beq_self_eq_true, if_true]
      rw [← Nat.add_assoc, Nat.add_right_comm]
      exact hexpected
    · have hnumber : next.callOnInterrupt ≠ other.number := by
        rw [hnext]
        exact mt Device.number_inj.mp hsame
      simp only [hnumber, decide_false, Bool.false_eq_true, if_false]
        at hexpected
      simp only [beq_iff_eq, hsame, if_false, Nat.add_zero]
      exact hexpected
  named p hp :=
    hwired.named p (hpending ▸ List.mem_cons_of_mem next hp)

end Lists

/-! ## The steps of the devices -/

section Devices

theorem simulate_ok {α : Type} {outcome : Except Fault α} {a : α}
    (hok : simulate outcome = .ok a) : outcome = .ok a := by
  cases outcome with
  | error fault => cases hok
  | ok b =>
      cases hok
      rfl

/-- An interrupt that has been scheduled is one of the device. -/
theorem schedule_spec {fromNow : ℤ}
    (hschedule : h.schedule device fromNow = .ok h') :
    ∃ item : PendingInterrupt, item.callOnInterrupt = device.number ∧
      item.type = device.intType ∧
      item.when = h.interrupt.stats.totalTicks + fromNow ∧
      h' = { h with interrupt := { h.interrupt with
        pending := SortedList.insert pendingCompare item h.interrupt.pending
        allocated := h.interrupt.allocated + 1
        history := h.interrupt.history ++ [.scheduled item] } } := by
  obtain ⟨interrupt, hinterrupt, hdone⟩ := ending_ok_of_bind hschedule
  obtain ⟨when, hwhen, hinterrupt⟩ := ending_ok_of_bind hinterrupt
  obtain ⟨_, -, hinterrupt⟩ := ending_ok_of_bind hinterrupt
  obtain ⟨_, -, hinterrupt⟩ := ending_ok_of_bind hinterrupt
  cases hinterrupt
  cases hdone
  exact ⟨_, rfl, rfl, addInt_eq hwhen, rfl⟩

/-- A device that has just been handled schedules its next interrupt. -/
theorem Wired.schedule
    (hwired : h.Wired (device :: handled)) {fromNow : ℤ}
    (hdelay : fromNow ≤ device.maxDelay h)
    (hschedule : h.schedule device fromNow = .ok h') : h'.Wired handled := by
  obtain ⟨item, hnumber, htype, hwhen, rfl⟩ := schedule_spec hschedule
  constructor
  · intro other
    have hexpected := hwired.expected other
    rw [expects_interrupt, pendingOf, length_pendingOf_insert, hnumber]
    rw [List.count_cons, Nat.add_comm (List.count other handled)] at hexpected
    simp only [Device.number_inj]
    simp only [beq_iff_eq] at hexpected
    rwa [Nat.add_assoc]
  · intro p hp
    obtain rfl | hold := List.mem_cons.mp (insert_perm.subset hp)
    · refine ⟨device, hnumber, htype, ?_⟩
      rw [hwhen]
      exact Int.add_le_add_left hdelay _
    · exact hwired.named p hold

/-- The devices have changed, and with them what they expect. -/
theorem Wired.change
    {handled' : List Device} (hwired : h.Wired handled)
    (hinterrupt : h'.interrupt = h.interrupt)
    (hrandomize : h'.timer.randomize = h.timer.randomize)
    (hexpected : ∀ device count,
      h.Expects device (count + handled.count device) →
        h'.Expects device (count + handled'.count device)) :
    h'.Wired handled' where
  expected device := by
    rw [pendingOf, hinterrupt]
    exact hexpected device _ (hwired.expected device)
  named p hp := by
    rw [hinterrupt] at hp ⊢
    obtain ⟨device, hnumber, htype, hwhen⟩ := hwired.named p hp
    refine ⟨device, hnumber, htype, ?_⟩
    cases device <;> simpa only [Device.maxDelay, hrandomize] using hwhen

end Devices

/-! ## The handlers -/

section Handlers

/-- What a handler leaves alone.  The timer is handled where the processor is
told to yield, or else the machine is idle. -/
structure Handles (h h' : Hardware) : Prop where
  timer : h'.timer = h.timer
  stats : h'.interrupt.stats = h.interrupt.stats
  status : h'.interrupt.status = h.interrupt.status
  inHandler : h'.interrupt.inHandler = h.interrupt.inHandler
  level : h'.interrupt.level = h.interrupt.level
  stays : h.interrupt.status = .idleMode →
    h'.interrupt.yieldOnReturn = h.interrupt.yieldOnReturn
  slices : h.interrupt.status ≠ .idleMode →
    h'.interrupt.yieldOnReturn = true ∨
      h'.interrupt.yieldOnReturn = h.interrupt.yieldOnReturn ∧
        h'.pendingOf .timer = h.pendingOf .timer

/-- What the handler of a device does. -/
structure Answers (h : Hardware) (device : Device) (h' : Hardware) : Prop where
  wired : h'.Wired []
  handles : Handles h h'
  slices : device = .timer → h.interrupt.status ≠ .idleMode →
    h'.interrupt.yieldOnReturn = true
  handler : ∃ handler, h.interrupt.callBack handler = .ok h'.interrupt

theorem schedule_yieldOnReturn
    (s : Interrupt) (request : ScheduleRequest) (yields : Bool) :
    { s with yieldOnReturn := yields }.schedule request =
      (s.schedule request).map fun s' =>
        { s' with yieldOnReturn := yields } := by
  unfold Interrupt.schedule
  cases addInt s.stats.totalTicks request.fromNow with
  | error ending => rfl
  | ok when =>
      simp only [Interrupt.ending_ok_bind, ensure, assert]
      split_ifs <;> rfl

theorem Handles.of_eq
    (hinterrupt : h'.interrupt = h.interrupt) (htimer : h'.timer = h.timer) :
    Handles h h' where
  timer := htimer
  stats := by rw [hinterrupt]
  status := by rw [hinterrupt]
  inHandler := by rw [hinterrupt]
  level := by rw [hinterrupt]
  stays _ := by rw [hinterrupt]
  slices _ := .inr ⟨by rw [hinterrupt], by rw [pendingOf, hinterrupt]; rfl⟩

theorem Handles.trans
    {h'' : Hardware} (hfirst : Handles h h') (hsecond : Handles h' h'') :
    Handles h h'' where
  timer := hsecond.timer.trans hfirst.timer
  stats := hsecond.stats.trans hfirst.stats
  status := hsecond.status.trans hfirst.status
  inHandler := hsecond.inHandler.trans hfirst.inHandler
  level := hsecond.level.trans hfirst.level
  stays hidle := (hsecond.stays (hfirst.status ▸ hidle)).trans
    (hfirst.stays hidle)
  slices hbusy := by
    obtain hyields | ⟨hsame, hpending⟩ := hsecond.slices (hfirst.status ▸ hbusy)
    · exact .inl hyields
    obtain hyields | ⟨hsame', hpending'⟩ := hfirst.slices hbusy
    · exact .inl (hsame.trans hyields)
    · exact .inr ⟨hsame.trans hsame', hpending.trans hpending'⟩

theorem filter_insert_of_not
    {item : PendingInterrupt} {keep : PendingInterrupt → Bool}
    (hitem : keep item = false) (pending : List PendingInterrupt) :
    (SortedList.insert pendingCompare item pending).filter keep =
      pending.filter keep := by
  induction pending with
  | nil => simp [SortedList.insert, hitem]
  | cons first rest ih =>
      unfold SortedList.insert
      split
      · rw [List.filter_cons, hitem]
        rfl
      · rw [List.filter_cons, List.filter_cons, ih]

/-- A device other than the timer schedules its next interrupt. -/
theorem handles_schedule
    (hother : device ≠ .timer) {fromNow : ℤ}
    (hschedule : h.schedule device fromNow = .ok h') :
    Handles h h' ∧ ∃ handler,
      h.interrupt.callBack handler = .ok h'.interrupt := by
  constructor
  · obtain ⟨item, hnumber, -, -, rfl⟩ := schedule_spec hschedule
    constructor
    case slices =>
      intro _
      refine .inr ⟨rfl, filter_insert_of_not ?_ _⟩
      rw [hnumber, decide_eq_false_iff_not, Device.number_inj]
      exact hother
    all_goals first
      | rfl
      | exact fun _ => rfl
  · obtain ⟨interrupt, hinterrupt, hdone⟩ := ending_ok_of_bind hschedule
    cases hdone
    refine ⟨⟨[⟨device.number, fromNow, device.intType⟩], false⟩, ?_⟩
    rw [Interrupt.callBack, List.foldlM_cons, hinterrupt]
    simp only [Interrupt.ending_ok_bind, List.foldlM_nil, Bool.or_false]
    rfl

theorem callBack_nothing (s : Interrupt) :
    s.callBack ⟨[], false⟩ = .ok s := by
  simp only [Interrupt.callBack, List.foldlM_nil, Bool.or_false]
  rfl

/-- The timer tells the processor to yield, unless the machine is idle, and
schedules its next interrupt, unless it is disabled. -/
theorem alarmCallBack_spec (halarm : h.alarmCallBack = .ok h') :
    h' = { h with interrupt := { h.interrupt with
      yieldOnReturn := h.interrupt.yieldOnReturn ||
        decide (h.interrupt.status ≠ .idleMode) } } := by
  unfold alarmCallBack at halarm
  split at halarm
  next hbusy =>
    obtain ⟨_, -, hdone⟩ := ending_ok_of_bind halarm
    cases hdone
    simp [hbusy]
  next hidle =>
    cases halarm
    simp [hidle]

/-- What the timer does to the interrupts, when it is not disabled. -/
theorem setInterrupt_spec (hset : h.setInterrupt = .ok h') :
    (h.timer.disable = true ∧ h' = h) ∨
      ∃ random fromNow, fromNow ≤ Device.timer.maxDelay h ∧
        { h with random := random }.schedule .timer fromNow = .ok h' := by
  unfold setInterrupt at hset
  split at hset
  next =>
    refine .inr ?_
    split at hset
    next hrandom =>
      refine ⟨_, _, ?_, hset⟩
      have hlt := Int.emod_lt_of_pos (h.random 0 : ℤ)
        (show 0 < timerTicks * 2 by decide)
      rw [Device.maxDelay, if_pos hrandom]
      omega
    next hfixed =>
      refine ⟨h.random, _, ?_, hset⟩
      rw [Device.maxDelay, if_neg hfixed]
  next hdisabled =>
    cases hset
    exact .inl ⟨by simpa using hdisabled, rfl⟩

/-- A handler schedules an interrupt, and may tell the processor to yield. -/
theorem callBack_schedule
    {s s' : Interrupt} {request : ScheduleRequest} {yields : Bool}
    (hschedule : { s with
      yieldOnReturn := s.yieldOnReturn || yields }.schedule request = .ok s') :
    s.callBack ⟨[request], yields⟩ = .ok s' := by
  rw [schedule_yieldOnReturn] at hschedule
  cases hplain : s.schedule request with
  | error ending =>
      rw [hplain] at hschedule
      cases hschedule
  | ok plain =>
      rw [hplain] at hschedule
      cases hschedule
      have hsame : plain.yieldOnReturn = s.yieldOnReturn := by
        obtain ⟨item, -, -, rfl⟩ := Interrupt.schedule_inv hplain
        rfl
      simp only [Interrupt.callBack, List.foldlM_cons, List.foldlM_nil, hplain,
        Interrupt.ending_ok_bind, ← hsame]
      rfl

/-- The timer, which has been handled, schedules its next interrupt, unless it
is disabled. -/
theorem Wired.setInterrupt
    (hwired : h.Wired (.timer :: handled))
    (hset : h.setInterrupt = .ok h') : h'.Wired handled := by
  obtain ⟨hdisabled, rfl⟩ | ⟨random, fromNow, hdelay, hschedule⟩ :=
    setInterrupt_spec hset
  · refine hwired.change rfl rfl ?_
    intro other count hexpected
    cases other
    case timer =>
      obtain ⟨hle, -⟩ := hexpected
      rw [List.count_cons_self] at hle
      refine ⟨by omega, fun henabled => ?_⟩
      rw [hdisabled] at henabled
      cases henabled
    all_goals exact hexpected
  · have hrandom : { h with random := random }.Wired (.timer :: handled) := by
      refine hwired.change rfl rfl ?_
      intro other count hexpected
      cases other <;> exact hexpected
    exact hrandom.schedule hdelay hschedule

theorem answers_timer
    (hwired : h.Wired [.timer]) {called : Bool}
    (hcall : h.callBack .timer = .ok (h', called)) : Answers h .timer h' := by
  obtain ⟨h₁, halarm, hcall⟩ := ending_ok_of_bind hcall
  obtain ⟨h₂, hset, hdone⟩ := ending_ok_of_bind hcall
  cases hdone
  obtain rfl := alarmCallBack_spec halarm
  have hyields : h'.interrupt.yieldOnReturn = (h.interrupt.yieldOnReturn ||
      decide (h.interrupt.status ≠ .idleMode)) := by
    obtain ⟨-, rfl⟩ | ⟨random, fromNow, -, hschedule⟩ := setInterrupt_spec hset
    · rfl
    · obtain ⟨item, -, -, -, rfl⟩ := schedule_spec hschedule
      rfl
  have hbusy : h.interrupt.status ≠ .idleMode →
      h'.interrupt.yieldOnReturn = true := by
    intro hbusy
    simp [hyields, hbusy]
  constructor
  case wired =>
    refine Wired.setInterrupt ?_ hset
    exact hwired.of_interrupt rfl le_rfl
  case handles =>
    constructor
    case stays =>
      intro hidle
      simp [hyields, hidle]
    case slices => exact fun hstatus => .inl (hbusy hstatus)
    all_goals
      obtain ⟨-, rfl⟩ | ⟨random, fromNow, -, hschedule⟩ :=
        setInterrupt_spec hset
      · rfl
      · obtain ⟨item, -, -, -, rfl⟩ := schedule_spec hschedule
        rfl
  case slices => exact fun _ => hbusy
  case handler =>
    obtain ⟨-, rfl⟩ | ⟨random, fromNow, -, hschedule⟩ := setInterrupt_spec hset
    · exact ⟨⟨[], _⟩, rfl⟩
    · obtain ⟨interrupt, hinterrupt, hdone⟩ := ending_ok_of_bind hschedule
      cases hdone
      exact ⟨_, callBack_schedule hinterrupt⟩

/-- A device that does not schedule an interrupt. -/
theorem answers_of_eq
    (hwired : h.Wired [device]) (hother : device ≠ .timer)
    (hinterrupt : h'.interrupt = h.interrupt) (htimer : h'.timer = h.timer)
    (hexpected : ∀ other count,
      h.Expects other (count + [device].count other) →
        h'.Expects other count) :
    Answers h device h' where
  wired := hwired.change hinterrupt (by rw [htimer]) hexpected
  handles := .of_eq hinterrupt htimer
  slices hsame := absurd hsame hother
  handler := ⟨_, by rw [hinterrupt]; exact callBack_nothing _⟩

/-- The console calls the kernel, or polls again. -/
theorem consoleInput_spec
    {console console' : ConsoleInput} {called : Bool}
    (hcall : console.callBack = .ok (console', called)) :
    called = true ∧ console'.scheduled = console.scheduled ∨
      called = false ∧ console.incoming = eof ∧
        console' = { console with scheduled := console.scheduled + 1 } := by
  obtain ⟨_, hassert, hcall⟩ := ok_of_bind hcall
  have hempty := of_assert hassert
  cases hunread : console.unread with
  | cons ch unread =>
      rw [hunread] at hcall
      cases hcall
      exact .inl ⟨rfl, rfl⟩
  | nil =>
      rw [hunread] at hcall
      cases hended : console.ended with
      | true =>
          simp only [hended, if_true] at hcall
          cases hcall
          exact .inl ⟨rfl, rfl⟩
      | false =>
          simp only [hended, Bool.false_eq_true, if_false] at hcall
          cases hcall
          exact .inr ⟨rfl, hempty, rfl⟩

theorem answers_consoleInput
    (hwired : h.Wired [.consoleInput]) {called : Bool}
    (hcall : h.callBack .consoleInput = .ok (h', called)) :
    Answers h .consoleInput h' := by
  obtain ⟨⟨console, hasCalled⟩, hconsole, hcall⟩ := ending_ok_of_bind hcall
  obtain ⟨rfl, hscheduled⟩ | ⟨rfl, hempty, hpolls⟩ :=
    consoleInput_spec (simulate_ok hconsole)
  · cases hcall
    refine answers_of_eq hwired nofun rfl rfl ?_
    intro other count hexpected
    cases other
    case consoleInput =>
      obtain ⟨heq, hle, -⟩ := hexpected
      change count + 1 = h.consoleInput.scheduled at heq
      change count + 1 ≤ 1 at hle
      change count = console.scheduled ∧ count ≤ 1 ∧
        (count = 1 → console.incoming = eof)
      rw [hscheduled]
      refine ⟨?_, by omega, by omega⟩
      change count = h.consoleInput.scheduled - 1
      omega
    all_goals exact hexpected
  · obtain ⟨h₁, hschedule, hdone⟩ := ending_ok_of_bind hcall
    cases hdone
    have hpaid : { h with consoleInput := console }.Wired [.consoleInput] := by
      refine hwired.change rfl rfl ?_
      intro other count hexpected
      cases other
      case consoleInput =>
        obtain ⟨heq, hle, -⟩ := hexpected
        change count + 1 = h.consoleInput.scheduled at heq
        change count + 1 = console.scheduled ∧ count + 1 ≤ 1 ∧
          (count + 1 = 1 → console.incoming = eof)
        rw [hpolls]
        refine ⟨?_, hle, fun _ => hempty⟩
        change count + 1 = h.consoleInput.scheduled - 1 + 1
        omega
      all_goals exact hexpected
    have hsame : Handles h { h with consoleInput := console } :=
      .of_eq rfl rfl
    obtain ⟨hhandles, handler, habstract⟩ :=
      handles_schedule (by decide) hschedule
    exact ⟨hpaid.schedule le_rfl hschedule, hsame.trans hhandles, nofun,
      handler, habstract⟩

theorem networkInput_spec
    {network network' : NetworkInput} {hostName : BitVec 32}
    {socket socket' : List (Buffer maxWireSize)} {called : Bool}
    (hcall : network.callBack hostName socket =
      .ok (network', socket', called)) :
    (network' = network ∨ network'.inHdr.length.toNat ≤ maxPacketSize) ∧
      socket' ⊆ socket := by
  unfold NetworkInput.callBack at hcall
  split at hcall
  · cases hcall
    exact ⟨.inl rfl, List.Subset.refl _⟩
  cases socket with
  | nil =>
      cases hcall
      exact ⟨.inl rfl, List.Subset.refl _⟩
  | cons packet rest =>
      obtain ⟨_, hassert, hcall⟩ := ok_of_bind hcall
      obtain ⟨inbox, -, hdone⟩ := ok_of_bind hcall
      cases hdone
      exact ⟨.inr (of_assert hassert).2, List.subset_cons_self _ _⟩

theorem answers_networkInput
    (hwired : h.Wired [.networkInput]) {called : Bool}
    (hcall : h.callBack .networkInput = .ok (h', called)) :
    Answers h .networkInput h' := by
  cases hopened : h.networkInput with
  | none =>
      simp only [callBack, hopened] at hcall
      cases hcall
  | some networkInput =>
      simp only [callBack, hopened] at hcall
      obtain ⟨h₁, hschedule, hcall⟩ := ending_ok_of_bind hcall
      obtain ⟨⟨networkInput', socket, hasCalled⟩, hdevice, hdone⟩ :=
        ending_ok_of_bind hcall
      cases hdone
      obtain ⟨hhandles, handler, habstract⟩ :=
        handles_schedule (by decide) hschedule
      refine ⟨?_, hhandles.trans (.of_eq rfl rfl), nofun, handler, habstract⟩
      refine (hwired.schedule le_rfl hschedule).change rfl rfl ?_
      obtain ⟨item, -, -, -, rfl⟩ := schedule_spec hschedule
      obtain ⟨hheader, hsocket⟩ := networkInput_spec (simulate_ok hdevice)
      intro other count hexpected
      cases other
      case networkInput =>
        obtain ⟨hcount, hheaders, hpackets⟩ := hexpected
        refine ⟨?_, ?_, fun packet hmem => hpackets packet (hsocket hmem)⟩
        · change count + 0 = if h.networkInput.isSome then 1 else 0 at hcount
          rw [hopened] at hcount
          exact hcount
        · rintro _ ⟨⟩
          obtain rfl | hlength := hheader
          · exact hheaders networkInput' hopened
          · exact hlength
      all_goals exact hexpected

theorem callBack_answers
    (hwired : h.Wired [device]) {called : Bool}
    (hcall : h.callBack device = .ok (h', called)) : Answers h device h' := by
  cases device
  case timer => exact answers_timer hwired hcall
  case consoleInput => exact answers_consoleInput hwired hcall
  case networkInput => exact answers_networkInput hwired hcall
  case consoleOutput =>
    cases hcall
    refine answers_of_eq hwired nofun rfl rfl ?_
    intro other count hexpected
    cases other
    case consoleOutput =>
      change count + 1 = if h.consoleOutput.putBusy then 1 else 0 at hexpected
      change count = 0
      split at hexpected <;> omega
    all_goals exact hexpected
  case disk =>
    cases hcall
    refine answers_of_eq hwired nofun rfl rfl ?_
    intro other count hexpected
    cases other
    case disk =>
      obtain ⟨hactive, hlast⟩ := hexpected
      refine ⟨?_, hlast⟩
      change count + 1 = if h.disk.disk.active then 1 else 0 at hactive
      change count = 0
      split at hactive <;> omega
    all_goals exact hexpected
  case networkOutput =>
    cases hcall
    refine answers_of_eq hwired nofun rfl rfl ?_
    intro other count hexpected
    cases other
    case networkOutput => trivial
    all_goals exact hexpected

/-- The loop of `CheckIfDue` is that of the interrupts, with some handlers. -/
theorem fireDue_handles
    {fuel : ℕ} {calls : List Device} (hwired : h.Wired [])
    (hfire : h.fireDue fuel = .ok (h', calls)) :
    h'.Wired [] ∧ Handles h h' ∧ ∃ handlers,
      Interrupt.fireDue fuel handlers h.interrupt = .ok h'.interrupt := by
  induction fuel generalizing h calls with
  | zero => cases hfire
  | succ fuel ih =>
      cases hpending : h.interrupt.pending with
      | nil =>
          simp only [fireDue, hpending] at hfire
          cases hfire
      | cons next rest =>
          obtain ⟨device, hnext, -, -⟩ := hwired.named next
            (hpending ▸ List.mem_cons_self)
          simp only [fireDue, hpending, hnext, Device.ofNumber_number] at hfire
          obtain ⟨⟨h₁, called⟩, hcall, hfire⟩ := ending_ok_of_bind hfire
          obtain ⟨hwired', hhandles, hslices, handler, habstract⟩ :=
            callBack_answers (hwired.remove hpending hnext) hcall
          have hround : Handles h h₁ := by
            refine ⟨hhandles.timer, hhandles.stats, hhandles.status,
              hhandles.inHandler, hhandles.level, hhandles.stays,
              fun hbusy => ?_⟩
            by_cases htimer : device = .timer
            · exact .inl (hslices htimer hbusy)
            · refine (hhandles.slices hbusy).imp_right fun ⟨hsame, heq⟩ => ?_
              refine ⟨hsame, heq.trans ?_⟩
              have hnumber : next.callOnInterrupt ≠ Device.timer.number := by
                rw [hnext]
                exact mt Device.number_inj.mp htimer
              simp [pendingOf, hpending, hnumber]
          by_cases hdue : h₁.interrupt.frontIsDue = true
          · rw [if_pos hdue] at hfire
            obtain ⟨⟨h₂, more⟩, hrest, hdone⟩ := ending_ok_of_bind hfire
            cases hdone
            obtain ⟨hafter, hhandles', handlers, habstract'⟩ :=
              ih hwired' hrest
            refine ⟨hafter, hround.trans hhandles',
              fun k => if k = 0 then handler else handlers (k - 1), ?_⟩
            simp only [Interrupt.fireDue, hpending, if_true, habstract,
              Interrupt.ending_ok_bind, hdue]
            exact habstract'
          · rw [if_neg hdue] at hfire
            cases hfire
            refine ⟨hwired', hround, fun _ => handler, ?_⟩
            simp only [Interrupt.fireDue, hpending, habstract,
              Interrupt.ending_ok_bind, hdue, Bool.false_eq_true, if_false]
            rfl

end Handlers

/-! ## The clock -/

section Clock

/-- Between two calls of the interrupts. -/
structure Settled (h : Hardware) : Prop where
  inHandler : h.interrupt.inHandler = false
  yieldOnReturn : h.interrupt.yieldOnReturn = false
  status : h.interrupt.status ≠ .idleMode

/-- The parts of the clock. -/
structure Counts (stats : Statistics) : Prop where
  idle : 0 ≤ stats.idleTicks
  system : 0 ≤ stats.systemTicks
  user : 0 ≤ stats.userTicks

theorem advanceTo_le
    {stats stats' : Statistics} {when : ℤ}
    (hadvance : stats.advanceTo when = .ok stats') :
    stats.totalTicks ≤ stats'.totalTicks ∧
      (when ≤ stats.totalTicks → stats' = stats) ∧
      (Counts stats → Counts stats') := by
  unfold Statistics.advanceTo at hadvance
  split at hadvance
  next hlater =>
    obtain ⟨idle, hidle, hdone⟩ := ending_ok_of_bind hadvance
    cases hdone
    refine ⟨hlater.le, fun hle => absurd hlater (not_lt.mpr hle), ?_⟩
    intro hcounts
    have hnonneg := hcounts.idle
    have hsum := addInt_eq hidle
    exact ⟨by simp only; omega, hcounts.system, hcounts.user⟩
  next =>
    cases hadvance
    exact ⟨le_rfl, fun _ => rfl, id⟩

/-- `CheckIfDue` of the interrupts, with some handlers, at a time that is
later only if the clock may be advanced. -/
theorem checkIfDue_handles
    {advanceClock fired : Bool} {calls : List Device} (hwired : h.Wired [])
    (houtside : h.interrupt.inHandler = false)
    (hcheck : h.checkIfDue advanceClock = .ok (h', fired, calls)) :
    h'.Wired [] ∧
      (∃ stats : Statistics,
        h.interrupt.stats.totalTicks ≤ stats.totalTicks ∧
        (advanceClock = false → stats = h.interrupt.stats) ∧
        (Counts h.interrupt.stats → Counts stats) ∧
        Handles { h with interrupt := { h.interrupt with stats := stats } }
          h') ∧
      ∃ handlers, h.interrupt.checkIfDue advanceClock handlers =
        .ok (h'.interrupt, fired) := by
  obtain ⟨⟨⟩, hlevel, hcheck⟩ := ending_ok_of_bind hcheck
  cases hpending : h.interrupt.pending with
  | nil =>
      simp only [hpending] at hcheck
      cases hcheck
      refine ⟨hwired, ⟨_, le_rfl, fun _ => rfl, id, .of_eq rfl rfl⟩,
        fun _ => ⟨[], false⟩, ?_⟩
      simp only [Interrupt.checkIfDue, hlevel, Interrupt.ending_ok_bind,
        hpending]
      rfl
  | cons next rest =>
      simp only [hpending] at hcheck
      by_cases hlater : next.when > h.interrupt.stats.totalTicks ∧
          advanceClock = false
      · rw [if_pos hlater] at hcheck
        cases hcheck
        refine ⟨hwired, ⟨_, le_rfl, fun _ => rfl, id, .of_eq rfl rfl⟩,
          fun _ => ⟨[], false⟩, ?_⟩
        simp only [Interrupt.checkIfDue, hlevel, Interrupt.ending_ok_bind,
          hpending, if_pos hlater]
        rfl
      · rw [if_neg hlater] at hcheck
        obtain ⟨stats, hadvance, hcheck⟩ := ending_ok_of_bind hcheck
        obtain ⟨⟨h₁, calls'⟩, hfire, hdone⟩ := ending_ok_of_bind hcheck
        cases hdone
        rw [← hpending] at hfire
        obtain ⟨hle, hsame, hcounts⟩ := advanceTo_le hadvance
        have hbefore : { h with interrupt := { h.interrupt with
            stats := stats, inHandler := true } }.Wired [] :=
          hwired.of_interrupt rfl hle
        obtain ⟨hafter, hhandles, handlers, habstract⟩ :=
          fireDue_handles hbefore hfire
        refine ⟨hafter.of_interrupt rfl le_rfl, ⟨stats, hle, ?_, hcounts, ?_⟩,
          handlers, ?_⟩
        · intro hstays
          exact hsame (not_lt.mp fun hlt => hlater ⟨hlt, hstays⟩)
        · exact ⟨hhandles.timer, hhandles.stats, hhandles.status,
            houtside.symm, hhandles.level, hhandles.stays, hhandles.slices⟩
        · simp only [Interrupt.checkIfDue, hlevel, Interrupt.ending_ok_bind,
            hpending, if_neg hlater, hadvance]
          rw [← hpending, habstract]
          rfl

/-- What a tick does, with whether the thread that runs has to yield. -/
structure Ticks (h h' : Hardware) (yields : Bool) : Prop where
  wired : h'.Wired []
  settled : Settled h'
  timer : h'.timer = h.timer
  elapsed : h'.interrupt.stats.totalTicks ≤
    h.interrupt.stats.totalTicks + systemTick
  slices : yields = false → h'.pendingOf .timer = h.pendingOf .timer
  counts : Counts h.interrupt.stats → Counts h'.interrupt.stats

theorem tick_le
    {stats stats' : Statistics} {status : MachineStatus}
    (htick : stats.tick status = .ok stats') :
    stats.totalTicks ≤ stats'.totalTicks ∧
      stats'.totalTicks ≤ stats.totalTicks + systemTick ∧
      (Counts stats → Counts stats') := by
  unfold Statistics.tick at htick
  unfold systemTick
  split at htick
  · obtain ⟨total, htotal, htick⟩ := ending_ok_of_bind htick
    obtain ⟨part, hpart, hdone⟩ := ending_ok_of_bind htick
    cases hdone
    have hsum := addInt_eq htotal
    have hsum' := addInt_eq hpart
    unfold systemTick at hsum hsum'
    refine ⟨by simp only; omega, by simp only; omega, fun hcounts => ?_⟩
    have hnonneg := hcounts.system
    exact ⟨hcounts.idle, by simp only; omega, hcounts.user⟩
  · obtain ⟨total, htotal, htick⟩ := ending_ok_of_bind htick
    obtain ⟨part, hpart, hdone⟩ := ending_ok_of_bind htick
    cases hdone
    have hsum := addInt_eq htotal
    have hsum' := addInt_eq hpart
    unfold userTick at hsum hsum'
    refine ⟨by simp only; omega, by simp only; omega, fun hcounts => ?_⟩
    have hnonneg := hcounts.user
    exact ⟨hcounts.idle, hcounts.system, by simp only; omega⟩

theorem oneTick_ticks
    {calls : List Device} {yields : Bool} (hwired : h.Wired [])
    (hsettled : Settled h) (htick : h.oneTick = .ok (h', calls, yields)) :
    Ticks h h' yields ∧ h'.interrupt.level = .intOn ∧
      ∃ handlers, h.interrupt.oneTick handlers = .ok h'.interrupt := by
  obtain ⟨stats, hstats, hafter⟩ := ending_ok_of_bind htick
  obtain ⟨⟨h₁, fired, calls'⟩, hcheck, hdone⟩ := ending_ok_of_bind hafter
  obtain ⟨hle, hbound, hcounts⟩ := tick_le hstats
  have hbefore : { h with interrupt := { h.interrupt with
      stats := stats, level := .intOff } }.Wired [] :=
    hwired.of_interrupt rfl hle
  obtain ⟨hwired', ⟨stats', -, hsame, -, hhandles⟩, handlers, habstract⟩ :=
    checkIfDue_handles hbefore hsettled.inHandler hcheck
  obtain rfl := hsame rfl
  have hstatus : h₁.interrupt.status ≠ .idleMode := by
    rw [hhandles.status]
    exact hsettled.status
  have hsliced := hhandles.slices hsettled.status
  have helapsed : h₁.interrupt.stats.totalTicks ≤
      h.interrupt.stats.totalTicks + systemTick := by
    rw [hhandles.stats]
    exact hbound
  have hcounts' : Counts h.interrupt.stats → Counts h₁.interrupt.stats := by
    rw [hhandles.stats]
    exact hcounts
  have hinterrupt : h.interrupt.oneTick handlers =
      (if h₁.interrupt.yieldOnReturn then
        pure { h₁.interrupt with
          level := .intOn, yieldOnReturn := false, status := .systemMode }
      else pure { h₁.interrupt with level := .intOn }) := by
    simp only [Interrupt.oneTick, hstats, Interrupt.ending_ok_bind, habstract]
  by_cases hyields : h₁.interrupt.yieldOnReturn = true
  · simp only [if_pos hyields] at hdone
    cases hdone
    rw [if_pos hyields] at hinterrupt
    exact ⟨⟨hwired'.of_interrupt rfl le_rfl,
      ⟨hhandles.inHandler.trans hsettled.inHandler, rfl, nofun⟩,
      hhandles.timer, helapsed, nofun, hcounts'⟩, rfl, handlers, hinterrupt⟩
  · simp only [if_neg hyields] at hdone
    cases hdone
    rw [if_neg hyields] at hinterrupt
    obtain hyes | ⟨hno, hpending⟩ := hsliced
    · exact absurd hyes hyields
    · exact ⟨⟨hwired'.of_interrupt rfl le_rfl,
        ⟨hhandles.inHandler.trans hsettled.inHandler,
          hno.trans hsettled.yieldOnReturn, hstatus⟩,
        hhandles.timer, helapsed, fun _ => hpending, hcounts'⟩, rfl, handlers,
        hinterrupt⟩

theorem setLevel_ticks
    {now : IntStatus} {calls : List Device} {yields : Bool}
    (hwired : h.Wired []) (hsettled : Settled h)
    (hset : h.setLevel now = .ok (h', calls, yields)) :
    Ticks h h' yields ∧ ∃ handlers,
      h.interrupt.setLevel now handlers = .ok h'.interrupt := by
  obtain ⟨⟨⟩, hensure, hset⟩ := ending_ok_of_bind hset
  simp only [Interrupt.setLevel, hensure, Interrupt.ending_ok_bind]
  by_cases hon : now = .intOn ∧ h.interrupt.level = .intOff
  · rw [if_pos hon] at hset
    have hbefore : { h with interrupt := { h.interrupt with
        level := now } }.Wired [] := hwired.of_interrupt rfl le_rfl
    obtain ⟨hticks, -, handlers, habstract⟩ := oneTick_ticks hbefore
      ⟨hsettled.inHandler, hsettled.yieldOnReturn, hsettled.status⟩ hset
    refine ⟨⟨hticks.wired, hticks.settled, hticks.timer, hticks.elapsed,
      hticks.slices, hticks.counts⟩, handlers, ?_⟩
    rw [if_pos hon]
    exact habstract
  · rw [if_neg hon] at hset
    cases hset
    refine ⟨⟨hwired.of_interrupt rfl le_rfl,
      ⟨hsettled.inHandler, hsettled.yieldOnReturn, hsettled.status⟩, rfl, ?_,
      fun _ => rfl, id⟩, fun _ => ⟨[], false⟩, ?_⟩
    · unfold systemTick
      simp
    · rw [if_neg hon]
      rfl

theorem idle_waits
    {calls : List Device} (hwired : h.Wired []) (hsettled : Settled h)
    (hidle : h.idle = .ok (h', calls)) :
    h'.Wired [] ∧ Settled h' ∧ h'.timer = h.timer ∧
      (Counts h.interrupt.stats → Counts h'.interrupt.stats) ∧ ∃ handlers,
      h.interrupt.idle handlers = .ok h'.interrupt := by
  obtain ⟨⟨h₁, fired, calls'⟩, hcheck, hidle⟩ := ending_ok_of_bind hidle
  have hbefore : { h with interrupt := { h.interrupt with
      status := .idleMode } }.Wired [] := hwired.of_interrupt rfl le_rfl
  obtain ⟨hafter, ⟨stats, -, -, hcounts, hhandles⟩, handlers, habstract⟩ :=
    checkIfDue_handles hbefore hsettled.inHandler hcheck
  cases fired with
  | false => cases hidle
  | true =>
      cases hidle
      refine ⟨hafter.of_interrupt rfl le_rfl,
        ⟨hhandles.inHandler.trans hsettled.inHandler,
          (hhandles.stays rfl).trans hsettled.yieldOnReturn, nofun⟩,
        hhandles.timer, ?_, handlers, ?_⟩
      · rw [hhandles.stats]
        exact hcounts
      simp only [Interrupt.idle, habstract, Interrupt.ending_ok_bind]
      rfl

end Clock

end Hardware

end Nachos.Scheduling
