import Nachos.Processor

/-!
# Ready threads get the processor

The timer makes the thread that runs yield, and the ready list is served in
its order.  So a thread that is ready waits for a number of time slices that is
given by its place in the list, and not for longer.
-/

namespace Nachos.Scheduling

open Library

/-! ## The ready list -/

namespace Shape

variable {sh sh' : Shape} {event : Event} {t : ThreadId} {place : ℕ}

/-- The list has been served: the thread has been switched to, or it has moved
up. -/
def Advances (t : ThreadId) (place : ℕ) (sh : Shape) : Prop :=
  place = 0 ∧ sh.control = .switched ∧ sh.currentThread = t ∨
    ∃ before, place = before + 1 ∧ sh.readyList[before]? = some t

theorem advances_of_next
    {next : ThreadId} {rest more : List ThreadId}
    (hready : sh.readyList = next :: rest)
    (hwaits : sh.readyList[place]? = some t)
    (hlist : sh'.readyList = rest ++ more) (hcontrol : sh'.control = .switched)
    (hcurrent : sh'.currentThread = next) : Advances t place sh' := by
  rw [hready] at hwaits
  cases place with
  | zero =>
      obtain rfl : next = t := by simpa using hwaits
      exact .inl ⟨rfl, hcontrol, hcurrent⟩
  | succ before =>
      refine .inr ⟨before, rfl, ?_⟩
      rw [List.getElem?_cons_succ] at hwaits
      rw [hlist, List.getElem?_append_left
        (List.getElem?_eq_some_iff.mp hwaits).1]
      exact hwaits

theorem waits_append
    {more : List ThreadId} (hwaits : sh.readyList[place]? = some t)
    (hlist : sh'.readyList = sh.readyList ++ more) :
    sh'.readyList[place]? = some t := by
  rw [hlist, List.getElem?_append_left (List.getElem?_eq_some_iff.mp hwaits).1]
  exact hwaits

/-- A thread in the list stays where it is, or the list is served; in a
`Yield` it is. -/
theorem Life.waits
    (hlife : Life sh event sh') (hwaits : sh.readyList[place]? = some t) :
    sh'.readyList[place]? = some t ∧ (∀ u, event ≠ .yielded u) ∨
      Advances t place sh' := by
  cases hlife
  case kept hcontrol hempty =>
    rw [hempty] at hwaits
    cases hwaits
  case yielded hcontrol hready hcore =>
    exact .inr (advances_of_next hready hwaits rfl rfl rfl)
  case found hcontrol hready hcore =>
    exact .inr (advances_of_next hready hwaits (List.append_nil _).symm rfl rfl)
  case idles hcontrol hempty =>
    rw [hempty] at hwaits
    cases hwaits
  case forked => exact .inl ⟨waits_append hwaits rfl, nofun⟩
  case woken => exact .inl ⟨waits_append hwaits rfl, nofun⟩
  case resumed =>
    rw [buried_eq]
    exact .inl ⟨hwaits, nofun⟩
  case reacquired =>
    rw [buried_eq]
    exact .inl ⟨hwaits, nofun⟩
  case blockedAgain =>
    rw [buried_eq]
    exact .inl ⟨hwaits, nofun⟩
  all_goals exact .inl ⟨hwaits, nofun⟩

/-- While the machine is idle nothing is ready. -/
def Quiet (sh : Shape) : Prop :=
  ∀ finishing, sh.control = .idling finishing → sh.readyList = []

theorem Life.quiet
    (hlife : Life sh event sh')
    (hbusy : ∀ finishing, sh.control ≠ .idling finishing) : Quiet sh' := by
  intro finishing hidling
  cases hlife
  case idles hcontrol hempty => exact hempty
  case created => exact absurd hidling (hbusy finishing)
  case forked => exact absurd hidling (hbusy finishing)
  case kept => exact absurd hidling (hbusy finishing)
  case acquired => exact absurd hidling (hbusy finishing)
  case released => exact absurd hidling (hbusy finishing)
  case woken => exact absurd hidling (hbusy finishing)
  all_goals cases hidling

/-- The thread that the processor has been switched to goes on. -/
theorem Life.resumes
    (hlife : Life sh event sh') (hswitched : sh.control = .switched) :
    ∃ destroyed tested,
      event = .resumed sh.currentThread destroyed tested := by
  cases hlife
  case resumed => exact ⟨_, _, rfl⟩
  case reacquired => exact ⟨_, _, rfl⟩
  case blockedAgain => exact ⟨_, _, rfl⟩
  all_goals simp_all only [reduceCtorEq, exists_const, or_self]

end Shape

/-! ## The handlers -/

section Handlers

variable {semaphoreOf : Device → SemaphoreId} {k k' : Threads}

/-- What the handlers do to the threads. -/
structure Handled (k k' : Threads) : Prop where
  sound : k'.shape.Sound
  control : k'.control = k.control
  currentThread : k'.currentThread = k.currentThread
  readyList : ∃ more, k'.readyList = k.readyList ++ more

theorem handlerV_event
    {s : SemaphoreId} {event : Event}
    (hstep : Threads.step k (.handlerV s) = .ok (k', event)) :
    ∃ woken, event = .released s woken := by
  cases hcontrol : k.control with
  | running =>
      simp only [Threads.step, hcontrol] at hstep
      obtain ⟨⟨woken, k₁⟩, -, hdone⟩ := Threads.simulate_ok_bind hstep
      cases hdone
      exact ⟨woken, rfl⟩
  | idling finishing =>
      simp only [Threads.step, hcontrol] at hstep
      obtain ⟨⟨woken, k₁⟩, -, hdone⟩ := Threads.simulate_ok_bind hstep
      cases hdone
      exact ⟨woken, rfl⟩
  | sleeping finishing =>
      simp only [Threads.step, hcontrol] at hstep
      cases hstep
  | switched =>
      simp only [Threads.step, hcontrol] at hstep
      cases hstep

theorem handlerV_handled
    {s : SemaphoreId} {event : Event} (hsound : k.shape.Sound)
    (hstep : Threads.step k (.handlerV s) = .ok (k', event)) :
    Handled k k' := by
  have hlife := life_of_step hsound hstep
  have hsound' := hlife.sound hsound
  obtain ⟨woken, rfl⟩ := handlerV_event hstep
  generalize hshape : k'.shape = sh' at hlife
  cases hlife
  case released =>
    exact ⟨hsound', congrArg Shape.control hshape,
      congrArg Shape.currentThread hshape, [],
      (congrArg Shape.readyList hshape).trans (List.append_nil _).symm⟩
  case woken t rest resume hcontrol hqueue hcore =>
    exact ⟨hsound', congrArg Shape.control hshape,
      congrArg Shape.currentThread hshape, [t],
      congrArg Shape.readyList hshape⟩

theorem handlersV_handled
    {calls : List Device} {events : List Event} (hsound : k.shape.Sound)
    (hstep : Processor.handlersV semaphoreOf k calls = .ok (k', events)) :
    Handled k k' := by
  induction calls generalizing k events with
  | nil =>
      cases hstep
      exact ⟨hsound, rfl, rfl, [], (List.append_nil _).symm⟩
  | cons device calls ih =>
      obtain ⟨⟨k₁, event⟩, hfirst, hstep⟩ := ok_of_bind hstep
      obtain ⟨⟨k₂, more⟩, hrest, hdone⟩ := ok_of_bind hstep
      cases hdone
      obtain ⟨hsound₁, hcontrol, hcurrent, woken, hready⟩ :=
        handlerV_handled hsound hfirst
      obtain ⟨hsound₂, hcontrol', hcurrent', woken', hready'⟩ :=
        ih hsound₁ hrest
      refine ⟨hsound₂, hcontrol'.trans hcontrol, hcurrent'.trans hcurrent,
        woken ++ woken', ?_⟩
      rw [hready', hready, List.append_assoc]

end Handlers

/-- What is asked of a device takes no time. -/
theorem Hardware.step_quiet
    {h h' : Hardware} {action : Hardware.Action} {event : Hardware.Event}
    (htick : action ≠ .oneTick) (hlevel : ∀ now, action ≠ .setLevel now)
    (hidle : action ≠ .idle) (hstep : h.step action = .ok (h', event)) :
    event = .quiet := by
  cases action
  case oneTick => exact absurd rfl htick
  case setLevel now => exact absurd rfl (hlevel now)
  case idle => exact absurd rfl hidle
  all_goals first
    | cases hstep
      rfl
    | obtain ⟨_, -, hdone⟩ := Interrupt.ending_ok_of_bind hstep
      cases hdone
      rfl

/-! ## The processor -/

namespace Processor

variable {semaphoreOf : Device → SemaphoreId} {p p' : Processor}
variable {events : List Scheduling.Event} {action : Action}
variable {trace : List (List Scheduling.Event)} {t : ThreadId}

section Invariant

/-- The machine and the threads are in order. -/
structure Ordered (p : Processor) : Prop where
  hardware : p.hardware.Sound
  threads : p.threads.shape.Sound
  quiet : p.threads.shape.Quiet

theorem of_onHardware {α : Type} {outcome : Except Ending α} {a : α}
    (hok : onHardware outcome = .ok a) : outcome = .ok a := by
  cases outcome with
  | error ending => cases hok
  | ok b =>
      cases hok
      rfl

theorem of_onThreads {α : Type} {outcome : Except StepError α} {a : α}
    (hok : onThreads outcome = .ok a) : outcome = .ok a := by
  cases outcome with
  | error failure => cases hok
  | ok b =>
      cases hok
      rfl

/-- `OneTick` lets the devices call, and the thread yield. -/
theorem oneTick_inv (htick : p.oneTick semaphoreOf = .ok (p', events)) :
    ∃ calls yields k before,
      p.hardware.step .oneTick = .ok (p'.hardware, .ticked calls yields) ∧
      handlersV semaphoreOf p.threads calls = .ok (k, before) ∧
      (yields = false ∧ p'.threads = k ∨ yields = true ∧
        ∃ event, Threads.step k .yield = .ok (p'.threads, event)) := by
  obtain ⟨⟨hardware, calls, yields⟩, hhardware, htick⟩ := ok_of_bind htick
  obtain ⟨⟨k, before⟩, hthreads, htick⟩ := ok_of_bind htick
  have hstep : p.hardware.step .oneTick =
      .ok (hardware, .ticked calls yields) := by
    simp only [Hardware.step, of_onHardware hhardware,
      Interrupt.ending_ok_bind]
    rfl
  cases yields with
  | false =>
      cases htick
      exact ⟨calls, false, _, _, hstep, of_onThreads hthreads,
        .inl ⟨rfl, rfl⟩⟩
  | true =>
      obtain ⟨⟨k', event⟩, hyield, hdone⟩ := ok_of_bind htick
      cases hdone
      exact ⟨calls, true, k, before, hstep, of_onThreads hthreads,
        .inr ⟨rfl, event, of_onThreads hyield⟩⟩

theorem oneTick_ordered
    (hordered : Ordered p) (hrunning : p.threads.control = .running)
    (htick : p.oneTick semaphoreOf = .ok (p', events)) : Ordered p' := by
  obtain ⟨calls, yields, k, before, hhardware, hthreads, hyields⟩ :=
    oneTick_inv htick
  have hsound := (hordered.hardware.step (show Hardware.Sane [] p.hardware
    .oneTick from trivial) hhardware).1
  obtain ⟨hk, hcontrol, -, -⟩ := handlersV_handled hordered.threads hthreads
  have hbusy : ∀ finishing, k.shape.control ≠ .idling finishing := by
    intro finishing hidling
    exact absurd (hidling.symm.trans (hcontrol.trans hrunning)) nofun
  obtain ⟨-, hsame⟩ | ⟨-, event, hyield⟩ := hyields
  · rw [← hsame] at hk hbusy
    exact ⟨hsound, hk, fun finishing hidling =>
      absurd hidling (hbusy finishing)⟩
  · have hlife := life_of_step hk hyield
    exact ⟨hsound, hlife.sound hk, hlife.quiet hbusy⟩

/-- The machine with interrupts disabled. -/
theorem sound_disabled {h : Hardware} (hsound : h.Sound) :
    { h with interrupt := { h.interrupt with level := .intOff } }.Sound := by
  have hstep : h.step (.setLevel .intOff) = .ok ({ h with
      interrupt := { h.interrupt with level := .intOff } },
        .ticked [] false) :=
    rfl
  exact (hsound.step (show Hardware.Sane [] h (.setLevel .intOff)
    from trivial) hstep).1

/-- `Idle` of the machine. -/
theorem idle_inv (hidle : p.idle semaphoreOf = .ok (p', events)) :
    ∃ calls k before event,
      { p.hardware with interrupt := { p.hardware.interrupt with
        level := .intOff } }.step .idle =
          .ok (p'.hardware, .idled calls) ∧
      handlersV semaphoreOf p.threads calls = .ok (k, before) ∧
      Threads.step k .idleReturns = .ok (p'.threads, event) := by
  obtain ⟨⟨hardware, calls⟩, hhardware, hidle⟩ := ok_of_bind hidle
  obtain ⟨⟨k, before⟩, hthreads, hidle⟩ := ok_of_bind hidle
  obtain ⟨⟨k', event⟩, hreturns, hdone⟩ := ok_of_bind hidle
  cases hdone
  refine ⟨calls, k, before, event, ?_, of_onThreads hthreads,
    of_onThreads hreturns⟩
  simp only [Hardware.step, of_onHardware hhardware, Interrupt.ending_ok_bind]
  rfl

theorem idle_ordered
    (hordered : Ordered p) {finishing : Bool}
    (hidling : p.threads.control = .idling finishing)
    (hidle : p.idle semaphoreOf = .ok (p', events)) : Ordered p' := by
  obtain ⟨calls, k, before, event, hhardware, hthreads, hreturns⟩ :=
    idle_inv hidle
  have hsound := ((sound_disabled hordered.hardware).step
    (show Hardware.Sane [] _ .idle from trivial) hhardware).1
  obtain ⟨hk, hcontrol, -, -⟩ := handlersV_handled hordered.threads hthreads
  have hlife := life_of_step hk hreturns
  have hquiet : p'.threads.shape.Quiet := by
    simp only [Threads.step, hcontrol.trans hidling] at hreturns
    obtain ⟨hsame, -⟩ := Prod.mk.inj (Except.ok.inj hreturns)
    rw [← hsame]
    intro _ hstill
    cases hstill
  exact ⟨hsound, hlife.sound hk, hquiet⟩

/-- While the machine is idle, only interrupts happen. -/
theorem thread_busy
    {k k' : Threads} {act : Scheduling.Action} {event : Scheduling.Event}
    (hother : (∀ s, act ≠ .handlerV s) ∧ act ≠ .idleReturns)
    (hstep : Threads.step k act = .ok (k', event)) (finishing : Bool) :
    k.shape.control ≠ .idling finishing := by
  intro hidling
  have hcontrol : k.control = .idling finishing := hidling
  cases act
  case handlerV s => exact hother.1 s rfl
  case idleReturns => exact hother.2 rfl
  all_goals
    simp only [Threads.step, hcontrol] at hstep
    cases hstep

/-- A step is one of the machine, or one of the threads that is not an
interrupt's, or both in `OneTick` and `Idle`. -/
theorem step_inv (hstep : p.step semaphoreOf action = .ok (p', events)) :
    (action = .oneTick ∧ p.threads.control = .running ∧
        p.oneTick semaphoreOf = .ok (p', events)) ∨
      (action = .idle ∧ (∃ finishing, p.threads.control = .idling finishing) ∧
        p.idle semaphoreOf = .ok (p', events)) ∨
      (∃ act, action = .device act ∧ p'.threads = p.threads ∧
        p.hardware.step act = .ok (p'.hardware, .quiet)) ∨
      ∃ act event, action = .thread act ∧ p'.hardware = p.hardware ∧
        ((∀ s, act ≠ .handlerV s) ∧ act ≠ .idleReturns) ∧
        events = [event] ∧
        Threads.step p.threads act = .ok (p'.threads, event) := by
  cases action with
  | oneTick =>
      cases hcontrol : p.threads.control with
      | running =>
          simp only [step, hcontrol] at hstep
          exact .inl ⟨rfl, rfl, hstep⟩
      | _ =>
          simp only [step, hcontrol] at hstep
          cases hstep
  | idle =>
      cases hcontrol : p.threads.control with
      | idling finishing =>
          simp only [step, hcontrol] at hstep
          exact .inr (.inl ⟨rfl, ⟨finishing, rfl⟩, hstep⟩)
      | _ =>
          simp only [step, hcontrol] at hstep
          cases hstep
  | device act =>
      have hdevice : ∃ hardware event,
          p.hardware.step act = .ok (hardware, event) ∧
            p' = { p with hardware := hardware } ∧ act ≠ .oneTick ∧
            (∀ now, act ≠ .setLevel now) ∧ act ≠ .idle := by
        cases act
        case oneTick => cases hstep
        case setLevel now => cases hstep
        case idle => cases hstep
        all_goals
          obtain ⟨⟨hardware, event⟩, hhardware, hdone⟩ := ok_of_bind hstep
          cases hdone
          exact ⟨hardware, event, of_onHardware hhardware, rfl, nofun,
            nofun, nofun⟩
      obtain ⟨hardware, event, hhardware, rfl, htick, hlevel, hidle⟩ := hdevice
      obtain rfl := Hardware.step_quiet htick hlevel hidle hhardware
      exact .inr (.inr (.inl ⟨act, rfl, rfl, hhardware⟩))
  | thread act =>
      have hthread : ∃ threads event,
          Threads.step p.threads act = .ok (threads, event) ∧
            p' = { p with threads := threads } ∧ events = [event] ∧
            (∀ s, act ≠ .handlerV s) ∧ act ≠ .idleReturns := by
        cases act
        case handlerV s => cases hstep
        case idleReturns => cases hstep
        all_goals
          obtain ⟨⟨threads, event⟩, hthreads, hdone⟩ := ok_of_bind hstep
          cases hdone
          exact ⟨threads, event, of_onThreads hthreads, rfl, rfl, nofun,
            nofun⟩
      obtain ⟨threads, event, hthreads, rfl, hevents, hother⟩ := hthread
      exact .inr (.inr (.inr ⟨act, event, rfl, rfl, hother, hevents,
        hthreads⟩))

theorem Ordered.step
    (hordered : Ordered p) (hsane : Sane trace p action)
    (hstep : p.step semaphoreOf action = .ok (p', events)) : Ordered p' := by
  obtain ⟨-, hrunning, htick⟩ | ⟨-, ⟨finishing, hidling⟩, hidle⟩ |
      ⟨act, rfl, hthreads, hhardware⟩ |
      ⟨act, event, rfl, hhardware, hother, -, hthreads⟩ := step_inv hstep
  · exact oneTick_ordered hordered hrunning htick
  · exact idle_ordered hordered hidling hidle
  · have hsane' : Hardware.Sane [] p.hardware act := hsane
    refine ⟨(hordered.hardware.step hsane' hhardware).1, ?_, ?_⟩
    · rw [hthreads]
      exact hordered.threads
    · rw [hthreads]
      exact hordered.quiet
  · have hlife := life_of_step hordered.threads hthreads
    refine ⟨?_, hlife.sound hordered.threads,
      hlife.quiet (thread_busy hother hthreads)⟩
    rw [hhardware]
    exact hordered.hardware

end Invariant

/-! ## Waiting for the processor -/

section Waiting

variable {due limit : ℤ}

/-- The longest time slice: the timer may be late by a tick of the kernel. -/
def slice (h : Hardware) : ℤ :=
  Device.timer.maxDelay h + systemTick

/-- When the timer is going to make a thread yield. -/
def TimerDue (h : Hardware) (due : ℤ) : Prop :=
  ∃ item, h.pendingOf .timer = [item] ∧ item.when = due

/-- A thread gets the processor before a time, or it has just got it. -/
def Awaits (t : ThreadId) (limit : ℤ) (p : Processor) : Prop :=
  (∃ (place : ℕ) (due : ℤ), p.threads.readyList[place]? = some t ∧
      TimerDue p.hardware due ∧ due + place * slice p.hardware ≤ limit) ∨
    p.threads.control = .switched ∧ p.threads.currentThread = t ∧
      p.now < limit + systemTick

theorem slice_pos (h : Hardware) : 0 < slice h := by
  unfold slice Device.maxDelay systemTick timerTicks
  simp only
  split <;> decide

theorem exists_timerDue {h : Hardware}
    (hsound : h.Sound) (henabled : h.timer.disable = false) :
    ∃ due, TimerDue h due ∧ h.interrupt.stats.totalTicks < due ∧
      due ≤ h.interrupt.stats.totalTicks + Device.timer.maxDelay h := by
  have hone := (hsound.wired.expected .timer).2 henabled
  obtain ⟨item, hitem⟩ := List.length_eq_one_iff.mp hone
  have hmem : item ∈ h.pendingOf .timer := by
    rw [hitem]
    exact List.mem_singleton_self item
  obtain ⟨hpending, htimer⟩ := List.mem_filter.mp hmem
  obtain ⟨device, hnumber, -, hwhen⟩ := hsound.wired.named item hpending
  have hnumber' : item.callOnInterrupt = Device.timer.number := by
    simpa using htimer
  obtain rfl := Device.number_inj.mp (hnumber.symm.trans hnumber')
  exact ⟨item.when, ⟨item, hitem, rfl⟩,
    hsound.reached.orderly.notDue item hpending, hwhen⟩

theorem TimerDue.unique {h : Hardware} {due' : ℤ}
    (hdue : TimerDue h due) (hdue' : TimerDue h due') : due = due' := by
  obtain ⟨item, hitem, rfl⟩ := hdue
  obtain ⟨item', hitem', rfl⟩ := hdue'
  rw [hitem] at hitem'
  cases hitem'
  rfl

theorem TimerDue.now_lt
    (hordered : Ordered p) (hdue : TimerDue p.hardware due) : p.now < due := by
  obtain ⟨item, hitem, rfl⟩ := hdue
  have hmem : item ∈ p.hardware.pendingOf .timer := by
    rw [hitem]
    exact List.mem_singleton_self item
  exact hordered.hardware.reached.orderly.notDue item
    (List.mem_filter.mp hmem).1

theorem Awaits.now_lt
    (hordered : Ordered p) (hawaits : Awaits t limit p) :
    p.now < limit + systemTick := by
  obtain ⟨place, due, -, hdue, hlimit⟩ | ⟨-, -, hnow⟩ := hawaits
  · have hlt := hdue.now_lt hordered
    have hslices := mul_nonneg (Int.natCast_nonneg place)
      (slice_pos p.hardware).le
    have htick : 0 < systemTick := by decide
    omega
  · exact hnow

/-- The ready list is served at the time when the timer is due, or before. -/
theorem awaits_of_advances
    {place : ℕ} (hadvances : p'.threads.shape.Advances t place)
    (hslice : slice p'.hardware = slice p.hardware) {due' : ℤ}
    (hdue' : TimerDue p'.hardware due')
    (hlater : due' ≤ due + slice p.hardware)
    (hnow : p'.now < due + systemTick)
    (hlimit : due + place * slice p.hardware ≤ limit) :
    Awaits t limit p' := by
  obtain ⟨rfl, hcontrol, hcurrent⟩ | ⟨before, rfl, hready⟩ := hadvances
  · refine .inr ⟨hcontrol, hcurrent, ?_⟩
    push_cast at hlimit
    omega
  · refine .inl ⟨before, due', hready, hdue', ?_⟩
    rw [hslice]
    push_cast at hlimit
    linarith

theorem step_timer
    (hordered : Ordered p) (htimed : Timed trace p action)
    (hstep : p.step semaphoreOf action = .ok (p', events)) :
    p'.hardware.timer = p.hardware.timer := by
  suffices hsame : p'.hardware.timer.randomize = p.hardware.timer.randomize ∧
      p'.hardware.timer.disable = p.hardware.timer.disable by
    cases hafter : p'.hardware.timer
    cases hbefore : p.hardware.timer
    simp_all
  obtain ⟨rfl, -, htick⟩ | ⟨rfl, -, hidle⟩ | ⟨act, rfl, -, hhardware⟩ |
      ⟨act, event, rfl, hhardware, -⟩ := step_inv hstep
  · obtain ⟨calls, yields, k, before, hhardware, -⟩ := oneTick_inv htick
    have hmoves := (hordered.hardware.step (show Hardware.Sane [] p.hardware
      .oneTick from trivial) hhardware).2
    exact ⟨hmoves.randomize, hmoves.disable nofun⟩
  · obtain ⟨calls, k, before, event, hhardware, -⟩ := idle_inv hidle
    have hmoves := ((sound_disabled hordered.hardware).step
      (show Hardware.Sane [] _ .idle from trivial) hhardware).2
    exact ⟨hmoves.randomize, hmoves.disable nofun⟩
  · have hsane : Hardware.Sane [] p.hardware act := htimed.1
    have hmoves := (hordered.hardware.step hsane hhardware).2
    refine ⟨hmoves.randomize, hmoves.disable ?_⟩
    rintro rfl
    exact htimed.2 rfl
  · rw [hhardware]
    exact ⟨rfl, rfl⟩

theorem slice_eq
    {h h' : Hardware} (htimer : h'.timer = h.timer) : slice h' = slice h := by
  simp only [slice, Device.maxDelay, htimer]

/-- A `Yield` serves the ready list, if a thread is in it. -/
theorem yield_advances
    {k k' : Threads} {event : Scheduling.Event} {place : ℕ}
    (hsound : k.shape.Sound) (hrunning : k.control = .running)
    (hyield : Threads.step k .yield = .ok (k', event))
    (hwaits : k.readyList[place]? = some t) :
    k'.shape.Advances t place := by
  have hlife := life_of_step hsound hyield
  have hevent : event = .yielded k.currentThread := by
    simp only [Threads.step, hrunning] at hyield
    obtain ⟨k₁, -, hdone⟩ := Threads.simulate_ok_bind hyield
    cases hdone
    rfl
  obtain ⟨-, hnever⟩ | hadvances := hlife.waits hwaits
  · exact absurd hevent (hnever _)
  · exact hadvances

theorem Awaits.oneTick
    (hordered : Ordered p) (hordered' : Ordered p')
    (henabled : p.hardware.timer.disable = false)
    (htimer : p'.hardware.timer = p.hardware.timer)
    (hrunning : p.threads.control = .running)
    (htick : p.oneTick semaphoreOf = .ok (p', events))
    (hawaits : Awaits t limit p) : Awaits t limit p' := by
  obtain ⟨place, due, hwaits, hdue, hlimit⟩ | ⟨hswitched, -⟩ := hawaits
  swap
  · exact absurd (hrunning.symm.trans hswitched) nofun
  obtain ⟨calls, yields, k, before, hhardware, hthreads, hyields⟩ :=
    oneTick_inv htick
  have hmoves := (hordered.hardware.step (show Hardware.Sane [] p.hardware
    .oneTick from trivial) hhardware).2
  obtain ⟨hk, hcontrol, -, more, hready⟩ :=
    handlersV_handled hordered.threads hthreads
  have hwaits' : k.readyList[place]? = some t :=
    @Shape.waits_append p.threads.shape k.shape t place more hwaits hready
  have hnow : p'.now ≤ p.now + systemTick := hmoves.elapsed nofun
  have hbefore := hdue.now_lt hordered
  obtain ⟨rfl, hsame⟩ | ⟨rfl, event, hyield⟩ := hyields
  · -- the timer has not been handled
    refine .inl ⟨place, due, hsame ▸ hwaits', ?_, ?_⟩
    · obtain ⟨item, hitem, hwhen⟩ := hdue
      exact ⟨item, (hmoves.pending nofun).trans hitem, hwhen⟩
    · rw [slice_eq htimer]
      exact hlimit
  · obtain ⟨due', hdue', -, hahead⟩ :=
      exists_timerDue hordered'.hardware (htimer ▸ henabled)
    refine awaits_of_advances (yield_advances hk (hcontrol.trans hrunning)
      hyield hwaits') (slice_eq htimer) hdue' ?_ (by omega) hlimit
    have hsame : Device.timer.maxDelay p'.hardware =
        Device.timer.maxDelay p.hardware := by
      simp only [Device.maxDelay, htimer]
    unfold slice
    change due' ≤ p'.now + _ at hahead
    omega

/-- A thread that is ready gets the processor at the latest when the limit
comes. -/
theorem Awaits.step
    (hordered : Ordered p) (henabled : p.hardware.timer.disable = false)
    (htimed : Timed trace p action)
    (hstep : p.step semaphoreOf action = .ok (p', events))
    (hawaits : Awaits t limit p) :
    Dispatched t [events] ∨ Awaits t limit p' := by
  have hordered' := hordered.step htimed.1 hstep
  have htimer := step_timer hordered htimed hstep
  obtain ⟨rfl, hrunning, htick⟩ | ⟨rfl, ⟨finishing, hidling⟩, hidle⟩ |
      ⟨act, rfl, hthreads, hhardware⟩ |
      ⟨act, event, rfl, hhardware, hother, rfl, hthreads⟩ := step_inv hstep
  · exact .inr (hawaits.oneTick hordered hordered' henabled htimer hrunning
      htick)
  · obtain ⟨place, due, hwaits, -⟩ | ⟨hswitched, -⟩ := hawaits
    · have hempty : p.threads.readyList = [] :=
        hordered.quiet finishing hidling
      rw [hempty] at hwaits
      cases hwaits
    · exact absurd (hidling.symm.trans hswitched) nofun
  · have hsane : Hardware.Sane [] p.hardware act := htimed.1
    have hmoves := (hordered.hardware.step hsane hhardware).2
    right
    obtain ⟨place, due, hwaits, ⟨item, hitem, hwhen⟩, hlimit⟩ |
        ⟨hswitched, hcurrent, hnow⟩ := hawaits
    · refine .inl ⟨place, due, hthreads ▸ hwaits,
        ⟨item, (hmoves.pending nofun).trans hitem, hwhen⟩, ?_⟩
      rw [slice_eq htimer]
      exact hlimit
    · refine .inr ⟨hthreads ▸ hswitched, hthreads ▸ hcurrent, ?_⟩
      rw [now, hmoves.quiet rfl]
      exact hnow
  · have hlife := life_of_step hordered.threads hthreads
    have hsamenow : p'.now = p.now := by
      rw [now, hhardware]
      rfl
    obtain ⟨place, due, hwaits, hdue, hlimit⟩ |
        ⟨hswitched, hcurrent, hnow⟩ := hawaits
    · right
      have hbefore := hdue.now_lt hordered
      obtain ⟨hstays, -⟩ | hadvances := hlife.waits hwaits
      · refine .inl ⟨place, due, hstays, hhardware ▸ hdue, ?_⟩
        rw [slice_eq htimer]
        exact hlimit
      · have hpos := slice_pos p.hardware
        have htick : 0 < systemTick := by decide
        exact awaits_of_advances hadvances (slice_eq htimer)
          (hhardware ▸ hdue) (by omega) (by omega) hlimit
    · left
      obtain ⟨destroyed, tested, rfl⟩ := hlife.resumes hswitched
      rw [← hcurrent]
      exact ⟨_, List.mem_singleton_self _, destroyed, tested,
        List.mem_singleton_self _⟩

end Waiting

/-! ## All runs -/

section Runs

variable {start : Processor}

theorem run_ordered
    (hstart : Ordered start)
    (hrun : (system semaphoreOf start).Run Timed trace p) :
    Ordered p ∧ p.hardware.timer = start.hardware.timer := by
  refine hrun.invariant
    (fun _ p => Ordered p ∧ p.hardware.timer = start.hardware.timer)
    ⟨hstart, rfl⟩ ?_
  rintro trace p p' action events - ⟨hordered, htimer⟩ htimed hstep
  exact ⟨hordered.step htimed.1 hstep,
    (step_timer hordered htimed hstep).trans htimer⟩

theorem run_awaits
    {limit : ℤ} (hstart : Ordered start)
    (henabled : start.hardware.timer.disable = false)
    (hawaits : Awaits t limit start)
    (hrun : (system semaphoreOf start).Run Timed trace p) :
    Dispatched t trace ∨ Awaits t limit p := by
  refine hrun.invariant (fun trace p => Dispatched t trace ∨ Awaits t limit p)
    (.inr hawaits) ?_
  intro trace p p' action events hbefore hwaits htimed hstep
  obtain ⟨hordered, htimer⟩ := run_ordered hstart hbefore
  obtain ⟨happened, hmem, hresumed⟩ | hawaits := hwaits
  · exact .inl ⟨happened, List.mem_append_left _ hmem, hresumed⟩
  obtain ⟨happened, hmem, hresumed⟩ | hafter :=
    hawaits.step hordered (htimer ▸ henabled) htimed hstep
  · exact .inl ⟨happened, List.mem_append_right _ hmem, hresumed⟩
  · exact .inr hafter

theorem outcome_bind {ε α β : Type} (value : α) (rest : α → Except ε β) :
    Except.ok value >>= rest = rest value :=
  rfl

theorem onHardware_ok {α : Type} (a : α) :
    onHardware (.ok a) = .ok a :=
  rfl

theorem onThreads_ok {α : Type} (a : α) :
    onThreads (.ok a) = .ok a :=
  rfl

theorem handlersV_total
    (calls : List Device) {k : Threads} (hsound : k.shape.Sound)
    (hcontrol : k.control = .running ∨
      ∃ finishing, k.control = .idling finishing) :
    ∃ k' happened, handlersV semaphoreOf k calls = .ok (k', happened) := by
  induction calls generalizing k with
  | nil => exact ⟨k, [], rfl⟩
  | cons device calls ih =>
      obtain ⟨k₁, event, hfirst, -⟩ :=
        Threads.lives_handlerV hsound hcontrol (semaphoreOf device)
      obtain ⟨hsound₁, hsame, -, -⟩ := handlerV_handled hsound hfirst
      obtain ⟨k₂, more, hrest⟩ := ih hsound₁ (hsame ▸ hcontrol)
      refine ⟨k₂, event :: more, ?_⟩
      simp only [handlersV, hfirst, outcome_bind, hrest]
      rfl

/-- The processor always goes on. -/
theorem next_total
    (hordered : Ordered p) (henabled : p.hardware.timer.disable = false)
    (hclock : p.now + 2 ^ 16 < 2 ^ 31) :
    ∃ p' events, p.step semaphoreOf p.next = .ok (p', events) := by
  cases hcontrol : p.threads.control with
  | running =>
      obtain ⟨hwired, -, hreached, hcounts⟩ := hordered.hardware
      obtain ⟨h, calls, yields, htick⟩ := Hardware.oneTick_total hwired
        hreached.orderly.timely hcounts hclock
      obtain ⟨k, happened, hthreads⟩ := @handlersV_total semaphoreOf calls _
        hordered.threads (.inl hcontrol)
      obtain ⟨hk, hsame, -, -⟩ := handlersV_handled hordered.threads hthreads
      obtain ⟨k', event, hyield, -⟩ :=
        Threads.lives_yield hk (hsame.trans hcontrol)
      simp only [next, step, oneTick, hcontrol, htick, hthreads, hyield,
        onHardware_ok, onThreads_ok, outcome_bind]
      split <;> exact ⟨_, _, rfl⟩
  | idling finishing =>
      obtain ⟨hwired, -, hreached, hcounts⟩ :=
        sound_disabled hordered.hardware
      obtain ⟨h, calls, hidle⟩ := Hardware.idle_total hwired
        hreached.orderly.timely hcounts rfl
        (Hardware.pending_of_permits hwired (.inl henabled)) hclock
      obtain ⟨k, happened, hthreads⟩ := @handlersV_total semaphoreOf calls _
        hordered.threads (.inr ⟨finishing, hcontrol⟩)
      obtain ⟨-, hsame, -, -⟩ := handlersV_handled hordered.threads hthreads
      obtain ⟨k', event, hreturns, -⟩ :=
        Threads.lives_idleReturns (hsame.trans hcontrol)
      simp only [next, step, idle, hcontrol, hidle, hthreads, hreturns,
        onHardware_ok, onThreads_ok, outcome_bind]
      exact ⟨_, _, rfl⟩
  | sleeping finishing =>
      obtain ⟨k, event, hsearch, -⟩ :=
        Threads.lives_search hordered.threads hcontrol
      simp only [next, step, hcontrol, hsearch, onThreads_ok, outcome_bind]
      exact ⟨_, _, rfl⟩
  | switched =>
      obtain ⟨k, event, hgoOn, -⟩ :=
        Threads.lives_goOn hordered.threads hcontrol
      simp only [next, step, hcontrol, hgoOn, onThreads_ok, outcome_bind]
      exact ⟨_, _, rfl⟩

/-- Once the devices have been made: a thread that is ready gets the processor
within as many time slices as its place in the ready list says, whatever
threads and interrupts do meanwhile; and until the clock is about to overflow
the processor goes on. -/
theorem ready_threads_run
    (semaphoreOf : Device → SemaphoreId) (randomize : Bool)
    (hostName : BitVec 32) (random : ℕ → ℕ) (sectors : ℤ → Sector)
    (garbage : ℕ → BitVec 32) (machine : UserState)
    (initial : SemaphoreId → BitVec 32) :
    ∃ hardware, Hardware.boot randomize hostName random sectors =
        .ok hardware ∧
      ∀ trace p, (system semaphoreOf
          ⟨hardware, Threads.start garbage machine initial⟩).Run
            Timed trace p →
        (∀ t (place : ℕ), p.threads.readyList[place]? = some t →
          ∀ later p', (system semaphoreOf p).Run Timed later p' →
            ¬Dispatched t later →
              p'.now < p.now + (place + 1) * slice p.hardware) ∧
        (p.now + 2 ^ 16 < 2 ^ 31 →
          ∃ p' events, p.step semaphoreOf p.next = .ok (p', events)) := by
  obtain ⟨hardware, hboot, hsound, htimer⟩ :=
    Hardware.boot_sound randomize hostName random sectors
  refine ⟨hardware, hboot, fun trace p hrun => ?_⟩
  have hquiet : (Threads.start garbage machine initial).shape.Quiet := by
    intro finishing hidling
    cases hidling
  obtain ⟨hordered, hsame⟩ :=
    run_ordered ⟨hsound, sound_start, hquiet⟩ hrun
  have henabled : p.hardware.timer.disable = false := by
    rw [hsame, htimer]
  refine ⟨?_, next_total hordered henabled⟩
  intro t place hwaits later p' hrun' hnever
  obtain ⟨due, hdue, -, hahead⟩ := exists_timerDue hordered.hardware henabled
  have hawaits : Awaits t (due + place * slice p.hardware) p :=
    .inl ⟨place, due, hwaits, hdue, le_rfl⟩
  obtain hdispatched | hawaits' := run_awaits hordered henabled hawaits hrun'
  · exact absurd hdispatched hnever
  · have hnow := hawaits'.now_lt (run_ordered hordered hrun').1
    change due ≤ p.now + _ at hahead
    have hslice : slice p.hardware =
        Device.timer.maxDelay p.hardware + systemTick := rfl
    linarith

end Runs

end Processor

end Nachos.Scheduling
