import Nachos.ThreadPlaces

/-!
# The life of a thread

The state of the threads follows from what has happened in a run: which
threads are alive, and which one has finished and is still to be destroyed.
-/

namespace Nachos.Scheduling

open Library

/-- The thread has been forked, or is the one that the simulator starts in,
and has not finished since. -/
def Unfinished (trace : List Event) (t : ThreadId) : Prop :=
  StepSystem.Lasting (t = Threads.mainThread) (· = .forked t) (· = .finished t)
    trace

/-- A thread begins to run, behind `SWITCH`. -/
def Event.IsResumed : Event → Prop
  | .resumed _ _ _ => True
  | _ => False

/-- The thread has finished, and no other has begun to run since. -/
def Dying (trace : List Event) (t : ThreadId) : Prop :=
  StepSystem.Since (· = .finished t) Event.IsResumed trace

/-- The thread is deleted. -/
def Event.Destroys (t : ThreadId) : Event → Prop
  | .resumed _ destroyed _ => destroyed = some t
  | _ => False

/-- The thread has been created, or is the one that the simulator starts in,
and has not been deleted since. -/
def Existing (trace : List Event) (t : ThreadId) : Prop :=
  StepSystem.Lasting (t = Threads.mainThread) (· = .created t)
    (Event.Destroys t) trace

namespace Shape

/-- The thread has been forked and has not finished, as its record says. -/
def ActiveIn (core : ThreadId → Option Core) (t : ThreadId) : Prop :=
  ∃ c, core t = some c ∧ c.1 ≠ .justCreated ∧ c.2 ≠ some .finish

def FinishingIn (core : ThreadId → Option Core) (t : ThreadId) : Prop :=
  ∃ c, core t = some c ∧ c.2 = some .finish

variable {sh sh' : Shape} {t q : ThreadId} {event : Event}
variable {core : ThreadId → Option Core} {c : Core}

theorem activeIn_update :
    ActiveIn (Function.update core t (some c)) q ↔
      q = t ∧ c.1 ≠ .justCreated ∧ c.2 ≠ some .finish ∨
        q ≠ t ∧ ActiveIn core q := by
  unfold ActiveIn
  by_cases hq : q = t
  · subst hq
    simp
  · simp [hq]

theorem finishingIn_update :
    FinishingIn (Function.update core t (some c)) q ↔
      q = t ∧ c.2 = some .finish ∨ q ≠ t ∧ FinishingIn core q := by
  unfold FinishingIn
  by_cases hq : q = t
  · subst hq
    simp
  · simp [hq]

/-- A thread that is active stays so. -/
theorem activeIn_stays
    (hold : ActiveIn core t) (hcreated : c.1 ≠ .justCreated)
    (hfinish : c.2 ≠ some .finish) :
    ActiveIn (Function.update core t (some c)) q ↔ ActiveIn core q := by
  rw [activeIn_update]
  by_cases hq : q = t
  · subst hq
    simp [hold, hcreated, hfinish]
  · simp [hq]

theorem finishingIn_stays
    (hold : ¬FinishingIn core t) (hfinish : c.2 ≠ some .finish) :
    FinishingIn (Function.update core t (some c)) q ↔ FinishingIn core q := by
  rw [finishingIn_update]
  by_cases hq : q = t
  · subst hq
    simp [hold, hfinish]
  · simp [hq]

theorem not_finishingIn_of_core
    (hcore : core t = some c) (hfinish : c.2 ≠ some .finish) :
    ¬FinishingIn core t := by
  intro hfinishing
  obtain ⟨c', hcore', hc'⟩ := hfinishing
  rw [hcore, Option.some.injEq] at hcore'
  rw [hcore'] at hfinish
  exact hfinish hc'

/-- A thread that is ready is active, and one that runs is. -/
theorem Sound.not_finish
    (h : sh.Sound) {status : ThreadStatus} {resume : Option Resume}
    (hcore : sh.core t = some (status, resume)) (hstatus : status ≠ .blocked) :
    resume ≠ some .finish := by
  intro hfinish
  exact hstatus ((h.kept hcore).finish hfinish)

/-- The thread that is to be destroyed is the one that has finished. -/
theorem Sound.toBeDestroyed_iff
    (h : sh.Sound) (hswitched : sh.control = .switched) :
    sh.toBeDestroyed = some t ↔ FinishingIn sh.core t := by
  obtain ⟨-, ⟨r, hcurrent, hr⟩, hdestroy⟩ := h.controlled_switched hswitched
  constructor
  · intro ht
    exact ⟨_, (hdestroy t ht).2, rfl⟩
  · intro hfinishing
    obtain ⟨⟨status, resume⟩, hcore, rfl⟩ := hfinishing
    rcases h.finishing hcore with rfl | hdone
    · rw [hcurrent] at hcore
      cases hcore
      exact (hr rfl).elim
    · exact hdone

theorem finishing_buried (h : sh.Sound) (hswitched : sh.control = .switched) :
    ¬FinishingIn sh.buried.core t := by
  intro hfinishing
  obtain ⟨c, hcore, hc⟩ := hfinishing
  obtain ⟨hcore, hnot⟩ := of_buried hcore
  exact hnot ((h.toBeDestroyed_iff hswitched).mpr ⟨c, hcore, hc⟩)

theorem active_buried (h : sh.Sound) (hswitched : sh.control = .switched) :
    ActiveIn sh.buried.core t ↔ ActiveIn sh.core t := by
  constructor
  · intro hactive
    obtain ⟨c, hcore, hc⟩ := hactive
    exact ⟨c, (of_buried hcore).1, hc⟩
  · intro hactive
    obtain ⟨c, hcore, hcreated, hfinish⟩ := hactive
    refine ⟨c, ?_, hcreated, hfinish⟩
    rw [buried_core]
    · exact hcore
    · intro hdone
      obtain ⟨c', hcore', hc'⟩ := (h.toBeDestroyed_iff hswitched).mp hdone
      rw [hcore, Option.some.injEq] at hcore'
      rw [hcore'] at hfinish
      exact hfinish hc'

/-- Threads become active when they are forked, and cease to be so when they
finish. -/
theorem Life.active (hlife : Life sh event sh') (h : sh.Sound) :
    ActiveIn sh'.core t ↔
      event = .forked t ∨ ActiveIn sh.core t ∧ event ≠ .finished t := by
  cases hlife with
  | @created q hrunning hnone =>
      have hdead : ¬ActiveIn sh.core q := by
        rintro ⟨c, hcore, -⟩
        rw [hnone] at hcore
        cases hcore
      rw [show (sh.setCore q (.justCreated, none)).core = Function.update
        sh.core q (some (.justCreated, none)) from rfl, activeIn_update]
      grind
  | @forked q resume hrunning hcore =>
      show ActiveIn (Function.update sh.core q (some (.ready, some .root))) t ↔ _
      rw [activeIn_update]
      grind
  | kept => simp
  | @yielded next resume rest hrunning hready hnext =>
      obtain ⟨-, -, before, hcurrent⟩ := h.controlled_running hrunning
      have hresume := h.not_finish hnext (by simp)
      have hfirst : ∀ q, ActiveIn (Function.update sh.core sh.currentThread
          (some (.ready, some (.yield .intOn)))) q ↔ ActiveIn sh.core q :=
        fun q => activeIn_stays
          ⟨_, hcurrent, by simp, h.not_finish hcurrent (by simp)⟩
          (by simp) (by simp)
      have hnext' := (hfirst next).mpr ⟨_, hnext, by simp, hresume⟩
      show ActiveIn (Function.update (Function.update sh.core sh.currentThread
        (some (.ready, some (.yield .intOn)))) next
        (some (.running, resume))) t ↔ _
      rw [activeIn_stays hnext' (by simp) hresume, hfirst]
      simp
  | finished hrunning =>
      show ActiveIn (Function.update sh.core sh.currentThread
        (some (.blocked, some .finish))) t ↔ _
      rw [activeIn_update]
      grind
  | acquired =>
      show ActiveIn sh.core t ↔ _
      simp
  | @blocked s hrunning =>
      obtain ⟨-, -, before, hcurrent⟩ := h.controlled_running hrunning
      have hsame : ActiveIn (Function.update sh.core sh.currentThread
          (some (.blocked, some (.semaphoreP s .intOn)))) t ↔
            ActiveIn sh.core t :=
        activeIn_stays ⟨_, hcurrent, by simp, h.not_finish hcurrent (by simp)⟩
          (by simp) (by simp)
      exact hsame.trans (by simp)
  | released =>
      show ActiveIn sh.core t ↔ _
      simp
  | @woken s q rest resume hcontrol hqueue hcore =>
      obtain ⟨level, hqueued⟩ := h.core_queued hqueue
      have hresume : resume ≠ some .finish := by
        rw [hcore, Option.some.injEq, Prod.mk.injEq] at hqueued
        rw [hqueued.2]
        simp
      have hsame : ActiveIn (Function.update sh.core q
          (some (.ready, resume))) t ↔ ActiveIn sh.core t :=
        activeIn_stays ⟨_, hcore, by simp, hresume⟩ (by simp) hresume
      exact hsame.trans (by simp)
  | idles =>
      show ActiveIn sh.core t ↔ _
      simp
  | @found f next resume rest hsleeping hready hnext =>
      have hresume := h.not_finish hnext (by simp)
      have hsame : ActiveIn (Function.update sh.core next
          (some (.running, resume))) t ↔ ActiveIn sh.core t :=
        activeIn_stays ⟨_, hnext, by simp, hresume⟩ (by simp) hresume
      exact hsame.trans (by simp)
  | idled =>
      show ActiveIn sh.core t ↔ _
      simp
  | resumed hswitched =>
      show ActiveIn sh.buried.core t ↔ _
      rw [active_buried h hswitched]
      simp
  | reacquired hswitched =>
      show ActiveIn sh.buried.core t ↔ _
      rw [active_buried h hswitched]
      simp
  | @blockedAgain s level hswitched hcurrent =>
      have hcurrent' : ActiveIn sh.buried.core sh.currentThread :=
        (active_buried h hswitched).mpr ⟨_, hcurrent, by simp, by simp⟩
      have hsame : ActiveIn (Function.update sh.buried.core sh.currentThread
          (some (.blocked, some (.semaphoreP s .intOn)))) t ↔
            ActiveIn sh.buried.core t :=
        activeIn_stays hcurrent' (by simp) (by simp)
      refine hsame.trans ?_
      rw [active_buried h hswitched]
      simp

/-- A thread is finishing until another one begins to run. -/
theorem Life.finishing (hlife : Life sh event sh') (h : sh.Sound) :
    FinishingIn sh'.core t ↔
      event = .finished t ∨ FinishingIn sh.core t ∧ ¬event.IsResumed := by
  cases hlife with
  | @created q hrunning hnone =>
      have hsame : FinishingIn (Function.update sh.core q
          (some (.justCreated, none))) t ↔ FinishingIn sh.core t := by
        refine finishingIn_stays ?_ (by simp)
        rintro ⟨c, hcore, -⟩
        rw [hnone] at hcore
        cases hcore
      exact hsame.trans (by simp [Event.IsResumed])
  | @forked q resume hrunning hcore =>
      have hsame : FinishingIn (Function.update sh.core q
          (some (.ready, some .root))) t ↔ FinishingIn sh.core t :=
        finishingIn_stays (not_finishingIn_of_core hcore
          (h.not_finish hcore (by simp))) (by simp)
      exact hsame.trans (by simp [Event.IsResumed])
  | kept => simp [Event.IsResumed]
  | @yielded next resume rest hrunning hready hnext =>
      obtain ⟨-, -, before, hcurrent⟩ := h.controlled_running hrunning
      have hresume := h.not_finish hnext (by simp)
      have hfirst : ∀ q, FinishingIn (Function.update sh.core sh.currentThread
          (some (.ready, some (.yield .intOn)))) q ↔ FinishingIn sh.core q :=
        fun q => finishingIn_stays (not_finishingIn_of_core hcurrent
          (h.not_finish hcurrent (by simp))) (by simp)
      have hnext' := (hfirst next).not.mpr
        (not_finishingIn_of_core hnext hresume)
      have hsame := (finishingIn_stays (q := t) (c := (.running, resume))
        hnext' hresume).trans (hfirst t)
      exact hsame.trans (by simp [Event.IsResumed])
  | finished hrunning =>
      show FinishingIn (Function.update sh.core sh.currentThread
        (some (.blocked, some .finish))) t ↔ _
      rw [finishingIn_update]
      simp only [Event.IsResumed]
      grind
  | acquired =>
      show FinishingIn sh.core t ↔ _
      simp [Event.IsResumed]
  | @blocked s hrunning =>
      obtain ⟨-, -, before, hcurrent⟩ := h.controlled_running hrunning
      have hsame : FinishingIn (Function.update sh.core sh.currentThread
          (some (.blocked, some (.semaphoreP s .intOn)))) t ↔
            FinishingIn sh.core t :=
        finishingIn_stays (not_finishingIn_of_core hcurrent
          (h.not_finish hcurrent (by simp))) (by simp)
      exact hsame.trans (by simp [Event.IsResumed])
  | released =>
      show FinishingIn sh.core t ↔ _
      simp [Event.IsResumed]
  | @woken s q rest resume hcontrol hqueue hcore =>
      obtain ⟨level, hqueued⟩ := h.core_queued hqueue
      have hresume : resume ≠ some .finish := by
        rw [hcore, Option.some.injEq, Prod.mk.injEq] at hqueued
        rw [hqueued.2]
        simp
      have hsame : FinishingIn (Function.update sh.core q
          (some (.ready, resume))) t ↔ FinishingIn sh.core t :=
        finishingIn_stays (not_finishingIn_of_core hcore hresume) hresume
      exact hsame.trans (by simp [Event.IsResumed])
  | idles =>
      show FinishingIn sh.core t ↔ _
      simp [Event.IsResumed]
  | @found f next resume rest hsleeping hready hnext =>
      have hresume := h.not_finish hnext (by simp)
      have hsame : FinishingIn (Function.update sh.core next
          (some (.running, resume))) t ↔ FinishingIn sh.core t :=
        finishingIn_stays (not_finishingIn_of_core hnext hresume) hresume
      exact hsame.trans (by simp [Event.IsResumed])
  | idled =>
      show FinishingIn sh.core t ↔ _
      simp [Event.IsResumed]
  | resumed hswitched =>
      have hnone : ¬FinishingIn sh.buried.core t := finishing_buried h hswitched
      exact (iff_false_intro hnone).trans (by simp [Event.IsResumed])
  | reacquired hswitched =>
      have hnone : ¬FinishingIn sh.buried.core t := finishing_buried h hswitched
      exact (iff_false_intro hnone).trans (by simp [Event.IsResumed])
  | @blockedAgain s level hswitched hcurrent =>
      have hnone : ∀ q, ¬FinishingIn sh.buried.core q :=
        fun q => finishing_buried h hswitched
      have hsame : FinishingIn (Function.update sh.buried.core sh.currentThread
          (some (.blocked, some (.semaphoreP s .intOn)))) t ↔
            FinishingIn sh.buried.core t :=
        finishingIn_stays (hnone _) (by simp)
      exact (hsame.trans (iff_false_intro (hnone t))).trans
        (by simp [Event.IsResumed])

theorem exists_core_update :
    (∃ c', Function.update core t (some c) q = some c') ↔
      q = t ∨ ∃ c', core q = some c' := by
  by_cases hq : q = t
  · subst hq
    simp
  · simp [hq]

/-- The record of a thread that has one is replaced. -/
theorem exists_core_stays {before : Core} (hcore : core t = some before) :
    (∃ c', Function.update core t (some c) q = some c') ↔
      ∃ c', core q = some c' := by
  rw [exists_core_update]
  constructor
  · intro h
    cases h with
    | inl hq =>
        subst hq
        exact ⟨before, hcore⟩
    | inr h => exact h
  · exact .inr

theorem exists_core_buried :
    (∃ c, sh.buried.core t = some c) ↔
      (∃ c, sh.core t = some c) ∧ sh.toBeDestroyed ≠ some t := by
  constructor
  · intro h
    obtain ⟨c, hcore⟩ := h
    obtain ⟨hcore, hnot⟩ := of_buried hcore
    exact ⟨⟨c, hcore⟩, hnot⟩
  · intro h
    obtain ⟨⟨c, hcore⟩, hnot⟩ := h
    exact ⟨c, (buried_core hnot).trans hcore⟩

/-- Threads begin to exist when they are created, and cease to when they are
deleted. -/
theorem Life.existing (hlife : Life sh event sh') (h : sh.Sound) :
    (∃ c, sh'.core t = some c) ↔
      event = .created t ∨ (∃ c, sh.core t = some c) ∧ ¬event.Destroys t := by
  cases hlife with
  | @created q hrunning hnone =>
      have hsame : (∃ c, Function.update sh.core q
          (some (.justCreated, none)) t = some c) ↔
            t = q ∨ ∃ c, sh.core t = some c := exists_core_update
      exact hsame.trans (by simp [Event.Destroys, eq_comm])
  | @forked q resume hrunning hcore =>
      exact (exists_core_stays hcore).trans (by simp [Event.Destroys])
  | kept => simp [Event.Destroys]
  | @yielded next resume rest hrunning hready hnext =>
      obtain ⟨-, -, before, hcurrent⟩ := h.controlled_running hrunning
      have hfirst : ∀ q, (∃ c, Function.update sh.core sh.currentThread
          (some (.ready, some (.yield .intOn))) q = some c) ↔
            ∃ c, sh.core q = some c := fun q => exists_core_stays hcurrent
      obtain ⟨c, hnext'⟩ := (hfirst next).mpr ⟨_, hnext⟩
      have hsame := (exists_core_stays (q := t) (c := (.running, resume))
        hnext').trans (hfirst t)
      exact hsame.trans (by simp [Event.Destroys])
  | finished hrunning =>
      obtain ⟨-, -, before, hcurrent⟩ := h.controlled_running hrunning
      exact (exists_core_stays hcurrent).trans (by simp [Event.Destroys])
  | acquired => simp [Event.Destroys, setSemaphore]
  | blocked hrunning =>
      obtain ⟨-, -, before, hcurrent⟩ := h.controlled_running hrunning
      exact (exists_core_stays hcurrent).trans (by simp [Event.Destroys])
  | released => simp [Event.Destroys, setSemaphore]
  | woken hcontrol hqueue hcore =>
      exact (exists_core_stays hcore).trans (by simp [Event.Destroys])
  | idles => simp [Event.Destroys]
  | found hsleeping hready hnext =>
      exact (exists_core_stays hnext).trans (by simp [Event.Destroys])
  | idled => simp [Event.Destroys]
  | resumed => exact exists_core_buried.trans (by simp [Event.Destroys])
  | reacquired => exact exists_core_buried.trans (by simp [Event.Destroys])
  | @blockedAgain s level hswitched hcurrent =>
      obtain ⟨-, -, hdestroy⟩ := h.controlled_switched hswitched
      have hkept := buried_core (q := sh.currentThread)
        (fun hself => (hdestroy _ hself).1 rfl)
      have hcurrent' := hkept.trans hcurrent
      have hsame := (exists_core_stays (q := t)
        (c := (.blocked, some (.semaphoreP s .intOn))) hcurrent').trans
          exists_core_buried
      exact hsame.trans (by simp [Event.Destroys])

end Shape

/-! ## All runs -/

section Runs

variable {garbage : ℕ → BitVec 32} {machine : UserState}
variable {initial : SemaphoreId → BitVec 32}
variable {guard : List Event → Threads → Action → Prop}
variable {trace : List Event} {k : Threads}

/-- What the events say of the threads is what the records say. -/
structure Recorded (trace : List Event) (sh : Shape) : Prop where
  unfinished : ∀ t, Unfinished trace t ↔ Shape.ActiveIn sh.core t
  dying : ∀ t, Dying trace t ↔ Shape.FinishingIn sh.core t
  existing : ∀ t, Existing trace t ↔ ∃ c, sh.core t = some c

theorem Recorded.step
    {sh sh' : Shape} {event : Event} (h : Recorded trace sh)
    (hsound : sh.Sound) (hlife : sh.Life event sh') :
    Recorded (trace ++ [event]) sh' where
  unfinished t := by
    rw [Unfinished, StepSystem.lasting_append, hlife.active hsound,
      ← h.unfinished t]
    rfl
  dying t := by
    rw [Dying, StepSystem.since_append, hlife.finishing hsound, ← h.dying t]
    rfl
  existing t := by
    rw [Existing, StepSystem.lasting_append, hlife.existing hsound,
      ← h.existing t]
    rfl

theorem core_start (t : ThreadId) :
    (Threads.start garbage machine initial).shape.core t =
      if t = Threads.mainThread then some (.running, none) else none := by
  by_cases ht : t = Threads.mainThread
  · subst ht
    simp [Threads.shape, Threads.start, Thread.core]
  · simp [Threads.shape, Threads.start, ht]

theorem recorded_start :
    Recorded [] (Threads.start garbage machine initial).shape where
  unfinished t := by
    rw [Unfinished, StepSystem.lasting_nil, Shape.ActiveIn, core_start]
    by_cases ht : t = Threads.mainThread
    · simp [ht]
    · simp [ht]
  dying t := by
    have hnone : ¬Dying [] t := StepSystem.not_since_nil
    rw [iff_false_intro hnone, Shape.FinishingIn, core_start]
    by_cases ht : t = Threads.mainThread
    · simp [ht]
    · simp [ht]
  existing t := by
    rw [Existing, StepSystem.lasting_nil, core_start]
    by_cases ht : t = Threads.mainThread
    · simp [ht]
    · simp [ht]

theorem run_recorded
    (hrun : (Threads.system garbage machine initial).Run guard trace k) :
    Recorded trace k.shape := by
  refine hrun.invariant (fun trace k => Recorded trace k.shape)
    recorded_start ?_
  intro trace k k' action event hbefore hrecorded _ hstep
  have hsound := run_sound hbefore
  exact hrecorded.step hsound (life_of_step hsound hstep)

/-- Where a thread can be. -/
inductive Place
  | current
  | ready
  | queue (s : SemaphoreId)
  deriving DecidableEq

def Place.status : Place → ThreadStatus
  | .current => .running
  | .ready => .ready
  | .queue _ => .blocked

/-- How many times a thread is in a place. -/
def Threads.occurrences (k : Threads) (t : ThreadId) : Place → ℕ
  | .current => if k.currentThread = t then 1 else 0
  | .ready => k.readyList.count t
  | .queue s => (k.semaphores s).queue.count t

/-- The thread is in one place, once, and its status says in which. -/
def Threads.OnePlace (k : Threads) (t : ThreadId) : Prop :=
  ∃ p, k.occurrences t p = 1 ∧ (∀ q, q ≠ p → k.occurrences t q = 0) ∧
    ∃ th, k.threads t = some th ∧ th.status = p.status

theorem Shape.Sound.notMem_ready
    (h : k.shape.Sound) {t : ThreadId} {status : ThreadStatus}
    {resume : Option Resume} (hcore : k.shape.core t = some (status, resume))
    (hstatus : status ≠ .ready) : t ∉ k.readyList := by
  intro hmem
  obtain ⟨other, hready⟩ := h.mem_ready.mp hmem
  rw [hcore] at hready
  cases hready
  exact hstatus rfl

theorem Shape.Sound.notMem_queue
    (h : k.shape.Sound) {t : ThreadId} {c : Core}
    (hcore : k.shape.core t = some c) {s : SemaphoreId}
    (hplace : c.place ≠ some (some s)) : t ∉ (k.semaphores s).queue := by
  intro hmem
  obtain ⟨level, hqueued⟩ := h.mem_queue.mp hmem
  rw [hcore, Option.some.injEq] at hqueued
  rw [hqueued] at hplace
  exact hplace rfl

/-- While a thread runs, every thread that is active is in one place. -/
theorem Shape.Sound.onePlace
    (h : k.shape.Sound) (hrunning : k.control = .running) {t : ThreadId}
    (hactive : Shape.ActiveIn k.shape.core t) : k.OnePlace t := by
  obtain ⟨-, -, before, hcurrent⟩ := Threads.Sound.current_running h hrunning
  obtain ⟨⟨status, resume⟩, hcore, hcreated, hfinish⟩ := hactive
  obtain ⟨th, hth, hthcore⟩ := Threads.exists_thread hcore
  have hstatus : th.status = status := congrArg Prod.fst hthcore
  have hother : status ≠ .running → k.currentThread ≠ t := by
    intro hne hself
    rw [← hself, hcurrent] at hcore
    cases hcore
    exact hne rfl
  cases status with
  | justCreated => exact (hcreated rfl).elim
  | running =>
      refine ⟨.current, ?_, ?_, th, hth, hstatus⟩
      · exact if_pos (h.running hcore).symm
      · intro q hq
        cases q with
        | current => exact (hq rfl).elim
        | ready =>
            exact List.count_eq_zero.mpr (h.notMem_ready hcore (by simp))
        | queue s =>
            exact List.count_eq_zero.mpr
              (h.notMem_queue hcore (by simp [Core.place]))
  | ready =>
      refine ⟨.ready, ?_, ?_, th, hth, hstatus⟩
      · exact List.count_eq_one_of_mem (h.placed.nodup none)
          (h.mem_ready.mpr ⟨resume, hcore⟩)
      · intro q hq
        cases q with
        | current => exact if_neg (hother (by simp))
        | ready => exact (hq rfl).elim
        | queue s =>
            exact List.count_eq_zero.mpr
              (h.notMem_queue hcore (by simp [Core.place]))
  | blocked =>
      obtain hdone | ⟨s, level, hresume⟩ := (h.kept hcore).blocked rfl
      · exact (hfinish hdone).elim
      · obtain rfl : resume = some (.semaphoreP s level) := hresume
        refine ⟨.queue s, ?_, ?_, th, hth, hstatus⟩
        · exact List.count_eq_one_of_mem (h.placed.nodup (some s))
            (h.mem_queue.mpr ⟨level, hcore⟩)
        · intro q hq
          cases q with
          | current => exact if_neg (hother (by simp))
          | ready =>
              exact List.count_eq_zero.mpr (h.notMem_ready hcore (by simp))
          | queue other =>
              refine List.count_eq_zero.mpr (h.notMem_queue hcore ?_)
              intro hsame
              cases hsame
              exact hq rfl

/-- The thread that is to be destroyed is in no place at all. -/
theorem Shape.Sound.toBeDestroyed_out
    (h : k.shape.Sound) {t : ThreadId} (ht : k.toBeDestroyed = some t) :
    t ≠ k.currentThread ∧ t ∉ k.readyList ∧
      ∀ s, t ∉ (k.semaphores s).queue := by
  obtain ⟨hne, hcore⟩ : t ≠ k.currentThread ∧
      k.shape.core t = some (.blocked, some .finish) := by
    cases hcontrol : k.control with
    | running =>
        obtain ⟨-, hnone, -⟩ := Threads.Sound.current_running h hcontrol
        rw [hnone] at ht
        cases ht
    | sleeping f =>
        obtain ⟨-, hnone, -⟩ := Threads.Sound.current_sleeping h (.inl hcontrol)
        rw [hnone] at ht
        cases ht
    | idling f =>
        obtain ⟨-, hnone, -⟩ := Threads.Sound.current_sleeping h (.inr hcontrol)
        rw [hnone] at ht
        cases ht
    | switched =>
        obtain ⟨-, -, hdestroy⟩ := Threads.Sound.current_switched h hcontrol
        exact hdestroy t ht
  exact ⟨hne, h.notMem_ready hcore (by simp),
    fun s => h.notMem_queue hcore (by simp [Core.place])⟩

/-- A switch happens at the event that it is said to happen at. -/
theorem resumed_of_life
    {sh sh' : Shape} {u : ThreadId} {destroyed : Option ThreadId}
    {tested : Option (SemaphoreId × Bool)}
    (hlife : sh.Life (.resumed u destroyed tested) sh') :
    sh.control = .switched ∧ sh.currentThread = u ∧
      sh.toBeDestroyed = destroyed := by
  cases hlife with
  | resumed hswitched => exact ⟨hswitched, rfl, rfl⟩
  | reacquired hswitched => exact ⟨hswitched, rfl, rfl⟩
  | blockedAgain hswitched => exact ⟨hswitched, rfl, rfl⟩

/-- The next thread that runs deletes the one that has finished. -/
theorem destroyed_iff_dying
    {earlier later : List Event} {u : ThreadId} {destroyed : Option ThreadId}
    {tested : Option (SemaphoreId × Bool)}
    (hrun : (Threads.system garbage machine initial).Run guard
      (earlier ++ .resumed u destroyed tested :: later) k) (t : ThreadId) :
    destroyed = some t ↔ Dying earlier t := by
  obtain ⟨before, after, action, hbefore, -, hstep, -⟩ := hrun.step_at
  have hsound := run_sound hbefore
  obtain ⟨hswitched, -, rfl⟩ := resumed_of_life (life_of_step hsound hstep)
  rw [hsound.toBeDestroyed_iff hswitched, (run_recorded hbefore).dying]

/-- In every run: while a thread executes, every thread that has been forked
and has not finished is in one place, once, with the status for it; the thread
that is to be destroyed is in none; no assertion fails; and a thread that has
finished is deleted by the next one that runs, and by no other. -/
theorem threads_live
    (hrun : (Threads.system garbage machine initial).Reaches trace k) :
    (k.control = .running → ∀ t, Unfinished trace t → k.OnePlace t) ∧
      (∀ t, k.toBeDestroyed = some t → t ≠ k.currentThread ∧
        t ∉ k.readyList ∧ ∀ s, t ∉ (k.semaphores s).queue) ∧
      (∀ action fault, Threads.step k action ≠ .error (.fault fault)) ∧
      (∀ earlier u destroyed tested later,
        trace = earlier ++ .resumed u destroyed tested :: later →
          ∀ t, destroyed = some t ↔ Dying earlier t) ∧
      ∀ t, (∃ th, k.threads t = some th) ↔ Existing trace t := by
  have hsound := run_sound hrun
  have hrecorded := run_recorded hrun
  refine ⟨?_, fun t => hsound.toBeDestroyed_out, step_ne_fault hsound, ?_, ?_⟩
  · intro hrunning t hunfinished
    exact hsound.onePlace hrunning ((hrecorded.unfinished t).mp hunfinished)
  · intro earlier u destroyed tested later htrace
    rw [htrace] at hrun
    exact destroyed_iff_dying hrun
  · intro t
    have hcore : (∃ c, k.shape.core t = some c) ↔
        ∃ th, k.threads t = some th := by
      constructor
      · intro h
        obtain ⟨c, hc⟩ := h
        obtain ⟨th, hth, -⟩ := Threads.exists_thread hc
        exact ⟨th, hth⟩
      · intro h
        obtain ⟨th, hth⟩ := h
        exact ⟨_, Threads.core_eq hth⟩
    rw [hrecorded.existing t, hcore]

/-- A thread is forked, blocks in a semaphore, is woken by a handler, and
finishes. -/
def forkedAndFinished : List Action :=
  [.newThread 1 (fun _ => 0), .fork 1, .yield, .goOn, .semaphoreP 0, .search,
    .goOn, .handlerV 0, .yield, .goOn, .finish, .search, .goOn]

theorem threads_live_forkedAndFinished :
    ∃ trace k, (Threads.system (fun _ => 0) ⟨fun _ => 0, none, 0⟩
        fun _ => 0).Reaches trace k ∧
      trace.getLast? = some (.resumed 0 (some 1) none) ∧
      Unfinished trace 0 ∧ k.OnePlace 0 ∧
      ∀ action fault, Threads.step k action ≠ .error (.fault fault) := by
  have hreplay : (Threads.system (fun _ => 0) ⟨fun _ => 0, none, 0⟩
      fun _ => 0).Replays StepSystem.anyStep forkedAndFinished
        (fun trace k => k.control = .running ∧
          trace.getLast? = some (.resumed 0 (some 1) none) ∧
          ∀ event ∈ trace, event ≠ .finished 0) = true := by
    decide
  obtain ⟨trace, k, hrun, hcheck⟩ := StepSystem.exists_run_of_replays hreplay
  obtain ⟨hrunning, hlast, hkept⟩ := of_decide_eq_true hcheck
  obtain ⟨hplaces, -, hsafe, -⟩ := threads_live hrun
  have hunfinished : Unfinished trace 0 := .inr ⟨rfl, hkept⟩
  exact ⟨trace, k, hrun, hlast, hunfinished, hplaces hrunning 0 hunfinished,
    hsafe⟩

end Runs

end Nachos.Scheduling
