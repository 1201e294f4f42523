import Nachos.Library.Ledger
import Nachos.ThreadPlaces

/-!
# The units of a semaphore

The value of a semaphore is what it had, and what has been given, less what
has been taken.  A thread that `V` wakes tests the value again, and others may
be faster; it is never left asleep while there is a unit that nobody has been
woken for.
-/

namespace Nachos.Scheduling

open Library

/-! ## What the events say -/

/-- A call of `V` that has returned. -/
def Event.gives (s : SemaphoreId) : Event → Bool
  | .released q _ => q = s
  | _ => false

/-- A call of `P` that returns. -/
def Event.takes (s : SemaphoreId) : Event → Bool
  | .acquired q _ => q = s
  | .resumed _ _ tested => tested = some (s, true)
  | _ => false

/-- The thread tests the value of the semaphore again. -/
def Event.Retests (s : SemaphoreId) (t : ThreadId) : Event → Prop
  | .resumed u _ tested => u = t ∧ ∃ passed, tested = some (s, passed)
  | _ => False

/-- The threads that have been woken, after one more event. -/
def Event.wakes (s : SemaphoreId) (awake : List ThreadId) :
    Event → List ThreadId
  | .released q (some t) => if q = s then awake ++ [t] else awake
  | .resumed t _ (some (q, _)) => if q = s then awake.erase t else awake
  | _ => awake

/-- The threads that `V` has moved to the ready list, and that have not tested
the value again since. -/
def awake (s : SemaphoreId) (trace : List Event) : List ThreadId :=
  trace.foldl (Event.wakes s) []

theorem awake_append
    (s : SemaphoreId) (trace : List Event) (event : Event) :
    awake s (trace ++ [event]) = event.wakes s (awake s trace) := by
  rw [awake, List.foldl_append]
  rfl

/-! ## What a step does to one semaphore -/

/-- The semaphore before a step, and after it. -/
inductive Semaphore.Moved (s : SemaphoreId) (sem : Semaphore) :
    Event → Semaphore → Prop
  | took {event : Event} : sem.value ≠ 0 → event.takes s = true →
      event.gives s = false →
      (∀ awake, awake.length ≤ (event.wakes s awake).length + 1) →
      Moved s sem event { sem with value := sem.value - 1 }
  | waited {event : Event} {t : ThreadId} : sem.value = 0 →
      event.takes s = false → event.gives s = false →
      Moved s sem event { sem with queue := sem.queue ++ [t] }
  | gave : sem.queue = [] →
      Moved s sem (.released s none) { sem with value := sem.value + 1 }
  | woke {t : ThreadId} {rest : List ThreadId} : sem.queue = t :: rest →
      Moved s sem (.released s (some t)) ⟨sem.value + 1, rest⟩
  | other {event : Event} : event.takes s = false → event.gives s = false →
      (∀ awake, event.wakes s awake = awake) → Moved s sem event sem

namespace Shape

variable {sh sh' : Shape} {event : Event} {s : SemaphoreId}

theorem buried_semaphores (sh : Shape) : sh.buried.semaphores = sh.semaphores := by
  rw [buried_eq]

theorem Life.moved (hlife : Life sh event sh') (s : SemaphoreId) :
    (sh.semaphores s).Moved s event (sh'.semaphores s) := by
  cases hlife with
  | created => exact .other rfl rfl fun _ => rfl
  | forked => exact .other rfl rfl fun _ => rfl
  | kept => exact .other rfl rfl fun _ => rfl
  | yielded => exact .other rfl rfl fun _ => rfl
  | finished => exact .other rfl rfl fun _ => rfl
  | @acquired q hrunning hvalue =>
      by_cases hq : q = s
      · subst hq
        simp only [setSemaphore, Function.update_self]
        exact .took hvalue (by simp [Event.takes]) rfl
          (fun awake => Nat.le_succ _)
      · simp only [setSemaphore, Function.update_of_ne (Ne.symm hq)]
        exact .other (by simp [Event.takes, hq]) rfl fun _ => rfl
  | @blocked q hrunning hvalue =>
      by_cases hq : q = s
      · subst hq
        simp only [setCore, setSemaphore, Function.update_self]
        exact .waited hvalue rfl rfl
      · simp only [setCore, setSemaphore, Function.update_of_ne (Ne.symm hq)]
        exact .other rfl rfl fun _ => rfl
  | @released q hcontrol hqueue =>
      by_cases hq : q = s
      · subst hq
        simp only [setSemaphore, Function.update_self]
        exact .gave hqueue
      · simp only [setSemaphore, Function.update_of_ne (Ne.symm hq)]
        exact .other rfl (by simp [Event.gives, hq]) fun _ => rfl
  | @woken q t rest resume hcontrol hqueue hcore =>
      by_cases hq : q = s
      · subst hq
        simp only [setCore, setSemaphore, Function.update_self]
        exact .woke hqueue
      · simp only [setCore, setSemaphore, Function.update_of_ne (Ne.symm hq)]
        exact .other rfl (by simp [Event.gives, hq])
          fun _ => by simp [Event.wakes, hq]
  | idles => exact .other rfl rfl fun _ => rfl
  | found => exact .other rfl rfl fun _ => rfl
  | idled => exact .other rfl rfl fun _ => rfl
  | resumed =>
      simp only [buried_semaphores]
      exact .other (by simp [Event.takes]) rfl fun _ => rfl
  | @reacquired q level hswitched hcore hvalue =>
      by_cases hq : q = s
      · subst hq
        simp only [setSemaphore, Function.update_self]
        refine .took hvalue (by simp [Event.takes]) rfl ?_
        intro awake
        simp only [Event.wakes, if_true, List.length_erase]
        split <;> omega
      · simp only [setSemaphore, Function.update_of_ne (Ne.symm hq),
          buried_semaphores]
        exact .other (by simp [Event.takes, hq]) rfl
          fun _ => by simp [Event.wakes, hq]
  | @blockedAgain q level hswitched hcore hvalue =>
      by_cases hq : q = s
      · subst hq
        simp only [setCore, setSemaphore, Function.update_self]
        exact .waited hvalue (by simp [Event.takes]) rfl
      · simp only [setCore, setSemaphore, Function.update_of_ne (Ne.symm hq),
          buried_semaphores]
        exact .other (by simp [Event.takes]) rfl
          fun _ => by simp [Event.wakes, hq]

/-! ## The threads that have been woken -/

/-- The thread is on its way from the queue of the semaphore to the test of
its value: on the ready list, or behind `SWITCH`. -/
def AwakeAt (sh : Shape) (s : SemaphoreId) (t : ThreadId) : Prop :=
  (∃ level, sh.core t = some (.ready, some (.semaphoreP s level))) ∨
    sh.control = .switched ∧ sh.currentThread = t ∧
      ∃ level, sh.core t = some (.running, some (.semaphoreP s level))

variable {t : ThreadId}

theorem AwakeAt.not_blocked
    (hawake : sh.AwakeAt s t) {resume : Option Resume} :
    sh.core t ≠ some (.blocked, resume) := by
  intro hcore
  cases hawake with
  | inl hready =>
      obtain ⟨level, hready⟩ := hready
      rw [hcore] at hready
      cases hready
  | inr hrunning =>
      obtain ⟨-, -, level, hrunning⟩ := hrunning
      rw [hcore] at hrunning
      cases hrunning

/-- Away from a switch the threads that have been woken are on the ready
list. -/
theorem awakeAt_of_not_switched (hcontrol : sh.control ≠ .switched) :
    sh.AwakeAt s t ↔
      ∃ level, sh.core t = some (.ready, some (.semaphoreP s level)) := by
  simp [AwakeAt, hcontrol]

/-- The record of a thread that is not waiting to test the value is replaced
by another such record. -/
theorem ready_update
    {core : ThreadId → Option Core} {q : ThreadId} {c : Core}
    (hbefore : ∀ level, core q ≠ some (.ready, some (.semaphoreP s level)))
    (hafter : ∀ level, c ≠ (.ready, some (.semaphoreP s level))) :
    (∃ level, Function.update core q (some c) t =
        some (.ready, some (.semaphoreP s level))) ↔
      ∃ level, core t = some (.ready, some (.semaphoreP s level)) := by
  by_cases hq : t = q
  · subst hq
    simp [hbefore, hafter]
  · simp [hq]

/-- The processor is switched to a thread of the ready list. -/
theorem awakeAt_switchTo
    (hcontrol : sh.control ≠ .switched) {next : ThreadId}
    {resume : Option Resume} {rest : List ThreadId}
    {destroy : Option ThreadId} (hnext : sh.core next = some (.ready, resume)) :
    (sh.switchTo next resume rest destroy).AwakeAt s t ↔ sh.AwakeAt s t := by
  rw [awakeAt_of_not_switched hcontrol]
  by_cases ht : t = next
  · subst ht
    simp [AwakeAt, switchTo, setCore, hnext]
  · simp [AwakeAt, switchTo, setCore, ht, Ne.symm ht]

theorem ready_buried (h : sh.Sound) (hswitched : sh.control = .switched) :
    (∃ level, sh.buried.core t = some (.ready, some (.semaphoreP s level))) ↔
      ∃ level, sh.core t = some (.ready, some (.semaphoreP s level)) := by
  obtain ⟨-, -, hdestroy⟩ := h.controlled_switched hswitched
  constructor
  · intro hready
    obtain ⟨level, hready⟩ := hready
    exact ⟨level, (of_buried hready).1⟩
  · intro hready
    obtain ⟨level, hready⟩ := hready
    refine ⟨level, (buried_core ?_).trans hready⟩
    intro ht
    rw [(hdestroy t ht).2] at hready
    cases hready

/-- Behind `SWITCH` a thread may have to test the value again, the others that
have been woken are on the ready list. -/
theorem awakeAt_switched
    (hswitched : sh.control = .switched) {r : Option Resume}
    (hcurrent : sh.core sh.currentThread = some (.running, r)) :
    sh.AwakeAt s t ↔
      (∃ level, sh.core t = some (.ready, some (.semaphoreP s level))) ∨
        sh.currentThread = t ∧ ∃ level, r = some (.semaphoreP s level) := by
  unfold AwakeAt
  by_cases ht : sh.currentThread = t
  · subst ht
    simp [hswitched, hcurrent]
  · simp [ht]

/-- The test takes the current thread out of those that have been woken. -/
theorem awakeAt_retested
    (hswitched : sh.control = .switched) {q : SemaphoreId} {level : IntStatus}
    (hcurrent : sh.core sh.currentThread =
      some (.running, some (.semaphoreP q level)))
    (destroyed : Option ThreadId) (passed : Bool) :
    sh.AwakeAt s t ∧ ¬(Event.resumed sh.currentThread destroyed
        (some (q, passed))).Retests s t ↔
      ∃ level, sh.core t = some (.ready, some (.semaphoreP s level)) := by
  rw [awakeAt_switched hswitched hcurrent]
  simp only [Event.Retests]
  by_cases ht : sh.currentThread = t
  · subst ht
    by_cases hq : q = s
    · simp [hcurrent, hq]
    · simp [hcurrent, hq]
  · simp [ht]

theorem Life.blocked_of_released
    (hlife : Life sh (.released s (some t)) sh') :
    ∃ resume, sh.core t = some (.blocked, resume) := by
  cases hlife with
  | woken _ _ hcore => exact ⟨_, hcore⟩

/-- `V` wakes a thread, and a thread is awake until it tests the value. -/
theorem Life.awakeAt (hlife : Life sh event sh') (h : sh.Sound) :
    sh'.AwakeAt s t ↔ event = .released s (some t) ∨
      sh.AwakeAt s t ∧ ¬event.Retests s t := by
  have hnot : ∀ {control : Control} (_ : sh.control = control),
      control ≠ .switched → sh.control ≠ .switched :=
    fun hcontrol hne => hcontrol ▸ hne
  cases hlife with
  | @created q hrunning hnone =>
      have hne := hnot hrunning (by simp)
      rw [awakeAt_of_not_switched hne, awakeAt_of_not_switched (by exact hne)]
      exact (ready_update (by simp [hnone]) (by simp)).trans
        (by simp [Event.Retests])
  | @forked q resume hrunning hcore =>
      have hne := hnot hrunning (by simp)
      rw [awakeAt_of_not_switched hne, awakeAt_of_not_switched (by exact hne)]
      exact (ready_update (by simp [hcore]) (by simp)).trans
        (by simp [Event.Retests])
  | kept => simp [Event.Retests]
  | @yielded next resume rest hrunning hready hnext =>
      obtain ⟨-, -, before, hcurrent⟩ := h.controlled_running hrunning
      have hne : next ≠ sh.currentThread := by
        rintro rfl
        rw [hcurrent] at hnext
        cases hnext
      have hcontrol := hnot hrunning (by simp)
      have hback : (sh.setCore sh.currentThread
          (.ready, some (.yield .intOn))).AwakeAt s t ↔ sh.AwakeAt s t := by
        rw [awakeAt_of_not_switched hcontrol,
          awakeAt_of_not_switched (by exact hcontrol)]
        exact ready_update (by simp [hcurrent]) (by simp)
      have hnext' : (sh.setCore sh.currentThread
          (.ready, some (.yield .intOn))).core next = some (.ready, resume) :=
        (Function.update_of_ne hne _ _).trans hnext
      have hcontrol' : (sh.setCore sh.currentThread
          (.ready, some (.yield .intOn))).control ≠ .switched := hcontrol
      have hswitch : ((sh.setCore sh.currentThread
          (.ready, some (.yield .intOn))).switchTo next resume
            (rest ++ [sh.currentThread]) none).AwakeAt s t ↔ _ :=
        awakeAt_switchTo hcontrol' hnext'
      exact (hswitch.trans hback).trans (by simp [Event.Retests])
  | finished hrunning =>
      obtain ⟨-, -, before, hcurrent⟩ := h.controlled_running hrunning
      rw [awakeAt_of_not_switched (hnot hrunning (by simp)),
        awakeAt_of_not_switched (by simp)]
      exact (ready_update (by simp [hcurrent]) (by simp)).trans
        (by simp [Event.Retests])
  | acquired =>
      show sh.AwakeAt s t ↔ _
      simp [Event.Retests]
  | @blocked q hrunning =>
      obtain ⟨-, -, before, hcurrent⟩ := h.controlled_running hrunning
      rw [awakeAt_of_not_switched (hnot hrunning (by simp)),
        awakeAt_of_not_switched (by simp)]
      have hupdate : (∃ level, Function.update sh.core sh.currentThread
          (some (.blocked, some (.semaphoreP q .intOn))) t =
            some (.ready, some (.semaphoreP s level))) ↔
          ∃ level, sh.core t = some (.ready, some (.semaphoreP s level)) :=
        ready_update (by simp [hcurrent]) (by simp)
      exact hupdate.trans (by simp [Event.Retests])
  | released =>
      show sh.AwakeAt s t ↔ _
      simp [Event.Retests]
  | @woken q u rest resume hcontrol hqueue hcore =>
      obtain ⟨level, hqueued⟩ := h.core_queued hqueue
      have hresume : resume = some (.semaphoreP q level) := by
        rw [hcore, Option.some.injEq, Prod.mk.injEq] at hqueued
        exact hqueued.2
      have hne : sh.control ≠ .switched := by
        cases hcontrol with
        | inl hrunning => exact hnot hrunning (by simp)
        | inr hidling =>
            obtain ⟨f, hidling⟩ := hidling
            exact hnot hidling (by simp)
      rw [awakeAt_of_not_switched hne, awakeAt_of_not_switched (by exact hne)]
      show (∃ level, Function.update sh.core u (some (.ready, resume)) t =
        some (.ready, some (.semaphoreP s level))) ↔ _
      by_cases ht : t = u
      · subst ht
        simp [hresume, hcore]
      · simp [ht, Ne.symm ht, Event.Retests]
  | @idles f hsleeping =>
      rw [awakeAt_of_not_switched (hnot hsleeping (by simp)),
        awakeAt_of_not_switched (by simp)]
      simp [Event.Retests]
  | @found f next resume rest hsleeping hready hnext =>
      exact (awakeAt_switchTo (hnot hsleeping (by simp)) hnext).trans
        (by simp [Event.Retests])
  | @idled f hidling =>
      rw [awakeAt_of_not_switched (hnot hidling (by simp)),
        awakeAt_of_not_switched (by simp)]
      simp [Event.Retests]
  | @resumed r hswitched hcurrent hr =>
      rw [awakeAt_switched hswitched hcurrent,
        awakeAt_of_not_switched (by simp)]
      exact (ready_buried h hswitched).trans (by simp [Event.Retests, hr])
  | @reacquired q level hswitched hcurrent =>
      rw [awakeAt_retested hswitched hcurrent,
        awakeAt_of_not_switched (by simp)]
      exact (ready_buried h hswitched).trans (by simp)
  | @blockedAgain q level hswitched hcurrent =>
      obtain ⟨-, -, hdestroy⟩ := h.controlled_switched hswitched
      have hcurrent' := (buried_core (q := sh.currentThread)
        fun hself => (hdestroy _ hself).1 rfl).trans hcurrent
      rw [awakeAt_retested hswitched hcurrent,
        awakeAt_of_not_switched (by simp)]
      have hupdate : (∃ level, Function.update sh.buried.core
          sh.currentThread (some (.blocked, some (.semaphoreP q .intOn))) t =
            some (.ready, some (.semaphoreP s level))) ↔
          ∃ level, sh.buried.core t =
            some (.ready, some (.semaphoreP s level)) :=
        ready_update (by simp [hcurrent']) (by simp)
      exact (hupdate.trans (ready_buried h hswitched)).trans (by simp)

end Shape

/-! ## The books -/

section Books

variable {sem sem' : Semaphore} {s : SemaphoreId} {event : Event}
variable {trace : List Event} {v : ℤ}

/-- What the value and the queue of a semaphore say of the run so far. -/
structure Accounted (v : ℤ) (s : SemaphoreId) (trace : List Event)
    (sem : Semaphore) : Prop where
  nonneg : 0 ≤ sem.value.toInt
  balance : sem.value.toInt = v + trace.countP (Event.gives s) -
    trace.countP (Event.takes s)
  woken : sem.queue ≠ [] → sem.value.toInt ≤ (awake s trace).length

theorem toInt_sub_one
    {value : BitVec 32} (hnonneg : 0 ≤ value.toInt) (hne : value ≠ 0) :
    (value - 1).toInt = value.toInt - 1 := by
  have hpos : value.toInt ≠ 0 := by
    intro hzero
    exact hne (BitVec.eq_of_toInt_eq hzero)
  have hlt := BitVec.toInt_lt (x := value)
  rw [BitVec.toInt_sub]
  simp only [BitVec.reduceToInt, Int.bmod_def]
  omega

theorem toInt_add_one
    {value : BitVec 32} (hnonneg : 0 ≤ value.toInt)
    (hne : value.toInt ≠ 2 ^ 31 - 1) :
    (value + 1).toInt = value.toInt + 1 := by
  have hlt := BitVec.toInt_lt (x := value)
  rw [BitVec.toInt_add]
  simp only [BitVec.reduceToInt, Int.bmod_def]
  omega

theorem Accounted.step
    (h : Accounted v s trace sem) (hmoved : sem.Moved s event sem')
    (hmax : event.gives s = true → sem.value.toInt ≠ 2 ^ 31 - 1) :
    Accounted v s (trace ++ [event]) sem' := by
  obtain ⟨hnonneg, hbalance, hwoken⟩ := h
  have hgives := Ledger.countP_concat (Event.gives s) trace event
  have htakes := Ledger.countP_concat (Event.takes s) trace event
  have hawake := awake_append s trace event
  cases hmoved with
  | took hne htake hgive hlength =>
      have hvalue := toInt_sub_one hnonneg hne
      have hpos : sem.value.toInt ≠ 0 :=
        fun hzero => hne (BitVec.eq_of_toInt_eq hzero)
      simp only [htake, hgive, if_true, Bool.false_eq_true, if_false] at hgives htakes
      constructor
      · simp only [hvalue]
        omega
      · simp only [hvalue, hgives, htakes]
        omega
      · intro hqueue
        have hbefore := hwoken hqueue
        have hone := hlength (awake s trace)
        simp only [hvalue, hawake]
        omega
  | waited hzero htake hgive =>
      simp only [htake, hgive, Bool.false_eq_true, if_false] at hgives htakes
      have hvalue : sem.value.toInt = 0 := by
        rw [hzero]
        rfl
      constructor
      · exact hnonneg
      · simp only [hgives, htakes]
        omega
      · intro _
        simp only [hvalue]
        omega
  | gave hqueue =>
      have hvalue := toInt_add_one hnonneg (hmax (by simp [Event.gives]))
      simp only [Event.gives, Event.takes, decide_true, if_true,
        Bool.false_eq_true, if_false] at hgives htakes
      constructor
      · simp only [hvalue]
        omega
      · simp only [hvalue, hgives, htakes]
        omega
      · intro hsome
        exact (hsome hqueue).elim
  | @woke t rest hqueue =>
      have hvalue := toInt_add_one hnonneg (hmax (by simp [Event.gives]))
      simp only [Event.gives, Event.takes, decide_true, if_true,
        Bool.false_eq_true, if_false] at hgives htakes
      simp only [Event.wakes, if_true] at hawake
      constructor
      · simp only [hvalue]
        omega
      · simp only [hvalue, hgives, htakes]
        omega
      · intro _
        have hbefore := hwoken (by rw [hqueue]; exact List.cons_ne_nil t rest)
        simp only [hvalue, hawake, List.length_append, List.length_singleton]
        omega
  | other htake hgive hsame =>
      simp only [htake, hgive, Bool.false_eq_true, if_false] at hgives htakes
      constructor
      · exact hnonneg
      · simp only [hgives, htakes]
        omega
      · rw [hawake, hsame]
        exact hwoken

/-- Nobody is woken twice without a test between. -/
theorem nodup_wakes
    {list : List ThreadId} (hnodup : list.Nodup)
    (hout : ∀ t, event = .released s (some t) → t ∉ list) :
    (event.wakes s list).Nodup := by
  unfold Event.wakes
  split
  next q t =>
    by_cases hq : q = s
    · rw [if_pos hq]
      have ht := hout t (by rw [hq])
      exact hnodup.append (List.nodup_singleton t)
        (List.disjoint_singleton.mpr ht)
    · rw [if_neg hq]
      exact hnodup
  next t destroyed q passed =>
    by_cases hq : q = s
    · rw [if_pos hq]
      exact hnodup.erase t
    · rw [if_neg hq]
      exact hnodup
  next => exact hnodup

theorem mem_wakes
    {list : List ThreadId} (hnodup : list.Nodup) {t : ThreadId} :
    t ∈ event.wakes s list ↔
      event = .released s (some t) ∨ t ∈ list ∧ ¬event.Retests s t := by
  unfold Event.wakes
  split
  next q u =>
    by_cases hq : q = s
    · simp [hq, Event.Retests, or_comm, eq_comm]
    · simp [hq, Event.Retests]
  next u destroyed q passed =>
    by_cases hq : q = s
    · simp [hq, Event.Retests, hnodup.mem_erase_iff, and_comm, eq_comm]
    · simp [hq, Event.Retests]
  next hwoken htested =>
    have hother : ¬event.Retests s t := by
      intro hretests
      cases event with
      | resumed u destroyed tested =>
          obtain ⟨-, passed, rfl⟩ := hretests
          exact htested _ _ _ _ rfl
      | _ => exact hretests
    have hnot : event ≠ .released s (some t) := fun h => hwoken _ _ h
    simp [hother, hnot]

end Books

/-! ## All runs -/

section Runs

variable {garbage : ℕ → BitVec 32} {machine : UserState}
variable {initial : SemaphoreId → BitVec 32} {s : SemaphoreId}
variable {guard : List Event → Threads → Action → Prop}
variable {trace : List Event} {k : Threads}

/-- A `V` of the semaphore finds it below the largest `int`. -/
def belowMax (s : SemaphoreId) (_ : List Event) (k : Threads) :
    Action → Prop
  | .semaphoreV q => q = s → (k.semaphores s).value.toInt < 2 ^ 31 - 1
  | .handlerV q => q = s → (k.semaphores s).value.toInt < 2 ^ 31 - 1
  | _ => True

instance (trace : List Event) (k : Threads) (action : Action) :
    Decidable (belowMax s trace k action) :=
  match action with
  | .semaphoreV q => inferInstanceAs (Decidable (q = s → _))
  | .handlerV q => inferInstanceAs (Decidable (q = s → _))
  | .newThread _ _ | .fork _ | .yield | .finish | .semaphoreP _ | .search
  | .idleReturns | .goOn => isTrue trivial

/-- Only a call of `V` gives a unit. -/
theorem action_of_released
    {k' : Threads} {action : Action} {woken : Option ThreadId}
    (hstep : Threads.step k action = .ok (k', .released s woken)) :
    action = .semaphoreV s ∨ action = .handlerV s := by
  unfold Threads.step at hstep
  split at hstep
  next t garbage hcontrol =>
    by_cases hfree : (k.threads t).isNone
    · simp [hfree] at hstep
    · simp [hfree] at hstep
  next t hcontrol =>
    by_cases hnew : (k.threads t).any (fun th => th.status = .justCreated)
    · rw [if_pos hnew] at hstep
      obtain ⟨after, -, hafter⟩ := Threads.simulate_ok_bind hstep
      cases hafter
    · rw [if_neg hnew] at hstep
      cases hstep
  next =>
    obtain ⟨after, -, hafter⟩ := Threads.simulate_ok_bind hstep
    cases hafter
  next =>
    obtain ⟨after, -, hafter⟩ := Threads.simulate_ok_bind hstep
    cases hafter
  next q hcontrol =>
    obtain ⟨after, -, hafter⟩ := Threads.simulate_ok_bind hstep
    by_cases hpasses : k.passes q
    · rw [if_pos hpasses] at hafter
      cases hafter
    · rw [if_neg hpasses] at hafter
      cases hafter
  next q hcontrol =>
    obtain ⟨after, -, hafter⟩ := Threads.simulate_ok_bind hstep
    cases hafter
    exact .inl rfl
  next q hcontrol =>
    obtain ⟨after, -, hafter⟩ := Threads.simulate_ok_bind hstep
    cases hafter
    exact .inr rfl
  next q hcontrol =>
    obtain ⟨after, -, hafter⟩ := Threads.simulate_ok_bind hstep
    cases hafter
    exact .inr rfl
  next => cases hstep
  next =>
    obtain ⟨after, -, hafter⟩ := Threads.simulate_ok_bind hstep
    cases hafter
  next =>
    obtain ⟨after, -, hafter⟩ := Threads.simulate_ok_bind hstep
    cases hafter
  next => cases hstep

theorem below_of_gives
    {k' : Threads} {action : Action} {event : Event}
    (hguard : belowMax s trace k action)
    (hstep : Threads.step k action = .ok (k', event))
    (hgives : event.gives s = true) :
    (k.semaphores s).value.toInt < 2 ^ 31 - 1 := by
  cases event with
  | released q woken =>
      obtain rfl : q = s := of_decide_eq_true hgives
      cases action_of_released hstep with
      | inl haction =>
          subst haction
          exact hguard rfl
      | inr haction =>
          subst haction
          exact hguard rfl
  | _ => cases hgives

theorem run_accounted
    (hinitial : 0 ≤ (initial s).toInt)
    (hrun : (Threads.system garbage machine initial).Run (belowMax s)
      trace k) :
    Accounted (initial s).toInt s trace (k.semaphores s) := by
  refine hrun.invariant
    (fun trace k => Accounted (initial s).toInt s trace (k.semaphores s)) ?_ ?_
  · refine ⟨hinitial, ?_, fun hqueue => (hqueue rfl).elim⟩
    simp [Threads.system, Threads.start]
  · intro trace k k' action event hbefore haccounted hguard hstep
    have hlife := life_of_step (run_sound hbefore) hstep
    refine haccounted.step (hlife.moved s) ?_
    intro hgives
    have hbelow := below_of_gives hguard hstep hgives
    omega

/-- The threads that have been woken, by what has happened and by where they
are. -/
theorem run_awake
    (hrun : (Threads.system garbage machine initial).Run guard trace k) :
    (awake s trace).Nodup ∧ ∀ t, t ∈ awake s trace ↔ k.shape.AwakeAt s t := by
  refine hrun.invariant (fun trace k => (awake s trace).Nodup ∧
    ∀ t, t ∈ awake s trace ↔ k.shape.AwakeAt s t) ?_ ?_
  · refine ⟨List.nodup_nil, fun t => ⟨nofun, ?_⟩⟩
    intro hawake
    rw [Shape.awakeAt_of_not_switched
      (by simp [Threads.system, Threads.start, Threads.shape])] at hawake
    obtain ⟨level, hready⟩ := hawake
    obtain ⟨resume, hmem⟩ : ∃ resume, (Threads.start garbage machine
        initial).shape.core t = some (.ready, resume) := ⟨_, hready⟩
    have hstart : (Threads.start garbage machine initial).shape.Sound :=
      sound_start
    cases hstart.mem_ready.mpr ⟨resume, hmem⟩
  · intro trace k k' action event hbefore hlisted _ hstep
    obtain ⟨hnodup, hmem⟩ := hlisted
    have hsound := run_sound hbefore
    have hlife := life_of_step hsound hstep
    rw [awake_append]
    constructor
    · refine nodup_wakes hnodup ?_
      intro t hevent
      subst hevent
      rw [hmem]
      intro hawake
      obtain ⟨resume, hcore⟩ := hlife.blocked_of_released
      exact hawake.not_blocked hcore
    · intro t
      rw [mem_wakes hnodup, hlife.awakeAt hsound, hmem t]

/-- As long as no `V` finds the largest `int`: the value is not negative, and
is what it was, and what has been given, less what has been taken; no thread
is twice in the queue, and no assertion fails; and if a thread sleeps, there
is no unit that nobody has been woken for. -/
theorem semaphore_accounts
    (hinitial : 0 ≤ (initial s).toInt)
    (hrun : (Threads.system garbage machine initial).Run (belowMax s)
      trace k) :
    0 ≤ (k.semaphores s).value.toInt ∧
      (k.semaphores s).value.toInt = (initial s).toInt +
        trace.countP (Event.gives s) - trace.countP (Event.takes s) ∧
      (k.semaphores s).queue.Nodup ∧
      (∀ action fault, Threads.step k action ≠ .error (.fault fault)) ∧
      (awake s trace).Nodup ∧
      ((k.semaphores s).queue ≠ [] →
        (k.semaphores s).value.toInt ≤ (awake s trace).length) := by
  have hsound := run_sound hrun
  obtain ⟨hnonneg, hbalance, hwoken⟩ := run_accounted hinitial hrun
  exact ⟨hnonneg, hbalance, hsound.placed.nodup (some s),
    step_ne_fault hsound, (run_awake hrun).1, hwoken⟩

/-- Two threads wait; a `V` wakes the first of them, which has not tested the
value yet. -/
def twoWaiters : List Action :=
  [.newThread 1 (fun _ => 0), .fork 1, .newThread 2 (fun _ => 0), .fork 2,
    .yield, .goOn, .semaphoreP 0, .search, .goOn, .semaphoreP 0, .search,
    .goOn, .semaphoreV 0]

theorem semaphore_accounts_twoWaiters :
    ∃ trace k, (Threads.system (fun _ => 0) ⟨fun _ => 0, none, 0⟩
        fun _ => 0).Run (belowMax 0) trace k ∧
      k.semaphores 0 = ⟨1, [2]⟩ ∧ (awake 0 trace).length = 1 ∧
      0 ≤ (k.semaphores 0).value.toInt ∧
      (k.semaphores 0).value.toInt ≤ (awake 0 trace).length := by
  have hreplay : (Threads.system (fun _ => 0) ⟨fun _ => 0, none, 0⟩
      fun _ => 0).Replays (belowMax 0) twoWaiters
        (fun trace k => k.semaphores 0 = ⟨1, [2]⟩ ∧
          (awake 0 trace).length = 1) = true := by
    decide
  obtain ⟨trace, k, hrun, hcheck⟩ := StepSystem.exists_run_of_replays hreplay
  obtain ⟨hsemaphore, hlength⟩ := of_decide_eq_true hcheck
  obtain ⟨hnonneg, -, -, -, -, hwoken⟩ := semaphore_accounts (by decide) hrun
  have hqueue : (k.semaphores 0).queue ≠ [] := by
    rw [hsemaphore]
    exact List.cons_ne_nil 2 []
  exact ⟨trace, k, hrun, hsemaphore, hlength, hnonneg, hwoken hqueue⟩

/-- A semaphore with the largest `int`, and one more unit. -/
theorem semaphore_overflows :
    0 ≤ (0x7fffffff : BitVec 32).toInt ∧
      ∃ trace k, (Threads.system (fun _ => 0) ⟨fun _ => 0, none, 0⟩
        fun _ => 0x7fffffff).Reaches trace k ∧
      trace = [.released 0 none] ∧
      (k.semaphores 0).value.toInt = -2 ^ 31 := by
  have hreplay : (Threads.system (fun _ => 0) ⟨fun _ => 0, none, 0⟩
      fun _ => 0x7fffffff).Replays StepSystem.anyStep [.semaphoreV 0]
        (fun trace k => trace = [.released 0 none] ∧
          (k.semaphores 0).value.toInt = -2 ^ 31) = true := by
    decide
  obtain ⟨trace, k, hrun, hcheck⟩ := StepSystem.exists_run_of_replays hreplay
  obtain ⟨htrace, hvalue⟩ := of_decide_eq_true hcheck
  exact ⟨by decide, trace, k, hrun, htrace, hvalue⟩

end Runs

end Nachos.Scheduling
