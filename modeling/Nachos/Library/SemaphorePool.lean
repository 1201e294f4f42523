import Mathlib.Data.List.Basic
import Mathlib.Data.List.Nodup
import Mathlib.Logic.Function.Basic
import Mathlib.Tactic

/-!
# Workers blocking on a family of counting semaphores

A pool is a list of workers, each with a continuation and a flag telling that
it is asleep, over a family of counting semaphores with a value and a queue
of sleeping workers each.  The semaphores have Mesa semantics: a post wakes
the first worker of the queue and increments the value, and the woken worker
tests the value again before it takes a unit, so that another worker may be
faster.  `wants` tells at which semaphore a continuation is about to take a
unit.

The invariant `Pool.Sound` says where the sleeping workers are and that no
wake-up is lost.  Its main consequence is the lemma every deadlock argument
starts from: when no worker that wants a unit is awake, the value is zero.
-/

namespace Nachos.Library

structure Worker (Cont : Type) where
  cont : Cont
  blocked : Bool

structure Pool (Sem Cont : Type) where
  value : Sem → ℤ
  queue : Sem → List ℕ
  workers : List (Worker Cont)

namespace Pool

variable {Sem Cont : Type} [DecidableEq Sem]
variable {wants : Cont → Option Sem}

/-- What a move does to the values: a unit is taken, a unit is given, or
neither. -/
inductive Signal (Sem : Type)
  | took (sem : Sem)
  | gave (sem : Sem)
  | silent

/-- The worker at a position continues with another continuation. -/
def resume (p : Pool Sem Cont) (t : ℕ) (cont : Cont) :
    List (Worker Cont) :=
  p.workers.set t ⟨cont, false⟩

/-- One move of an awake worker. -/
inductive Move (wants : Cont → Option Sem) (p : Pool Sem Cont) :
    Signal Sem → Pool Sem Cont → Prop
  | take {t : ℕ} {cont next : Cont} {sem : Sem} :
      p.workers[t]? = some ⟨cont, false⟩ →
      wants cont = some sem → p.value sem ≠ 0 →
      Move wants p (.took sem)
        ⟨Function.update p.value sem (p.value sem - 1), p.queue,
          p.resume t next⟩
  | sleep {t : ℕ} {cont : Cont} {sem : Sem} :
      p.workers[t]? = some ⟨cont, false⟩ →
      wants cont = some sem → p.value sem = 0 →
      Move wants p .silent
        ⟨p.value, Function.update p.queue sem (p.queue sem ++ [t]),
          p.workers.set t ⟨cont, true⟩⟩
  | postEmpty {t : ℕ} {cont next : Cont} {sem : Sem} :
      p.workers[t]? = some ⟨cont, false⟩ →
      wants cont = none → p.queue sem = [] →
      Move wants p (.gave sem)
        ⟨Function.update p.value sem (p.value sem + 1), p.queue,
          p.resume t next⟩
  | postWake {t u : ℕ} {cont next sleeper : Cont} {sem : Sem}
      {rest : List ℕ} :
      p.workers[t]? = some ⟨cont, false⟩ →
      wants cont = none → p.queue sem = u :: rest →
      p.workers[u]? = some ⟨sleeper, true⟩ →
      Move wants p (.gave sem)
        ⟨Function.update p.value sem (p.value sem + 1),
          Function.update p.queue sem rest,
          (p.resume t next).set u ⟨sleeper, false⟩⟩
  | other {t : ℕ} {cont next : Cont} (spawned : List Cont) :
      p.workers[t]? = some ⟨cont, false⟩ →
      wants cont = none →
      Move wants p .silent
        ⟨p.value, p.queue,
          p.resume t next ++ spawned.map fun new => ⟨new, false⟩⟩

/-- The number of awake workers about to take a unit of a semaphore. -/
def awake (wants : Cont → Option Sem) (p : Pool Sem Cont) (sem : Sem) : ℕ :=
  p.workers.countP fun worker =>
    !worker.blocked && decide (wants worker.cont = some sem)

structure Sound (wants : Cont → Option Sem) (p : Pool Sem Cont) : Prop where
  nonneg : ∀ sem, 0 ≤ p.value sem
  nodup : ∀ sem, (p.queue sem).Nodup
  queued : ∀ sem t, t ∈ p.queue sem →
    ∃ cont, p.workers[t]? = some ⟨cont, true⟩ ∧ wants cont = some sem
  blocked : ∀ t cont, p.workers[t]? = some ⟨cont, true⟩ →
    ∃ sem, wants cont = some sem ∧ t ∈ p.queue sem
  woken : ∀ sem, p.queue sem ≠ [] →
    p.value sem ≤ (p.awake wants sem : ℤ)

/-- Nobody sleeps yet. -/
theorem Sound.of_all_awake
    {p : Pool Sem Cont}
    (hvalue : ∀ sem, 0 ≤ p.value sem)
    (hqueue : ∀ sem, p.queue sem = [])
    (hawake : ∀ worker ∈ p.workers, worker.blocked = false) :
    p.Sound wants := by
  refine ⟨hvalue, ?_, ?_, ?_, ?_⟩
  · intro sem
    simp [hqueue sem]
  · intro sem t hmem
    simp [hqueue sem] at hmem
  · intro t cont hget
    have hfalse := hawake _ (List.mem_of_getElem? hget)
    simp at hfalse
  · intro sem hnonempty
    exact (hnonempty (hqueue sem)).elim

/-! ## Counting the awake workers after an update -/

/-- The contribution of one worker to `awake`. -/
def weight (wants : Cont → Option Sem) (sem : Sem)
    (worker : Worker Cont) : ℕ :=
  if !worker.blocked && decide (wants worker.cont = some sem) then 1 else 0

theorem countP_set_add
    (wants : Cont → Option Sem) (sem : Sem) (new : Worker Cont)
    {workers : List (Worker Cont)} {t : ℕ} {old : Worker Cont}
    (hget : workers[t]? = some old) :
    ((workers.set t new).countP fun worker =>
        !worker.blocked && decide (wants worker.cont = some sem)) +
      weight wants sem old =
    (workers.countP fun worker =>
        !worker.blocked && decide (wants worker.cont = some sem)) +
      weight wants sem new := by
  obtain ⟨hlt, hold⟩ := List.getElem?_eq_some_iff.mp hget
  have hle : weight wants sem old ≤
      workers.countP fun worker =>
        !worker.blocked && decide (wants worker.cont = some sem) := by
    unfold weight
    split
    next hcounted =>
      exact List.one_le_countP_iff.mpr ⟨old, List.mem_of_getElem? hget, hcounted⟩
    next => exact Nat.zero_le _
  rw [List.countP_set hlt]
  subst hold
  unfold weight at hle ⊢
  omega

@[simp] theorem weight_blocked
    (sem : Sem) (cont : Cont) :
    weight wants sem ⟨cont, true⟩ = 0 := by
  simp [weight]

theorem weight_awake
    (sem : Sem) (cont : Cont) :
    weight wants sem ⟨cont, false⟩ =
      if wants cont = some sem then 1 else 0 := by
  simp [weight]

/-- A worker that is replaced changes the lookups at its own position only. -/
theorem getElem?_set_worker
    {workers : List (Worker Cont)} {t i : ℕ} {old new : Worker Cont}
    (hget : workers[t]? = some old) :
    (workers.set t new)[i]? = if i = t then some new else workers[i]? := by
  obtain ⟨hlt, -⟩ := List.getElem?_eq_some_iff.mp hget
  rw [List.getElem?_set]
  by_cases heq : t = i
  · subst heq
    simp [hlt]
  · have hne : i ≠ t := fun h => heq h.symm
    simp [heq, hne]

/-! ## The invariant is preserved by every move -/

section Preservation

variable {p : Pool Sem Cont} {t : ℕ} {cont next : Cont} {sem : Sem}

/-- A worker asleep is not the awake one that moves. -/
theorem Sound.ne_of_queued
    (hsound : p.Sound wants) {other : Sem} {i : ℕ}
    (hget : p.workers[t]? = some ⟨cont, false⟩)
    (hmem : i ∈ p.queue other) : i ≠ t := by
  rintro rfl
  obtain ⟨_, hblocked, -⟩ := hsound.queued other i hmem
  rw [hget] at hblocked
  simp at hblocked

/-- The clauses on the sleeping workers survive when an awake worker
continues and the queues stay. -/
theorem Sound.queued_resume
    (hsound : p.Sound wants) (next : Cont)
    (hget : p.workers[t]? = some ⟨cont, false⟩)
    {other : Sem} {i : ℕ} (hmem : i ∈ p.queue other) :
    ∃ k, (p.resume t next)[i]? = some ⟨k, true⟩ ∧ wants k = some other := by
  obtain ⟨k, hk, hwants⟩ := hsound.queued other i hmem
  refine ⟨k, ?_, hwants⟩
  rw [resume, getElem?_set_worker hget,
    if_neg (hsound.ne_of_queued hget hmem)]
  exact hk

theorem Sound.blocked_resume
    (hsound : p.Sound wants)
    (hget : p.workers[t]? = some ⟨cont, false⟩)
    {i : ℕ} {k : Cont} (hi : (p.resume t next)[i]? = some ⟨k, true⟩) :
    ∃ other, wants k = some other ∧ i ∈ p.queue other := by
  rw [resume, getElem?_set_worker hget] at hi
  split at hi
  next => simp at hi
  next => exact hsound.blocked i k hi

/-- A worker that leaves something other than a take never lowers the number
of awake workers. -/
theorem awake_resume_le
    (wants : Cont → Option Sem) (next : Cont)
    (hget : p.workers[t]? = some ⟨cont, false⟩) (other : Sem)
    (hother : wants cont ≠ some other) :
    p.awake wants other ≤ (p.resume t next).countP fun worker =>
      !worker.blocked && decide (wants worker.cont = some other) := by
  have hcount := countP_set_add wants other ⟨next, false⟩ hget
  rw [weight_awake, if_neg hother] at hcount
  unfold awake resume
  omega

/-- The other semaphores keep their values. -/
theorem Sound.nonneg_update
    (hsound : p.Sound wants) (sem : Sem) {value : ℤ} (hvalue : 0 ≤ value)
    (other : Sem) : 0 ≤ Function.update p.value sem value other := by
  by_cases heq : other = sem
  · rwa [heq, Function.update_self]
  · rw [Function.update_of_ne heq]
    exact hsound.nonneg other

theorem Sound.take
    (hsound : p.Sound wants)
    (hget : p.workers[t]? = some ⟨cont, false⟩)
    (hwants : wants cont = some sem) (hvalue : p.value sem ≠ 0) :
    Sound wants
      (⟨Function.update p.value sem (p.value sem - 1), p.queue,
        p.resume t next⟩ : Pool Sem Cont) := by
  refine ⟨?_, hsound.nodup, fun _ _ => hsound.queued_resume next hget,
    fun _ _ => hsound.blocked_resume hget, ?_⟩
  · intro other
    have hold := hsound.nonneg sem
    exact hsound.nonneg_update sem (by omega) other
  · intro other hnonempty
    have hold := hsound.woken other hnonempty
    by_cases heq : other = sem
    · subst heq
      have hcount := countP_set_add wants other ⟨next, false⟩ hget
      rw [weight_awake, if_pos hwants] at hcount
      simp only [Function.update_self]
      unfold awake resume at *
      simp only
      omega
    · have hne : wants cont ≠ some other := by
        rw [hwants]
        simpa using fun h => heq h.symm
      have hle := awake_resume_le wants next hget other hne
      simp only [Function.update_of_ne heq]
      exact hold.trans (by exact_mod_cast hle)

theorem Sound.sleep
    (hsound : p.Sound wants)
    (hget : p.workers[t]? = some ⟨cont, false⟩)
    (hwants : wants cont = some sem) (hvalue : p.value sem = 0) :
    Sound wants
      (⟨p.value, Function.update p.queue sem (p.queue sem ++ [t]),
        p.workers.set t ⟨cont, true⟩⟩ : Pool Sem Cont) := by
  have hfresh : ∀ other, t ∉ p.queue other := fun other hmem =>
    hsound.ne_of_queued hget hmem rfl
  have hqueue : ∀ other i,
      i ∈ Function.update p.queue sem (p.queue sem ++ [t]) other ↔
        i ∈ p.queue other ∨ (other = sem ∧ i = t) := by
    intro other i
    by_cases heq : other = sem
    · subst heq
      simp
    · simp [heq]
  refine ⟨hsound.nonneg, ?_, ?_, ?_, ?_⟩
  · intro other
    by_cases heq : other = sem
    · subst heq
      simp only [Function.update_self]
      exact List.nodup_append.mpr ⟨hsound.nodup other, by simp,
        by
          intro a ha b hb
          rw [List.mem_singleton] at hb
          subst hb
          exact fun h => hfresh other (h ▸ ha)⟩
    · simpa [Function.update_of_ne heq] using hsound.nodup other
  · intro other i hmem
    simp only [getElem?_set_worker hget]
    rcases (hqueue other i).mp hmem with hold | ⟨rfl, rfl⟩
    · obtain ⟨k, hk, hwantsK⟩ := hsound.queued other i hold
      exact ⟨k, by simp [hsound.ne_of_queued hget hold, hk], hwantsK⟩
    · exact ⟨cont, by simp, hwants⟩
  · intro i k hi
    simp only [getElem?_set_worker hget] at hi
    split at hi
    next heq =>
      obtain rfl : cont = k := by simpa using hi
      exact ⟨sem, hwants, (hqueue sem i).mpr (.inr ⟨rfl, heq⟩)⟩
    next =>
      obtain ⟨other, hwantsK, hmem⟩ := hsound.blocked i k hi
      exact ⟨other, hwantsK, (hqueue other i).mpr (.inl hmem)⟩
  · intro other hnonempty
    by_cases heq : other = sem
    · subst heq
      simp only [hvalue]
      exact Int.natCast_nonneg _
    · have hcount := countP_set_add wants other ⟨cont, true⟩ hget
      have hne : wants cont ≠ some other := by
        rw [hwants]
        simpa using fun h => heq h.symm
      rw [weight_awake, if_neg hne, weight_blocked] at hcount
      have hold := hsound.woken other
        (by simpa [Function.update_of_ne heq] using hnonempty)
      unfold awake at *
      simp only
      omega

theorem Sound.postEmpty
    (hsound : p.Sound wants)
    (hget : p.workers[t]? = some ⟨cont, false⟩)
    (hwants : wants cont = none) (hempty : p.queue sem = []) :
    Sound wants
      (⟨Function.update p.value sem (p.value sem + 1), p.queue,
        p.resume t next⟩ : Pool Sem Cont) := by
  refine ⟨?_, hsound.nodup, fun _ _ => hsound.queued_resume next hget,
    fun _ _ => hsound.blocked_resume hget, ?_⟩
  · intro other
    have hold := hsound.nonneg sem
    exact hsound.nonneg_update sem (by omega) other
  · intro other hnonempty
    have hne : other ≠ sem := by
      rintro rfl
      exact hnonempty hempty
    have hle := awake_resume_le wants next hget other (by simp [hwants])
    simp only [Function.update_of_ne hne]
    exact (hsound.woken other hnonempty).trans (by exact_mod_cast hle)

theorem Sound.other
    (hsound : p.Sound wants)
    (hget : p.workers[t]? = some ⟨cont, false⟩)
    (hwants : wants cont = none) (spawned : List Cont) :
    Sound wants
      (⟨p.value, p.queue,
        p.resume t next ++ spawned.map fun new => ⟨new, false⟩⟩ :
        Pool Sem Cont) := by
  refine ⟨hsound.nonneg, hsound.nodup, ?_, ?_, ?_⟩
  · intro other i hmem
    obtain ⟨k, hk, hwantsK⟩ := hsound.queued_resume next hget hmem
    refine ⟨k, ?_, hwantsK⟩
    obtain ⟨hlt, -⟩ := List.getElem?_eq_some_iff.mp hk
    rw [List.getElem?_append_left hlt]
    exact hk
  · intro i k hi
    by_cases hlt : i < (p.resume t next).length
    · rw [List.getElem?_append_left hlt] at hi
      exact hsound.blocked_resume hget hi
    · rw [List.getElem?_append_right (by omega)] at hi
      simp at hi
  · intro other hnonempty
    have hle := awake_resume_le wants next hget other (by simp [hwants])
    unfold awake at *
    simp only [List.countP_append]
    have hold := hsound.woken other hnonempty
    unfold awake at hold
    omega

theorem Sound.postWake
    (hsound : p.Sound wants) {u : ℕ} {sleeper : Cont} {rest : List ℕ}
    (hget : p.workers[t]? = some ⟨cont, false⟩)
    (hwants : wants cont = none) (hqueue : p.queue sem = u :: rest)
    (hsleeper : p.workers[u]? = some ⟨sleeper, true⟩) :
    Sound wants
      (⟨Function.update p.value sem (p.value sem + 1),
        Function.update p.queue sem rest,
        (p.resume t next).set u ⟨sleeper, false⟩⟩ : Pool Sem Cont) := by
  have hhead : u ∈ p.queue sem := by simp [hqueue]
  have hne : u ≠ t := hsound.ne_of_queued hget hhead
  have hsleeperWants : wants sleeper = some sem := by
    obtain ⟨k, hk, hwantsK⟩ := hsound.queued sem u hhead
    rw [hsleeper] at hk
    obtain rfl : sleeper = k := by simpa using hk
    exact hwantsK
  have hresumed : (p.resume t next)[u]? = some ⟨sleeper, true⟩ := by
    rw [resume, getElem?_set_worker hget, if_neg hne, hsleeper]
  have hnodup := hsound.nodup sem
  rw [hqueue, List.nodup_cons] at hnodup
  -- what is left in a queue was there before and is not the woken worker
  have hleft : ∀ other i, i ∈ Function.update p.queue sem rest other →
      i ∈ p.queue other ∧ i ≠ u := by
    intro other i hmem
    by_cases heq : other = sem
    · subst heq
      rw [Function.update_self] at hmem
      exact ⟨by simp [hqueue, hmem], fun h => hnodup.1 (h ▸ hmem)⟩
    · rw [Function.update_of_ne heq] at hmem
      refine ⟨hmem, ?_⟩
      rintro rfl
      obtain ⟨k, hk, hwantsK⟩ := hsound.queued other i hmem
      rw [hsleeper] at hk
      obtain rfl : sleeper = k := by simpa using hk
      rw [hsleeperWants] at hwantsK
      exact heq (by simpa using hwantsK.symm)
  refine ⟨?_, ?_, ?_, ?_, ?_⟩
  · intro other
    have hold := hsound.nonneg sem
    exact hsound.nonneg_update sem (by omega) other
  · intro other
    by_cases heq : other = sem
    · subst heq
      simpa using hnodup.2
    · simpa [Function.update_of_ne heq] using hsound.nodup other
  · intro other i hmem
    obtain ⟨hold, hneU⟩ := hleft other i hmem
    obtain ⟨k, hk, hwantsK⟩ := hsound.queued_resume next hget hold
    exact ⟨k, by simp [getElem?_set_worker hresumed, hneU, hk], hwantsK⟩
  · intro i k hi
    simp only [getElem?_set_worker hresumed] at hi
    split at hi
    next => simp at hi
    next hneU =>
      obtain ⟨other, hwantsK, hmem⟩ := hsound.blocked_resume hget hi
      refine ⟨other, hwantsK, ?_⟩
      by_cases heq : other = sem
      · subst heq
        rw [hqueue, List.mem_cons] at hmem
        simpa using hmem.resolve_left hneU
      · simpa [Function.update_of_ne heq] using hmem
  · intro other hnonempty
    have hle := awake_resume_le wants next hget other (by simp [hwants])
    have hcount := countP_set_add wants other ⟨sleeper, false⟩ hresumed
    rw [weight_blocked, weight_awake] at hcount
    have hold : p.value other ≤ (p.awake wants other : ℤ) := by
      apply hsound.woken other
      by_cases heq : other = sem
      · subst heq
        simp [hqueue]
      · simpa [Function.update_of_ne heq] using hnonempty
    by_cases heq : other = sem
    · subst heq
      rw [if_pos hsleeperWants] at hcount
      simp only [Function.update_self]
      unfold awake at *
      simp only
      omega
    · have hneWants : wants sleeper ≠ some other := by
        rw [hsleeperWants]
        simpa using fun h => heq h.symm
      rw [if_neg hneWants] at hcount
      simp only [Function.update_of_ne heq]
      unfold awake at *
      simp only
      omega

end Preservation

theorem Sound.move
    {p p' : Pool Sem Cont} {signal : Signal Sem}
    (hsound : p.Sound wants) (hmove : Move wants p signal p') :
    p'.Sound wants := by
  cases hmove with
  | take hget hwants hvalue => exact hsound.take hget hwants hvalue
  | sleep hget hwants hvalue => exact hsound.sleep hget hwants hvalue
  | postEmpty hget hwants hempty =>
      exact hsound.postEmpty hget hwants hempty
  | postWake hget hwants hqueue hsleeper =>
      exact hsound.postWake hget hwants hqueue hsleeper
  | other spawned hget hwants => exact hsound.other hget hwants spawned

/-! ## Consequences -/

/-- The value changes by the units given and taken, and by nothing else. -/
theorem Move.value_eq
    {p p' : Pool Sem Cont} {signal : Signal Sem}
    (hmove : Move wants p signal p') (sem : Sem) :
    p'.value sem =
      p.value sem +
        match signal with
        | .took moved => if moved = sem then -1 else 0
        | .gave moved => if moved = sem then 1 else 0
        | .silent => 0 := by
  cases hmove <;> simp only [Function.update_apply] <;> grind

/-- No unit lies idle while only sleepers want it: when every worker that
wants a unit of `sem` sleeps and one does, the value is zero. -/
theorem Sound.value_eq_zero
    {p : Pool Sem Cont} (hsound : p.Sound wants)
    {sem : Sem} {t : ℕ} {cont : Cont}
    (hget : p.workers[t]? = some ⟨cont, true⟩)
    (hwants : wants cont = some sem)
    (hasleep : ∀ worker ∈ p.workers,
      wants worker.cont = some sem → worker.blocked = true) :
    p.value sem = 0 := by
  obtain ⟨other, hother, hmem⟩ := hsound.blocked t cont hget
  obtain rfl : sem = other := by simpa [hwants] using hother
  have hnone : p.awake wants sem = 0 := by
    refine List.countP_eq_zero.mpr ?_
    intro worker hworker hcounted
    simp only [Bool.and_eq_true, Bool.not_eq_true', decide_eq_true_eq] at hcounted
    simp [hasleep worker hworker hcounted.2] at hcounted
  have hwoken := hsound.woken sem (List.ne_nil_of_mem hmem)
  rw [hnone] at hwoken
  exact le_antisymm (by exact_mod_cast hwoken) (hsound.nonneg sem)

end Pool

end Nachos.Library
