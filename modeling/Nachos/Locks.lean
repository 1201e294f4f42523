import Nachos.SemaphoreAccounting

/-!
# Locks: `class Lock` of `threads/synch.cc`

A lock is a semaphore with one unit and a note of its holder.  A thread that
has taken the unit is inside until it gives it back; the note is right while
the thread holds the lock, and it is not yet, or no longer, at the two ends.
-/

namespace Nachos.Scheduling

/-! ## Semaphores by themselves -/

namespace Semaphore

/-- The test of the loop in `Semaphore::P`, with what comes behind it. -/
def test (sem : Semaphore) (t : ThreadId) : Semaphore × Bool :=
  if sem.value = 0 then ({ sem with queue := sem.queue ++ [t] }, false)
  else ({ sem with value := sem.value - 1 }, true)

/-- `Semaphore::V`. -/
def give (sem : Semaphore) : Semaphore :=
  ⟨sem.value + 1, sem.queue.tail⟩

/-- In the kernel a semaphore is tested, given a unit, or left alone. -/
theorem Moved.eq
    {s : SemaphoreId} {sem sem' : Semaphore} {event : Event}
    (hmoved : sem.Moved s event sem') :
    (∃ t, sem' = (sem.test t).1) ∨ sem' = sem.give ∨ sem' = sem := by
  cases hmoved with
  | took hvalue =>
      refine .inl ⟨0, ?_⟩
      rw [test, if_neg hvalue]
  | @waited event t hvalue =>
      refine .inl ⟨t, ?_⟩
      rw [test, if_pos hvalue]
  | gave hqueue =>
      refine .inr (.inl ?_)
      rw [give, hqueue]
      rfl
  | woke hqueue =>
      refine .inr (.inl ?_)
      rw [give, hqueue]
      rfl
  | other => exact .inr (.inr rfl)

theorem test_of_zero {sem : Semaphore} (h : sem.value = 0) (t : ThreadId) :
    sem.test t = ({ sem with queue := sem.queue ++ [t] }, false) :=
  if_pos h

theorem test_of_ne_zero {sem : Semaphore} (h : sem.value ≠ 0) (t : ThreadId) :
    sem.test t = ({ sem with value := sem.value - 1 }, true) :=
  if_neg h

end Semaphore

/-! ## Locks -/

structure Lock where
  semaphore : Semaphore
  lockHolder : Option ThreadId
  deriving DecidableEq

namespace Lock

/-- `Lock::Lock`. -/
def new : Lock :=
  ⟨⟨1, []⟩, none⟩

/-- The call of `P` in `Lock::Acquire`, from one test to the next. -/
def test (lock : Lock) (t : ThreadId) : Lock × Bool :=
  let (semaphore, passes) := lock.semaphore.test t
  ({ lock with semaphore := semaphore }, passes)

/-- The rest of `Lock::Acquire`. -/
def hold (lock : Lock) (t : ThreadId) : Lock :=
  { lock with lockHolder := some t }

/-- `Lock::IsHeldByCurrentThread`. -/
def isHeldBy (lock : Lock) (t : ThreadId) : Bool :=
  lock.lockHolder = some t

/-- `Lock::Release`, up to the call of `V`. -/
def drop (lock : Lock) (t : ThreadId) : Except Fault Lock := do
  assert (lock.isHeldBy t = true)
  return { lock with lockHolder := none }

/-- The call of `V` in `Lock::Release`. -/
def give (lock : Lock) : Lock :=
  { lock with semaphore := lock.semaphore.give }

/-- Where a thread is with respect to a lock: it has got behind `P`, it holds
the lock, or it has still to call `V`. -/
inductive Stage
  | outside
  | entered
  | holding
  | leaving
  deriving DecidableEq

/-- The lock is free, or one thread is inside. -/
structure Guards (lock : Lock) (stage : ThreadId → Stage) : Prop where
  unit : lock.semaphore.value = 1 ∧ (∀ t, stage t = .outside) ∨
    lock.semaphore.value = 0 ∧
      ∃ t, stage t ≠ .outside ∧ ∀ u, stage u ≠ .outside → u = t
  holder : ∀ t, stage t = .holding → lock.lockHolder = some t

variable {lock : Lock} {stage : ThreadId → Stage} {t u : ThreadId}

theorem guards_new : new.Guards fun _ => .outside :=
  ⟨.inl ⟨rfl, fun _ => rfl⟩, nofun⟩

theorem Guards.unique
    (h : lock.Guards stage) (ht : stage t ≠ .outside)
    (hu : stage u ≠ .outside) : t = u := by
  cases h.unit with
  | inl hfree => exact (ht (hfree.2 t)).elim
  | inr hheld =>
      obtain ⟨-, v, -, honly⟩ := hheld
      exact (honly t ht).trans (honly u hu).symm

theorem Guards.outside_of_ne
    (h : lock.Guards stage) (ht : stage t ≠ .outside) (hu : u ≠ t) :
    stage u = .outside := by
  by_contra hinside
  exact hu (h.unique hinside ht)

theorem Guards.value_zero
    (h : lock.Guards stage) (ht : stage t ≠ .outside) :
    lock.semaphore.value = 0 := by
  cases h.unit with
  | inl hfree => exact (ht (hfree.2 t)).elim
  | inr hheld => exact hheld.1

theorem Guards.value_one
    (h : lock.Guards stage) (hvalue : lock.semaphore.value ≠ 0) :
    lock.semaphore.value = 1 ∧ ∀ t, stage t = .outside := by
  cases h.unit with
  | inl hfree => exact hfree
  | inr hheld => exact (hvalue hheld.1).elim

theorem Guards.drop_ok (h : lock.Guards stage) (ht : stage t = .holding) :
    lock.drop t = .ok { lock with lockHolder := none } := by
  have hheld : lock.isHeldBy t = true := by
    simp [isHeldBy, h.holder t ht]
  rw [drop, assert_of_true hheld]
  rfl

/-- The thread goes to sleep, and stays where it is. -/
theorem Guards.sleeps
    (h : lock.Guards stage) (hvalue : lock.semaphore.value = 0) :
    (lock.test t).1.Guards stage := by
  unfold test
  rw [Semaphore.test_of_zero hvalue]
  exact ⟨h.unit, h.holder⟩

theorem Guards.enters
    (h : lock.Guards stage) (hvalue : lock.semaphore.value ≠ 0) :
    (lock.test t).1.Guards (Function.update stage t .entered) := by
  obtain ⟨hone, hout⟩ := h.value_one hvalue
  unfold test
  rw [Semaphore.test_of_ne_zero hvalue]
  constructor
  · refine .inr ⟨?_, t, by simp, ?_⟩
    · simp only [hone]
      decide
    · intro u hu
      by_contra hne
      rw [Function.update_of_ne hne] at hu
      exact hu (hout u)
  · intro u hu
    by_cases hself : u = t
    · subst hself
      simp at hu
    · rw [Function.update_of_ne hself, hout u] at hu
      cases hu

section Points

variable {Point : Type} {point : ThreadId → Point} {place : Point → Stage}
variable {p q : Point}

/-- A thread gets to a point of the same stage. -/
theorem Guards.stays
    (h : lock.Guards fun u => place (point u)) (hp : point t = p)
    (hsame : place q = place p) :
    lock.Guards fun u => place (Function.update point t q u) := by
  have hplaces : (fun u => place (Function.update point t q u)) =
      Function.update (fun u => place (point u)) t (place q) :=
    Function.comp_update place point t q
  rw [hplaces, hsame, ← hp,
    Function.update_eq_self t fun u => place (point u)]
  exact h

theorem inside_of_point
    (hp : point t = p) (hinside : place p ≠ .outside) :
    place (point t) ≠ .outside := by
  rwa [hp]

end Points

/-- A thread that is inside gets from one stage to the next. -/
theorem Guards.moves
    (h : lock.Guards stage) (ht : stage t ≠ .outside) {next : Stage}
    (hnext : next ≠ .outside) {lockHolder : Option ThreadId}
    (hholder : next = .holding → lockHolder = some t) :
    Guards { lock with lockHolder := lockHolder }
      (Function.update stage t next) := by
  constructor
  · refine .inr ⟨h.value_zero ht, t, by simpa using hnext, ?_⟩
    intro u hu
    by_contra hne
    rw [Function.update_of_ne hne] at hu
    exact hu (h.outside_of_ne ht hne)
  · intro u hu
    by_cases hself : u = t
    · subst hself
      rw [Function.update_self] at hu
      exact hholder hu
    · rw [Function.update_of_ne hself, h.outside_of_ne ht hself] at hu
      cases hu

theorem Guards.leaves (h : lock.Guards stage) (ht : stage t ≠ .outside) :
    lock.give.Guards (Function.update stage t .outside) := by
  constructor
  · refine .inl ⟨?_, ?_⟩
    · simp only [give, Semaphore.give, h.value_zero ht]
      decide
    · intro u
      by_cases hself : u = t
      · subst hself
        simp
      · rw [Function.update_of_ne hself]
        exact h.outside_of_ne ht hself
  · intro u hu
    by_cases hself : u = t
    · subst hself
      simp at hu
    · rw [Function.update_of_ne hself, h.outside_of_ne ht hself] at hu
      cases hu

end Lock

end Nachos.Scheduling
