import Nachos.Locks

/-!
# Conditions: `class Condition` of `threads/synch.cc`

A thread that waits makes a semaphore for itself, puts it into the queue of
the condition, and deletes it when it has got the lock again.  What the code
does with these semaphores is said by the part that every thread plays.
-/

namespace Nachos.Scheduling

open Library

/-- The address of a semaphore that `Condition::Wait` has made. -/
abbrev WaiterId := ℕ

structure Condition where
  waitQueue : List WaiterId
  waiters : WaiterId → Option Semaphore

namespace Condition

/-- `Condition::Condition`. -/
def new : Condition :=
  ⟨[], fun _ => none⟩

def setWaiter (c : Condition) (w : WaiterId) (sem : Option Semaphore) :
    Condition :=
  { c with waiters := Function.update c.waiters w sem }

/-- The semaphore of `Condition::Wait`, and its place in the queue. -/
def append (c : Condition) (w : WaiterId) : Except Fault Condition := do
  let c := c.setWaiter w (some ⟨0, []⟩)
  assert (w ∉ c.waitQueue)
  return { c with waitQueue := c.waitQueue ++ [w] }

/-- The part that a thread plays: its semaphore is in the queue and the lock
not yet released; it is in `P` of its semaphore; it is acquiring the lock; it
has got the lock; or it has taken a semaphore from the queue to call `V`. -/
inductive Role
  | none
  | entering (w : WaiterId)
  | sleeping (w : WaiterId)
  | acquiring (w : WaiterId)
  | acquired (w : WaiterId)
  | waking (w : WaiterId)
  deriving DecidableEq

/-- The semaphore that a thread has made. -/
def Role.waiter : Role → Option WaiterId
  | .entering w => some w
  | .sleeping w => some w
  | .acquiring w => some w
  | .acquired w => some w
  | .waking _ => Option.none
  | .none => Option.none

/-- The semaphores of a condition are where the parts of the threads say; the
list is of those whose threads have been signalled, and have not got the lock
since. -/
structure Tracks (c : Condition) (role : ThreadId → Role)
    (list : List WaiterId) : Prop where
  live : ∀ {t w}, (role t).waiter = some w → ∃ sem, c.waiters w = some sem
  owner : ∀ {t u w}, (role t).waiter = some w → (role u).waiter = some w →
    t = u
  queued : ∀ {w}, w ∈ c.waitQueue →
    ∃ t, role t = .entering w ∨ role t = .sleeping w
  waking : ∀ {u w}, role u = .waking w →
    w ∉ c.waitQueue ∧ ∃ t, role t = .sleeping w
  unsignalled : ∀ {w}, (w ∈ c.waitQueue ∨ ∃ u, role u = .waking w) →
    ∀ {sem}, c.waiters w = some sem → sem.value = 0
  signalled : ∀ {w}, w ∈ list →
    w ∉ c.waitQueue ∧ (∀ u, role u ≠ .waking w) ∧
      ∃ t, role t = .sleeping w ∨ role t = .acquiring w
  nodup : c.waitQueue.Nodup
  signalledNodup : list.Nodup

variable {c : Condition} {role : ThreadId → Role} {list : List WaiterId}
variable {t : ThreadId} {w : WaiterId} {sem : Semaphore}

theorem tracks_new : new.Tracks (fun _ => .none) [] := by
  constructor <;> simp [new, Role.waiter]

theorem Tracks.notMem_waitQueue
    (h : c.Tracks role list) (hnone : c.waiters w = none) :
    w ∉ c.waitQueue := by
  intro hmem
  obtain ⟨t, hrole⟩ := h.queued hmem
  have hwaiter : (role t).waiter = some w := by
    cases hrole with
    | inl hentering => rw [hentering, Role.waiter]
    | inr hsleeping => rw [hsleeping, Role.waiter]
  obtain ⟨sem, hsem⟩ := h.live hwaiter
  rw [hnone] at hsem
  cases hsem

theorem waiters_setWaiter (c : Condition) (sem : Option Semaphore) (v : WaiterId) :
    (c.setWaiter w sem).waiters v = if v = w then sem else c.waiters v :=
  Function.update_apply ..

theorem role_update (r x : Role) (u : ThreadId) :
    Function.update role t r u = x ↔ u = t ∧ r = x ∨ u ≠ t ∧ role u = x := by
  by_cases hu : u = t
  · subst hu
    simp
  · simp [hu]

theorem waiter_update (r : Role) (u : ThreadId) :
    (Function.update role t r u).waiter = some w ↔
      u = t ∧ r.waiter = some w ∨ u ≠ t ∧ (role u).waiter = some w := by
  by_cases hu : u = t
  · subst hu
    simp
  · simp [hu]

/-- A part with no semaphore that the thread did not have. -/
theorem waiter_of_update {r : Role}
    (hkeeps : ∀ {v}, r.waiter = some v → (role t).waiter = some v)
    {u : ThreadId} {v : WaiterId}
    (hwaiter : (Function.update role t r u).waiter = some v) :
    (role u).waiter = some v := by
  rcases (waiter_update r u).mp hwaiter with ⟨rfl, hr⟩ | ⟨-, hother⟩
  · exact hkeeps hr
  · exact hother

/-- A semaphore that is set is there, and the others are as before. -/
theorem exists_setWaiter {v : WaiterId}
    (hother : v ≠ w → ∃ before, c.waiters v = some before) :
    ∃ after, (c.setWaiter w (some sem)).waiters v = some after := by
  by_cases hv : v = w
  · rw [hv]
    exact ⟨sem, Function.update_self ..⟩
  · obtain ⟨before, hbefore⟩ := hother hv
    exact ⟨before, (Function.update_of_ne hv _ _).trans hbefore⟩

/-- A thread makes its semaphore. -/
theorem Tracks.waits
    (h : c.Tracks role list) (hrole : role t = .none)
    (hnone : c.waiters w = none) :
    Tracks { c.setWaiter w (some ⟨0, []⟩) with waitQueue := c.waitQueue ++ [w] }
      (Function.update role t (.entering w)) list := by
  have hout := h.notMem_waitQueue hnone
  have hfree : ∀ u, (role u).waiter ≠ some w := by
    intro u hwaiter
    obtain ⟨sem, hsem⟩ := h.live hwaiter
    rw [hnone] at hsem
    cases hsem
  obtain ⟨hlive, howner, hqueued, hwaking, hunsignalled, hsignalled, hnodup,
    hlist⟩ := h
  constructor
  · intro u v hwaiter
    rw [waiter_update] at hwaiter
    apply exists_setWaiter
    intro hv
    have hother : (role u).waiter = some v := by grind [Role.waiter]
    exact hlive hother
  · intro u v x
    simp only [waiter_update]
    grind [Role.waiter]
  · intro v
    simp only [role_update]
    grind
  · intro u v
    simp only [role_update]
    grind [Role.waiter]
  · intro v
    simp only [waiters_setWaiter, role_update]
    grind [Role.waiter]
  · intro v
    simp only [role_update]
    grind [Role.waiter]
  · exact hnodup.append (List.nodup_singleton w)
      (List.disjoint_singleton.mpr hout)
  · exact hlist

/-- A thread has released the lock, and calls `P`. -/
theorem Tracks.sleeps
    (h : c.Tracks role list) (hrole : role t = .entering w) :
    c.Tracks (Function.update role t (.sleeping w)) list := by
  have hkeeps := @waiter_of_update role t (.sleeping w)
    (by simp [hrole, Role.waiter])
  obtain ⟨hlive, howner, hqueued, hwaking, hunsignalled, hsignalled, hnodup,
    hlist⟩ := h
  constructor
  · intro u v hwaiter
    exact hlive (hkeeps hwaiter)
  · intro u v x hu hv
    exact howner (hkeeps hu) (hkeeps hv)
  · intro v
    simp only [role_update]
    grind
  · intro u v
    simp only [role_update]
    grind
  · intro v
    simp only [role_update]
    grind
  · intro v
    simp only [role_update]
    grind
  · exact hnodup
  · exact hlist

/-- A semaphore is taken from the queue. -/
theorem Tracks.signals
    (h : c.Tracks role list) (hrole : role t = .none) {rest : List WaiterId}
    (hqueue : c.waitQueue = w :: rest) (hnot : ∀ u, role u ≠ .entering w) :
    Tracks { c with waitQueue := rest } (Function.update role t (.waking w))
      list := by
  have hkeeps := @waiter_of_update role t (.waking w)
    (by simp [Role.waiter])
  obtain ⟨hlive, howner, hqueued, hwaking, hunsignalled, hsignalled, hnodup,
    hlist⟩ := h
  rw [hqueue] at hqueued hwaking hunsignalled hsignalled hnodup
  rw [List.nodup_cons] at hnodup
  constructor
  · intro u v hwaiter
    exact hlive (hkeeps hwaiter)
  · intro u v x hu hv
    exact howner (hkeeps hu) (hkeeps hv)
  · intro v
    simp only [role_update]
    grind
  · intro u v
    simp only [role_update]
    grind
  · intro v
    simp only [role_update]
    grind
  · intro v
    simp only [role_update]
    grind
  · exact hnodup.2
  · exact hlist

/-- `V` is called on a semaphore that has been taken from the queue. -/
theorem Tracks.wakes
    (h : c.Tracks role list) (hrole : role t = .waking w)
    (hsole : ∀ u, role u = .waking w → u = t) (sem : Semaphore) :
    (c.setWaiter w (some sem)).Tracks (Function.update role t .none)
      (list ++ [w]) := by
  have hnew : w ∉ list := by
    intro hmem
    exact (h.signalled hmem).2.1 t hrole
  have hkeeps := @waiter_of_update role t .none
    (by simp [Role.waiter])
  obtain ⟨hlive, howner, hqueued, hwaking, hunsignalled, hsignalled, hnodup,
    hlist⟩ := h
  constructor
  · intro u v hwaiter
    apply exists_setWaiter
    intro _
    exact hlive (hkeeps hwaiter)
  · intro u v x hu hv
    exact howner (hkeeps hu) (hkeeps hv)
  · intro v
    simp only [role_update]
    grind [setWaiter]
  · intro u v
    simp only [role_update]
    grind [setWaiter]
  · intro v
    simp only [waiters_setWaiter, role_update]
    grind [setWaiter]
  · intro v
    simp only [role_update]
    grind [setWaiter]
  · exact hnodup
  · exact hlist.append (List.nodup_singleton w)
      (List.disjoint_singleton.mpr hnew)

/-- A thread goes to sleep in the queue of its semaphore. -/
theorem Tracks.blocks
    (h : c.Tracks role list) (hzero : sem.value = 0) :
    (c.setWaiter w (some sem)).Tracks role list := by
  obtain ⟨hlive, howner, hqueued, hwaking, hunsignalled, hsignalled, hnodup,
    hlist⟩ := h
  refine ⟨?_, howner, hqueued, hwaking, ?_, hsignalled, hnodup, hlist⟩
  · intro u v hwaiter
    apply exists_setWaiter
    intro hv
    exact hlive hwaiter
  · intro v
    simp only [waiters_setWaiter]
    grind [setWaiter]

/-- A thread gets behind `P` of its semaphore. -/
theorem Tracks.passes
    (h : c.Tracks role list) (hrole : role t = .sleeping w)
    (hsem : c.waiters w = some sem) (hvalue : sem.value ≠ 0)
    (sem' : Semaphore) :
    (c.setWaiter w (some sem')).Tracks (Function.update role t (.acquiring w))
      list := by
  have hkeeps := @waiter_of_update role t (.acquiring w)
    (by simp [hrole, Role.waiter])
  obtain ⟨hlive, howner, hqueued, hwaking, hunsignalled, hsignalled, hnodup,
    hlist⟩ := h
  have hfree : w ∉ c.waitQueue ∧ ∀ u, role u ≠ .waking w := by
    constructor
    · intro hmem
      exact hvalue (hunsignalled (.inl hmem) hsem)
    · intro u hu
      exact hvalue (hunsignalled (.inr ⟨u, hu⟩) hsem)
  constructor
  · intro u v hwaiter
    apply exists_setWaiter
    intro _
    exact hlive (hkeeps hwaiter)
  · intro u v x hu hv
    exact howner (hkeeps hu) (hkeeps hv)
  · intro v
    simp only [role_update]
    grind [setWaiter]
  · intro u v
    simp only [role_update]
    grind [setWaiter]
  · intro v
    simp only [waiters_setWaiter, role_update]
    grind [setWaiter]
  · intro v
    simp only [role_update]
    grind [setWaiter]
  · exact hnodup
  · exact hlist

/-- A thread has got the lock again. -/
theorem Tracks.acquires
    (h : c.Tracks role list) (hrole : role t = .acquiring w) :
    c.Tracks (Function.update role t (.acquired w)) (list.erase w) := by
  have hmem := fun v => h.signalledNodup.mem_erase_iff (a := v) (b := w)
  have hkeeps := @waiter_of_update role t (.acquired w)
    (by simp [hrole, Role.waiter])
  obtain ⟨hlive, howner, hqueued, hwaking, hunsignalled, hsignalled, hnodup,
    hlist⟩ := h
  constructor
  · intro u v hwaiter
    exact hlive (hkeeps hwaiter)
  · intro u v x hu hv
    exact howner (hkeeps hu) (hkeeps hv)
  · intro v
    simp only [role_update]
    grind
  · intro u v
    simp only [role_update]
    grind
  · intro v
    simp only [role_update]
    grind
  · intro v
    simp only [role_update, hmem]
    grind [Role.waiter]
  · exact hnodup
  · exact hlist.erase w

/-- A thread deletes its semaphore. -/
theorem Tracks.deletes
    (h : c.Tracks role list) (hrole : role t = .acquired w) :
    (c.setWaiter w none).Tracks (Function.update role t .none) list := by
  have hkeeps := @waiter_of_update role t .none
    (by simp [Role.waiter])
  obtain ⟨hlive, howner, hqueued, hwaking, hunsignalled, hsignalled, hnodup,
    hlist⟩ := h
  constructor
  · intro u v
    simp only [waiters_setWaiter, waiter_update]
    grind [Role.waiter]
  · intro u v x hu hv
    exact howner (hkeeps hu) (hkeeps hv)
  · intro v
    simp only [role_update]
    grind [setWaiter]
  · intro u v
    simp only [role_update]
    grind [setWaiter]
  · intro v
    simp only [waiters_setWaiter, role_update]
    grind [setWaiter]
  · intro v
    simp only [role_update]
    grind [setWaiter]
  · exact hnodup
  · exact hlist

end Condition

end Nachos.Scheduling
