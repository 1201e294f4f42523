import Nachos.Monitors

/-!
# What a monitor does for its threads

No wake-up is lost, and none comes from nowhere: those who wait are signalled
in the order in which they have called `Wait`, each once, and a thread that has
been signalled is stopped by nothing but the lock.  The lock is never free
while all who want it sleep.
-/

namespace Nachos.Scheduling

open Library

namespace Condition

/-! ## Semaphores that have been given -/

/-- A thread has its semaphore to itself.  It has been given when the
semaphore is neither in the queue nor in the hand of another thread; the list
is of those that have been given, and whose threads have not got the lock
since. -/
structure Posts (c : Condition) (role : ThreadId → Role)
    (list : List WaiterId) : Prop where
  entering : ∀ {t w}, role t = .entering w → w ∈ c.waitQueue
  acquiring : ∀ {t w}, role t = .acquiring w → w ∈ list
  alone : ∀ {t w sem}, role t = .entering w ∨ role t = .sleeping w →
    c.waiters w = some sem → sem.queue = [] ∨ sem.queue = [t]
  given : ∀ {t w sem}, role t = .entering w ∨ role t = .sleeping w →
    c.waiters w = some sem → sem.value ≠ 0 → sem.queue = [] ∧ w ∈ list
  awaited : ∀ {t w sem}, role t = .entering w ∨ role t = .sleeping w →
    c.waiters w = some sem → sem.value = 0 →
      w ∈ c.waitQueue ∨ ∃ u, role u = .waking w

/-- The semaphores in the hands of threads: there is one at most. -/
inductive Hand (role : ThreadId → Role) : List WaiterId → Prop
  | empty : (∀ t w, role t ≠ .waking w) → Hand role []
  | holds {t : ThreadId} {w : WaiterId} : role t = .waking w →
      (∀ u v, role u = .waking v → u = t) → Hand role [w]

variable {c : Condition} {role : ThreadId → Role} {list : List WaiterId}
variable {t : ThreadId} {w : WaiterId} {sem : Semaphore}

/-- A thread that waits has made the semaphore it waits for. -/
theorem Role.waiter_of_waits {r : Role}
    (hwaits : r = .entering w ∨ r = .sleeping w) : r.waiter = some w := by
  rcases hwaits with hwaits | hwaits <;> rw [hwaits] <;> rfl

theorem Tracks.only_waiter (htracks : c.Tracks role list)
    (hwaiter : (role t).waiter = some w) {u : ThreadId}
    (hwaits : role u = .entering w ∨ role u = .sleeping w) : u = t :=
  htracks.owner (Role.waiter_of_waits hwaits) hwaiter

theorem posts_new : new.Posts (fun _ => .none) [] := by
  constructor <;> simp

theorem Posts.waits (h : c.Posts role list) (htracks : c.Tracks role list)
    (hrole : role t = .none) (hnone : c.waiters w = none) :
    Posts { c.setWaiter w (some ⟨0, []⟩) with waitQueue := c.waitQueue ++ [w] }
      (Function.update role t (.entering w)) list := by
  have hother : ∀ {u v}, role u = .entering v ∨ role u = .sleeping v →
      v ≠ w := by
    rintro u v hwaits rfl
    obtain ⟨sem, hsem⟩ := htracks.live (Role.waiter_of_waits hwaits)
    rw [hnone] at hsem
    cases hsem
  obtain ⟨hentering, hacquiring, halone, hgiven, hawaited⟩ := h
  constructor
  · intro u v
    simp only [role_update]
    grind
  · intro u v
    simp only [role_update]
    grind
  · intro u v sem
    simp only [waiters_setWaiter, role_update]
    grind
  · intro u v sem
    simp only [waiters_setWaiter, role_update]
    grind
  · intro u v sem
    simp only [waiters_setWaiter, role_update]
    grind

theorem Posts.sleeps (h : c.Posts role list) (hrole : role t = .entering w) :
    c.Posts (Function.update role t (.sleeping w)) list := by
  obtain ⟨hentering, hacquiring, halone, hgiven, hawaited⟩ := h
  constructor
  · intro u v
    simp only [role_update]
    grind
  · intro u v
    simp only [role_update]
    grind
  · intro u v sem
    simp only [role_update]
    grind
  · intro u v sem
    simp only [role_update]
    grind
  · intro u v sem
    simp only [role_update]
    grind

theorem Posts.signals (h : c.Posts role list) (hrole : role t = .none)
    {rest : List WaiterId} (hqueue : c.waitQueue = w :: rest)
    (hnot : ∀ u, role u ≠ .entering w) :
    Posts { c with waitQueue := rest } (Function.update role t (.waking w))
      list := by
  obtain ⟨hentering, hacquiring, halone, hgiven, hawaited⟩ := h
  rw [hqueue] at hentering hawaited
  constructor
  · intro u v
    simp only [role_update]
    grind
  · intro u v
    simp only [role_update]
    grind
  · intro u v sem
    simp only [role_update]
    grind
  · intro u v sem
    simp only [role_update]
    grind
  · intro u v sem
    simp only [role_update]
    grind

theorem Posts.wakes (h : c.Posts role list) (htracks : c.Tracks role list)
    (hrole : role t = .waking w)
    (hsole : ∀ u v, role u = .waking v → u = t)
    (hsem : c.waiters w = some sem) :
    (c.setWaiter w (some sem.give)).Posts (Function.update role t .none)
      (list ++ [w]) := by
  have hgive : ∀ {u}, sem.queue = [] ∨ sem.queue = [u] →
      sem.give.queue = [] := by
    rintro u (hempty | hone)
    · rw [Semaphore.give, hempty]
      rfl
    · rw [Semaphore.give, hone]
      rfl
  have hone : sem.give.value = 1 := by
    rw [Semaphore.give, htracks.unsignalled (.inr ⟨t, hrole⟩) hsem]
    rfl
  have hbefore : ∀ {u v}, Function.update role t .none u = .entering v ∨
      Function.update role t .none u = .sleeping v →
      role u = .entering v ∨ role u = .sleeping v := by
    intro u v
    simp only [role_update]
    grind
  obtain ⟨hentering, hacquiring, halone, hgiven, hawaited⟩ := h
  constructor
  · intro u v
    simp only [role_update]
    grind [setWaiter]
  · intro u v
    simp only [role_update]
    grind
  · intro u v sem' hwaits hget
    rw [waiters_setWaiter] at hget
    split at hget
    next heq =>
        cases hget
        rw [heq] at hwaits
        exact .inl (hgive (halone (hbefore hwaits) hsem))
    next => exact halone (hbefore hwaits) hget
  · intro u v sem' hwaits hget hvalue
    rw [waiters_setWaiter] at hget
    split at hget
    next heq =>
        cases hget
        rw [heq] at hwaits ⊢
        exact ⟨hgive (halone (hbefore hwaits) hsem), by simp⟩
    next =>
        obtain ⟨hqueue, hmem⟩ := hgiven (hbefore hwaits) hget hvalue
        exact ⟨hqueue, List.mem_append_left _ hmem⟩
  · intro u v sem' hwaits hget hzero
    rw [waiters_setWaiter] at hget
    split at hget
    next =>
        cases hget
        rw [hone] at hzero
        exact absurd hzero (by decide)
    next hne =>
        rcases hawaited (hbefore hwaits) hget hzero with hmem | ⟨x, hx⟩
        · exact .inl hmem
        · have hself := hsole x v hx
          rw [hself, hrole] at hx
          cases hx
          exact (hne rfl).elim

theorem Posts.blocks (h : c.Posts role list) (htracks : c.Tracks role list)
    (hrole : role t = .sleeping w) (hsem : c.waiters w = some sem)
    (hzero : sem.value = 0) (hawake : t ∉ sem.queue) :
    (c.setWaiter w (some { sem with queue := sem.queue ++ [t] })).Posts role
      list := by
  have howner : ∀ {u}, role u = .entering w ∨ role u = .sleeping w →
      u = t :=
    htracks.only_waiter (by rw [hrole]; rfl)
  have hempty : sem.queue = [] := by
    rcases h.alone (.inr hrole) hsem with hempty | hone
    · exact hempty
    · rw [hone] at hawake
      simp at hawake
  obtain ⟨hentering, hacquiring, halone, hgiven, hawaited⟩ := h
  refine ⟨hentering, hacquiring, ?_, ?_, ?_⟩
  · intro u v sem'
    simp only [waiters_setWaiter]
    grind
  · intro u v sem'
    simp only [waiters_setWaiter]
    grind
  · intro u v sem'
    simp only [waiters_setWaiter]
    grind [setWaiter]

theorem Posts.passes (h : c.Posts role list) (htracks : c.Tracks role list)
    (hrole : role t = .sleeping w) (hsem : c.waiters w = some sem)
    (hvalue : sem.value ≠ 0) (sem' : Semaphore) :
    (c.setWaiter w (some sem')).Posts (Function.update role t (.acquiring w))
      list := by
  have hmem := (h.given (.inr hrole) hsem hvalue).2
  have howner : ∀ {u}, role u = .entering w ∨ role u = .sleeping w →
      u = t :=
    htracks.only_waiter (by rw [hrole]; rfl)
  obtain ⟨hentering, hacquiring, halone, hgiven, hawaited⟩ := h
  constructor
  · intro u v
    simp only [role_update]
    grind [setWaiter]
  · intro u v
    simp only [role_update]
    grind
  · intro u v sem''
    simp only [waiters_setWaiter, role_update]
    grind
  · intro u v sem''
    simp only [waiters_setWaiter, role_update]
    grind
  · intro u v sem''
    simp only [waiters_setWaiter, role_update]
    grind [setWaiter]

theorem Posts.acquires (h : c.Posts role list) (htracks : c.Tracks role list)
    (hrole : role t = .acquiring w) :
    c.Posts (Function.update role t (.acquired w)) (list.erase w) := by
  have hmem := fun v => htracks.signalledNodup.mem_erase_iff (a := v) (b := w)
  have howner : ∀ {u}, role u = .entering w ∨ role u = .sleeping w ∨
      role u = .acquiring w → u = t := by
    rintro u (hwaits | hwaits | hwaits) <;>
      refine @htracks.owner u t w ?_ ?_ <;> simp [hwaits, hrole, Role.waiter]
  obtain ⟨hentering, hacquiring, halone, hgiven, hawaited⟩ := h
  constructor
  · intro u v
    simp only [role_update]
    grind
  · intro u v
    simp only [role_update, hmem]
    grind
  · intro u v sem
    simp only [role_update]
    grind
  · intro u v sem
    simp only [role_update, hmem]
    grind
  · intro u v sem
    simp only [role_update]
    grind

theorem Posts.deletes (h : c.Posts role list) (htracks : c.Tracks role list)
    (hrole : role t = .acquired w) :
    (c.setWaiter w none).Posts (Function.update role t .none) list := by
  have howner : ∀ {u}, role u = .entering w ∨ role u = .sleeping w →
      u = t :=
    htracks.only_waiter (by rw [hrole]; rfl)
  obtain ⟨hentering, hacquiring, halone, hgiven, hawaited⟩ := h
  constructor
  · intro u v
    simp only [role_update]
    grind [setWaiter]
  · intro u v
    simp only [role_update]
    grind
  · intro u v sem
    simp only [waiters_setWaiter, role_update]
    grind
  · intro u v sem
    simp only [waiters_setWaiter, role_update]
    grind
  · intro u v sem
    simp only [waiters_setWaiter, role_update]
    grind [setWaiter]

/-- A thread that has no semaphore in its hand takes none. -/
theorem Hand.other {hand : List WaiterId} {r : Role} (h : Hand role hand)
    (hold : ∀ v, role t ≠ .waking v) (hnew : ∀ v, r ≠ .waking v) :
    Hand (Function.update role t r) hand := by
  cases h with
  | empty hnone =>
      refine .empty fun u v => ?_
      simp only [ne_eq, role_update]
      grind
  | @holds u w hrole hsole =>
      refine .holds (t := u) ?_ fun v x => ?_ <;>
        simp only [role_update] <;> grind

end Condition

namespace Monitor

/-! ## The queue of the lock -/

/-- Those in the queue of the lock are in `Acquire`; when the lock is free and
somebody is in its queue, somebody else is about to try it again. -/
structure Contended (m : Monitor) : Prop where
  acquiring : ∀ t ∈ m.lock.semaphore.queue, ∃ goal, m.point t = .acquiring goal
  nodup : m.lock.semaphore.queue.Nodup
  awake : m.lock.semaphore.value ≠ 0 → m.lock.semaphore.queue ≠ [] →
    ∃ t goal, m.point t = .acquiring goal ∧ t ∉ m.lock.semaphore.queue

variable {m m' : Monitor} {event : Event} {trace : List Event}
variable {t : ThreadId}

theorem contended_start : Contended start where
  acquiring := by simp [start, Lock.new]
  nodup := List.nodup_nil
  awake _ hsome := (hsome rfl).elim

/-- A thread that is not in `Acquire` moves. -/
theorem Contended.elsewhere {m₁ : Monitor} {p q : Point} (h : m.Contended)
    (hlock : m₁.lock.semaphore = m.lock.semaphore)
    (hpoint : m₁.point = m.point) (hp : m.point t = p)
    (hnot : ∀ goal, p ≠ .acquiring goal) : (m₁.setPoint t q).Contended := by
  have hkeeps : ∀ u goal, m.point u = .acquiring goal →
      (m₁.setPoint t q).point u = .acquiring goal := by
    intro u goal hu
    have hne : u ≠ t := by
      rintro rfl
      exact hnot goal (hp.symm.trans hu)
    rw [setPoint_of_ne _ _ hne, hpoint, hu]
  have hsame : (m₁.setPoint t q).lock.semaphore = m.lock.semaphore := hlock
  constructor
  · rw [hsame]
    intro u hu
    obtain ⟨goal, hgoal⟩ := h.acquiring u hu
    exact ⟨goal, hkeeps u goal hgoal⟩
  · rw [hsame]
    exact h.nodup
  · rw [hsame]
    intro hvalue hsome
    obtain ⟨u, goal, hu, hawake⟩ := h.awake hvalue hsome
    exact ⟨u, goal, hkeeps u goal hu, hawake⟩

theorem Contended.gives {p : Point} (h : m.Contended)
    (hp : ∀ goal, m.point t ≠ .acquiring goal) :
    ({ m with lock := m.lock.give }.setPoint t p).Contended := by
  have hkeeps : ∀ u ∈ m.lock.semaphore.queue, ∃ goal,
      ({ m with lock := m.lock.give }.setPoint t p).point u =
        .acquiring goal := by
    intro u hu
    obtain ⟨goal, hgoal⟩ := h.acquiring u hu
    have hne : u ≠ t := by
      rintro rfl
      exact hp goal hgoal
    exact ⟨goal, (setPoint_of_ne _ _ hne).trans hgoal⟩
  constructor
  · intro u hu
    exact hkeeps u (List.mem_of_mem_tail hu)
  · exact h.nodup.tail
  · intro _ hsome
    show ∃ u goal, _ ∧ u ∉ m.lock.semaphore.queue.tail
    have hnodup := h.nodup
    cases hqueue : m.lock.semaphore.queue with
    | nil =>
        refine (hsome ?_).elim
        show m.lock.semaphore.queue.tail = []
        rw [hqueue]
        rfl
    | cons u rest =>
        rw [hqueue] at hnodup hkeeps
        obtain ⟨goal, hgoal⟩ := hkeeps u (by simp)
        exact ⟨u, goal, hgoal, (List.nodup_cons.mp hnodup).1⟩

theorem Move.contended (hmove : Move m event m')
    (hguards : m.lock.Guards fun u => (m.point u).stage) (h : m.Contended) :
    m'.Contended := by
  cases hmove with
  | calls hp hcall =>
      refine h.elsewhere rfl rfl hp ?_
      cases hcall <;> simp
  | @blocks t goal hp hvalue hawake =>
      have hlock : (m.lock.test t).1.semaphore =
          { m.lock.semaphore with queue := m.lock.semaphore.queue ++ [t] } := by
        simp [Lock.test, Semaphore.test_of_zero hvalue]
      constructor
      · rw [hlock]
        intro u hu
        rcases List.mem_append.mp hu with hold | hself
        · exact h.acquiring u hold
        · exact ⟨goal, List.mem_singleton.mp hself ▸ hp⟩
      · rw [hlock]
        exact h.nodup.append (List.nodup_singleton t)
          (List.disjoint_singleton.mpr hawake)
      · rw [hlock]
        intro hsome
        exact (hsome hvalue).elim
  | @acquires t goal hp hvalue hawake =>
      have hone := (hguards.value_one hvalue).1
      have hlock : (m.lock.test t).1.semaphore =
          { m.lock.semaphore with value := m.lock.semaphore.value - 1 } := by
        simp [Lock.test, Semaphore.test_of_ne_zero hvalue]
      constructor
      · intro u hu
        change u ∈ (m.lock.test t).1.semaphore.queue at hu
        rw [hlock] at hu
        obtain ⟨other, hother⟩ := h.acquiring u hu
        have hne : u ≠ t := by
          rintro rfl
          exact hawake hu
        exact ⟨other, (setPoint_of_ne _ _ hne).trans hother⟩
      · change (m.lock.test t).1.semaphore.queue.Nodup
        rw [hlock]
        exact h.nodup
      · intro hsome
        change (m.lock.test t).1.semaphore.value ≠ 0 at hsome
        rw [hlock, hone] at hsome
        exact (hsome rfl).elim
  | holds hp => exact h.elsewhere rfl rfl hp (by simp)
  | ends hp => exact h.elsewhere rfl rfl hp (by simp)
  | signals hp => exact h.elsewhere rfl rfl hp (by simp)
  | wakes hp => exact h.elsewhere rfl rfl hp (by simp)
  | waits hp => exact h.elsewhere rfl rfl hp (by simp)
  | sleeps hp => exact ⟨h.acquiring, h.nodup, h.awake⟩
  | passes hp => exact h.elsewhere rfl rfl hp (by simp)
  | deletes hp => exact h.elsewhere rfl rfl hp (by simp)
  | releases hp => exact h.elsewhere rfl rfl hp (by simp)
  | gives hp => exact h.gives (by simp [hp])

/-! ## The semaphores of the condition -/

theorem onTheirWay_append (trace : List Event) (event : Event) :
    onTheirWay (trace ++ [event]) = event.signals (onTheirWay trace) := by
  rw [onTheirWay, List.foldl_append]
  rfl

theorem Move.posts {list : List WaiterId} (hmove : Move m event m')
    (hguards : m.lock.Guards fun u => (m.point u).stage)
    (htracks : m.condition.Tracks (fun u => (m.point u).role) list)
    (h : m.condition.Posts (fun u => (m.point u).role) list) :
    m'.condition.Posts (fun u => (m'.point u).role) (event.signals list) := by
  have hkeep : ∀ {t : ThreadId} {p q : Point} {lock : Lock},
      m.point t = p → q.role = p.role →
      m.condition.Posts
        (fun u => (({ m with lock := lock }.setPoint t q).point u).role)
        list := by
    intro t p q lock hp hsame
    have hsame' := role_same hp hsame
    exact hsame' ▸ h
  have hrole : ∀ {t : ThreadId} {p : Point}, m.point t = p →
      (fun u => (m.point u).role) t = p.role := by
    intro t p hp
    simp only [hp]
  cases hmove with
  | calls hp hcall => exact hkeep hp hcall.role
  | blocks hp => exact h
  | @acquires t goal hp =>
      cases goal with
      | enter => exact hkeep hp rfl
      | wait w =>
          rw [role_setPoint]
          exact h.acquires htracks (hrole hp)
  | @holds t goal hp =>
      refine hkeep hp ?_
      cases goal <;> rfl
  | ends hp => exact hkeep hp rfl
  | @signals t all w rest hp hqueue =>
      rw [role_setPoint]
      refine h.signals (hrole hp) hqueue ?_
      intro u hu
      have hself := only_inside hguards hp (by simp [Point.stage]) (.inl hu)
      rw [hself, hp] at hu
      cases hu
  | @wakes t all w sem hp hsem =>
      rw [role_setPoint, role_signalled]
      refine h.wakes htracks (hrole hp) ?_ hsem
      intro u v hu
      exact only_inside hguards hp (by simp [Point.stage]) (.inr hu)
  | waits hp hnone =>
      rw [role_setPoint]
      exact h.waits htracks (hrole hp) hnone
  | sleeps hp hsem hzero hawake =>
      rw [Semaphore.test_of_zero hzero]
      exact h.blocks htracks (hrole hp) hsem hzero hawake
  | passes hp hsem hvalue =>
      rw [role_setPoint]
      exact h.passes htracks (hrole hp) hsem hvalue _
  | deletes hp =>
      rw [role_setPoint]
      exact h.deletes htracks (hrole hp)
  | @releases t after hp =>
      refine hkeep hp ?_
      cases after <;> rfl
  | @gives t after hp =>
      cases after with
      | leave => exact hkeep hp rfl
      | wait w =>
          rw [role_setPoint]
          exact h.sleeps (hrole hp)

/-! ## The order of the wake-ups -/

/-- Those who have called `Wait` have been signalled in this order, or are on
the way to it, or in the queue. -/
def Ordered (m : Monitor) (woken waited : List WaiterId) : Prop :=
  ∃ hand, Condition.Hand (fun u => (m.point u).role) hand ∧
    woken ++ hand ++ m.condition.waitQueue = waited

theorem ordered_start : start.Ordered [] [] :=
  ⟨[], .empty (by simp [start, Point.role]), rfl⟩

/-- While a thread is inside and wakes nobody, no semaphore is in anybody's
hand. -/
theorem hand_eq_nil (hguards : m.lock.Guards fun u => (m.point u).stage)
    {p : Point} (hp : m.point t = p) (hinside : p.stage ≠ .outside)
    (hnot : ∀ w, p.role ≠ .waking w) {hand : List WaiterId}
    (hhand : Condition.Hand (fun u => (m.point u).role) hand) :
    hand = [] := by
  cases hhand with
  | empty => rfl
  | @holds u w hrole =>
      have hself := only_inside hguards hp hinside (.inr hrole)
      rw [hself, hp] at hrole
      exact (hnot w hrole).elim

theorem Move.ordered {woken waited : List WaiterId} (hmove : Move m event m')
    (hguards : m.lock.Guards fun u => (m.point u).stage)
    (h : m.Ordered woken waited) :
    m'.Ordered (woken ++ wakeUps [event])
      (waited ++ Monitor.waits [event]) := by
  obtain ⟨hand, hhand, horder⟩ := h
  have hother : ∀ {t : ThreadId} {p q : Point}, m.point t = p →
      (∀ v, p.role ≠ .waking v) → (∀ v, q.role ≠ .waking v) →
      Condition.Hand (Function.update (fun u => (m.point u).role) t q.role)
        hand := by
    intro t p q hp hold hnew
    refine hhand.other (fun v => ?_) hnew
    simp only [hp]
    exact hold v
  have hkeep : ∀ {t : ThreadId} {p q : Point} {m₁ : Monitor},
      m.point t = p → (∀ v, p.role ≠ .waking v) → (∀ v, q.role ≠ .waking v) →
      m₁.point = m.point → m₁.condition.waitQueue = m.condition.waitQueue →
      (m₁.setPoint t q).Ordered (woken ++ []) (waited ++ []) := by
    intro t p q m₁ hp hold hnew hpoint hqueue
    refine ⟨hand, ?_, ?_⟩
    · rw [role_setPoint, hpoint]
      exact hother hp hold hnew
    · rw [List.append_nil, List.append_nil, ← horder, ← hqueue]
      rfl
  cases hmove with
  | @calls t p q hp hcall =>
      have hnot : ∀ v, p.role ≠ .waking v := by
        cases hcall <;> simp [Point.role]
      exact hkeep hp hnot (hcall.role ▸ hnot) rfl rfl
  | blocks hp =>
      refine ⟨hand, hhand, ?_⟩
      rw [← horder]
      simp [wakeUps, Monitor.waits]
  | @acquires t goal hp =>
      cases goal <;> exact hkeep hp (by simp [Point.role])
        (by simp [Point.role]) rfl rfl
  | @holds t goal hp =>
      cases goal <;> exact hkeep hp (by simp [Point.role])
        (by simp [Point.role, Goal.next]) rfl rfl
  | ends hp =>
      exact hkeep hp (by simp [Point.role]) (by simp [Point.role]) rfl rfl
  | @signals t all w rest hp hqueue =>
      have hnone := hand_eq_nil hguards hp (by simp [Point.stage])
        (by simp [Point.role]) hhand
      refine ⟨[w], ?_, ?_⟩
      · rw [role_setPoint]
        refine .holds (t := t) (by simp [Point.role]) fun u v hu => ?_
        by_contra hne
        rw [Function.update_of_ne hne] at hu
        exact hne (only_inside hguards hp (by simp [Point.stage]) (.inr hu))
      · rw [hnone, hqueue] at horder
        rw [← horder]
        simp [wakeUps, Monitor.waits, setPoint]
  | @wakes t all w sem hp hsem =>
      have hone : hand = [w] := by
        cases hhand with
        | empty hnone =>
            refine (hnone t w ?_).elim
            simp only [hp]
            rfl
        | @holds u v hrole =>
            have hself := only_inside hguards hp (by simp [Point.stage])
              (.inr hrole)
            rw [hself, hp] at hrole
            cases hrole
            rfl
      refine ⟨[], ?_, ?_⟩
      · rw [role_setPoint, role_signalled]
        refine .empty fun u v => ?_
        by_cases hu : u = t
        · rw [hu, Function.update_self]
          simp
        · rw [Function.update_of_ne hu]
          intro hrole
          exact hu (only_inside hguards hp (by simp [Point.stage])
            (.inr hrole))
      · rw [hone] at horder
        rw [← horder]
        simp [wakeUps, Monitor.waits, setPoint, Condition.setWaiter]
  | @waits t w hp hnone =>
      refine ⟨hand, ?_, ?_⟩
      · rw [role_setPoint]
        exact hother hp (by simp [Point.role]) (by simp [Point.role])
      · rw [← horder]
        simp [wakeUps, Monitor.waits, setPoint]
  | sleeps hp =>
      refine ⟨hand, hhand, ?_⟩
      rw [← horder]
      simp [wakeUps, Monitor.waits, Condition.setWaiter]
  | passes hp =>
      exact hkeep hp (by simp [Point.role]) (by simp [Point.role]) rfl rfl
  | deletes hp =>
      exact hkeep hp (by simp [Point.role]) (by simp [Point.role]) rfl rfl
  | @releases t after hp =>
      cases after <;> exact hkeep hp (by simp [Point.role])
        (by simp [Point.role]) rfl rfl
  | @gives t after hp =>
      cases after <;> exact hkeep hp (by simp [Point.role])
        (by simp [Point.role, After.next]) rfl rfl

/-- What has been signalled has got the lock back, or is on its way. -/
theorem Move.counts {list : List WaiterId} (hmove : Move m event m')
    (h : m.condition.Posts (fun u => (m.point u).role) list) (w : WaiterId)
    {woken returned : ℕ} (hcount : woken = returned + list.count w) :
    woken + (wakeUps [event]).count w =
      returned + (returns [event]).count w + (event.signals list).count w := by
  cases hmove with
  | @acquires t goal hp =>
      cases goal with
      | enter =>
          simpa [wakeUps, returns, Goal.event, Event.signals] using hcount
      | wait v =>
          have hrole : (m.point t).role = .acquiring v := by
            rw [hp]
            rfl
          have hpos := List.count_pos_iff.mpr (h.acquiring hrole)
          by_cases hv : v = w
          · subst hv
            have herase := @List.count_erase_self _ _ _ v list
            simp [wakeUps, returns, Goal.event, Event.signals]
            omega
          · simp [wakeUps, returns, Goal.event, Event.signals, hv,
              List.count_erase_of_ne (Ne.symm hv)]
            exact hcount
  | @wakes t all v sem hp hsem =>
      simp only [wakeUps, returns, Event.signals, List.count_append,
        List.filterMap_cons, List.filterMap_nil, List.count_nil]
      omega
  | _ => simpa [wakeUps, returns, Event.signals] using hcount

/-! ## All steps -/

/-- The invariant of a monitor. -/
structure Sound (trace : List Event) (m : Monitor) : Prop where
  guards : m.lock.Guards fun u => (m.point u).stage
  contended : m.Contended
  tracks : m.condition.Tracks (fun u => (m.point u).role) (onTheirWay trace)
  posts : m.condition.Posts (fun u => (m.point u).role) (onTheirWay trace)
  ordered : m.Ordered (wakeUps trace) (Monitor.waits trace)
  counts : ∀ w, (wakeUps trace).count w =
    (returns trace).count w + (onTheirWay trace).count w

theorem Sound.move (h : Sound trace m) (hmove : Move m event m') :
    Sound (trace ++ [event]) m' where
  guards := hmove.guards h.guards
  contended := hmove.contended h.guards h.contended
  tracks := by
    rw [onTheirWay_append]
    exact hmove.tracks h.guards h.tracks
  posts := by
    rw [onTheirWay_append]
    exact hmove.posts h.guards h.tracks h.posts
  ordered := by
    have hone := hmove.ordered h.guards h.ordered
    simp only [wakeUps, Monitor.waits, List.filterMap_append] at hone ⊢
    exact hone
  counts w := by
    have hone := hmove.counts h.posts w (h.counts w)
    rw [onTheirWay_append]
    simp only [wakeUps, returns, List.filterMap_append, List.count_append]
      at hone ⊢
    exact hone

theorem sound_start : Sound [] start where
  guards := Lock.guards_new
  contended := contended_start
  tracks := Condition.tracks_new
  posts := Condition.posts_new
  ordered := ordered_start
  counts _ := rfl

/-- The thread is in the queue of a semaphore. -/
def Asleep (m : Monitor) (t : ThreadId) : Prop :=
  (∃ goal, m.point t = .acquiring goal ∧ t ∈ m.lock.semaphore.queue) ∨
    ∃ w sem, m.point t = .sleeping w ∧ m.condition.waiters w = some sem ∧
      t ∈ sem.queue

/-- What a thread does next: nothing, if it is in no call or asleep; or it
takes a step. -/
theorem go_moves (h : Sound trace m) (t : ThreadId) :
    m.go t = .error .disabled ∧
        (m.point t = .outside ∨ m.point t = .inside ∨ m.Asleep t) ∨
      ∃ m' event, m.go t = .ok (m', event) ∧ Move m event m' := by
  have hlive : ∀ {w : WaiterId}, (m.point t).role.waiter = some w →
      ∃ sem, m.condition.waiters w = some sem := h.tracks.live
  have hheld : (m.point t).stage = .holding →
      m.lock.drop t = .ok { m.lock with lockHolder := none } ∧
        m.lock.isHeldBy t = true := by
    intro hholding
    have hholder := h.guards.holder t hholding
    exact ⟨h.guards.drop_ok hholding, by simp [Lock.isHeldBy, hholder]⟩
  cases hp : m.point t with
  | outside => exact .inl ⟨by simp only [go, hp], .inl rfl⟩
  | inside => exact .inl ⟨by simp only [go, hp], .inr (.inl rfl)⟩
  | acquiring goal =>
      by_cases hasleep : t ∈ m.lock.semaphore.queue
      · exact .inl ⟨by simp only [go, hp, if_pos hasleep],
          .inr (.inr (.inl ⟨goal, hp, hasleep⟩))⟩
      · by_cases hvalue : m.lock.semaphore.value = 0
        · have htest : (m.lock.test t).2 = false := by
            simp [Lock.test, Semaphore.test_of_zero hvalue]
          refine .inr ⟨_, _, ?_, .blocks hp hvalue hasleep⟩
          simp [go, hp, hasleep, htest]
        · have htest : (m.lock.test t).2 = true := by
            simp [Lock.test, Semaphore.test_of_ne_zero hvalue]
          refine .inr ⟨_, _, ?_, .acquires hp hvalue hasleep⟩
          simp [go, hp, hasleep, htest]
  | acquired goal => exact .inr ⟨_, _, by simp only [go, hp], .holds hp⟩
  | broadcasting =>
      by_cases hempty : m.condition.waitQueue = []
      · exact .inr ⟨_, _, by simp only [go, hp, if_pos hempty],
          .ends hp hempty⟩
      · exact .inr ⟨_, _, by simp only [go, hp, if_neg hempty],
          .calls hp (.goesOn hempty)⟩
  | signalling all =>
      obtain ⟨-, hholds⟩ := hheld (by rw [hp]; rfl)
      cases hqueue : m.condition.waitQueue with
      | nil =>
          refine .inr ⟨_, _, ?_, .calls hp (.finds hqueue)⟩
          simp only [go, hp, signal, assert_of_true hholds, hqueue]
          rfl
      | cons w rest =>
          refine .inr ⟨_, _, ?_, .signals hp hqueue⟩
          simp only [go, hp, signal, assert_of_true hholds, hqueue]
          rfl
  | waking all w =>
      obtain ⟨-, u, hu⟩ := h.tracks.waking
        (show (m.point t).role = .waking w by rw [hp]; rfl)
      obtain ⟨sem, hsem⟩ := h.tracks.live
        (show (m.point u).role.waiter = some w by rw [hu]; rfl)
      exact .inr ⟨_, _, by simp only [go, hp, hsem], .wakes hp hsem⟩
  | sleeping w =>
      obtain ⟨sem, hsem⟩ := hlive (by rw [hp]; rfl)
      by_cases hasleep : t ∈ sem.queue
      · exact .inl ⟨by simp only [go, hp, hsem, if_pos hasleep],
          .inr (.inr (.inr ⟨w, sem, hp, hsem, hasleep⟩))⟩
      · by_cases hvalue : sem.value = 0
        · refine .inr ⟨_, _, ?_, .sleeps hp hsem hvalue hasleep⟩
          simp [go, hp, hsem, hasleep, sleepOn,
            Semaphore.test_of_zero hvalue]
        · refine .inr ⟨_, _, ?_, .passes hp hsem hvalue⟩
          simp [go, hp, hsem, hasleep, sleepOn,
            Semaphore.test_of_ne_zero hvalue]
  | deleting w =>
      obtain ⟨sem, hsem⟩ := hlive (by rw [hp]; rfl)
      exact .inr ⟨_, _, by simp only [go, hp, hsem], .deletes hp⟩
  | releasing after =>
      obtain ⟨hdrop, -⟩ := hheld (by rw [hp]; rfl)
      refine .inr ⟨_, _, ?_, .releases hp⟩
      simp only [go, hp, hdrop]
      rfl
  | released after => exact .inr ⟨_, _, by simp only [go, hp], .gives hp⟩

theorem step_moves (h : Sound trace m) (action : Action) :
    m.step action = .error .disabled ∨
      ∃ m' event, m.step action = .ok (m', event) ∧ Move m event m' := by
  cases action with
  | acquire t =>
      by_cases hp : m.point t = .outside
      · exact .inr ⟨_, _, if_pos hp, .calls hp .acquire⟩
      · exact .inl (if_neg hp)
  | release t =>
      by_cases hp : m.point t = .inside
      · exact .inr ⟨_, _, if_pos hp, .calls hp .release⟩
      · exact .inl (if_neg hp)
  | signal t =>
      by_cases hp : m.point t = .inside
      · exact .inr ⟨_, _, if_pos hp, .calls hp .signal⟩
      · exact .inl (if_neg hp)
  | broadcast t =>
      by_cases hp : m.point t = .inside
      · exact .inr ⟨_, _, if_pos hp, .calls hp .broadcast⟩
      · exact .inl (if_neg hp)
  | go t =>
      rcases go_moves h t with ⟨hdisabled, -⟩ | hmoves
      · exact .inl hdisabled
      · exact .inr hmoves
  | wait t w =>
      by_cases hp : m.point t = .inside ∧ m.condition.waiters w = none
      · obtain ⟨hpoint, hnone⟩ := hp
        have hholder := h.guards.holder t (by simp only [hpoint]; rfl)
        have hholds : m.lock.isHeldBy t = true := by
          simp [Lock.isHeldBy, hholder]
        have hout : w ∉ (m.condition.setWaiter w (some ⟨0, []⟩)).waitQueue :=
          h.tracks.notMem_waitQueue hnone
        have happend : m.condition.append w = .ok
            { m.condition.setWaiter w (some ⟨0, []⟩) with
              waitQueue := m.condition.waitQueue ++ [w] } := by
          rw [Condition.append, assert_of_true hout]
          rfl
        refine .inr ⟨_, _, ?_, .waits hpoint hnone⟩
        simp only [step, hpoint, hnone, and_self, if_true, Monitor.wait,
          assert_of_true hholds, ok_bind, happend]
        rfl
      · exact .inl (if_neg hp)

theorem Sound.step {action : Action} (h : Sound trace m)
    (hstep : m.step action = .ok (m', event)) :
    Sound (trace ++ [event]) m' := by
  rcases step_moves h action with hdisabled | ⟨after, happened, htaken, hmove⟩
  · rw [hdisabled] at hstep
    cases hstep
  · rw [htaken] at hstep
    cases hstep
    exact h.move hmove

theorem run_sound {guard : List Event → Monitor → Action → Prop}
    (hrun : system.Run guard trace m) : Sound trace m := by
  refine hrun.invariant Sound sound_start ?_
  intro trace m m' action event _ hsound _ hstep
  exact hsound.step hstep

/-- When `Broadcast` ends, all who have called `Wait` have been signalled. -/
theorem Sound.broadcasted (h : Sound trace m) (hmove : Move m event m')
    (hevent : event = .broadcasted t) :
    wakeUps trace = Monitor.waits trace := by
  cases hmove with
  | @acquires t goal hp => cases goal <;> cases hevent
  | ends hp hempty =>
      obtain ⟨hand, hhand, horder⟩ := h.ordered
      have hnone := hand_eq_nil h.guards hp (by simp [Point.stage])
        (by simp [Point.role]) hhand
      rwa [hnone, hempty, List.append_nil, List.append_nil] at horder
  | _ => cases hevent

theorem run_broadcasted {guard : List Event → Monitor → Action → Prop}
    {before : List Event} (hrun : system.Run guard trace m)
    (htrace : trace = before ++ [.broadcasted t]) :
    wakeUps trace = Monitor.waits trace := by
  cases hrun with
  | start => simp at htrace
  | @step earlier m₀ _ action event hbefore _ hstep =>
      obtain ⟨-, hlast⟩ := List.append_inj' htrace rfl
      have hevent : event = .broadcasted t := List.singleton_inj.mp hlast
      have hsound := run_sound hbefore
      rcases step_moves hsound action with hdisabled | ⟨_, _, htaken, hmove⟩
      · exact absurd (hdisabled.symm.trans hstep) (by simp)
      · have hsame := htaken.symm.trans hstep
        cases hsame
        have hall := hsound.broadcasted hmove hevent
        rw [hevent]
        simp only [wakeUps, Monitor.waits, List.filterMap_append] at hall ⊢
        simp [hall]

/-! ## Nobody is forgotten -/

/-- The thread sleeps in `Wait`, and nobody has signalled it. -/
def WaitsForSignal (m : Monitor) (t : ThreadId) : Prop :=
  ∃ w, m.point t = .sleeping w ∧
    (w ∈ m.condition.waitQueue ∨ ∃ u, (m.point u).role = .waking w)

/-- A thread that has been signalled gets out of its sleep. -/
theorem Sound.wakes_up (h : Sound trace m) {w : WaiterId}
    (hp : m.point t = .sleeping w) (hsignalled : ¬m.WaitsForSignal t) :
    ∃ m', m.go t = .ok (m', .silent) ∧
      m'.point t = .acquiring (.wait w) := by
  have hrole : (m.point t).role = .sleeping w := by
    rw [hp]
    rfl
  obtain ⟨sem, hsem⟩ := h.tracks.live
    (show (m.point t).role.waiter = some w by rw [hrole]; rfl)
  have hvalue : sem.value ≠ 0 := by
    intro hzero
    exact hsignalled ⟨w, hp, h.posts.awaited (.inr hrole) hsem hzero⟩
  obtain ⟨hempty, -⟩ := h.posts.given (.inr hrole) hsem hvalue
  let passed : Monitor := { m with
    condition := m.condition.setWaiter w (some (sem.test t).1) }
  refine ⟨passed.setPoint t (.acquiring (.wait w)), ?_, setPoint_self _ _ _⟩
  simp [passed, go, hp, hsem, hempty, sleepOn,
    Semaphore.test_of_ne_zero hvalue]

/-- While a thread is in a call, and not waiting for a signal, one can go on,
or is inside and may do what it likes. -/
theorem Sound.goes_on (h : Sound trace m) (hbusy : m.point t ≠ .outside)
    (hnot : ¬m.WaitsForSignal t) :
    ∃ u, m.point u = .inside ∨ ∃ m' event, m.go u = .ok (m', event) := by
  by_cases hfree : m.lock.semaphore.value = 0
  · -- One thread has the lock, and it is not asleep.
    rcases h.guards.unit with ⟨hone, -⟩ | ⟨-, u, hu, -⟩
    · rw [hone] at hfree
      exact absurd hfree (by decide)
    · refine ⟨u, ?_⟩
      rcases go_moves h u with ⟨-, hout | hin | hasleep⟩ |
        ⟨m', event, hok, -⟩
      · exact (hu (by rw [hout]; rfl)).elim
      · exact .inl hin
      · rcases hasleep with ⟨goal, hp, -⟩ | ⟨w, sem, hp, -, -⟩ <;>
          exact (hu (by rw [hp]; rfl)).elim
      · exact .inr ⟨m', event, hok⟩
  · rcases go_moves h t with ⟨-, hout | hin | hasleep⟩ | ⟨m', event, hok, -⟩
    · exact (hbusy hout).elim
    · exact ⟨t, .inl hin⟩
    · rcases hasleep with ⟨goal, hp, hmem⟩ | ⟨w, sem, hp, -, -⟩
      · obtain ⟨u, other, hother, hawake⟩ :=
          h.contended.awake hfree (List.ne_nil_of_mem hmem)
        refine ⟨u, .inr ?_⟩
        rcases go_moves h u with ⟨-, hout | hin | hasleep⟩ |
          ⟨m', event, hok, -⟩
        · rw [hout] at hother
          cases hother
        · rw [hin] at hother
          cases hother
        · rcases hasleep with ⟨goal', -, hmem'⟩ | ⟨w, sem, hp', -, -⟩
          · exact (hawake hmem').elim
          · rw [hp'] at hother
            cases hother
        · exact ⟨m', event, hok⟩
      · obtain ⟨m', hok, -⟩ := h.wakes_up hp hnot
        exact ⟨t, .inr ⟨m', _, hok⟩⟩
    · exact ⟨t, .inr ⟨m', event, hok⟩⟩

/-- A thread is between `Acquire` and `Release`. -/
def Inside (m : Monitor) (t : ThreadId) : Prop :=
  (m.point t).stage ≠ .outside

/-- In every run of any threads that call `Wait`, `Signal`, `Broadcast` and
`Release` while they hold the lock: one at most is inside, and no assertion
fails; they are signalled in the order in which they have called `Wait`, and a
call of `Broadcast` ends when all of them have been; each gets the lock back
as often as it has been signalled, but for those on their way; and one that
has been signalled gets out of its sleep, and is not left behind. -/
theorem monitors_lose_no_wakeUp (hrun : system.Reaches trace m) :
    (∀ t u, m.Inside t → m.Inside u → t = u) ∧
      (∀ action fault, m.step action ≠ .error (.fault fault)) ∧
      (∃ hand : List WaiterId, hand.length ≤ 1 ∧
        wakeUps trace ++ hand ++ m.condition.waitQueue =
          Monitor.waits trace) ∧
      (∀ before t, trace = before ++ [.broadcasted t] →
        wakeUps trace = Monitor.waits trace) ∧
      (∀ w, (wakeUps trace).count w =
        (returns trace).count w + (onTheirWay trace).count w) ∧
      (∀ t w, m.point t = .sleeping w → ¬m.WaitsForSignal t →
        ∃ m', m.go t = .ok (m', .silent) ∧
          m'.point t = .acquiring (.wait w)) ∧
      ∀ t, m.point t ≠ .outside → ¬m.WaitsForSignal t →
        ∃ u, m.point u = .inside ∨ ∃ m' event, m.go u = .ok (m', event) := by
  have hsound := run_sound hrun
  refine ⟨?_, ?_, ?_, ?_, hsound.counts, ?_, ?_⟩
  · intro t u ht hu
    exact hsound.guards.unique ht hu
  · intro action fault hfault
    rcases step_moves hsound action with hdisabled | ⟨m', event, htaken, -⟩
    · rw [hdisabled] at hfault
      cases hfault
    · rw [htaken] at hfault
      cases hfault
  · obtain ⟨hand, hhand, horder⟩ := hsound.ordered
    refine ⟨hand, ?_, horder⟩
    cases hhand <;> simp
  · intro before t htrace
    exact run_broadcasted hrun htrace
  · intro t w hp hnot
    exact hsound.wakes_up hp hnot
  · intro t hbusy hnot
    exact hsound.goes_on hbusy hnot

/-- Two threads wait, a third one wakes them all. -/
def twoWaiters : List Action :=
  [.acquire 1, .go 1, .go 1, .wait 1 5, .go 1, .go 1, .go 1,
    .acquire 2, .go 2, .go 2, .wait 2 6, .go 2, .go 2, .go 2,
    .acquire 3, .go 3, .go 3, .broadcast 3, .go 3, .go 3, .go 3, .go 3, .go 3,
    .go 3, .go 3]

theorem monitors_lose_no_wakeUp_twoWaiters :
    ∃ trace m, system.Reaches trace m ∧ wakeUps trace = [5, 6] ∧
      wakeUps trace = Monitor.waits trace ∧
      ∃ m', m.go 2 = .ok (m', .silent) ∧ m'.point 2 = .acquiring (.wait 6) := by
  have hreplay : system.Replays StepSystem.anyStep twoWaiters
      (fun trace m => wakeUps trace = [5, 6] ∧
        trace.getLast? = some (.broadcasted 3) ∧ m.point 2 = .sleeping 6 ∧
        m.condition.waitQueue = [] ∧ m.point 1 = .sleeping 5 ∧
        m.point 3 = .inside) = true := by
    decide
  obtain ⟨trace, m, hrun, hcheck⟩ := StepSystem.exists_run_of_replays hreplay
  obtain ⟨hwoken, hlast, hp, hempty, hother, hin⟩ := of_decide_eq_true hcheck
  obtain ⟨hexclusive, -, -, hall, -, hwakes, -⟩ :=
    monitors_lose_no_wakeUp hrun
  obtain ⟨before, htrace⟩ := List.getLast?_eq_some_iff.mp hlast
  refine ⟨trace, m, hrun, hwoken, hall before 3 htrace, hwakes 2 6 hp ?_⟩
  rintro ⟨w, -, hmem | ⟨u, hu⟩⟩
  · rw [hempty] at hmem
    cases hmem
  · have hself := hexclusive u 3 (Point.inside_of_role (.inr hu))
      (by unfold Inside; rw [hin]; simp [Point.stage])
    rw [hself, hin] at hu
    cases hu

end Monitor

end Nachos.Scheduling
