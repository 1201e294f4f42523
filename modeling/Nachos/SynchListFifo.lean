import Nachos.SynchList

/-!
# A synchronized list is a queue

One thread at a time is inside; the items come out as they have gone in; and
nobody waits for an item that is there, unless as many consumers as there are
items have been signalled and are on their way.
-/

namespace Nachos.Scheduling

open Library

variable {α : Type}

namespace Point

/-- Where a thread is with respect to the lock of the list. -/
def stage : Point α → Lock.Stage
  | .outside => .outside
  | .acquiring _ => .outside
  | .acquired _ => .entered
  | .appending _ => .holding
  | .signalling => .holding
  | .waking _ => .holding
  | .testing => .holding
  | .removing => .holding
  | .returning _ => .outside
  | .waiting => .holding
  | .sleeping _ => .outside
  | .deleting _ => .holding
  | .releasing _ => .holding
  | .released _ => .leaving

/-- What a thread has to do with the semaphores of the condition. -/
def role : Point α → Condition.Role
  | .acquiring (.wait w) => .acquiring w
  | .acquired (.wait w) => .acquired w
  | .waking w => .waking w
  | .sleeping w => .sleeping w
  | .deleting w => .acquired w
  | .releasing (.wait w) => .entering w
  | .released (.wait w) => .entering w
  | _ => .none

/-- Threads that handle the queue of the condition are inside. -/
theorem inside_of_role
    {p : Point α} {w : WaiterId}
    (hrole : p.role = .entering w ∨ p.role = .waking w) :
    p.stage ≠ .outside := by
  cases p with
  | acquiring goal => cases goal <;> simp [role] at hrole
  | outside | returning | sleeping => simp [role] at hrole
  | _ => simp [stage]

/-- What a thread knows of the list. -/
def Fits (list : List α) : Point α → Prop
  | .removing => list ≠ []
  | .waiting => list = []
  | _ => True

/-- The item that a thread has taken, and that has not been returned yet. -/
def inHand : Point α → List α
  | .releasing (.remove item) => [item]
  | .released (.remove item) => [item]
  | .returning item => [item]
  | _ => []

/-- The items that there may be more than consumers on their way: a producer
has put one into the list and has not called `V` yet, or a consumer is going to
take one. -/
def slack : Point α → ℕ
  | .acquired (.wait _) => 1
  | .signalling => 1
  | .waking _ => 1
  | .testing => 1
  | .removing => 1
  | .deleting _ => 1
  | _ => 0

end Point

namespace SynchList

/-! ## The steps -/

/-- What a step does. -/
inductive Move (l : SynchList α) : Event α → SynchList α → Prop
  | calls {t : ThreadId} {goal : Goal α} : l.point t = .outside →
      (∀ w, goal ≠ .wait w) →
      Move l .silent (l.setPoint t (.acquiring goal))
  | blocks {t : ThreadId} {goal : Goal α} : l.point t = .acquiring goal →
      l.lock.semaphore.value = 0 →
      Move l .silent { l with lock := (l.lock.test t).1 }
  | acquires {t : ThreadId} {goal : Goal α} : l.point t = .acquiring goal →
      l.lock.semaphore.value ≠ 0 →
      Move l (Goal.event goal) ({ l with lock := (l.lock.test t).1 }.setPoint t
        (.acquired goal))
  | holds {t : ThreadId} {goal : Goal α} : l.point t = .acquired goal →
      Move l .silent ({ l with lock := l.lock.hold t }.setPoint t
        (Goal.next goal))
  | inserts {t : ThreadId} {item : α} : l.point t = .appending item →
      Move l (.inserted item) ({ l with list := l.list ++ [item] }.setPoint t
        .signalling)
  | finds {t : ThreadId} : l.point t = .signalling →
      l.listEmpty.waitQueue = [] →
      Move l .silent (l.setPoint t (.releasing .append))
  | signals {t : ThreadId} {w : WaiterId} {rest : List WaiterId} :
      l.point t = .signalling → l.listEmpty.waitQueue = w :: rest →
      Move l .silent ({ l with
        listEmpty := { l.listEmpty with waitQueue := rest } }.setPoint t
          (.waking w))
  | wakes {t : ThreadId} {w : WaiterId} {sem : Semaphore} :
      l.point t = .waking w → l.listEmpty.waiters w = some sem →
      Move l (.signalled w) ({ l with
        listEmpty := l.listEmpty.setWaiter w (some sem.give) }.setPoint t
          (.releasing .append))
  | testsEmpty {t : ThreadId} : l.point t = .testing → l.list = [] →
      Move l .silent (l.setPoint t .waiting)
  | testsSome {t : ThreadId} : l.point t = .testing → l.list ≠ [] →
      Move l .silent (l.setPoint t .removing)
  | removes {t : ThreadId} {item : α} {rest : List α} :
      l.point t = .removing → l.list = item :: rest →
      Move l (.removed t item) ({ l with list := rest }.setPoint t
        (.releasing (.remove item)))
  | returns {t : ThreadId} {item : α} : l.point t = .returning item →
      Move l (.returned t item) (l.setPoint t .outside)
  | waits {t : ThreadId} {w : WaiterId} : l.point t = .waiting →
      l.listEmpty.waiters w = none →
      Move l .silent ({ l with listEmpty :=
        { l.listEmpty.setWaiter w (some ⟨0, []⟩) with
          waitQueue := l.listEmpty.waitQueue ++ [w] } }.setPoint t
            (.releasing (.wait w)))
  | sleeps {t : ThreadId} {w : WaiterId} {sem : Semaphore} :
      l.point t = .sleeping w → l.listEmpty.waiters w = some sem →
      sem.value = 0 →
      Move l .silent { l with
        listEmpty := l.listEmpty.setWaiter w (some (sem.test t).1) }
  | passes {t : ThreadId} {w : WaiterId} {sem : Semaphore} :
      l.point t = .sleeping w → l.listEmpty.waiters w = some sem →
      sem.value ≠ 0 →
      Move l .silent ({ l with
        listEmpty := l.listEmpty.setWaiter w (some (sem.test t).1) }.setPoint t
          (.acquiring (.wait w)))
  | deletes {t : ThreadId} {w : WaiterId} : l.point t = .deleting w →
      Move l .silent ({ l with
        listEmpty := l.listEmpty.setWaiter w none }.setPoint t .testing)
  | releases {t : ThreadId} {after : After α} :
      l.point t = .releasing after →
      Move l .silent ({ l with
        lock := { l.lock with lockHolder := none } }.setPoint t
          (.released after))
  | gives {t : ThreadId} {after : After α} : l.point t = .released after →
      Move l .silent ({ l with lock := l.lock.give }.setPoint t
        (After.next after))

variable {l l' : SynchList α} {event : Event α} {trace : List (Event α)}
variable {t : ThreadId}

theorem setPoint_self (l : SynchList α) (t : ThreadId) (p : Point α) :
    (l.setPoint t p).point t = p :=
  Function.update_self ..

theorem setPoint_of_ne
    {u : ThreadId} (l : SynchList α) (p : Point α) (hu : u ≠ t) :
    (l.setPoint t p).point u = l.point u :=
  Function.update_of_ne hu ..

theorem stage_setPoint (l : SynchList α) (t : ThreadId) (p : Point α) :
    (fun u => ((l.setPoint t p).point u).stage) =
      Function.update (fun u => (l.point u).stage) t p.stage :=
  Function.comp_update Point.stage l.point t p

theorem role_setPoint (l : SynchList α) (t : ThreadId) (p : Point α) :
    (fun u => ((l.setPoint t p).point u).role) =
      Function.update (fun u => (l.point u).role) t p.role :=
  Function.comp_update Point.role l.point t p

theorem role_same
    {p q : Point α} (hp : l.point t = p) (hsame : q.role = p.role) :
    (fun u => ((l.setPoint t q).point u).role) =
      fun u => (l.point u).role := by
  rw [role_setPoint, Function.update_eq_self_iff, hp, hsame]

/-! ## The lock -/

theorem Goal.next_stage (goal : Goal α) :
    (Goal.next goal).stage = .holding := by
  cases goal <;> rfl

theorem After.next_stage (after : After α) :
    (After.next after).stage = .outside := by
  cases after <;> rfl

/-- Every step keeps at most one thread inside. -/
theorem Move.guards
    (hmove : Move l event l')
    (h : l.lock.Guards fun u => (l.point u).stage) :
    l'.lock.Guards fun u => (l'.point u).stage := by
  cases hmove with
  | calls hp => exact h.stays hp rfl
  | blocks hp hvalue => exact h.sleeps hvalue
  | acquires hp hvalue =>
      rw [stage_setPoint]
      exact h.enters hvalue
  | @holds t goal hp =>
      rw [stage_setPoint, Goal.next_stage]
      exact h.moves (Lock.inside_of_point hp (by simp [Point.stage])) (by simp)
        fun _ => rfl
  | inserts hp => exact h.stays hp rfl
  | finds hp => exact h.stays hp rfl
  | signals hp => exact h.stays hp rfl
  | wakes hp => exact h.stays hp rfl
  | testsEmpty hp => exact h.stays hp rfl
  | testsSome hp => exact h.stays hp rfl
  | removes hp => exact h.stays hp rfl
  | returns hp => exact h.stays hp rfl
  | waits hp => exact h.stays hp rfl
  | sleeps hp => exact h
  | passes hp => exact h.stays hp rfl
  | deletes hp => exact h.stays hp rfl
  | releases hp =>
      rw [stage_setPoint]
      exact h.moves (Lock.inside_of_point hp (by simp [Point.stage]))
        (by simp [Point.stage]) (by simp [Point.stage])
  | gives hp =>
      rw [stage_setPoint, After.next_stage]
      exact h.leaves (Lock.inside_of_point hp (by simp [Point.stage]))

/-! ## The condition -/

theorem signalled_append (trace : List (Event α)) (event : Event α) :
    signalled (trace ++ [event]) = event.signals (signalled trace) := by
  rw [signalled, List.foldl_append]
  rfl

/-- Every step keeps the semaphores of the condition where the threads say. -/
theorem Move.tracks
    {list : List WaiterId} (hmove : Move l event l')
    (hguards : l.lock.Guards fun u => (l.point u).stage)
    (h : l.listEmpty.Tracks (fun u => (l.point u).role) list) :
    l'.listEmpty.Tracks (fun u => (l'.point u).role) (event.signals list) := by
  have hkeep : ∀ {t : ThreadId} {p q : Point α} {items : List α}
      {lock : Lock}, l.point t = p → q.role = p.role →
      l.listEmpty.Tracks (fun u => (({ l with
        list := items, lock := lock }.setPoint t q).point u).role) list := by
    intro t p q items lock hp hsame
    have hsame' := role_same hp hsame
    exact hsame' ▸ h
  have hrole : ∀ {t : ThreadId} {p : Point α}, l.point t = p →
      (fun u => (l.point u).role) t = p.role := by
    intro t p hp
    simp only [hp]
  have honly : ∀ {t u : ThreadId} {p : Point α} {w : WaiterId},
      l.point t = p → p.stage ≠ .outside →
      (l.point u).role = .entering w ∨ (l.point u).role = .waking w →
      u = t := by
    intro t u p w hp hinside hu
    refine hguards.unique (Point.inside_of_role hu) ?_
    simp only [hp]
    exact hinside
  cases hmove with
  | @calls t goal hp hgoal =>
      refine hkeep hp ?_
      cases goal with
      | append item => rfl
      | remove => rfl
      | wait w => exact (hgoal w rfl).elim
  | blocks hp => exact h
  | @acquires t goal hp =>
      cases goal with
      | append item => exact hkeep hp rfl
      | remove => exact hkeep hp rfl
      | wait w =>
          rw [role_setPoint]
          exact h.acquires (hrole hp)
  | @holds t goal hp =>
      refine hkeep hp ?_
      cases goal <;> rfl
  | inserts hp => exact hkeep hp rfl
  | finds hp => exact hkeep hp rfl
  | @signals t w rest hp hqueue =>
      rw [role_setPoint]
      refine h.signals (hrole hp) hqueue ?_
      intro u hu
      have hself := honly hp (by simp [Point.stage]) (.inl hu)
      rw [hself, hp] at hu
      cases hu
  | @wakes t w sem hp hsem =>
      rw [role_setPoint]
      refine h.wakes (hrole hp) ?_ _
      intro u hu
      exact honly hp (by simp [Point.stage]) (.inr hu)
  | testsEmpty hp => exact hkeep hp rfl
  | testsSome hp => exact hkeep hp rfl
  | removes hp => exact hkeep hp rfl
  | returns hp => exact hkeep hp rfl
  | waits hp hnone =>
      rw [role_setPoint]
      exact h.waits (hrole hp) hnone
  | sleeps hp hsem hzero =>
      refine h.blocks ?_
      rw [Semaphore.test_of_zero hzero]
      exact hzero
  | passes hp hsem hvalue =>
      rw [role_setPoint]
      exact h.passes (hrole hp) hsem hvalue _
  | deletes hp =>
      rw [role_setPoint]
      exact h.deletes (hrole hp)
  | @releases t after hp =>
      refine hkeep hp ?_
      cases after <;> rfl
  | @gives t after hp =>
      cases after with
      | append => exact hkeep hp rfl
      | remove item => exact hkeep hp rfl
      | wait w =>
          rw [role_setPoint]
          exact h.sleeps (hrole hp)

/-! ## The list -/

/-- A thread that is not inside knows nothing of the list. -/
theorem fits_of_outside
    {p : Point α} (hout : p.stage = .outside) (list : List α) : p.Fits list := by
  cases p with
  | removing => cases hout
  | waiting => cases hout
  | _ => trivial

/-- The others know nothing when a thread inside has changed the list. -/
theorem fits_inside
    {l₁ : SynchList α} {p : Point α}
    (hguards : l.lock.Guards fun u => (l.point u).stage)
    (hinside : (l.point t).stage ≠ .outside) (hpoint : l₁.point = l.point)
    (hfits : p.Fits l₁.list) :
    ∀ u, ((l₁.setPoint t p).point u).Fits l₁.list := by
  intro u
  by_cases hu : u = t
  · subst hu
    rw [setPoint_self]
    exact hfits
  · rw [setPoint_of_ne _ _ hu, hpoint]
    exact fits_of_outside (hguards.outside_of_ne hinside hu) l₁.list

/-- The others know what they knew. -/
theorem fits_same
    {l₁ : SynchList α} {p : Point α} (h : ∀ u, (l.point u).Fits l.list)
    (hlist : l₁.list = l.list) (hpoint : l₁.point = l.point)
    (hfits : p.Fits l₁.list) :
    ∀ u, ((l₁.setPoint t p).point u).Fits l₁.list := by
  intro u
  by_cases hu : u = t
  · subst hu
    rw [setPoint_self]
    exact hfits
  · rw [setPoint_of_ne _ _ hu, hpoint, hlist]
    exact h u

theorem Move.fits
    (hmove : Move l event l')
    (hguards : l.lock.Guards fun u => (l.point u).stage)
    (h : ∀ u, (l.point u).Fits l.list) : ∀ u, (l'.point u).Fits l'.list := by
  cases hmove with
  | calls hp => exact fits_same h rfl rfl trivial
  | blocks hp => exact h
  | acquires hp => exact fits_same h rfl rfl trivial
  | @holds t goal hp =>
      refine fits_same h rfl rfl ?_
      cases goal <;> trivial
  | inserts hp =>
      exact fits_inside hguards (by simp [hp, Point.stage]) rfl trivial
  | finds hp => exact fits_same h rfl rfl trivial
  | signals hp => exact fits_same h rfl rfl trivial
  | wakes hp => exact fits_same h rfl rfl trivial
  | testsEmpty hp hempty => exact fits_same h rfl rfl hempty
  | testsSome hp hsome => exact fits_same h rfl rfl hsome
  | removes hp =>
      exact fits_inside hguards (by simp [hp, Point.stage]) rfl trivial
  | returns hp => exact fits_same h rfl rfl trivial
  | waits hp => exact fits_same h rfl rfl trivial
  | sleeps hp => exact h
  | passes hp => exact fits_same h rfl rfl trivial
  | deletes hp => exact fits_same h rfl rfl trivial
  | releases hp => exact fits_same h rfl rfl trivial
  | @gives t after hp =>
      refine fits_same h rfl rfl ?_
      cases after <;> trivial

/-- While a consumer waits, there are at most as many items as consumers have
been signalled, and as the thread that is inside accounts for. -/
structure Served (l : SynchList α) (list : List WaiterId) : Prop where
  inside : ∀ t, (l.point t).stage ≠ .outside → l.listEmpty.waitQueue ≠ [] →
    l.list.length ≤ list.length + (l.point t).slack
  free : (∀ t, (l.point t).stage = .outside) → l.listEmpty.waitQueue ≠ [] →
    l.list.length ≤ list.length

/-- A thread that is not inside goes on outside. -/
theorem Served.outside
    {l₁ : SynchList α} {p : Point α} {list : List WaiterId}
    (h : l.Served list) (hlist : l₁.list = l.list)
    (hqueue : l₁.listEmpty.waitQueue = l.listEmpty.waitQueue)
    (hpoint : l₁.point = l.point) (ht : (l.point t).stage = .outside)
    (hp : p.stage = .outside) : (l₁.setPoint t p).Served list := by
  have hother : ∀ u, u ≠ t → (l₁.setPoint t p).point u = l.point u := by
    intro u hu
    rw [setPoint_of_ne _ _ hu, hpoint]
  constructor
  · intro u hu hsome
    have hne : u ≠ t := by
      rintro rfl
      rw [setPoint_self] at hu
      exact hu hp
    rw [hother u hne] at hu ⊢
    show l₁.list.length ≤ _
    rw [hlist]
    exact h.inside u hu (hqueue ▸ hsome)
  · intro hall hsome
    show l₁.list.length ≤ _
    rw [hlist]
    refine h.free ?_ (hqueue ▸ hsome)
    intro u
    by_cases hu : u = t
    · rw [hu]
      exact ht
    · rw [← hother u hu]
      exact hall u

/-- The others are not inside. -/
theorem served_alone
    {l₁ : SynchList α} {p : Point α} {list : List WaiterId}
    (hothers : ∀ u, u ≠ t → (l₁.point u).stage = .outside)
    (hle : l₁.listEmpty.waitQueue ≠ [] → l₁.list.length ≤ list.length +
      (if p.stage = .outside then 0 else p.slack)) :
    (l₁.setPoint t p).Served list := by
  have hother : ∀ u, u ≠ t → ((l₁.setPoint t p).point u).stage = .outside := by
    intro u hu
    rw [setPoint_of_ne _ _ hu]
    exact hothers u hu
  constructor
  · intro u hu hsome
    have ht : u = t := by
      by_contra hne
      exact hu (hother u hne)
    subst ht
    rw [setPoint_self] at hu ⊢
    rw [if_neg hu] at hle
    exact hle hsome
  · intro hall hsome
    have hp : p.stage = .outside := by
      have hself := hall t
      rw [setPoint_self] at hself
      exact hself
    rw [if_pos hp] at hle
    exact hle hsome

theorem Move.served
    {list : List WaiterId} (hmove : Move l event l')
    (hguards : l.lock.Guards fun u => (l.point u).stage)
    (hfits : ∀ u, (l.point u).Fits l.list) (h : l.Served list) :
    l'.Served (event.signals list) := by
  have hin : ∀ {t : ThreadId} {p : Point α}, l.point t = p →
      p.stage ≠ .outside → (∀ u, u ≠ t → (l.point u).stage = .outside) ∧
        (l.listEmpty.waitQueue ≠ [] →
          l.list.length ≤ list.length + p.slack) := by
    intro t p hp hinside
    rw [← hp] at hinside ⊢
    exact ⟨fun u hu => hguards.outside_of_ne hinside hu, h.inside t hinside⟩
  cases hmove with
  | calls hp => exact h.outside rfl rfl rfl (by simp [hp, Point.stage]) rfl
  | blocks hp => exact ⟨h.inside, h.free⟩
  | @acquires t goal hp hvalue =>
      obtain ⟨-, hout⟩ := hguards.value_one hvalue
      refine served_alone (fun u _ => hout u) fun hsome => ?_
      have hbefore := h.free hout hsome
      cases goal with
      | append item => exact hbefore
      | remove => exact hbefore
      | wait w =>
          simp only [Goal.event, Event.signals, List.length_erase, Point.stage,
            Point.slack]
          split <;> simp <;> omega
  | @holds t goal hp =>
      obtain ⟨hothers, hle⟩ := hin hp (by simp [Point.stage])
      refine served_alone hothers fun hsome => ?_
      have hbefore := hle hsome
      cases goal with
      | append item => exact hbefore
      | remove => exact Nat.le_succ_of_le hbefore
      | wait w => exact hbefore
  | inserts hp =>
      obtain ⟨hothers, hle⟩ := hin hp (by simp [Point.stage])
      refine served_alone hothers fun hsome => ?_
      have hbefore := hle hsome
      simpa [Event.signals, Point.stage, Point.slack] using hbefore
  | finds hp hempty =>
      obtain ⟨hothers, -⟩ := hin hp (by simp [Point.stage])
      exact served_alone hothers fun hsome => (hsome hempty).elim
  | @signals t w rest hp hqueue =>
      obtain ⟨hothers, hle⟩ := hin hp (by simp [Point.stage])
      exact served_alone hothers fun _ =>
        hle (by rw [hqueue]; exact List.cons_ne_nil w rest)
  | wakes hp hsem =>
      obtain ⟨hothers, hle⟩ := hin hp (by simp [Point.stage])
      refine served_alone hothers fun hsome => ?_
      have hbefore := hle hsome
      simpa [Event.signals, Point.stage, Point.slack] using hbefore
  | testsEmpty hp hempty =>
      obtain ⟨hothers, -⟩ := hin hp (by simp [Point.stage])
      refine served_alone hothers fun _ => ?_
      rw [hempty]
      exact Nat.zero_le _
  | testsSome hp =>
      obtain ⟨hothers, hle⟩ := hin hp (by simp [Point.stage])
      exact served_alone hothers hle
  | removes hp hlist =>
      obtain ⟨hothers, hle⟩ := hin hp (by simp [Point.stage])
      refine served_alone hothers fun hsome => ?_
      have hbefore := hle hsome
      rw [hlist] at hbefore
      simpa [Event.signals, Point.stage, Point.slack] using hbefore
  | returns hp => exact h.outside rfl rfl rfl (by simp [hp, Point.stage]) rfl
  | @waits t w hp hnone =>
      obtain ⟨hothers, -⟩ := hin hp (by simp [Point.stage])
      have hempty := hfits t
      rw [hp] at hempty
      refine served_alone hothers fun _ => ?_
      rw [show l.list = [] from hempty]
      exact Nat.zero_le _
  | sleeps hp => exact ⟨h.inside, h.free⟩
  | passes hp => exact h.outside rfl rfl rfl (by simp [hp, Point.stage]) rfl
  | deletes hp =>
      obtain ⟨hothers, hle⟩ := hin hp (by simp [Point.stage])
      exact served_alone hothers hle
  | @releases t after hp =>
      obtain ⟨hothers, hle⟩ := hin hp (by simp [Point.stage])
      exact served_alone hothers hle
  | @gives t after hp =>
      obtain ⟨hothers, hle⟩ := hin hp (by simp [Point.stage])
      refine served_alone hothers fun hsome => ?_
      rw [if_pos (After.next_stage after)]
      exact hle hsome

/-! ## The order of the items -/

/-- One step puts an item at the end of the list, takes one from its front,
or leaves it alone. -/
theorem Move.order (hmove : Move l event l') :
    removed [event] ++ l'.list = l.list ++ inserted [event] := by
  cases hmove with
  | @acquires t goal hp =>
      cases goal <;> simp [Goal.event, removed, inserted, setPoint]
  | removes hp hlist => simp [removed, inserted, setPoint, hlist]
  | _ => simp [removed, inserted, setPoint]

/-- A thread has in its hand what it has taken, and what has not been returned
to it. -/
theorem Move.hands (hmove : Move l event l') (u : ThreadId) :
    (l.point u).inHand ++ removedBy u [event] =
      returnedTo u [event] ++ (l'.point u).inHand := by
  have hkeep : ∀ {t : ThreadId} {p q : Point α} {l₁ : SynchList α}
      {silent : List α}, l.point t = p → l₁.point = l.point →
        q.inHand = p.inHand → silent = [] →
        (l.point u).inHand ++ silent =
          silent ++ ((l₁.setPoint t q).point u).inHand := by
    intro t p q l₁ silent hp hpoint hsame hsilent
    rw [hsilent, List.append_nil, List.nil_append]
    by_cases hu : u = t
    · rw [hu, setPoint_self, hsame, hp]
    · rw [setPoint_of_ne _ _ hu, hpoint]
  cases hmove with
  | calls hp => exact hkeep hp rfl rfl rfl
  | blocks hp => exact List.append_nil _
  | @acquires t goal hp => cases goal <;> exact hkeep hp rfl rfl rfl
  | @holds t goal hp => cases goal <;> exact hkeep hp rfl rfl rfl
  | inserts hp => exact hkeep hp rfl rfl rfl
  | finds hp => exact hkeep hp rfl rfl rfl
  | signals hp => exact hkeep hp rfl rfl rfl
  | wakes hp => exact hkeep hp rfl rfl rfl
  | testsEmpty hp => exact hkeep hp rfl rfl rfl
  | testsSome hp => exact hkeep hp rfl rfl rfl
  | @removes t item rest hp =>
      by_cases hu : u = t
      · subst hu
        simp [setPoint_self, hp, Point.inHand, removedBy, returnedTo]
      · simp [setPoint_of_ne _ _ hu, removedBy, returnedTo, Ne.symm hu]
  | @returns t item hp =>
      by_cases hu : u = t
      · subst hu
        simp [setPoint_self, hp, Point.inHand, removedBy, returnedTo]
      · simp [setPoint_of_ne _ _ hu, removedBy, returnedTo, Ne.symm hu]
  | waits hp => exact hkeep hp rfl rfl rfl
  | sleeps hp => exact List.append_nil _
  | passes hp => exact hkeep hp rfl rfl rfl
  | deletes hp => exact hkeep hp rfl rfl rfl
  | @releases t after hp => cases after <;> exact hkeep hp rfl rfl rfl
  | @gives t after hp => cases after <;> exact hkeep hp rfl rfl rfl

/-- A thread is between `Acquire` and `Release`. -/
def Inside (l : SynchList α) (t : ThreadId) : Prop :=
  (l.point t).stage ≠ .outside

/-- A consumer waits with this semaphore, or has been woken and has not got
the lock yet. -/
def OnItsWay (l : SynchList α) (w : WaiterId) (t : ThreadId) : Prop :=
  l.point t = .sleeping w ∨ l.point t = .acquiring (.wait w)

theorem onItsWay_of_role
    {w : WaiterId}
    (hrole : (l.point t).role = .sleeping w ∨ (l.point t).role = .acquiring w) :
    l.OnItsWay w t := by
  unfold OnItsWay
  cases hp : l.point t with
  | acquiring goal => cases goal <;> simp_all [Point.role]
  | acquired goal => cases goal <;> simp_all [Point.role]
  | releasing after => cases after <;> simp_all [Point.role]
  | released after => cases after <;> simp_all [Point.role]
  | _ => simp_all [Point.role]

theorem waiter_of_onItsWay {w : WaiterId} (h : l.OnItsWay w t) :
    (l.point t).role.waiter = some w := by
  cases h with
  | inl hsleeping =>
      rw [hsleeping]
      rfl
  | inr hacquiring =>
      rw [hacquiring]
      rfl

/-! ## All steps -/

/-- The invariant of a synchronized list. -/
structure Sound (trace : List (Event α)) (l : SynchList α) : Prop where
  guards : l.lock.Guards fun u => (l.point u).stage
  tracks : l.listEmpty.Tracks (fun u => (l.point u).role) (signalled trace)
  fits : ∀ u, (l.point u).Fits l.list
  served : l.Served (signalled trace)
  order : removed trace ++ l.list = inserted trace
  hands : ∀ u, removedBy u trace = returnedTo u trace ++ (l.point u).inHand

theorem Sound.move (h : Sound trace l) (hmove : Move l event l') :
    Sound (trace ++ [event]) l' where
  guards := hmove.guards h.guards
  tracks := by
    rw [signalled_append]
    exact hmove.tracks h.guards h.tracks
  fits := hmove.fits h.guards h.fits
  served := by
    rw [signalled_append]
    exact hmove.served h.guards h.fits h.served
  order := by
    have hone := hmove.order
    simp only [removed, inserted, List.filterMap_append] at hone ⊢
    have hbefore := h.order
    simp only [removed, inserted] at hbefore
    rw [List.append_assoc, hone, ← List.append_assoc, hbefore]
  hands u := by
    have hone := hmove.hands u
    simp only [removedBy, returnedTo, List.filterMap_append] at hone ⊢
    have hbefore := h.hands u
    simp only [removedBy, returnedTo] at hbefore
    rw [hbefore, List.append_assoc, hone, ← List.append_assoc]

theorem sound_start : Sound [] (start : SynchList α) where
  guards := Lock.guards_new
  tracks := Condition.tracks_new
  fits _ := trivial
  served := ⟨fun _ h => (h rfl).elim, fun _ h => (h rfl).elim⟩
  order := rfl
  hands _ := rfl

variable [DecidableEq α]

/-- What a thread does next: nothing, if it is asleep or in no call; it runs
into the assertion of `List::Append`; or it takes a step. -/
theorem go_moves (h : Sound trace l) (t : ThreadId) :
    l.go t = .error .disabled ∨
      (∃ item, l.point t = .appending item ∧ item ∈ l.list ∧
        l.go t = .error (.fault .abort)) ∨
      ∃ l' event, l.go t = .ok (l', event) ∧ Move l event l' := by
  have hlive : ∀ {w : WaiterId}, (l.point t).role.waiter = some w →
      ∃ sem, l.listEmpty.waiters w = some sem := h.tracks.live
  have hheld : (l.point t).stage = .holding →
      l.lock.drop t = .ok { l.lock with lockHolder := none } ∧
        l.lock.isHeldBy t = true := by
    intro hholding
    have hholder := h.guards.holder t hholding
    exact ⟨h.guards.drop_ok hholding, by simp [Lock.isHeldBy, hholder]⟩
  cases hp : l.point t with
  | outside => exact .inl (by simp only [go, hp])
  | acquiring goal =>
      by_cases hasleep : t ∈ l.lock.semaphore.queue
      · exact .inl (by simp only [go, hp, if_pos hasleep])
      · by_cases hvalue : l.lock.semaphore.value = 0
        · have htest : (l.lock.test t).2 = false := by
            simp [Lock.test, Semaphore.test_of_zero hvalue]
          refine .inr (.inr ⟨_, _, ?_, .blocks hp hvalue⟩)
          simp [go, hp, hasleep, htest]
        · have htest : (l.lock.test t).2 = true := by
            simp [Lock.test, Semaphore.test_of_ne_zero hvalue]
          refine .inr (.inr ⟨_, _, ?_, .acquires hp hvalue⟩)
          simp [go, hp, hasleep, htest]
  | acquired goal =>
      exact .inr (.inr ⟨_, _, by simp only [go, hp], .holds hp⟩)
  | appending item =>
      by_cases hmem : item ∈ l.list
      · refine .inr (.inl ⟨item, rfl, hmem, ?_⟩)
        simp only [go, hp, assert_of_false (not_not.mpr hmem)]
        rfl
      · refine .inr (.inr ⟨_, _, ?_, .inserts hp⟩)
        simp only [go, hp, assert_of_true hmem]
        rfl
  | signalling =>
      obtain ⟨-, hholds⟩ := hheld (by rw [hp]; rfl)
      cases hqueue : l.listEmpty.waitQueue with
      | nil =>
          refine .inr (.inr ⟨_, _, ?_, .finds hp hqueue⟩)
          simp only [go, hp, signal, assert_of_true hholds, hqueue]
          rfl
      | cons w rest =>
          refine .inr (.inr ⟨_, _, ?_, .signals hp hqueue⟩)
          simp only [go, hp, signal, assert_of_true hholds, hqueue]
          rfl
  | waking w =>
      obtain ⟨-, u, hu⟩ := h.tracks.waking
        (show (l.point t).role = .waking w by rw [hp]; rfl)
      obtain ⟨sem, hsem⟩ := h.tracks.live
        (show (l.point u).role.waiter = some w by rw [hu]; rfl)
      exact .inr (.inr ⟨_, _, by simp only [go, hp, hsem], .wakes hp hsem⟩)
  | testing =>
      by_cases hempty : l.list = []
      · exact .inr (.inr ⟨_, _, by simp only [go, hp, if_pos hempty],
          .testsEmpty hp hempty⟩)
      · exact .inr (.inr ⟨_, _, by simp only [go, hp, if_neg hempty],
          .testsSome hp hempty⟩)
  | removing =>
      have hsome := h.fits t
      rw [hp] at hsome
      cases hlist : l.list with
      | nil => exact (hsome hlist).elim
      | cons item rest =>
          exact .inr (.inr ⟨_, _, by simp only [go, hp, hlist],
            .removes hp hlist⟩)
  | returning item =>
      exact .inr (.inr ⟨_, _, by simp only [go, hp], .returns hp⟩)
  | waiting => exact .inl (by simp only [go, hp])
  | sleeping w =>
      obtain ⟨sem, hsem⟩ := hlive (by rw [hp]; rfl)
      by_cases hasleep : t ∈ sem.queue
      · exact .inl (by simp only [go, hp, hsem, if_pos hasleep])
      · by_cases hvalue : sem.value = 0
        · refine .inr (.inr ⟨_, _, ?_, .sleeps hp hsem hvalue⟩)
          simp [go, hp, hsem, hasleep, sleepOn,
            Semaphore.test_of_zero hvalue]
        · refine .inr (.inr ⟨_, _, ?_, .passes hp hsem hvalue⟩)
          simp [go, hp, hsem, hasleep, sleepOn,
            Semaphore.test_of_ne_zero hvalue]
  | deleting w =>
      obtain ⟨sem, hsem⟩ := hlive (by rw [hp]; rfl)
      exact .inr (.inr ⟨_, _, by simp only [go, hp, hsem], .deletes hp⟩)
  | releasing after =>
      obtain ⟨hdrop, -⟩ := hheld (by rw [hp]; rfl)
      refine .inr (.inr ⟨_, _, ?_, .releases hp⟩)
      simp only [go, hp, hdrop]
      rfl
  | released after =>
      exact .inr (.inr ⟨_, _, by simp only [go, hp], .gives hp⟩)

/-- The only assertion that can fail is that of `List::Append`, for an item
that is in the list. -/
theorem step_moves (h : Sound trace l) (action : Action α) :
    l.step action = .error .disabled ∨
      (∃ t item, action = .go t ∧ l.point t = .appending item ∧
        item ∈ l.list ∧ l.step action = .error (.fault .abort)) ∨
      ∃ l' event, l.step action = .ok (l', event) ∧ Move l event l' := by
  cases action with
  | append t item =>
      by_cases hp : l.point t = .outside
      · exact .inr (.inr ⟨_, _, if_pos hp, .calls hp nofun⟩)
      · exact .inl (if_neg hp)
  | removeFront t =>
      by_cases hp : l.point t = .outside
      · exact .inr (.inr ⟨_, _, if_pos hp, .calls hp nofun⟩)
      · exact .inl (if_neg hp)
  | go t =>
      obtain hdisabled | ⟨item, hp, hmem, hfault⟩ | hmoves := go_moves h t
      · exact .inl hdisabled
      · exact .inr (.inl ⟨t, item, rfl, hp, hmem, hfault⟩)
      · exact .inr (.inr hmoves)
  | wait t w =>
      by_cases hp : l.point t = .waiting ∧ l.listEmpty.waiters w = none
      · obtain ⟨hpoint, hnone⟩ := hp
        have hholder := h.guards.holder t (by simp only [hpoint]; rfl)
        have hholds : l.lock.isHeldBy t = true := by
          simp [Lock.isHeldBy, hholder]
        have hout : w ∉ (l.listEmpty.setWaiter w (some ⟨0, []⟩)).waitQueue :=
          h.tracks.notMem_waitQueue hnone
        have happend : l.listEmpty.append w = .ok
            { l.listEmpty.setWaiter w (some ⟨0, []⟩) with
              waitQueue := l.listEmpty.waitQueue ++ [w] } := by
          rw [Condition.append, assert_of_true hout]
          rfl
        refine .inr (.inr ⟨_, _, ?_, .waits hpoint hnone⟩)
        simp only [step, hpoint, hnone, and_self, if_true, wait,
          assert_of_true hholds, ok_bind, happend]
        rfl
      · exact .inl (if_neg hp)

theorem Sound.step
    {action : Action α} (h : Sound trace l)
    (hstep : l.step action = .ok (l', event)) : Sound (trace ++ [event]) l' := by
  obtain hdisabled | ⟨t, item, -, -, -, hfault⟩ | ⟨after, happened, htaken,
    hmove⟩ := step_moves h action
  · rw [hdisabled] at hstep
    cases hstep
  · rw [hfault] at hstep
    cases hstep
  · rw [htaken] at hstep
    cases hstep
    exact h.move hmove

/-! ## All runs -/

theorem run_sound
    {guard : List (Event α) → SynchList α → Action α → Prop}
    (hrun : (system α).Run guard trace l) : Sound trace l := by
  refine hrun.invariant Sound sound_start ?_
  intro trace l l' action event _ hsound _ hstep
  exact hsound.step hstep

/-- In every run: one thread at most is inside; the items that have been taken
and those in the list are those that have been put into it, in this order, and
every thread gets what it has taken; `List::RemoveFront` finds an item, and
the only assertion that can fail is that of `List::Append`, for an item that
is in the list; and if the lock is free and a consumer waits, there are at
most as many items as consumers that have been signalled and are on their
way. -/
theorem synchList_fifo (hrun : (system α).Reaches trace l) :
    (∀ t u, l.Inside t → l.Inside u → t = u) ∧
      removed trace ++ l.list = inserted trace ∧
      (∀ t, removedBy t trace = returnedTo t trace ++ (l.point t).inHand) ∧
      (∀ t, l.point t = .removing → l.list ≠ []) ∧
      (∀ action fault, l.step action = .error (.fault fault) →
        ∃ t item, action = .go t ∧ l.point t = .appending item ∧
          item ∈ l.list) ∧
      (l.lock.semaphore.value ≠ 0 → l.listEmpty.waitQueue ≠ [] →
        l.list.length ≤ (signalled trace).length) ∧
      (signalled trace).Nodup ∧
      ∀ w ∈ signalled trace, ∃! t, l.OnItsWay w t := by
  have hsound := run_sound hrun
  refine ⟨?_, hsound.order, hsound.hands, ?_, ?_, ?_,
    hsound.tracks.signalledNodup, ?_⟩
  · intro t u ht hu
    exact hsound.guards.unique ht hu
  · intro t ht
    have hfits := hsound.fits t
    rw [ht] at hfits
    exact hfits
  · intro action fault hfault
    obtain hdisabled | ⟨t, item, haction, hp, hmem, -⟩ | ⟨after, happened,
      htaken, -⟩ := step_moves hsound action
    · rw [hdisabled] at hfault
      cases hfault
    · exact ⟨t, item, haction, hp, hmem⟩
    · rw [htaken] at hfault
      cases hfault
  · intro hfree hsome
    obtain ⟨-, hout⟩ := hsound.guards.value_one hfree
    exact hsound.served.free hout hsome
  · intro w hw
    obtain ⟨-, -, t, hrole⟩ := hsound.tracks.signalled hw
    have hway : l.OnItsWay w t := onItsWay_of_role hrole
    refine ⟨t, hway, ?_⟩
    intro u hu
    exact hsound.tracks.owner (waiter_of_onItsWay hu) (waiter_of_onItsWay hway)

/-- A consumer waits, a producer signals it, and another consumer takes the
item before it has got the lock. -/
def overtaken : List (Action ℕ) :=
  [.removeFront 1, .go 1, .go 1, .go 1, .wait 1 5, .go 1, .go 1, .go 1,
    .append 2 7, .go 2, .go 2, .go 2, .go 2, .go 2, .go 2, .go 2,
    .removeFront 3, .go 3, .go 3, .go 3, .go 3, .go 3, .go 3, .go 3]

theorem synchList_fifo_overtaken :
    ∃ trace l, (system ℕ).Reaches trace l ∧ returnedTo 3 trace = [7] ∧
      signalled trace = [5] ∧ removed trace ++ l.list = inserted trace ∧
      ∃! t, l.OnItsWay 5 t := by
  have hreplay : (system ℕ).Replays StepSystem.anyStep overtaken
      (fun trace _ => returnedTo 3 trace = [7] ∧ signalled trace = [5]) =
        true := by
    decide
  obtain ⟨trace, l, hrun, hcheck⟩ := StepSystem.exists_run_of_replays hreplay
  obtain ⟨hreturned, hsignalled⟩ := of_decide_eq_true hcheck
  obtain ⟨-, horder, -, -, -, -, -, hway⟩ := synchList_fifo hrun
  exact ⟨trace, l, hrun, hreturned, hsignalled, horder,
    hway 5 (by simp [hsignalled])⟩

end SynchList

end Nachos.Scheduling
