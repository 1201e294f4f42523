import Nachos.SynchListFifo

/-!
# Who has an item of a synchronized list

An item is first in the hands of the thread that appends it, then in the list,
and then in the hands of the thread that has removed it.
-/

namespace Nachos.Scheduling

open Library

variable {α : Type}

namespace Point

/-- The item that a thread is going to put into the list. -/
def offered : Point α → List α
  | .acquiring (.append item) => [item]
  | .acquired (.append item) => [item]
  | .appending item => [item]
  | _ => []

/-- The items that a thread has in its hands. -/
def held (p : Point α) : List α :=
  p.offered ++ p.inHand

/-- The thread is in a call of `Append`. -/
def appends : Point α → Bool
  | .acquiring (.append _) => true
  | .acquired (.append _) => true
  | .appending _ => true
  | .signalling => true
  | .waking _ => true
  | .releasing .append => true
  | .released .append => true
  | _ => false

end Point

namespace SynchList

variable {l l' : SynchList α} {event : Event α} {trace : List (Event α)}
variable {t : ThreadId}

/-- The event is about an item. -/
def Event.moves : Event α → Bool
  | .inserted _ => true
  | .removed _ _ => true
  | .returned _ _ => true
  | _ => false

/-- What becomes of the items in a step of thread `t`. -/
inductive Flow (l : SynchList α) (t : ThreadId) (l' : SynchList α) :
    Event α → Prop
  | keeps {event : Event α} : event.moves = false → l'.list = l.list →
      (l'.point t).offered = (l.point t).offered →
      (l'.point t).inHand = (l.point t).inHand → Flow l t l' event
  | inserts {item : α} : l'.list = l.list ++ [item] →
      l.point t = .appending item → l'.point t = .signalling →
      Flow l t l' (.inserted item)
  | removes {item : α} : l.list = item :: l'.list → l.point t = .removing →
      l'.point t = .releasing (.remove item) → Flow l t l' (.removed t item)
  | returns {item : α} : l'.list = l.list → l.point t = .returning item →
      l'.point t = .outside → Flow l t l' (.returned t item)

/-- A step of a thread leaves the other threads where they are, and a thread
that is in a call stays in it or leaves it. -/
structure Steps (l : SynchList α) (t : ThreadId) (l' : SynchList α)
    (event : Event α) : Prop where
  others : ∀ u, u ≠ t → l'.point u = l.point u
  call : l'.point t = .outside ∨
    (l'.point t).appends = (l.point t).appends
  flow : Flow l t l' event

/-- A thread that gets from one point to another without an item. -/
theorem Steps.keeps
    {l₁ : SynchList α} {p q : Point α} (hp : l.point t = p)
    (hlist : l₁.list = l.list) (hpoint : l₁.point = l.point)
    (hmoves : event.moves = false)
    (hcall : q = .outside ∨ q.appends = p.appends)
    (hoffered : q.offered = p.offered) (hinHand : q.inHand = p.inHand) :
    Steps l t (l₁.setPoint t q) event := by
  subst hp
  refine ⟨?_, ?_, .keeps hmoves hlist ?_ ?_⟩
  · intro u hu
    rw [setPoint_of_ne _ _ hu, hpoint]
  · rw [setPoint_self]
    exact hcall
  · rw [setPoint_self, hoffered]
  · rw [setPoint_self, hinHand]

theorem Steps.stays
    {l₁ : SynchList α} (hlist : l₁.list = l.list) (hpoint : l₁.point = l.point)
    (hmoves : event.moves = false) : Steps l t l₁ event := by
  refine ⟨?_, .inr ?_, .keeps hmoves hlist ?_ ?_⟩
  · intro u _
    rw [hpoint]
  all_goals rw [hpoint]

/-- A thread that gets to another point with an item, or without the one that
it had. -/
theorem Steps.of_flow
    {l₁ : SynchList α} {p q : Point α} (hp : l.point t = p)
    (hpoint : l₁.point = l.point)
    (hcall : q = .outside ∨ q.appends = p.appends)
    (hflow : Flow l t (l₁.setPoint t q) event) :
    Steps l t (l₁.setPoint t q) event := by
  subst hp
  refine ⟨?_, ?_, hflow⟩
  · intro u hu
    rw [setPoint_of_ne _ _ hu, hpoint]
  · rw [setPoint_self]
    exact hcall

variable [DecidableEq α]

theorem go_steps (h : Sound trace l) (hgo : l.go t = .ok (l', event)) :
    Steps l t l' event := by
  have hholds : (l.point t).stage = .holding → l.lock.isHeldBy t = true := by
    intro hholding
    have hholder := h.guards.holder t hholding
    simp [Lock.isHeldBy, hholder]
  cases hp : l.point t with
  | outside => simp [go, hp] at hgo
  | acquiring goal =>
      simp only [go, hp] at hgo
      split at hgo
      · cases hgo
      · split at hgo
        · cases hgo
          cases goal <;>
            exact .keeps hp rfl rfl rfl (.inr rfl) rfl rfl
        · cases hgo
          exact .stays rfl rfl rfl
  | acquired goal =>
      simp only [go, hp] at hgo
      cases hgo
      cases goal <;> exact .keeps hp rfl rfl rfl (.inr rfl) rfl rfl
  | appending item =>
      simp only [go, hp] at hgo
      by_cases hmem : item ∉ l.list
      · rw [assert_of_true hmem] at hgo
        cases hgo
        exact .of_flow hp rfl (.inr rfl) (.inserts rfl hp (setPoint_self ..))
      · rw [assert_of_false hmem] at hgo
        cases hgo
  | signalling =>
      have hheld := hholds (by rw [hp]; rfl)
      simp only [go, hp, signal, assert_of_true hheld, ok_bind] at hgo
      split at hgo <;> cases hgo <;>
        exact .keeps hp rfl rfl rfl (.inr rfl) rfl rfl
  | waking w =>
      simp only [go, hp] at hgo
      split at hgo
      · cases hgo
      · cases hgo
        exact .keeps hp rfl rfl rfl (.inr rfl) rfl rfl
  | testing =>
      simp only [go, hp] at hgo
      split at hgo <;> cases hgo <;>
        exact .keeps hp rfl rfl rfl (.inr rfl) rfl rfl
  | removing =>
      simp only [go, hp] at hgo
      split at hgo
      · cases hgo
      next item rest hlist =>
        cases hgo
        exact .of_flow hp rfl (.inr rfl)
          (.removes hlist hp (setPoint_self ..))
  | returning item =>
      simp only [go, hp] at hgo
      cases hgo
      exact .of_flow hp rfl (.inl rfl) (.returns rfl hp (setPoint_self ..))
  | waiting => simp [go, hp] at hgo
  | sleeping w =>
      simp only [go, hp] at hgo
      split at hgo
      · cases hgo
      next sem hsem =>
        split at hgo
        · cases hgo
        · cases hgo
          by_cases hvalue : sem.value = 0
          · rw [sleepOn, Semaphore.test_of_zero hvalue]
            exact .stays rfl rfl rfl
          · rw [sleepOn, Semaphore.test_of_ne_zero hvalue]
            exact .keeps hp rfl rfl rfl (.inr rfl) rfl rfl
  | deleting w =>
      simp only [go, hp] at hgo
      split at hgo
      · cases hgo
      · cases hgo
        exact .keeps hp rfl rfl rfl (.inr rfl) rfl rfl
  | releasing after =>
      have hdrop := h.guards.drop_ok (t := t) (by rw [hp]; rfl)
      simp only [go, hp, hdrop] at hgo
      cases hgo
      cases after <;> exact .keeps hp rfl rfl rfl (.inr rfl) rfl rfl
  | released after =>
      simp only [go, hp] at hgo
      cases hgo
      cases after with
      | append => exact .keeps hp rfl rfl rfl (.inl rfl) rfl rfl
      | remove item => exact .keeps hp rfl rfl rfl (.inr rfl) rfl rfl
      | wait w => exact .keeps hp rfl rfl rfl (.inr rfl) rfl rfl

theorem wait_steps
    {w : WaiterId} (h : Sound trace l)
    (hstep : l.step (.wait t w) = .ok (l', event)) : Steps l t l' event := by
  by_cases hp : l.point t = .waiting ∧ l.listEmpty.waiters w = none
  · have hheld : l.lock.isHeldBy t = true := by
      have hholder := h.guards.holder t (by simp only [hp.1]; rfl)
      simp [Lock.isHeldBy, hholder]
    simp only [step, if_pos hp, wait, assert_of_true hheld, ok_bind] at hstep
    cases happend : l.listEmpty.append w with
    | error fault =>
        rw [happend] at hstep
        cases hstep
    | ok listEmpty =>
        rw [happend] at hstep
        cases hstep
        exact .keeps hp.1 rfl rfl rfl (.inr rfl) rfl rfl
  · rw [step, if_neg hp] at hstep
    cases hstep

/-- A thread that takes a step is in a call. -/
theorem inside_of_go (hgo : l.go t = .ok (l', event)) :
    l.point t ≠ .outside := by
  intro hout
  simp [go, hout] at hgo

theorem waiting_of_wait
    {w : WaiterId} (hwait : l.step (.wait t w) = .ok (l', event)) :
    l.point t = .waiting := by
  simp only [step] at hwait
  split at hwait
  next hp => exact hp.1
  next => cases hwait

/-- A thread that calls `Append` has the item in its hands. -/
theorem append_steps
    {item : α} (happend : l.step (.append t item) = .ok (l', event)) :
    l.point t = .outside ∧ l'.list = l.list ∧
      l'.point t = .acquiring (.append item) ∧
      (∀ u, u ≠ t → l'.point u = l.point u) ∧ event = .silent := by
  simp only [step] at happend
  split at happend
  next hout =>
    cases happend
    exact ⟨hout, rfl, setPoint_self l t _,
      fun u hu => setPoint_of_ne l _ hu, rfl⟩
  next => cases happend

theorem removeFront_steps
    (hremove : l.step (.removeFront t) = .ok (l', event)) :
    l.point t = .outside ∧ l'.list = l.list ∧
      l'.point t = .acquiring .remove ∧
      (∀ u, u ≠ t → l'.point u = l.point u) ∧ event = .silent := by
  simp only [step] at hremove
  split at hremove
  next hout =>
    cases hremove
    exact ⟨hout, rfl, setPoint_self l t _,
      fun u hu => setPoint_of_ne l _ hu, rfl⟩
  next => cases hremove

end SynchList

end Nachos.Scheduling
