import Mathlib.Tactic

/-!
# Loops that end by what their body finds

`whileLoop body fuel s` runs the body again and again, until it says that the
loop is over or fails.  When the fuel is spent before, the result is `none`.  A
loop that is to end has a rank that each round lowers.
-/

namespace Nachos.Library

variable {State Error : Type}

/-- The body tells whether the loop goes on. -/
def whileLoop (body : State → Except Error (Bool × State)) :
    ℕ → State → Except Error (Option State)
  | 0, _ => .ok none
  | fuel + 1, s =>
      match body s with
      | .ok (true, s') => whileLoop body fuel s'
      | .ok (false, s') => .ok (some s')
      | .error e => .error e

/-- The total rule: every round succeeds, and either it keeps the invariant and
lowers the rank, or the loop is over with the postcondition. -/
theorem whileLoop_spec
    {body : State → Except Error (Bool × State)}
    (Inv : State → Prop) (rank : State → ℕ) (Post : State → Prop)
    (hround : ∀ s, Inv s →
      (∃ s', body s = .ok (true, s') ∧ Inv s' ∧ rank s' < rank s) ∨
        ∃ s', body s = .ok (false, s') ∧ Post s')
    {fuel : ℕ} {s : State} (hinv : Inv s) (hfuel : rank s < fuel) :
    ∃ s', whileLoop body fuel s = .ok (some s') ∧ Post s' := by
  induction fuel generalizing s with
  | zero => omega
  | succ fuel ih =>
      rcases hround s hinv with ⟨s', hbody, hinv', hrank⟩ | ⟨s', hbody, hpost⟩
      · obtain ⟨last, hloop, hpost⟩ := ih hinv' (by omega)
        refine ⟨last, ?_, hpost⟩
        simp only [whileLoop, hbody]
        exact hloop
      · refine ⟨s', ?_, hpost⟩
        simp only [whileLoop, hbody]

end Nachos.Library
