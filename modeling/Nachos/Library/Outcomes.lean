import Mathlib.Tactic.Common

/-!
# Two fallible computations with the same outcome

One computation does on related inputs what another one does: both return, with
related results, or both fail, with related errors.  The rules follow the way
in which the computations are put together.
-/

namespace Nachos.Library

variable {ε ε' α α' β β' : Type}

inductive SameOutcome (E : ε → ε' → Prop) (R : α → α' → Prop) :
    Except ε α → Except ε' α' → Prop
  | ok {a : α} {a' : α'} : R a a' → SameOutcome E R (.ok a) (.ok a')
  | error {e : ε} {e' : ε'} : E e e' → SameOutcome E R (.error e) (.error e')

namespace SameOutcome

variable {E : ε → ε' → Prop} {R : α → α' → Prop} {S : β → β' → Prop}
variable {x : Except ε α} {x' : Except ε' α'}

theorem bind
    {next : α → Except ε β} {next' : α' → Except ε' β'}
    (hfirst : SameOutcome E R x x')
    (hnext : ∀ a a', R a a' → SameOutcome E S (next a) (next' a')) :
    SameOutcome E S (x >>= next) (x' >>= next') := by
  cases hfirst with
  | ok hrelated => exact hnext _ _ hrelated
  | error hfails => exact .error hfails

/-- What the first computation returns, the second one returns as well. -/
theorem exists_ok
    {a : α} (hsame : SameOutcome E R x x') (hok : x = .ok a) :
    ∃ a', x' = .ok a' ∧ R a a' := by
  subst hok
  cases hsame with
  | ok hrelated => exact ⟨_, rfl, hrelated⟩

end SameOutcome

end Nachos.Library
