import Nachos.Library.StepSystem

/-!
# One system refines another

A relation between the states of two systems that is kept from step to step,
with the same events on both sides, carries every run of the first over to the
second.
-/

namespace Nachos.Library.StepSystem

variable {State Action Event Error : Type}
variable {State' Action' Error' : Type}
variable {M : StepSystem State Action Event Error}
variable {N : StepSystem State' Action' Event Error'}
variable {guard : List Event → State → Action → Prop}

/-- A step of the first system from related states, under the guard, is one of
the second, and leads to related states again. -/
structure Refines (M : StepSystem State Action Event Error)
    (N : StepSystem State' Action' Event Error')
    (guard : List Event → State → Action → Prop)
    (Related : State → State' → Prop) : Prop where
  start : Related M.start N.start
  step : ∀ {trace s t s' action event}, Related s t → guard trace s action →
    M.step s action = .ok (s', event) →
      ∃ action' t', N.step t action' = .ok (t', event) ∧ Related s' t'

variable {Related : State → State' → Prop}

theorem Refines.run
    (hrefines : Refines M N guard Related) {trace : List Event} {s : State}
    (hrun : M.Run guard trace s) :
    ∃ t, N.Reaches trace t ∧ Related s t := by
  induction hrun with
  | start => exact ⟨N.start, .start, hrefines.start⟩
  | step _ hguard hmove ih =>
      obtain ⟨t, hreaches, hrelated⟩ := ih
      obtain ⟨action', t', hmove', hrelated'⟩ :=
        hrefines.step hrelated hguard hmove
      exact ⟨t', .step hreaches trivial hmove', hrelated'⟩

end Nachos.Library.StepSystem
