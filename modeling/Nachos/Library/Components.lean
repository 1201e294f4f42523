import Nachos.Library.StepSystem

/-!
# One system carries many

The components of a system are known by an index; an event concerns one of
them at most, for which it is an event of the component alone.  If every step
moves the component it concerns as that would move by itself, and leaves all
others where they are, then what a run does to a component is a run of it.
-/

namespace Nachos.Library.StepSystem

variable {Index State Action Event Error : Type}
variable {State' Action' Event' Error' : Type}

/-- The event is one that the component can do here, or it does not concern
it. -/
def Follows (N : StepSystem State' Action' Event' Error') (t : State')
    (event : Option Event') (Then : State' → Prop) : Prop :=
  match event with
  | none => Then t
  | some event => ∃ action t', N.step t action = .ok (t', event) ∧ Then t'

/-- The system keeps the components apart.  `own` is what an event is for a
component, `Related` what the component has come to. -/
structure Carries (M : StepSystem State Action Event Error)
    (N : StepSystem State' Action' Event' Error')
    (guard : List Event → State → Action → Prop)
    (own : Index → Event → Option Event') (Inv : State → Prop)
    (Related : Index → State → State' → Prop) : Prop where
  start : Inv M.start ∧ ∀ i, Related i M.start N.start
  step : ∀ {trace s s' action event}, Inv s → guard trace s action →
    M.step s action = .ok (s', event) →
      Inv s' ∧ ∀ i t, Related i s t →
        N.Follows t (own i event) (Related i s')

variable {M : StepSystem State Action Event Error}
variable {N : StepSystem State' Action' Event' Error'}
variable {guard : List Event → State → Action → Prop}
variable {own : Index → Event → Option Event'} {Inv : State → Prop}
variable {Related : Index → State → State' → Prop}

/-- The component has run by itself. -/
theorem Carries.run
    (hcarries : Carries M N guard own Inv Related) {trace : List Event}
    {s : State} (hrun : M.Run guard trace s) :
    Inv s ∧ ∀ i, ∃ t, N.Reaches (trace.filterMap (own i)) t ∧
      Related i s t := by
  induction hrun with
  | start => exact ⟨hcarries.start.1, fun i =>
      ⟨N.start, .start, hcarries.start.2 i⟩⟩
  | @step trace s s' action event _ hguard hmove ih =>
      obtain ⟨hinv, hcomponents⟩ := ih
      obtain ⟨hinv', hfollows⟩ := hcarries.step hinv hguard hmove
      refine ⟨hinv', fun i => ?_⟩
      obtain ⟨t, hreaches, hrelated⟩ := hcomponents i
      have hnext := hfollows i t hrelated
      rw [List.filterMap_append, List.filterMap_cons, List.filterMap_nil]
      cases hevent : own i event with
      | none =>
          rw [hevent] at hnext
          simp only [List.append_nil]
          exact ⟨t, hreaches, hnext⟩
      | some mine =>
          rw [hevent] at hnext
          obtain ⟨action', t', hmove', hrelated'⟩ := hnext
          exact ⟨t', .step hreaches trivial hmove', hrelated'⟩

end Nachos.Library.StepSystem
