import Mathlib.Data.List.Basic
import Mathlib.Data.List.Infix

/-!
# Runs of a system that moves one action at a time

A step system is a start state and a partial step function: an action taken
in a state either produces the next state and one event, or is refused with
an error.  A run is known by the trace of its events.  Runs may be guarded:
the guard sees the trace and the state before a step and the action about to
be taken, so that a hypothesis on every step of a run is a guard.
-/

namespace Nachos.Library

structure StepSystem (State Action Event Error : Type) where
  start : State
  step : State → Action → Except Error (State × Event)

namespace StepSystem

variable {State Action Event Error : Type}

/-- The runs of `M` all of whose steps satisfy `guard`, by their trace and
their last state. -/
inductive Run (M : StepSystem State Action Event Error)
    (guard : List Event → State → Action → Prop) :
    List Event → State → Prop
  | start : Run M guard [] M.start
  | step {trace : List Event} {s s' : State} {action : Action}
      {event : Event} :
      Run M guard trace s → guard trace s action →
      M.step s action = .ok (s', event) →
      Run M guard (trace ++ [event]) s'

/-- The guard that lets every step pass. -/
def anyStep (_ : List Event) (_ : State) (_ : Action) : Prop :=
  True

instance (trace : List Event) (s : State) (action : Action) :
    Decidable (anyStep trace s action) :=
  isTrue trivial

/-- All runs of `M`. -/
abbrev Reaches (M : StepSystem State Action Event Error) :
    List Event → State → Prop :=
  M.Run anyStep

variable {M : StepSystem State Action Event Error}
variable {guard : List Event → State → Action → Prop}

/-- The induction rule: an invariant of trace and state may use, at each
step, that the run so far is a run. -/
theorem Run.invariant
    {trace : List Event} {s : State}
    (hrun : M.Run guard trace s)
    (Inv : List Event → State → Prop)
    (hstart : Inv [] M.start)
    (hstep : ∀ {trace s s' action event},
      M.Run guard trace s → Inv trace s → guard trace s action →
        M.step s action = .ok (s', event) → Inv (trace ++ [event]) s') :
    Inv trace s := by
  induction hrun with
  | start => exact hstart
  | step hbefore hguard hmove ih => exact hstep hbefore ih hguard hmove

theorem Run.mono
    {weaker : List Event → State → Action → Prop}
    {trace : List Event} {s : State}
    (hrun : M.Run guard trace s)
    (hweaker : ∀ trace s action,
      guard trace s action → weaker trace s action) :
    M.Run weaker trace s := by
  induction hrun with
  | start => exact .start
  | step _ hguard hmove ih =>
      exact .step ih (hweaker _ _ _ hguard) hmove

theorem Run.reaches
    {trace : List Event} {s : State}
    (hrun : M.Run guard trace s) :
    M.Reaches trace s :=
  hrun.mono fun _ _ _ _ => trivial

/-- The last step of a run that has taken one. -/
theorem Run.last_step
    {trace : List Event} {event : Event} {s : State}
    (hrun : M.Run guard (trace ++ [event]) s) :
    ∃ before action, M.Run guard trace before ∧
      guard trace before action ∧
      M.step before action = .ok (s, event) := by
  generalize hfull : trace ++ [event] = full at hrun
  cases hrun with
  | start => simp at hfull
  | step hbefore hguard hmove =>
      obtain ⟨rfl, heq⟩ := List.append_inj' hfull rfl
      obtain rfl : event = _ := by simpa using heq
      exact ⟨_, _, hbefore, hguard, hmove⟩

/-- Runs are closed under prefixes of their trace. -/
theorem Run.of_isPrefix
    {before trace : List Event} {s : State}
    (hrun : M.Run guard trace s) (hinitial : before <+: trace) :
    ∃ earlier, M.Run guard before earlier := by
  induction hrun with
  | start =>
      obtain rfl : before = [] := List.prefix_nil.mp hinitial
      exact ⟨_, .start⟩
  | step hearlier hguard hmove ih =>
      rcases List.prefix_concat_iff.mp
          (by simpa [List.concat_eq_append] using hinitial) with heq | hshort
      · subst before
        exact ⟨_, .step hearlier hguard hmove⟩
      · exact ih hshort

/-- The step of a run at one event of its trace. -/
theorem Run.step_at
    {earlier later : List Event} {event : Event} {s : State}
    (hrun : M.Run guard (earlier ++ event :: later) s) :
    ∃ before after action, M.Run guard earlier before ∧
      guard earlier before action ∧
      M.step before action = .ok (after, event) ∧
      M.Run guard (earlier ++ [event]) after := by
  have hinitial : earlier ++ [event] <+: earlier ++ event :: later :=
    ⟨later, by simp⟩
  rcases hrun.of_isPrefix hinitial with ⟨after, hafter⟩
  rcases hafter.last_step with ⟨before, action, hbefore, hguard, hmove⟩
  exact ⟨before, after, action, hbefore, hguard, hmove, hafter⟩

/-! ## What holds since an event -/

/-- An event of the first kind has occurred, and none of the second kind
since. -/
def Since (starts stops : Event → Prop) (trace : List Event) : Prop :=
  ∃ earlier event later, trace = earlier ++ event :: later ∧ starts event ∧
    ∀ event ∈ later, ¬stops event

section Since

variable {starts stops : Event → Prop}

theorem not_since_nil : ¬Since starts stops [] := by
  rintro ⟨earlier, event, later, htrace, -⟩
  simp at htrace

theorem since_append {trace : List Event} {event : Event} :
    Since starts stops (trace ++ [event]) ↔
      starts event ∨ Since starts stops trace ∧ ¬stops event := by
  constructor
  · rintro ⟨earlier, first, later, htrace, hstarts, hkept⟩
    rcases List.eq_nil_or_concat later with rfl | ⟨before, last, rfl⟩
    · rcases List.append_inj' htrace rfl with ⟨-, heq⟩
      cases heq
      exact .inl hstarts
    · have hsplit : trace ++ [event] =
          (earlier ++ first :: before) ++ [last] := by
        rw [htrace]
        simp
      rcases List.append_inj' hsplit rfl with ⟨rfl, heq⟩
      cases heq
      refine .inr ⟨⟨earlier, first, before, rfl, hstarts, ?_⟩, ?_⟩
      · intro event hevent
        exact hkept event (by simp [hevent])
      · exact hkept event (by simp)
  · rintro (hstarts | ⟨⟨earlier, first, later, rfl, hstarts, hkept⟩, hstops⟩)
    · exact ⟨trace, event, [], rfl, hstarts, by simp⟩
    · refine ⟨earlier, first, later ++ [event], by simp, hstarts, ?_⟩
      intro event' hevent'
      rcases List.mem_append.mp hevent' with hlater | hlast
      · exact hkept event' hlater
      · rw [List.mem_singleton.mp hlast]
        exact hstops

/-- It was so at the start or an event has begun it, and no event has ended
it since. -/
def Lasting (initially : Prop) (starts stops : Event → Prop)
    (trace : List Event) : Prop :=
  Since starts stops trace ∨ initially ∧ ∀ event ∈ trace, ¬stops event

theorem lasting_nil {initially : Prop} :
    Lasting initially starts stops [] ↔ initially := by
  simp [Lasting, not_since_nil]

theorem lasting_append
    {initially : Prop} {trace : List Event} {event : Event} :
    Lasting initially starts stops (trace ++ [event]) ↔
      starts event ∨ Lasting initially starts stops trace ∧ ¬stops event := by
  unfold Lasting
  rw [since_append, List.forall_mem_append]
  simp only [List.mem_singleton, forall_eq]
  grind

end Since

/-! ## Running a list of actions -/

section Execution

variable [∀ trace s action, Decidable (guard trace s action)]

/-- Take the actions one after the other as long as the guard passes. -/
def runActions (M : StepSystem State Action Event Error)
    (guard : List Event → State → Action → Prop)
    [∀ trace s action, Decidable (guard trace s action)] :
    List Action → List Event → State → Option (List Event × State)
  | [], trace, s => some (trace, s)
  | action :: rest, trace, s =>
      if guard trace s action then
        match M.step s action with
        | .ok (s', event) => runActions M guard rest (trace ++ [event]) s'
        | .error _ => none
      else none

/-- A list of actions that goes through is a run. -/
theorem run_of_runActions
    {actions : List Action} {trace trace' : List Event} {s s' : State}
    (hbefore : M.Run guard trace s)
    (hrun : M.runActions guard actions trace s = some (trace', s')) :
    M.Run guard trace' s' := by
  induction actions generalizing trace s with
  | nil =>
      simp only [runActions, Option.some.injEq, Prod.mk.injEq] at hrun
      obtain ⟨rfl, rfl⟩ := hrun
      exact hbefore
  | cons action rest ih =>
      simp only [runActions] at hrun
      split at hrun
      next hguard =>
        split at hrun
        next next event hmove =>
          exact ih (.step hbefore hguard hmove) hrun
        next => simp at hrun
      next => simp at hrun

/-- The total rule: where every allowed action goes through and keeps the
invariant, every list of allowed actions does. -/
theorem exists_runActions
    (Inv : List Event → State → Prop) (allowed : Action → Prop)
    (hround : ∀ {trace s action}, Inv trace s → allowed action →
      guard trace s action ∧ ∃ s' event,
        M.step s action = .ok (s', event) ∧ Inv (trace ++ [event]) s')
    {actions : List Action} {trace : List Event} {s : State}
    (hinv : Inv trace s) (hallowed : ∀ action ∈ actions, allowed action) :
    ∃ trace' s', M.runActions guard actions trace s = some (trace', s') ∧
      Inv trace' s' := by
  induction actions generalizing trace s with
  | nil => exact ⟨trace, s, rfl, hinv⟩
  | cons action rest ih =>
      rcases List.forall_mem_cons.mp hallowed with ⟨haction, hrest⟩
      rcases hround hinv haction with ⟨hguard, next, event, hmove, hnext⟩
      rcases ih hnext hrest with ⟨trace', s', hrun, hlast⟩
      refine ⟨trace', s', ?_, hlast⟩
      rw [runActions, if_pos hguard, hmove]
      exact hrun

/-- What a list of actions taken from the start does, as a predicate on the
trace and the state it ends in. -/
def Replays (M : StepSystem State Action Event Error)
    (guard : List Event → State → Action → Prop)
    [∀ trace s action, Decidable (guard trace s action)]
    (actions : List Action) (check : List Event → State → Bool) : Bool :=
  match M.runActions guard actions [] M.start with
  | some (trace, s) => check trace s
  | none => false

theorem exists_run_of_replays
    {actions : List Action} {check : List Event → State → Bool}
    (hreplay : M.Replays guard actions check = true) :
    ∃ trace s, M.Run guard trace s ∧ check trace s = true := by
  unfold Replays at hreplay
  split at hreplay
  next trace s hrun =>
    exact ⟨trace, s, run_of_runActions .start hrun, hreplay⟩
  next => simp at hreplay

end Execution

end StepSystem

end Nachos.Library
