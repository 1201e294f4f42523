import Mathlib.Data.List.Basic
import Mathlib.Tactic

/-!
# Counted loops that may fail

`countedLoop body start count s` runs `body start`, `body (start + 1)`, ...
for `count` rounds and stops at the first failure.  A loop is reasoned about
by an invariant on the round number and the state.
-/

namespace Nachos.Library

variable {State Error : Type}

def countedLoop (body : ℕ → State → Except Error State) :
    ℕ → ℕ → State → Except Error State
  | _, 0, s => .ok s
  | start, count + 1, s =>
      match body start s with
      | .ok s' => countedLoop body (start + 1) count s'
      | .error e => .error e

@[simp] theorem countedLoop_zero
    (body : ℕ → State → Except Error State) (start : ℕ) (s : State) :
    countedLoop body start 0 s = pure s := rfl

theorem countedLoop_succ
    (body : ℕ → State → Except Error State) (start count : ℕ) (s : State) :
    countedLoop body start (count + 1) s =
      body start s >>= countedLoop body (start + 1) count := by
  rw [countedLoop]
  cases body start s <;> rfl

/-- The total rule: rounds that succeed and keep the invariant make the loop
succeed with the invariant. -/
theorem countedLoop_spec
    {body : ℕ → State → Except Error State}
    (Inv : ℕ → State → Prop) {start count : ℕ} {s : State}
    (hstart : Inv start s)
    (hround : ∀ round s, start ≤ round → round < start + count →
      Inv round s → ∃ s', body round s = .ok s' ∧ Inv (round + 1) s') :
    ∃ s', countedLoop body start count s = .ok s' ∧
      Inv (start + count) s' := by
  induction count generalizing start s with
  | zero => exact ⟨s, rfl, hstart⟩
  | succ count ih =>
      obtain ⟨next, hbody, hnext⟩ :=
        hround start s le_rfl (by omega) hstart
      obtain ⟨last, hloop, hlast⟩ := ih hnext
        fun round s hle hlt => hround round s (by omega) (by omega)
      refine ⟨last, ?_, ?_⟩
      · simp only [countedLoop, hbody]
        exact hloop
      · rwa [show start + (count + 1) = start + 1 + count by omega]

/-- The partial rule: an invariant of the rounds that return holds when the
loop returns. -/
theorem countedLoop_invariant
    {body : ℕ → State → Except Error State}
    (Inv : ℕ → State → Prop) {start count : ℕ} {s s' : State}
    (hstart : Inv start s)
    (hround : ∀ round s s', start ≤ round → round < start + count →
      Inv round s → body round s = .ok s' → Inv (round + 1) s')
    (hloop : countedLoop body start count s = .ok s') :
    Inv (start + count) s' := by
  induction count generalizing start s with
  | zero =>
      obtain rfl : s = s' := by simpa [countedLoop] using hloop
      exact hstart
  | succ count ih =>
      simp only [countedLoop] at hloop
      split at hloop
      next next hbody =>
        have hlast := ih
          (hround start s next le_rfl (by omega) hstart hbody)
          (fun round s s' hle hlt => hround round s s' (by omega) (by omega))
          hloop
        rwa [show start + (count + 1) = start + 1 + count by omega]
      next => simp at hloop

/-- A loop whose rounds succeed and keep the invariant up to one that always
fails. -/
theorem countedLoop_fails
    {body : ℕ → State → Except Error State} {e : Error}
    (Inv : ℕ → State → Prop) {start count failing : ℕ} {s : State}
    (hstart : Inv start s) (hle : start ≤ failing)
    (hlt : failing < start + count)
    (hround : ∀ round s, start ≤ round → round < failing →
      Inv round s → ∃ s', body round s = .ok s' ∧ Inv (round + 1) s')
    (hfails : ∀ s, Inv failing s → body failing s = .error e) :
    countedLoop body start count s = .error e := by
  induction count generalizing start s with
  | zero => omega
  | succ count ih =>
      rcases Nat.eq_or_lt_of_le hle with rfl | hbefore
      · simp only [countedLoop, hfails s hstart]
      · rcases hround start s le_rfl hbefore hstart with ⟨next, hbody, hnext⟩
        simp only [countedLoop, hbody]
        exact ih hnext hbefore (by omega)
          fun round s hfrom => hround round s (by omega)

section Errors

variable {body : ℕ → State → Except Error State} {e : Error}

/-- A loop fails only as its rounds do. -/
theorem eq_of_countedLoop_error
    (hround : ∀ round s e', body round s = .error e' → e' = e)
    {start count : ℕ} {s : State} {e' : Error}
    (herror : countedLoop body start count s = .error e') : e' = e := by
  induction count generalizing start s with
  | zero => simp [countedLoop] at herror
  | succ count ih =>
      simp only [countedLoop] at herror
      split at herror
      next => exact ih herror
      next hbody =>
        cases herror
        exact hround _ _ _ hbody

/-- A loop with a round that always fails does so, too. -/
theorem countedLoop_error
    (hround : ∀ round s e', body round s = .error e' → e' = e)
    {start count failing : ℕ} (hstart : start ≤ failing)
    (hcount : failing < start + count)
    (hfails : ∀ s s', body failing s ≠ .ok s') (s : State) :
    countedLoop body start count s = .error e := by
  induction count generalizing start s with
  | zero => omega
  | succ count ih =>
      simp only [countedLoop]
      split
      next next hbody =>
        have hne : start ≠ failing := by
          rintro rfl
          exact hfails s next hbody
        exact ih (by omega) (by omega) next
      next e' hbody => rw [hround start s e' hbody]

end Errors

end Nachos.Library
