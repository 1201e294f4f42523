import Mathlib.Algebra.BigOperators.Group.List.Basic
import Mathlib.Algebra.Order.BigOperators.Group.List
import Mathlib.Algebra.BigOperators.Ring.List
import Mathlib.Tactic

/-!
# Ledgers: what has happened against what is still to be done

Agents carry scripts, lists of the statements they still have to execute, and
every execution of a statement is an event of the trace.  A ledger counts the
events on two sides and weighs the statements that are still pending; it is
balanced when both sides agree up to what is pending.  A step of one agent
keeps a ledger balanced when it posts its event correctly, and this is a
condition on that step alone.
-/

namespace Nachos.Library

variable {Owner Stmt Event : Type}

/-- The weight of one script. -/
def owed (owes : Owner → Stmt → ℤ) (script : Owner × List Stmt) : ℤ :=
  (script.2.map (owes script.1)).sum

/-- The weight of all scripts. -/
def pending
    (owes : Owner → Stmt → ℤ) (scripts : List (Owner × List Stmt)) : ℤ :=
  (scripts.map (owed owes)).sum

@[simp] theorem owed_nil (owes : Owner → Stmt → ℤ) (owner : Owner) :
    owed owes (owner, []) = 0 := rfl

@[simp] theorem owed_cons
    (owes : Owner → Stmt → ℤ) (owner : Owner) (stmt : Stmt)
    (rest : List Stmt) :
    owed owes (owner, stmt :: rest) =
      owes owner stmt + owed owes (owner, rest) := rfl

@[simp] theorem owed_append
    (owes : Owner → Stmt → ℤ) (owner : Owner) (before rest : List Stmt) :
    owed owes (owner, before ++ rest) =
      owed owes (owner, before) + owed owes (owner, rest) := by
  simp [owed]

@[simp] theorem pending_nil (owes : Owner → Stmt → ℤ) :
    pending owes [] = 0 := rfl

@[simp] theorem pending_cons
    (owes : Owner → Stmt → ℤ) (script : Owner × List Stmt)
    (scripts : List (Owner × List Stmt)) :
    pending owes (script :: scripts) =
      owed owes script + pending owes scripts := rfl

@[simp] theorem pending_append
    (owes : Owner → Stmt → ℤ) (scripts spawned : List (Owner × List Stmt)) :
    pending owes (scripts ++ spawned) =
      pending owes scripts + pending owes spawned := by
  simp [pending]

theorem owed_sub
    (more less : Owner → Stmt → ℤ) (script : Owner × List Stmt) :
    owed (fun owner stmt => more owner stmt - less owner stmt) script =
      owed more script - owed less script := by
  rcases script with ⟨owner, stmts⟩
  induction stmts with
  | nil => rfl
  | cons stmt rest ih =>
      simp only [owed_cons, ih]
      omega

theorem owed_add
    (first second : Owner → Stmt → ℤ) (script : Owner × List Stmt) :
    owed (fun owner stmt => first owner stmt + second owner stmt) script =
      owed first script + owed second script := by
  rcases script with ⟨owner, stmts⟩
  induction stmts with
  | nil => rfl
  | cons stmt rest ih =>
      simp only [owed_cons, ih]
      omega

theorem pending_add
    (first second : Owner → Stmt → ℤ) (scripts : List (Owner × List Stmt)) :
    pending (fun owner stmt => first owner stmt + second owner stmt) scripts =
      pending first scripts + pending second scripts := by
  induction scripts with
  | nil => rfl
  | cons script scripts ih =>
      simp only [pending_cons, owed_add, ih]
      omega

theorem pending_set
    (owes : Owner → Stmt → ℤ) {scripts : List (Owner × List Stmt)} {t : ℕ}
    {old : Owner × List Stmt} (new : Owner × List Stmt)
    (hget : scripts[t]? = some old) :
    pending owes (scripts.set t new) =
      pending owes scripts - owed owes old + owed owes new := by
  induction scripts generalizing t with
  | nil => simp at hget
  | cons script scripts ih =>
      cases t with
      | zero =>
          obtain rfl : script = old := by simpa using hget
          simp only [List.set_cons_zero, pending_cons]
          omega
      | succ t =>
          have hrest := ih (by simpa using hget)
          simp only [List.set_cons_succ, pending_cons, hrest]
          omega

/-! ## Bounds -/

section Bounds

variable {owes : Owner → Stmt → ℤ} {scripts : List (Owner × List Stmt)}

theorem pending_le_pending
    {more : Owner → Stmt → ℤ}
    (hle : ∀ script ∈ scripts, owed owes script ≤ owed more script) :
    pending owes scripts ≤ pending more scripts :=
  List.sum_le_sum hle

theorem pending_nonneg
    (hnonneg : ∀ script ∈ scripts, 0 ≤ owed owes script) :
    0 ≤ pending owes scripts := by
  apply List.sum_nonneg
  intro weight hmem
  rcases List.mem_map.mp hmem with ⟨script, hscript, rfl⟩
  exact hnonneg script hscript

theorem owed_nonneg
    (hnonneg : ∀ owner stmt, 0 ≤ owes owner stmt)
    (script : Owner × List Stmt) : 0 ≤ owed owes script := by
  apply List.sum_nonneg
  intro weight hmem
  rcases List.mem_map.mp hmem with ⟨stmt, -, rfl⟩
  exact hnonneg script.1 stmt

theorem owed_eq_zero
    {script : Owner × List Stmt}
    (hzero : ∀ stmt ∈ script.2, owes script.1 stmt = 0) :
    owed owes script = 0 := by
  apply List.sum_eq_zero
  intro weight hmem
  rcases List.mem_map.mp hmem with ⟨stmt, hstmt, rfl⟩
  exact hzero stmt hstmt

theorem owed_le_pending
    (hnonneg : ∀ script ∈ scripts, 0 ≤ owed owes script)
    {script : Owner × List Stmt} (hmem : script ∈ scripts) :
    owed owes script ≤ pending owes scripts := by
  apply List.single_le_sum
  · intro weight hweight
    rcases List.mem_map.mp hweight with ⟨other, hother, rfl⟩
    exact hnonneg other hother
  · exact List.mem_map_of_mem hmem

theorem pending_nonpos
    (hnonpos : ∀ script ∈ scripts, owed owes script ≤ 0) :
    pending owes scripts ≤ 0 := by
  have hzero : pending (fun _ _ => 0) scripts = 0 := by
    apply List.sum_eq_zero
    intro weight hmem
    rcases List.mem_map.mp hmem with ⟨script, -, rfl⟩
    simp [owed]
  rw [← hzero]
  apply pending_le_pending
  intro script hmem
  simpa [owed] using hnonpos script hmem

end Bounds

/-- No rest of the script weighs less than zero. -/
def Solvent (owes : Owner → Stmt → ℤ) (owner : Owner) : List Stmt → Prop
  | [] => True
  | stmt :: rest =>
      0 ≤ owed owes (owner, stmt :: rest) ∧ Solvent owes owner rest

theorem Solvent.owed_suffix
    {owes : Owner → Stmt → ℤ} {owner : Owner} {script body : List Stmt}
    (hsolvent : Solvent owes owner body) (hsuffix : script <:+ body) :
    0 ≤ owed owes (owner, script) := by
  induction body with
  | nil =>
      rw [List.suffix_nil] at hsuffix
      simp [hsuffix]
  | cons stmt rest ih =>
      rcases List.suffix_cons_iff.mp hsuffix with rfl | hrest
      · exact hsolvent.1
      · exact ih hsolvent.2 hrest

/-! ## Balance -/

structure Ledger (Owner Stmt Event : Type) where
  credit : Event → Bool
  debit : Event → Bool
  owes : Owner → Stmt → ℤ

namespace Ledger

def Balanced
    (L : Ledger Owner Stmt Event) (opening : ℤ) (trace : List Event)
    (scripts : List (Owner × List Stmt)) : Prop :=
  (trace.countP L.credit : ℤ) + pending L.owes scripts =
    trace.countP L.debit + opening

/-- The script `old` of `owner` becomes `new` and the scripts `spawned`
start, in a step with event `event`: the ledger's account of it. -/
def Posts
    (L : Ledger Owner Stmt Event) (owner : Owner) (old : List Stmt)
    (event : Event) (new : List Stmt)
    (spawned : List (Owner × List Stmt)) : Prop :=
  (if L.credit event then 1 else 0) + owed L.owes (owner, new) +
      pending L.owes spawned =
    owed L.owes (owner, old) + if L.debit event then 1 else 0

theorem countP_concat (counted : Event → Bool) (trace : List Event)
    (event : Event) :
    ((trace ++ [event]).countP counted : ℤ) =
      trace.countP counted + if counted event then 1 else 0 := by
  rw [List.countP_append, List.countP_singleton]
  push_cast
  rfl

theorem Balanced.post
    {L : Ledger Owner Stmt Event} {opening : ℤ} {trace : List Event}
    {scripts : List (Owner × List Stmt)} {t : ℕ} {owner : Owner}
    {old new : List Stmt} {event : Event}
    {spawned : List (Owner × List Stmt)}
    (hbalanced : L.Balanced opening trace scripts)
    (hget : scripts[t]? = some (owner, old))
    (hposts : L.Posts owner old event new spawned) :
    L.Balanced opening (trace ++ [event])
      (scripts.set t (owner, new) ++ spawned) := by
  unfold Balanced Posts at *
  rw [countP_concat, countP_concat, pending_append, pending_set _ _ hget]
  omega

end Ledger

/-! ## Counting by a key -/

theorem countP_eq_add
    {counted first second : Event → Bool} {trace : List Event}
    (hcases : ∀ event, counted event = (first event || second event))
    (hdisjoint : ∀ event, first event = true → second event = false) :
    trace.countP counted = trace.countP first + trace.countP second := by
  induction trace with
  | nil => rfl
  | cons event trace ih =>
      simp only [List.countP_cons, ih, hcases]
      cases hfirst : first event with
      | true =>
          simp only [hdisjoint event hfirst]
          simp
          omega
      | false =>
          simp
          omega

/-- What happens at most once happened as one event. -/
theorem eq_of_countP_le_one
    {counted : Event → Bool} {trace : List Event} {a b : Event}
    (hcount : trace.countP counted ≤ 1)
    (ha : a ∈ trace) (hcounted : counted a = true)
    (hb : b ∈ trace) (hcounted' : counted b = true) : a = b := by
  have hlength : (trace.filter counted).length ≤ 1 := by
    rwa [← List.countP_eq_length_filter]
  have hmemA : a ∈ trace.filter counted := List.mem_filter.mpr ⟨ha, hcounted⟩
  have hmemB : b ∈ trace.filter counted := List.mem_filter.mpr ⟨hb, hcounted'⟩
  cases hfilter : trace.filter counted with
  | nil =>
      rw [hfilter] at hmemA
      simp at hmemA
  | cons only rest =>
      have hrest : rest = [] := by
        rw [hfilter, List.length_cons] at hlength
        exact List.length_eq_zero_iff.mp (by omega)
      rw [hfilter, hrest, List.mem_singleton] at hmemA hmemB
      rw [hmemA, hmemB]

theorem countP_pos_of_mem
    {counted : Event → Bool} {trace : List Event} {event : Event}
    (hmem : event ∈ trace) (hcounted : counted event = true) :
    1 ≤ trace.countP counted :=
  List.one_le_countP_iff.mpr ⟨event, hmem, hcounted⟩

/-- Events whose keys lie in a finite set are counted key by key. -/
theorem countP_eq_sum_keys
    {Key : Type} [DecidableEq Key] (counted : Event → Bool)
    (key : Event → Key) (keys : Finset Key) {trace : List Event}
    (hkeys : ∀ event ∈ trace, counted event = true → key event ∈ keys) :
    trace.countP counted =
      ∑ k ∈ keys, trace.countP fun event =>
        counted event && decide (key event = k) := by
  induction trace with
  | nil => simp
  | cons event trace ih =>
      have hrest := ih fun other hmem => hkeys other (by simp [hmem])
      simp only [List.countP_cons, hrest, Finset.sum_add_distrib]
      congr 1
      cases hcounted : counted event with
      | false => simp
      | true =>
          have hmem := hkeys event (by simp) hcounted
          simp [hmem]

end Nachos.Library
