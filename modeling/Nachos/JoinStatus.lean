import Nachos.JoinExit

/-!
# What a join tells the parent

`JoinUpdate` returns only after the child has stored its status, and at most
once for each child; what it returns is 0, not the status.  A child signals
its parent when it calls `Exit`, and not when its executable is not loaded.
-/

namespace Nachos

open Library

namespace Processes

/-! ## Runs of a parent with children -/

/-- The name of an executable. -/
def program : CString := [97#8]

def advanceBy (t : ThreadId) (count : ℕ) : List Action :=
  List.replicate count ⟨t, .proceed⟩

/-- The thread creates a child, through to the return of `Exec`. -/
def execChild (t : ThreadId) : List Action :=
  [⟨t, .call (.exec program)⟩, ⟨t, .answer true⟩] ++ advanceBy t 8

/-- The thread calls `Exit` and comes to its wait in `ExitUpdate`. -/
def exitChild (t : ThreadId) (ec : ℤ) : List Action :=
  [⟨t, .call (.exit ec)⟩] ++ advanceBy t 5

/-- Process 0 joins its child 1, which exits with `ec`. -/
def joinOfChild (ec : ℤ) : List Action :=
  execChild 0 ++ [⟨1, .answer true⟩] ++ exitChild 1 ec ++
    [⟨0, .call (.join 1)⟩] ++ advanceBy 0 6

/-! ## Joins and exits -/

section Runs

variable {trace : List Event} {k : Processes}

/-- The calls of `JoinUpdate` on `c` that have returned 0. -/
def joinsReturned (trace : List Event) (c : ℕ) : ℕ :=
  trace.countP fun
    | .returned _ call result => decide (call = .join c ∧ result = 0)
    | _ => false

/-- The calls of `ExitUpdate` by `c`. -/
def exitCalls (trace : List Event) (c : ℕ) : ℕ :=
  trace.countP fun
    | .called q call => decide (q = c ∧ call.IsExit)
    | _ => false

theorem exits_le_exitCalls (trace : List Event) (c : ℕ) :
    trace.countP (exits c) ≤ exitCalls trace c := by
  apply List.countP_mono_left
  intro event _ hexit
  cases event with
  | called q call => grind [exits]
  | _ => simp [exits] at hexit

theorem exitCalls_le_one
    (hreaches : processSystem.Reaches trace k) (c : ℕ) :
    exitCalls trace c ≤ 1 := by
  apply le_trans _ (programs_le_one hreaches c)
  apply List.countP_mono_left
  intro event _ hcounted
  cases event with
  | called q call => grind [programs]
  | _ => simp at hcounted

/-- The step in which a join of a child returns 0. -/
theorem joined_step
    {k' : Processes} {action : Action} {p c : ℕ}
    (hreaches : processSystem.Reaches trace k)
    (hstep : k.step action = .ok (k', .returned p (.join c) 0)) :
    Parent trace p c ∧ 1 ≤ trace.countP (given (.joinsem c)) := by
  constructor
  · rcases step_script hreaches hstep with
      ⟨q, old, new, spawned, hget, hscript, -⟩
    cases hscript
    exact (script_of_getElem? hreaches hget).head c rfl rfl
  · have hafter : processSystem.Reaches _ k' := .step hreaches trivial hstep
    have hreturned := joinReturns_le_taken hafter c
    have hgiven : _ ≤ List.countP (given (.joinsem c)) _ :=
      taken_le_given hafter rfl
    have hone : (joinReturns c).credit (.returned p (.join c) 0) = true := by
      simp [joinReturns]
    simp only [List.countP_append, List.countP_singleton, hone, if_true,
      given, Bool.false_eq_true, if_false] at hreturned hgiven
    omega

/-- A join never returns early, and each exit releases at most one join. -/
theorem join_never_early
    (hreaches : processSystem.Reaches trace k) :
    (∀ earlier later p (c : ℕ),
      trace = earlier ++ .returned p (.join c) 0 :: later →
        (∃ ec, .called c (.exit ec) ∈ earlier ∧
          .statusSet c ec ∈ earlier) ∧ k.parentID c = some p) ∧
      ∀ c, joinsReturned trace c ≤ exitCalls trace c ∧
        exitCalls trace c ≤ 1 := by
  constructor
  · rintro earlier later p c rfl
    rcases hreaches.step_at with
      ⟨before, after, action, hbefore, -, hstep, -⟩
    rcases joined_step hbefore hstep with ⟨hparent, hgiven⟩
    refine ⟨status_of_given hbefore hgiven, ?_⟩
    apply parentID_of_parent hreaches
    exact hparent.imp (fun hmem => List.mem_append_left _ hmem) id
  · intro c
    refine ⟨?_, exitCalls_le_one hreaches c⟩
    calc
      joinsReturned trace c ≤ trace.countP (taken (.joinsem c)) :=
        joinReturns_le_taken hreaches c
      _ ≤ trace.countP (given (.joinsem c)) := taken_le_given hreaches rfl
      _ ≤ trace.countP (exits c) := given_le_exits hreaches c
      _ ≤ exitCalls trace c := exits_le_exitCalls trace c

/-- The run in which process 0 joins its child. -/
theorem join_never_early_joinOfChild :
    ∃ trace k, processSystem.Reaches trace k ∧
      .returned 0 (.join 1) 0 ∈ trace ∧
      (∃ ec, .called 1 (.exit ec) ∈ trace ∧ .statusSet 1 ec ∈ trace) ∧
      k.parentID 1 = some 0 ∧ joinsReturned trace 1 = 1 ∧
      exitCalls trace 1 = 1 := by
  have hreplays : processSystem.Replays StepSystem.anyStep (joinOfChild 7)
      (fun trace _ => decide (.returned 0 (.join 1) 0 ∈ trace) &&
        decide (joinsReturned trace 1 = 1)) = true := by
    decide +kernel
  rcases StepSystem.exists_run_of_replays hreplays with
    ⟨trace, k, hrun, hcheck⟩
  simp only [Bool.and_eq_true, decide_eq_true_eq] at hcheck
  have hmain := join_never_early hrun
  rcases List.append_of_mem hcheck.1 with ⟨earlier, later, htrace⟩
  rcases hmain.1 earlier later 0 1 htrace with
    ⟨⟨ec, hcalled, hstatus⟩, hparent⟩
  have hcounts := hmain.2 1
  refine ⟨trace, k, hrun, hcheck.1, ⟨ec, ?_, ?_⟩, hparent, hcheck.2, ?_⟩
  · rw [htrace]
    exact List.mem_append_left _ hcalled
  · rw [htrace]
    exact List.mem_append_left _ hstatus
  · omega

/-! ## The value a join returns -/

/-- Every join of a child has returned the status the child passed to
`Exit`. -/
def JoinReturnsStatus (trace : List Event) : Prop :=
  ∀ earlier later p (c : ℕ) v,
    trace = earlier ++ .returned p (.join c) v :: later →
      .created p c ∈ earlier → .called c (.exit v) ∈ earlier

/-- Every child whose join has returned had passed 0 to `Exit`. -/
def JoinedExitZero (trace : List Event) : Prop :=
  ∀ earlier later p (c : ℕ) v ec,
    trace = earlier ++ .returned p (.join c) v :: later →
      .created p c ∈ earlier → .called c (.exit ec) ∈ earlier → ec = 0

theorem refusedByOthers
    (hreaches : processSystem.Reaches trace k) : RefusedByOthers trace k := by
  apply hreaches.invariant RefusedByOthers
  · intro p script hmem c hrefusal
    obtain ⟨-, rfl⟩ : p = 0 ∧ script = [.user] := by
      simpa [processSystem, start, Processes.scripts] using hmem
    simp at hrefusal
  · intro trace k k' action event hbefore hrefused _ hstep
    exact refusedByOthers_step hbefore hrefused hstep

/-- The results `handle_SC_Join` writes: 0, or -1 when it refuses. -/
theorem Script.join_result
    {parent : ℕ → ℕ → Prop} {allotted : ℕ → Prop} {p c : ℕ} {v : ℤ}
    {script : List Stmt} (h : Script parent allotted p script)
    (hmem : .writeResult (.join c) v ∈ script) : v = 0 ∨ v = -1 := by
  cases h with
  | kernel hbody hsuffix =>
      have hall := fun stmt h => hsuffix.mem (a := stmt) h
      cases hbody <;>
        grind [execUpdate, execFull, execGranted, joinUpdate, exec_ne_join]
  | creating hexec => grind [execGranted, exec_ne_join]
  | exiting _ _ hsuffix =>
      have hbody := hsuffix.mem hmem
      simp [exitUpdate] at hbody
  | leaving _ hsuffix =>
      have hbody := hsuffix.mem hmem
      simp at hbody
  | _ => simp at hmem

/-- The join of a child returns 0. -/
theorem child_join_eq_zero
    {k' : Processes} {action : Action} {p c : ℕ} {v : ℤ}
    (hreaches : processSystem.Reaches trace k)
    (hstep : k.step action = .ok (k', .returned p (.join c) v))
    (hparent : Parent trace p c) : v = 0 := by
  rcases step_script hreaches hstep with
    ⟨q, old, new, spawned, hget, hscript, -⟩
  have hold := script_of_getElem? hreaches hget
  cases hscript
  rcases hold.join_result List.mem_cons_self with hzero | rfl
  · exact hzero
  · exact (refusedByOthers hreaches p _ (List.mem_of_getElem? hget) c
      (by simp) hparent).elim

theorem exit_status_unique
    (hreaches : processSystem.Reaches trace k) {c : ℕ} {ec ec' : ℤ}
    (h : .called c (.exit ec) ∈ trace) (h' : .called c (.exit ec') ∈ trace) :
    ec = ec' := by
  have heq := eq_of_countP_le_one (exitCalls_le_one hreaches c) h
    (by simp [Call.IsExit]) h' (by simp [Call.IsExit])
  simpa using heq

/-- A join returns the status of the child exactly when that status is 0. -/
theorem join_returns_status_iff
    (hreaches : processSystem.Reaches trace k) :
    JoinReturnsStatus trace ↔ JoinedExitZero trace := by
  -- at every return of a join of a child: the value, and a status
  have hjoin : ∀ earlier later p (c : ℕ) v,
      trace = earlier ++ .returned p (.join c) v :: later →
        .created p c ∈ earlier → v = 0 ∧
          (∃ ec, .called c (.exit ec) ∈ earlier) ∧
          ∀ ec ec', .called c (.exit ec) ∈ earlier →
            .called c (.exit ec') ∈ earlier → ec = ec' := by
    rintro earlier later p c v rfl hcreated
    rcases hreaches.step_at with
      ⟨before, after, action, hbefore, -, hstep, -⟩
    obtain rfl := child_join_eq_zero hbefore hstep (.inl hcreated)
    rcases joined_step hbefore hstep with ⟨-, hgiven⟩
    rcases status_of_given hbefore hgiven with ⟨ec, hcalled, -⟩
    exact ⟨rfl, ⟨ec, hcalled⟩, fun _ _ => exit_status_unique hbefore⟩
  constructor
  · intro hstatus earlier later p c v ec htrace hcreated hcalled
    rcases hjoin earlier later p c v htrace hcreated with ⟨rfl, -, hunique⟩
    exact hunique ec 0 hcalled (hstatus earlier later p c 0 htrace hcreated)
  · intro hzero earlier later p c v htrace hcreated
    rcases hjoin earlier later p c v htrace hcreated with
      ⟨rfl, ⟨ec, hcalled⟩, -⟩
    have hec := hzero earlier later p c 0 ec htrace hcreated hcalled
    rwa [hec] at hcalled

/-- A child that exits with 0 is joined with its status. -/
theorem join_returns_status_iff_zero :
    ∃ trace k, processSystem.Reaches trace k ∧
      .returned 0 (.join 1) 0 ∈ trace ∧
      (JoinReturnsStatus trace ↔ JoinedExitZero trace) := by
  have hreplays : processSystem.Replays StepSystem.anyStep (joinOfChild 0)
      (fun trace _ => decide (.returned 0 (.join 1) 0 ∈ trace)) = true := by
    decide +kernel
  rcases StepSystem.exists_run_of_replays hreplays with
    ⟨trace, k, hrun, hcheck⟩
  exact ⟨trace, k, hrun, by simpa using hcheck, join_returns_status_iff hrun⟩

/-- A child that exits with 7 is joined with 0. -/
theorem join_returns_not_status :
    ∃ trace k, processSystem.Reaches trace k ∧
      .called 1 (.exit 7) ∈ trace ∧ ¬JoinReturnsStatus trace := by
  have hreplays : processSystem.Replays StepSystem.anyStep (joinOfChild 7)
      (fun trace _ => decide (trace.getLast? = some (.returned 0 (.join 1) 0)) &&
        decide (.created 0 1 ∈ trace.dropLast) &&
        decide (.called 1 (.exit 7) ∈ trace) &&
        decide (.called 1 (.exit 0) ∉ trace)) = true := by
    decide +kernel
  rcases StepSystem.exists_run_of_replays hreplays with
    ⟨trace, k, hrun, hcheck⟩
  simp only [Bool.and_eq_true, decide_eq_true_eq] at hcheck
  rcases hcheck with ⟨⟨⟨hlast, hcreated⟩, hcalled⟩, hnot⟩
  have htrace := List.dropLast_append_getLast? _ hlast
  refine ⟨trace, k, hrun, hcalled, fun hstatus => hnot ?_⟩
  exact List.dropLast_subset _
    (hstatus trace.dropLast [] 0 1 0 htrace.symm hcreated)

/-! ## Every ending but one signals the parent -/

/-- The processes that could not be loaded. -/
def loadFails (c : ℕ) : Event → Bool
  | .loaded q success => decide (q = c ∧ success = false)
  | _ => false

theorem loads_split (trace : List Event) (c : ℕ) :
    trace.countP (loads c).credit =
      trace.countP (programs c).debit + trace.countP (loadFails c) := by
  apply countP_eq_add
  · intro event
    cases event <;> grind [loads, programs, loadFails]
  · intro event
    cases event <;> grind [programs, loadFails]

theorem endings_split (trace : List Event) (c : ℕ) :
    trace.countP (endings c).debit =
      trace.countP (exits c) + trace.countP (loadFails c) := by
  apply countP_eq_add
  · intro event
    cases event <;> grind [endings, exits, loadFails]
  · intro event
    cases event <;> grind [exits, loadFails]

/-- When the thread of a process has finished, the parent has been signalled
exactly once if the executable was loaded, and not at all otherwise. -/
theorem finished_signals_iff_loaded
    (hreaches : processSystem.Reaches trace k) :
    ∀ c, c ≠ 0 → .finished c ∈ trace →
      (trace.countP (given (.joinsem c)) = 1 ↔ .loaded c true ∈ trace) := by
  intro c hc hfinished
  have hloads := balance_of_reaches (loads_tariff c) rfl hreaches
  have hprograms := balanced_of_reaches (programs_tariff c) hreaches
  have hendings := balance_of_reaches (endings_tariff c) rfl hreaches
  have hsignals := childSignals_balance hreaches c
  have hforked := forked_le_one hreaches c
  have hsplit := loads_split trace c
  have hsplit' := endings_split trace c
  have hnonneg := (loads_covers c).pending_nonneg hreaches
  have hnonneg' := (programs_covers c).pending_nonneg hreaches
  have hsignal := (childSignals_covers c).pending_nonneg hreaches
  have hcover := (endings_covers_childSignals c).pending_le hreaches
  have hfin : 1 ≤ trace.countP (endings c).credit :=
    countP_pos_of_mem hfinished (by simp [endings])
  have hopening : (programs c).owes 0 .user = 0 := by
    simp [programs, hc.symm]
  have hexits : trace.countP (exits c) ≤
      trace.countP (programs c).credit := by
    apply List.countP_mono_left
    intro event _ hexit
    cases event <;> grind [exits, programs]
  rw [Ledger.Balanced, hopening] at hprograms
  have hloaded : .loaded c true ∈ trace ↔
      1 ≤ trace.countP (programs c).debit := by
    constructor
    · intro hmem
      exact countP_pos_of_mem hmem (by simp [programs])
    · intro hpos
      rcases List.countP_pos_iff.mp hpos with ⟨event, hmem, hcounted⟩
      cases event <;> simp [programs] at hcounted
      rcases hcounted with ⟨rfl, rfl⟩
      exact hmem
  rw [hloaded]
  rw [if_neg hc] at hforked
  constructor <;> intro h <;> omega

/-- The child of a parent that joins it signals once. -/
theorem finished_signals_iff_loaded_joined :
    ∃ trace k, processSystem.Reaches trace k ∧ .finished 1 ∈ trace ∧
      (trace.countP (given (.joinsem 1)) = 1 ↔ .loaded 1 true ∈ trace) := by
  have hreplays : processSystem.Replays StepSystem.anyStep
      (joinOfChild 7 ++ advanceBy 1 3)
      (fun trace _ => decide (.finished 1 ∈ trace)) = true := by
    decide +kernel
  rcases StepSystem.exists_run_of_replays hreplays with
    ⟨trace, k, hrun, hcheck⟩
  have hfinished : .finished 1 ∈ trace := by simpa using hcheck
  exact ⟨trace, k, hrun, hfinished,
    finished_signals_iff_loaded hrun 1 (by decide) hfinished⟩

/-- A child whose executable is not loaded finishes without a signal. -/
theorem finished_without_signal :
    ∃ trace k, processSystem.Reaches trace k ∧ .created 0 1 ∈ trace ∧
      .finished 1 ∈ trace ∧ trace.countP (given (.joinsem 1)) ≠ 1 := by
  have hreplays : processSystem.Replays StepSystem.anyStep
      (execChild 0 ++ [⟨1, .answer false⟩] ++ advanceBy 1 1)
      (fun trace _ => decide (.created 0 1 ∈ trace) &&
        decide (.finished 1 ∈ trace) &&
        decide (trace.countP (given (.joinsem 1)) ≠ 1)) = true := by
    decide +kernel
  rcases StepSystem.exists_run_of_replays hreplays with
    ⟨trace, k, hrun, hcheck⟩
  simp only [Bool.and_eq_true, decide_eq_true_eq] at hcheck
  exact ⟨trace, k, hrun, hcheck.1.1, hcheck.1.2, hcheck.2⟩

end Runs

end Processes

end Nachos
