import Nachos.ExitHandshake

/-!
# Programs that join every child

In the runs here every executable is loaded, and every process joins each of
its children once before it ends.  What its program has called then tells
which units a process has taken: one of each child it has joined and is not
waiting for, and, when it has ended, one of every child it has created.
-/

namespace Nachos

open Library

namespace Processes

/-! ## The discipline -/

/-- The process `p` has called `Join` on its child `c`. -/
def CalledJoin (trace : List Event) (p c : ℕ) : Prop :=
  List.Sublist [.created p c, .called p (.join c)] trace

instance (trace : List Event) (p c : ℕ) : Decidable (CalledJoin trace p c) :=
  inferInstanceAs (Decidable (List.Sublist _ _))

/-- The process `p` has called `Join` on all its children. -/
def calledJoins (trace : List Event) (p : ℕ) : Bool :=
  decide (∀ c < maxProcess, .created p c ∈ trace → CalledJoin trace p c)

/-- The calls of a program that joins each child once before it ends.  A
`Join` of a process that is not a child is refused and does no harm, except
that the entry of process 0 names process 0 as its own parent. -/
def mayCall (trace : List Event) (p : ℕ) : Call → Bool
  | .join c => decide (¬(p = 0 ∧ c = 0) ∧ ¬CalledJoin trace p c.toNat)
  | .exit _ => calledJoins trace p
  | .halt => decide (p = 0) && calledJoins trace p
  | .exec _ | .execV _ _ => true

def joinsAll (trace : List Event) (k : Processes) (action : Action) : Bool :=
  match k.threads[action.thread]? with
  | none => true
  | some th =>
      match action.choice, th.script with
      | .call call, _ => mayCall trace th.processID call
      | .answer success, .runProcess _ :: _ => success
      | _, _ => true

/-- The runs in which every program joins each child once before it ends, and
every executable is loaded. -/
def JoinsAll (trace : List Event) (k : Processes) (action : Action) : Prop :=
  joinsAll trace k action = true

instance (trace : List Event) (k : Processes) (action : Action) :
    Decidable (JoinsAll trace k action) :=
  inferInstanceAs (Decidable (_ = true))

/-- The joins of `c` by `p`, which wait until they have taken a unit. -/
def joinWaits (p c : ℕ) : Ledger ℕ Stmt Event where
  credit
    | .passed q sem => decide (q = p ∧ sem = .joinsem c)
    | _ => false
  debit _ := false
  owes q
    | .P sem => if q = p ∧ sem = .joinsem c then 1 else 0
    | _ => 0

section Runs

variable {trace : List Event} {k k' : Processes} {action : Action}
variable {event : Event} {p c : ℕ}

/-- What the discipline says of the event of a step. -/
theorem event_of_joinsAll
    (hguard : JoinsAll trace k action)
    (hstep : k.step action = .ok (k', event)) :
    (∀ q, event ≠ .loaded q false) ∧
      ∀ q call, event = .called q call → mayCall trace q call = true := by
  rcases step_moves hstep with ⟨th, -, hget, -, hmoves⟩
  simp only [JoinsAll, joinsAll, hget] at hguard
  generalize action.choice = choice at hmoves hguard
  cases hmoves with
  | locally hlocal =>
      generalize th.script = old at hlocal hguard
      cases hlocal <;> simp_all
  | updated _ _ hupdate => cases hupdate <;> simp
  | _ => simp

theorem not_loadFails
    (hrun : processSystem.Run JoinsAll trace k) :
    .loaded c false ∉ trace := by
  apply hrun.invariant (fun trace _ => .loaded c false ∉ trace)
  · simp
  · intro trace k k' action event _ hinv hguard hstep hmem
    rcases List.mem_append.mp hmem with hearlier | hnow
    · exact hinv hearlier
    · have hevent := List.mem_singleton.mp hnow
      exact (event_of_joinsAll hguard hstep).1 c hevent.symm

theorem zero_of_halt
    (hrun : processSystem.Run JoinsAll trace k)
    (hhalt : .called c .halt ∈ trace) : c = 0 := by
  rcases List.append_of_mem hhalt with ⟨earlier, later, rfl⟩
  rcases hrun.step_at with ⟨before, after, action, -, hguard, hstep, -⟩
  have hmay := (event_of_joinsAll hguard hstep).2 c .halt rfl
  simp only [mayCall, Bool.and_eq_true, decide_eq_true_eq] at hmay
  exact hmay.1

/-! ## The joins of one child -/

theorem calledJoin_concat :
    CalledJoin (trace ++ [event]) p c ↔
      CalledJoin trace p c ∨
        .created p c ∈ trace ∧ event = .called p (.join c) := by
  unfold CalledJoin
  constructor
  · intro hsub
    rcases List.sublist_append_iff.mp hsub with
      ⟨first, second, heq, hfirst, hsecond⟩
    rcases List.sublist_cons_iff.mp hsecond with hnil | ⟨rest, rfl, hrest⟩
    · rw [List.sublist_nil] at hnil
      rw [hnil, List.append_nil] at heq
      exact .inl (heq ▸ hfirst)
    · rw [List.sublist_nil] at hrest
      rw [hrest] at heq
      have hsplit : [Event.created p c] ++ [.called p (.join c)] =
          first ++ [event] := heq
      obtain ⟨hfront, hlast⟩ := List.append_inj' hsplit rfl
      refine .inr ⟨?_, by simpa using hlast.symm⟩
      rw [← hfront] at hfirst
      exact List.singleton_sublist.mp hfirst
  · rintro (hbefore | ⟨hcreated, rfl⟩)
    · exact hbefore.trans (List.sublist_append_left _ _)
    · exact (List.singleton_sublist.mpr hcreated).append (List.Sublist.refl _)

theorem calledJoin_append
    (hcalled : CalledJoin trace p c) (event : Event) :
    CalledJoin (trace ++ [event]) p c :=
  calledJoin_concat.mpr (.inl hcalled)

/-- A join of `c` by `p` that is granted adds a wait; otherwise the waits and
the units taken add up to the same. -/
theorem ScriptStep.joinWaits
    {parentID : ℕ → Option ℕ} {q : ℕ} {old new : List Stmt}
    {spawned : List (ℕ × List Stmt)}
    (hstep : ScriptStep parentID q old event new spawned) (p c : ℕ) :
    (if (Processes.joinWaits p c).credit event then 1 else 0) +
        owed (Processes.joinWaits p c).owes (q, new) +
        pending (Processes.joinWaits p c).owes spawned =
      owed (Processes.joinWaits p c).owes (q, old) +
        if event = .called p (.join c) ∧ parentID c = some p then 1
        else 0 := by
  cases hstep <;>
    simp [Processes.joinWaits, execUpdate, execFull, execGranted, joinUpdate,
      exitUpdate] <;>
    grind

/-- A process waits once for each child it has joined. -/
theorem joinWaits_balance
    (hrun : processSystem.Run JoinsAll trace k) (p c : ℕ) :
    trace.countP (joinWaits p c).credit +
        pending (joinWaits p c).owes k.scripts =
      if CalledJoin trace p c then 1 else 0 := by
  apply hrun.invariant (fun trace k =>
    trace.countP (joinWaits p c).credit +
        pending (joinWaits p c).owes k.scripts =
      if CalledJoin trace p c then 1 else 0)
  · simp [processSystem, start, Processes.scripts, joinWaits, CalledJoin]
  · intro trace k k' action event hbefore hinv hguard hstep
    have hmay := (event_of_joinsAll hguard hstep).2
    rcases step_script hbefore.reaches hstep with
      ⟨q, old, new, spawned, hget, hscript, hscripts⟩
    have hposts := hscript.joinWaits p c
    rw [hscripts, Ledger.countP_concat, pending_append,
      pending_set _ _ hget]
    have hgranted : (event = .called p (.join c) ∧ k.parentID c = some p) ↔
        .created p c ∈ trace ∧ event = .called p (.join c) := by
      constructor
      · rintro ⟨rfl, hparentID⟩
        have hallowed := hmay p _ rfl
        simp only [mayCall, decide_eq_true_eq] at hallowed
        rcases (shaped_of_reaches hbefore.reaches).parent_of_parentID c p
          hparentID with hcreated | ⟨rfl, rfl⟩
        · exact ⟨hcreated, rfl⟩
        · exact (hallowed.1 ⟨rfl, rfl⟩).elim
      · rintro ⟨hcreated, rfl⟩
        exact ⟨rfl, parentID_of_parent hbefore.reaches (.inl hcreated)⟩
    rw [if_congr hgranted rfl rfl] at hposts
    have hcalled : CalledJoin (trace ++ [event]) p c ↔ _ := calledJoin_concat
    by_cases hnow : .created p c ∈ trace ∧ event = .called p (.join c)
    · have hallowed := hmay p _ hnow.2
      simp only [mayCall, decide_eq_true_eq, Int.toNat_natCast] at hallowed
      rw [if_neg hallowed.2] at hinv
      rw [if_pos hnow] at hposts
      rw [if_pos (hcalled.mpr (.inr hnow))]
      omega
    · rw [if_neg hnow] at hposts
      simp only [hcalled, hnow, or_false]
      omega

theorem joinWaits_owes_nonneg (p c q : ℕ) (stmt : Stmt) :
    0 ≤ (joinWaits p c).owes q stmt := by
  cases stmt with
  | P sem =>
      simp only [joinWaits]
      split <;> omega
  | _ => simp [joinWaits]

/-! ## The children of a process that has ended -/

/-- The program of the process has called `Exit` or `Halt`. -/
def Ended (trace : List Event) (p : ℕ) : Prop :=
  ∃ event ∈ trace, (programs p).credit event = true

/-- A process that has ended has joined every child. -/
theorem calledJoin_of_ended
    (hrun : processSystem.Run JoinsAll trace k)
    (hended : Ended trace p) (hcreated : .created p c ∈ trace) :
    CalledJoin trace p c := by
  revert hended hcreated
  apply hrun.invariant (fun trace _ =>
    Ended trace p → .created p c ∈ trace → CalledJoin trace p c)
  · rintro ⟨event, hmem, -⟩
    simp at hmem
  · intro trace k k' action event hbefore hinv hguard hstep hended hcreated
    rcases step_script hbefore.reaches hstep with
      ⟨q, old, new, spawned, hget, hscript, -⟩
    rcases List.mem_append.mp hcreated with hearlier | hnow
    · rcases hended with ⟨last, hmem, hcounted⟩
      rcases List.mem_append.mp hmem with hbeforeEnd | hend
      · exact calledJoin_append (hinv ⟨last, hbeforeEnd, hcounted⟩ hearlier) _
      · -- the call that ends the program has found all children joined
        obtain rfl := List.mem_singleton.mp hend
        have hmay := (event_of_joinsAll hguard hstep).2
        have hlt : c < maxProcess := by
          have hshaped := shaped_of_reaches hbefore.reaches
          have hknown := (hshaped.parents p c (.inl hearlier)).2.1
          rcases Option.ne_none_iff_exists'.mp hknown with
            ⟨⟨pid, par⟩, hidentity⟩
          exact (hshaped.entries c pid par hidentity).2.2.2
        have hall : calledJoins trace p = true := by
          cases last with
          | called q call =>
              simp only [programs, decide_eq_true_eq] at hcounted
              have hallowed := hmay q call rfl
              rcases hcounted with ⟨rfl, hexit | rfl⟩
              · cases call <;> simp_all [Call.IsExit, mayCall]
              · simp_all [mayCall]
          | _ => simp [programs] at hcounted
        simp only [calledJoins, decide_eq_true_eq] at hall
        exact calledJoin_append (hall c hlt hearlier) _
    · -- a process that creates a child has not ended
      obtain rfl := List.mem_singleton.mp hnow
      cases hscript with
      | @created _ call =>
          have hunits := programs_units hbefore.reaches p
          have howed := (programs_covers p).owed_le_pending hbefore.reaches
            (List.mem_of_getElem? hget)
          have hone : owed (programs p).owes
              (p, execGranted c call ++ [.user]) = 1 := by
            simp [programs, execGranted]
          rcases hended with ⟨last, hmem, hcounted⟩
          rcases List.mem_append.mp hmem with hbeforeEnd | hend
          · have hpos : 1 ≤ trace.countP (programs p).credit :=
              countP_pos_of_mem hbeforeEnd hcounted
            omega
          · obtain rfl := List.mem_singleton.mp hend
            simp [programs] at hcounted

end Runs

end Processes

end Nachos
