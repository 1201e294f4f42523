import Nachos.JoinStatus

/-!
# The process table is well formed

The bitmap and the array of entries agree whenever `bmsem` is free, a pid is
handed out once, the parent links lead to process 0, and no step follows a
null pointer of the table.
-/

namespace Nachos

open Library

namespace Processes

section Runs

variable {trace : List Event} {k : Processes}

/-- The calls of `ExecUpdate` that have returned the pid `c`. -/
def execsReturned (trace : List Event) (c : ℕ) : ℕ :=
  trace.countP fun
    | .returned _ call result => decide (call.IsExec ∧ result = c)
    | _ => false

theorem execsReturned_le_one
    (hreaches : processSystem.Reaches trace k) (c : ℕ) :
    execsReturned trace c ≤ 1 := by
  have hbalance : _ = (trace.countP (creations c).debit : ℤ) :=
    balance_of_reaches (execReturns_tariff c) rfl hreaches
  have hnonneg := (execReturns_covers c).pending_nonneg hreaches
  have hgranted := granted_le_one hreaches c
  have hcredit : execsReturned trace c =
      trace.countP (execReturns c).credit := rfl
  split at hgranted <;> omega

theorem identity_ne_none
    {c : ℕ} : k.pTable.identity c ≠ none ↔ k.pTable.pcb c ≠ none := by
  simp [PTable.identity]

/-- What the holders of `bmsem` are doing: the one unit is free, or one
process searches, or one constructs the entry of `c`. -/
theorem bmsem_units
    (hreaches : processSystem.Reaches trace k) (c : ℕ) :
    pending (creations c).owes k.scripts + pending searching k.scripts +
      k.pTable.bmsem.value ≤ 1 := by
  have hvalue : k.pTable.bmsem.value + trace.countP (taken .bmsem) =
      1 + trace.countP (given .bmsem) := value_balance hreaches .bmsem
  have hheld : (trace.countP (given .bmsem) : ℤ) +
      pending bmsemHeld.owes k.scripts = trace.countP (taken .bmsem) :=
    balance_of_reaches bmsemHeld_tariff rfl hreaches
  have hcover := (bmsemHeld_covers c).pending_le hreaches
  rw [pending_add] at hcover
  omega

/-- A marked pid has its entry unless it is being constructed. -/
theorem pcb_of_bit
    (hreaches : processSystem.Reaches trace k) {c : ℕ}
    (hbit : k.pTable.bm.bit c = true)
    (hnobody : pending (creations c).owes k.scripts ≤ 0) :
    k.pTable.pcb c ≠ none ∧ (c ≠ 0 → ∃ p, .created p c ∈ trace) := by
  have hshaped := shaped_of_reaches hreaches
  have hcreations := balance_of_reaches (creations_tariff c) rfl hreaches
  have hgranted := granted_eq_bit hreaches c
  rw [hbit] at hgranted
  rw [← identity_ne_none]
  by_cases hzero : c = 0
  · subst hzero
    exact ⟨(hshaped.parents 0 0 (.inr ⟨rfl, rfl⟩)).1, fun h => (h rfl).elim⟩
  · simp only [hzero, if_false, if_true] at hgranted
    rcases List.countP_pos_iff.mp
      (show 0 < trace.countP (creations c).credit by omega)
      with ⟨event, hmem, hcounted⟩
    cases event with
    | created p d =>
        obtain rfl : d = c := by simpa [creations] using hcounted
        exact ⟨(hshaped.parents p d (.inl hmem)).2.1, fun _ => ⟨p, hmem⟩⟩
    | _ => simp [creations] at hcounted

theorem bit_iff_pcb
    (hreaches : processSystem.Reaches trace k)
    (hfree : k.pTable.bmsem.value = 1) (c : ℕ) :
    k.pTable.bm.bit c = true ↔ k.pTable.pcb c ≠ none := by
  have hunits := bmsem_units hreaches c
  have hsearching := searching_covers.pending_nonneg hreaches
  constructor
  · intro hbit
    exact (pcb_of_bit hreaches hbit (by omega)).1
  · intro hpcb
    exact (shaped_of_reaches hreaches).bit_of_identity
      (identity_ne_none.mpr hpcb)

/-! ## Null pointers -/

/-- The processes a script may refer to: itself, its parent and its
children. -/
def Related (trace : List Event) (p c : ℕ) : Prop :=
  c = p ∨ Parent trace p c ∨ Parent trace c p

theorem pcb_of_related
    (hreaches : processSystem.Reaches trace k) {p c : ℕ}
    {script : List Stmt} (hmem : (p, script) ∈ k.scripts)
    (hrelated : Related trace p c) : k.pTable.pcb c ≠ none := by
  have hshaped := shaped_of_reaches hreaches
  rw [← identity_ne_none]
  rcases hrelated with rfl | hchild | hparent
  · exact hshaped.owners _ hmem
  · exact (hshaped.parents p c hchild).2.1
  · exact (hshaped.parents c p hparent).1

theorem sem?_ne_none
    {sem : SemRef}
    (hsem : ∀ c, sem = .joinsem c ∨ sem = .exitsem c ∨ sem = .multex c →
      k.pTable.pcb c ≠ none) :
    k.sem? sem ≠ none := by
  cases sem with
  | bmsem => simp [sem?]
  | joinsem c => simpa [sem?] using hsem c (by simp)
  | exitsem c => simpa [sem?] using hsem c (by simp)
  | multex c => simpa [sem?] using hsem c (by simp)

variable {t : ThreadId} {th : Thread} {rest : List Stmt}

theorem semaphoreP_ne_nullPCB
    {sem : SemRef} (hsem : k.sem? sem ≠ none) :
    k.semaphoreP t th sem rest ≠ .error .nullPCB := by
  unfold semaphoreP
  split
  next hnone => exact (hsem hnone).elim
  next => split <;> simp

theorem semaphoreV_ne_nullPCB
    {sem : SemRef} (hsem : k.sem? sem ≠ none) :
    k.semaphoreV t th sem rest ≠ .error .nullPCB := by
  unfold semaphoreV
  split
  next hnone => exact (hsem hnone).elim
  next => split <;> simp

theorem updatePCB_ne_nullPCB
    {c : ℕ} {f : PCB → PCB} {event : Event} (hpcb : k.pTable.pcb c ≠ none) :
    k.updatePCB t th c f rest event ≠ .error .nullPCB := by
  unfold updatePCB
  split
  next hnone => exact (hpcb hnone).elim
  next => simp

theorem findAndSet_ne_nullPCB (call : Call) :
    k.findAndSet t th call rest ≠ .error .nullPCB := by
  unfold findAndSet
  split
  next => simp
  next => split <;> simp

theorem pcbExec_ne_nullPCB
    {c : ℕ} (call : Call) (hpcb : k.pTable.pcb c ≠ none) :
    k.pcbExec t th c call rest ≠ .error .nullPCB := by
  unfold pcbExec
  split
  next hnone => exact (hpcb hnone).elim
  next =>
    split
    next => simp
    next => split <;> simp

/-- No statement follows a null pointer of the table. -/
theorem execute_ne_nullPCB
    {stmt : Stmt} {allotted : ℕ → Prop}
    (hhead : Script.Head (Parent trace) allotted th.processID stmt rest)
    (hrelated : ∀ c, Related trace th.processID c →
      k.pTable.pcb c ≠ none) :
    k.execute t th rest stmt ≠ .error .nullPCB := by
  cases stmt with
  | P sem =>
      apply semaphoreP_ne_nullPCB
      apply sem?_ne_none
      intro c hsem
      apply hrelated
      rcases hsem with rfl | rfl | rfl
      · exact .inr (.inl hhead)
      · exact .inr (.inr hhead)
      · rcases hhead with hchild | heq | hparent
        · exact .inr (.inl hchild)
        · exact .inl heq
        · exact .inr (.inr hparent)
  | V sem =>
      apply semaphoreV_ne_nullPCB
      apply sem?_ne_none
      intro c hsem
      apply hrelated
      rcases hsem with rfl | rfl | rfl
      · exact .inl hhead
      · exact .inl hhead
      · rcases hhead with hchild | heq | hparent
        · exact .inr (.inl hchild)
        · exact .inl heq
        · exact .inr (.inr hparent)
  | findAndSet call => exact findAndSet_ne_nullPCB call
  | newPCB c call =>
      simp only [execute, newPCB]
      split <;> simp
  | pcbExec c call =>
      exact pcbExec_ne_nullPCB call (hrelated c (.inr (.inl hhead.2.1)))
  | incNumWait c => exact updatePCB_ne_nullPCB (hrelated c (.inl hhead))
  | decNumWait c => exact updatePCB_ne_nullPCB (hrelated c (.inr (.inr hhead)))
  | setExitCode c ec => exact updatePCB_ne_nullPCB (hrelated c (.inl hhead))
  | _ => simp [execute]

theorem trap_ne_nullPCB
    (call : Call) (hpcb : k.pTable.pcb th.processID ≠ none) :
    k.trap t th rest call ≠ .error .nullPCB := by
  cases call with
  | exec name => simp [trap]
  | execV argc argv =>
      simp only [trap]
      split
      next => simp
      next => split <;> simp
  | join c =>
      simp only [trap]
      split
      next =>
        split
        next => simp
        next => split <;> simp
      next => simp
  | exit ec =>
      simp only [trap]
      split
      next => simp
      next =>
        split
        next hnone => exact (hpcb hnone).elim
        next => simp
  | halt => simp [trap]

theorem step_ne_nullPCB
    (hreaches : processSystem.Reaches trace k) (action : Action) :
    k.step action ≠ .error .nullPCB := by
  unfold step
  split
  next => simp
  next =>
    split
    next => simp
    next th hget =>
      have hmem := mem_scripts hget
      have hscript := (shaped_of_reaches hreaches).scripts _ hmem
      have hrelated := fun c => pcb_of_related hreaches (c := c) hmem
      split
      next => simp
      next =>
        generalize th.script = script at hscript
        unfold advance
        split
        next => exact trap_ne_nullPCB _ (hrelated _ (.inl rfl))
        next => simp
        next =>
          unfold runProcess
          simp only
          split <;> simp
        next => exact execute_ne_nullPCB hscript.head hrelated
        next => simp

/-! ## The tree of processes -/

/-- The parent links lead to process 0. -/
theorem reaches_root
    (hreaches : processSystem.Reaches trace k) (c : ℕ)
    (hpcb : k.pTable.pcb c ≠ none) :
    Relation.ReflTransGen (fun child par => k.parentID child = some par)
      c 0 := by
  have hshaped := shaped_of_reaches hreaches
  induction c using Nat.strong_induction_on with
  | h c ih =>
      rcases Option.ne_none_iff_exists'.mp hpcb with ⟨pcb, hsome⟩
      have hlink : k.parentID c = some pcb.parentID := by
        simp [parentID, hsome]
      have hparent := hshaped.parent_of_parentID c _ hlink
      rcases hshaped.parents _ c hparent with ⟨hpar, -, hlt | ⟨-, rfl⟩⟩
      · exact .head hlink (ih _ hlt (identity_ne_none.mp hpar))
      · exact .refl

/-- The process table is well formed in every reachable state. -/
theorem table_well_formed
    (hreaches : processSystem.Reaches trace k) :
    (k.pTable.bmsem.value = 1 → ∀ i < maxProcess,
      (k.pTable.bm.test i = .ok true ↔ k.pTable.pcb i ≠ none)) ∧
    (∀ i pcb, k.pTable.pcb i = some pcb → pcb.pid = i) ∧
    (∀ i, execsReturned trace i ≤ 1) ∧
    (∀ th ∈ k.threads, k.pTable.pcb th.processID ≠ none) ∧
    (∀ action, k.step action ≠ .error .nullPCB) ∧
    (∀ i pcb, k.pTable.pcb i = some pcb → 0 < i →
      pcb.parentID < i ∧ k.pTable.pcb pcb.parentID ≠ none) ∧
    ∀ i, k.pTable.pcb i ≠ none →
      Relation.ReflTransGen (fun child par => k.parentID child = some par)
        i 0 := by
  have hshaped := shaped_of_reaches hreaches
  refine ⟨?_, ?_, execsReturned_le_one hreaches, ?_,
    step_ne_nullPCB hreaches, ?_, reaches_root hreaches⟩
  · intro hfree i hlt
    have hrange : i < k.pTable.bm.numBits := by rwa [hshaped.numBits]
    rw [Bitmap.test_eq hrange, ← bit_iff_pcb hreaches hfree i]
    simp
  · intro i pcb hpcb
    exact (hshaped.entry hpcb).1
  · intro th hth
    rcases List.mem_iff_getElem?.mp hth with ⟨t, hget⟩
    exact identity_ne_none.mp (hshaped.owners _ (mem_scripts hget))
  · intro i pcb hpcb hpos
    rcases hshaped.parents _ i (hshaped.entry hpcb).2.1 with
      ⟨hpar, -, hlt | ⟨-, rfl⟩⟩
    · exact ⟨hlt, identity_ne_none.mp hpar⟩
    · exact (Nat.lt_irrefl 0 hpos).elim

/-- After two calls of `Exec` by process 0. -/
theorem table_well_formed_two_children :
    ∃ trace k, processSystem.Reaches trace k ∧ k.pTable.pcb 2 ≠ none ∧
      k.pTable.bm.test 2 = .ok true ∧ execsReturned trace 2 ≤ 1 := by
  have hreplays : processSystem.Replays StepSystem.anyStep
      (execChild 0 ++ execChild 0)
      (fun _ k => decide (k.pTable.bmsem.value = 1) &&
        (k.pTable.pcb 2).isSome) = true := by
    decide +kernel
  rcases StepSystem.exists_run_of_replays hreplays with
    ⟨trace, k, hrun, hcheck⟩
  simp only [Bool.and_eq_true, decide_eq_true_eq] at hcheck
  have hpcb : k.pTable.pcb 2 ≠ none := Option.isSome_iff_ne_none.mp hcheck.2
  rcases table_well_formed hrun with ⟨hbits, -, hreturned, -⟩
  exact ⟨trace, k, hrun, hpcb,
    (hbits hcheck.1 2 (by decide)).mpr hpcb, hreturned 2⟩

end Runs

end Processes

end Nachos
