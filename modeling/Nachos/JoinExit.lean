import Nachos.ProcessSemaphores

/-!
# Join and exit

What the ledgers say of the hand-shake between `JoinUpdate` and
`ExitUpdate`: a join takes the unit its child has given, a child gives one
unit, and it gives it after its status is stored.
-/

namespace Nachos

open Library

namespace Processes

section Counts

variable {trace : List Event} {k : Processes}

/-! ## Life of one process -/

/-- A thread is forked for a process once, and never for process 0. -/
theorem forked_le_one
    (hreaches : processSystem.Reaches trace k) (c : ℕ) :
    (trace.countP (loads c).debit : ℤ) + (if c = 0 then 1 else 0) ≤ 1 := by
  have hbalance : _ = (trace.countP (creations c).debit : ℤ) :=
    balance_of_reaches (forks_tariff c) rfl hreaches
  have hnonneg := (forks_covers c).pending_nonneg hreaches
  have hgranted := granted_le_one hreaches c
  have hle : trace.countP (loads c).debit ≤ trace.countP (forks c).credit := by
    apply List.countP_mono_left
    intro event _ hforked
    cases event with
    | forked p d => exact hforked
    | _ => simp [loads] at hforked
  omega

/-- A process has one program, which ends at most once. -/
theorem programs_units
    (hreaches : processSystem.Reaches trace k) (c : ℕ) :
    trace.countP (programs c).credit +
      pending (programs c).owes k.scripts ≤ 1 := by
  have hprograms := balanced_of_reaches (programs_tariff c) hreaches
  have hloads := balance_of_reaches (loads_tariff c) rfl hreaches
  have hforked := forked_le_one hreaches c
  have hloaded : trace.countP (programs c).debit ≤
      trace.countP (loads c).credit := by
    apply List.countP_mono_left
    intro event _ hcounted
    cases event with
    | loaded q success => grind [programs, loads]
    | _ => simp [programs] at hcounted
  have hnonneg := (loads_covers c).pending_nonneg hreaches
  have hopening : (programs c).owes 0 .user = if c = 0 then 1 else 0 := by
    simp [programs, eq_comm]
  rw [Ledger.Balanced, hopening] at hprograms
  omega

theorem programs_le_one
    (hreaches : processSystem.Reaches trace k) (c : ℕ) :
    trace.countP (programs c).credit ≤ 1 := by
  have hunits := programs_units hreaches c
  have hnonneg := (programs_covers c).pending_nonneg hreaches
  omega

theorem exits_le_one
    (hreaches : processSystem.Reaches trace k) (c : ℕ) :
    trace.countP (exits c) ≤ 1 := by
  apply le_trans _ (programs_le_one hreaches c)
  apply List.countP_mono_left
  intro event _ hcounted
  cases event with
  | called q call => grind [exits, programs]
  | _ => simp [exits] at hcounted

/-! ## The hand-shake -/

theorem joinReturns_le_taken
    (hreaches : processSystem.Reaches trace k) (c : ℕ) :
    trace.countP (joinReturns c).credit ≤
      trace.countP (taken (.joinsem c)) := by
  have hbalance : _ = (trace.countP (taken (.joinsem c)) : ℤ) :=
    balance_of_reaches (joinReturns_tariff c) rfl hreaches
  have hnonneg := (joinReturns_covers c).pending_nonneg hreaches
  omega

theorem taken_le_given
    (hreaches : processSystem.Reaches trace k) {sem : SemRef}
    (hinitial : initialValue sem = 0) :
    trace.countP (taken sem) ≤ trace.countP (given sem) := by
  have hvalue := value_balance hreaches sem
  have hnonneg := value_nonneg hreaches sem
  omega

theorem childSignals_balance
    (hreaches : processSystem.Reaches trace k) (c : ℕ) :
    (trace.countP (given (.joinsem c)) : ℤ) +
        pending (childSignals c).owes k.scripts =
      trace.countP (exits c) :=
  balance_of_reaches (childSignals_tariff c) rfl hreaches

theorem given_le_exits
    (hreaches : processSystem.Reaches trace k) (c : ℕ) :
    trace.countP (given (.joinsem c)) ≤ trace.countP (exits c) := by
  have hbalance := childSignals_balance hreaches c
  have hnonneg := (childSignals_covers c).pending_nonneg hreaches
  omega

/-- A child that has signalled its parent has called `Exit` and stored the
status. -/
theorem status_of_given
    (hreaches : processSystem.Reaches trace k) {c : ℕ}
    (hgiven : 1 ≤ trace.countP (given (.joinsem c))) :
    ∃ ec, .called c (.exit ec) ∈ trace ∧ .statusSet c ec ∈ trace := by
  have hexits := given_le_exits hreaches c
  have hone := exits_le_one hreaches c
  rcases List.countP_pos_iff.mp (show 0 < trace.countP (exits c) by omega)
    with ⟨event, hmem, hexit⟩
  obtain ⟨ec, rfl, hc⟩ : ∃ ec, event = .called c (.exit ec) ∧ c ≠ 0 := by
    cases event with
    | called q call =>
        cases call with
        | exit ec =>
            simp only [exits, decide_eq_true_eq] at hexit
            rcases hexit with ⟨rfl, hne, -⟩
            exact ⟨ec, rfl, hne⟩
        | _ => simp [exits, Call.IsExit] at hexit
    | _ => simp [exits] at hexit
  refine ⟨ec, hmem, ?_⟩
  have hsignals := childSignals_balance hreaches c
  have hstores := balance_of_reaches (statusStores_tariff c ec) rfl hreaches
  have hle := (childSignals_covers_statusStores c ec).pending_le hreaches
  have hcalled : 1 ≤ trace.countP (statusStores c ec).debit :=
    countP_pos_of_mem hmem (by simp [statusStores, hc])
  rcases List.countP_pos_iff.mp
    (show 0 < trace.countP (statusStores c ec).credit by omega)
    with ⟨store, hstored, hcounted⟩
  cases store with
  | statusSet q status =>
      simp only [statusStores, decide_eq_true_eq] at hcounted
      rcases hcounted with ⟨rfl, rfl⟩
      exact hstored
  | _ => simp [statusStores] at hcounted

/-! ## Parents -/

/-- A child has a greater pid than its parent. -/
theorem lt_of_created
    (hreaches : processSystem.Reaches trace k) {p c : ℕ}
    (hcreated : .created p c ∈ trace) : p < c := by
  rcases ((shaped_of_reaches hreaches).parents p c (.inl hcreated)).2.2 with
    hlt | ⟨-, rfl⟩
  · exact hlt
  · -- the slot of process 0 is never granted
    have hcreations := balance_of_reaches (creations_tariff 0) rfl hreaches
    have hnonneg : 0 ≤ pending (creations 0).owes k.scripts :=
      pending_nonneg fun script _ => owed_nonneg (creations_nonneg 0) script
    have hgranted := granted_le_one hreaches 0
    have hcount : 1 ≤ trace.countP (creations 0).credit :=
      countP_pos_of_mem hcreated (by simp [creations])
    rw [if_pos rfl] at hgranted
    omega

theorem createdBy_unique
    (hreaches : processSystem.Reaches trace k) {p q c : ℕ}
    (hp : Parent trace p c) (hq : Parent trace q c) : p = q := by
  rcases hp with hp | ⟨rfl, hzero⟩ <;> rcases hq with hq | ⟨rfl, hzero'⟩
  · have hcreations := balance_of_reaches (creations_tariff c) rfl hreaches
    have hnonneg : 0 ≤ pending (creations c).owes k.scripts :=
      pending_nonneg fun script _ => owed_nonneg (creations_nonneg c) script
    have hgranted := granted_le_one hreaches c
    have hone : trace.countP (creations c).credit ≤ 1 := by
      split at hgranted <;> omega
    have heq := eq_of_countP_le_one hone hp (by simp [creations]) hq
      (by simp [creations])
    cases heq
    rfl
  · have hlt := lt_of_created hreaches hp
    omega
  · have hlt := lt_of_created hreaches hq
    omega
  · rfl

/-- The entry of a process names its parent. -/
theorem parentID_of_parent
    (hreaches : processSystem.Reaches trace k) {p c : ℕ}
    (hparent : Parent trace p c) :
    k.parentID c = some p := by
  have hshaped := shaped_of_reaches hreaches
  rcases Option.ne_none_iff_exists'.mp (hshaped.parents p c hparent).2.1
    with ⟨⟨pid, par⟩, hidentity⟩
  have hpar := (hshaped.entries c pid par hidentity).2.1
  have hsame : par = p := createdBy_unique hreaches hpar hparent
  simp only [PTable.identity, Option.map_eq_some_iff, Prod.mk.injEq] at hidentity
  rcases hidentity with ⟨pcb, hpcb, -, hparentID⟩
  simp [parentID, hpcb, hparentID, hsame]

/-! ## Threads -/

/-- The threads of a process are those forked for it. -/
theorem owners_count
    (hreaches : processSystem.Reaches trace k) (c : ℕ) :
    ((k.scripts.map Prod.fst).count c : ℤ) =
      trace.countP (loads c).debit + if c = 0 then 1 else 0 := by
  apply hreaches.invariant (fun trace k =>
    ((k.scripts.map Prod.fst).count c : ℤ) =
      trace.countP (loads c).debit + if c = 0 then 1 else 0)
  · rcases eq_or_ne c 0 with rfl | hne
    · rfl
    · simp [processSystem, start, Processes.scripts, hne, hne.symm]
  · intro trace k k' action event hbefore hinv _ hstep
    rcases step_script hbefore hstep with
      ⟨p, old, new, spawned, hget, hscript, hscripts⟩
    have howners : (k.scripts.set action.thread (p, new)).map Prod.fst =
        k.scripts.map Prod.fst := by
      rcases List.getElem?_eq_some_iff.mp hget with ⟨hlt, hold⟩
      rw [List.map_set]
      apply List.ext_getElem?
      intro i
      by_cases heq : action.thread = i
      · subst heq
        simp [hlt, hold]
      · simp [heq]
    rw [hscripts, List.map_append, howners, List.count_append,
      Ledger.countP_concat]
    push_cast
    rw [hinv]
    cases hscript with
    | forked hlt =>
        simp only [loads, List.map_cons, List.map_nil, List.count_singleton]
        grind
    | _ => simp [loads]

/-- A process has one thread. -/
theorem owners_nodup
    (hreaches : processSystem.Reaches trace k) :
    (k.scripts.map Prod.fst).Nodup := by
  apply List.nodup_iff_count_le_one.mpr
  intro c
  have hforked := forked_le_one hreaches c
  have hcount := owners_count hreaches c
  omega

theorem owner_unique
    (hreaches : processSystem.Reaches trace k) {i j p : ℕ}
    {a b : List Stmt} (ha : k.scripts[i]? = some (p, a))
    (hb : k.scripts[j]? = some (p, b)) : i = j := by
  have hi : (k.scripts.map Prod.fst)[i]? = some p := by simp [ha]
  have hj : (k.scripts.map Prod.fst)[j]? = some p := by simp [hb]
  rcases List.getElem?_eq_some_iff.mp hi with ⟨hlt, -⟩
  exact (List.getElem?_inj hlt (owners_nodup hreaches)).mp (hi.trans hj.symm)

/-! ## Refused joins -/

/-- A process whose join of `c` is refused is not the parent of `c`. -/
def RefusedByOthers (trace : List Event) (k : Processes) : Prop :=
  ∀ p script, (p, script) ∈ k.scripts → ∀ c : ℕ,
    .writeResult (.join c) (-1) ∈ script → ¬Parent trace p c

theorem mem_scripts_step
    {scripts spawned : List (ℕ × List Stmt)} {t : ℕ}
    {new script : ℕ × List Stmt}
    (hmem : script ∈ scripts.set t new ++ spawned) :
    (∃ j, j ≠ t ∧ scripts[j]? = some script) ∨ script = new ∨
      script ∈ spawned := by
  rcases List.mem_append.mp hmem with hset | hspawned
  · rcases List.mem_iff_getElem?.mp hset with ⟨j, hj⟩
    by_cases heq : j = t
    · subst heq
      have hnew := List.mem_of_getElem? hj
      rw [List.getElem?_set] at hj
      simp only [if_true] at hj
      split at hj
      next => exact .inr (.inl (by simpa using hj.symm))
      next => simp at hj
    · exact .inl ⟨j, heq, by rwa [List.getElem?_set_ne (Ne.symm heq)] at hj⟩
  · exact .inr (.inr hspawned)

theorem refusedByOthers_step
    {k' : Processes} {action : Action} {event : Event}
    (hreaches : processSystem.Reaches trace k)
    (hrefused : RefusedByOthers trace k)
    (hstep : k.step action = .ok (k', event)) :
    RefusedByOthers (trace ++ [event]) k' := by
  rcases step_script hreaches hstep with
    ⟨p, old, new, spawned, hget, hscript, hscripts⟩
  have hcreator : ∀ {q c}, event = .created q c → q = p := by
    rintro q c rfl
    cases hscript
    rfl
  have hparent : ∀ {q c}, Parent (trace ++ [event]) q c →
      Parent trace q c ∨ event = .created q c := by
    rintro q c (hcreated | hzero)
    · rcases List.mem_append.mp hcreated with hbefore | hnow
      · exact .inl (.inl hbefore)
      · exact .inr (List.mem_singleton.mp hnow).symm
    · exact .inl (.inr hzero)
  intro q script hmem c hrefusal hpar
  rw [hscripts] at hmem
  rcases mem_scripts_step hmem with ⟨j, hne, hj⟩ | hnew | hspawned
  · rcases hparent hpar with hbefore | hevent
    · exact hrefused q script (List.mem_of_getElem? hj) c hrefusal hbefore
    · obtain rfl := hcreator hevent
      exact hne (owner_unique hreaches hj hget)
  · cases hnew
    have hold := hrefused p old (List.mem_of_getElem? hget) c
    rcases hparent hpar with hbefore | rfl
    · have hknown := parentID_of_parent hreaches hbefore
      cases hscript <;> grind [execUpdate, execFull, execGranted, joinUpdate, exitUpdate, exec_ne_join]
    · cases hscript with
      | created hexec => grind [execGranted, exec_ne_join]
  · cases hscript <;> simp_all

end Counts

end Processes

end Nachos
