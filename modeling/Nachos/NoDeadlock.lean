import Nachos.JoinAll

/-!
# Programs that join every child do not deadlock

In a deadlock every unfinished process sleeps at a semaphore without units.
The holder of `bmsem` or of a `multex` would be one of them, but no process
sleeps inside a critical section.  A process that waits for a child waits for
one that waits for a child itself, down the tree.  And where all wait for
their parents to let them exit, a parent has given a unit for each child and
one child has not taken its unit.
-/

namespace Nachos

open Library

/-- The thread has nothing left to do; in process 0 the call of `SysHalt` is
not counted. -/
def Thread.Finished (th : Thread) : Prop :=
  th.script = [] ∨ th.processID = 0 ∧ th.script = [.sysHalt]

namespace Processes

/-- Some thread is unfinished, and all unfinished threads sleep. -/
def Deadlocked (k : Processes) : Prop :=
  (∃ th ∈ k.threads, ¬th.Finished) ∧
    ∀ th ∈ k.threads, ¬th.Finished → th.blocked = true

/-- The process has finished, or it waits for a unit where there is none. -/
inductive AtRest (trace : List Event) (k : Processes) (p : ℕ) :
    List Stmt → Prop
  | done : AtRest trace k p []
  | halting : p = 0 → AtRest trace k p [.sysHalt]
  | waiting {sem : SemRef} {rest : List Stmt} :
      Script.Waiting (Parent trace) p sem rest → k.value sem = 0 →
      AtRest trace k p (.P sem :: rest)

section Rest

variable {trace : List Event} {k : Processes}

/-- In a deadlock no semaphore that is waited for has a unit. -/
theorem atRest_of_deadlocked
    (hreaches : processSystem.Reaches trace k)
    (hdeadlocked : Deadlocked k) :
    ∀ script ∈ k.scripts, AtRest trace k script.1 script.2 := by
  have hsound := sound_of_reaches hreaches
  have hasleep : ∀ sem, ∀ worker ∈ k.pool.workers,
      wants worker.cont = some sem → worker.blocked = true := by
    intro sem worker hmem hwants
    rcases List.mem_map.mp hmem with ⟨th, hth, rfl⟩
    apply hdeadlocked.2 th hth
    rintro (hnil | ⟨-, hhalt⟩)
    · simp [hnil, wants] at hwants
    · simp [hhalt, wants] at hwants
  intro script hscript
  have hshape := (shaped_of_reaches hreaches).scripts script hscript
  rcases List.mem_map.mp hscript with ⟨th, hth, rfl⟩
  by_cases hfinished : th.Finished
  · rcases hfinished with hnil | ⟨hpid, hhalt⟩
    · simpa only [hnil] using AtRest.done
    · simpa only [hhalt] using AtRest.halting hpid
  · have hblocked := hdeadlocked.2 th hth hfinished
    rcases List.mem_iff_getElem?.mp hth with ⟨t, hget⟩
    have hworker := pool_workers_getElem? hget
    rw [hblocked] at hworker
    rcases hsound.blocked t _ hworker with ⟨sem, hwants, -⟩
    have hzero : k.value sem = 0 :=
      hsound.value_eq_zero hworker hwants (hasleep sem)
    simp only at hshape ⊢
    generalize th.script = stmts at hshape hwants
    cases stmts with
    | nil => simp [wants] at hwants
    | cons stmt rest =>
        cases stmt with
        | P wanted =>
            obtain rfl : wanted = sem := by simpa [wants] using hwants
            exact .waiting hshape.waiting hzero
        | _ => simp [wants] at hwants

/-- A weight that is not positive on any script at rest. -/
theorem AtRest.pending_nonpos
    (hrest : ∀ script ∈ k.scripts, AtRest trace k script.1 script.2)
    (owes : ℕ → Stmt → ℤ) (hhalt : ∀ p, owes p .sysHalt ≤ 0)
    (hwaiting : ∀ p sem rest, (p, .P sem :: rest) ∈ k.scripts →
      Script.Waiting (Parent trace) p sem rest → k.value sem = 0 →
        owed owes (p, .P sem :: rest) ≤ 0) :
    pending owes k.scripts ≤ 0 := by
  apply Library.pending_nonpos
  rintro ⟨p, script⟩ hmem
  cases hrest _ hmem with
  | done => simp
  | halting => simpa using hhalt p
  | waiting hwait hzero => exact hwaiting _ _ _ hmem hwait hzero

/-- No process holds `bmsem` or a `multex` and sleeps. -/
theorem bmsem_value
    (hreaches : processSystem.Reaches trace k)
    (hrest : ∀ script ∈ k.scripts, AtRest trace k script.1 script.2) :
    k.value .bmsem ≠ 0 := by
  have hheld : (trace.countP (given .bmsem) : ℤ) +
      pending bmsemHeld.owes k.scripts = trace.countP (taken .bmsem) :=
    balance_of_reaches bmsemHeld_tariff rfl hreaches
  have hvalue : k.value .bmsem + trace.countP (taken .bmsem) =
      1 + trace.countP (given .bmsem) := value_balance hreaches .bmsem
  have hnonpos : pending bmsemHeld.owes k.scripts ≤ 0 := by
    apply AtRest.pending_nonpos hrest
    · simp [bmsemHeld]
    · intro p sem rest _ hwait _
      cases hwait <;> simp [bmsemHeld, joinUpdate]
  omega

theorem multex_value
    (hreaches : processSystem.Reaches trace k)
    (hrest : ∀ script ∈ k.scripts, AtRest trace k script.1 script.2)
    (c : ℕ) : k.value (.multex c) ≠ 0 := by
  have hheld : (trace.countP (given (.multex c)) : ℤ) +
      pending (multexHeld c).owes k.scripts =
        trace.countP (taken (.multex c)) :=
    balance_of_reaches (multexHeld_tariff c) rfl hreaches
  have hvalue : k.value (.multex c) + trace.countP (taken (.multex c)) =
      1 + trace.countP (given (.multex c)) := value_balance hreaches _
  have hnonpos : pending (multexHeld c).owes k.scripts ≤ 0 := by
    apply AtRest.pending_nonpos hrest
    · simp [multexHeld]
    · intro p sem rest _ hwait _
      cases hwait <;> simp [multexHeld, joinUpdate] <;> split_ifs <;> simp
  omega

end Rest

/-! ## Each process has its thread -/

section Threads

variable {trace : List Event} {k k' : Processes} {c : ℕ}

/-- The executable of an entry. -/
def executable (k : Processes) (c : ℕ) : Option CString :=
  (k.pTable.pcb c).bind PCB.filename

theorem executable_modifyPCB
    {f : PCB → PCB} (pid c : ℕ)
    (hf : ∀ pcb, (f pcb).filename = pcb.filename) :
    (k.modifyPCB pid f).executable c = k.executable c := by
  simp only [executable, modifyPCB_pcb]
  split
  next heq =>
    subst heq
    cases k.pTable.pcb c <;> simp [hf]
  next => rfl

theorem setSem_executable (sem : SemRef) (q : Semaphore) (c : ℕ) :
    (k.setSem sem q).executable c = k.executable c := by
  cases sem with
  | bmsem => rfl
  | _ pid => exact executable_modifyPCB pid c fun _ => rfl

theorem wake_executable (u : ThreadId) (c : ℕ) :
    (k.wake u).executable c = k.executable c := by
  simp [executable]

/-- An entry gets its executable when its thread is forked. -/
theorem Moves.executable
    {t : ThreadId} {th : Thread} {choice : Choice} {event : Event}
    (hmoves : Moves k t th choice event k') (c : ℕ)
    (hnamed : k'.executable c ≠ none) :
    k.executable c ≠ none ∨ event = .forked th.processID c := by
  cases hmoves with
  | passed => exact .inl (by rwa [← setSem_executable])
  | slept => exact .inl (by rwa [← setSem_executable])
  | released => exact .inl (by rwa [← setSem_executable])
  | woke =>
      rw [wake_executable] at hnamed
      exact .inl (by rwa [← setSem_executable])
  | @created pid call rest =>
      left
      rintro hnone
      apply hnamed
      by_cases heq : c = pid
      · simp [Processes.executable, heq, PCB.new]
      · simpa [Processes.executable, heq] using hnone
  | @forked pid =>
      by_cases heq : c = pid
      · exact .inr (by rw [heq])
      · left
        simpa [Processes.executable, modifyPCB_pcb, heq] using hnamed
  | updated _ _ hupdate =>
      left
      cases hupdate <;> rwa [← executable_modifyPCB]
      all_goals exact fun _ => rfl
  | _ => exact .inl hnamed

theorem forked_of_executable
    (hreaches : processSystem.Reaches trace k)
    (hnamed : k.executable c ≠ none) :
    1 ≤ trace.countP (loads c).debit := by
  revert hnamed
  apply hreaches.invariant (fun trace k => k.executable c ≠ none →
    1 ≤ trace.countP (loads c).debit)
  · intro hnamed
    by_cases hzero : c = 0 <;>
      simp [executable, processSystem, start, initialTable, hzero,
        PCB.new] at hnamed
  · intro trace k k' action event _ hinv _ hstep hnamed
    rcases step_moves hstep with ⟨th, -, -, -, hmoves⟩
    rw [List.countP_append]
    rcases hmoves.executable c hnamed with hbefore | rfl
    · exact (hinv hbefore).trans (Nat.le_add_right _ _)
    · simp [loads]

/-- `PCB::Exec` is executed once for an entry, and forks its thread. -/
theorem not_execRefused
    (hreaches : processSystem.Reaches trace k) {p : ℕ} :
    .execRefused p c ∉ trace := by
  intro hrefused
  rcases List.append_of_mem hrefused with ⟨earlier, later, rfl⟩
  rcases hreaches.step_at with
    ⟨before, after, action, hbefore, -, hstep, hafter⟩
  rcases step_moves hstep with ⟨th, -, -, -, hmoves⟩
  have hnamed : before.executable c ≠ none := by
    generalize action.choice = choice at hmoves
    generalize hevent : Event.execRefused p c = event at hmoves
    cases hmoves with
    | execRefused hscript hpcb hname =>
        cases hevent
        simpa [executable, hpcb] using hname
    | updated _ _ hupdate => cases hupdate <;> cases hevent
    | locally hlocal =>
        subst hevent
        generalize th.script = old at hlocal
        cases hlocal
    | _ => cases hevent
  have hforked := forked_of_executable hbefore hnamed
  have hbalance : _ = (List.countP (creations c).debit _ : ℤ) :=
    balance_of_reaches (forks_tariff c) rfl hafter
  have hnonneg := (forks_covers c).pending_nonneg hafter
  have hgranted := granted_le_one hafter c
  have hboth : earlier.countP (loads c).debit + 1 ≤
      (earlier ++ [Event.execRefused p c]).countP (forks c).credit := by
    rw [List.countP_append]
    apply add_le_add
    · apply List.countP_mono_left
      intro event _ hcounted
      cases event with
      | forked q d => exact hcounted
      | _ => simp [loads] at hcounted
    · simp [forks]
  split at hgranted <;> omega

/-- At rest every process of the table has its thread. -/
theorem AtRest.exists_script
    (hreaches : processSystem.Reaches trace k)
    (hrest : ∀ script ∈ k.scripts, AtRest trace k script.1 script.2)
    (hknown : k.pTable.identity c ≠ none) :
    ∃ script, (c, script) ∈ k.scripts := by
  have hcount := owners_count hreaches c
  have hforks : _ = (trace.countP (creations c).debit : ℤ) :=
    balance_of_reaches (forks_tariff c) rfl hreaches
  have hgranted := granted_eq_bit hreaches c
  rw [(shaped_of_reaches hreaches).bit_of_identity hknown, if_pos rfl]
    at hgranted
  have hnonpos : pending (forks c).owes k.scripts ≤ 0 := by
    apply AtRest.pending_nonpos hrest
    · simp [forks]
    · intro p sem rest _ hwait hzero
      cases hwait with
      | forking => exact (multex_value hreaches hrest _ hzero).elim
      | _ => simp [forks, joinUpdate]
  have hforked : trace.countP (forks c).credit =
      trace.countP (loads c).debit := by
    apply List.countP_congr
    intro event hmem
    cases event with
    | execRefused p d =>
        have hne : d ≠ c := by
          rintro rfl
          exact not_execRefused hreaches hmem
        simp [forks, loads, hne]
    | _ => simp [forks, loads]
  have hpos : 0 < (k.scripts.map Prod.fst).count c := by omega
  simpa using List.count_pos_iff.mp hpos

end Threads

/-! ## The tree at rest -/

section Tree

variable {trace : List Event} {k : Processes} {p c : ℕ}

/-- A process at rest whose program is not waiting has ended. -/
theorem AtRest.ended_of_no_user
    (hrun : processSystem.Run JoinsAll trace k)
    (hrest : ∀ script ∈ k.scripts, AtRest trace k script.1 script.2)
    {script : List Stmt} (hmem : (c, script) ∈ k.scripts)
    (huser : .user ∉ script) : Ended trace c := by
  have hreaches := hrun.reaches
  have hprograms := balanced_of_reaches (programs_tariff c) hreaches
  have hloads := balance_of_reaches (loads_tariff c) rfl hreaches
  have hcount := owners_count hreaches c
  have hone : 1 ≤ (k.scripts.map Prod.fst).count c := by
    apply List.count_pos_iff.mpr
    exact List.mem_map.mpr ⟨_, hmem, rfl⟩
  have hsplit := loads_split trace c
  have hfails : trace.countP (loadFails c) = 0 := by
    apply List.countP_eq_zero.mpr
    intro event hevent hcounted
    cases event with
    | loaded q success =>
        simp only [loadFails, decide_eq_true_eq] at hcounted
        rcases hcounted with ⟨rfl, rfl⟩
        exact not_loadFails hrun hevent
    | _ => simp [loadFails] at hcounted
  have hloading : pending (loads c).owes k.scripts ≤ 0 := by
    apply AtRest.pending_nonpos hrest
    · simp [loads]
    · intro q sem rest _ hwait _
      cases hwait <;> simp [loads, joinUpdate]
  have hnouser : pending (programs c).owes k.scripts ≤ 0 := by
    apply Library.pending_nonpos
    rintro ⟨q, other⟩ hother
    apply le_of_eq
    apply owed_eq_zero
    intro stmt hstmt
    by_cases howner : q = c
    · subst howner
      rcases List.mem_iff_getElem?.mp hmem with ⟨i, hi⟩
      rcases List.mem_iff_getElem?.mp hother with ⟨j, hj⟩
      obtain rfl := owner_unique hreaches hi hj
      obtain rfl : script = other := by simpa using hi.symm.trans hj
      cases stmt with
      | user => exact (huser hstmt).elim
      | _ => rfl
    · cases stmt <;> simp [programs, howner]
  have hopening : (programs c).owes 0 .user = if c = 0 then 1 else 0 := by
    simp [programs, eq_comm]
  rw [Ledger.Balanced, hopening] at hprograms
  exact List.countP_pos_iff.mp
    (show 0 < trace.countP (programs c).credit by omega)

/-- The child a process at rest waits for has not called `Exit`. -/
theorem AtRest.exits_eq_zero
    (hrun : processSystem.Run JoinsAll trace k)
    (hrest : ∀ script ∈ k.scripts, AtRest trace k script.1 script.2)
    {rest : List Stmt} (hmem : (p, .P (.joinsem c) :: rest) ∈ k.scripts)
    (hzero : k.value (.joinsem c) = 0) :
    .created p c ∈ trace ∧ trace.countP (exits c) = 0 := by
  have hreaches := hrun.reaches
  have hbalance := joinWaits_balance hrun p c
  have hpending : 1 ≤ pending (joinWaits p c).owes k.scripts := by
    have hle := owed_le_pending
      (fun script _ => owed_nonneg (joinWaits_owes_nonneg p c) script) hmem
    have hnonneg := owed_nonneg (joinWaits_owes_nonneg p c) (p, rest)
    have hhead : (joinWaits p c).owes p (.P (.joinsem c)) = 1 := by
      simp [joinWaits]
    rw [owed_cons, hhead] at hle
    omega
  have hcalled : CalledJoin trace p c := by
    by_contra hnot
    rw [if_neg hnot] at hbalance
    omega
  have hcreated : .created p c ∈ trace := hcalled.subset (by simp)
  refine ⟨hcreated, ?_⟩
  rw [if_pos hcalled] at hbalance
  -- nobody but the parent takes a unit of the child
  have htaken : trace.countP (taken (.joinsem c)) = 0 := by
    apply List.countP_eq_zero.mpr
    intro event hevent hcounted
    cases event with
    | passed q sem =>
        obtain rfl : sem = .joinsem c := by simpa [taken] using hcounted
        have hparent := passed_joinsem_parent hreaches hevent
        obtain rfl := createdBy_unique hreaches (.inl hparent) (.inl hcreated)
        have hpassed : 1 ≤ trace.countP (joinWaits q c).credit :=
          countP_pos_of_mem hevent (by simp [joinWaits])
        omega
    | _ => simp [taken] at hcounted
  have hvalue : k.value (.joinsem c) + trace.countP (taken (.joinsem c)) =
      0 + trace.countP (given (.joinsem c)) := value_balance hreaches _
  have hsignals := childSignals_balance hreaches c
  have hnonpos : pending (childSignals c).owes k.scripts ≤ 0 := by
    apply AtRest.pending_nonpos hrest
    · simp [childSignals]
    · intro q sem rest _ hwait _
      cases hwait <;> simp [childSignals, joinUpdate]
  omega

/-- No process at rest waits for a child, by the distance of the child from
the end of the table. -/
theorem AtRest.not_joining
    (hrun : processSystem.Run JoinsAll trace k)
    (hrest : ∀ script ∈ k.scripts, AtRest trace k script.1 script.2)
    (distance : ℕ) : ∀ p c rest, maxProcess ≤ c + distance →
      (p, Stmt.P (.joinsem c) :: rest) ∉ k.scripts := by
  have hreaches := hrun.reaches
  have hshaped := shaped_of_reaches hreaches
  have hwaits : ∀ {p c rest}, (p, Stmt.P (.joinsem c) :: rest) ∈ k.scripts →
      .created p c ∈ trace ∧ trace.countP (exits c) = 0 := by
    intro p c rest hmem
    have hscript : AtRest trace k p (.P (.joinsem c) :: rest) := hrest _ hmem
    cases hscript with
    | waiting hwait hzero => exact AtRest.exits_eq_zero hrun hrest hmem hzero
  induction distance with
  | zero =>
      intro p c rest hfar hmem
      have hknown := (hshaped.parents p c (.inl (hwaits hmem).1)).2.1
      rcases Option.ne_none_iff_exists'.mp hknown with
        ⟨⟨pid, par⟩, hidentity⟩
      have hlt := (hshaped.entries c pid par hidentity).2.2.2
      omega
  | succ distance ih =>
      intro p c rest hfar hmem
      rcases hwaits hmem with ⟨hcreated, hexits⟩
      have hlt := lt_of_created hreaches hcreated
      have hknown := (hshaped.parents p c (.inl hcreated)).2.1
      rcases AtRest.exists_script hreaches hrest hknown with
        ⟨script, hscript⟩
      -- the child has not ended, so it waits for a child of its own
      have hprogram : .user ∈ script := by
        by_contra huser
        rcases AtRest.ended_of_no_user hrun hrest hscript huser with
          ⟨event, hevent, hcounted⟩
        apply List.countP_eq_zero.mp hexits event hevent
        cases event with
        | called q call =>
            simp only [programs, decide_eq_true_eq] at hcounted
            rcases hcounted with ⟨rfl, hexit | rfl⟩
            · simp [exits, hexit]
              omega
            · have hzero := zero_of_halt hrun hevent
              omega
        | _ => simp [programs] at hcounted
      have hchild : AtRest trace k c script := hrest _ hscript
      cases hchild with
      | done => simp at hprogram
      | halting => simp at hprogram
      | waiting hwait hzero =>
          cases hwait with
          | searching => exact bmsem_value hreaches hrest hzero
          | forking => exact multex_value hreaches hrest _ hzero
          | counting => exact multex_value hreaches hrest _ hzero
          | leaving => exact multex_value hreaches hrest _ hzero
          | joining hparent =>
              have hnext := lt_of_created hreaches (hwaits hscript).1
              exact ih _ _ _ (by omega) hscript
          | exiting => simp at hprogram

/-- The units of an `exitsem` are taken by the children. -/
theorem passed_exitsem_child
    (hreaches : processSystem.Reaches trace k) {q : ℕ}
    (hpassed : .passed q (.exitsem p) ∈ trace) : .created p q ∈ trace := by
  rcases List.append_of_mem hpassed with ⟨earlier, later, rfl⟩
  rcases hreaches.step_at with
    ⟨before, after, action, hbefore, -, hstep, -⟩
  rcases step_script hbefore hstep with ⟨p, old, new, spawned, hget, hscript, -⟩
  cases hscript
  cases (script_of_getElem? hbefore hget).waiting with
  | exiting hne hparent =>
      rcases hparent with hcreated | ⟨-, hzero⟩
      · exact List.mem_append_left _ hcreated
      · exact (hne hzero).elim

/-- The children a process has created. -/
def children (trace : List Event) (p : ℕ) : Finset ℕ :=
  (Finset.range maxProcess).filter fun c => .created p c ∈ trace

theorem mem_children
    (hreaches : processSystem.Reaches trace k) :
    c ∈ children trace p ↔ .created p c ∈ trace := by
  simp only [children, Finset.mem_filter, Finset.mem_range,
    and_iff_right_iff_imp]
  intro hcreated
  have hshaped := shaped_of_reaches hreaches
  have hknown := (hshaped.parents p c (.inl hcreated)).2.1
  rcases Option.ne_none_iff_exists'.mp hknown with ⟨⟨pid, par⟩, hidentity⟩
  exact (hshaped.entries c pid par hidentity).2.2.2

/-- The child whose unit the event is about. -/
def childOf : Event → ℕ
  | .passed _ (.joinsem c) => c
  | .passed q (.exitsem _) => q
  | _ => 0

/-- The units given to an `exitsem` are more than those taken when all
children have been joined and one of them waits. -/
theorem exitsem_value
    (hreaches : processSystem.Reaches trace k)
    (hjoined : ∀ c, .created p c ∈ trace →
      .passed p (.joinsem c) ∈ trace)
    (hgiving : pending (exitTokens p).owes k.scripts ≤ 0)
    {rest : List Stmt} (hmem : (c, .P (.exitsem p) :: rest) ∈ k.scripts)
    (hchild : .created p c ∈ trace) : k.value (.exitsem p) ≠ 0 := by
  have hwaits : ∀ q, (trace.countP (exitWaits q).credit : ℤ) +
      pending (exitWaits q).owes k.scripts = trace.countP (exits q) :=
    fun q => balance_of_reaches (exitWaits_tariff q) rfl hreaches
  have htakes : ∀ q, (trace.countP fun event => taken (.exitsem p) event &&
      decide (childOf event = q)) ≤ trace.countP (exitWaits q).credit := by
    intro q
    apply List.countP_mono_left
    intro event _ hcounted
    cases event with
    | passed d sem =>
        simp only [taken, Bool.and_eq_true, decide_eq_true_eq] at hcounted
        rcases hcounted with ⟨rfl, hd⟩
        simpa [exitWaits, childOf] using hd
    | _ => simp [taken] at hcounted
  have hgives : ∀ q ∈ children trace p, 1 ≤ trace.countP fun event =>
      (exitTokens p).debit event && decide (childOf event = q) := by
    intro q hq
    exact countP_pos_of_mem (hjoined q ((mem_children hreaches).mp hq))
      (by simp [exitTokens, childOf])
  have htakers : ∀ event ∈ trace, taken (.exitsem p) event = true →
      childOf event ∈ children trace p := by
    intro event hevent hcounted
    rw [mem_children hreaches]
    cases event with
    | passed q sem =>
        obtain rfl : sem = .exitsem p := by simpa [taken] using hcounted
        exact passed_exitsem_child hreaches hevent
    | _ => simp [taken] at hcounted
  have hgivers : ∀ event ∈ trace, (exitTokens p).debit event = true →
      childOf event ∈ children trace p := by
    intro event hevent hcounted
    rw [mem_children hreaches]
    cases event with
    | passed q sem =>
        cases sem with
        | joinsem d =>
            obtain rfl : q = p := by simpa [exitTokens] using hcounted
            exact passed_joinsem_parent hreaches hevent
        | _ => simp [exitTokens] at hcounted
    | _ => simp [exitTokens] at hcounted
  have hless : trace.countP (taken (.exitsem p)) <
      trace.countP (exitTokens p).debit := by
    rw [countP_eq_sum_keys _ childOf _ htakers,
      countP_eq_sum_keys _ childOf _ hgivers]
    apply Finset.sum_lt_sum
    · intro q hq
      have hnonneg := (exitWaits_covers q).pending_nonneg hreaches
      have hexits := exits_le_one hreaches q
      have hbalance := hwaits q
      have htake := htakes q
      have hgive := hgives q hq
      omega
    · refine ⟨c, (mem_children hreaches).mpr hchild, ?_⟩
      -- the child that waits has not taken its unit
      have howed := (exitWaits_covers c).owed_le_pending hreaches hmem
      have hnonneg : 0 ≤ owed (exitWaits c).owes (c, rest) := by
        apply owed_nonneg
        intro q stmt
        cases stmt with
        | P sem =>
            cases sem with
            | exitsem par =>
                simp only [exitWaits]
                split_ifs <;> simp
            | _ => simp [exitWaits]
        | _ => simp [exitWaits]
      have hhead : (exitWaits c).owes c (.P (.exitsem p)) = 1 := by
        simp [exitWaits]
      rw [owed_cons, hhead] at howed
      have hexits := exits_le_one hreaches c
      have hbalance := hwaits c
      have htake := htakes c
      have hgive := hgives c ((mem_children hreaches).mpr hchild)
      omega
  have htokens : (trace.countP (given (.exitsem p)) : ℤ) +
      pending (exitTokens p).owes k.scripts =
        trace.countP (exitTokens p).debit :=
    balance_of_reaches (exitTokens_tariff p) rfl hreaches
  have hvalue : k.value (.exitsem p) + trace.countP (taken (.exitsem p)) =
      0 + trace.countP (given (.exitsem p)) := value_balance hreaches _
  omega

/-- A process that has ended has taken the unit of every child, once nobody
waits for a child. -/
theorem AtRest.passed_of_ended
    (hrun : processSystem.Run JoinsAll trace k)
    (hrest : ∀ script ∈ k.scripts, AtRest trace k script.1 script.2)
    (hjoining : ∀ p c rest, (p, Stmt.P (.joinsem c) :: rest) ∉ k.scripts)
    (hended : Ended trace p) (hcreated : .created p c ∈ trace) :
    .passed p (.joinsem c) ∈ trace := by
  have hbalance := joinWaits_balance hrun p c
  rw [if_pos (calledJoin_of_ended hrun hended hcreated)] at hbalance
  have hnobody : pending (joinWaits p c).owes k.scripts ≤ 0 := by
    apply AtRest.pending_nonpos hrest
    · simp [joinWaits]
    · intro q sem rest hmem hwait _
      cases hwait with
      | joining => exact (hjoining _ _ _ hmem).elim
      | _ => simp [joinWaits]
  rcases List.countP_pos_iff.mp
    (show 0 < trace.countP (joinWaits p c).credit by omega)
    with ⟨event, hevent, hcounted⟩
  cases event with
  | passed q sem =>
      simp only [joinWaits, decide_eq_true_eq] at hcounted
      rcases hcounted with ⟨rfl, rfl⟩
      exact hevent
  | _ => simp [joinWaits] at hcounted

/-- At rest no process has an exit token to give. -/
theorem AtRest.tokens_given
    (hreaches : processSystem.Reaches trace k)
    (hrest : ∀ script ∈ k.scripts, AtRest trace k script.1 script.2) :
    pending (exitTokens p).owes k.scripts ≤ 0 := by
  apply AtRest.pending_nonpos hrest
  · simp [exitTokens]
  · intro q sem rest _ hwait hzero
    cases hwait with
    | counting => exact (multex_value hreaches hrest _ hzero).elim
    | joining =>
        simp only [joinUpdate, List.tail_cons, List.cons_append,
          List.nil_append, owed_cons, owed_nil, exitTokens]
        split_ifs <;> simp_all
    | _ => simp [exitTokens]

/-- Programs that join every child once before they end do not deadlock. -/
theorem join_all_no_deadlock
    (hrun : processSystem.Run JoinsAll trace k) : ¬Deadlocked k := by
  intro hdeadlocked
  have hreaches := hrun.reaches
  have hshaped := shaped_of_reaches hreaches
  have hrest := atRest_of_deadlocked hreaches hdeadlocked
  have hjoining : ∀ p c rest, (p, Stmt.P (.joinsem c) :: rest) ∉ k.scripts :=
    fun p c rest => AtRest.not_joining hrun hrest maxProcess p c rest (by omega)
  -- what is left are processes that wait for their parents
  have hexiting : ∀ p script, (p, script) ∈ k.scripts → .user ∉ script := by
    intro p script hmem
    have hscript : AtRest trace k p script := hrest _ hmem
    cases hscript with
    | done => simp
    | halting => simp
    | waiting hwait hzero =>
        cases hwait with
        | searching => exact (bmsem_value hreaches hrest hzero).elim
        | joining => exact (hjoining _ _ _ hmem).elim
        | exiting => simp
        | _ => exact (multex_value hreaches hrest _ hzero).elim
  rcases hdeadlocked.1 with ⟨th, hth, hunfinished⟩
  have hmem : (th.processID, th.script) ∈ k.scripts :=
    List.mem_map.mpr ⟨th, hth, rfl⟩
  have hscript : AtRest trace k th.processID th.script := hrest _ hmem
  have huser := hexiting _ _ hmem
  unfold Thread.Finished at hunfinished
  generalize th.script = script at hmem hscript huser hunfinished
  cases hscript with
  | done => simp at hunfinished
  | halting hpid => simp [hpid] at hunfinished
  | waiting hwait hzero =>
      cases hwait with
      | searching => simp at huser
      | forking => simp at huser
      | joining => simp at huser
      | counting => simp at huser
      | leaving => exact multex_value hreaches hrest _ hzero
      | @exiting par ec hne hparent =>
          have hcreated : .created par th.processID ∈ trace :=
            hparent.resolve_right fun h => hne h.2
          have hknown := (hshaped.parents par _ hparent).1
          rcases AtRest.exists_script hreaches hrest hknown with
            ⟨script, hscript⟩
          have hended := AtRest.ended_of_no_user hrun hrest hscript
            (hexiting _ _ hscript)
          refine exitsem_value hreaches ?_ ?_ hmem hcreated hzero
          · intro c hchild
            exact AtRest.passed_of_ended hrun hrest hjoining hended hchild
          · exact AtRest.tokens_given hreaches hrest

/-- Process 0 joins its one child, and both come to their ends. -/
theorem join_all_no_deadlock_joinOfChild :
    ∃ trace k, processSystem.Run JoinsAll trace k ∧
      .returned 0 (.join 1) 0 ∈ trace ∧ .finished 1 ∈ trace ∧
      (.called 0 (.exit 0) ∈ trace) ∧ ¬Deadlocked k := by
  have hreplays : processSystem.Replays JoinsAll
      (joinOfChild 7 ++ [⟨0, .call (.exit 0)⟩] ++ advanceBy 1 3)
      (fun trace _ => decide (.returned 0 (.join 1) 0 ∈ trace) &&
        decide (.finished 1 ∈ trace) &&
        decide (.called 0 (.exit 0) ∈ trace)) = true := by
    decide +kernel
  rcases StepSystem.exists_run_of_replays hreplays with
    ⟨trace, k, hrun, hcheck⟩
  simp only [Bool.and_eq_true, decide_eq_true_eq] at hcheck
  exact ⟨trace, k, hrun, hcheck.1.1, hcheck.1.2, hcheck.2,
    join_all_no_deadlock hrun⟩

end Tree

end Processes

end Nachos
