import Nachos.ProcessLedgers
import Nachos.Library.SemaphorePool

/-!
# The semaphores of the process table

The threads with the semaphores of the table are a pool of workers.  A
semaphore of an entry that is not constructed yet counts with its initial
value; since a pid is granted once, `newPCB` never replaces an entry that is
in use, and no step but `P` and `V` changes a value.
-/

namespace Nachos

open Library

namespace Processes

/-! ## Each pid is granted and constructed at most once -/

section Grants

variable {trace : List Event} {k : Processes}

/-- A pid is granted when its bit is set. -/
theorem granted_eq_bit
    (hreaches : processSystem.Reaches trace k) (c : ℕ) :
    (trace.countP (creations c).debit : ℤ) + (if c = 0 then 1 else 0) =
      if k.pTable.bm.bit c then 1 else 0 := by
  apply hreaches.invariant (fun trace k =>
    (trace.countP (creations c).debit : ℤ) + (if c = 0 then 1 else 0) =
      if k.pTable.bm.bit c then 1 else 0)
  · simp [processSystem, start_bit]
  · intro trace k k' action event _ hinv _ hstep
    rcases step_moves hstep with ⟨th, -, -, -, hmoves⟩
    rw [Ledger.countP_concat, hmoves.bit]
    by_cases hgranted : event = .searched th.processID (some c)
    · have hclear := (hmoves.of_granted hgranted).2.2.1
      simp only [hclear, Bool.false_eq_true, if_false] at hinv
      simp only [hgranted, creations, decide_true, if_true, Bool.or_true]
      simp only [creations] at hinv
      omega
    · have hdebit : (creations c).debit event = false := by
        cases event with
        | searched q slot =>
            simp only [creations, decide_eq_false_iff_not]
            rintro rfl
            exact hgranted (by rw [(hmoves.of_granted rfl).1])
        | _ => rfl
      simpa [hdebit, hgranted] using hinv

theorem granted_le_one
    (hreaches : processSystem.Reaches trace k) (c : ℕ) :
    (trace.countP (creations c).debit : ℤ) + (if c = 0 then 1 else 0) ≤
      1 := by
  rw [granted_eq_bit hreaches c]
  split <;> omega

theorem creations_nonneg (c p : ℕ) (stmt : Stmt) :
    0 ≤ (creations c).owes p stmt := by
  cases stmt <;> grind [creations]

/-- The entry a thread is about to construct is not there yet. -/
theorem newPCB_fresh
    (hreaches : processSystem.Reaches trace k) {p c : ℕ} {call : Call}
    {rest : List Stmt} (hmem : (p, .newPCB c call :: rest) ∈ k.scripts) :
    k.pTable.pcb c = none := by
  have hshaped := shaped_of_reaches hreaches
  have hbalance := balance_of_reaches (creations_tariff c) rfl hreaches
  have hgranted := granted_le_one hreaches c
  have hpending := owed_le_pending
    (fun script _ => owed_nonneg (creations_nonneg c) script) hmem
  have hrest := owed_nonneg (creations_nonneg c) (p, rest)
  have hhead : (creations c).owes p (.newPCB c call) = 1 := by
    simp [creations]
  rw [owed_cons, hhead] at hpending
  by_contra hsome
  rcases Option.ne_none_iff_exists'.mp hsome with ⟨pcb, hpcb⟩
  rcases hshaped.entry hpcb with ⟨-, hcreated | ⟨-, rfl⟩, -, -⟩
  · have hcount : 1 ≤ trace.countP (creations c).credit :=
      countP_pos_of_mem hcreated (by simp [creations])
    split at hgranted <;> omega
  · rw [if_pos rfl] at hgranted
    omega

end Grants

/-! ## The pool -/

def initialValue : SemRef → ℤ
  | .bmsem | .multex _ => 1
  | .joinsem _ | .exitsem _ => 0

def value (k : Processes) (sem : SemRef) : ℤ :=
  match k.sem? sem with
  | some q => q.value
  | none => initialValue sem

def queue (k : Processes) (sem : SemRef) : List ThreadId :=
  match k.sem? sem with
  | some q => q.queue
  | none => []

/-- The semaphore a script is about to take a unit of. -/
def wants : List Stmt → Option SemRef
  | .P sem :: _ => some sem
  | _ => none

def pool (k : Processes) : Pool SemRef (List Stmt) where
  value := k.value
  queue := k.queue
  workers := k.threads.map fun th => ⟨th.script, th.blocked⟩

def signal : Event → Pool.Signal SemRef
  | .passed _ sem => .took sem
  | .released _ sem => .gave sem
  | _ => .silent

section Pool

variable {trace : List Event} {k k' : Processes} {t : ThreadId}
variable {th : Thread} {choice : Choice} {event : Event}

theorem value_eq {sem : SemRef} {q : Semaphore} (hsem : k.sem? sem = some q) :
    k.value sem = q.value := by
  simp [value, hsem]

theorem queue_eq {sem : SemRef} {q : Semaphore} (hsem : k.sem? sem = some q) :
    k.queue sem = q.queue := by
  simp [queue, hsem]

theorem value_setSem
    {sem : SemRef} {old : Semaphore} (q : Semaphore)
    (hsem : k.sem? sem = some old) :
    (k.setSem sem q).value = Function.update k.value sem q.value := by
  funext other
  by_cases heq : other = sem
  · subst heq
    simp [value, setSem_sem?, hsem]
  · simp [value, setSem_sem?, heq]

theorem queue_setSem
    {sem : SemRef} {old : Semaphore} (q : Semaphore)
    (hsem : k.sem? sem = some old) :
    (k.setSem sem q).queue = Function.update k.queue sem q.queue := by
  funext other
  by_cases heq : other = sem
  · subst heq
    simp [queue, setSem_sem?, hsem]
  · simp [queue, setSem_sem?, heq]

/-- The values and the queues are read from the table alone. -/
theorem pool_of_sem?
    {k₁ k₂ : Processes} (hsem : ∀ sem, k₁.sem? sem = k₂.sem? sem) :
    k₁.value = k₂.value ∧ k₁.queue = k₂.queue := by
  constructor <;> funext sem
  · simp [value, hsem]
  · simp [queue, hsem]

theorem pool_workers_getElem?
    (hget : k.threads[t]? = some th) :
    k.pool.workers[t]? = some ⟨th.script, th.blocked⟩ := by
  simp [pool, hget]

theorem value_setSem_same
    {sem : SemRef} {old q : Semaphore} (hsem : k.sem? sem = some old)
    (hvalue : q.value = old.value) : (k.setSem sem q).value = k.value := by
  rw [value_setSem q hsem, hvalue, ← value_eq hsem, Function.update_eq_self]

theorem queue_setSem_same
    {sem : SemRef} {old q : Semaphore} (hsem : k.sem? sem = some old)
    (hqueue : q.queue = old.queue) : (k.setSem sem q).queue = k.queue := by
  rw [queue_setSem q hsem, hqueue, ← queue_eq hsem, Function.update_eq_self]

/-- An entry that is updated keeps its semaphores. -/
theorem sem?_modifyPCB
    {pid : ℕ} {f : PCB → PCB}
    (hf : ∀ pcb, (f pcb).joinsem = pcb.joinsem ∧
      (f pcb).exitsem = pcb.exitsem ∧ (f pcb).multex = pcb.multex)
    (sem : SemRef) : (k.modifyPCB pid f).sem? sem = k.sem? sem := by
  have hfield : ∀ {field : PCB → Semaphore} (c : ℕ),
      (∀ pcb, field (f pcb) = field pcb) →
      ((k.modifyPCB pid f).pTable.pcb c).map field =
        (k.pTable.pcb c).map field := by
    intro field c hsame
    rw [modifyPCB_pcb]
    split
    next heq =>
      subst heq
      simp [Function.comp_def, hsame]
    next => rfl
  cases sem with
  | bmsem => rfl
  | joinsem c => exact hfield c fun pcb => (hf pcb).1
  | exitsem c => exact hfield c fun pcb => (hf pcb).2.1
  | multex c => exact hfield c fun pcb => (hf pcb).2.2

theorem pool_eq
    {values : SemRef → ℤ} {queues : SemRef → List ThreadId}
    {workers : List (Worker (List Stmt))}
    (hvalue : k.value = values) (hqueue : k.queue = queues)
    (hworkers : k.pool.workers = workers) :
    k.pool = ⟨values, queues, workers⟩ := by
  rw [← hvalue, ← hqueue, ← hworkers]
  rfl

/-- The value of a semaphore changes, and the thread continues. -/
theorem pool_setSem_value
    {sem : SemRef} {q : Semaphore} (hsem : k.sem? sem = some q)
    (hawake : th.blocked = false) (v : ℤ) (rest : List Stmt) :
    pool ((k.setSem sem { q with value := v }).continueWith t th rest) =
      ⟨Function.update k.value sem v, k.queue, k.pool.resume t rest⟩ := by
  apply pool_eq
  · exact value_setSem _ hsem
  · exact queue_setSem_same hsem rfl
  · simp [pool, Pool.resume, List.map_set, hawake]

/-- A step that touches no semaphore and lets its thread continue. -/
theorem pool_other
    (new : List Stmt) (spawned : List (ℕ × List Stmt))
    (hget : k.pool.workers[t]? = some ⟨th.script, false⟩)
    (hawake : th.blocked = false) (hwants : wants th.script = none)
    (hsem : k'.value = k.value ∧ k'.queue = k.queue)
    (hthreads : k'.threads = k.threads.set t { th with script := new } ++
      spawned.map fun script => ⟨script.1, false, script.2⟩) :
    Pool.Move wants k.pool .silent k'.pool := by
  have hworkers : k'.pool.workers = k.pool.resume t new ++
      (spawned.map Prod.snd).map fun cont => ⟨cont, false⟩ := by
    simp [pool, Pool.resume, hthreads, List.map_set, hawake]
  rw [pool_eq hsem.1 hsem.2 hworkers]
  exact .other _ hget hwants

/-- Every step of a thread is a move of its worker. -/
theorem pool_move
    (hsound : k.pool.Sound wants)
    (hfresh : ∀ c call rest, th.script = .newPCB c call :: rest →
      k.pTable.pcb c = none)
    (hget : k.threads[t]? = some th) (hawake : th.blocked = false)
    (hmoves : Moves k t th choice event k') :
    Pool.Move wants k.pool (signal event) k'.pool := by
  have hold : k.pool.workers[t]? = some ⟨th.script, false⟩ := by
    rw [← hawake]
    exact pool_workers_getElem? hget
  cases hmoves with
  | @passed sem q rest hscript hsem hvalue =>
      rw [pool_setSem_value hsem hawake, ← value_eq hsem]
      exact .take hold (by rw [hscript]; rfl)
        (by simpa [pool, value_eq hsem] using hvalue)
  | @slept sem q rest hscript hsem hvalue =>
      have hnew : pool ((k.setSem sem { q with queue := q.queue ++ [t]
          }).setThread t { th with blocked := true }) =
          ⟨k.value, Function.update k.queue sem (k.queue sem ++ [t]),
            k.pool.workers.set t ⟨th.script, true⟩⟩ := by
        apply pool_eq
        · exact value_setSem_same hsem rfl
        · rw [queue_eq hsem]
          exact queue_setSem _ hsem
        · simp [pool, List.map_set]
      rw [hnew]
      exact .sleep hold (by rw [hscript]; rfl)
        (by simpa [pool, value_eq hsem] using hvalue)
  | @released sem q rest hscript hsem hempty =>
      rw [pool_setSem_value hsem hawake, ← value_eq hsem]
      exact .postEmpty hold (by rw [hscript]; rfl)
        (by simpa [pool, queue_eq hsem] using hempty)
  | @woke sem q u waiting rest hscript hsem hqueue =>
      have hhead : k.pool.queue sem = u :: waiting := by
        simpa [pool, queue_eq hsem] using hqueue
      have hmem : u ∈ k.pool.queue sem := by simp [hhead]
      obtain ⟨cont, hsleeper, -⟩ := hsound.queued sem u hmem
      have hne : u ≠ t := hsound.ne_of_queued hold hmem
      obtain ⟨sleeper, hu, hcont⟩ :
          ∃ sleeper, k.threads[u]? = some sleeper ∧
            (⟨sleeper.script, sleeper.blocked⟩ : Worker (List Stmt)) =
              ⟨cont, true⟩ := by
        simpa [pool] using hsleeper
      rw [Worker.mk.injEq] at hcont
      have hresumed : ((k.setSem sem ⟨q.value + 1, waiting⟩).continueWith t
          th rest).threads[u]? = some sleeper := by
        rw [continueWith_threads, setSem_threads, List.getElem?_set_ne hne.symm,
          hu]
      have hnew : pool (((k.setSem sem ⟨q.value + 1, waiting⟩).continueWith t
          th rest).wake u) =
          ⟨Function.update k.value sem (k.value sem + 1),
            Function.update k.queue sem waiting,
            (k.pool.resume t rest).set u ⟨cont, false⟩⟩ := by
        apply pool_eq
        · rw [(pool_of_sem? (wake_sem? _ u)).1, value_eq hsem]
          exact value_setSem _ hsem
        · rw [(pool_of_sem? (wake_sem? _ u)).2]
          exact queue_setSem _ hsem
        · simp only [wake, hresumed]
          simp [pool, Pool.resume, List.map_set, hawake, hcont.1]
      rw [hnew]
      exact .postWake hold (by rw [hscript]; rfl) hhead hsleeper
  | @granted call pid rest hscript =>
      apply pool_other (execGranted pid call ++ rest) [] hold hawake
        (by rw [hscript]; rfl) (pool_of_sem? _) (by simp)
      intro sem
      cases sem <;> rfl
  | @full call rest hscript =>
      exact pool_other (execFull call ++ rest) [] hold hawake (by rw [hscript]; rfl)
        ⟨rfl, rfl⟩ (by simp)
  | @created pid call rest hscript hlt =>
      have hnone := hfresh pid call rest hscript
      apply pool_other rest [] hold hawake (by rw [hscript]; rfl) _ (by simp)
      -- the semaphores of a new entry have their initial values
      constructor <;> funext sem
      · cases sem with
        | bmsem => rfl
        | _ c =>
            by_cases heq : c = pid
            · subst heq
              simp [value, sem?, hnone, initialValue, PCB.new]
            · simp [value, sem?, heq]
      · cases sem with
        | bmsem => rfl
        | _ c =>
            by_cases heq : c = pid
            · subst heq
              simp [queue, sem?, hnone, PCB.new]
            · simp [queue, sem?, heq]
  | @execRefused pid call pcb rest hscript =>
      exact pool_other rest [] hold hawake (by rw [hscript]; rfl)
        ⟨rfl, rfl⟩ (by simp)
  | @forked pid call pcb name arg rest hscript =>
      apply pool_other rest [(pcb.pid, [.runProcess arg])] hold hawake
        (by rw [hscript]; rfl) (pool_of_sem? _) (by simp)
      exact sem?_modifyPCB fun pcb => ⟨rfl, rfl, rfl⟩
  | @updated stmt pid f event pcb rest hscript hpcb hupdate =>
      have hsilent : signal event = .silent := by cases hupdate <;> rfl
      have hwants : wants (stmt :: rest) = none := by cases hupdate <;> rfl
      rw [hsilent]
      apply pool_other rest [] hold hawake (by rw [hscript, hwants])
        (pool_of_sem? _) (by simp)
      apply sem?_modifyPCB
      cases hupdate <;> exact fun pcb => ⟨rfl, rfl, rfl⟩
  | @locally choice event new hlocal =>
      have hsilent : signal event = .silent := by
        generalize th.script = old at hlocal
        cases hlocal <;> rfl
      have hwants : wants th.script = none := by
        generalize th.script = old at hlocal
        cases hlocal <;> rfl
      rw [hsilent]
      exact pool_other new [] hold hawake hwants ⟨rfl, rfl⟩ (by simp)
  | halted hscript =>
      exact pool_other [] [] hold hawake (by rw [hscript]; rfl)
        ⟨rfl, rfl⟩ (by simp)

theorem start_sem? (sem : SemRef) :
    start.sem? sem = none ∨
      start.sem? sem = some ⟨initialValue sem, []⟩ := by
  cases sem with
  | bmsem => exact .inr rfl
  | _ c =>
      by_cases hzero : c = 0
      · subst hzero
        exact .inr rfl
      · exact .inl (by simp [sem?, start, initialTable, hzero])

theorem start_value (sem : SemRef) : start.value sem = initialValue sem := by
  rcases start_sem? sem with hnone | hsome
  · simp [value, hnone]
  · exact value_eq hsome

theorem start_queue (sem : SemRef) : start.queue sem = [] := by
  rcases start_sem? sem with hnone | hsome
  · simp [queue, hnone]
  · exact queue_eq hsome

theorem pool_step
    {action : Action} (hreaches : processSystem.Reaches trace k)
    (hsound : k.pool.Sound wants)
    (hstep : k.step action = .ok (k', event)) :
    Pool.Move wants k.pool (signal event) k'.pool := by
  rcases step_moves hstep with ⟨th, -, hget, hawake, hmoves⟩
  apply pool_move hsound _ hget hawake hmoves
  intro c call rest hscript
  have hmem := mem_scripts hget
  rw [hscript] at hmem
  exact newPCB_fresh hreaches hmem

theorem sound_of_reaches
    (hreaches : processSystem.Reaches trace k) :
    k.pool.Sound wants := by
  apply hreaches.invariant (fun _ k => k.pool.Sound wants)
  · apply Library.Pool.Sound.of_all_awake
    · intro sem
      have hinitial : 0 ≤ initialValue sem := by
        cases sem <;> simp [initialValue]
      rwa [← start_value] at hinitial
    · exact start_queue
    · intro worker hmem
      obtain rfl := List.mem_singleton.mp hmem
      rfl
  · intro trace k k' action event hbefore hsound _ hstep
    exact hsound.move (pool_step hbefore hsound hstep)

/-- The value of a semaphore counts the units given and taken. -/
theorem value_balance
    (hreaches : processSystem.Reaches trace k) (sem : SemRef) :
    k.value sem + trace.countP (taken sem) =
      initialValue sem + trace.countP (given sem) := by
  apply hreaches.invariant (fun trace k =>
    k.value sem + trace.countP (taken sem) =
      initialValue sem + trace.countP (given sem))
  · simpa [processSystem] using start_value sem
  · intro trace k k' action event hbefore hinv _ hstep
    have hmove := pool_step hbefore (sound_of_reaches hbefore) hstep
    have hvalue : k'.value sem = k.value sem + _ := hmove.value_eq sem
    rw [Ledger.countP_concat, Ledger.countP_concat, hvalue]
    cases event <;> simp only [signal, taken, given, decide_eq_true_eq] <;>
      grind

theorem value_nonneg
    (hreaches : processSystem.Reaches trace k) (sem : SemRef) :
    0 ≤ k.value sem :=
  (sound_of_reaches hreaches).nonneg sem

end Pool

end Processes

end Nachos
