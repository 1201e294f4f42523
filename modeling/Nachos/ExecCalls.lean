import Nachos.JoinArguments
import Nachos.SystemCalls

/-!
# `Exec` and `ExecV`, each to its end

`handle_SC_Exec` opens the executable before it calls `ExecUpdate`;
`handle_SC_ExecV` calls it at once.  The calls are followed here to the point
where they return or sleep, with no other thread in between.
-/

namespace Nachos

open Library

namespace Processes

/-- How a call ends. -/
inductive CallEnd
  | returned (result : ℤ) (k : Processes)
  | sleeps (k : Processes)
  | fails (error : StepError)
  | outOfFuel

def nextChoice (k : Processes) (t : ThreadId) (found : Bool) : Choice :=
  match k.threads[t]? with
  | some ⟨_, _, .openExecutable _ :: _⟩ => .answer found
  | _ => .proceed

def runFuel (t : ThreadId) (found : Bool) : ℕ → Processes → CallEnd
  | 0, _ => .outOfFuel
  | fuel + 1, k =>
      match k.step ⟨t, k.nextChoice t found⟩ with
      | .error error => .fails error
      | .ok (k', .returned _ _ result) => .returned result k'
      | .ok (k', .slept _ _) => .sleeps k'
      | .ok (k', _) => runFuel t found fuel k'

/-- A call of `Exec` or `ExecV`, when the host answers an attempt to open the
executable with `found`. -/
def runCall (k : Processes) (t : ThreadId) (call : Call) (found : Bool) :
    CallEnd :=
  match k.step ⟨t, .call call⟩ with
  | .error error => .fails error
  | .ok (k', _) => runFuel t found 9 k'

/-- For each thread its process, and whether it sleeps. -/
def readiness (k : Processes) : List (ℕ × Bool) :=
  k.threads.map fun th => (th.processID, th.blocked)

/-- `ReadyToRun` for the first thread of a queue. -/
def awaken (queue : List ThreadId) (ready : List (ℕ × Bool)) :
    List (ℕ × Bool) :=
  match queue with
  | [] => ready
  | u :: _ => ready.modify u fun thread => (thread.1, false)

/-! ## The statements of the running thread -/

/-- The thread is to execute the script. -/
structure Executes (k : Processes) (t : ThreadId) (p : ℕ)
    (script : List Stmt) (T : PTable) (ready : List (ℕ × Bool)) : Prop where
  active : k.halted = false
  thread : k.threads[t]? = some ⟨p, false, script⟩
  table : k.pTable = T
  ready : k.readiness = ready

/-- A step after which the call goes on. -/
def Goes (t : ThreadId) (found : Bool) (k k' : Processes) : Prop :=
  ∀ fuel, runFuel t found (fuel + 1) k = runFuel t found fuel k'

section Statements

variable {k : Processes} {t : ThreadId} {p : ℕ} {rest script new : List Stmt}
variable {stmt : Stmt} {T : PTable} {ready : List (ℕ × Bool)} {found : Bool}

@[simp] theorem setSem_halted (k : Processes) (sem : SemRef) (q : Semaphore) :
    (k.setSem sem q).halted = k.halted := by
  cases sem <;> rfl

/-- The thread goes on with another script, in a state whose threads are the
same. -/
theorem Executes.continueWith (hexecutes : k.Executes t p script T ready)
    (k₀ : Processes) (hthreads : k₀.threads = k.threads)
    (hhalted : k₀.halted = k.halted) (new : List Stmt) :
    (k₀.continueWith t ⟨p, false, script⟩ new).Executes t p new k₀.pTable
      ready := by
  have hget : k₀.threads[t]? = some ⟨p, false, script⟩ := by
    rw [hthreads, hexecutes.thread]
  obtain ⟨hlt, hold⟩ := List.getElem?_eq_some_iff.mp hget
  constructor
  case active =>
    change k₀.halted = false
    rw [hhalted, hexecutes.active]
  case thread => exact getElem?_continueWith hget new
  case table => rfl
  case ready =>
    have hlength : t < k₀.readiness.length := by simpa [readiness]
    have hsame : (p, false) = k₀.readiness[t] := by simp [readiness, hold]
    rw [← hexecutes.ready]
    have hset : (k₀.continueWith t ⟨p, false, script⟩ new).readiness =
        k₀.readiness.set t (p, false) := by
      simp [readiness, List.map_set]
    rw [hset, hsame, List.set_getElem_self, readiness, hthreads, readiness]

theorem Executes.wake (hexecutes : k.Executes t p script T ready)
    (u : ThreadId) : (k.wake u).Executes t p script T
      (ready.modify u fun thread => (thread.1, false)) := by
  obtain ⟨hactive, hthread, htable, hready⟩ := hexecutes
  have hsets : (k.wake u).threads =
      k.threads.modify u fun th => { th with blocked := false } := by
    unfold Processes.wake
    cases hget : k.threads[u]? with
    | none =>
        have hle := List.getElem?_eq_none_iff.mp hget
        rw [List.modify_eq_self hle]
    | some th =>
        obtain ⟨hlt, hold⟩ := List.getElem?_eq_some_iff.mp hget
        apply List.ext_getElem?
        intro i
        rw [List.getElem?_modify]
        by_cases hsame : u = i
        · subst hsame
          simp [setThread, hlt, hold]
        · simp [setThread, hsame]
  constructor
  case active =>
    unfold Processes.wake
    split
    next => exact hactive
    next => exact hactive
  case thread =>
    rw [hsets, List.getElem?_modify, hthread]
    by_cases hsame : u = t
    · simp [hsame]
    · simp [hsame]
  case table => rw [wake_pTable, htable]
  case ready =>
    rw [readiness, hsets, ← hready, readiness]
    apply List.ext_getElem?
    intro i
    simp only [List.getElem?_map, List.getElem?_modify]
    cases k.threads[i]? with
    | none => rfl
    | some th => by_cases hsame : u = i <;> simp [hsame]

/-- What the step does decides how the call goes on. -/
theorem Executes.runFuel_succ
    (hexecutes : k.Executes t p (stmt :: rest) T ready) (fuel : ℕ) :
    runFuel t found (fuel + 1) k =
      match k.advance t ⟨p, false, stmt :: rest⟩ (stmt :: rest)
          (match stmt with
            | .openExecutable _ => .answer found
            | _ => .proceed) with
      | .error error => .fails error
      | .ok (k', .returned _ _ result) => .returned result k'
      | .ok (k', .slept _ _) => .sleeps k'
      | .ok (k', _) => runFuel t found fuel k' := by
  have hchoice : k.nextChoice t found =
      (match stmt with
        | .openExecutable _ => .answer found
        | _ => .proceed) := by
    rw [nextChoice, hexecutes.thread]
    cases stmt <;> rfl
  rw [runFuel, hchoice,
    step_of_awake hexecutes.active hexecutes.thread rfl]

/-- `P` of a semaphore with a unit. -/
theorem Executes.passes {sem : SemRef} {q : Semaphore}
    (hexecutes : k.Executes t p (.P sem :: rest) T ready)
    (hsem : k.sem? sem = some q) (hvalue : q.value ≠ 0) :
    ∃ k', Goes t found k k' ∧ k'.Executes t p rest
      (k.setSem sem { q with value := q.value - 1 }).pTable ready := by
  refine ⟨_, fun fuel => ?_, hexecutes.continueWith _
    (setSem_threads k sem _) (setSem_halted k sem _) rest⟩
  rw [hexecutes.runFuel_succ]
  simp only [advance, execute, semaphoreP, hsem, if_neg hvalue]

/-- `P` of a semaphore without one. -/
theorem Executes.goesToSleep {sem : SemRef} {q : Semaphore}
    (hexecutes : k.Executes t p (.P sem :: rest) T ready)
    (hsem : k.sem? sem = some q) (hvalue : q.value = 0) (fuel : ℕ) :
    ∃ k', runFuel t found (fuel + 1) k = .sleeps k' ∧
      k'.pTable = (k.setSem sem { q with queue := q.queue ++ [t] }).pTable ∧
      k'.readiness = ready.set t (p, true) := by
  refine ⟨(k.setSem sem { q with queue := q.queue ++ [t] }).setThread t
    ⟨p, true, .P sem :: rest⟩, ?_, rfl, ?_⟩
  · rw [hexecutes.runFuel_succ]
    simp only [advance, execute, semaphoreP, hsem, if_pos hvalue]
  · rw [← hexecutes.ready]
    simp [readiness, List.map_set]

/-- `V`, which wakes the first thread of the queue. -/
theorem Executes.signals {sem : SemRef} {q : Semaphore}
    (hexecutes : k.Executes t p (.V sem :: rest) T ready)
    (hsem : k.sem? sem = some q) :
    ∃ k', Goes t found k k' ∧ k'.Executes t p rest
      (k.setSem sem ⟨q.value + 1, q.queue.tail⟩).pTable
      (awaken q.queue ready) := by
  have hstep : ∀ fuel, runFuel t found (fuel + 1) k = _ :=
    fun fuel => hexecutes.runFuel_succ fuel
  cases hqueue : q.queue with
  | nil =>
      refine ⟨_, fun fuel => ?_, hexecutes.continueWith _
        (setSem_threads k sem _) (setSem_halted k sem _) rest⟩
      rw [hstep]
      simp only [advance, execute, semaphoreV, hsem, hqueue]
      rfl
  | cons u waiting =>
      refine ⟨_, fun fuel => ?_, (hexecutes.continueWith _
        (setSem_threads k sem _) (setSem_halted k sem _) rest).wake u⟩
      rw [hstep]
      simp only [advance, execute, semaphoreV, hsem, hqueue]
      rfl

theorem Executes.searches_none {call : Call}
    (hexecutes : k.Executes t p (.findAndSet call :: rest) T ready)
    (hfull : T.bm.findAndSet = .ok (-1, T.bm)) :
    ∃ k', Goes t found k k' ∧
      k'.Executes t p (execFull call ++ rest) T ready := by
  have htable := hexecutes.table
  refine ⟨_, fun fuel => ?_, htable ▸ hexecutes.continueWith _ rfl rfl
    (execFull call ++ rest)⟩
  rw [hexecutes.runFuel_succ]
  simp only [advance, execute, findAndSet, htable, hfull, if_true]

theorem Executes.searches_some {call : Call} {pid : ℕ} {bm : Bitmap}
    (hexecutes : k.Executes t p (.findAndSet call :: rest) T ready)
    (hfound : T.bm.findAndSet = .ok ((pid : ℤ), bm)) :
    ∃ k', Goes t found k k' ∧ k'.Executes t p (execGranted pid call ++ rest)
      { T with bm := bm } ready := by
  have htable := hexecutes.table
  have hne : (pid : ℤ) ≠ -1 := by omega
  refine ⟨_, fun fuel => ?_, htable ▸ hexecutes.continueWith
    { k with pTable := { k.pTable with bm := bm } } rfl rfl
    (execGranted pid call ++ rest)⟩
  rw [hexecutes.runFuel_succ]
  simp only [advance, execute, findAndSet, htable, hfound, if_neg hne,
    Int.toNat_natCast]

theorem Executes.creates {call : Call} {pid : ℕ}
    (hexecutes : k.Executes t p (.newPCB pid call :: rest) T ready)
    (hlt : pid < maxProcess) :
    ∃ k', Goes t found k k' ∧ k'.Executes t p rest
      { T with pcb := Function.update T.pcb pid (some (PCB.new p pid)) }
      ready := by
  have htable := hexecutes.table
  refine ⟨_, fun fuel => ?_, htable ▸ hexecutes.continueWith
    { k with
      pTable := { k.pTable with
        pcb := Function.update k.pTable.pcb pid (some (PCB.new p pid)) } }
    rfl rfl rest⟩
  rw [hexecutes.runFuel_succ]
  simp only [advance, execute, newPCB, htable, if_pos hlt]

/-- `PCB::Exec` in an entry without a file name: the new thread is ready. -/
theorem Executes.forks {call : Call} {pid : ℕ} {pcb : PCB} {name : CString}
    {arg : ProcessArg}
    (hexecutes : k.Executes t p (.pcbExec pid call :: rest) T ready)
    (hpcb : T.pcb pid = some pcb) (hname : pcb.filename = none)
    (hargument : execArgument pcb.pid call = some (name, arg)) :
    ∃ k', Goes t found k k' ∧ k'.Executes t p rest
      { T with
        pcb := Function.update T.pcb pid
          (some { pcb with filename := some name }) }
      (ready ++ [(pcb.pid, false)]) := by
  have htable := hexecutes.table
  let named := k.modifyPCB pid fun pcb => { pcb with filename := some name }
  have hnamed : (named.continueWith t ⟨p, false, .pcbExec pid call :: rest⟩
      rest).Executes t p rest named.pTable ready :=
    hexecutes.continueWith named rfl rfl rest
  obtain ⟨hlt, -⟩ := List.getElem?_eq_some_iff.mp hnamed.thread
  refine ⟨{ named.continueWith t ⟨p, false, .pcbExec pid call :: rest⟩ rest
    with threads := (named.continueWith t
      ⟨p, false, .pcbExec pid call :: rest⟩ rest).threads ++
        [⟨pcb.pid, false, [.runProcess arg]⟩] }, fun fuel => ?_, ?_⟩
  · rw [hexecutes.runFuel_succ]
    simp only [advance, execute, pcbExec, htable, hpcb, hname, hargument]
    rfl
  · constructor
    case active => exact hnamed.active
    case thread =>
      rw [List.getElem?_append_left hlt]
      exact hnamed.thread
    case table =>
      change named.pTable = _
      simp only [named, modifyPCB, htable, hpcb, Option.map_some]
    case ready =>
      have hready := hnamed.ready
      rw [readiness] at hready
      rw [readiness, List.map_append, hready]
      rfl

theorem Executes.forks_none {call : Call} {pid : ℕ} {pcb : PCB}
    (hexecutes : k.Executes t p (.pcbExec pid call :: rest) T ready)
    (hpcb : T.pcb pid = some pcb) (hname : pcb.filename = none)
    (hargument : execArgument pcb.pid call = none) (fuel : ℕ) :
    runFuel t found (fuel + 1) k = .fails (.fault .undefinedBehaviour) := by
  rw [hexecutes.runFuel_succ]
  simp only [advance, execute, pcbExec, hexecutes.table, hpcb, hname,
    hargument]

/-- The value in register 2 ends the call. -/
theorem Executes.returns {call : Call} {result : ℤ}
    (hexecutes : k.Executes t p (.writeResult call result :: rest) T ready)
    (fuel : ℕ) : ∃ k', runFuel t found (fuel + 1) k = .returned result k' ∧
      k'.Executes t p rest T ready := by
  have htable := hexecutes.table
  refine ⟨_, ?_, htable ▸ hexecutes.continueWith _ rfl rfl rest⟩
  rw [hexecutes.runFuel_succ]
  rfl

/-! ## `ExecUpdate` -/

theorem Executes.sem?_bmsem (hexecutes : k.Executes t p script T ready) :
    k.sem? .bmsem = some T.bmsem := by
  rw [← hexecutes.table]
  rfl

theorem Executes.sem?_multex (hexecutes : k.Executes t p script T ready)
    {pid : ℕ} {pcb : PCB} (hpcb : T.pcb pid = some pcb) :
    k.sem? (.multex pid) = some pcb.multex := by
  simp only [sem?, hexecutes.table, hpcb, Option.map_some]

theorem Executes.setSem_bmsem (hexecutes : k.Executes t p script T ready)
    (q : Semaphore) :
    (k.setSem .bmsem q).pTable = { T with bmsem := q } := by
  rw [← hexecutes.table]
  rfl

theorem Executes.setSem_multex (hexecutes : k.Executes t p script T ready)
    {pid : ℕ} {pcb : PCB} (hpcb : T.pcb pid = some pcb) (q : Semaphore) :
    (k.setSem (.multex pid) q).pTable = { T with
      pcb := Function.update T.pcb pid (some { pcb with multex := q }) } := by
  simp only [setSem, modifyPCB, hexecutes.table, hpcb, Option.map_some]

/-- The call comes to the search. -/
theorem Executes.enters {call : Call}
    (hexecutes : k.Executes t p (execUpdate call ++ rest) T ready)
    (hvalue : T.bmsem.value ≠ 0) :
    ∃ k', Goes t found k k' ∧ k'.Executes t p (.findAndSet call :: rest)
      { T with bmsem := { T.bmsem with value := T.bmsem.value - 1 } }
      ready := by
  obtain ⟨k', hgoes, hnext⟩ := hexecutes.passes hexecutes.sem?_bmsem hvalue
  rw [hexecutes.setSem_bmsem] at hnext
  exact ⟨k', hgoes, hnext⟩

/-- The table of an `ExecUpdate` that grants no pid. -/
def PTable.released (T : PTable) : PTable :=
  { T with bmsem := { T.bmsem with queue := T.bmsem.queue.tail } }

theorem execUpdate_full {call : Call}
    (hexecutes : k.Executes t p (execUpdate call ++ rest) T ready)
    (hvalue : T.bmsem.value ≠ 0)
    (hfull : T.bm.findAndSet = .ok (-1, T.bm)) (fuel : ℕ) :
    ∃ k', runFuel t found (fuel + 4) k = .returned (-1) k' ∧
      k'.Executes t p rest (PTable.released T)
        (awaken T.bmsem.queue ready) := by
  obtain ⟨k₁, hgoes₁, h₁⟩ := hexecutes.enters hvalue
  obtain ⟨k₂, hgoes₂, h₂⟩ := h₁.searches_none hfull
  obtain ⟨k₃, hgoes₃, h₃⟩ := h₂.signals h₂.sem?_bmsem
  obtain ⟨k₄, hreturned, h₄⟩ := h₃.returns fuel
  rw [h₂.setSem_bmsem] at h₄
  refine ⟨k₄, ?_, ?_⟩
  · rw [hgoes₁, hgoes₂, hgoes₃, hreturned]
  · simpa [PTable.released] using h₄

theorem execUpdate_sleeps {call : Call}
    (hexecutes : k.Executes t p (execUpdate call ++ rest) T ready)
    (hvalue : T.bmsem.value = 0) (fuel : ℕ) :
    ∃ k', runFuel t found (fuel + 1) k = .sleeps k' ∧
      k'.pTable = { T with
        bmsem := { T.bmsem with queue := T.bmsem.queue ++ [t] } } ∧
      k'.readiness = ready.set t (p, true) := by
  obtain ⟨k', hsleeps, htable, hready⟩ :=
    hexecutes.goesToSleep hexecutes.sem?_bmsem hvalue fuel
  rw [hexecutes.setSem_bmsem] at htable
  exact ⟨k', hsleeps, htable, hready⟩

/-- The entry of the new process, which nobody else uses. -/
theorem execUpdate_entry {call : Call} {pid : ℕ}
    (hexecutes : k.Executes t p (execUpdate call ++ rest) T ready)
    (hvalue : T.bmsem.value ≠ 0) (hlt : pid < maxProcess)
    (hfound : T.bm.findAndSet = .ok ((pid : ℤ), T.bm.setBit pid)) :
    ∃ k', (∀ fuel, runFuel t found (fuel + 5) k =
        runFuel t found fuel k') ∧
      k'.Executes t p
        (.pcbExec pid call :: .V (.multex pid) :: .writeResult call pid ::
          rest)
        { PTable.released T with
          bm := T.bm.setBit pid
          pcb := Function.update T.pcb pid
            (some { PCB.new p pid with multex := ⟨0, []⟩ }) }
        (awaken T.bmsem.queue ready) := by
  obtain ⟨k₁, hgoes₁, h₁⟩ := hexecutes.enters hvalue
  obtain ⟨k₂, hgoes₂, h₂⟩ := h₁.searches_some hfound
  obtain ⟨k₃, hgoes₃, h₃⟩ := h₂.creates hlt
  obtain ⟨k₄, hgoes₄, h₄⟩ := h₃.signals h₃.sem?_bmsem
  rw [h₃.setSem_bmsem] at h₄
  have hpcb : (Function.update T.pcb pid (some (PCB.new p pid))) pid =
      some (PCB.new p pid) := Function.update_self _ _ _
  obtain ⟨k₅, hgoes₅, h₅⟩ := h₄.passes (h₄.sem?_multex hpcb) one_ne_zero
  rw [h₄.setSem_multex hpcb] at h₅
  refine ⟨k₅, fun fuel => ?_, ?_⟩
  · rw [hgoes₁, hgoes₂, hgoes₃, hgoes₄, hgoes₅]
  · simpa [PTable.released, PCB.new] using h₅

/-- The table of an `ExecUpdate` that grants the pid. -/
def PTable.granted (T : PTable) (p pid : ℕ) (name : CString) : PTable :=
  { PTable.released T with
    bm := T.bm.setBit pid
    pcb := Function.update T.pcb pid
      (some { PCB.new p pid with filename := some name }) }

theorem execUpdate_granted {call : Call} {pid : ℕ} {name : CString}
    {arg : ProcessArg}
    (hexecutes : k.Executes t p (execUpdate call ++ rest) T ready)
    (hvalue : T.bmsem.value ≠ 0) (hlt : pid < maxProcess)
    (hfound : T.bm.findAndSet = .ok ((pid : ℤ), T.bm.setBit pid))
    (hargument : execArgument pid call = some (name, arg)) (fuel : ℕ) :
    ∃ k', runFuel t found (fuel + 8) k = .returned pid k' ∧
      k'.Executes t p rest (PTable.granted T p pid name)
        (awaken T.bmsem.queue ready ++ [(pid, false)]) := by
  obtain ⟨k₁, hgoes₁, h₁⟩ := execUpdate_entry hexecutes hvalue hlt hfound
  obtain ⟨k₂, hgoes₂, h₂⟩ := h₁.forks (Function.update_self _ _ _) rfl
    hargument
  obtain ⟨k₃, hgoes₃, h₃⟩ := h₂.signals
    (h₂.sem?_multex (Function.update_self _ _ _))
  rw [h₂.setSem_multex (Function.update_self _ _ _)] at h₃
  obtain ⟨k₄, hreturned, h₄⟩ := h₃.returns fuel
  refine ⟨k₄, ?_, ?_⟩
  · rw [hgoes₁, hgoes₂, hgoes₃, hreturned]
  · simpa [PTable.granted, PTable.released, PCB.new, awaken] using h₄

theorem execUpdate_fails {call : Call} {pid : ℕ}
    (hexecutes : k.Executes t p (execUpdate call ++ rest) T ready)
    (hvalue : T.bmsem.value ≠ 0) (hlt : pid < maxProcess)
    (hfound : T.bm.findAndSet = .ok ((pid : ℤ), T.bm.setBit pid))
    (hargument : execArgument pid call = none) (fuel : ℕ) :
    runFuel t found (fuel + 6) k = .fails (.fault .undefinedBehaviour) := by
  obtain ⟨k₁, hgoes₁, h₁⟩ := execUpdate_entry hexecutes hvalue hlt hfound
  rw [hgoes₁]
  exact h₁.forks_none (Function.update_self _ _ _) rfl hargument fuel

/-! ## The handlers -/

theorem runCall_exec
    (hexecutes : k.Executes t p (.user :: rest) T ready) (name : CString)
    (found : Bool) :
    ∃ k', runCall k t (.exec name) found = runFuel t found 8 k' ∧
      k'.Executes t p
        ((if found then execUpdate (.exec name)
          else [.writeResult (.exec name) (-1)]) ++ .user :: rest) T ready := by
  have hcalled := hexecutes.continueWith k rfl rfl
    (.openExecutable (.exec name) :: .user :: rest)
  rw [hexecutes.table] at hcalled
  have hopened := hcalled.continueWith _ rfl rfl
    ((if found then execUpdate (.exec name)
      else [.writeResult (.exec name) (-1)]) ++ .user :: rest)
  rw [hcalled.table] at hopened
  refine ⟨_, ?_, hopened⟩
  rw [runCall, step_of_awake hexecutes.active hexecutes.thread rfl]
  simp only [advance, trap]
  rw [hcalled.runFuel_succ]
  simp only [advance, openExecutable]

theorem runCall_execV {argc : ℤ} {argv : List CString}
    (hexecutes : k.Executes t p (.user :: rest) T ready)
    (hnonneg : 0 ≤ argc) (hargv : argv.length = argc.toNat) (found : Bool) :
    ∃ k', runCall k t (.execV argc argv) found = runFuel t found 9 k' ∧
      k'.Executes t p (execUpdate (.execV argc argv) ++ .user :: rest) T
        ready := by
  have hcalled := hexecutes.continueWith k rfl rfl
    (execUpdate (.execV argc argv) ++ .user :: rest)
  rw [hexecutes.table] at hcalled
  refine ⟨_, ?_, hcalled⟩
  have hlength : (argv.length : ℤ) = argc := by omega
  rw [runCall, step_of_awake hexecutes.active hexecutes.thread rfl]
  simp only [advance, trap, if_neg (not_lt.mpr hnonneg), if_pos hlength]

/-- `new char*[argc]` does not return. -/
theorem runCall_execV_negative {argc : ℤ} {argv : List CString}
    (hexecutes : k.Executes t p (.user :: rest) T ready)
    (hnegative : argc < 0) (found : Bool) :
    runCall k t (.execV argc argv) found = .fails (.fault .abort) := by
  rw [runCall, step_of_awake hexecutes.active hexecutes.thread rfl]
  simp only [advance, trap, if_pos hnegative]

end Statements

/-! ## Rejecting alike -/

/-- `kernel->fileSystem->Open(name)` returns a file. -/
def canOpen (fs : FileSystem) (h : Host) (openType : ℤ) (name : CString) :
    Bool :=
  (fs.openNamed h name openType).1.isSome

/-- The call returns -1 and changes neither the table nor the ready list. -/
def Rejected (k : Processes) (callEnd : CallEnd) : Prop :=
  ∃ k', callEnd = .returned (-1) k' ∧ k'.pTable.bm = k.pTable.bm ∧
    k'.pTable.pcb = k.pTable.pcb ∧ k'.readiness = k.readiness

/-- The calls return the same pid with the same table, or both sleep. -/
inductive SameTransition : CallEnd → CallEnd → Prop
  | returned {result : ℤ} {k k' : Processes} :
      k.pTable = k'.pTable → k.readiness = k'.readiness →
      SameTransition (.returned result k) (.returned result k')
  | sleeps {k k' : Processes} :
      k.pTable = k'.pTable → k.readiness = k'.readiness →
      SameTransition (.sleeps k) (.sleeps k')

/-- `Exec(name)` and `ExecV(argc, argv)` reject what cannot be run, and
otherwise do the same. -/
structure RejectAlike (k : Processes) (t : ThreadId) (opens : CString → Bool)
    (name : CString) (argc : ℤ) (argv : List CString) : Prop where
  exec : opens name = false →
    Rejected k (runCall k t (.exec name) (opens name))
  execV : (argc ≤ 0 ∨ ∃ file, argv.head? = some file ∧ opens file = false) →
    Rejected k (runCall k t (.execV argc argv) true)
  same : opens name = true → SameTransition
    (runCall k t (.exec name) (opens name))
    (runCall k t (.execV 1 [name]) true)

section Handlers

variable {k : Processes} {t : ThreadId} {p : ℕ} {rest : List Stmt}
variable {T : PTable} {ready : List (ℕ × Bool)}

theorem rejected_exec {name : CString}
    (hexecutes : k.Executes t p (.user :: rest) T ready) :
    Rejected k (runCall k t (.exec name) false) := by
  obtain ⟨k₁, hcall, h₁⟩ := runCall_exec hexecutes name false
  obtain ⟨k₂, hreturned, h₂⟩ := h₁.returns 7
  refine ⟨k₂, hcall.trans hreturned, ?_, ?_, ?_⟩
  · rw [h₂.table, hexecutes.table]
  · rw [h₂.table, hexecutes.table]
  · rw [h₂.ready, hexecutes.ready]

theorem sameTransition_execUpdate {k' : Processes} {call call' : Call}
    {name : CString} {found found' : Bool}
    (hexecutes : k.Executes t p (execUpdate call ++ rest) T ready)
    (hexecutes' : k'.Executes t p (execUpdate call' ++ rest) T ready)
    (hbits : T.bm.numBits = maxProcess)
    (hargument : ∀ pid, ∃ arg, execArgument pid call = some (name, arg))
    (hargument' : ∀ pid, ∃ arg, execArgument pid call' = some (name, arg))
    (fuel fuel' : ℕ) :
    SameTransition (runFuel t found (fuel + 8) k)
      (runFuel t found' (fuel' + 8) k') := by
  by_cases hvalue : T.bmsem.value = 0
  · obtain ⟨k₁, hsleeps, htable, hready⟩ :=
      execUpdate_sleeps hexecutes hvalue (fuel + 7)
    obtain ⟨k₂, hsleeps', htable', hready'⟩ :=
      execUpdate_sleeps hexecutes' hvalue (fuel' + 7)
    rw [hsleeps, hsleeps']
    exact .sleeps (htable.trans htable'.symm) (hready.trans hready'.symm)
  · rcases T.bm.findAndSet_cases with
      ⟨hfull, -⟩ | ⟨pid, hlt, -, -, hfound⟩
    · obtain ⟨k₁, hreturned, h₁⟩ :=
        execUpdate_full hexecutes hvalue hfull (fuel + 4)
      obtain ⟨k₂, hreturned', h₂⟩ :=
        execUpdate_full hexecutes' hvalue hfull (fuel' + 4)
      rw [hreturned, hreturned']
      exact .returned (h₁.table.trans h₂.table.symm)
        (h₁.ready.trans h₂.ready.symm)
    · rw [hbits] at hlt
      obtain ⟨arg, harg⟩ := hargument pid
      obtain ⟨arg', harg'⟩ := hargument' pid
      obtain ⟨k₁, hreturned, h₁⟩ :=
        execUpdate_granted hexecutes hvalue hlt hfound harg fuel
      obtain ⟨k₂, hreturned', h₂⟩ :=
        execUpdate_granted hexecutes' hvalue hlt hfound harg' fuel'
      rw [hreturned, hreturned']
      exact .returned (h₁.table.trans h₂.table.symm)
        (h₁.ready.trans h₂.ready.symm)

/-- There is no pid to grant, and nobody else is in `ExecUpdate`. -/
structure NoPidLeft (T : PTable) : Prop where
  full : ∀ i < maxProcess, T.bm.bit i = true
  free : T.bmsem.value ≠ 0
  nobody : T.bmsem.queue = []

/-- A thread that is woken changes the ready list. -/
theorem awaken_ne {u q : ℕ} {waiting : List ThreadId}
    (hblocked : ready[u]? = some (q, true)) :
    awaken (u :: waiting) ready ≠ ready := by
  intro hsame
  have hget : (awaken (u :: waiting) ready)[u]? = some (q, false) := by
    simp [awaken, hblocked]
  rw [hsame, hblocked] at hget
  cases hget

theorem rejected_execV_iff {argc : ℤ} {argv : List CString}
    (hexecutes : k.Executes t p (.user :: rest) T ready)
    (hbits : T.bm.numBits = maxProcess)
    (hqueue : ∀ u ∈ T.bmsem.queue, ∃ q, ready[u]? = some (q, true))
    (hargv : argv.length = argc.toNat) (found : Bool) :
    Rejected k (runCall k t (.execV argc argv) found) ↔
      0 ≤ argc ∧ NoPidLeft T := by
  by_cases hnegative : argc < 0
  · rw [runCall_execV_negative hexecutes hnegative]
    constructor
    · rintro ⟨k', hend, -⟩
      cases hend
    · rintro ⟨hnonneg, -⟩
      omega
  have hnonneg : 0 ≤ argc := by omega
  obtain ⟨k₁, hcall, h₁⟩ := runCall_execV hexecutes hnonneg hargv found
  rw [hcall]
  constructor
  · rintro ⟨k', hend, -, -, hready⟩
    by_cases hvalue : T.bmsem.value = 0
    · obtain ⟨k₂, hsleeps, -⟩ := execUpdate_sleeps h₁ hvalue 8
      rw [hsleeps] at hend
      cases hend
    rcases T.bm.findAndSet_cases with
      ⟨hfull, hall⟩ | ⟨pid, hlt, -, -, hfound⟩
    · obtain ⟨k₂, hreturned, h₂⟩ := execUpdate_full h₁ hvalue hfull 5
      rw [hreturned] at hend
      cases hend
      refine ⟨hnonneg, fun i hi => hall i (by rwa [hbits]), hvalue, ?_⟩
      rw [h₂.ready, hexecutes.ready] at hready
      cases hwaiting : T.bmsem.queue with
      | nil => rfl
      | cons u waiting =>
          obtain ⟨q, hblocked⟩ := hqueue u (by simp [hwaiting])
          rw [hwaiting] at hready
          exact (awaken_ne hblocked hready).elim
    · rw [hbits] at hlt
      cases hargument : execArgument pid (.execV argc argv) with
      | none =>
          rw [execUpdate_fails h₁ hvalue hlt hfound hargument 3] at hend
          cases hend
      | some argument =>
          obtain ⟨k₂, hreturned, -⟩ :=
            execUpdate_granted h₁ hvalue hlt hfound hargument 1
          rw [hreturned] at hend
          cases hend
  · rintro ⟨-, hall, hvalue, hnobody⟩
    have hfull : T.bm.findAndSet = .ok (-1, T.bm) := by
      rcases T.bm.findAndSet_cases with ⟨hfull, -⟩ | ⟨pid, hlt, hclear, -⟩
      · exact hfull
      · rw [hbits] at hlt
        rw [hall pid hlt] at hclear
        cases hclear
    obtain ⟨k₂, hreturned, h₂⟩ := execUpdate_full h₁ hvalue hfull 5
    refine ⟨k₂, hreturned, ?_, ?_, ?_⟩
    · rw [h₂.table, hexecutes.table]
      rfl
    · rw [h₂.table, hexecutes.table]
      rfl
    · rw [h₂.ready, hexecutes.ready, hnobody]
      rfl

end Handlers

/-! ## In a run -/

section Runs

variable {trace : List Event} {k : Processes} {t : ThreadId} {p : ℕ}

/-- Threads wait for `bmsem` asleep. -/
theorem blocked_of_mem_bmsem (hreaches : processSystem.Reaches trace k)
    {u : ThreadId} (hmem : u ∈ k.pTable.bmsem.queue) :
    ∃ q, k.readiness[u]? = some (q, true) := by
  have hqueued : u ∈ k.pool.queue .bmsem := hmem
  obtain ⟨cont, hworker, -⟩ := (sound_of_reaches hreaches).queued .bmsem u
    hqueued
  simp only [pool, List.getElem?_map, Option.map_eq_some_iff] at hworker
  obtain ⟨th, hget, heq⟩ := hworker
  have hblocked : th.blocked = true := congrArg Library.Worker.blocked heq
  exact ⟨th.processID, by simp [readiness, hget, hblocked]⟩

/-- `Exec` rejects what cannot be opened, and does the same as `ExecV` with
what can be opened.  `ExecV` rejects a name that cannot be opened, or an empty
array, only when there is no pid left. -/
theorem reject_alike_iff (hreaches : processSystem.Reaches trace k)
    (huser : InUserMode k t p) (fs : FileSystem) (h : Host) (openType : ℤ)
    (name : CString) (argc : ℤ) (argv : List CString)
    (hargv : argv.length = argc.toNat) :
    RejectAlike k t (canOpen fs h openType) name argc argv ↔
      (0 < argc ∧ ∃ file, argv.head? = some file ∧
        canOpen fs h openType file = true) ∨
      (0 ≤ argc ∧ NoPidLeft k.pTable) := by
  obtain ⟨hhalted, rest, hthread⟩ := huser
  have hexecutes : k.Executes t p (.user :: rest) k.pTable k.readiness :=
    ⟨hhalted, hthread, rfl, rfl⟩
  have hbits := (shaped_of_reaches hreaches).numBits
  have hexecV := rejected_execV_iff hexecutes hbits
    (fun u => blocked_of_mem_bmsem hreaches) hargv true
  constructor
  · intro halike
    by_cases hopens : 0 < argc ∧ ∃ file, argv.head? = some file ∧
        canOpen fs h openType file = true
    · exact .inl hopens
    · refine .inr (hexecV.mp (halike.execV ?_))
      by_cases hpositive : 0 < argc
      · obtain ⟨file, more, rfl⟩ : ∃ file more, argv = file :: more := by
          apply List.exists_cons_of_length_pos
          omega
        refine .inr ⟨file, rfl, ?_⟩
        by_contra hcan
        exact hopens ⟨hpositive, file, rfl, Bool.not_eq_false _ ▸ hcan⟩
      · exact .inl (by omega)
  · intro hcondition
    constructor
    case exec =>
      intro hcannot
      rw [hcannot]
      exact rejected_exec hexecutes
    case execV =>
      intro hreject
      rcases hcondition with ⟨hpositive, file, hhead, hcan⟩ | hnone
      · rcases hreject with hempty | ⟨other, hother, hcannot⟩
        · omega
        · rw [hhead] at hother
          cases hother
          rw [hcan] at hcannot
          cases hcannot
      · exact hexecV.mpr hnone
    case same =>
      intro hcan
      obtain ⟨k₁, hcall, h₁⟩ := runCall_exec hexecutes name true
      obtain ⟨k₂, hcallV, h₂⟩ := runCall_execV hexecutes zero_le_one
        (show [name].length = (1 : ℤ).toNat from rfl) true
      rw [hcan, hcall, hcallV]
      exact sameTransition_execUpdate h₁ h₂ hbits (fun _ => ⟨_, rfl⟩)
        (fun _ => ⟨_, rfl⟩) 0 1

end Runs

/-! ## A table with pids left -/

def noSlots : FileSystem := ⟨fun _ => .null⟩

/-- A host with one file. -/
def hostWith (file : CString) : Host where
  directory := fun name => if name = file then some 0 else none
  inodes := 1
  contents := fun _ => []
  files := []
  sockets := []

theorem reject_alike_program :
    RejectAlike Processes.start 0 (canOpen noSlots (hostWith program) 0)
      program 1 [program] := by
  have huser : InUserMode Processes.start 0 0 := ⟨rfl, [], rfl⟩
  exact (reject_alike_iff .start huser noSlots (hostWith program) 0 program 1
    [program] rfl).mpr (.inl ⟨one_pos, program, rfl, rfl⟩)

theorem not_rejected_start {argc : ℤ} {argv : List CString}
    (hargv : argv.length = argc.toNat) :
    ¬Rejected Processes.start
      (runCall Processes.start 0 (.execV argc argv) true) := by
  have hexecutes : Processes.start.Executes 0 0 [.user] initialTable
      [(0, false)] := ⟨rfl, rfl, rfl, rfl⟩
  rw [rejected_execV_iff hexecutes rfl (by simp [initialTable]) hargv]
  rintro ⟨-, hfull, -⟩
  have hbit := hfull 1 (by decide)
  have hclear := start_bit 1
  rw [Processes.start, hbit] at hclear
  simp at hclear

/-- A name that cannot be opened, an empty array and a negative length. -/
theorem not_reject_alike :
    ¬RejectAlike Processes.start 0 (canOpen noSlots (hostWith program) 0)
        program 1 [[98#8]] ∧
      ¬RejectAlike Processes.start 0 (canOpen noSlots (hostWith program) 0)
        program 0 [] ∧
      ¬RejectAlike Processes.start 0 (canOpen noSlots (hostWith program) 0)
        program (-1) [] := by
  refine ⟨fun halike => ?_, fun halike => ?_, fun halike => ?_⟩
  · exact not_rejected_start rfl (halike.execV (.inr ⟨_, rfl, by decide⟩))
  · exact not_rejected_start rfl (halike.execV (.inl le_rfl))
  · exact not_rejected_start rfl (halike.execV (.inl (by decide)))

end Processes

/-! ## The handler -/

/-- `handle_SC_Exec` does not call `ExecUpdate` for a file that it cannot
open. -/
theorem Kernel.handleSCExec_cannotOpen
    {k k₁ : Kernel} {env : Environment} {buffer : List (BitVec 8)}
    (hcopy : k.user2System (k.register 4) (maxFileLength + 1) =
      .ok (buffer, k₁))
    (hcannot : Processes.canOpen k₁.fileSystem k₁.host env.openType
      (cString buffer) = false) :
    ∃ k' : Kernel, ∀ tables,
      k.handleSCExec { env with tables := tables } = .ok (k'.returns (-1)) := by
  cases hopen : k₁.fileSystem.openNamed k₁.host (cString buffer)
      env.openType with
  | mk file rest =>
      obtain ⟨fs, h⟩ := rest
      cases file with
      | some f => simp [Processes.canOpen, hopen] at hcannot
      | none =>
          refine ⟨{ k₁ with fileSystem := fs, host := h }, fun tables => ?_⟩
          simp only [handleSCExec, hcopy, ok_bind, hopen]
          rfl

end Nachos
