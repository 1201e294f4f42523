import Nachos.ProcessTable

/-!
# The steps of the processes, inverted

`Processes.step` is unfolded once, here: `step_moves` says everything a step
can have done.  A step that touches the caller's script only is a `Local`
step; the others change the table or another thread as well.
-/

namespace Nachos

open Library

/-- The system calls that reach `PTable::ExecUpdate`. -/
def Call.IsExec : Call → Prop
  | .exec _ | .execV _ _ => True
  | _ => False

instance : DecidablePred Call.IsExec
  | .exec _ | .execV _ _ => isTrue trivial
  | .join _ | .exit _ | .halt => isFalse id

def Call.IsExit : Call → Prop
  | .exit _ => True
  | _ => False

instance : DecidablePred Call.IsExit
  | .exit _ => isTrue trivial
  | .exec _ | .execV _ _ | .join _ | .halt => isFalse id

theorem exec_ne_join {call : Call} (hexec : call.IsExec) (c : ℤ) :
    call ≠ .join c := by
  rintro rfl
  exact hexec

theorem not_isExit_of_isExec {call : Call} (hexec : call.IsExec) :
    ¬call.IsExit := by
  cases call with
  | exit ec => exact hexec.elim
  | _ => exact id

namespace Processes

/-- The steps that replace the script `old` of process `p` by another one and
do nothing else. -/
inductive Local (k : Processes) (p : ℕ) :
    List Stmt → Choice → Event → List Stmt → Prop
  | opened {call : Call} {rest : List Stmt} (found : Bool) :
      Local k p (.openExecutable call :: rest) (.answer found)
        (.opened p found)
        ((if found then execUpdate call else [.writeResult call (-1)]) ++
          rest)
  | loaded {arg : ProcessArg} {rest : List Stmt} (success : Bool) :
      Local k p (.runProcess arg :: rest) (.answer success)
        (.loaded p success) (if success then [.user] else [.finish])
  | returned {call : Call} {result : ℤ} {rest : List Stmt} :
      Local k p (.writeResult call result :: rest) .proceed
        (.returned p call result) rest
  | finished {rest : List Stmt} :
      Local k p (.finish :: rest) .proceed (.finished p) []
  | exec {name : CString} {rest : List Stmt} :
      Local k p (.user :: rest) (.call (.exec name)) (.called p (.exec name))
        (.openExecutable (.exec name) :: .user :: rest)
  | execV {argc : ℤ} {argv : List CString} {rest : List Stmt} :
      Local k p (.user :: rest) (.call (.execV argc argv))
        (.called p (.execV argc argv))
        (execUpdate (.execV argc argv) ++ .user :: rest)
  | joinRefused {c : ℕ} {rest : List Stmt} :
      (∀ pcb, k.pTable.pcb c = some pcb → pcb.parentID ≠ p) →
      Local k p (.user :: rest) (.call (.join c)) (.called p (.join c))
        (.writeResult (.join c) (-1) :: .user :: rest)
  | joinGranted {c : ℕ} {pcb : PCB} {rest : List Stmt} :
      k.pTable.pcb c = some pcb → pcb.parentID = p →
      Local k p (.user :: rest) (.call (.join c)) (.called p (.join c))
        (joinUpdate p c ++ .user :: rest)
  | exitFirst {ec : ℤ} {rest : List Stmt} :
      p = 0 →
      Local k p (.user :: rest) (.call (.exit ec)) (.called p (.exit ec))
        [.writeResult (.exit ec) (-1), .sysHalt]
  | exitOther {ec : ℤ} {pcb : PCB} {rest : List Stmt} :
      p ≠ 0 → k.pTable.pcb p = some pcb →
      Local k p (.user :: rest) (.call (.exit ec)) (.called p (.exit ec))
        (exitUpdate p pcb.parentID ec)
  | halt {rest : List Stmt} :
      Local k p (.user :: rest) (.call .halt) (.called p .halt) [.sysHalt]

/-- The statements that update one field of an entry. -/
inductive Update (p : ℕ) : Stmt → ℕ → (PCB → PCB) → Event → Prop
  | incNumWait {pid : ℕ} :
      Update p (.incNumWait pid) pid
        (fun pcb => { pcb with numwait := pcb.numwait + 1 })
        (.countedWait p pid)
  | decNumWait {pid : ℕ} :
      Update p (.decNumWait pid) pid
        (fun pcb => { pcb with numwait := pcb.numwait - 1 })
        (.countedWait p pid)
  | setExitCode {pid : ℕ} {ec : ℤ} :
      Update p (.setExitCode pid ec) pid
        (fun pcb => { pcb with exitcode := ec }) (.statusSet p ec)

/-- The steps of the thread `th` at position `t`. -/
inductive Moves (k : Processes) (t : ThreadId) (th : Thread) :
    Choice → Event → Processes → Prop
  | passed {sem : SemRef} {q : Semaphore} {rest : List Stmt} :
      th.script = .P sem :: rest → k.sem? sem = some q → q.value ≠ 0 →
      Moves k t th .proceed (.passed th.processID sem)
        ((k.setSem sem { q with value := q.value - 1 }).continueWith t th
          rest)
  | slept {sem : SemRef} {q : Semaphore} {rest : List Stmt} :
      th.script = .P sem :: rest → k.sem? sem = some q → q.value = 0 →
      Moves k t th .proceed (.slept th.processID sem)
        ((k.setSem sem { q with queue := q.queue ++ [t] }).setThread t
          { th with blocked := true })
  | released {sem : SemRef} {q : Semaphore} {rest : List Stmt} :
      th.script = .V sem :: rest → k.sem? sem = some q → q.queue = [] →
      Moves k t th .proceed (.released th.processID sem)
        ((k.setSem sem { q with value := q.value + 1 }).continueWith t th
          rest)
  | woke {sem : SemRef} {q : Semaphore} {u : ThreadId}
      {waiting : List ThreadId} {rest : List Stmt} :
      th.script = .V sem :: rest → k.sem? sem = some q →
      q.queue = u :: waiting →
      Moves k t th .proceed (.released th.processID sem)
        (((k.setSem sem ⟨q.value + 1, waiting⟩).continueWith t th
          rest).wake u)
  | granted {call : Call} {pid : ℕ} {rest : List Stmt} :
      th.script = .findAndSet call :: rest →
      pid < k.pTable.bm.numBits → k.pTable.bm.bit pid = false →
      (∀ j < pid, k.pTable.bm.bit j = true) →
      Moves k t th .proceed (.searched th.processID (some pid))
        (({ k with pTable := { k.pTable with
            bm := k.pTable.bm.setBit pid } } : Processes).continueWith t th
          (execGranted pid call ++ rest))
  | full {call : Call} {rest : List Stmt} :
      th.script = .findAndSet call :: rest →
      (∀ j < k.pTable.bm.numBits, k.pTable.bm.bit j = true) →
      Moves k t th .proceed (.searched th.processID none)
        (k.continueWith t th (execFull call ++ rest))
  | created {pid : ℕ} {call : Call} {rest : List Stmt} :
      th.script = .newPCB pid call :: rest → pid < maxProcess →
      Moves k t th .proceed (.created th.processID pid)
        (({ k with pTable := { k.pTable with
            pcb := Function.update k.pTable.pcb pid
              (some (PCB.new th.processID pid)) } } :
            Processes).continueWith t th rest)
  | execRefused {pid : ℕ} {call : Call} {pcb : PCB} {rest : List Stmt} :
      th.script = .pcbExec pid call :: rest →
      k.pTable.pcb pid = some pcb → pcb.filename ≠ none →
      Moves k t th .proceed (.execRefused th.processID pid)
        (k.continueWith t th rest)
  | forked {pid : ℕ} {call : Call} {pcb : PCB} {name : CString}
      {arg : ProcessArg} {rest : List Stmt} :
      th.script = .pcbExec pid call :: rest →
      k.pTable.pcb pid = some pcb → pcb.filename = none →
      execArgument pcb.pid call = some (name, arg) →
      Moves k t th .proceed (.forked th.processID pid)
        { (k.modifyPCB pid fun pcb =>
              { pcb with filename := some name }).continueWith t th rest with
          threads := k.threads.set t { th with script := rest } ++
            [⟨pcb.pid, false, [.runProcess arg]⟩] }
  | updated {stmt : Stmt} {pid : ℕ} {f : PCB → PCB} {event : Event}
      {pcb : PCB} {rest : List Stmt} :
      th.script = stmt :: rest → k.pTable.pcb pid = some pcb →
      Update th.processID stmt pid f event →
      Moves k t th .proceed event
        ((k.modifyPCB pid f).continueWith t th rest)
  | locally {choice : Choice} {event : Event} {new : List Stmt} :
      Local k th.processID th.script choice event new →
      Moves k t th choice event (k.continueWith t th new)
  | halted {rest : List Stmt} :
      th.script = .sysHalt :: rest →
      Moves k t th .proceed (.halted th.processID)
        { k.continueWith t th [] with halted := true }

/-! ## The inversion -/

section Inversion

variable {k k' : Processes} {t : ThreadId} {th : Thread} {event : Event}
variable {rest : List Stmt}

theorem moves_of_semaphoreP
    {sem : SemRef} (hscript : th.script = .P sem :: rest)
    (hstep : k.semaphoreP t th sem rest = .ok (k', event)) :
    Moves k t th .proceed event k' := by
  unfold semaphoreP at hstep
  split at hstep
  next => simp at hstep
  next q hq =>
    split at hstep
    next hzero =>
      cases hstep
      exact .slept hscript hq hzero
    next hne =>
      cases hstep
      exact .passed hscript hq hne

theorem moves_of_semaphoreV
    {sem : SemRef} (hscript : th.script = .V sem :: rest)
    (hstep : k.semaphoreV t th sem rest = .ok (k', event)) :
    Moves k t th .proceed event k' := by
  unfold semaphoreV at hstep
  split at hstep
  next => simp at hstep
  next q hq =>
    split at hstep
    next hempty =>
      cases hstep
      exact .released hscript hq hempty
    next u waiting hqueue =>
      cases hstep
      exact .woke hscript hq hqueue

theorem moves_of_findAndSet
    {call : Call} (hscript : th.script = .findAndSet call :: rest)
    (hstep : k.findAndSet t th call rest = .ok (k', event)) :
    Moves k t th .proceed event k' := by
  unfold findAndSet at hstep
  rcases k.pTable.bm.findAndSet_cases with
    ⟨hfound, hall⟩ | ⟨pid, hlt, hclear, hbefore, hfound⟩
  · simp only [hfound, if_true] at hstep
    cases hstep
    exact .full hscript hall
  · have hne : ((pid : ℕ) : ℤ) ≠ -1 := by omega
    simp only [hfound, if_neg hne, Int.toNat_natCast] at hstep
    cases hstep
    exact .granted hscript hlt hclear hbefore

theorem moves_of_pcbExec
    {pid : ℕ} {call : Call} (hscript : th.script = .pcbExec pid call :: rest)
    (hstep : k.pcbExec t th pid call rest = .ok (k', event)) :
    Moves k t th .proceed event k' := by
  unfold pcbExec at hstep
  split at hstep
  next => simp at hstep
  next pcb hpcb =>
    split at hstep
    next hname =>
      cases hstep
      exact .execRefused hscript hpcb (by simp [hname])
    next hname =>
      split at hstep
      next => simp at hstep
      next name arg harg =>
        cases hstep
        exact .forked hscript hpcb hname harg

theorem moves_of_updatePCB
    {stmt : Stmt} {pid : ℕ} {f : PCB → PCB} {update : Event}
    (hscript : th.script = stmt :: rest)
    (hupdate : Update th.processID stmt pid f update)
    (hstep : k.updatePCB t th pid f rest update = .ok (k', event)) :
    Moves k t th .proceed event k' := by
  unfold updatePCB at hstep
  split at hstep
  next => simp at hstep
  next pcb hpcb =>
    cases hstep
    exact .updated hscript hpcb hupdate

theorem moves_of_execute
    {stmt : Stmt} (hscript : th.script = stmt :: rest)
    (hstep : k.execute t th rest stmt = .ok (k', event)) :
    Moves k t th .proceed event k' := by
  cases stmt with
  | P sem => exact moves_of_semaphoreP hscript hstep
  | V sem => exact moves_of_semaphoreV hscript hstep
  | findAndSet call => exact moves_of_findAndSet hscript hstep
  | newPCB pid call =>
      simp only [execute, newPCB] at hstep
      split at hstep
      next hlt =>
        cases hstep
        exact .created hscript hlt
      next => simp at hstep
  | pcbExec pid call => exact moves_of_pcbExec hscript hstep
  | incNumWait pid => exact moves_of_updatePCB hscript .incNumWait hstep
  | decNumWait pid => exact moves_of_updatePCB hscript .decNumWait hstep
  | setExitCode pid ec => exact moves_of_updatePCB hscript .setExitCode hstep
  | writeResult call result =>
      cases hstep
      exact .locally (by rw [hscript]; exact .returned)
  | finish =>
      cases hstep
      exact .locally (by rw [hscript]; exact .finished)
  | sysHalt =>
      cases hstep
      exact .halted hscript
  | user => simp [execute] at hstep
  | openExecutable call => simp [execute] at hstep
  | runProcess arg => simp [execute] at hstep

theorem moves_of_trap
    {call : Call} (hscript : th.script = .user :: rest)
    (hstep : k.trap t th rest call = .ok (k', event)) :
    Moves k t th (.call call) event k' := by
  suffices hlocal : ∃ new,
      Local k th.processID (.user :: rest) (.call call) event new ∧
        k' = k.continueWith t th new by
    obtain ⟨new, hnew, rfl⟩ := hlocal
    exact .locally (by rw [hscript]; exact hnew)
  cases call with
  | exec name =>
      cases hstep
      exact ⟨_, .exec, rfl⟩
  | execV argc argv =>
      simp only [trap] at hstep
      split at hstep
      next => simp at hstep
      next =>
        split at hstep
        next =>
          cases hstep
          exact ⟨_, .execV, rfl⟩
        next => simp at hstep
  | join pid =>
      simp only [trap] at hstep
      split at hstep
      next hrange =>
        obtain ⟨c, rfl⟩ := Int.eq_ofNat_of_zero_le hrange.1
        split at hstep
        next hnull =>
          cases hstep
          refine ⟨_, .joinRefused ?_, rfl⟩
          intro other hother
          rw [Int.toNat_natCast] at hnull
          simp [hnull] at hother
        next pcb hpcb =>
          split at hstep
          next hparent =>
            cases hstep
            exact ⟨_, .joinGranted hpcb hparent, rfl⟩
          next hparent =>
            cases hstep
            refine ⟨_, .joinRefused ?_, rfl⟩
            intro other hother
            rw [Int.toNat_natCast] at hpcb
            rw [hpcb] at hother
            cases hother
            exact hparent
      next => simp at hstep
  | exit ec =>
      simp only [trap] at hstep
      split at hstep
      next hzero =>
        cases hstep
        exact ⟨_, .exitFirst hzero, rfl⟩
      next hne =>
        split at hstep
        next => simp at hstep
        next pcb hpcb =>
          cases hstep
          exact ⟨_, .exitOther hne hpcb, rfl⟩
  | halt =>
      cases hstep
      exact ⟨_, .halt, rfl⟩

theorem moves_of_advance
    {choice : Choice}
    (hstep : k.advance t th th.script choice = .ok (k', event)) :
    Moves k t th choice event k' := by
  generalize hscript : th.script = script at hstep
  unfold advance at hstep
  split at hstep
  next => exact moves_of_trap hscript hstep
  next =>
    cases hstep
    exact .locally (by rw [hscript]; exact .opened _)
  next =>
    simp only [runProcess] at hstep
    split at hstep
    next => simp at hstep
    next =>
      cases hstep
      exact .locally (by rw [hscript]; exact .loaded _)
  next => exact moves_of_execute hscript hstep
  next => simp at hstep

/-- Everything a step can have done. -/
theorem step_moves
    {action : Action} (hstep : k.step action = .ok (k', event)) :
    ∃ th, k.halted = false ∧ k.threads[action.thread]? = some th ∧
      th.blocked = false ∧
      Moves k action.thread th action.choice event k' := by
  unfold step at hstep
  split at hstep
  next => simp at hstep
  next hhalted =>
    split at hstep
    next => simp at hstep
    next th hget =>
      split at hstep
      next => simp at hstep
      next hawake =>
        exact ⟨th, by simpa using hhalted, hget, by simpa using hawake,
          moves_of_advance hstep⟩

end Inversion

end Processes

end Nachos
