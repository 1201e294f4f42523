import Nachos.Bitmap
import Nachos.Library.StepSystem

/-!
# Processes: `ptable.cc`, `pcb.cc` and the process system calls

A process is a thread whose `processID` names an entry of the process table.
Kernel code can be preempted wherever a semaphore operation enables
interrupts again, so the code of a system call is modelled as the list of
its statements, and a thread carries the statements it still has to execute.
One step executes the first of them for a thread that is not asleep; the
choice of the thread is the scheduler's and is left open.

`Stmt.user` stands for the user program: a thread in user mode has nothing
before it, and a system call that returns leaves it at the end of its list.
The two answers that depend on the host's files, whether `Exec` can open the
executable and whether `AddrSpace::Load` succeeds, are given by the action.
-/

namespace Nachos

open Library

abbrev ThreadId := ℕ

/-- `MAX_PROCESS`. -/
def maxProcess : ℕ := 10

/-! ## Data -/

structure Semaphore where
  value : ℤ
  queue : List ThreadId
  deriving DecidableEq

structure PCB where
  joinsem : Semaphore
  exitsem : Semaphore
  multex : Semaphore
  exitcode : ℤ
  numwait : ℤ
  filename : Option CString
  parentID : ℕ
  pid : ℕ

/-- `PCB::PCB(parentID, pid)`. -/
def PCB.new (parentID pid : ℕ) : PCB where
  joinsem := ⟨0, []⟩
  exitsem := ⟨0, []⟩
  multex := ⟨1, []⟩
  exitcode := 0
  numwait := 0
  filename := none
  parentID := parentID
  pid := pid

/-- The process table: a null pointer of `pcb` is `none`. -/
structure PTable where
  bm : Bitmap
  pcb : ℕ → Option PCB
  bmsem : Semaphore

/-- `PTable::PTable(size)`. -/
def PTable.init (size : ℕ) : Except Fault PTable := do
  let bm ← Bitmap.init size
  let bm ← bm.mark 0
  return {
    bm := bm
    pcb := Function.update (fun _ => none) 0 (some (PCB.new 0 0))
    bmsem := ⟨1, []⟩ }

inductive SemRef
  | bmsem
  | joinsem (pid : ℕ)
  | exitsem (pid : ℕ)
  | multex (pid : ℕ)
  deriving DecidableEq

/-- The system calls on processes, with the arguments their handlers read:
the registers, and the strings `User2System` copies in. -/
inductive Call
  | exec (name : CString)
  | execV (argc : ℤ) (argv : List CString)
  | join (pid : ℤ)
  | exit (ec : ℤ)
  | halt
  deriving DecidableEq

structure ProcessArg where
  pid : ℕ
  argc : ℤ
  argv : List CString
  deriving DecidableEq

/-- The statements of the kernel code between two points of preemption. -/
inductive Stmt
  | user
  | openExecutable (call : Call)
  | P (sem : SemRef)
  | V (sem : SemRef)
  | findAndSet (call : Call)
  | newPCB (pid : ℕ) (call : Call)
  | pcbExec (pid : ℕ) (call : Call)
  | incNumWait (pid : ℕ)
  | decNumWait (pid : ℕ)
  | setExitCode (pid : ℕ) (ec : ℤ)
  | runProcess (arg : ProcessArg)
  | writeResult (call : Call) (result : ℤ)
  | finish
  | sysHalt
  deriving DecidableEq

structure Thread where
  processID : ℕ
  blocked : Bool
  script : List Stmt

structure Processes where
  pTable : PTable
  threads : List Thread
  halted : Bool

/-- What a step did, labelled with the process it was taken by. -/
inductive Event
  | called (p : ℕ) (call : Call)
  | opened (p : ℕ) (found : Bool)
  | passed (p : ℕ) (sem : SemRef)
  | slept (p : ℕ) (sem : SemRef)
  | released (p : ℕ) (sem : SemRef)
  | searched (p : ℕ) (slot : Option ℕ)
  | created (p c : ℕ)
  | forked (p c : ℕ)
  | execRefused (p c : ℕ)
  | countedWait (p c : ℕ)
  | statusSet (p : ℕ) (ec : ℤ)
  | loaded (p : ℕ) (success : Bool)
  | returned (p : ℕ) (call : Call) (result : ℤ)
  | finished (p : ℕ)
  | halted (p : ℕ)
  deriving DecidableEq

/-- How the scheduled thread goes on: with its next kernel statement, with
the host's answer to it, or with a system call of the user program. -/
inductive Choice
  | proceed
  | answer (success : Bool)
  | call (call : Call)

structure Action where
  thread : ThreadId
  choice : Choice

/-- Why an action is no step: it is not possible in the state, it follows a
null pointer, it indexes `pcb` outside the array, or it is a fault of its
own. -/
inductive StepError
  | disabled
  | nullPCB
  | outsideTable
  | fault (fault : Fault)
  deriving DecidableEq

/-! ## The code of the system calls -/

/-- `PTable::ExecUpdate` up to the search for a free slot. -/
def execUpdate (call : Call) : List Stmt :=
  [.P .bmsem, .findAndSet call]

/-- `PTable::ExecUpdate` when there is no free slot. -/
def execFull (call : Call) : List Stmt :=
  [.V .bmsem, .writeResult call (-1)]

/-- `PTable::ExecUpdate` with a slot, through `PCB::Exec`. -/
def execGranted (pid : ℕ) (call : Call) : List Stmt :=
  [.newPCB pid call, .V .bmsem, .P (.multex pid), .pcbExec pid call,
    .V (.multex pid), .writeResult call pid]

/-- `PTable::JoinUpdate` after its test. -/
def joinUpdate (parentID childID : ℕ) : List Stmt :=
  [.P (.joinsem childID), .P (.multex parentID), .incNumWait parentID,
    .V (.multex parentID), .V (.exitsem parentID),
    .writeResult (.join childID) 0]

/-- `PTable::ExitUpdate` for a process other than 0, and the end of
`handle_SC_Exit`. -/
def exitUpdate (pid parentID : ℕ) (ec : ℤ) : List Stmt :=
  [.setExitCode pid ec, .V (.joinsem pid), .P (.multex parentID),
    .decNumWait parentID, .V (.multex parentID), .P (.exitsem parentID),
    .writeResult (.exit ec) 0, .finish]

namespace Processes

/-! ## Access to the table and the threads -/

def sem? (k : Processes) : SemRef → Option Semaphore
  | .bmsem => some k.pTable.bmsem
  | .joinsem pid => (k.pTable.pcb pid).map PCB.joinsem
  | .exitsem pid => (k.pTable.pcb pid).map PCB.exitsem
  | .multex pid => (k.pTable.pcb pid).map PCB.multex

def modifyPCB (k : Processes) (pid : ℕ) (f : PCB → PCB) : Processes :=
  { k with pTable := { k.pTable with
      pcb := Function.update k.pTable.pcb pid ((k.pTable.pcb pid).map f) } }

def setSem (k : Processes) (sem : SemRef) (q : Semaphore) : Processes :=
  match sem with
  | .bmsem => { k with pTable := { k.pTable with bmsem := q } }
  | .joinsem pid => k.modifyPCB pid fun pcb => { pcb with joinsem := q }
  | .exitsem pid => k.modifyPCB pid fun pcb => { pcb with exitsem := q }
  | .multex pid => k.modifyPCB pid fun pcb => { pcb with multex := q }

def setThread (k : Processes) (t : ThreadId) (th : Thread) : Processes :=
  { k with threads := k.threads.set t th }

/-- The thread goes on with another script. -/
def continueWith (k : Processes) (t : ThreadId) (th : Thread)
    (script : List Stmt) : Processes :=
  k.setThread t { th with script := script }

/-- `Scheduler::ReadyToRun` for a thread taken from a queue. -/
def wake (k : Processes) (t : ThreadId) : Processes :=
  match k.threads[t]? with
  | some th => k.setThread t { th with blocked := false }
  | none => k

/-! ## What the setters leave alone -/

/-- The scripts, each with the process it belongs to. -/
def scripts (k : Processes) : List (ℕ × List Stmt) :=
  k.threads.map fun th => (th.processID, th.script)

@[simp] theorem modifyPCB_bm (k : Processes) (pid : ℕ) (f : PCB → PCB) :
    (k.modifyPCB pid f).pTable.bm = k.pTable.bm := rfl

@[simp] theorem modifyPCB_bmsem (k : Processes) (pid : ℕ) (f : PCB → PCB) :
    (k.modifyPCB pid f).pTable.bmsem = k.pTable.bmsem := rfl

@[simp] theorem modifyPCB_threads
    (k : Processes) (pid : ℕ) (f : PCB → PCB) :
    (k.modifyPCB pid f).threads = k.threads := rfl

theorem modifyPCB_pcb
    (k : Processes) (pid : ℕ) (f : PCB → PCB) (c : ℕ) :
    (k.modifyPCB pid f).pTable.pcb c =
      if c = pid then (k.pTable.pcb pid).map f else k.pTable.pcb c := by
  simp only [modifyPCB, Function.update_apply]

@[simp] theorem setSem_bm (k : Processes) (sem : SemRef) (q : Semaphore) :
    (k.setSem sem q).pTable.bm = k.pTable.bm := by
  cases sem <;> rfl

@[simp] theorem setSem_threads
    (k : Processes) (sem : SemRef) (q : Semaphore) :
    (k.setSem sem q).threads = k.threads := by
  cases sem <;> rfl

theorem setSem_sem?
    (k : Processes) (sem other : SemRef) (q : Semaphore) :
    (k.setSem sem q).sem? other =
      if other = sem then (k.sem? sem).map fun _ => q else k.sem? other := by
  cases sem <;> cases other <;>
    simp [setSem, sem?, modifyPCB_pcb] <;>
    split <;> simp_all [Function.comp_def]

@[simp] theorem setThread_pTable
    (k : Processes) (t : ThreadId) (th : Thread) :
    (k.setThread t th).pTable = k.pTable := rfl

@[simp] theorem setThread_threads
    (k : Processes) (t : ThreadId) (th : Thread) :
    (k.setThread t th).threads = k.threads.set t th := rfl

@[simp] theorem continueWith_pTable
    (k : Processes) (t : ThreadId) (th : Thread) (script : List Stmt) :
    (k.continueWith t th script).pTable = k.pTable := rfl

@[simp] theorem continueWith_threads
    (k : Processes) (t : ThreadId) (th : Thread) (script : List Stmt) :
    (k.continueWith t th script).threads =
      k.threads.set t { th with script := script } := rfl

@[simp] theorem wake_pTable (k : Processes) (u : ThreadId) :
    (k.wake u).pTable = k.pTable := by
  unfold wake
  split <;> rfl

@[simp] theorem wake_sem? (k : Processes) (u : ThreadId) (sem : SemRef) :
    (k.wake u).sem? sem = k.sem? sem := by
  cases sem <;> simp [sem?]

/-- A thread that is woken keeps its script. -/
@[simp] theorem wake_scripts (k : Processes) (u : ThreadId) :
    (k.wake u).scripts = k.scripts := by
  unfold wake
  split
  next th hget =>
    rcases List.getElem?_eq_some_iff.mp hget with ⟨hlt, hold⟩
    apply List.ext_getElem?
    intro i
    by_cases heq : u = i
    · subst heq
      simp [scripts, setThread, hlt, hold]
    · simp [scripts, setThread, heq]
  next => rfl

/-! ## Statements -/

/-- `Semaphore::P`: one test of the value. -/
def semaphoreP (k : Processes) (t : ThreadId) (th : Thread)
    (sem : SemRef) (rest : List Stmt) :
    Except StepError (Processes × Event) :=
  match k.sem? sem with
  | none => .error .nullPCB
  | some q =>
      if q.value = 0 then
        .ok ((k.setSem sem { q with queue := q.queue ++ [t] }).setThread t
          { th with blocked := true }, .slept th.processID sem)
      else
        .ok ((k.setSem sem { q with value := q.value - 1 }).continueWith t th
          rest, .passed th.processID sem)

/-- `Semaphore::V`. -/
def semaphoreV (k : Processes) (t : ThreadId) (th : Thread)
    (sem : SemRef) (rest : List Stmt) :
    Except StepError (Processes × Event) :=
  match k.sem? sem with
  | none => .error .nullPCB
  | some q =>
      match q.queue with
      | [] =>
          .ok ((k.setSem sem { q with value := q.value + 1 }).continueWith t
            th rest, .released th.processID sem)
      | u :: waiting =>
          .ok (((k.setSem sem ⟨q.value + 1, waiting⟩).continueWith t th
            rest).wake u, .released th.processID sem)

/-- `bm->FindAndSet()` and the test of its result. -/
def findAndSet (k : Processes) (t : ThreadId) (th : Thread) (call : Call)
    (rest : List Stmt) : Except StepError (Processes × Event) :=
  match k.pTable.bm.findAndSet with
  | .error fault => .error (.fault fault)
  | .ok (pid, bm) =>
      if pid = -1 then
        .ok (k.continueWith t th (execFull call ++ rest),
          .searched th.processID none)
      else
        .ok (({ k with pTable := { k.pTable with bm := bm } } :
            Processes).continueWith t th (execGranted pid.toNat call ++ rest),
          .searched th.processID (some pid.toNat))

/-- `pcb[pid] = new PCB(kernel->currentThread->processID, pid)`. -/
def newPCB (k : Processes) (t : ThreadId) (th : Thread) (pid : ℕ)
    (rest : List Stmt) : Except StepError (Processes × Event) :=
  if pid < maxProcess then
    .ok (({ k with pTable := { k.pTable with
        pcb := Function.update k.pTable.pcb pid
          (some (PCB.new th.processID pid)) } } :
        Processes).continueWith t th rest,
      .created th.processID pid)
  else .error .outsideTable

/-- The name and the argument `PCB::Exec` hands to the new thread.  `ExecV`
takes the name from `argv[0]`. -/
def execArgument (pid : ℕ) : Call → Option (CString × ProcessArg)
  | .exec name => some (name, ⟨pid, 0, []⟩)
  | .execV argc (name :: argv) => some (name, ⟨pid, argc, name :: argv⟩)
  | _ => none

/-- `PCB::Exec` inside `multex`: it forks the thread of the process. -/
def pcbExec (k : Processes) (t : ThreadId) (th : Thread) (pid : ℕ)
    (call : Call) (rest : List Stmt) :
    Except StepError (Processes × Event) :=
  match k.pTable.pcb pid with
  | none => .error .nullPCB
  | some pcb =>
      match pcb.filename with
      | some _ =>
          .ok (k.continueWith t th rest, .execRefused th.processID pid)
      | none =>
          match execArgument pcb.pid call with
          | none => .error (.fault .undefinedBehaviour)
          | some (name, arg) =>
              let named := k.modifyPCB pid fun pcb =>
                { pcb with filename := some name }
              .ok ({ named.continueWith t th rest with
                  threads := (named.continueWith t th rest).threads ++
                    [⟨pcb.pid, false, [.runProcess arg]⟩] },
                .forked th.processID pid)

/-- A statement that changes one entry of the table. -/
def updatePCB (k : Processes) (t : ThreadId) (th : Thread) (pid : ℕ)
    (f : PCB → PCB) (rest : List Stmt) (event : Event) :
    Except StepError (Processes × Event) :=
  match k.pTable.pcb pid with
  | none => .error .nullPCB
  | some _ => .ok ((k.modifyPCB pid f).continueWith t th rest, event)

/-- One statement that needs no answer from the host. -/
def execute (k : Processes) (t : ThreadId) (th : Thread) (rest : List Stmt) :
    Stmt → Except StepError (Processes × Event)
  | .P sem => k.semaphoreP t th sem rest
  | .V sem => k.semaphoreV t th sem rest
  | .findAndSet call => k.findAndSet t th call rest
  | .newPCB pid _ => k.newPCB t th pid rest
  | .pcbExec pid call => k.pcbExec t th pid call rest
  | .incNumWait pid =>
      k.updatePCB t th pid (fun pcb => { pcb with numwait := pcb.numwait + 1 })
        rest (.countedWait th.processID pid)
  | .decNumWait pid =>
      k.updatePCB t th pid (fun pcb => { pcb with numwait := pcb.numwait - 1 })
        rest (.countedWait th.processID pid)
  | .setExitCode pid ec =>
      k.updatePCB t th pid (fun pcb => { pcb with exitcode := ec })
        rest (.statusSet th.processID ec)
  | .writeResult call result =>
      .ok (k.continueWith t th rest, .returned th.processID call result)
  | .finish => .ok (k.continueWith t th [], .finished th.processID)
  | .sysHalt =>
      .ok ({ k.continueWith t th [] with halted := true },
        .halted th.processID)
  | .user | .openExecutable _ | .runProcess _ => .error .disabled

/-- The entry of `handle_SC_Exec`, `handle_SC_ExecV`, `handle_SC_Join`,
`handle_SC_Exit` and of `SysHalt`. -/
def trap (k : Processes) (t : ThreadId) (th : Thread) (rest : List Stmt)
    (call : Call) : Except StepError (Processes × Event) :=
  let enter (script : List Stmt) :
      Except StepError (Processes × Event) :=
    .ok (k.continueWith t th script, .called th.processID call)
  match call with
  | .exec _ => enter (.openExecutable call :: .user :: rest)
  | .execV argc argv =>
      if argc < 0 then .error (.fault .abort)
      else if (argv.length : ℤ) = argc then
        enter (execUpdate call ++ .user :: rest)
      else .error .disabled
  | .join pid =>
      if 0 ≤ pid ∧ pid < maxProcess then
        match k.pTable.pcb pid.toNat with
        | none => enter (.writeResult call (-1) :: .user :: rest)
        | some pcb =>
            if pcb.parentID = th.processID then
              enter (joinUpdate th.processID pid.toNat ++ .user :: rest)
            else enter (.writeResult call (-1) :: .user :: rest)
      else .error .outsideTable
  | .exit ec =>
      if th.processID = 0 then enter [.writeResult call (-1), .sysHalt]
      else
        match k.pTable.pcb th.processID with
        | none => .error .nullPCB
        | some pcb => enter (exitUpdate th.processID pcb.parentID ec)
  | .halt => enter [.sysHalt]

/-- `kernel->fileSystem->Open(name)` in `handle_SC_Exec`. -/
def openExecutable (k : Processes) (t : ThreadId) (th : Thread)
    (call : Call) (rest : List Stmt) (found : Bool) :
    Processes × Event :=
  (k.continueWith t th
    ((if found then execUpdate call else [.writeResult call (-1)]) ++ rest),
    .opened th.processID found)

/-- `RunProcess` up to the return of `Load`: a program that is loaded runs,
otherwise the thread returns to `ThreadRoot`, which calls `Finish`. -/
def runProcess (k : Processes) (t : ThreadId) (th : Thread)
    (arg : ProcessArg) (success : Bool) :
    Except StepError (Processes × Event) :=
  let filename := (k.pTable.pcb arg.pid).bind PCB.filename
  if success = true ∧ filename = none then .error .disabled
  else
    .ok (k.continueWith t th (if success then [.user] else [.finish]),
      .loaded th.processID success)

/-- One step of the thread `t`. -/
def advance (k : Processes) (t : ThreadId) (th : Thread) :
    List Stmt → Choice → Except StepError (Processes × Event)
  | .user :: rest, .call call => k.trap t th rest call
  | .openExecutable call :: rest, .answer found =>
      .ok (k.openExecutable t th call rest found)
  | .runProcess arg :: _, .answer success =>
      k.runProcess t th arg success
  | stmt :: rest, .proceed => k.execute t th rest stmt
  | _, _ => .error .disabled

def step (k : Processes) (action : Action) :
    Except StepError (Processes × Event) :=
  if k.halted then .error .disabled
  else
    match k.threads[action.thread]? with
    | none => .error .disabled
    | some th =>
        if th.blocked then .error .disabled
        else k.advance action.thread th th.script action.choice

/-- The table `PTable(MAX_PROCESS)` constructs. -/
def initialTable : PTable where
  bm := ⟨maxProcess, [1#32], rfl⟩
  pcb := Function.update (fun _ => none) 0 (some (PCB.new 0 0))
  bmsem := ⟨1, []⟩

theorem init_maxProcess :
    PTable.init maxProcess = .ok initialTable := rfl

/-- The kernel when the main thread starts its user program. -/
def start : Processes where
  pTable := initialTable
  threads := [⟨0, false, [.user]⟩]
  halted := false

end Processes

/-- All interleavings of the processes. -/
def processSystem : StepSystem Processes Action Event StepError where
  start := Processes.start
  step := Processes.step

end Nachos
