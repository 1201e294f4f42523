import Nachos.ProcessMoves
import Nachos.Library.StepSystem

/-!
# The shape of the table and of the scripts

In every reachable state each script is the rest of the kernel code of one
system call, each entry of the table belongs to the process that created it,
and the marked bits of `bm` are an initial segment.  `Shaped.step` derives
from this what one step does to the scripts, as a `ScriptStep`.
-/

namespace Nachos

open Library

/-- What an entry says of its process: its `pid` and its `parentID`. -/
def PTable.identity (T : PTable) (c : ℕ) : Option (ℕ × ℕ) :=
  (T.pcb c).map fun pcb => (pcb.pid, pcb.parentID)

namespace Processes

def parentID (k : Processes) (c : ℕ) : Option ℕ :=
  (k.pTable.pcb c).map PCB.parentID

/-- The process `p` is the parent of `c`: it has created its entry.  The
entry of process 0 is constructed with the table and names itself. -/
def Parent (trace : List Event) (p c : ℕ) : Prop :=
  .created p c ∈ trace ∨ p = 0 ∧ c = 0

theorem Parent.append
    {trace : List Event} {p c : ℕ} (h : Parent trace p c) (event : Event) :
    Parent (trace ++ [event]) p c :=
  h.imp (fun hmem => List.mem_append_left _ hmem) id

/-! ## Scripts -/

section Shapes

variable (parent : ℕ → ℕ → Prop) (allotted : ℕ → Prop) (p : ℕ)

/-- The kernel code of a system call of `p` that returns to the user
program. -/
inductive Body : List Stmt → Prop
  | opening {call : Call} : call.IsExec → Body [.openExecutable call]
  | searching {call : Call} : call.IsExec → Body (execUpdate call)
  | full {call : Call} : call.IsExec → Body (execFull call)
  | forking {c : ℕ} {call : Call} :
      call.IsExec → parent p c → p < c → Body (execGranted c call).tail
  | joining {c : ℕ} : parent p c → Body (joinUpdate p c)
  | refused {c : ℕ} : Body [.writeResult (.join c) (-1)]

/-- The scripts of the threads of `p`. -/
inductive Script : List Stmt → Prop
  | kernel {body script : List Stmt} :
      Body parent p body → script <:+ body → Script (script ++ [.user])
  | creating {c : ℕ} {call : Call} :
      call.IsExec → p < c → allotted c →
      Script (execGranted c call ++ [.user])
  | exiting {par : ℕ} {ec : ℤ} {script : List Stmt} :
      p ≠ 0 → parent par p → script <:+ exitUpdate p par ec → Script script
  | leaving {ec : ℤ} {script : List Stmt} :
      p = 0 → script <:+ [.writeResult (.exit ec) (-1), .sysHalt] →
      Script script
  | halting : Script [.sysHalt]
  | loading {arg : ProcessArg} : p ≠ 0 → Script [.runProcess arg]
  | failed : p ≠ 0 → Script [.finish]
  | done : Script []

end Shapes

/-- What one step does to the scripts: `old` of process `p` becomes `new`,
and `spawned` starts.  Of the table it knows the parents only. -/
inductive ScriptStep (parentID : ℕ → Option ℕ) (p : ℕ) :
    List Stmt → Event → List Stmt → List (ℕ × List Stmt) → Prop
  | passed {sem : SemRef} {rest : List Stmt} :
      ScriptStep parentID p (.P sem :: rest) (.passed p sem) rest []
  | slept {sem : SemRef} {rest : List Stmt} :
      ScriptStep parentID p (.P sem :: rest) (.slept p sem) (.P sem :: rest) []
  | released {sem : SemRef} {rest : List Stmt} :
      ScriptStep parentID p (.V sem :: rest) (.released p sem) rest []
  | granted {call : Call} {c : ℕ} :
      call.IsExec → p < c →
      ScriptStep parentID p [.findAndSet call, .user] (.searched p (some c))
        (execGranted c call ++ [.user]) []
  | full {call : Call} :
      call.IsExec →
      ScriptStep parentID p [.findAndSet call, .user] (.searched p none)
        (execFull call ++ [.user]) []
  | created {c : ℕ} {call : Call} :
      call.IsExec → p < c →
      ScriptStep parentID p (execGranted c call ++ [.user]) (.created p c)
        ((execGranted c call).tail ++ [.user]) []
  | execRefused {c : ℕ} {call : Call} {rest : List Stmt} :
      ScriptStep parentID p (.pcbExec c call :: rest) (.execRefused p c) rest []
  | forked {c : ℕ} {call : Call} {arg : ProcessArg} {rest : List Stmt} :
      p < c →
      ScriptStep parentID p (.pcbExec c call :: rest) (.forked p c) rest
        [(c, [.runProcess arg])]
  | incNumWait {pid : ℕ} {rest : List Stmt} :
      ScriptStep parentID p (.incNumWait pid :: rest) (.countedWait p pid) rest []
  | decNumWait {pid : ℕ} {rest : List Stmt} :
      ScriptStep parentID p (.decNumWait pid :: rest) (.countedWait p pid) rest []
  | statusSet {pid : ℕ} {ec : ℤ} {rest : List Stmt} :
      ScriptStep parentID p (.setExitCode pid ec :: rest) (.statusSet p ec) rest []
  | found {call : Call} :
      call.IsExec →
      ScriptStep parentID p [.openExecutable call, .user] (.opened p true)
        (execUpdate call ++ [.user]) []
  | notFound {call : Call} :
      call.IsExec →
      ScriptStep parentID p [.openExecutable call, .user] (.opened p false)
        [.writeResult call (-1), .user] []
  | loaded {arg : ProcessArg} :
      p ≠ 0 →
      ScriptStep parentID p [.runProcess arg] (.loaded p true) [.user] []
  | notLoaded {arg : ProcessArg} :
      p ≠ 0 →
      ScriptStep parentID p [.runProcess arg] (.loaded p false) [.finish] []
  | returned {call : Call} {result : ℤ} {rest : List Stmt} :
      ScriptStep parentID p (.writeResult call result :: rest)
        (.returned p call result) rest []
  | finished : p ≠ 0 → ScriptStep parentID p [.finish] (.finished p) [] []
  | exec {name : CString} :
      ScriptStep parentID p [.user] (.called p (.exec name))
        [.openExecutable (.exec name), .user] []
  | execV {argc : ℤ} {argv : List CString} :
      ScriptStep parentID p [.user] (.called p (.execV argc argv))
        (execUpdate (.execV argc argv) ++ [.user]) []
  | joinRefused {c : ℕ} :
      parentID c ≠ some p →
      ScriptStep parentID p [.user] (.called p (.join c))
        [.writeResult (.join c) (-1), .user] []
  | joinGranted {c : ℕ} :
      parentID c = some p →
      ScriptStep parentID p [.user] (.called p (.join c))
        (joinUpdate p c ++ [.user]) []
  | exitFirst {ec : ℤ} :
      p = 0 →
      ScriptStep parentID p [.user] (.called p (.exit ec))
        [.writeResult (.exit ec) (-1), .sysHalt] []
  | exitOther {par : ℕ} {ec : ℤ} :
      p ≠ 0 → parentID p = some par →
      ScriptStep parentID p [.user] (.called p (.exit ec)) (exitUpdate p par ec) []
  | halt : ScriptStep parentID p [.user] (.called p .halt) [.sysHalt] []
  | halted : ScriptStep parentID p [.sysHalt] (.halted p) [] []

namespace Script

variable {parent parent' : ℕ → ℕ → Prop} {allotted allotted' : ℕ → Prop}
variable {p : ℕ} {stmt : Stmt} {rest : List Stmt}

theorem user : Script parent allotted p [.user] := by
  have hexec : (Call.exec []).IsExec := trivial
  exact .kernel (.searching hexec) List.nil_suffix

theorem mono
    {script : List Stmt} (h : Script parent allotted p script)
    (hparent : ∀ c, parent p c → parent' p c)
    (hchild : ∀ par, parent par p → parent' par p)
    (hallotted : ∀ c, allotted c → allotted' c) :
    Script parent' allotted' p script := by
  cases h with
  | kernel hbody hsuffix =>
      apply Script.kernel _ hsuffix
      cases hbody with
      | opening hexec => exact .opening hexec
      | searching hexec => exact .searching hexec
      | full hexec => exact .full hexec
      | forking hexec hpar hlt => exact .forking hexec (hparent _ hpar) hlt
      | joining hpar => exact .joining (hparent _ hpar)
      | refused => exact .refused
  | creating hexec hlt hall => exact .creating hexec hlt (hallotted _ hall)
  | exiting hne hpar hsuffix => exact .exiting hne (hchild _ hpar) hsuffix
  | leaving hzero hsuffix => exact .leaving hzero hsuffix
  | halting => exact .halting
  | loading hne => exact .loading hne
  | failed hne => exact .failed hne
  | done => exact .done

/-- A statement before the user program is a statement of the kernel code. -/
theorem kernel_cons
    {script : List Stmt} (hne : stmt ≠ .user)
    (hfull : script ++ [.user] = stmt :: rest) :
    ∃ left, script = stmt :: left ∧ rest = left ++ [.user] := by
  cases script with
  | nil =>
      simp only [List.nil_append, List.cons.injEq] at hfull
      exact (hne hfull.1.symm).elim
  | cons head left =>
      simp only [List.cons_append, List.cons.injEq] at hfull
      exact ⟨left, by rw [hfull.1], hfull.2.symm⟩

theorem suffix_tail
    {body : List Stmt} (h : stmt :: rest <:+ body) : rest <:+ body :=
  (List.suffix_cons stmt rest).trans h

/-- The statements of `PTable` and `PCB` that are followed by others. -/
def Inner : Stmt → Prop
  | .user | .newPCB _ _ | .runProcess _ => False
  | _ => True

/-- What follows an executed statement is a script again. -/
theorem tail
    (h : Script parent allotted p (stmt :: rest)) (hinner : Inner stmt) :
    Script parent allotted p rest := by
  have hne : stmt ≠ .user := by
    rintro rfl
    exact hinner
  generalize hfull : stmt :: rest = full at h
  cases h with
  | kernel hbody hsuffix =>
      rcases kernel_cons hne hfull.symm with ⟨left, rfl, rfl⟩
      exact .kernel hbody (suffix_tail hsuffix)
  | creating hexec hlt hall =>
      cases hfull
      exact hinner.elim
  | exiting hneq hpar hsuffix =>
      subst hfull
      exact .exiting hneq hpar (suffix_tail hsuffix)
  | leaving hzero hsuffix =>
      subst hfull
      exact .leaving hzero (suffix_tail hsuffix)
  | halting =>
      cases hfull
      exact .done
  | loading hneq =>
      cases hfull
      exact hinner.elim
  | failed hneq =>
      cases hfull
      exact .done
  | done => cases hfull

/-- What is known of a script from its first statement. -/
def Head (parent : ℕ → ℕ → Prop) (allotted : ℕ → Prop) (p : ℕ) :
    Stmt → List Stmt → Prop
  | .user, rest => rest = []
  | .openExecutable call, rest => call.IsExec ∧ rest = [.user]
  | .P .bmsem, _ | .V .bmsem, _ => True
  | .P (.joinsem c), _ => parent p c
  | .P (.exitsem par), _ => parent par p
  | .V (.joinsem c), _ => c = p
  | .V (.exitsem par), _ => par = p
  | .P (.multex c), _ | .V (.multex c), _ =>
      parent p c ∨ c = p ∨ parent c p
  | .findAndSet call, rest => call.IsExec ∧ rest = [.user]
  | .newPCB c call, rest =>
      call.IsExec ∧ p < c ∧ allotted c ∧
        rest = (execGranted c call).tail ++ [.user]
  | .pcbExec c call, _ => call.IsExec ∧ parent p c ∧ p < c
  | .incNumWait c, _ => c = p
  | .decNumWait c, _ => parent c p
  | .setExitCode c _, _ => c = p
  | .runProcess _, rest => p ≠ 0 ∧ rest = []
  | .writeResult call result, _ =>
      ∀ c : ℕ, call = .join c → result = 0 → parent p c
  | .finish, rest => p ≠ 0 ∧ rest = []
  | .sysHalt, rest => rest = []

theorem head
    (h : Script parent allotted p (stmt :: rest)) :
    Head parent allotted p stmt rest := by
  generalize hfull : stmt :: rest = full at h
  cases h with
  | kernel hbody hsuffix =>
      cases hbody <;>
        simp only [execUpdate, execFull, execGranted, joinUpdate,
          List.tail_cons, List.suffix_cons_iff, List.suffix_nil] at hsuffix <;>
        grind [Head, exec_ne_join]
  | creating hexec hlt hall =>
      cases hfull
      exact ⟨hexec, hlt, hall, rfl⟩
  | exiting hne hpar hsuffix =>
      simp only [exitUpdate, List.suffix_cons_iff, List.suffix_nil] at hsuffix
      grind [Head]
  | leaving hzero hsuffix =>
      simp only [List.suffix_cons_iff, List.suffix_nil] at hsuffix
      grind [Head]
  | halting =>
      cases hfull
      rfl
  | loading hne =>
      cases hfull
      exact ⟨hne, rfl⟩
  | failed hne =>
      cases hfull
      exact ⟨hne, rfl⟩
  | done => cases hfull

/-- The places where a process takes a unit, with what follows there. -/
inductive Waiting (parent : ℕ → ℕ → Prop) (p : ℕ) :
    SemRef → List Stmt → Prop
  | searching {call : Call} :
      Waiting parent p .bmsem [.findAndSet call, .user]
  | forking {c : ℕ} {call : Call} :
      Waiting parent p (.multex c)
        [.pcbExec c call, .V (.multex c), .writeResult call c, .user]
  | joining {c : ℕ} :
      parent p c →
      Waiting parent p (.joinsem c) ((joinUpdate p c).tail ++ [.user])
  | counting {c : ℕ} :
      Waiting parent p (.multex p)
        [.incNumWait p, .V (.multex p), .V (.exitsem p),
          .writeResult (.join c) 0, .user]
  | leaving {par : ℕ} {ec : ℤ} :
      Waiting parent p (.multex par)
        [.decNumWait par, .V (.multex par), .P (.exitsem par),
          .writeResult (.exit ec) 0, .finish]
  | exiting {par : ℕ} {ec : ℤ} :
      p ≠ 0 → parent par p →
      Waiting parent p (.exitsem par) [.writeResult (.exit ec) 0, .finish]

theorem waiting
    {sem : SemRef} (h : Script parent allotted p (.P sem :: rest)) :
    Waiting parent p sem rest := by
  generalize hfull : Stmt.P sem :: rest = full at h
  cases h with
  | kernel hbody hsuffix =>
      rcases kernel_cons (by simp) hfull.symm with ⟨left, rfl, rfl⟩
      cases hbody with
      | forking hexec hpar hlt =>
          simp only [execGranted, List.tail_cons, List.suffix_cons_iff,
            List.suffix_nil] at hsuffix
          rcases hsuffix with h | h | h | h | h | h <;> cases h
          exact .forking
      | joining hpar =>
          simp only [joinUpdate, List.suffix_cons_iff, List.suffix_nil]
            at hsuffix
          rcases hsuffix with h | h | h | h | h | h | h <;> cases h
          · exact .joining hpar
          · exact .counting
      | searching hexec =>
          simp only [execUpdate, List.suffix_cons_iff, List.suffix_nil]
            at hsuffix
          rcases hsuffix with h | h | h <;> cases h
          exact .searching
      | _ =>
          have hmem := hsuffix.mem (a := .P sem) (by simp)
          simp [execFull] at hmem
  | creating => cases hfull
  | exiting hne hpar hsuffix =>
      simp only [exitUpdate, List.suffix_cons_iff, List.suffix_nil] at hsuffix
      rcases hsuffix with h | h | h | h | h | h | h | h | h <;>
        cases hfull.trans h
      · exact .leaving
      · exact .exiting hne hpar
  | leaving hzero hsuffix =>
      have hmem := hsuffix.mem (a := .P sem) (by simp [← hfull])
      simp at hmem
  | _ => cases hfull

end Script

/-- A step leads from a script to scripts, once the new facts about the
table are accounted for. -/
theorem ScriptStep.scripts
    {parentID : ℕ → Option ℕ}
    {parent parent' : ℕ → ℕ → Prop} {allotted allotted' : ℕ → Prop}
    {p : ℕ} {old new : List Stmt} {event : Event}
    {spawned : List (ℕ × List Stmt)}
    (hstep : ScriptStep parentID p old event new spawned)
    (hold : Script parent allotted p old)
    (hknown : ∀ c par, parentID c = some par → parent par c)
    (hparent : ∀ par c, parent par c → parent' par c)
    (hallotted : ∀ c, allotted c → allotted' c)
    (hcreated : ∀ c, event = .created p c → parent' p c)
    (hgranted : ∀ c, event = .searched p (some c) → allotted' c) :
    Script parent' allotted' p new ∧
      ∀ script ∈ spawned, Script parent' allotted' script.1 script.2 := by
  have hold' : Script parent' allotted' p old :=
    hold.mono (hparent p) (fun par => hparent par p) hallotted
  cases hstep with
  | passed => exact ⟨hold'.tail trivial, by simp⟩
  | slept => exact ⟨hold', by simp⟩
  | released => exact ⟨hold'.tail trivial, by simp⟩
  | granted hexec hlt => exact ⟨.creating hexec hlt (hgranted _ rfl), by simp⟩
  | full hexec => exact ⟨.kernel (.full hexec) List.suffix_rfl, by simp⟩
  | created hexec hlt =>
      exact ⟨.kernel (.forking hexec (hcreated _ rfl) hlt) List.suffix_rfl,
        by simp⟩
  | execRefused => exact ⟨hold'.tail trivial, by simp⟩
  | forked hlt =>
      refine ⟨hold'.tail trivial, ?_⟩
      intro script hmem
      obtain rfl := List.mem_singleton.mp hmem
      exact .loading (by omega)
  | incNumWait => exact ⟨hold'.tail trivial, by simp⟩
  | decNumWait => exact ⟨hold'.tail trivial, by simp⟩
  | statusSet => exact ⟨hold'.tail trivial, by simp⟩
  | found hexec => exact ⟨.kernel (.searching hexec) List.suffix_rfl, by simp⟩
  | notFound hexec =>
      exact ⟨.kernel (.full hexec) (List.suffix_cons _ _), by simp⟩
  | loaded hne => exact ⟨.user, by simp⟩
  | notLoaded hne => exact ⟨.failed hne, by simp⟩
  | returned => exact ⟨hold'.tail trivial, by simp⟩
  | finished hne => exact ⟨.done, by simp⟩
  | @exec name =>
      have hexec : (Call.exec name).IsExec := trivial
      exact ⟨.kernel (.opening hexec) List.suffix_rfl, by simp⟩
  | @execV argc argv =>
      have hexec : (Call.execV argc argv).IsExec := trivial
      exact ⟨.kernel (.searching hexec) List.suffix_rfl, by simp⟩
  | joinRefused => exact ⟨.kernel .refused List.suffix_rfl, by simp⟩
  | joinGranted hpar =>
      have hpar' := hparent _ _ (hknown _ _ hpar)
      exact ⟨.kernel (.joining hpar') List.suffix_rfl, by simp⟩
  | exitFirst hzero => exact ⟨.leaving hzero List.suffix_rfl, by simp⟩
  | exitOther hne hpar =>
      have hpar' := hparent _ _ (hknown _ _ hpar)
      exact ⟨.exiting hne hpar' List.suffix_rfl, by simp⟩
  | halt => exact ⟨.halting, by simp⟩
  | halted => exact ⟨.done, by simp⟩

/-! ## The invariant -/

theorem identity_eq_some
    {k : Processes} {c : ℕ} {pcb : PCB} (hpcb : k.pTable.pcb c = some pcb) :
    k.pTable.identity c = some (pcb.pid, pcb.parentID) := by
  simp [PTable.identity, hpcb]

structure Shaped (trace : List Event) (k : Processes) : Prop where
  entries : ∀ c pid par, k.pTable.identity c = some (pid, par) →
    pid = c ∧ Parent trace par c ∧ k.pTable.bm.bit c = true ∧ c < maxProcess
  numBits : k.pTable.bm.numBits = maxProcess
  segment : ∀ i j, i < j → k.pTable.bm.bit j = true →
    k.pTable.bm.bit i = true
  scripts : ∀ script ∈ k.scripts,
    Script (Parent trace) (fun c => k.pTable.bm.bit c = true)
      script.1 script.2
  owners : ∀ script ∈ k.scripts, k.pTable.identity script.1 ≠ none
  parents : ∀ p c, Parent trace p c →
    k.pTable.identity p ≠ none ∧ k.pTable.identity c ≠ none ∧ (p < c ∨ p = 0 ∧ c = 0)

theorem Shaped.entry
    {trace : List Event} {k : Processes} (hshaped : Shaped trace k)
    {c : ℕ} {pcb : PCB} (hpcb : k.pTable.pcb c = some pcb) :
    pcb.pid = c ∧ Parent trace pcb.parentID c ∧
      k.pTable.bm.bit c = true ∧ c < maxProcess :=
  hshaped.entries _ _ _ (identity_eq_some hpcb)

theorem Shaped.parent_of_parentID
    {trace : List Event} {k : Processes} (hshaped : Shaped trace k)
    (c par : ℕ) (hparent : k.parentID c = some par) :
    Parent trace par c := by
  rcases Option.map_eq_some_iff.mp hparent with ⟨pcb, hpcb, rfl⟩
  exact (hshaped.entry hpcb).2.1

theorem Shaped.bit_of_identity
    {trace : List Event} {k : Processes} (hshaped : Shaped trace k)
    {c : ℕ} (hsome : k.pTable.identity c ≠ none) :
    k.pTable.bm.bit c = true := by
  rcases Option.ne_none_iff_exists'.mp hsome with ⟨⟨pid, par⟩, hidentity⟩
  exact (hshaped.entries _ _ _ hidentity).2.2.1

section Steps

variable {trace : List Event} {k k' : Processes} {t : ThreadId}
variable {th : Thread} {choice : Choice} {event : Event}

theorem scripts_getElem?
    (hget : k.threads[t]? = some th) :
    k.scripts[t]? = some (th.processID, th.script) := by
  simp [Processes.scripts, hget]

theorem mem_scripts
    (hget : k.threads[t]? = some th) :
    (th.processID, th.script) ∈ k.scripts :=
  List.mem_of_getElem? (scripts_getElem? hget)

/-- What a move does to the scripts. -/
theorem Shaped.scriptStep
    (hshaped : Shaped trace k) (hget : k.threads[t]? = some th)
    (hmoves : Moves k t th choice event k') :
    ∃ new spawned,
      ScriptStep k.parentID th.processID th.script event new spawned ∧
        k'.scripts = k.scripts.set t (th.processID, new) ++ spawned := by
  have hscript := hshaped.scripts _ (mem_scripts hget)
  simp only at hscript
  cases hmoves with
  | passed hold =>
      exact ⟨_, [], by rw [hold]; exact .passed,
        by simp [Processes.scripts]⟩
  | slept hold =>
      exact ⟨_, [], by rw [hold]; exact .slept,
        by simp [Processes.scripts, hold]⟩
  | released hold =>
      exact ⟨_, [], by rw [hold]; exact .released,
        by simp [Processes.scripts]⟩
  | woke hold =>
      refine ⟨_, [], by rw [hold]; exact .released, ?_⟩
      rw [wake_scripts]
      simp [Processes.scripts]
  | @granted call pid rest hold hlt hclear hbefore =>
      rw [hold] at hscript
      rcases hscript.head with ⟨hexec, rfl⟩
      -- the pid of the caller is marked, so it is below the least clear one
      have hmarked : k.pTable.bm.bit th.processID = true :=
        hshaped.bit_of_identity (hshaped.owners _ (mem_scripts hget))
      have hpid : th.processID < pid := by
        by_contra hnot
        rcases (Nat.not_lt.mp hnot).lt_or_eq with hgt | heq
        · exact absurd (hshaped.segment _ _ hgt hmarked) (by simp [hclear])
        · rw [heq] at hclear
          simp [hclear] at hmarked
      exact ⟨_, [], by rw [hold]; exact .granted hexec hpid,
        by simp [Processes.scripts]⟩
  | full hold hall =>
      rw [hold] at hscript
      rcases hscript.head with ⟨hexec, rfl⟩
      exact ⟨_, [], by rw [hold]; exact .full hexec,
        by simp [Processes.scripts]⟩
  | created hold hlt =>
      rw [hold] at hscript
      rcases hscript.head with ⟨hexec, hpid, -, rfl⟩
      exact ⟨_, [], by rw [hold]; exact .created hexec hpid,
        by simp [Processes.scripts]⟩
  | execRefused hold =>
      exact ⟨_, [], by rw [hold]; exact .execRefused,
        by simp [Processes.scripts]⟩
  | @forked pid call pcb name arg rest hold hpcb =>
      rw [hold] at hscript
      rcases hscript.head with ⟨-, -, hlt⟩
      refine ⟨rest, [(pid, [.runProcess arg])],
        by rw [hold]; exact .forked hlt, ?_⟩
      simp [Processes.scripts, (hshaped.entry hpcb).1]
  | @updated stmt pid f event pcb rest hold hpcb hupdate =>
      refine ⟨rest, [], ?_, by simp [Processes.scripts]⟩
      rw [hold]
      cases hupdate with
      | incNumWait => exact .incNumWait
      | decNumWait => exact .decNumWait
      | setExitCode => exact .statusSet
  | locally hlocal =>
      refine ⟨_, [], ?_, by simp [Processes.scripts]; rfl⟩
      generalize hold : th.script = old at hlocal hscript
      cases hlocal with
      | opened found =>
          rcases hscript.head with ⟨hexec, rfl⟩
          cases found with
          | true => exact .found hexec
          | false => exact .notFound hexec
      | loaded success =>
          rcases hscript.head with ⟨hne, rfl⟩
          cases success with
          | true => exact .loaded hne
          | false => exact .notLoaded hne
      | returned => exact .returned
      | finished =>
          rcases hscript.head with ⟨hne, rfl⟩
          exact .finished hne
      | exec =>
          obtain rfl := hscript.head
          exact .exec
      | execV =>
          obtain rfl := hscript.head
          exact .execV
      | joinRefused hother =>
          obtain rfl := hscript.head
          apply ScriptStep.joinRefused
          intro hsome
          rcases Option.map_eq_some_iff.mp hsome with ⟨pcb, hpcb, hparent⟩
          exact hother pcb hpcb hparent
      | joinGranted hpcb hparent =>
          obtain rfl := hscript.head
          exact .joinGranted (by simp [parentID, hpcb, hparent])
      | exitFirst hzero =>
          obtain rfl := hscript.head
          exact .exitFirst hzero
      | exitOther hne hpcb =>
          obtain rfl := hscript.head
          exact .exitOther hne (by simp [parentID, hpcb])
      | halt =>
          obtain rfl := hscript.head
          exact .halt
  | halted hold =>
      rw [hold] at hscript
      obtain rfl := hscript.head
      exact ⟨_, [], by rw [hold]; exact .halted,
        by simp [Processes.scripts]⟩

theorem identity_modifyPCB
    {f : PCB → PCB} (pid c : ℕ)
    (hf : ∀ pcb, ((f pcb).pid, (f pcb).parentID) = (pcb.pid, pcb.parentID)) :
    (k.modifyPCB pid f).pTable.identity c = k.pTable.identity c := by
  simp only [PTable.identity, modifyPCB_pcb]
  split
  next heq =>
    subst heq
    simp only [Option.map_map, Function.comp_def, hf]
  next => rfl

@[simp] theorem setSem_identity (sem : SemRef) (q : Semaphore) (c : ℕ) :
    (k.setSem sem q).pTable.identity c = k.pTable.identity c := by
  cases sem with
  | bmsem => rfl
  | joinsem pid => exact identity_modifyPCB pid c fun _ => rfl
  | exitsem pid => exact identity_modifyPCB pid c fun _ => rfl
  | multex pid => exact identity_modifyPCB pid c fun _ => rfl

/-- Entries are constructed by `newPCB` only, and never deleted. -/
theorem Moves.identity
    (hmoves : Moves k t th choice event k') (c : ℕ) :
    k'.pTable.identity c =
      if event = .created th.processID c then some (c, th.processID)
      else k.pTable.identity c := by
  cases hmoves with
  | created hold hlt =>
      simp only [PTable.identity, continueWith_pTable,
        Function.update_apply, Event.created.injEq, true_and, eq_comm]
      split
      next heq =>
        subst heq
        rfl
      next => rfl
  | forked =>
      rw [if_neg (by simp)]
      exact identity_modifyPCB _ c fun _ => rfl
  | updated hold hpcb hupdate =>
      rw [if_neg (by cases hupdate <;> simp)]
      cases hupdate <;> exact identity_modifyPCB _ c fun _ => rfl
  | locally hlocal =>
      generalize th.script = old at hlocal
      cases hlocal <;> simp
  | granted =>
      rw [if_neg (by simp)]
      rfl
  | _ => simp

/-- Bits are set by `FindAndSet` only, and never cleared. -/
theorem Moves.bit
    (hmoves : Moves k t th choice event k') (c : ℕ) :
    k'.pTable.bm.bit c =
      (k.pTable.bm.bit c ||
        decide (event = .searched th.processID (some c))) := by
  cases hmoves with
  | granted hold hlt hclear hbefore =>
      simp [Bitmap.bit_setBit hlt, eq_comm]
  | updated hold hpcb hupdate => cases hupdate <;> simp
  | locally hlocal =>
      generalize th.script = old at hlocal
      cases hlocal <;> simp
  | _ => simp

theorem Moves.numBits
    (hmoves : Moves k t th choice event k') :
    k'.pTable.bm.numBits = k.pTable.bm.numBits := by
  cases hmoves <;> simp

/-- `FindAndSet` grants the least clear bit. -/
theorem Moves.of_granted
    (hmoves : Moves k t th choice event k') {p c : ℕ}
    (hevent : event = .searched p (some c)) :
    p = th.processID ∧ c < k.pTable.bm.numBits ∧
      k.pTable.bm.bit c = false ∧ ∀ j < c, k.pTable.bm.bit j = true := by
  cases hmoves with
  | granted hold hlt hclear hbefore =>
      cases hevent
      exact ⟨rfl, hlt, hclear, hbefore⟩
  | updated _ _ hupdate => cases hupdate <;> cases hevent
  | locally hlocal =>
      subst hevent
      generalize th.script = old at hlocal
      cases hlocal
  | _ => cases hevent

/-- A `created` event is that of the statement `newPCB`. -/
theorem Moves.of_created
    (hmoves : Moves k t th choice event k') {p c : ℕ}
    (hevent : event = .created p c) :
    p = th.processID ∧ c < maxProcess ∧
      ∃ call rest, th.script = .newPCB c call :: rest := by
  cases hmoves with
  | created hold hlt =>
      cases hevent
      exact ⟨rfl, hlt, _, _, hold⟩
  | updated _ _ hupdate => cases hupdate <;> cases hevent
  | locally hlocal =>
      subst hevent
      generalize th.script = old at hlocal
      cases hlocal
  | _ => cases hevent

theorem Moves.identity_ne_none
    (hmoves : Moves k t th choice event k') {c : ℕ}
    (hsome : k.pTable.identity c ≠ none) : k'.pTable.identity c ≠ none := by
  rw [hmoves.identity]
  split
  next => simp
  next => exact hsome

theorem Moves.bit_mono
    (hmoves : Moves k t th choice event k') {c : ℕ}
    (hbit : k.pTable.bm.bit c = true) : k'.pTable.bm.bit c = true := by
  rw [hmoves.bit, hbit]
  rfl

theorem ScriptStep.spawned_eq
    {parentID : ℕ → Option ℕ} {p : ℕ} {old new : List Stmt}
    {spawned : List (ℕ × List Stmt)}
    (hstep : ScriptStep parentID p old event new spawned) :
    spawned = [] ∨ ∃ c call rest arg, old = .pcbExec c call :: rest ∧
      spawned = [(c, [.runProcess arg])] := by
  cases hstep with
  | forked hlt => exact .inr ⟨_, _, _, _, rfl, rfl⟩
  | _ => exact .inl rfl

theorem Shaped.step
    (hshaped : Shaped trace k) (hget : k.threads[t]? = some th)
    (hmoves : Moves k t th choice event k') :
    Shaped (trace ++ [event]) k' := by
  have hparent : ∀ par c, Parent trace par c →
      Parent (trace ++ [event]) par c := fun _ _ h => h.append event
  rcases hshaped.scriptStep hget hmoves with
    ⟨new, spawned, hstep, hscripts⟩
  have hmem := mem_scripts hget
  have hold := hshaped.scripts _ hmem
  have hcases : ∀ script ∈ k'.scripts, script ∈ k.scripts ∨
      script = (th.processID, new) ∨ script ∈ spawned := by
    intro script hscript
    rw [hscripts, List.mem_append] at hscript
    rcases hscript with hset | hspawned
    · rcases List.mem_or_eq_of_mem_set hset with hother | heq
      · exact .inl hother
      · exact .inr (.inl heq)
    · exact .inr (.inr hspawned)
  constructor
  case entries =>
    intro c pid par hidentity
    rw [hmoves.identity] at hidentity
    split at hidentity
    next hevent =>
      rcases hmoves.of_created hevent with ⟨-, hlt, call, rest, hhead⟩
      simp only [hhead] at hold
      simp only [Option.some.injEq, Prod.mk.injEq] at hidentity
      rcases hidentity with ⟨rfl, rfl⟩
      exact ⟨rfl, .inl (by simp [hevent]),
        hmoves.bit_mono hold.head.2.2.1, hlt⟩
    next =>
      rcases hshaped.entries c pid par hidentity with ⟨hpid, hpar, hbit, hc⟩
      exact ⟨hpid, hpar.append _, hmoves.bit_mono hbit, hc⟩
  case numBits => rw [hmoves.numBits, hshaped.numBits]
  case segment =>
    intro i j hij hbit
    rw [hmoves.bit, Bool.or_eq_true, decide_eq_true_eq] at hbit ⊢
    rcases hbit with hbit | hevent
    · exact .inl (hshaped.segment i j hij hbit)
    · exact .inl ((hmoves.of_granted hevent).2.2.2 i hij)
  case scripts =>
    intro script hscript
    have hnew := hstep.scripts hold hshaped.parent_of_parentID hparent (fun c => hmoves.bit_mono)
      (fun c hevent => .inl (by simp [hevent]))
      (fun c hevent => by simp [hmoves.bit, hevent])
    rcases hcases script hscript with hother | rfl | hspawned
    · exact (hshaped.scripts _ hother).mono (hparent _)
        (fun par => hparent par _) fun c => hmoves.bit_mono
    · exact hnew.1
    · exact hnew.2 script hspawned
  case owners =>
    intro script hscript
    apply hmoves.identity_ne_none
    rcases hcases script hscript with hother | rfl | hspawned
    · exact hshaped.owners _ hother
    · exact hshaped.owners (th.processID, th.script) hmem
    · rcases hstep.spawned_eq with rfl | ⟨c, call, rest, arg, hhead, rfl⟩
      · simp at hspawned
      · obtain rfl := List.mem_singleton.mp hspawned
        simp only [hhead] at hold
        exact (hshaped.parents _ _ hold.head.2.1).2.1
  case parents =>
    intro p c hpar
    have hbefore : Parent trace p c ∨ event = .created p c := by
      rcases hpar with hmemCreated | hzero
      · rcases List.mem_append.mp hmemCreated with hearlier | hnow
        · exact .inl (.inl hearlier)
        · exact .inr (List.mem_singleton.mp hnow).symm
      · exact .inl (.inr hzero)
    rcases hbefore with hbefore | hevent
    · rcases hshaped.parents p c hbefore with ⟨hp, hc, hlt⟩
      exact ⟨hmoves.identity_ne_none hp, hmoves.identity_ne_none hc, hlt⟩
    · rcases hmoves.of_created hevent with ⟨rfl, -, call, rest, hhead⟩
      simp only [hhead] at hold
      refine ⟨hmoves.identity_ne_none
        (hshaped.owners (th.processID, th.script) hmem), ?_,
          .inl hold.head.2.1⟩
      rw [hmoves.identity, if_pos hevent]
      simp

end Steps

theorem start_bit (c : ℕ) :
    Processes.start.pTable.bm.bit c = decide (c = 0) := by
  have hword : Processes.start.pTable.bm.word c =
      [1#32].getD (c / bitsInWord) 0 := rfl
  rw [Bitmap.bit_eq_getLsbD, hword]
  by_cases hfirst : c / bitsInWord = 0
  · have hmod : c % bitsInWord = 0 ↔ c = 0 := by
      unfold bitsInWord at hfirst ⊢
      omega
    simp [hfirst, hmod]
  · have hne : c ≠ 0 := by
      rintro rfl
      exact hfirst rfl
    simp [hfirst, hne]

theorem shaped_start : Shaped [] Processes.start := by
  have hidentity : ∀ c, Processes.start.pTable.identity c =
      if c = 0 then some (0, 0) else none := by
    intro c
    simp only [PTable.identity, Processes.start, initialTable,
      Function.update_apply]
    split <;> rfl
  constructor
  case entries =>
    intro c pid par hsome
    rw [hidentity] at hsome
    split at hsome
    next hzero =>
      subst hzero
      cases hsome
      exact ⟨rfl, .inr ⟨rfl, rfl⟩, by simp [start_bit], by decide⟩
    next => simp at hsome
  case numBits => rfl
  case segment =>
    intro i j hij hj
    simp only [start_bit, decide_eq_true_eq] at hj
    omega
  case scripts =>
    intro script hmem
    obtain rfl : script = (0, [.user]) := List.mem_singleton.mp hmem
    exact .user
  case owners =>
    intro script hmem
    obtain rfl : script = (0, [.user]) := List.mem_singleton.mp hmem
    simp [hidentity]
  case parents =>
    rintro p c (hmem | ⟨rfl, rfl⟩)
    · simp at hmem
    · simp [hidentity]

end Processes

/-! ## Reachable states -/

namespace Processes

variable {trace : List Event} {k k' : Processes} {action : Action}
variable {event : Event}

theorem shaped_of_reaches
    (hreaches : processSystem.Reaches trace k) : Shaped trace k := by
  apply hreaches.invariant Shaped
  · exact shaped_start
  · intro trace k k' action event _ hshaped _ hstep
    rcases step_moves hstep with ⟨th, -, hget, -, hmoves⟩
    exact hshaped.step hget hmoves

/-- What a step of a run does to the scripts. -/
theorem step_script
    (hreaches : processSystem.Reaches trace k)
    (hstep : k.step action = .ok (k', event)) :
    ∃ p old new spawned, k.scripts[action.thread]? = some (p, old) ∧
      ScriptStep k.parentID p old event new spawned ∧
      k'.scripts = k.scripts.set action.thread (p, new) ++ spawned := by
  rcases step_moves hstep with ⟨th, -, hget, -, hmoves⟩
  rcases (shaped_of_reaches hreaches).scriptStep hget hmoves with
    ⟨new, spawned, hscript, hscripts⟩
  exact ⟨_, _, new, spawned, scripts_getElem? hget, hscript, hscripts⟩

theorem script_of_getElem?
    (hreaches : processSystem.Reaches trace k) {t p : ℕ}
    {script : List Stmt} (hget : k.scripts[t]? = some (p, script)) :
    Script (Parent trace) (fun c => k.pTable.bm.bit c = true) p script :=
  (shaped_of_reaches hreaches).scripts _ (List.mem_of_getElem? hget)

end Processes

end Nachos
