import Nachos.ProcessShape
import Nachos.Library.Ledger

/-!
# The ledgers of the process protocol

Each ledger here compares two kinds of events of a run, up to the statements
the threads still have to execute.  A ledger with a correct `Tariff` is
posted by every step of the scripts, whatever the interleaving, so that it is
balanced in every reachable state.
-/

namespace Nachos

open Library

namespace Processes

/-- What an event adds to the balance. -/
def charge (L : Ledger ℕ Stmt Event) (event : Event) : ℤ :=
  (if L.credit event then 1 else 0) - if L.debit event then 1 else 0

/-- The event of each step pays for the statements it removes from the script
and those it adds. -/
structure Tariff (L : Ledger ℕ Stmt Event) : Prop where
  passed : ∀ p sem, charge L (.passed p sem) = L.owes p (.P sem)
  slept : ∀ p sem, charge L (.slept p sem) = 0
  released : ∀ p sem, charge L (.released p sem) = L.owes p (.V sem)
  granted : ∀ p c call, call.IsExec → p < c →
    charge L (.searched p (some c)) + L.owes p (.newPCB c call) +
        L.owes p (.V .bmsem) + L.owes p (.P (.multex c)) +
        L.owes p (.pcbExec c call) + L.owes p (.V (.multex c)) +
        L.owes p (.writeResult call c) =
      L.owes p (.findAndSet call)
  full : ∀ p call, call.IsExec →
    charge L (.searched p none) + L.owes p (.V .bmsem) +
        L.owes p (.writeResult call (-1)) =
      L.owes p (.findAndSet call)
  created : ∀ p c call, call.IsExec → p < c →
    charge L (.created p c) = L.owes p (.newPCB c call)
  execRefused : ∀ p c call,
    charge L (.execRefused p c) = L.owes p (.pcbExec c call)
  forked : ∀ p c call arg, p < c →
    charge L (.forked p c) + L.owes c (.runProcess arg) =
      L.owes p (.pcbExec c call)
  incNumWait : ∀ p c, charge L (.countedWait p c) = L.owes p (.incNumWait c)
  decNumWait : ∀ p c, charge L (.countedWait p c) = L.owes p (.decNumWait c)
  statusSet : ∀ p c ec,
    charge L (.statusSet p ec) = L.owes p (.setExitCode c ec)
  found : ∀ p call, call.IsExec →
    charge L (.opened p true) + L.owes p (.P .bmsem) +
        L.owes p (.findAndSet call) =
      L.owes p (.openExecutable call)
  notFound : ∀ p call, call.IsExec →
    charge L (.opened p false) + L.owes p (.writeResult call (-1)) =
      L.owes p (.openExecutable call)
  loaded : ∀ p arg, p ≠ 0 →
    charge L (.loaded p true) + L.owes p .user = L.owes p (.runProcess arg)
  notLoaded : ∀ p arg, p ≠ 0 →
    charge L (.loaded p false) + L.owes p .finish =
      L.owes p (.runProcess arg)
  returned : ∀ p call result,
    charge L (.returned p call result) = L.owes p (.writeResult call result)
  finished : ∀ p, p ≠ 0 → charge L (.finished p) = L.owes p .finish
  exec : ∀ p name,
    charge L (.called p (.exec name)) +
      L.owes p (.openExecutable (.exec name)) = 0
  execV : ∀ p argc argv,
    charge L (.called p (.execV argc argv)) + L.owes p (.P .bmsem) +
      L.owes p (.findAndSet (.execV argc argv)) = 0
  joinRefused : ∀ p (c : ℕ),
    charge L (.called p (.join c)) +
      L.owes p (.writeResult (.join c) (-1)) = 0
  joinGranted : ∀ p (c : ℕ),
    charge L (.called p (.join c)) + L.owes p (.P (.joinsem c)) +
      L.owes p (.P (.multex p)) + L.owes p (.incNumWait p) +
      L.owes p (.V (.multex p)) + L.owes p (.V (.exitsem p)) +
      L.owes p (.writeResult (.join c) 0) = 0
  exitFirst : ∀ ec,
    charge L (.called 0 (.exit ec)) +
        L.owes 0 (.writeResult (.exit ec) (-1)) + L.owes 0 .sysHalt =
      L.owes 0 .user
  exitOther : ∀ p par ec, p ≠ 0 →
    charge L (.called p (.exit ec)) + L.owes p (.setExitCode p ec) +
        L.owes p (.V (.joinsem p)) + L.owes p (.P (.multex par)) +
        L.owes p (.decNumWait par) + L.owes p (.V (.multex par)) +
        L.owes p (.P (.exitsem par)) + L.owes p (.writeResult (.exit ec) 0) +
        L.owes p .finish =
      L.owes p .user
  halt : ∀ p, charge L (.called p .halt) + L.owes p .sysHalt = L.owes p .user
  halted : ∀ p, charge L (.halted p) = L.owes p .sysHalt

theorem Tariff.posts
    {L : Ledger ℕ Stmt Event} (htariff : Tariff L)
    {parentID : ℕ → Option ℕ} {p : ℕ} {old new : List Stmt} {event : Event}
    {spawned : List (ℕ × List Stmt)}
    (hstep : ScriptStep parentID p old event new spawned) :
    L.Posts p old event new spawned := by
  suffices hcharge :
      charge L event + owed L.owes (p, new) + pending L.owes spawned =
        owed L.owes (p, old) by
    unfold charge at hcharge
    unfold Ledger.Posts
    omega
  cases hstep <;>
    simp only [owed_cons, owed_nil, owed_append, pending_cons, pending_nil,
      execUpdate, execFull, execGranted, joinUpdate, exitUpdate,
      List.tail_cons]
  case passed sem => linarith [htariff.passed p sem]
  case slept sem rest => linarith [htariff.slept p sem]
  case released sem => linarith [htariff.released p sem]
  case granted call c hexec hlt =>
    linarith [htariff.granted p c call hexec hlt]
  case full call hexec => linarith [htariff.full p call hexec]
  case created c call hexec hlt =>
    linarith [htariff.created p c call hexec hlt]
  case execRefused c call => linarith [htariff.execRefused p c call]
  case forked c call arg hlt =>
    linarith [htariff.forked p c call arg hlt]
  case incNumWait c => linarith [htariff.incNumWait p c]
  case decNumWait c => linarith [htariff.decNumWait p c]
  case statusSet c ec => linarith [htariff.statusSet p c ec]
  case found call hexec => linarith [htariff.found p call hexec]
  case notFound call hexec => linarith [htariff.notFound p call hexec]
  case loaded arg hne => linarith [htariff.loaded p arg hne]
  case notLoaded arg hne => linarith [htariff.notLoaded p arg hne]
  case returned call result => linarith [htariff.returned p call result]
  case finished hne => linarith [htariff.finished p hne]
  case exec name => linarith [htariff.exec p name]
  case execV argc argv => linarith [htariff.execV p argc argv]
  case joinRefused c hother => linarith [htariff.joinRefused p c]
  case joinGranted c hpar => linarith [htariff.joinGranted p c]
  case exitFirst ec hzero =>
    subst hzero
    linarith [htariff.exitFirst ec]
  case exitOther par ec hne hpar => linarith [htariff.exitOther p par ec hne]
  case halt => linarith [htariff.halt p]
  case halted => linarith [htariff.halted p]

theorem balanced_of_reaches
    {L : Ledger ℕ Stmt Event} (htariff : Tariff L)
    {trace : List Event} {k : Processes}
    (hreaches : processSystem.Reaches trace k) :
    L.Balanced (L.owes 0 .user) trace k.scripts := by
  apply hreaches.invariant (fun trace k =>
    L.Balanced (L.owes 0 .user) trace k.scripts)
  · simp [Ledger.Balanced, processSystem, start, Processes.scripts]
  · intro trace k k' action event hbefore hbalanced _ hstep
    rcases step_script hbefore hstep with
      ⟨p, old, new, spawned, hget, hscript, hscripts⟩
    rw [hscripts]
    exact hbalanced.post hget (htariff.posts hscript)

theorem balance_of_reaches
    {L : Ledger ℕ Stmt Event} (htariff : Tariff L)
    (hopening : L.owes 0 .user = 0)
    {trace : List Event} {k : Processes}
    (hreaches : processSystem.Reaches trace k) :
    (trace.countP L.credit : ℤ) + pending L.owes k.scripts =
      trace.countP L.debit := by
  have hbalanced := balanced_of_reaches htariff hreaches
  rwa [Ledger.Balanced, hopening, add_zero] at hbalanced

/-- A weight that is nonnegative on all scripts. -/
structure Covers (w : ℕ → Stmt → ℤ) : Prop where
  user : ∀ p, Solvent w p [.user]
  opening : ∀ p call, call.IsExec → Solvent w p [.openExecutable call]
  searching : ∀ p call, call.IsExec → Solvent w p (execUpdate call)
  full : ∀ p call, call.IsExec → Solvent w p (execFull call)
  granted : ∀ p c call, call.IsExec → p < c →
    Solvent w p (execGranted c call)
  joining : ∀ p c, Solvent w p (joinUpdate p c)
  refused : ∀ p (c : ℕ), Solvent w p [.writeResult (.join c) (-1)]
  exiting : ∀ p par ec, p ≠ 0 → Solvent w p (exitUpdate p par ec)
  leaving : ∀ ec, Solvent w 0 [.writeResult (.exit ec) (-1), .sysHalt]
  halting : ∀ p, Solvent w p [.sysHalt]
  loading : ∀ p arg, p ≠ 0 → Solvent w p [.runProcess arg]
  failed : ∀ p, p ≠ 0 → Solvent w p [.finish]

theorem Covers.owed_nonneg
    {w : ℕ → Stmt → ℤ} (hcovers : Covers w)
    {parent : ℕ → ℕ → Prop} {allotted : ℕ → Prop} {p : ℕ}
    {script : List Stmt} (h : Script parent allotted p script) :
    0 ≤ owed w (p, script) := by
  cases h with
  | @kernel body script hbody hsuffix =>
      have hbefore : 0 ≤ owed w (p, script) := by
        cases hbody with
        | opening hexec => exact (hcovers.opening p _ hexec).owed_suffix hsuffix
        | searching hexec =>
            exact (hcovers.searching p _ hexec).owed_suffix hsuffix
        | full hexec => exact (hcovers.full p _ hexec).owed_suffix hsuffix
        | forking hexec _ hlt =>
            exact (hcovers.granted p _ _ hexec hlt).2.owed_suffix hsuffix
        | joining => exact (hcovers.joining p _).owed_suffix hsuffix
        | refused => exact (hcovers.refused p _).owed_suffix hsuffix
      rw [owed_append]
      exact add_nonneg hbefore (hcovers.user p).1
  | creating hexec hlt =>
      have hbefore := (hcovers.granted p _ _ hexec hlt).1
      rw [owed_append]
      exact add_nonneg hbefore (hcovers.user p).1
  | exiting hne _ hsuffix =>
      exact (hcovers.exiting p _ _ hne).owed_suffix hsuffix
  | leaving hzero hsuffix =>
      subst hzero
      exact (hcovers.leaving _).owed_suffix hsuffix
  | halting => exact (hcovers.halting p).1
  | loading hne => exact (hcovers.loading p _ hne).1
  | failed hne => exact (hcovers.failed p hne).1
  | done => simp

theorem Covers.pending_nonneg
    {w : ℕ → Stmt → ℤ} (hcovers : Covers w)
    {trace : List Event} {k : Processes}
    (hreaches : processSystem.Reaches trace k) :
    0 ≤ pending w k.scripts := by
  apply Library.pending_nonneg
  intro script hmem
  exact hcovers.owed_nonneg ((shaped_of_reaches hreaches).scripts script hmem)

theorem Covers.owed_le_pending
    {w : ℕ → Stmt → ℤ} (hcovers : Covers w)
    {trace : List Event} {k : Processes}
    (hreaches : processSystem.Reaches trace k)
    {script : ℕ × List Stmt} (hmem : script ∈ k.scripts) :
    owed w script ≤ pending w k.scripts := by
  apply Library.owed_le_pending _ hmem
  intro other hother
  exact hcovers.owed_nonneg ((shaped_of_reaches hreaches).scripts other hother)

/-- A weight that is covered by another one on all scripts. -/
theorem Covers.pending_le
    {more less : ℕ → Stmt → ℤ}
    (hcovers : Covers fun p stmt => more p stmt - less p stmt)
    {trace : List Event} {k : Processes}
    (hreaches : processSystem.Reaches trace k) :
    pending less k.scripts ≤ pending more k.scripts := by
  apply pending_le_pending
  intro script hmem
  have hnonneg : 0 ≤
      owed (fun p stmt => more p stmt - less p stmt) script :=
    hcovers.owed_nonneg ((shaped_of_reaches hreaches).scripts script hmem)
  rw [owed_sub] at hnonneg
  omega

/-! ## The ledgers -/

/-- A unit of the semaphore is taken. -/
def taken (sem : SemRef) : Event → Bool
  | .passed _ moved => decide (moved = sem)
  | _ => false

/-- A unit of the semaphore is given. -/
def given (sem : SemRef) : Event → Bool
  | .released _ moved => decide (moved = sem)
  | _ => false

/-- The process `c` calls `Exit`; the one of process 0 halts the machine. -/
def exits (c : ℕ) : Event → Bool
  | .called q call => decide (q = c ∧ q ≠ 0 ∧ call.IsExit)
  | _ => false

/-- Joins of `c` that have returned 0, against units taken from its
`joinsem`. -/
def joinReturns (c : ℕ) : Ledger ℕ Stmt Event where
  credit
    | .returned _ call result => decide (call = .join c ∧ result = 0)
    | _ => false
  debit event := taken (.joinsem c) event
  owes _
    | .writeResult call result => if call = .join c ∧ result = 0 then 1 else 0
    | .P sem => if sem = .joinsem c then -1 else 0
    | _ => 0

theorem joinReturns_tariff (c : ℕ) : Tariff (joinReturns c) := by
  constructor <;> grind [charge, joinReturns, taken, exec_ne_join]

theorem joinReturns_covers (c : ℕ) : Covers (joinReturns c).owes := by
  constructor <;>
    simp only [Solvent, execUpdate, execFull, execGranted, joinUpdate,
      exitUpdate, owed_cons, owed_nil] <;>
    grind [joinReturns, exec_ne_join]

/-- Calls of `Join` on `c` by `p`: each takes a unit or is refused. -/
def joinCalls (p c : ℕ) : Ledger ℕ Stmt Event where
  credit
    | .passed q sem => decide (q = p ∧ sem = .joinsem c)
    | .returned q call result =>
        decide (q = p ∧ call = .join c ∧ result = -1)
    | _ => false
  debit
    | .called q call => decide (q = p ∧ call = .join c)
    | _ => false
  owes q
    | .P sem => if q = p ∧ sem = .joinsem c then 1 else 0
    | .writeResult call result =>
        if q = p ∧ call = .join c ∧ result = -1 then 1 else 0
    | _ => 0

theorem joinCalls_tariff (p c : ℕ) : Tariff (joinCalls p c) := by
  constructor <;> grind [charge, joinCalls, exec_ne_join]

/-- Units given to the `joinsem` of `c`, against its calls of `Exit`. -/
def childSignals (c : ℕ) : Ledger ℕ Stmt Event where
  credit event := given (.joinsem c) event
  debit event := exits c event
  owes _
    | .V sem => if sem = .joinsem c then 1 else 0
    | _ => 0

theorem childSignals_tariff (c : ℕ) : Tariff (childSignals c) := by
  constructor <;> grind [charge, childSignals, given, exits, Call.IsExit]

theorem childSignals_covers (c : ℕ) : Covers (childSignals c).owes := by
  constructor <;>
    simp only [Solvent, execUpdate, execFull, execGranted, joinUpdate,
      exitUpdate, owed_cons, owed_nil] <;>
    grind [childSignals]

/-- Stores of the status `ec` by `c`, against its calls `Exit(ec)`. -/
def statusStores (c : ℕ) (ec : ℤ) : Ledger ℕ Stmt Event where
  credit
    | .statusSet q status => decide (q = c ∧ status = ec)
    | _ => false
  debit
    | .called q call => decide (q = c ∧ q ≠ 0 ∧ call = .exit ec)
    | _ => false
  owes q
    | .setExitCode _ status => if q = c ∧ status = ec then 1 else 0
    | _ => 0

theorem statusStores_tariff (c : ℕ) (ec : ℤ) :
    Tariff (statusStores c ec) := by
  constructor <;> grind [charge, statusStores]

/-- A child that has a status to store has its parent to signal. -/
theorem childSignals_covers_statusStores (c : ℕ) (ec : ℤ) :
    Covers fun p stmt =>
      (childSignals c).owes p stmt - (statusStores c ec).owes p stmt := by
  constructor <;>
    simp only [Solvent, execUpdate, execFull, execGranted, joinUpdate,
      exitUpdate, owed_cons, owed_nil] <;>
    grind [childSignals, statusStores]

/-- Programs of `c` that have called `Exit` or `Halt`, against those
loaded. -/
def programs (c : ℕ) : Ledger ℕ Stmt Event where
  credit
    | .called q call => decide (q = c ∧ (call.IsExit ∨ call = .halt))
    | _ => false
  debit
    | .loaded q success => decide (q = c ∧ success = true)
    | _ => false
  owes q
    | .user => if q = c then 1 else 0
    | _ => 0

theorem programs_tariff (c : ℕ) : Tariff (programs c) := by
  constructor <;> grind [charge, programs, Call.IsExit]

theorem programs_covers (c : ℕ) : Covers (programs c).owes := by
  constructor <;>
    simp only [Solvent, execUpdate, execFull, execGranted, joinUpdate,
      exitUpdate, owed_cons, owed_nil] <;>
    grind [programs]

/-- Attempts to load the executable of `c`, against threads forked for it. -/
def loads (c : ℕ) : Ledger ℕ Stmt Event where
  credit
    | .loaded q _ => decide (q = c)
    | _ => false
  debit
    | .forked _ d => decide (d = c)
    | _ => false
  owes q
    | .runProcess _ => if q = c then 1 else 0
    | _ => 0

theorem loads_tariff (c : ℕ) : Tariff (loads c) := by
  constructor <;> grind [charge, loads]

theorem loads_covers (c : ℕ) : Covers (loads c).owes := by
  constructor <;>
    simp only [Solvent, execUpdate, execFull, execGranted, joinUpdate,
      exitUpdate, owed_cons, owed_nil] <;>
    grind [loads]

/-- Executions of `PCB::Exec` for `c`, against the grants of its slot. -/
def forks (c : ℕ) : Ledger ℕ Stmt Event where
  credit
    | .forked _ d | .execRefused _ d => decide (d = c)
    | _ => false
  debit
    | .searched _ slot => decide (slot = some c)
    | _ => false
  owes _
    | .pcbExec d _ => if d = c then 1 else 0
    | _ => 0

theorem forks_tariff (c : ℕ) : Tariff (forks c) := by
  constructor <;> grind [charge, forks]

theorem forks_covers (c : ℕ) : Covers (forks c).owes := by
  constructor <;>
    simp only [Solvent, execUpdate, execFull, execGranted, joinUpdate,
      exitUpdate, owed_cons, owed_nil] <;>
    grind [forks]

/-- Constructions of the entry of `c`, against the grants of its slot. -/
def creations (c : ℕ) : Ledger ℕ Stmt Event where
  credit
    | .created _ d => decide (d = c)
    | _ => false
  debit
    | .searched _ slot => decide (slot = some c)
    | _ => false
  owes _
    | .newPCB d _ => if d = c then 1 else 0
    | _ => 0

theorem creations_tariff (c : ℕ) : Tariff (creations c) := by
  constructor <;> grind [charge, creations]

/-- Pids `ExecUpdate` has returned, against the grants of the slot. -/
def execReturns (c : ℕ) : Ledger ℕ Stmt Event where
  credit
    | .returned _ call result => decide (call.IsExec ∧ result = c)
    | _ => false
  debit
    | .searched _ slot => decide (slot = some c)
    | _ => false
  owes _
    | .writeResult call result =>
        if call.IsExec ∧ result = c then 1 else 0
    | _ => 0

theorem execReturns_tariff (c : ℕ) : Tariff (execReturns c) := by
  constructor <;> grind [charge, execReturns, Call.IsExec]

theorem execReturns_covers (c : ℕ) : Covers (execReturns c).owes := by
  constructor <;>
    simp only [Solvent, execUpdate, execFull, execGranted, joinUpdate,
      exitUpdate, owed_cons, owed_nil] <;>
    grind [execReturns]

/-- Threads of `c` that have finished, against the ways to get there: `Exit`
and an executable that is not loaded. -/
def endings (c : ℕ) : Ledger ℕ Stmt Event where
  credit
    | .finished q => decide (q = c)
    | _ => false
  debit
    | .loaded q success => decide (q = c ∧ success = false)
    | event => exits c event
  owes q
    | .finish => if q = c then 1 else 0
    | _ => 0

theorem endings_tariff (c : ℕ) : Tariff (endings c) := by
  constructor <;> grind [charge, endings, exits, Call.IsExit]

/-- A process that has a unit to give to its parent has not finished. -/
theorem endings_covers_childSignals (c : ℕ) :
    Covers fun p stmt =>
      (endings c).owes p stmt - (childSignals c).owes p stmt := by
  constructor <;>
    simp only [Solvent, execUpdate, execFull, execGranted, joinUpdate,
      exitUpdate, owed_cons, owed_nil] <;>
    grind [endings, childSignals]

/-- Calls of `Exit` by `c` that have returned 0, against the units `c` has
taken from an `exitsem`. -/
def exitReturns (c : ℕ) : Ledger ℕ Stmt Event where
  credit
    | .returned q call result => decide (q = c ∧ call.IsExit ∧ result = 0)
    | _ => false
  debit
    | .passed q (.exitsem _) => decide (q = c)
    | _ => false
  owes q
    | .writeResult call result =>
        if q = c ∧ call.IsExit ∧ result = 0 then 1 else 0
    | .P (.exitsem _) => if q = c then -1 else 0
    | _ => 0

theorem exitReturns_tariff (c : ℕ) : Tariff (exitReturns c) := by
  constructor <;>
    grind [charge, exitReturns, Call.IsExit, not_isExit_of_isExec]

theorem exitReturns_covers (c : ℕ) : Covers (exitReturns c).owes := by
  constructor <;>
    simp only [Solvent, execUpdate, execFull, execGranted, joinUpdate,
      exitUpdate, owed_cons, owed_nil] <;>
    grind [exitReturns, Call.IsExit, not_isExit_of_isExec]

/-- Waits of `c` in `ExitWait`, against its calls of `Exit`. -/
def exitWaits (c : ℕ) : Ledger ℕ Stmt Event where
  credit
    | .passed q (.exitsem _) => decide (q = c)
    | _ => false
  debit event := exits c event
  owes q
    | .P (.exitsem _) => if q = c then 1 else 0
    | _ => 0

theorem exitWaits_tariff (c : ℕ) : Tariff (exitWaits c) := by
  constructor <;> grind [charge, exitWaits, exits, Call.IsExit]

theorem exitWaits_covers (c : ℕ) : Covers (exitWaits c).owes := by
  constructor <;>
    simp only [Solvent, execUpdate, execFull, execGranted, joinUpdate,
      exitUpdate, owed_cons, owed_nil] <;>
    grind [exitWaits]

/-- Units given to the `exitsem` of `p`, against the children `p` has
waited for. -/
def exitTokens (p : ℕ) : Ledger ℕ Stmt Event where
  credit event := given (.exitsem p) event
  debit
    | .passed q (.joinsem _) => decide (q = p)
    | _ => false
  owes q
    | .V sem => if sem = .exitsem p then 1 else 0
    | .P (.joinsem _) => if q = p then -1 else 0
    | _ => 0

theorem exitTokens_tariff (p : ℕ) : Tariff (exitTokens p) := by
  constructor <;> grind [charge, exitTokens, given]

/-- The critical sections of `bmsem`: from `P` over `FindAndSet` to `V`. -/
def bmsemHeld : Ledger ℕ Stmt Event where
  credit event := given .bmsem event
  debit event := taken .bmsem event
  owes _
    | .V sem => if sem = .bmsem then 1 else 0
    | .findAndSet _ => 1
    | .P sem => if sem = .bmsem then -1 else 0
    | _ => 0

theorem bmsemHeld_tariff : Tariff bmsemHeld := by
  constructor <;> grind [charge, bmsemHeld, given, taken]

/-- The scripts between `P` of `bmsem` and `FindAndSet`. -/
def searching (_ : ℕ) : Stmt → ℤ
  | .findAndSet _ => 1
  | .P .bmsem => -1
  | _ => 0

theorem searching_covers : Covers searching := by
  constructor <;>
    simp only [Solvent, execUpdate, execFull, execGranted, joinUpdate,
      exitUpdate, owed_cons, owed_nil, searching] <;>
    grind

/-- An entry is searched for and constructed inside the critical section of
`bmsem`. -/
theorem bmsemHeld_covers (c : ℕ) :
    Covers fun p stmt => bmsemHeld.owes p stmt -
      ((creations c).owes p stmt + searching p stmt) := by
  constructor <;>
    simp only [Solvent, execUpdate, execFull, execGranted, joinUpdate,
      exitUpdate, owed_cons, owed_nil, searching] <;>
    grind [bmsemHeld, creations]

/-- The critical sections of the `multex` of `c`. -/
def multexHeld (c : ℕ) : Ledger ℕ Stmt Event where
  credit event := given (.multex c) event
  debit event := taken (.multex c) event
  owes _
    | .V sem => if sem = .multex c then 1 else 0
    | .P sem => if sem = .multex c then -1 else 0
    | _ => 0

theorem multexHeld_tariff (c : ℕ) : Tariff (multexHeld c) := by
  constructor <;> grind [charge, multexHeld, given, taken]

end Processes

end Nachos
