import Nachos.ThreadPlaces

/-!
# User programs and context switches

The registers and the page table of the machine are one copy that all threads
share.  `Run` saves and restores it around the threads that have an address
space; what it does for these is to give every one of them registers of its
own.
-/

namespace Nachos.Scheduling

open Library

/-! ## What a running thread does to the machine -/

namespace UserState

def writeRegister (machine : UserState) (num : ℕ) (value : BitVec 32) :
    UserState :=
  { machine with registers := Function.update machine.registers num value }

/-- `AddrSpace::InitRegisters`. -/
def initRegisters (space : Space) (machine : UserState) : UserState :=
  let machine :=
    (List.range numTotalRegs).foldl (·.writeRegister · 0) machine
  let machine := machine.writeRegister pcReg 0
  let machine := machine.writeRegister nextPCReg 4
  let machine := machine.writeRegister stackReg space.stackptr
  let machine := machine.writeRegister 4 space.argc
  machine.writeRegister 5 space.argv

end UserState

/-- A thread goes on inside of a call of `Run`, not at its root. -/
def Resume.inRun : Resume → Bool
  | .yield _ => true
  | .semaphoreP _ _ => true
  | .root => false
  | .finish => false

namespace Threads

/-- The current thread gets an address space, or `Load` writes to it. -/
def attach (k : Threads) (space : Space) : Except Fault Threads := do
  let th ← k.thread k.currentThread
  return k.setThread k.currentThread { th with space := some space }

/-- `AddrSpace::Execute`, up to `Machine::Run`. -/
def execute (k : Threads) (space : Space) : Except Fault Threads := do
  let k ← k.attach space
  return { k with
    machine := restoreState space (UserState.initRegisters space k.machine) }

def currentSpace (k : Threads) : Option Space :=
  (k.threads k.currentThread).bind Thread.space

/-- The thread that goes on behind `SWITCH` does so in a call of `Run`. -/
def returnsFromRun (k : Threads) : Bool :=
  k.control = .switched &&
    ((k.threads k.currentThread).bind Thread.resume).any Resume.inRun

end Threads

/-- The steps of the kernel, and what a running thread does besides: it writes
registers, gets an address space, executes a program in it, and its program
runs an instruction. -/
inductive ProgramAction
  | kernel (action : Action)
  | writeRegisters (registers : ℕ → BitVec 32)
  | attach (space : Space)
  | execute (space : Space)
  | instruction

/-- A call of `Run`, and the return from it, with the machine there; other
steps of the kernel; and what a running thread does. -/
inductive ProgramEvent
  | called (t : ThreadId) (machine : UserState)
  | returned (t : ThreadId) (space : Option Space) (machine : UserState)
  | kernel (event : Event)
  | wrote (t : ThreadId)
  | attached (t : ThreadId)
  | executed (t : ThreadId) (space : Space)
  | instruction (t : ThreadId) (machine : UserState)

namespace Threads

/-- A step of the kernel, as the programs see it. -/
def observe (k k' : Threads) (event : Event) : ProgramEvent :=
  if k.control ≠ .switched ∧ k'.control = .switched then
    .called k.currentThread k.machine
  else if k.returnsFromRun then
    .returned k.currentThread k.currentSpace k'.machine
  else .kernel event

def programStep (k : Threads) (action : ProgramAction) :
    Except StepError (Threads × ProgramEvent) :=
  match k.control, action with
  | _, .kernel action => do
      let (k', event) ← step k action
      return (k', k.observe k' event)
  | .running, .writeRegisters registers =>
      .ok ({ k with machine := { k.machine with registers := registers } },
        .wrote k.currentThread)
  | .running, .attach space => do
      let k' ← simulate (k.attach space)
      return (k', .attached k.currentThread)
  | .running, .execute space => do
      let k' ← simulate (k.execute space)
      return (k', .executed k.currentThread space)
  | .running, .instruction =>
      if k.currentSpace.isSome then
        .ok (k, .instruction k.currentThread k.machine)
      else .error .disabled
  | _, _ => .error .disabled

def programSystem (garbage : ℕ → BitVec 32) (machine : UserState)
    (initial : SemaphoreId → BitVec 32) :
    StepSystem Threads ProgramAction ProgramEvent StepError where
  start := start garbage machine initial
  step := programStep

/-! ## The functions that do not switch -/

end Threads

/-- What `Run` saves of a thread, and by what it knows that it has to. -/
abbrev Context := Option Space × (ℕ → BitVec 32)

def Thread.context (th : Thread) : Context :=
  (th.space, th.userRegisters)

namespace Threads

def contexts (k : Threads) (t : ThreadId) : Option Context :=
  (k.threads t).map Thread.context

/-- The threads have the same address spaces and saved registers, and the
machine is the same. -/
structure SameContext (k k' : Threads) : Prop where
  contexts : k'.contexts = k.contexts
  machine : k'.machine = k.machine
  currentThread : k'.currentThread = k.currentThread

variable {k k' k₁ k₂ k₃ : Threads} {t : ThreadId}

theorem contexts_of_threads (h : k'.threads = k.threads) :
    k'.contexts = k.contexts := by
  funext t
  rw [contexts, h]
  rfl

theorem SameContext.refl (k : Threads) : SameContext k k :=
  ⟨rfl, rfl, rfl⟩

theorem SameContext.trans
    (h₁ : SameContext k k₁) (h₂ : SameContext k₁ k₂) : SameContext k k₂ where
  contexts := h₂.contexts.trans h₁.contexts
  machine := h₂.machine.trans h₁.machine
  currentThread := h₂.currentThread.trans h₁.currentThread

/-- Other parts of the state change as they like. -/
theorem SameContext.of_eq
    (h : SameContext k k₁) (hthreads : k₂.threads = k₁.threads)
    (hmachine : k₂.machine = k₁.machine)
    (hcurrent : k₂.currentThread = k₁.currentThread) : SameContext k k₂ where
  contexts := (contexts_of_threads hthreads).trans h.contexts
  machine := hmachine.trans h.machine
  currentThread := hcurrent.trans h.currentThread

theorem SameContext.andThen
    (h₁ : SameContext k k₁) (h₂ : SameContext k₂ k₃)
    (hthreads : k₂.threads = k₁.threads)
    (hmachine : k₂.machine = k₁.machine)
    (hcurrent : k₂.currentThread = k₁.currentThread) : SameContext k k₃ :=
  (h₁.of_eq hthreads hmachine hcurrent).trans h₂

theorem of_thread {th : Thread} (h : k.thread t = .ok th) :
    k.threads t = some th := by
  unfold thread at h
  split at h
  next found hfound =>
    cases h
    exact hfound
  next => cases h

theorem contexts_eq {th : Thread} (h : k.threads t = some th) :
    k.contexts t = some th.context :=
  Option.map_eq_some_iff.mpr ⟨th, h, rfl⟩

theorem contexts_setThread (k : Threads) (t : ThreadId) (th : Thread) :
    (k.setThread t th).contexts =
      Function.update k.contexts t (some th.context) := by
  funext q
  by_cases hq : q = t
  · subst hq
    simp [contexts, setThread]
  · simp [contexts, setThread, hq]

/-- Neither the status nor the stack of a thread is part of its context. -/
theorem sameContext_setThread
    {th : Thread} (th' : Thread) (h : k.threads t = some th)
    (hcontext : th'.context = th.context) :
    SameContext k (k.setThread t th') where
  contexts := by
    rw [contexts_setThread, hcontext, ← contexts_eq h,
      Function.update_eq_self]
  machine := rfl
  currentThread := rfl

theorem sameContext_readyToRun (h : k.readyToRun t = .ok k') :
    SameContext k k' ∧ k'.control = k.control := by
  obtain ⟨-, -, h⟩ := ok_of_bind h
  obtain ⟨th, hth, h⟩ := ok_of_bind h
  obtain ⟨list, -, h⟩ := ok_of_bind h
  cases h
  have hset := sameContext_setThread { th with status := .ready }
    (of_thread hth) rfl
  exact ⟨hset.of_eq rfl rfl rfl, rfl⟩

theorem sameContext_findNextToRun
    {next : Option ThreadId} (h : k.findNextToRun = .ok (next, k')) :
    SameContext k k' ∧ k'.control = k.control := by
  obtain ⟨-, -, h⟩ := ok_of_bind h
  cases hready : k.readyList with
  | nil =>
      simp only [hready] at h
      cases h
      exact ⟨.refl k, rfl⟩
  | cons first rest =>
      simp only [hready] at h
      cases h
      exact ⟨(SameContext.refl k).of_eq rfl rfl rfl, rfl⟩

theorem sameContext_leaveAt
    {resume : Resume} (h : k.leaveAt resume = .ok k') :
    SameContext k k' ∧ k'.control = k.control := by
  obtain ⟨th, hth, h⟩ := ok_of_bind h
  cases h
  exact ⟨sameContext_setThread _ (of_thread hth) rfl, rfl⟩

theorem sameContext_sleep {finishing : Bool} (h : k.sleep finishing = .ok k') :
    SameContext k k' ∧ k'.control = .sleeping finishing := by
  obtain ⟨-, -, h⟩ := ok_of_bind h
  obtain ⟨th, hth, h⟩ := ok_of_bind h
  cases h
  have hset := sameContext_setThread { th with status := .blocked }
    (of_thread hth) rfl
  exact ⟨hset.of_eq rfl rfl rfl, rfl⟩

theorem sameContext_fork (h : k.fork t = .ok k') :
    SameContext k k' ∧ k'.control = k.control := by
  obtain ⟨th, hth, h⟩ := ok_of_bind h
  obtain ⟨ready, hready, h⟩ := ok_of_bind h
  cases h
  have hstack := sameContext_setThread { th with resume := some .root }
    (of_thread hth) rfl
  obtain ⟨hsame, hcontrol⟩ := sameContext_readyToRun hready
  have hready := hstack.andThen hsame rfl rfl rfl
  exact ⟨hready.of_eq rfl rfl rfl, hcontrol⟩

theorem sameContext_finish (h : k.finish = .ok k') :
    SameContext k k' ∧ k'.control = .sleeping true := by
  obtain ⟨left, hleft, h⟩ := ok_of_bind h
  obtain ⟨hsame, -⟩ := sameContext_leaveAt hleft
  obtain ⟨hsleep, hcontrol⟩ := sameContext_sleep h
  have hleave := (SameContext.refl k).andThen hsame rfl rfl rfl
  exact ⟨hleave.trans hsleep, hcontrol⟩

theorem sameContext_testValue
    {s : SemaphoreId} {oldLevel : IntStatus}
    (h : k.testValue s oldLevel = .ok k') :
    SameContext k k' ∧ k'.control ≠ .switched := by
  unfold testValue at h
  by_cases hvalue : (k.semaphores s).value = 0
  · simp only [if_pos hvalue] at h
    obtain ⟨queue, -, h⟩ := ok_of_bind h
    obtain ⟨left, hleft, h⟩ := ok_of_bind h
    obtain ⟨hsame, -⟩ := sameContext_leaveAt hleft
    obtain ⟨hsleep, hcontrol⟩ := sameContext_sleep h
    have hleave := (SameContext.refl k).andThen hsame rfl rfl rfl
    exact ⟨hleave.trans hsleep, by simp [hcontrol]⟩
  · simp only [if_neg hvalue] at h
    cases h
    exact ⟨(SameContext.refl k).of_eq rfl rfl rfl, by simp⟩

theorem sameContext_semaphoreV
    {s : SemaphoreId} {woken : Option ThreadId}
    (h : k.semaphoreV s = .ok (woken, k')) :
    SameContext k k' ∧ k'.control = k.control := by
  unfold semaphoreV at h
  cases hqueue : (k.semaphores s).queue with
  | nil =>
      simp only [hqueue] at h
      cases h
      exact ⟨(SameContext.refl k).of_eq rfl rfl rfl, rfl⟩
  | cons first rest =>
      simp only [hqueue] at h
      obtain ⟨ready, hready, h⟩ := ok_of_bind h
      cases h
      obtain ⟨hsame, hcontrol⟩ := sameContext_readyToRun hready
      have hwoken := (SameContext.refl k).andThen hsame rfl rfl rfl
      exact ⟨hwoken.of_eq rfl rfl rfl, hcontrol⟩

/-! ## The switch -/

/-- What `SaveUserState` makes of the context of the current thread. -/
def saveContext (machine : UserState) (c : Context) : Context :=
  match c.1 with
  | none => c
  | some _ => (c.1, copyRegisters machine.registers c.2)

/-- The machine behind `SWITCH`, in a call of `Run`. -/
def restoreContext (machine : UserState) (c : Context) : UserState :=
  match c.1 with
  | none => machine
  | some space => restoreState space { machine with
      registers := copyRegisters c.2 machine.registers }

theorem markFinished_ok {finishing : Bool} (h : k.markFinished finishing = .ok k') :
    SameContext k k' := by
  unfold markFinished at h
  cases finishing with
  | false =>
      cases h
      exact .refl k
  | true =>
      obtain ⟨-, -, h⟩ := ok_of_bind h
      cases h
      exact (SameContext.refl k).of_eq rfl rfl rfl

theorem saveOldThread_ok (h : k.saveOldThread = .ok k') :
    k'.contexts = Function.update k.contexts k.currentThread
        ((k.contexts k.currentThread).map (saveContext k.machine)) ∧
      k'.machine = k.machine := by
  obtain ⟨old, hold, h⟩ := ok_of_bind h
  have hcontext := contexts_eq (of_thread hold)
  rw [hcontext, Option.map_some]
  cases hspace : old.space with
  | none =>
      simp only [hspace] at h
      cases h
      have hsave : saveContext k.machine old.context = old.context := by
        simp [saveContext, Thread.context, hspace]
      rw [hsave, ← hcontext, Function.update_eq_self]
      exact ⟨rfl, rfl⟩
  | some space =>
      simp only [hspace] at h
      cases h
      refine ⟨?_, rfl⟩
      rw [saveUserState, contexts_setThread]
      simp [saveContext, Thread.context, hspace]

theorem run_ok
    {next : ThreadId} {finishing : Bool} (h : k.run next finishing = .ok k') :
    k'.contexts = Function.update k.contexts k.currentThread
        ((k.contexts k.currentThread).map (saveContext k.machine)) ∧
      k'.machine = k.machine ∧ k'.control = .switched := by
  obtain ⟨-, -, h⟩ := ok_of_bind h
  obtain ⟨marked, hmarked, h⟩ := ok_of_bind h
  obtain ⟨saved, hsaved, h⟩ := ok_of_bind h
  obtain ⟨th, hth, h⟩ := ok_of_bind h
  cases h
  obtain ⟨hcontexts, hmachine, hcurrent⟩ := markFinished_ok hmarked
  obtain ⟨hsave, hsame⟩ := saveOldThread_ok hsaved
  rw [hcontexts, hmachine, hcurrent] at hsave
  have hfound : saved.threads next = some th := of_thread hth
  obtain ⟨hset, -, -⟩ := sameContext_setThread { th with status := .running }
    hfound rfl
  exact ⟨hset.trans hsave, hsame.trans hmachine, rfl⟩

theorem checkToBeDestroyed_ok (h : k.checkToBeDestroyed = .ok k') :
    k'.contexts = (fun t => if k.toBeDestroyed = some t then none
        else k.contexts t) ∧
      k'.threads k.currentThread = k.threads k.currentThread ∧
      k'.machine = k.machine ∧ k'.currentThread = k.currentThread := by
  unfold checkToBeDestroyed at h
  cases hdestroy : k.toBeDestroyed with
  | none =>
      simp only [hdestroy] at h
      cases h
      exact ⟨by simp, rfl, rfl, rfl⟩
  | some t =>
      simp only [hdestroy] at h
      obtain ⟨th, -, h⟩ := ok_of_bind h
      obtain ⟨answer, hother, h⟩ := ok_of_bind h
      cases h
      have hne : t ≠ k.currentThread := by
        by_contra hself
        rw [assert_of_false (not_not.mpr hself)] at hother
        cases hother
      refine ⟨?_, Function.update_of_ne (Ne.symm hne) _ _, rfl, rfl⟩
      funext q
      by_cases hq : q = t
      · subst hq
        simp [contexts]
      · simp [contexts, hq, Ne.symm hq]

theorem returnFromRun_ok
    {th : Thread} (hth : k.threads k.currentThread = some th)
    (h : k.returnFromRun = .ok k') :
    k'.contexts = (fun t => if k.toBeDestroyed = some t then none
        else k.contexts t) ∧
      k'.machine = restoreContext k.machine th.context ∧
      k'.currentThread = k.currentThread := by
  obtain ⟨-, -, h⟩ := ok_of_bind h
  obtain ⟨after, hafter, h⟩ := ok_of_bind h
  obtain ⟨old, hold, h⟩ := ok_of_bind h
  obtain ⟨hcontexts, hkept, hmachine, hcurrent⟩ := checkToBeDestroyed_ok hafter
  have hfound := of_thread hold
  rw [hcurrent, hkept, hth, Option.some.injEq] at hfound
  subst hfound
  cases hspace : th.space with
  | none =>
      simp only [hspace] at h
      cases h
      refine ⟨hcontexts, ?_, hcurrent⟩
      simp [restoreContext, Thread.context, hspace, hmachine]
  | some space =>
      simp only [hspace] at h
      cases h
      refine ⟨hcontexts, ?_, hcurrent⟩
      simp [restoreContext, Thread.context, hspace, hmachine,
        restoreUserState]

/-! ## The steps of the kernel -/

/-- What a step of the kernel does to the contexts. -/
inductive Moves (k k' : Threads) : Prop
  | created {t : ThreadId} {garbage : ℕ → BitVec 32} :
      k.threads t = none → k.control = .running → k' = k.newThread t garbage →
      Moves k k'
  | stays : k.control ≠ .switched → k'.control ≠ .switched →
      SameContext k k' → Moves k k'
  | switches : k.control ≠ .switched → k'.control = .switched →
      k'.contexts = Function.update k.contexts k.currentThread
        ((k.contexts k.currentThread).map (saveContext k.machine)) →
      k'.machine = k.machine → Moves k k'
  | goesOn {th : Thread} : k.control = .switched → k'.control ≠ .switched →
      k.threads k.currentThread = some th →
      k'.currentThread = k.currentThread →
      k'.contexts = (fun t => if k.toBeDestroyed = some t then none
        else k.contexts t) →
      k'.machine = (if k.returnsFromRun then
        restoreContext k.machine th.context else k.machine) →
      (k.returnsFromRun = false → th.resume = some .root) → Moves k k'

/-- `Run` is called with what the kernel has done before it. -/
theorem Moves.of_run
    {next : ThreadId} {finishing : Bool} (hcontrol : k.control ≠ .switched)
    (hsame : SameContext k k₁) (h : k₁.run next finishing = .ok k') :
    Moves k k' := by
  obtain ⟨hcontexts, hmachine, hcurrent⟩ := hsame
  obtain ⟨hsaved, hkept, hswitched⟩ := run_ok h
  rw [hcontexts, hmachine, hcurrent] at hsaved
  exact .switches hcontrol hswitched hsaved (hkept.trans hmachine)

theorem moves_yield (hrunning : k.control = .running) (h : k.yield = .ok k') :
    Moves k k' := by
  have hne : k.control ≠ .switched := by simp [hrunning]
  obtain ⟨⟨next, found⟩, hfound, h⟩ := ok_of_bind h
  obtain ⟨hsame, hcontrol⟩ := sameContext_findNextToRun hfound
  have hfind := (SameContext.refl k).andThen hsame rfl rfl rfl
  cases next with
  | none =>
      cases h
      refine .stays hne ?_ (hfind.of_eq rfl rfl rfl)
      rw [show found.control = k.control from hcontrol]
      exact hne
  | some next =>
      obtain ⟨left, hleft, h⟩ := ok_of_bind h
      obtain ⟨ready, hready, h⟩ := ok_of_bind h
      obtain ⟨hleave, -⟩ := sameContext_leaveAt hleft
      obtain ⟨hput, -⟩ := sameContext_readyToRun hready
      exact .of_run hne ((hfind.trans hleave).trans hput) h

theorem moves_searchNext
    {finishing : Bool} (hsleeping : k.control = .sleeping finishing)
    (h : k.searchNext finishing = .ok k') : Moves k k' := by
  have hne : k.control ≠ .switched := by simp [hsleeping]
  obtain ⟨⟨next, found⟩, hfound, h⟩ := ok_of_bind h
  obtain ⟨hsame, -⟩ := sameContext_findNextToRun hfound
  cases next with
  | none =>
      cases h
      exact .stays hne (by simp) (hsame.of_eq rfl rfl rfl)
  | some next => exact .of_run hne hsame h

theorem moves_goOn (hswitched : k.control = .switched) (h : k.goOn = .ok k') :
    Moves k k' := by
  obtain ⟨th, hth, h⟩ := ok_of_bind h
  have hfound := of_thread hth
  cases hresume : th.resume with
  | none =>
      simp only [hresume] at h
      cases h
  | some r =>
      have hreturns : k.returnsFromRun = r.inRun := by
        simp [returnsFromRun, hswitched, hfound, hresume]
      simp only [hresume] at h
      cases r with
      | root =>
          obtain ⟨after, hafter, h⟩ := ok_of_bind h
          cases h
          obtain ⟨hcontexts, -, hmachine, hcurrent⟩ :=
            checkToBeDestroyed_ok hafter
          refine .goesOn hswitched (by simp) hfound hcurrent hcontexts ?_
            fun _ => hresume
          rw [hreturns]
          exact hmachine
      | yield oldLevel =>
          obtain ⟨after, hafter, h⟩ := ok_of_bind h
          cases h
          obtain ⟨hcontexts, hmachine, hcurrent⟩ :=
            returnFromRun_ok hfound hafter
          refine .goesOn hswitched (by simp) hfound hcurrent hcontexts ?_
            fun hnot => ?_
          · rw [hreturns]
            exact hmachine
          · rw [hreturns] at hnot
            cases hnot
      | semaphoreP s oldLevel =>
          obtain ⟨after, hafter, h⟩ := ok_of_bind h
          obtain ⟨hcontexts, hmachine, hcurrent⟩ :=
            returnFromRun_ok hfound hafter
          obtain ⟨hsame, hcontrol⟩ := sameContext_testValue h
          refine .goesOn hswitched hcontrol hfound
            (hsame.currentThread.trans hcurrent)
            (hsame.contexts.trans hcontexts) ?_ fun hnot => ?_
          · rw [hreturns, hsame.machine]
            exact hmachine
          · rw [hreturns] at hnot
            cases hnot
      | finish => cases h

theorem step_moves
    {action : Action} {event : Event} (h : step k action = .ok (k', event)) :
    Moves k k' := by
  unfold step at h
  split at h
  next t garbage hrunning =>
    by_cases hfree : (k.threads t).isNone
    · rw [if_pos hfree] at h
      cases h
      exact .created (Option.isNone_iff_eq_none.mp hfree) hrunning rfl
    · rw [if_neg hfree] at h
      cases h
  next t hrunning =>
    by_cases hnew : (k.threads t).any (fun th => th.status = .justCreated)
    · rw [if_pos hnew] at h
      obtain ⟨after, hfork, h⟩ := simulate_ok_bind h
      cases h
      obtain ⟨hsame, hcontrol⟩ := sameContext_fork hfork
      exact .stays (by simp [hrunning]) (by simp [hcontrol, hrunning]) hsame
    · rw [if_neg hnew] at h
      cases h
  next hrunning =>
    obtain ⟨after, hyield, h⟩ := simulate_ok_bind h
    cases h
    exact moves_yield hrunning hyield
  next hrunning =>
    obtain ⟨after, hfinish, h⟩ := simulate_ok_bind h
    cases h
    obtain ⟨hsame, hcontrol⟩ := sameContext_finish hfinish
    exact .stays (by simp [hrunning]) (by simp [hcontrol]) hsame
  next s hrunning =>
    obtain ⟨after, hP, h⟩ := simulate_ok_bind h
    cases h
    obtain ⟨hsame, hcontrol⟩ := sameContext_testValue hP
    exact .stays (by simp [hrunning]) hcontrol
      ((SameContext.refl k).andThen hsame rfl rfl rfl)
  next s hrunning =>
    obtain ⟨⟨woken, after⟩, hV, h⟩ := simulate_ok_bind h
    cases h
    obtain ⟨hsame, hcontrol⟩ := sameContext_semaphoreV hV
    exact .stays (by simp [hrunning]) (by simp [hcontrol, hrunning]) hsame
  next s hrunning =>
    obtain ⟨⟨woken, after⟩, hV, h⟩ := simulate_ok_bind h
    cases h
    obtain ⟨hsame, hcontrol⟩ := sameContext_semaphoreV hV
    have hhandled := (SameContext.refl k).andThen hsame rfl rfl rfl
    refine .stays (by simp [hrunning]) ?_ (hhandled.of_eq rfl rfl rfl)
    rw [show ({ after with level := .intOn } : Threads).control =
      k.control from hcontrol, hrunning]
    simp
  next f s hidling =>
    obtain ⟨⟨woken, after⟩, hV, h⟩ := simulate_ok_bind h
    cases h
    obtain ⟨hsame, hcontrol⟩ := sameContext_semaphoreV hV
    exact .stays (by simp [hidling]) (by simp [hcontrol, hidling]) hsame
  next f hidling =>
    cases h
    exact .stays (by simp [hidling]) (by simp)
      ((SameContext.refl k).of_eq rfl rfl rfl)
  next f hsleeping =>
    obtain ⟨after, hsearch, h⟩ := simulate_ok_bind h
    cases h
    exact moves_searchNext hsleeping hsearch
  next hswitched =>
    obtain ⟨after, hgoOn, h⟩ := simulate_ok_bind h
    cases h
    exact moves_goOn hswitched hgoOn
  next => cases h

end Threads

end Nachos.Scheduling
