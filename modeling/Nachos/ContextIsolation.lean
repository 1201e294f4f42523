import Nachos.ContextSwitch
import Nachos.ThreadLife

/-!
# Every program has registers of its own

A program that has been switched from finds its registers and its page table
again when it is switched to, whatever the other threads have done to the
machine; and the first instruction of a program finds what `InitRegisters` has
left.
-/

namespace Nachos.Scheduling

open Library

/-! ## `InitRegisters` -/

/-- The user registers are the same. -/
def SameRegisters (registers registers' : ℕ → BitVec 32) : Prop :=
  ∀ i < numTotalRegs, registers i = registers' i

theorem SameRegisters.trans
    {r₁ r₂ r₃ : ℕ → BitVec 32} (h₁ : SameRegisters r₁ r₂)
    (h₂ : SameRegisters r₂ r₃) : SameRegisters r₁ r₃ :=
  fun i hi => (h₁ i hi).trans (h₂ i hi)

theorem sameRegisters_copy (source target : ℕ → BitVec 32) :
    SameRegisters (Threads.copyRegisters source target) source :=
  fun _ hi => if_pos hi

/-- The registers that a program starts with. -/
def initialRegisters (space : Space) (i : ℕ) : BitVec 32 :=
  if i = 5 then space.argv
  else if i = 4 then space.argc
  else if i = stackReg then space.stackptr
  else if i = nextPCReg then 4
  else 0

namespace UserState

theorem writeRegister_registers
    (machine : UserState) (num : ℕ) (value : BitVec 32) (i : ℕ) :
    (machine.writeRegister num value).registers i =
      if i = num then value else machine.registers i :=
  Function.update_apply ..

theorem writeZero_registers (machine : UserState) (n i : ℕ) :
    ((List.range n).foldl (·.writeRegister · 0) machine).registers i =
      if i < n then 0 else machine.registers i := by
  induction n with
  | zero => rfl
  | succ n ih =>
      rw [List.range_succ, List.foldl_append, List.foldl_cons, List.foldl_nil,
        writeRegister_registers, ih]
      by_cases hi : i = n
      · simp [hi]
      · have hlt : i < n ↔ i < n + 1 := by omega
        rw [if_neg hi]
        exact if_congr hlt rfl rfl

theorem initRegisters_registers (space : Space) (machine : UserState) :
    SameRegisters (initRegisters space machine).registers
      (initialRegisters space) := by
  intro i hi
  unfold initRegisters initialRegisters
  simp only [writeRegister_registers, writeZero_registers]
  by_cases hpc : i = pcReg
  · subst hpc
    simp [pcReg, nextPCReg, stackReg]
  · simp [hpc, hi]

end UserState

/-! ## Threads that have begun -/

namespace Shape

variable {sh sh' : Shape} {event : Event} {t : ThreadId}

/-- The thread has run, and is not going to begin at its root again. -/
def Started (sh : Shape) (t : ThreadId) : Prop :=
  ∃ status resume, sh.core t = some (status, resume) ∧
    status ≠ .justCreated ∧
      (resume = none ∨ resume = some .root →
        t = sh.currentThread ∧ sh.control = .running)

theorem Started.of_same
    (hstarted : sh.Started t) (hcore : sh'.core t = sh.core t)
    (hcurrent : sh'.currentThread = sh.currentThread)
    (hcontrol : sh'.control = sh.control) : sh'.Started t := by
  unfold Started at *
  rwa [hcore, hcurrent, hcontrol]

/-- A thread that is not running does not go on at its root. -/
theorem Started.of_not_running
    (hstarted : sh.Started t) (hcore : sh'.core t = sh.core t)
    (hnot : ¬(t = sh.currentThread ∧ sh.control = .running)) :
    sh'.Started t := by
  obtain ⟨status, resume, hold, hcreated, hroot⟩ := hstarted
  exact ⟨status, resume, hcore.trans hold, hcreated,
    fun hbad => (hnot (hroot hbad)).elim⟩

theorem Life.started (hlife : Life sh event sh') (h : sh.Sound)
    (hstarted : sh.Started t) (hdestroy : ¬event.Destroys t) :
    sh'.Started t := by
  have hold := hstarted
  obtain ⟨status, resume, hcore, hcreated, hroot⟩ := hold
  cases hlife with
  | @created q hrunning hnone =>
      have ht : t ≠ q := by
        rintro rfl
        rw [hcore] at hnone
        cases hnone
      exact hstarted.of_same (Function.update_of_ne ht _ _) rfl rfl
  | @forked q before hrunning hnew =>
      have ht : t ≠ q := by
        rintro rfl
        rw [hcore] at hnew
        cases hnew
        exact hcreated rfl
      exact hstarted.of_same (Function.update_of_ne ht _ _) rfl rfl
  | kept => exact hstarted.of_same rfl rfl rfl
  | @yielded next before rest hrunning hready hnext =>
      by_cases hself : t = next
      · subst hself
        rw [hcore] at hnext
        cases hnext
        refine ⟨.running, resume, Function.update_self .., by simp, ?_⟩
        intro hbad
        obtain ⟨rfl, -⟩ := hroot hbad
        obtain ⟨-, -, other, hcurrent⟩ := h.controlled_running hrunning
        rw [hcore] at hcurrent
        cases hcurrent
      · by_cases hcurrent : t = sh.currentThread
        · subst hcurrent
          refine ⟨.ready, some (.yield .intOn),
            (Function.update_of_ne hself _ _).trans
              (Function.update_self ..), by simp, by simp⟩
        · exact hstarted.of_not_running ((Function.update_of_ne hself _ _).trans
            (Function.update_of_ne hcurrent _ _)) fun hboth => hcurrent hboth.1
  | finished =>
      by_cases hcurrent : t = sh.currentThread
      · subst hcurrent
        exact ⟨_, _, Function.update_self .., by simp, by simp⟩
      · exact hstarted.of_not_running (Function.update_of_ne hcurrent _ _)
          fun hboth => hcurrent hboth.1
  | acquired => exact hstarted.of_same rfl rfl rfl
  | blocked =>
      by_cases hcurrent : t = sh.currentThread
      · subst hcurrent
        exact ⟨_, _, Function.update_self .., by simp, by simp⟩
      · exact hstarted.of_not_running (Function.update_of_ne hcurrent _ _)
          fun hboth => hcurrent hboth.1
  | released => exact hstarted.of_same rfl rfl rfl
  | @woken s q rest before hcontrol hqueue hblocked =>
      by_cases hq : t = q
      · subst hq
        rw [hcore] at hblocked
        cases hblocked
        exact ⟨.ready, resume, Function.update_self .., by simp, hroot⟩
      · exact hstarted.of_same (Function.update_of_ne hq _ _) rfl rfl
  | idles hsleeping =>
      exact hstarted.of_not_running rfl (by simp [hsleeping])
  | @found f next before rest hsleeping hready hnext =>
      have hnot : ¬(t = sh.currentThread ∧ sh.control = .running) := by
        simp [hsleeping]
      by_cases hself : t = next
      · subst hself
        rw [hcore] at hnext
        cases hnext
        exact ⟨.running, resume, Function.update_self .., by simp,
          fun hbad => (hnot (hroot hbad)).elim⟩
      · exact hstarted.of_not_running (Function.update_of_ne hself _ _) hnot
  | idled hidling =>
      exact hstarted.of_not_running rfl (by simp [hidling])
  | resumed hswitched =>
      exact hstarted.of_not_running (buried_core hdestroy)
        (by simp [hswitched])
  | reacquired hswitched =>
      exact hstarted.of_not_running (buried_core hdestroy)
        (by simp [hswitched])
  | blockedAgain hswitched =>
      by_cases hcurrent : t = sh.currentThread
      · subst hcurrent
        exact ⟨_, _, Function.update_self .., by simp, by simp⟩
      · exact hstarted.of_not_running ((Function.update_of_ne hcurrent _ _).trans
          (buried_core hdestroy)) fun hboth => hcurrent hboth.1

theorem Life.resumed_of_switched
    (hlife : Life sh event sh') (hswitched : sh.control = .switched) :
    ∃ tested, event = .resumed sh.currentThread sh.toBeDestroyed tested := by
  cases hlife with
  | resumed => exact ⟨_, rfl⟩
  | reacquired => exact ⟨_, rfl⟩
  | blockedAgain => exact ⟨_, rfl⟩
  | released hcontrol => simp [hswitched] at hcontrol
  | woken hcontrol => simp [hswitched] at hcontrol
  | created hcontrol => cases hswitched.symm.trans hcontrol
  | forked hcontrol => cases hswitched.symm.trans hcontrol
  | kept hcontrol => cases hswitched.symm.trans hcontrol
  | yielded hcontrol => cases hswitched.symm.trans hcontrol
  | finished hcontrol => cases hswitched.symm.trans hcontrol
  | acquired hcontrol => cases hswitched.symm.trans hcontrol
  | blocked hcontrol => cases hswitched.symm.trans hcontrol
  | idles hcontrol => cases hswitched.symm.trans hcontrol
  | found hcontrol => cases hswitched.symm.trans hcontrol
  | idled hcontrol => cases hswitched.symm.trans hcontrol

end Shape

/-! ## The registers of a program -/

namespace Threads

variable {k k' : Threads} {t : ThreadId} {space : Space}
variable {registers saved : ℕ → BitVec 32} {event : Event}

/-- The thread is not on the processor. -/
def Off (k : Threads) (t : ThreadId) : Prop :=
  k.currentThread = t → k.control = .switched

theorem off_of_switched (h : k.control = .switched) : k.Off t :=
  fun _ => h

theorem off_of_ne (h : k.currentThread ≠ t) : k.Off t :=
  fun hself => (h hself).elim

theorem not_off :
    ¬k.Off t ↔ k.currentThread = t ∧ k.control ≠ .switched := by
  simp [Off]

/-- The program of the thread has these registers: those of the machine while
the thread is on the processor, and those that it has saved otherwise. -/
def Sees (k : Threads) (t : ThreadId) (space : Space)
    (registers : ℕ → BitVec 32) : Prop :=
  ∃ saved, k.contexts t = some (some space, saved) ∧
    (k.Off t → SameRegisters saved registers) ∧
    (¬k.Off t → SameRegisters k.machine.registers registers)

/-- While the thread is on the processor, its page table is installed. -/
def Installed (k : Threads) (t : ThreadId) (space : Space) : Prop :=
  ¬k.Off t → k.machine.pageTable = some space.pageTable ∧
    k.machine.pageTableSize = space.numPages

theorem sees_self (hcontext : k.contexts t = some (some space, saved)) :
    (k.Off t → k.Sees t space saved) ∧
      (¬k.Off t → k.Sees t space k.machine.registers) := by
  constructor
  · intro hoff
    exact ⟨saved, hcontext, fun _ _ _ => rfl, fun hon => (hon hoff).elim⟩
  · intro hon
    exact ⟨saved, hcontext, fun hoff => (hon hoff).elim, fun _ _ _ => rfl⟩

theorem notDestroyed_of_life
    (hlife : k.shape.Life event k'.shape) (hdestroy : ¬event.Destroys t)
    (hswitched : k.control = .switched) : k.toBeDestroyed ≠ some t := by
  obtain ⟨tested, rfl⟩ := hlife.resumed_of_switched hswitched
  exact hdestroy

/-- A thread that has begun does not begin again at its root. -/
theorem returnsFromRun_of_started
    {th : Thread} (hth : k.threads k.currentThread = some th)
    (hswitched : k.control = .switched)
    (hstarted : k.shape.Started k.currentThread)
    (hroot : k.returnsFromRun = false → th.resume = some .root) :
    k.returnsFromRun = true := by
  by_contra hnot
  have hresume := hroot (by simpa using hnot)
  obtain ⟨status, resume, hcore, -, hbegun⟩ := hstarted
  rw [core_eq hth, Option.some.injEq, Prod.mk.injEq] at hcore
  have hbad := hbegun (.inr (hcore.2.symm.trans hresume))
  rw [show k.control = .running from hbad.2] at hswitched
  cases hswitched

/-- No step of the kernel changes the registers of a program. -/
theorem Moves.sees
    (hmoves : Moves k k') (hlife : k.shape.Life event k'.shape)
    (hdestroy : ¬event.Destroys t) (hstarted : k.shape.Started t)
    (hsees : k.Sees t space registers) : k'.Sees t space registers := by
  obtain ⟨saved, hcontext, hoff, hon⟩ := hsees
  cases hmoves with
  | @created q garbage hnone hrunning heq =>
      subst heq
      have ht : t ≠ q := by
        rintro rfl
        simp [contexts, hnone] at hcontext
      refine ⟨saved, ?_, hoff, hon⟩
      rw [newThread, contexts_setThread, Function.update_of_ne ht]
      exact hcontext
  | stays hbefore hafter hsame =>
      obtain ⟨hcontexts, hmachine, hcurrent⟩ := hsame
      have hiff : k'.Off t ↔ k.Off t := by
        unfold Off
        rw [hcurrent]
        simp [hbefore, hafter]
      refine ⟨saved, by rw [hcontexts, hcontext], ?_, ?_⟩
      · intro h
        exact hoff (hiff.mp h)
      · intro h
        rw [hmachine]
        exact hon (mt hiff.mpr h)
  | switches hbefore hafter hcontexts hmachine =>
      by_cases ht : t = k.currentThread
      · subst ht
        refine ⟨copyRegisters k.machine.registers saved, ?_, ?_, ?_⟩
        · rw [hcontexts, Function.update_self, hcontext]
          rfl
        · intro _
          exact (sameRegisters_copy _ _).trans
            (hon (not_off.mpr ⟨rfl, hbefore⟩))
        · intro h
          exact (h (off_of_switched hafter)).elim
      · refine ⟨saved, ?_, ?_, ?_⟩
        · rw [hcontexts, Function.update_of_ne ht, hcontext]
        · intro _
          exact hoff (off_of_ne (Ne.symm ht))
        · intro h
          exact (h (off_of_switched hafter)).elim
  | goesOn hswitched hafter hth hcurrent hcontexts hmachine hroot =>
      have hkept := notDestroyed_of_life hlife hdestroy hswitched
      have hsaved := hoff (off_of_switched hswitched)
      refine ⟨saved, by simp only [hcontexts, if_neg hkept, hcontext], ?_, ?_⟩
      · intro _
        exact hsaved
      · intro h
        obtain ⟨hself, -⟩ := not_off.mp h
        rw [hcurrent] at hself
        subst hself
        rw [contexts_eq hth, Option.some.injEq] at hcontext
        rw [hmachine, returnsFromRun_of_started hth hswitched hstarted hroot,
          if_pos rfl, hcontext]
        exact (sameRegisters_copy _ _).trans hsaved

theorem Moves.installed
    (hmoves : Moves k k') (hstarted : k.shape.Started t)
    (hcontext : k.contexts t = some (some space, saved))
    (hinstalled : k.Installed t space) : k'.Installed t space := by
  intro hon
  obtain ⟨hself, hnot⟩ := not_off.mp hon
  cases hmoves with
  | created hnone hrunning heq =>
      subst heq
      exact hinstalled hon
  | stays hbefore hafter hsame =>
      obtain ⟨-, hmachine, hcurrent⟩ := hsame
      rw [hmachine]
      exact hinstalled (not_off.mpr ⟨hcurrent.symm.trans hself, hbefore⟩)
  | switches hbefore hafter => exact (hnot hafter).elim
  | goesOn hswitched hafter hth hcurrent hcontexts hmachine hroot =>
      rw [hcurrent] at hself
      subst hself
      rw [contexts_eq hth, Option.some.injEq] at hcontext
      rw [hmachine, returnsFromRun_of_started hth hswitched hstarted hroot,
        if_pos rfl, hcontext]
      exact ⟨rfl, rfl⟩

theorem destroys_of_life
    (hlife : k.shape.Life event k'.shape) (hdestroy : event.Destroys t) :
    k.control = .switched ∧ k.toBeDestroyed = some t := by
  cases event with
  | resumed u destroyed tested =>
      obtain ⟨hswitched, -, hsame⟩ := resumed_of_life hlife
      exact ⟨hswitched, hsame.trans hdestroy⟩
  | _ => exact hdestroy.elim

/-- Address spaces are not made by the kernel. -/
theorem Moves.of_contexts
    (hmoves : Moves k k') (hlife : k.shape.Life event k'.shape)
    (hcontext : k'.contexts t = some (some space, saved)) :
    ¬event.Destroys t ∧ ∃ before, k.contexts t = some (some space, before) := by
  have hkept : k.control ≠ .switched → ¬event.Destroys t :=
    fun hne hdestroy => hne (destroys_of_life hlife hdestroy).1
  cases hmoves with
  | @created q garbage hnone hrunning heq =>
      subst heq
      refine ⟨hkept (by simp [hrunning]), saved, ?_⟩
      rw [newThread, contexts_setThread] at hcontext
      by_cases ht : t = q
      · subst ht
        rw [Function.update_self] at hcontext
        cases hcontext
      · rw [Function.update_of_ne ht] at hcontext
        exact hcontext
  | stays hbefore hafter hsame =>
      rw [hsame.contexts] at hcontext
      exact ⟨hkept hbefore, saved, hcontext⟩
  | switches hbefore hafter hcontexts =>
      refine ⟨hkept hbefore, ?_⟩
      rw [hcontexts] at hcontext
      by_cases ht : t = k.currentThread
      · subst ht
        rw [Function.update_self] at hcontext
        obtain ⟨⟨before, registers⟩, hfound, hsave⟩ :=
          Option.map_eq_some_iff.mp hcontext
        cases before with
        | none => cases hsave
        | some other =>
            cases hsave
            exact ⟨registers, hfound⟩
      · rw [Function.update_of_ne ht] at hcontext
        exact ⟨saved, hcontext⟩
  | goesOn hswitched hafter hth hcurrent hcontexts =>
      by_cases hdestroy : k.toBeDestroyed = some t
      · simp [hcontexts, hdestroy] at hcontext
      · simp only [hcontexts, if_neg hdestroy] at hcontext
        exact ⟨fun h => hdestroy (destroys_of_life hlife h).2, saved, hcontext⟩

end Threads

/-! ## What the events say -/

def ProgramEvent.calls (t : ThreadId) (last : Option UserState) :
    ProgramEvent → Option UserState
  | .called u machine => if u = t then some machine else last
  | _ => last

/-- The machine at the last call of `Run` that the thread has made. -/
def lastCall (t : ThreadId) (trace : List ProgramEvent) : Option UserState :=
  trace.foldl (ProgramEvent.calls t) none

theorem lastCall_append
    (t : ThreadId) (trace : List ProgramEvent) (event : ProgramEvent) :
    lastCall t (trace ++ [event]) = event.calls t (lastCall t trace) := by
  rw [lastCall, List.foldl_append]
  rfl

/-- The thread changes its registers or its address space, runs an
instruction, or finishes. -/
def ProgramEvent.Acts (t : ThreadId) : ProgramEvent → Prop
  | .wrote u => u = t
  | .attached u => u = t
  | .executed u _ => u = t
  | .instruction u _ => u = t
  | .kernel event => event = .finished t
  | .called _ _ => False
  | .returned _ _ _ => False

/-- The thread has executed a program, of which it has not run an instruction
yet. -/
def Fresh (trace : List ProgramEvent) (t : ThreadId) (space : Space) : Prop :=
  StepSystem.Since (· = .executed t space) (ProgramEvent.Acts t) trace

theorem fresh_append
    {trace : List ProgramEvent} {event : ProgramEvent} {t : ThreadId}
    {space : Space} : Fresh (trace ++ [event]) t space ↔
      event = .executed t space ∨ Fresh trace t space ∧ ¬event.Acts t :=
  StepSystem.since_append

/-- What has happened to the programs, and what their threads have. -/
structure Isolated (trace : List ProgramEvent) (k : Threads) : Prop where
  sound : k.shape.Sound
  started : ∀ {t space saved}, k.contexts t = some (some space, saved) →
    k.shape.Started t
  called : ∀ {t space saved}, k.contexts t = some (some space, saved) →
    k.Off t → ∃ machine, lastCall t trace = some machine ∧
      SameRegisters saved machine.registers
  fresh : ∀ {t space}, Fresh trace t space →
    ¬Shape.FinishingIn k.shape.core t ∧
      k.Sees t space (initialRegisters space) ∧ k.Installed t space

section Steps

variable {k k' : Threads} {trace : List ProgramEvent} {event : Event}
variable {action : Action}

theorem observe_switches
    (hbefore : k.control ≠ .switched) (hafter : k'.control = .switched) :
    k.observe k' event = .called k.currentThread k.machine :=
  if_pos ⟨hbefore, hafter⟩

theorem observe_stays
    (hbefore : k.control ≠ .switched) (hafter : k'.control ≠ .switched) :
    k.observe k' event = .kernel event := by
  simp [Threads.observe, Threads.returnsFromRun, hbefore, hafter]

theorem calls_observe {t : ThreadId} (hoff : k.Off t) (last : Option UserState) :
    (k.observe k' event).calls t last = last := by
  unfold Threads.observe
  by_cases hcalled : k.control ≠ .switched ∧ k'.control = .switched
  · have hne : k.currentThread ≠ t := fun hself => hcalled.1 (hoff hself)
    rw [if_pos hcalled]
    exact if_neg hne
  · rw [if_neg hcalled]
    by_cases hreturns : k.returnsFromRun
    · rw [if_pos hreturns]
      rfl
    · rw [if_neg hreturns]
      rfl

/-- A thread that leaves the processor calls `Run`. -/
theorem calls_observe_leaving
    {t : ThreadId} (hmoves : Threads.Moves k k') (hbefore : ¬k.Off t)
    (hafter : k'.Off t) (last : Option UserState) :
    (k.observe k' event).calls t last = some k.machine := by
  obtain ⟨hself, hcontrol⟩ := Threads.not_off.mp hbefore
  cases hmoves with
  | created hnone hrunning heq =>
      subst heq
      exact (hbefore hafter).elim
  | stays _ hkept hsame =>
      exact (hkept (hafter (hsame.currentThread.trans hself))).elim
  | switches _ hswitched =>
      rw [observe_switches hcontrol hswitched]
      exact if_pos hself
  | goesOn hswitched => exact (hcontrol hswitched).elim

theorem observe_finished
    {t : ThreadId} (hlife : k.shape.Life (.finished t) k'.shape) :
    k.observe k' (.finished t) = .kernel (.finished t) := by
  have hcontrol : k.control = .running ∧ k'.control = .sleeping true := by
    generalize hafter : k'.shape = after at hlife
    have hkept : k'.control = after.control := congrArg Shape.control hafter
    rw [hkept]
    cases hlife with
    | finished hrunning => exact ⟨hrunning, rfl⟩
  exact observe_stays (by simp [hcontrol.1]) (by simp [hcontrol.2])

/-- The kernel does not execute programs. -/
theorem fresh_before
    {t : ThreadId} {space : Space}
    (hfresh : Fresh (trace ++ [k.observe k' event]) t space) :
    Fresh trace t space ∧ ¬(k.observe k' event).Acts t := by
  cases fresh_append.mp hfresh with
  | inl hexecuted =>
      unfold Threads.observe at hexecuted
      split at hexecuted
      next => cases hexecuted
      next =>
        split at hexecuted
        next => cases hexecuted
        next => cases hexecuted
  | inr hbefore => exact hbefore

/-- A step of the kernel keeps the programs apart. -/
theorem Isolated.kernel
    (h : Isolated trace k) (hstep : Threads.step k action = .ok (k', event)) :
    Isolated (trace ++ [k.observe k' event]) k' := by
  have hmoves := Threads.step_moves hstep
  have hlife := life_of_step h.sound hstep
  have hstarted : ∀ {t space saved},
      k'.contexts t = some (some space, saved) →
        ¬event.Destroys t ∧ k.shape.Started t ∧
          ∃ before, k.contexts t = some (some space, before) := by
    intro t space saved hcontext
    obtain ⟨hkept, before, hbefore⟩ := hmoves.of_contexts hlife hcontext
    exact ⟨hkept, h.started hbefore, before, hbefore⟩
  constructor
  · exact hlife.sound h.sound
  · intro t space saved hcontext
    obtain ⟨hkept, hbegun, -⟩ := hstarted hcontext
    exact hlife.started h.sound hbegun hkept
  · intro t space saved hcontext hoff
    obtain ⟨hkept, hbegun, before, hbefore⟩ := hstarted hcontext
    obtain ⟨hsaved, hmachine⟩ := Threads.sees_self hbefore
    rw [lastCall_append]
    by_cases hwas : k.Off t
    · obtain ⟨machine, hlast, hsame⟩ := h.called hbefore hwas
      obtain ⟨after, hafter, hsees, -⟩ :=
        hmoves.sees hlife hkept hbegun (hsaved hwas)
      rw [hcontext] at hafter
      cases hafter
      refine ⟨machine, ?_, (hsees hoff).trans hsame⟩
      rw [calls_observe hwas, hlast]
    · obtain ⟨after, hafter, hsees, -⟩ :=
        hmoves.sees hlife hkept hbegun (hmachine hwas)
      rw [hcontext] at hafter
      cases hafter
      exact ⟨k.machine, calls_observe_leaving hmoves hwas hoff _, hsees hoff⟩
  · intro t space hfresh
    obtain ⟨hbefore, hacts⟩ := fresh_before hfresh
    obtain ⟨hgoing, hsees, hinstalled⟩ := h.fresh hbefore
    have hcontext := hsees
    obtain ⟨saved, hcontext, -⟩ := hcontext
    have hbegun := h.started hcontext
    have hkept : ¬event.Destroys t := by
      intro hdestroy
      obtain ⟨hswitched, hgone⟩ := Threads.destroys_of_life hlife hdestroy
      exact hgoing ((h.sound.toBeDestroyed_iff hswitched).mp hgone)
    refine ⟨?_, hmoves.sees hlife hkept hbegun hsees,
      hmoves.installed hbegun hcontext hinstalled⟩
    intro hfinishing
    cases (hlife.finishing h.sound).mp hfinishing with
    | inl hevent =>
        subst hevent
        rw [observe_finished hlife] at hacts
        exact hacts rfl
    | inr hstill => exact hgoing hstill.1

/-- What the current thread does keeps the programs of the others apart from
it. -/
theorem Isolated.acts
    {happened : ProgramEvent} (h : Isolated trace k)
    (hrunning : k.control = .running) (hshape : k'.shape = k.shape)
    (hothers : ∀ t, t ≠ k.currentThread → k'.contexts t = k.contexts t)
    (hacts : happened.Acts k.currentThread)
    (hcalls : ∀ t last, happened.calls t last = last)
    (hexecuted : ∀ t space, happened = .executed t space →
      t = k.currentThread ∧ k'.Sees t space (initialRegisters space) ∧
        k'.Installed t space) :
    Isolated (trace ++ [happened]) k' := by
  obtain ⟨-, -, before, hcurrent⟩ :=
    Threads.Sound.current_running h.sound hrunning
  have hcontrol : k'.control = k.control := congrArg Shape.control hshape
  have hsame : k'.currentThread = k.currentThread :=
    congrArg Shape.currentThread hshape
  have hoff : ∀ {t}, k'.Off t ↔ t ≠ k.currentThread := by
    intro t
    unfold Threads.Off
    rw [hcontrol, hsame, hrunning]
    simp [eq_comm]
  constructor
  · rw [hshape]
    exact h.sound
  · intro t space saved hcontext
    rw [hshape]
    by_cases ht : t = k.currentThread
    · subst ht
      exact ⟨.running, before, hcurrent, by simp, fun _ => ⟨rfl, hrunning⟩⟩
    · rw [hothers t ht] at hcontext
      exact h.started hcontext
  · intro t space saved hcontext ht
    have hne := hoff.mp ht
    rw [hothers t hne] at hcontext
    rw [lastCall_append, hcalls]
    exact h.called hcontext (Threads.off_of_ne (Ne.symm hne))
  · intro t space hfresh
    rw [hshape]
    cases fresh_append.mp hfresh with
    | inl hevent =>
        obtain ⟨rfl, hsees, hinstalled⟩ := hexecuted t space hevent
        exact ⟨Shape.not_finishingIn_of_core hcurrent
          (h.sound.not_finish hcurrent (by simp)), hsees, hinstalled⟩
    | inr hbefore =>
        obtain ⟨hbefore, hnot⟩ := hbefore
        have hne : t ≠ k.currentThread := by
          rintro rfl
          exact hnot hacts
        obtain ⟨hgoing, ⟨saved, hcontext, hsaved, -⟩, -⟩ := h.fresh hbefore
        refine ⟨hgoing, ⟨saved, (hothers t hne).trans hcontext, ?_, ?_⟩, ?_⟩
        · intro _
          exact hsaved (Threads.off_of_ne (Ne.symm hne))
        · intro hon
          exact (hon (hoff.mpr hne)).elim
        · intro hon
          exact (hon (hoff.mpr hne)).elim

theorem attach_ok {space : Space} (h : k.attach space = .ok k') :
    k'.shape = k.shape ∧ k'.machine = k.machine ∧
      (∃ saved, k'.contexts k.currentThread = some (some space, saved)) ∧
      ∀ t, t ≠ k.currentThread → k'.contexts t = k.contexts t := by
  obtain ⟨th, hth, h⟩ := ok_of_bind h
  cases h
  have hcore := Threads.core_eq (Threads.of_thread hth)
  refine ⟨?_, rfl, ⟨th.userRegisters, ?_⟩, ?_⟩
  · rw [Threads.shape_setThread]
    unfold Shape.setCore
    rw [Function.update_eq_self_iff.mpr hcore.symm]
  · rw [Threads.contexts_setThread, Function.update_self]
    rfl
  · intro t ht
    rw [Threads.contexts_setThread, Function.update_of_ne ht]

/-- What a step of the programs can be. -/
inductive ProgramMoves (k : Threads) : ProgramEvent → Threads → Prop
  | kernel {moved : Action} {event : Event} {k' : Threads} :
      Threads.step k moved = .ok (k', event) →
      ProgramMoves k (k.observe k' event) k'
  | wrote {registers : ℕ → BitVec 32} : k.control = .running →
      ProgramMoves k (.wrote k.currentThread)
        { k with machine := { k.machine with registers := registers } }
  | attached {space : Space} {k' : Threads} : k.control = .running →
      k.attach space = .ok k' → ProgramMoves k (.attached k.currentThread) k'
  | executed {space : Space} {k' : Threads} : k.control = .running →
      k.execute space = .ok k' →
      ProgramMoves k (.executed k.currentThread space) k'
  | instruction : k.control = .running → k.currentSpace.isSome →
      ProgramMoves k (.instruction k.currentThread k.machine) k

theorem programStep_moves
    {action : ProgramAction} {happened : ProgramEvent}
    (hstep : Threads.programStep k action = .ok (k', happened)) :
    ProgramMoves k happened k' := by
  unfold Threads.programStep at hstep
  split at hstep
  next control taken moved =>
    cases hmove : Threads.step k moved with
    | error fault =>
        rw [hmove] at hstep
        cases hstep
    | ok answer =>
        rw [hmove] at hstep
        cases hstep
        exact .kernel hmove
  next registers hrunning =>
    cases hstep
    exact .wrote hrunning
  next space hrunning =>
    obtain ⟨after, hattach, hstep⟩ := Threads.simulate_ok_bind hstep
    cases hstep
    exact .attached hrunning hattach
  next space hrunning =>
    obtain ⟨after, hexecute, hstep⟩ := Threads.simulate_ok_bind hstep
    cases hstep
    exact .executed hrunning hexecute
  next hrunning =>
    by_cases hspace : k.currentSpace.isSome
    · rw [if_pos hspace] at hstep
      cases hstep
      exact .instruction hrunning hspace
    · rw [if_neg hspace] at hstep
      cases hstep
  next => cases hstep

/-- Every step keeps the programs apart. -/
theorem Isolated.step
    {action : ProgramAction} {happened : ProgramEvent} (h : Isolated trace k)
    (hstep : Threads.programStep k action = .ok (k', happened)) :
    Isolated (trace ++ [happened]) k' := by
  cases programStep_moves hstep with
  | kernel hmove => exact h.kernel hmove
  | wrote hrunning =>
      exact h.acts hrunning rfl (fun _ _ => rfl) rfl (fun _ _ => rfl) nofun
  | attached hrunning hattach =>
      obtain ⟨hshape, -, -, hothers⟩ := attach_ok hattach
      exact h.acts hrunning hshape hothers rfl (fun _ _ => rfl) nofun
  | @executed space _ hrunning hexecute =>
      obtain ⟨attached, hattach, hexecute⟩ := ok_of_bind hexecute
      cases hexecute
      obtain ⟨hshape, -, ⟨saved, hcontext⟩, hothers⟩ := attach_ok hattach
      have hon : attached.currentThread = k.currentThread ∧
          attached.control ≠ .switched := by
        have hcontrol : attached.control = k.control :=
          congrArg Shape.control hshape
        exact ⟨congrArg Shape.currentThread hshape, by simp [hcontrol, hrunning]⟩
      refine h.acts hrunning hshape hothers rfl (fun _ _ => rfl) ?_
      intro t space' hevent
      cases hevent
      refine ⟨rfl, ⟨saved, hcontext, ?_, ?_⟩, ?_⟩
      · intro hoff
        exact (hon.2 (hoff hon.1)).elim
      · intro _
        exact UserState.initRegisters_registers space attached.machine
      · intro _
        exact ⟨rfl, rfl⟩
  | instruction hrunning _ =>
      exact h.acts hrunning rfl (fun _ _ => rfl) rfl (fun _ _ => rfl) nofun

end Steps

/-! ## All runs -/

section Runs

variable {garbage : ℕ → BitVec 32} {machine : UserState}
variable {initial : SemaphoreId → BitVec 32}
variable {guard : List ProgramEvent → Threads → ProgramAction → Prop}
variable {trace earlier later : List ProgramEvent} {k : Threads}
variable {t : ThreadId} {space : Space} {now : UserState}

theorem run_isolated
    (hrun : (Threads.programSystem garbage machine initial).Run guard trace k) :
    Isolated trace k := by
  refine hrun.invariant Isolated ?_ ?_
  · have hnone : ∀ t space saved,
        (Threads.start garbage machine initial).contexts t ≠
          some (some space, saved) := by
      intro t space saved hcontext
      by_cases ht : t = Threads.mainThread
      · subst ht
        simp [Threads.contexts, Threads.start, Thread.context] at hcontext
      · simp [Threads.contexts, Threads.start, ht] at hcontext
    constructor
    · exact sound_start
    · intro t space saved hcontext
      exact (hnone t space saved hcontext).elim
    · intro t space saved hcontext
      exact (hnone t space saved hcontext).elim
    · intro t space hfresh
      exact (StepSystem.not_since_nil hfresh).elim
  · intro trace k k' action event _ hisolated _ hstep
    exact hisolated.step hstep

theorem kernel_of_returned
    {k' : Threads} {action : ProgramAction} {space : Option Space}
    (hstep : Threads.programStep k action = .ok (k', .returned t space now)) :
    ∃ moved event, Threads.step k moved = .ok (k', event) ∧
      k.observe k' event = .returned t space now := by
  have hmoves := programStep_moves hstep
  generalize hhappened : ProgramEvent.returned t space now = happened at hmoves
  cases hmoves with
  | kernel hmove => exact ⟨_, _, hmove, rfl⟩
  | wrote _ => cases hhappened
  | attached _ _ => cases hhappened
  | executed _ _ => cases hhappened
  | instruction _ _ => cases hhappened

theorem observe_returned
    {k' : Threads} {event : Event} {space : Option Space}
    (h : k.observe k' event = .returned t space now) :
    k.returnsFromRun = true ∧ k.currentThread = t ∧
      k.currentSpace = space ∧ k'.machine = now := by
  unfold Threads.observe at h
  by_cases hcalled : k.control ≠ .switched ∧ k'.control = .switched
  · rw [if_pos hcalled] at h
    cases h
  · rw [if_neg hcalled] at h
    by_cases hreturns : k.returnsFromRun
    · rw [if_pos hreturns] at h
      simp only [ProgramEvent.returned.injEq] at h
      exact ⟨hreturns, h⟩
    · rw [if_neg hreturns] at h
      cases h

/-- A thread is back from `Run` with what it had when it called it. -/
theorem returned_ok
    {k' : Threads} {action : ProgramAction} (h : Isolated trace k)
    (hstep : Threads.programStep k action =
      .ok (k', .returned t (some space) now)) :
    ∃ called, lastCall t trace = some called ∧
      SameRegisters now.registers called.registers ∧
      now.pageTable = some space.pageTable ∧
      now.pageTableSize = space.numPages := by
  obtain ⟨moved, event, hmove, hobserve⟩ := kernel_of_returned hstep
  obtain ⟨hreturns, rfl, hspace, rfl⟩ := observe_returned hobserve
  have hswitched : k.control = .switched := by
    unfold Threads.returnsFromRun at hreturns
    simp only [Bool.and_eq_true, decide_eq_true_eq] at hreturns
    exact hreturns.1
  cases Threads.step_moves hmove with
  | created hnone hrunning => cases hswitched.symm.trans hrunning
  | stays hbefore => exact (hbefore hswitched).elim
  | switches hbefore => exact (hbefore hswitched).elim
  | @goesOn th _ hafter hth hcurrent hcontexts hmachine hroot =>
      have hthspace : th.space = some space := by
        unfold Threads.currentSpace at hspace
        rw [hth] at hspace
        exact hspace
      have hcontext : k.contexts k.currentThread =
          some (some space, th.userRegisters) := by
        rw [Threads.contexts_eq hth, Thread.context, hthspace]
      obtain ⟨called, hlast, hsame⟩ :=
        h.called hcontext (Threads.off_of_switched hswitched)
      rw [hmachine, hreturns, if_pos rfl, Thread.context, hthspace]
      exact ⟨called, hlast, (sameRegisters_copy _ _).trans hsame, rfl, rfl⟩

theorem observe_ne_instruction {k' : Threads} {event : Event} :
    k.observe k' event ≠ .instruction t now := by
  unfold Threads.observe
  split
  next => nofun
  next =>
    split
    next => nofun
    next => nofun

theorem instruction_ok
    {k' : Threads} {action : ProgramAction}
    (hstep : Threads.programStep k action = .ok (k', .instruction t now)) :
    ¬k.Off t ∧ k.machine = now := by
  have hmoves := programStep_moves hstep
  generalize hhappened : ProgramEvent.instruction t now = happened at hmoves
  cases hmoves with
  | kernel _ => exact (observe_ne_instruction hhappened.symm).elim
  | wrote _ => cases hhappened
  | attached _ _ => cases hhappened
  | executed _ _ => cases hhappened
  | instruction hrunning _ =>
      cases hhappened
      exact ⟨Threads.not_off.mpr ⟨rfl, by simp [hrunning]⟩, rfl⟩

/-- In every run: a thread with an address space that is back from `Run` finds
the user registers as they were when it called it, and its own page table; and
the first instruction of a program runs with the registers of `InitRegisters`
and its own page table. -/
theorem programs_isolated
    (hrun : (Threads.programSystem garbage machine initial).Reaches trace k) :
    (∀ earlier t space now later,
      trace = earlier ++ .returned t (some space) now :: later →
        ∃ called, lastCall t earlier = some called ∧
          SameRegisters now.registers called.registers ∧
          now.pageTable = some space.pageTable ∧
          now.pageTableSize = space.numPages) ∧
      ∀ earlier t space now later,
        trace = earlier ++ .instruction t now :: later →
          Fresh earlier t space →
            SameRegisters now.registers (initialRegisters space) ∧
              now.pageTable = some space.pageTable ∧
              now.pageTableSize = space.numPages := by
  constructor
  · intro earlier t space now later htrace
    rw [htrace] at hrun
    obtain ⟨before, after, action, hbefore, -, hstep, -⟩ := hrun.step_at
    exact returned_ok (run_isolated hbefore) hstep
  · intro earlier t space now later htrace hfresh
    rw [htrace] at hrun
    obtain ⟨before, after, action, hbefore, -, hstep, -⟩ := hrun.step_at
    obtain ⟨hon, rfl⟩ := instruction_ok hstep
    obtain ⟨-, ⟨saved, -, -, hregisters⟩, hinstalled⟩ :=
      (run_isolated hbefore).fresh hfresh
    exact ⟨hregisters hon, hinstalled hon⟩

def firstProgram : Space := ⟨1, 4, 496, 0, 0⟩

def secondProgram : Space := ⟨2, 8, 1008, 0, 0⟩

/-- Two programs that write all registers, and take turns. -/
def twoPrograms : List ProgramAction :=
  [.execute firstProgram, .instruction,
    .writeRegisters (fun i => BitVec.ofNat 32 (i + 7)),
    .kernel (.newThread 1 (fun _ => 0)), .kernel (.fork 1), .kernel .yield,
    .kernel .goOn, .execute secondProgram, .instruction,
    .writeRegisters (fun _ => 9), .kernel .yield, .kernel .goOn]

/-- The first program is back, with a value of its own. -/
def isBack : Option ProgramEvent → Bool
  | some (.returned t (some space) now) =>
      t = 0 && space = firstProgram && now.registers 3 = 10
  | _ => false

theorem programs_isolated_twoPrograms :
    ∃ earlier k now, (Threads.programSystem (fun _ => 0)
        ⟨fun _ => 0, none, 0⟩ fun _ => 0).Reaches
          (earlier ++ [.returned 0 (some firstProgram) now]) k ∧
      now.registers 3 = 10 ∧ now.pageTable = some 1 ∧
      ∃ called, lastCall 0 earlier = some called ∧
        SameRegisters now.registers called.registers := by
  have hreplay : (Threads.programSystem (fun _ => 0) ⟨fun _ => 0, none, 0⟩
      fun _ => 0).Replays StepSystem.anyStep twoPrograms
        (fun trace _ => isBack trace.getLast?) = true := by
    decide
  obtain ⟨trace, k, hrun, hcheck⟩ := StepSystem.exists_run_of_replays hreplay
  unfold isBack at hcheck
  split at hcheck
  next t space now hlast =>
    simp only [Bool.and_eq_true, decide_eq_true_eq] at hcheck
    obtain ⟨⟨rfl, rfl⟩, hvalue⟩ := hcheck
    obtain ⟨earlier, rfl⟩ := List.getLast?_eq_some_iff.mp hlast
    obtain ⟨hreturned, -⟩ := programs_isolated hrun
    obtain ⟨called, hcall, hsame, htable, -⟩ :=
      hreturned earlier 0 firstProgram now [] rfl
    exact ⟨earlier, k, now, hrun, hvalue, htable, called, hcall, hsame⟩
  next => cases hcheck

end Runs

end Nachos.Scheduling
