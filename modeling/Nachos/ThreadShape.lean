import Nachos.Library.Placement
import Nachos.Scheduling

/-!
# Where the threads are

A thread that is not running is on the ready list or in the queue of a
semaphore, as its status and its stack say.  This file reduces the state of
the kernel threads to what matters for that, and says what every operation
does to it; none of them runs into an assertion.
-/

namespace Nachos.Scheduling

open Library

/-- The status of a thread, and where it goes on. -/
abbrev Core := ThreadStatus × Option Resume

/-- What the life of the threads depends on: everything but registers and
address spaces. -/
structure Shape where
  core : ThreadId → Option Core
  currentThread : ThreadId
  readyList : List ThreadId
  toBeDestroyed : Option ThreadId
  semaphores : SemaphoreId → Semaphore
  level : IntStatus
  control : Control

def Thread.core (th : Thread) : Core :=
  (th.status, th.resume)

def Threads.shape (k : Threads) : Shape where
  core t := (k.threads t).map Thread.core
  currentThread := k.currentThread
  readyList := k.readyList
  toBeDestroyed := k.toBeDestroyed
  semaphores := k.semaphores
  level := k.level
  control := k.control

namespace Shape

def setCore (sh : Shape) (t : ThreadId) (core : Core) : Shape :=
  { sh with core := Function.update sh.core t (some core) }

def setSemaphore (sh : Shape) (s : SemaphoreId) (sem : Semaphore) : Shape :=
  { sh with semaphores := Function.update sh.semaphores s sem }

/-- The next thread is taken from the ready list, and the processor is
switched to it. -/
def switchTo (sh : Shape) (next : ThreadId) (resume : Option Resume)
    (rest : List ThreadId) (destroy : Option ThreadId) : Shape :=
  { sh.setCore next (.running, resume) with
    readyList := rest, currentThread := next, toBeDestroyed := destroy,
    control := .switched }

/-- The thread that has finished is gone. -/
def buried (sh : Shape) : Shape :=
  match sh.toBeDestroyed with
  | none => sh
  | some t => { sh with
      core := Function.update sh.core t none, toBeDestroyed := none }

variable {sh : Shape}

theorem buried_of_none (h : sh.toBeDestroyed = none) : sh.buried = sh := by
  rw [buried, h]

theorem buried_of_some {t : ThreadId} (h : sh.toBeDestroyed = some t) :
    sh.buried = { sh with
      core := Function.update sh.core t none, toBeDestroyed := none } := by
  rw [buried, h]

/-- Nothing else changes when a thread is destroyed. -/
theorem buried_eq (sh : Shape) :
    sh.buried = { sh with core := sh.buried.core, toBeDestroyed := none } := by
  cases h : sh.toBeDestroyed with
  | none =>
      rw [buried_of_none h, ← h]
  | some t => rw [buried_of_some h]

theorem buried_core {q : ThreadId} (hq : sh.toBeDestroyed ≠ some q) :
    sh.buried.core q = sh.core q := by
  cases h : sh.toBeDestroyed with
  | none => rw [buried_of_none h]
  | some t =>
      rw [buried_of_some h]
      apply Function.update_of_ne
      rintro rfl
      exact hq h

end Shape

/-! ## What the functions do -/

namespace Threads

variable {k : Threads} {t : ThreadId}

theorem shape_setThread (k : Threads) (t : ThreadId) (th : Thread) :
    (k.setThread t th).shape = k.shape.setCore t th.core := by
  unfold shape setThread Shape.setCore
  congr 1
  funext q
  by_cases hq : q = t
  · subst hq
    simp
  · simp [hq]

theorem thread_eq {th : Thread} (h : k.threads t = some th) :
    k.thread t = .ok th := by
  rw [thread, h]

theorem exists_thread {core : Core} (h : k.shape.core t = some core) :
    ∃ th, k.threads t = some th ∧ th.core = core :=
  Option.map_eq_some_iff.mp h

theorem append_eq {list : List ThreadId} (h : t ∉ list) :
    append list t = .ok (list ++ [t]) := by
  rw [append, assert_of_true h]
  rfl

theorem readyToRun_spec
    {status : ThreadStatus} {resume : Option Resume}
    (hlevel : k.level = .intOff)
    (hcore : k.shape.core t = some (status, resume))
    (hout : t ∉ k.readyList) :
    ∃ k', k.readyToRun t = .ok k' ∧ k'.shape =
      { k.shape.setCore t (.ready, resume) with
        readyList := k.readyList ++ [t] } := by
  obtain ⟨th, hth, hthcore⟩ := exists_thread hcore
  cases hthcore
  rw [readyToRun, assert_of_true hlevel, ok_bind, thread_eq hth, ok_bind]
  simp only
  rw [show (k.setThread t { th with status := .ready }).readyList =
    k.readyList from rfl, append_eq hout]
  refine ⟨_, rfl, ?_⟩
  have hshape := shape_setThread k t { th with status := .ready }
  exact congrArg (fun sh : Shape => { sh with
    readyList := k.readyList ++ [t] }) hshape

theorem findNextToRun_nil
    (hlevel : k.level = .intOff) (hready : k.readyList = []) :
    k.findNextToRun = .ok (none, k) := by
  rw [findNextToRun, assert_of_true hlevel, ok_bind, hready]
  rfl

theorem findNextToRun_cons
    {rest : List ThreadId} (hlevel : k.level = .intOff)
    (hready : k.readyList = t :: rest) :
    k.findNextToRun = .ok (some t, { k with readyList := rest }) := by
  rw [findNextToRun, assert_of_true hlevel, ok_bind, hready]
  rfl

theorem leaveAt_spec
    {status : ThreadStatus} {before : Option Resume} (resume : Resume)
    (hcore : k.shape.core k.currentThread = some (status, before)) :
    ∃ k', k.leaveAt resume = .ok k' ∧ k'.shape =
      k.shape.setCore k.currentThread (status, some resume) := by
  obtain ⟨th, hth, hthcore⟩ := exists_thread hcore
  cases hthcore
  rw [leaveAt, thread_eq hth, ok_bind]
  exact ⟨_, rfl, shape_setThread k _ _⟩

theorem sleep_spec
    {status : ThreadStatus} {resume : Option Resume} (finishing : Bool)
    (hlevel : k.level = .intOff)
    (hcore : k.shape.core k.currentThread = some (status, resume)) :
    ∃ k', k.sleep finishing = .ok k' ∧ k'.shape =
      { k.shape.setCore k.currentThread (.blocked, resume) with
        control := .sleeping finishing } := by
  obtain ⟨th, hth, hthcore⟩ := exists_thread hcore
  cases hthcore
  rw [sleep, assert_of_true hlevel, ok_bind, thread_eq hth, ok_bind]
  refine ⟨_, rfl, ?_⟩
  have hshape := shape_setThread k k.currentThread
    { th with status := .blocked }
  exact congrArg (fun sh : Shape => { sh with
    control := .sleeping finishing }) hshape

theorem shape_saveUserState
    {th : Thread} (hth : k.threads t = some th) :
    (k.saveUserState t th).shape = k.shape := by
  have hcore : k.shape.core t = some th.core :=
    Option.map_eq_some_iff.mpr ⟨th, hth, rfl⟩
  rw [saveUserState, shape_setThread]
  unfold Shape.setCore
  rw [Function.update_eq_self_iff.mpr hcore.symm]

theorem markFinished_spec
    {finishing : Bool} (hdestroy : finishing = true → k.toBeDestroyed = none) :
    ∃ k', k.markFinished finishing = .ok k' ∧ k'.shape = { k.shape with
      toBeDestroyed := (if finishing then some k.currentThread
        else k.toBeDestroyed) } := by
  cases finishing with
  | false => exact ⟨k, rfl, rfl⟩
  | true =>
      simp only [markFinished, assert_of_true (hdestroy rfl)]
      exact ⟨_, rfl, rfl⟩

theorem saveOldThread_spec
    {core : Core} (hcore : k.shape.core k.currentThread = some core) :
    ∃ k', k.saveOldThread = .ok k' ∧ k'.shape = k.shape := by
  obtain ⟨old, hold, -⟩ := exists_thread hcore
  rw [saveOldThread, thread_eq hold, ok_bind]
  cases old.space with
  | none => exact ⟨k, rfl, rfl⟩
  | some space => exact ⟨_, rfl, shape_saveUserState hold⟩

theorem run_spec
    {next : ThreadId} (finishing : Bool) {core : Core}
    {status : ThreadStatus} {resume : Option Resume}
    (hlevel : k.level = .intOff)
    (hdestroy : finishing = true → k.toBeDestroyed = none)
    (hold : k.shape.core k.currentThread = some core)
    (hnext : k.shape.core next = some (status, resume)) :
    ∃ k', k.run next finishing = .ok k' ∧ k'.shape =
      k.shape.switchTo next resume k.readyList
        (if finishing then some k.currentThread else k.toBeDestroyed) := by
  obtain ⟨marked, hmarked, hmarkedShape⟩ := markFinished_spec hdestroy
  have hold' : marked.shape.core marked.currentThread = some core := by
    have hcurrent : marked.currentThread = k.currentThread :=
      congrArg Shape.currentThread hmarkedShape
    rw [hcurrent, hmarkedShape]
    exact hold
  obtain ⟨saved, hsaved, hsavedShape⟩ := saveOldThread_spec hold'
  have hnext' : saved.shape.core next = some (status, resume) := by
    rw [hsavedShape, hmarkedShape]
    exact hnext
  obtain ⟨th, hth, hthcore⟩ := exists_thread hnext'
  cases hthcore
  have hfound : ({ saved with currentThread := next } : Threads).thread next =
      .ok th := thread_eq hth
  rw [run, assert_of_true hlevel, ok_bind, hmarked, ok_bind, hsaved, ok_bind]
  simp only [hfound, ok_bind]
  refine ⟨_, rfl, ?_⟩
  have hset := shape_setThread saved next { th with status := .running }
  rw [hsavedShape, hmarkedShape] at hset
  exact congrArg (fun sh : Shape => { sh with
    currentThread := next, control := .switched }) hset

theorem checkToBeDestroyed_spec
    (hdestroy : ∀ t, k.toBeDestroyed = some t →
      t ≠ k.currentThread ∧ ∃ core, k.shape.core t = some core) :
    ∃ k', k.checkToBeDestroyed = .ok k' ∧ k'.shape = k.shape.buried := by
  unfold checkToBeDestroyed Shape.buried
  cases hnone : k.toBeDestroyed with
  | none =>
      refine ⟨k, rfl, ?_⟩
      rw [show k.shape.toBeDestroyed = none from hnone]
  | some t =>
      obtain ⟨hne, core, hcore⟩ := hdestroy t hnone
      obtain ⟨th, hth, -⟩ := exists_thread hcore
      simp only [thread_eq hth, ok_bind, assert_of_true hne]
      refine ⟨_, rfl, ?_⟩
      rw [show k.shape.toBeDestroyed = some t from hnone]
      unfold shape
      simp only
      congr 1
      funext q
      by_cases hq : q = t
      · subst hq
        simp
      · simp [hq]

theorem returnFromRun_spec
    {core : Core} (hlevel : k.level = .intOff)
    (hold : k.shape.core k.currentThread = some core)
    (hdestroy : ∀ t, k.toBeDestroyed = some t →
      t ≠ k.currentThread ∧ ∃ core, k.shape.core t = some core) :
    ∃ k', k.returnFromRun = .ok k' ∧ k'.shape = k.shape.buried := by
  obtain ⟨after, hafter, hshape⟩ := checkToBeDestroyed_spec hdestroy
  have hcurrent : after.currentThread = k.currentThread := by
    have hbefore : after.shape.currentThread = k.shape.buried.currentThread :=
      congrArg Shape.currentThread hshape
    rw [Shape.buried_eq] at hbefore
    exact hbefore
  have hold' : after.shape.core after.currentThread = some core := by
    rw [hcurrent, hshape, Shape.buried_core]
    · exact hold
    · intro hself
      exact (hdestroy _ hself).1 rfl
  obtain ⟨th, hth, -⟩ := exists_thread hold'
  rw [returnFromRun, assert_of_true hlevel, ok_bind, hafter, ok_bind,
    thread_eq hth, ok_bind]
  cases th.space with
  | none => exact ⟨after, rfl, hshape⟩
  | some space => exact ⟨_, rfl, hshape⟩

end Threads

/-! ## The life of the threads -/

def Resume.oldLevel : Resume → IntStatus
  | .yield oldLevel => oldLevel
  | .semaphoreP _ oldLevel => oldLevel
  | .root => .intOn
  | .finish => .intOn

/-- The list that a thread has to be in: the ready list, or the queue of a
semaphore. -/
def Core.place : Core → Option (Option SemaphoreId)
  | (.ready, _) => some none
  | (.blocked, some (.semaphoreP s _)) => some (some s)
  | _ => none

namespace Shape

def place (sh : Shape) (t : ThreadId) : Option (Option SemaphoreId) :=
  (sh.core t).bind Core.place

def lists (sh : Shape) : Option SemaphoreId → List ThreadId
  | none => sh.readyList
  | some s => (sh.semaphores s).queue

/-- What the status of a thread says of its stack. -/
structure Kept (status : ThreadStatus) (resume : Option Resume) : Prop where
  ready : status = .ready → ∃ r, resume = some r ∧ r ≠ .finish
  blocked : status = .blocked →
    resume = some .finish ∨ ∃ s level, resume = some (.semaphoreP s level)
  finish : resume = some .finish → status = .blocked
  oldLevel : ∀ r, resume = some r → r.oldLevel = .intOn

/-- The current thread, by where the processor is. -/
def Controlled (sh : Shape) : Prop :=
  match sh.control with
  | .running => sh.level = .intOn ∧ sh.toBeDestroyed = none ∧
      ∃ resume, sh.core sh.currentThread = some (.running, resume)
  | .sleeping false | .idling false =>
      sh.level = .intOff ∧ sh.toBeDestroyed = none ∧
        ∃ status r, sh.core sh.currentThread = some (status, some r) ∧
          r ≠ .finish ∧ (status = .ready ∨ status = .blocked)
  | .sleeping true | .idling true =>
      sh.level = .intOff ∧ sh.toBeDestroyed = none ∧
        sh.core sh.currentThread = some (.blocked, some .finish)
  | .switched => sh.level = .intOff ∧
      (∃ r, sh.core sh.currentThread = some (.running, some r) ∧
        r ≠ .finish) ∧
      ∀ t, sh.toBeDestroyed = some t → t ≠ sh.currentThread ∧
        sh.core t = some (.blocked, some .finish)

/-- The invariant of the life of the threads. -/
structure Sound (sh : Shape) : Prop where
  placed : Placed sh.place sh.lists
  kept : ∀ {t status resume}, sh.core t = some (status, resume) →
    Kept status resume
  running : ∀ {t resume}, sh.core t = some (.running, resume) →
    t = sh.currentThread
  finishing : ∀ {t status}, sh.core t = some (status, some .finish) →
    t = sh.currentThread ∨ sh.toBeDestroyed = some t
  controlled : sh.Controlled

/-- What a step does. -/
inductive Life (sh : Shape) : Event → Shape → Prop
  | created {t : ThreadId} : sh.control = .running → sh.core t = none →
      Life sh (.created t) (sh.setCore t (.justCreated, none))
  | forked {t : ThreadId} {resume : Option Resume} :
      sh.control = .running → sh.core t = some (.justCreated, resume) →
      Life sh (.forked t) { sh.setCore t (.ready, some .root) with
        readyList := sh.readyList ++ [t] }
  | kept : sh.control = .running → sh.readyList = [] →
      Life sh (.yielded sh.currentThread) sh
  | yielded {next : ThreadId} {resume : Option Resume}
      {rest : List ThreadId} :
      sh.control = .running → sh.readyList = next :: rest →
      sh.core next = some (.ready, resume) →
      Life sh (.yielded sh.currentThread)
        { (sh.setCore sh.currentThread
            (.ready, some (.yield .intOn))).switchTo next resume
            (rest ++ [sh.currentThread]) none with level := .intOff }
  | finished : sh.control = .running →
      Life sh (.finished sh.currentThread)
        { sh.setCore sh.currentThread (.blocked, some .finish) with
          level := .intOff, control := .sleeping true }
  | acquired {s : SemaphoreId} :
      sh.control = .running → (sh.semaphores s).value ≠ 0 →
      Life sh (.acquired s sh.currentThread) (sh.setSemaphore s
        { sh.semaphores s with value := (sh.semaphores s).value - 1 })
  | blocked {s : SemaphoreId} :
      sh.control = .running → (sh.semaphores s).value = 0 →
      Life sh (.blocked s sh.currentThread)
        { (sh.setSemaphore s { sh.semaphores s with
            queue := (sh.semaphores s).queue ++ [sh.currentThread] }).setCore
            sh.currentThread (.blocked, some (.semaphoreP s .intOn)) with
          level := .intOff, control := .sleeping false }
  | released {s : SemaphoreId} :
      sh.control = .running ∨ (∃ f, sh.control = .idling f) →
      (sh.semaphores s).queue = [] →
      Life sh (.released s none) (sh.setSemaphore s
        { sh.semaphores s with value := (sh.semaphores s).value + 1 })
  | woken {s : SemaphoreId} {t : ThreadId} {rest : List ThreadId}
      {resume : Option Resume} :
      sh.control = .running ∨ (∃ f, sh.control = .idling f) →
      (sh.semaphores s).queue = t :: rest →
      sh.core t = some (.blocked, resume) →
      Life sh (.released s (some t))
        { (sh.setSemaphore s ⟨(sh.semaphores s).value + 1, rest⟩).setCore t
            (.ready, resume) with readyList := sh.readyList ++ [t] }
  | idles {f : Bool} : sh.control = .sleeping f → sh.readyList = [] →
      Life sh .searched { sh with control := .idling f }
  | found {f : Bool} {next : ThreadId} {resume : Option Resume}
      {rest : List ThreadId} :
      sh.control = .sleeping f → sh.readyList = next :: rest →
      sh.core next = some (.ready, resume) →
      Life sh .searched (sh.switchTo next resume rest
        (if f then some sh.currentThread else none))
  | idled {f : Bool} : sh.control = .idling f →
      Life sh .idled { sh with control := .sleeping f }
  | resumed {resume : Resume} : sh.control = .switched →
      sh.core sh.currentThread = some (.running, some resume) →
      (∀ s level, resume ≠ .semaphoreP s level) →
      Life sh (.resumed sh.currentThread sh.toBeDestroyed none)
        { sh.buried with level := .intOn, control := .running }
  | reacquired {s : SemaphoreId} {level : IntStatus} :
      sh.control = .switched →
      sh.core sh.currentThread =
        some (.running, some (.semaphoreP s level)) →
      (sh.semaphores s).value ≠ 0 →
      Life sh (.resumed sh.currentThread sh.toBeDestroyed (some (s, true)))
        { sh.buried.setSemaphore s { sh.semaphores s with
            value := (sh.semaphores s).value - 1 } with
          level := .intOn, control := .running }
  | blockedAgain {s : SemaphoreId} {level : IntStatus} :
      sh.control = .switched →
      sh.core sh.currentThread =
        some (.running, some (.semaphoreP s level)) →
      (sh.semaphores s).value = 0 →
      Life sh (.resumed sh.currentThread sh.toBeDestroyed (some (s, false)))
        { (sh.buried.setSemaphore s { sh.semaphores s with
            queue := (sh.semaphores s).queue ++ [sh.currentThread] }).setCore
            sh.currentThread (.blocked, some (.semaphoreP s .intOn)) with
          control := .sleeping false }

variable {sh : Shape} {t : ThreadId}

theorem place_eq_ready : sh.place t = some none ↔
    ∃ resume, sh.core t = some (.ready, resume) := by
  unfold place
  cases hcore : sh.core t with
  | none => simp
  | some core =>
      obtain ⟨status, resume⟩ := core
      simp only [Option.bind_some, Option.some.injEq, Prod.mk.injEq]
      unfold Core.place
      split <;> simp_all

theorem place_eq_queue {s : SemaphoreId} : sh.place t = some (some s) ↔
    ∃ level, sh.core t = some (.blocked, some (.semaphoreP s level)) := by
  unfold place
  cases hcore : sh.core t with
  | none => simp
  | some core =>
      obtain ⟨status, resume⟩ := core
      simp only [Option.bind_some, Option.some.injEq, Prod.mk.injEq]
      unfold Core.place
      split <;> simp_all

theorem Sound.mem_ready (h : sh.Sound) :
    t ∈ sh.readyList ↔ ∃ resume, sh.core t = some (.ready, resume) :=
  (h.placed.mem_iff none t).trans place_eq_ready

theorem Sound.mem_queue (h : sh.Sound) {s : SemaphoreId} :
    t ∈ (sh.semaphores s).queue ↔
      ∃ level, sh.core t = some (.blocked, some (.semaphoreP s level)) :=
  (h.placed.mem_iff (some s) t).trans place_eq_queue

theorem Sound.core_next
    (h : sh.Sound) {rest : List ThreadId} (hready : sh.readyList = t :: rest) :
    ∃ resume, sh.core t = some (.ready, resume) := by
  rw [← h.mem_ready, hready]
  exact List.mem_cons_self

theorem Sound.core_queued
    (h : sh.Sound) {s : SemaphoreId} {rest : List ThreadId}
    (hqueue : (sh.semaphores s).queue = t :: rest) :
    ∃ level, sh.core t = some (.blocked, some (.semaphoreP s level)) := by
  rw [← h.mem_queue, hqueue]
  exact List.mem_cons_self

end Shape

/-! ## The functions take these steps -/

namespace Threads

open Shape

variable {k : Threads}

/-- An action that is possible has an outcome that the life of the threads
allows. -/
def Lives (k : Threads) (action : Action) : Prop :=
  ∃ k' event, step k action = .ok (k', event) ∧
    Life k.shape event k'.shape

theorem lives_newThread
    (hrunning : k.control = .running) {t : ThreadId}
    (hfree : (k.threads t).isNone) (garbage : ℕ → BitVec 32) :
    k.Lives (.newThread t garbage) := by
  have hnone : k.shape.core t = none := by
    simpa [shape] using hfree
  refine ⟨k.newThread t garbage, .created t, ?_, ?_⟩
  · unfold step
    simp only [hrunning, if_pos hfree]
  · rw [newThread, shape_setThread]
    exact .created hrunning hnone

theorem core_eq {th : Thread} {t : ThreadId} (hth : k.threads t = some th) :
    k.shape.core t = some (th.status, th.resume) :=
  Option.map_eq_some_iff.mpr ⟨th, hth, rfl⟩

theorem setCore_setCore (sh : Shape) (t : ThreadId) (core core' : Core) :
    (sh.setCore t core).setCore t core' = sh.setCore t core' := by
  simp only [setCore, Function.update_idem]

theorem lives_fork
    (hsound : k.shape.Sound) (hrunning : k.control = .running)
    {t : ThreadId}
    (hnew : (k.threads t).any (fun th => th.status = .justCreated)) :
    k.Lives (.fork t) := by
  obtain ⟨th, hth, hstatus⟩ := (Option.any_eq_true _ _).mp hnew
  have hcreated : th.status = .justCreated := by simpa using hstatus
  have hcore : k.shape.core t = some (.justCreated, th.resume) := by
    rw [core_eq hth, hcreated]
  have hout : t ∉ k.readyList := by
    intro hmem
    obtain ⟨resume, hready⟩ := hsound.mem_ready.mp hmem
    rw [hcore] at hready
    cases hready
  have hstack := shape_setThread k t { th with resume := some .root }
  have hcore' : (k.setThread t { th with resume := some .root }).shape.core t =
      some (.justCreated, some .root) := by
    rw [hstack, setCore]
    simp [Thread.core, hcreated]
  obtain ⟨k', hready, hshape⟩ := readyToRun_spec
    (k := { k.setThread t { th with resume := some .root } with
      level := .intOff }) rfl hcore' hout
  have hfork : k.fork t = .ok { k' with level := k.level } := by
    rw [fork, thread_eq hth, ok_bind]
    simp only
    rw [hready]
    rfl
  refine ⟨{ k' with level := k.level }, .forked t, ?_, ?_⟩
  · unfold step
    simp only [hrunning, if_pos hnew, hfork]
    rfl
  · have hafter := congrArg (fun sh : Shape => { sh with level := k.level })
      hshape
    have hall : ({ k' with level := k.level } : Threads).shape =
        { k.shape.setCore t (.ready, some .root) with
          readyList := k.readyList ++ [t] } := by
      refine hafter.trans ?_
      have hbefore := congrArg (fun sh : Shape =>
        sh.setCore t (.ready, some .root)) hstack
      simp only [setCore_setCore] at hbefore
      exact congrArg (fun sh : Shape => { sh with
        readyList := k.readyList ++ [t] }) hbefore
    rw [hall]
    exact .forked hrunning hcore

theorem Sound.current_running
    (hsound : k.shape.Sound) (hrunning : k.control = .running) :
    k.level = .intOn ∧ k.toBeDestroyed = none ∧
      ∃ resume, k.shape.core k.currentThread = some (.running, resume) := by
  have hcontrolled := hsound.controlled
  unfold Controlled at hcontrolled
  rw [show k.shape.control = .running from hrunning] at hcontrolled
  exact hcontrolled

theorem lives_yield
    (hsound : k.shape.Sound) (hrunning : k.control = .running) :
    k.Lives .yield := by
  obtain ⟨hlevel, hdestroyed, before, hcurrent⟩ :=
    Sound.current_running hsound hrunning
  cases hready : k.readyList with
  | nil =>
      have hyield : k.yield = .ok k := by
        rw [yield, findNextToRun_nil (k := { k with level := .intOff }) rfl
          hready]
        rfl
      refine ⟨k, _, ?_, .kept hrunning hready⟩
      unfold step
      simp only [hrunning, hyield]
      rfl
  | cons next rest =>
      obtain ⟨resume, hnext⟩ := hsound.core_next hready
      have hne : next ≠ k.currentThread := by
        rintro rfl
        rw [hcurrent] at hnext
        cases hnext
      have hout : k.currentThread ∉ rest := by
        intro hmem
        have hlisted : k.currentThread ∈ k.shape.readyList := by
          rw [show k.shape.readyList = next :: rest from hready]
          exact List.mem_cons_of_mem next hmem
        obtain ⟨other, hother⟩ := hsound.mem_ready.mp hlisted
        rw [hcurrent] at hother
        cases hother
      obtain ⟨k₁, hleave, hshape₁⟩ := leaveAt_spec
        (k := { k with level := .intOff, readyList := rest })
        (.yield k.level) hcurrent
      have hcurrent₁ : k₁.currentThread = k.currentThread :=
        congrArg Shape.currentThread hshape₁
      have hlist₁ : k₁.readyList = rest := congrArg Shape.readyList hshape₁
      have hcore₁ : k₁.shape.core k.currentThread =
          some (.running, some (.yield k.level)) := by
        rw [hshape₁]
        exact Function.update_self ..
      obtain ⟨k₂, hput, hshape₂⟩ := readyToRun_spec
        (congrArg Shape.level hshape₁) hcore₁ (by rw [hlist₁]; exact hout)
      have hcurrent₂ : k₂.currentThread = k.currentThread :=
        (congrArg Shape.currentThread hshape₂).trans hcurrent₁
      have hlist₂ : k₂.readyList = rest ++ [k.currentThread] := by
        rw [← hlist₁]
        exact congrArg Shape.readyList hshape₂
      have hdestroyed₂ : k₂.toBeDestroyed = none := by
        rw [← hdestroyed]
        exact (congrArg Shape.toBeDestroyed hshape₂).trans
          (congrArg Shape.toBeDestroyed hshape₁)
      rw [hshape₁, setCore_setCore] at hshape₂
      have hcore₂ : k₂.shape.core k.currentThread =
          some (.ready, some (.yield k.level)) := by
        rw [hshape₂]
        exact Function.update_self ..
      have hnext₂ : k₂.shape.core next = some (.ready, resume) := by
        rw [hshape₂]
        exact (Function.update_of_ne hne _ _).trans hnext
      obtain ⟨k₃, hrun, hshape₃⟩ := run_spec false
        (congrArg Shape.level hshape₂) nofun
        (by rw [hcurrent₂]; exact hcore₂) hnext₂
      have hyield : k.yield = .ok k₃ := by
        rw [yield, findNextToRun_cons (k := { k with level := .intOff }) rfl
          hready, ok_bind]
        simp only [hleave, ok_bind, hcurrent₁, hput, hrun]
      refine ⟨k₃, .yielded k.currentThread, ?_, ?_⟩
      · unfold step
        simp only [hrunning, hyield]
        rfl
      · rw [hshape₃, hlist₂, hshape₂, hlist₁]
        simp only [Bool.false_eq_true, if_false, hdestroyed₂]
        have hlife : Life k.shape _ _ := .yielded hrunning hready hnext
        rw [hlevel]
        exact hlife

theorem lives_finish
    (hsound : k.shape.Sound) (hrunning : k.control = .running) :
    k.Lives .finish := by
  obtain ⟨-, -, before, hcurrent⟩ := Sound.current_running hsound hrunning
  obtain ⟨k₁, hleave, hshape₁⟩ := leaveAt_spec
    (k := { k with level := .intOff }) .finish hcurrent
  have hcurrent₁ : k₁.currentThread = k.currentThread :=
    congrArg Shape.currentThread hshape₁
  have hcore₁ : k₁.shape.core k₁.currentThread =
      some (.running, some .finish) := by
    rw [hcurrent₁, hshape₁]
    exact Function.update_self ..
  obtain ⟨k₂, hsleep, hshape₂⟩ := sleep_spec true
    (congrArg Shape.level hshape₁) hcore₁
  have hfinish : k.finish = .ok k₂ := by
    simp only [finish, hleave, ok_bind, hsleep]
  refine ⟨k₂, .finished k.currentThread, ?_, ?_⟩
  · unfold step
    simp only [hrunning, hfinish]
    rfl
  · rw [hcurrent₁, hshape₁, setCore_setCore] at hshape₂
    rw [hshape₂]
    exact .finished hrunning

/-! ## Semaphores -/

theorem testValue_passes
    {s : SemaphoreId} (oldLevel : IntStatus)
    (hvalue : (k.semaphores s).value ≠ 0) :
    ∃ k', k.testValue s oldLevel = .ok k' ∧ k'.shape =
      { k.shape.setSemaphore s { k.semaphores s with
          value := (k.semaphores s).value - 1 } with
        level := oldLevel, control := .running } := by
  simp only [testValue, if_neg hvalue]
  exact ⟨_, rfl, rfl⟩

theorem testValue_blocks
    {s : SemaphoreId} (oldLevel : IntStatus) {status : ThreadStatus}
    {before : Option Resume} (hlevel : k.level = .intOff)
    (hvalue : (k.semaphores s).value = 0)
    (hcurrent : k.shape.core k.currentThread = some (status, before))
    (hout : k.currentThread ∉ (k.semaphores s).queue) :
    ∃ k', k.testValue s oldLevel = .ok k' ∧ k'.shape =
      { (k.shape.setSemaphore s { k.semaphores s with
          queue := (k.semaphores s).queue ++ [k.currentThread] }).setCore
          k.currentThread (.blocked, some (.semaphoreP s oldLevel)) with
        control := .sleeping false } := by
  obtain ⟨k₁, hleave, hshape₁⟩ := leaveAt_spec
    (k := k.setSemaphore s { k.semaphores s with
      queue := (k.semaphores s).queue ++ [k.currentThread] })
    (.semaphoreP s oldLevel) hcurrent
  have hcurrent₁ : k₁.currentThread = k.currentThread :=
    congrArg Shape.currentThread hshape₁
  have hcore₁ : k₁.shape.core k₁.currentThread =
      some (status, some (.semaphoreP s oldLevel)) := by
    rw [hcurrent₁, hshape₁]
    exact Function.update_self ..
  have hlevel₁ : k₁.level = .intOff :=
    (congrArg Shape.level hshape₁).trans hlevel
  obtain ⟨k₂, hsleep, hshape₂⟩ := sleep_spec false hlevel₁ hcore₁
  refine ⟨k₂, ?_, ?_⟩
  · simp only [testValue, if_pos hvalue, append_eq hout, ok_bind, hleave,
      hsleep]
  · rw [hcurrent₁, hshape₁] at hshape₂
    rw [hshape₂]
    have hset := setCore_setCore (k.shape.setSemaphore s { k.semaphores s with
      queue := (k.semaphores s).queue ++ [k.currentThread] }) k.currentThread
      (status, some (.semaphoreP s oldLevel))
      (.blocked, some (.semaphoreP s oldLevel))
    exact congrArg (fun sh : Shape => { sh with
      control := .sleeping false }) hset

theorem semaphoreV_empty
    {s : SemaphoreId} (hqueue : (k.semaphores s).queue = []) :
    ∃ k', k.semaphoreV s = .ok (none, k') ∧ k'.shape =
      k.shape.setSemaphore s { k.semaphores s with
        value := (k.semaphores s).value + 1 } := by
  simp only [semaphoreV, hqueue]
  exact ⟨_, rfl, rfl⟩

theorem semaphoreV_wakes
    {s : SemaphoreId} {t : ThreadId} {rest : List ThreadId}
    {status : ThreadStatus} {resume : Option Resume}
    (hqueue : (k.semaphores s).queue = t :: rest)
    (hcore : k.shape.core t = some (status, resume))
    (hout : t ∉ k.readyList) :
    ∃ k', k.semaphoreV s = .ok (some t, k') ∧ k'.shape =
      { (k.shape.setSemaphore s
          ⟨(k.semaphores s).value + 1, rest⟩).setCore t (.ready, resume) with
        readyList := k.readyList ++ [t] } := by
  obtain ⟨k₁, hput, hshape₁⟩ := readyToRun_spec
    (k := { k with level := .intOff }.setSemaphore s
      { k.semaphores s with queue := rest }) rfl hcore hout
  have hset := congrArg (fun sh : Shape => { sh.setSemaphore s
    ⟨(k.semaphores s).value + 1, rest⟩ with level := k.level }) hshape₁
  simp only [semaphoreV, hqueue, hput, ok_bind]
  refine ⟨_, rfl, hset.trans ?_⟩
  simp only [setSemaphore, Shape.setSemaphore, setCore, shape,
    Function.update_idem]

/-- What `Semaphore::V` does, from wherever it is called, up to the interrupt
level. -/
theorem semaphoreV_lives
    (hsound : k.shape.Sound)
    (hcontrol : k.control = .running ∨ ∃ f, k.control = .idling f)
    (s : SemaphoreId) (level : IntStatus) :
    ∃ woken k', { k with level := level }.semaphoreV s = .ok (woken, k') ∧
      Life k.shape (.released s woken) { k'.shape with level := k.level } ∧
      k'.level = level := by
  cases hqueue : (k.semaphores s).queue with
  | nil =>
      obtain ⟨k', hV, hshape⟩ := semaphoreV_empty
        (k := { k with level := level }) hqueue
      refine ⟨none, k', hV, ?_, congrArg Shape.level hshape⟩
      rw [hshape]
      exact .released hcontrol hqueue
  | cons t rest =>
      obtain ⟨oldLevel, hcore⟩ := hsound.core_queued hqueue
      have hout : t ∉ k.readyList := by
        intro hready
        obtain ⟨resume, hother⟩ := hsound.mem_ready.mp hready
        rw [hcore] at hother
        cases hother
      obtain ⟨k', hV, hshape⟩ := semaphoreV_wakes
        (k := { k with level := level }) hqueue hcore hout
      refine ⟨some t, k', hV, ?_, congrArg Shape.level hshape⟩
      rw [hshape]
      exact .woken hcontrol hqueue hcore

theorem lives_semaphoreV
    (hsound : k.shape.Sound) (hrunning : k.control = .running)
    (s : SemaphoreId) : k.Lives (.semaphoreV s) := by
  obtain ⟨woken, k', hV, hlife, hlevel⟩ :=
    semaphoreV_lives hsound (.inl hrunning) s k.level
  have hV' : k.semaphoreV s = .ok (woken, k') := hV
  refine ⟨k', .released s woken, ?_, ?_⟩
  · unfold step
    simp only [hrunning, hV']
    rfl
  · rw [← hlevel] at hlife
    exact hlife

theorem lives_handlerV
    (hsound : k.shape.Sound)
    (hcontrol : k.control = .running ∨ ∃ f, k.control = .idling f)
    (s : SemaphoreId) : k.Lives (.handlerV s) := by
  rcases hcontrol with hrunning | ⟨f, hidling⟩
  · obtain ⟨honLevel, -⟩ := Sound.current_running hsound hrunning
    obtain ⟨woken, k', hV, hlife, -⟩ :=
      semaphoreV_lives hsound (.inl hrunning) s .intOff
    refine ⟨{ k' with level := .intOn }, .released s woken, ?_, ?_⟩
    · rw [hrunning] at hV
      unfold step
      simp only [hrunning, hV]
      rfl
    · rw [honLevel] at hlife
      exact hlife
  · obtain ⟨woken, k', hV, hlife, hlevel⟩ :=
      semaphoreV_lives hsound (.inr ⟨f, hidling⟩) s k.level
    have hV' : k.semaphoreV s = .ok (woken, k') := hV
    refine ⟨k', .released s woken, ?_, ?_⟩
    · unfold step
      simp only [hidling, hV']
      rfl
    · rw [← hlevel] at hlife
      exact hlife

theorem lives_semaphoreP
    (hsound : k.shape.Sound) (hrunning : k.control = .running)
    (s : SemaphoreId) : k.Lives (.semaphoreP s) := by
  obtain ⟨hlevel, -, before, hcurrent⟩ :=
    Sound.current_running hsound hrunning
  by_cases hvalue : (k.semaphores s).value = 0
  · have hout : k.currentThread ∉ (k.semaphores s).queue := by
      intro hmem
      obtain ⟨level, hother⟩ := hsound.mem_queue.mp hmem
      rw [hcurrent] at hother
      cases hother
    obtain ⟨k', htest, hshape⟩ := testValue_blocks
      (k := { k with level := .intOff }) k.level rfl hvalue hcurrent hout
    have hP : k.semaphoreP s = .ok k' := htest
    have hpasses : k.passes s = false := by
      simpa [passes] using hvalue
    refine ⟨k', .blocked s k.currentThread, ?_, ?_⟩
    · unfold step
      simp only [hrunning, hP, hpasses]
      rfl
    · rw [hshape, hlevel]
      exact .blocked hrunning hvalue
  · obtain ⟨k', htest, hshape⟩ := testValue_passes
      (k := { k with level := .intOff }) k.level hvalue
    have hP : k.semaphoreP s = .ok k' := htest
    have hpasses : k.passes s = true := by
      simpa [passes] using hvalue
    refine ⟨k', .acquired s k.currentThread, ?_, ?_⟩
    · unfold step
      simp only [hrunning, hP, hpasses]
      rfl
    · rw [hshape]
      have hlife : Life k.shape _ _ := .acquired hrunning hvalue
      have hsame : { k.shape.setSemaphore s { k.semaphores s with
            value := (k.semaphores s).value - 1 } with
          level := k.level, control := .running } =
          k.shape.setSemaphore s { k.semaphores s with
            value := (k.semaphores s).value - 1 } := by
        rw [← hrunning]
        rfl
      exact hsame ▸ hlife

/-! ## Sleeping and going on -/

/-- The current thread of a machine that looks for another one. -/
theorem Sound.current_sleeping
    (hsound : k.shape.Sound) {f : Bool}
    (hcontrol : k.control = .sleeping f ∨ k.control = .idling f) :
    k.level = .intOff ∧ k.toBeDestroyed = none ∧
      ∃ core, k.shape.core k.currentThread = some core := by
  have hcontrolled := hsound.controlled
  unfold Controlled at hcontrolled
  rcases hcontrol with hsleeping | hidling
  · rw [show k.shape.control = .sleeping f from hsleeping] at hcontrolled
    cases f with
    | false =>
        obtain ⟨hlevel, hnone, status, r, hcurrent, -⟩ := hcontrolled
        exact ⟨hlevel, hnone, _, hcurrent⟩
    | true =>
        obtain ⟨hlevel, hnone, hcurrent⟩ := hcontrolled
        exact ⟨hlevel, hnone, _, hcurrent⟩
  · rw [show k.shape.control = .idling f from hidling] at hcontrolled
    cases f with
    | false =>
        obtain ⟨hlevel, hnone, status, r, hcurrent, -⟩ := hcontrolled
        exact ⟨hlevel, hnone, _, hcurrent⟩
    | true =>
        obtain ⟨hlevel, hnone, hcurrent⟩ := hcontrolled
        exact ⟨hlevel, hnone, _, hcurrent⟩

theorem lives_search
    (hsound : k.shape.Sound) {f : Bool} (hsleeping : k.control = .sleeping f) :
    k.Lives .search := by
  obtain ⟨hlevel, hnone, core, hcurrent⟩ :=
    Sound.current_sleeping hsound (.inl hsleeping)
  cases hready : k.readyList with
  | nil =>
      have hsearch : k.searchNext f =
          .ok { k with control := .idling f } := by
        rw [searchNext, findNextToRun_nil hlevel hready]
        rfl
      refine ⟨{ k with control := .idling f }, .searched, ?_,
        .idles hsleeping hready⟩
      unfold step
      simp only [hsleeping, hsearch]
      rfl
  | cons next rest =>
      obtain ⟨resume, hnext⟩ := hsound.core_next hready
      obtain ⟨k', hrun, hshape⟩ := run_spec
        (k := { k with readyList := rest }) f hlevel (fun _ => hnone)
        hcurrent hnext
      have hsearch : k.searchNext f = .ok k' := by
        rw [searchNext, findNextToRun_cons hlevel hready]
        exact hrun
      refine ⟨k', .searched, ?_, ?_⟩
      · unfold step
        simp only [hsleeping, hsearch]
        rfl
      · rw [hshape]
        simp only [hnone]
        exact .found hsleeping hready hnext

theorem lives_idleReturns {f : Bool} (hidling : k.control = .idling f) :
    k.Lives .idleReturns := by
  refine ⟨{ k with control := .sleeping f }, .idled, ?_, .idled hidling⟩
  unfold step
  simp only [hidling]

theorem Sound.current_switched
    (hsound : k.shape.Sound) (hswitched : k.control = .switched) :
    k.level = .intOff ∧
      (∃ r, k.shape.core k.currentThread = some (.running, some r) ∧
        r ≠ .finish) ∧
      ∀ t, k.toBeDestroyed = some t → t ≠ k.currentThread ∧
        k.shape.core t = some (.blocked, some .finish) := by
  have hcontrolled := hsound.controlled
  unfold Controlled at hcontrolled
  rw [show k.shape.control = .switched from hswitched] at hcontrolled
  exact hcontrolled

theorem retests_of_core
    {status : ThreadStatus} {r : Resume}
    (hcurrent : k.shape.core k.currentThread = some (status, some r)) :
    k.retests = match r with
      | .semaphoreP s _ => some s
      | _ => none := by
  obtain ⟨th, hth, hcore⟩ := exists_thread hcurrent
  have hresume : th.resume = some r := congrArg Prod.snd hcore
  unfold retests
  rw [hth, Option.bind_some, hresume]
  cases r <;> rfl

theorem step_goOn
    (hswitched : k.control = .switched) {k' : Threads}
    (hgoOn : k.goOn = .ok k') :
    step k .goOn = .ok (k', .resumed k.currentThread k.toBeDestroyed
      (k.retests.map fun s => (s, k.passes s))) := by
  unfold step
  simp only [hswitched, hgoOn]
  rfl

theorem lives_goOn
    (hsound : k.shape.Sound) (hswitched : k.control = .switched) :
    k.Lives .goOn := by
  obtain ⟨hlevel, ⟨r, hcurrent, hr⟩, hdestroy⟩ :=
    Sound.current_switched hsound hswitched
  have hdestroy' : ∀ t, k.toBeDestroyed = some t →
      t ≠ k.currentThread ∧ ∃ core, k.shape.core t = some core :=
    fun t ht => ⟨(hdestroy t ht).1, _, (hdestroy t ht).2⟩
  obtain ⟨th, hth, hcore⟩ := exists_thread hcurrent
  have hresume : th.resume = some r := congrArg Prod.snd hcore
  have hretests := retests_of_core hcurrent
  have hlevels := (hsound.kept hcurrent).oldLevel r rfl
  have hkept : k.shape.buried.core k.currentThread =
      some (.running, some r) := by
    rw [buried_core]
    · exact hcurrent
    · intro hself
      exact (hdestroy _ hself).1 rfl
  cases r with
  | finish => exact (hr rfl).elim
  | root =>
      obtain ⟨after, hafter, hshape⟩ := checkToBeDestroyed_spec hdestroy'
      have hgoOn : k.goOn = .ok { after with
          level := .intOn, control := .running } := by
        rw [goOn, thread_eq hth, ok_bind, hresume]
        simp only [begin, hafter, ok_bind]
        rfl
      refine ⟨_, _, step_goOn hswitched hgoOn, ?_⟩
      rw [hretests]
      have hlife : Life k.shape _ _ := .resumed hswitched hcurrent nofun
      rw [← hshape] at hlife
      exact hlife
  | yield oldLevel =>
      cases hlevels
      obtain ⟨after, hafter, hshape⟩ :=
        returnFromRun_spec hlevel hcurrent hdestroy'
      have hgoOn : k.goOn = .ok { after with
          level := .intOn, control := .running } := by
        rw [goOn, thread_eq hth, ok_bind, hresume]
        simp only [hafter, ok_bind]
        rfl
      refine ⟨_, _, step_goOn hswitched hgoOn, ?_⟩
      rw [hretests]
      have hlife : Life k.shape _ _ := .resumed hswitched hcurrent nofun
      rw [← hshape] at hlife
      exact hlife
  | semaphoreP s oldLevel =>
      cases hlevels
      obtain ⟨after, hafter, hshape⟩ :=
        returnFromRun_spec hlevel hcurrent hdestroy'
      have hgoOn : k.goOn = after.testValue s .intOn := by
        rw [goOn, thread_eq hth, ok_bind, hresume]
        simp only [hafter, ok_bind]
      have hfields := hshape
      rw [buried_eq] at hfields
      have hsemaphores : after.semaphores = k.semaphores :=
        congrArg Shape.semaphores hfields
      have hcurrent' : after.currentThread = k.currentThread :=
        congrArg Shape.currentThread hfields
      have hlevel' : after.level = .intOff :=
        (congrArg Shape.level hfields).trans hlevel
      by_cases hvalue : (k.semaphores s).value = 0
      · have hout : after.currentThread ∉ (after.semaphores s).queue := by
          rw [hcurrent', hsemaphores]
          intro hmem
          obtain ⟨level, hother⟩ := hsound.mem_queue.mp hmem
          rw [hcurrent] at hother
          cases hother
        obtain ⟨k', htest, hshape'⟩ := testValue_blocks .intOn hlevel'
          (by rw [hsemaphores]; exact hvalue)
          (by rw [hcurrent', hshape]; exact hkept) hout
        have hpasses : k.passes s = false := by
          simpa [passes] using hvalue
        refine ⟨k', _, step_goOn hswitched (hgoOn.trans htest), ?_⟩
        rw [hretests, hshape', hcurrent', hsemaphores, hshape]
        simp only [Option.map_some, hpasses]
        exact .blockedAgain hswitched hcurrent hvalue
      · obtain ⟨k', htest, hshape'⟩ := testValue_passes (k := after) .intOn
          (by rw [hsemaphores]; exact hvalue)
        have hpasses : k.passes s = true := by
          simpa [passes] using hvalue
        refine ⟨k', _, step_goOn hswitched (hgoOn.trans htest), ?_⟩
        rw [hretests, hshape', hsemaphores, hshape]
        simp only [Option.map_some, hpasses]
        exact .reacquired hswitched hcurrent hvalue

/-- Every action takes a step of the life of the threads, if it is possible
at all: no assertion fails. -/
theorem step_lives (hsound : k.shape.Sound) (action : Action) :
    step k action = .error .disabled ∨ k.Lives action := by
  cases hcontrol : k.control with
  | running =>
      cases action with
      | newThread t garbage =>
          by_cases hfree : (k.threads t).isNone
          · exact .inr (lives_newThread hcontrol hfree garbage)
          · exact .inl (by simp only [step, hcontrol, if_neg hfree])
      | fork t =>
          by_cases hnew :
              (k.threads t).any (fun th => th.status = .justCreated)
          · exact .inr (lives_fork hsound hcontrol hnew)
          · exact .inl (by simp only [step, hcontrol, if_neg hnew])
      | yield => exact .inr (lives_yield hsound hcontrol)
      | finish => exact .inr (lives_finish hsound hcontrol)
      | semaphoreP s => exact .inr (lives_semaphoreP hsound hcontrol s)
      | semaphoreV s => exact .inr (lives_semaphoreV hsound hcontrol s)
      | handlerV s => exact .inr (lives_handlerV hsound (.inl hcontrol) s)
      | search | idleReturns | goOn => exact .inl (by simp only [step, hcontrol])
  | sleeping f =>
      cases action with
      | search => exact .inr (lives_search hsound hcontrol)
      | _ => exact .inl (by simp only [step, hcontrol])
  | idling f =>
      cases action with
      | handlerV s =>
          exact .inr (lives_handlerV hsound (.inr ⟨f, hcontrol⟩) s)
      | idleReturns => exact .inr (lives_idleReturns hcontrol)
      | _ => exact .inl (by simp only [step, hcontrol])
  | switched =>
      cases action with
      | goOn => exact .inr (lives_goOn hsound hcontrol)
      | _ => exact .inl (by simp only [step, hcontrol])

end Threads

end Nachos.Scheduling
