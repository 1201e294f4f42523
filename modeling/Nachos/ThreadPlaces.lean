import Nachos.ThreadShape

/-!
# One place for every thread

Every thread that has been forked and has not finished is running, on the
ready list or in the queue of one semaphore, and a thread that has finished is
destroyed by the next thread that runs.
-/

namespace Nachos.Scheduling

open Library

namespace Shape

/-! ## Statuses, stacks and places -/

theorem kept_created : Kept .justCreated none := by
  constructor <;> simp

theorem kept_ready {r : Resume} (hr : r ≠ .finish) (hlevel : r.oldLevel = .intOn) :
    Kept .ready (some r) := by
  constructor <;> simp [hr, hlevel]

theorem kept_blocked (s : SemaphoreId) :
    Kept .blocked (some (.semaphoreP s .intOn)) := by
  constructor <;> simp [Resume.oldLevel]

theorem kept_finished : Kept .blocked (some .finish) := by
  constructor <;> simp [Resume.oldLevel]

/-- A thread that can be dispatched or woken keeps its stack. -/
theorem Kept.withStatus
    {status status' : ThreadStatus} {resume : Option Resume}
    (h : Kept status resume) {r : Resume} (hresume : resume = some r)
    (hr : r ≠ .finish) (hstatus : status' ≠ .blocked) :
    Kept status' resume := by
  constructor
  · intro _
    exact ⟨r, hresume, hr⟩
  · intro hblocked
    exact (hstatus hblocked).elim
  · intro hfinish
    rw [hresume, Option.some.injEq] at hfinish
    exact (hr hfinish).elim
  · exact h.oldLevel

def placeOf (core : ThreadId → Option Core) (t : ThreadId) :
    Option (Option SemaphoreId) :=
  (core t).bind Core.place

theorem placeOf_update
    (core : ThreadId → Option Core) (t : ThreadId) (c : Core) :
    placeOf (Function.update core t (some c)) =
      Function.update (placeOf core) t c.place := by
  funext q
  by_cases hq : q = t
  · subst hq
    simp [placeOf]
  · simp [placeOf, hq]

theorem of_update
    {core : ThreadId → Option Core} {t q : ThreadId} {c c' : Core}
    (h : Function.update core t (some c) q = some c') :
    q = t ∧ c' = c ∨ q ≠ t ∧ core q = some c' := by
  by_cases hq : q = t
  · subst hq
    rw [Function.update_self, Option.some.injEq] at h
    exact .inl ⟨rfl, h.symm⟩
  · rw [Function.update_of_ne hq] at h
    exact .inr ⟨hq, h⟩

variable {sh : Shape}

theorem lists_readyList
    {sh' : Shape} (hsemaphores : sh'.semaphores = sh.semaphores) :
    sh'.lists = Function.update sh.lists none sh'.readyList := by
  funext p
  cases p with
  | none => simp [lists]
  | some s => simp [lists, hsemaphores]

theorem lists_queue
    {sh' : Shape} {s : SemaphoreId} (sem : Semaphore)
    (hready : sh'.readyList = sh.readyList)
    (hsemaphores : sh'.semaphores = Function.update sh.semaphores s sem) :
    sh'.lists = Function.update sh.lists (some s) sem.queue := by
  funext p
  cases p with
  | none => simp [lists, hready]
  | some q =>
      by_cases hq : q = s
      · subst hq
        simp [lists, hsemaphores]
      · simp [lists, hsemaphores, hq]

/-- A thread that is in no list enters one. -/
theorem Sound.enter
    (h : sh.Sound) {t : ThreadId} {c : Core} {p : Option SemaphoreId}
    {core : ThreadId → Option Core}
    {lists : Option SemaphoreId → List ThreadId}
    (hnone : sh.place t = none) (hplace : c.place = some p)
    (hcore : core = Function.update sh.core t (some c))
    (hlists : lists = Function.update sh.lists p (sh.lists p ++ [t])) :
    Placed (placeOf core) lists := by
  rw [hcore, placeOf_update, hplace, hlists]
  exact h.placed.enter hnone

/-- A thread that is in no list stays in none. -/
theorem Sound.stay
    (h : sh.Sound) {t : ThreadId} {c : Core}
    {core : ThreadId → Option Core}
    {lists : Option SemaphoreId → List ThreadId}
    (hnone : sh.place t = none) (hplace : c.place = none)
    (hcore : core = Function.update sh.core t (some c))
    (hlists : lists = sh.lists) :
    Placed (placeOf core) lists := by
  rw [hcore, placeOf_update, hplace, hlists,
    Function.update_eq_self_iff.mpr hnone.symm]
  exact h.placed

/-- The queue of a semaphore does not change with its value. -/
theorem lists_value (sh : Shape) (s : SemaphoreId) (value : BitVec 32) :
    (sh.setSemaphore s { sh.semaphores s with value := value }).lists =
      sh.lists := by
  have hlists : (sh.setSemaphore s
      { sh.semaphores s with value := value }).lists =
        Function.update sh.lists (some s) (sh.semaphores s).queue :=
    lists_queue { sh.semaphores s with value := value } rfl rfl
  exact hlists.trans (Function.update_eq_self (some s) sh.lists)

theorem place_of_core {t : ThreadId} {c : Core} (h : sh.core t = some c) :
    sh.place t = c.place := by
  rw [place, h]
  rfl

/-! ## The steps -/

theorem Sound.controlled_running
    (h : sh.Sound) (hrunning : sh.control = .running) :
    sh.level = .intOn ∧ sh.toBeDestroyed = none ∧
      ∃ resume, sh.core sh.currentThread = some (.running, resume) := by
  have hcontrolled := h.controlled
  unfold Controlled at hcontrolled
  rw [hrunning] at hcontrolled
  exact hcontrolled

/-- One thread, that does not run, gets another status or goes on elsewhere. -/
theorem Sound.setsCore
    (h : sh.Sound) {after : Shape} {t : ThreadId} {status : ThreadStatus}
    {resume : Option Resume} (hplaced : Placed after.place after.lists)
    (hcore : after.core = Function.update sh.core t (some (status, resume)))
    (hthread : after.currentThread = sh.currentThread)
    (hdestroyed : after.toBeDestroyed = sh.toBeDestroyed)
    (hkept : Kept status resume) (hrunning : status ≠ .running)
    (hfinish : resume = some .finish →
      t = sh.currentThread ∨ sh.toBeDestroyed = some t)
    (hcontrolled : after.Controlled) : after.Sound := by
  constructor
  · exact hplaced
  · intro q status' r hq
    rw [hcore] at hq
    rcases of_update hq with ⟨-, heq⟩ | ⟨-, hq⟩
    · cases heq
      exact hkept
    · exact h.kept hq
  · intro q r hq
    rw [hcore] at hq
    rw [hthread]
    rcases of_update hq with ⟨-, heq⟩ | ⟨-, hq⟩
    · cases heq
      exact (hrunning rfl).elim
    · exact h.running hq
  · intro q status' hq
    rw [hcore] at hq
    rw [hthread, hdestroyed]
    rcases of_update hq with ⟨rfl, heq⟩ | ⟨-, hq⟩
    · cases heq
      exact hfinish rfl
    · exact h.finishing hq
  · exact hcontrolled

theorem Sound.created
    (h : sh.Sound) (hrunning : sh.control = .running) {t : ThreadId}
    (hnone : sh.core t = none) : (sh.setCore t (.justCreated, none)).Sound := by
  obtain ⟨hlevel, hdestroyed, resume, hcurrent⟩ := h.controlled_running hrunning
  have hne : sh.currentThread ≠ t := by
    rintro rfl
    rw [hcurrent] at hnone
    cases hnone
  have hplace : sh.place t = none := by
    rw [place, hnone]
    rfl
  refine h.setsCore (h.stay (c := (.justCreated, none)) hplace rfl rfl rfl) rfl
    rfl rfl kept_created nofun nofun ?_
  unfold Controlled
  rw [show (sh.setCore t (.justCreated, none)).control = .running from
    hrunning]
  exact ⟨hlevel, hdestroyed, resume,
    (Function.update_of_ne hne _ _).trans hcurrent⟩

theorem Sound.forked
    (h : sh.Sound) (hrunning : sh.control = .running) {t : ThreadId}
    {resume : Option Resume} (hcore : sh.core t = some (.justCreated, resume)) :
    Sound { sh.setCore t (.ready, some .root) with
      readyList := sh.readyList ++ [t] } := by
  obtain ⟨hlevel, hdestroyed, before, hcurrent⟩ := h.controlled_running hrunning
  have hne : sh.currentThread ≠ t := by
    rintro rfl
    rw [hcurrent] at hcore
    cases hcore
  refine h.setsCore (h.enter (c := (.ready, some .root)) (p := none)
    (place_of_core hcore) rfl rfl (lists_readyList rfl)) rfl rfl rfl
    (kept_ready nofun rfl) nofun nofun ?_
  unfold Controlled
  simp only [setCore, hrunning]
  exact ⟨hlevel, hdestroyed, before,
    (Function.update_of_ne hne _ _).trans hcurrent⟩

/-- The place of a thread that is running. -/
theorem Sound.place_current
    {resume : Option Resume}
    (hcurrent : sh.core sh.currentThread = some (.running, resume)) :
    sh.place sh.currentThread = none := by
  rw [place_of_core hcurrent]
  cases resume with
  | none => rfl
  | some r => cases r <;> rfl

theorem Sound.finished
    (h : sh.Sound) (hrunning : sh.control = .running) :
    Sound { sh.setCore sh.currentThread (.blocked, some .finish) with
      level := .intOff, control := .sleeping true } := by
  obtain ⟨-, hdestroyed, before, hcurrent⟩ := h.controlled_running hrunning
  refine h.setsCore (h.stay (Sound.place_current hcurrent)
    (show Core.place (.blocked, some .finish) = none from rfl) rfl rfl) rfl rfl
    rfl kept_finished nofun (fun _ => .inl rfl) ?_
  exact ⟨rfl, hdestroyed, Function.update_self ..⟩

theorem Sound.value
    (h : sh.Sound) (s : SemaphoreId) (value : BitVec 32) :
    (sh.setSemaphore s { sh.semaphores s with value := value }).Sound where
  placed := by
    rw [lists_value]
    exact h.placed
  kept := h.kept
  running := h.running
  finishing := h.finishing
  controlled := h.controlled

/-- The current thread goes to sleep in the queue of a semaphore. -/
theorem Sound.blocks
    (h : sh.Sound) {resume : Option Resume} (s : SemaphoreId)
    (hcurrent : sh.core sh.currentThread = some (.running, resume))
    (hdestroyed : sh.toBeDestroyed = none) :
    Sound { (sh.setSemaphore s { sh.semaphores s with
        queue := (sh.semaphores s).queue ++ [sh.currentThread] }).setCore
        sh.currentThread (.blocked, some (.semaphoreP s .intOn)) with
      level := .intOff, control := .sleeping false } := by
  refine h.setsCore (h.enter (Sound.place_current hcurrent)
    (show Core.place (.blocked, some (.semaphoreP s .intOn)) =
      some (some s) from rfl) rfl
    (lists_queue { sh.semaphores s with
      queue := (sh.semaphores s).queue ++ [sh.currentThread] } rfl rfl)) rfl rfl
    rfl (kept_blocked s) nofun nofun ?_
  exact ⟨rfl, hdestroyed, .blocked, _, Function.update_self .., nofun,
    .inr rfl⟩

/-- The processor is switched to the thread in front of the ready list. -/
theorem Sound.switches
    (h : sh.Sound) (destroy : Option ThreadId) {next : ThreadId}
    {resume : Option Resume} {rest : List ThreadId}
    (hlevel : sh.level = .intOff) (hready : sh.readyList = next :: rest)
    (hnext : sh.core next = some (.ready, resume))
    (hidle : ∀ r, sh.core sh.currentThread ≠ some (.running, r))
    (hdestroy : ∀ t, destroy = some t →
      sh.core t = some (.blocked, some .finish))
    (hfinishing : ∀ t status, sh.core t = some (status, some .finish) →
      destroy = some t) :
    (sh.switchTo next resume rest destroy).Sound := by
  have hkept := h.kept hnext
  obtain ⟨r, rfl, hr⟩ := hkept.ready rfl
  constructor
  · have hleave := h.placed.leave
      (show sh.lists none = next :: rest from hready)
    have hplace : (sh.switchTo next (some r) rest destroy).place =
        Function.update sh.place next none := by
      have hnone : Core.place (.running, some r) = none := by
        cases r <;> rfl
      rw [← hnone]
      exact placeOf_update sh.core next _
    have hlists : (sh.switchTo next (some r) rest destroy).lists =
        Function.update sh.lists none rest := lists_readyList rfl
    rw [hplace, hlists]
    exact hleave
  · intro q status resume hq
    rcases of_update hq with ⟨-, heq⟩ | ⟨-, hq⟩
    · cases heq
      exact hkept.withStatus rfl hr nofun
    · exact h.kept hq
  · intro q resume hq
    rcases of_update hq with ⟨rfl, -⟩ | ⟨-, hq⟩
    · rfl
    · obtain rfl := h.running hq
      exact (hidle resume hq).elim
  · intro q status hq
    rcases of_update hq with ⟨-, heq⟩ | ⟨-, hq⟩
    · cases heq
      exact (hr rfl).elim
    · exact .inr (hfinishing q status hq)
  · refine ⟨hlevel, ⟨r, Function.update_self .., hr⟩, ?_⟩
    intro t ht
    have hcore := hdestroy t ht
    have hne : t ≠ next := by
      rintro rfl
      rw [hcore] at hnext
      cases hnext
    exact ⟨hne, (Function.update_of_ne hne _ _).trans hcore⟩

/-- The current thread goes to the end of the ready list. -/
theorem Sound.steps_back
    (h : sh.Sound) {resume : Option Resume}
    (hcurrent : sh.core sh.currentThread = some (.running, resume))
    (hdestroyed : sh.toBeDestroyed = none) :
    Sound { sh.setCore sh.currentThread (.ready, some (.yield .intOn)) with
      readyList := sh.readyList ++ [sh.currentThread]
      level := .intOff, control := .sleeping false } := by
  refine h.setsCore (h.enter (Sound.place_current hcurrent)
    (show Core.place (.ready, some (.yield .intOn)) = some none from rfl) rfl
    (lists_readyList rfl)) rfl rfl rfl (kept_ready nofun rfl) nofun nofun ?_
  exact ⟨rfl, hdestroyed, .ready, _, Function.update_self .., nofun, .inl rfl⟩

theorem Sound.yielded
    (h : sh.Sound) (hrunning : sh.control = .running) {next : ThreadId}
    {resume : Option Resume} {rest : List ThreadId}
    (hready : sh.readyList = next :: rest)
    (hnext : sh.core next = some (.ready, resume)) :
    Sound { (sh.setCore sh.currentThread
        (.ready, some (.yield .intOn))).switchTo next resume
        (rest ++ [sh.currentThread]) none with level := .intOff } := by
  obtain ⟨-, hdestroyed, before, hcurrent⟩ := h.controlled_running hrunning
  have hback := h.steps_back hcurrent hdestroyed
  have hne : next ≠ sh.currentThread := by
    rintro rfl
    rw [hcurrent] at hnext
    cases hnext
  refine hback.switches none rfl ?_ ?_ ?_ nofun ?_
  · show sh.readyList ++ [sh.currentThread] = _
    rw [hready]
    rfl
  · exact (Function.update_of_ne hne _ _).trans hnext
  · intro r hr
    rcases of_update hr with ⟨-, heq⟩ | ⟨hself, -⟩
    · cases heq
    · exact hself rfl
  · intro t status ht
    rcases of_update ht with ⟨-, heq⟩ | ⟨hother, ht⟩
    · cases heq
    · rcases h.finishing ht with rfl | hdone
      · exact (hother rfl).elim
      · rw [hdestroyed] at hdone
        cases hdone

/-- The thread in front of a queue goes to the end of the ready list. -/
theorem Sound.woken
    (h : sh.Sound)
    (hcontrol : sh.control = .running ∨ ∃ f, sh.control = .idling f)
    {s : SemaphoreId} {t : ThreadId} {rest : List ThreadId}
    {resume : Option Resume} (value : BitVec 32)
    (hqueue : (sh.semaphores s).queue = t :: rest)
    (hcore : sh.core t = some (.blocked, resume)) :
    Sound { (sh.setSemaphore s ⟨value, rest⟩).setCore t (.ready, resume) with
      readyList := sh.readyList ++ [t] } := by
  obtain ⟨level, hsame⟩ := h.core_queued hqueue
  have hresume : resume = some (.semaphoreP s level) := by
    rw [hcore, Option.some.injEq, Prod.mk.injEq] at hsame
    exact hsame.2
  have hkept := h.kept hcore
  refine h.setsCore ?_ rfl rfl rfl (hkept.withStatus hresume nofun nofun) nofun
    ?_ ?_
  · have hleave := h.placed.leave
      (show sh.lists (some s) = t :: rest from hqueue)
    have henter := hleave.enter (p := none) (Function.update_self ..)
    rw [Function.update_idem] at henter
    have hplace : place { (sh.setSemaphore s ⟨value, rest⟩).setCore t
        (.ready, resume) with readyList := sh.readyList ++ [t] } =
        Function.update sh.place t (some none) :=
      placeOf_update sh.core t (.ready, resume)
    have hqueues : lists (sh.setSemaphore s ⟨value, rest⟩) =
        Function.update sh.lists (some s) rest :=
      lists_queue ⟨value, rest⟩ rfl rfl
    have hlists : lists { (sh.setSemaphore s ⟨value, rest⟩).setCore t
        (.ready, resume) with readyList := sh.readyList ++ [t] } =
        Function.update (lists (sh.setSemaphore s ⟨value, rest⟩)) none
          (sh.readyList ++ [t]) := lists_readyList rfl
    rw [hplace, hlists, hqueues]
    exact henter
  · intro hfinish
    rw [hresume] at hfinish
    cases hfinish
  · have hcontrolled := h.controlled
    unfold Controlled at hcontrolled ⊢
    simp only [setCore, setSemaphore]
    rcases hcontrol with hrunning | ⟨f, hidling⟩
    · rw [hrunning] at hcontrolled ⊢
      obtain ⟨hlevel, hdestroyed, before, hcurrent⟩ := hcontrolled
      have hne : sh.currentThread ≠ t := by
        rintro rfl
        rw [hcurrent] at hcore
        cases hcore
      exact ⟨hlevel, hdestroyed, before,
        (Function.update_of_ne hne _ _).trans hcurrent⟩
    · rw [hidling] at hcontrolled ⊢
      cases f with
      | false =>
          obtain ⟨hlevel, hdestroyed, status, r, hcurrent, hr, hstatus⟩ :=
            hcontrolled
          refine ⟨hlevel, hdestroyed, ?_⟩
          by_cases hself : sh.currentThread = t
          · rw [hself, Function.update_self, hresume]
            exact ⟨.ready, _, rfl, nofun, .inl rfl⟩
          · rw [Function.update_of_ne hself]
            exact ⟨status, r, hcurrent, hr, hstatus⟩
      | true =>
          obtain ⟨hlevel, hdestroyed, hcurrent⟩ := hcontrolled
          have hne : sh.currentThread ≠ t := by
            rintro rfl
            rw [hcurrent, hresume] at hcore
            cases hcore
          exact ⟨hlevel, hdestroyed,
            (Function.update_of_ne hne _ _).trans hcurrent⟩

theorem Sound.controlled_switched
    (h : sh.Sound) (hswitched : sh.control = .switched) :
    sh.level = .intOff ∧
      (∃ r, sh.core sh.currentThread = some (.running, some r) ∧
        r ≠ .finish) ∧
      ∀ t, sh.toBeDestroyed = some t → t ≠ sh.currentThread ∧
        sh.core t = some (.blocked, some .finish) := by
  have hcontrolled := h.controlled
  unfold Controlled at hcontrolled
  rw [hswitched] at hcontrolled
  exact hcontrolled

theorem of_buried {t : ThreadId} {c : Core}
    (h : sh.buried.core t = some c) :
    sh.core t = some c ∧ sh.toBeDestroyed ≠ some t := by
  by_cases hself : sh.toBeDestroyed = some t
  · rw [buried_of_some hself] at h
    simp at h
  · rw [buried_core hself] at h
    exact ⟨h, hself⟩

theorem Sound.resumed
    (h : sh.Sound) (hswitched : sh.control = .switched) :
    Sound { sh.buried with level := .intOn, control := .running } := by
  obtain ⟨-, ⟨r, hcurrent, hr⟩, hdestroy⟩ := h.controlled_switched hswitched
  have hcurrent' : sh.buried.core sh.currentThread =
      some (.running, some r) := by
    rw [buried_core]
    · exact hcurrent
    · intro hself
      exact (hdestroy _ hself).1 rfl
  have hplace : sh.buried.place = sh.place := by
    cases hgone : sh.toBeDestroyed with
    | none => rw [buried_of_none hgone]
    | some t =>
        have hnone := place_of_core (hdestroy t hgone).2
        funext q
        by_cases hq : q = t
        · subst hq
          rw [hnone, place, buried_of_some hgone]
          simp
          rfl
        · rw [place, buried_core, place]
          rw [hgone, ne_eq, Option.some.injEq]
          exact Ne.symm hq
  constructor
  · have hlists : sh.buried.lists = sh.lists := by
      rw [buried_eq]
      rfl
    show Placed sh.buried.place sh.buried.lists
    rw [hplace, hlists]
    exact h.placed
  · intro q status resume hq
    exact h.kept (of_buried hq).1
  · intro q resume hq
    rw [buried_eq]
    exact h.running (of_buried hq).1
  · intro q status hq
    obtain ⟨hq, hnot⟩ := of_buried hq
    rcases h.finishing hq with rfl | hdone
    · rw [hcurrent] at hq
      cases hq
      exact (hr rfl).elim
    · exact (hnot hdone).elim
  · rw [buried_eq]
    exact ⟨rfl, rfl, some r, hcurrent'⟩

/-- The current thread of a machine that looks for another one, or idles. -/
theorem Sound.controlled_sleeping
    (h : sh.Sound) {f : Bool} (hsleeping : sh.control = .sleeping f) :
    sh.level = .intOff ∧ sh.toBeDestroyed = none ∧
      ∃ status r, sh.core sh.currentThread = some (status, some r) ∧
        status ≠ .running ∧ if f then status = .blocked ∧ r = .finish
          else r ≠ .finish := by
  have hcontrolled := h.controlled
  unfold Controlled at hcontrolled
  rw [hsleeping] at hcontrolled
  cases f with
  | false =>
      obtain ⟨hlevel, hdestroyed, status, r, hcurrent, hr, hstatus⟩ :=
        hcontrolled
      refine ⟨hlevel, hdestroyed, status, r, hcurrent, ?_, hr⟩
      rintro rfl
      simp at hstatus
  | true =>
      obtain ⟨hlevel, hdestroyed, hcurrent⟩ := hcontrolled
      exact ⟨hlevel, hdestroyed, _, _, hcurrent, nofun, rfl, rfl⟩

theorem Sound.found
    (h : sh.Sound) {f : Bool} (hsleeping : sh.control = .sleeping f)
    {next : ThreadId} {resume : Option Resume} {rest : List ThreadId}
    (hready : sh.readyList = next :: rest)
    (hnext : sh.core next = some (.ready, resume)) :
    (sh.switchTo next resume rest
      (if f then some sh.currentThread else none)).Sound := by
  obtain ⟨hlevel, hdestroyed, status, r, hcurrent, hstatus, hend⟩ :=
    h.controlled_sleeping hsleeping
  refine h.switches _ hlevel hready hnext ?_ ?_ ?_
  · intro resume hrunning
    rw [hcurrent, Option.some.injEq, Prod.mk.injEq] at hrunning
    exact hstatus hrunning.1
  · intro t ht
    cases f with
    | false => cases ht
    | true =>
        cases ht
        rw [hcurrent, hend.1, hend.2]
  · intro t status' ht
    rcases h.finishing ht with rfl | hdone
    · rw [hcurrent, Option.some.injEq, Prod.mk.injEq,
        Option.some.injEq] at ht
      cases f with
      | false => exact (hend ht.2).elim
      | true => rfl
    · rw [hdestroyed] at hdone
      cases hdone

theorem Sound.withControl
    (h : sh.Sound) {control : Control}
    (hcontrolled : Controlled { sh with control := control }) :
    Sound { sh with control := control } :=
  ⟨h.placed, h.kept, h.running, h.finishing, hcontrolled⟩

theorem controlled_idling (sh : Shape) (f : Bool) :
    Controlled { sh with control := .idling f } ↔
      Controlled { sh with control := .sleeping f } := by
  cases f <;> exact Iff.rfl

/-- Every step keeps the threads in their places. -/
theorem Life.sound {event : Event} {sh' : Shape}
    (hlife : Life sh event sh') (h : sh.Sound) : sh'.Sound := by
  cases hlife with
  | created hrunning hnone => exact h.created hrunning hnone
  | forked hrunning hcore => exact h.forked hrunning hcore
  | kept => exact h
  | yielded hrunning hready hnext => exact h.yielded hrunning hready hnext
  | finished hrunning => exact h.finished hrunning
  | acquired => exact h.value _ _
  | blocked hrunning hvalue =>
      obtain ⟨-, hdestroyed, before, hcurrent⟩ := h.controlled_running hrunning
      exact h.blocks _ hcurrent hdestroyed
  | released => exact h.value _ _
  | woken hcontrol hqueue hcore => exact h.woken hcontrol _ hqueue hcore
  | @idles f hsleeping =>
      have hsame : { sh with control := .sleeping f } = sh := by
        rw [← hsleeping]
      refine h.withControl ((controlled_idling sh f).mpr ?_)
      rw [hsame]
      exact h.controlled
  | found hsleeping hready hnext => exact h.found hsleeping hready hnext
  | @idled f hidling =>
      have hsame : { sh with control := .idling f } = sh := by
        rw [← hidling]
      refine h.withControl ((controlled_idling sh f).mp ?_)
      rw [hsame]
      exact h.controlled
  | resumed hswitched => exact h.resumed hswitched
  | @reacquired s level hswitched =>
      have hresumed := (h.resumed hswitched).value s
        ((sh.semaphores s).value - 1)
      rw [buried_eq] at hresumed ⊢
      exact hresumed
  | @blockedAgain s level hswitched hcurrent hvalue =>
      obtain ⟨hlevel, -, -⟩ := h.controlled_switched hswitched
      have hresumed := h.resumed hswitched
      obtain ⟨-, hdestroyed, before, hcurrent⟩ :=
        hresumed.controlled_running rfl
      have hblocked := hresumed.blocks s hcurrent hdestroyed
      rw [buried_eq] at hblocked ⊢
      rw [← hlevel] at hblocked
      exact hblocked

end Shape

/-! ## All runs -/

section Runs

variable {garbage : ℕ → BitVec 32} {machine : UserState}
variable {initial : SemaphoreId → BitVec 32}
variable {guard : List Event → Threads → Action → Prop}
variable {trace : List Event} {k : Threads}

theorem sound_start :
    (Threads.start garbage machine initial).shape.Sound := by
  have hcore : (Threads.start garbage machine initial).shape.core =
      Function.update (fun _ => none) Threads.mainThread
        (some (.running, none)) := by
    funext t
    by_cases ht : t = Threads.mainThread
    · subst ht
      simp [Threads.shape, Threads.start, Thread.core]
    · simp [Threads.shape, Threads.start, ht]
  have honly : ∀ {t c}, (Threads.start garbage machine initial).shape.core t =
      some c → t = Threads.mainThread ∧ c = (.running, none) := by
    intro t c ht
    rw [hcore] at ht
    rcases Shape.of_update ht with hmain | ⟨-, hnone⟩
    · exact hmain
    · cases hnone
  constructor
  · constructor
    · intro p t
      constructor
      · intro hmem
        cases p <;> cases hmem
      · intro hplace
        unfold Shape.place at hplace
        cases ht : (Threads.start garbage machine initial).shape.core t with
        | none =>
            rw [ht] at hplace
            cases hplace
        | some c =>
            obtain ⟨-, rfl⟩ := honly ht
            rw [ht] at hplace
            cases hplace
    · intro p
      cases p <;> exact List.nodup_nil
  · intro t status resume ht
    obtain ⟨-, heq⟩ := honly ht
    cases heq
    constructor <;> simp
  · intro t resume ht
    exact (honly ht).1
  · intro t status ht
    cases (honly ht).2
  · refine ⟨rfl, rfl, none, ?_⟩
    rw [hcore]
    exact Function.update_self ..

/-- Each step is one of the life of the threads. -/
theorem life_of_step
    {k' : Threads} {action : Action} {event : Event}
    (hsound : k.shape.Sound)
    (hstep : Threads.step k action = .ok (k', event)) :
    Shape.Life k.shape event k'.shape := by
  cases Threads.step_lives hsound action with
  | inl hdisabled =>
      rw [hdisabled] at hstep
      cases hstep
  | inr hlives =>
      obtain ⟨after, happened, htaken, hlife⟩ := hlives
      rw [htaken] at hstep
      cases hstep
      exact hlife

theorem run_sound
    (hrun : (Threads.system garbage machine initial).Run guard trace k) :
    k.shape.Sound := by
  refine hrun.invariant (fun _ k => k.shape.Sound) sound_start ?_
  intro trace k k' action event _ hsound _ hstep
  exact (life_of_step hsound hstep).sound hsound

/-- No assertion of the kernel fails. -/
theorem step_ne_fault
    (hsound : k.shape.Sound) (action : Action) (fault : Fault) :
    Threads.step k action ≠ .error (.fault fault) := by
  intro hfault
  cases Threads.step_lives hsound action with
  | inl hdisabled =>
      rw [hdisabled] at hfault
      cases hfault
  | inr hlives =>
      obtain ⟨k', event, hstep, -⟩ := hlives
      rw [hstep] at hfault
      cases hfault

end Runs

end Nachos.Scheduling
