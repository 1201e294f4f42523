import Nachos.Devices

/-!
# One request at a time, completed by its own interrupt

The thread inside the lock has made at most one request.  Until its interrupt
occurs, the semaphore has no unit; from then on it has one, which the thread
takes before it leaves.  So nobody finds the unit of another request.
-/

namespace Nachos.Scheduling.SynchDevice

open Library

variable {Device Call Request Answer : Type}

/-! ## Where the threads are -/

namespace Point

/-- Where a thread is with respect to the lock. -/
def stage : Point Request Answer → Lock.Stage
  | .outside => .outside
  | .acquiring _ => .outside
  | .acquired _ => .entered
  | .requesting _ => .holding
  | .waiting _ _ => .holding
  | .releasing _ _ => .holding
  | .released _ _ => .leaving
  | .returning _ _ => .outside

/-- The request that a thread is going to make. -/
def planned : Point Request Answer → Option Request
  | .acquiring request => some request
  | .acquired request => some request
  | .requesting request => some request
  | _ => none

/-- The request whose interrupt a thread waits for. -/
def awaited : Point Request Answer → Option RequestId
  | .waiting id _ => some id
  | _ => none

/-- The request behind whose interrupt a thread is. -/
def passed : Point Request Answer → Option RequestId
  | .releasing id _ => some id
  | .released id _ => some id
  | .returning id _ => some id
  | _ => none

/-- The requests of the call that a thread is in. -/
def underway (p : Point Request Answer) : List RequestId :=
  p.awaited.toList ++ p.passed.toList

theorem inside_of_awaited
    {p : Point Request Answer} {id : RequestId} (h : p.awaited = some id) :
    p.stage ≠ .outside := by
  cases p with
  | waiting => simp [stage]
  | _ => cases h

end Point

/-- The requests that have been made and whose interrupt has not occurred are
those that the threads wait for: there is none, or one, and then the unit of
its interrupt is there as soon as it has occurred. -/
inductive Turn (s : SynchDevice Device Request Answer) : Prop
  | free : (∀ t, (s.point t).awaited = none) → s.scheduled = [] →
      s.waitFor = ⟨0, []⟩ → Turn s
  | busy {t : ThreadId} {id : RequestId} : (s.point t).awaited = some id →
      s.scheduled = [id] → s.waitFor.value = 0 →
      s.waitFor.queue = [] ∨ s.waitFor.queue = [t] → Turn s
  | served {t : ThreadId} {id : RequestId} : (s.point t).awaited = some id →
      s.scheduled = [] → s.waitFor = ⟨1, []⟩ → Turn s

variable {driver : Driver Device Call Request Answer}
variable {s s' : SynchDevice Device Request Answer} {event : Event Answer}
variable {trace : List (Event Answer)} {t u : ThreadId}

/-! ## The steps -/

/-- What a step does. -/
inductive Move (driver : Driver Device Call Request Answer)
    (s : SynchDevice Device Request Answer) :
    Event Answer → SynchDevice Device Request Answer → Prop
  | calls {t : ThreadId} {call : Call} {request : Request} :
      s.point t = .outside → driver.prepare call = .ok request →
      Move driver s .silent (s.setPoint t (.acquiring request))
  | blocks {t : ThreadId} {request : Request} :
      s.point t = .acquiring request → s.lock.semaphore.value = 0 →
      Move driver s .silent { s with lock := (s.lock.test t).1 }
  | acquires {t : ThreadId} {request : Request} :
      s.point t = .acquiring request → s.lock.semaphore.value ≠ 0 →
      Move driver s .silent ({ s with lock := (s.lock.test t).1 }.setPoint t
        (.acquired request))
  | holds {t : ThreadId} {request : Request} : s.point t = .acquired request →
      Move driver s .silent ({ s with lock := s.lock.hold t }.setPoint t
        (.requesting request))
  | requests {t : ThreadId} {request : Request} {device : Device}
      {answer : Answer} : s.point t = .requesting request →
      driver.request s.device request = .ok (device, answer) →
      Move driver s (.issued t s.issued) ({ s with
        device := device
        scheduled := s.scheduled ++ [s.issued]
        issued := s.issued + 1 }.setPoint t (.waiting s.issued answer))
  | sleeps {t : ThreadId} {id : RequestId} {answer : Answer} :
      s.point t = .waiting id answer → t ∉ s.waitFor.queue →
      s.waitFor.value = 0 →
      Move driver s .silent { s with waitFor := (s.waitFor.test t).1 }
  | passes {t : ThreadId} {id : RequestId} {answer : Answer} :
      s.point t = .waiting id answer → s.waitFor.value ≠ 0 →
      Move driver s .silent ({ s with waitFor := (s.waitFor.test t).1 }.setPoint
        t (.releasing id answer))
  | releases {t : ThreadId} {id : RequestId} {answer : Answer} :
      s.point t = .releasing id answer →
      Move driver s .silent ({ s with
        lock := { s.lock with lockHolder := none } }.setPoint t
          (.released id answer))
  | gives {t : ThreadId} {id : RequestId} {answer : Answer} :
      s.point t = .released id answer →
      Move driver s .silent ({ s with lock := s.lock.give }.setPoint t
        (.returning id answer))
  | returns {t : ThreadId} {id : RequestId} {answer : Answer} :
      s.point t = .returning id answer →
      Move driver s (.returned t id answer) (s.setPoint t .outside)
  | completes {id : RequestId} : id ∈ s.scheduled →
      Move driver s (.completed id) { s with
        device := driver.callBack s.device
        scheduled := s.scheduled.erase id
        waitFor := s.waitFor.give }

theorem setPoint_self
    (s : SynchDevice Device Request Answer) (t : ThreadId)
    (p : Point Request Answer) : (s.setPoint t p).point t = p :=
  Function.update_self ..

theorem setPoint_of_ne
    (s : SynchDevice Device Request Answer) (p : Point Request Answer)
    (hu : u ≠ t) : (s.setPoint t p).point u = s.point u :=
  Function.update_of_ne hu ..

theorem stage_setPoint
    (s : SynchDevice Device Request Answer) (t : ThreadId)
    (p : Point Request Answer) :
    (fun u => ((s.setPoint t p).point u).stage) =
      Function.update (fun u => (s.point u).stage) t p.stage :=
  Function.comp_update Point.stage s.point t p

/-- What holds of every thread still does when it holds of the one that has
taken a step. -/
theorem forall_setPoint
    {prop : ThreadId → Point Request Answer → Prop}
    {p : Point Request Answer} (h : ∀ u, prop u (s.point u)) (hp : prop t p) :
    ∀ u, prop u ((s.setPoint t p).point u) := by
  intro u
  by_cases hu : u = t
  · subst hu
    rw [setPoint_self]
    exact hp
  · rw [setPoint_of_ne _ _ hu]
    exact h u

theorem Move.guards
    (hmove : Move driver s event s')
    (h : s.lock.Guards fun u => (s.point u).stage) :
    s'.lock.Guards fun u => (s'.point u).stage := by
  cases hmove with
  | calls hp => exact h.stays hp rfl
  | blocks hp hvalue => exact h.sleeps hvalue
  | acquires hp hvalue =>
      rw [stage_setPoint]
      exact h.enters hvalue
  | holds hp =>
      rw [stage_setPoint]
      exact h.moves (Lock.inside_of_point hp (by simp [Point.stage]))
        (by simp [Point.stage]) fun _ => rfl
  | requests hp => exact h.stays hp rfl
  | sleeps hp => exact h
  | passes hp => exact h.stays hp rfl
  | releases hp =>
      rw [stage_setPoint]
      exact h.moves (Lock.inside_of_point hp (by simp [Point.stage]))
        (by simp [Point.stage]) (by simp [Point.stage])
  | gives hp =>
      rw [stage_setPoint]
      exact h.leaves (Lock.inside_of_point hp (by simp [Point.stage]))
  | returns hp => exact h.stays hp rfl
  | completes => exact h

/-! ## The semaphore -/

/-- Only one thread waits for an interrupt. -/
theorem awaited_unique
    {id id' : RequestId} (hguards : s.lock.Guards fun u => (s.point u).stage)
    (ht : (s.point t).awaited = some id)
    (hu : (s.point u).awaited = some id') : t = u ∧ id = id' := by
  have hsame : t = u := hguards.unique (Point.inside_of_awaited ht)
    (Point.inside_of_awaited hu)
  subst hsame
  rw [ht] at hu
  exact ⟨rfl, Option.some.inj hu⟩

/-- A thread that does not wait for an interrupt goes on without doing so. -/
theorem Turn.keep
    {s₁ : SynchDevice Device Request Answer} {p : Point Request Answer}
    (h : s.Turn) (hpoint : s₁.point = s.point)
    (hscheduled : s₁.scheduled = s.scheduled)
    (hwaitFor : s₁.waitFor = s.waitFor) (ht : (s.point t).awaited = none)
    (hp : p.awaited = none) : (s₁.setPoint t p).Turn := by
  have hawaited : ∀ u, ((s₁.setPoint t p).point u).awaited =
      (s.point u).awaited := by
    intro u
    by_cases hu : u = t
    · rw [hu, setPoint_self, hp, ht]
    · rw [setPoint_of_ne _ _ hu, hpoint]
  cases h with
  | free hnone hempty hunit =>
      refine .free ?_ (hscheduled.trans hempty) (hwaitFor.trans hunit)
      intro u
      rw [hawaited, hnone]
  | busy hu hone hzero hqueue =>
      refine .busy ((hawaited _).trans hu) (hscheduled.trans hone) ?_ ?_
      · show s₁.waitFor.value = 0
        rw [hwaitFor, hzero]
      · show s₁.waitFor.queue = [] ∨ s₁.waitFor.queue = _
        rw [hwaitFor]
        exact hqueue
  | served hu hempty hunit =>
      exact .served ((hawaited _).trans hu) (hscheduled.trans hempty)
        (hwaitFor.trans hunit)

/-- While a thread makes its request, nobody waits for an interrupt. -/
theorem Turn.free_of_requesting
    {request : Request} (h : s.Turn)
    (hguards : s.lock.Guards fun u => (s.point u).stage)
    (ht : s.point t = .requesting request) :
    s.scheduled = [] ∧ s.waitFor = ⟨0, []⟩ := by
  have hnobody : ∀ {u : ThreadId} {id : RequestId},
      (s.point u).awaited ≠ some id := by
    intro u id hu
    have hsame : t = u := hguards.unique (by simp [ht, Point.stage])
      (Point.inside_of_awaited hu)
    rw [← hsame, ht] at hu
    cases hu
  cases h with
  | free _ hempty hunit => exact ⟨hempty, hunit⟩
  | busy hu => exact (hnobody hu).elim
  | served hu => exact (hnobody hu).elim

/-- There is one interrupt at most that can occur. -/
theorem Turn.only {id : RequestId} (h : s.Turn) (hid : id ∈ s.scheduled) :
    s.scheduled = [id] := by
  cases h with
  | free _ hempty => simp [hempty] at hid
  | @busy _ id' _ hone =>
      have hsame : id = id' := by simpa [hone] using hid
      rw [hsame, hone]
  | served _ hempty => simp [hempty] at hid

theorem Move.turn
    (hmove : Move driver s event s')
    (hguards : s.lock.Guards fun u => (s.point u).stage) (h : s.Turn) :
    s'.Turn := by
  have hnone : ∀ {t : ThreadId} {p : Point Request Answer}, s.point t = p →
      p.awaited = none → (s.point t).awaited = none := by
    intro t p hp hp'
    rw [hp, hp']
  have hsome : ∀ {t : ThreadId} {id : RequestId} {answer : Answer},
      s.point t = .waiting id answer → (s.point t).awaited = some id := by
    intro t id answer hp
    rw [hp]
    rfl
  cases hmove with
  | calls hp => exact h.keep rfl rfl rfl (hnone hp rfl) rfl
  | blocks hp =>
      cases h with
      | free hall hempty hunit => exact .free hall hempty hunit
      | busy hu hone hzero hqueue => exact .busy hu hone hzero hqueue
      | served hu hempty hunit => exact .served hu hempty hunit
  | acquires hp => exact h.keep rfl rfl rfl (hnone hp rfl) rfl
  | holds hp => exact h.keep rfl rfl rfl (hnone hp rfl) rfl
  | @requests t request device answer hp hrequest =>
      obtain ⟨hempty, hunit⟩ := h.free_of_requesting hguards hp
      have hawaited : ((s.setPoint t (.waiting s.issued answer)).point
          t).awaited = some s.issued := by
        rw [setPoint_self]
        rfl
      refine .busy hawaited ?_ ?_ ?_
      · show s.scheduled ++ [s.issued] = [s.issued]
        rw [hempty, List.nil_append]
      · show s.waitFor.value = 0
        rw [hunit]
      · refine .inl ?_
        show s.waitFor.queue = []
        rw [hunit]
  | @sleeps t id answer hp hawake hvalue =>
      rw [Semaphore.test_of_zero hvalue]
      cases h with
      | free hall =>
          have hself := hall t
          rw [hsome hp] at hself
          cases hself
      | @busy u id' hu hone hzero hqueue =>
          obtain ⟨rfl, rfl⟩ := awaited_unique hguards (hsome hp) hu
          refine .busy hu hone hzero (.inr ?_)
          cases hqueue with
          | inl hempty => simp [hempty]
          | inr hasleep => simp [hasleep] at hawake
      | served hu hempty hunit =>
          rw [hunit] at hvalue
          cases hvalue
  | @passes t id answer hp hvalue =>
      rw [Semaphore.test_of_ne_zero hvalue]
      cases h with
      | free hall =>
          have hself := hall t
          rw [hsome hp] at hself
          cases hself
      | busy hu hone hzero => exact (hvalue hzero).elim
      | served hu hempty hunit =>
          refine .free ?_ hempty ?_
          · intro v
            by_cases hv : v = t
            · rw [hv, setPoint_self]
              rfl
            · rw [setPoint_of_ne _ _ hv]
              cases hawaited : (s.point v).awaited with
              | none => rfl
              | some id' =>
                  exact (hv (awaited_unique hguards hawaited (hsome hp)).1).elim
          · show Semaphore.mk _ _ = _
            rw [hunit]
            rfl
  | releases hp => exact h.keep rfl rfl rfl (hnone hp rfl) rfl
  | gives hp => exact h.keep rfl rfl rfl (hnone hp rfl) rfl
  | returns hp => exact h.keep rfl rfl rfl (hnone hp rfl) rfl
  | @completes id hid =>
      cases h with
      | free hall hempty => simp [hempty] at hid
      | @busy u id' hu hone hzero hqueue =>
          have hsame : id = id' := by simpa [hone] using hid
          subst hsame
          refine .served hu ?_ ?_
          · show s.scheduled.erase id = []
            simp [hone]
          · show s.waitFor.give = ⟨1, []⟩
            unfold Semaphore.give
            rw [hzero]
            cases hqueue with
            | inl hempty => simp [hempty]
            | inr hasleep => simp [hasleep]
      | served hu hempty => simp [hempty] at hid

/-! ## The requests -/

/-- The requests are numbered in the order in which they are made, and the
interrupts occur in this order. -/
structure Numbered (trace : List (Event Answer))
    (s : SynchDevice Device Request Answer) : Prop where
  issued : (issues trace).map Prod.snd = List.range s.issued
  completed : completed trace ++ s.scheduled = List.range s.issued

theorem issues_append (trace : List (Event Answer)) (event : Event Answer) :
    issues (trace ++ [event]) = issues trace ++ issues [event] :=
  List.filterMap_append

theorem completed_append (trace : List (Event Answer)) (event : Event Answer) :
    completed (trace ++ [event]) = completed trace ++ completed [event] :=
  List.filterMap_append

theorem Move.numbered
    (hmove : Move driver s event s') (hturn : s.Turn) (h : Numbered trace s) :
    Numbered (trace ++ [event]) s' := by
  have hsilent : ∀ {event : Event Answer}, issues [event] = [] →
      SynchDevice.completed [event] = [] → s'.issued = s.issued →
      s'.scheduled = s.scheduled → Numbered (trace ++ [event]) s' := by
    intro event hissues hcompleted hissued hscheduled
    constructor
    · rw [issues_append, hissues, List.append_nil, hissued]
      exact h.issued
    · rw [completed_append, hcompleted, List.append_nil, hissued, hscheduled]
      exact h.completed
  cases hmove with
  | @requests t request device answer hp hrequest =>
      constructor
      · rw [issues_append, List.map_append, h.issued]
        exact List.range_succ.symm
      · rw [completed_append]
        show completed trace ++ [] ++ (s.scheduled ++ [s.issued]) = _
        rw [List.append_nil, ← List.append_assoc, h.completed]
        exact List.range_succ.symm
  | @completes id hid =>
      have hone : s.scheduled = [id] := hturn.only hid
      constructor
      · rw [issues_append]
        exact (congrArg _ (List.append_nil _)).trans h.issued
      · rw [completed_append]
        show completed trace ++ [id] ++ s.scheduled.erase id = _
        rw [← h.completed, hone]
        simp
  | _ => exact hsilent rfl rfl rfl rfl

/-- The requests that a thread has made are those that its calls have returned
for, and that of the call it is in. -/
theorem Move.hands (hmove : Move driver s event s') (u : ThreadId) :
    (s.point u).underway ++ issuedBy u [event] =
      returnedTo u [event] ++ (s'.point u).underway := by
  have hkeep : ∀ {t : ThreadId} {p q : Point Request Answer}
      {s₁ : SynchDevice Device Request Answer} {silent : List RequestId},
      s.point t = p → s₁.point = s.point → q.underway = p.underway →
      silent = [] → (s.point u).underway ++ silent =
        silent ++ ((s₁.setPoint t q).point u).underway := by
    intro t p q s₁ silent hp hpoint hsame hsilent
    rw [hsilent, List.append_nil, List.nil_append]
    by_cases hu : u = t
    · rw [hu, setPoint_self, hsame, hp]
    · rw [setPoint_of_ne _ _ hu, hpoint]
  cases hmove with
  | calls hp => exact hkeep hp rfl rfl rfl
  | blocks hp => exact List.append_nil _
  | acquires hp => exact hkeep hp rfl rfl rfl
  | holds hp => exact hkeep hp rfl rfl rfl
  | @requests t request device answer hp =>
      by_cases hu : u = t
      · subst hu
        simp [setPoint_self, hp, Point.underway, Point.awaited, Point.passed,
          issuedBy, returnedTo]
      · simp [setPoint_of_ne _ _ hu, issuedBy, returnedTo, Ne.symm hu]
  | sleeps hp => exact List.append_nil _
  | passes hp => exact hkeep hp rfl rfl rfl
  | releases hp => exact hkeep hp rfl rfl rfl
  | gives hp => exact hkeep hp rfl rfl rfl
  | @returns t id answer hp =>
      by_cases hu : u = t
      · subst hu
        simp [setPoint_self, hp, Point.underway, Point.awaited, Point.passed,
          issuedBy, returnedTo]
      · simp [setPoint_of_ne _ _ hu, issuedBy, returnedTo, Ne.symm hu]
  | completes => exact List.append_nil _

/-- What a thread knows of the requests. -/
structure Informed (driver : Driver Device Call Request Answer)
    (trace : List (Event Answer)) (p : Point Request Answer) : Prop where
  planned : ∀ request, p.planned = some request →
    ∃ call, driver.prepare call = .ok request
  passed : ∀ id, p.passed = some id → id ∈ completed trace

theorem Informed.later
    {p : Point Request Answer} (h : Informed driver trace p)
    (event : Event Answer) : Informed driver (trace ++ [event]) p := by
  refine ⟨h.planned, ?_⟩
  intro id hid
  rw [completed_append]
  exact List.mem_append_left _ (h.passed id hid)

theorem Move.informed
    (hmove : Move driver s event s') (hturn : s.Turn)
    (hnumbered : Numbered trace s)
    (hissued : ∀ u id, (s.point u).awaited = some id → id < s.issued)
    (h : ∀ u, Informed driver trace (s.point u)) :
    ∀ u, Informed driver (trace ++ [event]) (s'.point u) := by
  have hlater : ∀ u, Informed driver (trace ++ [event]) (s.point u) :=
    fun u => (h u).later event
  have hkeep : ∀ {t : ThreadId} {p q : Point Request Answer}, s.point t = p →
      (∀ request, q.planned = some request → p.planned = some request) →
      (∀ id, q.passed = some id → p.passed = some id) →
      ∀ u, Informed driver (trace ++ [event]) ((s.setPoint t q).point u) := by
    intro t p q hp hplanned hpassed
    refine forall_setPoint hlater ⟨?_, ?_⟩
    · intro request hrequest
      exact (hlater t).planned request (hp ▸ hplanned request hrequest)
    · intro id hid
      exact (hlater t).passed id (hp ▸ hpassed id hid)
  cases hmove with
  | @calls t call request hp hprepare =>
      refine forall_setPoint hlater ⟨?_, nofun⟩
      intro request' hrequest
      cases hrequest
      exact ⟨call, hprepare⟩
  | blocks hp => exact hlater
  | acquires hp => exact hkeep hp (fun _ h => h) nofun
  | holds hp => exact hkeep hp (fun _ h => h) nofun
  | requests hp => exact hkeep hp nofun nofun
  | sleeps hp => exact hlater
  | @passes t id answer hp hvalue =>
      have hawaited : (s.point t).awaited = some id := by
        rw [hp]
        rfl
      have hover : s.scheduled = [] := by
        cases hturn with
        | free _ hempty => exact hempty
        | busy _ _ hzero => exact (hvalue hzero).elim
        | served _ hempty => exact hempty
      refine forall_setPoint hlater ⟨nofun, ?_⟩
      intro id' hid
      cases hid
      have hall := hnumbered.completed
      rw [hover, List.append_nil] at hall
      rw [completed_append, hall]
      exact List.mem_append_left _
        (List.mem_range.mpr (hissued t id hawaited))
  | releases hp => exact hkeep hp nofun (fun _ h => h)
  | gives hp => exact hkeep hp nofun (fun _ h => h)
  | returns hp => exact hkeep hp nofun nofun
  | completes => exact hlater

/-- The device is not busy unless it has a request. -/
theorem Move.idle
    (hmove : Move driver s event s')
    (h : s.scheduled = [] → driver.busy s.device = false) :
    s'.scheduled = [] → driver.busy s'.device = false := by
  cases hmove with
  | requests => exact fun hempty => (List.append_ne_nil_of_right_ne_nil _
      (List.cons_ne_nil _ _) hempty).elim
  | completes => exact fun _ => driver.busy_callBack s.device
  | _ => exact h

/-! ## All steps -/

theorem mem_issuedBy {id : RequestId} :
    id ∈ issuedBy t trace ↔ (t, id) ∈ issues trace := by
  simp only [issuedBy, issues, List.mem_filterMap]
  refine exists_congr fun event => and_congr_right fun _ => ?_
  cases event with
  | issued u id' =>
      by_cases hu : u = t <;> simp [hu]
  | _ => simp

/-- The invariant of a synchronized device. -/
structure Sound (driver : Driver Device Call Request Answer)
    (trace : List (Event Answer)) (s : SynchDevice Device Request Answer) :
    Prop where
  guards : s.lock.Guards fun u => (s.point u).stage
  turn : s.Turn
  idle : s.scheduled = [] → driver.busy s.device = false
  numbered : Numbered trace s
  hands : ∀ u, issuedBy u trace = returnedTo u trace ++ (s.point u).underway
  informed : ∀ u, Informed driver trace (s.point u)

theorem Sound.mem_issues
    {id : RequestId} (h : Sound driver trace s)
    (hid : id ∈ (s.point t).underway) : (t, id) ∈ issues trace := by
  rw [← mem_issuedBy, h.hands]
  exact List.mem_append_right _ hid

theorem Sound.lt_issued
    {id : RequestId} (h : Sound driver trace s)
    (hid : id ∈ (s.point t).underway) : id < s.issued := by
  rw [← List.mem_range, ← h.numbered.issued]
  exact List.mem_map_of_mem (h.mem_issues hid)

theorem Sound.move (h : Sound driver trace s) (hmove : Move driver s event s') :
    Sound driver (trace ++ [event]) s' where
  guards := hmove.guards h.guards
  turn := hmove.turn h.guards h.turn
  idle := hmove.idle h.idle
  numbered := hmove.numbered h.turn h.numbered
  hands u := by
    have hone := hmove.hands u
    simp only [issuedBy, returnedTo, List.filterMap_append] at hone ⊢
    have hbefore := h.hands u
    simp only [issuedBy, returnedTo] at hbefore
    rw [hbefore, List.append_assoc, hone, ← List.append_assoc]
  informed := by
    refine hmove.informed h.turn h.numbered ?_ h.informed
    intro u id hid
    have hunderway : id ∈ (s.point u).underway := by
      simp [Point.underway, hid]
    exact h.lt_issued hunderway

theorem sound_start {device : Device} (hidle : driver.busy device = false) :
    Sound driver [] (start device : SynchDevice Device Request Answer) where
  guards := Lock.guards_new
  turn := .free (fun _ => rfl) rfl rfl
  idle _ := hidle
  numbered := ⟨rfl, rfl⟩
  hands _ := rfl
  informed _ := ⟨nofun, nofun⟩

/-- What a thread does next: nothing, if it is asleep or in no call; the
device fails; or it takes a step. -/
theorem go_moves (h : Sound driver trace s) (t : ThreadId) :
    s.go driver t = .error .disabled ∨
      (∃ request fault, s.point t = .requesting request ∧
        driver.request s.device request = .error fault ∧
        s.go driver t = .error (.fault fault)) ∨
      ∃ s' event, s.go driver t = .ok (s', event) ∧
        Move driver s event s' := by
  cases hp : s.point t with
  | outside => exact .inl (by simp only [go, hp])
  | acquiring request =>
      by_cases hasleep : t ∈ s.lock.semaphore.queue
      · exact .inl (by simp only [go, hp, if_pos hasleep])
      · by_cases hvalue : s.lock.semaphore.value = 0
        · have htest : (s.lock.test t).2 = false := by
            simp [Lock.test, Semaphore.test_of_zero hvalue]
          refine .inr (.inr ⟨_, _, ?_, .blocks hp hvalue⟩)
          simp [go, hp, hasleep, htest]
        · have htest : (s.lock.test t).2 = true := by
            simp [Lock.test, Semaphore.test_of_ne_zero hvalue]
          refine .inr (.inr ⟨_, _, ?_, .acquires hp hvalue⟩)
          simp [go, hp, hasleep, htest]
  | acquired request =>
      exact .inr (.inr ⟨_, _, by simp only [go, hp], .holds hp⟩)
  | requesting request =>
      cases hrequest : driver.request s.device request with
      | error fault =>
          refine .inr (.inl ⟨request, fault, rfl, hrequest, ?_⟩)
          simp only [go, hp, hrequest]
          rfl
      | ok result =>
          refine .inr (.inr ⟨_, _, ?_, .requests hp hrequest⟩)
          simp only [go, hp, hrequest]
          rfl
  | waiting id answer =>
      by_cases hasleep : t ∈ s.waitFor.queue
      · exact .inl (by simp only [go, hp, if_pos hasleep])
      · by_cases hvalue : s.waitFor.value = 0
        · refine .inr (.inr ⟨_, _, ?_, .sleeps hp hasleep hvalue⟩)
          simp [go, hp, hasleep, Semaphore.test_of_zero hvalue]
        · refine .inr (.inr ⟨_, _, ?_, .passes hp hvalue⟩)
          simp [go, hp, hasleep, Semaphore.test_of_ne_zero hvalue]
  | releasing id answer =>
      have hdrop : s.lock.drop t = .ok { s.lock with lockHolder := none } :=
        h.guards.drop_ok (by rw [hp]; rfl)
      refine .inr (.inr ⟨_, _, ?_, .releases hp⟩)
      simp only [go, hp, hdrop]
      rfl
  | released id answer =>
      exact .inr (.inr ⟨_, _, by simp only [go, hp], .gives hp⟩)
  | returning id answer =>
      exact .inr (.inr ⟨_, _, by simp only [go, hp], .returns hp⟩)

/-- A step fails only where the thread's own preparation of its request does,
or the device. -/
theorem step_moves (h : Sound driver trace s) (action : Action Call) :
    step driver s action = .error .disabled ∨
      (∃ t call fault, action = .call t call ∧
        driver.prepare call = .error fault ∧
        step driver s action = .error (.fault fault)) ∨
      (∃ t request fault, action = .go t ∧ s.point t = .requesting request ∧
        driver.request s.device request = .error fault ∧
        step driver s action = .error (.fault fault)) ∨
      ∃ s' event, step driver s action = .ok (s', event) ∧
        Move driver s event s' := by
  cases action with
  | call t call =>
      cases hp : s.point t with
      | outside =>
          cases hprepare : driver.prepare call with
          | error fault =>
              refine .inr (.inl ⟨t, call, fault, rfl, hprepare, ?_⟩)
              simp only [step, hp, hprepare]
              rfl
          | ok request =>
              refine .inr (.inr (.inr ⟨_, _, ?_, .calls hp hprepare⟩))
              simp only [step, hp, hprepare]
              rfl
      | _ => exact .inl (by simp only [step, hp])
  | go t =>
      obtain hdisabled | ⟨request, fault, hp, hrequest, hfault⟩ | hmoves :=
        go_moves h t
      · exact .inl hdisabled
      · exact .inr (.inr (.inl ⟨t, request, fault, rfl, hp, hrequest, hfault⟩))
      · exact .inr (.inr (.inr hmoves))
  | interrupt id =>
      by_cases hid : id ∈ s.scheduled
      · exact .inr (.inr (.inr ⟨_, _, if_pos hid, .completes hid⟩))
      · exact .inl (if_neg hid)

theorem move_of_step
    {action : Action Call} (h : Sound driver trace s)
    (hstep : step driver s action = .ok (s', event)) :
    Move driver s event s' := by
  obtain hdisabled | ⟨-, -, fault, -, -, hfault⟩ |
    ⟨-, -, fault, -, -, -, hfault⟩ | ⟨after, happened, htaken, hmove⟩ :=
    step_moves h action
  · rw [hdisabled] at hstep
    cases hstep
  · rw [hfault] at hstep
    cases hstep
  · rw [hfault] at hstep
    cases hstep
  · rw [htaken] at hstep
    cases hstep
    exact hmove

/-! ## All runs -/

theorem run_sound
    {guard : List (Event Answer) → SynchDevice Device Request Answer →
      Action Call → Prop} {device : Device}
    (hidle : driver.busy device = false)
    (hrun : (system driver device).Run guard trace s) :
    Sound driver trace s := by
  refine hrun.invariant (Sound driver) (sound_start hidle) ?_
  intro trace s s' action event _ hsound _ hstep
  exact hsound.move (move_of_step hsound hstep)

/-- The thread has made a request whose interrupt has not occurred. -/
def Outstanding (s : SynchDevice Device Request Answer) (t : ThreadId) : Prop :=
  ∃ id, (s.point t).awaited = some id ∧ id ∈ s.scheduled

/-- Requests are made one after the other, each when the device is not busy,
and each call returns behind the interrupt of its own request. -/
structure Orderly (driver : Driver Device Call Request Answer)
    (trace : List (Event Answer)) (s : SynchDevice Device Request Answer) :
    Prop where
  ready : ∀ t request, s.point t = .requesting request →
    driver.busy s.device = false
  one : ∀ t u, s.Outstanding t → s.Outstanding u → t = u
  single : s.scheduled.length ≤ 1
  distinct : ((issues trace).map Prod.snd).Nodup
  hands : ∀ t, issuedBy t trace = returnedTo t trace ++ (s.point t).underway
  own : ∀ earlier t id answer later,
    trace = earlier ++ .returned t id answer :: later →
      ∃ before between after, earlier =
        before ++ .issued t id :: (between ++ .completed id :: after)

/-- An interrupt occurs for a request that has been made. -/
theorem issued_of_completed
    {device : Device} {id : RequestId} {later : List (Event Answer)}
    (hidle : driver.busy device = false)
    (hrun : (system driver device).Reaches
      (trace ++ .completed id :: later) s) :
    ∃ t, (t, id) ∈ issues trace := by
  obtain ⟨before, after, action, hbefore, -, hstep, -⟩ := hrun.step_at
  have hsound := run_sound hidle hbefore
  have hmove := move_of_step hsound hstep
  have hid : id ∈ before.scheduled := by
    cases hmove with
    | completes hid => exact hid
  have hmem : id ∈ (issues trace).map Prod.snd := by
    rw [hsound.numbered.issued, ← hsound.numbered.completed]
    exact List.mem_append_right _ hid
  obtain ⟨⟨t, id'⟩, hissue, rfl⟩ := List.mem_map.mp hmem
  exact ⟨t, hissue⟩

/-- A call returns when the interrupt of its request has occurred. -/
theorem completed_of_returned
    {device : Device} {id : RequestId} {answer : Answer}
    {later : List (Event Answer)} (hidle : driver.busy device = false)
    (hrun : (system driver device).Reaches
      (trace ++ .returned t id answer :: later) s) :
    id ∈ completed trace ∧ (t, id) ∈ issues trace := by
  obtain ⟨before, after, action, hbefore, -, hstep, -⟩ := hrun.step_at
  have hsound := run_sound hidle hbefore
  have hmove := move_of_step hsound hstep
  have hp : before.point t = .returning id answer := by
    cases hmove with
    | returns hp => exact hp
  have hpassed : (before.point t).passed = some id := by
    rw [hp]
    rfl
  have hunderway : id ∈ (before.point t).underway := by
    simp [Point.underway, hpassed]
  exact ⟨(hsound.informed t).passed id hpassed, hsound.mem_issues hunderway⟩

theorem mem_issues {id : RequestId} :
    (t, id) ∈ issues trace ↔ Event.issued t id ∈ trace := by
  simp only [issues, List.mem_filterMap]
  constructor
  · rintro ⟨event, hevent, hissued⟩
    cases event with
    | issued u id' =>
        cases hissued
        exact hevent
    | _ => cases hissued
  · intro hevent
    exact ⟨_, hevent, rfl⟩

theorem mem_completed {id : RequestId} :
    id ∈ completed trace ↔ Event.completed id ∈ trace := by
  simp only [completed, List.mem_filterMap]
  constructor
  · rintro ⟨event, hevent, hcompleted⟩
    cases event with
    | completed id' =>
        cases hcompleted
        exact hevent
    | _ => cases hcompleted
  · intro hevent
    exact ⟨_, hevent, rfl⟩

theorem run_orderly
    {device : Device} (hidle : driver.busy device = false)
    (hrun : (system driver device).Reaches trace s) :
    Orderly driver trace s := by
  have hsound := run_sound hidle hrun
  have hdistinct : ((issues trace).map Prod.snd).Nodup := by
    rw [hsound.numbered.issued]
    exact List.nodup_range
  refine ⟨?_, ?_, ?_, hdistinct, hsound.hands, ?_⟩
  · intro t request hp
    obtain ⟨hempty, -⟩ := hsound.turn.free_of_requesting hsound.guards hp
    exact hsound.idle hempty
  · rintro t u ⟨id, ht, -⟩ ⟨id', hu, -⟩
    exact (awaited_unique hsound.guards ht hu).1
  · cases hsound.turn with
    | free _ hempty => simp [hempty]
    | busy _ hone => simp [hone]
    | served _ hempty => simp [hempty]
  · rintro earlier t id answer later rfl
    obtain ⟨hcompleted, hissue⟩ := completed_of_returned hidle hrun
    obtain ⟨start, after, rfl⟩ :=
      List.append_of_mem (mem_completed.mp hcompleted)
    -- the request has been made before, and by nobody else
    have hsplit : start ++ Event.completed id :: (after ++
        .returned t id answer :: later) =
        start ++ Event.completed id :: after ++
          .returned t id answer :: later := by
      simp
    rw [← hsplit] at hrun hdistinct
    obtain ⟨u, hearlier⟩ := issued_of_completed hidle hrun
    have hsame : (u, id) = (t, id) := by
      refine List.inj_on_of_nodup_map hdistinct ?_ ?_ rfl
      · simp only [issues, List.filterMap_append] at hearlier ⊢
        exact List.mem_append_left _ hearlier
      · rw [hsplit]
        simp only [issues, List.filterMap_append] at hissue ⊢
        exact List.mem_append_left _ hissue
    cases hsame
    obtain ⟨before, between, rfl⟩ :=
      List.append_of_mem (mem_issues.mp hearlier)
    exact ⟨before, between, after, by simp⟩

/-! ## The three devices -/

theorem disk_ok
    {disk : Disk} {request : DiskRequest} (hidle : disk.active = false)
    (hrange : request.InRange) : ∃ result, disk.request request = .ok result := by
  cases request with
  | read sectorNumber =>
      have hexists : 0 ≤ sectorNumber ∧ sectorNumber < numSectors := hrange
      have hread : disk.readRequest sectorNumber =
          .ok ({ disk with active := true }, disk.sectors sectorNumber) := by
        rw [Disk.readRequest, assert_of_true hidle, ok_bind,
          assert_of_true hexists]
        rfl
      exact ⟨_, hread⟩
  | write sectorNumber data =>
      have hexists : 0 ≤ sectorNumber ∧ sectorNumber < numSectors := hrange
      have hwrite : disk.writeRequest sectorNumber data =
          .ok ⟨Function.update disk.sectors sectorNumber data, true⟩ := by
        rw [Disk.writeRequest, assert_of_true hidle, ok_bind,
          assert_of_true hexists]
        rfl
      exact ⟨_, by rw [Disk.request, hwrite]; rfl⟩

theorem console_ok
    {console : ConsoleOutput} (ch : BitVec 8) (hidle : console.putBusy = false) :
    ∃ result, synchConsoleOutput.request console ch = .ok result := by
  have hput : console.putChar ch = .ok ⟨console.written ++ [ch], true⟩ := by
    rw [ConsoleOutput.putChar, assert_of_true hidle]
    rfl
  refine ⟨(⟨console.written ++ [ch], true⟩, ()), ?_⟩
  simp only [synchConsoleOutput, hput, ok_bind]
  rfl

theorem network_ok
    {hostName : BitVec 32} {network : NetworkOutput} {letter : Letter}
    {packet : Packet} (hidle : network.sendBusy = false)
    (hpacket : letter.frame hostName = .ok packet) :
    ∃ result, (postOfficeOutput hostName).request network packet =
      .ok result := by
  obtain ⟨network', hsend⟩ := NetworkOutput.send_framed hidle
    (Letter.framed_of_frame hpacket)
  refine ⟨(network', ()), ?_⟩
  simp only [postOfficeOutput, hsend, ok_bind]
  rfl

/-- A step fails only where a request is not accepted: when it is prepared, or
by the device, which is not busy then. -/
theorem fault_cases
    {device : Device} {action : Action Call} {fault : Fault}
    (hidle : driver.busy device = false)
    (hrun : (system driver device).Reaches trace s)
    (hfault : step driver s action = .error (.fault fault)) :
    (∃ t call, action = .call t call ∧ driver.prepare call = .error fault) ∨
      ∃ t request, action = .go t ∧ s.point t = .requesting request ∧
        driver.busy s.device = false ∧
        (∃ call, driver.prepare call = .ok request) ∧
        driver.request s.device request = .error fault := by
  have hsound := run_sound hidle hrun
  obtain hdisabled | ⟨t, call, fault', haction, hprepare, hfault'⟩ |
    ⟨t, request, fault', haction, hp, hrequest, hfault'⟩ |
    ⟨after, happened, htaken, -⟩ := step_moves hsound action
  · rw [hdisabled] at hfault
    cases hfault
  · rw [hfault'] at hfault
    cases hfault
    exact .inl ⟨t, call, haction, hprepare⟩
  · rw [hfault'] at hfault
    cases hfault
    have hready := (run_orderly hidle hrun).ready t request hp
    have hprepared := (hsound.informed t).planned request (by rw [hp]; rfl)
    exact .inr ⟨t, request, haction, hp, hready, hprepared, hrequest⟩
  · rw [htaken] at hfault
    cases hfault

/-- In every run of the disk, of the console and of the network, the requests
are orderly; and the assertions fail only for a sector that does not exist and
for a letter that cannot be sent. -/
theorem devices_orderly :
    (∀ sectors trace s, (system synchDisk (Disk.new sectors)).Reaches trace s →
      Orderly synchDisk trace s ∧
        ∀ action fault, step synchDisk s action = .error (.fault fault) →
          ∃ t request, action = .go t ∧ s.point t = .requesting request ∧
            ¬request.InRange) ∧
      (∀ trace s,
        (system synchConsoleOutput ConsoleOutput.new).Reaches trace s →
          Orderly synchConsoleOutput trace s ∧
            ∀ action fault,
              step synchConsoleOutput s action ≠ .error (.fault fault)) ∧
      ∀ hostName trace s,
        (system (postOfficeOutput hostName) NetworkOutput.new).Reaches
          trace s →
        Orderly (postOfficeOutput hostName) trace s ∧
          ∀ action fault,
            step (postOfficeOutput hostName) s action =
              .error (.fault fault) →
            ∃ t letter, action = .call t letter ∧ ¬letter.Valid := by
  refine ⟨?_, ?_, ?_⟩
  · intro sectors trace s hrun
    refine ⟨run_orderly rfl hrun, ?_⟩
    intro action fault hfault
    obtain ⟨t, call, -, hprepare⟩ |
      ⟨t, request, haction, hp, hready, -, hrequest⟩ :=
      fault_cases rfl hrun hfault
    · cases hprepare
    · refine ⟨t, request, haction, hp, ?_⟩
      intro hrange
      obtain ⟨result, hok⟩ := disk_ok hready hrange
      exact nomatch hrequest.symm.trans hok
  · intro trace s hrun
    refine ⟨run_orderly rfl hrun, ?_⟩
    intro action fault hfault
    obtain ⟨t, call, -, hprepare⟩ | ⟨t, ch, -, -, hready, -, hrequest⟩ :=
      fault_cases rfl hrun hfault
    · cases hprepare
    · obtain ⟨result, hok⟩ := console_ok ch hready
      exact nomatch hrequest.symm.trans hok
  · intro hostName trace s hrun
    refine ⟨run_orderly rfl hrun, ?_⟩
    intro action fault hfault
    obtain ⟨t, letter, haction, hprepare⟩ |
      ⟨t, packet, -, -, hready, ⟨letter, hpacket⟩, hrequest⟩ :=
      fault_cases rfl hrun hfault
    · refine ⟨t, letter, haction, ?_⟩
      intro hvalid
      obtain ⟨packet, hpacket, -⟩ := Letter.frame_valid hvalid hostName
      exact nomatch hprepare.symm.trans hpacket
    · obtain ⟨result, hok⟩ := network_ok hready hpacket
      exact nomatch hrequest.symm.trans hok

/-- A letter of one byte for mail box 1 of host 0, which gets lost. -/
def lostLetter : Letter where
  pktHdr := ⟨0, 0, 0⟩
  mailHdr := ⟨1, 2, 1⟩
  data := [7]
  buffer := ⟨List.replicate maxPacketSize 0, rfl⟩
  lost := true
  wireBuffer := ⟨List.replicate maxWireSize 0, rfl⟩

/-- Two threads send a letter; the first one returns. -/
def lostRun : List (Action Letter) :=
  [.call 1 lostLetter, .go 1, .go 1, .call 2 lostLetter, .go 2, .go 1, .go 1,
    .interrupt 0, .go 1, .go 1, .go 1, .go 1]

theorem devices_orderly_lostLetter :
    ∃ trace s, (system (postOfficeOutput 3) NetworkOutput.new).Reaches trace s ∧
      returnedTo 1 trace = [0] ∧ s.device.wire.length = 0 ∧
      Orderly (postOfficeOutput 3) trace s := by
  have hreplay : (system (postOfficeOutput 3) NetworkOutput.new).Replays
      StepSystem.anyStep lostRun (fun trace s =>
        returnedTo 1 trace = [0] ∧ s.device.wire.length = 0) = true := by
    decide
  obtain ⟨trace, s, hrun, hcheck⟩ := StepSystem.exists_run_of_replays hreplay
  obtain ⟨hreturned, hwire⟩ := of_decide_eq_true hcheck
  obtain ⟨-, -, hnetwork⟩ := devices_orderly
  exact ⟨trace, s, hrun, hreturned, hwire, (hnetwork 3 trace s hrun).1⟩

end Nachos.Scheduling.SynchDevice
