import Nachos.Library.StepSystem
import Nachos.Conditions

/-!
# Monitors: a lock with a condition

Any number of threads acquire one lock and, while they hold it, wait for one
condition, signal it, broadcast it or release the lock, in any order.  A step
is what one of them does between two points at which another one can run.
-/

namespace Nachos.Scheduling

open Library

namespace Monitor

/-- What a thread acquires the lock for. -/
inductive Goal
  | enter
  | wait (w : WaiterId)
  deriving DecidableEq

/-- What a thread releases the lock after. -/
inductive After
  | leave
  | wait (w : WaiterId)
  deriving DecidableEq

/-- The statement that a thread is about to execute; `all` says that a call of
`Signal` is in the loop of `Broadcast`. -/
inductive Point
  | outside
  | inside
  -- `Acquire`
  | acquiring (goal : Goal)
  | acquired (goal : Goal)
  -- `Signal` and `Broadcast`
  | broadcasting
  | signalling (all : Bool)
  | waking (all : Bool) (w : WaiterId)
  -- `Wait`
  | sleeping (w : WaiterId)
  | deleting (w : WaiterId)
  -- `Release`
  | releasing (after : After)
  | released (after : After)
  deriving DecidableEq

end Monitor

structure Monitor where
  lock : Lock
  condition : Condition
  point : ThreadId → Monitor.Point

namespace Monitor

/-- A thread calls a function, or takes a step in a call. -/
inductive Action
  | acquire (t : ThreadId)
  | release (t : ThreadId)
  | wait (t : ThreadId) (w : WaiterId)
  | signal (t : ThreadId)
  | broadcast (t : ThreadId)
  | go (t : ThreadId)

inductive Event
  | silent
  | waited (w : WaiterId)
  | signalled (w : WaiterId)
  | reacquired (w : WaiterId)
  | broadcasted (t : ThreadId)
  deriving DecidableEq

def setPoint (m : Monitor) (t : ThreadId) (point : Point) : Monitor :=
  { m with point := Function.update m.point t point }

/-- Behind `P` in `Acquire`. -/
def Goal.event : Goal → Event
  | .enter => .silent
  | .wait w => .reacquired w

/-- Behind `Acquire`. -/
def Goal.next : Goal → Point
  | .enter => .inside
  | .wait w => .deleting w

/-- Behind `Release`. -/
def After.next : After → Point
  | .leave => .outside
  | .wait w => .sleeping w

/-- Behind a call of `Signal`. -/
def signalled (all : Bool) : Point :=
  if all then .broadcasting else .inside

/-- `waiter->P()`, from one test to the next. -/
def sleepOn (m : Monitor) (t : ThreadId) (w : WaiterId) (sem : Semaphore) :
    Monitor :=
  let (sem, passes) := sem.test t
  let m := { m with condition := m.condition.setWaiter w (some sem) }
  if passes then m.setPoint t (.acquiring (.wait w)) else m

/-- `Condition::Wait`, up to the call of `Release`. -/
def wait (m : Monitor) (t : ThreadId) (w : WaiterId) :
    Except Fault Monitor := do
  assert (m.lock.isHeldBy t = true)
  let condition ← m.condition.append w
  return { m with condition := condition }.setPoint t (.releasing (.wait w))

/-- `Condition::Signal`, up to the call of `V`. -/
def signal (m : Monitor) (t : ThreadId) (all : Bool) :
    Except Fault Monitor := do
  assert (m.lock.isHeldBy t = true)
  match m.condition.waitQueue with
  | [] => return m.setPoint t (signalled all)
  | w :: rest =>
      return { m with condition := { m.condition with waitQueue := rest } }
        |>.setPoint t (.waking all w)

/-- The next statement of a thread, if it is not asleep and in a call. -/
def go (m : Monitor) (t : ThreadId) : Except StepError (Monitor × Event) :=
  match m.point t with
  | .outside => .error .disabled
  | .inside => .error .disabled
  | .acquiring goal =>
      if t ∈ m.lock.semaphore.queue then .error .disabled
      else
        let (lock, passes) := m.lock.test t
        let m := { m with lock := lock }
        if passes then .ok (m.setPoint t (.acquired goal), Goal.event goal)
        else .ok (m, .silent)
  | .acquired goal =>
      .ok ({ m with lock := m.lock.hold t }.setPoint t (Goal.next goal),
        .silent)
  | .broadcasting =>
      if m.condition.waitQueue = [] then
        .ok (m.setPoint t .inside, .broadcasted t)
      else .ok (m.setPoint t (.signalling true), .silent)
  | .signalling all => do
      let m ← Threads.simulate (m.signal t all)
      return (m, .silent)
  | .waking all w =>
      match m.condition.waiters w with
      | none => .error (.fault .undefinedBehaviour)
      | some sem =>
          let m := { m with
            condition := m.condition.setWaiter w (some sem.give) }
          .ok (m.setPoint t (signalled all), .signalled w)
  | .sleeping w =>
      match m.condition.waiters w with
      | none => .error (.fault .undefinedBehaviour)
      | some sem =>
          if t ∈ sem.queue then .error .disabled
          else .ok (m.sleepOn t w sem, .silent)
  | .deleting w =>
      match m.condition.waiters w with
      | none => .error (.fault .undefinedBehaviour)
      | some _ =>
          let m := { m with condition := m.condition.setWaiter w none }
          .ok (m.setPoint t .inside, .silent)
  | .releasing after => do
      let lock ← Threads.simulate (m.lock.drop t)
      return ({ m with lock := lock }.setPoint t (.released after), .silent)
  | .released after =>
      .ok ({ m with lock := m.lock.give }.setPoint t (After.next after),
        .silent)

/-- `Wait`, `Signal`, `Broadcast` and `Release` are called inside; a semaphore
is made where there is none. -/
def step (m : Monitor) (action : Action) :
    Except StepError (Monitor × Event) :=
  match action with
  | .acquire t =>
      if m.point t = .outside then
        .ok (m.setPoint t (.acquiring .enter), .silent)
      else .error .disabled
  | .release t =>
      if m.point t = .inside then
        .ok (m.setPoint t (.releasing .leave), .silent)
      else .error .disabled
  | .wait t w =>
      if m.point t = .inside ∧ m.condition.waiters w = none then do
        let m ← Threads.simulate (m.wait t w)
        return (m, .waited w)
      else .error .disabled
  | .signal t =>
      if m.point t = .inside then
        .ok (m.setPoint t (.signalling false), .silent)
      else .error .disabled
  | .broadcast t =>
      if m.point t = .inside then .ok (m.setPoint t .broadcasting, .silent)
      else .error .disabled
  | .go t => m.go t

/-- `Lock::Lock` and `Condition::Condition`. -/
def start : Monitor where
  lock := .new
  condition := .new
  point _ := .outside

def system : StepSystem Monitor Action Event StepError where
  start := start
  step := step

/-! ## What the events say -/

/-- The threads that have called `Wait`, by their semaphores, in this order. -/
def waits (trace : List Event) : List WaiterId :=
  trace.filterMap fun
    | .waited w => some w
    | _ => none

/-- The threads that have been signalled, in this order. -/
def wakeUps (trace : List Event) : List WaiterId :=
  trace.filterMap fun
    | .signalled w => some w
    | _ => none

/-- The threads that have got the lock back in `Wait`, in this order. -/
def returns (trace : List Event) : List WaiterId :=
  trace.filterMap fun
    | .reacquired w => some w
    | _ => none

/-- Those that are on their way back, after one more event. -/
def Event.signals (list : List WaiterId) : Event → List WaiterId
  | .signalled w => list ++ [w]
  | .reacquired w => list.erase w
  | _ => list

/-- Those that have been signalled and have not got the lock since. -/
def onTheirWay (trace : List Event) : List WaiterId :=
  trace.foldl Event.signals []

/-! ## The points -/

namespace Point

/-- Where a thread is with respect to the lock. -/
def stage : Point → Lock.Stage
  | .outside => .outside
  | .inside => .holding
  | .acquiring _ => .outside
  | .acquired _ => .entered
  | .broadcasting => .holding
  | .signalling _ => .holding
  | .waking _ _ => .holding
  | .sleeping _ => .outside
  | .deleting _ => .holding
  | .releasing _ => .holding
  | .released _ => .leaving

/-- What a thread has to do with the semaphores of the condition. -/
def role : Point → Condition.Role
  | .acquiring (.wait w) => .acquiring w
  | .acquired (.wait w) => .acquired w
  | .waking _ w => .waking w
  | .sleeping w => .sleeping w
  | .deleting w => .acquired w
  | .releasing (.wait w) => .entering w
  | .released (.wait w) => .entering w
  | _ => .none

end Point

/-! ## The steps -/

/-- The steps that change only where a thread is. -/
inductive Calls (m : Monitor) : Point → Point → Prop
  | acquire : Calls m .outside (.acquiring .enter)
  | release : Calls m .inside (.releasing .leave)
  | signal : Calls m .inside (.signalling false)
  | broadcast : Calls m .inside .broadcasting
  | goesOn : m.condition.waitQueue ≠ [] →
      Calls m .broadcasting (.signalling true)
  | finds {all : Bool} : m.condition.waitQueue = [] →
      Calls m (.signalling all) (signalled all)

/-- What a step does. -/
inductive Move (m : Monitor) : Event → Monitor → Prop
  | calls {t : ThreadId} {p q : Point} : m.point t = p → Calls m p q →
      Move m .silent (m.setPoint t q)
  | blocks {t : ThreadId} {goal : Goal} :
      m.point t = .acquiring goal → m.lock.semaphore.value = 0 →
      t ∉ m.lock.semaphore.queue →
      Move m .silent { m with lock := (m.lock.test t).1 }
  | acquires {t : ThreadId} {goal : Goal} :
      m.point t = .acquiring goal → m.lock.semaphore.value ≠ 0 →
      t ∉ m.lock.semaphore.queue →
      Move m (Goal.event goal) ({ m with lock := (m.lock.test t).1 }.setPoint t
        (.acquired goal))
  | holds {t : ThreadId} {goal : Goal} : m.point t = .acquired goal →
      Move m .silent ({ m with lock := m.lock.hold t }.setPoint t
        (Goal.next goal))
  | ends {t : ThreadId} : m.point t = .broadcasting →
      m.condition.waitQueue = [] →
      Move m (.broadcasted t) (m.setPoint t .inside)
  | signals {t : ThreadId} {all : Bool} {w : WaiterId}
      {rest : List WaiterId} :
      m.point t = .signalling all → m.condition.waitQueue = w :: rest →
      Move m .silent ({ m with
        condition := { m.condition with waitQueue := rest } }.setPoint t
          (.waking all w))
  | wakes {t : ThreadId} {all : Bool} {w : WaiterId} {sem : Semaphore} :
      m.point t = .waking all w → m.condition.waiters w = some sem →
      Move m (.signalled w) ({ m with
        condition := m.condition.setWaiter w (some sem.give) }.setPoint t
          (signalled all))
  | waits {t : ThreadId} {w : WaiterId} : m.point t = .inside →
      m.condition.waiters w = none →
      Move m (.waited w) ({ m with condition :=
        { m.condition.setWaiter w (some ⟨0, []⟩) with
          waitQueue := m.condition.waitQueue ++ [w] } }.setPoint t
            (.releasing (.wait w)))
  | sleeps {t : ThreadId} {w : WaiterId} {sem : Semaphore} :
      m.point t = .sleeping w → m.condition.waiters w = some sem →
      sem.value = 0 → t ∉ sem.queue →
      Move m .silent { m with
        condition := m.condition.setWaiter w (some (sem.test t).1) }
  | passes {t : ThreadId} {w : WaiterId} {sem : Semaphore} :
      m.point t = .sleeping w → m.condition.waiters w = some sem →
      sem.value ≠ 0 →
      Move m .silent ({ m with
        condition := m.condition.setWaiter w (some (sem.test t).1) }.setPoint t
          (.acquiring (.wait w)))
  | deletes {t : ThreadId} {w : WaiterId} : m.point t = .deleting w →
      Move m .silent ({ m with
        condition := m.condition.setWaiter w none }.setPoint t .inside)
  | releases {t : ThreadId} {after : After} :
      m.point t = .releasing after →
      Move m .silent ({ m with
        lock := { m.lock with lockHolder := none } }.setPoint t
          (.released after))
  | gives {t : ThreadId} {after : After} :
      m.point t = .released after →
      Move m .silent ({ m with lock := m.lock.give }.setPoint t
        (After.next after))

variable {m m' : Monitor} {event : Event} {trace : List Event}
variable {t : ThreadId}

theorem setPoint_self (m : Monitor) (t : ThreadId) (p : Point) :
    (m.setPoint t p).point t = p :=
  Function.update_self ..

theorem setPoint_of_ne {u : ThreadId} (m : Monitor) (p : Point)
    (hu : u ≠ t) : (m.setPoint t p).point u = m.point u :=
  Function.update_of_ne hu ..

theorem stage_setPoint (m : Monitor) (t : ThreadId) (p : Point) :
    (fun u => ((m.setPoint t p).point u).stage) =
      Function.update (fun u => (m.point u).stage) t p.stage :=
  Function.comp_update Point.stage m.point t p

theorem role_setPoint (m : Monitor) (t : ThreadId) (p : Point) :
    (fun u => ((m.setPoint t p).point u).role) =
      Function.update (fun u => (m.point u).role) t p.role :=
  Function.comp_update Point.role m.point t p

theorem role_same {p q : Point} (hp : m.point t = p)
    (hsame : q.role = p.role) :
    (fun u => ((m.setPoint t q).point u).role) =
      fun u => (m.point u).role := by
  rw [role_setPoint, Function.update_eq_self_iff, hp, hsame]

theorem stage_signalled (all : Bool) : (signalled all).stage = .holding := by
  cases all <;> rfl

theorem role_signalled (all : Bool) : (signalled all).role = .none := by
  cases all <;> rfl

theorem stage_goalNext (goal : Goal) :
    (Goal.next goal).stage = .holding := by
  cases goal <;> rfl

theorem stage_afterNext (after : After) :
    (After.next after).stage = .outside := by
  cases after <;> rfl

theorem Calls.stage {p q : Point} (hcall : Calls m p q) :
    q.stage = p.stage := by
  cases hcall with
  | finds => exact stage_signalled _
  | _ => rfl

theorem Calls.role {p q : Point} (hcall : Calls m p q) :
    q.role = p.role := by
  cases hcall with
  | finds => exact role_signalled _
  | _ => rfl

/-- Threads that handle the queue of the condition are inside. -/
theorem Point.inside_of_role {p : Point} {w : WaiterId}
    (hrole : p.role = .entering w ∨ p.role = .waking w) :
    p.stage ≠ .outside := by
  cases p with
  | acquiring goal => cases goal <;> simp [role] at hrole
  | outside | sleeping => simp [role] at hrole
  | _ => simp [stage]

/-- Every step keeps at most one thread inside. -/
theorem Move.guards (hmove : Move m event m')
    (h : m.lock.Guards fun u => (m.point u).stage) :
    m'.lock.Guards fun u => (m'.point u).stage := by
  cases hmove with
  | calls hp hcall => exact h.stays hp hcall.stage
  | blocks hp hvalue => exact h.sleeps hvalue
  | acquires hp hvalue =>
      rw [stage_setPoint]
      exact h.enters hvalue
  | holds hp =>
      rw [stage_setPoint, stage_goalNext]
      exact h.moves (Lock.inside_of_point hp (by simp [Point.stage])) (by simp)
        fun _ => rfl
  | ends hp => exact h.stays hp rfl
  | signals hp => exact h.stays hp rfl
  | wakes hp => exact h.stays hp (stage_signalled _)
  | waits hp => exact h.stays hp rfl
  | sleeps hp => exact h
  | passes hp => exact h.stays hp rfl
  | deletes hp => exact h.stays hp rfl
  | releases hp =>
      rw [stage_setPoint]
      exact h.moves (Lock.inside_of_point hp (by simp [Point.stage]))
        (by simp [Point.stage]) (by simp [Point.stage])
  | gives hp =>
      rw [stage_setPoint, stage_afterNext]
      exact h.leaves (Lock.inside_of_point hp (by simp [Point.stage]))

/-- A thread that is inside is the only one with the queue in its hands. -/
theorem only_inside (hguards : m.lock.Guards fun u => (m.point u).stage)
    {p : Point} (hp : m.point t = p) (hinside : p.stage ≠ .outside)
    {u : ThreadId} {w : WaiterId}
    (hu : (m.point u).role = .entering w ∨ (m.point u).role = .waking w) :
    u = t := by
  refine hguards.unique (Point.inside_of_role hu) ?_
  simp only [hp]
  exact hinside

/-- Every step keeps the semaphores of the condition where the threads say. -/
theorem Move.tracks {list : List WaiterId} (hmove : Move m event m')
    (hguards : m.lock.Guards fun u => (m.point u).stage)
    (h : m.condition.Tracks (fun u => (m.point u).role) list) :
    m'.condition.Tracks (fun u => (m'.point u).role) (event.signals list) := by
  have hkeep : ∀ {t : ThreadId} {p q : Point} {lock : Lock},
      m.point t = p → q.role = p.role →
      m.condition.Tracks
        (fun u => (({ m with lock := lock }.setPoint t q).point u).role)
        list := by
    intro t p q lock hp hsame
    have hsame' := role_same hp hsame
    exact hsame' ▸ h
  have hrole : ∀ {t : ThreadId} {p : Point}, m.point t = p →
      (fun u => (m.point u).role) t = p.role := by
    intro t p hp
    simp only [hp]
  cases hmove with
  | calls hp hcall => exact hkeep hp hcall.role
  | blocks hp => exact h
  | @acquires t goal hp =>
      cases goal with
      | enter => exact hkeep hp rfl
      | wait w =>
          rw [role_setPoint]
          exact h.acquires (hrole hp)
  | @holds t goal hp =>
      refine hkeep hp ?_
      cases goal <;> rfl
  | ends hp => exact hkeep hp rfl
  | @signals t all w rest hp hqueue =>
      rw [role_setPoint]
      refine h.signals (hrole hp) hqueue ?_
      intro u hu
      have hself := only_inside hguards hp (by simp [Point.stage]) (.inl hu)
      rw [hself, hp] at hu
      cases hu
  | @wakes t all w sem hp hsem =>
      rw [role_setPoint, role_signalled]
      refine h.wakes (hrole hp) ?_ _
      intro u hu
      exact only_inside hguards hp (by simp [Point.stage]) (.inr hu)
  | waits hp hnone =>
      rw [role_setPoint]
      exact h.waits (hrole hp) hnone
  | sleeps hp hsem hzero =>
      refine h.blocks ?_
      rw [Semaphore.test_of_zero hzero]
      exact hzero
  | passes hp hsem hvalue =>
      rw [role_setPoint]
      exact h.passes (hrole hp) hsem hvalue _
  | deletes hp =>
      rw [role_setPoint]
      exact h.deletes (hrole hp)
  | @releases t after hp =>
      refine hkeep hp ?_
      cases after <;> rfl
  | @gives t after hp =>
      cases after with
      | leave => exact hkeep hp rfl
      | wait w =>
          rw [role_setPoint]
          exact h.sleeps (hrole hp)

end Monitor

end Nachos.Scheduling
