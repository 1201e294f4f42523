import Nachos.Interrupt

/-!
# The order of simulated time

Every interrupt is pending until it has fired, once, not before its time; the
interrupts fire by their times and then by the order in which they have been
scheduled.  The handlers may schedule further interrupts while the firing loop
is at work: these are for the future, so that the loop comes to its end.
-/

namespace Nachos

open Library

namespace Interrupt

/-- The order in which interrupts have to fire. -/
def Before (p q : PendingInterrupt) : Prop :=
  p.when < q.when ∨ p.when = q.when ∧ p.serial < q.serial

/-- What has been scheduled, in order. -/
def scheduled (s : Interrupt) : List PendingInterrupt :=
  s.history.filterMap fun
    | .scheduled interrupt => some interrupt
    | .fired _ _ => none

/-- What has been fired, in order. -/
def fired (s : Interrupt) : List PendingInterrupt :=
  s.history.filterMap fun
    | .scheduled _ => none
    | .fired interrupt _ => some interrupt

theorem before_trans {p q r : PendingInterrupt}
    (hpq : Before p q) (hqr : Before q r) : Before p r := by
  unfold Before at *
  omega

/-! ## The sorted list -/

section Insert

variable {item : PendingInterrupt} {pending : List PendingInterrupt}

theorem compare_neg {x y : PendingInterrupt} :
    pendingCompare x y < 0 ↔ x.when < y.when := by
  unfold pendingCompare
  split
  next h => simp [h]
  next h => split <;> simp [h]

theorem insert_perm :
    (SortedList.insert pendingCompare item pending).Perm
      (item :: pending) := by
  induction pending with
  | nil => exact .refl _
  | cons first rest ih =>
      unfold SortedList.insert
      split
      next => exact .refl _
      next => exact (ih.cons first).trans (.swap item first rest)

/-- An item that is younger than the others goes behind those of its time. -/
theorem insert_sorted
    (hsorted : pending.Pairwise Before)
    (hyounger : ∀ q ∈ pending, q.serial < item.serial) :
    (SortedList.insert pendingCompare item pending).Pairwise Before := by
  induction pending with
  | nil => exact List.pairwise_singleton _ _
  | cons first rest ih =>
      obtain ⟨hfirst, hrest⟩ := List.pairwise_cons.mp hsorted
      have hserial := hyounger first List.mem_cons_self
      unfold SortedList.insert
      split
      next hless =>
        rw [compare_neg] at hless
        have hitem : Before item first := .inl hless
        refine List.pairwise_cons.mpr ⟨?_, hsorted⟩
        intro q hq
        rcases List.mem_cons.mp hq with rfl | hlater
        · exact hitem
        · exact before_trans hitem (hfirst q hlater)
      next hnot =>
        rw [compare_neg] at hnot
        have hitem : Before first item := by
          unfold Before
          omega
        refine List.pairwise_cons.mpr ⟨?_, ih hrest ?_⟩
        · intro q hq
          rcases List.mem_cons.mp (insert_perm.subset hq) with rfl | hlater
          · exact hitem
          · exact hfirst q hlater
        · intro q hq
          exact hyounger q (List.mem_cons_of_mem first hq)

end Insert

/-! ## What a step does -/

section Steps

variable {s s' : Interrupt}

theorem ending_ok_bind {α β : Type} (value : α)
    (next : α → Except Ending β) : Except.ok value >>= next = next value :=
  rfl

theorem ending_ok_of_bind
    {α β : Type} {first : Except Ending α} {next : α → Except Ending β}
    {result : β} (h : first >>= next = .ok result) :
    ∃ value, first = .ok value ∧ next value = .ok result := by
  cases first with
  | error ending => cases h
  | ok value => exact ⟨value, rfl, h⟩

/-- A computation that is out of fuel is so in one of its parts. -/
theorem outOfFuel_of_bind
    {α β : Type} {first : Except Ending α} {next : α → Except Ending β}
    (h : first >>= next = .error .outOfFuel) :
    first = .error .outOfFuel ∨
      ∃ value, first = .ok value ∧ next value = .error .outOfFuel := by
  cases first with
  | error ending =>
      cases h
      exact .inl rfl
  | ok value => exact .inr ⟨value, rfl, h⟩

section Settles

variable {α : Type} {P : α → Prop}

/-- Another ending is not that of the fuel. -/
theorem ending_settles {ending : Ending} (hne : ending ≠ .outOfFuel) :
    (Except.error ending : Except Ending α) ≠ .error .outOfFuel ∧
      ∀ value, (Except.error ending : Except Ending α) = .ok value →
        P value := by
  constructor
  · intro heq
    exact hne (Except.error.inj heq)
  · intro value heq
    cases heq

theorem ok_settles {value : α} (hvalue : P value) :
    (Except.ok value : Except Ending α) ≠ .error .outOfFuel ∧
      ∀ value', (Except.ok value : Except Ending α) = .ok value' →
        P value' := by
  constructor
  · intro heq
    cases heq
  · intro value' heq
    rwa [← Except.ok.inj heq]

/-- The first part is not out of fuel, and what follows settles. -/
theorem bind_settles
    {β : Type} {first : Except Ending β} {next : β → Except Ending α}
    (hne : first ≠ .error .outOfFuel)
    (hnext : ∀ value, first = .ok value →
      next value ≠ .error .outOfFuel ∧
        ∀ result, next value = .ok result → P result) :
    first >>= next ≠ .error .outOfFuel ∧
      ∀ result, first >>= next = .ok result → P result := by
  cases hfirst : first with
  | error ending =>
      apply ending_settles
      rintro rfl
      exact hne hfirst
  | ok value => exact hnext value hfirst

end Settles

theorem of_ensure
    {condition : Prop} [Decidable condition] {u : Unit}
    (h : ensure condition = .ok u) : condition := by
  by_contra hnot
  rw [ensure, assert_of_false hnot] at h
  cases h

theorem ensure_ne (condition : Prop) [Decidable condition] :
    ensure condition ≠ .error .outOfFuel := by
  unfold ensure assert
  split <;> simp [Except.mapError]

theorem addInt_eq {x y z : ℤ} (h : addInt x y = .ok z) : z = x + y := by
  unfold addInt at h
  split at h
  next => exact (Except.ok.inj h).symm
  next => cases h

theorem addInt_ne (x y : ℤ) : addInt x y ≠ .error .outOfFuel := by
  unfold addInt
  split <;> simp

theorem schedule_inv
    {request : ScheduleRequest} (h : s.schedule request = .ok s') :
    ∃ item : PendingInterrupt, s.stats.totalTicks < item.when ∧
      item.serial = s.allocated ∧
      s' = { s with
        pending := SortedList.insert pendingCompare item s.pending
        allocated := s.allocated + 1
        history := s.history ++ [.scheduled item] } := by
  obtain ⟨when, hwhen, h⟩ := ending_ok_of_bind h
  obtain ⟨u, hpos, h⟩ := ending_ok_of_bind h
  obtain ⟨v, -, h⟩ := ending_ok_of_bind h
  have hfuture := of_ensure hpos
  have hsum := addInt_eq hwhen
  cases h
  exact ⟨_, by simp only; omega, rfl, rfl⟩

theorem schedule_ne (s : Interrupt) (request : ScheduleRequest) :
    s.schedule request ≠ .error .outOfFuel := by
  intro h
  rcases outOfFuel_of_bind h with h | ⟨when, -, h⟩
  · exact addInt_ne _ _ h
  rcases outOfFuel_of_bind h with h | ⟨u, -, h⟩
  · exact ensure_ne _ h
  rcases outOfFuel_of_bind h with h | ⟨v, -, h⟩
  · exact ensure_ne _ h
  cases h

end Steps

/-! ## The invariant -/

/-- The interrupts are in order, inside the firing loop as well. -/
structure Timely (s : Interrupt) : Prop where
  total : s.stats.totalTicks =
    s.stats.idleTicks + s.stats.systemTicks + s.stats.userTicks
  perm : s.scheduled.Perm (s.fired ++ s.pending)
  allocated : ∀ p ∈ s.scheduled, p.serial < s.allocated
  serials : s.scheduled.Pairwise (fun p q => p.serial < q.serial)
  pendingSorted : s.pending.Pairwise Before
  firedSorted : s.fired.Pairwise Before
  firedBefore : ∀ p ∈ s.fired, ∀ q ∈ s.pending, Before p q
  firedPast : ∀ p ∈ s.fired, p.when ≤ s.stats.totalTicks
  onTime : ∀ p now, Occurrence.fired p now ∈ s.history → p.when ≤ now

/-- Time does not go back, and what has happened stays. -/
def Progress (s s' : Interrupt) : Prop :=
  s.stats.totalTicks ≤ s'.stats.totalTicks ∧ s.history <+: s'.history

/-- How many of the pending interrupts are due. -/
def dueCount (s : Interrupt) : ℕ :=
  s.pending.countP (fun p => p.when ≤ s.stats.totalTicks)

section Timely

variable {s s' : Interrupt}

theorem Progress.refl (s : Interrupt) : Progress s s :=
  ⟨le_rfl, List.prefix_rfl⟩

theorem Progress.trans
    {s'' : Interrupt} (h : Progress s s') (h' : Progress s' s'') :
    Progress s s'' :=
  ⟨h.1.trans h'.1, h.2.trans h'.2⟩

theorem timely_start : Timely start := by
  constructor <;> simp [start, scheduled, fired]

/-- Time may pass. -/
theorem Timely.of_stats
    (h : Timely s) {stats : Statistics} (level : IntStatus)
    (inHandler yieldOnReturn : Bool) (status : MachineStatus)
    (hlater : s.stats.totalTicks ≤ stats.totalTicks)
    (hsum : stats.totalTicks =
      stats.idleTicks + stats.systemTicks + stats.userTicks) :
    Timely { s with
      stats := stats, level := level, inHandler := inHandler,
      yieldOnReturn := yieldOnReturn, status := status } where
  total := hsum
  perm := h.perm
  allocated := h.allocated
  serials := h.serials
  pendingSorted := h.pendingSorted
  firedSorted := h.firedSorted
  firedBefore := h.firedBefore
  firedPast p hp := (h.firedPast p hp).trans hlater
  onTime := h.onTime

theorem Timely.mem_scheduled
    (h : Timely s) {p : PendingInterrupt} (hp : p ∈ s.pending) :
    p ∈ s.scheduled :=
  h.perm.mem_iff.mpr (List.mem_append_right _ hp)

theorem Timely.schedule
    (h : Timely s) {request : ScheduleRequest}
    (hstep : s.schedule request = .ok s') : Timely s' := by
  obtain ⟨item, hfuture, hserial, rfl⟩ := schedule_inv hstep
  have hyounger : ∀ p ∈ s.scheduled, p.serial < item.serial := by
    intro p hp
    rw [hserial]
    exact h.allocated p hp
  have hscheduled : ∀ pending allocated, scheduled { s with
      pending := pending, allocated := allocated,
      history := s.history ++ [.scheduled item] } = s.scheduled ++ [item] := by
    intro pending allocated
    simp [scheduled]
  have hfired : ∀ pending allocated, fired { s with
      pending := pending, allocated := allocated,
      history := s.history ++ [.scheduled item] } = s.fired := by
    intro pending allocated
    simp [fired]
  constructor
  · exact h.total
  · rw [hscheduled, hfired]
    calc s.scheduled ++ [item]
      _ |>.Perm (item :: s.scheduled) := List.perm_append_singleton item _
      _ |>.Perm (item :: (s.fired ++ s.pending)) := h.perm.cons item
      _ |>.Perm (s.fired ++ item :: s.pending) := List.perm_middle.symm
      _ |>.Perm _ := insert_perm.symm.append_left s.fired
  · rw [hscheduled]
    intro p hp
    rcases List.mem_append.mp hp with hold | hnew
    · exact Nat.lt_succ_of_lt (h.allocated p hold)
    · rw [List.mem_singleton.mp hnew, hserial]
      exact Nat.lt_succ_self s.allocated
  · rw [hscheduled, List.pairwise_append]
    refine ⟨h.serials, List.pairwise_singleton _ _, ?_⟩
    intro p hp q hq
    rw [List.mem_singleton.mp hq]
    exact hyounger p hp
  · exact insert_sorted h.pendingSorted
      (fun q hq => hyounger q (h.mem_scheduled hq))
  · rw [hfired]
    exact h.firedSorted
  · rw [hfired]
    intro p hp q hq
    rcases List.mem_cons.mp (insert_perm.subset hq) with rfl | hold
    · exact .inl ((h.firedPast p hp).trans_lt hfuture)
    · exact h.firedBefore p hp q hold
  · rw [hfired]
    exact h.firedPast
  · intro p now hp
    rcases List.mem_append.mp hp with hold | hnew
    · exact h.onTime p now hold
    · cases List.mem_singleton.mp hnew

/-- The front of the list fires. -/
theorem Timely.fire
    (h : Timely s) {next : PendingInterrupt} {rest : List PendingInterrupt}
    (hpending : s.pending = next :: rest)
    (hdue : next.when ≤ s.stats.totalTicks) :
    Timely { s with
      pending := rest
      history := s.history ++ [.fired next s.stats.totalTicks] } := by
  have hscheduled : scheduled { s with
      pending := rest
      history := s.history ++ [.fired next s.stats.totalTicks] } =
        s.scheduled := by
    simp [scheduled]
  have hfired : fired { s with
      pending := rest
      history := s.history ++ [.fired next s.stats.totalTicks] } =
        s.fired ++ [next] := by
    simp [fired]
  have hsorted := h.pendingSorted
  rw [hpending] at hsorted
  obtain ⟨hnext, hrest⟩ := List.pairwise_cons.mp hsorted
  constructor
  · exact h.total
  · rw [hscheduled, hfired, List.append_assoc, List.singleton_append,
      ← hpending]
    exact h.perm
  · rw [hscheduled]
    exact h.allocated
  · rw [hscheduled]
    exact h.serials
  · exact hrest
  · rw [hfired, List.pairwise_append]
    refine ⟨h.firedSorted, List.pairwise_singleton _ _, ?_⟩
    intro p hp q hq
    rw [List.mem_singleton.mp hq]
    exact h.firedBefore p hp next (by rw [hpending]; exact List.mem_cons_self)
  · rw [hfired]
    intro p hp q hq
    rcases List.mem_append.mp hp with hold | hnew
    · exact h.firedBefore p hold q
        (by rw [hpending]; exact List.mem_cons_of_mem next hq)
    · rw [List.mem_singleton.mp hnew]
      exact hnext q hq
  · rw [hfired]
    intro p hp
    rcases List.mem_append.mp hp with hold | hnew
    · exact h.firedPast p hold
    · rw [List.mem_singleton.mp hnew]
      exact hdue
  · intro p now hp
    rcases List.mem_append.mp hp with hold | hnew
    · exact h.onTime p now hold
    · cases List.mem_singleton.mp hnew
      exact hdue

/-- What a handler may do. -/
structure Scheduling (s s' : Interrupt) : Prop where
  timely : Timely s → Timely s'
  stats : s'.stats = s.stats
  dueCount : s'.dueCount = s.dueCount
  history : s.history <+: s'.history

theorem Scheduling.refl (s : Interrupt) : Scheduling s s :=
  ⟨id, rfl, rfl, List.prefix_rfl⟩

theorem Scheduling.trans
    {s'' : Interrupt} (h : Scheduling s s') (h' : Scheduling s' s'') :
    Scheduling s s'' :=
  ⟨h'.timely ∘ h.timely, h'.stats.trans h.stats, h'.dueCount.trans h.dueCount,
    h.history.trans h'.history⟩

/-- An interrupt that is scheduled is not due yet. -/
theorem scheduling_of_schedule
    {request : ScheduleRequest} (hstep : s.schedule request = .ok s') :
    Scheduling s s' := by
  refine ⟨fun h => h.schedule hstep, ?_, ?_, ?_⟩
  · obtain ⟨item, -, -, rfl⟩ := schedule_inv hstep
    rfl
  · obtain ⟨item, hfuture, -, rfl⟩ := schedule_inv hstep
    unfold dueCount
    rw [insert_perm.countP_eq, List.countP_cons_of_neg (by simpa using hfuture)]
  · obtain ⟨item, -, -, rfl⟩ := schedule_inv hstep
    exact List.prefix_append s.history _

theorem scheduling_of_requests
    {requests : List ScheduleRequest}
    (hsteps : requests.foldlM schedule s = .ok s') : Scheduling s s' := by
  induction requests generalizing s with
  | nil =>
      cases hsteps
      exact .refl _
  | cons request rest ih =>
      rw [List.foldlM_cons] at hsteps
      obtain ⟨between, hfirst, hrest⟩ := ending_ok_of_bind hsteps
      exact (scheduling_of_schedule hfirst).trans (ih hrest)

theorem requests_ne (requests : List ScheduleRequest) (s : Interrupt) :
    requests.foldlM schedule s ≠ .error .outOfFuel := by
  induction requests generalizing s with
  | nil => exact nofun
  | cons request rest ih =>
      intro h
      rw [List.foldlM_cons] at h
      rcases outOfFuel_of_bind h with h | ⟨between, -, h⟩
      · exact schedule_ne s request h
      · exact ih between h

theorem scheduling_of_callBack
    {handler : HandlerCall} (hcall : s.callBack handler = .ok s') :
    Scheduling s s' := by
  obtain ⟨between, hrequests, hrest⟩ := ending_ok_of_bind hcall
  cases hrest
  have hscheduling := scheduling_of_requests hrequests
  refine ⟨fun h => ?_, hscheduling.stats, hscheduling.dueCount,
    hscheduling.history⟩
  have htimely := hscheduling.timely h
  exact htimely.of_stats _ _ _ _ le_rfl htimely.total

theorem callBack_ne (s : Interrupt) (handler : HandlerCall) :
    s.callBack handler ≠ .error .outOfFuel := by
  intro h
  rcases outOfFuel_of_bind h with h | ⟨between, -, h⟩
  · exact requests_ne handler.requests s h
  · cases h

/-! ## The firing loop -/

theorem front_due
    (hdue : s.frontIsDue = true) :
    ∃ next rest, s.pending = next :: rest ∧
      next.when ≤ s.stats.totalTicks := by
  unfold frontIsDue at hdue
  cases hpending : s.pending with
  | nil =>
      rw [hpending] at hdue
      cases hdue
  | cons next rest =>
      rw [hpending] at hdue
      exact ⟨next, rest, rfl, by simpa using hdue⟩

/-- If the front is not due, nothing is. -/
theorem Timely.dueCount_eq_zero
    (h : Timely s) (hdue : s.frontIsDue = false) : s.dueCount = 0 := by
  have hsorted := h.pendingSorted
  unfold frontIsDue at hdue
  unfold dueCount
  cases hpending : s.pending with
  | nil => rfl
  | cons next rest =>
      rw [hpending] at hdue hsorted
      have hnext : s.stats.totalTicks < next.when := by simpa using hdue
      have hrest := (List.pairwise_cons.mp hsorted).1
      rw [List.countP_eq_zero]
      intro p hp
      have hlater : next.when ≤ p.when := by
        rcases List.mem_cons.mp hp with rfl | htail
        · exact le_rfl
        · have hbefore := hrest p htail
          unfold Before at hbefore
          omega
      simp only [decide_eq_true_eq]
      omega

/-- What the loop does, once it has been entered with an interrupt that is
due. -/
structure Fired (s s' : Interrupt) : Prop where
  timely : Timely s'
  stats : s'.stats = s.stats
  dueCount : s'.dueCount = 0
  history : s.history <+: s'.history

/-- Each round fires one of the interrupts that are due, and none becomes due
meanwhile: the loop ends, within that many rounds. -/
theorem fireDue_spec
    (fuel : ℕ) (handlers : ℕ → HandlerCall) (h : Timely s)
    (hdue : s.frontIsDue = true) (hfuel : s.dueCount ≤ fuel) :
    fireDue fuel handlers s ≠ .error .outOfFuel ∧
      ∀ s', fireDue fuel handlers s = .ok s' → Fired s s' := by
  induction fuel generalizing s handlers with
  | zero =>
      obtain ⟨next, rest, hpending, hnext⟩ := front_due hdue
      have hpos : 0 < s.dueCount := by
        unfold dueCount
        rw [hpending, List.countP_cons_of_pos (by simpa using hnext)]
        omega
      omega
  | succ fuel ih =>
      obtain ⟨next, rest, hpending, hnext⟩ := front_due hdue
      have htimely := h.fire hpending hnext
      have hcount : s.dueCount = dueCount { s with
          pending := rest
          history := s.history ++ [.fired next s.stats.totalTicks] } + 1 := by
        unfold dueCount
        rw [hpending, List.countP_cons_of_pos (by simpa using hnext)]
      simp only [fireDue, hpending]
      generalize hfired : ({ s with
          pending := rest
          history := s.history ++ [.fired next s.stats.totalTicks] } :
        Interrupt) = after at htimely hcount ⊢
      have hstats : after.stats = s.stats := by
        rw [← hfired]
      have hprefix : s.history <+: after.history := by
        rw [← hfired]
        exact List.prefix_append s.history _
      apply bind_settles (callBack_ne after (handlers 0))
      intro between hcall
      have hscheduling := scheduling_of_callBack hcall
      split
      next hagain =>
        have hrest := ih (fun k => handlers (k + 1))
          (hscheduling.timely htimely) hagain
          (by rw [hscheduling.dueCount]; omega)
        refine ⟨hrest.1, fun s' hs' => ?_⟩
        obtain ⟨htimely', hstats', hnone, hprefix'⟩ := hrest.2 s' hs'
        exact ⟨htimely', hstats'.trans (hscheduling.stats.trans hstats),
          hnone, hprefix.trans (hscheduling.history.trans hprefix')⟩
      next hdone =>
        apply ok_settles
        have htimely' := hscheduling.timely htimely
        exact ⟨htimely', hscheduling.stats.trans hstats,
          htimely'.dueCount_eq_zero (by simpa using hdone),
          hprefix.trans hscheduling.history⟩

/-- More rounds would not change anything. -/
theorem fireDue_mono
    {fuel more : ℕ} (handlers : ℕ → HandlerCall) (hle : fuel ≤ more)
    (hdone : fireDue fuel handlers s ≠ .error .outOfFuel) :
    fireDue more handlers s = fireDue fuel handlers s := by
  induction fuel generalizing s handlers more with
  | zero => exact (hdone rfl).elim
  | succ fuel ih =>
      obtain ⟨more, rfl⟩ : ∃ k, more = k + 1 := ⟨more - 1, by omega⟩
      simp only [fireDue] at hdone ⊢
      cases hpending : s.pending with
      | nil => rfl
      | cons next rest =>
          simp only [hpending] at hdone ⊢
          cases hcall : callBack { s with
              pending := rest
              history := s.history ++ [.fired next s.stats.totalTicks] }
              (handlers 0) with
          | error ending => rfl
          | ok between =>
              simp only [hcall, ending_ok_bind] at hdone ⊢
              split
              next hagain =>
                rw [if_pos hagain] at hdone
                exact ih _ (by omega) hdone
              next => rfl

/-! ## The operations -/

/-- The interrupts are in order, and none is due. -/
structure Orderly (s : Interrupt) : Prop where
  timely : Timely s
  notDue : ∀ p ∈ s.pending, s.stats.totalTicks < p.when

theorem notDue_of_dueCount (hcount : s.dueCount = 0) :
    ∀ p ∈ s.pending, s.stats.totalTicks < p.when := by
  intro p hp
  have hnot := List.countP_eq_zero.mp hcount p hp
  simpa using hnot

/-- The clock moves, and the three other counters account for it. -/
theorem tick_inv
    {stats stats' : Statistics} {status : MachineStatus}
    (htick : stats.tick status = .ok stats')
    (hsum : stats.totalTicks =
      stats.idleTicks + stats.systemTicks + stats.userTicks) :
    stats.totalTicks ≤ stats'.totalTicks ∧ stats'.totalTicks =
      stats'.idleTicks + stats'.systemTicks + stats'.userTicks := by
  unfold Statistics.tick at htick
  split at htick
  next =>
    obtain ⟨total, htotal, htick⟩ := ending_ok_of_bind htick
    obtain ⟨part, hpart, htick⟩ := ending_ok_of_bind htick
    cases htick
    have h := addInt_eq htotal
    have h' := addInt_eq hpart
    unfold systemTick at h h'
    constructor <;> simp only <;> omega
  next =>
    obtain ⟨total, htotal, htick⟩ := ending_ok_of_bind htick
    obtain ⟨part, hpart, htick⟩ := ending_ok_of_bind htick
    cases htick
    have h := addInt_eq htotal
    have h' := addInt_eq hpart
    unfold userTick at h h'
    constructor <;> simp only <;> omega

theorem tick_ne (stats : Statistics) (status : MachineStatus) :
    stats.tick status ≠ .error .outOfFuel := by
  intro h
  unfold Statistics.tick at h
  split at h
  all_goals
    rcases outOfFuel_of_bind h with h | ⟨total, -, h⟩
    · exact addInt_ne _ _ h
    rcases outOfFuel_of_bind h with h | ⟨part, -, h⟩
    · exact addInt_ne _ _ h
    cases h

theorem advanceTo_inv
    {stats stats' : Statistics} {when : ℤ}
    (hadvance : stats.advanceTo when = .ok stats')
    (hsum : stats.totalTicks =
      stats.idleTicks + stats.systemTicks + stats.userTicks) :
    stats.totalTicks ≤ stats'.totalTicks ∧ when ≤ stats'.totalTicks ∧
      stats'.totalTicks =
        stats'.idleTicks + stats'.systemTicks + stats'.userTicks := by
  unfold Statistics.advanceTo at hadvance
  split at hadvance
  next hlater =>
    obtain ⟨idle, hidle, hadvance⟩ := ending_ok_of_bind hadvance
    cases hadvance
    have h := addInt_eq hidle
    refine ⟨?_, le_rfl, ?_⟩ <;> simp only <;> omega
  next hnot =>
    cases hadvance
    exact ⟨le_rfl, not_lt.mp hnot, hsum⟩

theorem advanceTo_ne (stats : Statistics) (when : ℤ) :
    stats.advanceTo when ≠ .error .outOfFuel := by
  intro h
  unfold Statistics.advanceTo at h
  split at h
  · rcases outOfFuel_of_bind h with h | ⟨idle, -, h⟩
    · exact addInt_ne _ _ h
    cases h
  · cases h

/-- When `CheckIfDue` returns, nothing is due; its loop has ended. -/
theorem Timely.checkIfDue
    (h : Timely s) (advanceClock : Bool) (handlers : ℕ → HandlerCall) :
    s.checkIfDue advanceClock handlers ≠ .error .outOfFuel ∧
      ∀ s' result, s.checkIfDue advanceClock handlers = .ok (s', result) →
        Orderly s' ∧ Progress s s' := by
  suffices hanswer : s.checkIfDue advanceClock handlers ≠
      .error .outOfFuel ∧ ∀ answer, s.checkIfDue advanceClock handlers =
        .ok answer → Orderly answer.1 ∧ Progress s answer.1 from
    ⟨hanswer.1, fun s' result => hanswer.2 (s', result)⟩
  unfold Interrupt.checkIfDue
  apply bind_settles (ensure_ne _)
  intro u _
  cases hpending : s.pending with
  | nil =>
      apply ok_settles
      exact ⟨⟨h, by simp [hpending]⟩, .refl s⟩
  | cons next rest =>
      simp only
      split
      next hlater =>
        apply ok_settles
        have hnone := h.dueCount_eq_zero (by
          simp [frontIsDue, hpending, hlater.1])
        exact ⟨⟨h, notDue_of_dueCount hnone⟩, .refl s⟩
      next =>
        apply bind_settles (advanceTo_ne _ _)
        intro stats hadvance
        obtain ⟨hle, hdue, hsum⟩ := advanceTo_inv hadvance h.total
        have hbefore :=
          h.of_stats s.level true s.yieldOnReturn s.status hle hsum
        have hfront : frontIsDue
            { s with stats := stats, inHandler := true } = true := by
          simpa [frontIsDue, hpending] using hdue
        have hrounds : dueCount
            { s with stats := stats, inHandler := true } ≤
              s.pending.length := List.countP_le_length
        have hloop := fireDue_spec s.pending.length handlers hbefore
          hfront hrounds
        rw [hpending] at hloop
        apply bind_settles hloop.1
        intro after hfire
        apply ok_settles
        obtain ⟨htimely, hstats, hnone, hprefix⟩ := hloop.2 after hfire
        have hafter := htimely.of_stats after.level false
          after.yieldOnReturn after.status le_rfl htimely.total
        refine ⟨⟨hafter, notDue_of_dueCount hnone⟩, ?_, hprefix⟩
        simp only [hstats]
        exact hle

/-- The fields that do not count. -/
theorem Orderly.of_status
    (h : Orderly s) (level : IntStatus) (inHandler yieldOnReturn : Bool)
    (status : MachineStatus) :
    Orderly { s with
      level := level, inHandler := inHandler, yieldOnReturn := yieldOnReturn,
      status := status } :=
  ⟨h.timely.of_stats level inHandler yieldOnReturn status le_rfl
    h.timely.total, h.notDue⟩

theorem Orderly.schedule
    (h : Orderly s) {request : ScheduleRequest}
    (hstep : s.schedule request = .ok s') : Orderly s' ∧ Progress s s' := by
  have hscheduling := scheduling_of_schedule hstep
  refine ⟨⟨h.timely.schedule hstep, ?_⟩, ?_, hscheduling.history⟩
  · apply notDue_of_dueCount
    rw [hscheduling.dueCount]
    rw [dueCount, List.countP_eq_zero]
    intro p hp
    simpa using h.notDue p hp
  · rw [hscheduling.stats]

theorem Orderly.oneTick
    (h : Orderly s) (handlers : ℕ → HandlerCall) :
    s.oneTick handlers ≠ .error .outOfFuel ∧
      ∀ s', s.oneTick handlers = .ok s' → Orderly s' ∧ Progress s s' := by
  unfold Interrupt.oneTick
  apply bind_settles (tick_ne _ _)
  intro stats htick
  obtain ⟨hle, hsum⟩ := tick_inv htick h.timely.total
  have hbefore := h.timely.of_stats .intOff s.inHandler s.yieldOnReturn
    s.status hle hsum
  obtain ⟨hne, hok⟩ := hbefore.checkIfDue false handlers
  apply bind_settles hne
  intro answer hcheck
  obtain ⟨after, result⟩ := answer
  obtain ⟨horderly, hprogress⟩ := hok after result hcheck
  have hsince : Progress s after := ⟨hle.trans hprogress.1, hprogress.2⟩
  simp only
  split
  next =>
    apply ok_settles
    exact ⟨horderly.of_status .intOn _ false .systemMode, hsince⟩
  next =>
    apply ok_settles
    exact ⟨horderly.of_status .intOn _ _ _, hsince⟩

theorem Orderly.setLevel
    (h : Orderly s) (now : IntStatus) (handlers : ℕ → HandlerCall) :
    s.setLevel now handlers ≠ .error .outOfFuel ∧
      ∀ s', s.setLevel now handlers = .ok s' → Orderly s' ∧ Progress s s' := by
  have hlevel := h.of_status now s.inHandler s.yieldOnReturn s.status
  unfold Interrupt.setLevel
  apply bind_settles (ensure_ne _)
  intro u _
  split
  next => exact hlevel.oneTick handlers
  next =>
    apply ok_settles
    exact ⟨hlevel, .refl s⟩

theorem Orderly.idle
    (h : Orderly s) (handlers : ℕ → HandlerCall) :
    s.idle handlers ≠ .error .outOfFuel ∧
      ∀ s', s.idle handlers = .ok s' → Orderly s' ∧ Progress s s' := by
  have hbefore := h.of_status s.level s.inHandler s.yieldOnReturn .idleMode
  obtain ⟨hne, hok⟩ := hbefore.timely.checkIfDue true handlers
  unfold Interrupt.idle
  apply bind_settles hne
  intro answer hcheck
  obtain ⟨after, result⟩ := answer
  obtain ⟨horderly, hprogress⟩ := hok after result hcheck
  cases result with
  | false => exact ending_settles nofun
  | true =>
      apply ok_settles
      exact ⟨horderly.of_status _ _ _ .systemMode, hprogress⟩

/-- Every action keeps the order; none is stuck in the firing loop. -/
theorem Orderly.perform
    (h : Orderly s) (action : Action) :
    s.perform action ≠ .error .outOfFuel ∧
      ∀ s', s.perform action = .ok s' → Orderly s' ∧ Progress s s' := by
  cases action with
  | schedule request =>
      exact ⟨schedule_ne s request, fun s' hs' => h.schedule hs'⟩
  | oneTick handlers => exact h.oneTick handlers
  | setLevel now handlers => exact h.setLevel now handlers
  | idle handlers => exact h.idle handlers
  | setStatus st =>
      apply ok_settles
      exact ⟨h.of_status _ _ _ st, .refl s⟩

end Timely

/-! ## All runs -/

/-- The states that a run can be in. -/
def Reached (s : Interrupt) : Prop :=
  ∃ trace, system.Reaches trace s

theorem step_eq {s s' : Interrupt} {action : Action} {event : Unit}
    (hstep : system.step s action = .ok (s', event)) :
    s.perform action = .ok s' := by
  obtain ⟨after, hperform, hafter⟩ := ending_ok_of_bind hstep
  cases hafter
  exact hperform

theorem Reached.orderly {s : Interrupt} (hreached : Reached s) :
    Orderly s := by
  obtain ⟨trace, hrun⟩ := hreached
  refine hrun.invariant (fun _ s => Orderly s) ?_ ?_
  · exact ⟨timely_start, by simp [system, start]⟩
  · intro trace s s' action event _ horderly _ hstep
    exact ((horderly.perform action).2 s' (step_eq hstep)).1

/-- In every state of every run: the clock is the sum of its parts, what has
been scheduled is pending or has fired, once, and not before its time, the
interrupts have fired in the order of their times and then in the order of
scheduling, and none of those pending is due.  Whatever is done next, time
does not go back, and the firing loop comes to its end. -/
theorem interrupts_keep_time {s : Interrupt} (hreached : Reached s) :
    s.stats.totalTicks =
        s.stats.idleTicks + s.stats.systemTicks + s.stats.userTicks ∧
      s.scheduled.Perm (s.fired ++ s.pending) ∧
      s.scheduled.Pairwise (fun p q => p.serial < q.serial) ∧
      (∀ p now, Occurrence.fired p now ∈ s.history → p.when ≤ now) ∧
      s.fired.Pairwise Before ∧
      (∀ p ∈ s.pending, s.stats.totalTicks < p.when) ∧
      ∀ action, s.perform action ≠ .error .outOfFuel ∧
        ∀ s', s.perform action = .ok s' → Progress s s' := by
  have horderly := hreached.orderly
  have htimely := horderly.timely
  refine ⟨htimely.total, htimely.perm, htimely.serials, htimely.onTime,
    htimely.firedSorted, horderly.notDue, fun action => ?_⟩
  obtain ⟨hne, hok⟩ := horderly.perform action
  exact ⟨hne, fun s' hs' => (hok s' hs').2⟩

/-- A timer that goes on for ever, and two devices for the same time. -/
def timerAndDevices : List Action :=
  [.schedule ⟨0, 20, .timerInt⟩, .schedule ⟨1, 10, .diskInt⟩,
    .schedule ⟨2, 10, .consoleWriteInt⟩,
    .setLevel .intOn (fun k => ⟨if k = 1 then [⟨3, 10, .diskInt⟩] else [], false⟩),
    .setLevel .intOff (fun _ => ⟨[], false⟩),
    .idle (fun k => ⟨if k = 0 then [⟨0, 20, .timerInt⟩] else [], true⟩)]

theorem interrupts_keep_time_timerAndDevices :
    ∃ s : Interrupt, s.fired.map (fun p => (p.serial, p.when)) =
        [(1, 10), (2, 10), (0, 20), (3, 20)] ∧
      s.stats = ⟨20, 10, 10, 0⟩ ∧ s.scheduled.Perm (s.fired ++ s.pending) ∧
      s.fired.Pairwise Before := by
  have hreplay : system.Replays StepSystem.anyStep timerAndDevices
      (fun _ s => s.fired.map (fun p => (p.serial, p.when)) =
        [(1, 10), (2, 10), (0, 20), (3, 20)] ∧
          s.stats = ⟨20, 10, 10, 0⟩) = true := by
    decide
  obtain ⟨trace, s, hrun, hcheck⟩ := StepSystem.exists_run_of_replays hreplay
  obtain ⟨hfired, hstats⟩ := of_decide_eq_true hcheck
  obtain ⟨-, hperm, -, -, hordered, -⟩ := interrupts_keep_time ⟨trace, hrun⟩
  exact ⟨s, hfired, hstats, hperm, hordered⟩

end Interrupt

end Nachos
