import Nachos.JoinStatus

/-!
# Whom the unit of an `exitsem` releases

All children of a process wait in `ExitUpdate` on the one `exitsem` of their
parent, so that the unit `JoinUpdate` gives for one child may be taken by
another one.  In the runs in which no unit is handed to a child that is not
joined, every child that returns from `ExitUpdate` has been joined.
-/

namespace Nachos

open Library

namespace Processes

/-- The parent has completed the `joinsem` wait of a join of `c`. -/
def joined (trace : List Event) (c : ℕ) : Bool :=
  trace.any (taken (.joinsem c))

/-- A step that wakes a child in `ExitWait` wakes one that is joined, and a
child that has not waited there finds a unit only when it is joined. -/
def handsOver (trace : List Event) (k : Processes) (action : Action) : Bool :=
  match k.threads[action.thread]? with
  | none => true
  | some th =>
      match th.script with
      | .V (.exitsem p) :: _ =>
          match k.queue (.exitsem p) with
          | [] => true
          | u :: _ => (k.threads[u]?).all fun sleeper =>
              joined trace sleeper.processID
      | .P (.exitsem p) :: _ =>
          decide (k.value (.exitsem p) = 0) ||
            trace.contains (.slept th.processID (.exitsem p)) ||
            joined trace th.processID
      | _ => true

/-- The runs in which every step hands over. -/
def HandsOver (trace : List Event) (k : Processes) (action : Action) : Prop :=
  handsOver trace k action = true

instance (trace : List Event) (k : Processes) (action : Action) :
    Decidable (HandsOver trace k action) :=
  inferInstanceAs (Decidable (_ = true))

/-- Whenever `ExitUpdate` of a child has returned, its parent had completed
the `joinsem` wait of a join of this child. -/
def ExitsPaired (trace : List Event) : Prop :=
  ∀ earlier later c ec,
    trace = earlier ++ .returned c (.exit ec) 0 :: later →
      ∃ p, .created p c ∈ earlier ∧ .passed p (.joinsem c) ∈ earlier

section Runs

variable {trace : List Event} {k k' : Processes} {action : Action}
variable {event : Event}

theorem joined_append
    {c : ℕ} (hjoined : joined trace c = true) (event : Event) :
    joined (trace ++ [event]) c = true := by
  simp only [joined, List.any_append, Bool.or_eq_true] at hjoined ⊢
  exact .inl hjoined

/-! ## A child that has slept in `ExitWait` -/

/-- A child that has slept in `ExitWait` has at most the end of `ExitUpdate`
before it. -/
def SleptAtExit (trace : List Event) (k : Processes) : Prop :=
  ∀ c p, .slept c (.exitsem p) ∈ trace →
    ∃ (t : ℕ) (script : List Stmt) (par : ℕ) (ec : ℤ),
      k.scripts[t]? = some (c, script) ∧
      script <:+
        [Stmt.P (.exitsem par), .writeResult (.exit ec) 0, .finish]

theorem Script.exit_wait
    {parent : ℕ → ℕ → Prop} {allotted : ℕ → Prop} {c par : ℕ}
    {rest : List Stmt}
    (h : Script parent allotted c (.P (.exitsem par) :: rest)) :
    ∃ ec, rest = [.writeResult (.exit ec) 0, .finish] := by
  cases h.waiting with
  | exiting => exact ⟨_, rfl⟩

theorem getElem?_step
    {scripts : List (ℕ × List Stmt)} {t j : ℕ}
    {old new script : ℕ × List Stmt} (spawned : List (ℕ × List Stmt))
    (hold : scripts[t]? = some old) (hget : scripts[j]? = some script) :
    (scripts.set t new ++ spawned)[j]? =
      some (if j = t then new else script) := by
  rcases List.getElem?_eq_some_iff.mp hget with ⟨hlt, -⟩
  rw [List.getElem?_append_left (by simpa using hlt)]
  by_cases heq : j = t
  · subst heq
    simp [hlt]
  · simp [heq, Ne.symm heq, hget]

theorem sleptAtExit_of_reaches
    (hreaches : processSystem.Reaches trace k) : SleptAtExit trace k := by
  apply hreaches.invariant SleptAtExit
  · intro c p hslept
    simp at hslept
  · intro trace k k' action event hbefore hinv _ hstep
    rcases step_script hbefore hstep with
      ⟨q, old, new, spawned, hget, hscript, hscripts⟩
    have hold := script_of_getElem? hbefore hget
    intro c p hslept
    rw [hscripts]
    rcases List.mem_append.mp hslept with hearlier | hnow
    · rcases hinv c p hearlier with ⟨j, script, par, ec, hj, hsuffix⟩
      by_cases heq : j = action.thread
      · subst heq
        obtain ⟨rfl, rfl⟩ : q = c ∧ old = script := by
          simpa using hget.symm.trans hj
        refine ⟨action.thread, new, par, ec, ?_, ?_⟩
        · simpa using getElem?_step spawned hget hget
        · simp only [List.suffix_cons_iff, List.suffix_nil] at hsuffix ⊢
          rcases hsuffix with rfl | rfl | rfl | rfl <;> cases hscript <;>
            simp
      · exact ⟨j, script, par, ec, by
          simpa [heq] using getElem?_step spawned hget hj, hsuffix⟩
    · obtain rfl := List.mem_singleton.mp hnow
      cases hscript
      rcases hold.exit_wait with ⟨ec, rfl⟩
      refine ⟨action.thread, _, p, ec, ?_, List.suffix_rfl⟩
      rw [getElem?_step [] hget hget, if_pos rfl]

/-! ## A child that was woken is joined -/

/-- The threads after a step that wakes nobody. -/
theorem thread_of_set
    {threads spawned : List Thread} {t u : ThreadId} {th' new : Thread}
    (hget' : (threads.set t new ++ spawned)[u]? = some th') :
    (u = t ∧ th' = new) ∨ (u ≠ t ∧ threads[u]? = some th') ∨
      th' ∈ spawned := by
  by_cases hlt : u < (threads.set t new).length
  · rw [List.getElem?_append_left hlt] at hget'
    by_cases heq : u = t
    · subst heq
      rw [List.getElem?_set_self (by simpa using hlt)] at hget'
      exact .inl ⟨rfl, by simpa using hget'.symm⟩
    · rw [List.getElem?_set_ne (Ne.symm heq)] at hget'
      exact .inr (.inl ⟨heq, hget'⟩)
  · rw [List.getElem?_append_right (Nat.not_lt.mp hlt)] at hget'
    exact .inr (.inr (List.mem_of_getElem? hget'))

/-- A thread after a step: it took the step, or it was not touched, or it was
woken by a `V`, or it is new. -/
theorem Moves.thread
    {t u : ThreadId} {th th' : Thread} {choice : Choice}
    (hmoves : Moves k t th choice event k')
    (hget : k.threads[t]? = some th) (hawake : th.blocked = false)
    (hsound : k.pool.Sound wants) (hget' : k'.threads[u]? = some th') :
    (u = t ∧ th'.processID = th.processID ∧
        ∀ p sem, event = .slept p sem → th'.blocked = true) ∨
      (u ≠ t ∧ k.threads[u]? = some th') ∨
      (∃ sem rest waiting sleeper, th.script = .V sem :: rest ∧
        k.queue sem = u :: waiting ∧ k.threads[u]? = some sleeper ∧
        th' = { sleeper with blocked := false }) ∨
      ∃ arg, th'.script = [.runProcess arg] := by
  have hset : ∀ new spawned,
      k'.threads = k.threads.set t new ++ spawned →
      new.processID = th.processID →
      (∀ p sem, event = .slept p sem → new.blocked = true) →
      (∀ th ∈ spawned, ∃ arg, th.script = [.runProcess arg]) →
      (u = t ∧ th'.processID = th.processID ∧
          ∀ p sem, event = .slept p sem → th'.blocked = true) ∨
        (u ≠ t ∧ k.threads[u]? = some th') ∨
        (∃ sem rest waiting sleeper, th.script = .V sem :: rest ∧
          k.queue sem = u :: waiting ∧ k.threads[u]? = some sleeper ∧
          th' = { sleeper with blocked := false }) ∨
        ∃ arg, th'.script = [.runProcess arg] := by
    intro new spawned hthreads hpid hslept hspawned
    rw [hthreads] at hget'
    rcases thread_of_set hget' with ⟨heq, rfl⟩ | hother | hnew
    · exact .inl ⟨heq, hpid, hslept⟩
    · exact .inr (.inl hother)
    · exact .inr (.inr (.inr (hspawned _ hnew)))
  cases hmoves with
  | @woke sem q v waiting rest hscript hsem hqueue =>
      have hhead : k.queue sem = v :: waiting := by rw [queue_eq hsem, hqueue]
      have hold := pool_workers_getElem? hget
      rw [hawake] at hold
      have hmem : v ∈ k.pool.queue sem := by simp [pool, hhead]
      have hne : v ≠ t := hsound.ne_of_queued hold hmem
      by_cases hwoken : u = v
      · subst hwoken
        rcases hsound.queued sem u hmem with ⟨cont, hworker, -⟩
        obtain ⟨sleeper, hsleeper, -⟩ :
            ∃ sleeper, k.threads[u]? = some sleeper ∧ _ := by
          simpa [pool] using hworker
        refine .inr (.inr (.inl
          ⟨sem, rest, waiting, sleeper, hscript, hhead, hsleeper, ?_⟩))
        have hsame : ((k.setSem sem ⟨q.value + 1, waiting⟩).continueWith t th
            rest).threads[u]? = some sleeper := by
          simp [Ne.symm hne, hsleeper]
        rcases List.getElem?_eq_some_iff.mp hsleeper with ⟨hlt, -⟩
        simp only [wake, hsame] at hget'
        simpa [hlt] using hget'.symm
      · have hthreads : (((k.setSem sem ⟨q.value + 1, waiting⟩).continueWith t
            th rest).wake v).threads[u]? =
            (k.threads.set t { th with script := rest })[u]? := by
          unfold wake
          split
          next => simp [Ne.symm hwoken]
          next => simp
        rw [hthreads, ← List.append_nil (k.threads.set _ _)] at hget'
        rcases thread_of_set hget' with ⟨heq, rfl⟩ | hother | hnew
        · exact .inl ⟨heq, rfl, by simp⟩
        · exact .inr (.inl hother)
        · simp at hnew
  | slept =>
      exact hset { th with blocked := true } [] (by simp) rfl (by simp)
        (by simp)
  | @passed sem q rest =>
      exact hset { th with script := rest } [] (by simp) rfl (by simp) (by simp)
  | @released sem q rest =>
      exact hset { th with script := rest } [] (by simp) rfl (by simp) (by simp)
  | granted => exact hset _ [] (List.append_nil _).symm rfl (by simp) (by simp)
  | full => exact hset _ [] (List.append_nil _).symm rfl (by simp) (by simp)
  | created => exact hset _ [] (List.append_nil _).symm rfl (by simp) (by simp)
  | execRefused =>
      exact hset _ [] (List.append_nil _).symm rfl (by simp) (by simp)
  | forked => exact hset _ _ rfl rfl (by simp) (by simp)
  | updated _ _ hupdate =>
      exact hset _ [] (List.append_nil _).symm rfl
        (by cases hupdate <;> simp) (by simp)
  | locally hlocal =>
      refine hset _ [] (List.append_nil _).symm rfl ?_ (by simp)
      generalize th.script = old at hlocal
      cases hlocal <;> simp
  | halted => exact hset _ [] (List.append_nil _).symm rfl (by simp) (by simp)

/-- A child that has slept in `ExitWait` and is awake again is joined. -/
def WokenJoined (trace : List Event) (k : Processes) : Prop :=
  ∀ (t : ℕ) th p rest, k.threads[t]? = some th → th.blocked = false →
    th.script = .P (.exitsem p) :: rest →
      .slept th.processID (.exitsem p) ∈ trace →
        joined trace th.processID = true

theorem wokenJoined_step
    (hreaches : processSystem.Reaches trace k)
    (hwoken : WokenJoined trace k) (hguard : HandsOver trace k action)
    (hstep : k.step action = .ok (k', event)) :
    WokenJoined (trace ++ [event]) k' := by
  rcases step_moves hstep with ⟨th, -, hget, hawake, hmoves⟩
  rcases (shaped_of_reaches hreaches).scriptStep hget hmoves with
    ⟨new, spawned, hscript, hscripts⟩
  have hsound := sound_of_reaches hreaches
  have hslept : ∀ {c p}, .slept c (.exitsem p) ∈ trace ++ [event] →
      .slept c (.exitsem p) ∈ trace ∨ event = .slept c (.exitsem p) := by
    intro c p hmem
    rcases List.mem_append.mp hmem with hearlier | hnow
    · exact .inl hearlier
    · exact .inr (List.mem_singleton.mp hnow).symm
  intro u th' p rest hget' hawake' hhead hmem
  rcases hmoves.thread hget hawake hsound hget' with
    ⟨rfl, hpid, hblocked⟩ | ⟨hne, hother⟩ |
      ⟨sem, rest', waiting, sleeper, hV, hqueue, hsleeper, rfl⟩ | ⟨arg, hnew⟩
  · -- the thread that moved comes to `ExitWait` for the first time
    have hnew : new = .P (.exitsem p) :: rest := by
      have hafter := scripts_getElem? hget'
      rw [hscripts, getElem?_step spawned (scripts_getElem? hget)
        (scripts_getElem? hget)] at hafter
      rw [← hhead]
      simpa [hpid] using hafter
    rcases hslept hmem with hearlier | hnow
    · rw [hpid] at hearlier
      rcases sleptAtExit_of_reaches hreaches _ _ hearlier with
        ⟨j, old, par, ec, hj, hsuffix⟩
      obtain rfl := owner_unique hreaches hj (scripts_getElem? hget)
      obtain rfl : th.script = old := by
        simpa using (scripts_getElem? hget).symm.trans hj
      subst hnew
      simp only [List.suffix_cons_iff, List.suffix_nil] at hsuffix
      generalize th.script = old at hscript hsuffix
      rcases hsuffix with rfl | rfl | rfl | rfl <;> cases hscript
      rw [hblocked _ _ rfl] at hawake'
      simp at hawake'
    · rw [hblocked _ _ hnow] at hawake'
      simp at hawake'
  · rcases hslept hmem with hearlier | hnow
    · exact joined_append (hwoken u th' p rest hother hawake' hhead hearlier) _
    · subst hnow
      have hsame : th'.processID = th.processID := by
        generalize th.processID = q at hscript
        generalize th.script = old at hscript
        cases hscript
        rfl
      have hold := scripts_getElem? hget
      rw [← hsame] at hold
      exact (hne (owner_unique hreaches (scripts_getElem? hother) hold)).elim
  · have hworker := pool_workers_getElem? hsleeper
    rcases hsound.queued sem u (by simp [pool, hqueue]) with
      ⟨cont, hcont, hwants⟩
    obtain rfl : sem = .exitsem p := by
      rw [hworker] at hcont
      simp only [Option.some.injEq, Worker.mk.injEq] at hcont
      simp only at hhead
      rw [← hcont.1, hhead] at hwants
      simpa [wants] using hwants.symm
    apply joined_append
    simpa [HandsOver, handsOver, hget, hV, hqueue, hsleeper] using hguard
  · rw [hnew] at hhead
    simp at hhead

theorem wokenJoined_of_run
    (hrun : processSystem.Run HandsOver trace k) : WokenJoined trace k := by
  apply hrun.invariant WokenJoined
  · intro t th p rest _ _ _ hslept
    simp at hslept
  · intro trace k k' action event hbefore hwoken hguard hstep
    exact wokenJoined_step hbefore.reaches hwoken hguard hstep

/-! ## A unit of an `exitsem` is taken by a child that is joined -/

theorem Moves.of_passed
    {t : ThreadId} {th : Thread} {choice : Choice} {c : ℕ} {sem : SemRef}
    (hmoves : Moves k t th choice event k') (hevent : event = .passed c sem) :
    c = th.processID ∧ k.value sem ≠ 0 ∧
      ∃ rest, th.script = .P sem :: rest := by
  cases hmoves with
  | passed hscript hsem hvalue =>
      cases hevent
      exact ⟨rfl, by rwa [value_eq hsem], _, hscript⟩
  | updated _ _ hupdate => cases hupdate <;> cases hevent
  | locally hlocal =>
      subst hevent
      generalize th.script = old at hlocal
      cases hlocal
  | _ => cases hevent

theorem passed_exitsem_joined
    (hrun : processSystem.Run HandsOver trace k) {c p : ℕ}
    (hpassed : .passed c (.exitsem p) ∈ trace) : joined trace c = true := by
  rcases List.append_of_mem hpassed with ⟨earlier, later, rfl⟩
  rcases hrun.step_at with
    ⟨before, after, action, hbefore, hguard, hstep, -⟩
  rcases step_moves hstep with ⟨th, -, hget, hawake, hmoves⟩
  rcases hmoves.of_passed rfl with ⟨rfl, hvalue, rest, hscript⟩
  have hcases : .slept th.processID (.exitsem p) ∈ earlier ∨
      joined earlier th.processID = true := by
    simpa [HandsOver, handsOver, hget, hscript, hvalue] using hguard
  have hjoined : joined earlier th.processID = true := by
    rcases hcases with hslept | hjoined
    · exact wokenJoined_of_run hbefore _ th p rest hget hawake hscript hslept
    · exact hjoined
  simp only [joined, List.any_append, Bool.or_eq_true] at hjoined ⊢
  exact .inl hjoined

/-- The `joinsem` of a process is waited for by its parent. -/
theorem passed_joinsem_parent
    (hreaches : processSystem.Reaches trace k) {q c : ℕ}
    (hpassed : .passed q (.joinsem c) ∈ trace) : .created q c ∈ trace := by
  rcases List.append_of_mem hpassed with ⟨earlier, later, rfl⟩
  rcases hreaches.step_at with
    ⟨before, after, action, hbefore, -, hstep, hafter⟩
  rcases step_script hbefore hstep with ⟨p, old, new, spawned, hget, hscript, -⟩
  cases hscript
  have hparent : Parent earlier q c :=
    (script_of_getElem? hbefore hget).head
  rcases hparent with hcreated | ⟨-, rfl⟩
  · exact List.mem_append_left _ hcreated
  · -- nobody gives a unit to the `joinsem` of process 0
    have hgiven : _ ≤ List.countP (given (.joinsem 0)) _ :=
      taken_le_given hafter rfl
    have hexits := given_le_exits hafter 0
    have hnone : List.countP (exits 0) (earlier ++ [.passed q (.joinsem 0)]) =
        0 := by
      apply List.countP_eq_zero.mpr
      intro event _ hexit
      cases event <;> simp [exits] at hexit
      omega
    have hone : 1 ≤ List.countP (taken (.joinsem 0))
        (earlier ++ [.passed q (.joinsem 0)]) := by
      simp [taken, List.countP_append]
    omega

/-! ## The hand-shake -/

/-- A child that has returned from `ExitUpdate` has taken a unit. -/
theorem exit_passed
    (hreaches : processSystem.Reaches trace k) {c : ℕ} {ec : ℤ}
    (hreturned : Event.returned c (.exit ec) 0 ∈ trace) :
    ∃ p, .passed c (.exitsem p) ∈ trace := by
  have hbalance := balance_of_reaches (exitReturns_tariff c) rfl hreaches
  have hnonneg := (exitReturns_covers c).pending_nonneg hreaches
  have hone : 1 ≤ trace.countP (exitReturns c).credit :=
    countP_pos_of_mem hreturned (by simp [exitReturns, Call.IsExit])
  rcases List.countP_pos_iff.mp
    (show 0 < trace.countP (exitReturns c).debit by omega)
    with ⟨event, hmem, hcounted⟩
  cases event with
  | passed q sem =>
      cases sem with
      | exitsem p =>
          simp only [exitReturns, decide_eq_true_eq] at hcounted
          exact ⟨p, hcounted ▸ hmem⟩
      | _ => simp [exitReturns] at hcounted
  | _ => simp [exitReturns] at hcounted

end Runs

end Processes

end Nachos
