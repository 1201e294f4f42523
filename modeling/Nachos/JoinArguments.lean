import Nachos.JoinStatus

/-!
# The argument of a join

`JoinUpdate` reads the entry of any pid it is given, and takes every process
whose entry names the caller for a child the caller can wait for.
-/

namespace Nachos

open Library

namespace Processes

/-- The thread runs the user program of the process. -/
def InUserMode (k : Processes) (t : ThreadId) (p : ℕ) : Prop :=
  k.halted = false ∧
    ∃ rest, k.threads[t]? = some ⟨p, false, .user :: rest⟩

/-- The process may wait for the pid: it is a child whose signal has not been
taken. -/
def Joinable (trace : List Event) (k : Processes) (p : ℕ) (pid : ℤ) : Prop :=
  ∃ c : ℕ, pid = c ∧ c < maxProcess ∧ c ≠ p ∧ k.parentID c = some p ∧
    .returned p (.join pid) 0 ∉ trace

/-- The call returns -1, and nothing has changed. -/
def JoinRejected (k : Processes) (t : ThreadId) (p : ℕ) (pid : ℤ) : Prop :=
  ∃ called, k.step ⟨t, .call (.join pid)⟩ =
      .ok (called, .called p (.join pid)) ∧
    called.step ⟨t, .proceed⟩ = .ok (k, .returned p (.join pid) (-1))

section Calls

variable {k : Processes} {t : ThreadId} {th : Thread} {p : ℕ}

theorem step_of_awake {choice : Choice} (hhalted : k.halted = false)
    (hget : k.threads[t]? = some th) (hawake : th.blocked = false) :
    k.step ⟨t, choice⟩ = k.advance t th th.script choice := by
  simp [step, hhalted, hget, hawake]

theorem getElem?_continueWith (hget : k.threads[t]? = some th)
    (script : List Stmt) : (k.continueWith t th script).threads[t]? =
      some { th with script := script } := by
  obtain ⟨hlt, -⟩ := List.getElem?_eq_some_iff.mp hget
  simp [hlt]

/-- The next statement of a thread that has just called. -/
theorem step_continueWith {stmt : Stmt} {rest : List Stmt} {choice : Choice}
    (hhalted : k.halted = false) (hget : k.threads[t]? = some th)
    (hawake : th.blocked = false) :
    (k.continueWith t th (stmt :: rest)).step ⟨t, choice⟩ =
      (k.continueWith t th (stmt :: rest)).advance t
        { th with script := stmt :: rest } (stmt :: rest) choice :=
  step_of_awake hhalted (getElem?_continueWith hget _) hawake

/-- A thread that has its script again is as it was. -/
theorem continueWith_continueWith (hget : k.threads[t]? = some th)
    (script : List Stmt) :
    (k.continueWith t th script).continueWith t { th with script := script }
      th.script = k := by
  obtain ⟨hlt, hold⟩ := List.getElem?_eq_some_iff.mp hget
  have hthreads : (k.threads.set t { th with script := script }).set t th =
      k.threads := by
    rw [List.set_set, ← hold, List.set_getElem_self]
  unfold continueWith setThread
  simp only
  rw [hthreads]

theorem joinRejected_of_refused
    (hhalted : k.halted = false) (hget : k.threads[t]? = some th)
    (hawake : th.blocked = false) {rest : List Stmt}
    (hscript : th.script = .user :: rest) {c : ℕ} (hlt : c < maxProcess)
    (hother : k.parentID c ≠ some th.processID) :
    JoinRejected k t th.processID c := by
  refine ⟨k.continueWith t th
    (.writeResult (.join c) (-1) :: .user :: rest), ?_, ?_⟩
  · rw [step_of_awake hhalted hget hawake, hscript]
    have hrange : (0 : ℤ) ≤ c ∧ (c : ℤ) < maxProcess := by omega
    simp only [advance, trap, if_pos hrange, Int.toNat_natCast]
    cases hpcb : k.pTable.pcb c with
    | none => rfl
    | some pcb =>
        have hne : pcb.parentID ≠ th.processID := by
          intro heq
          exact hother (by simp [parentID, hpcb, heq])
        simp only [if_neg hne]
  · rw [step_continueWith hhalted hget hawake]
    have hback := continueWith_continueWith hget
      (.writeResult (.join c) (-1) :: .user :: rest)
    rw [hscript] at hback
    simp only [advance, execute, hback]

/-- A pid outside the array is read. -/
theorem step_join_outside
    (hhalted : k.halted = false) (hget : k.threads[t]? = some th)
    (hawake : th.blocked = false) {rest : List Stmt}
    (hscript : th.script = .user :: rest) {pid : ℤ}
    (hout : ¬(0 ≤ pid ∧ pid < maxProcess)) :
    k.step ⟨t, .call (.join pid)⟩ = .error .outsideTable := by
  rw [step_of_awake hhalted hget hawake, hscript]
  simp only [advance, trap, if_neg hout]

/-- A process that the entry names as the parent comes to its wait. -/
theorem step_join_granted
    (hhalted : k.halted = false) (hget : k.threads[t]? = some th)
    (hawake : th.blocked = false) {rest : List Stmt}
    (hscript : th.script = .user :: rest) {c : ℕ} (hlt : c < maxProcess)
    (hparent : k.parentID c = some th.processID) :
    k.step ⟨t, .call (.join c)⟩ =
      .ok (k.continueWith t th (joinUpdate th.processID c ++ .user :: rest),
        .called th.processID (.join c)) := by
  obtain ⟨pcb, hpcb, heq⟩ := Option.map_eq_some_iff.mp hparent
  have hrange : (0 : ℤ) ≤ c ∧ (c : ℤ) < maxProcess := by omega
  rw [step_of_awake hhalted hget hawake, hscript]
  simp only [advance, trap, if_pos hrange, Int.toNat_natCast, hpcb,
    if_pos heq]

theorem semaphoreP_ne_returned
    {sem : SemRef} {rest : List Stmt} {k' : Processes} {q : ℕ} {call : Call}
    {result : ℤ} : k.semaphoreP t th sem rest ≠
      .ok (k', .returned q call result) := by
  unfold semaphoreP
  split
  next => simp
  next => split <;> simp

theorem joinRejected_iff_refused (huser : InUserMode k t p) (pid : ℤ) :
    JoinRejected k t p pid ↔
      0 ≤ pid ∧ pid < maxProcess ∧ k.parentID pid.toNat ≠ some p := by
  obtain ⟨hhalted, rest, hget⟩ := huser
  constructor
  · rintro ⟨called, hcall, hreturn⟩
    by_cases hrange : 0 ≤ pid ∧ pid < maxProcess
    · refine ⟨hrange.1, hrange.2, fun hparent => ?_⟩
      obtain ⟨c, rfl⟩ := Int.eq_ofNat_of_zero_le hrange.1
      have hlt : c < maxProcess := by omega
      rw [step_join_granted hhalted hget rfl rfl hlt hparent] at hcall
      cases hcall
      rw [joinUpdate, List.cons_append, step_continueWith hhalted hget rfl]
        at hreturn
      exact semaphoreP_ne_returned hreturn
    · rw [step_join_outside hhalted hget rfl rfl hrange] at hcall
      cases hcall
  · rintro ⟨hnonneg, hlt, hother⟩
    obtain ⟨c, rfl⟩ := Int.eq_ofNat_of_zero_le hnonneg
    exact joinRejected_of_refused hhalted hget rfl rfl (by omega) hother

end Calls

/-! ## Joins that nobody can answer -/

section Runs

variable {trace : List Event} {k : Processes} {t : ThreadId} {p : ℕ}

/-- Process 0 is recorded as its own parent, and no other process is. -/
theorem parentID_self_iff (hreaches : processSystem.Reaches trace k) :
    k.parentID p = some p ↔ p = 0 := by
  constructor
  · intro hself
    have hshaped := shaped_of_reaches hreaches
    have hparent := hshaped.parent_of_parentID p p hself
    rcases (hshaped.parents p p hparent).2.2 with hlt | ⟨hzero, -⟩
    · exact (Nat.lt_irrefl p hlt).elim
    · exact hzero
  · rintro rfl
    exact parentID_of_parent hreaches (.inr ⟨rfl, rfl⟩)

/-- A pid that has been joined is the pid of a child. -/
theorem parentID_of_joined (hreaches : processSystem.Reaches trace k) {c : ℕ}
    (hjoined : .returned p (.join c) 0 ∈ trace) :
    k.parentID c = some p := by
  obtain ⟨earlier, later, rfl⟩ := List.append_of_mem hjoined
  obtain ⟨before, after, action, hbefore, -, hstep, -⟩ := hreaches.step_at
  obtain ⟨hparent, -⟩ := joined_step hbefore hstep
  apply parentID_of_parent hreaches
  exact hparent.imp (fun hmem => List.mem_append_left _ hmem) id

/-- `JoinUpdate` of a pid the process cannot wait for returns -1 and leaves
everything as it was, unless the pid is outside the array, process 0 joins
itself, or the signal of the child has been taken already. -/
theorem join_rejected_iff (hreaches : processSystem.Reaches trace k)
    (huser : InUserMode k t p) (pid : BitVec 32)
    (hnot : ¬Joinable trace k p pid.toInt) :
    JoinRejected k t p pid.toInt ↔
      0 ≤ pid.toInt ∧ pid.toInt < maxProcess ∧
        ¬(p = 0 ∧ pid.toInt = 0) ∧
        .returned p (.join pid.toInt) 0 ∉ trace := by
  rw [joinRejected_iff_refused huser]
  constructor
  · rintro ⟨hnonneg, hlt, hother⟩
    obtain ⟨c, hc⟩ := Int.eq_ofNat_of_zero_le hnonneg
    rw [hc, Int.toNat_natCast] at hother
    refine ⟨hnonneg, hlt, ?_, ?_⟩
    · rintro ⟨rfl, hzero⟩
      obtain rfl : c = 0 := by omega
      exact hother ((parentID_self_iff hreaches).mpr rfl)
    · intro hjoined
      rw [hc] at hjoined
      exact hother (parentID_of_joined hreaches hjoined)
  · rintro ⟨hnonneg, hlt, hself, hjoined⟩
    refine ⟨hnonneg, hlt, fun hparent => ?_⟩
    obtain ⟨c, hc⟩ := Int.eq_ofNat_of_zero_le hnonneg
    rw [hc, Int.toNat_natCast] at hparent
    by_cases hsame : c = p
    · subst hsame
      have hzero := (parentID_self_iff hreaches).mp hparent
      exact hself ⟨hzero, by omega⟩
    · exact hnot ⟨c, hc, by omega, hsame, hparent, hjoined⟩

theorem join_rejected_iff_null :
    JoinRejected Processes.start 0 0 5 := by
  have huser : InUserMode Processes.start 0 0 := ⟨rfl, [], rfl⟩
  have hnot : ¬Joinable [] Processes.start 0 (5#32).toInt := by
    rintro ⟨c, hc, -, -, hparent, -⟩
    obtain rfl : c = 5 := by
      have hfive : (5#32).toInt = 5 := by decide
      omega
    simp [parentID, Processes.start, initialTable] at hparent
  exact (join_rejected_iff .start huser 5#32 hnot).mpr (by decide)

/-- Nobody comes back from such a wait: no child signals twice, and process 0
signals nobody. -/
theorem join_again_never_returns {later : List Event} {c : ℕ}
    (hreaches : processSystem.Reaches (trace ++ later) k)
    (htaken : .returned p (.join c) 0 ∈ trace ∨ c = 0) (q : ℕ) :
    .returned q (.join c) 0 ∉ later := by
  intro hagain
  have hreturned := joinReturns_le_taken hreaches c
  have hgiven : _ ≤ List.countP (given (.joinsem c)) _ :=
    taken_le_given hreaches rfl
  have hexits := given_le_exits hreaches c
  have hlater : 0 < later.countP (joinReturns c).credit :=
    countP_pos_of_mem hagain (by simp [joinReturns])
  rw [List.countP_append] at hreturned
  rcases htaken with htaken | rfl
  · have hone := exits_le_one hreaches c
    have hearlier : 0 < trace.countP (joinReturns c).credit :=
      countP_pos_of_mem htaken (by simp [joinReturns])
    omega
  · have hnone : (trace ++ later).countP (exits 0) = 0 := by
      apply List.countP_eq_zero.mpr
      intro event _
      cases event <;> grind [exits]
    omega

end Runs

/-! ## Three joins -/

/-- The join of process 0 comes to a wait and sleeps. -/
def joinSleeps (k : Processes) (c : ℕ) : Bool :=
  match k.step ⟨0, .call (.join c)⟩ with
  | .ok (called, _) =>
      match called.step ⟨0, .proceed⟩ with
      | .ok (_, event) => decide (event = .slept 0 (.joinsem c))
      | .error _ => false
  | .error _ => false

theorem not_joinRejected_of_sleeps {k : Processes} {c : ℕ}
    (hsleeps : joinSleeps k c = true) : ¬JoinRejected k 0 0 c := by
  rintro ⟨called, hcall, hreturn⟩
  simp [joinSleeps, hcall, hreturn] at hsleeps

theorem start_inUserMode : InUserMode Processes.start 0 0 :=
  ⟨rfl, [], rfl⟩

/-- The result of an `Exec` that has failed, process 0 itself, and a child
that has been joined. -/
theorem join_not_rejected :
    (InUserMode Processes.start 0 0 ∧ ¬Joinable [] Processes.start 0 (-1) ∧
        ¬JoinRejected Processes.start 0 0 (-1)) ∧
      (¬Joinable [] Processes.start 0 0 ∧
        ¬JoinRejected Processes.start 0 0 0) ∧
      ∃ trace k, processSystem.Reaches trace k ∧ InUserMode k 0 0 ∧
        ¬Joinable trace k 0 1 ∧ ¬JoinRejected k 0 0 1 := by
  refine ⟨⟨start_inUserMode, ?_, ?_⟩, ⟨?_, ?_⟩, ?_⟩
  · rintro ⟨c, hc, -⟩
    omega
  · rw [joinRejected_iff_refused start_inUserMode]
    rintro ⟨hnonneg, -⟩
    omega
  · rintro ⟨c, hc, -, hne, -⟩
    omega
  · exact not_joinRejected_of_sleeps (c := 0) (by decide)
  · have hreplays : processSystem.Replays StepSystem.anyStep (joinOfChild 7)
        (fun trace k => decide (.returned 0 (.join 1) 0 ∈ trace) &&
          (decide (k.halted = false) &&
            decide (k.scripts[0]? = some (0, [.user]))) &&
          ((k.threads.map Thread.blocked)[0]? == some false) &&
          joinSleeps k 1) = true := by
      decide +kernel
    rcases StepSystem.exists_run_of_replays hreplays with
      ⟨trace, k, hrun, hcheck⟩
    simp only [Bool.and_eq_true, decide_eq_true_eq, beq_iff_eq] at hcheck
    obtain ⟨⟨⟨hjoined, hhalted, hscript⟩, hawake⟩, hsleeps⟩ := hcheck
    refine ⟨trace, k, hrun, ⟨hhalted, [], ?_⟩, ?_,
      not_joinRejected_of_sleeps hsleeps⟩
    · simp only [scripts, List.getElem?_map, Option.map_eq_some_iff]
        at hscript hawake
      obtain ⟨⟨processID, blocked, script⟩, hget, heq⟩ := hscript
      obtain ⟨th, hget', hawake⟩ := hawake
      rw [hget] at hget'
      cases hget'
      obtain rfl : blocked = false := hawake
      cases heq
      exact hget
    · rintro ⟨c, hc, -, -, -, hnot⟩
      exact hnot hjoined

end Processes

end Nachos
