import Nachos.ProcessTree

/-!
# The slots of the process table

`ExitUpdate` does not clear the bit of a process in `bm`.  `ExecUpdate` then
finds no slot once nine processes have been created, also when some of them
have exited and been joined.
-/

namespace Nachos

open Library

namespace Processes

/-- The processes other than process 0 that have been created. -/
def made (trace : List Event) : Finset ℕ :=
  (Finset.range maxProcess).filter fun c =>
    c ≠ 0 ∧ trace.any (creations c).credit = true

/-- The process has finished, and a join of it has returned. -/
def exitedAndJoined (trace : List Event) (c : ℕ) : Bool :=
  trace.contains (.finished c) && decide (joinsReturned trace c ≠ 0)

/-- The processes that have not yet both exited and been joined. -/
def live (trace : List Event) : Finset ℕ :=
  (made trace).filter fun c => exitedAndJoined trace c = false

/-- `ExecUpdate` finds no slot only when all others are live. -/
def SlotsReclaimed (trace : List Event) : Prop :=
  ∀ earlier later p, trace = earlier ++ .searched p none :: later →
    maxProcess - 1 ≤ (live earlier).card

/-- At every search for a slot, fewer than nine processes have been created,
or none of them has both exited and been joined. -/
def NoneReclaimable (trace : List Event) : Prop :=
  ∀ earlier later p slot, trace = earlier ++ .searched p slot :: later →
    (made earlier).card < maxProcess - 1 ∨
      ∀ c ∈ made earlier, exitedAndJoined earlier c = false

section Runs

variable {trace : List Event} {k k' : Processes} {action : Action}

theorem made_subset (trace : List Event) :
    made trace ⊆ (Finset.range maxProcess).erase 0 := by
  intro c hc
  simp only [made, Finset.mem_filter] at hc
  exact Finset.mem_erase.mpr ⟨hc.2.1, hc.1⟩

theorem mem_made {c : ℕ} :
    c ∈ made trace ↔ c < maxProcess ∧ c ≠ 0 ∧ ∃ p, .created p c ∈ trace := by
  have hany : trace.any (creations c).credit = true ↔
      ∃ p, .created p c ∈ trace := by
    rw [List.any_eq_true]
    constructor
    · rintro ⟨event, hmem, hcounted⟩
      cases event with
      | created p d =>
          obtain rfl : d = c := by simpa [creations] using hcounted
          exact ⟨p, hmem⟩
      | _ => simp [creations] at hcounted
    · rintro ⟨p, hmem⟩
      exact ⟨_, hmem, by simp [creations]⟩
  simp only [made, Finset.mem_filter, Finset.mem_range, hany]

theorem Moves.of_full
    {t : ThreadId} {th : Thread} {choice : Choice} {event : Event} {p : ℕ}
    (hmoves : Moves k t th choice event k')
    (hevent : event = .searched p none) :
    (∃ call rest, th.script = .findAndSet call :: rest) ∧
      ∀ j < k.pTable.bm.numBits, k.pTable.bm.bit j = true := by
  cases hmoves with
  | full hscript hall => exact ⟨⟨_, _, hscript⟩, hall⟩
  | updated _ _ hupdate => cases hupdate <;> cases hevent
  | locally hlocal =>
      subst hevent
      generalize th.script = old at hlocal
      cases hlocal
  | _ => cases hevent

/-- A search finds no slot exactly when nine processes have been created. -/
theorem searched_none_iff
    {p : ℕ} {slot : Option ℕ}
    (hreaches : processSystem.Reaches trace k)
    (hstep : k.step action = .ok (k', .searched p slot)) :
    slot = none ↔ (made trace).card = maxProcess - 1 := by
  have hshaped := shaped_of_reaches hreaches
  have hcard : ((Finset.range maxProcess).erase 0).card = maxProcess - 1 := by
    decide
  rcases step_moves hstep with ⟨th, -, hget, -, hmoves⟩
  constructor
  · rintro rfl
    rcases hmoves.of_full rfl with ⟨⟨call, rest, hscript⟩, hall⟩
    rw [hshaped.numBits] at hall
    have hsearch : 1 ≤ pending searching k.scripts := by
      have hmem := mem_scripts hget
      rw [hscript] at hmem
      obtain ⟨-, rfl⟩ := (hshaped.scripts _ hmem).head
      exact searching_covers.owed_le_pending hreaches hmem
    rw [← hcard]
    apply congrArg
    apply Finset.Subset.antisymm (made_subset trace)
    intro c hc
    rw [Finset.mem_erase, Finset.mem_range] at hc
    have hunits := bmsem_units hreaches c
    have hvalue := value_nonneg hreaches .bmsem
    have hbmsem : k.value .bmsem = k.pTable.bmsem.value := rfl
    exact mem_made.mpr ⟨hc.2, hc.1,
      (pcb_of_bit hreaches (hall c hc.2) (by omega)).2 hc.1⟩
  · intro hfull
    cases slot with
    | none => rfl
    | some c =>
        rcases hmoves.of_granted rfl with ⟨-, hlt, hclear, -⟩
        rw [hshaped.numBits] at hlt
        have hne : c ≠ 0 := by
          rintro rfl
          have hbit := hshaped.bit_of_identity
            (hshaped.parents 0 0 (.inr ⟨rfl, rfl⟩)).1
          simp [hclear] at hbit
        have heq : made trace = (Finset.range maxProcess).erase 0 :=
          Finset.eq_of_subset_of_card_le (made_subset trace)
            (by rw [hcard, hfull])
        have hmem : c ∈ made trace := by
          rw [heq]
          exact Finset.mem_erase.mpr ⟨hne, Finset.mem_range.mpr hlt⟩
        rcases (mem_made.mp hmem).2.2 with ⟨q, hcreated⟩
        have hbit := hshaped.bit_of_identity
          (hshaped.parents q c (.inl hcreated)).2.1
        simp [hclear] at hbit

/-- Slots are reclaimed exactly in the runs in which none could be. -/
theorem slots_reclaimed_iff
    (hreaches : processSystem.Reaches trace k) :
    SlotsReclaimed trace ↔ NoneReclaimable trace := by
  have hsearch : ∀ earlier later p slot,
      trace = earlier ++ .searched p slot :: later →
        (slot = none ↔ (made earlier).card = maxProcess - 1) := by
    rintro earlier later p slot rfl
    rcases hreaches.step_at with
      ⟨before, after, action, hbefore, -, hstep, -⟩
    exact searched_none_iff hbefore hstep
  have hlive : ∀ earlier, maxProcess - 1 ≤ (live earlier).card ↔
      (made earlier).card = maxProcess - 1 ∧
        ∀ c ∈ made earlier, exitedAndJoined earlier c = false := by
    intro earlier
    have hle : (made earlier).card ≤ maxProcess - 1 :=
      Finset.card_le_card (made_subset earlier)
    have hsub : (live earlier).card ≤ (made earlier).card :=
      Finset.card_filter_le _ _
    constructor
    · intro hcard
      have heq : (live earlier).card = (made earlier).card := by omega
      exact ⟨by omega, Finset.card_filter_eq_iff.mp heq⟩
    · rintro ⟨hcard, hall⟩
      have heq : (live earlier).card = (made earlier).card :=
        Finset.card_filter_eq_iff.mpr hall
      omega
  constructor
  · intro hreclaimed earlier later p slot htrace
    by_cases hfull : (made earlier).card = maxProcess - 1
    · obtain rfl := (hsearch earlier later p slot htrace).mpr hfull
      exact .inr ((hlive earlier).mp (hreclaimed earlier later p htrace)).2
    · have hle : (made earlier).card ≤ maxProcess - 1 :=
        Finset.card_le_card (made_subset earlier)
      exact .inl (by omega)
  · intro hnone earlier later p htrace
    have hfull := (hsearch earlier later p none htrace).mp rfl
    rcases hnone earlier later p none htrace with hlt | hall
    · omega
    · exact (hlive earlier).mpr ⟨hfull, hall⟩

/-- One child is created. -/
theorem slots_reclaimed_iff_one_child :
    ∃ trace k, processSystem.Reaches trace k ∧
      .searched 0 (some 1) ∈ trace ∧
      (SlotsReclaimed trace ↔ NoneReclaimable trace) := by
  have hreplays : processSystem.Replays StepSystem.anyStep (execChild 0)
      (fun trace _ => decide (.searched 0 (some 1) ∈ trace)) = true := by
    decide +kernel
  rcases StepSystem.exists_run_of_replays hreplays with
    ⟨trace, k, hrun, hcheck⟩
  exact ⟨trace, k, hrun, by simpa using hcheck, slots_reclaimed_iff hrun⟩

/-- Child 1 exits and is joined, eight more are created, and the next `Exec`
finds no slot. -/
theorem slots_not_reclaimed :
    ∃ trace k, processSystem.Reaches trace k ∧
      exitedAndJoined trace 1 = true ∧ ¬SlotsReclaimed trace := by
  have hreplays : processSystem.Replays StepSystem.anyStep
      (joinOfChild 7 ++ advanceBy 1 3 ++
        (List.replicate 8 (execChild 0)).flatten ++
        [⟨0, .call (.exec program)⟩, ⟨0, .answer true⟩] ++ advanceBy 0 2)
      (fun trace _ => decide (trace.getLast? = some (.searched 0 none)) &&
        decide ((live trace.dropLast).card < maxProcess - 1) &&
        exitedAndJoined trace 1) = true := by
    decide +kernel
  rcases StepSystem.exists_run_of_replays hreplays with
    ⟨trace, k, hrun, hcheck⟩
  simp only [Bool.and_eq_true, decide_eq_true_eq] at hcheck
  have htrace := List.dropLast_append_getLast? _ hcheck.1.1
  refine ⟨trace, k, hrun, hcheck.2, fun hreclaimed => ?_⟩
  have hlive := hreclaimed trace.dropLast [] 0 htrace.symm
  omega

end Runs

end Processes

end Nachos
