import Nachos.SemaphoreRuns
import Nachos.ReadCall

/-!
# How often a `Wait` on a name returns

`P` lets a process pass unless the value is zero.  The value is that of the
first entry with the name, and it is off by what has been given and taken; as
long as it has started from a number that is not negative, no more units are
taken than there are.
-/

namespace Nachos

open Library

namespace SemaphoreEvent

/-- A `Wait` on the name has returned 0. -/
def passes (name : CString) : SemaphoreEvent → Bool
  | .passed _ name' _ => name' = name
  | _ => false

/-- A `Signal` on the name has returned 0. -/
def releases (name : CString) : SemaphoreEvent → Bool
  | .released _ name' _ => name' = name
  | _ => false

end SemaphoreEvent

namespace Semaphores

/-- The value of the semaphore that a name stands for. -/
def valueOf (s : Semaphores) (name : CString) : Option (BitVec 32) :=
  (s.table.search name).bind fun id =>
    (s.table.semTab id).map fun entry => entry.sem.value

/-- At every moment from a state on, the number of `Wait`s that have returned
0 is at most `max(init, 0)` plus the number of `Signal`s that have. -/
def WaitsBounded (s : Semaphores) (name : CString) (init : BitVec 32) :
    Prop :=
  ∀ later s', (semaphoreSystem s).Reaches later s' →
    (later.countP (·.passes name) : ℤ) ≤
      max init.toInt 0 + later.countP (·.releases name)

/-- The value that `Wait` is going to find is not negative, and not above
`max(init, 0)`. -/
def Accepts (s : Semaphores) (name : CString) (init : BitVec 32) : Prop :=
  match s.valueOf name with
  | none => 0 ≤ init.toInt
  | some value => (value.toNat : ℤ) ≤ max init.toInt 0

instance (s : Semaphores) (name : CString) (init : BitVec 32) :
    Decidable (s.Accepts name init) := by
  unfold Accepts
  split <;> infer_instance

section Values

variable {s s' : Semaphores} {event : SemaphoreEvent} {p id : ℕ}
variable {name other : CString} {init value : BitVec 32}

theorem valueOf_setSem
    {entry : Sem} (hsearch : s.table.search name = some id)
    (hentry : s.table.semTab id = some entry) (sem : UserSemaphore) :
    (s.setSem id entry sem).valueOf other =
      if name = other then some sem.value else s.valueOf other := by
  have hsame : (s.table.setSem id entry sem).search other =
      s.table.search other :=
    STable.search_congr (STable.nameAt_setSem hentry sem) other
  rw [valueOf, setSem, hsame]
  split
  next heq =>
    subst heq
    rw [hsearch]
    simp [STable.setSem]
  next hne =>
    rw [valueOf]
    cases hfound : s.table.search other with
    | none => rfl
    | some i =>
        have hdistinct : i ≠ id := by
          rintro rfl
          have hname := (STable.search_eq_some.mp hsearch).2.1
          have hname' := (STable.search_eq_some.mp hfound).2.1
          exact hne (Option.some.inj (hname.symm.trans hname'))
        simp [STable.setSem, Function.update_of_ne hdistinct]

@[simp] theorem setProcess_valueOf (mode : Waiter) :
    (s.setProcess p mode).valueOf = s.valueOf := rfl

@[simp] theorem wake_valueOf : (s.wake p).valueOf = s.valueOf := by
  funext name
  rw [valueOf, wake_table, valueOf]

theorem valueOf_eq
    {entry : Sem} (hsearch : s.table.search name = some id)
    (hentry : s.table.semTab id = some entry) :
    s.valueOf name = some entry.sem.value := by
  simp [valueOf, hsearch, hentry]

theorem exists_entry
    (hsearch : s.table.search name = some id) :
    ∃ entry, s.table.semTab id = some entry ∧ entry.name = name := by
  have hname := (STable.search_eq_some.mp hsearch).2.1
  exact Option.map_eq_some_iff.mp hname

/-- A semaphore that changes changes the value of its own name. -/
theorem valueOf_setSem_add
    (sem : UserSemaphore) (change : BitVec 32) {entry : Sem}
    (hsearch : s.table.search other = some id)
    (hentry : s.table.semTab id = some entry)
    (hsem : sem.value = entry.sem.value + change)
    (hvalue : s.valueOf name = some value) :
    (s.setSem id entry sem).valueOf name =
      some (value + if other = name then change else 0) := by
  rw [valueOf_setSem hsearch hentry]
  split
  next heq =>
    subst heq
    rw [valueOf_eq hsearch hentry] at hvalue
    cases hvalue
    rw [hsem]
  next => simpa using hvalue

/-- What `Create` does to the values: a new name gets one. -/
theorem valueOf_added
    {used : ℕ} (hshape : s.table.Shape used) (hfree : used < maxSemaphore) :
    ({ s with table := s.table.added used name init } : Semaphores).valueOf
        other =
      if name = other then some ((s.valueOf name).getD init)
      else s.valueOf other := by
  cases hsearch : s.table.search other with
  | some i =>
      rcases exists_entry hsearch with ⟨entry, hentry, -⟩
      have hne : i ≠ used := (hshape.search_lt hsearch).ne
      have hentry' : (s.table.added used name init).semTab i =
          some entry := (Function.update_of_ne hne _ _).trans hentry
      have hsame := valueOf_eq (s := { s with
        table := s.table.added used name init })
        (hshape.search_added_of_some hsearch) hentry'
      have hold := valueOf_eq hsearch hentry
      rw [hsame, hold]
      split
      next heq => rw [heq, hold, Option.getD_some]
      next => rfl
  | none =>
      have hold : s.valueOf other = none := by
        rw [valueOf, hsearch]
        rfl
      have hsearch' := @STable.search_added_of_none _ _ name other init hfree
        hsearch
      rw [valueOf, hsearch', hold]
      split
      next heq =>
        rw [if_pos heq.symm, ← heq, hold]
        simp [STable.added]
      next hne => rw [if_neg (Ne.symm hne), Option.bind_none]

/-- The value of a name is changed by what passes and by what is released. -/
theorem Move.valueOf
    (hkept : s.Kept) (hmove : s.Move event s')
    (hvalue : s.valueOf name = some value) :
    s'.valueOf name = some (value +
        (if event.releases name then 1 else 0) -
        (if event.passes name then 1 else 0)) ∧
      (event.passes name → value ≠ 0) := by
  have hquiet : event.releases name = false → event.passes name = false →
      s'.valueOf name = some value →
      s'.valueOf name = some (value +
          (if event.releases name then 1 else 0) -
          (if event.passes name then 1 else 0)) ∧
        (event.passes name → value ≠ 0) := by
    intro hreleases hpasses hsame
    simp [hreleases, hpasses, hsame]
  cases hmove with
  | @created p other init id table hshort hcreate =>
      apply hquiet rfl rfl
      rcases hkept.shape with ⟨used, hshape⟩
      rcases hshape.create hshort init with
        ⟨-, hfull⟩ | ⟨hfree, hadded⟩
      · rw [hfull] at hcreate
        cases hcreate
        exact hvalue
      · rw [hadded] at hcreate
        cases hcreate
        rw [valueOf_added hshape hfree]
        split
        next heq => rw [heq, hvalue, Option.getD_some]
        next => exact hvalue
  | missed _ => exact hquiet rfl rfl hvalue
  | @passed p id other entry htests hentry hne =>
      have hsearch := hkept.search_of_tests htests
      have hnew := valueOf_setSem_add
        { entry.sem with value := entry.sem.value - 1 } (-1) hsearch hentry
        (BitVec.sub_eq_add_neg _ _) hvalue
      constructor
      · rw [setProcess_valueOf, hnew]
        by_cases heq : other = name
        · simp [SemaphoreEvent.passes, SemaphoreEvent.releases, heq,
            BitVec.sub_eq_add_neg]
        · simp [SemaphoreEvent.passes, SemaphoreEvent.releases, heq]
      · intro hpasses
        obtain rfl : other = name := of_decide_eq_true hpasses
        rw [valueOf_eq hsearch hentry] at hvalue
        cases hvalue
        exact hne
  | @slept p id other entry htests hentry hzero =>
      apply hquiet rfl rfl
      have hsearch := hkept.search_of_tests htests
      have hnew := valueOf_setSem_add
        { entry.sem with queue := entry.sem.queue ++ [p] } 0 hsearch hentry
        (by simp) hvalue
      simpa using hnew
  | @released p id other entry hsearch hentry _ =>
      have hnew := valueOf_setSem_add ⟨entry.sem.value + 1, []⟩ 1 hsearch
        hentry rfl hvalue
      rw [hnew]
      simp [SemaphoreEvent.passes, SemaphoreEvent.releases]
  | @woke p id u other entry waiting hsearch hentry _ =>
      have hnew := valueOf_setSem_add ⟨entry.sem.value + 1, waiting⟩ 1
        hsearch hentry rfl hvalue
      rw [wake_valueOf, hnew]
      simp [SemaphoreEvent.passes, SemaphoreEvent.releases]

end Values

/-! ## Units -/

/-- The value is what was there and was released less what has passed, and no
more has passed than that. -/
structure Balanced (name : CString) (first : BitVec 32)
    (later : List SemaphoreEvent) (s : Semaphores) : Prop where
  kept : s.Kept
  value : s.valueOf name = some (first +
    BitVec.ofNat 32 (later.countP (·.releases name)) -
      BitVec.ofNat 32 (later.countP (·.passes name)))
  bound : later.countP (·.passes name) ≤
    first.toNat + later.countP (·.releases name)

section Units

variable {s s' : Semaphores} {p : ℕ} {m : Machine} {name : CString}
variable {init first : BitVec 32} {later : List SemaphoreEvent}

/-- When all units have passed, the value is zero. -/
theorem value_of_all_passed (first : BitVec 32) (released : ℕ) :
    first + BitVec.ofNat 32 released -
      BitVec.ofNat 32 (first.toNat + released) = 0 := by
  rw [BitVec.ofNat_add, BitVec.ofNat_toNat, BitVec.setWidth_eq,
    BitVec.sub_self]
  rfl

theorem balanced_of_reaches
    (hkept : s.Kept) (hvalue : s.valueOf name = some first)
    (hrun : (semaphoreSystem s).Reaches later s') :
    Balanced name first later s' := by
  apply hrun.invariant (Balanced name first)
  · refine ⟨hkept, ?_, Nat.zero_le _⟩
    change s.valueOf name = _
    simpa using hvalue
  · intro trace s₁ s₂ action event _ hbalanced _ hstep
    have hmove := move_of_step hstep
    rcases hmove.valueOf hbalanced.kept hbalanced.value with ⟨hnew, hpass⟩
    constructor
    case kept => exact hbalanced.kept.move hmove
    case value =>
      rw [hnew]
      simp only [List.countP_append, List.countP_singleton,
        BitVec.ofNat_add]
      cases event.releases name <;> cases event.passes name <;>
        simp <;> grind
    case bound =>
      have hbound := hbalanced.bound
      simp only [List.countP_append, List.countP_singleton]
      cases hpasses : event.passes name with
      | false =>
          simp only [Bool.false_eq_true, if_false]
          omega
      | true =>
          have hne : trace.countP (·.passes name) ≠
              first.toNat + trace.countP (·.releases name) := by
            intro hall
            apply hpass hpasses
            rw [hall]
            exact value_of_all_passed _ _
          simp only [if_true]
          omega

/-- A `Wait` on a name whose value is not zero. -/
theorem step_wait
    (huser : s.process p = .user) (hname : m.semaphoreName = .ok name)
    (hvalue : s.valueOf name = some first) (hne : first ≠ 0) :
    ∃ id s', s.step (.call p m .wait) = .ok (s', .passed p name id) ∧
      s'.process p = .user := by
  cases hsearch : s.table.search name with
  | none =>
      rw [valueOf, hsearch] at hvalue
      cases hvalue
  | some id =>
      rcases exists_entry hsearch with ⟨entry, hentry, -⟩
      rw [valueOf_eq hsearch hentry] at hvalue
      cases hvalue
      refine ⟨id, (s.setSem id entry { entry.sem with
        value := entry.sem.value - 1 }).setProcess p .user, ?_, ?_⟩
      · simp only [step, huser, hname, bind, Except.bind, perform, wait,
          hsearch, semaphoreP, hentry, if_neg hne]
        rfl
      · rw [setProcess_process, if_pos rfl]

/-- As long as there are units, one process can take them all. -/
theorem exists_passes
    (hkept : s.Kept) (huser : s.process p = .user)
    (hname : m.semaphoreName = .ok name)
    (hvalue : s.valueOf name = some first) {n : ℕ} (hn : n ≤ first.toNat) :
    ∃ later s', (semaphoreSystem s).Reaches later s' ∧
      later.countP (·.passes name) = n ∧
      later.countP (·.releases name) = 0 ∧ s'.process p = .user := by
  induction n with
  | zero => exact ⟨[], s, .start, rfl, rfl, huser⟩
  | succ n ih =>
      rcases ih (by omega) with ⟨later, s', hrun, hpassed, hreleased, huser'⟩
      have hbalanced := balanced_of_reaches hkept hvalue hrun
      have hvalue' := hbalanced.value
      rw [hpassed, hreleased] at hvalue'
      have hne : first + BitVec.ofNat 32 0 - BitVec.ofNat 32 n ≠ 0 := by
        intro hzero
        have hbound := first.isLt
        have hnat := congrArg BitVec.toNat hzero
        simp at hnat
        omega
      rcases step_wait huser' hname hvalue' hne with
        ⟨id, s'', hstep, huser''⟩
      have hmove : (semaphoreSystem s).step s' (.call p m .wait) =
        .ok (s'', .passed p name id) := hstep
      refine ⟨later ++ [.passed p name id], s'',
        .step hrun trivial hmove, ?_, ?_, huser''⟩
      · rw [List.countP_append, hpassed]
        simp [SemaphoreEvent.passes]
      · rw [List.countP_append, hreleased]
        simp [SemaphoreEvent.releases]

/-- The bound holds exactly if the value is not too large as an unsigned
number. -/
theorem waitsBounded_iff
    (hkept : s.Kept) (huser : s.process p = .user)
    (hname : m.semaphoreName = .ok name)
    (hvalue : s.valueOf name = some first) :
    s.WaitsBounded name init ↔ (first.toNat : ℤ) ≤ max init.toInt 0 := by
  constructor
  · intro hbounded
    by_contra hlarge
    have hle : (max init.toInt 0).toNat + 1 ≤ first.toNat := by omega
    rcases exists_passes hkept huser hname hvalue hle with
      ⟨later, s', hrun, hpassed, hreleased, -⟩
    have hbound := hbounded later s' hrun
    rw [hpassed, hreleased] at hbound
    omega
  · intro hle later s' hrun
    have hbound := (balanced_of_reaches hkept hvalue hrun).bound
    omega

end Units

/-- A value is in the range of its own exactly if it is not negative. -/
theorem toNat_le_max_iff (init : BitVec 32) :
    (init.toNat : ℤ) ≤ max init.toInt 0 ↔ 0 ≤ init.toInt := by
  have hlt := init.isLt
  rw [BitVec.toInt_eq_toNat_cond]
  split <;> omega

theorem created_of_step
    {s s' : Semaphores} {p : ℕ} {m : Machine} {name : CString}
    {init : BitVec 32} {id : ℤ}
    (hcreate : s.step (.call p m .createSemaphore) =
      .ok (s', .created p name init id)) :
    s.process p = .user ∧ m.semaphoreName = .ok name ∧
      init = m.readRegister 5 ∧
      ∃ table, s.table.create name init = .ok (id, table) ∧
        s' = { s with table := table } := by
  simp only [step] at hcreate
  split at hcreate
  next huser =>
    rcases ok_of_bind (ok_of_mapError hcreate) with ⟨name', hname, hperform⟩
    rcases ok_of_bind hperform with ⟨⟨id', table⟩, hmade, hresult⟩
    cases hresult
    exact ⟨huser, hname, rfl, table, hmade, rfl⟩
  next => cases hcreate

/-- A semaphore that a `CreateSemaphore` has returned blocks correctly if and
only if its name is new and its value is not negative, or the name has a
semaphore with a value in the range. -/
theorem waits_bounded_iff
    {s s' : Semaphores} {trace : List SemaphoreEvent} {p : ℕ} {m : Machine}
    {name : CString} {init : BitVec 32} {id : ℤ}
    (hrun : (semaphoreSystem .start).Reaches trace s)
    (hcreate : s.step (.call p m .createSemaphore) =
      .ok (s', .created p name init id))
    (hid : 0 ≤ id) :
    s'.WaitsBounded name init ↔ s.Accepts name init := by
  have hkept := kept_of_run start_kept hrun
  rcases created_of_step hcreate with ⟨huser, hname, -, table, hmade, rfl⟩
  rcases hkept.shape with ⟨used, hshape⟩
  have hshort := Machine.length_semaphoreName hname
  rcases hshape.create hshort init with
    ⟨-, hfull⟩ | ⟨hfree, hadded⟩
  · rw [hfull] at hmade
    cases hmade
    omega
  · rw [hadded] at hmade
    cases hmade
    have hkept' := hkept.move (.created (p := p) hshort hadded)
    have hvalue := @valueOf_added s name name init used hshape hfree
    rw [if_pos rfl] at hvalue
    rw [waitsBounded_iff (p := p) hkept' huser hname hvalue]
    unfold Accepts
    cases hold : s.valueOf name with
    | none => exact toNat_le_max_iff init
    | some value => rfl

/-- A program that passes the name `a` and a value. -/
def lockCaller (value : BitVec 32) : Machine :=
  (Kernel.onePage .add (.ofFile .null) [] [97, 0]).machine.writeRegister 5
    value

/-- The first call of the first process. -/
def createLock (value : BitVec 32) :
    Except StepError (Semaphores × SemaphoreEvent) :=
  start.step (.call 0 (lockCaller value) .createSemaphore)

theorem waits_bounded_iff_lock :
    ∃ s', createLock 1 = .ok (s', .created 0 [97] 1 0) ∧
      s'.WaitsBounded [97] 1 := by
  have hmade : (createLock 1).map Prod.snd = .ok (.created 0 [97] 1 0) := by
    decide +kernel
  cases hcreate : createLock 1 with
  | error fault =>
      rw [hcreate] at hmade
      cases hmade
  | ok made =>
      rcases made with ⟨s', event⟩
      rw [hcreate] at hmade
      obtain rfl : event = .created 0 [97] 1 0 := Except.ok.inj hmade
      exact ⟨s', rfl, (waits_bounded_iff .start hcreate le_rfl).mpr
        (by decide)⟩

/-- With the value -1 a `Wait` returns although there is no unit. -/
theorem negative_lock_passes :
    ∃ s', createLock (-1) = .ok (s', .created 0 [97] (-1) 0) ∧
      ¬s'.WaitsBounded [97] (-1) := by
  have hmade : (createLock (-1)).map (fun made =>
      (made.2, made.1.valueOf [97], made.1.process 0)) =
        .ok (.created 0 [97] (-1) 0, some (-1), .user) := by
    decide +kernel
  cases hcreate : createLock (-1) with
  | error fault =>
      rw [hcreate] at hmade
      cases hmade
  | ok made =>
      rcases made with ⟨s', event⟩
      rw [hcreate] at hmade
      have hresult := Except.ok.inj hmade
      rw [Prod.mk.injEq, Prod.mk.injEq] at hresult
      rcases hresult with ⟨rfl, hvalue, huser⟩
      have hkept := start_kept.move (move_of_step hcreate)
      have hname : (lockCaller (-1)).semaphoreName = .ok [97] := by
        decide +kernel
      refine ⟨s', rfl, ?_⟩
      rw [waitsBounded_iff hkept huser hname hvalue]
      decide

end Semaphores

end Nachos
