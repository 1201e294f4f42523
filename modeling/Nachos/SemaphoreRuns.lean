import Nachos.Library.StepSystem
import Nachos.ProcessTable
import Nachos.SemaphoreTable

/-!
# Runs on the semaphore table

Any number of processes make calls on names.  The entries of the table are
taken from the first one on and never given back, so that a name stands for
the same entry as long as the kernel runs.
-/

namespace Nachos

open Library

/-! ## The table -/

/-- The entries below `used` are taken. -/
structure STable.Shape (t : STable) (used : ℕ) : Prop where
  size : t.bm.numBits = maxSemaphore
  le : used ≤ maxSemaphore
  bits : ∀ i < maxSemaphore, t.bm.bit i = true ↔ i < used
  entries : ∀ i, t.semTab i ≠ none ↔ i < used

namespace STable

variable {t t' : STable} {used id : ℕ} {name other : CString}
variable {init : BitVec 32}

theorem search_eq_some :
    t.search name = some id ↔ id < maxSemaphore ∧
      t.nameAt id = some name ∧ ∀ j < id, t.nameAt j ≠ some name := by
  rw [search, List.find?_range_eq_some]
  simp only [decide_eq_true_eq, List.mem_range, Bool.not_eq_true',
    decide_eq_false_iff_not]
  tauto

theorem search_eq_none :
    t.search name = none ↔ ∀ i < maxSemaphore, t.nameAt i ≠ some name := by
  simp [search, List.find?_eq_none]

theorem search_congr (hnames : t'.nameAt = t.nameAt) (name : CString) :
    t'.search name = t.search name := by
  rw [search, search, hnames]

theorem Shape.nameAt (hshape : t.Shape used) (i : ℕ) :
    t.nameAt i ≠ none ↔ i < used := by
  rw [← hshape.entries i, STable.nameAt, ne_eq, Option.map_eq_none_iff]

theorem Shape.search_lt
    (hshape : t.Shape used) (hsearch : t.search name = some id) :
    id < used := by
  rw [← hshape.nameAt id, (search_eq_some.mp hsearch).2.1]
  simp

theorem nameAt_setSem
    {entry : Sem} (hentry : t.semTab id = some entry) (sem : UserSemaphore) :
    (t.setSem id entry sem).nameAt = t.nameAt := by
  funext i
  by_cases heq : i = id
  · subst heq
    simp [nameAt, setSem, hentry]
  · simp [nameAt, setSem, Function.update_of_ne heq]

theorem Shape.setSem
    (hshape : t.Shape used) {entry : Sem}
    (hentry : t.semTab id = some entry) (sem : UserSemaphore) :
    (t.setSem id entry sem).Shape used where
  size := hshape.size
  le := hshape.le
  bits := hshape.bits
  entries := fun i => by
    rw [← hshape.entries i]
    by_cases heq : i = id
    · subst heq
      simp [STable.setSem, hentry]
    · simp [STable.setSem, Function.update_of_ne heq]

/-- `Create` with a free entry. -/
def added (t : STable) (used : ℕ) (name : CString) (init : BitVec 32) :
    STable where
  bm := t.bm.setBit used
  semTab := Function.update t.semTab used (some ⟨name, ⟨init, []⟩⟩)

theorem Shape.added
    (hshape : t.Shape used) (hfree : used < maxSemaphore) :
    (t.added used name init).Shape (used + 1) where
  size := hshape.size
  le := hfree
  bits := fun i hi => by
    have hrange : used < t.bm.numBits := by rwa [hshape.size]
    rw [STable.added, Bitmap.bit_setBit hrange, Bool.or_eq_true,
      hshape.bits i hi, decide_eq_true_eq]
    omega
  entries := fun i => by
    by_cases heq : i = used
    · subst heq
      simp [STable.added]
    · have hold := hshape.entries i
      simp only [STable.added, Function.update_of_ne heq]
      rw [hold]
      omega

theorem nameAt_added :
    (t.added used name init).nameAt =
      Function.update t.nameAt used (some name) := by
  funext i
  by_cases heq : i = used
  · subst heq
    simp [nameAt, added]
  · simp [nameAt, added, Function.update_of_ne heq]

/-- A name that is in the table keeps its entry. -/
theorem Shape.search_added_of_some
    (hshape : t.Shape used) (hsearch : t.search other = some id) :
    (t.added used name init).search other = some id := by
  have hlt := hshape.search_lt hsearch
  rcases search_eq_some.mp hsearch with ⟨hrange, hname, hbefore⟩
  rw [search_eq_some, nameAt_added]
  refine ⟨hrange, ?_, ?_⟩
  · rwa [Function.update_of_ne (by omega)]
  · intro j hj
    rw [Function.update_of_ne (by omega)]
    exact hbefore j hj

/-- A name that is not in the table gets the new entry. -/
theorem search_added_of_none
    (hfree : used < maxSemaphore) (hsearch : t.search other = none) :
    (t.added used name init).search other =
      if other = name then some used else none := by
  have hmissing := search_eq_none.mp hsearch
  split
  next heq =>
    subst heq
    rw [search_eq_some, nameAt_added]
    refine ⟨hfree, Function.update_self _ _ _, ?_⟩
    intro j hj
    rw [Function.update_of_ne hj.ne]
    exact hmissing j (by omega)
  next hne =>
    rw [search_eq_none, nameAt_added]
    intro i hi
    by_cases heq : i = used
    · subst heq
      rw [Function.update_self]
      simpa using fun h => hne h.symm
    · rw [Function.update_of_ne heq]
      exact hmissing i hi

/-- Everything `Create` can do with a name that fits into an entry. -/
theorem Shape.create
    (hshape : t.Shape used) (hshort : name.length < 50)
    (init : BitVec 32) :
    (used = maxSemaphore ∧ t.create name init = .ok (-1, t)) ∨
      used < maxSemaphore ∧
        t.create name init = .ok ((used : ℤ), t.added used name init) := by
  rcases t.bm.findAndSet_cases with
    ⟨hfound, hall⟩ | ⟨i, hlt, hclear, hbefore, hfound⟩
  · left
    have hfull : used = maxSemaphore := by
      by_contra hne
      have hle := hshape.le
      have hbit := hall used (by rw [hshape.size]; omega)
      exact absurd ((hshape.bits used (by omega)).mp hbit) (lt_irrefl _)
    refine ⟨hfull, ?_⟩
    simp only [STable.create, hfound, bind, Except.bind, if_true]
    rfl
  · right
    rw [hshape.size] at hlt
    have hused : i = used := by
      rcases Nat.lt_trichotomy i used with h | h | h
      · rw [(hshape.bits i hlt).mpr h] at hclear
        cases hclear
      · exact h
      · have hbit := hbefore used h
        exact absurd ((hshape.bits used (by omega)).mp hbit) (lt_irrefl _)
    subst hused
    refine ⟨hlt, ?_⟩
    have hne : ¬(i : ℤ) = -1 := by omega
    simp only [STable.create, hfound, bind, Except.bind, if_neg hne,
      Int.toNat_natCast, Sem.new, if_pos hshort]
    rfl

end STable

namespace Machine

theorem length_copyIn
    {m m' : Machine} {addr : BitVec 32} {rounds : ℕ} {bytes : CString}
    (hcopy : copyIn addr rounds m = .ok (bytes, m')) :
    bytes.length ≤ rounds := by
  induction rounds generalizing m addr bytes with
  | zero =>
      cases hcopy
      rfl
  | succ rounds ih =>
      rcases ok_of_bind hcopy with ⟨⟨oneChar, between⟩, -, hcopy⟩
      simp only at hcopy
      split_ifs at hcopy
      · cases hcopy
        exact Nat.zero_le _
      · rcases ok_of_bind hcopy with ⟨⟨rest, after⟩, hrest, hresult⟩
        cases hresult
        exact Nat.succ_le_succ (ih hrest)

/-- The name fits into the 50 bytes of an entry. -/
theorem length_semaphoreName
    {m : Machine} {name : CString} (hname : m.semaphoreName = .ok name) :
    name.length < 50 := by
  rcases ok_of_bind hname with ⟨⟨buffer, m'⟩, hcopy, hbuffer⟩
  obtain rfl : cString buffer = name := Except.ok.inj hbuffer
  have hshort : (cString buffer).length ≤ buffer.length :=
    (List.takeWhile_sublist _).length_le
  unfold user2System at hcopy
  split_ifs at hcopy
  rcases ok_of_bind hcopy with ⟨⟨bytes, after⟩, hbytes, hresult⟩
  cases hresult
  have hbytes' := length_copyIn hbytes
  have hrounds : (maxFileLength + 1).toInt.toNat = 33 := by decide
  have hsize : (maxFileLength + 1 + 1).toNat = 34 := by decide
  have hlength : (bytes ++ List.replicate ((maxFileLength + 1 + 1).toNat -
      bytes.length) (0 : BitVec 8)).length ≤ 34 := by
    rw [List.length_append, List.length_replicate, hsize]
    omega
  omega

end Machine

/-! ## Runs -/

namespace Semaphores

/-- `STable::STable`, and every process in user mode. -/
def start : Semaphores where
  table := ⟨⟨maxSemaphore, [0], rfl⟩, fun _ => none⟩
  process := fun _ => .user

theorem start_new : STable.new = .ok start.table := by
  rfl

def step (s : Semaphores) :
    SemaphoreAction → Except StepError (Semaphores × SemaphoreEvent)
  | .call p m call =>
      match s.process p with
      | .user => (do
          let name ← m.semaphoreName
          s.perform p name (m.readRegister 5) call).mapError .fault
      | _ => .error .disabled
  | .resume p =>
      match s.process p with
      | .ready name id => (s.semaphoreP p name id).mapError .fault
      | _ => .error .disabled

/-- The process is in a `Wait` on this entry, about to test the value. -/
def Tests (s : Semaphores) (p : ℕ) (name : CString) (id : ℕ) : Prop :=
  s.process p = .user ∧ s.table.search name = some id ∨
    s.process p = .ready name id

/-- Everything a step can do. -/
inductive Move (s : Semaphores) : SemaphoreEvent → Semaphores → Prop
  | created {p : ℕ} {name : CString} {init : BitVec 32} {id : ℤ}
      {table : STable} :
      name.length < 50 → s.table.create name init = .ok (id, table) →
        Move s (.created p name init id) { s with table := table }
  | missed {p : ℕ} {name : CString} :
      s.table.search name = none → Move s (.missed p name) s
  | passed {p id : ℕ} {name : CString} {entry : Sem} :
      s.Tests p name id → s.table.semTab id = some entry →
      entry.sem.value ≠ 0 →
        Move s (.passed p name id)
          ((s.setSem id entry { entry.sem with
            value := entry.sem.value - 1 }).setProcess p .user)
  | slept {p id : ℕ} {name : CString} {entry : Sem} :
      s.Tests p name id → s.table.semTab id = some entry →
      entry.sem.value = 0 →
        Move s (.slept p name id)
          ((s.setSem id entry { entry.sem with
            queue := entry.sem.queue ++ [p] }).setProcess p (.asleep name id))
  | released {p id : ℕ} {name : CString} {entry : Sem} :
      s.table.search name = some id → s.table.semTab id = some entry →
      entry.sem.queue = [] →
        Move s (.released p name id)
          (s.setSem id entry ⟨entry.sem.value + 1, []⟩)
  | woke {p id u : ℕ} {name : CString} {entry : Sem} {waiting : List ℕ} :
      s.table.search name = some id → s.table.semTab id = some entry →
      entry.sem.queue = u :: waiting →
        Move s (.released p name id)
          ((s.setSem id entry ⟨entry.sem.value + 1, waiting⟩).wake u)

variable {s s' : Semaphores} {event : SemaphoreEvent} {p id : ℕ}
variable {name : CString} {init : BitVec 32}

theorem move_of_semaphoreP
    (htests : s.Tests p name id)
    (hstep : s.semaphoreP p name id = .ok (s', event)) : s.Move event s' := by
  unfold semaphoreP at hstep
  split at hstep
  next => cases hstep
  next entry hentry =>
    split_ifs at hstep with hvalue
    · cases hstep
      exact .slept htests hentry hvalue
    · cases hstep
      exact .passed htests hentry hvalue

theorem move_of_semaphoreV
    (hsearch : s.table.search name = some id)
    (hstep : s.semaphoreV p name id = .ok (s', event)) : s.Move event s' := by
  unfold semaphoreV at hstep
  split at hstep
  next => cases hstep
  next entry hentry =>
    split at hstep
    next hqueue =>
      cases hstep
      exact .released hsearch hentry hqueue
    next u waiting hqueue =>
      cases hstep
      exact .woke hsearch hentry hqueue

theorem move_of_perform
    {call : SemaphoreCall} (hshort : name.length < 50)
    (huser : s.process p = .user)
    (hstep : s.perform p name init call = .ok (s', event)) :
    s.Move event s' := by
  cases call with
  | createSemaphore =>
      rcases ok_of_bind hstep with ⟨⟨id, table⟩, hcreate, hresult⟩
      cases hresult
      exact .created hshort hcreate
  | wait =>
      change s.wait p name = _ at hstep
      unfold wait at hstep
      split at hstep
      next hsearch =>
        cases hstep
        exact .missed hsearch
      next id hsearch =>
        exact move_of_semaphoreP (.inl ⟨huser, hsearch⟩) hstep
  | signal =>
      change s.signal p name = _ at hstep
      unfold signal at hstep
      split at hstep
      next hsearch =>
        cases hstep
        exact .missed hsearch
      next id hsearch => exact move_of_semaphoreV hsearch hstep

theorem ok_of_mapError
    {α : Type} {outcome : Except Fault α} {result : α}
    (hresult : outcome.mapError StepError.fault = .ok result) :
    outcome = .ok result := by
  cases outcome with
  | error fault => cases hresult
  | ok value =>
      cases hresult
      rfl

theorem move_of_step
    {action : SemaphoreAction} (hstep : s.step action = .ok (s', event)) :
    s.Move event s' := by
  cases action with
  | call p m call =>
      simp only [step] at hstep
      split at hstep
      next huser =>
        rcases ok_of_bind (ok_of_mapError hstep) with ⟨name, hname, hperform⟩
        exact move_of_perform (Machine.length_semaphoreName hname) huser
          hperform
      next => cases hstep
  | resume p =>
      simp only [step] at hstep
      split at hstep
      next name id hready =>
        exact move_of_semaphoreP (.inr hready) (ok_of_mapError hstep)
      next => cases hstep

/-! ## What every step keeps -/

@[simp] theorem setProcess_table (mode : Waiter) :
    (s.setProcess p mode).table = s.table := rfl

theorem setProcess_process (mode : Waiter) (q : ℕ) :
    (s.setProcess p mode).process q = if q = p then mode else s.process q :=
  Function.update_apply _ _ _ _

@[simp] theorem wake_table : (s.wake p).table = s.table := by
  unfold wake
  split <;> rfl

/-- The table is well formed, and a process in a `Wait` is at the entry of the
name it has passed. -/
structure Kept (s : Semaphores) : Prop where
  shape : ∃ used, s.table.Shape used
  waits : ∀ p name id,
    s.process p = .asleep name id ∨ s.process p = .ready name id →
      s.table.search name = some id

theorem Kept.search_of_tests
    (hkept : s.Kept) (htests : s.Tests p name id) :
    s.table.search name = some id := by
  rcases htests with ⟨-, hsearch⟩ | hready
  · exact hsearch
  · exact hkept.waits p name id (.inr hready)

theorem Kept.setSem
    (hkept : s.Kept) {entry : Sem} (hentry : s.table.semTab id = some entry)
    (sem : UserSemaphore) : (s.setSem id entry sem).Kept := by
  constructor
  case shape =>
    rcases hkept.shape with ⟨used, hshape⟩
    exact ⟨used, hshape.setSem hentry sem⟩
  case waits =>
    intro p name other hwaits
    rw [Semaphores.setSem,
      STable.search_congr (STable.nameAt_setSem hentry sem)]
    exact hkept.waits p name other hwaits

theorem Kept.setProcess
    (hkept : s.Kept) {mode : Waiter}
    (hmode : ∀ name id, mode = .asleep name id ∨ mode = .ready name id →
      s.table.search name = some id) : (s.setProcess p mode).Kept := by
  constructor
  case shape => exact hkept.shape
  case waits =>
    intro q name id hwaits
    rw [setProcess_process] at hwaits
    split_ifs at hwaits
    · exact hmode name id hwaits
    · exact hkept.waits q name id hwaits

theorem Kept.wake (hkept : s.Kept) : (s.wake p).Kept := by
  unfold Semaphores.wake
  split
  next name id hasleep =>
    apply hkept.setProcess
    rintro other id' (hmode | hmode)
    · cases hmode
    · cases hmode
      exact hkept.waits p _ _ (.inl hasleep)
  next => exact hkept

/-- A name that is in the table keeps its entry. -/
theorem Move.search
    (hkept : s.Kept) (hmove : s.Move event s') {other : CString} {i : ℕ}
    (hsearch : s.table.search other = some i) :
    s'.table.search other = some i := by
  have hsame : ∀ {id : ℕ} {entry : Sem} (sem : UserSemaphore),
      s.table.semTab id = some entry →
        (s.setSem id entry sem).table.search other = some i := by
    intro id entry sem hentry
    rw [setSem, STable.search_congr (STable.nameAt_setSem hentry sem)]
    exact hsearch
  cases hmove with
  | @created p name init id table hshort hcreate =>
      rcases hkept.shape with ⟨used, hshape⟩
      rcases hshape.create hshort init with ⟨-, hfull⟩ | ⟨-, hadded⟩
      · rw [hfull] at hcreate
        cases hcreate
        exact hsearch
      · rw [hadded] at hcreate
        cases hcreate
        exact hshape.search_added_of_some hsearch
  | missed _ => exact hsearch
  | passed _ hentry _ => exact hsame _ hentry
  | slept _ hentry _ => exact hsame _ hentry
  | released _ hentry _ => exact hsame _ hentry
  | woke _ hentry _ =>
      rw [wake_table]
      exact hsame _ hentry

/-- One step. -/
theorem Kept.move (hkept : s.Kept) (hmove : s.Move event s') : s'.Kept := by
  have hsearch := fun name id => @Move.search s s' event hkept hmove name id
  cases hmove with
  | @created p name init id table hshort hcreate =>
      constructor
      case shape =>
        rcases hkept.shape with ⟨used, hshape⟩
        rcases hshape.create hshort init with
          ⟨-, hfull⟩ | ⟨hfree, hadded⟩
        · rw [hfull] at hcreate
          cases hcreate
          exact ⟨used, hshape⟩
        · rw [hadded] at hcreate
          cases hcreate
          exact ⟨used + 1, hshape.added hfree⟩
      case waits =>
        intro q other i hwaits
        exact hsearch other i (hkept.waits q other i hwaits)
  | missed _ => exact hkept
  | passed _ hentry _ =>
      apply (hkept.setSem hentry _).setProcess
      rintro other i (hmode | hmode) <;> cases hmode
  | @slept p id name entry htests hentry _ =>
      apply (hkept.setSem hentry _).setProcess
      rintro other i (hmode | hmode)
      · cases hmode
        exact hsearch _ _ (hkept.search_of_tests htests)
      · cases hmode
  | released _ hentry _ => exact hkept.setSem hentry _
  | woke _ hentry _ => exact (hkept.setSem hentry _).wake

theorem start_kept : Semaphores.start.Kept := by
  constructor
  case shape =>
    refine ⟨0, rfl, Nat.zero_le _, ?_, ?_⟩
    · intro i hi
      rcases @Bitmap.init_spec maxSemaphore (by decide) with
        ⟨b, hinit, -, hclear⟩
      have hnew := start_new
      rw [STable.new, hinit] at hnew
      have hbits : b = start.table.bm :=
        congrArg STable.bm (Except.ok.inj hnew)
      simp [← hbits, hclear i]
    · intro i
      simp [start]
  case waits =>
    rintro p name id (hwaits | hwaits) <;> cases hwaits

end Semaphores

/-- Any number of processes on the table, from a state on. -/
def semaphoreSystem (start : Semaphores) :
    StepSystem Semaphores SemaphoreAction SemaphoreEvent StepError where
  start := start
  step := Semaphores.step

theorem kept_of_run
    {start s : Semaphores} {trace : List SemaphoreEvent}
    {guard : List SemaphoreEvent → Semaphores → SemaphoreAction → Prop}
    (hstart : start.Kept)
    (hrun : (semaphoreSystem start).Run guard trace s) : s.Kept := by
  apply hrun.invariant (fun _ s => s.Kept) hstart
  intro trace s s' action event _ hkept _ hstep
  exact hkept.move (Semaphores.move_of_step hstep)

end Nachos
