import Nachos.SemaphoreBounds

/-!
# The semaphore table as a map from names

`Create` takes a free entry whether the name is in the table or not.  In the
runs in which every name that is created is new the table is a map; the
comment of `stable.h` says that it always is.
-/

namespace Nachos

open Library

namespace STable

/-- The names of the entries that are taken. -/
def names (t : STable) : List CString :=
  (List.range maxSemaphore).filterMap t.nameAt

def UniqueNames (t : STable) : Prop :=
  ∀ i j name, t.nameAt i = some name → t.nameAt j = some name → i = j

variable {t : STable} {used : ℕ} {name : CString} {init : BitVec 32}

theorem mem_names : name ∈ t.names ↔ t.search name ≠ none := by
  rw [ne_eq, search_eq_none, names, List.mem_filterMap]
  simp only [List.mem_range]
  push Not
  rfl

theorem length_filterMap_range
    {n : ℕ} (hle : used ≤ n) {f : ℕ → Option CString}
    (hused : ∀ i, f i ≠ none ↔ i < used) :
    ((List.range n).filterMap f).length = used := by
  induction n, hle using Nat.le_induction with
  | base =>
      have hall : ∀ i ∈ List.range used, (f i).isSome := by
        intro i hi
        rw [Option.isSome_iff_ne_none]
        exact (hused i).mpr (List.mem_range.mp hi)
      rw [List.length_filterMap_eq_countP, List.countP_eq_length.mpr hall,
        List.length_range]
  | succ n hle ih =>
      have hnone : f n = none := by
        by_contra hne
        exact absurd ((hused n).mp hne) (by omega)
      rw [List.range_succ, List.filterMap_append, List.length_append, ih]
      simp [hnone]

theorem Shape.length_names (hshape : t.Shape used) :
    t.names.length = used :=
  length_filterMap_range hshape.le hshape.nameAt

/-- A new name keeps the names apart, and a name that is in the table does
not. -/
theorem Shape.uniqueNames_added
    (hshape : t.Shape used) (hunique : t.UniqueNames) :
    (t.added used name init).UniqueNames ↔ t.search name = none := by
  have hlt : ∀ {i other}, t.nameAt i = some other → i < used := by
    intro i other hname
    rw [← hshape.nameAt i, hname]
    simp
  have hold : ∀ {i}, i ≠ used →
      (t.added used name init).nameAt i = t.nameAt i := by
    intro i hne
    rw [nameAt_added, Function.update_of_ne hne]
  have hnew : (t.added used name init).nameAt used = some name := by
    rw [nameAt_added, Function.update_self]
  constructor
  · intro hunique'
    rw [search_eq_none]
    intro i _ hname
    have hi := hlt hname
    have heq := hunique' i used name ((hold hi.ne).trans hname) hnew
    omega
  · intro hmissing
    have habsent : ∀ i, t.nameAt i ≠ some name := by
      intro i hname
      have hi := (hlt hname).trans_le hshape.le
      exact search_eq_none.mp hmissing i hi hname
    intro i j other hi hj
    by_cases hi' : i = used <;> by_cases hj' : j = used
    · rw [hi', hj']
    · rw [hi', hnew] at hi
      cases hi
      exact (habsent j ((hold hj').symm.trans hj)).elim
    · rw [hj', hnew] at hj
      cases hj
      exact (habsent i ((hold hi').symm.trans hi)).elim
    · exact hunique i j other ((hold hi').symm.trans hi)
        ((hold hj').symm.trans hj)

end STable

/-- The entry that a `Wait` or a `Signal` on a name has acted on. -/
def SemaphoreEvent.target : SemaphoreEvent → Option (CString × Option ℕ)
  | .created .. => none
  | .passed _ name id => some (name, some id)
  | .slept _ name id => some (name, some id)
  | .released _ name id => some (name, some id)
  | .missed _ name => some (name, none)

namespace Semaphores

/-- A name that is created is not in the table, or the table is full. -/
def createsNew (_ : List SemaphoreEvent) (s : Semaphores) :
    SemaphoreAction → Prop
  | .call _ m .createSemaphore =>
      match m.semaphoreName with
      | .ok name =>
          name ∈ s.table.names → s.table.names.length = maxSemaphore
      | .error _ => True
  | _ => True

instance (trace : List SemaphoreEvent) (s : Semaphores)
    (action : SemaphoreAction) : Decidable (createsNew trace s action) := by
  unfold createsNew
  split
  · split <;> infer_instance
  · infer_instance

/-- The table is a map from names. -/
structure IsMap (trace : List SemaphoreEvent) (s : Semaphores) : Prop where
  unique : s.table.UniqueNames
  present : ∀ p m name s' event,
    s.step (.call p m .createSemaphore) = .ok (s', event) →
    m.semaphoreName = .ok name → name ∈ s.table.names →
    createsNew trace s (.call p m .createSemaphore) →
      s' = s ∧ event.result = some (-1)
  fresh : ∀ p m name, s.process p = .user → m.semaphoreName = .ok name →
    name ∉ s.table.names →
    ∃ s' id, s.step (.call p m .createSemaphore) =
        .ok (s', .created p name (m.readRegister 5) id) ∧
      (0 ≤ id ↔ s.table.names.length < maxSemaphore)
  acts : ∀ earlier p name init id later,
    trace = earlier ++ .created p name init id :: later → 0 ≤ id →
    ∀ event ∈ later, ∀ slot, event.target = some (name, slot) →
      slot = some id.toNat

section Steps

variable {s s' : Semaphores} {trace : List SemaphoreEvent}
variable {event : SemaphoreEvent} {action : SemaphoreAction} {p : ℕ}
variable {m : Machine} {name : CString} {slot : Option ℕ}

/-- A `Wait` or a `Signal` acts on the entry that its name stands for. -/
theorem Move.target
    (hkept : s.Kept) (hmove : s.Move event s')
    (htarget : event.target = some (name, slot)) :
    s.table.search name = slot := by
  cases hmove with
  | created _ _ => cases htarget
  | missed hsearch =>
      cases htarget
      exact hsearch
  | passed htests _ _ =>
      cases htarget
      exact hkept.search_of_tests htests
  | slept htests _ _ =>
      cases htarget
      exact hkept.search_of_tests htests
  | released hsearch _ _ =>
      cases htarget
      exact hsearch
  | woke hsearch _ _ =>
      cases htarget
      exact hsearch

/-- Only `Create` changes the names. -/
theorem Move.nameAt
    (hmove : s.Move event s')
    (hother : ∀ p name init id, event ≠ .created p name init id) :
    s'.table.nameAt = s.table.nameAt := by
  cases hmove with
  | created _ _ => exact (hother _ _ _ _ rfl).elim
  | missed _ => rfl
  | passed _ hentry _ => exact STable.nameAt_setSem hentry _
  | slept _ hentry _ => exact STable.nameAt_setSem hentry _
  | released _ hentry _ => exact STable.nameAt_setSem hentry _
  | woke _ hentry _ =>
      rw [wake_table]
      exact STable.nameAt_setSem hentry _

theorem semaphoreP_not_created
    {id p' : ℕ} {name' : CString} {init : BitVec 32} {result : ℤ} :
    s.semaphoreP p name id ≠ .ok (s', .created p' name' init result) := by
  unfold semaphoreP
  intro hstep
  split at hstep
  · cases hstep
  · split_ifs at hstep <;> cases hstep

/-- Only `Create` tells that it has created. -/
theorem action_of_created
    {init : BitVec 32} {result : ℤ}
    (hstep : s.step action = .ok (s', .created p name init result)) :
    ∃ m, action = .call p m .createSemaphore := by
  cases action with
  | call q m call =>
      simp only [step] at hstep
      split at hstep
      next huser =>
        rcases ok_of_bind (ok_of_mapError hstep) with ⟨name', -, hperform⟩
        cases call with
        | createSemaphore =>
            rcases ok_of_bind hperform with ⟨⟨id, table⟩, -, hresult⟩
            cases hresult
            exact ⟨m, rfl⟩
        | wait =>
            change s.wait q name' = _ at hperform
            unfold wait at hperform
            split at hperform
            · cases hperform
            · exact (semaphoreP_not_created hperform).elim
        | signal =>
            change s.signal q name' = _ at hperform
            unfold signal at hperform
            split at hperform
            · cases hperform
            · unfold semaphoreV at hperform
              split at hperform
              · cases hperform
              · split at hperform <;> cases hperform
      next => cases hstep
  | resume q =>
      simp only [step] at hstep
      split at hstep
      · exact (semaphoreP_not_created (ok_of_mapError hstep)).elim
      · cases hstep

/-- A `Create` of a name. -/
theorem step_create
    {id : ℤ} {table : STable} (huser : s.process p = .user)
    (hname : m.semaphoreName = .ok name)
    (hmade : s.table.create name (m.readRegister 5) = .ok (id, table)) :
    s.step (.call p m .createSemaphore) = .ok ({ s with table := table },
      .created p name (m.readRegister 5) id) := by
  simp only [step, huser, hname, perform, create, hmade, bind, Except.bind]
  rfl

theorem created_of_call
    (hstep : s.step (.call p m .createSemaphore) = .ok (s', event)) :
    ∃ name id, event = .created p name (m.readRegister 5) id ∧
      s.process p = .user ∧ m.semaphoreName = .ok name ∧
      s.table.create name (m.readRegister 5) = .ok (id, s'.table) ∧
      s' = { s with table := s'.table } := by
  simp only [step] at hstep
  split at hstep
  next huser =>
    rcases ok_of_bind (ok_of_mapError hstep) with ⟨name, hname, hperform⟩
    rcases ok_of_bind hperform with ⟨⟨id, table⟩, hmade, hresult⟩
    cases hresult
    exact ⟨name, id, rfl, huser, hname, hmade, rfl⟩
  next => cases hstep

/-- A `Create` keeps the names apart exactly if it creates a new one. -/
theorem createsNew_iff
    (hkept : s.Kept) (hunique : s.table.UniqueNames)
    (hstep : s.step (.call p m .createSemaphore) = .ok (s', event)) :
    createsNew trace s (.call p m .createSemaphore) ↔
      s'.table.UniqueNames := by
  rcases created_of_call hstep with ⟨name, id, rfl, -, hname, hmade, -⟩
  rcases hkept.shape with ⟨used, hshape⟩
  have hguard : createsNew trace s (.call p m .createSemaphore) ↔
      (name ∈ s.table.names → used = maxSemaphore) := by
    rw [createsNew, hname, hshape.length_names]
  rw [hguard]
  rcases hshape.create (Machine.length_semaphoreName hname)
    (m.readRegister 5) with
    ⟨hfull, hmade'⟩ | ⟨hfree, hmade'⟩
  · have htable : s'.table = s.table :=
      congrArg Prod.snd (Except.ok.inj (hmade.symm.trans hmade'))
    rw [htable]
    exact iff_of_true (fun _ => hfull) hunique
  · have htable : s'.table =
        s.table.added used name (m.readRegister 5) :=
      congrArg Prod.snd (Except.ok.inj (hmade.symm.trans hmade'))
    rw [htable, hshape.uniqueNames_added hunique, STable.mem_names]
    constructor
    · intro hnew
      by_contra hpresent
      exact hfree.ne (hnew hpresent)
    · exact fun hmissing hpresent => (hpresent hmissing).elim

/-- What holds after each step of such a run. -/
structure NamesKept (trace : List SemaphoreEvent) (s : Semaphores) :
    Prop where
  kept : s.Kept
  unique : s.table.UniqueNames
  known : ∀ p name init id, .created p name init id ∈ trace → 0 ≤ id →
    s.table.search name = some id.toNat
  acts : ∀ earlier p name init id later,
    trace = earlier ++ .created p name init id :: later → 0 ≤ id →
    ∀ event ∈ later, ∀ slot, event.target = some (name, slot) →
      slot = some id.toNat

theorem NamesKept.step
    (hkept : NamesKept trace s) (hnew : createsNew trace s action)
    (hstep : s.step action = .ok (s', event)) :
    NamesKept (trace ++ [event]) s' := by
  have hmove := move_of_step hstep
  constructor
  case kept => exact hkept.kept.move hmove
  case unique =>
    by_cases hother : ∀ p name init id, event ≠ .created p name init id
    · rw [STable.UniqueNames, hmove.nameAt hother]
      exact hkept.unique
    · push Not at hother
      rcases hother with ⟨p, name, init, id, rfl⟩
      rcases action_of_created hstep with ⟨m, rfl⟩
      exact (createsNew_iff hkept.kept hkept.unique hstep).mp hnew
  case known =>
    intro p name init id hmem hid
    rcases List.mem_append.mp hmem with hold | hlast
    · exact hmove.search hkept.kept (hkept.known p name init id hold hid)
    · obtain rfl := List.mem_singleton.mp hlast
      rcases action_of_created hstep with ⟨m, rfl⟩
      have hunique := (createsNew_iff hkept.kept hkept.unique hstep).mp hnew
      rcases created_of_call hstep with ⟨name', id', heq, -, hname, hmade, -⟩
      cases heq
      rcases hkept.kept.shape with ⟨used, hshape⟩
      rcases hshape.create (Machine.length_semaphoreName hname)
        (m.readRegister 5) with
        ⟨-, hmade'⟩ | ⟨hfree, hmade'⟩
      · have hfailed : id = -1 :=
          congrArg Prod.fst (Except.ok.inj (hmade.symm.trans hmade'))
        omega
      · have hresult := Except.ok.inj (hmade.symm.trans hmade')
        have htable : s'.table =
            s.table.added used name (m.readRegister 5) :=
          congrArg Prod.snd hresult
        have hused : id = used := congrArg Prod.fst hresult
        rw [htable] at hunique ⊢
        have hmissing := (hshape.uniqueNames_added hkept.unique).mp hunique
        rw [STable.search_added_of_none hfree hmissing, if_pos rfl, hused,
          Int.toNat_natCast]
  case acts =>
    intro earlier p name init id later hsplit hid event' hmem slot htarget
    rcases List.eq_nil_or_concat later with rfl | ⟨before, last, rfl⟩
    · cases hmem
    · have hsplit' : trace ++ [event] =
          (earlier ++ .created p name init id :: before) ++ [last] := by
        rw [hsplit]
        simp
      rcases List.append_inj' hsplit' rfl with ⟨htrace, hlast⟩
      cases hlast
      rw [List.concat_eq_append] at hmem
      rcases List.mem_append.mp hmem with hold | hnow
      · exact hkept.acts earlier p name init id before htrace hid event' hold
          slot htarget
      · obtain rfl := List.mem_singleton.mp hnow
        have hsearch := hmove.target hkept.kept htarget
        have hfound := hkept.known p name init id (by simp [htrace]) hid
        exact hsearch.symm.trans hfound

theorem namesKept_of_run
    (hrun : (semaphoreSystem .start).Run createsNew trace s) :
    NamesKept trace s := by
  apply hrun.invariant
  · constructor
    case kept => exact start_kept
    case unique =>
      intro i j name hname
      cases hname
    case known =>
      intro p name init id hmem
      cases hmem
    case acts =>
      intro earlier p name init id later hsplit
      simp at hsplit
  · intro trace s s' action event _ hkept hnew hstep
    exact hkept.step hnew hstep

end Steps

/-- In every run that creates new names only, the table is a map; and a
`Create` of a name that it holds ends this. -/
theorem table_is_map
    {s : Semaphores} {trace : List SemaphoreEvent}
    (hrun : (semaphoreSystem .start).Run createsNew trace s) :
    s.IsMap trace ∧ ∀ p m s' event,
      s.step (.call p m .createSemaphore) = .ok (s', event) →
        (createsNew trace s (.call p m .createSemaphore) ↔
          s'.table.UniqueNames) := by
  have hkept := namesKept_of_run hrun
  rcases hkept.kept.shape with ⟨used, hshape⟩
  constructor
  · constructor
    case unique => exact hkept.unique
    case present =>
      intro p m name s' event hstep hname hpresent hnew
      rcases created_of_call hstep with ⟨name', id, rfl, -, hname', hmade, hs⟩
      obtain rfl := Except.ok.inj (hname.symm.trans hname')
      rw [createsNew, hname, hshape.length_names] at hnew
      rcases hshape.create (Machine.length_semaphoreName hname)
        (m.readRegister 5) with
          ⟨-, hmade'⟩ | ⟨hfree, -⟩
      · have hresult := Except.ok.inj (hmade.symm.trans hmade')
        have htable : s'.table = s.table := congrArg Prod.snd hresult
        have hfailed : id = -1 := congrArg Prod.fst hresult
        rw [htable] at hs
        rw [hs, hfailed]
        exact ⟨rfl, rfl⟩
      · exact (hfree.ne (hnew hpresent)).elim
    case fresh =>
      intro p m name huser hname hmissing
      rw [hshape.length_names]
      rcases hshape.create (Machine.length_semaphoreName hname)
        (m.readRegister 5) with
          ⟨hfull, hmade⟩ | ⟨hfree, hmade⟩
      · exact ⟨_, _, step_create huser hname hmade, by omega⟩
      · exact ⟨_, _, step_create huser hname hmade, by omega⟩
    case acts => exact hkept.acts
  · intro p m s' event hstep
    exact createsNew_iff hkept.kept hkept.unique hstep

/-- One process creates the semaphore `a` and waits on it. -/
def lockAndWait : List SemaphoreAction :=
  [.call 0 (lockCaller 1) .createSemaphore, .call 0 (lockCaller 1) .wait]

theorem table_is_map_lock :
    ∃ (trace : List SemaphoreEvent) (s : Semaphores),
      trace = [.created 0 [97] 1 0, .passed 0 [97] 0] ∧
        s.IsMap trace := by
  have hreplays : (semaphoreSystem .start).Replays createsNew lockAndWait
      (fun trace _ => decide
        (trace = [.created 0 [97] 1 0, .passed 0 [97] 0])) = true := by
    decide +kernel
  rcases StepSystem.exists_run_of_replays hreplays with
    ⟨trace, s, hrun, hcheck⟩
  exact ⟨trace, s, of_decide_eq_true hcheck, (table_is_map hrun).1⟩

/-- Two calls with the name `a` make two entries. -/
theorem name_created_twice :
    ¬∀ trace s, (semaphoreSystem .start).Reaches trace s →
      s.table.UniqueNames := by
  intro hall
  have hreplays : (semaphoreSystem .start).Replays StepSystem.anyStep
      [.call 0 (lockCaller 1) .createSemaphore,
        .call 1 (lockCaller 1) .createSemaphore]
      (fun _ s => decide (s.table.nameAt 0 = some [97] ∧
        s.table.nameAt 1 = some [97])) = true := by
    decide +kernel
  rcases StepSystem.exists_run_of_replays hreplays with
    ⟨trace, s, hrun, hcheck⟩
  rcases of_decide_eq_true hcheck with ⟨hfirst, hsecond⟩
  exact absurd (hall trace s hrun 0 1 [97] hfirst hsecond) (by decide)

end Semaphores

end Nachos
