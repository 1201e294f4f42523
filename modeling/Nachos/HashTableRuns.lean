import Nachos.Library.StepSystem
import Nachos.HashTableMap

/-!
# Runs of calls on a hash table

Items are inserted under keys that are not in the table and removed by keys
that are.
-/

namespace Nachos

open Library

/-! ## Iterators -/

namespace HashIterator

open HashTable (Fits)

variable {Key α : Type} {f : KeyFunctions Key α} {table : HashTable α}
variable {contents : List (List α)} {iterator : HashIterator}
variable {remaining : List α} {x : α} {i j : ℕ}

/-- The items an iterator has still to visit. -/
inductive At (table : HashTable α) (contents : List (List α)) :
    HashIterator → List α → Prop
  | done : At table contents ⟨table.numBuckets, none⟩ []
  | visits {i a : ℕ} {x : α} {b : LinkedList α} {nodes : List (ℕ × α)} :
      i < contents.length → table.buckets[i]? = some b →
      Library.Segment b.elements (some a) ((a, x) :: nodes) none →
        At table contents ⟨i, some (some a)⟩
          (x :: (nodes.map Prod.snd ++ (contents.drop (i + 1)).flatten))

theorem findFullFrom_spec
    {count : ℕ} (hfits : Fits f table contents)
    (hcount : i + count = contents.length) :
    ∃ j, table.findFullFrom i count = .ok j ∧ j ≤ contents.length ∧
      (contents.drop i).flatten = (contents.drop j).flatten ∧
      ∀ xs, contents[j]? = some xs → xs ≠ [] := by
  induction count generalizing i with
  | zero =>
      refine ⟨i, rfl, by omega, rfl, ?_⟩
      intro xs hget
      obtain ⟨hlt, -⟩ := List.getElem?_eq_some_iff.mp hget
      omega
  | succ count ih =>
      have hlt : i < contents.length := by omega
      have hget := List.getElem?_eq_getElem hlt
      obtain ⟨b, nodes, hbucket, hholds⟩ := hfits.bucket hget
      have hempty : b.IsEmpty ↔ contents[i] = [] := by
        rw [hholds.isList.isEmpty_iff, ← hholds.items, List.map_eq_nil_iff]
      rw [HashTable.findFullFrom, hbucket, ok_bind]
      by_cases hnil : contents[i] = []
      · obtain ⟨j, hfind, hle, hflatten, hfull⟩ := @ih (i + 1) (by omega)
        refine ⟨j, ?_, hle, ?_, hfull⟩
        · rw [if_pos (hempty.mpr hnil), hfind]
        · rw [← hflatten, List.drop_eq_getElem_cons hlt, hnil]
          rfl
      · refine ⟨i, ?_, hlt.le, rfl, ?_⟩
        · rw [if_neg (hempty.not.mpr hnil)]
          rfl
        · intro xs hxs
          rw [hget] at hxs
          rwa [← Option.some.inj hxs]

theorem enter_spec
    (hfits : Fits f table contents) (hle : i ≤ contents.length) :
    ∃ iterator, enter table i = .ok iterator ∧
      At table contents iterator (contents.drop i).flatten := by
  obtain ⟨j, hfind, hj, hflatten, hfull⟩ :=
    @findFullFrom_spec _ _ f table contents i (contents.length - i) hfits
      (by omega)
  have hsize := hfits.size
  have hnext : table.findNextFullBucket i = .ok j := by
    rw [HashTable.findNextFullBucket, hsize, hfind]
  rw [enter, hnext, ok_bind, hflatten]
  by_cases hlt : j < contents.length
  · have hget := List.getElem?_eq_getElem hlt
    obtain ⟨b, nodes, hb, hholds⟩ := hfits.holds j _ hget
    have hbucket : table.bucket j = .ok b := by rw [HashTable.bucket, hb]
    rw [if_pos (by omega), hbucket, ok_bind]
    refine ⟨_, rfl, ?_⟩
    cases nodes with
    | nil => exact absurd hholds.items.symm (hfull _ hget)
    | cons node nodes =>
        obtain ⟨a, x⟩ := node
        have hchain := hholds.isList.chain
        rw [hholds.isList.first_cons] at hchain ⊢
        rw [List.drop_eq_getElem_cons hlt, List.flatten_cons, ← hholds.items]
        exact .visits hlt hb hchain
  · obtain rfl : j = contents.length := by omega
    rw [if_neg (by omega), List.drop_length, ← hsize]
    exact ⟨_, rfl, .done⟩

theorem At.item_next
    (hfits : Fits f table contents)
    (hat : At table contents iterator (x :: remaining)) :
    ¬iterator.IsDone table ∧ iterator.item table = .ok x ∧
      ∃ next, iterator.next table = .ok next ∧
        At table contents next remaining := by
  generalize hall : x :: remaining = all at hat
  cases hat with
  | done => simp at hall
  | @visits i a y b nodes hlt hb hchain =>
      obtain ⟨rfl, rfl⟩ := List.cons_eq_cons.mp hall
      have hnot : ¬IsDone ⟨i, some (some a)⟩ table := by
        rw [IsDone, hfits.size]
        exact hlt.ne
      have hbucket : table.bucket i = .ok b := by rw [HashTable.bucket, hb]
      obtain ⟨-, next, hcell, hrest⟩ := hchain
      refine ⟨hnot, ?_, ?_⟩
      · rw [item, assert_of_true hnot, ok_bind]
        simp only [assert_of_true (Option.some_ne_none a), ok_bind, hbucket,
          LinkedList.element_eq hcell]
        rfl
      · simp only [HashIterator.next, hbucket, ok_bind,
          LinkedList.element_eq hcell]
        cases nodes with
        | nil =>
            obtain rfl : next = none := hrest
            rw [if_pos rfl]
            exact enter_spec hfits hlt
        | cons node nodes =>
            obtain ⟨c, z⟩ := node
            obtain rfl : next = some c := hrest.1
            rw [if_neg (Option.some_ne_none c)]
            exact ⟨_, rfl, .visits hlt hb hrest⟩

theorem At.isDone (hat : At table contents iterator []) :
    iterator.IsDone table := by
  generalize hnil : ([] : List α) = all at hat
  cases hat with
  | done => rfl
  | visits => simp at hnil

theorem At.walk
    {rounds : ℕ} (hfits : Fits f table contents)
    (hat : At table contents iterator remaining)
    (hrounds : remaining.length ≤ rounds) :
    ∃ last, HashIterator.walk table rounds iterator = .ok (remaining, last) ∧
      last.IsDone table := by
  induction remaining generalizing iterator rounds with
  | nil =>
      refine ⟨iterator, ?_, hat.isDone⟩
      cases rounds with
      | zero => rfl
      | succ rounds =>
          rw [HashIterator.walk, if_pos hat.isDone]
          rfl
  | cons x remaining ih =>
      obtain _ | rounds := rounds
      · simp at hrounds
      obtain ⟨hnot, hitem, next, hnext, hat'⟩ := hat.item_next hfits
      obtain ⟨last, hwalk, hdone⟩ := ih hat' (Nat.le_of_succ_le_succ hrounds)
      refine ⟨last, ?_, hdone⟩
      rw [HashIterator.walk, if_neg hnot, hitem, ok_bind, hnext, ok_bind,
        hwalk]
      rfl

end HashIterator

/-! ## Runs -/

/-- The map that a table stands for. -/
abbrev ItemMap (Key α : Type) := Finmap fun _ : Key => α

inductive HashCall (Key α : Type)
  | insert (item : α)
  | remove (key : Key)

/-- A call that has returned, with the item that `Remove` returned. -/
inductive HashEvent (Key α : Type)
  | inserted (item : α)
  | removed (key : Key) (item : α)

namespace HashTable

variable {Key α : Type} [DecidableEq Key]
variable {f : KeyFunctions Key α} {memory : Allocator α}
variable {table : HashTable α} {contents : List (List α)}
variable {items : ItemMap Key α} {x : α} {key : Key}

/-- What an event makes of the map. -/
def applyEvent (f : KeyFunctions Key α) (items : ItemMap Key α) :
    HashEvent Key α → ItemMap Key α
  | .inserted item => items.insert (f.getKey item) item
  | .removed key _ => items.erase key

/-- The map after the events of a run. -/
def itemsAfter (f : KeyFunctions Key α) (trace : List (HashEvent Key α)) :
    ItemMap Key α :=
  trace.foldl (applyEvent f) ∅

theorem itemsAfter_append
    (f : KeyFunctions Key α) (trace : List (HashEvent Key α))
    (event : HashEvent Key α) :
    itemsAfter f (trace ++ [event]) =
      applyEvent f (itemsAfter f trace) event := by
  simp [itemsAfter]

/-- An item is inserted when its key is not in the table, and a key is removed
when it is. -/
def Allowed (f : KeyFunctions Key α) (items : ItemMap Key α) :
    HashCall Key α → Prop
  | .insert item => f.getKey item ∉ items
  | .remove key => key ∈ items

def allowed (f : KeyFunctions Key α) (trace : List (HashEvent Key α))
    (_ : HashTable α) (call : HashCall Key α) : Prop :=
  Allowed f (itemsAfter f trace) call

/-- The buckets hold the items of the map. -/
structure Represents (f : KeyFunctions Key α) (table : HashTable α)
    (contents : List (List α)) (items : ItemMap Key α) : Prop where
  isTable : IsTable f table contents
  lookup : ∀ key x, items.lookup key = some x ↔
    x ∈ contents.flatten ∧ f.getKey x = key

theorem new_represents (f : KeyFunctions Key α) :
    Represents f .new (List.replicate initialBuckets []) ∅ where
  isTable := ⟨fits_initBuckets f _ (by decide),
    by simp [HashTable.new, initBuckets]⟩
  lookup := by simp

theorem Represents.mem_iff (hrep : Represents f table contents items) :
    key ∈ items ↔ key ∈ contents.flatten.map f.getKey := by
  rw [Finmap.mem_iff, List.mem_map]
  simp only [hrep.lookup]

theorem Represents.card (hrep : Represents f table contents items) :
    items.keys.card = contents.flatten.length := by
  have hkeys : items.keys = (contents.flatten.map f.getKey).toFinset := by
    ext key
    rw [Finmap.mem_keys, hrep.mem_iff, List.mem_toFinset]
  rw [hkeys, List.toFinset_card_of_nodup hrep.isTable.keys, List.length_map]

theorem Represents.find
    (hrep : Represents f table contents items) (key : Key) :
    table.find f key = .ok (items.lookup key) := by
  obtain ⟨found, hfind, hfound⟩ := hrep.isTable.find key
  rw [hfind]
  congr 1
  apply Option.ext
  intro x
  rw [hfound, hrep.lookup]

variable [DecidableEq α]

theorem Represents.insert
    (hrep : Represents f table contents items) (memory : Allocator α)
    (hnew : f.getKey x ∉ items) :
    ∃ table' contents', table.insert f memory x = .ok table' ∧
      Represents f table' contents' (items.insert (f.getKey x) x) := by
  have hnotin := hrep.mem_iff.not.mp hnew
  obtain ⟨table', contents', hinsert, htable, hperm⟩ :=
    hrep.isTable.insert memory hnotin
  refine ⟨table', contents', hinsert, htable, fun key y => ?_⟩
  rw [hperm.mem_iff, List.mem_cons, or_and_right, ← hrep.lookup]
  by_cases hkey : key = f.getKey x
  · subst hkey
    rw [Finmap.lookup_insert, Finmap.lookup_eq_none.mpr hnew]
    constructor
    · intro hsame
      obtain rfl : x = y := by simpa using hsame
      exact .inl ⟨rfl, rfl⟩
    · rintro (⟨rfl, -⟩ | hnone)
      · rfl
      · cases hnone
  · rw [Finmap.lookup_insert_of_ne _ hkey]
    constructor
    · exact .inr
    · rintro (⟨rfl, hsame⟩ | hold)
      · exact absurd hsame.symm hkey
      · exact hold

theorem Represents.remove
    (hrep : Represents f table contents items) (hmem : key ∈ items) :
    ∃ x table' contents', table.remove f key = .ok (x, table') ∧
      items.lookup key = some x ∧
      Represents f table' contents' (items.erase key) := by
  obtain ⟨x, table', contents', hremove, rfl, htable, hperm⟩ :=
    hrep.isTable.remove (hrep.mem_iff.mp hmem)
  have hkeys := (hperm.map f.getKey).nodup_iff.mpr hrep.isTable.keys
  rw [List.map_cons, List.nodup_cons] at hkeys
  have hlookup : items.lookup (f.getKey x) = some x :=
    (hrep.lookup _ _).mpr ⟨hperm.mem_iff.mp List.mem_cons_self, rfl⟩
  refine ⟨x, table', contents', hremove, hlookup, htable, fun key y => ?_⟩
  by_cases hkey : key = f.getKey x
  · subst hkey
    rw [Finmap.lookup_erase]
    constructor
    · intro hnone
      cases hnone
    · rintro ⟨hy, hsame⟩
      exact absurd (hsame ▸ List.mem_map_of_mem hy) hkeys.1
  · rw [Finmap.lookup_erase_ne hkey, hrep.lookup, ← hperm.mem_iff,
      List.mem_cons]
    constructor
    · rintro ⟨rfl | hy, hsame⟩
      · exact absurd hsame.symm hkey
      · exact ⟨hy, hsame⟩
    · rintro ⟨hy, hsame⟩
      exact ⟨.inr hy, hsame⟩

def step (f : KeyFunctions Key α) (memory : Allocator α)
    (table : HashTable α) :
    HashCall Key α → Except Fault (HashTable α × HashEvent Key α)
  | .insert item => do
      let table ← table.insert f memory item
      return (table, .inserted item)
  | .remove key => do
      let (item, table) ← table.remove f key
      return (table, .removed key item)

def system (f : KeyFunctions Key α) (memory : Allocator α) :
    StepSystem (HashTable α) (HashCall Key α) (HashEvent Key α) Fault where
  start := .new
  step := step f memory

theorem Represents.step
    (hrep : Represents f table contents items) (memory : Allocator α)
    {call : HashCall Key α} (hallowed : Allowed f items call) :
    ∃ table' contents' event, table.step f memory call = .ok (table', event) ∧
      Represents f table' contents' (applyEvent f items event) := by
  cases call with
  | insert item =>
      obtain ⟨table', contents', hinsert, hrep'⟩ := hrep.insert memory hallowed
      refine ⟨table', contents', .inserted item, ?_, hrep'⟩
      rw [HashTable.step, hinsert]
      rfl
  | remove key =>
      obtain ⟨x, table', contents', hremove, -, hrep'⟩ := hrep.remove hallowed
      refine ⟨table', contents', .removed key x, ?_, hrep'⟩
      rw [HashTable.step, hremove]
      rfl

theorem represents_of_run
    {trace : List (HashEvent Key α)}
    (hrun : (system f memory).Run (allowed f) trace table) :
    ∃ contents, Represents f table contents (itemsAfter f trace) := by
  apply hrun.invariant fun trace table => ∃ contents,
    Represents f table contents (itemsAfter f trace)
  · exact ⟨_, new_represents f⟩
  · rintro trace before after call event - ⟨contents, hrep⟩ hallowed hstep
    obtain ⟨table', contents', event', hmove, hrep'⟩ :=
      hrep.step memory hallowed
    obtain ⟨rfl, rfl⟩ : after = table' ∧ event = event' := by
      simpa using hstep.symm.trans hmove
    refine ⟨contents', ?_⟩
    rw [itemsAfter_append]
    exact hrep'

/-- The address behind all that are in use. -/
def behindAll (α : Type) : Allocator α where
  element := fun cells => cells.keys.sup id + 1
  fresh := fun cells hmem => by
    have hle := Finset.le_sup (f := id) (Finmap.mem_keys.mpr hmem)
    exact absurd hle (Nat.not_succ_le_self _)

/-- Numbers that are their own keys. -/
def ownKeys : KeyFunctions ℕ ℕ :=
  ⟨id, BitVec.ofNat 32⟩

end HashTable

end Nachos
