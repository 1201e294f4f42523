import Nachos.HashTables

/-!
# A hash table as a finite map

Every item is in the bucket of its key, whatever the number of buckets is, and
no two items have the same key.
-/

namespace Nachos

open Library

/-! ## Sequences of buckets -/

section Flatten

variable {α : Type} {buckets : List (List α)} {xs ys : List α} {i : ℕ}

theorem perm_flatten_set (hget : buckets[i]? = some xs) :
    (xs ++ (buckets.set i ys).flatten).Perm (ys ++ buckets.flatten) := by
  induction buckets generalizing i with
  | nil => simp at hget
  | cons zs buckets ih =>
      cases i with
      | zero =>
          obtain rfl : zs = xs := by simpa using hget
          simp only [List.set_cons_zero, List.flatten_cons]
          exact List.perm_append_comm_assoc zs ys buckets.flatten
      | succ i =>
          have hrest := ih (i := i) (by simpa using hget)
          simp only [List.set_cons_succ, List.flatten_cons]
          have hfront := List.perm_append_comm_assoc xs zs
            (buckets.set i ys).flatten
          have hback := List.perm_append_comm_assoc zs ys buckets.flatten
          exact hfront.trans ((hrest.append_left zs).trans hback)

theorem perm_flatten_set_concat (hget : buckets[i]? = some xs) (x : α) :
    (buckets.set i (xs ++ [x])).flatten.Perm (x :: buckets.flatten) := by
  have hperm := @perm_flatten_set _ _ _ (xs ++ [x]) _ hget
  rw [List.append_assoc, List.perm_append_left_iff] at hperm
  exact hperm

theorem perm_flatten_set_erase
    [DecidableEq α] {x : α} (hget : buckets[i]? = some xs) (hmem : x ∈ xs) :
    (x :: (buckets.set i (xs.erase x)).flatten).Perm buckets.flatten := by
  have hperm := @perm_flatten_set _ _ _ (xs.erase x) _ hget
  have hsplit : xs.Perm (xs.erase x ++ [x]) :=
    (List.perm_cons_erase hmem).trans (List.perm_append_singleton _ _).symm
  have hperm' := (hsplit.symm.append_right _).trans hperm
  rwa [List.append_assoc, List.perm_append_left_iff] at hperm'

theorem mem_flatten_of_getElem? {x : α}
    (hget : buckets[i]? = some xs) (hmem : x ∈ xs) : x ∈ buckets.flatten :=
  List.mem_flatten.mpr ⟨xs, List.mem_of_getElem? hget, hmem⟩

end Flatten

namespace KeyFunctions

/-- The bucket of a key among `size`. -/
def slot {Key α : Type} (f : KeyFunctions Key α) (size : ℕ) (key : Key) : ℕ :=
  (f.hash key).toNat % size

end KeyFunctions

namespace HashTable

variable {Key α : Type} {f : KeyFunctions Key α} {memory : Allocator α}
variable {table : HashTable α} {contents : List (List α)}
variable {xs : List α} {x : α} {i : ℕ} {key : Key}

/-- The buckets of the table hold the items of `contents`, each in the bucket
of its key. -/
structure Fits (f : KeyFunctions Key α) (table : HashTable α)
    (contents : List (List α)) : Prop where
  length : table.buckets.length = contents.length
  size : table.numBuckets = contents.length
  pos : 0 < contents.length
  holds : ∀ (i : ℕ) (xs : List α), contents[i]? = some xs →
    ∃ (b : LinkedList α) (nodes : List (ℕ × α)),
      table.buckets[i]? = some b ∧ b.Holds nodes xs
  slots : ∀ (i : ℕ) (xs : List α), contents[i]? = some xs →
    ∀ x ∈ xs, f.slot contents.length (f.getKey x) = i
  keys : (contents.flatten.map f.getKey).Nodup

/-- The table also counts its items. -/
structure IsTable (f : KeyFunctions Key α) (table : HashTable α)
    (contents : List (List α)) : Prop extends Fits f table contents where
  numItems : table.numItems = contents.flatten.length

theorem Fits.hashValue_eq (hfits : Fits f table contents) (key : Key) :
    table.hashValue f key = .ok (f.slot contents.length key) := by
  have hlt : (f.hash key).toNat % table.numBuckets < table.numBuckets := by
    apply Nat.mod_lt
    rw [hfits.size]
    exact hfits.pos
  rw [hashValue]
  simp only [assert_of_true (And.intro (Nat.zero_le _) hlt), ok_bind]
  rw [KeyFunctions.slot, ← hfits.size]
  rfl

theorem Fits.exists_slot (hfits : Fits f table contents) (key : Key) :
    ∃ xs, contents[f.slot contents.length key]? = some xs :=
  ⟨_, List.getElem?_eq_getElem (Nat.mod_lt _ hfits.pos)⟩

theorem Fits.bucket
    (hfits : Fits f table contents) (hget : contents[i]? = some xs) :
    ∃ b nodes, table.bucket i = .ok b ∧ b.Holds nodes xs := by
  obtain ⟨b, nodes, hb, hholds⟩ := hfits.holds i xs hget
  refine ⟨b, nodes, ?_, hholds⟩
  rw [HashTable.bucket, hb]

/-- The bucket of a key holds the items that have it. -/
theorem Fits.mem_slot_iff
    (hfits : Fits f table contents)
    (hget : contents[f.slot contents.length key]? = some xs) :
    x ∈ xs ∧ f.getKey x = key ↔ x ∈ contents.flatten ∧ f.getKey x = key := by
  constructor
  · rintro ⟨hmem, hkey⟩
    exact ⟨mem_flatten_of_getElem? hget hmem, hkey⟩
  · rintro ⟨hmem, rfl⟩
    obtain ⟨ys, hys, hmem⟩ := List.mem_flatten.mp hmem
    obtain ⟨j, hj⟩ := List.mem_iff_getElem?.mp hys
    have hslot := hfits.slots j ys hj x hmem
    rw [hslot, hj] at hget
    obtain rfl : ys = xs := by simpa using hget
    exact ⟨hmem, rfl⟩

/-! ## `Find` -/

section Find

variable [DecidableEq Key]

theorem firstExit_find (f : KeyFunctions Key α) (key : Key) (xs : List α) :
    LinkedList.firstExit
        (fun x => .ok (if key = f.getKey x then some x else none)) xs =
      .ok (xs.find? fun x => key = f.getKey x) := by
  rw [LinkedList.firstExit_eq_find]
  congr 1
  induction xs with
  | nil => rfl
  | cons x xs ih =>
      rw [List.findSome?_cons, List.find?_cons]
      by_cases hkey : key = f.getKey x
      · simp [hkey]
      · simp [hkey, ih]

theorem find?_eq_some_iff_mem
    (hnodup : (xs.map f.getKey).Nodup) :
    xs.find? (fun x => key = f.getKey x) = some x ↔
      x ∈ xs ∧ f.getKey x = key := by
  constructor
  · intro hfind
    refine ⟨List.mem_of_find?_eq_some hfind, ?_⟩
    have hkey := List.find?_some hfind
    exact (by simpa using hkey : key = f.getKey x).symm
  · rintro ⟨hmem, rfl⟩
    obtain ⟨y, hy⟩ := Option.isSome_iff_exists.mp
      (List.find?_isSome.mpr ⟨x, hmem, decide_eq_true rfl⟩ :
        (xs.find? fun y => f.getKey x = f.getKey y).isSome)
    have hkey := List.find?_some hy
    have hsame : f.getKey x = f.getKey y := by simpa using hkey
    rw [hy, List.inj_on_of_nodup_map hnodup hmem
      (List.mem_of_find?_eq_some hy) hsame]

theorem Fits.findInBucket
    (hfits : Fits f table contents) (hget : contents[i]? = some xs)
    (key : Key) :
    table.findInBucket f i key = .ok (xs.find? fun x => key = f.getKey x) := by
  obtain ⟨b, nodes, hbucket, hholds⟩ := hfits.bucket hget
  rw [HashTable.findInBucket, hbucket, ok_bind, ← firstExit_find,
    ← hholds.items]
  exact hholds.isList.forEach_eq _

theorem Fits.find (hfits : Fits f table contents) (key : Key) :
    ∃ found, table.find f key = .ok found ∧
      ∀ x, found = some x ↔ x ∈ contents.flatten ∧ f.getKey x = key := by
  obtain ⟨xs, hget⟩ := hfits.exists_slot key
  refine ⟨xs.find? fun x => key = f.getKey x, ?_, fun x => ?_⟩
  · rw [HashTable.find, hfits.hashValue_eq, ok_bind, hfits.findInBucket hget]
  · have hnodup : (xs.map f.getKey).Nodup := by
      refine hfits.keys.sublist (List.Sublist.map _ ?_)
      exact List.sublist_flatten_of_mem (List.mem_of_getElem? hget)
    rw [find?_eq_some_iff_mem hnodup, hfits.mem_slot_iff hget]

theorem Fits.isInTable (hfits : Fits f table contents) (key : Key) :
    table.isInTable f key =
      .ok (decide (key ∈ contents.flatten.map f.getKey)) := by
  obtain ⟨found, hfind, hfound⟩ := hfits.find key
  rw [HashTable.isInTable, hfind, ok_bind]
  congr 1
  rw [Bool.eq_iff_iff, Option.isSome_iff_exists, decide_eq_true_iff,
    List.mem_map]
  simp only [hfound]

end Find

/-! ## `SanityCheck` -/

theorem firstExit_none
    {body : α → Except Fault (Option Unit)}
    (hbody : ∀ x ∈ xs, body x = .ok none) :
    LinkedList.firstExit body xs = .ok none := by
  induction xs with
  | nil => rfl
  | cons x xs ih =>
      rw [LinkedList.firstExit, hbody x List.mem_cons_self, ok_bind]
      exact ih fun y hy => hbody y (List.mem_cons_of_mem _ hy)

theorem Fits.checkBucket
    (hfits : Fits f table contents) (hget : contents[i]? = some xs)
    (numFound : ℤ) :
    table.checkBucket f i numFound = .ok (numFound + xs.length) := by
  obtain ⟨b, nodes, hbucket, hholds⟩ := hfits.bucket hget
  have hcount := hholds.isList.count
  have hloop := hholds.isList.forEach_eq fun item => do
    let value ← table.hashValue f (f.getKey item)
    assert (i = value)
    return (none : Option Unit)
  rw [hholds.items, firstExit_none] at hloop
  · rw [HashTable.checkBucket, hbucket, ok_bind, hholds.isList.sanityCheck,
      ok_bind, hloop, ok_bind, hcount, ← hholds.items, List.length_map]
    rfl
  · intro x hx
    rw [hfits.hashValue_eq, ok_bind,
      assert_of_true (hfits.slots i xs hget x hx).symm]
    rfl

theorem flatten_take_succ (hget : contents[i]? = some xs) :
    (contents.take (i + 1)).flatten = (contents.take i).flatten ++ xs := by
  obtain ⟨hlt, hxs⟩ := List.getElem?_eq_some_iff.mp hget
  rw [List.take_succ_eq_append_getElem hlt, hxs, List.flatten_append]
  simp

theorem IsTable.sanityCheck (htable : IsTable f table contents) :
    table.sanityCheck f = .ok () := by
  let Inv : ℕ → ℤ → Prop := fun i numFound =>
    numFound = (contents.take i).flatten.length
  have hround : ∀ i numFound, 0 ≤ i → i < 0 + table.numBuckets →
      Inv i numFound → ∃ numFound', table.checkBucket f i numFound =
        .ok numFound' ∧ Inv (i + 1) numFound' := by
    intro i numFound _ hlt hinv
    rw [htable.size, Nat.zero_add] at hlt
    have hget := List.getElem?_eq_getElem hlt
    refine ⟨_, htable.checkBucket hget numFound, ?_⟩
    simp only [Inv] at hinv ⊢
    rw [flatten_take_succ hget, List.length_append, hinv]
    push_cast
    rfl
  have hzero : Inv 0 0 := by simp [Inv]
  obtain ⟨numFound, hloop, hfound⟩ := countedLoop_spec Inv hzero hround
  have hall : numFound = contents.flatten.length := by
    have htake : contents.take (0 + table.numBuckets) = contents := by
      rw [htable.size, Nat.zero_add, List.take_length]
    simp only [Inv, htake] at hfound
    exact hfound
  rw [HashTable.sanityCheck, hloop, ok_bind, hall]
  exact assert_of_true htable.numItems

/-! ## One bucket changes -/

theorem Fits.replace
    (hfits : Fits f table contents) (hget : contents[i]? = some xs)
    {ys : List α} {b : LinkedList α} {nodes : List (ℕ × α)} {n : ℤ}
    (hholds : b.Holds nodes ys)
    (hslots : ∀ x ∈ ys, f.slot contents.length (f.getKey x) = i)
    (hkeys : ((contents.set i ys).flatten.map f.getKey).Nodup) :
    Fits f ⟨table.buckets.set i b, table.numBuckets, n⟩
      (contents.set i ys) := by
  obtain ⟨hlt, -⟩ := List.getElem?_eq_some_iff.mp hget
  constructor
  case length => simpa using hfits.length
  case size => simpa using hfits.size
  case pos => simpa using hfits.pos
  case keys => exact hkeys
  case holds =>
    intro j zs hj
    by_cases heq : i = j
    · subst heq
      rw [List.getElem?_set_self hlt] at hj
      obtain rfl : ys = zs := by simpa using hj
      refine ⟨b, nodes, ?_, hholds⟩
      exact List.getElem?_set_self (by rwa [hfits.length])
    · rw [List.getElem?_set_ne heq] at hj
      obtain ⟨b', nodes', hb', hholds'⟩ := hfits.holds j zs hj
      refine ⟨b', nodes', ?_, hholds'⟩
      exact (List.getElem?_set_ne heq).trans hb'
  case slots =>
    intro j zs hj x hx
    rw [List.length_set]
    by_cases heq : i = j
    · subst heq
      rw [List.getElem?_set_self hlt] at hj
      obtain rfl : ys = zs := by simpa using hj
      exact hslots x hx
    · rw [List.getElem?_set_ne heq] at hj
      exact hfits.slots j zs hj x hx

theorem fits_initBuckets
    (f : KeyFunctions Key α) (table : HashTable α) {size : ℕ}
    (hpos : 0 < size) :
    Fits f (table.initBuckets size) (List.replicate size []) := by
  have hnil : ∀ (i : ℕ) (xs : List α),
      (List.replicate size ([] : List α))[i]? = some xs →
        i < size ∧ xs = [] := by
    intro i xs hget
    obtain ⟨hlt, hxs⟩ := List.getElem?_eq_some_iff.mp hget
    rw [List.length_replicate] at hlt
    rw [List.getElem_replicate] at hxs
    exact ⟨hlt, hxs.symm⟩
  constructor
  case length => simp [initBuckets]
  case size => simp [initBuckets]
  case pos => simpa using hpos
  case keys => simp
  case holds =>
    intro i xs hget
    obtain ⟨hlt, rfl⟩ := hnil i xs hget
    refine ⟨.new, [], ?_, LinkedList.new_isList, rfl, List.nodup_nil⟩
    simp [initBuckets, hlt]
  case slots =>
    intro i xs hget x hx
    obtain ⟨-, rfl⟩ := hnil i xs hget
    simp at hx

section Changes

variable [DecidableEq α]

theorem Fits.appendToBucket
    (hfits : Fits f table contents) (memory : Allocator α)
    (hnew : f.getKey x ∉ contents.flatten.map f.getKey) :
    ∃ table' contents', table.appendToBucket f memory x = .ok table' ∧
      Fits f table' contents' ∧ contents'.length = contents.length ∧
      contents'.flatten.Perm (x :: contents.flatten) ∧
      table'.numItems = table.numItems := by
  obtain ⟨xs, hget⟩ := hfits.exists_slot (f.getKey x)
  obtain ⟨b, nodes, hbucket, hholds⟩ := hfits.bucket hget
  have hnotin : x ∉ xs := fun hmem =>
    hnew (List.mem_map_of_mem (mem_flatten_of_getElem? hget hmem))
  obtain ⟨b', happend, hholds'⟩ := hholds.append hnotin
    (memory.fresh b.elements)
  have hperm := perm_flatten_set_concat hget x
  refine ⟨_, _, ?_, hfits.replace hget hholds' ?_ ?_, List.length_set, hperm,
    rfl⟩
  · rw [HashTable.appendToBucket, hfits.hashValue_eq, ok_bind, hbucket,
      ok_bind, happend]
    rfl
  · intro y hy
    rcases List.mem_append.mp hy with hold | hlast
    · exact hfits.slots _ xs hget y hold
    · rw [List.mem_singleton.mp hlast]
  · exact (hperm.map f.getKey).nodup_iff.mpr
      (List.nodup_cons.mpr ⟨hnew, hfits.keys⟩)

/-! ## `ReHash` -/

/-- The items of a list go into the table one by one. -/
theorem Fits.moveItems
    (hfits : Fits f table contents) (memory : Allocator α) {fuel : ℕ}
    {old : LinkedList α} {nodes : List (ℕ × α)} (hholds : old.Holds nodes xs)
    (hkeys : ((xs ++ contents.flatten).map f.getKey).Nodup)
    (hfuel : xs.length ≤ fuel) :
    ∃ table' contents', moveItems f memory fuel old table = .ok table' ∧
      Fits f table' contents' ∧ contents'.length = contents.length ∧
      contents'.flatten.Perm (xs ++ contents.flatten) ∧
      table'.numItems = table.numItems := by
  have hempty : old.IsEmpty ↔ xs = [] := by
    rw [hholds.isList.isEmpty_iff, ← hholds.items, List.map_eq_nil_iff]
  induction xs generalizing table contents old nodes fuel with
  | nil =>
      refine ⟨table, contents, ?_, hfits, rfl, .refl _, rfl⟩
      cases fuel with
      | zero =>
          rw [HashTable.moveItems, if_pos (hempty.mpr rfl)]
          rfl
      | succ fuel =>
          rw [HashTable.moveItems, if_pos (hempty.mpr rfl)]
          rfl
  | cons x xs ih =>
      obtain _ | fuel := fuel
      · simp at hfuel
      obtain ⟨old', nodes', hremove, hholds'⟩ := hholds.removeFront
      rw [List.cons_append, List.map_cons, List.nodup_cons] at hkeys
      obtain ⟨hx, hkeys'⟩ := hkeys
      rw [List.map_append, List.mem_append, not_or] at hx
      obtain ⟨table₁, contents₁, happend, hfits₁, hlength₁, hperm₁, hnum₁⟩ :=
        hfits.appendToBucket memory hx.2
      have hmoved : (xs ++ contents₁.flatten).Perm
          (x :: (xs ++ contents.flatten)) :=
        (hperm₁.append_left xs).trans List.perm_middle
      have hkeys₁ : ((xs ++ contents₁.flatten).map f.getKey).Nodup := by
        rw [(hmoved.map f.getKey).nodup_iff, List.map_cons, List.nodup_cons]
        refine ⟨?_, hkeys'⟩
        rw [List.map_append, List.mem_append, not_or]
        exact hx
      have hempty' : old'.IsEmpty ↔ xs = [] := by
        rw [hholds'.isList.isEmpty_iff, ← hholds'.items, List.map_eq_nil_iff]
      obtain ⟨table₂, contents₂, hmove, hfits₂, hlength₂, hperm₂, hnum₂⟩ :=
        ih hfits₁ hholds' hkeys₁ (Nat.le_of_succ_le_succ hfuel) hempty'
      refine ⟨table₂, contents₂, ?_, hfits₂, hlength₂.trans hlength₁,
        hperm₂.trans hmoved, hnum₂.trans hnum₁⟩
      rw [HashTable.moveItems, if_neg (hempty.not.mpr (List.cons_ne_nil _ _)),
        hremove, ok_bind]
      simp only [happend, ok_bind]
      exact hmove

theorem IsTable.reHash
    (htable : IsTable f table contents) (memory : Allocator α) :
    ∃ table' contents', table.reHash f memory = .ok table' ∧
      IsTable f table' contents' ∧
      contents'.flatten.Perm contents.flatten := by
  let Inv : ℕ → HashTable α → Prop := fun i moved => ∃ contents',
    Fits f moved contents' ∧
      contents'.flatten.Perm (contents.take i).flatten ∧
      moved.numItems = table.numItems
  have hpos : 0 < table.numBuckets * increaseSizeBy := by
    rw [htable.size]
    exact Nat.mul_pos htable.pos (by decide)
  have hzero : Inv 0 (table.initBuckets (table.numBuckets * increaseSizeBy)) :=
    ⟨_, fits_initBuckets f table hpos, by simp, rfl⟩
  have hround : ∀ i moved, 0 ≤ i → i < 0 + table.numBuckets → Inv i moved →
      ∃ moved', table.moveBucket f memory i moved = .ok moved' ∧
        Inv (i + 1) moved' := by
    rintro i moved - hlt ⟨contents', hfits, hperm, hnum⟩
    rw [htable.size, Nat.zero_add] at hlt
    have hget := List.getElem?_eq_getElem hlt
    obtain ⟨b, nodes, hbucket, hholds⟩ := htable.bucket hget
    have hcount : b.numInList.toNat = contents[i].length := by
      rw [hholds.isList.count, ← hholds.items, List.length_map,
        Int.toNat_natCast]
    have htake : (contents[i] ++ contents'.flatten).Perm
        (contents.take (i + 1)).flatten := by
      rw [flatten_take_succ hget]
      exact (hperm.append_left _).trans List.perm_append_comm
    have hkeys : ((contents[i] ++ contents'.flatten).map f.getKey).Nodup := by
      rw [(htake.map f.getKey).nodup_iff]
      exact htable.keys.sublist
        ((List.take_sublist (i + 1) contents).flatten.map f.getKey)
    obtain ⟨moved', contents'', hmove, hfits', -, hperm', hnum'⟩ :=
      hfits.moveItems memory hholds hkeys hcount.ge
    refine ⟨moved', ?_, contents'', hfits', hperm'.trans htake,
      hnum'.trans hnum⟩
    rw [moveBucket, hbucket, ok_bind, hmove]
  obtain ⟨table', hloop, contents', hfits, hperm, hnum⟩ :=
    countedLoop_spec Inv hzero hround
  rw [htable.size, Nat.zero_add, List.take_length] at hperm
  have htable' : IsTable f table' contents' := by
    refine ⟨hfits, ?_⟩
    rw [hnum, htable.numItems, hperm.length_eq]
  refine ⟨table', contents', ?_, htable', hperm⟩
  rw [HashTable.reHash]
  simp only [htable.sanityCheck, ok_bind, hloop, htable'.sanityCheck]
  rfl

theorem IsTable.makeRoom
    (htable : IsTable f table contents) (memory : Allocator α) :
    ∃ table' contents', table.makeRoom f memory = .ok table' ∧
      IsTable f table' contents' ∧
      contents'.flatten.Perm contents.flatten := by
  unfold HashTable.makeRoom
  split_ifs
  · exact htable.reHash memory
  · exact ⟨table, contents, rfl, htable, .refl _⟩

/-! ## `Insert` and `Remove` -/

variable [DecidableEq Key]

theorem IsTable.insert
    (htable : IsTable f table contents) (memory : Allocator α)
    (hnew : f.getKey x ∉ contents.flatten.map f.getKey) :
    ∃ table' contents', table.insert f memory x = .ok table' ∧
      IsTable f table' contents' ∧
      contents'.flatten.Perm (x :: contents.flatten) := by
  obtain ⟨table₁, contents₁, hroom, htable₁, hperm₁⟩ :=
    htable.makeRoom memory
  have hnew₁ : f.getKey x ∉ contents₁.flatten.map f.getKey := by
    rwa [(hperm₁.map f.getKey).mem_iff]
  obtain ⟨table₂, contents₂, happend, hfits, -, hperm, hnum⟩ :=
    htable₁.appendToBucket memory hnew₁
  have htable₂ : IsTable f { table₂ with numItems := table₂.numItems + 1 }
      contents₂ := by
    refine ⟨⟨hfits.length, hfits.size, hfits.pos, hfits.holds, hfits.slots,
      hfits.keys⟩, ?_⟩
    rw [hnum, htable₁.numItems, hperm.length_eq, List.length_cons]
    push_cast
    rfl
  have hmem : f.getKey x ∈ contents₂.flatten.map f.getKey := by
    rw [(hperm.map f.getKey).mem_iff]
    exact List.mem_cons_self
  refine ⟨_, contents₂, ?_, htable₂, hperm.trans (hperm₁.cons x)⟩
  rw [HashTable.insert]
  simp only [htable.isInTable, decide_eq_false hnew, ok_bind, assert_of_true,
    hroom, happend, htable₂.isInTable, decide_eq_true hmem]
  rfl

theorem IsTable.remove
    (htable : IsTable f table contents)
    (hmem : key ∈ contents.flatten.map f.getKey) :
    ∃ x table' contents', table.remove f key = .ok (x, table') ∧
      f.getKey x = key ∧ IsTable f table' contents' ∧
      (x :: contents'.flatten).Perm contents.flatten := by
  obtain ⟨x, hx, rfl⟩ := List.mem_map.mp hmem
  obtain ⟨xs, hget⟩ := htable.exists_slot (f.getKey x)
  obtain ⟨hxs, -⟩ := (htable.mem_slot_iff hget).mpr ⟨hx, rfl⟩
  obtain ⟨b, nodes, hbucket, hholds⟩ := htable.bucket hget
  obtain ⟨b', nodes', hremove, hholds'⟩ := hholds.remove hxs
  have hnodup : (xs.map f.getKey).Nodup :=
    htable.keys.sublist (List.Sublist.map _
      (List.sublist_flatten_of_mem (List.mem_of_getElem? hget)))
  have hfound : xs.find? (fun y => f.getKey x = f.getKey y) = some x :=
    (find?_eq_some_iff_mem hnodup).mpr ⟨hxs, rfl⟩
  have hperm := perm_flatten_set_erase hget hxs
  have hkeys := (hperm.map f.getKey).nodup_iff.mpr htable.keys
  rw [List.map_cons, List.nodup_cons] at hkeys
  have hfits := htable.replace (n := table.numItems - 1) hget hholds'
    (fun y hy => htable.slots _ xs hget y (List.mem_of_mem_erase hy)) hkeys.2
  refine ⟨x, _, _, ?_, rfl, ⟨hfits, ?_⟩, hperm⟩
  · rw [HashTable.remove, htable.hashValue_eq, ok_bind,
      htable.findInBucket hget, ok_bind, hfound]
    simp only [hbucket, hremove, ok_bind, hfits.isInTable,
      decide_eq_false hkeys.1, assert_of_true]
    rfl
  · have hlength := hperm.length_eq
    rw [List.length_cons] at hlength
    rw [htable.numItems, ← hlength]
    push_cast
    omega

end Changes

end HashTable

end Nachos
