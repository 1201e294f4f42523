import Mathlib.Data.List.Sort
import Mathlib.Tactic

/-!
# Insertion in order, and the order of insertion

Items that are inserted behind those that compare equal to them stay in the
order in which they were inserted.
-/

namespace Nachos.Library

/-- The sign of `compare x y` tells how `x` and `y` compare in a total
preorder. -/
structure IsComparison {α : Type} (compare : α → α → ℤ) : Prop where
  neg_iff : ∀ x y, compare x y < 0 ↔ 0 < compare y x
  trans : ∀ x y z, compare x y ≤ 0 → compare y z ≤ 0 → compare x z ≤ 0

/-- `xs` is sorted, and among items that compare equal in the order of
`live`. -/
structure StablySorted {α : Type} (compare : α → α → ℤ)
    (xs live : List α) : Prop where
  sorted : xs.Pairwise (compare · · ≤ 0)
  stable : ∀ z, xs.filter (compare z · = 0) = live.filter (compare z · = 0)

section Comparison

variable {α : Type} {compare : α → α → ℤ} {x y z : α} {xs live : List α}

theorem IsComparison.refl (hcompare : IsComparison compare) (x : α) :
    compare x x = 0 := by
  have hneg := hcompare.neg_iff x x
  omega

theorem IsComparison.le_of_not_lt
    (hcompare : IsComparison compare) (hnot : ¬compare x y < 0) :
    compare y x ≤ 0 := by
  have hneg := hcompare.neg_iff x y
  omega

theorem IsComparison.eq_comm (hcompare : IsComparison compare) :
    compare x y = 0 ↔ compare y x = 0 := by
  have hneg := hcompare.neg_iff x y
  have hneg' := hcompare.neg_iff y x
  omega

theorem IsComparison.lt_of_lt_of_le
    (hcompare : IsComparison compare) (hlt : compare x y < 0)
    (hle : compare y z ≤ 0) : compare x z < 0 := by
  by_contra hnot
  have hback := hcompare.trans y z x hle (hcompare.le_of_not_lt hnot)
  have hneg := (hcompare.neg_iff x y).mp hlt
  omega

/-- Insertion before the first item that is greater. -/
def insertSorted (compare : α → α → ℤ) (x : α) (xs : List α) : List α :=
  xs.orderedInsert (compare · · < 0) x

@[simp] theorem insertSorted_nil : insertSorted compare x [] = [x] := rfl

theorem insertSorted_cons :
    insertSorted compare x (y :: xs) =
      if compare x y < 0 then x :: y :: xs
      else y :: insertSorted compare x xs := rfl

theorem insertSorted_of_forall_not_lt
    (hnot : ∀ y ∈ xs, ¬compare x y < 0) :
    insertSorted compare x xs = xs ++ [x] := by
  induction xs with
  | nil => rfl
  | cons y xs ih =>
      rw [insertSorted_cons, if_neg (hnot y List.mem_cons_self),
        ih fun z hz => hnot z (List.mem_cons_of_mem _ hz)]
      rfl

theorem perm_insertSorted : (insertSorted compare x xs).Perm (x :: xs) :=
  List.perm_orderedInsert _ _ _

theorem mem_insertSorted : z ∈ insertSorted compare x xs ↔ z = x ∨ z ∈ xs := by
  rw [perm_insertSorted.mem_iff, List.mem_cons]

theorem pairwise_insertSorted
    (hcompare : IsComparison compare) (hsorted : xs.Pairwise (compare · · ≤ 0)) :
    (insertSorted compare x xs).Pairwise (compare · · ≤ 0) := by
  induction xs with
  | nil => exact List.pairwise_singleton _ _
  | cons y xs ih =>
      obtain ⟨hfirst, hrest⟩ := List.pairwise_cons.mp hsorted
      rw [insertSorted_cons]
      split_ifs with hlt
      · refine List.pairwise_cons.mpr ⟨fun z hz => ?_, hsorted⟩
        rcases List.mem_cons.mp hz with rfl | hlater
        · exact hlt.le
        · exact (hcompare.lt_of_lt_of_le hlt (hfirst z hlater)).le
      · refine List.pairwise_cons.mpr ⟨fun z hz => ?_, ih hrest⟩
        rcases mem_insertSorted.mp hz with rfl | hold
        · exact hcompare.le_of_not_lt hlt
        · exact hfirst z hold

/-- The new item comes behind those that compare equal to it. -/
theorem filter_insertSorted
    (hcompare : IsComparison compare) (hsorted : xs.Pairwise (compare · · ≤ 0))
    (z : α) :
    (insertSorted compare x xs).filter (compare z · = 0) =
      xs.filter (compare z · = 0) ++ [x].filter (compare z · = 0) := by
  induction xs with
  | nil => rfl
  | cons y xs ih =>
      obtain ⟨hfirst, hrest⟩ := List.pairwise_cons.mp hsorted
      rw [insertSorted_cons]
      split_ifs with hlt
      · by_cases hequal : compare z x = 0
        · have hgreater : ∀ w ∈ y :: xs, ¬compare z w = 0 := by
            intro w hw hzero
            have hle : compare y w ≤ 0 := by
              rcases List.mem_cons.mp hw with rfl | hlater
              · exact (hcompare.refl w).le
              · exact hfirst w hlater
            have hless := hcompare.lt_of_lt_of_le hlt hle
            have hback := hcompare.trans w z x
              (hcompare.eq_comm.mp hzero).le hequal.le
            have hneg := (hcompare.neg_iff x w).mp hless
            omega
          have hnone : (y :: xs).filter (compare z · = 0) = [] := by
            apply List.filter_eq_nil_iff.mpr
            simpa using hgreater
          rw [List.filter_cons, hnone]
          simp [hequal]
        · rw [List.filter_cons]
          simp [hequal]
      · rw [List.filter_cons, List.filter_cons, ih hrest]
        split <;> rfl

theorem StablySorted.insertSorted
    (hcompare : IsComparison compare) (hstably : StablySorted compare xs live)
    (x : α) :
    StablySorted compare (insertSorted compare x xs) (live ++ [x]) where
  sorted := pairwise_insertSorted hcompare hstably.sorted
  stable := fun z => by
    rw [filter_insertSorted hcompare hstably.sorted, List.filter_append,
      hstably.stable z]

section DecidableEq

variable [DecidableEq α]

theorem StablySorted.erase (hstably : StablySorted compare xs live) (x : α) :
    StablySorted compare (xs.erase x) (live.erase x) where
  sorted := hstably.sorted.sublist List.erase_sublist
  stable := fun z => by
    rw [← List.erase_filter, ← List.erase_filter, hstably.stable z]

theorem StablySorted.perm
    (hcompare : IsComparison compare) (hstably : StablySorted compare xs live) :
    xs.Perm live := by
  apply List.perm_iff_count.mpr
  intro z
  have hcount := congrArg (List.count z) (hstably.stable z)
  rwa [List.count_filter (by simp [hcompare.refl z]),
    List.count_filter (by simp [hcompare.refl z])] at hcount

/-- The first item is the one that was inserted first among the least. -/
theorem StablySorted.find?_least
    (hcompare : IsComparison compare)
    (hstably : StablySorted compare (x :: xs) live) :
    live.find? (fun y => ∀ z ∈ live, compare y z ≤ 0) = some x := by
  have hperm := hstably.perm hcompare
  obtain ⟨hfirst, -⟩ := List.pairwise_cons.mp hstably.sorted
  have hleast : ∀ z ∈ live, compare x z ≤ 0 := by
    intro z hz
    rcases List.mem_cons.mp (hperm.mem_iff.mpr hz) with rfl | hlater
    · exact (hcompare.refl z).le
    · exact hfirst z hlater
  have hmem : x ∈ live := hperm.mem_iff.mp List.mem_cons_self
  have hiff : ∀ y ∈ live, decide (∀ z ∈ live, compare y z ≤ 0) =
      decide (compare x y = 0) := by
    intro y hy
    apply decide_eq_decide.mpr
    constructor
    · intro hall
      have hle := hleast y hy
      have hge := hall x hmem
      have hneg := hcompare.neg_iff x y
      omega
    · intro hequal z hz
      exact hcompare.trans y x z (hcompare.eq_comm.mp hequal).le (hleast z hz)
  have hhead := congrArg List.head? (hstably.stable x)
  rw [List.filter_cons_of_pos (by simp [hcompare.refl x]), List.head?_cons,
    List.head?_filter] at hhead
  rw [hhead]
  exact List.find?_congr hiff

end DecidableEq

end Comparison

end Nachos.Library
