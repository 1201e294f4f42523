import Mathlib.Data.List.Nodup
import Mathlib.Tactic

/-!
# Owners of the elements of a pool

Some elements of a pool are taken, and each owner has a list of elements.
Ownership is exact when the lists have nothing in common and nothing twice,
and the elements in them are those that are taken.  Owners are known by their
position, so that an owner that has released its elements keeps the empty
list.
-/

namespace Nachos.Library

variable {Element : Type}

structure Owned (taken : Element → Prop)
    (owners : List (List Element)) : Prop where
  nodup : owners.flatten.Nodup
  taken_iff : ∀ x, taken x ↔ x ∈ owners.flatten

namespace Owned

variable {taken taken' : Element → Prop}
variable {owners : List (List Element)} {granted : List Element}

/-- A new owner is granted elements that were free. -/
theorem grant
    (howned : Owned taken owners) (hnodup : granted.Nodup)
    (hfree : ∀ x ∈ granted, ¬taken x)
    (htaken : ∀ x, taken' x ↔ taken x ∨ x ∈ granted) :
    Owned taken' (owners ++ [granted]) := by
  constructor
  · rw [List.flatten_append, List.flatten_singleton]
    apply howned.nodup.append hnodup
    intro x hold hnew
    exact hfree x hnew ((howned.taken_iff x).mpr hold)
  · intro x
    rw [htaken, howned.taken_iff]
    simp

/-- The owner at a position releases all its elements. -/
theorem release
    (howned : Owned taken owners) {i : ℕ}
    (hget : owners[i]? = some granted)
    (htaken : ∀ x, taken' x ↔ taken x ∧ x ∉ granted) :
    Owned taken' (owners.set i []) := by
  rcases List.getElem?_eq_some_iff.mp hget with ⟨hlt, hgranted⟩
  have hsplit : owners = owners.take i ++ granted :: owners.drop (i + 1) := by
    rw [← hgranted, List.cons_getElem_drop_succ, List.take_append_drop]
  have hset : owners.set i [] =
      owners.take i ++ [] :: owners.drop (i + 1) :=
    List.set_eq_take_append_cons_drop.trans (if_pos hlt)
  have hnodup := howned.nodup
  have hmem := howned.taken_iff
  rw [hsplit] at hnodup hmem
  rw [hset]
  simp only [List.flatten_append, List.flatten_cons, List.nodup_append,
    List.mem_append] at hnodup hmem
  constructor
  · simp only [List.flatten_append, List.flatten_cons, List.nil_append,
      List.nodup_append]
    exact ⟨hnodup.1, hnodup.2.1.2.1,
      fun a ha b hb => hnodup.2.2 a ha b (.inr hb)⟩
  · intro x
    simp only [List.flatten_append, List.flatten_cons, List.nil_append,
      List.mem_append]
    rw [htaken, hmem]
    constructor
    · rintro ⟨hbefore | hown | hafter, hnot⟩
      · exact .inl hbefore
      · exact (hnot hown).elim
      · exact .inr hafter
    · rintro (hbefore | hafter)
      · exact ⟨.inl hbefore, fun hown => hnodup.2.2 x hbefore x (.inl hown) rfl⟩
      · exact ⟨.inr (.inr hafter),
          fun hown => hnodup.2.1.2.2 x hown x hafter rfl⟩

end Owned

end Nachos.Library
