import Mathlib.Data.List.Nodup
import Mathlib.Logic.Function.Basic

/-!
# Items in lists

A family of lists holds items, and every item knows the list that it is in, if
it is in any: then no list holds an item twice, and no two lists share one.
Items enter a list at its end and leave it at its front.
-/

namespace Nachos.Library

/-- The lists hold what the items know of them. -/
structure Placed {Item Place : Type} (place : Item → Option Place)
    (lists : Place → List Item) : Prop where
  mem_iff : ∀ p item, item ∈ lists p ↔ place item = some p
  nodup : ∀ p, (lists p).Nodup

namespace Placed

variable {Item Place : Type}
variable {place : Item → Option Place} {lists : Place → List Item}
variable {item : Item} {p : Place}

theorem notMem (h : Placed place lists) (hnone : place item = none) (p : Place) :
    item ∉ lists p := by
  rw [h.mem_iff, hnone]
  exact nofun

theorem eq_of_mem
    (h : Placed place lists) {q : Place} (hp : item ∈ lists p)
    (hq : item ∈ lists q) : p = q := by
  rw [h.mem_iff] at hp hq
  rw [hp] at hq
  exact Option.some.inj hq

variable [DecidableEq Item] [DecidableEq Place]

theorem enter
    (h : Placed place lists) (hnone : place item = none) :
    Placed (Function.update place item (some p))
      (Function.update lists p (lists p ++ [item])) := by
  have hout := h.notMem hnone
  constructor
  · intro q other
    by_cases hq : q = p
    · subst hq
      rw [Function.update_self, List.mem_append, List.mem_singleton]
      by_cases hother : other = item
      · subst hother
        simp
      · rw [Function.update_of_ne hother, ← h.mem_iff]
        simp [hother]
    · rw [Function.update_of_ne hq]
      by_cases hother : other = item
      · subst hother
        simp [hout q, Ne.symm hq]
      · rw [Function.update_of_ne hother, h.mem_iff]
  · intro q
    by_cases hq : q = p
    · subst hq
      rw [Function.update_self]
      exact (h.nodup q).append (List.nodup_singleton item)
        (List.disjoint_singleton.mpr (hout q))
    · rw [Function.update_of_ne hq]
      exact h.nodup q

theorem leave
    (h : Placed place lists) {rest : List Item}
    (hfront : lists p = item :: rest) :
    Placed (Function.update place item none)
      (Function.update lists p rest) := by
  have hnodup := h.nodup p
  rw [hfront, List.nodup_cons] at hnodup
  have hitem : place item = some p := by
    rw [← h.mem_iff, hfront]
    exact List.mem_cons_self
  constructor
  · intro q other
    by_cases hother : other = item
    · subst hother
      rw [Function.update_self]
      by_cases hq : q = p
      · subst hq
        simp [hnodup.1]
      · rw [Function.update_of_ne hq, h.mem_iff, hitem]
        simp [Ne.symm hq]
    · rw [Function.update_of_ne hother]
      by_cases hq : q = p
      · subst hq
        rw [Function.update_self, ← h.mem_iff, hfront]
        simp [hother]
      · rw [Function.update_of_ne hq, h.mem_iff]
  · intro q
    by_cases hq : q = p
    · subst hq
      rw [Function.update_self]
      exact hnodup.2
    · rw [Function.update_of_ne hq]
      exact h.nodup q

/-- An item goes from the front of one list to the end of another one. -/
theorem move
    (h : Placed place lists) {q : Place} (hne : q ≠ p) {rest : List Item}
    (hfront : lists p = item :: rest) :
    Placed (Function.update place item (some q))
      (Function.update (Function.update lists p rest) q
        (lists q ++ [item])) := by
  have hleft := (h.leave hfront).enter (p := q) (Function.update_self ..)
  rw [Function.update_idem, Function.update_of_ne hne] at hleft
  exact hleft

end Placed

end Nachos.Library
