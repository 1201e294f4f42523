import Mathlib.Data.List.Basic
import Mathlib.Tactic

/-!
# Replacing a part of a list

A list of values takes the place of as many values of another list.
-/

namespace Nachos.Library

variable {Value : Type}

/-- The list, with the values from the position on. -/
def splice (list : List Value) (position : ℕ) (values : List Value) :
    List Value :=
  list.take position ++ values ++ list.drop (position + values.length)

section Splice

variable {list values : List Value} {position i : ℕ}

@[simp] theorem splice_nil (list : List Value) (position : ℕ) :
    splice list position [] = list := by
  simp [splice]

theorem length_splice (hfits : position + values.length ≤ list.length) :
    (splice list position values).length = list.length := by
  simp only [splice, List.length_append, List.length_take, List.length_drop]
  omega

theorem getElem?_splice_inside
    (hposition : position ≤ list.length) (hi : i < values.length) :
    (splice list position values)[position + i]? = values[i]? := by
  have htake : (list.take position).length = position := by
    rw [List.length_take]
    omega
  rw [splice, List.append_assoc,
    List.getElem?_append_right (by omega), htake, Nat.add_sub_cancel_left,
    List.getElem?_append_left hi]

theorem getElem?_splice_outside
    (hfits : position + values.length ≤ list.length)
    (hout : i < position ∨ position + values.length ≤ i) :
    (splice list position values)[i]? = list[i]? := by
  have htake : (list.take position).length = position := by
    rw [List.length_take]
    omega
  rw [splice, List.append_assoc]
  obtain hbefore | hbehind := hout
  · rw [List.getElem?_append_left (by omega), List.getElem?_take,
      if_pos hbefore]
  · rw [List.getElem?_append_right (by omega), htake,
      List.getElem?_append_right (by omega), List.getElem?_drop]
    congr 1
    omega

/-- Two parts that lie one behind the other. -/
theorem splice_splice
    {first second : List Value}
    (hfits : position + first.length ≤ list.length) :
    splice (splice list position first) (position + first.length) second =
      splice list position (first ++ second) := by
  have htake : (list.take position ++ first).length =
      position + first.length := by
    rw [List.length_append, List.length_take]
    omega
  have hdrop : (splice list position first).drop
      (position + first.length + second.length) =
        list.drop (position + first.length + second.length) := by
    rw [splice, ← htake, List.drop_length_add_append, htake, List.drop_drop]
  have hfirst : (splice list position first).take
      (position + first.length) = list.take position ++ first := by
    rw [splice, ← htake, List.take_left]
  rw [splice, hdrop, hfirst, splice, List.length_append, ← Nat.add_assoc]
  simp only [List.append_assoc]

/-- Nothing is left of a list that is replaced as a whole. -/
theorem splice_all (hlength : values.length = list.length) :
    splice list 0 values = values := by
  simp [splice, hlength]

/-- A list that is taken up to a position and then by at most `n` more. -/
theorem take_append_take_drop (list : List Value) (position n : ℕ) :
    list.take position ++ (list.drop position).take n =
      list.take (position + ((list.drop position).take n).length) := by
  rw [List.take_add, List.length_take]
  congr 1
  rw [List.take_eq_take_iff, Nat.min_assoc, Nat.min_self]

end Splice

end Nachos.Library
