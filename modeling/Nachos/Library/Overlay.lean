import Mathlib.Data.List.Basic
import Mathlib.Tactic

/-!
# Images that are laid over one another

An image gives a value for each address.  A list that is laid over an image
replaces the values from an address on; what lies next to the list shows
through.
-/

namespace Nachos.Library

variable {Value : Type}

/-- The list lies at the address. -/
def Covered (start : ℕ) (values : List Value) (address : ℕ) : Prop :=
  start ≤ address ∧ address < start + values.length

def overlay (start : ℕ) (values : List Value) (image : ℕ → Value)
    (address : ℕ) : Value :=
  if start ≤ address then (values[address - start]?).getD (image address)
  else image address

section Overlay

variable {start address : ℕ} {values : List Value} {image : ℕ → Value}

theorem overlay_inside {i : ℕ} {value : Value} (hvalue : values[i]? = some value) :
    overlay start values image (start + i) = value := by
  rw [overlay, if_pos (Nat.le_add_right start i), Nat.add_sub_cancel_left,
    hvalue, Option.getD_some]

theorem overlay_outside (hout : ¬Covered start values address) :
    overlay start values image address = image address := by
  unfold overlay
  split
  next hle =>
    have hge : values.length ≤ address - start := by
      unfold Covered at hout
      omega
    rw [List.getElem?_eq_none hge, Option.getD_none]
  next => rfl

@[simp] theorem overlay_nil : overlay start [] image = image := by
  funext address
  apply overlay_outside
  unfold Covered
  simp

/-! ### Windows of one list -/

variable {list : List Value} {zero value : Value} {shift count : ℕ}

/-- A window of a list is laid over an image that shows the list. -/
theorem overlay_window
    (himage : image address = (list[shift + address]?).getD zero) :
    overlay start ((list.drop (shift + start)).take count) image address =
      (list[shift + address]?).getD zero := by
  unfold overlay
  split
  next hle =>
    rw [List.getElem?_take, List.getElem?_drop, himage,
      show shift + start + (address - start) = shift + address by omega]
    split
    next => cases list[shift + address]? <;> rfl
    next => rfl
  next => exact himage

theorem overlay_window_inside (hle : start ≤ address)
    (hlt : address < start + count)
    (hvalue : list[shift + address]? = some value) :
    overlay start ((list.drop (shift + start)).take count) image address =
      value := by
  obtain ⟨i, rfl⟩ := Nat.exists_eq_add_of_le hle
  apply overlay_inside
  rw [List.getElem?_take_of_lt (by omega), List.getElem?_drop, ← hvalue,
    add_assoc]

end Overlay

end Nachos.Library
