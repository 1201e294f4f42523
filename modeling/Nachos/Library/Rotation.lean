import Mathlib.Algebra.Order.Floor.Div
import Mathlib.Order.Bounds.Basic
import Mathlib.Tactic

/-!
# Places that pass one after the other

Time is divided into slots of one length, and in each slot one of the places
of a circle passes a fixed point, over and over again.  From a time on, a place
passes for the first time in the slot that is least among those that begin
then or later.
-/

namespace Nachos.Library

/-- The slots, from a time on, in which a place passes. -/
def passes (places length place time : ℕ) : Set ℕ :=
  {slot | slot % places = place ∧ time ≤ slot * length}

/-- How many slots it takes from one slot to the next one of a place. -/
def slotsUntil (places place slot : ℕ) : ℕ :=
  (place + (places - slot % places)) % places

section Rotation

variable {places length place time time' slot slot' : ℕ}

theorem slotsUntil_lt (hplaces : 0 < places) :
    slotsUntil places place slot < places :=
  Nat.mod_lt _ hplaces

theorem add_slotsUntil_mod (hplace : place < places) :
    (slot + slotsUntil places place slot) % places = place := by
  have hlt : slot % places < places := Nat.mod_lt _ (by omega)
  calc (slot + slotsUntil places place slot) % places
      = (slot % places + (place + (places - slot % places))) % places := by
        rw [slotsUntil, Nat.add_mod_mod, Nat.mod_add_mod]
    _ = (place + places) % places := by
        congr 1
        omega
    _ = place := by rw [Nat.add_mod_right, Nat.mod_eq_of_lt hplace]

theorem slotsUntil_add (hplaces : 0 < places) (count : ℕ) :
    slotsUntil places ((slot + count) % places) slot = count % places := by
  have hslot : slot % places < places := Nat.mod_lt _ hplaces
  have hcount : count % places < places := Nat.mod_lt _ hplaces
  rw [slotsUntil, Nat.add_mod slot count]
  generalize slot % places = a at hslot
  generalize count % places = b at hcount
  rcases Nat.lt_or_ge (a + b) places with hlt | hge
  · have hsum : a + b + (places - a) = b + places := by omega
    rw [Nat.mod_eq_of_lt hlt, hsum, Nat.add_mod_right, Nat.mod_eq_of_lt hcount]
  · have hsum : a + b - places + (places - a) = b := by omega
    have hmod : (a + b - places) % places = a + b - places :=
      Nat.mod_eq_of_lt (by omega)
    rw [Nat.mod_eq_sub_mod hge, hmod, hsum, Nat.mod_eq_of_lt hcount]

/-- No slot of the place is nearer. -/
theorem slotsUntil_le
    (hle : slot ≤ slot') (hmod : slot' % places = place)
    (hplaces : 0 < places) : slot + slotsUntil places place slot ≤ slot' := by
  obtain ⟨count, rfl⟩ := Nat.exists_eq_add_of_le hle
  rw [← hmod, slotsUntil_add hplaces]
  exact Nat.add_le_add_left (Nat.mod_le _ _) _

/-- The first slot of the place, from a time on. -/
theorem isLeast_passes
    (hlength : 0 < length) (hplace : place < places) :
    IsLeast (passes places length place time)
      (time ⌈/⌉ length + slotsUntil places place (time ⌈/⌉ length)) := by
  have hbegin : ∀ slot, time ≤ slot * length ↔ time ⌈/⌉ length ≤ slot := by
    intro slot
    rw [ceilDiv_le_iff_le_mul hlength, Nat.mul_comm]
  constructor
  · exact ⟨add_slotsUntil_mod hplace, (hbegin _).mpr (Nat.le_add_right _ _)⟩
  · rintro slot ⟨hmod, htime⟩
    exact slotsUntil_le ((hbegin slot).mp htime) hmod (by omega)

end Rotation

end Nachos.Library
