import Mathlib.Data.Finmap
import Mathlib.Tactic

/-!
# Chains of cells

Cells at addresses, each with an item and the address of the next one.  A
segment is what lies between two pointers, with the address of each of its
cells.
-/

namespace Nachos.Library

structure Cell (α : Type) where
  item : α
  next : Option ℕ
  deriving DecidableEq

/-- The cells that are allocated, by their address. -/
abbrev Cells (α : Type) := Finmap fun _ : ℕ => Cell α

/-- The pointers lead from `p` through the cells of `nodes` to `q`. -/
def Segment {α : Type} (cells : Cells α) :
    Option ℕ → List (ℕ × α) → Option ℕ → Prop
  | p, [], q => p = q
  | p, (a, x) :: rest, q => p = some a ∧
      ∃ next, cells.lookup a = some ⟨x, next⟩ ∧ Segment cells next rest q

section Segments

variable {α : Type} {cells cells' : Cells α} {p q : Option ℕ}
variable {nodes before after : List (ℕ × α)} {a : ℕ} {x : α}

@[simp] theorem segment_nil : Segment cells p [] q ↔ p = q := Iff.rfl

theorem segment_cons :
    Segment cells p ((a, x) :: nodes) q ↔ p = some a ∧
      ∃ next, cells.lookup a = some ⟨x, next⟩ ∧
        Segment cells next nodes q := Iff.rfl

theorem segment_append :
    Segment cells p (before ++ after) q ↔
      ∃ middle, Segment cells p before middle ∧
        Segment cells middle after q := by
  induction before generalizing p with
  | nil => simp
  | cons node before ih =>
      obtain ⟨a, x⟩ := node
      rw [List.cons_append, segment_cons]
      constructor
      · rintro ⟨hp, next, hcell, hrest⟩
        obtain ⟨middle, hbefore, hafter⟩ := ih.mp hrest
        exact ⟨middle, ⟨hp, next, hcell, hbefore⟩, hafter⟩
      · rintro ⟨middle, ⟨hp, next, hcell, hbefore⟩, hafter⟩
        exact ⟨hp, next, hcell, ih.mpr ⟨middle, hbefore, hafter⟩⟩

theorem segment_singleton :
    Segment cells p [(a, x)] q ↔
      p = some a ∧ cells.lookup a = some ⟨x, q⟩ := by
  simp [segment_cons]

/-- A segment by its last cell. -/
theorem segment_concat :
    Segment cells p (nodes ++ [(a, x)]) q ↔
      Segment cells p nodes (some a) ∧ cells.lookup a = some ⟨x, q⟩ := by
  rw [segment_append]
  constructor
  · rintro ⟨middle, hnodes, hlast⟩
    obtain ⟨rfl, hcell⟩ := segment_singleton.mp hlast
    exact ⟨hnodes, hcell⟩
  · rintro ⟨hnodes, hcell⟩
    exact ⟨some a, hnodes, segment_singleton.mpr ⟨rfl, hcell⟩⟩

/-- A segment does not depend on cells outside of it. -/
theorem Segment.congr
    (hsegment : Segment cells p nodes q)
    (hsame : ∀ a ∈ nodes.map Prod.fst, cells'.lookup a = cells.lookup a) :
    Segment cells' p nodes q := by
  induction nodes generalizing p with
  | nil => exact hsegment
  | cons node nodes ih =>
      obtain ⟨a, x⟩ := node
      obtain ⟨hp, next, hcell, hrest⟩ := hsegment
      refine ⟨hp, next, ?_, ih hrest fun b hb => hsame b ?_⟩
      · rw [hsame a (by simp), hcell]
      · exact List.mem_cons_of_mem _ hb

theorem Segment.insert_of_notMem
    (hsegment : Segment cells p nodes q) (hout : a ∉ nodes.map Prod.fst)
    (cell : Cell α) :
    Segment (cells.insert a cell) p nodes q := by
  apply hsegment.congr
  intro b hb
  apply Finmap.lookup_insert_of_ne
  rintro rfl
  exact hout hb

theorem Segment.erase_of_notMem
    (hsegment : Segment cells p nodes q) (hout : a ∉ nodes.map Prod.fst) :
    Segment (cells.erase a) p nodes q := by
  apply hsegment.congr
  intro b hb
  apply Finmap.lookup_erase_ne
  rintro rfl
  exact hout hb

/-- The last cell of a segment comes to point elsewhere. -/
theorem Segment.redirect
    (hsegment : Segment cells p (nodes ++ [(a, x)]) q)
    (hout : a ∉ nodes.map Prod.fst) (q' : Option ℕ) :
    Segment (cells.insert a ⟨x, q'⟩) p (nodes ++ [(a, x)]) q' := by
  obtain ⟨hnodes, -⟩ := segment_concat.mp hsegment
  exact segment_concat.mpr
    ⟨hnodes.insert_of_notMem hout _, Finmap.lookup_insert _⟩

theorem Segment.mem
    (hsegment : Segment cells p nodes q) (hmem : a ∈ nodes.map Prod.fst) :
    a ∈ cells := by
  induction nodes generalizing p with
  | nil => simp at hmem
  | cons node nodes ih =>
      obtain ⟨b, x⟩ := node
      obtain ⟨-, next, hcell, hrest⟩ := hsegment
      rcases List.mem_cons.mp hmem with rfl | hlater
      · exact Finmap.mem_of_lookup_eq_some hcell
      · exact ih hrest hlater

/-- A chain that visits no cell twice is not longer than there are cells. -/
theorem Segment.length_le_card
    (hsegment : Segment cells p nodes q)
    (hnodup : (nodes.map Prod.fst).Nodup) :
    nodes.length ≤ cells.keys.card := by
  rw [← List.length_map, ← List.toFinset_card_of_nodup hnodup]
  apply Finset.card_le_card
  intro a ha
  exact Finmap.mem_keys.mpr (hsegment.mem (List.mem_toFinset.mp ha))

end Segments

end Nachos.Library
