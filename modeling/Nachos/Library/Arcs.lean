import Mathlib.Data.BitVec
import Mathlib.Data.Finset.Card
import Mathlib.Tactic

/-!
# Ranges of addresses that wrap around

An arc is a start with the addresses that follow it, counted modulo a power of
two.  Arcs that do not meet and whose union is an arc again are contiguous; they
are then short enough for the sum of their sizes not to wrap around.
-/

namespace Nachos.Library

variable {w : ℕ}

/-- A start and a size. -/
abbrev Arc (w : ℕ) := BitVec w × BitVec w

namespace Arc

/-- The addresses of an arc. -/
def addresses (arc : Arc w) : Finset (BitVec w) :=
  (Finset.range arc.2.toNat).image fun i => arc.1 + BitVec.ofNat w i

/-- The addresses of some arcs. -/
def union (arcs : List (Arc w)) : Finset (BitVec w) :=
  arcs.foldr (fun arc others => arc.addresses ∪ others) ∅

def Apart (arcs : List (Arc w)) : Prop :=
  arcs.Pairwise fun arc other => Disjoint arc.addresses other.addresses

/-- The arcs do not meet and leave nothing out between them. -/
def Contiguous (arcs : List (Arc w)) : Prop :=
  Apart arcs ∧ ∃ whole : Arc w, union arcs = whole.addresses

/-- The same, and the first of the list is the lowest of them. -/
def ContiguousFromFirst (arcs : List (Arc w)) : Prop :=
  Apart arcs ∧ ∃ whole : Arc w, union arcs = whole.addresses ∧
    ∀ arc ∈ arcs.head?, whole.1 = arc.1

section Addresses

variable {arc : Arc w} {arcs : List (Arc w)} {start size size' x : BitVec w}

theorem mem_addresses :
    x ∈ arc.addresses ↔ (x - arc.1).toNat < arc.2.toNat := by
  unfold addresses
  rw [Finset.mem_image]
  constructor
  · rintro ⟨i, hi, rfl⟩
    have hlt := Finset.mem_range.mp hi
    rw [BitVec.add_comm, BitVec.add_sub_cancel, BitVec.toNat_ofNat]
    exact (Nat.mod_le i _).trans_lt hlt
  · intro hlt
    refine ⟨(x - arc.1).toNat, Finset.mem_range.mpr hlt, ?_⟩
    rw [BitVec.ofNat_toNat, BitVec.setWidth_eq, BitVec.add_comm,
      BitVec.sub_add_cancel]

theorem mem_union : x ∈ union arcs ↔ ∃ arc ∈ arcs, x ∈ arc.addresses := by
  induction arcs with
  | nil => simp [union]
  | cons arc arcs ih =>
      have hcons : x ∈ union (arc :: arcs) ↔
          x ∈ arc.addresses ∨ x ∈ union arcs := Finset.mem_union
      rw [hcons, ih, List.exists_mem_cons_iff]

theorem card_addresses (arc : Arc w) : arc.addresses.card = arc.2.toNat := by
  unfold addresses
  rw [Finset.card_image_of_injOn, Finset.card_range]
  intro i hi j hj heq
  have hi' := Finset.mem_range.mp hi
  have hj' := Finset.mem_range.mp hj
  have hlt := arc.2.isLt
  have hnat : (BitVec.ofNat w i).toNat = (BitVec.ofNat w j).toNat :=
    congrArg BitVec.toNat ((BitVec.add_right_inj arc.1).mp heq)
  rw [BitVec.toNat_ofNat, BitVec.toNat_ofNat, Nat.mod_eq_of_lt (by omega),
    Nat.mod_eq_of_lt (by omega)] at hnat
  exact hnat

theorem card_union (hapart : Apart arcs) :
    (union arcs).card = (arcs.map fun arc => arc.2.toNat).sum := by
  induction arcs with
  | nil => rfl
  | cons arc arcs ih =>
      obtain ⟨hfirst, hrest⟩ := List.pairwise_cons.mp hapart
      have hdisjoint : Disjoint arc.addresses (union arcs) := by
        rw [Finset.disjoint_right]
        intro x hx
        obtain ⟨other, hother, hin⟩ := mem_union.mp hx
        exact Finset.disjoint_right.mp (hfirst other hother) hin
      calc (union (arc :: arcs)).card
          = (arc.addresses ∪ union arcs).card := rfl
        _ = arc.2.toNat + (arcs.map fun arc => arc.2.toNat).sum := by
            rw [Finset.card_union_of_disjoint hdisjoint, card_addresses,
              ih hrest]
        _ = ((arc :: arcs).map fun arc => arc.2.toNat).sum := by simp

/-- The sizes of contiguous arcs add up without wrapping around. -/
theorem sum_of_union (hapart : Apart arcs)
    (hunion : union arcs = arc.addresses) :
    (arcs.map fun arc => arc.2.toNat).sum = arc.2.toNat := by
  rw [← card_union hapart, hunion, card_addresses]

theorem Contiguous.sum_lt (hcontiguous : Contiguous arcs) :
    (arcs.map fun arc => arc.2.toNat).sum < 2 ^ w := by
  obtain ⟨hapart, whole, hunion⟩ := hcontiguous
  rw [sum_of_union hapart hunion]
  exact whole.2.isLt

theorem ContiguousFromFirst.contiguous
    (hfirst : ContiguousFromFirst arcs) : Contiguous arcs := by
  obtain ⟨hapart, whole, hunion, -⟩ := hfirst
  exact ⟨hapart, whole, hunion⟩

theorem toNat_pos {x : BitVec w} (hne : x ≠ 0) : 0 < x.toNat := by
  have hzero : x.toNat ≠ 0 := by
    intro hzero
    exact hne (BitVec.eq_of_toNat_eq hzero)
  omega

theorem mem_next :
    x ∈ addresses (start + size, size') ↔
      (x - start - size).toNat < size'.toNat := by
  rw [mem_addresses, sub_add_eq_sub_sub]

theorem toNat_sub_of_lt {y : BitVec w} (hlt : x.toNat < y.toNat) :
    (x - y).toNat = 2 ^ w - y.toNat + x.toNat := by
  have hy := y.isLt
  rw [BitVec.toNat_sub, Nat.mod_eq_of_lt (by omega)]

theorem toNat_sub_of_ge {y : BitVec w} (hge : y.toNat ≤ x.toNat) :
    (x - y).toNat = x.toNat - y.toNat :=
  BitVec.toNat_sub_of_le hge

theorem disjoint_next (hsum : size.toNat + size'.toNat < 2 ^ w) :
    Disjoint (addresses (start, size))
      (addresses (start + size, size')) := by
  rw [Finset.disjoint_left]
  intro x hx hx'
  have hlt := size.isLt
  rw [mem_addresses] at hx
  rw [mem_next, toNat_sub_of_lt hx] at hx'
  simp only at hx hx'
  omega

theorem union_next (hsum : size.toNat + size'.toNat < 2 ^ w) :
    union [(start, size), (start + size, size')] =
      addresses (start, size + size') := by
  have hsize : (size + size').toNat = size.toNat + size'.toNat := by
    rw [BitVec.toNat_add, Nat.mod_eq_of_lt hsum]
  ext x
  have hpair : x ∈ union [(start, size), (start + size, size')] ↔
      x ∈ addresses (start, size) ∨
        x ∈ addresses (start + size, size') := by
    simp [mem_union]
  rw [hpair, mem_next, mem_addresses, mem_addresses, hsize]
  by_cases hlt : (x - start).toNat < size.toNat
  · simp only [hlt, true_or, true_iff]
    omega
  · rw [toNat_sub_of_ge (not_lt.mp hlt)]
    simp only [hlt, false_or]
    omega

theorem contiguous_next (hsum : size.toNat + size'.toNat < 2 ^ w) :
    Contiguous [(start, size), (start + size, size')] := by
  refine ⟨?_, (start, size + size'), union_next hsum⟩
  exact List.pairwise_pair.mpr (disjoint_next hsum)

/-! ## Merging arcs one after the other -/

/-- The start is that of the first arc; the sizes are added. -/
def extend (merged arc : Arc w) : Arc w :=
  if merged.2 = 0 then arc else (merged.1, merged.2 + arc.2)

def merge (merged : Arc w) (arcs : List (Arc w)) : Arc w :=
  arcs.foldl extend merged

theorem merge_of_ne_zero {merged : Arc w} (hne : merged.2 ≠ 0)
    (hsum : merged.2.toNat + (arcs.map fun arc => arc.2.toNat).sum < 2 ^ w) :
    (merge merged arcs).1 = merged.1 ∧
      (merge merged arcs).2.toNat =
        merged.2.toNat + (arcs.map fun arc => arc.2.toNat).sum := by
  induction arcs generalizing merged with
  | nil => exact ⟨rfl, rfl⟩
  | cons arc arcs ih =>
      rw [List.map_cons, List.sum_cons] at hsum ⊢
      have hadd : (merged.2 + arc.2).toNat =
          merged.2.toNat + arc.2.toNat := by
        rw [BitVec.toNat_add, Nat.mod_eq_of_lt (by omega)]
      have hpos := toNat_pos hne
      have hextend : extend merged arc = (merged.1, merged.2 + arc.2) :=
        if_neg hne
      have hne' : (extend merged arc).2 ≠ 0 := by
        rw [hextend]
        intro (hzero : merged.2 + arc.2 = 0)
        have hnat : merged.2.toNat + arc.2.toNat = 0 := by
          rw [← hadd, hzero]
          exact Nat.zero_mod _
        omega
      have hstep := ih hne' (by rw [hextend, hadd]; omega)
      have hmerge : merge merged (arc :: arcs) =
          merge (merged.1, merged.2 + arc.2) arcs :=
        congrArg (fun start => merge start arcs) hextend
      rw [hextend, hadd] at hstep
      rw [hmerge]
      exact ⟨hstep.1, hstep.2.trans (Nat.add_assoc _ _ _)⟩

/-- Merging gives the first start and the sum of the sizes, unless the sum
wraps around. -/
theorem merge_of_sum_lt {merged first : Arc w} (hmerged : merged.2 = 0)
    (hne : first.2 ≠ 0)
    (hsum : ((first :: arcs).map fun arc => arc.2.toNat).sum < 2 ^ w) :
    (merge merged (first :: arcs)).1 = first.1 ∧
      (merge merged (first :: arcs)).2.toNat =
        ((first :: arcs).map fun arc => arc.2.toNat).sum := by
  have hextend : extend merged first = first := if_pos hmerged
  have hmerge : merge merged (first :: arcs) = merge first arcs :=
    congrArg (fun start => merge start arcs) hextend
  rw [hmerge]
  rw [List.map_cons, List.sum_cons] at hsum ⊢
  exact merge_of_ne_zero hne hsum

/-- For contiguous arcs, merging them in the order of the list gives their
union if and only if the first of the list is the lowest. -/
theorem Contiguous.merge_eq_union_iff {merged : Arc w}
    (hcontiguous : Contiguous arcs) (hmerged : merged.2 = 0)
    (hne : ∀ arc ∈ arcs, arc.2 ≠ 0) :
    (merge merged arcs).addresses = union arcs ↔
      ContiguousFromFirst arcs := by
  have hsum := hcontiguous.sum_lt
  cases arcs with
  | nil =>
      have hempty : (merge merged []).addresses = ∅ := by
        rw [← Finset.card_eq_zero, card_addresses]
        exact congrArg BitVec.toNat hmerged
      have hfirst : ContiguousFromFirst ([] : List (Arc w)) :=
        ⟨List.Pairwise.nil, merged, hempty.symm, by simp⟩
      exact ⟨fun _ => hfirst, fun _ => hempty⟩
  | cons first arcs =>
      obtain ⟨hstart, hsize⟩ :=
        merge_of_sum_lt hmerged (hne first (by simp)) hsum
      constructor
      · intro hunion
        refine ⟨hcontiguous.1, merge merged (first :: arcs), hunion.symm, ?_⟩
        rintro arc ⟨⟩
        exact hstart
      · rintro ⟨hapart, whole, hunion, hwhole⟩
        have heq : merge merged (first :: arcs) = whole := by
          apply Prod.ext
          · rw [hstart, hwhole first rfl]
          · apply BitVec.eq_of_toNat_eq
            rw [hsize, sum_of_union hapart hunion]
        rw [heq, hunion]

theorem start_mem (hne : arc.2 ≠ 0) : arc.1 ∈ arc.addresses := by
  rw [mem_addresses, sub_self]
  exact toNat_pos hne

/-- Of two contiguous arcs the upper one begins where the lower one ends. -/
theorem ContiguousFromFirst.next {lower upper : Arc w}
    (hfirst : ContiguousFromFirst [lower, upper]) (hlower : lower.2 ≠ 0)
    (hupper : upper.2 ≠ 0) : upper.1 = lower.1 + lower.2 := by
  obtain ⟨hapart, whole, hunion, hwhole⟩ := hfirst
  have hstart : whole.1 = lower.1 := hwhole lower rfl
  have hsum : lower.2.toNat + upper.2.toNat = whole.2.toNat := by
    simpa using sum_of_union hapart hunion
  have hdisjoint : Disjoint lower.addresses upper.addresses :=
    (List.pairwise_cons.mp hapart).1 upper (by simp)
  have hmem : ∀ x, x ∈ whole.addresses ↔
      x ∈ lower.addresses ∨ x ∈ upper.addresses := by
    intro x
    rw [← hunion]
    simp [mem_union]
  have hpos := toNat_pos hlower
  have hpos' := toNat_pos hupper
  -- how far above the lower start the upper one is
  let distance := upper.1 - lower.1
  have hge : lower.2.toNat ≤ distance.toNat := by
    by_contra hlt
    have hin : upper.1 ∈ lower.addresses := mem_addresses.mpr (not_le.mp hlt)
    exact Finset.disjoint_left.mp hdisjoint hin (start_mem hupper)
  have hend : lower.1 + lower.2 ∈ upper.addresses := by
    have hinside : lower.1 + lower.2 ∈ whole.addresses := by
      rw [mem_addresses, hstart, add_sub_cancel_left]
      omega
    refine ((hmem _).mp hinside).resolve_left ?_
    rw [mem_addresses, add_sub_cancel_left]
    omega
  have hle : distance.toNat ≤ lower.2.toNat := by
    by_contra hgt
    have hlt := not_le.mp hgt
    have hbound := distance.isLt
    -- the upper arc would go round to the lower start
    rw [mem_addresses, show lower.1 + lower.2 - upper.1 =
      lower.2 - distance by ring, toNat_sub_of_lt hlt] at hend
    have hround : (lower.1 - upper.1).toNat < upper.2.toNat := by
      have hzero : (0 : BitVec w).toNat < distance.toNat :=
        (Nat.zero_mod _).trans_lt (hpos.trans hlt)
      rw [show lower.1 - upper.1 = 0 - distance by ring,
        toNat_sub_of_lt hzero]
      have hnat : (0 : BitVec w).toNat = 0 := Nat.zero_mod _
      omega
    exact Finset.disjoint_left.mp hdisjoint (start_mem hlower)
      (mem_addresses.mpr hround)
  have heq : distance = lower.2 := BitVec.eq_of_toNat_eq (hle.antisymm hge)
  rw [← heq, add_sub_cancel]

end Addresses

end Arc

end Nachos.Library
