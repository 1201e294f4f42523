import Nachos.Basic
import Nachos.Library.CountedLoop
import Mathlib.Data.Finset.Card
import Mathlib.Tactic

/-!
# The bitmap of `lib/bitmap.cc`

An array of 32-bit words on which a set of numbers below `numBits` is
represented.  The operations are those of the source, with their assertions;
`Bitmap.marked` is the set they work on, and the lemmas here state each
operation on that set.
-/

namespace Nachos

open Library

def bitsInWord : ℕ := 32

structure Bitmap where
  numBits : ℕ
  map : List (BitVec 32)
  numWords : map.length = divRoundUp numBits bitsInWord
  deriving DecidableEq

namespace Bitmap

/-- `1 << (which % BitsInWord)`. -/
def mask (which : ℕ) : BitVec 32 :=
  1#32 <<< (which % bitsInWord)

def word (b : Bitmap) (which : ℕ) : BitVec 32 :=
  b.map.getD (which / bitsInWord) 0

/-- The condition `map[which / BitsInWord] & (1 << (which % BitsInWord))`. -/
def bit (b : Bitmap) (which : ℕ) : Bool :=
  b.word which &&& mask which != 0

/-- `map[which / BitsInWord] |= 1 << (which % BitsInWord)`. -/
def setBit (b : Bitmap) (which : ℕ) : Bitmap where
  numBits := b.numBits
  map := b.map.set (which / bitsInWord) (b.word which ||| mask which)
  numWords := by simpa using b.numWords

/-- `map[which / BitsInWord] &= ~(1 << (which % BitsInWord))`. -/
def clearBit (b : Bitmap) (which : ℕ) : Bitmap where
  numBits := b.numBits
  map := b.map.set (which / bitsInWord) (b.word which &&& ~~~mask which)
  numWords := by simpa using b.numWords

/-- The assertion every operation on a single bit starts with. -/
def InRange (b : Bitmap) (which : ℤ) : Prop :=
  0 ≤ which ∧ which < b.numBits

instance (b : Bitmap) (which : ℤ) : Decidable (b.InRange which) :=
  inferInstanceAs (Decidable (_ ∧ _))

def test (b : Bitmap) (which : ℤ) : Except Fault Bool := do
  assert (b.InRange which)
  return b.bit which.toNat

def mark (b : Bitmap) (which : ℤ) : Except Fault Bitmap := do
  assert (b.InRange which)
  let b' := b.setBit which.toNat
  assert ((← b'.test which) = true)
  return b'

def clear (b : Bitmap) (which : ℤ) : Except Fault Bitmap := do
  assert (b.InRange which)
  let b' := b.clearBit which.toNat
  assert ((← b'.test which) = false)
  return b'

/-- `Bitmap::Bitmap(numItems)`. -/
def init (numItems : ℕ) : Except Fault Bitmap := do
  assert (0 < numItems)
  countedLoop (fun i b => b.clear i) 0 numItems
    ⟨numItems, List.replicate (divRoundUp numItems bitsInWord) 0, by simp⟩

/-- The loop of `FindAndSet`, from bit `i` with `remaining` bits to go. -/
def findAndSetFrom (b : Bitmap) :
    ℕ → ℕ → Except Fault (ℤ × Bitmap)
  | _, 0 => return (-1, b)
  | i, remaining + 1 => do
      if (← b.test i) then
        b.findAndSetFrom (i + 1) remaining
      else
        let b' ← b.mark i
        return ((i : ℤ), b')

def findAndSet (b : Bitmap) : Except Fault (ℤ × Bitmap) :=
  b.findAndSetFrom 0 b.numBits

/-- The loop body of `NumClear`. -/
def countClear (b : Bitmap) (i count : ℕ) : Except Fault ℕ := do
  if (← b.test i) then return count else return count + 1

def numClear (b : Bitmap) : Except Fault ℕ :=
  countedLoop b.countClear 0 b.numBits 0

/-! ## Single bits -/

@[simp] theorem numBits_setBit (b : Bitmap) (which : ℕ) :
    (b.setBit which).numBits = b.numBits := rfl

@[simp] theorem numBits_clearBit (b : Bitmap) (which : ℕ) :
    (b.clearBit which).numBits = b.numBits := rfl

/-- Testing a mask is reading the bit of the word. -/
theorem bit_eq_getLsbD (b : Bitmap) (which : ℕ) :
    b.bit which = (b.word which).getLsbD (which % bitsInWord) := by
  have hlt : which % bitsInWord < 32 := Nat.mod_lt _ (by decide)
  unfold bit mask
  rw [← BitVec.twoPow_eq, BitVec.and_twoPow]
  cases hbit : (b.word which).getLsbD (which % bitsInWord) with
  | false => simp
  | true =>
      have hne : BitVec.twoPow 32 (which % bitsInWord) ≠ 0#32 := by
        intro hzero
        have hget := congrArg
          (fun w => w.getLsbD (which % bitsInWord)) hzero
        simp [hlt] at hget
      simpa using hne

theorem word_lt
    {b : Bitmap} {which : ℕ} (hlt : which < b.numBits) :
    which / bitsInWord < b.map.length := by
  have hle : b.numBits ≤ divRoundUp b.numBits bitsInWord * bitsInWord :=
    le_divRoundUp_mul (by decide)
  rw [b.numWords]
  exact Nat.div_lt_of_lt_mul (by rw [Nat.mul_comm]; omega)

/-- The word of a bit after one word of the map has been replaced. -/
theorem getD_set_word
    (b : Bitmap) {which : ℕ} (other : ℕ) (hlt : which < b.numBits)
    (w : BitVec 32) :
    (b.map.set (which / bitsInWord) w).getD (other / bitsInWord) 0 =
      if other / bitsInWord = which / bitsInWord then w
      else b.word other := by
  by_cases heq : which / bitsInWord = other / bitsInWord
  · have hword := word_lt hlt
    rw [← heq]
    simp [List.getD_eq_getElem?_getD, hword]
  · have hne : ¬other / bitsInWord = which / bitsInWord := fun h => heq h.symm
    simp [List.getD_eq_getElem?_getD, heq, hne, word]

theorem bit_setBit
    {b : Bitmap} {which : ℕ} (hlt : which < b.numBits) (other : ℕ) :
    (b.setBit which).bit other = (b.bit other || decide (other = which)) := by
  have hword := getD_set_word b other hlt
    (b.word which ||| mask which)
  rw [bit_eq_getLsbD, bit_eq_getLsbD, word, setBit, hword]
  by_cases heq : other / bitsInWord = which / bitsInWord
  · have hsame : which % bitsInWord = other % bitsInWord ↔ other = which := by
      unfold bitsInWord at heq ⊢
      omega
    have hlt' : which % bitsInWord < 32 := Nat.mod_lt _ (by decide)
    have hwords : b.word which = b.word other := by
      simp [word, heq]
    rw [if_pos heq, mask, ← BitVec.twoPow_eq, BitVec.getLsbD_or,
      BitVec.getLsbD_twoPow, hwords]
    simp only [hlt', hsame, decide_true, Bool.true_and]
  · have hne : other ≠ which := fun h => heq (h ▸ rfl)
    simp [heq, hne]

theorem bit_clearBit
    {b : Bitmap} {which : ℕ} (hlt : which < b.numBits) (other : ℕ) :
    (b.clearBit which).bit other =
      (b.bit other && decide (other ≠ which)) := by
  have hword := getD_set_word b other hlt
    (b.word which &&& ~~~mask which)
  rw [bit_eq_getLsbD, bit_eq_getLsbD, word, clearBit, hword]
  by_cases heq : other / bitsInWord = which / bitsInWord
  · have hsame : which % bitsInWord = other % bitsInWord ↔ other = which := by
      unfold bitsInWord at heq ⊢
      omega
    have hlt' : which % bitsInWord < 32 := Nat.mod_lt _ (by decide)
    have hlt'' : other % bitsInWord < 32 := Nat.mod_lt _ (by decide)
    have hwords : b.word which = b.word other := by
      simp [word, heq]
    rw [if_pos heq, mask, ← BitVec.twoPow_eq, BitVec.getLsbD_and,
      BitVec.getLsbD_not, BitVec.getLsbD_twoPow, hwords]
    simp only [hlt', hlt'', hsame, decide_true, Bool.true_and, decide_not]
  · have hne : other ≠ which := fun h => heq (h ▸ rfl)
    simp [heq, hne]

/-! ## The operations, in range -/

theorem inRange_natCast
    {b : Bitmap} {which : ℕ} (hlt : which < b.numBits) :
    b.InRange which :=
  ⟨Int.natCast_nonneg _, by exact_mod_cast hlt⟩

@[simp] theorem test_eq
    {b : Bitmap} {which : ℕ} (hlt : which < b.numBits) :
    b.test which = .ok (b.bit which) := by
  simp only [test, assert_of_true (inRange_natCast hlt), Int.toNat_natCast]
  rfl

theorem mark_eq
    {b : Bitmap} {which : ℕ} (hlt : which < b.numBits) :
    b.mark which = .ok (b.setBit which) := by
  have htest : (b.setBit which).test which = .ok true := by
    rw [test_eq (by simpa using hlt), bit_setBit hlt]
    simp
  simp only [mark, assert_of_true (inRange_natCast hlt), Int.toNat_natCast]
  simp only [bind, Except.bind, htest, assert_of_true, pure, Except.pure]

theorem clear_eq
    {b : Bitmap} {which : ℕ} (hlt : which < b.numBits) :
    b.clear which = .ok (b.clearBit which) := by
  have htest : (b.clearBit which).test which = .ok false := by
    rw [test_eq (by simpa using hlt), bit_clearBit hlt]
    simp
  simp only [clear, assert_of_true (inRange_natCast hlt), Int.toNat_natCast]
  simp only [bind, Except.bind, htest, assert_of_true, pure, Except.pure]

/-- Out of range, no operation touches the map. -/
theorem clear_of_not_inRange
    {b : Bitmap} {which : ℤ} (hout : ¬b.InRange which) :
    b.clear which = .error .abort := by
  simp [clear, assert_of_false hout, bind, Except.bind]

theorem init_spec
    {numItems : ℕ} (hpos : 0 < numItems) :
    ∃ b, init numItems = .ok b ∧ b.numBits = numItems ∧
      ∀ which, b.bit which = false := by
  let Inv : ℕ → Bitmap → Prop := fun _ b =>
    b.numBits = numItems ∧ ∀ which, b.bit which = false
  have hzero : Inv 0
      ⟨numItems, List.replicate (divRoundUp numItems bitsInWord) 0,
        by simp⟩ := by
    refine ⟨rfl, fun which => ?_⟩
    rw [bit_eq_getLsbD, word, List.getD_eq_getElem?_getD,
      List.getElem?_replicate]
    split <;> simp
  have hround : ∀ i (b : Bitmap), 0 ≤ i → i < 0 + numItems → Inv i b →
      ∃ b', b.clear i = .ok b' ∧ Inv (i + 1) b' := by
    intro i b _ hlt hinv
    have hi : i < b.numBits := by
      rw [hinv.1]
      omega
    refine ⟨b.clearBit i, clear_eq hi, hinv.1, fun which => ?_⟩
    rw [bit_clearBit hi, hinv.2 which]
    rfl
  rcases countedLoop_spec Inv hzero hround with ⟨b, hloop, hinv⟩
  refine ⟨b, ?_, hinv⟩
  simp only [init, assert_of_true hpos, bind, Except.bind]
  exact hloop

/-- What `FindAndSet` does: it grants the least clear bit, or returns -1
when there is none. -/
theorem findAndSet_cases (b : Bitmap) :
    (b.findAndSet = .ok (-1, b) ∧
        ∀ which < b.numBits, b.bit which = true) ∨
      ∃ i < b.numBits, b.bit i = false ∧
        (∀ j < i, b.bit j = true) ∧
        b.findAndSet = .ok ((i : ℤ), b.setBit i) := by
  suffices hfrom : ∀ remaining start, start + remaining = b.numBits →
      (∀ j < start, b.bit j = true) →
      (b.findAndSetFrom start remaining = .ok (-1, b) ∧
          ∀ which < b.numBits, b.bit which = true) ∨
        ∃ i < b.numBits, b.bit i = false ∧
          (∀ j < i, b.bit j = true) ∧
          b.findAndSetFrom start remaining = .ok ((i : ℤ), b.setBit i) from
    hfrom b.numBits 0 (by omega) (by simp)
  intro remaining
  induction remaining with
  | zero =>
      intro start hsum hbefore
      exact .inl ⟨rfl, fun which hlt => hbefore which (by omega)⟩
  | succ remaining ih =>
      intro start hsum hbefore
      have hlt : start < b.numBits := by omega
      simp only [findAndSetFrom, test_eq hlt, bind, Except.bind]
      cases hbit : b.bit start with
      | true =>
          exact ih (start + 1) (by omega) fun j hj => by
            rcases Nat.lt_succ_iff_lt_or_eq.mp hj with hlt | rfl
            · exact hbefore j hlt
            · exact hbit
      | false =>
          exact .inr ⟨start, hlt, hbit, hbefore, by
            simp [mark_eq hlt, pure, Except.pure]⟩

/-! ## The represented set -/

/-- The set of marked numbers. -/
def marked (b : Bitmap) : Finset ℕ :=
  (Finset.range b.numBits).filter fun which => b.bit which = true

@[simp] theorem mem_marked {b : Bitmap} {which : ℕ} :
    which ∈ b.marked ↔ which < b.numBits ∧ b.bit which = true := by
  simp [marked]

theorem marked_setBit
    {b : Bitmap} {which : ℕ} (hlt : which < b.numBits) :
    (b.setBit which).marked = insert which b.marked := by
  ext other
  by_cases heq : other = which
  · subst heq
    simp [bit_setBit hlt, hlt]
  · simp [bit_setBit hlt, heq]

theorem card_marked_le (b : Bitmap) : b.marked.card ≤ b.numBits := by
  have hle := Finset.card_filter_le (Finset.range b.numBits)
    fun which => b.bit which = true
  rwa [Finset.card_range] at hle

theorem marked_filter_succ
    {b : Bitmap} {i : ℕ} (hi : i < b.numBits) :
    (b.marked.filter (· < i + 1)).card =
      (b.marked.filter (· < i)).card + if b.bit i then 1 else 0 := by
  cases hbit : b.bit i with
  | true =>
      have hsplit : b.marked.filter (· < i + 1) =
          insert i (b.marked.filter (· < i)) := by
        ext j
        simp only [Finset.mem_filter, Finset.mem_insert, mem_marked]
        grind
      rw [hsplit, Finset.card_insert_of_notMem (by simp)]
      simp
  | false =>
      have hsame : b.marked.filter (· < i + 1) =
          b.marked.filter (· < i) := by
        ext j
        simp only [Finset.mem_filter, mem_marked]
        grind
      rw [hsame]
      simp

/-- `NumClear` counts the numbers that are not marked. -/
theorem numClear_eq (b : Bitmap) :
    b.numClear = .ok (b.numBits - b.marked.card) := by
  let Inv : ℕ → ℕ → Prop := fun i count =>
    count + (b.marked.filter (· < i)).card = i
  have hround : ∀ i count, 0 ≤ i → i < 0 + b.numBits → Inv i count →
      ∃ count', b.countClear i count = .ok count' ∧
        Inv (i + 1) count' := by
    intro i count _ hlt hinv
    have hi : i < b.numBits := by omega
    have hcard := marked_filter_succ hi
    simp only [Inv] at hinv ⊢
    simp only [countClear, test_eq hi, bind, Except.bind, pure, Except.pure]
    cases hbit : b.bit i with
    | true =>
        refine ⟨count, by simp, ?_⟩
        simp only [hbit, if_true] at hcard
        omega
    | false =>
        refine ⟨count + 1, by simp, ?_⟩
        simp only [hbit, Bool.false_eq_true, if_false] at hcard
        omega
  have hzero : Inv 0 0 := by simp [Inv]
  rcases countedLoop_spec Inv hzero hround with ⟨count, hloop, hcount⟩
  have hall : b.marked.filter (· < 0 + b.numBits) = b.marked := by
    apply Finset.filter_true_of_mem
    intro j hj
    simpa using (mem_marked.mp hj).1
  simp only [Inv, hall] at hcount
  have hle := b.card_marked_le
  have hcount' : count = b.numBits - b.marked.card := by omega
  unfold numClear
  rw [← hcount']
  exact hloop

end Bitmap

end Nachos
