import Nachos.Library.StepSystem
import Nachos.Bitmap

/-!
# Runs of calls on a bitmap

Whatever calls are made on a bitmap, it stands for the set of the numbers that
were marked or granted and not cleared since.
-/

namespace Nachos

open Library

/-- A call on a bitmap. -/
inductive BitmapCall
  | mark (which : ℤ)
  | clear (which : ℤ)
  | findAndSet
  | test (which : ℤ)
  | numClear
  deriving DecidableEq

/-- A call that has returned, with its result. -/
inductive BitmapEvent
  | marked (which : ℤ)
  | cleared (which : ℤ)
  | found (which : ℤ)
  | tested (which : ℤ) (result : Bool)
  | counted (count : ℕ)
  deriving DecidableEq

/-- The index of the call is one of the bitmap's. -/
def BitmapCall.InRange (numItems : ℕ) : BitmapCall → Prop
  | .mark which | .clear which | .test which => 0 ≤ which ∧ which < numItems
  | .findAndSet | .numClear => True

/-- The index an event may change. -/
def BitmapEvent.touches : BitmapEvent → Option ℤ
  | .marked which | .cleared which | .found which => some which
  | .tested _ _ | .counted _ => none

/-- What an event makes of a set of numbers. -/
def BitmapEvent.apply (s : Finset ℕ) : BitmapEvent → Finset ℕ
  | .marked which => insert which.toNat s
  | .cleared which => s.erase which.toNat
  | .found which => if which = -1 then s else insert which.toNat s
  | .tested _ _ | .counted _ => s

/-- The set after the events of a run that began with the empty one. -/
def setAfter (trace : List BitmapEvent) : Finset ℕ :=
  trace.foldl BitmapEvent.apply ∅

@[simp] theorem setAfter_nil : setAfter [] = ∅ := rfl

@[simp] theorem setAfter_append
    (trace : List BitmapEvent) (event : BitmapEvent) :
    setAfter (trace ++ [event]) = event.apply (setAfter trace) := by
  simp [setAfter]

namespace Bitmap

def step (b : Bitmap) : BitmapCall → Except Fault (Bitmap × BitmapEvent)
  | .mark which => do
      let b' ← b.mark which
      return (b', .marked which)
  | .clear which => do
      let b' ← b.clear which
      return (b', .cleared which)
  | .findAndSet => do
      let (which, b') ← b.findAndSet
      return (b', .found which)
  | .test which => do
      let result ← b.test which
      return (b, .tested which result)
  | .numClear => do
      let count ← b.numClear
      return (b, .counted count)

/-- The bitmap as a system that takes one call at a time. -/
def system (b : Bitmap) :
    StepSystem Bitmap BitmapCall BitmapEvent Fault where
  start := b
  step := step

/-- The bitmap stands for the set `s` of numbers below `numItems`. -/
structure Stands (b : Bitmap) (numItems : ℕ) (s : Finset ℕ) : Prop where
  numBits : b.numBits = numItems
  marked : b.marked = s

variable {b : Bitmap} {numItems which : ℕ} {s : Finset ℕ}

theorem marked_clearBit (hlt : which < b.numBits) :
    (b.clearBit which).marked = b.marked.erase which := by
  ext other
  by_cases heq : other = which
  · subst heq
    simp [bit_clearBit hlt]
  · simp [bit_clearBit hlt, heq]

theorem Stands.bit (hstands : b.Stands numItems s) (hlt : which < numItems) :
    b.bit which = true ↔ which ∈ s := by
  rw [← hstands.marked, mem_marked, hstands.numBits]
  simp [hlt]

theorem Stands.subset (hstands : b.Stands numItems s) :
    s ⊆ Finset.range numItems := by
  intro i hi
  rw [← hstands.marked, mem_marked, hstands.numBits] at hi
  exact Finset.mem_range.mpr hi.1

theorem Stands.setBit (hstands : b.Stands numItems s) (hlt : which < numItems) :
    (b.setBit which).Stands numItems (insert which s) where
  numBits := hstands.numBits
  marked := by rw [marked_setBit (by rwa [hstands.numBits]), hstands.marked]

theorem Stands.clearBit
    (hstands : b.Stands numItems s) (hlt : which < numItems) :
    (b.clearBit which).Stands numItems (s.erase which) where
  numBits := hstands.numBits
  marked := by rw [marked_clearBit (by rwa [hstands.numBits]), hstands.marked]

/-- What a call does on the bitmap of a set, case by case: it changes the set
as its event says, and no bit but the one it touches. -/
theorem Stands.step
    (hstands : b.Stands numItems s) {call : BitmapCall}
    (hrange : call.InRange numItems) :
    ∃ b' event, b.step call = .ok (b', event) ∧
      b'.Stands numItems (event.apply s) ∧
      ∀ other : ℕ, event.touches ≠ some (other : ℤ) →
        b'.bit other = b.bit other := by
  cases call with
  | mark index =>
      rcases hrange with ⟨hpos, hlt⟩
      lift index to ℕ using hpos
      have hindex : index < numItems := by exact_mod_cast hlt
      have hbits : index < b.numBits := by rwa [hstands.numBits]
      refine ⟨b.setBit index, .marked index, ?_, ?_, ?_⟩
      · rw [Bitmap.step, mark_eq hbits]
        rfl
      · simpa [BitmapEvent.apply] using hstands.setBit hindex
      · intro other hother
        have hne : other ≠ index := by
          rintro rfl
          exact hother rfl
        simp [bit_setBit hbits, hne]
  | clear index =>
      rcases hrange with ⟨hpos, hlt⟩
      lift index to ℕ using hpos
      have hindex : index < numItems := by exact_mod_cast hlt
      have hbits : index < b.numBits := by rwa [hstands.numBits]
      refine ⟨b.clearBit index, .cleared index, ?_, ?_, ?_⟩
      · rw [Bitmap.step, clear_eq hbits]
        rfl
      · simpa [BitmapEvent.apply] using hstands.clearBit hindex
      · intro other hother
        have hne : other ≠ index := by
          rintro rfl
          exact hother rfl
        simp [bit_clearBit hbits, hne]
  | findAndSet =>
      rcases b.findAndSet_cases with ⟨hfound, -⟩ | ⟨i, hlt, -, -, hfound⟩
      · refine ⟨b, .found (-1), ?_, ?_, fun other _ => rfl⟩
        · rw [Bitmap.step, hfound]
          rfl
        · simpa [BitmapEvent.apply] using hstands
      · have hindex : i < numItems := by rwa [← hstands.numBits]
        have hgranted : (i : ℤ) ≠ -1 := by omega
        refine ⟨b.setBit i, .found i, ?_, ?_, ?_⟩
        · rw [Bitmap.step, hfound]
          rfl
        · rw [BitmapEvent.apply, if_neg hgranted, Int.toNat_natCast]
          exact hstands.setBit hindex
        · intro other hother
          have hne : other ≠ i := by
            rintro rfl
            exact hother rfl
          simp [bit_setBit hlt, hne]
  | test index =>
      rcases hrange with ⟨hpos, hlt⟩
      lift index to ℕ using hpos
      have hindex : index < numItems := by exact_mod_cast hlt
      refine ⟨b, .tested index (b.bit index), ?_, hstands, fun other _ => rfl⟩
      rw [Bitmap.step, test_eq (by rwa [hstands.numBits])]
      rfl
  | numClear =>
      refine ⟨b, .counted (b.numBits - b.marked.card), ?_, hstands,
        fun other _ => rfl⟩
      rw [Bitmap.step, numClear_eq]
      rfl

/-! ## What the calls return -/

theorem Stands.test (hstands : b.Stands numItems s) (hlt : which < numItems) :
    b.test which = .ok (decide (which ∈ s)) := by
  have hbit := hstands.bit hlt
  rw [test_eq (by rwa [hstands.numBits])]
  by_cases hmem : which ∈ s
  · simp [hmem, hbit.mpr hmem]
  · have hclear : b.bit which = false := by
      rw [← Bool.not_eq_true]
      exact fun h => hmem (hbit.mp h)
    simp [hmem, hclear]

theorem Stands.numClear (hstands : b.Stands numItems s) :
    b.numClear = .ok (numItems - s.card) := by
  rw [numClear_eq, hstands.numBits, hstands.marked]

/-- `FindAndSet` on a full set, and on one that has a number free. -/
theorem Stands.findAndSet (hstands : b.Stands numItems s) :
    (s = Finset.range numItems ∧ b.findAndSet = .ok (-1, b)) ∨
      ∃ i < numItems, i ∉ s ∧ (∀ j < i, j ∈ s) ∧
        b.findAndSet = .ok ((i : ℤ), b.setBit i) := by
  rcases b.findAndSet_cases with
    ⟨hfound, hall⟩ | ⟨i, hlt, hclear, hbefore, hfound⟩
  · refine .inl ⟨Finset.Subset.antisymm hstands.subset ?_, hfound⟩
    intro i hi
    have hlt := Finset.mem_range.mp hi
    exact (hstands.bit hlt).mp (hall i (by rwa [hstands.numBits]))
  · rw [hstands.numBits] at hlt
    refine .inr ⟨i, hlt, ?_, fun j hj => ?_, hfound⟩
    · rw [← hstands.bit hlt, hclear]
      simp
    · exact (hstands.bit (by omega)).mp (hbefore j hj)

theorem Stands.findAndSet_eq_neg_one (hstands : b.Stands numItems s)
    (b' : Bitmap) :
    b.findAndSet = .ok (-1, b') ↔ s = Finset.range numItems ∧ b' = b := by
  rcases hstands.findAndSet with ⟨hfull, hfound⟩ | ⟨i, hlt, hfree, -, hfound⟩
  · simp [hfull, hfound, eq_comm]
  · have hnotfull : s ≠ Finset.range numItems := by
      intro hfull
      exact hfree (hfull ▸ Finset.mem_range.mpr hlt)
    have hne : (i : ℤ) ≠ -1 := by omega
    simp [hnotfull, hfound, hne]

theorem Stands.findAndSet_eq_natCast (hstands : b.Stands numItems s) (i : ℕ) :
    (∃ b', b.findAndSet = .ok ((i : ℤ), b')) ↔
      i < numItems ∧ i ∉ s ∧ ∀ j < i, j ∈ s := by
  rcases hstands.findAndSet with
    ⟨hfull, hfound⟩ | ⟨least, hlt, hfree, hbefore, hfound⟩
  · have hne : (-1 : ℤ) ≠ i := by omega
    simp only [hfound, Except.ok.injEq, Prod.mk.injEq, hne, false_and,
      exists_false, false_iff, hfull, Finset.mem_range, not_and]
    intro hlt hnotlt
    exact absurd hlt hnotlt
  · constructor
    · rintro ⟨b', hresult⟩
      rw [hfound] at hresult
      obtain rfl : least = i := by
        simpa using congrArg Prod.fst (Except.ok.inj hresult)
      exact ⟨hlt, hfree, hbefore⟩
    · rintro ⟨-, hfree', hbefore'⟩
      have heq : least = i := by
        rcases Nat.lt_trichotomy least i with h | h | h
        · exact absurd (hbefore' least h) hfree
        · exact h
        · exact absurd (hbefore i h) hfree'
      exact ⟨_, heq ▸ hfound⟩

/-! ## Runs -/

theorem init_stands (hpos : 0 < numItems) :
    ∃ b, Bitmap.init numItems = .ok b ∧ b.Stands numItems ∅ := by
  rcases init_spec hpos with ⟨b, hinit, hbits, hclear⟩
  refine ⟨b, hinit, hbits, ?_⟩
  ext which
  simp [hclear]

/-- A run of calls in range goes through, and its bitmap stands for the set
its events make up. -/
theorem Stands.runActions
    (hstands : b.Stands numItems ∅) {calls : List BitmapCall}
    (hrange : ∀ call ∈ calls, call.InRange numItems) :
    ∃ trace last,
      b.system.runActions StepSystem.anyStep calls [] b = some (trace, last) ∧
        last.Stands numItems (setAfter trace) := by
  refine StepSystem.exists_runActions
    (fun trace (last : Bitmap) => last.Stands numItems (setAfter trace))
    (BitmapCall.InRange numItems) ?_ hstands hrange
  intro trace before call hbefore hcall
  rcases hbefore.step hcall with ⟨after, event, hstep, hafter, -⟩
  refine ⟨trivial, after, event, hstep, ?_⟩
  rw [setAfter_append]
  exact hafter

/-- After any run from the constructor the calls answer for the set of the
numbers marked or granted and not cleared since. -/
theorem bitmap_is_set (hpos : 0 < numItems) :
    ∃ fresh, Bitmap.init numItems = .ok fresh ∧
      ∀ calls : List BitmapCall, (∀ call ∈ calls, call.InRange numItems) →
        ∃ trace last,
          fresh.system.runActions StepSystem.anyStep calls [] fresh =
              some (trace, last) ∧
            setAfter trace ⊆ Finset.range numItems ∧
            (∀ i < numItems,
              last.test i = .ok (decide (i ∈ setAfter trace))) ∧
            (∀ i : ℕ, (∃ after, last.findAndSet = .ok ((i : ℤ), after)) ↔
              i < numItems ∧ i ∉ setAfter trace ∧
                ∀ j < i, j ∈ setAfter trace) ∧
            (∀ after, last.findAndSet = .ok (-1, after) ↔
              setAfter trace = Finset.range numItems ∧ after = last) ∧
            last.numClear = .ok (numItems - (setAfter trace).card) ∧
            ∀ call : BitmapCall, call.InRange numItems →
              ∃ after event, last.step call = .ok (after, event) ∧
                ∀ other < numItems, event.touches ≠ some (other : ℤ) →
                  after.test other = last.test other := by
  rcases init_stands hpos with ⟨fresh, hinit, hfresh⟩
  refine ⟨fresh, hinit, fun calls hrange => ?_⟩
  rcases hfresh.runActions hrange with ⟨trace, last, hrun, hlast⟩
  refine ⟨trace, last, hrun, hlast.subset, fun i hi => hlast.test hi,
    hlast.findAndSet_eq_natCast, hlast.findAndSet_eq_neg_one,
    hlast.numClear, fun call hcall => ?_⟩
  rcases hlast.step hcall with ⟨after, event, hstep, hafter, hsame⟩
  refine ⟨after, event, hstep, fun other hlt hother => ?_⟩
  have hbits : other < after.numBits := by rwa [hafter.numBits]
  have hbits' : other < last.numBits := by rwa [hlast.numBits]
  rw [test_eq hbits, test_eq hbits', hsame other hother]

theorem bitmap_is_set_of_two_words :
    ∃ fresh trace last, Bitmap.init 33 = .ok fresh ∧
      fresh.system.runActions StepSystem.anyStep
          [.mark 32, .findAndSet, .mark 31, .clear 32] [] fresh =
        some (trace, last) ∧
      last.test 31 = .ok (decide (31 ∈ setAfter trace)) ∧
      last.test 32 = .ok (decide (32 ∈ setAfter trace)) := by
  rcases @bitmap_is_set 33 (by decide) with ⟨fresh, hinit, hruns⟩
  have hrange : ∀ call ∈ [BitmapCall.mark 32, .findAndSet, .mark 31, .clear 32],
      call.InRange 33 := by
    simp [BitmapCall.InRange]
  rcases hruns _ hrange with ⟨trace, last, hrun, -, htest, -⟩
  exact ⟨fresh, trace, last, hinit, hrun, htest 31 (by decide),
    htest 32 (by decide)⟩

end Bitmap

end Nachos
