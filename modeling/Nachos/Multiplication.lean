import Nachos.Mipssim

/-!
# `Mult` computes the product

The loop adds shifted copies of `b`, one for each bit of `a`.  With `n` rounds
to go only the low `n` bits of `a` are still what they were; the bits above
are copies of the sign, and no round looks at them.
-/

namespace Nachos

/-- The number of a double word. -/
def double (hi lo : BitVec 32) : ℕ :=
  hi.toNat * 2 ^ 32 + lo.toNat

theorem double_lt (hi lo : BitVec 32) : double hi lo < 2 ^ 64 := by
  have hhi := hi.isLt
  have hlo := lo.isLt
  unfold double
  omega

theorem toNat_append_eq_double (hi lo : BitVec 32) :
    (hi ++ lo).toNat = double hi lo := by
  rw [BitVec.toNat_append, ← Nat.shiftLeft_add_eq_or_of_lt lo.isLt,
    Nat.shiftLeft_eq, double]

/-! ## The bits the loop looks at -/

theorem and_one_ne_zero (a : BitVec 32) :
    a &&& 1 ≠ 0 ↔ a.toNat % 2 = 1 := by
  rw [ne_eq, ← BitVec.toNat_inj, BitVec.toNat_and]
  have hone : a.toNat &&& (1 : BitVec 32).toNat = a.toNat % 2 :=
    Nat.and_one_is_mod _
  rw [hone]
  simp

theorem and_evenMask_eq_zero (a : BitVec 32) :
    a &&& 0xfffffffe = 0 ↔ a.toNat < 2 := by
  have hsplit : a &&& (0xfffffffe : BitVec 32) = (a >>> 1) <<< 1 := by
    apply BitVec.eq_of_getLsbD_eq
    intro i hi
    have hmask : (0xfffffffe#32).getLsbD i = !decide (i < 1) := by
      revert i
      decide
    simp only [BitVec.ofNat_eq_ofNat, BitVec.getLsbD_and, hmask,
      BitVec.getLsbD_shiftLeft, BitVec.getLsbD_ushiftRight]
    grind
  have hlt := a.isLt
  rw [hsplit, ← BitVec.toNat_inj]
  simp only [BitVec.toNat_shiftLeft, BitVec.toNat_ushiftRight,
    Nat.shiftRight_eq_div_pow, Nat.shiftLeft_eq]
  simp
  omega

theorem and_signMask_ne_zero (x : BitVec 32) :
    x &&& 0x80000000 ≠ 0 ↔ 2 ^ 31 ≤ x.toNat := by
  have hsplit : x &&& (0x80000000 : BitVec 32) = (x >>> 31) <<< 31 := by
    apply BitVec.eq_of_getLsbD_eq
    intro i hi
    have hmask : (0x80000000#32).getLsbD i = !decide (i < 31) := by
      revert i
      decide
    simp only [BitVec.ofNat_eq_ofNat, BitVec.getLsbD_and, hmask,
      BitVec.getLsbD_shiftLeft, BitVec.getLsbD_ushiftRight]
    grind
  have hlt := x.isLt
  rw [hsplit, ne_eq, ← BitVec.toNat_inj]
  simp only [BitVec.toNat_shiftLeft, BitVec.toNat_ushiftRight,
    Nat.shiftRight_eq_div_pow, Nat.shiftLeft_eq]
  simp
  omega

/-- An arithmetic shift moves the low bits down. -/
theorem sshiftRight_one_mod (a : BitVec 32) {n : ℕ} (hn : n < 32) :
    (a.sshiftRight 1).toNat % 2 ^ n = a.toNat % 2 ^ (n + 1) / 2 := by
  have hbits : ∀ i, i < n → (a.sshiftRight 1).toNat.testBit i =
      a.toNat.testBit (i + 1) := by
    intro i hi
    have hlt : ¬32 ≤ i := by omega
    have hlt' : 1 + i < 32 := by omega
    rw [BitVec.testBit_toNat, BitVec.testBit_toNat,
      BitVec.getLsbD_sshiftRight, if_pos hlt', Nat.add_comm 1 i]
    simp [hlt]
  apply Nat.eq_of_testBit_eq
  intro i
  rw [Nat.testBit_mod_two_pow, Nat.testBit_div_two, Nat.testBit_mod_two_pow]
  by_cases hi : i < n
  · simp [hi, hbits i hi]
  · simp [hi]

/-! ## One round -/

namespace Multiplication

variable (s : Multiplication)

theorem addStep_double :
    double s.addStep.hi s.addStep.lo % 2 ^ 64 =
      (double s.hi s.lo + double s.bHi s.bLo) % 2 ^ 64 := by
  have hlo := s.lo.isLt
  have hbLo := s.bLo.isLt
  simp only [addStep, double]
  split
  next hcarry =>
    rw [BitVec.lt_def, BitVec.toNat_add] at hcarry
    have hone : (1 : BitVec 32).toNat = 1 := rfl
    simp only [BitVec.toNat_add, hone]
    omega
  next hcarry =>
    rw [BitVec.lt_def, BitVec.toNat_add] at hcarry
    simp only [BitVec.toNat_add]
    omega

theorem shiftStep_double :
    double s.shiftStep.bHi s.shiftStep.bLo % 2 ^ 64 =
      (2 * double s.bHi s.bLo) % 2 ^ 64 := by
  have hbLo := s.bLo.isLt
  have hbHi := s.bHi.isLt
  have heven : (s.bHi <<< 1 ||| (1 : BitVec 32)).toNat =
      (s.bHi <<< 1).toNat + 1 := by
    have hor : s.bHi <<< 1 ||| (1 : BitVec 32) = s.bHi <<< 1 + 1 := by
      rw [BitVec.add_eq_or_of_and_eq_zero]
      apply BitVec.eq_of_getLsbD_eq
      intro i hi
      simp
      grind
    rw [hor, BitVec.toNat_add, BitVec.toNat_shiftLeft]
    simp [Nat.shiftLeft_eq]
    omega
  simp only [shiftStep, double]
  split
  next hbit =>
    rw [and_signMask_ne_zero] at hbit
    rw [heven]
    simp only [BitVec.toNat_shiftLeft, Nat.shiftLeft_eq]
    omega
  next hbit =>
    rw [and_signMask_ne_zero] at hbit
    simp only [BitVec.toNat_shiftLeft, Nat.shiftLeft_eq]
    omega

/-! ## The loop -/

/-- What the rounds that are left add. -/
theorem rounds_double {n : ℕ} (hn : n ≤ 32) (s : Multiplication) :
    double (rounds n s).hi (rounds n s).lo % 2 ^ 64 =
      (double s.hi s.lo +
        s.a.toNat % 2 ^ n * double s.bHi s.bLo) % 2 ^ 64 := by
  induction n generalizing s with
  | zero => simp [rounds, Nat.mod_one]
  | succ n ih =>
      have hadd := s.addStep_double
      have hshift := s.shiftStep_double
      have hlow := sshiftRight_one_mod s.a (n := n) (by omega)
      have hparity : s.a.toNat % 2 ^ (n + 1) % 2 = s.a.toNat % 2 :=
        Nat.mod_mod_of_dvd _ ⟨2 ^ n, by rw [Nat.pow_succ, Nat.mul_comm]⟩
      have hdiv := Nat.div_add_mod (s.a.toNat % 2 ^ (n + 1)) 2
      rw [hparity, ← hlow] at hdiv
      -- what is left of `a` is twice what the next rounds see, and its parity
      have hnext : ∀ t : Multiplication, t.a = s.a → t.bHi = s.bHi →
          t.bLo = s.bLo →
          double (rounds n t.shiftStep).hi (rounds n t.shiftStep).lo % 2 ^ 64 =
            (double t.hi t.lo + (s.a.sshiftRight 1).toNat % 2 ^ n *
              (2 * double s.bHi s.bLo)) % 2 ^ 64 := by
        intro t ha hbHi hbLo
        have ht := t.shiftStep_double
        rw [hbHi, hbLo] at ht
        rw [ih (by omega)]
        have hsame : double t.shiftStep.hi t.shiftStep.lo =
            double t.hi t.lo := rfl
        have hshifted : t.shiftStep.a = s.a.sshiftRight 1 := by
          rw [shiftStep, ha]
        rw [hsame, hshifted]
        exact Nat.ModEq.add_left _ (Nat.ModEq.mul_left _ ht)
      rw [rounds]
      split
      next hodd =>
        rw [and_one_ne_zero] at hodd
        split
        next hlast =>
          rw [and_evenMask_eq_zero] at hlast
          have hone : s.a.toNat = 1 := by omega
          rw [hadd, hone, Nat.mod_eq_of_lt (Nat.one_lt_two_pow (by omega)),
            Nat.one_mul]
        next =>
          rw [hnext s.addStep rfl rfl rfl, ← hdiv, hodd]
          refine (Nat.ModEq.add_right _ hadd).trans ?_
          rw [show double s.hi s.lo + double s.bHi s.bLo +
              (s.a.sshiftRight 1).toNat % 2 ^ n * (2 * double s.bHi s.bLo) =
            double s.hi s.lo + (2 * ((s.a.sshiftRight 1).toNat % 2 ^ n) + 1) *
              double s.bHi s.bLo by ring]
      next heven =>
        have hzero : s.a.toNat % 2 = 0 := by
          rw [and_one_ne_zero] at heven
          omega
        rw [hnext s rfl rfl rfl, ← hdiv, hzero]
        ring_nf

theorem rounds_product (a b : BitVec 32) :
    double (rounds 32 ⟨a, b, 0, 0, 0⟩).hi (rounds 32 ⟨a, b, 0, 0, 0⟩).lo =
      a.toNat * b.toNat := by
  have ha := a.isLt
  have hb := b.isLt
  have hloop := rounds_double le_rfl ⟨a, b, 0, 0, 0⟩
  have hlt := double_lt (rounds 32 ⟨a, b, 0, 0, 0⟩).hi
    (rounds 32 ⟨a, b, 0, 0, 0⟩).lo
  have hproduct : a.toNat * b.toNat < 2 ^ 64 := by nlinarith
  have hzero : double 0 0 = 0 := rfl
  have hdouble : double 0 b = b.toNat := by simp [double]
  simp only [hzero, hdouble, Nat.zero_add, Nat.mod_eq_of_lt ha] at hloop
  rwa [Nat.mod_eq_of_lt hlt, Nat.mod_eq_of_lt hproduct] at hloop

end Multiplication

/-! ## The product -/

theorem append_eq_ofNat {hi lo : BitVec 32} {x : ℕ}
    (h : double hi lo = x) : hi ++ lo = BitVec.ofNat 64 x := by
  apply BitVec.eq_of_toNat_eq
  rw [toNat_append_eq_double, h, BitVec.toNat_ofNat, Nat.mod_eq_of_lt]
  rw [← h]
  exact double_lt hi lo

theorem mult_false (a b : BitVec 32) :
    (mult a b false).1 ++ (mult a b false).2 =
      BitVec.ofNat 64 (a.toNat * b.toNat) := by
  unfold mult
  split
  next hzero =>
    rcases hzero with rfl | rfl <;> simp
  next =>
    simp only [Bool.false_and, Bool.false_eq_true, if_false]
    exact append_eq_ofNat (Multiplication.rounds_product a b)

/-- The absolute value as `Mult` takes it, of the least number as well. -/
theorem toNat_abs (a : BitVec 32) :
    (if a.slt 0 then -a else a).toNat = a.toInt.natAbs := by
  have hlt := a.isLt
  have hslt : a.slt 0 = decide (a.toInt < 0) := rfl
  rw [hslt]
  by_cases hneg : a.toInt < 0
  · rw [decide_eq_true hneg, if_pos rfl, BitVec.toNat_neg]
    rw [BitVec.toInt_eq_toNat_cond] at hneg ⊢
    split_ifs at hneg ⊢ <;> omega
  · rw [decide_eq_false hneg]
    simp only [Bool.false_eq_true, if_false]
    rw [BitVec.toInt_eq_toNat_cond] at hneg ⊢
    split_ifs at hneg ⊢ <;> omega

theorem negateDouble_double (hi lo : BitVec 32) :
    (double (negateDouble hi lo).1 (negateDouble hi lo).2 + double hi lo) %
      2 ^ 64 = 0 := by
  have hhi := hi.isLt
  have hlo := lo.isLt
  have hone : (1 : BitVec 32).toNat = 1 := rfl
  have hzero : (~~~lo + 1 : BitVec 32) = 0 ↔ lo.toNat = 0 := by
    rw [← BitVec.toNat_inj, BitVec.toNat_add, BitVec.toNat_not, hone]
    simp
    omega
  simp only [negateDouble, double, hzero]
  split
  next hlow =>
    simp only [BitVec.toNat_add, BitVec.toNat_not, hone]
    omega
  next hlow =>
    simp only [BitVec.toNat_add, BitVec.toNat_not, hone]
    omega

theorem append_negateDouble {hi lo : BitVec 32} {x : ℕ}
    (h : double hi lo = x) :
    (negateDouble hi lo).1 ++ (negateDouble hi lo).2 =
      BitVec.ofInt 64 (-x) := by
  have hnegated := negateDouble_double hi lo
  have hlt := double_lt (negateDouble hi lo).1 (negateDouble hi lo).2
  apply BitVec.eq_of_toNat_eq
  rw [toNat_append_eq_double, BitVec.toNat_ofInt, ← h]
  omega

theorem mult_true (a b : BitVec 32) :
    (mult a b true).1 ++ (mult a b true).2 =
      BitVec.ofInt 64 (a.toInt * b.toInt) := by
  have hslt : ∀ x : BitVec 32, x.slt 0 = decide (x.toInt < 0) := fun _ => rfl
  unfold mult
  split
  next hzero =>
    rcases hzero with rfl | rfl <;> simp
  next hnonzero =>
    have hproduct := Multiplication.rounds_product
      (if a.slt 0 then -a else a) (if b.slt 0 then -b else b)
    rw [toNat_abs, toNat_abs, ← Int.natAbs_mul] at hproduct
    simp only [Bool.true_and]
    split
    next hnegative =>
      have hsign : a.toInt * b.toInt ≤ 0 := by
        simp only [hslt, bne_iff_ne, ne_eq, decide_eq_decide] at hnegative
        by_cases ha : a.toInt < 0
        · exact mul_nonpos_of_nonpos_of_nonneg (by omega) (by omega)
        · exact mul_nonpos_of_nonneg_of_nonpos (by omega) (by omega)
      rw [append_negateDouble hproduct]
      congr 1
      omega
    next hpositive =>
      have hsign : 0 ≤ a.toInt * b.toInt := by
        simp only [hslt, bne_iff_ne, ne_eq, not_not, decide_eq_decide]
          at hpositive
        by_cases ha : a.toInt < 0
        · exact mul_nonneg_of_nonpos_of_nonpos (by omega) (by omega)
        · exact mul_nonneg (by omega) (by omega)
      rw [append_eq_ofNat hproduct, ← BitVec.ofInt_natCast,
        Int.natAbs_of_nonneg hsign]

/-- A signed product has room in a double word. -/
theorem toInt_ofInt_product (a b : BitVec 32) :
    (BitVec.ofInt 64 (a.toInt * b.toInt)).toInt = a.toInt * b.toInt := by
  have hlow := a.le_toInt
  have hhigh := a.toInt_lt
  have hlow' := b.le_toInt
  have hhigh' := b.toInt_lt
  have habs : |a.toInt| ≤ 2 ^ 31 := by
    rw [abs_le]
    omega
  have habs' : |b.toInt| ≤ 2 ^ 31 := by
    rw [abs_le]
    omega
  have hproduct : |a.toInt * b.toInt| ≤ 2 ^ 62 := by
    rw [abs_mul]
    calc |a.toInt| * |b.toInt| ≤ 2 ^ 31 * 2 ^ 31 :=
          mul_le_mul habs habs' (abs_nonneg _) (by norm_num)
      _ = 2 ^ 62 := by norm_num
  rw [abs_le] at hproduct
  rw [BitVec.toInt_ofInt]
  exact Int.bmod_eq_of_le (by omega) (by omega)

/-- `Mult` computes the whole product, of unsigned and of signed words. -/
theorem mult_product (a b : BitVec 32) :
    double (mult a b false).1 (mult a b false).2 = a.toNat * b.toNat ∧
      ((mult a b true).1 ++ (mult a b true).2).toInt =
        a.toInt * b.toInt := by
  constructor
  · have ha := a.isLt
    have hb := b.isLt
    have hproduct : a.toNat * b.toNat < 2 ^ 64 := by nlinarith
    rw [← toNat_append_eq_double, mult_false, BitVec.toNat_ofNat,
      Nat.mod_eq_of_lt hproduct]
  · rw [mult_true, toInt_ofInt_product]

example : mult 0x80000000 0x80000000 true = (0x40000000, 0) := by decide

end Nachos
