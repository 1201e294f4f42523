import Nachos.FileNames

/-!
# A string that is copied out and in again

`System2User` writes a string with its zero byte, and `User2System` reads it
back up to a limit.  The buffer has `limit + 1` bytes, a number of type `int`.
-/

namespace Nachos

namespace Machine

variable {m : Machine} {addr : BitVec 32} {s : CString}

theorem throughZero_string (hs : 0 ∉ s) : throughZero (s ++ [0]) = s ++ [0] := by
  induction s with
  | nil => rfl
  | cons byte rest ih =>
      rw [List.mem_cons, not_or] at hs
      rw [List.cons_append, throughZero, if_neg (Ne.symm hs.1), ih hs.2]

theorem Writable.lt_word {n : ℕ} (hdistinct : m.DistinctFrames)
    (hwritable : m.Writable addr n) : n < 2 ^ 32 := by
  by_contra hge
  have hmost : m.Writable addr (2 ^ 32 - 1) := hwritable.mono (by omega)
  have hle := hmost.le_memorySize hdistinct (by omega)
  have hbound : memorySize = 16384 := rfl
  omega

/-- A string with its zero byte arrives in user memory. -/
theorem system2User_string (hs : 0 ∉ s) (hdistinct : m.DistinctFrames)
    (hwritable : m.Writable addr (s.length + 1)) :
    ∃ m', m.system2User addr (s.length + 1) (s ++ [0]) =
        .ok ((s.length : ℤ) + 1, m') ∧
      m'.HoldsString addr s ∧ m.SameOutside m' addr (s.length + 1) := by
  have hcount : ((s.length : ℤ) + 1).toNat = s.length + 1 := by omega
  have hlength : (s ++ [(0 : BitVec 8)]).length = s.length + 1 := by simp
  have hall : throughZero ((s ++ [0]).take (s.length + 1)) = s ++ [0] := by
    rw [← hlength, List.take_length, throughZero_string hs]
  obtain ⟨m', hcopy, -, hholds, houtside⟩ :=
    system2User_spec ((s.length : ℤ) + 1) (s ++ [0]) hdistinct (by omega)
      (by rwa [hcount]) (by omega)
      (by rw [hcount]; exact hwritable.lt_word hdistinct)
  rw [hcount, hall, hlength] at hcopy houtside
  rw [hcount, hall] at hholds
  refine ⟨m', ?_, ⟨hs, hholds⟩, houtside⟩
  rw [hcopy]
  push_cast
  rfl

/-- A string that is copied out comes back as far as the limit allows, with a
zero byte at its end. -/
def RoundTrip (m : Machine) (addr : BitVec 32) (s : CString)
    (limit : BitVec 32) : Prop :=
  ∃ m₁ m₂ buffer,
    m.system2User addr (s.length + 1) (s ++ [0]) =
        .ok ((s.length : ℤ) + 1, m₁) ∧
      m.SameOutside m₁ addr (s.length + 1) ∧
      m₁.user2System addr limit = .ok (buffer, m₂) ∧
      0 ∈ buffer ∧ cString buffer = s.take limit.toInt.toNat

theorem toInt_add_one_pos_iff (limit : BitVec 32) :
    0 < (limit + 1).toInt ↔ 0 ≤ limit.toInt ∧ limit.toInt < 2 ^ 31 - 1 := by
  have hlt := limit.isLt
  have hone : (1 : BitVec 32).toNat = 1 := rfl
  rw [BitVec.toInt_eq_toNat_cond, BitVec.toInt_eq_toNat_cond,
    BitVec.toNat_add, hone]
  split_ifs <;> omega

theorem toNat_add_one {limit : BitVec 32} (hlimit : 0 < (limit + 1).toInt) :
    (limit + 1).toNat = limit.toInt.toNat + 1 := by
  have hrange := (toInt_add_one_pos_iff limit).mp hlimit
  have hone : (1 : BitVec 32).toNat = 1 := rfl
  have hsame := toInt_eq_toNat hrange.1
  rw [hsame] at hrange ⊢
  rw [BitVec.toNat_add, hone]
  omega

/-- A buffer without room for a zero byte has no room at all. -/
theorem eq_nil_of_user2System
    {m' : Machine} {limit : BitVec 32} {buffer : List (BitVec 8)}
    (hcopy : m.user2System addr limit = .ok (buffer, m'))
    (hlimit : ¬0 < (limit + 1).toInt) : buffer = [] := by
  by_cases hneg : (limit + 1).toInt < 0
  · rw [user2System, if_pos hneg] at hcopy
    cases hcopy
  · have hzero : (0 : BitVec 32).toInt = 0 := rfl
    have hroom : limit + 1 = 0 := by
      apply BitVec.eq_of_toInt_eq
      omega
    obtain rfl : limit = -1 := by bv_omega
    cases hcopy
    rfl

theorem toInt_add_one_pos_of_terminated
    {m' : Machine} {limit : BitVec 32} {buffer : List (BitVec 8)}
    (hcopy : m.user2System addr limit = .ok (buffer, m'))
    (hzero : 0 ∈ buffer) : 0 < (limit + 1).toInt := by
  by_contra hlimit
  rw [eq_nil_of_user2System hcopy hlimit] at hzero
  cases hzero

/-- The buffer of `limit + 1` bytes holds the string, cut at the limit, and a
zero byte. -/
theorem kernelBuffer_string {limit : BitVec 32} (hs : 0 ∉ s)
    (hlimit : 0 < (limit + 1).toInt) :
    0 ∈ kernelBuffer limit (cString ((s ++ [0]).take limit.toInt.toNat)) ∧
      cString (kernelBuffer limit
        (cString ((s ++ [0]).take limit.toInt.toNat))) =
          s.take limit.toInt.toNat := by
  have hlength := List.length_take_le limit.toInt.toNat s
  rw [cString_take hs, kernelBuffer, toNat_add_one hlimit]
  refine ⟨?_, cString_append_zeros (fun h => hs (List.mem_of_mem_take h)) _⟩
  apply List.mem_append_right
  rw [List.mem_replicate]
  exact ⟨by omega, rfl⟩

/-- A string comes back if and only if the limit is not negative and is not the
greatest number of type `int`. -/
theorem roundTrip_iff (hs : 0 ∉ s) (hdistinct : m.DistinctFrames)
    (hwritable : m.Writable addr (s.length + 1)) (limit : BitVec 32) :
    m.RoundTrip addr s limit ↔
      0 ≤ limit.toInt ∧ limit.toInt < 2 ^ 31 - 1 := by
  rw [← toInt_add_one_pos_iff]
  constructor
  · rintro ⟨m₁, m₂, buffer, -, -, hcopy, hzero, -⟩
    exact toInt_add_one_pos_of_terminated hcopy hzero
  · intro hlimit
    obtain ⟨m₁, hout, hholds, houtside⟩ :=
      system2User_string hs hdistinct hwritable
    obtain ⟨m₂, hin, -, -⟩ :=
      user2System_spec hholds.2 (.inr (by simp)) hlimit.le
    obtain ⟨hzero, hstring⟩ := kernelBuffer_string hs hlimit
    exact ⟨m₁, m₂, _, hout, houtside, hin, hzero, hstring⟩

/-! ## The greatest limit -/

theorem onePage_writable :
    (Kernel.onePage .read (Kernel.fileSlotOf 0) [] []).machine.Writable 0
      2 := by
  refine ⟨by decide, by decide, trivial⟩

/-- The string `[65]` comes back up to a limit of 33. -/
theorem roundTrip_short :
    (Kernel.onePage .read (Kernel.fileSlotOf 0) [] []).machine.RoundTrip 0
      [65] 33 :=
  (roundTrip_iff (by decide) (Kernel.onePage_distinctFrames _ _ _ _)
    onePage_writable 33).mpr (by decide)

/-- With the greatest limit the kernel aborts. -/
theorem roundTrip_greatest :
    (Kernel.onePage .read (Kernel.fileSlotOf 0) [] []).machine.DistinctFrames ∧
      (Kernel.onePage .read (Kernel.fileSlotOf 0) [] []).machine.Writable 0
        2 ∧
      ¬(Kernel.onePage .read (Kernel.fileSlotOf 0) [] []).machine.RoundTrip 0
        [65] 0x7fffffff := by
  refine ⟨Kernel.onePage_distinctFrames _ _ _ _, onePage_writable, ?_⟩
  rintro ⟨m₁, m₂, buffer, -, -, hcopy, hzero, -⟩
  have hpos := toInt_add_one_pos_of_terminated hcopy hzero
  exact absurd hpos (by decide)

end Machine

end Nachos
