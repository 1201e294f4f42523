import Nachos.IntegerInstructions

/-!
# Words that are not aligned: `LWL`, `LWR`, `SWL` and `SWR`

Each of the four instructions accesses the word that its address lies in and
merges it with the register.  Addressed to the last byte and to the first byte
of four, the two halves of a pair cover the four bytes.  An interrupt between
them may have completed the delayed load of the first half.
-/

namespace Nachos

namespace Machine

/-! ## What is to be shown of the pairs -/

/-- `tmp - byte`. -/
def enclosingWord (addr : BitVec 32) : BitVec 32 :=
  addr - (addr &&& 3)

/-- The machine as the next instruction finds it, when an interrupt has or
has not come in between. -/
def interrupted (m : Machine) (drained : Bool) : Machine :=
  if drained then m.delayedLoad 0 0 else m

/-- The four bytes from an address on are those of a word, the lowest
first. -/
def HoldsWord (m : Machine) (a value : BitVec 32) : Prop :=
  ∀ k < 4, m.userByte (a + BitVec.ofNat 32 k) = some (valueByte value k)

/-- Two instructions on the four bytes from an address on. -/
structure UnalignedPair (m : Machine) (left right : Instruction)
    (a : BitVec 32) : Prop where
  sameBase : right.rs = left.rs
  sameTarget : right.rt = left.rt
  base : 0 < left.rs ∧ left.rs < 32
  target : 0 < left.rt ∧ left.rt < 32
  different : left.rt ≠ left.rs
  leftAddress : m.readRegister left.rs + left.extra = a + 3
  /-- The second instruction finds a load of the base completed. -/
  rightAddress : m.mergedWith left.rs + right.extra = a
  leftWord : m.physical (enclosingWord (a + 3)) true ≠ none
  rightWord : m.physical (enclosingWord a) true ≠ none
  distinct : m.DistinctFrames

/-- `SWL` and `SWR` store the four bytes of the register and no other. -/
def StoresUnaligned (m : Machine) (left right : Instruction) (a : BitVec 32)
    (drained : Bool) : Prop :=
  ∃ m₁ m₂, m.outcome { left with opCode := .swl } = .ok m₁ ∧
    (m₁.interrupted drained).outcome { right with opCode := .swr } = .ok m₂ ∧
    m₂.HoldsWord a (m.readRegister left.rt) ∧ m.SameOutside m₂ a 4 ∧
    ∀ addr, (∀ k < 4, addr ≠ a + BitVec.ofNat 32 k) →
      m₂.userByte addr = m.userByte addr

/-- `LWL` and `LWR` leave the four bytes in the register, once their load has
completed. -/
def LoadsUnaligned (m : Machine) (left right : Instruction) (a : BitVec 32)
    (drained : Bool) : Prop :=
  ∃ m₁ m₂, m.outcome { left with opCode := .lwl } = .ok m₁ ∧
    (m₁.interrupted drained).outcome { right with opCode := .lwr } = .ok m₂ ∧
    m₂.mainMemory = m.mainMemory ∧
    ∀ nextReg nextValue, m.HoldsWord a
      ((m₂.delayedLoad nextReg nextValue).readRegister left.rt)

/-! ## The bytes of the merged words -/

section Merging

variable {register value old : BitVec 32} {b c k : ℕ}

theorem getLsbD_masks {j : ℕ} (hj : j < 32) :
    (0xff#32).getLsbD j = decide (j < 8) ∧
      (0xffff#32).getLsbD j = decide (j < 16) ∧
      (0xffffff#32).getLsbD j = decide (j < 24) ∧
      (0xff000000#32).getLsbD j = decide (24 ≤ j) ∧
      (0xffff0000#32).getLsbD j = decide (16 ≤ j) ∧
      (0xffffff00#32).getLsbD j = decide (8 ≤ j) := by
  revert j
  decide

theorem valueByte_eq
    {x y : BitVec 32} {k l : ℕ}
    (hbits : ∀ i < 8, x.getLsbD (8 * k + i) = y.getLsbD (8 * l + i)) :
    valueByte x k = valueByte y l := by
  apply BitVec.eq_of_getLsbD_eq
  intro i hi
  simp only [valueByte, BitVec.getLsbD_setWidth, BitVec.getLsbD_ushiftRight,
    hbits i hi]

/-- `SWL` at the byte `b` of a word: up to this byte the word gets the upper
bytes of the register. -/
theorem valueByte_storeLeft (hb : b ≤ 3) (hk : k ≤ 3) :
    valueByte (storeLeft register value (3 - b)) k =
      if k ≤ b then valueByte register (k + 3 - b) else valueByte value k := by
  split
  all_goals
    apply valueByte_eq
    intro i hi
    have hmasks := getLsbD_masks (show 8 * k + i < 32 by omega)
    interval_cases b <;>
      simp only [storeLeft, BitVec.getLsbD_or, BitVec.getLsbD_and,
        BitVec.getLsbD_sshiftRight] <;>
      grind

/-- `SWR` at the byte `c` of a word: from this byte on the word gets the lower
bytes of the register. -/
theorem valueByte_storeRight (hc : c ≤ 3) (hk : k ≤ 3) :
    valueByte (storeRight register value (3 - c)) k =
      if c ≤ k then valueByte register (k - c) else valueByte value k := by
  split
  all_goals
    apply valueByte_eq
    intro i hi
    have hmasks := getLsbD_masks (show 8 * k + i < 32 by omega)
    interval_cases c <;>
      simp only [storeRight, BitVec.getLsbD_or, BitVec.getLsbD_and,
        BitVec.getLsbD_shiftLeft] <;>
      grind

/-- `LWL` at the byte `b` of a word: the upper bytes of the register come from
the word. -/
theorem valueByte_mergeLeft (hb : b ≤ 3) (hk : k ≤ 3) :
    valueByte (mergeLeft old value (3 - b)) k =
      if 3 ≤ k + b then valueByte value (k + b - 3) else valueByte old k := by
  split
  all_goals
    apply valueByte_eq
    intro i hi
    have hmasks := getLsbD_masks (show 8 * k + i < 32 by omega)
    interval_cases b <;>
      simp only [mergeLeft, BitVec.getLsbD_or, BitVec.getLsbD_and,
        BitVec.getLsbD_shiftLeft] <;>
      grind

/-- `LWR` at the byte `c` of a word: the lower bytes of the register come from
the word. -/
theorem valueByte_mergeRight (hc : c ≤ 3) (hk : k ≤ 3) :
    valueByte (mergeRight old value (3 - c)) k =
      if k + c ≤ 3 then valueByte value (k + c) else valueByte old k := by
  split
  all_goals
    apply valueByte_eq
    intro i hi
    have hmasks := getLsbD_masks (show 8 * k + i < 32 by omega)
    interval_cases c <;>
      simp only [mergeRight, BitVec.getLsbD_or, BitVec.getLsbD_and,
        BitVec.getLsbD_sshiftRight] <;>
      grind

end Merging

/-! ## Addresses -/

section Addresses

/-- `byte`. -/
def byteInWord (addr : BitVec 32) : ℕ :=
  (addr &&& 3).toNat

theorem byteInWord_eq (addr : BitVec 32) : byteInWord addr = addr.toNat % 4 :=
  Nat.and_two_pow_sub_one_eq_mod addr.toNat 2

theorem byteInWord_le (addr : BitVec 32) : byteInWord addr ≤ 3 := by
  rw [byteInWord_eq]
  omega

theorem toNat_three_sub (addr : BitVec 32) :
    (3 - (addr &&& 3)).toNat = 3 - byteInWord addr := by
  have hle := byteInWord_le addr
  unfold byteInWord at *
  bv_omega

theorem enclosingWord_aligned (addr : BitVec 32) :
    (enclosingWord addr).toNat % 4 = 0 := by
  have hbyte := byteInWord_eq addr
  unfold byteInWord at hbyte
  unfold enclosingWord
  bv_omega

variable {a : BitVec 32} {j : ℕ}

theorem add_eq_rightWord (a : BitVec 32) (j : ℕ) :
    a + BitVec.ofNat 32 j =
      enclosingWord a + BitVec.ofNat 32 (j + byteInWord a) := by
  unfold byteInWord enclosingWord at *
  bv_omega

theorem add_eq_leftWord (hleft : 3 ≤ j + byteInWord (a + 3)) :
    a + BitVec.ofNat 32 j =
      enclosingWord (a + 3) +
        BitVec.ofNat 32 (j + byteInWord (a + 3) - 3) := by
  have hle := byteInWord_le (a + 3)
  unfold byteInWord enclosingWord at *
  bv_omega

/-- Each of the four bytes is in the word of one of the instructions. -/
theorem covered (hj : j < 4) :
    3 ≤ j + byteInWord (a + 3) ∨ j + byteInWord a ≤ 3 := by
  have hlast := byteInWord_eq (a + 3)
  have hfirst := byteInWord_eq a
  have hsum : (a + 3).toNat = (a.toNat + 3) % 2 ^ 32 := BitVec.toNat_add a 3
  omega

end Addresses

/-! ## Registers and the load in progress -/

section Registers

variable {m : Machine} {r : ℕ}

theorem general_ne (hlt : r < 32) :
    r ≠ pcReg ∧ r ≠ nextPCReg ∧ r ≠ prevPCReg ∧ r ≠ loadReg ∧
      r ≠ loadValueReg := by
  unfold pcReg nextPCReg prevPCReg loadReg loadValueReg
  omega

theorem readRegister_delayedLoad_general
    (hpos : 0 < r) (hlt : r < 32) (nextReg nextValue : BitVec 32) :
    (m.delayedLoad nextReg nextValue).readRegister r = m.mergedWith r := by
  obtain ⟨-, -, -, hload, hvalue⟩ := general_ne hlt
  rw [readRegister_delayedLoad, if_neg (by omega), if_neg hvalue,
    if_neg hload, mergedWith]
  simp only [eq_comm]

theorem mergedWith_delayedLoad
    (hpos : 0 < r) (hlt : r < 32) (nextReg nextValue : BitVec 32) :
    (m.delayedLoad nextReg nextValue).mergedWith r =
      if nextReg.toNat = r then nextValue else m.mergedWith r := by
  have hpending : (m.delayedLoad nextReg nextValue).readRegister loadReg =
      nextReg := by simp [loadReg, loadValueReg]
  have hvalue : (m.delayedLoad nextReg nextValue).readRegister loadValueReg =
      nextValue := by simp [loadValueReg]
  rw [mergedWith, hpending, hvalue, readRegister_delayedLoad_general hpos hlt]

theorem readRegister_finish_general
    (e : Executed) (hpos : 0 < r) (hlt : r < 32) :
    e.finish.readRegister r = e.machine.mergedWith r := by
  obtain ⟨hpc, hnext, hprev, -⟩ := general_ne hlt
  rw [← readRegister_delayedLoad_general hpos hlt e.nextLoadReg
    e.nextLoadValue]
  simp only [Executed.finish, readRegister_writeRegister, if_neg hpc,
    if_neg hnext, if_neg hprev]

theorem mergedWith_finish (e : Executed) (hpos : 0 < r) (hlt : r < 32) :
    e.finish.mergedWith r =
      if e.nextLoadReg.toNat = r then e.nextLoadValue
      else e.machine.mergedWith r := by
  obtain ⟨hpc, hnext, hprev, -⟩ := general_ne hlt
  rw [← mergedWith_delayedLoad hpos hlt e.nextLoadReg e.nextLoadValue]
  simp only [mergedWith, Executed.finish, readRegister_writeRegister,
    if_neg hpc, if_neg hnext, if_neg hprev]
  rfl

theorem SameMapping.mergedWith
    {m' : Machine} (hsame : m.SameMapping m') (r : ℕ) :
    m'.mergedWith r = m.mergedWith r := by
  unfold Machine.mergedWith readRegister
  rw [hsame.registers]

theorem mergedWith_interrupted
    (drained : Bool) (hpos : 0 < r) (hlt : r < 32) :
    (m.interrupted drained).mergedWith r = m.mergedWith r := by
  cases drained with
  | false => rfl
  | true =>
      show (m.delayedLoad 0 0).mergedWith r = m.mergedWith r
      rw [mergedWith_delayedLoad hpos hlt]
      exact if_neg hpos.ne

/-- A register that no instruction loads is the same, whether or not an
interrupt has come in between. -/
theorem readRegister_interrupted_finish
    (e : Executed) (drained : Bool) (hpos : 0 < r) (hlt : r < 32)
    (hother : e.nextLoadReg.toNat ≠ r) :
    (e.finish.interrupted drained).readRegister r =
      e.machine.mergedWith r := by
  cases drained with
  | false => exact readRegister_finish_general e hpos hlt
  | true =>
      show (e.finish.delayedLoad 0 0).readRegister r = e.machine.mergedWith r
      rw [readRegister_delayedLoad_general hpos hlt,
        mergedWith_finish e hpos hlt, if_neg hother]

theorem nextLoadReg_loads (m : Machine) (hlt : r < 32) (value : BitVec 32) :
    (m.loads r value).nextLoadReg.toNat = r :=
  Nat.mod_eq_of_lt (by omega)

/-- `LWR` merges with what `LWL` has loaded, wherever it finds it. -/
theorem mergedWith_loaded
    (drained : Bool) (hpos : 0 < r) (hlt : r < 32) (value : BitVec 32) :
    ((m.loads r value).finish.interrupted drained).mergedWith r = value := by
  rw [mergedWith_interrupted drained hpos hlt, mergedWith_finish _ hpos hlt,
    if_pos (nextLoadReg_loads m hlt value)]
  rfl

theorem readRegister_loaded
    (hpos : 0 < r) (hlt : r < 32) (value nextReg nextValue : BitVec 32) :
    ((m.loads r value).finish.delayedLoad nextReg nextValue).readRegister r =
      value := by
  rw [readRegister_delayedLoad_general hpos hlt, mergedWith_finish _ hpos hlt,
    if_pos (nextLoadReg_loads m hlt value)]
  rfl

end Registers

/-! ## One instruction -/

/-- Some of the four bytes from an address on are stored, and nothing else. -/
structure StoresBytes (m m' : Machine) (a value : BitVec 32)
    (covers : ℕ → Prop) : Prop where
  mapping : ∀ addr writing, m'.physical addr writing = m.physical addr writing
  stored : ∀ j < 4, covers j →
    m'.userByte (a + BitVec.ofNat 32 j) = some (valueByte value j)
  frame : ∀ paddr,
    (∀ j < 4, covers j →
      m.physical (a + BitVec.ofNat 32 j) true ≠ some paddr) →
        m'.mainMemory paddr = m.mainMemory paddr

/-- Some of the bytes of a word come from the four bytes from an address on,
and the others from another word. -/
structure LoadsBytes (m : Machine) (a old new : BitVec 32)
    (covers : ℕ → Prop) : Prop where
  loaded : ∀ j < 4, covers j →
    m.userByte (a + BitVec.ofNat 32 j) = some (valueByte new j)
  kept : ∀ j < 4, ¬covers j → valueByte new j = valueByte old j

/-- `SWL` and `SWR`, with their `switch`. -/
def storeMerged (m : Machine) (instr : Instruction)
    (merge : BitVec 32 → BitVec 32 → ℕ → BitVec 32) : Except Stop Executed := do
  let tmp := m.readRegister instr.rs + instr.extra
  let byte := tmp &&& 3
  let (value, m') ← m.readMemory (tmp - byte) 4
  let m' ← m'.writeMemory (tmp - byte) 4
    (merge (m.readRegister instr.rt) value (3 - byte).toNat)
  return m'.continues

/-- `LWL` and `LWR`, with their `switch`. -/
def loadMerged (m : Machine) (instr : Instruction)
    (merge : BitVec 32 → BitVec 32 → ℕ → BitVec 32) : Except Stop Executed := do
  let tmp := m.readRegister instr.rs + instr.extra
  let byte := tmp &&& 3
  let (value, m) ← m.readMemory (tmp - byte) 4
  return m.loads instr.rt
    (merge (m.mergedWith instr.rt) value (3 - byte).toNat)

section OneInstruction

variable {m m' : Machine} {instr : Instruction} {a addr value : BitVec 32}
variable {paddr : ℕ}

theorem storeMerged_ok
    (merge : BitVec 32 → BitVec 32 → ℕ → BitVec 32)
    (haddr : m.readRegister instr.rs + instr.extra = addr)
    (hphys : m.physical (enclosingWord addr) true = some paddr) :
    ∃ old m', m.storeMerged instr merge = .ok m'.continues ∧
      m.SameMapping m' ∧
      (∀ k < 4, valueByte old k = m.mainMemory (paddr + k)) ∧
      m'.mainMemory = withValue m.mainMemory paddr 4
        (merge (m.readRegister instr.rt) old (3 - byteInWord addr)) := by
  subst haddr
  have haligned := enclosingWord_aligned (m.readRegister instr.rs + instr.extra)
  have haccess : IsAccess 4 := .inr (.inr rfl)
  obtain ⟨between, old, hread, hload, hsame, hmemory⟩ :=
    readMemory_of_physical haccess haligned (physical_of_writing hphys)
  obtain ⟨m', hwrite, hsame', hmemory'⟩ :=
    writeMemory_of_physical haccess haligned
      ((hsame.physical _ true).trans hphys)
      (merge (m.readRegister instr.rt) old
        (3 - byteInWord (m.readRegister instr.rs + instr.extra)))
  refine ⟨old, m', ?_, hsame.trans hsame',
    fun k hk => valueByte_of_load hload hk, hmemory ▸ hmemory'⟩
  rw [← toNat_three_sub] at hwrite
  unfold enclosingWord at hread hwrite
  simp only [storeMerged, hread, done_bind, hwrite]
  rfl

theorem loadMerged_ok
    (merge : BitVec 32 → BitVec 32 → ℕ → BitVec 32)
    (haddr : m.readRegister instr.rs + instr.extra = addr)
    (hphys : m.physical (enclosingWord addr) false = some paddr) :
    ∃ word m', m.loadMerged instr merge =
        .ok (m'.loads instr.rt (merge (m.mergedWith instr.rt) word
          (3 - byteInWord addr))) ∧
      m.SameMapping m' ∧ m'.mainMemory = m.mainMemory ∧
      ∀ k < 4, valueByte word k = m.mainMemory (paddr + k) := by
  subst haddr
  have haligned := enclosingWord_aligned (m.readRegister instr.rs + instr.extra)
  obtain ⟨m', word, hread, hload, hsame, hmemory⟩ :=
    readMemory_of_physical (.inr (.inr rfl)) haligned hphys
  refine ⟨word, m', ?_, hsame, hmemory,
    fun k hk => valueByte_of_load hload hk⟩
  unfold enclosingWord at hread
  rw [← toNat_three_sub, ← hsame.mergedWith]
  simp only [loadMerged, hread, done_bind]
  rfl

/-- A word is written of which some bytes change; they are at `index`. -/
theorem storesBytes_of_word
    {word new : BitVec 32} {covers : ℕ → Prop} (index : ℕ → ℕ)
    (haligned : word.toNat % 4 = 0) (hphys : m.physical word true = some paddr)
    (hmapping : ∀ addr writing,
      m'.physical addr writing = m.physical addr writing)
    (hmemory : m'.mainMemory = withValue m.mainMemory paddr 4 new)
    (hindex : ∀ j < 4, covers j → index j < 4 ∧
      a + BitVec.ofNat 32 j = word + BitVec.ofNat 32 (index j) ∧
      valueByte new (index j) = valueByte value j)
    (hkept : ∀ k < 4, (∀ j < 4, covers j → index j ≠ k) →
      valueByte new k = m.mainMemory (paddr + k)) :
    StoresBytes m m' a value covers where
  mapping := hmapping
  stored := by
    intro j hj hcovers
    obtain ⟨hlt, haddr, hbyte⟩ := hindex j hj hcovers
    have hread := physical_add (.inr (.inr rfl)) haligned
      (physical_of_writing hphys) hlt
    rw [userByte, haddr, hmapping, hread, Option.map_some, hmemory,
      withValue_of_lt _ _ hlt, hbyte]
  frame := by
    intro p hout
    rw [hmemory]
    by_cases hinside : ∃ k < 4, p = paddr + k
    · obtain ⟨k, hk, rfl⟩ := hinside
      rw [withValue_of_lt _ _ hk]
      refine hkept k hk ?_
      rintro j hj hcovers rfl
      obtain ⟨hlt, haddr, -⟩ := hindex j hj hcovers
      apply hout j hj hcovers
      rw [haddr]
      exact physical_add (.inr (.inr rfl)) haligned hphys hlt
    · push Not at hinside
      exact withValue_of_outside _ _ hinside

theorem loadsBytes_of_word
    {word old new : BitVec 32} {covers : ℕ → Prop} (index : ℕ → ℕ)
    (haligned : word.toNat % 4 = 0)
    (hphys : m.physical word false = some paddr)
    (hindex : ∀ j < 4, covers j → index j < 4 ∧
      a + BitVec.ofNat 32 j = word + BitVec.ofNat 32 (index j) ∧
      valueByte new j = m.mainMemory (paddr + index j))
    (hkept : ∀ j < 4, ¬covers j → valueByte new j = valueByte old j) :
    LoadsBytes m a old new covers where
  loaded := by
    intro j hj hcovers
    obtain ⟨hlt, haddr, hbyte⟩ := hindex j hj hcovers
    have hread := physical_add (.inr (.inr rfl)) haligned hphys hlt
    rw [userByte, haddr, hread, Option.map_some, hbyte]
  kept := hkept

theorem outcome_swl
    (haddr : m.readRegister instr.rs + instr.extra = a + 3)
    (hword : m.physical (enclosingWord (a + 3)) true ≠ none) :
    ∃ m', m.SameMapping m' ∧
      m.outcome { instr with opCode := .swl } = .ok m'.continues.finish ∧
      StoresBytes m m'.continues.finish a (m.readRegister instr.rt)
        (fun j => 3 ≤ j + byteInWord (a + 3)) := by
  obtain ⟨paddr, hphys⟩ := Option.ne_none_iff_exists'.mp hword
  obtain ⟨old, m', hexecute, hsame, hold, hmemory⟩ :=
    storeMerged_ok storeLeft haddr hphys
  have hle := byteInWord_le (a + 3)
  refine ⟨m', hsame, ?_, ?_⟩
  · show (m.storeMerged instr storeLeft >>= fun e => .ok e.finish) = _
    rw [hexecute, done_bind]
  · refine storesBytes_of_word (fun j => j + byteInWord (a + 3) - 3)
      (enclosingWord_aligned (a + 3)) hphys hsame.physical hmemory ?_ ?_
    · intro j hj hcovers
      refine ⟨by omega, add_eq_leftWord hcovers, ?_⟩
      rw [valueByte_storeLeft hle (by omega), if_pos (by omega)]
      congr 1
      omega
    · intro k hk hother
      rw [valueByte_storeLeft hle (by omega), if_neg, hold k hk]
      intro hcovered
      exact hother (k + 3 - byteInWord (a + 3)) (by omega) (by omega)
        (by omega)

theorem outcome_swr
    (haddr : m.readRegister instr.rs + instr.extra = a)
    (hword : m.physical (enclosingWord a) true ≠ none) :
    ∃ m', m.SameMapping m' ∧
      m.outcome { instr with opCode := .swr } = .ok m'.continues.finish ∧
      StoresBytes m m'.continues.finish a (m.readRegister instr.rt)
        (fun j => j + byteInWord a ≤ 3) := by
  obtain ⟨paddr, hphys⟩ := Option.ne_none_iff_exists'.mp hword
  obtain ⟨old, m', hexecute, hsame, hold, hmemory⟩ :=
    storeMerged_ok storeRight haddr hphys
  have hle := byteInWord_le a
  refine ⟨m', hsame, ?_, ?_⟩
  · show (m.storeMerged instr storeRight >>= fun e => .ok e.finish) = _
    rw [hexecute, done_bind]
  · refine storesBytes_of_word (fun j => j + byteInWord a)
      (enclosingWord_aligned a) hphys hsame.physical hmemory ?_ ?_
    · intro j hj hcovers
      refine ⟨by omega, add_eq_rightWord a j, ?_⟩
      rw [valueByte_storeRight hle (by omega), if_pos (by omega),
        Nat.add_sub_cancel]
    · intro k hk hother
      rw [valueByte_storeRight hle (by omega), if_neg, hold k hk]
      intro hcovered
      exact hother (k - byteInWord a) (by omega) (by omega) (by omega)

theorem outcome_lwl
    (haddr : m.readRegister instr.rs + instr.extra = a + 3)
    (hword : m.physical (enclosingWord (a + 3)) false ≠ none) :
    ∃ m' new, m.SameMapping m' ∧ m'.mainMemory = m.mainMemory ∧
      m.outcome { instr with opCode := .lwl } =
        .ok (m'.loads instr.rt new).finish ∧
      LoadsBytes m a (m.mergedWith instr.rt) new
        (fun j => 3 ≤ j + byteInWord (a + 3)) := by
  obtain ⟨paddr, hphys⟩ := Option.ne_none_iff_exists'.mp hword
  obtain ⟨word, m', hexecute, hsame, hmemory, hbytes⟩ :=
    loadMerged_ok mergeLeft haddr hphys
  have hle := byteInWord_le (a + 3)
  refine ⟨m', mergeLeft (m.mergedWith instr.rt) word
    (3 - byteInWord (a + 3)), hsame, hmemory, ?_, ?_⟩
  · show (m.loadMerged instr mergeLeft >>= fun e => .ok e.finish) = _
    rw [hexecute, done_bind]
  · refine loadsBytes_of_word (fun j => j + byteInWord (a + 3) - 3)
      (enclosingWord_aligned (a + 3)) hphys ?_ ?_
    · intro j hj hcovers
      refine ⟨by omega, add_eq_leftWord hcovers, ?_⟩
      rw [valueByte_mergeLeft hle (by omega), if_pos hcovers,
        hbytes _ (by omega)]
    · intro j hj hother
      rw [valueByte_mergeLeft hle (by omega), if_neg hother]

theorem outcome_lwr
    (haddr : m.readRegister instr.rs + instr.extra = a)
    (hword : m.physical (enclosingWord a) false ≠ none) :
    ∃ m' new, m.SameMapping m' ∧ m'.mainMemory = m.mainMemory ∧
      m.outcome { instr with opCode := .lwr } =
        .ok (m'.loads instr.rt new).finish ∧
      LoadsBytes m a (m.mergedWith instr.rt) new
        (fun j => j + byteInWord a ≤ 3) := by
  obtain ⟨paddr, hphys⟩ := Option.ne_none_iff_exists'.mp hword
  obtain ⟨word, m', hexecute, hsame, hmemory, hbytes⟩ :=
    loadMerged_ok mergeRight haddr hphys
  have hle := byteInWord_le a
  refine ⟨m', mergeRight (m.mergedWith instr.rt) word (3 - byteInWord a),
    hsame, hmemory, ?_, ?_⟩
  · show (m.loadMerged instr mergeRight >>= fun e => .ok e.finish) = _
    rw [hexecute, done_bind]
  · refine loadsBytes_of_word (fun j => j + byteInWord a)
      (enclosingWord_aligned a) hphys ?_ ?_
    · intro j hj hcovers
      refine ⟨by omega, add_eq_rightWord a j, ?_⟩
      rw [valueByte_mergeRight hle (by omega), if_pos hcovers,
        hbytes _ (by omega)]
    · intro j hj hother
      rw [valueByte_mergeRight hle (by omega), if_neg hother]

end OneInstruction

/-! ## The two instructions of a pair -/

section Pairs

variable {m m₁ m₂ : Machine} {left right : Instruction}
variable {a value old between new : BitVec 32} {covers₁ covers₂ : ℕ → Prop}

theorem mainMemory_interrupted (m : Machine) (drained : Bool) :
    (m.interrupted drained).mainMemory = m.mainMemory := by
  cases drained <;> rfl

theorem physical_interrupted
    (m : Machine) (drained : Bool) (addr : BitVec 32) (writing : Bool) :
    (m.interrupted drained).physical addr writing =
      m.physical addr writing := by
  cases drained <;> rfl

theorem userByte_interrupted
    (m : Machine) (drained : Bool) (addr : BitVec 32) :
    (m.interrupted drained).userByte addr = m.userByte addr := by
  cases drained <;> rfl

theorem StoresBytes.interrupted
    (hstores : StoresBytes m m₁ a value covers₁) (drained : Bool) :
    StoresBytes m (m₁.interrupted drained) a value covers₁ where
  mapping := fun addr writing =>
    (physical_interrupted m₁ drained addr writing).trans
      (hstores.mapping addr writing)
  stored := fun j hj hcovers =>
    (userByte_interrupted m₁ drained _).trans (hstores.stored j hj hcovers)
  frame := fun paddr hout =>
    (congrFun (mainMemory_interrupted m₁ drained) paddr).trans
      (hstores.frame paddr hout)

/-- The bytes of the first instruction that the second does not store are
still there: their frames are distinct from those of the others. -/
theorem StoresBytes.trans
    (hdistinct : m.DistinctFrames)
    (hfirst : StoresBytes m m₁ a value covers₁)
    (hsecond : StoresBytes m₁ m₂ a value covers₂) :
    StoresBytes m m₂ a value (fun j => covers₁ j ∨ covers₂ j) where
  mapping := fun addr writing =>
    (hsecond.mapping addr writing).trans (hfirst.mapping addr writing)
  stored := by
    intro j hj hcovers
    by_cases hagain : covers₂ j
    · exact hsecond.stored j hj hagain
    · have hbyte := hfirst.stored j hj (hcovers.resolve_right hagain)
      obtain ⟨paddr, hphys, hvalue⟩ := Option.map_eq_some_iff.mp hbyte
      rw [userByte, hsecond.mapping, hphys, Option.map_some, ← hvalue]
      refine congrArg some (hsecond.frame paddr ?_)
      intro l hl hcoversl hother
      rw [hfirst.mapping] at hphys hother
      have hsame := hdistinct.physical_inj hphys hother
      have heq : j = l := by bv_omega
      exact hagain (heq ▸ hcoversl)
  frame := by
    intro paddr hout
    have hlater : m₂.mainMemory paddr = m₁.mainMemory paddr := by
      apply hsecond.frame
      intro j hj hcovers
      rw [hfirst.mapping]
      exact hout j hj (.inr hcovers)
    rw [hlater]
    exact hfirst.frame paddr fun j hj hcovers => hout j hj (.inl hcovers)

/-- An interrupt has left the memory that the bytes come from. -/
theorem LoadsBytes.of_same
    (hloads : LoadsBytes m₁ a old new covers₁)
    (hphysical : ∀ addr writing,
      m₁.physical addr writing = m.physical addr writing)
    (hmemory : m₁.mainMemory = m.mainMemory) :
    LoadsBytes m a old new covers₁ where
  loaded := by
    intro j hj hcovers
    rw [userByte, ← hphysical, ← hmemory]
    exact hloads.loaded j hj hcovers
  kept := hloads.kept

/-- The bytes that the second instruction does not load come from the
first. -/
theorem LoadsBytes.trans
    (hfirst : LoadsBytes m a old between covers₁)
    (hsecond : LoadsBytes m a between new covers₂)
    (hcovered : ∀ j < 4, covers₁ j ∨ covers₂ j) : m.HoldsWord a new := by
  intro j hj
  by_cases hagain : covers₂ j
  · exact hsecond.loaded j hj hagain
  · rw [hsecond.kept j hj hagain]
    exact hfirst.loaded j hj ((hcovered j hj).resolve_right hagain)

theorem StoresBytes.userByte_eq
    (hdistinct : m.DistinctFrames)
    (hstores : StoresBytes m m₁ a value covers₁) {addr : BitVec 32}
    (hother : ∀ k < 4, addr ≠ a + BitVec.ofNat 32 k) :
    m₁.userByte addr = m.userByte addr := by
  rw [userByte, userByte, hstores.mapping]
  cases hphys : m.physical addr false with
  | none => rfl
  | some paddr =>
      refine congrArg some (hstores.frame paddr ?_)
      intro k hk _ hwritten
      exact hother k hk (hdistinct.physical_inj hphys hwritten)

theorem UnalignedPair.stores
    (hpair : m.UnalignedPair left right a) (drained : Bool)
    (hvalue : m.mergedWith left.rt = m.readRegister left.rt) :
    m.StoresUnaligned left right a drained := by
  obtain ⟨hbase, hbaseLt⟩ := hpair.base
  obtain ⟨htarget, htargetLt⟩ := hpair.target
  obtain ⟨m', hsame, hswl, hleft⟩ :=
    outcome_swl hpair.leftAddress hpair.leftWord
  let next := m'.continues.finish.interrupted drained
  have hregister : ∀ r, 0 < r → r < 32 →
      next.readRegister r = m.mergedWith r := by
    intro r hpos hlt
    rw [readRegister_interrupted_finish m'.continues drained hpos hlt hpos.ne]
    exact hsame.mergedWith r
  have hstored := hleft.interrupted drained
  have haddr : next.readRegister right.rs + right.extra = a := by
    rw [hpair.sameBase, hregister _ hbase hbaseLt, hpair.rightAddress]
  have hword : next.physical (enclosingWord a) true ≠ none := by
    rw [hstored.mapping]
    exact hpair.rightWord
  obtain ⟨m'', -, hswr, hright⟩ := outcome_swr haddr hword
  rw [hpair.sameTarget, hregister _ htarget htargetLt, hvalue] at hright
  have hboth := hstored.trans hpair.distinct hright
  refine ⟨_, _, hswl, hswr, ?_, ?_, ?_⟩
  · exact fun j hj => hboth.stored j hj (covered hj)
  · exact fun paddr hout => hboth.frame paddr fun j hj _ => hout j hj
  · exact fun addr hother => hboth.userByte_eq hpair.distinct hother

theorem readable_of_writable {addr : BitVec 32}
    (hwritable : m.physical addr true ≠ none) :
    m.physical addr false ≠ none := by
  obtain ⟨paddr, hphys⟩ := Option.ne_none_iff_exists'.mp hwritable
  rw [physical_of_writing hphys]
  exact Option.some_ne_none paddr

theorem UnalignedPair.loads
    (hpair : m.UnalignedPair left right a) (drained : Bool) :
    m.LoadsUnaligned left right a drained := by
  obtain ⟨hbase, hbaseLt⟩ := hpair.base
  obtain ⟨htarget, htargetLt⟩ := hpair.target
  obtain ⟨m', between, hsame, hmemory, hlwl, hleft⟩ :=
    outcome_lwl hpair.leftAddress (readable_of_writable hpair.leftWord)
  let e := m'.loads left.rt between
  let next := e.finish.interrupted drained
  have haddr : next.readRegister right.rs + right.extra = a := by
    have hload : e.nextLoadReg.toNat = left.rt :=
      nextLoadReg_loads m' htargetLt between
    rw [hpair.sameBase, readRegister_interrupted_finish e drained hbase
      hbaseLt (hload.trans_ne hpair.different)]
    exact (congrArg (· + right.extra) (hsame.mergedWith left.rs)).trans
      hpair.rightAddress
  have hmerged : next.mergedWith right.rt = between := by
    rw [hpair.sameTarget]
    exact mergedWith_loaded drained htarget htargetLt between
  have hphysical : ∀ addr writing,
      next.physical addr writing = m.physical addr writing :=
    fun addr writing => (physical_interrupted e.finish drained addr
      writing).trans (hsame.physical addr writing)
  have hbytes : next.mainMemory = m.mainMemory :=
    (mainMemory_interrupted e.finish drained).trans hmemory
  have hword : next.physical (enclosingWord a) false ≠ none := by
    rw [hphysical]
    exact readable_of_writable hpair.rightWord
  obtain ⟨m'', new, -, hmemory', hlwr, hright⟩ := outcome_lwr haddr hword
  rw [hmerged] at hright
  refine ⟨_, _, hlwl, hlwr, hmemory'.trans hbytes, ?_⟩
  intro nextReg nextValue
  rw [← hpair.sameTarget] at htarget htargetLt ⊢
  rw [readRegister_loaded htarget htargetLt]
  exact hleft.trans (hright.of_same hphysical hbytes) fun j hj => covered hj

/-- The two idioms, for the four bytes from any address on.  The register that
is stored has the same value in both instructions: no load of another value is
in progress. -/
theorem unaligned_idiom
    (hpair : m.UnalignedPair left right a) (drained : Bool) :
    (m.mergedWith left.rt = m.readRegister left.rt →
      m.StoresUnaligned left right a drained) ∧
    m.LoadsUnaligned left right a drained :=
  ⟨hpair.stores drained, hpair.loads drained⟩

end Pairs

/-- Two pages in frames that are not in order; the four bytes from address 126
on are in both of them. -/
def acrossPages : Machine where
  registers r := if r = 1 then 120 else if r = 2 then 0x11223344 else 0
  mainMemory paddr := BitVec.ofNat 8 paddr
  pageTableMap := ⟨64, [0, 0], rfl⟩
  pageTable := some [⟨0, 7, true, false, false, false⟩,
    ⟨1, 3, true, false, false, false⟩]
  pageTableSize := 2

theorem unaligned_idiom_acrossPages :
    acrossPages.StoresUnaligned ⟨.swl, 1, 2, 0, 9⟩ ⟨.swr, 1, 2, 0, 6⟩ 126
        true ∧
      acrossPages.LoadsUnaligned ⟨.lwl, 1, 2, 0, 9⟩ ⟨.lwr, 1, 2, 0, 6⟩ 126
        false := by
  have hstores : acrossPages.UnalignedPair ⟨.swl, 1, 2, 0, 9⟩
      ⟨.swr, 1, 2, 0, 6⟩ 126 :=
    { sameBase := rfl
      sameTarget := rfl
      base := by decide
      target := by decide
      different := by decide
      leftAddress := by decide
      rightAddress := by decide
      leftWord := by decide
      rightWord := by decide
      distinct := by
        rintro table ⟨⟩
        decide }
  have hloads : acrossPages.UnalignedPair ⟨.lwl, 1, 2, 0, 9⟩
      ⟨.lwr, 1, 2, 0, 6⟩ 126 :=
    { hstores with }
  exact ⟨(unaligned_idiom hstores true).1 (by decide),
    (unaligned_idiom hloads false).2⟩

end Machine

end Nachos
