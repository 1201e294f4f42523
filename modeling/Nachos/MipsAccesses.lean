import Nachos.MipsInstructions

/-!
# Loads and stores of the simulator and of the architecture
-/

namespace Nachos

open Library Machine

/-! ## What comes into a register -/

section Results

variable {value : BitVec 32}

theorem and_three_ne_zero (x : BitVec 32) :
    x &&& 3 ≠ 0 ↔ x.toNat % 4 ≠ 0 := by
  rw [ne_eq, ← BitVec.toNat_inj, BitVec.toNat_and]
  exact (Nat.and_two_pow_sub_one_eq_mod x.toNat 2).congr_left.not

theorem signByte (byte : BitVec 8) :
    (if byte.signExtend 32 &&& (0x80 : BitVec 32) ≠ 0
      then byte.signExtend 32 ||| 0xffffff00
      else byte.signExtend 32 &&& 0xff) = byte.signExtend 32 := by
  revert byte
  decide

theorem unsignedByte (byte : BitVec 8) :
    byte.signExtend 32 &&& (0xff : BitVec 32) = byte.setWidth 32 := by
  revert byte
  decide

theorem unsignedHalf (half : BitVec 16) :
    half.setWidth 32 &&& (0xffff : BitVec 32) = half.setWidth 32 := by
  apply BitVec.eq_of_toNat_eq
  have hlt := half.isLt
  rw [toNat_and_0xffff, BitVec.toNat_setWidth]
  omega

theorem signHalf (half : BitVec 16) :
    (if half.setWidth 32 &&& (0x8000 : BitVec 32) ≠ 0
      then half.setWidth 32 ||| 0xffff0000
      else half.setWidth 32 &&& 0xffff) = half.signExtend 32 := by
  rw [unsignedHalf]
  exact signExtend_eq half

theorem Mips.State.read_one
    {s : Mips.State} {addr : BitVec 32} (hread : s.read addr 1 = some value) :
    value = (value.setWidth 8).setWidth 32 := by
  obtain ⟨byte, -, hvalue⟩ := Option.bind_eq_some_iff.mp hread
  cases hvalue
  simp

theorem Mips.State.read_two
    {s : Mips.State} {addr : BitVec 32} (hread : s.read addr 2 = some value) :
    value = (value.setWidth 16).setWidth 32 := by
  simp only [Mips.State.read] at hread
  split at hread
  next =>
    obtain ⟨high, -, hread⟩ := Option.bind_eq_some_iff.mp hread
    obtain ⟨low, -, hvalue⟩ := Option.bind_eq_some_iff.mp hread
    cases hvalue
    simp
  next => cases hread

theorem mergeLeft_eq_result {b : ℕ} (hb : b ≤ 3) (old : BitVec 32) :
    mergeLeft old value (3 - b) = Mips.LoadOp.result .lwl b old value := by
  apply Mips.eq_of_valueByte
  intro k hk
  rw [valueByte_mergeLeft hb (by omega), Mips.LoadOp.result,
    Mips.valueByte_wordOf _ hk]

theorem mergeRight_eq_result {b : ℕ} (hb : b ≤ 3) (old : BitVec 32) :
    mergeRight old value (3 - b) = Mips.LoadOp.result .lwr b old value := by
  apply Mips.eq_of_valueByte
  intro k hk
  rw [valueByte_mergeRight hb (by omega), Mips.LoadOp.result,
    Mips.valueByte_wordOf _ hk]

end Results

/-! ## Loads -/

section Loads

variable {frames : List ℤ} {m : Machine} {addr extra value : BitVec 32}

theorem Mips.LoadOp.isAccess (op : Mips.LoadOp) : IsAccess op.size := by
  cases op <;> simp [Mips.LoadOp.size, IsAccess]

theorem Mips.StoreOp.isAccess (op : Mips.StoreOp) : IsAccess op.size := by
  cases op <;> simp [Mips.StoreOp.size, IsAccess]

theorem execute_load_none
    (hhosts : Hosts frames m) (op : Mips.LoadOp) (base rt rd : ℕ)
    (haddr : m.readRegister base + extra = addr)
    (hread : m.architecture.read (op.start addr) op.size = none) :
    m.execute ⟨op.opCode, base, rt, rd, extra⟩ =
      m.raiseException (.translation .addressError) (op.start addr) := by
  have hmemory := readMemory_of_none hhosts op.isAccess hread
  cases op with
  | lb =>
      simp only [execute, Mips.LoadOp.opCode, haddr]
      exact congrArg (· >>= _) hmemory
  | lbu =>
      simp only [execute, Mips.LoadOp.opCode, haddr]
      exact congrArg (· >>= _) hmemory
  | lh =>
      simp only [execute, Mips.LoadOp.opCode, haddr]
      split
      next => rfl
      next => exact congrArg (· >>= _) hmemory
  | lhu =>
      simp only [execute, Mips.LoadOp.opCode, haddr]
      split
      next => rfl
      next => exact congrArg (· >>= _) hmemory
  | lw =>
      simp only [execute, Mips.LoadOp.opCode, haddr]
      split
      next => rfl
      next => exact congrArg (· >>= _) hmemory
  | lwl =>
      simp only [execute, Mips.LoadOp.opCode, haddr]
      exact congrArg (· >>= _) hmemory
  | lwr =>
      simp only [execute, Mips.LoadOp.opCode, haddr]
      exact congrArg (· >>= _) hmemory

theorem execute_load_some
    (hhosts : Hosts frames m) (op : Mips.LoadOp) (base rd : ℕ) (rt : BitVec 5)
    (haddr : m.readRegister base + extra = addr)
    (hread : m.architecture.read (op.start addr) op.size = some value) :
    ∃ m' loaded, Accessed frames m m' ∧
      m.execute ⟨op.opCode, base, rt.toNat, rd, extra⟩ =
        .ok (m'.loads rt.toNat loaded) ∧
      (rt ≠ 0 → loaded = op.result (addr.toNat % 4) (m.gpr rt) value) := by
  obtain ⟨m', hmemory, hafter⟩ :=
    readMemory_of_some hhosts op.isAccess hread
  obtain ⟨haligned, -⟩ := Mips.State.bytes_of_read op.isAccess hread
  have hbyte : addr.toNat % 4 ≤ 3 := by omega
  have hthree : (3 - (addr &&& 3)).toNat = 3 - addr.toNat % 4 := by
    rw [toNat_three_sub, byteInWord_eq]
  have hold : rt ≠ 0 → m'.mergedWith rt.toNat = m.gpr rt := by
    intro hrt
    have hregisters : ∀ r, m'.readRegister r = m.readRegister r :=
      congrFun hafter.registers
    rw [gpr, if_neg hrt]
    simp only [mergedWith, hregisters]
  cases op with
  | lb =>
      refine ⟨m', _, hafter, ?_, fun _ => signByte (value.setWidth 8)⟩
      simp only [execute, Mips.LoadOp.opCode, haddr]
      exact congrArg (· >>= _) hmemory
  | lbu =>
      refine ⟨m', _, hafter, ?_, fun _ => (unsignedByte
        (value.setWidth 8)).trans (Mips.State.read_one hread).symm⟩
      simp only [execute, Mips.LoadOp.opCode, haddr]
      exact congrArg (· >>= _) hmemory
  | lh =>
      refine ⟨m', _, hafter, ?_, fun _ => signHalf (value.setWidth 16)⟩
      have heven : addr.toNat % 2 = 0 := haligned
      simp only [execute, Mips.LoadOp.opCode, haddr]
      rw [if_neg ((and_one_ne_zero addr).not.mpr (by omega))]
      exact congrArg (· >>= _) hmemory
  | lhu =>
      refine ⟨m', _, hafter, ?_, fun _ => (unsignedHalf
        (value.setWidth 16)).trans (Mips.State.read_two hread).symm⟩
      have heven : addr.toNat % 2 = 0 := haligned
      simp only [execute, Mips.LoadOp.opCode, haddr]
      rw [if_neg ((and_one_ne_zero addr).not.mpr (by omega))]
      exact congrArg (· >>= _) hmemory
  | lw =>
      refine ⟨m', value, hafter, ?_, fun _ => rfl⟩
      simp only [execute, Mips.LoadOp.opCode, haddr]
      rw [if_neg ((and_three_ne_zero addr).not.mpr (not_not.mpr haligned))]
      exact congrArg (· >>= _) hmemory
  | lwl =>
      refine ⟨m', mergeLeft (m'.mergedWith rt.toNat) value
        (3 - addr.toNat % 4), hafter, ?_, fun hrt => ?_⟩
      · rw [← hthree]
        simp only [execute, Mips.LoadOp.opCode, haddr]
        exact congrArg (· >>= _) hmemory
      · rw [hold hrt, mergeLeft_eq_result hbyte]
  | lwr =>
      refine ⟨m', mergeRight (m'.mergedWith rt.toNat) value
        (3 - addr.toNat % 4), hafter, ?_, fun hrt => ?_⟩
      · rw [← hthree]
        simp only [execute, Mips.LoadOp.opCode, haddr]
        exact congrArg (· >>= _) hmemory
      · rw [hold hrt, mergeRight_eq_result hbyte]

theorem implements_load
    (hm : m.Runnable frames) (op : Mips.LoadOp) (base rt : BitVec 5)
    (offset : BitVec 16)
    (hdefined : m.architecture.Defined (.load op base rt offset)) :
    Implements frames m.architecture
      (m.outcome (Instruction.decode
        (Mips.Instruction.load op base rt offset).encode))
      (m.architecture.execute (.load op base rt offset)) := by
  obtain ⟨rd, hdecode⟩ := Mips.decode_load op base rt offset
  have hbase : m.readRegister base.toNat = m.gpr base :=
    readRegister_eq_gpr hm.zero hm.pending hdefined.1
  have haddr : m.readRegister base.toNat + offset.signExtend 32 =
      m.gpr base + offset.signExtend 32 := by
    rw [hbase]
  have hstate : m.architecture.gpr = m.gpr := rfl
  rw [hdecode, Machine.outcome, Mips.State.execute]
  simp only [hstate]
  cases hread : m.architecture.read
      (op.start (m.gpr base + offset.signExtend 32)) op.size with
  | none =>
      rw [execute_load_none hm.hosts op _ _ _ haddr hread]
      exact implements_raised hm.hosts hm.pending (.addressError _)
  | some value =>
      obtain ⟨m', loaded, hafter, hexecute, hloaded⟩ :=
        execute_load_some hm.hosts op _ rd rt haddr hread
      rw [hexecute]
      have hm' := hm.accessed hafter
      refine implements_loads hm'.hosts hm'.pending rt loaded ?_
      rw [architecture_accessed hm.hosts hafter]
      by_cases hrt : rt = 0
      · subst hrt
        rfl
      · rw [hloaded hrt]

end Loads

/-! ## Stores -/

section Stores

variable {frames : List ℤ} {m : Machine} {addr extra value : BitVec 32}

theorem execute_store_none
    (hhosts : Hosts frames m) (op : Mips.StoreOp) (base rt rd : ℕ)
    (haddr : m.readRegister base + extra = addr)
    (hread : m.architecture.read (op.start addr) op.size = none) :
    m.execute ⟨op.opCode, base, rt, rd, extra⟩ =
      m.raiseException (.translation .addressError) (op.start addr) := by
  have hstore := writeMemory_of_none hhosts op.isAccess hread
    (m.readRegister rt)
  have hload := readMemory_of_none hhosts op.isAccess hread
  cases op with
  | sb =>
      simp only [execute, Mips.StoreOp.opCode, haddr]
      exact congrArg (· >>= _) hstore
  | sh =>
      simp only [execute, Mips.StoreOp.opCode, haddr]
      exact congrArg (· >>= _) hstore
  | sw =>
      simp only [execute, Mips.StoreOp.opCode, haddr]
      exact congrArg (· >>= _) hstore
  | swl =>
      simp only [execute, Mips.StoreOp.opCode, haddr]
      exact congrArg (· >>= _) hload
  | swr =>
      simp only [execute, Mips.StoreOp.opCode, haddr]
      exact congrArg (· >>= _) hload

theorem Mips.State.withBytes_congr
    (s : Mips.State) (start : BitVec 32) {size : ℕ} (hsize : size ≤ 4)
    {byte byte' : ℕ → Option (BitVec 8)}
    (hbytes : ∀ k < size, (byte k).or (s.memory (start + BitVec.ofNat 32 k)) =
      (byte' k).or (s.memory (start + BitVec.ofNat 32 k))) :
    s.withBytes start size byte = s.withBytes start size byte' := by
  ext1
  case memory =>
    funext a
    simp only [Mips.State.withBytes]
    split
    next hlt =>
      have hbyte := hbytes _ hlt
      rwa [BitVec.ofNat_toNat, BitVec.setWidth_eq, BitVec.add_comm start,
        BitVec.sub_add_cancel] at hbyte
    next => rfl
  all_goals
    rfl

/-- A merged word is written back. -/
theorem writeMerged
    (hhosts : Hosts frames m) {start : BitVec 32}
    (hread : m.architecture.read start 4 = some value) {word : BitVec 32}
    {byte : ℕ → Option (BitVec 8)}
    (hmerged : ∀ k < 4, some (valueByte word k) =
      (byte k).or (some (valueByte value k))) :
    ∃ m₁ m', m.readMemory start 4 = .ok (value, m₁) ∧
      m₁.writeMemory start 4 word = .ok m' ∧ Hosts frames m' ∧
      m'.registers = m.registers ∧
      m'.architecture = m.architecture.withBytes start 4 byte := by
  have haccess : IsAccess 4 := .inr (.inr rfl)
  obtain ⟨m₁, hmemory, hafter⟩ := readMemory_of_some hhosts haccess hread
  have hsame := architecture_accessed hhosts hafter
  obtain ⟨m', hwrite, hhosts', hregisters, hstate⟩ :=
    writeMemory_of_some hafter.hosts haccess (hsame ▸ hread) word
  obtain ⟨-, hbytes⟩ := Mips.State.bytes_of_read haccess hread
  refine ⟨m₁, m', hmemory, hwrite, hhosts',
    hregisters.trans hafter.registers, ?_⟩
  rw [hstate, hsame]
  apply Mips.State.withBytes_congr _ _ le_rfl
  intro k hk
  rw [hbytes k hk, ← hmerged k hk]
  rfl

theorem execute_store_some
    (hhosts : Hosts frames m) (op : Mips.StoreOp) (base rt rd : ℕ)
    (haddr : m.readRegister base + extra = addr)
    (hread : m.architecture.read (op.start addr) op.size = some value) :
    ∃ m', m.execute ⟨op.opCode, base, rt, rd, extra⟩ = .ok m'.continues ∧
      Hosts frames m' ∧ m'.registers = m.registers ∧
      m'.architecture = m.architecture.withBytes (op.start addr) op.size
        (op.byte (addr.toNat % 4) (m.readRegister rt)) := by
  have hbyte : addr.toNat % 4 ≤ 3 := by omega
  have hthree : (3 - (addr &&& 3)).toNat = 3 - addr.toNat % 4 := by
    rw [toNat_three_sub, byteInWord_eq]
  cases op with
  | sb =>
      obtain ⟨m', hwrite, hafter⟩ :=
        writeMemory_of_some hhosts (.inl rfl) hread (m.readRegister rt)
      refine ⟨m', ?_, hafter⟩
      simp only [execute, Mips.StoreOp.opCode, haddr]
      exact congrArg (· >>= _) hwrite
  | sh =>
      obtain ⟨m', hwrite, hafter⟩ :=
        writeMemory_of_some hhosts (.inr (.inl rfl)) hread (m.readRegister rt)
      refine ⟨m', ?_, hafter⟩
      simp only [execute, Mips.StoreOp.opCode, haddr]
      exact congrArg (· >>= _) hwrite
  | sw =>
      obtain ⟨m', hwrite, hafter⟩ :=
        writeMemory_of_some hhosts (.inr (.inr rfl)) hread (m.readRegister rt)
      refine ⟨m', ?_, hafter⟩
      simp only [execute, Mips.StoreOp.opCode, haddr]
      exact congrArg (· >>= _) hwrite
  | swl =>
      have hmerged : ∀ k < 4, some (valueByte (storeLeft (m.readRegister rt)
            value (3 - addr.toNat % 4)) k) =
          (Mips.StoreOp.byte .swl (addr.toNat % 4) (m.readRegister rt) k).or
            (some (valueByte value k)) := by
        intro k hk
        rw [valueByte_storeLeft hbyte (by omega), Mips.StoreOp.byte]
        split <;> rfl
      obtain ⟨m₁, m', hload, hwrite, hafter⟩ :=
        writeMerged hhosts hread hmerged
      refine ⟨m', ?_, hafter⟩
      have hstart : addr - (addr &&& 3) = Mips.StoreOp.start .swl addr := rfl
      simp only [execute, Mips.StoreOp.opCode, haddr, hthree, hstart, hload,
        done_bind, hwrite]
      rfl
  | swr =>
      have hmerged : ∀ k < 4, some (valueByte (storeRight (m.readRegister rt)
            value (3 - addr.toNat % 4)) k) =
          (Mips.StoreOp.byte .swr (addr.toNat % 4) (m.readRegister rt) k).or
            (some (valueByte value k)) := by
        intro k hk
        rw [valueByte_storeRight hbyte (by omega), Mips.StoreOp.byte]
        split <;> rfl
      obtain ⟨m₁, m', hload, hwrite, hafter⟩ :=
        writeMerged hhosts hread hmerged
      refine ⟨m', ?_, hafter⟩
      have hstart : addr - (addr &&& 3) = Mips.StoreOp.start .swr addr := rfl
      simp only [execute, Mips.StoreOp.opCode, haddr, hthree, hstart, hload,
        done_bind, hwrite]
      rfl

theorem implements_store
    (hm : m.Runnable frames) (op : Mips.StoreOp) (base rt : BitVec 5)
    (offset : BitVec 16)
    (hdefined : m.architecture.Defined (.store op base rt offset)) :
    Implements frames m.architecture
      (m.outcome (Instruction.decode
        (Mips.Instruction.store op base rt offset).encode))
      (m.architecture.execute (.store op base rt offset)) := by
  obtain ⟨rd, hdecode⟩ := Mips.decode_store op base rt offset
  have hbase : m.readRegister base.toNat = m.gpr base :=
    readRegister_eq_gpr hm.zero hm.pending
      (hdefined.1.imp_right fun h => h.1)
  have hvalue : m.readRegister rt.toNat = m.gpr rt :=
    readRegister_eq_gpr hm.zero hm.pending
      (hdefined.1.imp_right fun h => h.2)
  have haddr : m.readRegister base.toNat + offset.signExtend 32 =
      m.gpr base + offset.signExtend 32 := by
    rw [hbase]
  have hstate : m.architecture.gpr = m.gpr := rfl
  rw [hdecode, Machine.outcome, Mips.State.execute]
  simp only [hstate]
  cases hread : m.architecture.read
      (op.start (m.gpr base + offset.signExtend 32)) op.size with
  | none =>
      rw [execute_store_none hm.hosts op _ _ _ haddr hread]
      exact implements_raised hm.hosts hm.pending (.addressError _)
  | some value =>
      obtain ⟨m', hexecute, hhosts, hregisters, hafter⟩ :=
        execute_store_some hm.hosts op _ rt.toNat rd haddr hread
      have hload : m'.readRegister loadReg = m.readRegister loadReg :=
        congrFun hregisters loadReg
      rw [hexecute]
      refine implements_continues hhosts (by rw [hload]; exact hm.pending) ?_
      rw [hafter, hvalue]
      rfl

end Stores

end Nachos
