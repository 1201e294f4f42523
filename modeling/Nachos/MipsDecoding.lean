import Nachos.MipsArchitecture

/-!
# `Decode` and the encodings of the architecture
-/

namespace Nachos

/-! ## The fields of a word -/

section Fields

theorem toNat_and_0x3ffffff (x : BitVec 32) :
    (x &&& 0x3ffffff).toNat = x.toNat % 67108864 :=
  Nat.and_two_pow_sub_one_eq_mod x.toNat 26

theorem and_0x1f0000 (x : BitVec 32) :
    x &&& (0x1f0000 : BitVec 32) = ((x >>> 16) &&& 0x1f) <<< 16 := by
  have hmasks : ∀ i < 32, (0x1f0000#32).getLsbD i =
      decide (16 ≤ i ∧ (0x1f#32).getLsbD (i - 16)) := by
    decide
  apply BitVec.eq_of_getLsbD_eq
  intro i hi
  simp only [BitVec.ofNat_eq_ofNat, BitVec.getLsbD_and,
    BitVec.getLsbD_shiftLeft, BitVec.getLsbD_ushiftRight]
  grind

/-- A word with two registers and an immediate. -/
theorem decode_immediateWord
    (op : BitVec 6) (rs rt : BitVec 5) (imm : BitVec 16)
    (hformat : (opTable.getD op.toNat (.res, .i)).2 = .i) :
    ∃ rd, Instruction.decode (op ++ rs ++ rt ++ imm) =
        ⟨Instruction.decodeOpCode (op ++ rs ++ rt ++ imm)
          (opTable.getD op.toNat (.res, .i)).1, rs.toNat, rt.toNat, rd,
          imm.signExtend 32⟩ ∧
      (op ++ rs ++ rt ++ imm : BitVec 32) &&& (0x1f0000 : BitVec 32) =
        rt.setWidth 32 <<< 16 := by
  have hs := rs.isLt
  have ht := rt.isLt
  have hi := imm.isLt
  have hf := op.isLt
  have hword : (op ++ rs ++ rt ++ imm).toNat =
      ((op.toNat * 32 + rs.toNat) * 32 + rt.toNat) * 65536 + imm.toNat := by
    simp only [toNat_append]
    simp
  generalize op ++ rs ++ rt ++ imm = word at hword
  have hop : ((word >>> 26) &&& 0x3f).toNat = op.toNat := by
    rw [toNat_and_0x3f, toNat_ushiftRight]
    omega
  have hrs : ((word >>> 21) &&& 0x1f).toNat = rs.toNat := by
    rw [toNat_and_0x1f, toNat_ushiftRight]
    omega
  have hrt : ((word >>> 16) &&& 0x1f).toNat = rt.toNat := by
    rw [toNat_and_0x1f, toNat_ushiftRight]
    omega
  have himm : word &&& 0xffff = imm.setWidth 32 := by
    apply BitVec.eq_of_toNat_eq
    rw [toNat_and_0xffff, BitVec.toNat_setWidth]
    omega
  have hextra : Instruction.decodeExtra word .i = imm.signExtend 32 := by
    rw [Instruction.decodeExtra, himm]
    exact signExtend_eq imm
  refine ⟨((word >>> 11) &&& 0x1f).toNat, ?_, ?_⟩
  · simp only [Instruction.decode, hop, hrs, hrt, hformat, hextra]
  · have hfield : (word >>> 16) &&& 0x1f = rt.setWidth 32 := by
      apply BitVec.eq_of_toNat_eq
      rw [hrt, BitVec.toNat_setWidth, Nat.mod_eq_of_lt (by omega)]
    rw [and_0x1f0000, hfield]

/-- A word with three registers and a `funct` field. -/
theorem decode_specialWord (rs rt rd shamt : BitVec 5) (funct : BitVec 6) :
    Instruction.decode (0#6 ++ rs ++ rt ++ rd ++ shamt ++ funct) =
      ⟨specialTable.getD funct.toNat .res, rs.toNat, rt.toNat, rd.toNat,
        shamt.setWidth 32⟩ := by
  have hs := rs.isLt
  have ht := rt.isLt
  have hd := rd.isLt
  have ha := shamt.isLt
  have hf := funct.isLt
  have hword : (0#6 ++ rs ++ rt ++ rd ++ shamt ++ funct).toNat =
      (((rs.toNat * 32 + rt.toNat) * 32 + rd.toNat) * 32 + shamt.toNat) * 64 +
        funct.toNat := by
    simp only [toNat_append]
    simp
  generalize 0#6 ++ rs ++ rt ++ rd ++ shamt ++ funct = word at hword
  have hop : ((word >>> 26) &&& 0x3f).toNat = 0 := by
    rw [toNat_and_0x3f, toNat_ushiftRight]
    omega
  have hrs : ((word >>> 21) &&& 0x1f).toNat = rs.toNat := by
    rw [toNat_and_0x1f, toNat_ushiftRight]
    omega
  have hrt : ((word >>> 16) &&& 0x1f).toNat = rt.toNat := by
    rw [toNat_and_0x1f, toNat_ushiftRight]
    omega
  have hrd : ((word >>> 11) &&& 0x1f).toNat = rd.toNat := by
    rw [toNat_and_0x1f, toNat_ushiftRight]
    omega
  have hshamt : (word >>> 6) &&& 0x1f = shamt.setWidth 32 := by
    apply BitVec.eq_of_toNat_eq
    rw [toNat_and_0x1f, toNat_ushiftRight, BitVec.toNat_setWidth]
    omega
  have hfunct : (word &&& 0x3f).toNat = funct.toNat := by
    rw [toNat_and_0x3f]
    omega
  have hentry : opTable.getD 0 (.res, .i) = (.special, .r) := rfl
  simp only [Instruction.decode, hop, hentry, hrs, hrt, hrd,
    Instruction.decodeOpCode, Instruction.decodeExtra, hfunct, hshamt]

theorem decode_syscallWord (code : BitVec 20) :
    (Instruction.decode (0#6 ++ code ++ 0x0c#6)).opCode = .syscall := by
  have hc := code.isLt
  have hword : (0#6 ++ code ++ 0x0c#6).toNat = code.toNat * 64 + 12 := by
    simp only [toNat_append]
    simp
  generalize 0#6 ++ code ++ 0x0c#6 = word at hword
  have hop : ((word >>> 26) &&& 0x3f).toNat = 0 := by
    rw [toNat_and_0x3f, toNat_ushiftRight]
    omega
  have hfunct : (word &&& 0x3f).toNat = 12 := by
    rw [toNat_and_0x3f]
    omega
  have hentry : opTable.getD 0 (.res, .i) = (.special, .r) := rfl
  simp only [Instruction.decode, hop, hentry, Instruction.decodeOpCode, hfunct]
  rfl

theorem decode_jumpWord (link : Bool) (target : BitVec 26) :
    ∃ rs rt rd, Instruction.decode
        ((if link then 0x03#6 else 0x02#6) ++ target) =
      ⟨if link then .jal else .j, rs, rt, rd, target.setWidth 32⟩ := by
  have ht := target.isLt
  have hword : ((if link then 0x03#6 else 0x02#6) ++ target).toNat =
      (if link then 3 else 2) * 67108864 + target.toNat := by
    rw [toNat_append]
    cases link <;> rfl
  generalize (if link then 0x03#6 else 0x02#6) ++ target = word at hword
  have hop : ((word >>> 26) &&& 0x3f).toNat = if link then 3 else 2 := by
    rw [toNat_and_0x3f, toNat_ushiftRight]
    cases link <;> simp at hword ⊢ <;> omega
  have htarget : word &&& 0x3ffffff = target.setWidth 32 := by
    apply BitVec.eq_of_toNat_eq
    rw [toNat_and_0x3ffffff, BitVec.toNat_setWidth]
    cases link <;> simp at hword ⊢ <;> omega
  refine ⟨((word >>> 21) &&& 0x1f).toNat, ((word >>> 16) &&& 0x1f).toNat,
    ((word >>> 11) &&& 0x1f).toNat, ?_⟩
  simp only [Instruction.decode, hop]
  rw [← htarget]
  cases link <;> rfl

end Fields

/-! ## The instructions -/

namespace Mips

/-- The case of the `switch`. -/
def BranchOp.opCode : BranchOp → OpCode
  | .beq => .beq | .bne => .bne | .blez => .blez | .bgtz => .bgtz
  | .bltz => .bltz | .bgez => .bgez
  | .bltzal => .bltzal | .bgezal => .bgezal

def LoadOp.opCode : LoadOp → OpCode
  | .lb => .lb | .lbu => .lbu | .lh => .lh | .lhu => .lhu | .lw => .lw
  | .lwl => .lwl | .lwr => .lwr

def StoreOp.opCode : StoreOp → OpCode
  | .sb => .sb | .sh => .sh | .sw => .sw | .swl => .swl | .swr => .swr

theorem decodeOpCode_branch
    (op : BranchOp) {rt : BitVec 5} {word : BitVec 32}
    (hfield : word &&& (0x1f0000 : BitVec 32) =
      (op.field rt).setWidth 32 <<< 16) :
    Nachos.Instruction.decodeOpCode word
      (opTable.getD op.opcode.toNat (.res, .i)).1 = op.opCode := by
  have hentry : (opTable.getD op.opcode.toNat (.res, .i)).1 =
      if op.opcode = 0x01 then .bcond else op.opCode := by
    cases op <;> rfl
  have hbcond : Nachos.Instruction.decodeOpCode word .bcond =
      let i := (op.field rt).setWidth 32 <<< 16
      if i = (0 : BitVec 32) then .bltz
      else if i = 0x10000 then .bgez
      else if i = 0x100000 then .bltzal
      else if i = 0x110000 then .bgezal
      else .unimp := by
    rw [Nachos.Instruction.decodeOpCode, hfield]
  rw [hentry]
  cases op with
  | beq => rfl
  | bne => rfl
  | blez => rfl
  | bgtz => rfl
  | bltz => exact hbcond.trans (by rw [BranchOp.field]; decide)
  | bgez => exact hbcond.trans (by rw [BranchOp.field]; decide)
  | bltzal => exact hbcond.trans (by rw [BranchOp.field]; decide)
  | bgezal => exact hbcond.trans (by rw [BranchOp.field]; decide)

theorem decode_branch
    (op : BranchOp) (rs rt : BitVec 5) (offset : BitVec 16) :
    ∃ rd, Nachos.Instruction.decode
        (Instruction.branch op rs rt offset).encode =
      ⟨op.opCode, rs.toNat, (op.field rt).toNat, rd,
        offset.signExtend 32⟩ := by
  obtain ⟨rd, hdecode, hfield⟩ := decode_immediateWord op.opcode rs
    (op.field rt) offset (by cases op <;> rfl)
  refine ⟨rd, ?_⟩
  rw [Instruction.encode, hdecode, decodeOpCode_branch op hfield]

theorem decode_load
    (op : LoadOp) (base rt : BitVec 5) (offset : BitVec 16) :
    ∃ rd, Nachos.Instruction.decode
        (Instruction.load op base rt offset).encode =
      ⟨op.opCode, base.toNat, rt.toNat, rd, offset.signExtend 32⟩ := by
  obtain ⟨rd, hdecode, -⟩ := decode_immediateWord op.opcode base rt offset
    (by cases op <;> rfl)
  refine ⟨rd, ?_⟩
  rw [Instruction.encode, hdecode]
  cases op <;> rfl

theorem decode_store
    (op : StoreOp) (base rt : BitVec 5) (offset : BitVec 16) :
    ∃ rd, Nachos.Instruction.decode
        (Instruction.store op base rt offset).encode =
      ⟨op.opCode, base.toNat, rt.toNat, rd, offset.signExtend 32⟩ := by
  obtain ⟨rd, hdecode, -⟩ := decode_immediateWord op.opcode base rt offset
    (by cases op <;> rfl)
  refine ⟨rd, ?_⟩
  rw [Instruction.encode, hdecode]
  cases op <;> rfl

theorem decode_jr (rs : BitVec 5) :
    Nachos.Instruction.decode (Instruction.jr rs).encode =
      ⟨.jr, rs.toNat, 0, 0, 0⟩ :=
  decode_specialWord rs 0 0 0 0x08

theorem decode_jalr (rs rd : BitVec 5) :
    Nachos.Instruction.decode (Instruction.jalr rs rd).encode =
      ⟨.jalr, rs.toNat, 0, rd.toNat, 0⟩ :=
  decode_specialWord rs 0 rd 0 0x09

end Mips

end Nachos
