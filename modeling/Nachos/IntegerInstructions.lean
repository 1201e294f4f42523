import Nachos.Multiplication

/-!
# The integer instructions of MIPS I

The architecture is stated first: the encodings of the register and of the
immediate instructions, and what each delivers, in terms of numbers.  What
the simulator does with such a word is then compared with it.
-/

namespace Nachos

/-! ## The architecture -/

/-- Register instructions, by their `funct` field. -/
inductive RegisterOp
  | sll | srl | sra | sllv | srlv | srav | mfhi | mthi | mflo | mtlo
  | mult | multu | div | divu | add | addu | sub | subu
  | and | or | xor | nor | slt | sltu
  deriving DecidableEq

inductive ImmediateOp
  | addi | addiu | slti | sltiu | andi | ori | xori | lui
  deriving DecidableEq

def RegisterOp.funct : RegisterOp → BitVec 6
  | .sll => 0x00 | .srl => 0x02 | .sra => 0x03
  | .sllv => 0x04 | .srlv => 0x06 | .srav => 0x07
  | .mfhi => 0x10 | .mthi => 0x11 | .mflo => 0x12 | .mtlo => 0x13
  | .mult => 0x18 | .multu => 0x19 | .div => 0x1a | .divu => 0x1b
  | .add => 0x20 | .addu => 0x21 | .sub => 0x22 | .subu => 0x23
  | .and => 0x24 | .or => 0x25 | .xor => 0x26 | .nor => 0x27
  | .slt => 0x2a | .sltu => 0x2b

def ImmediateOp.opcode : ImmediateOp → BitVec 6
  | .addi => 0x08 | .addiu => 0x09 | .slti => 0x0a | .sltiu => 0x0b
  | .andi => 0x0c | .ori => 0x0d | .xori => 0x0e | .lui => 0x0f

/-- Fields that an instruction does not use may hold anything. -/
inductive IntegerInstruction
  | register (op : RegisterOp) (rs rt rd shamt : BitVec 5)
  | immediate (op : ImmediateOp) (rs rt : BitVec 5) (imm : BitVec 16)
  deriving DecidableEq

/-- What an instruction delivers: a word for its destination register, a new
`Hi` or `Lo`, both of them, or an overflow. -/
inductive Delivery
  | register (value : BitVec 32)
  | hi (value : BitVec 32)
  | lo (value : BitVec 32)
  | hiLo (value : BitVec 64)
  | overflow
  deriving DecidableEq

/-- A signed result that has to fit into a register. -/
def Delivery.signed (x : ℤ) : Delivery :=
  if -2 ^ 31 ≤ x ∧ x < 2 ^ 31 then .register (BitVec.ofInt 32 x)
  else .overflow

def Delivery.bit (b : Bool) : Delivery :=
  .register (if b then 1 else 0)

/-- The quotient in `Lo`, the remainder in `Hi`. -/
def Delivery.division (quotient remainder : ℤ) : Delivery :=
  .hiLo (BitVec.ofInt 32 remainder ++ BitVec.ofInt 32 quotient)

/-- `a` and `b` are the registers `rs` and `rt`.  For a zero divisor the
architecture leaves the result open; the simulator takes zeros. -/
def RegisterOp.delivery (op : RegisterOp) (a b : BitVec 32)
    (shamt : BitVec 5) (hi lo : BitVec 32) : Delivery :=
  match op with
  | .sll => .register (b <<< shamt.toNat)
  | .srl => .register (b >>> shamt.toNat)
  | .sra => .register (b.sshiftRight shamt.toNat)
  | .sllv => .register (b <<< (a.toNat % 32))
  | .srlv => .register (b >>> (a.toNat % 32))
  | .srav => .register (b.sshiftRight (a.toNat % 32))
  | .mfhi => .register hi
  | .mthi => .hi a
  | .mflo => .register lo
  | .mtlo => .lo a
  | .mult => .hiLo (BitVec.ofInt 64 (a.toInt * b.toInt))
  | .multu => .hiLo (BitVec.ofNat 64 (a.toNat * b.toNat))
  | .div =>
      if b = 0 then .division 0 0
      else .division (a.toInt.tdiv b.toInt) (a.toInt.tmod b.toInt)
  | .divu =>
      if b = 0 then .division 0 0
      else .division (a.toNat / b.toNat : ℕ) (a.toNat % b.toNat : ℕ)
  | .add => .signed (a.toInt + b.toInt)
  | .addu => .register (BitVec.ofNat 32 (a.toNat + b.toNat))
  | .sub => .signed (a.toInt - b.toInt)
  | .subu => .register (BitVec.ofInt 32 (a.toNat - b.toNat))
  | .and => .register (a &&& b)
  | .or => .register (a ||| b)
  | .xor => .register (a ^^^ b)
  | .nor => .register (~~~(a ||| b))
  | .slt => .bit (decide (a.toInt < b.toInt))
  | .sltu => .bit (decide (a.toNat < b.toNat))

/-- The immediate is sign-extended by the arithmetic instructions and by the
comparisons, and zero-extended by the logical ones. -/
def ImmediateOp.delivery (op : ImmediateOp) (a : BitVec 32)
    (imm : BitVec 16) : Delivery :=
  match op with
  | .addi => .signed (a.toInt + imm.toInt)
  | .addiu => .register (a + imm.signExtend 32)
  | .slti => .bit (decide (a.toInt < imm.toInt))
  | .sltiu => .bit (decide (a.toNat < (imm.signExtend 32).toNat))
  | .andi => .register (a &&& imm.setWidth 32)
  | .ori => .register (a ||| imm.setWidth 32)
  | .xori => .register (a ^^^ imm.setWidth 32)
  | .lui => .register (imm ++ 0#16)

/-- The others write `Hi` or `Lo`. -/
def RegisterOp.writesRegister : RegisterOp → Bool
  | .mthi | .mtlo | .mult | .multu | .div | .divu => false
  | _ => true

namespace IntegerInstruction

def encode : IntegerInstruction → BitVec 32
  | .register op rs rt rd shamt => 0#6 ++ rs ++ rt ++ rd ++ shamt ++ op.funct
  | .immediate op rs rt imm => op.opcode ++ rs ++ rt ++ imm

def destination : IntegerInstruction → ℕ
  | .register _ _ _ rd _ => rd.toNat
  | .immediate _ _ rt _ => rt.toNat

def writesRegister : IntegerInstruction → Bool
  | .register op _ _ _ _ => op.writesRegister
  | .immediate _ _ _ _ => true

def delivery (i : IntegerInstruction) (m : Machine) : Delivery :=
  match i with
  | .register op rs rt _ shamt =>
      op.delivery (m.readRegister rs.toNat) (m.readRegister rt.toNat) shamt
        (m.readRegister hiReg) (m.readRegister loReg)
  | .immediate op rs _ imm => op.delivery (m.readRegister rs.toNat) imm

/-- The simulator agrees: the instruction is not a logical right shift, by
one place at least, of a word with the sign bit set, nor the division of the
least number by -1. -/
def Agrees (i : IntegerInstruction) (m : Machine) : Prop :=
  match i with
  | .register .srl _ rt _ shamt =>
      shamt = 0 ∨ (m.readRegister rt.toNat).msb = false
  | .register .srlv rs rt _ _ =>
      (m.readRegister rs.toNat).toNat % 32 = 0 ∨
        (m.readRegister rt.toNat).msb = false
  | .register .div rs rt _ _ =>
      ¬(m.readRegister rs.toNat = BitVec.intMin 32 ∧
        m.readRegister rt.toNat = -1)
  | _ => True

end IntegerInstruction

/-! ## What the simulator makes of it -/

/-- The general registers, `Hi` and `Lo` are as before, apart from one. -/
def SameRegisters (m m' : Machine) (changed : ℕ → Prop) : Prop :=
  ∀ r, 0 < r → r < pcReg → ¬changed r → m'.readRegister r = m.readRegister r

/-- The outcome of an instruction on `m` is what is to be delivered. -/
def Delivers (m : Machine) (destination : ℕ) (delivery : Delivery)
    (outcome : Except Stop Machine) : Prop :=
  match delivery, outcome with
  | .register value, .ok m' =>
      m'.readRegister destination = value ∧
        SameRegisters m m' (· = destination)
  | .hi value, .ok m' =>
      m'.readRegister hiReg = value ∧ SameRegisters m m' (· = hiReg)
  | .lo value, .ok m' =>
      m'.readRegister loReg = value ∧ SameRegisters m m' (· = loReg)
  | .hiLo value, .ok m' =>
      m'.readRegister hiReg ++ m'.readRegister loReg = value ∧
        SameRegisters m m' (fun r => r = hiReg ∨ r = loReg)
  | .overflow, .error (.raised .overflow _ m') =>
      SameRegisters m m' (fun _ => False)
  | _, _ => False

/-! ## Decoding -/

theorem toNat_append {n k : ℕ} (x : BitVec n) (y : BitVec k) :
    (x ++ y).toNat = x.toNat * 2 ^ k + y.toNat := by
  rw [BitVec.toNat_append, ← Nat.shiftLeft_add_eq_or_of_lt y.isLt,
    Nat.shiftLeft_eq]

theorem toNat_and_0x1f (x : BitVec 32) : (x &&& 0x1f).toNat = x.toNat % 32 :=
  Nat.and_two_pow_sub_one_eq_mod x.toNat 5

theorem toNat_and_0x3f (x : BitVec 32) : (x &&& 0x3f).toNat = x.toNat % 64 :=
  Nat.and_two_pow_sub_one_eq_mod x.toNat 6

theorem toNat_and_0xffff (x : BitVec 32) :
    (x &&& 0xffff).toNat = x.toNat % 65536 :=
  Nat.and_two_pow_sub_one_eq_mod x.toNat 16

theorem toNat_ushiftRight (x : BitVec 32) (k : ℕ) :
    (x >>> k).toNat = x.toNat / 2 ^ k := by
  rw [BitVec.toNat_ushiftRight, Nat.shiftRight_eq_div_pow]

theorem and_0x8000_ne_zero (imm : BitVec 16) :
    imm.setWidth 32 &&& (0x8000 : BitVec 32) ≠ 0 ↔ imm.msb = true := by
  have hsplit : imm.setWidth 32 &&& (0x8000 : BitVec 32) =
      if imm.msb then 0x8000 else 0 := by
    apply BitVec.eq_of_getLsbD_eq
    intro i hi
    have hbit : (0x8000#32).getLsbD i = decide (i = 15) := by
      revert i
      decide
    rw [BitVec.msb_eq_getLsbD_last]
    simp only [BitVec.ofNat_eq_ofNat, BitVec.getLsbD_and, hbit,
      BitVec.getLsbD_setWidth]
    split <;> simp [hbit] <;> grind
  rw [hsplit]
  split
  next h => simp [h]
  next h => simp [h]

/-- `Decode` sign-extends an immediate. -/
theorem signExtend_eq (imm : BitVec 16) :
    (if imm.setWidth 32 &&& (0x8000 : BitVec 32) ≠ 0
      then imm.setWidth 32 ||| 0xffff0000
      else imm.setWidth 32) = imm.signExtend 32 := by
  have hhigh : ∀ i < 32, (0xffff0000#32).getLsbD i = decide (16 ≤ i) := by
    decide
  apply BitVec.eq_of_getLsbD_eq
  intro i hi
  simp only [and_0x8000_ne_zero]
  split
  next h =>
    simp only [BitVec.ofNat_eq_ofNat, BitVec.getLsbD_or,
      BitVec.getLsbD_setWidth, hhigh i hi, BitVec.getLsbD_signExtend, h]
    grind
  next h =>
    simp only [BitVec.getLsbD_setWidth, BitVec.getLsbD_signExtend,
      Bool.eq_false_of_not_eq_true h]
    grind

theorem signExtend_and_0xffff (imm : BitVec 16) :
    imm.signExtend 32 &&& (0xffff : BitVec 32) = imm.setWidth 32 := by
  apply BitVec.eq_of_getLsbD_eq
  intro i hi
  have hlow : (0xffff#32).getLsbD i = decide (i < 16) := by
    revert i
    decide
  simp only [BitVec.ofNat_eq_ofNat, BitVec.getLsbD_and, hlow,
    BitVec.getLsbD_setWidth, BitVec.getLsbD_signExtend]
  grind

theorem signExtend_shiftLeft (imm : BitVec 16) :
    imm.signExtend 32 <<< 16 = imm ++ 0#16 := by
  apply BitVec.eq_of_getLsbD_eq
  intro i hi
  simp only [BitVec.getLsbD_shiftLeft, BitVec.getLsbD_signExtend,
    BitVec.getLsbD_append, BitVec.getLsbD_zero]
  grind

namespace IntegerInstruction

theorem toNat_encode_register (op : RegisterOp) (rs rt rd shamt : BitVec 5) :
    (encode (.register op rs rt rd shamt)).toNat =
      (((rs.toNat * 32 + rt.toNat) * 32 + rd.toNat) * 32 + shamt.toNat) * 64 +
        op.funct.toNat := by
  simp only [encode, toNat_append]
  simp

theorem toNat_encode_immediate
    (op : ImmediateOp) (rs rt : BitVec 5) (imm : BitVec 16) :
    (encode (.immediate op rs rt imm)).toNat =
      ((op.opcode.toNat * 32 + rs.toNat) * 32 + rt.toNat) * 65536 +
        imm.toNat := by
  simp only [encode, toNat_append]
  simp

/-- The case of the `switch`. -/
def opCode : IntegerInstruction → OpCode
  | .register .sll .. => .sll
  | .register .srl .. => .srl
  | .register .sra .. => .sra
  | .register .sllv .. => .sllv
  | .register .srlv .. => .srlv
  | .register .srav .. => .srav
  | .register .mfhi .. => .mfhi
  | .register .mthi .. => .mthi
  | .register .mflo .. => .mflo
  | .register .mtlo .. => .mtlo
  | .register .mult .. => .mult
  | .register .multu .. => .multu
  | .register .div .. => .div
  | .register .divu .. => .divu
  | .register .add .. => .add
  | .register .addu .. => .addu
  | .register .sub .. => .sub
  | .register .subu .. => .subu
  | .register .and .. => .and
  | .register .or .. => .or
  | .register .xor .. => .xor
  | .register .nor .. => .nor
  | .register .slt .. => .slt
  | .register .sltu .. => .sltu
  | .immediate .addi .. => .addi
  | .immediate .addiu .. => .addiu
  | .immediate .slti .. => .slti
  | .immediate .sltiu .. => .sltiu
  | .immediate .andi .. => .andi
  | .immediate .ori .. => .ori
  | .immediate .xori .. => .xori
  | .immediate .lui .. => .lui

theorem decode_register (op : RegisterOp) (rs rt rd shamt : BitVec 5) :
    Instruction.decode (encode (.register op rs rt rd shamt)) =
      ⟨opCode (.register op rs rt rd shamt), rs.toNat, rt.toNat, rd.toNat,
        shamt.setWidth 32⟩ := by
  have hs := rs.isLt
  have ht := rt.isLt
  have hd := rd.isLt
  have ha := shamt.isLt
  have hf := op.funct.isLt
  have hword := toNat_encode_register op rs rt rd shamt
  generalize encode (.register op rs rt rd shamt) = word at hword
  have hop : ((word >>> 26) &&& 0x3f).toNat = 0 := by
    rw [toNat_and_0x3f, toNat_ushiftRight]
    omega
  have hrs : ((word >>> 21) &&& 0x1f).toNat = rs.toNat := by
    rw [toNat_and_0x1f, toNat_ushiftRight]
    omega
  have hrt : ((word >>> 16) &&& 0x1f).toNat = rt.toNat := by
    rw [toNat_and_0x1f, toNat_ushiftRight]
    omega
  have hrd : ((word >>> 11) &&& 0x1f).toNat = rd.toNat := by
    rw [toNat_and_0x1f, toNat_ushiftRight]
    omega
  have hshamt : (word >>> 6) &&& 0x1f = shamt.setWidth 32 := by
    apply BitVec.eq_of_toNat_eq
    rw [toNat_and_0x1f, toNat_ushiftRight, BitVec.toNat_setWidth]
    omega
  have hfunct : (word &&& 0x3f).toNat = op.funct.toNat := by
    rw [toNat_and_0x3f]
    omega
  have hentry : opTable.getD 0 (.res, .i) = (.special, .r) := rfl
  simp only [Instruction.decode, hop, hentry, hrs, hrt, hrd,
    Instruction.decodeOpCode, Instruction.decodeExtra, hfunct, hshamt]
  cases op <;> rfl

theorem decode_immediate
    (op : ImmediateOp) (rs rt : BitVec 5) (imm : BitVec 16) :
    ∃ rd, Instruction.decode (encode (.immediate op rs rt imm)) =
      ⟨opCode (.immediate op rs rt imm), rs.toNat, rt.toNat, rd,
        imm.signExtend 32⟩ := by
  have hs := rs.isLt
  have ht := rt.isLt
  have hi := imm.isLt
  have hf := op.opcode.isLt
  have hword := toNat_encode_immediate op rs rt imm
  generalize encode (.immediate op rs rt imm) = word at hword
  have hop : ((word >>> 26) &&& 0x3f).toNat = op.opcode.toNat := by
    rw [toNat_and_0x3f, toNat_ushiftRight]
    omega
  have hrs : ((word >>> 21) &&& 0x1f).toNat = rs.toNat := by
    rw [toNat_and_0x1f, toNat_ushiftRight]
    omega
  have hrt : ((word >>> 16) &&& 0x1f).toNat = rt.toNat := by
    rw [toNat_and_0x1f, toNat_ushiftRight]
    omega
  have himm : word &&& 0xffff = imm.setWidth 32 := by
    apply BitVec.eq_of_toNat_eq
    rw [toNat_and_0xffff, BitVec.toNat_setWidth]
    omega
  refine ⟨((word >>> 11) &&& 0x1f).toNat, ?_⟩
  have hextra : Instruction.decodeExtra word .i = imm.signExtend 32 := by
    rw [Instruction.decodeExtra, himm]
    exact signExtend_eq imm
  simp only [Instruction.decode, hop, hrs, hrt]
  rw [← hextra]
  cases op <;> rfl

/-! ## Execution -/

/-- What the `switch` delivers; `none` if the host traps. -/
def coded (i : IntegerInstruction) (m : Machine) : Option Delivery :=
  match i with
  | .register .srl _ rt _ shamt =>
      some (.register ((m.readRegister rt.toNat).sshiftRight shamt.toNat))
  | .register .srlv rs rt _ _ =>
      some (.register ((m.readRegister rt.toNat).sshiftRight
        ((m.readRegister rs.toNat).toNat % 32)))
  | .register .div rs rt _ _ =>
      if m.readRegister rs.toNat = BitVec.intMin 32 ∧
          m.readRegister rt.toNat = -1 then none
      else some (i.delivery m)
  | _ => some (i.delivery m)

end IntegerInstruction

section Delivery

open Machine

variable {m m' : Machine} {value : BitVec 32} {d : ℕ}

/-- With no load pending the end of an instruction changes the program
counters only. -/
theorem readRegister_finish
    {e : Executed} (hload : e.machine.readRegister loadReg = 0) {r : ℕ}
    (hpos : 0 < r) (hlt : r < pcReg) :
    e.finish.readRegister r = e.machine.readRegister r := by
  have hgeneral : r ≠ nextPCReg ∧ r ≠ pcReg ∧ r ≠ prevPCReg ∧ r ≠ 0 ∧
      r ≠ loadValueReg ∧ r ≠ loadReg := by
    unfold pcReg nextPCReg prevPCReg loadValueReg loadReg at *
    omega
  simp [Executed.finish, hload, hgeneral]

theorem readRegister_raised
    (hload : m.readRegister loadReg = 0) (badVAddr : BitVec 32) {r : ℕ}
    (hpos : 0 < r) (hlt : r < pcReg) :
    ((m.writeRegister badVAddrReg badVAddr).delayedLoad 0 0).readRegister r =
      m.readRegister r := by
  have hgeneral : r ≠ badVAddrReg ∧ r ≠ 0 ∧ r ≠ loadValueReg ∧ r ≠ loadReg := by
    unfold pcReg badVAddrReg loadValueReg loadReg at *
    omega
  have hpending : (m.writeRegister badVAddrReg badVAddr).readRegister loadReg =
      0 := by
    rw [readRegister_writeRegister, if_neg (by decide), hload]
  simp [hpending, hgeneral]

theorem delivers_register
    (hsame : m'.registers = m.registers) (hload : m.readRegister loadReg = 0)
    (hd : 0 < d) (hlt : d < 32) (value : BitVec 32) :
    Delivers m d (.register value)
      (.ok (m'.writeRegister d value).continues.finish) := by
  have hload' : (m'.writeRegister d value).readRegister loadReg = 0 := by
    rw [readRegister_writeRegister, if_neg (by unfold loadReg; omega), ← hload,
      readRegister, hsame, readRegister]
  constructor
  · rw [readRegister_finish hload' hd (by unfold pcReg; omega)]
    simp [continues]
  · intro r hpos hr hne
    rw [readRegister_finish hload' hpos hr]
    simp only [continues, readRegister_writeRegister, if_neg hne]
    rw [readRegister, hsame, readRegister]

/-- Two words of the same shape: what has been delivered is unique. -/
theorem Delivers.register_inj
    {value' : BitVec 32} {outcome : Except Stop Machine}
    (h : Delivers m d (.register value) outcome)
    (h' : Delivers m d (.register value') outcome) : value = value' := by
  cases outcome with
  | error stop => exact h.elim
  | ok after => exact h.1.symm.trans h'.1

theorem delivers_special
    (hsame : m'.registers = m.registers) (hload : m.readRegister loadReg = 0)
    {r : ℕ} (hr : r = hiReg ∨ r = loReg) (value : BitVec 32) :
    (m'.writeRegister r value).continues.finish.readRegister r = value ∧
      SameRegisters m (m'.writeRegister r value).continues.finish (· = r) := by
  have hload' : (m'.writeRegister r value).readRegister loadReg = 0 := by
    rw [readRegister_writeRegister,
      if_neg (by unfold loadReg hiReg loReg at *; omega), ← hload,
      readRegister, hsame, readRegister]
  constructor
  · rw [readRegister_finish hload' (by unfold hiReg loReg at hr; omega)
      (by unfold pcReg hiReg loReg at *; omega)]
    simp [continues]
  · intro q hpos hq hne
    rw [readRegister_finish hload' hpos hq]
    simp only [continues, readRegister_writeRegister, if_neg hne]
    rw [readRegister, hsame, readRegister]

theorem delivers_hiLo
    (hsame : m'.registers = m.registers) (hload : m.readRegister loadReg = 0)
    {e : Executed} (hi lo : BitVec 32)
    (he : e = ((m'.writeRegister loReg lo).writeRegister hiReg hi).continues ∨
      e = ((m'.writeRegister hiReg hi).writeRegister loReg lo).continues)
    (destination : ℕ) :
    Delivers m destination (.hiLo (hi ++ lo)) (.ok e.finish) := by
  have hregister : ∀ r, e.machine.readRegister r =
      if r = hiReg then hi else if r = loReg then lo else m.readRegister r := by
    intro r
    have hread : m'.readRegister r = m.readRegister r := congrFun hsame r
    rcases he with rfl | rfl
    · simp only [continues, readRegister_writeRegister, hread]
    · simp only [continues, readRegister_writeRegister, hread]
      by_cases hr : r = hiReg
      · rw [if_pos hr, if_pos hr, if_neg (by rw [hr]; decide)]
      · rw [if_neg hr, if_neg hr]
  have hload' : e.machine.readRegister loadReg = 0 := by
    rw [hregister, if_neg (by decide), if_neg (by decide), hload]
  constructor
  · rw [readRegister_finish hload' (by decide) (by decide),
      readRegister_finish hload' (by decide) (by decide), hregister, hregister,
      if_pos rfl, if_neg (by decide), if_pos rfl]
  · intro r hpos hr hne
    rw [not_or] at hne
    rw [readRegister_finish hload' hpos hr, hregister, if_neg hne.1,
      if_neg hne.2]

theorem delivers_overflow
    (hsame : m'.registers = m.registers) (hload : m.readRegister loadReg = 0)
    (destination : ℕ) :
    Delivers m destination .overflow (m'.raiseException .overflow 0) := by
  intro r hpos hr _
  have hload' : m'.readRegister loadReg = 0 := by
    rw [← hload, readRegister, hsame, readRegister]
  rw [readRegister_raised hload' 0 hpos hr, readRegister, hsame, readRegister]

end Delivery

/-! ## Arithmetic -/

theorem and_signBit_eq_zero (x : BitVec 32) :
    x &&& signBit = 0 ↔ x.msb = false := by
  have hmask := and_signMask_ne_zero x
  have hmsb : x.msb = decide (2 ^ 31 ≤ x.toNat) := BitVec.msb_eq_decide x
  rw [hmsb, decide_eq_false_iff_not, ← hmask, not_not]
  rfl

/-- The test of `ADD` and `ADDI`. -/
theorem add_overflows_iff (a b : BitVec 32) :
    ((a ^^^ b) &&& signBit = 0 ∧ (a ^^^ (a + b)) &&& signBit ≠ 0) ↔
      ¬(-2 ^ 31 ≤ a.toInt + b.toInt ∧ a.toInt + b.toInt < 2 ^ 31) := by
  have hrange : a.saddOverflow b = true ↔
      ¬(-2 ^ 31 ≤ a.toInt + b.toInt ∧ a.toInt + b.toInt < 2 ^ 31) := by
    simp [BitVec.saddOverflow]
    omega
  rw [← hrange, BitVec.saddOverflow_eq, and_signBit_eq_zero, ne_eq,
    and_signBit_eq_zero, BitVec.msb_xor, BitVec.msb_xor]
  cases a.msb <;> cases b.msb <;> cases (a + b).msb <;> simp

theorem addi_overflows_iff (a b : BitVec 32) :
    ((a ^^^ b) &&& signBit = 0 ∧ (b ^^^ (a + b)) &&& signBit ≠ 0) ↔
      ¬(-2 ^ 31 ≤ a.toInt + b.toInt ∧ a.toInt + b.toInt < 2 ^ 31) := by
  rw [BitVec.xor_comm a b, BitVec.add_comm a b, Int.add_comm]
  exact add_overflows_iff b a

theorem sub_overflows_iff (a b : BitVec 32) :
    ((a ^^^ b) &&& signBit ≠ 0 ∧ (a ^^^ (a - b)) &&& signBit ≠ 0) ↔
      ¬(-2 ^ 31 ≤ a.toInt - b.toInt ∧ a.toInt - b.toInt < 2 ^ 31) := by
  have hrange : a.ssubOverflow b = true ↔
      ¬(-2 ^ 31 ≤ a.toInt - b.toInt ∧ a.toInt - b.toInt < 2 ^ 31) := by
    simp [BitVec.ssubOverflow]
    omega
  rw [← hrange, BitVec.ssubOverflow_eq, ne_eq, and_signBit_eq_zero, ne_eq,
    and_signBit_eq_zero, BitVec.msb_xor, BitVec.msb_xor]
  cases a.msb <;> cases b.msb <;> cases (a - b).msb <;> simp

theorem sdiv_eq_ofInt (a b : BitVec 32) :
    a.sdiv b = BitVec.ofInt 32 (a.toInt.tdiv b.toInt) := by
  apply BitVec.eq_of_toInt_eq
  rw [BitVec.toInt_sdiv, BitVec.toInt_ofInt]

theorem srem_eq_ofInt (a b : BitVec 32) :
    a.srem b = BitVec.ofInt 32 (a.toInt.tmod b.toInt) := by
  rw [← BitVec.toInt_srem, BitVec.ofInt_toInt]

theorem udiv_eq_ofInt (a b : BitVec 32) :
    a / b = BitVec.ofInt 32 (a.toNat / b.toNat : ℕ) := by
  rw [BitVec.ofInt_natCast, ← BitVec.toNat_udiv, BitVec.ofNat_toNat,
    BitVec.setWidth_eq]

theorem umod_eq_ofInt (a b : BitVec 32) :
    a % b = BitVec.ofInt 32 (a.toNat % b.toNat : ℕ) := by
  rw [BitVec.ofInt_natCast, ← BitVec.toNat_umod, BitVec.ofNat_toNat,
    BitVec.setWidth_eq]

theorem add_eq_ofInt (a b : BitVec 32) :
    a + b = BitVec.ofInt 32 (a.toInt + b.toInt) := by
  rw [BitVec.ofInt_add, BitVec.ofInt_toInt, BitVec.ofInt_toInt]

theorem sub_eq_ofInt (a b : BitVec 32) :
    a - b = BitVec.ofInt 32 (a.toInt - b.toInt) := by
  apply BitVec.eq_of_toInt_eq
  rw [BitVec.toInt_sub, BitVec.toInt_ofInt]

theorem sub_eq_ofInt_toNat (a b : BitVec 32) :
    a - b = BitVec.ofInt 32 (a.toNat - b.toNat) := by
  apply BitVec.eq_of_toNat_eq
  rw [BitVec.toNat_sub, BitVec.toNat_ofInt]
  omega

/-! ## The cases of the `switch` -/

section Cases

open Machine

variable {m m' : Machine} {instr : Instruction} {d : ℕ}

/-- An instruction that has been fetched and decoded. -/
def Machine.outcome (m : Machine) (instr : Instruction) :
    Except Stop Machine := do
  let e ← m.execute instr
  return e.finish

theorem delivers_of_writes
    (hsame : m'.registers = m.registers) (hload : m.readRegister loadReg = 0)
    (hd : 0 < d) (hlt : d < 32) {value delivered : BitVec 32}
    (hexecute : m'.execute instr = .ok (m'.writeRegister d value).continues)
    (hvalue : value = delivered) :
    Delivers m d (.register delivered) (m'.outcome instr) := by
  rw [Machine.outcome, hexecute, ← hvalue]
  exact delivers_register hsame hload hd hlt value

theorem delivers_signed
    (hsame : m'.registers = m.registers) (hload : m.readRegister loadReg = 0)
    (hd : 0 < d) (hlt : d < 32) {value : BitVec 32} {x : ℤ}
    {overflows : Prop} [Decidable overflows]
    (hexecute : m'.execute instr =
      if overflows then m'.raiseException .overflow 0
      else .ok (m'.writeRegister d value).continues)
    (hoverflows : overflows ↔ ¬(-2 ^ 31 ≤ x ∧ x < 2 ^ 31))
    (hvalue : value = BitVec.ofInt 32 x) :
    Delivers m d (.signed x) (m'.outcome instr) := by
  rw [Machine.outcome, hexecute, Delivery.signed, ← hvalue]
  by_cases hfits : -2 ^ 31 ≤ x ∧ x < 2 ^ 31
  · rw [if_pos hfits, if_neg (by rw [hoverflows]; exact not_not.mpr hfits)]
    exact delivers_register hsame hload hd hlt value
  · rw [if_neg hfits, if_pos (hoverflows.mpr hfits)]
    exact delivers_overflow hsame hload d

theorem ite_eq_bit {p q : Prop} [Decidable p] [Decidable q] (h : p ↔ q) :
    (if p then (1 : BitVec 32) else 0) = if decide q = true then 1 else 0 := by
  simp [h]

/-- Division by something other than zero. -/
theorem delivers_division
    (hsame : m'.registers = m.registers) (hload : m.readRegister loadReg = 0)
    {quotient remainder : BitVec 32} {q r : ℤ}
    (hexecute : m'.execute instr = .ok ((m'.writeRegister loReg
      quotient).writeRegister hiReg remainder).continues)
    (hquotient : quotient = BitVec.ofInt 32 q)
    (hremainder : remainder = BitVec.ofInt 32 r) :
    Delivers m d (.division q r) (m'.outcome instr) := by
  rw [Machine.outcome, hexecute, Delivery.division, ← hquotient, ← hremainder]
  exact delivers_hiLo hsame hload _ _ (.inl rfl) d

/-- What the `switch` does for a register instruction. -/
theorem delivers_coded_register
    (hsame : m'.registers = m.registers) (hload : m.readRegister loadReg = 0)
    (op : RegisterOp) (rs rt rd shamt : BitVec 5)
    (hd : op.writesRegister = true → 0 < rd.toNat)
    (hinstr : instr = ⟨(IntegerInstruction.register op rs rt rd shamt).opCode,
      rs.toNat, rt.toNat, rd.toNat, shamt.setWidth 32⟩) :
    match (IntegerInstruction.register op rs rt rd shamt).coded m with
    | some delivery => Delivers m rd.toNat delivery (m'.outcome instr)
    | none => m'.outcome instr = .error (.fault .undefinedBehaviour) := by
  have hread : m'.readRegister = m.readRegister := hsame
  have hlt := rd.isLt
  have hshamt : (shamt.setWidth 32).toNat = shamt.toNat := by
    have hshort := shamt.isLt
    rw [BitVec.toNat_setWidth, Nat.mod_eq_of_lt (by omega)]
  subst hinstr
  cases op with
  | sll =>
      exact delivers_of_writes hsame hload (hd rfl) hlt rfl
        (by rw [hread, hshamt])
  | srl =>
      exact delivers_of_writes hsame hload (hd rfl) hlt rfl
        (by rw [hread, hshamt])
  | sra =>
      exact delivers_of_writes hsame hload (hd rfl) hlt rfl
        (by rw [hread, hshamt])
  | sllv =>
      exact delivers_of_writes hsame hload (hd rfl) hlt rfl
        (by rw [hread, toNat_and_0x1f])
  | srlv =>
      exact delivers_of_writes hsame hload (hd rfl) hlt rfl
        (by rw [hread, toNat_and_0x1f])
  | srav =>
      exact delivers_of_writes hsame hload (hd rfl) hlt rfl
        (by rw [hread, toNat_and_0x1f])
  | mfhi =>
      exact delivers_of_writes hsame hload (hd rfl) hlt rfl (by rw [hread])
  | mflo =>
      exact delivers_of_writes hsame hload (hd rfl) hlt rfl (by rw [hread])
  | mthi =>
      show Delivers m rd.toNat (.hi (m.readRegister rs.toNat))
        (.ok (m'.writeRegister hiReg
          (m'.readRegister rs.toNat)).continues.finish)
      rw [hread]
      exact delivers_special hsame hload (.inl rfl) _
  | mtlo =>
      show Delivers m rd.toNat (.lo (m.readRegister rs.toNat))
        (.ok (m'.writeRegister loReg
          (m'.readRegister rs.toNat)).continues.finish)
      rw [hread]
      exact delivers_special hsame hload (.inr rfl) _
  | mult =>
      show Delivers m rd.toNat (.hiLo (BitVec.ofInt 64
        ((m.readRegister rs.toNat).toInt * (m.readRegister rt.toNat).toInt))) _
      rw [← mult_true]
      exact delivers_hiLo hsame hload _ _ (.inr (by rw [← hread])) _
  | multu =>
      show Delivers m rd.toNat (.hiLo (BitVec.ofNat 64
        ((m.readRegister rs.toNat).toNat * (m.readRegister rt.toNat).toNat))) _
      rw [← mult_false]
      exact delivers_hiLo hsame hload _ _ (.inr (by rw [← hread])) _
  | div =>
      simp only [IntegerInstruction.coded, IntegerInstruction.delivery,
        RegisterOp.delivery]
      by_cases hzero : m.readRegister rt.toNat = 0
      · rw [if_neg (by rw [hzero]; simp), if_pos hzero]
        refine delivers_division hsame hload ?_ rfl rfl
        simp only [execute, IntegerInstruction.opCode, hread, if_pos hzero]
        rfl
      · by_cases htraps : m.readRegister rs.toNat = BitVec.intMin 32 ∧
            m.readRegister rt.toNat = -1
        · have htraps' : m.readRegister rs.toNat = signBit ∧
              m.readRegister rt.toNat = -1 := htraps
          rw [if_pos htraps]
          simp only [Machine.outcome, execute, IntegerInstruction.opCode,
            hread, if_neg hzero]
          rw [if_pos htraps']
          rfl
        · have htraps' : ¬(m.readRegister rs.toNat = signBit ∧
              m.readRegister rt.toNat = -1) := htraps
          rw [if_neg htraps, if_neg hzero]
          refine delivers_division hsame hload ?_
            (sdiv_eq_ofInt _ _) (srem_eq_ofInt _ _)
          simp only [execute, IntegerInstruction.opCode, hread, if_neg hzero]
          rw [if_neg htraps']
  | divu =>
      simp only [IntegerInstruction.coded, IntegerInstruction.delivery,
        RegisterOp.delivery]
      by_cases hzero : m.readRegister rt.toNat = 0
      · rw [if_pos hzero]
        refine delivers_division hsame hload ?_ rfl rfl
        simp only [execute, IntegerInstruction.opCode, hread, if_pos hzero]
        rfl
      · rw [if_neg hzero]
        refine delivers_division hsame hload ?_
          (udiv_eq_ofInt _ _) (umod_eq_ofInt _ _)
        simp only [execute, IntegerInstruction.opCode, hread, if_neg hzero]
  | add =>
      exact delivers_signed hsame hload (hd rfl) hlt rfl
        (by rw [hread]; exact add_overflows_iff _ _)
        (by rw [hread]; exact add_eq_ofInt _ _)
  | addu =>
      exact delivers_of_writes hsame hload (hd rfl) hlt rfl
        (by rw [hread, BitVec.ofNat_add]; simp)
  | sub =>
      exact delivers_signed hsame hload (hd rfl) hlt rfl
        (by rw [hread]; exact sub_overflows_iff _ _)
        (by rw [hread]; exact sub_eq_ofInt _ _)
  | subu =>
      exact delivers_of_writes hsame hload (hd rfl) hlt rfl
        (by rw [hread]; exact sub_eq_ofInt_toNat _ _)
  | and =>
      exact delivers_of_writes hsame hload (hd rfl) hlt rfl (by rw [hread])
  | or =>
      exact delivers_of_writes hsame hload (hd rfl) hlt rfl (by rw [hread])
  | xor =>
      exact delivers_of_writes hsame hload (hd rfl) hlt rfl (by rw [hread])
  | nor =>
      exact delivers_of_writes hsame hload (hd rfl) hlt rfl (by rw [hread])
  | slt =>
      exact delivers_of_writes hsame hload (hd rfl) hlt rfl
        (by rw [hread]; rfl)
  | sltu =>
      exact delivers_of_writes hsame hload (hd rfl) hlt rfl
        (by rw [hread]; exact ite_eq_bit BitVec.lt_def)

theorem delivers_coded_immediate
    (hsame : m'.registers = m.registers) (hload : m.readRegister loadReg = 0)
    (op : ImmediateOp) (rs rt : BitVec 5) (imm : BitVec 16)
    (hd : 0 < rt.toNat) {rd : ℕ}
    (hinstr : instr = ⟨(IntegerInstruction.immediate op rs rt imm).opCode,
      rs.toNat, rt.toNat, rd, imm.signExtend 32⟩) :
    Delivers m rt.toNat ((IntegerInstruction.immediate op rs rt imm).delivery m)
      (m'.outcome instr) := by
  have hread : m'.readRegister = m.readRegister := hsame
  have hlt := rt.isLt
  have hsigned : (imm.signExtend 32).toInt = imm.toInt :=
    BitVec.toInt_signExtend_of_le (by decide)
  subst hinstr
  cases op with
  | addi =>
      exact delivers_signed hsame hload hd hlt rfl
        (by rw [hread, ← hsigned]; exact addi_overflows_iff _ _)
        (by rw [hread, ← hsigned]; exact add_eq_ofInt _ _)
  | addiu =>
      exact delivers_of_writes hsame hload hd hlt rfl (by rw [hread])
  | slti =>
      exact delivers_of_writes hsame hload hd hlt rfl
        (by rw [hread, ← hsigned]; rfl)
  | sltiu =>
      exact delivers_of_writes hsame hload hd hlt rfl
        (by rw [hread]; exact ite_eq_bit BitVec.lt_def)
  | andi =>
      exact delivers_of_writes hsame hload hd hlt rfl
        (by rw [hread, signExtend_and_0xffff])
  | ori =>
      exact delivers_of_writes hsame hload hd hlt rfl
        (by rw [hread, signExtend_and_0xffff])
  | xori =>
      exact delivers_of_writes hsame hload hd hlt rfl
        (by rw [hread, signExtend_and_0xffff])
  | lui =>
      exact delivers_of_writes hsame hload hd hlt rfl
        (signExtend_shiftLeft imm)

end Cases

/-! ## The instruction as a whole -/

section Whole

open Machine

variable {m m' : Machine}

theorem oneInstruction_of_fetched
    {word : BitVec 32}
    (hfetch : m.readMemory (m.readRegister pcReg) 4 = .ok (word, m')) :
    m.oneInstruction = m'.outcome (Instruction.decode word) := by
  rw [oneInstruction, hfetch]
  rfl

theorem delivers_coded
    (i : IntegerInstruction)
    (hfetch : m.readMemory (m.readRegister pcReg) 4 = .ok (i.encode, m'))
    (hload : m.readRegister loadReg = 0)
    (hd : i.writesRegister = true → 0 < i.destination) :
    match i.coded m with
    | some delivery => Delivers m i.destination delivery m.oneInstruction
    | none => m.oneInstruction = .error (.fault .undefinedBehaviour) := by
  have hsame := registers_of_readMemory hfetch
  rw [oneInstruction_of_fetched hfetch]
  cases i with
  | register op rs rt rd shamt =>
      rw [IntegerInstruction.decode_register]
      exact delivers_coded_register hsame hload op rs rt rd shamt hd rfl
  | immediate op rs rt imm =>
      obtain ⟨rd, hdecode⟩ :=
        IntegerInstruction.decode_immediate op rs rt imm
      rw [hdecode]
      exact delivers_coded_immediate hsame hload op rs rt imm (hd rfl) rfl

theorem coded_of_agrees
    {i : IntegerInstruction} (hagrees : i.Agrees m) :
    i.coded m = some (i.delivery m) := by
  cases i with
  | immediate op rs rt imm => rfl
  | register op rs rt rd shamt =>
      cases op with
      | srl =>
          simp only [IntegerInstruction.coded, IntegerInstruction.delivery,
            RegisterOp.delivery]
          rcases hagrees with rfl | hmsb
          · simp
          · rw [BitVec.sshiftRight_eq_of_msb_false hmsb]
      | srlv =>
          simp only [IntegerInstruction.coded, IntegerInstruction.delivery,
            RegisterOp.delivery]
          rcases hagrees with hzero | hmsb
          · rw [hzero]
            simp
          · rw [BitVec.sshiftRight_eq_of_msb_false hmsb]
      | div =>
          simp only [IntegerInstruction.coded]
          exact if_neg hagrees
      | _ => rfl

theorem sshiftRight_ne_ushiftRight
    {x : BitVec 32} {k : ℕ} (hmsb : x.msb = true) (hk : k ≠ 0) :
    x.sshiftRight k ≠ x >>> k := by
  intro heq
  have hleft : (x.sshiftRight k).msb = true := by
    rw [BitVec.msb_sshiftRight, hmsb]
  have hright : (x >>> k).msb = false := by
    rw [BitVec.msb_ushiftRight]
    simp [hk]
  rw [heq, hright] at hleft
  cases hleft

/-- Elsewhere the host traps, or the word is not the one that is due. -/
theorem coded_of_not_agrees
    {i : IntegerInstruction} (hagrees : ¬i.Agrees m) :
    i.coded m = none ∨ ∃ value due, i.coded m = some (.register value) ∧
      i.delivery m = .register due ∧ value ≠ due := by
  cases i with
  | immediate op rs rt imm => exact (hagrees trivial).elim
  | register op rs rt rd shamt =>
      cases op with
      | srl =>
          obtain ⟨hshamt, hmsb⟩ := not_or.mp hagrees
          have hk : shamt.toNat ≠ 0 := by
            intro hzero
            apply hshamt
            exact BitVec.eq_of_toNat_eq hzero
          exact .inr ⟨_, _, rfl, rfl, sshiftRight_ne_ushiftRight
            (by simpa using hmsb) hk⟩
      | srlv =>
          obtain ⟨hk, hmsb⟩ := not_or.mp hagrees
          exact .inr ⟨_, _, rfl, rfl, sshiftRight_ne_ushiftRight
            (by simpa using hmsb) hk⟩
      | div =>
          refine .inl ?_
          simp only [IntegerInstruction.coded]
          exact if_pos (not_not.mp hagrees)
      | _ => exact (hagrees trivial).elim

theorem not_delivers_fault
    {d : ℕ} {fault : Fault} (delivery : Delivery) :
    ¬Delivers m d delivery (.error (.fault fault)) := by
  cases delivery <;> exact id

/-- An integer instruction delivers what the architecture says exactly when
it is not one of the two that go wrong: a logical right shift of a word with
the sign bit set, and the division of the least number by -1. -/
theorem oneInstruction_delivers_iff
    (i : IntegerInstruction)
    (hfetch : m.readMemory (m.readRegister pcReg) 4 = .ok (i.encode, m'))
    (hload : m.readRegister loadReg = 0)
    (hd : i.writesRegister = true → 0 < i.destination) :
    Delivers m i.destination (i.delivery m) m.oneInstruction ↔
      i.Agrees m := by
  have hcoded := delivers_coded i hfetch hload hd
  constructor
  · intro hdelivers
    by_contra hagrees
    rcases coded_of_not_agrees hagrees with
      hnone | ⟨value, due, hvalue, hdue, hne⟩
    · rw [hnone] at hcoded
      rw [hcoded] at hdelivers
      exact not_delivers_fault _ hdelivers
    · rw [hvalue] at hcoded
      rw [hdue] at hdelivers
      exact hne (hcoded.register_inj hdelivers)
  · intro hagrees
    rw [coded_of_agrees hagrees] at hcoded
    exact hcoded

/-- One page, with an instruction at its start, and two registers. -/
def holding (i : IntegerInstruction) (a b : BitVec 32) : Machine where
  registers r := if r = 8 then a else if r = 9 then b else 0
  mainMemory p := valueByte i.encode p
  pageTableMap := ⟨0, [], rfl⟩
  pageTable := some [⟨0, 0, true, false, false, false⟩]
  pageTableSize := 1

theorem fetch_holding (i : IntegerInstruction) (a b : BitVec 32) :
    ∃ m', (holding i a b).readMemory
      ((holding i a b).readRegister pcReg) 4 = .ok (i.encode, m') := by
  have htable : (holding i a b).HasTable := ⟨_, rfl, le_rfl⟩
  rcases readMemory_cases htable (.inr (.inr rfl)) 0 with
    ⟨exception, -, hnone⟩ | ⟨paddr, m', value, hread, -, hphys, hload, -, hmem, -⟩
  · cases hnone rfl
  · cases hphys
    rw [load_eq (.inr (.inr rfl)) i.encode
      (fun k _ => by rw [hmem]; simp [holding])] at hload
    cases hload
    exact ⟨m', hread⟩

/-- `addi $10, $8, -1` and `sub $10, $8, $9`. -/
theorem oneInstruction_delivers_addi_sub :
    Delivers (holding (.immediate .addi 8 10 (-1)) 7 0) 10 (.register 6)
        (holding (.immediate .addi 8 10 (-1)) 7 0).oneInstruction ∧
      Delivers (holding (.register .sub 8 9 10 0) (BitVec.intMin 32) 1) 10
        .overflow
        (holding (.register .sub 8 9 10 0) (BitVec.intMin 32)
          1).oneInstruction := by
  obtain ⟨m, hm⟩ := fetch_holding (.immediate .addi 8 10 (-1)) 7 0
  obtain ⟨m', hm'⟩ :=
    fetch_holding (.register .sub 8 9 10 0) (BitVec.intMin 32) 1
  exact ⟨(oneInstruction_delivers_iff _ hm rfl (fun _ => by decide)).mpr
      trivial,
    (oneInstruction_delivers_iff _ hm' rfl (fun _ => by decide)).mpr
      trivial⟩

/-- `srl $10, $9, 1` copies the sign of the least number, and
`div $8, $9` of it by -1 traps. -/
theorem oneInstruction_srl_div :
    ¬Delivers (holding (.register .srl 0 9 10 1) 0 (BitVec.intMin 32)) 10
        (.register 0x40000000)
        (holding (.register .srl 0 9 10 1) 0
          (BitVec.intMin 32)).oneInstruction ∧
      (holding (.register .div 8 9 0 0) (BitVec.intMin 32)
        (-1)).oneInstruction = .error (.fault .undefinedBehaviour) := by
  obtain ⟨m, hm⟩ :=
    fetch_holding (.register .srl 0 9 10 1) 0 (BitVec.intMin 32)
  obtain ⟨m', hm'⟩ :=
    fetch_holding (.register .div 8 9 0 0) (BitVec.intMin 32) (-1)
  constructor
  · intro hdelivers
    have hcoded := delivers_coded _ hm rfl (fun _ => by decide)
    have heq := Delivers.register_inj hcoded hdelivers
    revert heq
    decide
  · exact delivers_coded _ hm' rfl nofun

end Whole

end Nachos
