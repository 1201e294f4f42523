import Nachos.MemoryAccess

/-!
# The MIPS simulator: `machine/mipssim.cc` and `machine/mipssim.h`

One instruction is fetched, decoded and executed; the build has `SIM_FIX`.
`int` and `unsigned` are words: additions wrap around, `>>` on an `int` copies
the sign, and the division that overflows is one that the host does not
survive.
-/

namespace Nachos

/-! ## Decoding -/

/-- The values of `opCode`. -/
inductive OpCode
  | add | addi | addiu | addu | and | andi | beq | bgez | bgezal | bgtz
  | blez | bltz | bltzal | bne | div | divu | j | jal | jalr | jr
  | lb | lbu | lh | lhu | lui | lw | lwl | lwr | mfhi | mflo
  | mthi | mtlo | mult | multu | nor | or | ori | rfe | sb | sh
  | sll | sllv | slt | slti | sltiu | sltu | sra | srav | srl | srlv
  | sub | subu | sw | swl | swr | xor | xori | syscall | unimp | res
  | special | bcond
  deriving DecidableEq

/-- `IFMT`, `JFMT` and `RFMT`. -/
inductive Format
  | i
  | j
  | r
  deriving DecidableEq

/-- `opTable`. -/
def opTable : List (OpCode × Format) :=
  [(.special, .r), (.bcond, .i), (.j, .j), (.jal, .j),
    (.beq, .i), (.bne, .i), (.blez, .i), (.bgtz, .i),
    (.addi, .i), (.addiu, .i), (.slti, .i), (.sltiu, .i),
    (.andi, .i), (.ori, .i), (.xori, .i), (.lui, .i),
    (.unimp, .i), (.unimp, .i), (.unimp, .i), (.unimp, .i),
    (.res, .i), (.res, .i), (.res, .i), (.res, .i),
    (.res, .i), (.res, .i), (.res, .i), (.res, .i),
    (.res, .i), (.res, .i), (.res, .i), (.res, .i),
    (.lb, .i), (.lh, .i), (.lwl, .i), (.lw, .i),
    (.lbu, .i), (.lhu, .i), (.lwr, .i), (.res, .i),
    (.sb, .i), (.sh, .i), (.swl, .i), (.sw, .i),
    (.res, .i), (.res, .i), (.swr, .i), (.res, .i),
    (.unimp, .i), (.unimp, .i), (.unimp, .i), (.unimp, .i),
    (.res, .i), (.res, .i), (.res, .i), (.res, .i),
    (.unimp, .i), (.unimp, .i), (.unimp, .i), (.unimp, .i),
    (.res, .i), (.res, .i), (.res, .i), (.res, .i)]

/-- `specialTable`. -/
def specialTable : List OpCode :=
  [.sll, .res, .srl, .sra, .sllv, .res, .srlv, .srav,
    .jr, .jalr, .res, .res, .syscall, .unimp, .res, .res,
    .mfhi, .mthi, .mflo, .mtlo, .res, .res, .res, .res,
    .mult, .multu, .div, .divu, .res, .res, .res, .res,
    .add, .addu, .sub, .subu, .and, .or, .xor, .nor,
    .res, .res, .slt, .sltu, .res, .res, .res, .res,
    .res, .res, .res, .res, .res, .res, .res, .res,
    .res, .res, .res, .res, .res, .res, .res, .res]

structure Instruction where
  opCode : OpCode
  rs : ℕ
  rt : ℕ
  rd : ℕ
  extra : BitVec 32
  deriving DecidableEq

namespace Instruction

/-- The `extra` of an instruction of a format. -/
def decodeExtra (value : BitVec 32) : Format → BitVec 32
  | .i =>
      let extra := value &&& 0xffff
      if extra &&& 0x8000 ≠ 0 then extra ||| 0xffff0000 else extra
  | .r => (value >>> 6) &&& 0x1f
  | .j => value &&& 0x3ffffff

/-- The opcode behind an entry of `opTable`. -/
def decodeOpCode (value : BitVec 32) : OpCode → OpCode
  | .special => specialTable.getD (value &&& 0x3f).toNat .res
  | .bcond =>
      let i := value &&& 0x1f0000
      if i = 0 then .bltz
      else if i = 0x10000 then .bgez
      else if i = 0x100000 then .bltzal
      else if i = 0x110000 then .bgezal
      else .unimp
  | opCode => opCode

/-- `Instruction::Decode`. -/
def decode (value : BitVec 32) : Instruction :=
  let opPtr := opTable.getD ((value >>> 26) &&& 0x3f).toNat (.res, .i)
  { opCode := decodeOpCode value opPtr.1
    rs := ((value >>> 21) &&& 0x1f).toNat
    rt := ((value >>> 16) &&& 0x1f).toNat
    rd := ((value >>> 11) &&& 0x1f).toNat
    extra := decodeExtra value opPtr.2 }

end Instruction

/-! ## Multiplication -/

/-- The local variables of `Mult`. -/
structure Multiplication where
  a : BitVec 32
  bLo : BitVec 32
  bHi : BitVec 32
  lo : BitVec 32
  hi : BitVec 32

namespace Multiplication

/-- `lo += bLo`, with the carry, and `hi += bHi`. -/
def addStep (s : Multiplication) : Multiplication :=
  let lo := s.lo + s.bLo
  let hi := if lo < s.bLo then s.hi + 1 else s.hi
  { s with lo := lo, hi := hi + s.bHi }

/-- The shifts at the end of a round. -/
def shiftStep (s : Multiplication) : Multiplication :=
  let bHi := s.bHi <<< 1
  { s with
    a := s.a.sshiftRight 1
    bHi := if s.bLo &&& 0x80000000 ≠ 0 then bHi ||| 1 else bHi
    bLo := s.bLo <<< 1 }

/-- The loop of `Mult` over the rounds that are left. -/
def rounds : ℕ → Multiplication → Multiplication
  | 0, s => s
  | i + 1, s =>
      if s.a &&& 1 ≠ 0 then
        if s.a &&& 0xfffffffe = 0 then s.addStep
        else rounds i s.addStep.shiftStep
      else rounds i s.shiftStep

end Multiplication

/-- The two's complement of the double word `hi`, `lo`. -/
def negateDouble (hi lo : BitVec 32) : BitVec 32 × BitVec 32 :=
  let lo := ~~~lo + 1
  (if lo = 0 then ~~~hi + 1 else ~~~hi, lo)

/-- `Mult`: the words at `hiPtr` and at `loPtr`. -/
def mult (a b : BitVec 32) (signedArith : Bool) : BitVec 32 × BitVec 32 :=
  if a = 0 ∨ b = 0 then (0, 0)
  else
    let negative := signedArith && (a.slt 0 != b.slt 0)
    let a := if signedArith && a.slt 0 then -a else a
    let b := if signedArith && b.slt 0 then -b else b
    let s := Multiplication.rounds 32 ⟨a, b, 0, 0, 0⟩
    if negative then negateDouble s.hi s.lo else (s.hi, s.lo)

/-! ## Execution -/

/-- `SIGN_BIT`. -/
def signBit : BitVec 32 := 0x80000000

/-- `R31`. -/
def r31 : ℕ := 31

/-- `IndexToAddr`. -/
def indexToAddr (x : BitVec 32) : BitVec 32 :=
  x <<< 2

/-- The machine and the local variables behind the `switch`. -/
structure Executed where
  machine : Machine
  pcAfter : BitVec 32
  nextLoadReg : BitVec 32
  nextLoadValue : BitVec 32

namespace Machine

/-- A `break` with the local variables as they are initialised. -/
def continues (m : Machine) : Executed :=
  ⟨m, m.readRegister nextPCReg + 4, 0, 0⟩

/-- A `break` behind an assignment to `pcAfter`. -/
def jumps (m : Machine) (pcAfter : BitVec 32) : Executed :=
  ⟨m, pcAfter, 0, 0⟩

/-- A branch, with its condition. -/
def branches (m : Machine) (taken : Bool) (extra : BitVec 32) : Executed :=
  if taken then m.jumps (m.readRegister nextPCReg + indexToAddr extra)
  else m.continues

/-- A `break` behind assignments to `nextLoadReg` and `nextLoadValue`. -/
def loads (m : Machine) (reg : ℕ) (value : BitVec 32) : Executed :=
  { m.continues with
    nextLoadReg := BitVec.ofNat 32 reg, nextLoadValue := value }

/-- What `LWL` and `LWR` merge the word in memory with. -/
def mergedWith (m : Machine) (rt : ℕ) : BitVec 32 :=
  if (m.readRegister loadReg).toNat = rt then m.readRegister loadValueReg
  else m.readRegister rt

/-- The `switch` of `LWL`. -/
def mergeLeft (old value : BitVec 32) : ℕ → BitVec 32
  | 0 => value
  | 1 => (old &&& 0xff) ||| (value <<< 8)
  | 2 => (old &&& 0xffff) ||| (value <<< 16)
  | _ => (old &&& 0xffffff) ||| (value <<< 24)

/-- The `switch` of `LWR`. -/
def mergeRight (old value : BitVec 32) : ℕ → BitVec 32
  | 0 => (old &&& 0xffffff00) ||| (value.sshiftRight 24 &&& 0xff)
  | 1 => (old &&& 0xffff0000) ||| (value.sshiftRight 16 &&& 0xffff)
  | 2 => (old &&& 0xff000000) ||| (value.sshiftRight 8 &&& 0xffffff)
  | _ => value

/-- The `switch` of `SWL`. -/
def storeLeft (register value : BitVec 32) : ℕ → BitVec 32
  | 0 => register
  | 1 => (value &&& 0xff000000) ||| (register.sshiftRight 8 &&& 0xffffff)
  | 2 => (value &&& 0xffff0000) ||| (register.sshiftRight 16 &&& 0xffff)
  | _ => (value &&& 0xffffff00) ||| (register.sshiftRight 24 &&& 0xff)

/-- The `switch` of `SWR`. -/
def storeRight (register value : BitVec 32) : ℕ → BitVec 32
  | 0 => (value &&& 0xffffff) ||| (register <<< 24)
  | 1 => (value &&& 0xffff) ||| (register <<< 16)
  | 2 => (value &&& 0xff) ||| (register <<< 8)
  | _ => register

/-- The `switch` of `Machine::OneInstruction`. -/
def execute (m : Machine) (instr : Instruction) : Except Stop Executed :=
  let rs := m.readRegister instr.rs
  let rt := m.readRegister instr.rt
  let extra := instr.extra
  let toRd := fun value => Except.ok (m.writeRegister instr.rd value).continues
  let toRt := fun value => Except.ok (m.writeRegister instr.rt value).continues
  let linked := m.writeRegister r31 (m.readRegister nextPCReg + 4)
  match instr.opCode with
  | .add =>
      let sum := rs + rt
      if (rs ^^^ rt) &&& signBit = 0 ∧ (rs ^^^ sum) &&& signBit ≠ 0 then
        m.raiseException .overflow 0
      else toRd sum
  | .addi =>
      let sum := rs + extra
      if (rs ^^^ extra) &&& signBit = 0 ∧
          (extra ^^^ sum) &&& signBit ≠ 0 then
        m.raiseException .overflow 0
      else toRt sum
  | .addiu => toRt (rs + extra)
  | .addu => toRd (rs + rt)
  | .and => toRd (rs &&& rt)
  | .andi => toRt (rs &&& (extra &&& 0xffff))
  | .beq => .ok (m.branches (rs == rt) extra)
  | .bgezal =>
      .ok (linked.branches
        (linked.readRegister instr.rs &&& signBit == 0) extra)
  | .bgez => .ok (m.branches (rs &&& signBit == 0) extra)
  | .bgtz => .ok (m.branches (BitVec.slt 0 rs) extra)
  | .blez => .ok (m.branches (rs.sle 0) extra)
  | .bltzal =>
      .ok (linked.branches
        (linked.readRegister instr.rs &&& signBit != 0) extra)
  | .bltz => .ok (m.branches (rs &&& signBit != 0) extra)
  | .bne => .ok (m.branches (rs != rt) extra)
  | .div =>
      if rt = 0 then
        .ok ((m.writeRegister loReg 0).writeRegister hiReg 0).continues
      -- the host traps
      else if rs = signBit ∧ rt = -1 then .error (.fault .undefinedBehaviour)
      else
        .ok ((m.writeRegister loReg (rs.sdiv rt)).writeRegister hiReg
          (rs.srem rt)).continues
  | .divu =>
      if rt = 0 then
        .ok ((m.writeRegister loReg 0).writeRegister hiReg 0).continues
      else
        .ok ((m.writeRegister loReg (rs / rt)).writeRegister hiReg
          (rs % rt)).continues
  | .jal =>
      .ok (linked.jumps (((m.readRegister nextPCReg + 4) &&& 0xf0000000) |||
        indexToAddr extra))
  | .j =>
      .ok (m.jumps (((m.readRegister nextPCReg + 4) &&& 0xf0000000) |||
        indexToAddr extra))
  | .jalr =>
      let linked :=
        m.writeRegister instr.rd (m.readRegister nextPCReg + 4)
      .ok (linked.jumps (linked.readRegister instr.rs))
  | .jr => .ok (m.jumps rs)
  | .lb => do
      let (value, m) ← m.readMemory (rs + extra) 1
      return m.loads instr.rt (if value &&& 0x80 ≠ 0
        then value ||| 0xffffff00 else value &&& 0xff)
  | .lbu => do
      let (value, m) ← m.readMemory (rs + extra) 1
      return m.loads instr.rt (value &&& 0xff)
  | .lh =>
      let tmp := rs + extra
      if tmp &&& 1 ≠ 0 then
        m.raiseException (.translation .addressError) tmp
      else do
        let (value, m) ← m.readMemory tmp 2
        return m.loads instr.rt (if value &&& 0x8000 ≠ 0
          then value ||| 0xffff0000 else value &&& 0xffff)
  | .lhu =>
      let tmp := rs + extra
      if tmp &&& 1 ≠ 0 then
        m.raiseException (.translation .addressError) tmp
      else do
        let (value, m) ← m.readMemory tmp 2
        return m.loads instr.rt (value &&& 0xffff)
  | .lui => toRt (extra <<< 16)
  | .lw =>
      let tmp := rs + extra
      if tmp &&& 3 ≠ 0 then
        m.raiseException (.translation .addressError) tmp
      else do
        let (value, m) ← m.readMemory tmp 4
        return m.loads instr.rt value
  | .lwl => do
      let tmp := rs + extra
      let byte := tmp &&& 3
      let (value, m) ← m.readMemory (tmp - byte) 4
      return m.loads instr.rt
        (mergeLeft (m.mergedWith instr.rt) value (3 - byte).toNat)
  | .lwr => do
      let tmp := rs + extra
      let byte := tmp &&& 3
      let (value, m) ← m.readMemory (tmp - byte) 4
      return m.loads instr.rt
        (mergeRight (m.mergedWith instr.rt) value (3 - byte).toNat)
  | .mfhi => toRd (m.readRegister hiReg)
  | .mflo => toRd (m.readRegister loReg)
  | .mthi => .ok (m.writeRegister hiReg rs).continues
  | .mtlo => .ok (m.writeRegister loReg rs).continues
  | .mult =>
      let product := Nachos.mult rs rt true
      .ok ((m.writeRegister hiReg product.1).writeRegister loReg
        product.2).continues
  | .multu =>
      let product := Nachos.mult rs rt false
      .ok ((m.writeRegister hiReg product.1).writeRegister loReg
        product.2).continues
  | .nor => toRd (~~~(rs ||| rt))
  | .or => toRd (rs ||| rt)
  | .ori => toRt (rs ||| (extra &&& 0xffff))
  | .sb => do
      let m ← m.writeMemory (rs + extra) 1 rt
      return m.continues
  | .sh => do
      let m ← m.writeMemory (rs + extra) 2 rt
      return m.continues
  | .sll => toRd (rt <<< extra.toNat)
  | .sllv => toRd (rt <<< (rs &&& 0x1f).toNat)
  | .slt => toRd (if rs.slt rt then 1 else 0)
  | .slti => toRt (if rs.slt extra then 1 else 0)
  | .sltiu => toRt (if rs < extra then 1 else 0)
  | .sltu => toRd (if rs < rt then 1 else 0)
  | .sra => toRd (rt.sshiftRight extra.toNat)
  | .srav => toRd (rt.sshiftRight (rs &&& 0x1f).toNat)
  -- `tmp` is an `int`
  | .srl => toRd (rt.sshiftRight extra.toNat)
  | .srlv => toRd (rt.sshiftRight (rs &&& 0x1f).toNat)
  | .sub =>
      let diff := rs - rt
      if (rs ^^^ rt) &&& signBit ≠ 0 ∧ (rs ^^^ diff) &&& signBit ≠ 0 then
        m.raiseException .overflow 0
      else toRd diff
  | .subu => toRd (rs - rt)
  | .sw => do
      let m ← m.writeMemory (rs + extra) 4 rt
      return m.continues
  | .swl => do
      let tmp := rs + extra
      let byte := tmp &&& 3
      let (value, m) ← m.readMemory (tmp - byte) 4
      let m ← m.writeMemory (tmp - byte) 4
        (storeLeft rt value (3 - byte).toNat)
      return m.continues
  | .swr => do
      let tmp := rs + extra
      let byte := tmp &&& 3
      let (value, m) ← m.readMemory (tmp - byte) 4
      let m ← m.writeMemory (tmp - byte) 4
        (storeRight rt value (3 - byte).toNat)
      return m.continues
  | .syscall => m.raiseException .syscall 0
  | .xor => toRd (rs ^^^ rt)
  | .xori => toRt (rs ^^^ (extra &&& 0xffff))
  | .res => m.raiseException .illegalInstr 0
  | .unimp => m.raiseException .illegalInstr 0
  | .rfe => .error (.fault .abort)
  | .special => .error (.fault .abort)
  | .bcond => .error (.fault .abort)

end Machine

/-- The end of `Machine::OneInstruction`. -/
def Executed.finish (e : Executed) : Machine :=
  let m := e.machine.delayedLoad e.nextLoadReg e.nextLoadValue
  let m := m.writeRegister prevPCReg (m.readRegister pcReg)
  let m := m.writeRegister pcReg (m.readRegister nextPCReg)
  m.writeRegister nextPCReg e.pcAfter

/-- `Machine::OneInstruction`. -/
def Machine.oneInstruction (m : Machine) : Except Stop Machine := do
  let (raw, m) ← m.readMemory (m.readRegister pcReg) 4
  let e ← m.execute (Instruction.decode raw)
  return e.finish

end Nachos
