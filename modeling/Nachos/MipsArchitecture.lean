import Nachos.UnalignedAccess

/-!
# MIPS I, as a program is promised it

The instructions that the compiler puts into user programs, on a machine that
does a load at once.  Branches and jumps take effect one instruction later.
What the architecture asks of a program in return, and where the simulator
does something else, is the condition under which an instruction is defined.
-/

namespace Nachos.Mips

open Machine (valueByte enclosingWord)

/-! ## Instructions -/

inductive BranchOp
  | beq | bne | blez | bgtz | bltz | bgez | bltzal | bgezal
  deriving DecidableEq

inductive LoadOp
  | lb | lbu | lh | lhu | lw | lwl | lwr
  deriving DecidableEq

inductive StoreOp
  | sb | sh | sw | swl | swr
  deriving DecidableEq

inductive Instruction
  | integer (i : IntegerInstruction)
  | branch (op : BranchOp) (rs rt : BitVec 5) (offset : BitVec 16)
  | jump (link : Bool) (target : BitVec 26)
  | jr (rs : BitVec 5)
  | jalr (rs rd : BitVec 5)
  | load (op : LoadOp) (base rt : BitVec 5) (offset : BitVec 16)
  | store (op : StoreOp) (base rt : BitVec 5) (offset : BitVec 16)
  | syscall (code : BitVec 20)
  deriving DecidableEq

namespace BranchOp

def opcode : BranchOp → BitVec 6
  | .beq => 0x04 | .bne => 0x05 | .blez => 0x06 | .bgtz => 0x07
  | .bltz | .bgez | .bltzal | .bgezal => 0x01

/-- A branch that compares with zero has its kind in the place of `rt`. -/
def field (op : BranchOp) (rt : BitVec 5) : BitVec 5 :=
  match op with
  | .beq | .bne => rt
  | .blez | .bgtz | .bltz => 0x00
  | .bgez => 0x01
  | .bltzal => 0x10
  | .bgezal => 0x11

def comparesRt : BranchOp → Bool
  | .beq | .bne => true
  | _ => false

def links : BranchOp → Bool
  | .bltzal | .bgezal => true
  | _ => false

def taken (op : BranchOp) (a b : BitVec 32) : Bool :=
  match op with
  | .beq => a = b
  | .bne => a ≠ b
  | .blez => a.toInt ≤ 0
  | .bgtz => 0 < a.toInt
  | .bltz | .bltzal => a.toInt < 0
  | .bgez | .bgezal => 0 ≤ a.toInt

end BranchOp

/-- The four bytes of a word, the lowest first. -/
def wordOf (bytes : ℕ → BitVec 8) : BitVec 32 :=
  bytes 3 ++ bytes 2 ++ bytes 1 ++ bytes 0

namespace LoadOp

def opcode : LoadOp → BitVec 6
  | .lb => 0x20 | .lh => 0x21 | .lwl => 0x22 | .lw => 0x23
  | .lbu => 0x24 | .lhu => 0x25 | .lwr => 0x26

def size : LoadOp → ℕ
  | .lb | .lbu => 1
  | .lh | .lhu => 2
  | .lw | .lwl | .lwr => 4

/-- `LWL` and `LWR` access the word that their address lies in. -/
def start (op : LoadOp) (addr : BitVec 32) : BitVec 32 :=
  match op with
  | .lwl | .lwr => enclosingWord addr
  | _ => addr

/-- What comes into the register, from its old value and from what has been
read.  `b` is the byte of the word that is addressed. -/
def result (op : LoadOp) (b : ℕ) (old value : BitVec 32) : BitVec 32 :=
  match op with
  | .lb => (value.setWidth 8).signExtend 32
  | .lh => (value.setWidth 16).signExtend 32
  | .lbu | .lhu | .lw => value
  | .lwl => wordOf fun k =>
      if 3 ≤ k + b then valueByte value (k + b - 3) else valueByte old k
  | .lwr => wordOf fun k =>
      if k + b ≤ 3 then valueByte value (k + b) else valueByte old k

end LoadOp

namespace StoreOp

def opcode : StoreOp → BitVec 6
  | .sb => 0x28 | .sh => 0x29 | .swl => 0x2a | .sw => 0x2b | .swr => 0x2e

def size : StoreOp → ℕ
  | .sb => 1
  | .sh => 2
  | .sw | .swl | .swr => 4

def start (op : StoreOp) (addr : BitVec 32) : BitVec 32 :=
  match op with
  | .swl | .swr => enclosingWord addr
  | _ => addr

/-- What is stored `k` bytes behind the start; `none` if the byte stays. -/
def byte (op : StoreOp) (b : ℕ) (value : BitVec 32) (k : ℕ) :
    Option (BitVec 8) :=
  match op with
  | .sb | .sh | .sw => some (valueByte value k)
  | .swl => if k ≤ b then some (valueByte value (k + 3 - b)) else none
  | .swr => if b ≤ k then some (valueByte value (k - b)) else none

end StoreOp

namespace Instruction

def encode : Instruction → BitVec 32
  | .integer i => i.encode
  | .branch op rs rt offset => op.opcode ++ rs ++ op.field rt ++ offset
  | .jump link target => (if link then 0x03#6 else 0x02#6) ++ target
  | .jr rs => 0#6 ++ rs ++ 0#5 ++ 0#5 ++ 0#5 ++ 0x08#6
  | .jalr rs rd => 0#6 ++ rs ++ 0#5 ++ rd ++ 0#5 ++ 0x09#6
  | .load op base rt offset => op.opcode ++ base ++ rt ++ offset
  | .store op base rt offset => op.opcode ++ base ++ rt ++ offset
  | .syscall code => 0#6 ++ code ++ 0x0c#6

end Instruction

/-! ## What an instruction does -/

/-- `none` where no memory is mapped.  `loaded` is the register that the last
instruction has loaded, or register 0. -/
@[ext]
structure State where
  gpr : BitVec 5 → BitVec 32
  hi : BitVec 32
  lo : BitVec 32
  pc : BitVec 32
  nextPc : BitVec 32
  memory : BitVec 32 → Option (BitVec 8)
  loaded : BitVec 5

inductive Trap
  | syscall
  | overflow
  | addressError (addr : BitVec 32)
  deriving DecidableEq

namespace State

def write (s : State) (r : BitVec 5) (value : BitVec 32) : State :=
  if r = 0 then s else { s with gpr := Function.update s.gpr r value }

section Write

variable (s : State) (r : BitVec 5) (value : BitVec 32)

theorem gpr_write : (s.write r value).gpr =
    if r = 0 then s.gpr else Function.update s.gpr r value := by
  unfold write
  split <;> rfl

@[simp] theorem hi_write : (s.write r value).hi = s.hi := by
  unfold write
  split <;> rfl

@[simp] theorem lo_write : (s.write r value).lo = s.lo := by
  unfold write
  split <;> rfl

@[simp] theorem pc_write : (s.write r value).pc = s.pc := by
  unfold write
  split <;> rfl

@[simp] theorem nextPc_write : (s.write r value).nextPc = s.nextPc := by
  unfold write
  split <;> rfl

@[simp] theorem memory_write : (s.write r value).memory = s.memory := by
  unfold write
  split <;> rfl

@[simp] theorem loaded_write : (s.write r value).loaded = s.loaded := by
  unfold write
  split <;> rfl

end Write

/-- The next instruction is the one in the delay slot. -/
def goOn (s : State) (target : BitVec 32) : State :=
  { s with pc := s.nextPc, nextPc := target, loaded := 0 }

/-- The little-endian number at an address. -/
def read (s : State) (addr : BitVec 32) : ℕ → Option (BitVec 32)
  | 1 => return (← s.memory addr).setWidth 32
  | 2 =>
      if addr.toNat % 2 = 0 then
        return ((← s.memory (addr + 1)) ++ (← s.memory addr)).setWidth 32
      else none
  | 4 =>
      if addr.toNat % 4 = 0 then
        return (← s.memory (addr + 3)) ++ (← s.memory (addr + 2)) ++
          (← s.memory (addr + 1)) ++ (← s.memory addr)
      else none
  | _ => none

/-- Bytes of an access are replaced. -/
def withBytes (s : State) (start : BitVec 32) (size : ℕ)
    (byte : ℕ → Option (BitVec 8)) : State :=
  { s with memory := fun a =>
      if (a - start).toNat < size then
        (byte (a - start).toNat).or (s.memory a)
      else s.memory a }

def deliver (s : State) (d : BitVec 5) : Delivery → Except Trap State
  | .register value => .ok (s.write d value)
  | .hi value => .ok { s with hi := value }
  | .lo value => .ok { s with lo := value }
  | .hiLo value => .ok { s with
      hi := value.extractLsb' 32 32, lo := value.extractLsb' 0 32 }
  | .overflow => .error .overflow

def integer (s : State) : IntegerInstruction → Except Trap State
  | .register op rs rt rd shamt =>
      s.deliver rd (op.delivery (s.gpr rs) (s.gpr rt) shamt s.hi s.lo)
  | .immediate op rs rt imm => s.deliver rt (op.delivery (s.gpr rs) imm)

def execute (s : State) : Instruction → Except Trap State
  | .integer i => do
      let s' ← s.integer i
      return s'.goOn (s.nextPc + 4)
  | .branch op rs rt offset =>
      let s' := if op.links then s.write 31 (s.nextPc + 4) else s
      .ok (s'.goOn (if op.taken (s.gpr rs) (s.gpr rt)
        then s.nextPc + offset.signExtend 32 <<< 2 else s.nextPc + 4))
  | .jump link target =>
      let s' := if link then s.write 31 (s.nextPc + 4) else s
      .ok (s'.goOn (s.nextPc.extractLsb' 28 4 ++ target ++ 0#2))
  | .jr rs => .ok (s.goOn (s.gpr rs))
  | .jalr rs rd => .ok ((s.write rd (s.nextPc + 4)).goOn (s.gpr rs))
  | .load op base rt offset =>
      let addr := s.gpr base + offset.signExtend 32
      match s.read (op.start addr) op.size with
      | none => .error (.addressError (op.start addr))
      | some value =>
          let value := op.result (addr.toNat % 4) (s.gpr rt) value
          .ok { (s.write rt value).goOn (s.nextPc + 4) with loaded := rt }
  | .store op base rt offset =>
      let addr := s.gpr base + offset.signExtend 32
      match s.read (op.start addr) op.size with
      | none => .error (.addressError (op.start addr))
      | some _ =>
          .ok ((s.withBytes (op.start addr) op.size
            (op.byte (addr.toNat % 4) (s.gpr rt))).goOn (s.nextPc + 4))
  | .syscall _ => .error .syscall

end State

/-! ## What a program must not do -/

def readsRs : RegisterOp → Bool
  | .sll | .srl | .sra | .mfhi | .mflo => false
  | _ => true

def readsRt : RegisterOp → Bool
  | .mfhi | .mthi | .mflo | .mtlo => false
  | _ => true

namespace Instruction

/-- The instruction may stand behind a load of the register.  It neither uses
the register nor delivers into it; it may load it, and `LWL` and `LWR` may
merge with it. -/
def Leaves (r : BitVec 5) : Instruction → Prop
  | .integer (.register op rs rt rd _) => (readsRs op = true → rs ≠ r) ∧
      (readsRt op = true → rt ≠ r) ∧ (op.writesRegister = true → rd ≠ r)
  | .integer (.immediate op rs rt _) => (op ≠ .lui → rs ≠ r) ∧ rt ≠ r
  | .branch op rs rt _ => rs ≠ r ∧ (op.comparesRt = true → rt ≠ r) ∧
      (op.links = true → r ≠ 31)
  | .jump link _ => link = true → r ≠ 31
  | .jr rs => rs ≠ r
  | .jalr rs rd => rs ≠ r ∧ rd ≠ r
  | .load _ base _ _ => base ≠ r
  | .store _ base rt _ => base ≠ r ∧ rt ≠ r
  | .syscall _ => True

/-- The registers that an instruction links must not be the ones it tests.
The simulator shifts right with the sign, cannot divide the least number by
-1, and takes the region of a jump from behind the delay slot. -/
def Supported (s : State) : Instruction → Prop
  | .integer (.register .srl _ rt _ shamt) =>
      shamt = 0 ∨ (s.gpr rt).msb = false
  | .integer (.register .srlv rs rt _ _) =>
      (s.gpr rs).toNat % 32 = 0 ∨ (s.gpr rt).msb = false
  | .integer (.register .div rs rt _ _) =>
      ¬(s.gpr rs = BitVec.intMin 32 ∧ s.gpr rt = -1)
  | .branch op rs _ _ => op.links = true → rs ≠ 31
  | .jump _ _ => (s.nextPc + 4).extractLsb' 28 4 = s.nextPc.extractLsb' 28 4
  | .jalr rs rd => rs ≠ rd
  | _ => True

end Instruction

/-- The instruction is one that the program may execute here. -/
def State.Defined (s : State) (i : Instruction) : Prop :=
  (s.loaded = 0 ∨ i.Leaves s.loaded) ∧ i.Supported s

/-- The instructions that are executed one behind the other. -/
inductive Runs : State → List Instruction → State → Prop
  | done (s : State) : Runs s [] s
  | step {s s' s'' : State} {i : Instruction} {is : List Instruction}
      (fetched : s.read s.pc 4 = some i.encode) (allowed : s.Defined i)
      (executed : s.execute i = .ok s') (rest : Runs s' is s'') :
      Runs s (i :: is) s''

/-- The next instruction traps, or there is none. -/
def State.Traps (s : State) (trap : Trap) : Prop :=
  (s.read s.pc 4 = none ∧ trap = .addressError s.pc) ∨
    ∃ i : Instruction, s.read s.pc 4 = some i.encode ∧ s.Defined i ∧
      s.execute i = .error trap

end Nachos.Mips
