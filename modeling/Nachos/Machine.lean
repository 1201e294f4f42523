import Nachos.Bitmap

/-!
# The simulated machine: `machine/machine.h` and `machine/translate.cc`

User programs reach memory through the linear page table that is installed;
the build has no TLB.  `mainMemory` is an array of the host, and an access
outside of it has undefined behaviour.  An exception other than a system call
ends in `ExceptionHandler` with `ASSERTNOTREACHED`.
-/

namespace Nachos

open Library

/-- `PageSize`. -/
def pageSize : ℕ := 128

/-- `NumPhysPages`. -/
def numPhysPages : ℕ := 128

/-- `MemorySize`. -/
def memorySize : ℕ := numPhysPages * pageSize

def pcReg : ℕ := 34

def nextPCReg : ℕ := 35

def prevPCReg : ℕ := 36

structure TranslationEntry where
  virtualPage : ℤ
  physicalPage : ℤ
  valid : Bool
  readOnly : Bool
  use : Bool
  dirty : Bool
  deriving DecidableEq

structure Machine where
  registers : ℕ → BitVec 32
  mainMemory : ℕ → BitVec 8
  pageTableMap : Bitmap
  /-- The installed table; `none` is the null pointer. -/
  pageTable : Option (List TranslationEntry)
  pageTableSize : ℕ

inductive ExceptionType
  | pageFault
  | readOnly
  | busError
  | addressError
  deriving DecidableEq

namespace Machine

/-- `mainMemory[paddr] = byte`. -/
def store (m : Machine) (paddr : ℤ) (byte : BitVec 8) :
    Except Fault Machine :=
  if 0 ≤ paddr ∧ paddr < memorySize then
    .ok { m with
      mainMemory := Function.update m.mainMemory paddr.toNat byte }
  else .error .undefinedBehaviour

def readRegister (m : Machine) (num : ℕ) : BitVec 32 :=
  m.registers num

def writeRegister (m : Machine) (num : ℕ) (value : BitVec 32) : Machine :=
  { m with registers := Function.update m.registers num value }

/-- `PCIncrease()`. -/
def pcIncrease (m : Machine) : Machine :=
  let m := m.writeRegister prevPCReg (m.readRegister pcReg)
  let m := m.writeRegister pcReg (m.readRegister pcReg + 4)
  m.writeRegister nextPCReg (m.readRegister pcReg + 4)

/-- `Machine::Translate`. -/
def translate (m : Machine) (virtAddr : BitVec 32) (size : ℕ)
    (writing : Bool) : Except Fault (Except ExceptionType (ℕ × Machine)) :=
  let vpn := virtAddr.toNat / pageSize
  let offset := virtAddr.toNat % pageSize
  if (size = 4 ∧ virtAddr.toNat % 4 ≠ 0) ∨
      (size = 2 ∧ virtAddr.toNat % 2 ≠ 0) then
    return .error .addressError
  else
    match m.pageTable with
    | none => .error .abort
    | some table =>
        if vpn ≥ m.pageTableSize then return .error .addressError
        else
          match table[vpn]? with
          | none => .error .undefinedBehaviour
          | some entry =>
              if entry.valid = false then return .error .pageFault
              else if entry.readOnly = true ∧ writing = true then
                return .error .readOnly
              else if ¬(0 ≤ entry.physicalPage ∧
                  entry.physicalPage < numPhysPages) then
                return .error .busError
              else do
                let used := { entry with
                  use := true, dirty := entry.dirty || writing }
                let physAddr := entry.physicalPage.toNat * pageSize + offset
                assert (physAddr + size ≤ memorySize)
                return .ok (physAddr,
                  { m with pageTable := some (table.set vpn used) })

/-- The bytes of a little-endian value in memory. -/
def load (m : Machine) (physAddr : ℕ) : ℕ → Except Fault (BitVec 32)
  | 1 => return (m.mainMemory physAddr).signExtend 32
  | 2 => return (m.mainMemory (physAddr + 1) ++
      m.mainMemory physAddr).setWidth 32
  | 4 => return m.mainMemory (physAddr + 3) ++ m.mainMemory (physAddr + 2) ++
      m.mainMemory (physAddr + 1) ++ m.mainMemory physAddr
  | _ => .error .abort

/-- `Machine::ReadMem`. -/
def readMem (m : Machine) (addr : BitVec 32) (size : ℕ) :
    Except Fault (BitVec 32 × Machine) := do
  match ← m.translate addr size false with
  | .error _ => .error .abort
  | .ok (physAddr, m) =>
      let value ← m.load physAddr size
      return (value, m)

/-- The low `size` bytes of `value` go to memory, the lowest first. -/
def storeValue (m : Machine) (physAddr : ℤ) (value : BitVec 32) :
    ℕ → Except Fault Machine
  | 1 => m.store physAddr (value.setWidth 8)
  | 2 => do
      let m ← m.store physAddr (value.setWidth 8)
      m.store (physAddr + 1) ((value >>> 8).setWidth 8)
  | 4 => do
      let m ← m.store physAddr (value.setWidth 8)
      let m ← m.store (physAddr + 1) ((value >>> 8).setWidth 8)
      let m ← m.store (physAddr + 2) ((value >>> 16).setWidth 8)
      m.store (physAddr + 3) ((value >>> 24).setWidth 8)
  | _ => .error .abort

/-- `Machine::WriteMem`. -/
def writeMem (m : Machine) (addr : BitVec 32) (size : ℕ)
    (value : BitVec 32) : Except Fault Machine := do
  match ← m.translate addr size true with
  | .error _ => .error .abort
  | .ok (physAddr, m) => m.storeValue physAddr value size

theorem store_eq
    {m : Machine} {paddr : ℕ} (hlt : paddr < memorySize) (byte : BitVec 8) :
    m.store paddr byte = .ok { m with
      mainMemory := Function.update m.mainMemory paddr byte } := by
  have hrange : (0 : ℤ) ≤ paddr ∧ (paddr : ℤ) < memorySize := by omega
  simp only [store, if_pos hrange, Int.toNat_natCast]

theorem storeValue_one (m : Machine) (paddr : ℤ) (word : BitVec 32) :
    m.storeValue paddr word 1 = m.store paddr (word.setWidth 8) := by
  rw [storeValue]

theorem writeMem_of_translate
    {m m' : Machine} {addr : BitVec 32} {physAddr : ℕ} (word : BitVec 32)
    (htranslate : m.translate addr 1 true = .ok (.ok (physAddr, m'))) :
    m.writeMem addr 1 word = m'.store physAddr (word.setWidth 8) := by
  simp only [writeMem, htranslate, bind, Except.bind, storeValue_one]

theorem writeMem_of_exception
    {m : Machine} {addr : BitVec 32} {which : ExceptionType} (word : BitVec 32)
    (htranslate : m.translate addr 1 true = .ok (.error which)) :
    m.writeMem addr 1 word = .error .abort := by
  simp only [writeMem, htranslate, bind, Except.bind]

theorem writeMem_of_fault
    {m : Machine} {addr : BitVec 32} {fault : Fault} (word : BitVec 32)
    (htranslate : m.translate addr 1 true = .error fault) :
    m.writeMem addr 1 word = .error fault := by
  simp only [writeMem, htranslate, bind, Except.bind]

end Machine

end Nachos
