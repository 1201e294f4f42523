import Nachos.ArgumentPassing

/-!
# Accesses that can trap: `machine/translate.cc` and `machine/machine.cc`

An access that cannot be translated calls `RaiseException`, which finishes the
load in progress and enters `ExceptionHandler`.  Here such an access stops
with the machine as the handler finds it; `Machine.readMem` and
`Machine.writeMem`, which the kernel's own copies use, go on to what the
handler does with it.
-/

namespace Nachos

/-- `HiReg`. -/
def hiReg : ℕ := 32

/-- `LoReg`. -/
def loReg : ℕ := 33

/-- `LoadReg`. -/
def loadReg : ℕ := 37

/-- `LoadValueReg`. -/
def loadValueReg : ℕ := 38

/-- `BadVAddrReg`. -/
def badVAddrReg : ℕ := 39

/-- `ExceptionType`, with the exceptions that `Translate` returns as one
case. -/
inductive Exception
  | syscall
  | translation (which : ExceptionType)
  | overflow
  | illegalInstr
  deriving DecidableEq

/-- How an access, or an instruction, ends early: the simulator fails, or
`RaiseException(which, badVAddr)` has been called and `m` is the machine when
`ExceptionHandler` is entered. -/
inductive Stop
  | fault (fault : Fault)
  | raised (which : Exception) (badVAddr : BitVec 32) (m : Machine)

namespace Machine

/-- `Machine::DelayedLoad`. -/
def delayedLoad (m : Machine) (nextReg nextValue : BitVec 32) : Machine :=
  let m := m.writeRegister (m.readRegister loadReg).toNat
    (m.readRegister loadValueReg)
  let m := m.writeRegister loadReg nextReg
  let m := m.writeRegister loadValueReg nextValue
  m.writeRegister 0 0

/-- `Machine::RaiseException`, up to `ExceptionHandler`. -/
def raiseException {α : Type} (m : Machine) (which : Exception)
    (badVAddr : BitVec 32) : Except Stop α :=
  .error (.raised which badVAddr
    ((m.writeRegister badVAddrReg badVAddr).delayedLoad 0 0))

/-- What the simulator does by itself, inside an instruction. -/
def simulate {α : Type} (outcome : Except Fault α) : Except Stop α :=
  outcome.mapError .fault

/-- `Machine::ReadMem`. -/
def readMemory (m : Machine) (addr : BitVec 32) (size : ℕ) :
    Except Stop (BitVec 32 × Machine) := do
  match ← simulate (m.translate addr size false) with
  | .error exception => m.raiseException (.translation exception) addr
  | .ok (physAddr, m) =>
      let value ← simulate (m.load physAddr size)
      return (value, m)

/-- `Machine::WriteMem`. -/
def writeMemory (m : Machine) (addr : BitVec 32) (size : ℕ)
    (value : BitVec 32) : Except Stop Machine := do
  match ← simulate (m.translate addr size true) with
  | .error exception => m.raiseException (.translation exception) addr
  | .ok (physAddr, m) => simulate (m.storeValue physAddr value size)

/-- What becomes of a stop: `ExceptionHandler` ends in `ASSERTNOTREACHED`. -/
def afterHandler {α : Type} : Except Stop α → Except Fault α
  | .ok value => .ok value
  | .error (.fault fault) => .error fault
  | .error (.raised _ _ _) => .error .abort

theorem simulate_ok {α : Type} (value : α) :
    simulate (.ok value) = .ok value := rfl

theorem done_bind {α β : Type} (value : α) (next : α → Except Stop β) :
    Except.ok value >>= next = next value := rfl

@[simp] theorem readRegister_writeRegister
    (m : Machine) (r q : ℕ) (value : BitVec 32) :
    (m.writeRegister r value).readRegister q =
      if q = r then value else m.readRegister q :=
  Function.update_apply m.registers r value q

@[simp] theorem readRegister_delayedLoad
    (m : Machine) (nextReg nextValue : BitVec 32) (r : ℕ) :
    (m.delayedLoad nextReg nextValue).readRegister r =
      if r = 0 then 0
      else if r = loadValueReg then nextValue
      else if r = loadReg then nextReg
      else if r = (m.readRegister loadReg).toNat then
        m.readRegister loadValueReg
      else m.readRegister r := by
  simp only [delayedLoad, readRegister_writeRegister]

/-- The kernel's own reads are the same accesses. -/
theorem readMem_eq_afterHandler (m : Machine) (addr : BitVec 32) (size : ℕ) :
    m.readMem addr size = afterHandler (m.readMemory addr size) := by
  unfold readMem readMemory
  cases htranslate : m.translate addr size false with
  | error fault => rfl
  | ok result =>
      simp only [simulate_ok, done_bind, ok_bind]
      cases result with
      | error exception => rfl
      | ok result =>
          rcases result with ⟨physAddr, m'⟩
          simp only
          cases m'.load physAddr size <;> rfl

theorem writeMem_eq_afterHandler
    (m : Machine) (addr : BitVec 32) (size : ℕ) (value : BitVec 32) :
    m.writeMem addr size value =
      afterHandler (m.writeMemory addr size value) := by
  unfold writeMem writeMemory
  cases htranslate : m.translate addr size true with
  | error fault => rfl
  | ok result =>
      simp only [simulate_ok, done_bind, ok_bind]
      cases result with
      | error exception => rfl
      | ok result =>
          rcases result with ⟨physAddr, m'⟩
          simp only
          cases m'.storeValue physAddr value size <;> rfl

/-! ## What an access does -/

/-- The sizes of an access. -/
def IsAccess (size : ℕ) : Prop :=
  size = 1 ∨ size = 2 ∨ size = 4

/-- The page table is installed with a size that the array has. -/
def HasTable (m : Machine) : Prop :=
  ∃ table, m.pageTable = some table ∧ m.pageTableSize ≤ table.length

/-- The byte of a value that is stored `k` addresses above the lowest. -/
def valueByte (value : BitVec 32) (k : ℕ) : BitVec 8 :=
  (value >>> (8 * k)).setWidth 8

/-- What is read back of a value that was stored with a size. -/
def truncated (value : BitVec 32) : ℕ → BitVec 32
  | 1 => (value.setWidth 8).signExtend 32
  | 2 => (value.setWidth 16).setWidth 32
  | _ => value

section Access

variable {m m' : Machine} {addr value : BitVec 32} {size paddr : ℕ}
variable {writing : Bool}

theorem IsAccess.pos (haccess : IsAccess size) : 0 < size := by
  rcases haccess with rfl | rfl | rfl <;> decide

theorem misaligned_iff (haccess : IsAccess size) :
    ((size = 4 ∧ addr.toNat % 4 ≠ 0) ∨ (size = 2 ∧ addr.toNat % 2 ≠ 0)) ↔
      addr.toNat % size ≠ 0 := by
  rcases haccess with rfl | rfl | rfl <;> simp [Nat.mod_one]

/-- An aligned access does not cross the end of a page. -/
theorem offset_add_le
    (haccess : IsAccess size) (haligned : addr.toNat % size = 0) :
    addr.toNat % pageSize + size ≤ pageSize := by
  unfold pageSize
  rcases haccess with rfl | rfl | rfl <;> omega

theorem toNat_add_ofNat
    (haccess : IsAccess size) (haligned : addr.toNat % size = 0)
    {k : ℕ} (hk : k < size) :
    (addr + BitVec.ofNat 32 k).toNat = addr.toNat + k := by
  have hlt := addr.isLt
  rw [BitVec.toNat_add, BitVec.toNat_ofNat]
  rcases haccess with rfl | rfl | rfl <;> omega

/-- The bytes of an aligned access stand side by side in memory. -/
theorem physical_add
    (haccess : IsAccess size) (haligned : addr.toNat % size = 0)
    (hphys : m.physical addr writing = some paddr)
    {k : ℕ} (hk : k < size) :
    m.physical (addr + BitVec.ofNat 32 k) writing = some (paddr + k) := by
  have hnat := toNat_add_ofNat haccess haligned hk
  have hoffset := offset_add_le haccess haligned
  have hpage : (addr + BitVec.ofNat 32 k).toNat / pageSize =
      addr.toNat / pageSize := by
    rw [hnat]
    unfold pageSize at *
    omega
  have hin : (addr + BitVec.ofNat 32 k).toNat % pageSize =
      addr.toNat % pageSize + k := by
    rw [hnat]
    unfold pageSize at *
    omega
  obtain ⟨entry, hentry, hallows, rfl⟩ := physical_eq_some.mp hphys
  rw [physical_eq_some]
  refine ⟨entry, ?_, hallows, ?_⟩
  · rw [← hentry, entryAt, entryAt, hpage]
  · rw [hin, Nat.add_assoc]

theorem physical_add_le
    (haccess : IsAccess size) (haligned : addr.toNat % size = 0)
    (hphys : m.physical addr writing = some paddr) :
    paddr + size ≤ memorySize := by
  have hpos := haccess.pos
  have hlast := physical_lt
    (physical_add haccess haligned hphys (k := size - 1) (by omega))
  omega

/-- `Translate` returns an exception, or the address of an aligned access;
its assertions hold. -/
theorem translate_cases
    (htable : m.HasTable) (haccess : IsAccess size)
    (addr : BitVec 32) (writing : Bool) :
    (∃ exception, m.translate addr size writing = .ok (.error exception) ∧
      (addr.toNat % size = 0 → m.physical addr writing = none)) ∨
    ∃ paddr m', m.translate addr size writing = .ok (.ok (paddr, m')) ∧
      addr.toNat % size = 0 ∧ m.physical addr writing = some paddr ∧
      m'.HasTable := by
  obtain ⟨table, hinstalled, hsize⟩ := htable
  unfold translate
  simp only
  by_cases haligned : addr.toNat % size = 0
  · rw [if_neg ((misaligned_iff haccess).not.mpr (not_not.mpr haligned))]
    simp only [hinstalled]
    by_cases hvpn : addr.toNat / pageSize ≥ m.pageTableSize
    · refine .inl ⟨_, if_pos hvpn, fun _ => ?_⟩
      simp only [physical, entryAt, hinstalled, if_neg (not_lt.mpr hvpn)]
    · rw [if_neg hvpn]
      have hlt : addr.toNat / pageSize < table.length := by omega
      let entry := table[addr.toNat / pageSize]
      have hphys : m.physical addr writing =
          if entry.Allows writing then
            some (entry.physicalPage.toNat * pageSize +
              addr.toNat % pageSize)
          else none := by
        simp [physical, entryAt, hinstalled, hlt, not_le.mp hvpn, entry]
      simp only [List.getElem?_eq_getElem hlt]
      by_cases hallows : entry.Allows writing
      · rw [if_pos hallows] at hphys
        have hfits := physical_add_le haccess haligned hphys
        obtain ⟨hvalid, hreadOnly, hrange⟩ := hallows
        rw [if_neg (show ¬entry.valid = false by simp [hvalid]),
          if_neg hreadOnly, if_neg (not_not.mpr hrange),
          assert_of_true hfits]
        refine .inr ⟨_, _, rfl, haligned, hphys, _, rfl, ?_⟩
        rw [List.length_set]
        exact hsize
      · rw [if_neg hallows] at hphys
        refine .inl ?_
        split_ifs with hvalid hreadOnly hrange
        · exact ⟨_, rfl, fun _ => hphys⟩
        · exact ⟨_, rfl, fun _ => hphys⟩
        · exact (hallows ⟨by simpa using hvalid, hreadOnly, hrange⟩).elim
        · exact ⟨_, rfl, fun _ => hphys⟩
  · rw [if_pos ((misaligned_iff haccess).mpr haligned)]
    exact .inl ⟨_, rfl, fun h => (haligned h).elim⟩

/-! ## Loads and stores -/

theorem load_eq
    (haccess : IsAccess size) (value : BitVec 32)
    (hbytes : ∀ k < size, m.mainMemory (paddr + k) = valueByte value k) :
    m.load paddr size = .ok (truncated value size) := by
  rcases haccess with rfl | rfl | rfl
  · simp only [load, pure, Except.pure]
    have h0 := hbytes 0 (by decide)
    rw [Nat.add_zero] at h0
    rw [h0]
    simp [truncated, valueByte]
  · have h0 := hbytes 0 (by decide)
    have h1 := hbytes 1 (by decide)
    rw [Nat.add_zero] at h0
    simp only [load, pure, Except.pure, h0, h1]
    congr 1
    apply BitVec.eq_of_getLsbD_eq
    intro i hi
    simp only [truncated, valueByte, BitVec.getLsbD_setWidth,
      BitVec.getLsbD_append, BitVec.getLsbD_ushiftRight]
    grind
  · have h0 := hbytes 0 (by decide)
    have h1 := hbytes 1 (by decide)
    have h2 := hbytes 2 (by decide)
    have h3 := hbytes 3 (by decide)
    rw [Nat.add_zero] at h0
    simp only [load, pure, Except.pure, h0, h1, h2, h3]
    congr 1
    apply BitVec.eq_of_getLsbD_eq
    intro i hi
    simp only [truncated, valueByte, BitVec.getLsbD_setWidth,
      BitVec.getLsbD_append, BitVec.getLsbD_ushiftRight]
    grind

theorem exists_load (m : Machine) (paddr : ℕ) (haccess : IsAccess size) :
    ∃ value, m.load paddr size = .ok value := by
  rcases haccess with rfl | rfl | rfl <;> exact ⟨_, rfl⟩

/-- The memory with the bytes of a value in it. -/
def withValue (memory : ℕ → BitVec 8) (paddr size : ℕ) (value : BitVec 32) :
    ℕ → BitVec 8 :=
  fun a => if paddr ≤ a ∧ a < paddr + size then valueByte value (a - paddr)
    else memory a

theorem withValue_of_lt
    (memory : ℕ → BitVec 8) (value : BitVec 32) {k : ℕ} (hk : k < size) :
    withValue memory paddr size value (paddr + k) = valueByte value k := by
  rw [withValue, if_pos (by omega), Nat.add_sub_cancel_left]

theorem withValue_of_outside
    (memory : ℕ → BitVec 8) (value : BitVec 32) {a : ℕ}
    (hout : ∀ k < size, a ≠ paddr + k) :
    withValue memory paddr size value a = memory a := by
  rw [withValue, if_neg]
  rintro ⟨hle, hlt⟩
  exact hout (a - paddr) (by omega) (by omega)

theorem withValue_succ
    (memory : ℕ → BitVec 8) (paddr size : ℕ) (value : BitVec 32) :
    Function.update (withValue memory paddr size value) (paddr + size)
        (valueByte value size) =
      withValue memory paddr (size + 1) value := by
  funext a
  by_cases heq : a = paddr + size
  · subst heq
    rw [Function.update_self, withValue_of_lt memory value (by omega)]
  · rw [Function.update_of_ne heq]
    unfold withValue
    split <;> split <;> first | rfl | omega

theorem withValue_zero
    (memory : ℕ → BitVec 8) (paddr : ℕ) (value : BitVec 32) :
    withValue memory paddr 0 value = memory := by
  funext a
  exact withValue_of_outside memory value (by omega)

/-- `mainMemory[paddr + size]`, when the bytes below it have been stored. -/
theorem store_withValue
    (m : Machine) (memory : ℕ → BitVec 8) {byte : BitVec 8}
    (hbyte : byte = valueByte value size)
    (hlt : paddr + size < memorySize) :
    Machine.store { m with mainMemory := withValue memory paddr size value }
        ((paddr + size : ℕ) : ℤ) byte =
      .ok { m with mainMemory := withValue memory paddr (size + 1) value } := by
  rw [store_eq hlt, hbyte]
  simp only [withValue_succ]

theorem storeValue_eq
    (m : Machine) (value : BitVec 32) (haccess : IsAccess size)
    (hle : paddr + size ≤ memorySize) :
    m.storeValue paddr value size =
      .ok { m with
        mainMemory := withValue m.mainMemory paddr size value } := by
  have hpos : 0 < size := haccess.pos
  have hlowest := withValue_succ m.mainMemory paddr 0 value
  rw [withValue_zero, Nat.add_zero, Nat.zero_add] at hlowest
  have h0 : m.store paddr (value.setWidth 8) =
      .ok { m with mainMemory := withValue m.mainMemory paddr 1 value } := by
    rw [store_eq (by omega), ← hlowest]
    simp [valueByte]
  rcases haccess with rfl | rfl | rfl
  · rw [storeValue, h0]
  · rw [storeValue, h0, ok_bind]
    exact store_withValue m m.mainMemory rfl (by omega)
  · rw [storeValue, h0, ok_bind]
    have h1 := store_withValue m m.mainMemory
      (rfl : valueByte value 1 = _) (show paddr + 1 < memorySize by omega)
    have h2 := store_withValue m m.mainMemory
      (rfl : valueByte value 2 = _) (show paddr + 2 < memorySize by omega)
    have h3 := store_withValue m m.mainMemory
      (rfl : valueByte value 3 = _) (show paddr + 3 < memorySize by omega)
    push_cast at h1 h2 h3
    simp only [valueByte, Nat.reduceMul] at h1 h2 h3
    rw [h1, ok_bind, h2, ok_bind, h3]

/-! ## `ReadMem` and `WriteMem` -/

theorem readMemory_cases
    (htable : m.HasTable) (haccess : IsAccess size) (addr : BitVec 32) :
    (∃ exception, m.readMemory addr size =
        m.raiseException (.translation exception) addr ∧
      (addr.toNat % size = 0 → m.physical addr false = none)) ∨
    ∃ paddr m' value, m.readMemory addr size = .ok (value, m') ∧
      addr.toNat % size = 0 ∧ m.physical addr false = some paddr ∧
      m'.load paddr size = .ok value ∧ m.SameMapping m' ∧
      m'.mainMemory = m.mainMemory ∧ m'.HasTable := by
  unfold readMemory
  rcases translate_cases htable haccess addr false with
    ⟨exception, htranslate, hnone⟩ |
      ⟨paddr, m', htranslate, haligned, hphys, hafter⟩
  · rw [htranslate]
    exact .inl ⟨exception, rfl, hnone⟩
  · obtain ⟨hsame, hmemory⟩ := sameMapping_of_translate htranslate
    obtain ⟨value, hvalue⟩ := exists_load m' paddr haccess
    rw [htranslate]
    simp only [simulate_ok, done_bind, hvalue]
    exact .inr ⟨paddr, m', value, rfl, haligned, hphys, hvalue, hsame,
      hmemory, hafter⟩

theorem writeMemory_cases
    (htable : m.HasTable) (haccess : IsAccess size) (addr value : BitVec 32) :
    (∃ exception, m.writeMemory addr size value =
      m.raiseException (.translation exception) addr) ∨
    ∃ paddr m', m.writeMemory addr size value = .ok m' ∧
      addr.toNat % size = 0 ∧ m.physical addr true = some paddr ∧
      m.SameMapping m' ∧
      m'.mainMemory = withValue m.mainMemory paddr size value ∧
      m'.HasTable := by
  unfold writeMemory
  rcases translate_cases htable haccess addr true with
    ⟨exception, htranslate, -⟩ |
      ⟨paddr, m', htranslate, haligned, hphys, hafter⟩
  · rw [htranslate]
    exact .inl ⟨exception, rfl⟩
  · obtain ⟨hsame, hmemory⟩ := sameMapping_of_translate htranslate
    have hfits := physical_add_le haccess haligned hphys
    rw [htranslate]
    simp only [simulate_ok, done_bind, storeValue_eq m' value haccess hfits]
    refine .inr ⟨paddr, _, rfl, haligned, hphys, ?_, ?_, hafter⟩
    · exact hsame.trans ⟨rfl, rfl, fun _ _ => rfl, .rfl⟩
    · rw [hmemory]

/-- An aligned read of memory that is mapped. -/
theorem readMemory_of_physical
    (haccess : IsAccess size) (haligned : addr.toNat % size = 0)
    (hphys : m.physical addr false = some paddr) :
    ∃ m' value, m.readMemory addr size = .ok (value, m') ∧
      m.load paddr size = .ok value ∧ m.SameMapping m' ∧
      m'.mainMemory = m.mainMemory := by
  have hfits := physical_add_le haccess haligned hphys
  obtain ⟨m', htranslate, hsame, hmemory⟩ := translate_ok hphys
    ((misaligned_iff haccess).not.mpr (not_not.mpr haligned)) hfits
  obtain ⟨value, hvalue⟩ := exists_load m paddr haccess
  have hload : m'.load paddr size = .ok value := by
    rw [← hvalue]
    unfold load
    rw [hmemory]
  refine ⟨m', value, ?_, hvalue, hsame, hmemory⟩
  unfold readMemory
  simp only [htranslate, simulate_ok, done_bind, hload]
  rfl

/-- An aligned write to memory that can be written. -/
theorem writeMemory_of_physical
    (haccess : IsAccess size) (haligned : addr.toNat % size = 0)
    (hphys : m.physical addr true = some paddr) (value : BitVec 32) :
    ∃ m', m.writeMemory addr size value = .ok m' ∧ m.SameMapping m' ∧
      m'.mainMemory = withValue m.mainMemory paddr size value := by
  have hfits := physical_add_le haccess haligned hphys
  obtain ⟨m', htranslate, hsame, hmemory⟩ := translate_ok hphys
    ((misaligned_iff haccess).not.mpr (not_not.mpr haligned)) hfits
  refine ⟨{ m' with
    mainMemory := withValue m.mainMemory paddr size value }, ?_,
    hsame.trans ⟨rfl, rfl, fun _ _ => rfl, .rfl⟩, rfl⟩
  unfold writeMemory
  simp only [htranslate, simulate_ok, done_bind,
    storeValue_eq m' value haccess hfits, hmemory]

/-- The bytes of a word that has been loaded. -/
theorem valueByte_of_load
    (hload : m.load paddr 4 = .ok value) {k : ℕ} (hk : k < 4) :
    valueByte value k = m.mainMemory (paddr + k) := by
  simp only [load, pure, Except.pure, Except.ok.injEq] at hload
  subst hload
  apply BitVec.eq_of_getLsbD_eq
  intro i hi
  simp only [valueByte, BitVec.getLsbD_setWidth, BitVec.getLsbD_ushiftRight,
    BitVec.getLsbD_append]
  interval_cases k <;> grind

theorem registers_of_readMemory
    {value : BitVec 32}
    (hread : m.readMemory addr size = .ok (value, m')) :
    m'.registers = m.registers := by
  unfold readMemory at hread
  cases htranslate : m.translate addr size false with
  | error fault =>
      rw [htranslate] at hread
      cases hread
  | ok result =>
      rw [htranslate] at hread
      cases result with
      | error exception => cases hread
      | ok result =>
          obtain ⟨physAddr, after⟩ := result
          simp only [simulate_ok, done_bind] at hread
          cases hload : after.load physAddr size with
          | error fault =>
              rw [hload] at hread
              cases hread
          | ok value' =>
              rw [hload] at hread
              cases hread
              exact (sameMapping_of_translate htranslate).1.registers

end Access

end Machine

end Nachos
