import Nachos.PreciseExceptions
import Mathlib.Logic.Relation

/-!
# The state of the CPU between instructions

Register 0 is written freely inside of an instruction, and `DelayedLoad`
subscripts `registers` with what it finds in `LoadReg`.  Both are in order
again whenever an instruction begins and whenever a handler does.
-/

namespace Nachos

open Machine

/-! ## What is to be shown of an instruction -/

structure CpuState (m : Machine) : Prop where
  zero : m.readRegister 0 = 0
  pending : (m.readRegister loadReg).toNat < 32

/-- `OneInstruction` has a `case` for the opcode. -/
def OpCode.handled : OpCode → Bool
  | .rfe | .special | .bcond => false
  | _ => true

/-- The subscripts of `registers` in the `case` of an instruction. -/
def Instruction.subscripts (instr : Instruction) : List ℕ :=
  match instr.opCode with
  | .add | .addu | .and | .nor | .or | .sllv | .slt | .sltu | .srav | .srlv
  | .sub | .subu | .xor => [instr.rs, instr.rt, instr.rd]
  | .addi | .addiu | .andi | .ori | .slti | .sltiu | .xori =>
      [instr.rs, instr.rt]
  | .sll | .sra | .srl => [instr.rt, instr.rd]
  | .beq | .bne | .sb | .sh | .sw | .swl | .swr => [instr.rs, instr.rt]
  | .bgez | .bgtz | .blez | .bltz | .jr => [instr.rs]
  | .bgezal | .bltzal => [instr.rs, r31]
  | .div | .divu | .mult | .multu => [instr.rs, instr.rt, hiReg, loReg]
  | .jal => [r31]
  | .jalr => [instr.rs, instr.rd]
  | .lb | .lbu | .lh | .lhu | .lw => [instr.rs]
  | .lwl | .lwr => [instr.rs, instr.rt]
  | .lui => [instr.rt]
  | .mfhi => [instr.rd, hiReg]
  | .mflo => [instr.rd, loReg]
  | .mthi => [instr.rs, hiReg]
  | .mtlo => [instr.rs, loReg]
  | .j | .syscall | .res | .unimp | .rfe | .special | .bcond => []

namespace Machine

/-- The subscripts that are numbers in `OneInstruction` outside of its
`switch`, in `DelayedLoad` and in `RaiseException`. -/
def fixedSubscripts : List ℕ :=
  [0, pcReg, nextPCReg, prevPCReg, loadReg, loadValueReg, badVAddrReg]

/-- The subscripts of `registers` in an instruction as a whole. -/
def subscripts (m : Machine) (instr : Instruction) : List ℕ :=
  instr.subscripts ++ fixedSubscripts ++ [(m.readRegister loadReg).toNat]

/-- The same machine, with other values outside of some subscripts. -/
def alter (m : Machine) (used : List ℕ) (others : ℕ → BitVec 32) : Machine :=
  { m with registers := fun r => if r ∈ used then m.registers r else others r }

end Machine

/-- An outcome with other values outside of some subscripts. -/
def alterOutcome {α : Type} (used : List ℕ) (others : ℕ → BitVec 32)
    (alter : α → α) : Except Stop α → Except Stop α
  | .ok value => .ok (alter value)
  | .error (.raised which badVAddr m) =>
      .error (.raised which badVAddr (m.alter used others))
  | .error (.fault fault) => .error (.fault fault)

/-- A handler that has been entered finds the state of the CPU in order. -/
def Stop.LeavesCpuState : Stop → Prop
  | .raised _ _ m => CpuState m
  | .fault _ => True

/-- So does the next instruction. -/
def LeavesCpuState : Except Stop Machine → Prop
  | .ok m => CpuState m
  | .error stop => stop.LeavesCpuState

/-- An instruction word on a machine. -/
structure InstructionSafe (m : Machine) (word : BitVec 32) : Prop where
  handled : (Instruction.decode word).opCode.handled = true
  inFile : ∀ r ∈ m.subscripts (Instruction.decode word), r < numTotalRegs
  onlyThese : ∀ others,
    (m.alter (m.subscripts (Instruction.decode word)) others).outcome
        (Instruction.decode word) =
      alterOutcome (m.subscripts (Instruction.decode word)) others
        (·.alter (m.subscripts (Instruction.decode word)) others)
        (m.outcome (Instruction.decode word))
  leaves : LeavesCpuState (m.outcome (Instruction.decode word))

/-- What brings the machine from one boundary between instructions to the
next. -/
inductive Boundary : Machine → Machine → Prop
  | instruction {m m' : Machine} (hdone : m.oneInstruction = .ok m') :
      Boundary m m'
  | trap {m m' : Machine} {which : Exception} {badVAddr : BitVec 32}
      (hraised : m.oneInstruction = .error (.raised which badVAddr m')) :
      Boundary m m'
  | interrupt (m : Machine) : Boundary m (m.delayedLoad 0 0)

/-! ## Other values outside of the subscripts -/

section Alter

variable {m : Machine} {used : List ℕ} {others : ℕ → BitVec 32}

theorem readRegister_alter {r : ℕ} (hr : r ∈ used) :
    (m.alter used others).readRegister r = m.readRegister r :=
  if_pos hr

theorem writeRegister_alter {r : ℕ} (hr : r ∈ used) (value : BitVec 32) :
    (m.alter used others).writeRegister r value =
      (m.writeRegister r value).alter used others := by
  unfold writeRegister alter
  congr 1
  funext q
  simp only [Function.update_apply]
  split
  next hq => rw [if_pos (hq ▸ hr)]
  next => rfl

theorem translate_alter (virtAddr : BitVec 32) (size : ℕ) (writing : Bool) :
    (m.alter used others).translate virtAddr size writing =
      (m.translate virtAddr size writing).map
        (Except.map (Prod.map id (·.alter used others))) := by
  obtain ⟨registers, mainMemory, map, pageTable, pageTableSize⟩ := m
  unfold Machine.translate alter
  simp only
  split
  next => rfl
  next =>
    cases pageTable with
    | none => rfl
    | some table =>
        simp only
        split
        next => rfl
        next =>
          cases table[virtAddr.toNat / pageSize]? with
          | none => rfl
          | some entry =>
              simp only
              split
              next => rfl
              next =>
                split
                next => rfl
                next =>
                  split
                  next => rfl
                  next =>
                    unfold assert
                    split <;> rfl

theorem delayedLoad_alter
    (hzero : 0 ∈ used) (hload : loadReg ∈ used) (hvalue : loadValueReg ∈ used)
    (hpending : (m.readRegister loadReg).toNat ∈ used)
    (nextReg nextValue : BitVec 32) :
    (m.alter used others).delayedLoad nextReg nextValue =
      (m.delayedLoad nextReg nextValue).alter used others := by
  unfold delayedLoad
  simp only [readRegister_alter hload, readRegister_alter hvalue,
    writeRegister_alter hpending, writeRegister_alter hload,
    writeRegister_alter hvalue, writeRegister_alter hzero]

/-- The subscripts outside of the `switch`. -/
structure Covers (m : Machine) (used : List ℕ) : Prop where
  fixed : ∀ r ∈ fixedSubscripts, r ∈ used
  pending : (m.readRegister loadReg).toNat ∈ used

theorem Covers.of_same
    {m' : Machine} (hcovers : Covers m used)
    (hsame : m'.readRegister loadReg = m.readRegister loadReg) :
    Covers m' used where
  fixed := hcovers.fixed
  pending := by
    rw [hsame]
    exact hcovers.pending

theorem Covers.delayedLoad
    (hcovers : Covers m used) (nextReg nextValue : BitVec 32) :
    (m.alter used others).delayedLoad nextReg nextValue =
      (m.delayedLoad nextReg nextValue).alter used others :=
  delayedLoad_alter (hcovers.fixed _ (by decide)) (hcovers.fixed _ (by decide))
    (hcovers.fixed _ (by decide)) hcovers.pending nextReg nextValue

theorem Covers.raiseException
    {α : Type} (hcovers : Covers m used) (which : Exception)
    (badVAddr : BitVec 32) (alter : α → α) :
    (m.alter used others).raiseException which badVAddr =
      alterOutcome used others alter (m.raiseException which badVAddr) := by
  have hbad : Covers (m.writeRegister badVAddrReg badVAddr) used :=
    hcovers.of_same rfl
  unfold Machine.raiseException
  rw [writeRegister_alter (hcovers.fixed badVAddrReg (by decide)),
    hbad.delayedLoad]
  rfl

theorem load_alter (physAddr size : ℕ) :
    (m.alter used others).load physAddr size = m.load physAddr size := by
  unfold Machine.load
  rfl

theorem Covers.readMemory
    (hcovers : Covers m used) (addr : BitVec 32) (size : ℕ) :
    (m.alter used others).readMemory addr size =
      alterOutcome used others (Prod.map id (·.alter used others))
        (m.readMemory addr size) := by
  unfold Machine.readMemory
  rw [translate_alter]
  cases m.translate addr size false with
  | error fault => rfl
  | ok result =>
      cases result with
      | error exception => exact hcovers.raiseException _ addr _
      | ok result =>
          obtain ⟨physAddr, m'⟩ := result
          simp only [Except.map, simulate_ok, done_bind, Prod.map, id_eq,
            load_alter]
          cases m'.load physAddr size <;> rfl

theorem store_alter (paddr : ℤ) (byte : BitVec 8) :
    (m.alter used others).store paddr byte =
      (m.store paddr byte).map (·.alter used others) := by
  unfold store
  split <;> rfl

theorem map_store_alter
    (outcome : Except Fault Machine) (paddr : ℤ) (byte : BitVec 8) :
    (outcome.map (·.alter used others) >>= fun m => m.store paddr byte) =
      (outcome >>= fun m => m.store paddr byte).map (·.alter used others) := by
  cases outcome with
  | error fault => rfl
  | ok m => exact store_alter paddr byte

theorem storeValue_alter (physAddr : ℤ) (value : BitVec 32) (size : ℕ) :
    (m.alter used others).storeValue physAddr value size =
      (m.storeValue physAddr value size).map (·.alter used others) := by
  unfold storeValue
  split
  next => exact store_alter _ _
  next => rw [store_alter, map_store_alter]
  next =>
    simp only [← bind_assoc]
    rw [store_alter, map_store_alter, map_store_alter, map_store_alter]
  next => rfl

theorem Covers.writeMemory
    (hcovers : Covers m used) (addr : BitVec 32) (size : ℕ)
    (value : BitVec 32) :
    (m.alter used others).writeMemory addr size value =
      alterOutcome used others (·.alter used others)
        (m.writeMemory addr size value) := by
  unfold Machine.writeMemory
  rw [translate_alter]
  cases m.translate addr size true with
  | error fault => rfl
  | ok result =>
      cases result with
      | error exception => exact hcovers.raiseException _ addr _
      | ok result =>
          obtain ⟨physAddr, m'⟩ := result
          simp only [Except.map, simulate_ok, done_bind, Prod.map, id_eq,
            storeValue_alter]
          cases m'.storeValue physAddr value size <;> rfl

theorem alterOutcome_bind
    {α β : Type} {f : α → α} {g : β → β} {outcome : Except Stop α}
    {next next' : α → Except Stop β}
    (hnext : ∀ value, outcome = .ok value →
      next' (f value) = alterOutcome used others g (next value)) :
    alterOutcome used others f outcome >>= next' =
      alterOutcome used others g (outcome >>= next) := by
  cases outcome with
  | ok value => exact hnext value rfl
  | error stop => cases stop <;> rfl

/-! ## The instruction looks at its subscripts only -/

def Executed.alter (e : Executed) (used : List ℕ) (others : ℕ → BitVec 32) :
    Executed :=
  { e with machine := e.machine.alter used others }

theorem Covers.continues (hcovers : Covers m used) :
    (m.alter used others).continues = m.continues.alter used others := by
  unfold Machine.continues
  rw [readRegister_alter (hcovers.fixed nextPCReg (by decide))]
  rfl

theorem Covers.branches
    (hcovers : Covers m used) (taken : Bool) (extra : BitVec 32) :
    (m.alter used others).branches taken extra =
      (m.branches taken extra).alter used others := by
  unfold Machine.branches
  cases taken with
  | false => exact hcovers.continues
  | true =>
      rw [readRegister_alter (hcovers.fixed nextPCReg (by decide))]
      rfl

theorem Covers.loads (hcovers : Covers m used) (reg : ℕ) (value : BitVec 32) :
    (m.alter used others).loads reg value =
      (m.loads reg value).alter used others := by
  unfold Machine.loads
  rw [hcovers.continues]
  rfl

theorem Covers.write
    (hcovers : Covers m used) {r : ℕ} (hr : r ≠ loadReg) (value : BitVec 32) :
    Covers (m.writeRegister r value) used := by
  refine hcovers.of_same ?_
  rw [readRegister_writeRegister, if_neg (Ne.symm hr)]

theorem Covers.writes
    (hcovers : Covers m used) {r : ℕ} (hr : r ∈ used) (hne : r ≠ loadReg)
    (value : BitVec 32) :
    ((m.alter used others).writeRegister r value).continues =
      (m.writeRegister r value).continues.alter used others := by
  rw [writeRegister_alter hr, (hcovers.write hne value).continues]

theorem Covers.hiLo
    (hcovers : Covers m used) {r q : ℕ} (hr : r ∈ used) (hq : q ∈ used)
    (hne : r ≠ loadReg ∧ q ≠ loadReg) (value value' : BitVec 32) :
    (((m.alter used others).writeRegister r value).writeRegister q
        value').continues =
      ((m.writeRegister r value).writeRegister q
        value').continues.alter used others := by
  rw [writeRegister_alter hr, (hcovers.write hne.1 value).writes hq hne.2]

theorem Covers.mergedWith
    (hcovers : Covers m used) {rt : ℕ} (hrt : rt ∈ used) :
    (m.alter used others).mergedWith rt = m.mergedWith rt := by
  unfold Machine.mergedWith
  rw [readRegister_alter (hcovers.fixed loadReg (by decide)),
    readRegister_alter (hcovers.fixed loadValueReg (by decide)),
    readRegister_alter hrt]

theorem Covers.readBind
    {α : Type} {alter : α → α} (hcovers : Covers m used) (addr : BitVec 32)
    (size : ℕ) {next next' : BitVec 32 × Machine → Except Stop α}
    (hnext : ∀ value m', Covers m' used →
      next' (value, m'.alter used others) =
        alterOutcome used others alter (next (value, m'))) :
    (m.alter used others).readMemory addr size >>= next' =
      alterOutcome used others alter (m.readMemory addr size >>= next) := by
  rw [hcovers.readMemory]
  refine alterOutcome_bind ?_
  intro result hread
  exact hnext result.1 result.2
    (hcovers.of_same (congrFun (registers_of_readMemory hread) loadReg))

theorem registers_of_storeValue
    {m' : Machine} {physAddr : ℤ} {value : BitVec 32} {size : ℕ}
    (hstore : m.storeValue physAddr value size = .ok m') :
    m'.registers = m.registers := by
  unfold storeValue at hstore
  split at hstore
  next => exact (sameMapping_of_store hstore).registers
  next =>
    obtain ⟨m₁, h₁, hstore⟩ := ok_of_bind hstore
    exact ((sameMapping_of_store h₁).trans
      (sameMapping_of_store hstore)).registers
  next =>
    obtain ⟨m₁, h₁, hstore⟩ := ok_of_bind hstore
    obtain ⟨m₂, h₂, hstore⟩ := ok_of_bind hstore
    obtain ⟨m₃, h₃, hstore⟩ := ok_of_bind hstore
    exact ((sameMapping_of_store h₁).trans ((sameMapping_of_store h₂).trans
      ((sameMapping_of_store h₃).trans
        (sameMapping_of_store hstore)))).registers
  next => cases hstore

theorem registers_of_writeMemory
    {m' : Machine} {addr value : BitVec 32} {size : ℕ}
    (hwrite : m.writeMemory addr size value = .ok m') :
    m'.registers = m.registers := by
  unfold Machine.writeMemory at hwrite
  cases htranslate : m.translate addr size true with
  | error fault =>
      rw [htranslate] at hwrite
      cases hwrite
  | ok result =>
      rw [htranslate] at hwrite
      cases result with
      | error exception => cases hwrite
      | ok result =>
          obtain ⟨physAddr, after⟩ := result
          simp only [simulate_ok, done_bind] at hwrite
          cases hstore : after.storeValue physAddr value size with
          | error fault =>
              rw [hstore] at hwrite
              cases hwrite
          | ok m₁ =>
              rw [hstore] at hwrite
              cases hwrite
              rw [registers_of_storeValue hstore,
                (sameMapping_of_translate htranslate).1.registers]

theorem Covers.writeContinues
    (hcovers : Covers m used) (addr : BitVec 32) (size : ℕ)
    (value : BitVec 32) :
    ((m.alter used others).writeMemory addr size value >>= fun m =>
        Except.ok m.continues) =
      alterOutcome used others (·.alter used others)
        (m.writeMemory addr size value >>= fun m =>
          Except.ok m.continues) := by
  rw [hcovers.writeMemory]
  refine alterOutcome_bind ?_
  intro m' hwrite
  have hcovers' : Covers m' used :=
    hcovers.of_same (congrFun (registers_of_writeMemory hwrite) loadReg)
  rw [hcovers'.continues]
  rfl

variable {instr : Instruction}

theorem execute_alter
    (hcovers : Covers m used) (hdecoded : instr.Decoded)
    (hused : ∀ r ∈ instr.subscripts, r ∈ used) :
    (m.alter used others).execute instr =
      alterOutcome used others (·.alter used others) (m.execute instr) := by
  obtain ⟨opCode, rs, rt, rd, extra⟩ := instr
  have hgeneral : ∀ {r : ℕ}, r < 32 → r ≠ loadReg := by
    unfold loadReg
    omega
  have hrt : rt ≠ loadReg := hgeneral hdecoded.rt
  have hrd : rd ≠ loadReg := hgeneral hdecoded.rd
  have hnext := hcovers.fixed nextPCReg (by decide)
  cases opCode with
  | rfe | special | bcond => rfl
  | syscall | res | unimp => exact hcovers.raiseException _ 0 _
  | add | sub =>
      have hregisters : rs ∈ used ∧ rt ∈ used ∧ rd ∈ used := by
        simpa [Instruction.subscripts] using hused
      obtain ⟨hs, ht, hd⟩ := hregisters
      unfold execute
      simp only [readRegister_alter hs, readRegister_alter ht,
        hcovers.writes hd hrd]
      split
      next => exact hcovers.raiseException _ 0 _
      next => rfl
  | addi =>
      have hregisters : rs ∈ used ∧ rt ∈ used := by
        simpa [Instruction.subscripts] using hused
      obtain ⟨hs, ht⟩ := hregisters
      unfold execute
      simp only [readRegister_alter hs, hcovers.writes ht hrt]
      split
      next => exact hcovers.raiseException _ 0 _
      next => rfl
  | addu | and | nor | or | sllv | slt | sltu | srav | srlv | subu | xor =>
      have hregisters : rs ∈ used ∧ rt ∈ used ∧ rd ∈ used := by
        simpa [Instruction.subscripts] using hused
      obtain ⟨hs, ht, hd⟩ := hregisters
      unfold execute
      simp only [readRegister_alter hs, readRegister_alter ht,
        hcovers.writes hd hrd]
      rfl
  | sll | sra | srl =>
      have hregisters : rt ∈ used ∧ rd ∈ used := by
        simpa [Instruction.subscripts] using hused
      obtain ⟨ht, hd⟩ := hregisters
      unfold execute
      simp only [readRegister_alter ht, hcovers.writes hd hrd]
      rfl
  | addiu | andi | ori | slti | sltiu | xori =>
      have hregisters : rs ∈ used ∧ rt ∈ used := by
        simpa [Instruction.subscripts] using hused
      obtain ⟨hs, ht⟩ := hregisters
      unfold execute
      simp only [readRegister_alter hs, hcovers.writes ht hrt]
      rfl
  | lui =>
      have ht : rt ∈ used := hused rt List.mem_cons_self
      unfold execute
      simp only [hcovers.writes ht hrt]
      rfl
  | mfhi | mflo =>
      have hd : rd ∈ used := hused rd List.mem_cons_self
      have hspecial := hused _ (List.mem_cons_of_mem rd List.mem_cons_self)
      unfold execute
      simp only [readRegister_alter hspecial, hcovers.writes hd hrd]
      rfl
  | mthi | mtlo =>
      have hs : rs ∈ used := hused rs List.mem_cons_self
      have hspecial := hused _ (List.mem_cons_of_mem rs List.mem_cons_self)
      unfold execute
      simp only [readRegister_alter hs, hcovers.writes hspecial (by decide)]
      rfl
  | mult | multu | div | divu =>
      have hregisters : rs ∈ used ∧ rt ∈ used ∧ hiReg ∈ used ∧
          loReg ∈ used := by
        simpa [Instruction.subscripts] using hused
      obtain ⟨hs, ht, hhi, hlo⟩ := hregisters
      unfold execute
      simp only [readRegister_alter hs, readRegister_alter ht,
        hcovers.hiLo hhi hlo (by decide), hcovers.hiLo hlo hhi (by decide)]
      try split_ifs
      all_goals rfl
  | beq | bne =>
      have hregisters : rs ∈ used ∧ rt ∈ used := by
        simpa [Instruction.subscripts] using hused
      obtain ⟨hs, ht⟩ := hregisters
      unfold execute
      simp only [readRegister_alter hs, readRegister_alter ht,
        hcovers.branches]
      rfl
  | bgez | bgtz | blez | bltz | jr =>
      have hs : rs ∈ used := hused rs List.mem_cons_self
      unfold execute
      simp only [readRegister_alter hs, hcovers.branches]
      rfl
  | bgezal | bltzal =>
      have hregisters : rs ∈ used ∧ r31 ∈ used := by
        simpa [Instruction.subscripts] using hused
      obtain ⟨hs, hlink⟩ := hregisters
      unfold execute
      simp only [readRegister_alter hnext, writeRegister_alter hlink,
        readRegister_alter hs,
        (hcovers.write (show r31 ≠ loadReg by decide) _).branches]
      rfl
  | j =>
      unfold execute
      simp only [readRegister_alter hnext]
      rfl
  | jal =>
      have hlink : r31 ∈ used := hused r31 List.mem_cons_self
      unfold execute
      simp only [readRegister_alter hnext, writeRegister_alter hlink]
      rfl
  | jalr =>
      have hregisters : rs ∈ used ∧ rd ∈ used := by
        simpa [Instruction.subscripts] using hused
      obtain ⟨hs, hd⟩ := hregisters
      unfold execute
      simp only [readRegister_alter hnext, writeRegister_alter hd,
        readRegister_alter hs]
      rfl
  | lb | lbu =>
      have hs : rs ∈ used := hused rs List.mem_cons_self
      unfold execute
      simp only [readRegister_alter hs]
      refine hcovers.readBind _ 1 ?_
      intro value m' hcovers'
      exact congrArg Except.ok (hcovers'.loads rt _)
  | lh | lhu =>
      have hs : rs ∈ used := hused rs List.mem_cons_self
      unfold execute
      simp only [readRegister_alter hs]
      split
      next => exact hcovers.raiseException _ _ _
      next =>
        refine hcovers.readBind _ 2 ?_
        intro value m' hcovers'
        exact congrArg Except.ok (hcovers'.loads rt _)
  | lw =>
      have hs : rs ∈ used := hused rs List.mem_cons_self
      unfold execute
      simp only [readRegister_alter hs]
      split
      next => exact hcovers.raiseException _ _ _
      next =>
        refine hcovers.readBind _ 4 ?_
        intro value m' hcovers'
        exact congrArg Except.ok (hcovers'.loads rt value)
  | lwl | lwr =>
      have hregisters : rs ∈ used ∧ rt ∈ used := by
        simpa [Instruction.subscripts] using hused
      obtain ⟨hs, ht⟩ := hregisters
      unfold execute
      simp only [readRegister_alter hs]
      refine hcovers.readBind _ 4 ?_
      intro value m' hcovers'
      simp only [hcovers'.mergedWith ht]
      exact congrArg Except.ok (hcovers'.loads rt _)
  | sb | sh | sw =>
      have hregisters : rs ∈ used ∧ rt ∈ used := by
        simpa [Instruction.subscripts] using hused
      obtain ⟨hs, ht⟩ := hregisters
      unfold execute
      simp only [readRegister_alter hs, readRegister_alter ht]
      exact hcovers.writeContinues _ _ _
  | swl | swr =>
      have hregisters : rs ∈ used ∧ rt ∈ used := by
        simpa [Instruction.subscripts] using hused
      obtain ⟨hs, ht⟩ := hregisters
      unfold execute
      simp only [readRegister_alter hs, readRegister_alter ht]
      refine hcovers.readBind _ 4 ?_
      intro value m' hcovers'
      exact hcovers'.writeContinues _ _ _

end Alter

/-! ## The load in progress and the next one -/

/-- The load in progress is still to be done, and the next one is for a
general register. -/
structure Settled (m : Machine) (e : Executed) : Prop where
  pending : e.machine.readRegister loadReg = m.readRegister loadReg
  next : e.nextLoadReg.toNat < 32

def Settles (m : Machine) : Except Stop Executed → Prop
  | .ok e => Settled m e
  | .error stop => stop.LeavesCpuState

section Settles

variable {m m' : Machine} {instr : Instruction}

theorem cpuState_delayedLoad
    (m : Machine) {nextReg : BitVec 32} (hlt : nextReg.toNat < 32)
    (nextValue : BitVec 32) : CpuState (m.delayedLoad nextReg nextValue) where
  zero := by simp
  pending := by
    rw [readRegister_delayedLoad, if_neg (by decide), if_neg (by decide),
      if_pos rfl]
    exact hlt

theorem settles_raised (which : Exception) (badVAddr : BitVec 32) :
    Settles m (m'.raiseException which badVAddr) :=
  cpuState_delayedLoad (m'.writeRegister badVAddrReg badVAddr)
    (show (0 : BitVec 32).toNat < 32 by decide) 0

theorem leavesCpuState_of_readMemory
    {addr : BitVec 32} {size : ℕ} {stop : Stop}
    (hread : m.readMemory addr size = .error stop) : stop.LeavesCpuState := by
  unfold Machine.readMemory at hread
  cases htranslate : m.translate addr size false with
  | error fault =>
      rw [htranslate] at hread
      cases hread
      trivial
  | ok result =>
      rw [htranslate] at hread
      cases result with
      | error exception =>
          cases hread
          exact cpuState_delayedLoad _ (by decide) 0
      | ok result =>
          simp only [simulate_ok, done_bind] at hread
          cases hload : result.2.load result.1 size with
          | error fault =>
              rw [hload] at hread
              cases hread
              trivial
          | ok value =>
              rw [hload] at hread
              cases hread

theorem leavesCpuState_of_writeMemory
    {addr value : BitVec 32} {size : ℕ} {stop : Stop}
    (hwrite : m.writeMemory addr size value = .error stop) :
    stop.LeavesCpuState := by
  unfold Machine.writeMemory at hwrite
  cases htranslate : m.translate addr size true with
  | error fault =>
      rw [htranslate] at hwrite
      cases hwrite
      trivial
  | ok result =>
      rw [htranslate] at hwrite
      cases result with
      | error exception =>
          cases hwrite
          exact cpuState_delayedLoad _ (by decide) 0
      | ok result =>
          simp only [simulate_ok, done_bind] at hwrite
          cases hstore : result.2.storeValue result.1 value size with
          | error fault =>
              rw [hstore] at hwrite
              cases hwrite
              trivial
          | ok after =>
              rw [hstore] at hwrite
              cases hwrite

theorem settles_jumps
    (hsame : m'.readRegister loadReg = m.readRegister loadReg)
    (pcAfter : BitVec 32) : Settles m (.ok (m'.jumps pcAfter)) :=
  ⟨hsame, Nat.zero_lt_succ 31⟩

theorem settles_branches
    (hsame : m'.readRegister loadReg = m.readRegister loadReg) (taken : Bool)
    (extra : BitVec 32) : Settles m (.ok (m'.branches taken extra)) := by
  cases taken with
  | false => exact settles_jumps hsame _
  | true => exact settles_jumps hsame _

theorem readRegister_loadReg_write
    {r : ℕ} (hne : r ≠ loadReg) (value : BitVec 32) :
    (m.writeRegister r value).readRegister loadReg =
      m.readRegister loadReg := by
  rw [readRegister_writeRegister, if_neg (Ne.symm hne)]

theorem settles_write {r : ℕ} (hne : r ≠ loadReg) (value : BitVec 32) :
    Settles m (.ok (m.writeRegister r value).continues) :=
  settles_jumps (readRegister_loadReg_write hne value) _

theorem settles_hiLo
    {r q : ℕ} (hr : r ≠ loadReg) (hq : q ≠ loadReg)
    {value value' : BitVec 32} :
    Settles m (.ok ((m.writeRegister r value).writeRegister q
      value').continues) := by
  refine settles_jumps ?_ _
  rw [readRegister_loadReg_write hq, readRegister_loadReg_write hr]

theorem settles_loads
    (hsame : m'.readRegister loadReg = m.readRegister loadReg) {rt : ℕ}
    (hrt : rt < 32) (value : BitVec 32) :
    Settles m (.ok (m'.loads rt value)) := by
  refine ⟨hsame, ?_⟩
  rw [Machine.loads, BitVec.toNat_ofNat]
  omega

theorem settles_readBind
    {addr : BitVec 32} {size : ℕ}
    {next : BitVec 32 × Machine → Except Stop Executed}
    (hnext : ∀ value m', m'.readRegister loadReg = m.readRegister loadReg →
      Settles m (next (value, m'))) :
    Settles m (m.readMemory addr size >>= next) := by
  cases hread : m.readMemory addr size with
  | error stop => exact leavesCpuState_of_readMemory hread
  | ok result =>
      exact hnext result.1 result.2
        (congrFun (registers_of_readMemory hread) loadReg)

theorem settles_writeContinues
    {m₀ : Machine} (hsame : m.readRegister loadReg = m₀.readRegister loadReg)
    (addr : BitVec 32) (size : ℕ) (value : BitVec 32) :
    Settles m₀ (m.writeMemory addr size value >>= fun m =>
      .ok m.continues) := by
  cases hwrite : m.writeMemory addr size value with
  | error stop => exact leavesCpuState_of_writeMemory hwrite
  | ok m' =>
      refine settles_jumps ?_ _
      rw [← hsame]
      exact congrFun (registers_of_writeMemory hwrite) loadReg

theorem settles_execute (hdecoded : instr.Decoded) :
    Settles m (m.execute instr) := by
  obtain ⟨opCode, rs, rt, rd, extra⟩ := instr
  have hlt : rt < 32 := hdecoded.rt
  have hgeneral : ∀ {r : ℕ}, r < 32 → r ≠ loadReg := by
    unfold loadReg
    omega
  have hrt : rt ≠ loadReg := hgeneral hlt
  have hrd : rd ≠ loadReg := hgeneral hdecoded.rd
  have hlink : ∀ value, (m.writeRegister r31 value).readRegister loadReg =
      m.readRegister loadReg := readRegister_loadReg_write (by decide)
  cases opCode with
  | rfe | special | bcond => trivial
  | syscall | res | unimp => exact settles_raised _ 0
  | add | sub =>
      unfold execute
      simp only
      split
      next => exact settles_raised _ 0
      next => exact settles_write hrd _
  | addi =>
      unfold execute
      simp only
      split
      next => exact settles_raised _ 0
      next => exact settles_write hrt _
  | addu | and | mfhi | mflo | nor | or | sll | sllv | slt | sltu | sra | srav
  | srl | srlv | subu | xor => exact settles_write hrd _
  | addiu | andi | lui | ori | slti | sltiu | xori =>
      exact settles_write hrt _
  | mthi | mtlo => exact settles_write (by decide) _
  | mult | multu => exact settles_hiLo (by decide) (by decide)
  | div =>
      unfold execute
      simp only
      split_ifs
      · exact settles_hiLo (by decide) (by decide)
      · trivial
      · exact settles_hiLo (by decide) (by decide)
  | divu =>
      unfold execute
      simp only
      split_ifs <;> exact settles_hiLo (by decide) (by decide)
  | beq | bne | bgez | bgtz | blez | bltz => exact settles_branches rfl _ _
  | bgezal | bltzal => exact settles_branches (hlink _) _ _
  | j | jr => exact settles_jumps rfl _
  | jal => exact settles_jumps (hlink _) _
  | jalr => exact settles_jumps (readRegister_loadReg_write hrd _) _
  | lb | lbu | lwl | lwr =>
      exact settles_readBind fun _ _ hsame => settles_loads hsame hlt _
  | lh | lhu | lw =>
      unfold execute
      simp only
      split
      next => exact settles_raised _ _
      next =>
        exact settles_readBind fun _ _ hsame => settles_loads hsame hlt _
  | sb | sh | sw => exact settles_writeContinues rfl _ _ _
  | swl | swr =>
      exact settles_readBind fun _ _ hsame =>
        settles_writeContinues hsame _ _ _

end Settles

/-! ## The instruction as a whole -/

section Instruction

variable {m m' : Machine} {used : List ℕ} {others : ℕ → BitVec 32}

theorem Covers.finish
    {e : Executed} (hcovers : Covers m used) (hsettled : Settled m e) :
    (e.alter used others).finish = e.finish.alter used others := by
  have hcovers' : Covers e.machine used :=
    hcovers.of_same hsettled.pending
  have hwrite : ∀ {r : ℕ}, r ∈ fixedSubscripts → ∀ (m : Machine) value,
      (m.alter used others).writeRegister r value =
        (m.writeRegister r value).alter used others :=
    fun hr _ value => writeRegister_alter (hcovers.fixed _ hr) value
  unfold Executed.finish Executed.alter
  simp only [hcovers'.delayedLoad,
    readRegister_alter (hcovers.fixed pcReg (by decide)),
    readRegister_alter (hcovers.fixed nextPCReg (by decide)),
    hwrite (show prevPCReg ∈ fixedSubscripts by decide),
    hwrite (show pcReg ∈ fixedSubscripts by decide),
    hwrite (show nextPCReg ∈ fixedSubscripts by decide)]

theorem outcome_alter
    {instr : Instruction} (hcovers : Covers m used) (hdecoded : instr.Decoded)
    (hused : ∀ r ∈ instr.subscripts, r ∈ used) :
    (m.alter used others).outcome instr =
      alterOutcome used others (·.alter used others) (m.outcome instr) := by
  unfold Machine.outcome
  rw [execute_alter hcovers hdecoded hused]
  refine alterOutcome_bind ?_
  intro e hexecute
  have hsettles := settles_execute (m := m) hdecoded
  rw [hexecute] at hsettles
  exact congrArg Except.ok (hcovers.finish hsettles)

theorem covers_subscripts (m : Machine) (instr : Instruction) :
    Covers m (m.subscripts instr) where
  fixed := by
    intro r hr
    exact List.mem_append_left _ (List.mem_append_right _ hr)
  pending := List.mem_append_right _ (List.mem_singleton_self _)

theorem Instruction.subscripts_lt
    {instr : Instruction} (hdecoded : instr.Decoded) :
    ∀ r ∈ instr.subscripts, r < numTotalRegs := by
  obtain ⟨opCode, rs, rt, rd, extra⟩ := instr
  have hrs : rs < numTotalRegs := hdecoded.rs.trans (by decide)
  have hrt : rt < numTotalRegs := hdecoded.rt.trans (by decide)
  have hrd : rd < numTotalRegs := hdecoded.rd.trans (by decide)
  have hhi : hiReg < numTotalRegs := by decide
  have hlo : loReg < numTotalRegs := by decide
  have hlink : r31 < numTotalRegs := by decide
  cases opCode <;>
    simp [Instruction.subscripts, hrs, hrt, hrd, hhi, hlo, hlink]

theorem CpuState.subscripts_lt
    (hcpu : CpuState m) {instr : Instruction} (hdecoded : instr.Decoded) :
    ∀ r ∈ m.subscripts instr, r < numTotalRegs := by
  have hfixed : ∀ r ∈ fixedSubscripts, r < numTotalRegs := by
    decide
  intro r hr
  rcases List.mem_append.mp hr with hr | hr
  · rcases List.mem_append.mp hr with hr | hr
    · exact Instruction.subscripts_lt hdecoded r hr
    · exact hfixed r hr
  · rw [List.mem_singleton.mp hr]
    exact hcpu.pending.trans (by decide)

theorem handled_of_decoded
    {instr : Instruction} (hdecoded : instr.Decoded) :
    instr.opCode.handled = true := by
  obtain ⟨hrfe, hspecial, hbcond⟩ := hdecoded.opCode
  cases hop : instr.opCode with
  | rfe => exact (hrfe hop).elim
  | special => exact (hspecial hop).elim
  | bcond => exact (hbcond hop).elim
  | _ => rfl

theorem CpuState.write
    (hcpu : CpuState m) {r : ℕ} (hzero : r ≠ 0) (hload : r ≠ loadReg)
    (value : BitVec 32) : CpuState (m.writeRegister r value) where
  zero := by
    rw [readRegister_writeRegister, if_neg (Ne.symm hzero)]
    exact hcpu.zero
  pending := by
    rw [readRegister_loadReg_write hload]
    exact hcpu.pending

theorem Settled.cpuState {e : Executed} (hsettled : Settled m e) :
    CpuState e.finish := by
  have hloaded := cpuState_delayedLoad e.machine hsettled.next e.nextLoadValue
  have hprev := hloaded.write (show prevPCReg ≠ 0 by decide) (by decide)
    ((e.machine.delayedLoad e.nextLoadReg e.nextLoadValue).readRegister pcReg)
  exact (hprev.write (show pcReg ≠ 0 by decide) (by decide) _).write
    (by decide) (by decide) _

theorem leavesCpuState_outcome
    {instr : Instruction} (hdecoded : instr.Decoded) :
    LeavesCpuState (m.outcome instr) := by
  have hsettles := settles_execute (m := m) hdecoded
  unfold Machine.outcome
  cases hexecute : m.execute instr with
  | error stop =>
      rw [hexecute] at hsettles
      exact hsettles
  | ok e =>
      rw [hexecute] at hsettles
      exact hsettles.cpuState

theorem leavesCpuState_oneInstruction (m : Machine) :
    LeavesCpuState m.oneInstruction := by
  cases hfetch : m.readMemory (m.readRegister pcReg) 4 with
  | error stop =>
      rw [oneInstruction, hfetch]
      exact leavesCpuState_of_readMemory hfetch
  | ok result =>
      rw [oneInstruction_of_fetched hfetch]
      exact leavesCpuState_outcome (decoded_decode result.1)

theorem CpuState.instructionSafe (hcpu : CpuState m) (word : BitVec 32) :
    InstructionSafe m word where
  handled := handled_of_decoded (decoded_decode word)
  inFile := hcpu.subscripts_lt (decoded_decode word)
  onlyThese _ :=
    outcome_alter (covers_subscripts m _) (decoded_decode word) fun _ hr =>
      List.mem_append_left _ (List.mem_append_left _ hr)
  leaves := leavesCpuState_outcome (decoded_decode word)

theorem CpuState.boundary (hboundary : Boundary m m') : CpuState m' := by
  cases hboundary with
  | instruction hdone =>
      have hleaves := leavesCpuState_oneInstruction m
      rw [hdone] at hleaves
      exact hleaves
  | trap hraised =>
      have hleaves := leavesCpuState_oneInstruction m
      rw [hraised] at hleaves
      exact hleaves
  | interrupt =>
      exact cpuState_delayedLoad m (show (0 : BitVec 32).toNat < 32 by decide) 0

/-- Whatever word comes next, and whenever interrupts drain the pending load,
the instruction has a `case`, stays inside of the register file, and leaves
the state of the CPU in order. -/
theorem cpu_state_kept
    (hcpu : CpuState m) (hrun : Relation.ReflTransGen Boundary m m') :
    CpuState m' ∧ (∀ word, InstructionSafe m' word) ∧
      LeavesCpuState m'.oneInstruction := by
  have hcpu' : CpuState m' := by
    cases hrun with
    | refl => exact hcpu
    | tail hrun hlast => exact CpuState.boundary hlast
  exact ⟨hcpu', hcpu'.instructionSafe, leavesCpuState_oneInstruction m'⟩

theorem readRegister_foldl_writeRegister
    (rs : List ℕ) (m : Machine) (q : ℕ) :
    (rs.foldl (·.writeRegister · 0) m).readRegister q =
      if q ∈ rs then 0 else m.readRegister q := by
  induction rs generalizing m with
  | nil => rfl
  | cons r rs ih =>
      rw [List.foldl_cons, ih, readRegister_writeRegister]
      by_cases hqr : q = r
      · simp [hqr]
      · simp [hqr]

theorem cpuState_initRegisters (space : AddrSpace) (m : Machine) :
    CpuState (space.initRegisters m) := by
  have hcleared : CpuState
      ((List.range numTotalRegs).foldl (·.writeRegister · 0) m) := by
    constructor
    · rw [readRegister_foldl_writeRegister, if_pos (by decide)]
    · rw [readRegister_foldl_writeRegister, if_pos (by decide)]
      exact Nat.zero_lt_succ 31
  have hpc := hcleared.write (show pcReg ≠ 0 by decide) (by decide) 0
  have hnext := hpc.write (show nextPCReg ≠ 0 by decide) (by decide) 4
  have hstack := hnext.write (show stackReg ≠ 0 by decide) (by decide)
    space.stackptr
  have hargc := hstack.write (show 4 ≠ 0 by decide) (by decide) space.argc
  exact hargc.write (by decide) (by decide) space.argv

/-- The registers of a new process, an interrupt, and `rfe`. -/
theorem cpu_state_kept_rfe :
    InstructionSafe
      (((AddrSpace.new ⟨0, 0, 0, 0, 0⟩).initRegisters
        (holding (.register .add 8 9 10 0) 1 2)).delayedLoad 0 0)
      0x42000010 := by
  have hkept := cpu_state_kept
    (cpuState_initRegisters (AddrSpace.new ⟨0, 0, 0, 0, 0⟩)
      (holding (.register .add 8 9 10 0) 1 2))
    (.single (.interrupt _))
  exact hkept.2.1 0x42000010

end Instruction

end Nachos
