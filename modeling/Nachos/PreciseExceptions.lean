import Nachos.IntegerInstructions

/-!
# Precise exceptions

An instruction that raises an exception leaves to the handler what it has
found, apart from the load that was pending; one that does not raise any moves
the program counters on, once.
-/

namespace Nachos

open Machine

/-! ## What is to be shown of an instruction -/

/-- Register 0 is zero, and a load is pending for a general register if for
any. -/
structure Ordinary (m : Machine) : Prop where
  table : m.HasTable
  zero : m.readRegister 0 = 0
  loadReg : (m.readRegister loadReg).toNat < 32

/-- The machine `m'` that the handler finds, if the exception was raised by an
instruction on `m`. -/
structure AtHandler (m : Machine) (badVAddr : BitVec 32) (m' : Machine) :
    Prop where
  memory : m'.mainMemory = m.mainMemory
  zero : m'.readRegister 0 = 0
  pendingLoad : m.readRegister loadReg ≠ 0 →
    m'.readRegister (m.readRegister loadReg).toNat =
      m.readRegister loadValueReg
  others : ∀ r ≤ prevPCReg, r ≠ (m.readRegister loadReg).toNat →
    m'.readRegister r = m.readRegister r
  loadReg : m'.readRegister loadReg = 0
  loadValueReg : m'.readRegister loadValueReg = 0
  badVAddrReg : m'.readRegister badVAddrReg = badVAddr

/-- Where the instruction behind the next one may stand. -/
def Instruction.targets (instr : Instruction) (m : Machine) :
    List (BitVec 32) :=
  let next := m.readRegister nextPCReg
  match instr.opCode with
  | .beq | .bne | .bgez | .bgtz | .blez | .bltz | .bgezal | .bltzal =>
      [next + 4, next + indexToAddr instr.extra]
  | .j | .jal => [((next + 4) &&& 0xf0000000) ||| indexToAddr instr.extra]
  | .jr => [m.readRegister instr.rs]
  | .jalr =>
      [if instr.rs = instr.rd then next + 4 else m.readRegister instr.rs]
  | _ => [next + 4]

/-- The program counters have advanced once. -/
structure Advanced (m : Machine) (instr : Instruction) (m' : Machine) :
    Prop where
  prevPC : m'.readRegister prevPCReg = m.readRegister pcReg
  pc : m'.readRegister pcReg = m.readRegister nextPCReg
  nextPC : m'.readRegister nextPCReg ∈ instr.targets m

/-- The instruction raises its exception precisely, or it advances. -/
def Precise (m : Machine) : Prop :=
  match m.oneInstruction with
  | .ok m' => ∃ word fetched,
      m.readMemory (m.readRegister pcReg) 4 = .ok (word, fetched) ∧
        Advanced m (Instruction.decode word) m'
  | .error (.raised _ badVAddr m') => AtHandler m badVAddr m'
  | .error (.fault _) => False

/-- The division that the host does not survive. -/
def DivisionTraps (m : Machine) (instr : Instruction) : Prop :=
  instr.opCode = .div ∧ m.readRegister instr.rs = signBit ∧
    m.readRegister instr.rt = -1

/-! ## The instruction behind its fetch -/

/-- What `Decode` makes of a word. -/
structure Instruction.Decoded (instr : Instruction) : Prop where
  rs : instr.rs < 32
  rt : instr.rt < 32
  rd : instr.rd < 32
  opCode : instr.opCode ≠ .rfe ∧ instr.opCode ≠ .special ∧
    instr.opCode ≠ .bcond

theorem mem_of_getD {α : Type} (l : List α) (n : ℕ) (d : α) :
    l.getD n d ∈ d :: l := by
  rw [List.getD_eq_getElem?_getD]
  cases hget : l[n]? with
  | none => simp
  | some x =>
      rw [Option.getD_some]
      exact List.mem_cons_of_mem d (List.mem_of_getElem? hget)

theorem decodeOpCode_ne
    (word : BitVec 32) {entry : OpCode} (hentry : entry ≠ .rfe) :
    Instruction.decodeOpCode word entry ≠ .rfe ∧
      Instruction.decodeOpCode word entry ≠ .special ∧
      Instruction.decodeOpCode word entry ≠ .bcond := by
  cases entry with
  | rfe => exact (hentry rfl).elim
  | special =>
      have htable : ∀ opCode ∈ OpCode.res :: specialTable,
          opCode ≠ .rfe ∧ opCode ≠ .special ∧ opCode ≠ .bcond := by
        decide
      exact htable _ (mem_of_getD specialTable _ .res)
  | bcond =>
      unfold Instruction.decodeOpCode
      simp only
      split_ifs <;> simp
  | _ => simp [Instruction.decodeOpCode]

theorem decoded_decode (word : BitVec 32) :
    (Instruction.decode word).Decoded := by
  have hfield : ∀ x : BitVec 32, (x &&& 0x1f).toNat < 32 := by
    intro x
    rw [toNat_and_0x1f]
    exact Nat.mod_lt _ (by decide)
  have hentries : ∀ entry ∈ (OpCode.res, Format.i) :: opTable,
      entry.1 ≠ .rfe := by
    decide
  exact {
    rs := hfield _
    rt := hfield _
    rd := hfield _
    opCode := decodeOpCode_ne word
      (hentries _ (mem_of_getD opTable _ (.res, .i))) }

/-- The instruction is through with its work; the program counters and the
pending load are still to be dealt with. -/
structure Ready (m : Machine) (instr : Instruction) (e : Executed) : Prop where
  control : ∀ r, pcReg ≤ r → r ≤ loadReg →
    e.machine.readRegister r = m.readRegister r
  pcAfter : e.pcAfter ∈ instr.targets m

def Behaves (m : Machine) (instr : Instruction) :
    Except Stop Executed → Prop
  | .ok e => Ready m instr e
  | .error (.raised _ badVAddr m') => AtHandler m badVAddr m'
  | .error (.fault _) => False

section Behaves

variable {m m' : Machine} {instr : Instruction}

/-- The load in progress ends in a general register. -/
theorem readRegister_delayedLoad_of_pc
    (hlt : (m.readRegister loadReg).toNat < 32) (reg value : BitVec 32)
    {r : ℕ} (hr : pcReg ≤ r) (hle : r ≤ prevPCReg) :
    (m.delayedLoad reg value).readRegister r = m.readRegister r := by
  unfold pcReg at hr
  unfold prevPCReg at hle
  rw [readRegister_delayedLoad, if_neg (by omega),
    if_neg (by unfold loadValueReg; omega),
    if_neg (by unfold loadReg; omega), if_neg (by omega)]

theorem Ready.advanced
    {e : Executed} (hready : Ready m instr e) (hordinary : Ordinary m) :
    Advanced m instr e.finish := by
  have hload := hready.control loadReg (by decide) (by decide)
  have hlt : (e.machine.readRegister Nachos.loadReg).toNat < 32 := by
    rw [hload]
    exact hordinary.loadReg
  have hpc := readRegister_delayedLoad_of_pc hlt e.nextLoadReg
    e.nextLoadValue (r := pcReg) (by decide) (by decide)
  have hnext := readRegister_delayedLoad_of_pc hlt e.nextLoadReg
    e.nextLoadValue (r := nextPCReg) (by decide) (by decide)
  rw [hready.control _ (by decide) (by decide)] at hpc hnext
  constructor
  · rw [← hpc]
    rfl
  · rw [← hnext]
    rfl
  · exact hready.pcAfter

theorem atHandler_of_raised
    (hordinary : Ordinary m) (badVAddr : BitVec 32) :
    AtHandler m badVAddr
      ((m.writeRegister badVAddrReg badVAddr).delayedLoad 0 0) := by
  have hlt := hordinary.loadReg
  have hkept : ∀ r ≤ loadValueReg,
      (m.writeRegister badVAddrReg badVAddr).readRegister r =
        m.readRegister r := by
    intro r hr
    rw [readRegister_writeRegister, if_neg]
    unfold loadValueReg at hr
    unfold badVAddrReg
    omega
  have hload := hkept loadReg (by decide)
  have hvalue := hkept loadValueReg (by decide)
  constructor
  · rfl
  · simp
  · intro hpending
    have hpos : (m.readRegister loadReg).toNat ≠ 0 := by
      intro hzero
      apply hpending
      exact BitVec.eq_of_toNat_eq hzero
    have hnumber : Nachos.loadReg = 37 := rfl
    rw [readRegister_delayedLoad, hload, if_neg hpos,
      if_neg (by unfold loadValueReg; omega), if_neg (by omega), if_pos rfl,
      hvalue]
  · intro r hr hne
    unfold prevPCReg at hr
    rw [readRegister_delayedLoad, hload,
      if_neg (show r ≠ loadValueReg by unfold loadValueReg; omega),
      if_neg (show r ≠ Nachos.loadReg by unfold Nachos.loadReg; omega),
      if_neg hne, hkept r (by unfold loadValueReg; omega)]
    split
    next hzero => rw [hzero, hordinary.zero]
    next => rfl
  · rw [readRegister_delayedLoad]
    rfl
  · rw [readRegister_delayedLoad]
    rfl
  · rw [readRegister_delayedLoad, hload, if_neg (by decide),
      if_neg (by decide), if_neg (by decide),
      if_neg (by unfold badVAddrReg; omega), readRegister_writeRegister,
      if_pos rfl]

theorem behaves_raised
    (hordinary : Ordinary m) (which : Exception) (badVAddr : BitVec 32) :
    Behaves m instr (m.raiseException which badVAddr) :=
  atHandler_of_raised hordinary badVAddr

/-- The instruction does not look at the rest of the machine. -/
theorem targets_congr (hsame : m'.registers = m.registers) :
    instr.targets m' = instr.targets m := by
  unfold Instruction.targets
  simp only [readRegister, hsame]

theorem Behaves.of_same
    (hsame : m'.registers = m.registers)
    (hmemory : m'.mainMemory = m.mainMemory) {outcome : Except Stop Executed}
    (hbehaves : Behaves m' instr outcome) : Behaves m instr outcome := by
  have hread : m'.readRegister = m.readRegister := hsame
  cases outcome with
  | ok e =>
      constructor
      · intro r hr hle
        rw [hbehaves.control r hr hle, hread]
      · rw [← targets_congr hsame]
        exact hbehaves.pcAfter
  | error stop =>
      cases stop with
      | fault fault => exact hbehaves
      | raised which badVAddr after =>
          have hat : AtHandler m' badVAddr after := hbehaves
          exact {
            memory := hat.memory.trans hmemory
            zero := hat.zero
            pendingLoad := by
              rw [← hread]
              exact hat.pendingLoad
            others := by
              rw [← hread]
              exact hat.others
            loadReg := hat.loadReg
            loadValueReg := hat.loadValueReg
            badVAddrReg := hat.badVAddrReg }

theorem Ordinary.of_same
    (hordinary : Ordinary m) (hsame : m'.registers = m.registers)
    (htable : m'.HasTable) : Ordinary m' := by
  have hread : m'.readRegister = m.readRegister := hsame
  constructor
  · exact htable
  · rw [hread]
    exact hordinary.zero
  · rw [hread]
    exact hordinary.loadReg

theorem behaves_read
    (hordinary : Ordinary m) {size : ℕ} (haccess : IsAccess size)
    (addr : BitVec 32) (next : BitVec 32 × Machine → Except Stop Executed)
    (hnext : ∀ value m', Ordinary m' → Behaves m' instr (next (value, m'))) :
    Behaves m instr (m.readMemory addr size >>= next) := by
  rcases readMemory_cases hordinary.table haccess addr with
    ⟨exception, hraised, -⟩ |
      ⟨-, m', value, hread, -, -, -, hsame, hmemory, htable⟩
  · rw [hraised]
    exact behaves_raised hordinary _ addr
  · rw [hread]
    exact (hnext value m' (hordinary.of_same hsame.registers htable)).of_same
      hsame.registers hmemory

theorem behaves_write
    (hordinary : Ordinary m) {size : ℕ} (haccess : IsAccess size)
    (addr value : BitVec 32)
    (hafter : m.readRegister nextPCReg + 4 ∈ instr.targets m) :
    Behaves m instr (do
      let m' ← m.writeMemory addr size value
      return m'.continues) := by
  rcases writeMemory_cases hordinary.table haccess addr value with
    ⟨exception, hraised⟩ | ⟨-, m', hwrite, -, -, hsame, -, -⟩
  · rw [hraised]
    exact behaves_raised hordinary _ addr
  · rw [hwrite]
    have hread : m'.readRegister = m.readRegister := hsame.registers
    constructor
    · intro r _ _
      rw [← hread]
      rfl
    · rw [← hread] at hafter
      exact hafter

/-- The registers from the program counters on are the same. -/
def SameControl (m m' : Machine) : Prop :=
  ∀ r, pcReg ≤ r → m'.readRegister r = m.readRegister r

theorem SameControl.write
    (hsame : SameControl m m') {r : ℕ} (hr : r < pcReg) (value : BitVec 32) :
    SameControl m (m'.writeRegister r value) := by
  intro q hq
  rw [readRegister_writeRegister, if_neg (by omega)]
  exact hsame q hq

theorem sameControl_write {r : ℕ} (hr : r < pcReg) (value : BitVec 32) :
    SameControl m (m.writeRegister r value) :=
  SameControl.write (fun _ _ => rfl) hr value

theorem ready_jumps
    (hsame : SameControl m m') {pcAfter : BitVec 32}
    (hafter : pcAfter ∈ instr.targets m) :
    Ready m instr (m'.jumps pcAfter) where
  control r hr _ := hsame r hr
  pcAfter := hafter

theorem ready_continues
    (hsame : SameControl m m')
    (hafter : m.readRegister nextPCReg + 4 ∈ instr.targets m) :
    Ready m instr m'.continues where
  control r hr _ := hsame r hr
  pcAfter := by
    rw [← hsame nextPCReg (by decide)] at hafter
    exact hafter

theorem ready_branches
    (hsame : SameControl m m')
    (htargets : instr.targets m = [m.readRegister nextPCReg + 4,
      m.readRegister nextPCReg + indexToAddr instr.extra])
    (taken : Bool) : Ready m instr (m'.branches taken instr.extra) := by
  cases taken with
  | false =>
      refine ready_continues hsame ?_
      rw [htargets]
      exact List.mem_cons_self
  | true =>
      refine ready_jumps hsame ?_
      rw [htargets, hsame nextPCReg (by decide)]
      exact List.mem_cons_of_mem _ List.mem_cons_self

theorem ready_loads
    (hafter : m.readRegister nextPCReg + 4 ∈ instr.targets m)
    (reg : ℕ) (value : BitVec 32) : Ready m instr (m.loads reg value) where
  control _ _ _ := rfl
  pcAfter := hafter

/-- `Hi` and `Lo` are written. -/
theorem ready_hiLo
    (hafter : m.readRegister nextPCReg + 4 ∈ instr.targets m)
    {r q : ℕ} (hrq : r = hiReg ∧ q = loReg ∨ r = loReg ∧ q = hiReg)
    {value value' : BitVec 32} :
    Ready m instr ((m.writeRegister r value).writeRegister q
      value').continues := by
  have hr : r < pcReg := by
    unfold pcReg hiReg loReg at *
    omega
  have hq : q < pcReg := by
    unfold pcReg hiReg loReg at *
    omega
  exact ready_continues ((sameControl_write hr value).write hq value') hafter

/-- The arithmetic that can overflow. -/
theorem behaves_checked
    (hordinary : Ordinary m) {overflows : Prop} [Decidable overflows]
    {r : ℕ} (hr : r < pcReg) (value : BitVec 32)
    (hafter : m.readRegister nextPCReg + 4 ∈ instr.targets m) :
    Behaves m instr (if overflows then m.raiseException .overflow 0
      else .ok (m.writeRegister r value).continues) := by
  split
  next => exact behaves_raised hordinary .overflow 0
  next => exact ready_continues (sameControl_write hr value) hafter

/-- The test of an address. -/
theorem behaves_aligned
    (hordinary : Ordinary m) {misaligned : Prop} [Decidable misaligned]
    (addr : BitVec 32) {outcome : Except Stop Executed}
    (houtcome : Behaves m instr outcome) :
    Behaves m instr (if misaligned
      then m.raiseException (.translation .addressError) addr
      else outcome) := by
  split
  next => exact behaves_raised hordinary _ addr
  next => exact houtcome

/-! ## The cases of the `switch` -/

theorem behaves_execute
    (hordinary : Ordinary m) (hdecoded : instr.Decoded)
    (htraps : ¬DivisionTraps m instr) : Behaves m instr (m.execute instr) := by
  obtain ⟨opCode, rs, rt, rd, extra⟩ := instr
  obtain ⟨hrs, hrt, hrd, hrfe, hspecial, hbcond⟩ := hdecoded
  have hgeneral : ∀ {r : ℕ}, r < 32 → r < pcReg := by
    unfold pcReg
    omega
  have hword : IsAccess 4 := .inr (.inr rfl)
  have hhalf : IsAccess 2 := .inr (.inl rfl)
  have hbyte : IsAccess 1 := .inl rfl
  cases opCode with
  | rfe => exact (hrfe rfl).elim
  | special => exact (hspecial rfl).elim
  | bcond => exact (hbcond rfl).elim
  | syscall | res | unimp => exact behaves_raised hordinary _ 0
  | add | sub =>
      exact behaves_checked hordinary (hgeneral hrd) _ List.mem_cons_self
  | addi =>
      exact behaves_checked hordinary (hgeneral hrt) _ List.mem_cons_self
  | addu | and | mfhi | mflo | nor | or | sll | sllv | slt | sltu | sra | srav
  | srl | srlv | subu | xor =>
      exact ready_continues (sameControl_write (hgeneral hrd) _)
        List.mem_cons_self
  | addiu | andi | lui | ori | slti | sltiu | xori =>
      exact ready_continues (sameControl_write (hgeneral hrt) _)
        List.mem_cons_self
  | mthi | mtlo =>
      exact ready_continues (sameControl_write (by decide) _)
        List.mem_cons_self
  | mult | multu =>
      exact ready_hiLo List.mem_cons_self (.inl ⟨rfl, rfl⟩)
  | div =>
      unfold execute
      simp only
      split
      next => exact ready_hiLo List.mem_cons_self (.inr ⟨rfl, rfl⟩)
      next =>
        rw [if_neg (show ¬(m.readRegister rs = signBit ∧
          m.readRegister rt = -1) from fun h => htraps ⟨rfl, h⟩)]
        exact ready_hiLo List.mem_cons_self (.inr ⟨rfl, rfl⟩)
  | divu =>
      unfold execute
      simp only
      split <;> exact ready_hiLo List.mem_cons_self (.inr ⟨rfl, rfl⟩)
  | beq | bne | bgez | bgtz | blez | bltz =>
      exact ready_branches (fun _ _ => rfl) rfl _
  | bgezal | bltzal =>
      exact ready_branches (sameControl_write (by decide) _) rfl _
  | j => exact ready_jumps (fun _ _ => rfl) List.mem_cons_self
  | jal =>
      exact ready_jumps (sameControl_write (by decide) _) List.mem_cons_self
  | jr => exact ready_jumps (fun _ _ => rfl) List.mem_cons_self
  | jalr =>
      refine ready_jumps (sameControl_write (hgeneral hrd) _) ?_
      rw [readRegister_writeRegister]
      exact List.mem_cons_self
  | lb | lbu =>
      exact behaves_read hordinary hbyte _ _ fun _ _ _ =>
        ready_loads List.mem_cons_self rt _
  | lh | lhu =>
      exact behaves_aligned hordinary _
        (behaves_read hordinary hhalf _ _ fun _ _ _ =>
          ready_loads List.mem_cons_self rt _)
  | lw =>
      exact behaves_aligned hordinary _
        (behaves_read hordinary hword _ _ fun _ _ _ =>
          ready_loads List.mem_cons_self rt _)
  | lwl | lwr =>
      exact behaves_read hordinary hword _ _ fun _ _ _ =>
        ready_loads List.mem_cons_self rt _
  | sb => exact behaves_write hordinary hbyte _ _ List.mem_cons_self
  | sh => exact behaves_write hordinary hhalf _ _ List.mem_cons_self
  | sw => exact behaves_write hordinary hword _ _ List.mem_cons_self
  | swl | swr =>
      exact behaves_read hordinary hword _ _ fun _ _ hordinary' =>
        behaves_write hordinary' hword _ _ List.mem_cons_self

theorem execute_of_traps (htraps : DivisionTraps m instr) :
    m.execute instr = .error (.fault .undefinedBehaviour) := by
  obtain ⟨opCode, rs, rt, rd, extra⟩ := instr
  obtain ⟨hop, hrs, hrt⟩ := htraps
  subst hop
  unfold execute
  simp only at hrs hrt ⊢
  rw [if_neg (by rw [hrt]; decide), if_pos ⟨hrs, hrt⟩]

end Behaves

/-! ## The instruction as a whole -/

/-- The instruction to be fetched is the division that traps. -/
def Traps (m : Machine) : Prop :=
  ∃ word fetched, m.readMemory (m.readRegister pcReg) 4 = .ok (word, fetched) ∧
    DivisionTraps m (Instruction.decode word)

section Whole

variable {m : Machine}

theorem precise_of_not_traps (hordinary : Ordinary m) (htraps : ¬Traps m) :
    Precise m := by
  unfold Precise
  rcases readMemory_cases hordinary.table (.inr (.inr rfl))
      (m.readRegister pcReg) with
    ⟨exception, hraised, -⟩ |
      ⟨-, fetched, word, hread, -, -, -, hsame, hmemory, htable⟩
  · rw [oneInstruction, hraised]
    exact atHandler_of_raised hordinary _
  · have hregisters : fetched.readRegister = m.readRegister := hsame.registers
    have hordinary' := hordinary.of_same hsame.registers htable
    have hbehaves := behaves_execute hordinary' (decoded_decode word) (by
      intro htraps'
      rw [DivisionTraps, hregisters] at htraps'
      exact htraps ⟨word, fetched, hread, htraps'⟩)
    rw [oneInstruction_of_fetched hread, Machine.outcome]
    have hback := hbehaves.of_same hsame.registers hmemory
    cases hexecute : fetched.execute (Instruction.decode word) with
    | ok e =>
        rw [hexecute] at hback
        exact ⟨word, fetched, hread, hback.advanced hordinary⟩
    | error stop =>
        rw [hexecute] at hback
        cases stop with
        | fault fault => exact hback
        | raised which badVAddr m' => exact hback

theorem not_precise_of_traps (htraps : Traps m) : ¬Precise m := by
  obtain ⟨word, fetched, hread, htraps⟩ := htraps
  have hregisters : fetched.readRegister = m.readRegister :=
    registers_of_readMemory hread
  rw [DivisionTraps, ← hregisters] at htraps
  rw [Precise, oneInstruction_of_fetched hread, Machine.outcome,
    execute_of_traps htraps]
  exact id

/-- Exceptions are precise, and the program counters advance otherwise, unless
the instruction is the division of the least number by -1. -/
theorem precise_iff (hordinary : Ordinary m) : Precise m ↔ ¬Traps m :=
  ⟨fun hprecise htraps => not_precise_of_traps htraps hprecise,
    precise_of_not_traps hordinary⟩

theorem ordinary_holding (i : IntegerInstruction) (a b : BitVec 32) :
    Ordinary (holding i a b) where
  table := ⟨_, rfl, le_rfl⟩
  zero := rfl
  loadReg := Nat.zero_lt_succ 31

/-- `add $10, $8, $9` with a sum that does not fit. -/
theorem precise_add :
    Precise (holding (.register .add 8 9 10 0) (BitVec.intMin 32) (-1)) := by
  rw [precise_iff (ordinary_holding _ _ _)]
  intro htraps
  obtain ⟨word, fetched, hread, hdiv, -⟩ := htraps
  obtain ⟨m, hm⟩ :=
    fetch_holding (.register .add 8 9 10 0) (BitVec.intMin 32) (-1)
  rw [hm, Except.ok.injEq, Prod.mk.injEq] at hread
  rw [← hread.1, IntegerInstruction.decode_register] at hdiv
  cases hdiv

/-- `div $8, $9` of the least number by -1. -/
theorem not_precise_div :
    Ordinary (holding (.register .div 8 9 0 0) (BitVec.intMin 32) (-1)) ∧
      ¬Precise
        (holding (.register .div 8 9 0 0) (BitVec.intMin 32) (-1)) := by
  refine ⟨ordinary_holding _ _ _, not_precise_of_traps ?_⟩
  obtain ⟨m, hm⟩ :=
    fetch_holding (.register .div 8 9 0 0) (BitVec.intMin 32) (-1)
  refine ⟨_, m, hm, ?_⟩
  rw [IntegerInstruction.decode_register]
  exact ⟨rfl, rfl, rfl⟩

end Whole

end Nachos
