import Nachos.MipsView

/-!
# Instructions of the simulator and of the architecture
-/

namespace Nachos

open Library Machine

/-- How `RaiseException` is called for a trap. -/
def Mips.Trap.exception : Mips.Trap → Exception
  | .syscall => .syscall
  | .overflow => .overflow
  | .addressError _ => .translation .addressError

def Mips.Trap.badVAddr : Mips.Trap → BitVec 32
  | .addressError addr => addr
  | _ => 0

/-- An outcome of the simulator is the one of the architecture.  At the
handler nothing of the instruction is left. -/
def Implements (frames : List ℤ) (s : Mips.State) (x : Except Stop Machine)
    (y : Except Mips.Trap Mips.State) : Prop :=
  match x, y with
  | .ok m, .ok s' => m.Runnable frames ∧ m.architecture = s'
  | .error (.raised which badVAddr m), .error trap =>
      which = trap.exception ∧ badVAddr = trap.badVAddr ∧
        m.Runnable frames ∧ m.architecture = { s with loaded := 0 }
  | _, _ => False

section Outcomes

variable {frames : List ℤ} {m m' : Machine}

theorem Machine.Runnable.accessed
    (hm : m.Runnable frames) (hafter : Accessed frames m m') :
    m'.Runnable frames := by
  have hread : ∀ r, m'.readRegister r = m.readRegister r :=
    congrFun hafter.registers
  exact ⟨hafter.hosts, by rw [hread]; exact hm.zero,
    by rw [hread]; exact hm.pending⟩

/-- Between two instructions, and at the handler. -/
theorem Machine.Runnable.delayedLoad
    (hhosts : Hosts frames m) {nextReg : BitVec 32} (hnext : nextReg.toNat < 32)
    (nextValue : BitVec 32) :
    (m.delayedLoad nextReg nextValue).Runnable frames := by
  refine ⟨⟨hhosts.table, hhosts.size, hhosts.nodup⟩, ?_, ?_⟩
  · rw [readRegister_delayedLoad, if_pos rfl]
  · rw [readRegister_delayedLoad, if_neg (by decide), if_neg (by decide),
      if_pos rfl]
    exact hnext

theorem runnable_finish
    {e : Executed} (hhosts : Hosts frames e.machine) {r : BitVec 5}
    (hnext : e.nextLoadReg.toNat = r.toNat) : e.finish.Runnable frames := by
  have hlt : e.nextLoadReg.toNat < 32 := hnext.trans_lt r.isLt
  have hbefore := Machine.Runnable.delayedLoad hhosts hlt e.nextLoadValue
  refine ⟨⟨hhosts.table, hhosts.size, hhosts.nodup⟩, ?_, ?_⟩
  · rw [← hbefore.zero]
    simp [Executed.finish, pcReg, nextPCReg, prevPCReg]
  · have hload := hbefore.pending
    simpa [Executed.finish, pcReg, nextPCReg, prevPCReg, loadReg] using hload

/-- An instruction ends with a load in progress. -/
theorem implements_loads
    {s s' : Mips.State} (hhosts : Hosts frames m')
    (hpending : (m'.readRegister loadReg).toNat < 32)
    (r : BitVec 5) (value : BitVec 32)
    (hstate : { (m'.architecture.write r value).goOn
      (m'.architecture.nextPc + 4) with loaded := r } = s') :
    Implements frames s (.ok (m'.loads r.toNat value).finish) (.ok s') := by
  have hnext : (m'.loads r.toNat value).nextLoadReg.toNat = r.toNat := by
    have hlt := r.isLt
    simp only [loads, BitVec.toNat_ofNat]
    omega
  refine ⟨runnable_finish hhosts hnext, ?_⟩
  rw [architecture_finish hpending r hnext, ← hstate]
  rfl

/-- An instruction ends without one. -/
theorem implements_jumps
    {s s' : Mips.State} (hhosts : Hosts frames m')
    (hpending : (m'.readRegister loadReg).toNat < 32) {pcAfter : BitVec 32}
    (hstate : m'.architecture.goOn pcAfter = s') :
    Implements frames s (.ok (m'.jumps pcAfter).finish) (.ok s') := by
  have hnext : (m'.jumps pcAfter).nextLoadReg.toNat = (0 : BitVec 5).toNat :=
    rfl
  refine ⟨runnable_finish hhosts hnext, ?_⟩
  rw [architecture_finish hpending 0 hnext, ← hstate]
  rfl

theorem implements_continues
    {s s' : Mips.State} (hhosts : Hosts frames m')
    (hpending : (m'.readRegister loadReg).toNat < 32)
    (hstate : m'.architecture.goOn (m'.architecture.nextPc + 4) = s') :
    Implements frames s (.ok m'.continues.finish) (.ok s') :=
  implements_jumps hhosts hpending hstate

theorem implements_raised
    (hhosts : Hosts frames m)
    (hpending : (m.readRegister loadReg).toNat < 32) (trap : Mips.Trap) :
    Implements frames m.architecture
      (m.raiseException trap.exception trap.badVAddr) (.error trap) := by
  refine ⟨rfl, rfl, ?_, architecture_raised hpending _⟩
  exact Machine.Runnable.delayedLoad
    (m := m.writeRegister badVAddrReg trap.badVAddr)
    ⟨hhosts.table, hhosts.size, hhosts.nodup⟩ (by decide) 0

end Outcomes

/-! ## Integer instructions -/

section Integer

variable {frames : List ℤ} {m : Machine}

/-- What the `switch` does for a delivery. -/
def Machine.performs (m : Machine) (d : ℕ) :
    Delivery → Except Stop Executed
  | .register value => .ok (m.writeRegister d value).continues
  | .hi value => .ok (m.writeRegister hiReg value).continues
  | .lo value => .ok (m.writeRegister loReg value).continues
  | .hiLo value =>
      .ok ((m.writeRegister hiReg (value.extractLsb' 32 32)).writeRegister
        loReg (value.extractLsb' 0 32)).continues
  | .overflow => m.raiseException .overflow 0

theorem performs_signed
    {d : ℕ} {value : BitVec 32} {x : ℤ} {overflows : Prop}
    [Decidable overflows]
    (hoverflows : overflows ↔ ¬(-2 ^ 31 ≤ x ∧ x < 2 ^ 31))
    (hvalue : value = BitVec.ofInt 32 x) :
    (if overflows then m.raiseException .overflow 0
      else .ok (m.writeRegister d value).continues) =
        m.performs d (.signed x) := by
  rw [Delivery.signed, ← hvalue]
  by_cases hfits : -2 ^ 31 ≤ x ∧ x < 2 ^ 31
  · rw [if_pos hfits, if_neg (by rw [hoverflows]; exact not_not.mpr hfits)]
    rfl
  · rw [if_neg hfits, if_pos (hoverflows.mpr hfits)]
    rfl

theorem performs_hiLo (m : Machine) (d : ℕ) (hi lo : BitVec 32) :
    m.performs d (.hiLo (hi ++ lo)) =
      .ok ((m.writeRegister hiReg hi).writeRegister loReg lo).continues := by
  have hhi : (hi ++ lo).extractLsb' 32 32 = hi := by
    apply BitVec.eq_of_getLsbD_eq
    intro i hi
    simp only [BitVec.getLsbD_extractLsb', BitVec.getLsbD_append]
    grind
  have hlo : (hi ++ lo).extractLsb' 0 32 = lo := by
    apply BitVec.eq_of_getLsbD_eq
    intro i hi
    simp only [BitVec.getLsbD_extractLsb', BitVec.getLsbD_append]
    grind
  simp only [performs, hhi, hlo]

/-- The simulator writes the quotient first. -/
theorem performs_division
    {d : ℕ} {quotient remainder : BitVec 32} {q r : ℤ}
    (hquotient : quotient = BitVec.ofInt 32 q)
    (hremainder : remainder = BitVec.ofInt 32 r) :
    .ok ((m.writeRegister loReg quotient).writeRegister hiReg
      remainder).continues = m.performs d (.division q r) := by
  have hswap : (m.writeRegister loReg quotient).writeRegister hiReg remainder =
      (m.writeRegister hiReg remainder).writeRegister loReg quotient := by
    unfold writeRegister
    simp only [Function.update_comm (show loReg ≠ hiReg by decide)]
  rw [Delivery.division, ← hquotient, ← hremainder, performs_hiLo, hswap]

theorem execute_register
    (op : RegisterOp) (rs rt rd shamt : BitVec 5)
    (hagrees : (IntegerInstruction.register op rs rt rd shamt).Agrees m) :
    m.execute ⟨(IntegerInstruction.register op rs rt rd shamt).opCode,
        rs.toNat, rt.toNat, rd.toNat, shamt.setWidth 32⟩ =
      m.performs rd.toNat (op.delivery (m.readRegister rs.toNat)
        (m.readRegister rt.toNat) shamt (m.readRegister hiReg)
        (m.readRegister loReg)) := by
  have hshamt : (shamt.setWidth 32).toNat = shamt.toNat := by
    have hshort := shamt.isLt
    rw [BitVec.toNat_setWidth, Nat.mod_eq_of_lt (by omega)]
  cases op with
  | sll =>
      simp only [execute, IntegerInstruction.opCode, hshamt]
      rfl
  | srl =>
      have hshift : (m.readRegister rt.toNat).sshiftRight shamt.toNat =
          m.readRegister rt.toNat >>> shamt.toNat := by
        rcases hagrees with rfl | hmsb
        · simp
        · exact BitVec.sshiftRight_eq_of_msb_false hmsb
      simp only [execute, IntegerInstruction.opCode, hshamt, hshift]
      rfl
  | sra =>
      simp only [execute, IntegerInstruction.opCode, hshamt]
      rfl
  | sllv =>
      simp only [execute, IntegerInstruction.opCode, toNat_and_0x1f]
      rfl
  | srlv =>
      have hshift : (m.readRegister rt.toNat).sshiftRight
            ((m.readRegister rs.toNat).toNat % 32) =
          m.readRegister rt.toNat >>>
            ((m.readRegister rs.toNat).toNat % 32) := by
        rcases hagrees with hzero | hmsb
        · simp [hzero]
        · exact BitVec.sshiftRight_eq_of_msb_false hmsb
      simp only [execute, IntegerInstruction.opCode, toNat_and_0x1f, hshift]
      rfl
  | srav =>
      simp only [execute, IntegerInstruction.opCode, toNat_and_0x1f]
      rfl
  | mfhi => rfl
  | mflo => rfl
  | mthi => rfl
  | mtlo => rfl
  | mult =>
      simp only [execute, IntegerInstruction.opCode, RegisterOp.delivery]
      rw [← mult_true, performs_hiLo]
  | multu =>
      simp only [execute, IntegerInstruction.opCode, RegisterOp.delivery]
      rw [← mult_false, performs_hiLo]
  | div =>
      have htraps : ¬(m.readRegister rs.toNat = signBit ∧
          m.readRegister rt.toNat = -1) := hagrees
      simp only [execute, IntegerInstruction.opCode, RegisterOp.delivery]
      by_cases hzero : m.readRegister rt.toNat = 0
      · rw [if_pos hzero, if_pos hzero]
        exact performs_division rfl rfl
      · rw [if_neg hzero, if_neg hzero, if_neg htraps]
        exact performs_division (sdiv_eq_ofInt _ _) (srem_eq_ofInt _ _)
  | divu =>
      simp only [execute, IntegerInstruction.opCode, RegisterOp.delivery]
      by_cases hzero : m.readRegister rt.toNat = 0
      · rw [if_pos hzero, if_pos hzero]
        exact performs_division rfl rfl
      · rw [if_neg hzero, if_neg hzero]
        exact performs_division (udiv_eq_ofInt _ _) (umod_eq_ofInt _ _)
  | add =>
      exact performs_signed (add_overflows_iff _ _) (add_eq_ofInt _ _)
  | addu =>
      simp only [execute, IntegerInstruction.opCode, RegisterOp.delivery,
        BitVec.ofNat_add, BitVec.ofNat_toNat, BitVec.setWidth_eq]
      rfl
  | sub =>
      exact performs_signed (sub_overflows_iff _ _) (sub_eq_ofInt _ _)
  | subu =>
      simp only [execute, IntegerInstruction.opCode, RegisterOp.delivery,
        ← sub_eq_ofInt_toNat]
      rfl
  | and => rfl
  | or => rfl
  | xor => rfl
  | nor => rfl
  | slt => rfl
  | sltu =>
      simp only [execute, IntegerInstruction.opCode, RegisterOp.delivery,
        Delivery.bit, ← ite_eq_bit BitVec.lt_def]
      rfl

theorem execute_immediate
    (op : ImmediateOp) (rs rt : BitVec 5) (imm : BitVec 16) (rd : ℕ) :
    m.execute ⟨(IntegerInstruction.immediate op rs rt imm).opCode, rs.toNat,
        rt.toNat, rd, imm.signExtend 32⟩ =
      m.performs rt.toNat (op.delivery (m.readRegister rs.toNat) imm) := by
  have hsigned : (imm.signExtend 32).toInt = imm.toInt :=
    BitVec.toInt_signExtend_of_le (by decide)
  cases op with
  | addi =>
      exact performs_signed
        (by rw [← hsigned]; exact addi_overflows_iff _ _)
        (by rw [← hsigned]; exact add_eq_ofInt _ _)
  | addiu => rfl
  | slti =>
      simp only [execute, IntegerInstruction.opCode, ImmediateOp.delivery,
        ← hsigned]
      rfl
  | sltiu =>
      simp only [execute, IntegerInstruction.opCode, ImmediateOp.delivery,
        Delivery.bit, ← ite_eq_bit BitVec.lt_def]
      rfl
  | andi =>
      simp only [execute, IntegerInstruction.opCode, signExtend_and_0xffff]
      rfl
  | ori =>
      simp only [execute, IntegerInstruction.opCode, signExtend_and_0xffff]
      rfl
  | xori =>
      simp only [execute, IntegerInstruction.opCode, signExtend_and_0xffff]
      rfl
  | lui =>
      simp only [execute, IntegerInstruction.opCode, signExtend_shiftLeft]
      rfl

/-- A register that an instruction does not use makes no difference. -/
theorem RegisterOp.delivery_congr
    (op : RegisterOp) {a a' b b' : BitVec 32} {shamt : BitVec 5}
    {hi lo : BitVec 32} (ha : Mips.readsRs op = true → a = a')
    (hb : Mips.readsRt op = true → b = b') :
    op.delivery a b shamt hi lo = op.delivery a' b' shamt hi lo := by
  cases op <;> simp_all [Mips.readsRs, Mips.readsRt, RegisterOp.delivery]

theorem RegisterOp.not_register
    {op : RegisterOp} (hop : op.writesRegister = false)
    (a b : BitVec 32) (shamt : BitVec 5) (hi lo value : BitVec 32) :
    op.delivery a b shamt hi lo ≠ .register value := by
  intro heq
  cases op with
  | mthi => cases heq
  | mtlo => cases heq
  | mult => cases heq
  | multu => cases heq
  | div =>
      simp only [RegisterOp.delivery, Delivery.division] at heq
      split at heq <;> cases heq
  | divu =>
      simp only [RegisterOp.delivery, Delivery.division] at heq
      split at heq <;> cases heq
  | _ => cases hop

theorem implements_performs
    (hm : m.Runnable frames) (d : BitVec 5) (delivery : Delivery)
    (hsettled : (∃ value, delivery = .register value) → m.Settled d) :
    Implements frames m.architecture
      (m.performs d.toNat delivery >>= fun e => .ok e.finish)
      (m.architecture.deliver d delivery >>= fun s' =>
        .ok (s'.goOn (m.architecture.nextPc + 4))) := by
  have hhosts : ∀ r value, Hosts frames (m.writeRegister r value) :=
    fun _ _ => ⟨hm.hosts.table, hm.hosts.size, hm.hosts.nodup⟩
  have hload : ∀ {r : ℕ} (value : BitVec 32), r ≠ loadReg →
      ((m.writeRegister r value).readRegister loadReg).toNat < 32 := by
    intro r value hr
    rw [readRegister_writeRegister, if_neg hr.symm]
    exact hm.pending
  cases delivery with
  | register value =>
      have hwritten := architecture_writeRegister hm.pending
        (hsettled ⟨value, rfl⟩) value
      obtain ⟨-, -, -, hne, -⟩ := general_ne d.isLt
      refine implements_continues (hhosts _ _) (hload _ hne) ?_
      rw [hwritten, Mips.State.nextPc_write]
  | hi value =>
      refine implements_continues (hhosts _ _) (hload _ (by decide)) ?_
      rw [architecture_hi]
  | lo value =>
      refine implements_continues (hhosts _ _) (hload _ (by decide)) ?_
      rw [architecture_lo]
  | hiLo value =>
      refine implements_continues
        ⟨hm.hosts.table, hm.hosts.size, hm.hosts.nodup⟩ ?_ ?_
      · rw [readRegister_writeRegister, if_neg (by decide)]
        exact hload _ (by decide)
      · rw [architecture_lo, architecture_hi]
  | overflow => exact implements_raised hm.hosts hm.pending .overflow

theorem implements_integer
    (hm : m.Runnable frames) (i : IntegerInstruction)
    (hdefined : m.architecture.Defined (.integer i)) :
    Implements frames m.architecture (m.outcome (Instruction.decode i.encode))
      (m.architecture.execute (.integer i)) := by
  obtain ⟨hleaves, hsupported⟩ := hdefined
  cases i with
  | register op rs rt rd shamt =>
      have hs : Mips.readsRs op = true → m.readRegister rs.toNat = m.gpr rs :=
        fun hreads => readRegister_eq_gpr hm.zero hm.pending
          (hleaves.imp_right fun h => h.1 hreads)
      have ht : Mips.readsRt op = true → m.readRegister rt.toNat = m.gpr rt :=
        fun hreads => readRegister_eq_gpr hm.zero hm.pending
          (hleaves.imp_right fun h => h.2.1 hreads)
      have hagrees :
          (IntegerInstruction.register op rs rt rd shamt).Agrees m := by
        cases op with
        | srl =>
            rw [IntegerInstruction.Agrees, ht rfl]
            exact hsupported
        | srlv =>
            rw [IntegerInstruction.Agrees, hs rfl, ht rfl]
            exact hsupported
        | div =>
            rw [IntegerInstruction.Agrees, hs rfl, ht rfl]
            exact hsupported
        | _ => trivial
      rw [IntegerInstruction.decode_register, Machine.outcome,
        execute_register op rs rt rd shamt hagrees, op.delivery_congr hs ht]
      refine implements_performs hm rd _ ?_
      rintro ⟨value, hvalue⟩
      cases hwrites : op.writesRegister with
      | true => exact hleaves.imp_right fun h => h.2.2 hwrites
      | false => exact (op.not_register hwrites _ _ _ _ _ _ hvalue).elim
  | immediate op rs rt imm =>
      obtain ⟨rd, hdecode⟩ :=
        IntegerInstruction.decode_immediate op rs rt imm
      have hs : op ≠ .lui → m.readRegister rs.toNat = m.gpr rs :=
        fun hreads => readRegister_eq_gpr hm.zero hm.pending
          (hleaves.imp_right fun h => h.1 hreads)
      have hdelivery : op.delivery (m.readRegister rs.toNat) imm =
          op.delivery (m.gpr rs) imm := by
        by_cases hop : op = .lui
        · rw [hop]
          rfl
        · rw [hs hop]
      rw [hdecode, Machine.outcome, execute_immediate, hdelivery]
      exact implements_performs hm rt _ fun _ =>
        hleaves.imp_right fun h => h.2

end Integer

/-! ## Branches and jumps -/

section Control

variable {frames : List ℤ} {m : Machine}

theorem and_signBit_beq (x : BitVec 32) :
    (x &&& signBit == 0) = decide (0 ≤ x.toInt) := by
  rw [Bool.eq_iff_iff, beq_iff_eq, decide_eq_true_eq, and_signBit_eq_zero,
    BitVec.msb_eq_toInt, decide_eq_false_iff_not, not_lt]

theorem execute_branch
    (m : Machine) (op : Mips.BranchOp) (rs rt : BitVec 5) (rd : ℕ)
    (extra : BitVec 32) (hlinks : op.links = true → rs ≠ 31) :
    m.execute ⟨op.opCode, rs.toNat, (op.field rt).toNat, rd, extra⟩ =
      .ok ((if op.links then m.writeRegister 31 (m.readRegister nextPCReg + 4)
        else m).branches (op.taken (m.readRegister rs.toNat)
          (m.readRegister rt.toNat)) extra) := by
  have hsame : op.links = true → (m.writeRegister r31
      (m.readRegister nextPCReg + 4)).readRegister rs.toNat =
        m.readRegister rs.toNat := by
    intro h
    have hne : rs.toNat ≠ r31 := fun heq =>
      hlinks h (BitVec.eq_of_toNat_eq heq)
    rw [readRegister_writeRegister, if_neg hne]
  have hnegative : ∀ x : BitVec 32,
      (x &&& signBit != 0) = decide (x.toInt < 0) := by
    intro x
    rw [bne, and_signBit_beq, ← decide_not]
    simp only [not_le]
  have hne : ∀ a b : BitVec 32, (a != b) = decide (a ≠ b) := by
    intro a b
    rw [bne, decide_not]
    rfl
  cases op with
  | beq => rfl
  | bne =>
      simp only [execute, Mips.BranchOp.opCode, hne]
      rfl
  | blez => rfl
  | bgtz => rfl
  | bltz =>
      simp only [execute, Mips.BranchOp.opCode, hnegative]
      rfl
  | bgez =>
      simp only [execute, Mips.BranchOp.opCode, and_signBit_beq]
      rfl
  | bltzal =>
      simp only [execute, Mips.BranchOp.opCode, hsame rfl, hnegative]
      rfl
  | bgezal =>
      simp only [execute, Mips.BranchOp.opCode, hsame rfl, and_signBit_beq]
      rfl

theorem jump_target
    {x y : BitVec 32} (target : BitVec 26)
    (hregion : y.extractLsb' 28 4 = x.extractLsb' 28 4) :
    (y &&& 0xf0000000) ||| indexToAddr (target.setWidth 32) =
      x.extractLsb' 28 4 ++ target ++ 0#2 := by
  have hmask : ∀ i < 32, (0xf0000000#32).getLsbD i = decide (28 ≤ i) := by
    decide
  rw [← hregion]
  apply BitVec.eq_of_getLsbD_eq
  intro i hi
  simp only [BitVec.ofNat_eq_ofNat, indexToAddr, BitVec.getLsbD_or,
    BitVec.getLsbD_and, BitVec.getLsbD_shiftLeft, BitVec.getLsbD_setWidth,
    BitVec.getLsbD_append, BitVec.getLsbD_extractLsb', hmask i hi]
  grind

/-- The machine with a register that may have been linked. -/
theorem exists_linked
    (hm : m.Runnable frames) (link : Bool) {d : BitVec 5}
    (hsettled : link = true → m.Settled d) (value : BitVec 32) :
    ∃ m', (if link then m.writeRegister d.toNat value else m) = m' ∧
      Hosts frames m' ∧ (m'.readRegister loadReg).toNat < 32 ∧
      m'.readRegister nextPCReg = m.readRegister nextPCReg ∧
      m'.architecture = if link then m.architecture.write d value
        else m.architecture := by
  refine ⟨_, rfl, ?_⟩
  cases link with
  | false => exact ⟨hm.hosts, hm.pending, rfl, rfl⟩
  | true =>
      obtain ⟨-, hnext, -, hload, -⟩ := general_ne d.isLt
      refine ⟨⟨hm.hosts.table, hm.hosts.size, hm.hosts.nodup⟩, ?_, ?_,
        architecture_writeRegister hm.pending (hsettled rfl) value⟩
      · rw [if_pos rfl, readRegister_writeRegister, if_neg hload.symm]
        exact hm.pending
      · rw [if_pos rfl, readRegister_writeRegister, if_neg hnext.symm]

theorem implements_branch
    (hm : m.Runnable frames) (op : Mips.BranchOp) (rs rt : BitVec 5)
    (offset : BitVec 16)
    (hdefined : m.architecture.Defined (.branch op rs rt offset)) :
    Implements frames m.architecture
      (m.outcome (Instruction.decode
        (Mips.Instruction.branch op rs rt offset).encode))
      (m.architecture.execute (.branch op rs rt offset)) := by
  obtain ⟨hleaves, hsupported⟩ := hdefined
  obtain ⟨rd, hdecode⟩ := Mips.decode_branch op rs rt offset
  have hs : m.readRegister rs.toNat = m.gpr rs :=
    readRegister_eq_gpr hm.zero hm.pending (hleaves.imp_right fun h => h.1)
  have htaken : op.taken (m.readRegister rs.toNat) (m.readRegister rt.toNat) =
      op.taken (m.gpr rs) (m.gpr rt) := by
    rw [hs]
    cases hcompares : op.comparesRt with
    | true =>
        rw [readRegister_eq_gpr hm.zero hm.pending
          (hleaves.imp_right fun h => h.2.1 hcompares)]
    | false => cases op <;> first | rfl | cases hcompares
  obtain ⟨m', hlinked, hhosts, hpending, hnext, hstate⟩ :=
    exists_linked hm op.links (d := 31)
      (fun hlinks => hleaves.imp_right fun h => (h.2.2 hlinks).symm)
      (m.readRegister nextPCReg + 4)
  have hexecute := execute_branch m op rs rt rd (offset.signExtend 32)
    hsupported
  rw [htaken, show (31 : ℕ) = (31 : BitVec 5).toNat from rfl, hlinked]
    at hexecute
  rw [hdecode, Machine.outcome, hexecute]
  unfold branches
  simp only [hnext]
  cases htest : op.taken (m.gpr rs) (m.gpr rt) with
  | true =>
      refine implements_jumps hhosts hpending ?_
      rw [hstate]
      simp only [architecture, htest]
      rfl
  | false =>
      refine implements_jumps hhosts hpending ?_
      rw [hstate, hnext]
      simp only [architecture, htest]
      rfl

theorem implements_jump
    (hm : m.Runnable frames) (link : Bool) (target : BitVec 26)
    (hdefined : m.architecture.Defined (.jump link target)) :
    Implements frames m.architecture
      (m.outcome (Instruction.decode
        (Mips.Instruction.jump link target).encode))
      (m.architecture.execute (.jump link target)) := by
  obtain ⟨hleaves, hsupported⟩ := hdefined
  obtain ⟨rs, rt, rd, hdecode⟩ := decode_jumpWord link target
  obtain ⟨m', hlinked, hhosts, hpending, -, hstate⟩ :=
    exists_linked hm link (d := 31)
      (fun hlinks => hleaves.imp_right fun h => (h hlinks).symm)
      (m.readRegister nextPCReg + 4)
  have htarget := jump_target target hsupported
  simp only [architecture] at htarget
  have hexecute : m.execute ⟨if link then .jal else .j, rs, rt, rd,
      target.setWidth 32⟩ = .ok (m'.jumps
        ((m.readRegister nextPCReg).extractLsb' 28 4 ++ target ++ 0#2)) := by
    rw [← hlinked, ← htarget]
    cases link <;> rfl
  rw [Mips.Instruction.encode, hdecode, Machine.outcome, hexecute]
  refine implements_jumps hhosts hpending ?_
  rw [hstate]
  rfl

theorem implements_jr
    (hm : m.Runnable frames) (rs : BitVec 5)
    (hdefined : m.architecture.Defined (.jr rs)) :
    Implements frames m.architecture
      (m.outcome (Instruction.decode (Mips.Instruction.jr rs).encode))
      (m.architecture.execute (.jr rs)) := by
  have hs : m.readRegister rs.toNat = m.gpr rs :=
    readRegister_eq_gpr hm.zero hm.pending hdefined.1
  rw [Mips.decode_jr]
  refine implements_jumps hm.hosts hm.pending ?_
  rw [hs]
  rfl

theorem implements_jalr
    (hm : m.Runnable frames) (rs rd : BitVec 5)
    (hdefined : m.architecture.Defined (.jalr rs rd)) :
    Implements frames m.architecture
      (m.outcome (Instruction.decode (Mips.Instruction.jalr rs rd).encode))
      (m.architecture.execute (.jalr rs rd)) := by
  obtain ⟨hleaves, hsupported⟩ := hdefined
  obtain ⟨m', hlinked, hhosts, hpending, -, hstate⟩ :=
    exists_linked hm true (d := rd)
      (fun _ => hleaves.imp_right fun h => h.2)
      (m.readRegister nextPCReg + 4)
  have hs : m'.readRegister rs.toNat = m.gpr rs := by
    have hne : rs.toNat ≠ rd.toNat := fun heq =>
      hsupported (BitVec.eq_of_toNat_eq heq)
    rw [← hlinked, if_pos rfl, readRegister_writeRegister, if_neg hne]
    exact readRegister_eq_gpr hm.zero hm.pending
      (hleaves.imp_right fun h => h.1)
  have hexecute : m.execute ⟨.jalr, rs.toNat, 0, rd.toNat, 0⟩ =
      .ok (m'.jumps (m'.readRegister rs.toNat)) := by
    rw [← hlinked]
    rfl
  rw [Mips.decode_jalr, Machine.outcome, hexecute, hs]
  refine implements_jumps hhosts hpending ?_
  rw [hstate]
  rfl

theorem implements_syscall
    (hm : m.Runnable frames) (code : BitVec 20) :
    Implements frames m.architecture
      (m.outcome (Instruction.decode (Mips.Instruction.syscall code).encode))
      (m.architecture.execute (.syscall code)) := by
  have hexecute : m.execute (Instruction.decode
      (Mips.Instruction.syscall code).encode) =
        m.raiseException .syscall 0 := by
    unfold execute
    simp only [Mips.Instruction.encode, decode_syscallWord]
  rw [Machine.outcome, hexecute]
  exact implements_raised hm.hosts hm.pending .syscall

end Control

end Nachos
