import Nachos.PreciseExceptions
import Nachos.Library.Outcomes

/-!
# Machines that run alike

The simulator looks at registers and memory only through a few functions.  Two
machines for which these agree, before and after, cannot be told apart by any
instruction.
-/

namespace Nachos

open Library Machine

/-- The same exception, with machines that are related when the handler is
entered, or the same failure of the simulator. -/
inductive SameStop (R : Machine → Machine → Prop) : Stop → Stop → Prop
  | fault (fault : Fault) : SameStop R (.fault fault) (.fault fault)
  | raised {which : Exception} {badVAddr : BitVec 32} {m v : Machine} :
      R m v → SameStop R (.raised which badVAddr m) (.raised which badVAddr v)

/-- Both machines have come to the same value. -/
def SameResult {Value : Type} (R : Machine → Machine → Prop)
    (result result' : Value × Machine) : Prop :=
  result.1 = result'.1 ∧ R result.2 result'.2

/-- Related machines have the same registers, also when these have been
written. -/
structure TwinRegisters (R : Machine → Machine → Prop) : Prop where
  readRegister : ∀ {m v r}, R m v → r < numTotalRegs →
    m.readRegister r = v.readRegister r
  writeRegister : ∀ {m v}, R m v → ∀ r value,
    R (m.writeRegister r value) (v.writeRegister r value)

/-- What has to be known of a relation between machines, for it to be kept by
whatever they run. -/
structure Twins (R : Machine → Machine → Prop) : Prop extends
    TwinRegisters R where
  readMemory : ∀ {m v size}, R m v → IsAccess size → ∀ addr,
    SameOutcome (SameStop R) (SameResult R) (m.readMemory addr size)
      (v.readMemory addr size)
  writeMemory : ∀ {m v size}, R m v → IsAccess size → ∀ addr value,
    SameOutcome (SameStop R) R (m.writeMemory addr size value)
      (v.writeMemory addr size value)

section Execution

variable {R : Machine → Machine → Prop} {m v : Machine}

namespace TwinRegisters

theorem delayedLoad
    (htwins : TwinRegisters R) (hsame : R m v)
    (nextReg nextValue : BitVec 32) :
    R (m.delayedLoad nextReg nextValue) (v.delayedLoad nextReg nextValue) := by
  unfold Machine.delayedLoad
  simp only [htwins.readRegister hsame (show loadReg < numTotalRegs by decide),
    htwins.readRegister hsame (show loadValueReg < numTotalRegs by decide)]
  have hpending := htwins.writeRegister hsame
    (v.readRegister loadReg).toNat (v.readRegister loadValueReg)
  have hnext := htwins.writeRegister (htwins.writeRegister hpending
    loadReg nextReg) loadValueReg nextValue
  exact htwins.writeRegister hnext 0 0

theorem raiseException
    {Result Result' : Type} {S : Result → Result' → Prop}
    (htwins : TwinRegisters R) (hsame : R m v) (which : Exception)
    (badVAddr : BitVec 32) :
    SameOutcome (SameStop R) S (m.raiseException which badVAddr)
      (v.raiseException which badVAddr) :=
  .error (.raised (htwins.delayedLoad
    (htwins.writeRegister hsame badVAddrReg badVAddr) 0 0))

end TwinRegisters

namespace Twins

/-- What the `switch` leaves on both machines. -/
structure SameExecuted (R : Machine → Machine → Prop) (e e' : Executed) :
    Prop where
  machine : R e.machine e'.machine
  pcAfter : e.pcAfter = e'.pcAfter
  nextLoadReg : e.nextLoadReg = e'.nextLoadReg
  nextLoadValue : e.nextLoadValue = e'.nextLoadValue

theorem continues (htwins : Twins R) (hsame : R m v) :
    SameExecuted R m.continues v.continues := by
  have hnext := htwins.readRegister hsame
    (show nextPCReg < numTotalRegs by decide)
  constructor
  case machine => exact hsame
  case pcAfter => exact congrArg (· + 4) hnext
  case nextLoadReg => rfl
  case nextLoadValue => rfl

theorem jumps (hsame : R m v) (pcAfter : BitVec 32) :
    SameExecuted R (m.jumps pcAfter) (v.jumps pcAfter) :=
  ⟨hsame, rfl, rfl, rfl⟩

theorem branches
    (htwins : Twins R) (hsame : R m v) (taken : Bool) (extra : BitVec 32) :
    SameExecuted R (m.branches taken extra) (v.branches taken extra) := by
  unfold Machine.branches
  cases taken with
  | false => exact htwins.continues hsame
  | true =>
      rw [htwins.readRegister hsame (show nextPCReg < numTotalRegs by decide)]
      exact jumps hsame _

theorem loads
    (htwins : Twins R) (hsame : R m v) (reg : ℕ) (value : BitVec 32) :
    SameExecuted R (m.loads reg value) (v.loads reg value) := by
  obtain ⟨hmachine, hpcAfter, -, -⟩ := htwins.continues hsame
  exact ⟨hmachine, hpcAfter, rfl, rfl⟩

theorem writes
    (htwins : Twins R) (hsame : R m v) (r : ℕ) (value : BitVec 32) :
    SameOutcome (SameStop R) (SameExecuted R)
      (.ok (m.writeRegister r value).continues)
      (.ok (v.writeRegister r value).continues) :=
  .ok (htwins.continues (htwins.writeRegister hsame r value))

theorem hiLo
    (htwins : Twins R) (hsame : R m v) (r q : ℕ) (value value' : BitVec 32) :
    SameOutcome (SameStop R) (SameExecuted R)
      (.ok ((m.writeRegister r value).writeRegister q value').continues)
      (.ok ((v.writeRegister r value).writeRegister q value').continues) :=
  htwins.writes (htwins.writeRegister hsame r value) q value'

theorem mergedWith
    (htwins : Twins R) (hsame : R m v) {rt : ℕ} (hrt : rt < numTotalRegs) :
    m.mergedWith rt = v.mergedWith rt := by
  unfold Machine.mergedWith
  rw [htwins.readRegister hsame (show loadReg < numTotalRegs by decide),
    htwins.readRegister hsame (show loadValueReg < numTotalRegs by decide),
    htwins.readRegister hsame hrt]

/-- What comes behind a read of memory. -/
theorem readBind
    {Result Result' : Type} {S : Result → Result' → Prop} {size : ℕ}
    {next : BitVec 32 × Machine → Except Stop Result}
    {next' : BitVec 32 × Machine → Except Stop Result'}
    (htwins : Twins R) (hsame : R m v) (haccess : IsAccess size)
    (addr : BitVec 32)
    (hnext : ∀ value m' v', R m' v' →
      SameOutcome (SameStop R) S (next (value, m')) (next' (value, v'))) :
    SameOutcome (SameStop R) S (m.readMemory addr size >>= next)
      (v.readMemory addr size >>= next') := by
  refine (htwins.readMemory hsame haccess addr).bind ?_
  rintro ⟨value, m'⟩ ⟨value', v'⟩ ⟨hvalue, hafter⟩
  simp only at hvalue
  subst hvalue
  exact hnext value m' v' hafter

theorem writeContinues
    {size : ℕ} (htwins : Twins R) (hsame : R m v) (haccess : IsAccess size)
    (addr value : BitVec 32) :
    SameOutcome (SameStop R) (SameExecuted R)
      (m.writeMemory addr size value >>= fun m => Except.ok m.continues)
      (v.writeMemory addr size value >>= fun v => Except.ok v.continues) := by
  refine (htwins.writeMemory hsame haccess addr value).bind ?_
  intro m' v' hafter
  exact .ok (htwins.continues hafter)

/-- The `switch`, one group of opcodes after the other. -/
theorem execute
    (htwins : Twins R) (hsame : R m v) {instr : Instruction}
    (hdecoded : instr.Decoded) :
    SameOutcome (SameStop R) (SameExecuted R) (m.execute instr)
      (v.execute instr) := by
  obtain ⟨opCode, rs, rt, rd, extra⟩ := instr
  have hregister : ∀ {r : ℕ}, r < 32 → m.readRegister r = v.readRegister r := by
    intro r hr
    exact htwins.readRegister hsame (hr.trans (by decide))
  have hs : m.readRegister rs = v.readRegister rs := hregister hdecoded.rs
  have ht : m.readRegister rt = v.readRegister rt := hregister hdecoded.rt
  have hnext := htwins.readRegister hsame
    (show nextPCReg < numTotalRegs by decide)
  have hlinked : ∀ r, R
      (m.writeRegister r (v.readRegister nextPCReg + 4))
      (v.writeRegister r (v.readRegister nextPCReg + 4)) :=
    fun r => htwins.writeRegister hsame r _
  unfold Machine.execute
  cases opCode with
  | rfe | special | bcond => exact .error (.fault .abort)
  | syscall | res | unimp => exact htwins.raiseException hsame _ 0
  | add | addi | sub =>
      simp only [hs, ht]
      split
      next => exact htwins.raiseException hsame _ 0
      next => exact htwins.writes hsame _ _
  | addu | and | nor | or | sllv | slt | sltu | srav | srlv | subu | xor =>
      simp only [hs, ht]
      exact htwins.writes hsame rd _
  | sll | sra | srl =>
      simp only [ht]
      exact htwins.writes hsame rd _
  | addiu | andi | ori | slti | sltiu | xori =>
      simp only [hs]
      exact htwins.writes hsame rt _
  | lui => exact htwins.writes hsame rt _
  | mfhi =>
      simp only [htwins.readRegister hsame (show hiReg < numTotalRegs by decide)]
      exact htwins.writes hsame rd _
  | mflo =>
      simp only [htwins.readRegister hsame (show loReg < numTotalRegs by decide)]
      exact htwins.writes hsame rd _
  | mthi =>
      simp only [hs]
      exact htwins.writes hsame hiReg _
  | mtlo =>
      simp only [hs]
      exact htwins.writes hsame loReg _
  | mult | multu =>
      simp only [hs, ht]
      exact htwins.hiLo hsame hiReg loReg _ _
  | div =>
      simp only [hs, ht]
      split
      next => exact htwins.hiLo hsame loReg hiReg 0 0
      next =>
        split
        next => exact .error (.fault .undefinedBehaviour)
        next => exact htwins.hiLo hsame loReg hiReg _ _
  | divu =>
      simp only [hs, ht]
      split
      next => exact htwins.hiLo hsame loReg hiReg 0 0
      next => exact htwins.hiLo hsame loReg hiReg _ _
  | beq | bne =>
      simp only [hs, ht]
      exact .ok (htwins.branches hsame _ extra)
  | bgez | bgtz | blez | bltz =>
      simp only [hs]
      exact .ok (htwins.branches hsame _ extra)
  | bgezal | bltzal =>
      simp only [hnext]
      rw [htwins.readRegister (hlinked r31)
        (show rs < numTotalRegs from hdecoded.rs.trans (by decide))]
      exact .ok (htwins.branches (hlinked r31) _ extra)
  | j =>
      simp only [hnext]
      exact .ok (jumps hsame _)
  | jal =>
      simp only [hnext]
      exact .ok (jumps (hlinked r31) _)
  | jr =>
      simp only [hs]
      exact .ok (jumps hsame _)
  | jalr =>
      simp only [hnext]
      rw [htwins.readRegister (hlinked rd)
        (show rs < numTotalRegs from hdecoded.rs.trans (by decide))]
      exact .ok (jumps (hlinked rd) _)
  | lb | lbu =>
      simp only [hs]
      refine htwins.readBind hsame (.inl rfl) _ ?_
      intro value m' v' hafter
      exact .ok (htwins.loads hafter rt _)
  | lh | lhu =>
      simp only [hs]
      split
      next => exact htwins.raiseException hsame _ _
      next =>
        refine htwins.readBind hsame (.inr (.inl rfl)) _ ?_
        intro value m' v' hafter
        exact .ok (htwins.loads hafter rt _)
  | lw =>
      simp only [hs]
      split
      next => exact htwins.raiseException hsame _ _
      next =>
        refine htwins.readBind hsame (.inr (.inr rfl)) _ ?_
        intro value m' v' hafter
        exact .ok (htwins.loads hafter rt value)
  | lwl | lwr =>
      simp only [hs]
      refine htwins.readBind hsame (.inr (.inr rfl)) _ ?_
      intro value m' v' hafter
      simp only [htwins.mergedWith hafter
        (show rt < numTotalRegs from hdecoded.rt.trans (by decide))]
      exact .ok (htwins.loads hafter rt _)
  | sb =>
      simp only [hs, ht]
      exact htwins.writeContinues hsame (.inl rfl) _ _
  | sh =>
      simp only [hs, ht]
      exact htwins.writeContinues hsame (.inr (.inl rfl)) _ _
  | sw =>
      simp only [hs, ht]
      exact htwins.writeContinues hsame (.inr (.inr rfl)) _ _
  | swl | swr =>
      simp only [hs, ht]
      refine htwins.readBind hsame (.inr (.inr rfl)) _ ?_
      intro value m' v' hafter
      exact htwins.writeContinues hafter (.inr (.inr rfl)) _ _

theorem finish
    (htwins : Twins R) {e e' : Executed} (hsame : SameExecuted R e e') :
    R e.finish e'.finish := by
  obtain ⟨hmachine, hpcAfter, hreg, hvalue⟩ := hsame
  unfold Executed.finish
  rw [hpcAfter, hreg, hvalue]
  have hloaded := htwins.delayedLoad hmachine e'.nextLoadReg e'.nextLoadValue
  simp only
  rw [htwins.readRegister hloaded (show pcReg < numTotalRegs by decide)]
  have hprev := htwins.writeRegister hloaded prevPCReg
    ((e'.machine.delayedLoad e'.nextLoadReg e'.nextLoadValue).readRegister
      pcReg)
  rw [htwins.readRegister hprev (show nextPCReg < numTotalRegs by decide)]
  exact htwins.writeRegister (htwins.writeRegister hprev pcReg _) nextPCReg _

/-- No instruction tells the machines apart. -/
theorem oneInstruction (htwins : Twins R) (hsame : R m v) :
    SameOutcome (SameStop R) R m.oneInstruction v.oneInstruction := by
  unfold Machine.oneInstruction
  rw [htwins.readRegister hsame (show pcReg < numTotalRegs by decide)]
  refine htwins.readBind hsame (.inr (.inr rfl)) _ ?_
  intro raw m' v' hfetched
  refine (htwins.execute hfetched (decoded_decode raw)).bind ?_
  intro e e' hexecuted
  exact .ok (htwins.finish hexecuted)

end Twins

end Execution

end Nachos
