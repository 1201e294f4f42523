import Nachos.MipsAccesses

/-!
# The simulator is a MIPS

A program that keeps to the rules cannot tell the simulator from the
architecture, wherever interrupts come in between.
-/

namespace Nachos

open Library Machine

namespace Mips

variable {s s' : State}

theorem State.execute_drained (s : State) (i : Instruction) :
    State.execute { s with loaded := 0 } i = s.execute i := by
  have hwrite : ∀ r value target,
      (State.write { s with loaded := 0 } r value).goOn target =
        (s.write r value).goOn target := by
    intro r value target
    unfold State.write
    split <;> rfl
  have hdeliver : ∀ d delivery target,
      (State.deliver { s with loaded := 0 } d delivery >>= fun s' =>
          Except.ok (s'.goOn target)) =
        (s.deliver d delivery >>= fun s' => Except.ok (s'.goOn target)) := by
    intro d delivery target
    cases delivery with
    | register value => exact congrArg Except.ok (hwrite d value target)
    | hi value => rfl
    | lo value => rfl
    | hiLo value => rfl
    | overflow => rfl
  cases i with
  | integer i =>
      cases i with
      | register op rs rt rd shamt => exact hdeliver rd _ _
      | immediate op rs rt imm => exact hdeliver rt _ _
  | branch op rs rt offset =>
      simp only [State.execute]
      cases op.links with
      | true => exact congrArg Except.ok (hwrite 31 _ _)
      | false => rfl
  | jump link target =>
      cases link with
      | true => exact congrArg Except.ok (hwrite 31 _ _)
      | false => rfl
  | jr rs => rfl
  | jalr rs rd => exact congrArg Except.ok (hwrite rd _ _)
  | load op base rt offset =>
      have hread : ∀ addr size,
          State.read { s with loaded := 0 } addr size = s.read addr size :=
        fun _ _ => rfl
      simp only [State.execute, hread]
      split
      next => rfl
      next => rw [hwrite]
  | store op base rt offset => rfl
  | syscall code => rfl

theorem State.Defined.drained
    {i : Instruction} (hdefined : s.Defined i) :
    State.Defined { s with loaded := 0 } i := by
  refine ⟨.inl rfl, ?_⟩
  have hsupported := hdefined.2
  cases i with
  | integer i =>
      cases i with
      | register op rs rt rd shamt => cases op <;> exact hsupported
      | immediate op rs rt imm => trivial
  | _ => exact hsupported

theorem State.Traps.drained
    {trap : Trap} (htraps : s.Traps trap) :
    State.Traps { s with loaded := 0 } trap := by
  rcases htraps with hnone | ⟨i, hfetch, hdefined, hexecute⟩
  · exact .inl hnone
  · refine .inr ⟨i, hfetch, hdefined.drained, ?_⟩
    rw [State.execute_drained, hexecute]

end Mips

/-! ## One instruction -/

section Instructions

variable {frames : List ℤ} {m m' : Machine}

theorem implements_oneInstruction
    (hm : m.Runnable frames) {i : Mips.Instruction}
    (hfetch : m.architecture.read m.architecture.pc 4 = some i.encode)
    (hdefined : m.architecture.Defined i) :
    Implements frames m.architecture m.oneInstruction
      (m.architecture.execute i) := by
  obtain ⟨m', hmemory, hafter⟩ :=
    readMemory_of_some hm.hosts (.inr (.inr rfl)) hfetch
  have hm' := hm.accessed hafter
  rw [oneInstruction_of_fetched hmemory]
  rw [← architecture_accessed hm.hosts hafter] at hdefined ⊢
  cases i with
  | integer i => exact implements_integer hm' i hdefined
  | branch op rs rt offset => exact implements_branch hm' op rs rt offset hdefined
  | jump link target => exact implements_jump hm' link target hdefined
  | jr rs => exact implements_jr hm' rs hdefined
  | jalr rs rd => exact implements_jalr hm' rs rd hdefined
  | load op base rt offset => exact implements_load hm' op base rt offset hdefined
  | store op base rt offset =>
      exact implements_store hm' op base rt offset hdefined
  | syscall code => exact implements_syscall hm' code

theorem implements_trap
    (hm : m.Runnable frames) {trap : Mips.Trap}
    (htraps : m.architecture.Traps trap) :
    Implements frames m.architecture m.oneInstruction (.error trap) := by
  rcases htraps with ⟨hnone, rfl⟩ | ⟨i, hfetch, hdefined, hexecute⟩
  · have hmemory := readMemory_of_none hm.hosts (.inr (.inr rfl)) hnone
    have hraised : m.oneInstruction = m.raiseException
        (.translation .addressError) m.architecture.pc :=
      congrArg (· >>= _) hmemory
    rw [hraised]
    exact implements_raised hm.hosts hm.pending (.addressError _)
  · rw [← hexecute]
    exact implements_oneInstruction hm hfetch hdefined

/-! ## Runs -/

/-- The loop of `Machine::Run`.  Behind an instruction an interrupt may be
due. -/
def Machine.run (m : Machine) : List Bool → Except Stop Machine
  | [] => .ok m
  | due :: rest => do
      let m ← m.oneInstruction
      (if due then m.delayedLoad 0 0 else m).run rest

/-- The load in progress may have been finished by an interrupt. -/
def Machine.Shows (m : Machine) (s : Mips.State) : Prop :=
  m.architecture = s ∨ m.architecture = { s with loaded := 0 }

theorem Machine.Shows.step
    {s s' : Mips.State} {i : Mips.Instruction} (hm : m.Runnable frames)
    (hshows : m.Shows s) (hfetch : s.read s.pc 4 = some i.encode)
    (hdefined : s.Defined i) (hexecute : s.execute i = .ok s') :
    ∃ m', m.oneInstruction = .ok m' ∧ m'.Runnable frames ∧
      m'.architecture = s' := by
  have himplements : Implements frames m.architecture m.oneInstruction
      (.ok s') := by
    rcases hshows with rfl | hdrained
    · rw [← hexecute]
      exact implements_oneInstruction hm hfetch hdefined
    · rw [← hexecute, ← Mips.State.execute_drained, ← hdrained]
      apply implements_oneInstruction hm
      · rw [hdrained]
        exact hfetch
      · rw [hdrained]
        exact hdefined.drained
  cases hone : m.oneInstruction with
  | ok m' =>
      rw [hone] at himplements
      exact ⟨m', rfl, himplements⟩
  | error stop =>
      rw [hone] at himplements
      cases stop <;> exact himplements.elim

theorem Machine.Shows.run
    {s s' : Mips.State} {is : List Mips.Instruction}
    (hruns : Mips.Runs s is s') (hm : m.Runnable frames) (hshows : m.Shows s)
    {due : List Bool} (hlength : due.length = is.length) :
    ∃ m', m.run due = .ok m' ∧ m'.Runnable frames ∧ m'.Shows s' := by
  induction hruns generalizing m due with
  | done s =>
      obtain rfl := List.eq_nil_of_length_eq_zero hlength
      exact ⟨m, rfl, hm, hshows⟩
  | @step s s₁ s' i is fetched allowed executed _ ih =>
      obtain ⟨m₁, hone, hm₁, hstate⟩ :=
        hshows.step hm fetched allowed executed
      cases due with
      | nil => cases hlength
      | cons now rest =>
          have hrest : rest.length = is.length := Nat.succ.inj hlength
          have hafter : ∃ m₂, (if now then m₁.delayedLoad 0 0 else m₁) = m₂ ∧
              m₂.Runnable frames ∧ m₂.Shows s₁ := by
            refine ⟨_, rfl, ?_⟩
            cases now with
            | false => exact ⟨hm₁, .inl hstate⟩
            | true =>
                refine ⟨Machine.Runnable.delayedLoad hm₁.hosts (by decide) 0,
                  .inr ?_⟩
                rw [← hstate]
                exact architecture_drained hm₁.pending
          obtain ⟨m₂, hm₂, hrunnable, hshows₂⟩ := hafter
          obtain ⟨m', hrun, hm'⟩ := ih hrunnable hshows₂ hrest
          refine ⟨m', ?_, hm'⟩
          rw [Machine.run, hone, ← hrun, ← hm₂]
          rfl

end Instructions

/-! ## A load, a branch, and its delay slot -/

/-- `lw $2, 64($0)`, `beq $0, $0, 2` and `addiu $3, $2, 1`. -/
def loadAndBranch : List Mips.Instruction :=
  [.load .lw 0 2 64, .branch .beq 0 0 2, .integer (.immediate .addiu 2 3 1)]

/-- One page with the instructions, a `syscall` where the branch goes, and the
word 7. -/
def loadAndBranchMachine : Machine where
  registers r := if r = nextPCReg then 4 else 0
  mainMemory p :=
    if p = 64 then 7
    else if p / 4 = 4 then
      valueByte (Mips.Instruction.syscall 0).encode (p % 4)
    else
      ((loadAndBranch[p / 4]?).map fun i =>
        valueByte i.encode (p % 4)).getD 0
  pageTableMap := ⟨1, [1], rfl⟩
  pageTable := some [⟨0, 0, true, false, false, false⟩]
  pageTableSize := 1

theorem runs_loadAndBranch :
    ∃ s', Mips.Runs loadAndBranchMachine.architecture loadAndBranch s' ∧
      s'.gpr 3 = 8 ∧ s'.Traps .syscall := by
  refine ⟨_, .step ?_ ?_ rfl (.step ?_ ?_ rfl (.step ?_ ?_ rfl (.done _))),
    ?_, .inr ⟨.syscall 0, ?_, ⟨.inl rfl, trivial⟩, rfl⟩⟩
  · decide
  · exact ⟨.inl rfl, trivial⟩
  · decide
  · exact ⟨.inr ⟨by decide, fun _ => by decide, fun _ => by decide⟩,
      fun _ => by decide⟩
  · decide
  · exact ⟨.inl rfl, trivial⟩
  · decide
  · decide

end Nachos
