import Nachos.FileNames
import Nachos.LoaderBounds
import Nachos.ProcessTable

/-!
# The arguments of a new process

`handle_SC_ExecV` copies the rows of the caller's array, `PTable` hands them
to the thread of the new process, and `Load` and `InitRegisters` give them to
the program.  The buffers of `handle_SC_ExecV` have room for 33 characters of
a row.
-/

namespace Nachos

open Library

/-- `NumTotalRegs`. -/
def numTotalRegs : ℕ := 40

/-- `StackReg`. -/
def stackReg : ℕ := 29

namespace AddrSpace

/-- `AddrSpace::InitRegisters`. -/
def initRegisters (space : AddrSpace) (m : Machine) : Machine :=
  let m := (List.range numTotalRegs).foldl (·.writeRegister · 0) m
  let m := m.writeRegister pcReg 0
  let m := m.writeRegister nextPCReg 4
  let m := m.writeRegister stackReg space.stackptr
  let m := m.writeRegister 4 space.argc
  m.writeRegister 5 space.argv

/-- `AddrSpace::RestoreState`.  The machine would follow a wild pointer. -/
def restoreState (space : AddrSpace) (m : Machine) : Except Fault Machine :=
  match space.pageTable with
  | .table entries => return { m with
      pageTable := some entries, pageTableSize := space.numPages }
  | .null => return { m with
      pageTable := none, pageTableSize := space.numPages }
  | .wild => .error .undefinedBehaviour

end AddrSpace

/-- `RunProcess` up to `machine->Run()`; `false` when `Load` fails. -/
def Kernel.runProcess (k : Kernel) (garbage : AddrSpace.Garbage)
    (loadGarbage : LoadGarbage) (filename : CString) (arg : ProcessArg) :
    Except Fault (Bool × AddrSpace × Kernel) := do
  let (success, space, k) ← (AddrSpace.new garbage).load k loadGarbage
    filename arg.argc arg.argv
  if success then
    let machine ← space.restoreState (space.initRegisters k.machine)
    return (true, space, { k with machine := machine })
  else return (false, space, k)

/-! ## What the caller has, and what the program finds -/

namespace Machine

/-- The rows of a `char argv[][100]`. -/
def HoldsRows (m : Machine) (addr : BitVec 32) : List CString → Prop
  | [] => True
  | row :: rows => m.HoldsString addr row ∧ m.HoldsRows (addr + 100) rows

instance decidableHoldsRows (m : Machine) :
    (addr : BitVec 32) → (rows : List CString) →
      Decidable (m.HoldsRows addr rows)
  | _, [] => isTrue trivial
  | addr, row :: rows =>
      have := decidableHoldsRows m (addr + 100) rows
      inferInstanceAs (Decidable
        (m.HoldsString addr row ∧ m.HoldsRows (addr + 100) rows))

/-- The registers and the memory a program is started with: `argc`, and
`argv` with a null pointer at its end. -/
structure FindsArguments (m : Machine) (argv : List CString) : Prop where
  argc : m.readRegister 4 = BitVec.ofNat 32 argv.length
  argv : ∃ pointers : List (BitVec 32),
    m.HoldsBytes (m.readRegister 5)
      ((pointers ++ [0]).flatMap AddrSpace.wordBytes) ∧
    List.Forall₂ (fun ptr arg => m.HoldsBytes ptr (arg ++ [0])) pointers argv

section Uniqueness

variable {m m' : Machine} {addr : BitVec 32}

theorem HoldsString.of_sameMapping {s : CString}
    (hsame : m.SameMapping m') (hmemory : m'.mainMemory = m.mainMemory)
    (hs : m.HoldsString addr s) : m'.HoldsString addr s :=
  ⟨hs.1, (hsame.holdsBytes hmemory).mpr hs.2⟩

theorem HoldsRows.of_sameMapping {rows : List CString}
    (hsame : m.SameMapping m') (hmemory : m'.mainMemory = m.mainMemory)
    (hrows : m.HoldsRows addr rows) : m'.HoldsRows addr rows := by
  induction rows generalizing addr with
  | nil => trivial
  | cons row rows ih =>
      exact ⟨hrows.1.of_sameMapping hsame hmemory, ih hrows.2⟩

theorem HoldsRows.nonzero {rows : List CString}
    (hrows : m.HoldsRows addr rows) : ∀ row ∈ rows, 0 ∉ row := by
  induction rows generalizing addr with
  | nil => simp
  | cons row rows ih =>
      intro other hother
      rcases List.mem_cons.mp hother with rfl | hmem
      · exact hrows.1.1
      · exact ih hrows.2 other hmem

/-- The memory determines a range of given length. -/
theorem HoldsBytes.unique {bytes bytes' : List (BitVec 8)}
    (hlength : bytes.length = bytes'.length)
    (hholds : m.HoldsBytes addr bytes) (hholds' : m.HoldsBytes addr bytes') :
    bytes = bytes' := by
  induction bytes generalizing addr bytes' with
  | nil => exact (List.length_eq_zero_iff.mp hlength.symm).symm
  | cons byte rest ih =>
      cases bytes' with
      | nil => simp at hlength
      | cons byte' rest' =>
          have hfirst : some byte = some byte' :=
            hholds.1.symm.trans hholds'.1
          rw [Option.some_inj.mp hfirst,
            ih (by simpa using hlength) hholds.2 hholds'.2]

/-- The memory determines the string at an address. -/
theorem HoldsString.unique {s s' : CString}
    (hs : m.HoldsString addr s) (hs' : m.HoldsString addr s') : s = s' := by
  induction s generalizing addr s' with
  | nil =>
      cases s' with
      | nil => rfl
      | cons byte rest =>
          have hfirst : some 0 = some byte := hs.2.1.symm.trans hs'.2.1
          exact (hs'.1 (by simp [Option.some_inj.mp hfirst])).elim
  | cons byte rest ih =>
      cases s' with
      | nil =>
          have hfirst : some byte = some 0 := hs.2.1.symm.trans hs'.2.1
          exact (hs.1 (by simp [Option.some_inj.mp hfirst])).elim
      | cons byte' rest' =>
          have hfirst : some byte = some byte' := hs.2.1.symm.trans hs'.2.1
          have hrest : m.HoldsString (addr + 1) rest :=
            ⟨fun h => hs.1 (List.mem_cons_of_mem _ h), hs.2.2⟩
          have hrest' : m.HoldsString (addr + 1) rest' :=
            ⟨fun h => hs'.1 (List.mem_cons_of_mem _ h), hs'.2.2⟩
          rw [Option.some_inj.mp hfirst, ih hrest hrest']

theorem wordBytes_inj {word word' : BitVec 32}
    (heq : AddrSpace.wordBytes word = AddrSpace.wordBytes word') :
    word = word' := by
  simp only [AddrSpace.wordBytes, List.cons.injEq, and_true] at heq
  rcases heq with ⟨h0, h1, h2, h3⟩
  have n0 := congrArg BitVec.toNat h0
  have n1 := congrArg BitVec.toNat h1
  have n2 := congrArg BitVec.toNat h2
  have n3 := congrArg BitVec.toNat h3
  simp only [BitVec.toNat_setWidth, BitVec.toNat_ushiftRight,
    Nat.shiftRight_eq_div_pow] at n0 n1 n2 n3
  apply BitVec.eq_of_toNat_eq
  have hlt := word.isLt
  have hlt' := word'.isLt
  omega

theorem flatMap_wordBytes_inj {words words' : List (BitVec 32)}
    (heq : words.flatMap AddrSpace.wordBytes =
      words'.flatMap AddrSpace.wordBytes) : words = words' := by
  induction words generalizing words' with
  | nil =>
      cases words' with
      | nil => rfl
      | cons word' words' => simp [AddrSpace.wordBytes] at heq
  | cons word words ih =>
      cases words' with
      | nil => simp [AddrSpace.wordBytes] at heq
      | cons word' words' =>
          rw [List.flatMap_cons, List.flatMap_cons] at heq
          rcases List.append_inj heq rfl with ⟨hword, hrest⟩
          rw [wordBytes_inj hword, ih hrest]

/-- A program can find one list of arguments of a given length only. -/
theorem FindsArguments.unique {argv argv' : List CString}
    (hlength : argv.length = argv'.length)
    (hnonzero : ∀ arg ∈ argv, 0 ∉ arg) (hnonzero' : ∀ arg ∈ argv', 0 ∉ arg)
    (hfinds : m.FindsArguments argv) (hfinds' : m.FindsArguments argv') :
    argv = argv' := by
  rcases hfinds.argv with ⟨pointers, harray, hstrings⟩
  rcases hfinds'.argv with ⟨pointers', harray', hstrings'⟩
  have hcount : pointers.length = pointers'.length := by
    rw [hstrings.length_eq, hstrings'.length_eq, hlength]
  have hbytes := harray.unique (by
    rw [AddrSpace.length_flatMap_wordBytes,
      AddrSpace.length_flatMap_wordBytes, List.length_append,
      List.length_append, hcount]) harray'
  have hpointers : pointers = pointers' :=
    List.append_cancel_right (flatMap_wordBytes_inj hbytes)
  subst hpointers
  clear hbytes harray harray' hcount hlength hfinds hfinds'
  induction hstrings generalizing argv' with
  | nil =>
      cases hstrings'
      rfl
  | @cons ptr arg pointers argv hfirst _ ih =>
      cases hstrings' with
      | @cons _ arg' _ argv' hfirst' hrest' =>
          have harg : arg = arg' :=
            HoldsString.unique ⟨hnonzero arg (by simp), hfirst⟩
              ⟨hnonzero' arg' (by simp), hfirst'⟩
          rw [harg, ih (fun a ha => hnonzero a (by simp [ha]))
            (fun a ha => hnonzero' a (by simp [ha])) hrest']

end Uniqueness

end Machine

/-! ## From the caller to `ExecUpdate` -/

namespace Kernel

/-- `handle_SC_ExecV` calls `ExecUpdate(argc, argv)`, whatever that does. -/
def PassesArguments (k : Kernel) (argc : ℤ) (argv : List CString) : Prop :=
  ∃ k', ∀ env, k.handleSCExecV env =
    env.tables.execUpdateV argc argv >>= fun n => pure (returns k' n)

variable {k : Kernel}

/-- The rows as the buffers of `handle_SC_ExecV` hold them. -/
theorem copyRows_eq {addr : BitVec 32} {rows : List CString}
    (hrows : k.machine.HoldsRows addr rows) :
    ∃ k', copyRows addr rows.length k = .ok (rows.map (·.take 33), k') := by
  induction rows generalizing addr k with
  | nil => exact ⟨k, rfl⟩
  | cons row rows ih =>
      have hlimit : 0 ≤ (maxFileLength + 1 + 1).toInt := by decide
      rcases hrows.1.user2System hlimit with ⟨buffer, m, hcopy, hrow⟩
      rcases Machine.sameMapping_of_user2System hcopy with ⟨hsame, hmemory⟩
      rcases ih (k := { k with machine := m })
        (hrows.2.of_sameMapping hsame hmemory) with ⟨k', hrest⟩
      refine ⟨k', ?_⟩
      have htake : (maxFileLength + 1).toInt.toNat = 33 := by decide
      simp only [List.length_cons, copyRows, user2System_eq hcopy, ok_bind,
        hrest, hrow, htake, List.map_cons]
      rfl

theorem passesArguments_rows {rows : List CString}
    (hargc : (k.register 4).toInt = rows.length)
    (hrows : k.machine.HoldsRows (k.register 5) rows) :
    k.PassesArguments rows.length (rows.map (·.take 33)) := by
  rcases copyRows_eq hrows with ⟨k', hcopy⟩
  refine ⟨k', fun env => ?_⟩
  have hnonneg : ¬(rows.length : ℤ) < 0 := by omega
  simp only [handleSCExecV, hargc, if_neg hnonneg, Int.toNat_natCast, hcopy,
    ok_bind]

/-- What is passed on is determined. -/
theorem PassesArguments.unique {argc argc' : ℤ} {argv argv' : List CString}
    (hpass : k.PassesArguments argc argv)
    (hpass' : k.PassesArguments argc' argv') :
    argc = argc' ∧ argv = argv' := by
  by_contra hne
  rcases hpass with ⟨k₁, hcall⟩
  rcases hpass' with ⟨k₂, hcall'⟩
  let update : ℤ → List CString → Except Fault ℤ := fun argc' argv' =>
    if argc = argc' ∧ argv = argv' then .ok 0 else .error .abort
  let env : Environment :=
    ⟨none, ⟨fun _ => .ok 0, update, fun _ => .ok 0, fun _ => .ok 0,
      fun _ => .ok 0, fun _ _ => .ok 0⟩, fun _ => [], 0, 0⟩
  have hfirst := (hcall env).symm.trans (hcall' env)
  have hself : update argc argv = .ok 0 := if_pos ⟨rfl, rfl⟩
  have hother : update argc' argv' = .error .abort := if_neg hne
  change update argc argv >>= _ = update argc' argv' >>= _ at hfirst
  rw [hself, hother] at hfirst
  cases hfirst

end Kernel

/-! ## From `Load` to the program -/

namespace AddrSpace

theorem holdsBytes_install
    {entries : List TranslationEntry} {m m' : Machine} {addr : BitVec 32}
    {bytes : List (BitVec 8)} (hmemory : m.mainMemory = m'.mainMemory) :
    (install entries m).HoldsBytes addr bytes ↔
      (install entries m').HoldsBytes addr bytes := by
  induction bytes generalizing addr with
  | nil => rfl
  | cons byte rest ih =>
      rw [Machine.HoldsBytes, Machine.HoldsBytes, ih, Machine.userByte,
        Machine.userByte, install_mainMemory, install_mainMemory, hmemory,
        install_physical]

/-- The strings of a block are where the pointers say. -/
theorem strings_of_block
    {m : Machine} {ptr : BitVec 32} {argv : List CString}
    (hblock : m.HoldsBytes ptr (block argv)) :
    List.Forall₂ (fun ptr arg => m.HoldsBytes ptr (arg ++ [0]))
      (pointers ptr argv) argv := by
  induction argv generalizing ptr with
  | nil => exact .nil
  | cons arg argv ih =>
      rw [block_cons, Machine.HoldsBytes.append] at hblock
      refine .cons hblock.1 (ih ?_)
      have hlength : (arg ++ [(0 : BitVec 8)]).length = arg.length + 1 := by
        simp
      rw [argumentSize, ← hlength]
      exact hblock.2

theorem initRegisters_mainMemory (space : AddrSpace) (m : Machine) :
    (space.initRegisters m).mainMemory = m.mainMemory := rfl

/-- A `Load` that succeeds has stored the arguments. -/
theorem loadImage_ok
    {space space' : AddrSpace} {executable : OpenFile} {noffH : NoffHeader}
    {k k' : Kernel} {success : Bool} {argv : List CString}
    (hbits : k.machine.pageTableMap.numBits = numPhysPages)
    (hload : space.loadImage executable noffH k argv.length argv =
      .ok (success, space', k')) :
    ∃ mapped entries m, Mapped mapped entries ∧
      ArgumentsFit mapped.numPages argv ∧
      space' = mapped.withArguments argv ∧
      mapped.ArgumentsStored entries argv m k'.machine := by
  rcases ok_of_bind hload with ⟨-, hmagic, hload⟩
  rcases ok_of_bind hload with ⟨⟨mapped, m₁⟩, hallocate, hload⟩
  rcases ok_of_bind hload with ⟨-, -, hload⟩
  rcases ok_of_bind hload with ⟨k₁, -, hload⟩
  rcases ok_of_bind hload with ⟨⟨loaded, m₂⟩, hcopy, hload⟩
  rcases ok_of_bind hload with ⟨⟨closed, fs, h⟩, -, hresult⟩
  have hfree : k.machine.pageTableMap.marked.card + noffH.numPages ≤
      numPhysPages := by
    by_contra hfew
    rw [space.allocateMemory_tooFew (by omega)] at hallocate
    cases hallocate
  rcases space.allocateMemory_mapped k.machine hbits hfree with
    ⟨bm, entries, -, hmap, hallocate'⟩
  rw [hallocate'] at hallocate
  injection hallocate with hpair
  injection hpair with hmapped
  subst hmapped
  by_cases hfits : ArgumentsFit noffH.numPages argv
  · rcases hmap.copyArguments k₁.machine hfits with ⟨m', hcopy', hstored⟩
    rw [hcopy'] at hcopy
    injection hcopy with hpair
    injection hpair with hloaded hm
    injection hresult with hresult
    injection hresult with _ hresult
    injection hresult with hspace hkernel
    refine ⟨_, entries, k₁.machine, hmap, hfits, ?_, ?_⟩
    · rw [← hspace, ← hloaded]
    · rw [← hkernel, ← hm]
      exact hstored
  · rw [hmap.copyArguments_misfit k₁.machine hfits] at hcopy
    cases hcopy

theorem loadIn_ok
    {rdata : Bool} {space space' : AddrSpace} {k k' : Kernel}
    {garbage : LoadGarbage} {fileName : CString} {argv : List CString}
    (hbits : k.machine.pageTableMap.numBits = numPhysPages)
    (hload : space.loadIn rdata k garbage fileName argv.length argv =
      .ok (true, space', k')) :
    ∃ mapped entries m, Mapped mapped entries ∧
      ArgumentsFit mapped.numPages argv ∧
      space' = mapped.withArguments argv ∧
      mapped.ArgumentsStored entries argv m k'.machine := by
  unfold loadIn at hload
  split at hload
  next => cases hload
  next executable fs h hopen =>
    rcases ok_of_bind hload with ⟨⟨noffH, h'⟩, -, hload⟩
    exact loadImage_ok (k := { k with fileSystem := fs, host := h' }) hbits
      hload

/-- The program of a process finds the arguments that were loaded. -/
theorem findsArguments_of_stored
    {mapped : AddrSpace} {entries : List TranslationEntry}
    {argv : List CString} {before m machine : Machine}
    (hmap : Mapped mapped entries)
    (hstored : mapped.ArgumentsStored entries argv before m)
    (hrestore : (mapped.withArguments argv).restoreState
      ((mapped.withArguments argv).initRegisters m) = .ok machine) :
    machine.FindsArguments argv := by
  have hmachine : machine = install entries
      ((mapped.withArguments argv).initRegisters m) := by
    simp only [restoreState, withArguments, hmap.table] at hrestore
    cases hrestore
    rw [install, hmap.length]
    rfl
  have hmemory := initRegisters_mainMemory (mapped.withArguments argv) m
  rw [hmachine]
  constructor
  case argc => rfl
  case argv =>
    refine ⟨pointers (mapped.stringsAt argv) argv, ?_, ?_⟩
    · exact (holdsBytes_install hmemory).mpr hstored.array
    · exact strings_of_block
        ((holdsBytes_install hmemory).mpr hstored.strings)

end AddrSpace

/-! ## From the caller to the program -/

namespace Kernel

/-- The program finds the arguments its process was given. -/
theorem findsArguments_of_runProcess
    {k k' : Kernel} {garbage : AddrSpace.Garbage} {loadGarbage : LoadGarbage}
    {filename : CString} {pid : ℕ} {argv : List CString} {space : AddrSpace}
    (hbits : k.machine.pageTableMap.numBits = numPhysPages)
    (hrun : k.runProcess garbage loadGarbage filename
      ⟨pid, argv.length, argv⟩ = .ok (true, space, k')) :
    k'.machine.FindsArguments argv := by
  rcases ok_of_bind hrun with ⟨⟨success, loaded, k₁⟩, hload, hrun⟩
  cases success with
  | false => cases hrun
  | true =>
      rcases ok_of_bind hrun with ⟨machine, hrestore, hresult⟩
      cases hresult
      rw [← AddrSpace.loadIn_true] at hload
      rcases AddrSpace.loadIn_ok hbits hload with
        ⟨mapped, entries, before, hmap, -, rfl, hstored⟩
      exact AddrSpace.findsArguments_of_stored hmap hstored hrestore

theorem findsArguments_rows_iff
    {m : Machine} {rows : List CString}
    (hnonzero : ∀ row ∈ rows, 0 ∉ row)
    (hfinds : m.FindsArguments (rows.map (·.take 33))) :
    m.FindsArguments rows ↔ ∀ row ∈ rows, row.length ≤ 33 := by
  have hnonzero' : ∀ arg ∈ rows.map (·.take 33), 0 ∉ arg := by
    intro arg harg hzero
    rcases List.mem_map.mp harg with ⟨row, hrow, rfl⟩
    exact hnonzero row hrow (List.mem_of_mem_take hzero)
  have hsame : rows.map (·.take 33) = rows ↔
      ∀ row ∈ rows, row.length ≤ 33 := by
    conv_lhs => rhs; rw [← List.map_id rows]
    simp only [List.map_inj_left, id_eq, List.take_eq_self_iff]
  rw [← hsame]
  constructor
  · intro hall
    exact hfinds.unique (List.length_map _) hnonzero' hnonzero hall
  · intro heq
    rwa [heq] at hfinds

/-- The program of a new process finds the rows of its parent as its
arguments if and only if none of them is longer than 33 characters. -/
theorem arguments_arrive_iff
    {parent child child' : Kernel} {rows argv : List CString} {argc : ℤ}
    {pid : ℕ} {filename : CString} {arg : ProcessArg}
    {garbage : AddrSpace.Garbage} {loadGarbage : LoadGarbage}
    {space : AddrSpace}
    (hargc : (parent.register 4).toInt = rows.length)
    (hrows : parent.machine.HoldsRows (parent.register 5) rows)
    (hpass : parent.PassesArguments argc argv)
    (harg : Processes.execArgument pid (.execV argc argv) =
      some (filename, arg))
    (hbits : child.machine.pageTableMap.numBits = numPhysPages)
    (hrun : child.runProcess garbage loadGarbage filename arg =
      .ok (true, space, child')) :
    child'.machine.FindsArguments rows ↔ ∀ row ∈ rows, row.length ≤ 33 := by
  rcases hpass.unique (passesArguments_rows hargc hrows) with ⟨rfl, rfl⟩
  have hcount : (rows.length : ℤ) = (rows.map (·.take 33)).length := by
    rw [List.length_map]
  have hgiven : arg = ⟨pid, rows.length, rows.map (·.take 33)⟩ := by
    cases rows with
    | nil => cases harg
    | cons row rows =>
        cases harg
        rfl
  rw [hgiven, hcount] at hrun
  exact findsArguments_rows_iff hrows.nonzero
    (findsArguments_of_runProcess hbits hrun)

/-! ## Rows of 33 and of 34 characters -/

/-- A process that calls `ExecV` with the rows at address 0. -/
def callerOf (rows : List CString) : Kernel where
  machine := {
    registers := fun num =>
      if num = 4 then BitVec.ofNat 32 rows.length else 0
    mainMemory := fun paddr =>
      (rows.flatMap fun row => row.takeD 100 0).getD paddr 0
    pageTableMap := ⟨numPhysPages, [3, 0, 0, 0], rfl⟩
    pageTable := some [⟨0, 0, true, false, false, false⟩,
      ⟨1, 1, true, false, false, false⟩]
    pageTableSize := 2 }
  fileSystem := ⟨fun _ => .null⟩
  host := AddrSpace.fullKernel.host
  consoleIn := []
  consoleOut := []

/-- Whether the program of the file `[97]` is started with the arguments. -/
def starts (argv : List CString) : Bool :=
  match (AddrSpace.imageKernel AddrSpace.codeOnly).runProcess
      ⟨0, 0, 0, 0, 0⟩ ⟨0, []⟩ [97] ⟨1, argv.length, argv⟩ with
  | .ok (success, _, _) => success
  | .error _ => false

theorem exists_of_starts {argv : List CString} (hstarts : starts argv) :
    ∃ space child, (AddrSpace.imageKernel AddrSpace.codeOnly).runProcess
      ⟨0, 0, 0, 0, 0⟩ ⟨0, []⟩ [97] ⟨1, argv.length, argv⟩ =
        .ok (true, space, child) := by
  unfold starts at hstarts
  split at hstarts
  next success space child hrun =>
    rw [hstarts] at hrun
    exact ⟨space, child, hrun⟩
  next => cases hstarts

theorem starts_thirtyThree :
    starts [[97], List.replicate 33 98] = true := by
  decide +kernel

theorem callerOf_argc :
    ((callerOf [[97], List.replicate 33 98]).register 4).toInt = 2 := by
  decide

theorem callerOf_rows {n : ℕ} (hn : n = 33 ∨ n = 34) :
    (callerOf [[97], List.replicate n 98]).machine.HoldsRows 0
      [[97], List.replicate n 98] := by
  rcases hn with rfl | rfl <;> decide +kernel

/-- The program finds a row of 33 characters. -/
theorem arguments_arrive_thirtyThree :
    ∃ space child, (AddrSpace.imageKernel AddrSpace.codeOnly).runProcess
        ⟨0, 0, 0, 0, 0⟩ ⟨0, []⟩ [97]
        ⟨1, 2, [[97], List.replicate 33 98]⟩ = .ok (true, space, child) ∧
      child.machine.FindsArguments [[97], List.replicate 33 98] := by
  rcases exists_of_starts starts_thirtyThree with ⟨space, child, hrun⟩
  have hrows := callerOf_rows (n := 33) (.inl rfl)
  have hpass : (callerOf [[97], List.replicate 33 98]).PassesArguments 2
      [[97], List.replicate 33 98] :=
    passesArguments_rows callerOf_argc hrows
  have harg : Processes.execArgument 1
      (.execV 2 [[97], List.replicate 33 98]) =
        some ([97], ⟨1, 2, [[97], List.replicate 33 98]⟩) := rfl
  refine ⟨space, child, hrun, ?_⟩
  exact (arguments_arrive_iff callerOf_argc hrows hpass harg rfl hrun).mpr
    (by decide)

/-- Of a row of 34 characters the program finds 33. -/
theorem row_cut_off :
    (callerOf [[97], List.replicate 34 98]).machine.HoldsRows 0
        [[97], List.replicate 34 98] ∧
      (callerOf [[97], List.replicate 34 98]).PassesArguments 2
        [[97], List.replicate 33 98] ∧
      ∃ space child, (AddrSpace.imageKernel AddrSpace.codeOnly).runProcess
          ⟨0, 0, 0, 0, 0⟩ ⟨0, []⟩ [97]
          ⟨1, 2, [[97], List.replicate 33 98]⟩ = .ok (true, space, child) ∧
        ¬child.machine.FindsArguments [[97], List.replicate 34 98] := by
  have hrows := callerOf_rows (n := 34) (.inr rfl)
  rcases exists_of_starts starts_thirtyThree with ⟨space, child, hrun⟩
  refine ⟨hrows, passesArguments_rows (by decide) hrows, space, child, hrun,
    ?_⟩
  have hfinds := findsArguments_of_runProcess (by rfl) hrun
  rw [findsArguments_rows_iff hrows.nonzero hfinds]
  decide

end Kernel

end Nachos
