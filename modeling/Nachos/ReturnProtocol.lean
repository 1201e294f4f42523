import Nachos.ReadCall
import Nachos.SystemCallEffects

/-!
# The return protocol of the system calls

A handler that returns has advanced the program counter once and left the
other registers alone.  Register 2 holds its result: what it held at the trap,
the number of the call, cannot be told from it.  `Write` alone has a path to
its end that writes no result.
-/

namespace Nachos

namespace Machine

/-! ## User memory does not depend on the registers -/

theorem translate_writeRegister
    (m : Machine) (num : ℕ) (value addr : BitVec 32)
    (size : ℕ) (writing : Bool) :
    (m.writeRegister num value).translate addr size writing =
      (m.translate addr size writing).map
        (Except.map (Prod.map id (·.writeRegister num value))) := by
  rcases m with ⟨registers, memory, map, table, tableSize⟩
  unfold translate writeRegister
  simp only
  split
  next => rfl
  next =>
    cases table with
    | none => rfl
    | some table =>
        simp only
        split
        next => rfl
        next =>
          cases table[addr.toNat / pageSize]? with
          | none => rfl
          | some entry =>
              simp only [assert]
              split_ifs <;> rfl

theorem readMem_writeRegister
    (m : Machine) (num : ℕ) (value addr : BitVec 32) (size : ℕ) :
    (m.writeRegister num value).readMem addr size =
      (m.readMem addr size).map
        (Prod.map id (·.writeRegister num value)) := by
  simp only [readMem, translate_writeRegister]
  cases m.translate addr size false with
  | error fault => rfl
  | ok result =>
      cases result with
      | error => rfl
      | ok result =>
          rcases result with ⟨physAddr, m'⟩
          have hload : (m'.writeRegister num value).load physAddr size =
              m'.load physAddr size := by
            unfold load
            rfl
          simp only [bind, Except.bind, Except.map, Prod.map, id, hload]
          cases m'.load physAddr size <;> rfl

theorem store_writeRegister
    (m : Machine) (num : ℕ) (value : BitVec 32) (paddr : ℤ)
    (byte : BitVec 8) :
    (m.writeRegister num value).store paddr byte =
      (m.store paddr byte).map (·.writeRegister num value) := by
  unfold store
  split <;> rfl

theorem writeMem_writeRegister
    (m : Machine) (num : ℕ) (value addr word : BitVec 32) :
    (m.writeRegister num value).writeMem addr 1 word =
      (m.writeMem addr 1 word).map (·.writeRegister num value) := by
  have hregister := translate_writeRegister m num value addr 1 true
  cases htranslate : m.translate addr 1 true with
  | error fault =>
      rw [htranslate] at hregister
      rw [writeMem_of_fault word hregister, writeMem_of_fault word htranslate]
      rfl
  | ok result =>
      rw [htranslate] at hregister
      cases result with
      | error which =>
          rw [writeMem_of_exception word hregister,
            writeMem_of_exception word htranslate]
          rfl
      | ok result =>
          rw [writeMem_of_translate word hregister,
            writeMem_of_translate word htranslate]
          exact store_writeRegister _ num value _ _

theorem copyIn_writeRegister
    (m : Machine) (num : ℕ) (value addr : BitVec 32) (rounds : ℕ) :
    copyIn addr rounds (m.writeRegister num value) =
      (copyIn addr rounds m).map
        (Prod.map id (·.writeRegister num value)) := by
  induction rounds generalizing m addr with
  | zero => rfl
  | succ rounds ih =>
      simp only [copyIn, readMem_writeRegister]
      cases m.readMem addr 1 with
      | error fault => rfl
      | ok result =>
          rcases result with ⟨oneChar, m'⟩
          simp only [bind, Except.bind, Except.map, Prod.map, id, ih]
          split_ifs
          · rfl
          · cases copyIn (addr + 1) rounds m' <;> rfl

theorem copyOut_writeRegister
    (m : Machine) (num : ℕ) (value addr : BitVec 32) (rounds : ℕ)
    (buffer : List (BitVec 8)) :
    copyOut addr rounds buffer (m.writeRegister num value) =
      (copyOut addr rounds buffer m).map
        (Prod.map id (·.writeRegister num value)) := by
  induction rounds generalizing m addr buffer with
  | zero => rfl
  | succ rounds ih =>
      cases buffer with
      | nil => rfl
      | cons oneChar buffer =>
          simp only [copyOut, writeMem_writeRegister]
          cases m.writeMem addr 1 (oneChar.signExtend 32) with
          | error fault => rfl
          | ok m' =>
              simp only [bind, Except.bind, Except.map, ih]
              split_ifs
              · rfl
              · cases copyOut (addr + 1) rounds buffer m' <;> rfl

theorem user2System_writeRegister
    (m : Machine) (num : ℕ) (value addr limit : BitVec 32) :
    (m.writeRegister num value).user2System addr limit =
      (m.user2System addr limit).map
        (Prod.map id (·.writeRegister num value)) := by
  simp only [user2System, copyIn_writeRegister]
  split
  · rfl
  · cases copyIn addr limit.toInt.toNat m <;> rfl

theorem system2User_writeRegister
    (m : Machine) (num : ℕ) (value addr : BitVec 32) (len : ℤ)
    (buffer : List (BitVec 8)) :
    (m.writeRegister num value).system2User addr len buffer =
      (m.system2User addr len buffer).map
        (Prod.map id (·.writeRegister num value)) := by
  simp only [system2User, copyOut_writeRegister]
  split_ifs
  · rfl
  · rfl
  · cases copyOut addr len.toNat buffer m <;> rfl

end Machine

namespace Kernel

/-- The same kernel state with another value in register 2. -/
def withResult (k : Kernel) (value : BitVec 32) : Kernel :=
  { k with machine := k.machine.writeRegister 2 value }

variable (env : Environment) (k : Kernel) (value : BitVec 32)

@[simp] theorem withResult_fileSystem :
    (k.withResult value).fileSystem = k.fileSystem := rfl

@[simp] theorem withResult_host : (k.withResult value).host = k.host := rfl

@[simp] theorem withResult_consoleIn :
    (k.withResult value).consoleIn = k.consoleIn := rfl

@[simp] theorem withResult_consoleOut :
    (k.withResult value).consoleOut = k.consoleOut := rfl

@[simp] theorem withResult_occupied (id : ℤ) :
    (k.withResult value).occupied id ↔ k.occupied id := .rfl

@[simp] theorem register_withResult {num : ℕ} (hne : num ≠ 2) :
    (k.withResult value).register num = k.register num :=
  Function.update_of_ne hne _ _

@[simp] theorem mk_withResult
    (fs : FileSystem) (h : Host) (input output : List (BitVec 8)) :
    Kernel.mk (k.withResult value).machine fs h input output =
      (Kernel.mk k.machine fs h input output).withResult value := rfl

@[simp] theorem setFile_withResult
    (id : ℕ) (slot : FileSlot) (f : OpenFile) :
    (k.withResult value).setFile id slot f =
      (k.setFile id slot f).withResult value := rfl

@[simp] theorem returns_withResult (result : ℤ) :
    (k.withResult value).returns result = k.returns result := by
  simp only [returns, withResult, Machine.writeRegister, Function.update_idem]

@[simp] theorem nameInUse_withResult (filename : CString) (slots : List ℕ) :
    (k.withResult value).nameInUse env filename slots =
      k.nameInUse env filename slots :=
  nameInUse_congr (withResult_fileSystem k value) filename slots

/-- A handler that copies from user memory does not see register 2, if what
it does next does not. -/
theorem user2System_withResult
    {next : List (BitVec 8) × Kernel → Except Fault Kernel}
    (hnext : ∀ buffer k, next (buffer, withResult k value) = next (buffer, k))
    (addr limit : BitVec 32) :
    ((k.withResult value).user2System addr limit >>= next) =
      (k.user2System addr limit >>= next) := by
  simp only [user2System, withResult, Machine.user2System_writeRegister]
  cases k.machine.user2System addr limit with
  | error fault => rfl
  | ok result => exact hnext result.1 { k with machine := result.2 }

theorem system2User_withResult
    {next : ℤ × Kernel → Except Fault Kernel}
    (hnext : ∀ count k, next (count, withResult k value) = next (count, k))
    (addr : BitVec 32) (len : ℤ) (buffer : List (BitVec 8)) :
    ((k.withResult value).system2User addr len buffer >>= next) =
      (k.system2User addr len buffer >>= next) := by
  simp only [system2User, withResult, Machine.system2User_writeRegister]
  cases k.machine.system2User addr len buffer with
  | error fault => rfl
  | ok result => exact hnext result.1 { k with machine := result.2 }

theorem copyRows_withResult
    {next : List CString × Kernel → Except Fault Kernel}
    (hnext : ∀ argv k, next (argv, withResult k value) = next (argv, k))
    (addr : BitVec 32) (rows : ℕ) :
    (copyRows addr rows (k.withResult value) >>= next) =
      (copyRows addr rows k >>= next) := by
  induction rows generalizing k addr next with
  | zero => exact hnext _ _
  | succ rows ih =>
      simp only [copyRows, bind_assoc]
      apply user2System_withResult
      intro row k
      apply ih
      intro argv k
      exact hnext _ _

/-! ## The handlers do not see register 2 -/

theorem create_withResult :
    (k.withResult value).handleSCCreate env = k.handleSCCreate env := by
  apply user2System_withResult
  intro buffer k
  simp

theorem open_withResult :
    (k.withResult value).handleSCOpen env = k.handleSCOpen env := by
  apply user2System_withResult
  intro buffer k
  simp only [withResult_fileSystem, withResult_host, mk_withResult,
    returns_withResult]
  rfl

theorem close_withResult :
    (k.withResult value).handleSCClose = k.handleSCClose := by
  simp [handleSCClose]

theorem receive_withResult (id : ℤ) (addr len : BitVec 32) :
    (k.withResult value).receive env id addr len =
      k.receive env id addr len := by
  simp only [receive, withResult_fileSystem, withResult_host, mk_withResult,
    returns_withResult]
  split
  · rfl
  · congr 1
    funext result
    rcases result with ⟨bytes, host⟩
    cases bytes with
    | none => rfl
    | some buffer =>
        cases buffer with
        | nil => rfl
        | cons byte rest =>
            apply system2User_withResult
            simp

theorem readConsole_withResult (addr charCnt : BitVec 32) :
    (k.withResult value).readConsole addr charCnt =
      k.readConsole addr charCnt := by
  simp only [readConsole, withResult_consoleIn, mk_withResult]
  split
  · rfl
  · congr 1
    funext result
    apply system2User_withResult
    simp

theorem readFile_withResult
    (id : ℕ) (slot : FileSlot) (f : OpenFile) (oldPosition : ℤ)
    (addr charCnt : BitVec 32) (buf : List (BitVec 8)) :
    (k.withResult value).readFile env id slot f oldPosition addr charCnt buf =
      k.readFile env id slot f oldPosition addr charCnt buf := by
  simp only [readFile, withResult_host, mk_withResult, setFile_withResult,
    returns_withResult]
  split
  · rfl
  · congr 1
    funext result
    split
    · apply system2User_withResult
      simp
    · rfl

theorem read_withResult :
    (k.withResult value).handleSCRead env = k.handleSCRead env := by
  simp only [handleSCRead, ne_eq, Nat.reduceEqDiff,
    not_false_eq_true, register_withResult, withResult_occupied,
    withResult_fileSystem, withResult_host, setFile_withResult,
    receive_withResult, returns_withResult]
  split
  · congr 1
    funext slot
    split
    · rfl
    · congr 1
      funext f
      split
      · rfl
      · apply user2System_withResult
        intro buf k
        simp only [readConsole_withResult, readFile_withResult]
  · rfl

theorem send_withResult (id : ℤ) (buf : List (BitVec 8)) (len : ℤ) :
    (k.withResult value).send env id buf len = k.send env id buf len := by
  simp [send]

theorem writeConsole_withResult (charCnt : ℤ) (buf : List (BitVec 8)) :
    (k.withResult value).writeConsole charCnt buf =
      k.writeConsole charCnt buf := by
  simp [writeConsole]

theorem seek_withResult :
    (k.withResult value).handleSCSeek = k.handleSCSeek := by
  simp [handleSCSeek]

theorem remove_withResult :
    (k.withResult value).handleSCRemove env = k.handleSCRemove env := by
  apply user2System_withResult
  intro filename k
  simp only [nameInUse_withResult, withResult_host, mk_withResult,
    returns_withResult]
  rfl

theorem socketTCPOpen_withResult :
    (k.withResult value).handleSCSocketTCPOpen env =
      k.handleSCSocketTCPOpen env := by
  simp [handleSCSocketTCPOpen]

theorem socketTCPConnect_withResult :
    (k.withResult value).handleSCSocketTCPConnect env =
      k.handleSCSocketTCPConnect env := by
  apply user2System_withResult
  intro ip k
  simp

theorem socketTCPSend_withResult :
    (k.withResult value).handleSCSocketTCPSend env =
      k.handleSCSocketTCPSend env := by
  apply user2System_withResult
  intro buff k
  simp only [send_withResult]
  rfl

theorem socketTCPClose_withResult :
    (k.withResult value).handleSCSocketTCPClose =
      k.handleSCSocketTCPClose := by
  simp [handleSCSocketTCPClose]

theorem deleteOpened_withResult
    {next : Kernel → Except Fault Kernel}
    (hnext : ∀ k, next (withResult k value) = next k) (f : OpenFile) :
    ((k.withResult value).deleteOpened f >>= next) =
      (k.deleteOpened f >>= next) := by
  simp only [deleteOpened, withResult_host, withResult_fileSystem,
    mk_withResult]
  cases FileSlot.deleteFile k.host (.object f) with
  | error fault => rfl
  | ok host => exact hnext _

theorem exec_withResult :
    (k.withResult value).handleSCExec env = k.handleSCExec env := by
  apply user2System_withResult
  intro name k
  simp only [withResult_fileSystem, withResult_host, mk_withResult,
    returns_withResult]
  split
  · rfl
  · apply deleteOpened_withResult
    simp

theorem execV_withResult :
    (k.withResult value).handleSCExecV env = k.handleSCExecV env := by
  simp only [handleSCExecV, ne_eq, Nat.reduceEqDiff,
    not_false_eq_true, register_withResult]
  split
  · rfl
  · apply copyRows_withResult
    simp

theorem onSemaphore_withResult (call : CString → Except Fault ℤ) :
    (k.withResult value).onSemaphore call = k.onSemaphore call := by
  apply user2System_withResult
  simp

theorem createSemaphore_withResult :
    (k.withResult value).handleSCCreateSemaphore env =
      k.handleSCCreateSemaphore env := by
  simp only [handleSCCreateSemaphore, onSemaphore_withResult, ne_eq,
    Nat.reduceEqDiff, not_false_eq_true, register_withResult]

theorem join_withResult :
    (k.withResult value).handleSCJoin env = k.handleSCJoin env := by
  simp [handleSCJoin]

/-! ## `Write` -/

/-- The handler of `Write` reaches its end without a result: the file is
neither read-only nor the console, and nothing is to be written, or its access
mode is one that no `Open` gives. -/
def FallsThrough (k : Kernel) : Prop :=
  ∃ slot f, k.occupied (k.register 6).toInt ∧
    k.fileSystem.fileSlot (k.register 6).toInt.toNat = .object slot ∧
    slot.type ≠ 1 ∧ slot.fileOpen = .object f ∧
    f.type ≠ 1 ∧ f.type ≠ 2 ∧ f.type ≠ 3 ∧
    (f.type = 0 ∨ f.type = 4 → (k.register 5).toInt = 0)

/-- `OpenFile::Write` returns the number of bytes it was given. -/
theorem write_count
    {f f' : OpenFile} {h host : Host} {buffer : List (BitVec 8)}
    {numBytes numWritten : ℤ} {answer : HostAnswer}
    (hwrite : f.write h buffer numBytes answer = .ok (numWritten, f', host)) :
    numWritten = numBytes ∧ 0 ≤ numBytes := by
  rcases ok_of_bind hwrite with ⟨⟨count, after⟩, hat, hresult⟩
  cases hresult
  rcases ok_of_bind hat with ⟨sought, -, hat⟩
  split at hat
  next hrange =>
    rcases ok_of_bind hat with ⟨written, -, hresult⟩
    cases hresult
    exact ⟨rfl, hrange.1⟩
  next => cases hat

theorem writeFile_withResult
    (id : ℕ) (slot : FileSlot) (f : OpenFile) (oldPosition : ℤ)
    {charCnt : ℤ} (hcount : charCnt ≠ 0) (buf : List (BitVec 8)) :
    (k.withResult value).writeFile env id slot f oldPosition charCnt buf =
      k.writeFile env id slot f oldPosition charCnt buf := by
  simp only [writeFile, withResult_host, withResult_fileSystem,
    withResult_consoleIn, withResult_consoleOut, mk_withResult,
    setFile_withResult, returns_withResult]
  cases hwrite : f.write k.host buf charCnt env.answer with
  | error fault => rfl
  | ok result =>
      rcases result with ⟨numWritten, f', host⟩
      rcases write_count hwrite with ⟨rfl, hnonneg⟩
      have hpos : numWritten > 0 := by omega
      simp only [bind, Except.bind, if_pos hpos]

theorem write_withResult (hwrites : ¬k.FallsThrough) :
    (k.withResult value).handleSCWrite env = k.handleSCWrite env := by
  simp only [handleSCWrite, ne_eq, Nat.reduceEqDiff, not_false_eq_true,
    register_withResult, withResult_occupied, withResult_fileSystem,
    withResult_host, setFile_withResult, returns_withResult]
  split
  next hin =>
    cases hslot : k.fileSystem.fileSlot (k.register 6).toInt.toNat with
    | null => rfl
    | dangling => rfl
    | object slot =>
        simp only [Pointer.deref_object, bind, Except.bind]
        split
        next =>
          apply user2System_withResult k value
          intro buf k
          exact send_withResult env k value _ _ _
        next hfile =>
          cases hopen : slot.fileOpen with
          | null => rfl
          | dangling => rfl
          | object f =>
              simp only [Pointer.deref_object]
              split
              next => rfl
              next htype =>
                rcases not_or.mp htype with ⟨hread, hstdin⟩
                apply user2System_withResult
                intro buf k'
                simp only
                split
                next hmode =>
                  have hmode' : f.type = 0 ∨ f.type = 4 := hmode
                  apply writeFile_withResult
                  intro hzero
                  exact hwrites ⟨slot, f, hin, hslot, hfile, hopen, hread,
                    hstdin, by omega, fun _ => hzero⟩
                next hmode =>
                  split
                  next => exact writeConsole_withResult k' value _ _
                  next hstdout =>
                    exact (hwrites ⟨slot, f, hin, hslot, hfile, hopen, hread,
                      hstdin, hstdout, fun h => (hmode h).elim⟩).elim
  next => rfl

/-- A handler that writes its result does not see what register 2 held. -/
theorem handle_withResult
    {call : SystemCall} (hwrites : ¬(call = .write ∧ k.FallsThrough)) :
    (k.withResult value).handle env call = k.handle env call := by
  cases call with
  | add =>
      exact congrArg Except.ok (returns_withResult k value _)
  | create => exact create_withResult env k value
  | «open» => exact open_withResult env k value
  | close => exact close_withResult k value
  | read => exact read_withResult env k value
  | write =>
      exact write_withResult env k value fun h => hwrites ⟨rfl, h⟩
  | seek => exact seek_withResult k value
  | remove => exact remove_withResult env k value
  | socketTCPOpen => exact socketTCPOpen_withResult env k value
  | socketTCPConnect => exact socketTCPConnect_withResult env k value
  | socketTCPSend => exact socketTCPSend_withResult env k value
  | socketTCPReceive => exact receive_withResult env k value _ _ _
  | socketTCPClose => exact socketTCPClose_withResult k value
  | exec => exact exec_withResult env k value
  | execV => exact execV_withResult env k value
  | wait => exact onSemaphore_withResult k value _
  | signal => exact onSemaphore_withResult k value _
  | join => exact join_withResult env k value
  | createSemaphore => exact createSemaphore_withResult env k value

/-! ## Where `Write` writes no result -/

theorem mk_pcIncrease_withResult
    (m : Machine) (fs : FileSystem) (h : Host)
    (input output : List (BitVec 8)) :
    Kernel.mk (m.writeRegister 2 value).pcIncrease fs h input output =
      (Kernel.mk m.pcIncrease fs h input output).withResult value := by
  have hregisters : (m.writeRegister 2 value).pcIncrease =
      m.pcIncrease.writeRegister 2 value := by
    simp [Machine.pcIncrease, Machine.writeRegister, Machine.readRegister,
      pcReg, nextPCReg, prevPCReg, Function.update_comm]
  rw [hregisters, withResult]

/-- A handler that copies from user memory keeps register 2, if what it does
next keeps it. -/
theorem user2System_keeps
    {next : List (BitVec 8) × Kernel → Except Fault Kernel}
    (hnext : ∀ buffer k, next (buffer, withResult k value) =
      (next (buffer, k)).map (·.withResult value))
    (addr limit : BitVec 32) :
    ((k.withResult value).user2System addr limit >>= next) =
      (k.user2System addr limit >>= next).map (·.withResult value) := by
  simp only [user2System, withResult, Machine.user2System_writeRegister]
  cases k.machine.user2System addr limit with
  | error fault => rfl
  | ok result => exact hnext result.1 { k with machine := result.2 }

theorem writeFile_zero_keeps
    (id : ℕ) (slot : FileSlot) (f : OpenFile) (oldPosition : ℤ)
    (buf : List (BitVec 8)) :
    (k.withResult value).writeFile env id slot f oldPosition 0 buf =
      (k.writeFile env id slot f oldPosition 0 buf).map
        (·.withResult value) := by
  unfold writeFile
  rw [withResult_host]
  cases hwrite : f.write k.host buf 0 env.answer with
  | error fault => rfl
  | ok result =>
      rcases result with ⟨numWritten, f', host⟩
      rcases write_count hwrite with ⟨rfl, -⟩
      exact congrArg Except.ok (mk_pcIncrease_withResult value _ _ _ _ _)

/-- Where it falls through, `Write` keeps what register 2 held. -/
theorem write_keeps (hfalls : k.FallsThrough) :
    (k.withResult value).handleSCWrite env =
      (k.handleSCWrite env).map (·.withResult value) := by
  rcases hfalls with ⟨slot, f, hin, hslot, hfile, hopen, hread, hstdin,
    hstdout, hcount⟩
  simp only [handleSCWrite, ne_eq, Nat.reduceEqDiff, not_false_eq_true,
    register_withResult, withResult_occupied, withResult_fileSystem,
    withResult_host, setFile_withResult, if_pos hin, hslot,
    Pointer.deref_object, bind, Except.bind, if_neg hfile, hopen, hread,
    hstdin, or_self, if_false]
  apply user2System_keeps
  intro buf k'
  simp only
  split
  next hmode =>
    rw [hcount hmode]
    exact writeFile_zero_keeps env k' value _ _ _ _ _
  next =>
    split
    next htype => exact (hstdout htype).elim
    next => exact congrArg Except.ok (mk_pcIncrease_withResult value _ _ _ _ _)

/-! ## The protocol -/

/-- The program counter is advanced once, and only register 2 may hold
something new. -/
structure FollowsProtocol (k k' : Kernel) : Prop where
  prevPC : k'.register prevPCReg = k.register pcReg
  pc : k'.register pcReg = k.register pcReg + 4
  nextPC : k'.register nextPCReg = k.register pcReg + 8
  others : ∀ num, num ≠ 2 → num ≠ prevPCReg → num ≠ pcReg →
    num ≠ nextPCReg → k'.register num = k.register num

/-- Register 2 holds the result of the call: whatever it held before, it would
hold the same now. -/
def ResultWritten (call : SystemCall) (k' : Kernel) : Prop :=
  ∀ value k'', (k.withResult value).handle env call = .ok k'' →
    k''.register 2 = k'.register 2

section Protocol

variable {env : Environment} {k k' : Kernel} {call : SystemCall}

theorem followsProtocol_of_returned
    {fs : FileSystem} {h : Host} {result : Option ℤ}
    (hreturned : k.Returned k' fs h result) : k.FollowsProtocol k' := by
  rcases hreturned.machine with ⟨m, hmap, hmachine⟩
  have hregisters : ∀ num, num ≠ 2 → k'.register num =
      m.pcIncrease.registers num := by
    intro num hne
    rw [register, hmachine, Machine.readRegister]
    cases result with
    | none => rfl
    | some result =>
        simp [Machine.pcIncrease, Machine.writeRegister,
          Machine.readRegister, Function.update_apply, pcReg, nextPCReg,
          prevPCReg, hne]
  have hold : ∀ num, m.registers num = k.register num := by
    intro num
    rw [hmap.registers]
    rfl
  constructor
  case prevPC =>
    rw [hregisters _ (by decide), ← hold]
    simp [Machine.pcIncrease, Machine.writeRegister, Machine.readRegister,
      pcReg, nextPCReg, prevPCReg]
  case pc =>
    rw [hregisters _ (by decide), ← hold]
    simp [Machine.pcIncrease, Machine.writeRegister, Machine.readRegister,
      pcReg, nextPCReg, prevPCReg]
  case nextPC =>
    rw [hregisters _ (by decide), ← hold]
    simp [Machine.pcIncrease, Machine.writeRegister, Machine.readRegister,
      pcReg, nextPCReg, prevPCReg, BitVec.add_assoc]
  case others =>
    intro num hresult hprev hpc hnext
    rw [hregisters num hresult, ← hold]
    simp [Machine.pcIncrease, Machine.writeRegister, Machine.readRegister,
      hprev, hpc, hnext]

/-- Every call that returns follows the protocol. -/
theorem followsProtocol_of_handle (hcall : k.handle env call = .ok k') :
    k.FollowsProtocol k' := by
  rcases ends_of_handle hcall with ⟨fs, h, result, hreturned, -⟩
  exact followsProtocol_of_returned hreturned

theorem resultWritten_iff (hcall : k.handle env call = .ok k') :
    k.ResultWritten env call k' ↔ ¬(call = .write ∧ k.FallsThrough) := by
  constructor
  · rintro hwritten ⟨rfl, hfalls⟩
    have hkept := write_keeps env k (k'.register 2 + 1) hfalls
    rw [show k.handleSCWrite env = .ok k' from hcall] at hkept
    have hsame := hwritten _ _ hkept
    have hnew : (k'.withResult (k'.register 2 + 1)).register 2 =
        k'.register 2 + 1 := by
      simp [register, withResult, Machine.readRegister,
        Machine.writeRegister]
    rw [hnew] at hsame
    exact absurd (BitVec.add_right_eq_self.mp hsame) (by decide)
  · intro hwrites value k'' hcall'
    rw [handle_withResult env k value hwrites, hcall] at hcall'
    obtain rfl : k' = k'' := Except.ok.inj hcall'
    rfl

end Protocol

end Kernel

end Nachos
