import Nachos.UserMemory

/-!
# The system calls: `userprog/exception.cc`

A handler takes its arguments from the registers 4, 5 and 6, puts its result
into register 2 and increments the program counter.  What a call meets outside
of the kernel state, and what the tables of processes and semaphores return,
is its `Environment`.
-/

namespace Nachos

/-- `MaxFileLength`. -/
def maxFileLength : BitVec 32 := 32

/-- `MAXIpAddressLength`. -/
def maxIpAddressLength : BitVec 32 := 15

/-- What the functions of `pTable` and `sTable` do at a call. -/
structure Tables where
  execUpdate : CString → Except Fault ℤ
  execUpdateV : ℤ → List CString → Except Fault ℤ
  joinUpdate : ℤ → Except Fault ℤ
  wait : CString → Except Fault ℤ
  signal : CString → Except Fault ℤ
  create : CString → ℤ → Except Fault ℤ

structure Environment where
  /-- The answer of the host, where the call asks it for something. -/
  answer : HostAnswer
  tables : Tables
  /-- What the memory of a file name holds once it has been freed, by the slot
  of the file. -/
  freedName : ℕ → CString
  /-- The variable `leng` of `handle_SC_SocketTCP_Send` before it is set. -/
  leng : BitVec 32
  /-- The `type` that `FileSystem::Open(name)` leaves as it finds it. -/
  openType : ℤ

namespace Kernel

/-! ## Parts of handlers -/

def register (k : Kernel) (num : ℕ) : BitVec 32 :=
  k.machine.readRegister num

/-- `WriteRegister(2, result)` and `PCIncrease()`. -/
def returns (k : Kernel) (result : ℤ) : Kernel :=
  let machine := k.machine.writeRegister 2 (BitVec.ofInt 32 result)
  { k with machine := machine.pcIncrease }

section Returns

variable (k : Kernel) (result : ℤ)

@[simp] theorem returns_fileSystem :
    (k.returns result).fileSystem = k.fileSystem := rfl

@[simp] theorem returns_host : (k.returns result).host = k.host := rfl

@[simp] theorem returns_consoleIn :
    (k.returns result).consoleIn = k.consoleIn := rfl

@[simp] theorem returns_consoleOut :
    (k.returns result).consoleOut = k.consoleOut := rfl

@[simp] theorem register_two_returns :
    (k.returns result).register 2 = BitVec.ofInt 32 result := rfl

@[simp] theorem returns_holdsBytes
    (addr : BitVec 32) (bytes : List (BitVec 8)) :
    (k.returns result).machine.HoldsBytes addr bytes ↔
      k.machine.HoldsBytes addr bytes := by
  induction bytes generalizing addr with
  | nil => rfl
  | cons byte rest ih => rw [Machine.HoldsBytes, Machine.HoldsBytes, ih]; rfl

end Returns

def user2System (k : Kernel) (virtAddr limit : BitVec 32) :
    Except Fault (List (BitVec 8) × Kernel) := do
  let (buffer, machine) ← k.machine.user2System virtAddr limit
  return (buffer, { k with machine := machine })

theorem user2System_eq
    {k : Kernel} {virtAddr limit : BitVec 32} {buffer : List (BitVec 8)}
    {machine : Machine}
    (hcopy : k.machine.user2System virtAddr limit = .ok (buffer, machine)) :
    k.user2System virtAddr limit =
      .ok (buffer, { k with machine := machine }) := by
  rw [user2System, hcopy]
  rfl

def system2User (k : Kernel) (virtAddr : BitVec 32) (len : ℤ)
    (buffer : List (BitVec 8)) : Except Fault (ℤ × Kernel) := do
  let (count, machine) ← k.machine.system2User virtAddr len buffer
  return (count, { k with machine := machine })

theorem system2User_eq
    {k : Kernel} {virtAddr : BitVec 32} {len count : ℤ}
    {buffer : List (BitVec 8)} {machine : Machine}
    (hcopy : k.machine.system2User virtAddr len buffer =
      .ok (count, machine)) :
    k.system2User virtAddr len buffer =
      .ok (count, { k with machine := machine }) := by
  rw [system2User, hcopy]
  rfl

/-- `fileSlot[id]` after its `OpenFile` has changed. -/
def setFile (k : Kernel) (id : ℕ) (slot : FileSlot) (f : OpenFile) : Kernel :=
  let slot := { slot with fileOpen := .object f }
  { k with fileSystem := k.fileSystem.setSlot id (.object slot) }

/-- The slot of an id in `[0, MaxFileOpen)` that is not `NULL`. -/
def occupied (k : Kernel) (id : ℤ) : Prop :=
  0 ≤ id ∧ id < maxFileOpen ∧ (k.fileSystem.fileSlot id.toNat).isNull = false

instance (k : Kernel) (id : ℤ) : Decidable (k.occupied id) := by
  unfold occupied
  infer_instance

/-! ## Files -/

/-- `handle_SC_Add`. -/
def handleSCAdd (k : Kernel) : Except Fault Kernel :=
  return k.returns (k.register 4 + k.register 5).toInt

/-- `handle_SC_Create`. -/
def handleSCCreate (env : Environment) (k : Kernel) : Except Fault Kernel := do
  let (filename, k) ← k.user2System (k.register 4) (maxFileLength + 1)
  let (created, host) ←
    FileSystem.create k.host (cString filename) env.answer
  return { k with host := host }.returns (if created then 0 else -1)

/-- An `OpenFile` whose name has been freed. -/
def freeName : Pointer OpenFile → Pointer OpenFile
  | .object f => .object { f with fName := .dangling }
  | pointer => pointer

/-- `handle_SC_Open`.  A slot is taken whether `FileSystem::Open` succeeds or
not, and the name it keeps is freed. -/
def handleSCOpen (env : Environment) (k : Kernel) : Except Fault Kernel := do
  let type := (k.register 5).toInt
  let (filename, k) ← k.user2System (k.register 4) maxFileLength
  match k.fileSystem.findFreeSlot with
  | none => return k.returns (-1)
  | some freeSlot =>
      if type = 0 ∨ type = 1 ∨ type = 4 then
        let (f, host) ← FileSystem.openTyped k.host (cString filename) type
          freeSlot env.answer
        let slot := FileSlot.ofFile (freeName f)
        return { k with
          fileSystem := k.fileSystem.setSlot freeSlot (.object slot)
          host := host }.returns freeSlot
      else if type = 2 then return k.returns 0
      else return k.returns 1

/-- `handle_SC_Close`. -/
def handleSCClose (k : Kernel) : Except Fault Kernel :=
  let fileID := (k.register 4).toInt
  if 2 ≤ fileID ∧ k.occupied fileID then do
    let slot ← (k.fileSystem.fileSlot fileID.toNat).deref
    if slot.type = 1 then
      let (rVal, fileSystem, host) ← k.fileSystem.closeTCP k.host fileID
      return { k with fileSystem := fileSystem, host := host }.returns rVal
    else
      let host ← slot.delete k.host
      return { k with
        fileSystem := k.fileSystem.setSlot fileID.toNat .null
        host := host }.returns 0
  else return k.returns (-1)

/-- What `recv` delivers goes to the user; the calls `Read` and
`SocketTCP_Receive` share this code. -/
def receive (env : Environment) (k : Kernel) (id : ℤ) (virtAddr len : BitVec 32) :
    Except Fault Kernel :=
  if len.toInt < 0 then .error .abort
  else do
    let (bytes, host) ←
      k.fileSystem.receiveTCP k.host id len.toNat env.answer
    let k := { k with host := host }
    match bytes with
    | none => return k.returns (-1)
    | some [] => return k.returns 0
    | some buffer =>
        let (rVal, k) ← k.system2User virtAddr buffer.length buffer
        return k.returns rVal

/-- The characters of a line of the console, at most `charCnt` of them, and
what is left of the input. -/
def readLine : ℕ → List (BitVec 8) →
    Except Fault (List (BitVec 8) × List (BitVec 8))
  | 0, input => return ([], input)
  | _ + 1, [] => .error .waitsForever
  | charCnt + 1, t :: input =>
      if t = 0xff ∨ t = 10 ∨ t = 0 then return ([], input)
      else do
        let (line, input) ← readLine charCnt input
        return (t :: line, input)

/-- `handle_SC_Read` on the console. -/
def readConsole (k : Kernel) (virAddr charCnt : BitVec 32) :
    Except Fault Kernel := do
  if charCnt.toInt < 0 then .error .undefinedBehaviour
  else
    let (line, input) ← readLine charCnt.toNat k.consoleIn
    let k := { k with consoleIn := input }
    let (_, k) ← k.system2User virAddr (line.length + 1) (line ++ [0])
    return k.returns line.length

/-- `handle_SC_Read` on a file, with the position it has found. -/
def readFile (env : Environment) (k : Kernel) (id : ℕ) (slot : FileSlot)
    (f : OpenFile) (oldPosition : ℤ) (virAddr charCnt : BitVec 32)
    (buf : List (BitVec 8)) : Except Fault Kernel := do
  if charCnt.toInt < 0 then .error .undefinedBehaviour
  else
    let (bytes, f, host) ← f.read k.host charCnt.toNat env.answer
    let k := { k with host := host }
    if bytesCount bytes > 0 then
      let (newPosition, f) := f.getCurrentPos k.host
      let read := bytes.getD []
      let (_, k) ← (k.setFile id slot f).system2User virAddr
        (newPosition - oldPosition) (read ++ buf.drop read.length)
      return k.returns (newPosition - oldPosition)
    else return (k.setFile id slot f).returns 0

/-- `handle_SC_Read`. -/
def handleSCRead (env : Environment) (k : Kernel) : Except Fault Kernel :=
  let virAddr := k.register 4
  let charCnt := k.register 5
  let id := (k.register 6).toInt
  if k.occupied id then do
    let slot ← (k.fileSystem.fileSlot id.toNat).deref
    if slot.type = 1 then k.receive env id virAddr charCnt
    else
      let f ← slot.fileOpen.deref
      if f.type = 3 then return k.returns (-1)
      else
        let (oldPosition, f) := f.getCurrentPos k.host
        let (buf, k) ←
          (k.setFile id.toNat slot f).user2System virAddr charCnt
        if f.type = 2 then k.readConsole virAddr charCnt
        else k.readFile env id.toNat slot f oldPosition virAddr charCnt buf
  else return k.returns (-1)

/-- What the user holds goes to `send`; the calls `Write` and
`SocketTCP_Send` share this code. -/
def send (env : Environment) (k : Kernel) (id : ℤ) (buf : List (BitVec 8))
    (len : ℤ) : Except Fault Kernel := do
  let (bytes, host) ← k.fileSystem.sendTCP k.host id buf len env.answer
  return { k with host := host }.returns (bytesCount bytes)

/-- `handle_SC_Write` on the console, which gets the zero byte at the end of
the text, too. -/
def writeConsole (k : Kernel) (charCnt : ℤ) (buf : List (BitVec 8)) :
    Except Fault Kernel :=
  if charCnt < 0 then .error .undefinedBehaviour
  else
    let text := cString (buf.take charCnt.toNat)
    return { k with consoleOut := k.consoleOut ++ text ++ [0] }.returns
      text.length

/-- `handle_SC_Write` on a file.  When nothing was written, register 2 keeps
what it holds. -/
def writeFile (env : Environment) (k : Kernel) (id : ℕ) (slot : FileSlot)
    (f : OpenFile) (oldPosition charCnt : ℤ) (buf : List (BitVec 8)) :
    Except Fault Kernel := do
  let (numWritten, f, host) ← f.write k.host buf charCnt env.answer
  let k := { k with host := host }
  if numWritten > 0 then
    let (newPosition, f) := f.getCurrentPos k.host
    return (k.setFile id slot f).returns (newPosition - oldPosition)
  else
    let k := k.setFile id slot f
    return { k with machine := k.machine.pcIncrease }

/-- `handle_SC_Write`. -/
def handleSCWrite (env : Environment) (k : Kernel) : Except Fault Kernel :=
  let virAddr := k.register 4
  let charCnt := k.register 5
  let id := (k.register 6).toInt
  if k.occupied id then do
    let slot ← (k.fileSystem.fileSlot id.toNat).deref
    if slot.type = 1 then
      let (buf, k) ← k.user2System virAddr charCnt
      k.send env id buf charCnt.toInt
    else
      let f ← slot.fileOpen.deref
      if f.type = 1 ∨ f.type = 2 then return k.returns (-1)
      else
        let (oldPosition, f) := f.getCurrentPos k.host
        let (buf, k) ←
          (k.setFile id.toNat slot f).user2System virAddr charCnt
        if f.type = 0 ∨ f.type = 4 then
          k.writeFile env id.toNat slot f oldPosition charCnt.toInt buf
        else if f.type = 3 then k.writeConsole charCnt.toInt buf
        else return { k with machine := k.machine.pcIncrease }
  else return k.returns (-1)

/-- `handle_SC_Seek`. -/
def handleSCSeek (k : Kernel) : Except Fault Kernel :=
  let position := (k.register 4).toInt
  let id := (k.register 5).toInt
  if k.occupied id ∧ id ≠ 0 ∧ id ≠ 1 then do
    let slot ← (k.fileSystem.fileSlot id.toNat).deref
    let f ← slot.fileOpen.deref
    let (position, host) ← if position = -1 then f.length k.host
      else pure (position, k.host)
    let (length, host) ← f.length host
    if position > length ∨ position < 0 then
      return { k with host := host }.returns (-1)
    else
      let (f, host) ← f.seek host position
      return ({ k with host := host }.setFile id.toNat slot f).returns position
  else return k.returns (-1)

/-- `fileSlot[i]->fileOpen->fName`. -/
def slotName (env : Environment) (k : Kernel) (i : ℕ) :
    Except Fault CString := do
  let slot ← (k.fileSystem.fileSlot i).deref
  let f ← slot.fileOpen.deref
  match f.fName with
  | .dangling => return env.freedName i
  | name => name.deref

/-- The loop of `handle_SC_Remove` over the slots: whether one of them has the
name. -/
def nameInUse (env : Environment) (k : Kernel) (filename : CString) :
    List ℕ → Except Fault Bool
  | [] => return false
  | i :: slots =>
      if (k.fileSystem.fileSlot i).isNull then nameInUse env k filename slots
      else do
        let name ← k.slotName env i
        if name = filename then return true
        else nameInUse env k filename slots

/-- `handle_SC_Remove`. -/
def handleSCRemove (env : Environment) (k : Kernel) : Except Fault Kernel := do
  let (filename, k) ← k.user2System (k.register 4) (maxFileLength + 1)
  let inUse ← k.nameInUse env (cString filename) (List.range maxFileOpen)
  if inUse then return k.returns (-1)
  else
    let (removed, host) := FileSystem.remove k.host (cString filename)
    return { k with host := host }.returns (if removed then 0 else -1)

/-! ## Sockets -/

/-- `handle_SC_SocketTCP_Open`. -/
def handleSCSocketTCPOpen (env : Environment) (k : Kernel) :
    Except Fault Kernel := do
  let (socketID, fileSystem, host) ← k.fileSystem.createTCP k.host env.answer
  return { k with fileSystem := fileSystem, host := host }.returns socketID

/-- `handle_SC_SocketTCP_Connect`. -/
def handleSCSocketTCPConnect (env : Environment) (k : Kernel) :
    Except Fault Kernel := do
  let socketID := (k.register 4).toInt
  let (_ip, k) ← k.user2System (k.register 5) maxIpAddressLength
  let result ← k.fileSystem.connectTCP socketID env.answer
  return k.returns (if result = -1 then -1 else 0)

/-- `handle_SC_SocketTCP_Send`.  The buffer is read with the variable `leng`
before it is set, and printed. -/
def handleSCSocketTCPSend (env : Environment) (k : Kernel) :
    Except Fault Kernel := do
  let socketID := (k.register 4).toInt
  let (buff, k) ← k.user2System (k.register 5) env.leng
  if buff = [] then .error .undefinedBehaviour
  else k.send env socketID buff (k.register 6).toInt

/-- `handle_SC_SocketTCP_Receive`. -/
def handleSCSocketTCPReceive (env : Environment) (k : Kernel) :
    Except Fault Kernel :=
  k.receive env (k.register 4).toInt (k.register 5) (k.register 6)

/-- `handle_SC_SocketTCP_Close`. -/
def handleSCSocketTCPClose (k : Kernel) : Except Fault Kernel := do
  let (rVal, fileSystem, host) ←
    k.fileSystem.closeTCP k.host (k.register 4).toInt
  return { k with fileSystem := fileSystem, host := host }.returns rVal

/-! ## Processes and semaphores -/

/-- `delete file1`: the slot keeps a pointer to the file. -/
def deleteOpened (k : Kernel) (f : OpenFile) : Except Fault Kernel := do
  let host ← FileSlot.deleteFile k.host (.object f)
  return { k with
    fileSystem := k.fileSystem.setSlot f.fileDescriptorId
      (.object (.ofFile .dangling))
    host := host }

/-- `handle_SC_Exec`. -/
def handleSCExec (env : Environment) (k : Kernel) : Except Fault Kernel := do
  let (name, k) ← k.user2System (k.register 4) (maxFileLength + 1)
  match k.fileSystem.openNamed k.host (cString name) env.openType with
  | (none, fileSystem, host) =>
      return { k with fileSystem := fileSystem, host := host }.returns (-1)
  | (some file1, fileSystem, host) =>
      let k ← { k with fileSystem := fileSystem, host := host }.deleteOpened
        file1
      let n ← env.tables.execUpdate (cString name)
      return k.returns n

/-- The loop of `handle_SC_ExecV` over the rows of the user's array. -/
def copyRows (virtAddr : BitVec 32) : ℕ → Kernel →
    Except Fault (List CString × Kernel)
  | 0, k => return ([], k)
  | rows + 1, k => do
      let (row, k) ← k.user2System virtAddr (maxFileLength + 1)
      let (argv, k) ← copyRows (virtAddr + 100) rows k
      return (cString row :: argv, k)

/-- `handle_SC_ExecV`. -/
def handleSCExecV (env : Environment) (k : Kernel) : Except Fault Kernel :=
  let argc := (k.register 4).toInt
  if argc < 0 then .error .abort
  else do
    let (argv, k) ← copyRows (k.register 5) argc.toNat k
    let n ← env.tables.execUpdateV argc argv
    return k.returns n

/-- A call on a semaphore, by the function of `sTable`. -/
def onSemaphore (k : Kernel) (call : CString → Except Fault ℤ) :
    Except Fault Kernel := do
  let (name, k) ← k.user2System (k.register 4) (maxFileLength + 1)
  let result ← call (cString name)
  if result = -1 then return k.returns (-1)
  else return k.returns result

/-- `handle_SC_Wait`. -/
def handleSCWait (env : Environment) (k : Kernel) : Except Fault Kernel :=
  k.onSemaphore env.tables.wait

/-- `handle_SC_Signal`. -/
def handleSCSignal (env : Environment) (k : Kernel) : Except Fault Kernel :=
  k.onSemaphore env.tables.signal

/-- `handle_SC_CreateSemaphore`. -/
def handleSCCreateSemaphore (env : Environment) (k : Kernel) :
    Except Fault Kernel :=
  k.onSemaphore fun name => env.tables.create name (k.register 5).toInt

/-- `handle_SC_Join`. -/
def handleSCJoin (env : Environment) (k : Kernel) : Except Fault Kernel := do
  let result ← env.tables.joinUpdate (k.register 4).toInt
  return k.returns result

end Kernel

/-! ## Dispatch -/

/-- The system calls that return to the user program. -/
inductive SystemCall
  | add
  | create
  | open
  | close
  | read
  | write
  | seek
  | remove
  | socketTCPOpen
  | socketTCPConnect
  | socketTCPSend
  | socketTCPReceive
  | socketTCPClose
  | exec
  | execV
  | wait
  | signal
  | join
  | createSemaphore
  deriving DecidableEq

/-- The number that selects a call, in register 2. -/
def SystemCall.code : SystemCall → BitVec 32
  | .exec => 2
  | .join => 3
  | .create => 4
  | .remove => 5
  | .open => 6
  | .read => 7
  | .write => 8
  | .seek => 9
  | .close => 10
  | .execV => 13
  | .socketTCPOpen => 16
  | .socketTCPConnect => 17
  | .socketTCPSend => 18
  | .socketTCPReceive => 19
  | .socketTCPClose => 20
  | .wait => 21
  | .signal => 22
  | .createSemaphore => 23
  | .add => 42

/-- `ExceptionHandler(SyscallException)`. -/
def Kernel.handle (env : Environment) (k : Kernel) :
    SystemCall → Except Fault Kernel
  | .add => k.handleSCAdd
  | .create => k.handleSCCreate env
  | .open => k.handleSCOpen env
  | .close => k.handleSCClose
  | .read => k.handleSCRead env
  | .write => k.handleSCWrite env
  | .seek => k.handleSCSeek
  | .remove => k.handleSCRemove env
  | .socketTCPOpen => k.handleSCSocketTCPOpen env
  | .socketTCPConnect => k.handleSCSocketTCPConnect env
  | .socketTCPSend => k.handleSCSocketTCPSend env
  | .socketTCPReceive => k.handleSCSocketTCPReceive env
  | .socketTCPClose => k.handleSCSocketTCPClose
  | .exec => k.handleSCExec env
  | .execV => k.handleSCExecV env
  | .wait => k.handleSCWait env
  | .signal => k.handleSCSignal env
  | .join => k.handleSCJoin env
  | .createSemaphore => k.handleSCCreateSemaphore env

/-- A call of a user program that has made `m` of the machine. -/
def Kernel.callFrom (k : Kernel) (m : Machine) (env : Environment)
    (call : SystemCall) : Except Fault Kernel :=
  { k with machine := m }.handle env call

end Nachos
