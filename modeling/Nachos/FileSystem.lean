import Nachos.Machine

/-!
# The stub file system: `filesys/filesys.h` and `filesys/openfile.h`

The descriptor table of the kernel over the files and sockets of the host.
A host call may deliver fewer bytes than it is asked for, or fail: the
`HostAnswer` of a call says how many it delivers at most, and `none` is its
failure.  Descriptors of the host are numbered in the order of their opening;
the kernel never looks at the numbers.
-/

namespace Nachos

/-- `MaxFileOpen`. -/
def maxFileOpen : ℕ := 20

/-- `reverseFD`. -/
def reverseFD : ℕ := 2

/-! ## The host -/

/-- An open file description of the host. -/
structure HostFile where
  inode : ℕ
  offset : ℕ
  deriving DecidableEq

/-- A socket of the host: what the peer has sent and `recv` has not yet
delivered, what `send` has accepted, and how often `close` was called. -/
structure HostSocket where
  incoming : List (BitVec 8)
  outgoing : List (BitVec 8)
  closes : ℕ
  deriving DecidableEq

abbrev HostAnswer := Option ℕ

structure Host where
  /-- The names `open(name, O_RDWR)` succeeds for. -/
  directory : CString → Option ℕ
  /-- The inodes from this number on have never been used. -/
  inodes : ℕ
  contents : ℕ → List (BitVec 8)
  files : List (Option HostFile)
  sockets : List HostSocket

/-- A file after `bytes` have been written at a position of it.  A gap between
its end and the position is filled with zeros. -/
def overwrite (old : List (BitVec 8)) (offset : ℕ) (bytes : List (BitVec 8)) :
    List (BitVec 8) :=
  if bytes = [] then old
  else old.takeD offset 0 ++ bytes ++ old.drop (offset + bytes.length)

/-- What was written can be told from the file. -/
theorem overwrite_inj
    {old bytes bytes' : List (BitVec 8)} {offset : ℕ}
    (hlength : bytes.length = bytes'.length) :
    overwrite old offset bytes = overwrite old offset bytes' ↔
      bytes = bytes' := by
  constructor
  · intro heq
    cases bytes with
    | nil => exact (List.length_eq_zero_iff.mp hlength.symm).symm
    | cons byte rest =>
        cases bytes' with
        | nil => simp at hlength
        | cons byte' rest' =>
            simp only [overwrite, reduceCtorEq, if_false, hlength,
              List.append_assoc, List.append_cancel_left_eq] at heq
            exact (List.append_cancel_right_eq _ _ _).mp heq
  · rintro rfl
    rfl

namespace Host

def file (h : Host) (fd : ℕ) : Option HostFile :=
  (h.files[fd]?).join

def setFile (h : Host) (fd : ℕ) (f : Option HostFile) : Host :=
  { h with files := h.files.set fd f }

def setContents (h : Host) (inode : ℕ) (bytes : List (BitVec 8)) : Host :=
  { h with contents := Function.update h.contents inode bytes }

/-- The bytes of an open file behind its position. -/
def remaining (h : Host) (fd : ℕ) : List (BitVec 8) :=
  match h.file fd with
  | some f => (h.contents f.inode).drop f.offset
  | none => []

/-- A new descriptor for a file. -/
def openInode (h : Host) (inode : ℕ) : ℕ × Host :=
  (h.files.length, { h with files := h.files ++ [some ⟨inode, 0⟩] })

/-- `OpenForReadWrite(name, FALSE)`. -/
def openForReadWrite (h : Host) (name : CString) : Option (ℕ × Host) :=
  (h.directory name).map h.openInode

/-- `OpenForWrite(name)`. -/
def openForWrite (h : Host) (name : CString) (answer : HostAnswer) :
    Except Fault (ℕ × Host) :=
  match answer, h.directory name with
  | none, _ => .error .abort
  | some _, some inode => .ok ((h.setContents inode []).openInode inode)
  | some _, none =>
      let created := { h with
        directory := Function.update h.directory name (some h.inodes)
        inodes := h.inodes + 1 }
      .ok ((created.setContents h.inodes []).openInode h.inodes)

/-- `Lseek(fd, offset, 0)`. -/
def lseek (h : Host) (fd : ℕ) (offset : ℤ) : Except Fault Host :=
  match h.file fd with
  | some f =>
      if 0 ≤ offset then
        .ok (h.setFile fd (some { f with offset := offset.toNat }))
      else .error .abort
  | none => .error .abort

/-- `Lseek(fd, 0, 2)`. -/
def lseekEnd (h : Host) (fd : ℕ) : Except Fault Host :=
  match h.file fd with
  | some f =>
      .ok (h.setFile fd
        (some { f with offset := (h.contents f.inode).length }))
  | none => .error .abort

/-- `Tell(fd)`. -/
def tell (h : Host) (fd : ℕ) : ℤ :=
  match h.file fd with
  | some f => f.offset
  | none => -1

/-- `ReadPartial(fd, buffer, numBytes)`. -/
def readPartial (h : Host) (fd numBytes : ℕ) (answer : HostAnswer) :
    Option (List (BitVec 8)) × Host :=
  match h.file fd, answer with
  | some f, some limit =>
      let bytes := (h.remaining fd).take (min numBytes limit)
      (some bytes,
        h.setFile fd (some { f with offset := f.offset + bytes.length }))
  | _, _ => (none, h)

/-- `WriteFile(fd, buffer, nBytes)`, which takes all of the bytes or aborts. -/
def writeFile (h : Host) (fd : ℕ) (bytes : List (BitVec 8))
    (answer : HostAnswer) : Except Fault Host :=
  match h.file fd, answer with
  | some f, some limit =>
      if bytes.length ≤ limit then
        let written := overwrite (h.contents f.inode) f.offset bytes
        .ok ((h.setContents f.inode written).setFile fd
          (some { f with offset := f.offset + bytes.length }))
      else .error .abort
  | _, _ => .error .abort

/-- `Close(fd)`. -/
def close (h : Host) (fd : ℕ) : Except Fault Host :=
  match h.file fd with
  | some _ => .ok (h.setFile fd none)
  | none => .error .abort

/-- `unlink(name)`: whether it succeeds. -/
def unlink (h : Host) (name : CString) : Bool × Host :=
  match h.directory name with
  | some _ =>
      (true, { h with directory := Function.update h.directory name none })
  | none => (false, h)

def modifySocket (h : Host) (fd : ℕ) (change : HostSocket → HostSocket) :
    Host :=
  { h with sockets := h.sockets.modify fd change }

/-- `OpenSocketInternet()`. -/
def openSocketInternet (h : Host) (answer : HostAnswer) :
    Except Fault (ℕ × Host) := do
  assert (answer ≠ none)
  return (h.sockets.length, { h with sockets := h.sockets ++ [⟨[], [], 0⟩] })

/-- What the peer of a socket has sent and `recv` has not yet delivered. -/
def incoming (h : Host) (fd : ℕ) : List (BitVec 8) :=
  ((h.sockets[fd]?).map HostSocket.incoming).getD []

/-- `Receive(fd, buffer, len)`. -/
def receive (h : Host) (fd len : ℕ) (answer : HostAnswer) :
    Option (List (BitVec 8)) × Host :=
  match answer with
  | some limit =>
      let bytes := (h.incoming fd).take (min len limit)
      (some bytes, h.modifySocket fd fun socket =>
        { socket with incoming := socket.incoming.drop bytes.length })
  | none => (none, h)

/-- `Send(fd, buffer, len)`, the bytes it has accepted. -/
def send (h : Host) (fd : ℕ) (bytes : List (BitVec 8)) (answer : HostAnswer) :
    Option (List (BitVec 8)) × Host :=
  match answer with
  | some limit =>
      (some (bytes.take limit), h.modifySocket fd fun socket =>
        { socket with outgoing := socket.outgoing ++ bytes.take limit })
  | none => (none, h)

/-- `CloseSocket(fd)`. -/
def closeSocket (h : Host) (fd : ℕ) : Host :=
  h.modifySocket fd fun socket => { socket with closes := socket.closes + 1 }

section Files

variable {h : Host} {fd : ℕ} {f : HostFile}

theorem file_setFile_self
    (hfile : h.file fd = some f) (f' : Option HostFile) :
    (h.setFile fd f').file fd = f' := by
  have hlt : fd < h.files.length := by
    by_contra hge
    simp [file, List.getElem?_eq_none (not_lt.mp hge)] at hfile
  simp [file, setFile, hlt]

theorem file_setFile_of_ne
    {fd' : ℕ} (hne : fd' ≠ fd) (f' : Option HostFile) :
    (h.setFile fd f').file fd' = h.file fd' := by
  simp [file, setFile, Ne.symm hne]

/-- A read from the place where the descriptor is. -/
theorem readPartial_eq
    (hfile : h.file fd = some f) (numBytes limit : ℕ) :
    h.readPartial fd numBytes (some limit) =
      (some ((h.remaining fd).take (min numBytes limit)),
        h.setFile fd (some { f with
          offset := f.offset +
            ((h.remaining fd).take (min numBytes limit)).length })) := by
  simp only [readPartial, hfile]

theorem readPartial_none (numBytes : ℕ) :
    h.readPartial fd numBytes none = (none, h) := by
  unfold readPartial
  split
  next heq => cases heq
  next => rfl

theorem setFile_setFile (f' f'' : Option HostFile) :
    (h.setFile fd f').setFile fd f'' = h.setFile fd f'' := by
  simp [setFile]

theorem setFile_self (hfile : h.file fd = some f) :
    h.setFile fd (some f) = h := by
  have hget : h.files[fd]? = some (some f) := by
    unfold file at hfile
    rcases Option.join_eq_some_iff.mp hfile with hjoin
    exact hjoin
  have hset : h.files.set fd (some f) = h.files := by
    apply List.ext_getElem?
    intro i
    rw [List.getElem?_set]
    split_ifs with heq hlt
    · rw [← heq, hget]
    · rw [← heq, List.getElem?_eq_none (by omega)]
    · rfl
  rw [setFile, hset]

theorem lseek_self (hfile : h.file fd = some f) :
    h.lseek fd f.offset = .ok h := by
  simp only [lseek, hfile, Int.natCast_nonneg, if_true, Int.toNat_natCast,
    setFile_self hfile]

theorem tell_eq (hfile : h.file fd = some f) : h.tell fd = f.offset := by
  simp only [tell, hfile]

theorem remaining_eq (hfile : h.file fd = some f) :
    h.remaining fd = (h.contents f.inode).drop f.offset := by
  simp only [remaining, hfile]

end Files

/-- A `recv` takes the bytes off the stream. -/
theorem receive_some (h : Host) (fd len limit : ℕ) :
    ∃ host, h.receive fd len (some limit) =
        (some ((h.incoming fd).take (min len limit)), host) ∧
      host.incoming fd = (h.incoming fd).drop
        ((h.incoming fd).take (min len limit)).length := by
  refine ⟨_, rfl, ?_⟩
  simp only [incoming, modifySocket, List.getElem?_modify_eq]
  cases h.sockets[fd]? <;> simp

end Host

/-- What a host call returns: the number of bytes, or -1. -/
def bytesCount : Option (List (BitVec 8)) → ℤ
  | some bytes => bytes.length
  | none => -1

theorem bytesCount_pos (bytes : Option (List (BitVec 8))) :
    bytesCount bytes > 0 ↔ bytes.getD [] ≠ [] := by
  cases bytes with
  | none => simp [bytesCount]
  | some bytes => simp [bytesCount, List.length_pos_iff]

/-! ## Open files -/

structure OpenFile where
  /-- 0: read and write, 1: read, 2: stdin, 3: stdout, 4: write -/
  type : ℤ
  fName : Pointer CString
  file : ℕ
  currentOffset : ℤ
  fileDescriptorId : ℕ
  deriving DecidableEq

structure OpenFileSocket where
  fd : ℕ
  deriving DecidableEq

namespace OpenFile

/-- `OpenFile::ReadAt`. -/
def readAt (f : OpenFile) (h : Host) (numBytes : ℕ) (position : ℤ)
    (answer : HostAnswer) :
    Except Fault (Option (List (BitVec 8)) × Host) := do
  let h ← h.lseek f.file position
  return h.readPartial f.file numBytes answer

/-- `OpenFile::Read`. -/
def read (f : OpenFile) (h : Host) (numBytes : ℕ) (answer : HostAnswer) :
    Except Fault (Option (List (BitVec 8)) × OpenFile × Host) := do
  let (bytes, h) ← f.readAt h numBytes f.currentOffset answer
  return (bytes,
    { f with currentOffset := f.currentOffset + bytesCount bytes }, h)

/-- `OpenFile::WriteAt`, which returns the number of bytes it was given.  The
host reads `numBytes` bytes of the buffer `from`. -/
def writeAt (f : OpenFile) (h : Host) (buffer : List (BitVec 8))
    (numBytes position : ℤ) (answer : HostAnswer) : Except Fault (ℤ × Host) := do
  let h ← h.lseek f.file position
  if 0 ≤ numBytes ∧ numBytes ≤ buffer.length then
    let h ← h.writeFile f.file (buffer.take numBytes.toNat) answer
    return (numBytes, h)
  else .error .undefinedBehaviour

/-- `OpenFile::Write`. -/
def write (f : OpenFile) (h : Host) (buffer : List (BitVec 8))
    (numBytes : ℤ) (answer : HostAnswer) :
    Except Fault (ℤ × OpenFile × Host) := do
  let (numWritten, h) ← f.writeAt h buffer numBytes f.currentOffset answer
  return (numWritten,
    { f with currentOffset := f.currentOffset + numWritten }, h)

/-- `OpenFile::Length`, which leaves the descriptor at the end of the file. -/
def length (f : OpenFile) (h : Host) : Except Fault (ℤ × Host) := do
  let h ← h.lseekEnd f.file
  return (h.tell f.file, h)

/-- `OpenFile::GetCurrentPos`. -/
def getCurrentPos (f : OpenFile) (h : Host) : ℤ × OpenFile :=
  (h.tell f.file, { f with currentOffset := h.tell f.file })

/-- `OpenFile::Seek`. -/
def seek (f : OpenFile) (h : Host) (position : ℤ) :
    Except Fault (OpenFile × Host) := do
  let h ← h.lseek f.file position
  return ({ f with currentOffset := h.tell f.file }, h)

section Positions

variable {f : OpenFile} {h : Host} {position : HostFile}

/-- `Read` of a file that knows where its descriptor is. -/
theorem read_eq
    (hfile : h.file f.file = some position)
    (hoffset : f.currentOffset = position.offset) (numBytes : ℕ)
    (answer : HostAnswer) :
    let bytes := answer.map fun limit =>
      (h.remaining f.file).take (min numBytes limit)
    f.read h numBytes answer = .ok (bytes,
      { f with currentOffset := f.currentOffset + bytesCount bytes },
      h.setFile f.file (some { position with
        offset := position.offset + (bytes.getD []).length })) := by
  cases answer with
  | none =>
      simp only [read, readAt, hoffset, h.lseek_self hfile, bind, Except.bind,
        Host.readPartial_none, pure, Except.pure, Option.map_none,
        Option.getD_none, List.length_nil, Nat.add_zero,
        Host.setFile_self hfile]
  | some limit =>
      simp only [read, readAt, hoffset, h.lseek_self hfile, bind, Except.bind,
        Host.readPartial_eq hfile, pure, Except.pure, Option.map_some,
        Option.getD_some]

/-- `Write` of bytes that the host takes all. -/
theorem write_eq
    (hfile : h.file f.file = some position)
    (hoffset : f.currentOffset = position.offset)
    {buffer : List (BitVec 8)} {numBytes limit : ℕ}
    (hbuffer : numBytes ≤ buffer.length) (hlimit : numBytes ≤ limit) :
    f.write h buffer numBytes (some limit) = .ok (numBytes,
      { f with currentOffset := f.currentOffset + numBytes },
      (h.setContents position.inode (overwrite (h.contents position.inode)
        position.offset (buffer.take numBytes))).setFile f.file
          (some { position with offset := position.offset + numBytes })) := by
  have hrange : (0 : ℤ) ≤ numBytes ∧ (numBytes : ℤ) ≤ buffer.length := by
    omega
  have hlength : (buffer.take numBytes).length = numBytes :=
    List.length_take_of_le hbuffer
  simp only [write, writeAt, hoffset, h.lseek_self hfile, bind, Except.bind,
    if_pos hrange, Int.toNat_natCast, Host.writeFile, hfile, hlength,
    if_pos hlimit, pure, Except.pure]

/-- `Write` aborts when the host does not take all of the bytes. -/
theorem write_abort
    (hfile : h.file f.file = some position)
    (hoffset : f.currentOffset = position.offset)
    {buffer : List (BitVec 8)} {numBytes : ℕ} {answer : HostAnswer}
    (hbuffer : numBytes ≤ buffer.length)
    (hanswer : ∀ limit, answer = some limit → limit < numBytes) :
    f.write h buffer numBytes answer = .error .abort := by
  have hrange : (0 : ℤ) ≤ numBytes ∧ (numBytes : ℤ) ≤ buffer.length := by
    omega
  have hlength : (buffer.take numBytes).length = numBytes :=
    List.length_take_of_le hbuffer
  cases answer with
  | none =>
      simp only [write, writeAt, hoffset, h.lseek_self hfile, bind,
        Except.bind, if_pos hrange, Host.writeFile, hfile]
  | some limit =>
      have hlt := hanswer limit rfl
      simp only [write, writeAt, hoffset, h.lseek_self hfile, bind,
        Except.bind, if_pos hrange, Int.toNat_natCast, Host.writeFile, hfile,
        hlength, if_neg (not_le.mpr hlt)]

end Positions

end OpenFile

/-! ## The descriptor table -/

structure FileSlot where
  /-- 0: file, 1: socket -/
  type : ℕ
  fileOpen : Pointer OpenFile
  fileSocket : Pointer OpenFileSocket
  deriving DecidableEq

namespace FileSlot

/-- `FileSlot::FileSlot(OpenFile*)`. -/
def ofFile (f : Pointer OpenFile) : FileSlot :=
  ⟨0, f, .null⟩

/-- `FileSlot::FileSlot(OpenFileSocket*)`. -/
def ofSocket (s : Pointer OpenFileSocket) : FileSlot :=
  ⟨1, .null, s⟩

/-- `delete f`. -/
def deleteFile (h : Host) (f : Pointer OpenFile) : Except Fault Host := do
  let f ← f.deref
  h.close f.file

/-- `FileSlot::~FileSlot`. -/
def delete (slot : FileSlot) (h : Host) : Except Fault Host := do
  let h ← if slot.fileOpen.isNull then pure h else deleteFile h slot.fileOpen
  if slot.fileSocket.isNull then return h
  else
    let socket ← slot.fileSocket.deref
    return h.closeSocket socket.fd

end FileSlot

structure FileSystem where
  fileSlot : ℕ → Pointer FileSlot

namespace FileSystem

def setSlot (fs : FileSystem) (id : ℕ) (slot : Pointer FileSlot) :
    FileSystem where
  fileSlot := Function.update fs.fileSlot id slot

theorem setSlot_setSlot
    (fs : FileSystem) (id : ℕ) (slot slot' : Pointer FileSlot) :
    (fs.setSlot id slot).setSlot id slot' = fs.setSlot id slot' := by
  simp only [setSlot, Function.update_idem]

theorem setSlot_self
    {fs : FileSystem} {id : ℕ} {slot : Pointer FileSlot}
    (hslot : fs.fileSlot id = slot) : fs.setSlot id slot = fs := by
  rw [setSlot, ← hslot, Function.update_eq_self]

/-- `FileSystem::Create`. -/
def create (h : Host) (name : CString) (answer : HostAnswer) :
    Except Fault (Bool × Host) := do
  let (fd, h) ← h.openForWrite name answer
  let h ← h.close fd
  return (true, h)

/-- `FileSystem::Open(name, type, id)`. -/
def openTyped (h : Host) (name : CString) (type : ℤ) (id : ℕ)
    (answer : HostAnswer) : Except Fault (Pointer OpenFile × Host) := do
  let opened ← if type = 4 then some <$> h.openForWrite name answer
    else pure (h.openForReadWrite name)
  match opened with
  | none => return (.null, h)
  | some (fd, h) => return (.object ⟨type, .object name, fd, 0, id⟩, h)

/-- `FileSystem::FileSystem`. -/
def new (h : Host) (stdin stdout : HostAnswer) :
    Except Fault (FileSystem × Host) := do
  let fs : FileSystem := ⟨fun _ => .null⟩
  let stdinName : CString := [115, 116, 100, 105, 110]
  let stdoutName : CString := [115, 116, 100, 111, 117, 116]
  let (_, h) ← create h stdinName stdin
  let (_, h) ← create h stdoutName stdout
  let (f, h) ← openTyped h stdinName 2 0 none
  let fs := fs.setSlot 0 (.object (.ofFile f))
  let (f, h) ← openTyped h stdoutName 3 1 none
  let fs := fs.setSlot 1 (.object (.ofFile f))
  return (fs, h)

/-- `FileSystem::FindFreeSlot`. -/
def findFreeSlot (fs : FileSystem) : Option ℕ :=
  (List.range' reverseFD (maxFileOpen - reverseFD)).find? fun id =>
    (fs.fileSlot id).isNull

theorem findFreeSlot_spec
    {fs : FileSystem} {id : ℕ} (hfree : fs.findFreeSlot = some id) :
    2 ≤ id ∧ id < maxFileOpen ∧ fs.fileSlot id = .null := by
  have hin := List.mem_of_find?_eq_some hfree
  have hnull := List.find?_some hfree
  rw [List.mem_range'_1] at hin
  refine ⟨hin.1, hin.2, ?_⟩
  cases hslot : fs.fileSlot id with
  | null => rfl
  | dangling => simp [hslot, Pointer.isNull] at hnull
  | object slot => simp [hslot, Pointer.isNull] at hnull

/-- `FileSystem::Open(name)`.  The constructor of `OpenFile` it uses leaves
`type` as it finds it. -/
def openNamed (fs : FileSystem) (h : Host) (name : CString)
    (garbageType : ℤ) : Option OpenFile × FileSystem × Host :=
  match h.openForReadWrite name with
  | none => (none, fs, h)
  | some (fd, h) =>
      match fs.findFreeSlot with
      | none => (none, fs, h)
      | some id =>
          let f : OpenFile := {
            type := garbageType
            fName := .object name
            file := fd
            currentOffset := 0
            fileDescriptorId := id }
          (some f, fs.setSlot id (.object (.ofFile (.object f))), h)

/-- `FileSystem::Remove`. -/
def remove (h : Host) (name : CString) : Bool × Host :=
  h.unlink name

/-- The test of an id that the calls on sockets start with. -/
def outside (id : ℤ) : Prop :=
  id < reverseFD ∨ id ≥ maxFileOpen

instance (id : ℤ) : Decidable (outside id) := by
  unfold outside
  infer_instance

/-- `fileSlot[id]->fileSocket->fd`. -/
def socketAt (fs : FileSystem) (id : ℤ) : Except Fault ℕ := do
  let slot ← (fs.fileSlot id.toNat).deref
  let socket ← slot.fileSocket.deref
  return socket.fd

theorem socketAt_eq
    {fs : FileSystem} {id : ℤ} {socket : OpenFileSocket}
    (hslot : fs.fileSlot id.toNat = .object (.ofSocket (.object socket))) :
    fs.socketAt id = .ok socket.fd := by
  simp only [socketAt, hslot, Pointer.deref_object, FileSlot.ofSocket, bind,
    Except.bind]
  rfl

/-- `FileSystem::createTCP`. -/
def createTCP (fs : FileSystem) (h : Host) (answer : HostAnswer) :
    Except Fault (ℤ × FileSystem × Host) :=
  match fs.findFreeSlot with
  | none => return (-1, fs, h)
  | some slot => do
      let (fd, h) ← h.openSocketInternet answer
      if (fd : ℤ) < -1 then return (-1, fs, h)
      else
        let socket : OpenFileSocket := ⟨fd⟩
        return (slot,
          fs.setSlot slot (.object (.ofSocket (.object socket))), h)

/-- `FileSystem::connectTCP`; the answer is that of `connect`. -/
def connectTCP (fs : FileSystem) (id : ℤ) (answer : HostAnswer) :
    Except Fault ℤ :=
  if outside id then return -1
  else if (fs.fileSlot id.toNat).isNull then return -1
  else do
    let _fd ← fs.socketAt id
    return if answer = none then -1 else 0

/-- `FileSystem::sendTCP`.  The host reads `len` bytes of the buffer. -/
def sendTCP (fs : FileSystem) (h : Host) (id : ℤ)
    (buffer : List (BitVec 8)) (len : ℤ) (answer : HostAnswer) :
    Except Fault (Option (List (BitVec 8)) × Host) :=
  if outside id then return (none, h)
  else if (fs.fileSlot id.toNat).isNull then return (some [], h)
  else do
    let fd ← fs.socketAt id
    if 0 ≤ len ∧ len ≤ buffer.length then
      return h.send fd (buffer.take len.toNat) answer
    else .error .undefinedBehaviour

/-- `FileSystem::receiveTCP`. -/
def receiveTCP (fs : FileSystem) (h : Host) (id : ℤ) (len : ℕ)
    (answer : HostAnswer) : Except Fault (Option (List (BitVec 8)) × Host) :=
  if outside id then return (none, h)
  else if (fs.fileSlot id.toNat).isNull then return (some [], h)
  else do
    let fd ← fs.socketAt id
    return h.receive fd len answer

/-- `FileSystem::closeTCP`.  Its last statement compares the slot with `NULL`
and assigns nothing. -/
def closeTCP (fs : FileSystem) (h : Host) (id : ℤ) :
    Except Fault (ℤ × FileSystem × Host) :=
  if outside id then return (-1, fs, h)
  else if (fs.fileSlot id.toNat).isNull then return (-1, fs, h)
  else do
    let fd ← fs.socketAt id
    let slot ← (fs.fileSlot id.toNat).deref
    let h ← slot.delete (h.closeSocket fd)
    return (0, fs.setSlot id.toNat .dangling, h)

/-- `FileSystem::CloseFile`. -/
def closeFile (fs : FileSystem) (h : Host) (id : ℤ) :
    Except Fault (ℤ × FileSystem × Host) :=
  if id < 2 ∨ id ≥ maxFileOpen then return (-1, fs, h)
  else if (fs.fileSlot id.toNat).isNull then return (-1, fs, h)
  else do
    let slot ← (fs.fileSlot id.toNat).deref
    let h ← slot.delete h
    return (0, fs.setSlot id.toNat .null, h)

end FileSystem

/-- The parts of `kernel` that loading and the file system calls use.
`consoleIn` is what `synchConsoleIn` has still to deliver, `consoleOut` what
was put on `synchConsoleOut`. -/
structure Kernel where
  machine : Machine
  fileSystem : FileSystem
  host : Host
  consoleIn : List (BitVec 8)
  consoleOut : List (BitVec 8)

end Nachos
