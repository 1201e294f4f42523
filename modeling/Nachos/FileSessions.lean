import Nachos.FileStore

/-!
# Files that are open: the rest of `openfile.cc` and `FileSystem::Open`

`Read` and `Write` go on from where the last transfer has ended.  A session
is what the kernel does with its file system: files are created, removed and
opened, and the files that are open are read and written, in any order, and
now and then the machine is started again with the same disk.
-/

namespace Nachos.Filesys

open Library
open Scheduling (Disk)

/-! ## `class OpenFile`, with its position -/

structure OpenedFile where
  file : OpenFile
  seekPosition : ℕ
  deriving DecidableEq

namespace OpenedFile

/-- `OpenFile::Seek`. -/
def seek (f : OpenedFile) (position : ℕ) : OpenedFile :=
  { f with seekPosition := position }

/-- `OpenFile::Read`. -/
def read (f : OpenedFile) (disk : Disk) (fresh into : Block)
    (numBytes : ℤ) : Except Fault (ℤ × Block × OpenedFile) := do
  let (result, into) ← f.file.readAt disk fresh into 0 numBytes f.seekPosition
  return (result, into, f.seek (f.seekPosition + result).toNat)

/-- `OpenFile::Write`. -/
def write (f : OpenedFile) (disk : Disk) (fresh source : Block)
    (numBytes : ℤ) : Except Fault (ℤ × Disk × OpenedFile) := do
  let (result, disk) ← f.file.writeAt disk fresh source numBytes
    f.seekPosition
  return (result, disk, f.seek (f.seekPosition + result).toNat)

/-- `OpenFile::Length`. -/
def length (f : OpenedFile) : ℤ :=
  f.file.hdr.fileLength

end OpenedFile

/-- `FileSystem::Open(name)`, with `none` for `NULL`. -/
def FileSystem.open (fs : FileSystem) (name : CString) (heap : Heap) :
    Except Fault (Option OpenedFile) := do
  let directory ← (Directory.new heap.table numDirEntries).fetchFrom
    fs.directoryFile fs.disk heap.buffer
  let sector := directory.find name
  if sector ≥ 0 then
    let file ← OpenFile.new fs.disk sector
    return some ⟨file, 0⟩
  else
    return none

/-! ## Sessions -/

/-- The file system, and the files that are open, by their numbers.  With
each of them is the name that it was opened by. -/
structure Session where
  fs : FileSystem
  opened : List (Option (CString × OpenedFile))

/-- A file is closed when the kernel has no more use for it; its object is
not deleted then. -/
inductive SessionCall
  | create (name : CString) (initialSize : ℤ) (heap : Heap)
  | remove (name : CString) (heap : Heap)
  | open (name : CString) (heap : Heap)
  | close (handle : ℕ)
  | seek (handle position : ℕ)
  | read (handle : ℕ) (numBytes : ℤ) (fresh into : Block)
  | readAt (handle : ℕ) (numBytes : ℤ) (position : ℕ) (fresh into : Block)
  | write (handle : ℕ) (source : Block) (numBytes : ℤ) (fresh : Block)
  | writeAt (handle : ℕ) (source : Block) (numBytes : ℤ) (position : ℕ)
      (fresh : Block)
  | length (handle : ℕ)
  | restart

/-- The bytes at the start of a buffer. -/
def firstBytes (b : Block) (count : ℤ) : List (BitVec 8) :=
  (List.range count.toNat).map b

namespace Session

/-- The file of a number, which must be open. -/
def file (s : Session) (handle : ℕ) : Except Fault (CString × OpenedFile) :=
  match s.opened[handle]? with
  | some (some f) => .ok f
  | _ => .error .undefinedBehaviour

def setFile (s : Session) (handle : ℕ) (f : Option (CString × OpenedFile)) :
    Session :=
  { s with opened := s.opened.set handle f }

def setDisk (s : Session) (disk : Disk) : Session :=
  { s with fs := { s.fs with disk := disk } }

def step (s : Session) : SessionCall → Except Fault (Session × FileEvent)
  | .create name initialSize heap => do
      let (result, fs) ← s.fs.create name initialSize heap
      return ({ s with fs := fs }, .created name initialSize result)
  | .remove name heap => do
      let (result, fs) ← s.fs.remove name heap
      return ({ s with fs := fs }, .removed name result)
  | .open name heap => do
      match ← s.fs.open name heap with
      | some f =>
          return ({ s with opened := s.opened ++ [some (name, f)] },
            .opened name (some s.opened.length))
      | none => return (s, .opened name none)
  | .close handle => do
      let _ ← s.file handle
      return (s.setFile handle none, .closed handle)
  | .seek handle position => do
      let (name, f) ← s.file handle
      return (s.setFile handle (some (name, f.seek position)),
        .sought handle position)
  | .read handle numBytes fresh into => do
      let (name, f) ← s.file handle
      let (result, into, f') ← f.read s.fs.disk fresh into numBytes
      return (s.setFile handle (some (name, f')),
        .read handle name f.seekPosition numBytes (firstBytes into result))
  | .readAt handle numBytes position fresh into => do
      let (name, f) ← s.file handle
      let (result, into) ← f.file.readAt s.fs.disk fresh into 0 numBytes
        position
      return (s, .read handle name position numBytes (firstBytes into result))
  | .write handle source numBytes fresh => do
      let (name, f) ← s.file handle
      let (result, disk, f') ← f.write s.fs.disk fresh source numBytes
      return ((s.setDisk disk).setFile handle (some (name, f')),
        .wrote handle name f.seekPosition (firstBytes source numBytes) result)
  | .writeAt handle source numBytes position fresh => do
      let (name, f) ← s.file handle
      let (result, disk) ← f.file.writeAt s.fs.disk fresh source numBytes
        position
      return (s.setDisk disk,
        .wrote handle name position (firstBytes source numBytes) result)
  | .length handle => do
      let (_, f) ← s.file handle
      return (s, .measured handle f.length)
  | .restart => do
      let fs ← FileSystem.reopen s.fs.disk
      return (⟨fs, []⟩, .restarted)

/-- The sessions that begin with a file system, no file being open. -/
def system (fs : FileSystem) :
    StepSystem Session SessionCall FileEvent Fault where
  start := ⟨fs, []⟩
  step := step

/-- The names of the files that are open. -/
def openNames (s : Session) : List CString :=
  s.opened.filterMap fun f => f.map Prod.fst

/-- The file is open, and the end of a transfer from the position of the file
on is an `int`. -/
def IsOpenFor (s : Session) (handle : ℕ) (numBytes : ℤ) : Prop :=
  ∃ name f, s.opened[handle]? = some (some (name, f)) ∧
    f.seekPosition + numBytes < 2 ^ 31

/-- What the kernel takes care of: a name is one that an entry can hold, a
size is one that a header can hold, a file is used only while it is open, and
is not removed then. -/
def Allowed (_ : List FileEvent) (s : Session) : SessionCall → Prop
  | .create name initialSize _ =>
      IsName name ∧ 0 ≤ initialSize ∧ initialSize ≤ maxFileSize
  | .remove name _ => IsName name ∧ name ∉ s.openNames
  | .open name _ => IsName name
  | .close handle | .length handle => s.IsOpenFor handle 0
  | .seek handle position =>
      s.IsOpenFor handle 0 ∧ position < 2 ^ 31
  | .read handle numBytes _ _ | .write handle _ numBytes _ =>
      s.IsOpenFor handle numBytes
  | .readAt handle numBytes position _ _
  | .writeAt handle _ numBytes position _ =>
      s.IsOpenFor handle 0 ∧ position + numBytes < 2 ^ 31
  | .restart => True

end Session

end Nachos.Filesys
