import Mathlib.Data.Finmap
import Nachos.DiskFileSystem
import Nachos.Library.Splice

/-!
# What the file system is for

A file is an array of bytes under a name, with the length it was created with.
Files are found by their names only when they are opened; what is read and
written then goes to the file through a handle, which has a position.  Nothing
is left of the handles when the machine is started again, and the files stay.
-/

namespace Nachos.Filesys

open Library
open Scheduling (sectorSize)

/-- The bytes of the files, by the names. -/
abbrev Files := Finmap fun _ : CString => List (BitVec 8)

/-- A file that is open, by its name, and where the next transfer begins. -/
structure Handle where
  name : CString
  position : ℕ
  deriving DecidableEq

/-- The files, and the handles by their numbers. -/
structure FileStore where
  files : Files
  handles : List (Option Handle)

/-- A call that has returned, with what it returned.  Of a transfer it is
known which file it was on, and where. -/
inductive FileEvent
  | created (name : CString) (initialSize : ℤ) (result : Bool)
  | removed (name : CString) (result : Bool)
  | opened (name : CString) (result : Option ℕ)
  | closed (handle : ℕ)
  | sought (handle position : ℕ)
  | read (handle : ℕ) (name : CString) (position : ℕ) (numBytes : ℤ)
      (bytes : List (BitVec 8))
  | wrote (handle : ℕ) (name : CString) (position : ℕ)
      (bytes : List (BitVec 8)) (result : ℤ)
  | measured (handle : ℕ) (length : ℤ)
  | restarted
  deriving DecidableEq

/-- How many sectors a file takes, with that of its header. -/
def sectorsFor (size : ℕ) : ℕ := 1 + size ⌈/⌉ sectorSize

def sectorsTaken (files : Files) : ℕ :=
  (files.entries.map fun file => sectorsFor file.2.length).sum

/-- The sectors of the free map and of the directory. -/
def systemSectors : ℕ :=
  sectorsFor freeMapFileSize + sectorsFor directoryFileSize

namespace FileStore

/-- What a new file holds is not known to the caller. -/
inductive Call
  | create (name : CString) (bytes : List (BitVec 8))
  | remove (name : CString)
  | open (name : CString)
  | close (handle : ℕ)
  | seek (handle position : ℕ)
  | read (handle : ℕ) (numBytes : ℤ)
  | readAt (handle : ℕ) (numBytes : ℤ) (position : ℕ)
  | write (handle : ℕ) (bytes : List (BitVec 8))
  | writeAt (handle : ℕ) (bytes : List (BitVec 8)) (position : ℕ)
  | length (handle : ℕ)
  | restart

/-- A file can be created: the name is new, and there is space for it in the
directory and on the disk. -/
def CanCreate (files : Files) (name : CString) (size : ℕ) : Prop :=
  name ∉ files ∧ files.keys.card < numDirEntries ∧
    systemSectors + sectorsTaken files + sectorsFor size ≤ diskSize

instance (files : Files) (name : CString) (size : ℕ) :
    Decidable (CanCreate files name size) :=
  inferInstanceAs (Decidable (_ ∧ _))

/-- The handle of a number, and the bytes of its file. -/
def file (s : FileStore) (handle : ℕ) :
    Except Unit (Handle × List (BitVec 8)) :=
  match s.handles[handle]? with
  | some (some h) =>
      match s.files.lookup h.name with
      | some bytes => .ok (h, bytes)
      | none => .error ()
  | _ => .error ()

def setHandle (s : FileStore) (handle : ℕ) (h : Option Handle) : FileStore :=
  { s with handles := s.handles.set handle h }

/-- As many bytes as the file has from the position on. -/
def readable (bytes : List (BitVec 8)) (numBytes : ℤ) (position : ℕ) :
    List (BitVec 8) :=
  (bytes.drop position).take numBytes.toNat

/-- The part of the new bytes that the file has room for. -/
def fitting (bytes new : List (BitVec 8)) (position : ℕ) :
    List (BitVec 8) :=
  new.take (bytes.length - position)

/-- The file, when the new bytes have been written. -/
def putAt (s : FileStore) (name : CString) (bytes new : List (BitVec 8))
    (position : ℕ) : FileStore :=
  { s with
    files := s.files.insert name
      (splice bytes position (fitting bytes new position)) }

def step (s : FileStore) : Call → Except Unit (FileStore × FileEvent)
  | .create name bytes =>
      if CanCreate s.files name bytes.length then
        return ({ s with files := s.files.insert name bytes },
          .created name bytes.length true)
      else return (s, .created name bytes.length false)
  | .remove name =>
      return ({ s with files := s.files.erase name },
        .removed name (decide (name ∈ s.files)))
  | .open name =>
      if name ∈ s.files then
        return ({ s with handles := s.handles ++ [some ⟨name, 0⟩] },
          .opened name (some s.handles.length))
      else return (s, .opened name none)
  | .close handle => do
      let _ ← s.file handle
      return (s.setHandle handle none, .closed handle)
  | .seek handle position => do
      let (h, _) ← s.file handle
      return (s.setHandle handle (some { h with position := position }),
        .sought handle position)
  | .read handle numBytes => do
      let (h, bytes) ← s.file handle
      let data := readable bytes numBytes h.position
      return (s.setHandle handle
          (some { h with position := h.position + data.length }),
        .read handle h.name h.position numBytes data)
  | .readAt handle numBytes position => do
      let (h, bytes) ← s.file handle
      return (s,
        .read handle h.name position numBytes
          (readable bytes numBytes position))
  | .write handle new => do
      let (h, bytes) ← s.file handle
      let count := (fitting bytes new h.position).length
      return ((s.putAt h.name bytes new h.position).setHandle handle
          (some { h with position := h.position + count }),
        .wrote handle h.name h.position new count)
  | .writeAt handle new position => do
      let (h, bytes) ← s.file handle
      return (s.putAt h.name bytes new position,
        .wrote handle h.name position new (fitting bytes new position).length)
  | .length handle => do
      let (_, bytes) ← s.file handle
      return (s, .measured handle bytes.length)
  | .restart => return ({ s with handles := [] }, .restarted)

/-- The store, empty. -/
def system : StepSystem FileStore Call FileEvent Unit where
  start := ⟨∅, []⟩
  step := step

end FileStore

end Nachos.Filesys
