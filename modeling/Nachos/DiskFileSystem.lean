import Nachos.DiskDirectory
import Nachos.Library.StepSystem

/-!
# `filesys.cc` without the stub

The free map and the directory are themselves files, whose headers are in
sectors that are known.  Both are read, changed in memory and written back by
each operation.
-/

namespace Nachos.Filesys

open Library
open Scheduling (Disk Sector sectorSize)

/-- `FreeMapSector`. -/
def freeMapSector : ℤ := 0

/-- `DirectorySector`. -/
def directorySector : ℤ := 1

/-- `FreeMapFileSize`. -/
def freeMapFileSize : ℕ := diskSize / 8

/-- `DirectoryFileSize`. -/
def directoryFileSize : ℕ := entrySize * numDirEntries

/-- What new objects and buffers of the kernel hold.  Of all buffers it is
only that of `WriteAt`, for the directory, of which some bytes are used that
have not been set; they go to the end of the last sector. -/
structure Heap where
  header : ℕ → FileHeader
  table : ℕ → DirectoryEntry
  buffer : Block

structure FileSystem where
  disk : Disk
  freeMapFile : OpenFile
  directoryFile : OpenFile

namespace FileSystem

/-- `FileSystem::FileSystem(TRUE)`. -/
def format (disk : Disk) (heap : Heap) : Except Fault FileSystem := do
  let freeMap ← Bitmap.init diskSize
  let directory := Directory.new heap.table numDirEntries
  let freeMap ← freeMap.mark freeMapSector
  let freeMap ← freeMap.mark directorySector
  let (allocated, mapHdr, freeMap) ←
    (heap.header 0).allocate freeMap freeMapFileSize
  assert (allocated = true)
  let (allocated, dirHdr, freeMap) ←
    (heap.header 1).allocate freeMap directoryFileSize
  assert (allocated = true)
  let disk ← mapHdr.writeBack disk freeMapSector
  let disk ← dirHdr.writeBack disk directorySector
  let freeMapFile ← OpenFile.new disk freeMapSector
  let directoryFile ← OpenFile.new disk directorySector
  let disk ← PersistentBitmap.writeBack freeMap freeMapFile disk heap.buffer
  let disk ← directory.writeBack directoryFile disk heap.buffer
  return ⟨disk, freeMapFile, directoryFile⟩

/-- `FileSystem::FileSystem(FALSE)`. -/
def reopen (disk : Disk) : Except Fault FileSystem := do
  let freeMapFile ← OpenFile.new disk freeMapSector
  let directoryFile ← OpenFile.new disk directorySector
  return ⟨disk, freeMapFile, directoryFile⟩

/-- `FileSystem::Create`. -/
def create (fs : FileSystem) (name : CString) (initialSize : ℤ)
    (heap : Heap) : Except Fault (Bool × FileSystem) := do
  let directory ← (Directory.new heap.table numDirEntries).fetchFrom
    fs.directoryFile fs.disk heap.buffer
  if directory.find name ≠ -1 then
    return (false, fs)
  else
    let freeMap ← PersistentBitmap.ofFile fs.freeMapFile fs.disk heap.buffer
      diskSize
    let (sector, freeMap) ← freeMap.findAndSet
    if sector = -1 then
      return (false, fs)
    else
      let (added, directory) := directory.add name sector
      if ¬added then
        return (false, fs)
      else
        let (allocated, hdr, freeMap) ←
          (heap.header 0).allocate freeMap initialSize
        if ¬allocated then
          return (false, fs)
        else
          let disk ← hdr.writeBack fs.disk sector
          let disk ← directory.writeBack fs.directoryFile disk heap.buffer
          let disk ← PersistentBitmap.writeBack freeMap fs.freeMapFile disk
            heap.buffer
          return (true, { fs with disk := disk })

/-- `FileSystem::Remove`. -/
def remove (fs : FileSystem) (name : CString) (heap : Heap) :
    Except Fault (Bool × FileSystem) := do
  let directory ← (Directory.new heap.table numDirEntries).fetchFrom
    fs.directoryFile fs.disk heap.buffer
  let sector := directory.find name
  if sector = -1 then
    return (false, fs)
  else
    let fileHdr ← FileHeader.fetchFrom fs.disk sector
    let freeMap ← PersistentBitmap.ofFile fs.freeMapFile fs.disk heap.buffer
      diskSize
    let freeMap ← fileHdr.deallocate freeMap
    let freeMap ← freeMap.clear sector
    let (_, directory) := directory.remove name
    let disk ← PersistentBitmap.writeBack freeMap fs.freeMapFile fs.disk
      heap.buffer
    let disk ← directory.writeBack fs.directoryFile disk heap.buffer
    return (true, { fs with disk := disk })

end FileSystem

/-! ## What is on the disk -/

section OnDisk

variable (disk : Disk)

/-- The header of the file of the free map. -/
def mapHeader : FileHeader := FileHeader.onDisk disk freeMapSector

/-- The header of the file of the directory. -/
def directoryHeader : FileHeader := FileHeader.onDisk disk directorySector

/-- The bit of a sector in the free map. -/
def marks (sector : ℕ) : Bool := (mapHeader disk).marks disk sector

/-- The directory. -/
def directoryOf : Directory := (directoryHeader disk).directory disk

/-- The sectors of a file: that of its header, and those the header lists. -/
def fileSectors (e : DirectoryEntry) : List ℤ :=
  e.sector.toInt :: (FileHeader.onDisk disk e.sector.toInt).sectors

/-- The sectors that are in use, each for one purpose. -/
def used : List ℤ :=
  [freeMapSector, directorySector] ++ (mapHeader disk).sectors ++
    (directoryHeader disk).sectors ++
      (directoryOf disk).files.flatMap (fileSectors disk)

/-- The number of sectors that are free. -/
def freeSectors : ℕ :=
  ((Finset.range diskSize).filter fun sector => marks disk sector = false).card

end OnDisk

/-- The structures on the disk fit together. -/
structure Consistent (disk : Disk) : Prop where
  exist : ∀ sector ∈ used disk, IsSector sector
  marked : ∀ sector < diskSize,
    marks disk sector = true ↔ (sector : ℤ) ∈ used disk
  nodup : (used disk).Nodup
  names : (directoryOf disk).names.Nodup

/-! ## Runs -/

inductive Action
  | create (name : CString) (initialSize : ℤ) (heap : Heap)
  | remove (name : CString) (heap : Heap)

/-- An operation, with what it has returned. -/
structure Event where
  action : Action
  result : Bool

def call (fs : FileSystem) : Action → Except Fault (Bool × FileSystem)
  | .create name initialSize heap => fs.create name initialSize heap
  | .remove name heap => fs.remove name heap

/-- The operations of a file system, one after the other. -/
def system (start : FileSystem) :
    StepSystem FileSystem Action Event Fault where
  start := start
  step fs action := do
    let (result, fs) ← call fs action
    return (fs, ⟨action, result⟩)

/-- The name is one that an entry can hold, and so is the size for a header. -/
def Proper : Action → Prop
  | .create name initialSize _ =>
      IsName name ∧ 0 ≤ initialSize ∧ initialSize ≤ maxFileSize
  | .remove name _ => IsName name

end Nachos.Filesys
