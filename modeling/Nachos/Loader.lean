import Nachos.AddressSpace
import Nachos.FileSystem

/-!
# Loading a program: `AddrSpace::Load`

The header of an executable in NOFF format says how many pages the image
needs.  `Load` fills a page table of that size before it looks whether there
were frames enough, and the pages that `FindAndSet` refused are entered as
frame -1.
-/

namespace Nachos

open Library

/-! ## The NOFF format -/

/-- `UserStackSize`. -/
def userStackSize : BitVec 32 := 1024

structure Segment where
  virtualAddr : BitVec 32
  inFileAddr : BitVec 32
  size : BitVec 32
  deriving DecidableEq

/-- The header with the segment of read-only data (`RDATA`). -/
structure NoffHeader where
  noffMagic : BitVec 32
  code : Segment
  initData : Segment
  readonlyData : Segment
  uninitData : Segment
  deriving DecidableEq

/-- `NOFFMAGIC`. -/
def noffMagicNumber : BitVec 32 := 0xbadfad

/-- `sizeof(NoffHeader)`. -/
def noffHeaderSize : ℕ := 52

/-- `WordToHost` of a host that is little endian. -/
def wordToHost (word : BitVec 32) : BitVec 32 :=
  word

namespace NoffHeader

/-- The little-endian word at a place of the header. -/
def wordAt (bytes : List (BitVec 8)) (i : ℕ) : BitVec 32 :=
  bytes.getD (i + 3) 0 ++ bytes.getD (i + 2) 0 ++ bytes.getD (i + 1) 0 ++
    bytes.getD i 0

def segmentAt (bytes : List (BitVec 8)) (i : ℕ) : Segment where
  virtualAddr := wordAt bytes i
  inFileAddr := wordAt bytes (i + 4)
  size := wordAt bytes (i + 8)

def ofBytes (bytes : List (BitVec 8)) : NoffHeader where
  noffMagic := wordAt bytes 0
  code := segmentAt bytes 4
  initData := segmentAt bytes 16
  readonlyData := segmentAt bytes 28
  uninitData := segmentAt bytes 40

def swapSegment (segment : Segment) : Segment where
  virtualAddr := wordToHost segment.virtualAddr
  inFileAddr := wordToHost segment.inFileAddr
  size := wordToHost segment.size

/-- `SwapHeader`. -/
def swapHeader (noffH : NoffHeader) : NoffHeader where
  noffMagic := wordToHost noffH.noffMagic
  code := swapSegment noffH.code
  initData := swapSegment noffH.initData
  readonlyData := swapSegment noffH.readonlyData
  uninitData := swapSegment noffH.uninitData

/-- How big the address space is, as an `unsigned int`. -/
def size (noffH : NoffHeader) : BitVec 32 :=
  noffH.code.size + noffH.readonlyData.size + noffH.initData.size +
    noffH.uninitData.size + userStackSize

def numPages (noffH : NoffHeader) : ℕ :=
  divRoundUp noffH.size.toNat pageSize

end NoffHeader

/-- What `Load` leaves to chance: the `type` of the `OpenFile`, and the header
in as far as the file is shorter. -/
structure LoadGarbage where
  openType : ℤ
  header : List (BitVec 8)

namespace AddrSpace

/-- `executable->ReadAt((char *)&noffH, sizeof(noffH), 0)` and the conversion
of the header. -/
def readHeader (executable : OpenFile) (h : Host) (garbage : LoadGarbage) :
    Except Fault (NoffHeader × Host) := do
  let (bytes, h) ← executable.readAt h noffHeaderSize 0 (some noffHeaderSize)
  let bytes := bytes.getD []
  let noffH := NoffHeader.ofBytes
    (bytes ++ garbage.header.drop bytes.length)
  if noffH.noffMagic ≠ noffMagicNumber ∧
      wordToHost noffH.noffMagic = noffMagicNumber then
    return (noffH.swapHeader, h)
  else return (noffH, h)

/-- `pageTable[vaddr / PageSize].physicalPage * PageSize + vaddr % PageSize`. -/
def physicalAddress (space : AddrSpace) (vaddr : BitVec 32) :
    Except Fault ℤ := do
  let entry ← space.entry (vaddr.toNat / pageSize)
  return entry.physicalPage * pageSize + (vaddr.toNat % pageSize : ℕ)

/-! ## The segments -/

/-- One round of a loop that copies a segment from the file. -/
def copyByte (space : AddrSpace) (executable : OpenFile)
    (segment : Segment) (i : ℕ) (k : Kernel) : Except Fault Kernel := do
  let paddr ← space.physicalAddress (segment.virtualAddr + BitVec.ofNat 32 i)
  let (bytes, host) ← executable.readAt k.host 1
    (segment.inFileAddr + BitVec.ofNat 32 i).toInt (some 1)
  let k := { k with host := host }
  match bytes with
  | some (byte :: _) =>
      let machine ← k.machine.store paddr byte
      return { k with machine := machine }
  | _ => return k

/-- One round of the loop that zeroes the uninitialised data. -/
def zeroByte (space : AddrSpace) (segment : Segment) (i : ℕ) (k : Kernel) :
    Except Fault Kernel := do
  let paddr ← space.physicalAddress (segment.virtualAddr + BitVec.ofNat 32 i)
  let machine ← k.machine.store paddr 0
  return { k with machine := machine }

/-- The rounds of a loop that runs below a number of type `int`. -/
def rounds (bound : BitVec 32) : ℕ :=
  bound.toInt.toNat

/-- The segments of the image.  The loop over the read-only data is bounded by
its `virtualAddr`. -/
def copySegments (space : AddrSpace) (executable : OpenFile)
    (noffH : NoffHeader) (k : Kernel) : Except Fault Kernel := do
  let k ← countedLoop (space.copyByte executable noffH.code) 0
    (rounds noffH.code.size) k
  let k ← countedLoop (space.zeroByte noffH.uninitData) 0
    (rounds noffH.uninitData.size) k
  let k ← countedLoop (space.copyByte executable noffH.initData) 0
    (rounds noffH.initData.size) k
  if 0 < noffH.readonlyData.size.toInt then
    countedLoop (space.copyByte executable noffH.readonlyData) 0
      (rounds noffH.readonlyData.virtualAddr) k
  else return k

/-! ## The argument block -/

/-- `argv[i]`. -/
def argument (argv : List CString) (i : ℕ) : Except Fault CString :=
  match argv[i]? with
  | some arg => .ok arg
  | none => .error .undefinedBehaviour

/-- `strlen(argv[i]) + 1`. -/
def argumentSize (arg : CString) : BitVec 32 :=
  BitVec.ofNat 32 (arg.length + 1)

/-- `while (vaddr % n != 0) vaddr--`. -/
def alignDown (vaddr : BitVec 32) (n : ℕ) : BitVec 32 :=
  vaddr - BitVec.ofNat 32 (vaddr.toNat % n)

/-- A byte of an argument goes to the next address. -/
def copyChar (space : AddrSpace) (arg : CString) (j : ℕ)
    (s : BitVec 32 × Machine) : Except Fault (BitVec 32 × Machine) := do
  let paddr ← space.physicalAddress s.1
  let m ← s.2.store paddr (arg.getD j 0)
  return (s.1 + 1, m)

def copyArgument (space : AddrSpace) (argv : List CString) (i : ℕ)
    (s : BitVec 32 × Machine) : Except Fault (BitVec 32 × Machine) := do
  let arg ← argument argv i
  countedLoop (space.copyChar arg) 0 (arg.length + 1) s

/-- A pointer of the array goes to `vaddr`. -/
def copyPointer (space : AddrSpace) (argv : List CString) (i : ℕ)
    (s : BitVec 32 × BitVec 32 × Machine) :
    Except Fault (BitVec 32 × BitVec 32 × Machine) := do
  let (vaddr, ptr, m) := s
  let arg ← argument argv i
  let paddr ← space.physicalAddress vaddr
  let m ← m.storeValue paddr ptr 4
  return (vaddr + 4, ptr + argumentSize arg, m)

/-- The strings, the array of pointers to them, and the stack pointer. -/
def copyArguments (space : AddrSpace) (m : Machine) (argc : ℤ)
    (argv : List CString) : Except Fault (AddrSpace × Machine) := do
  let size := BitVec.ofNat 32 (pageSize * space.numPages)
  let ptr ← countedLoop
    (fun i ptr => do
      let arg ← argument argv i
      return ptr - argumentSize arg) 0 argc.toNat (size - 8)
  let (_, m) ← countedLoop (space.copyArgument argv) 0 argc.toNat (ptr, m)
  let array := alignDown (ptr - (BitVec.ofInt 32 argc + 1) * 4) 4
  let space := { space with
    argv := array, argc := BitVec.ofInt 32 argc }
  let (vaddr, _, m) ← countedLoop (space.copyPointer argv) 0 argc.toNat
    (array, ptr, m)
  let paddr ← space.physicalAddress vaddr
  let m ← m.storeValue paddr 0 4
  return ({ space with stackptr := alignDown (space.argv - 4) 8 }, m)

/-! ## Load -/

/-- `AddrSpace::Load`. -/
def load (space : AddrSpace) (k : Kernel) (garbage : LoadGarbage)
    (fileName : CString) (argc : ℤ) (argv : List CString) :
    Except Fault (Bool × AddrSpace × Kernel) :=
  match k.fileSystem.openNamed k.host fileName garbage.openType with
  | (none, fileSystem, host) =>
      return (false, space,
        { k with fileSystem := fileSystem, host := host })
  | (some executable, fileSystem, host) => do
      let (noffH, host) ← readHeader executable host garbage
      assert (noffH.noffMagic = noffMagicNumber)
      let numPages := noffH.numPages
      let (space, machine) ← space.allocateMemory k.machine numPages
      assert (numPages ≤ numPhysPages)
      let k ← space.copySegments executable noffH
        { k with machine := machine, fileSystem := fileSystem, host := host }
      let (space, machine) ← space.copyArguments k.machine argc argv
      let (_, fileSystem, host) ←
        k.fileSystem.closeFile k.host executable.fileDescriptorId
      return (true, space,
        { k with
          machine := machine, fileSystem := fileSystem, host := host })

end AddrSpace

end Nachos
