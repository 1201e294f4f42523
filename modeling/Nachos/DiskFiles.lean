import Nachos.Bitmap
import Nachos.Devices

/-!
# Files on the disk: `filehdr.cc` and the part of `openfile.cc` without the stub

A file is a header, which fills one sector, and the data sectors that the
header lists.  The disk can only read and write whole sectors, so that a part
of a sector is written by reading the sector first.
-/

namespace Nachos

open Library

/-! ## Memory of the kernel -/

/-- What is in memory, by the distance from the start of an object. -/
abbrev Block := ℕ → BitVec 8

namespace Block

/-- `bcopy(&source[i], &target[j], count)`. -/
def copy (source : Block) (i : ℕ) (target : Block) (j count : ℕ) : Block :=
  fun a => if j ≤ a ∧ a < j + count then source (i + (a - j)) else target a

/-- The `int` at a place. -/
def word (b : Block) (i : ℕ) : BitVec 32 :=
  bytesWord [b i, b (i + 1), b (i + 2), b (i + 3)]

/-- The array of characters at a place. -/
def chars (b : Block) (i n : ℕ) : Buffer n :=
  ⟨(List.range n).map fun j => b (i + j), by simp⟩

/-- The memory of an array of `int`. -/
def ofWords (words : ℕ → BitVec 32) : Block :=
  fun a => Machine.valueByte (words (a / 4)) (a % 4)

def ofList (bytes : List (BitVec 8)) : Block :=
  fun a => bytes.getD a 0

theorem copy_apply (source : Block) (i : ℕ) (target : Block) (j count a : ℕ) :
    source.copy i target j count a =
      if j ≤ a ∧ a < j + count then source (i + (a - j)) else target a := rfl

theorem word_congr {b b' : Block} {i i' : ℕ}
    (hsame : ∀ j < 4, b (i + j) = b' (i' + j)) : b.word i = b'.word i' := by
  have h0 := hsame 0 (by decide)
  have h1 := hsame 1 (by decide)
  have h2 := hsame 2 (by decide)
  have h3 := hsame 3 (by decide)
  rw [Nat.add_zero, Nat.add_zero] at h0
  rw [word, word, h0, h1, h2, h3]

@[simp] theorem word_ofWords (words : ℕ → BitVec 32) (k : ℕ) :
    (ofWords words).word (4 * k) = words k := by
  have hbyte : ∀ j < 4,
      ofWords words (4 * k + j) = Machine.valueByte (words k) j := by
    intro j hj
    have hdiv : (4 * k + j) / 4 = k := by omega
    have hmod : (4 * k + j) % 4 = j := by omega
    rw [ofWords, hdiv, hmod]
  have hzero := hbyte 0 (by decide)
  rw [Nat.add_zero] at hzero
  rw [word, hzero, hbyte 1 (by decide), hbyte 2 (by decide),
    hbyte 3 (by decide)]
  have hword := bytesWord_append (words k) []
  rwa [List.append_nil] at hword

/-- A part of a list that has been put into memory. -/
theorem chars_ofList
    {before after : List (BitVec 8)} {n : ℕ} (bytes : Buffer n) :
    (ofList (before ++ bytes.val ++ after)).chars before.length n = bytes := by
  obtain ⟨bytes, rfl⟩ := bytes
  apply Subtype.ext
  apply List.ext_getElem
  · simp [chars]
  · intro a h₁ hlt
    have hget : (before ++ (bytes ++ after))[before.length + a]? =
        bytes[a]? := by
      rw [List.getElem?_append_right (by omega), Nat.add_sub_cancel_left,
        List.getElem?_append_left hlt]
    have hbyte : bytes[a]? = some bytes[a] := List.getElem?_eq_getElem hlt
    simp [chars, ofList, hget, hbyte]

end Block

namespace Filesys

open Scheduling (Disk Sector sectorSize)

/-! ## Sectors -/

def sectorBytes (sector : Sector) : Block :=
  fun a => sector ⟨a % sectorSize, Nat.mod_lt _ (by decide)⟩

/-- The sector that is at a place of the memory. -/
def sectorAt (b : Block) (i : ℕ) : Sector :=
  fun a => b (i + a)

/-- `SynchDisk::ReadSector`: when the interrupt has come, the disk is as
before. -/
def readSector (disk : Disk) (sectorNumber : ℤ) : Except Fault Sector := do
  let (_, data) ← disk.readRequest sectorNumber
  return data

/-- `SynchDisk::WriteSector`. -/
def writeSector (disk : Disk) (sectorNumber : ℤ) (data : Sector) :
    Except Fault Disk := do
  let disk ← disk.writeRequest sectorNumber data
  return disk.callBack

/-! ## `class FileHeader` -/

/-- `NumDirect`. -/
def numDirect : ℕ := 30

/-- `MaxFileSize`. -/
def maxFileSize : ℕ := numDirect * sectorSize

/-- `divRoundUp` of an `int`. -/
def divRoundUpInt (n s : ℤ) : ℤ :=
  n.tdiv s + if n.tmod s > 0 then 1 else 0

structure FileHeader where
  numBytes : BitVec 32
  numSectors : BitVec 32
  dataSectors : List (BitVec 32)
  length_dataSectors : dataSectors.length = numDirect
  deriving DecidableEq

namespace FileHeader

/-- `(char *)this`. -/
def bytes (hdr : FileHeader) : Block :=
  .ofWords fun k =>
    (hdr.numBytes :: hdr.numSectors :: hdr.dataSectors).getD k 0

def ofBytes (b : Block) : FileHeader where
  numBytes := b.word 0
  numSectors := b.word 4
  dataSectors := (List.range numDirect).map fun i => b.word (4 * (i + 2))
  length_dataSectors := by simp

/-- `dataSectors[i]`. -/
def dataSector (hdr : FileHeader) (i : ℕ) : Except Fault ℤ :=
  match hdr.dataSectors[i]? with
  | some sector => .ok sector.toInt
  | none => .error .undefinedBehaviour

/-- `dataSectors[i] = sector`. -/
def setDataSector (hdr : FileHeader) (i : ℕ) (sector : ℤ) :
    Except Fault FileHeader :=
  if i < numDirect then
    .ok { hdr with
      dataSectors := hdr.dataSectors.set i (.ofInt 32 sector)
      length_dataSectors := by simpa using hdr.length_dataSectors }
  else .error .undefinedBehaviour

/-- One round of the loop of `Allocate`. -/
def allocateSector (i : ℕ) (s : FileHeader × Bitmap) :
    Except Fault (FileHeader × Bitmap) := do
  let (sector, freeMap) ← s.2.findAndSet
  let hdr ← s.1.setDataSector i sector
  assert (0 ≤ sector)
  return (hdr, freeMap)

/-- `FileHeader::Allocate`. -/
def allocate (hdr : FileHeader) (freeMap : Bitmap) (fileSize : ℤ) :
    Except Fault (Bool × FileHeader × Bitmap) := do
  let numSectors := divRoundUpInt fileSize sectorSize
  let hdr := { hdr with
    numBytes := .ofInt 32 fileSize, numSectors := .ofInt 32 numSectors }
  if ((← freeMap.numClear : ℕ) : ℤ) < numSectors then
    return (false, hdr, freeMap)
  else
    let (hdr, freeMap) ←
      countedLoop allocateSector 0 numSectors.toNat (hdr, freeMap)
    return (true, hdr, freeMap)

/-- One round of the loop of `Deallocate`. -/
def deallocateSector (hdr : FileHeader) (i : ℕ) (freeMap : Bitmap) :
    Except Fault Bitmap := do
  let sector ← hdr.dataSector i
  assert ((← freeMap.test sector) = true)
  freeMap.clear sector

/-- `FileHeader::Deallocate`. -/
def deallocate (hdr : FileHeader) (freeMap : Bitmap) : Except Fault Bitmap :=
  countedLoop hdr.deallocateSector 0 hdr.numSectors.toInt.toNat freeMap

/-- `FileHeader::FetchFrom`. -/
def fetchFrom (disk : Disk) (sector : ℤ) : Except Fault FileHeader := do
  let data ← readSector disk sector
  return ofBytes (sectorBytes data)

/-- `FileHeader::WriteBack`. -/
def writeBack (hdr : FileHeader) (disk : Disk) (sector : ℤ) :
    Except Fault Disk :=
  writeSector disk sector (sectorAt hdr.bytes 0)

/-- `FileHeader::ByteToSector`. -/
def byteToSector (hdr : FileHeader) (offset : ℕ) : Except Fault ℤ :=
  hdr.dataSector (offset / sectorSize)

/-- `FileHeader::FileLength`. -/
def fileLength (hdr : FileHeader) : ℤ :=
  hdr.numBytes.toInt

end FileHeader

/-! ## `class OpenFile` -/

structure OpenFile where
  hdr : FileHeader
  deriving DecidableEq

namespace OpenFile

/-- `OpenFile::OpenFile(sector)`. -/
def new (disk : Disk) (sector : ℤ) : Except Fault OpenFile := do
  let hdr ← FileHeader.fetchFrom disk sector
  return ⟨hdr⟩

/-- One round of the loop of `ReadAt`. -/
def readRound (f : OpenFile) (disk : Disk) (firstSector i : ℕ) (buf : Block) :
    Except Fault Block := do
  let sector ← f.hdr.byteToSector (i * sectorSize)
  let data ← readSector disk sector
  return (sectorBytes data).copy 0 buf ((i - firstSector) * sectorSize)
    sectorSize

/-- How many bytes a request for `numBytes` is about. -/
def clamp (f : OpenFile) (numBytes : ℤ) (position : ℕ) : ℤ :=
  if position + numBytes > f.hdr.fileLength then f.hdr.fileLength - position
  else numBytes

/-- `OpenFile::ReadAt(&into[start], numBytes, position)`.  The new buffer
holds `fresh`. -/
def readAt (f : OpenFile) (disk : Disk) (fresh into : Block) (start : ℕ)
    (numBytes : ℤ) (position : ℕ) : Except Fault (ℤ × Block) := do
  if numBytes ≤ 0 ∨ (position : ℤ) ≥ f.hdr.fileLength then
    return (0, into)
  else
    let numBytes := (f.clamp numBytes position).toNat
    let firstSector := position / sectorSize
    let lastSector := (position + numBytes - 1) / sectorSize
    let numSectors := 1 + lastSector - firstSector
    let buf ← countedLoop (f.readRound disk firstSector) firstSector
      numSectors fresh
    return (numBytes,
      buf.copy (position - firstSector * sectorSize) into start numBytes)

/-- One round of the loop of `WriteAt`. -/
def writeRound (f : OpenFile) (buf : Block) (firstSector i : ℕ) (disk : Disk) :
    Except Fault Disk := do
  let sector ← f.hdr.byteToSector (i * sectorSize)
  writeSector disk sector (sectorAt buf ((i - firstSector) * sectorSize))

/-- `WriteAt` reads a sector into its buffer, if that is to be partially
modified. -/
def readPartial (f : OpenFile) (disk : Disk) (fresh buf : Block)
    (modified : Prop) [Decidable modified] (start i : ℕ) :
    Except Fault Block :=
  if modified then
    (·.2) <$> f.readAt disk fresh buf start sectorSize (i * sectorSize)
  else pure buf

/-- The buffer of `WriteAt`, with the first and the last sector read. -/
def readEnds (f : OpenFile) (disk : Disk) (fresh : Block)
    (position numBytes firstSector lastSector : ℕ) : Except Fault Block := do
  let firstAligned := position = firstSector * sectorSize
  let lastAligned := position + numBytes = (lastSector + 1) * sectorSize
  let buf ← f.readPartial disk fresh fresh (¬firstAligned) 0 firstSector
  f.readPartial disk fresh buf
    (¬lastAligned ∧ (firstSector ≠ lastSector ∨ firstAligned))
    ((lastSector - firstSector) * sectorSize) lastSector

/-- `OpenFile::WriteAt`.  The new buffers hold `fresh`. -/
def writeAt (f : OpenFile) (disk : Disk) (fresh source : Block)
    (numBytes : ℤ) (position : ℕ) : Except Fault (ℤ × Disk) := do
  if numBytes ≤ 0 ∨ (position : ℤ) ≥ f.hdr.fileLength then
    return (0, disk)
  else
    let numBytes := (f.clamp numBytes position).toNat
    let firstSector := position / sectorSize
    let lastSector := (position + numBytes - 1) / sectorSize
    let numSectors := 1 + lastSector - firstSector
    let buf ← f.readEnds disk fresh position numBytes firstSector lastSector
    let buf := source.copy 0 buf (position - firstSector * sectorSize) numBytes
    let disk ← countedLoop (f.writeRound buf firstSector) firstSector
      numSectors disk
    return (numBytes, disk)

end OpenFile

/-! ## Sectors, when the disk is idle -/

section Sectors

variable {disk disk' : Disk} {sector : ℤ}

/-- The sector exists. -/
def IsSector (sector : ℤ) : Prop :=
  0 ≤ sector ∧ sector < Scheduling.numSectors

instance (sector : ℤ) : Decidable (IsSector sector) :=
  inferInstanceAs (Decidable (_ ∧ _))

theorem readSector_eq
    (hidle : disk.active = false) (hsector : IsSector sector) :
    readSector disk sector = .ok (disk.sectors sector) := by
  have hrange : 0 ≤ sector ∧ sector < Scheduling.numSectors := hsector
  rw [readSector, Disk.readRequest, assert_of_true hidle, ok_bind,
    assert_of_true hrange]
  rfl

theorem writeSector_spec
    (hidle : disk.active = false) (hsector : IsSector sector)
    (data : Sector) :
    ∃ disk', writeSector disk sector data = .ok disk' ∧
      disk'.active = false ∧ disk'.sectors sector = data ∧
      ∀ other, other ≠ sector →
        disk'.sectors other = disk.sectors other := by
  have hrange : 0 ≤ sector ∧ sector < Scheduling.numSectors := hsector
  refine ⟨⟨Function.update disk.sectors sector data, false⟩, ?_, rfl,
    Function.update_self _ _ _, fun _ hne => Function.update_of_ne hne _ _⟩
  rw [writeSector, Disk.writeRequest, assert_of_true hidle, ok_bind,
    assert_of_true hrange]
  rfl

@[simp] theorem sectorBytes_sectorAt
    (b : Block) (i : ℕ) {a : ℕ} (hlt : a < sectorSize) :
    sectorBytes (sectorAt b i) a = b (i + a) := by
  have hmod : a % sectorSize = a := Nat.mod_eq_of_lt hlt
  simp only [sectorBytes, sectorAt, hmod]

end Sectors

/-! ## Headers -/

namespace FileHeader

variable {hdr : FileHeader} {disk disk' : Disk}

/-- The data sectors of the file. -/
def sectors (hdr : FileHeader) : List ℤ :=
  (hdr.dataSectors.take hdr.numSectors.toInt.toNat).map BitVec.toInt

/-- The header lists sectors that exist, and enough of them. -/
structure Valid (hdr : FileHeader) : Prop where
  count : 0 ≤ hdr.numSectors.toInt ∧ hdr.numSectors.toInt ≤ numDirect
  exist : ∀ sector ∈ hdr.sectors, IsSector sector
  fits : hdr.fileLength ≤ hdr.numSectors.toInt * sectorSize

theorem length_sectors (hvalid : hdr.Valid) :
    hdr.sectors.length = hdr.numSectors.toInt.toNat := by
  have hcount := hvalid.count
  rw [sectors, List.length_map, List.length_take, hdr.length_dataSectors]
  omega

theorem dataSector_eq {i : ℕ} (hlt : i < hdr.sectors.length) :
    hdr.dataSector i = .ok hdr.sectors[i] := by
  have hcount : i < hdr.dataSectors.length := by
    rw [sectors, List.length_map, List.length_take] at hlt
    omega
  have hget : hdr.dataSectors[i]? = some hdr.dataSectors[i] :=
    List.getElem?_eq_getElem _
  rw [dataSector, hget]
  simp [sectors]

/-- What the disk holds is the header again. -/
@[simp] theorem ofBytes_bytes (hdr : FileHeader) :
    ofBytes hdr.bytes = hdr := by
  obtain ⟨numBytes, numSectors, dataSectors, hlength⟩ := hdr
  have hword : ∀ k, (bytes ⟨numBytes, numSectors, dataSectors, hlength⟩).word
      (4 * k) = (numBytes :: numSectors :: dataSectors).getD k 0 :=
    Block.word_ofWords _
  have h0 := hword 0
  have h1 := hword 1
  simp only [ofBytes, FileHeader.mk.injEq]
  refine ⟨h0, h1, ?_⟩
  apply List.ext_getElem
  · simp [hlength]
  · intro i h₁ hlt
    rw [List.getElem_map, List.getElem_range, hword]
    simp [hlt]

theorem ofBytes_congr {b b' : Block}
    (hsame : ∀ a < sectorSize, b a = b' a) : ofBytes b = ofBytes b' := by
  have hword : ∀ k < 32, b.word (4 * k) = b'.word (4 * k) := by
    intro k hk
    apply Block.word_congr
    intro j hj
    apply hsame
    unfold sectorSize
    omega
  have h0 := hword 0 (by decide)
  have h1 := hword 1 (by decide)
  simp only [ofBytes, FileHeader.mk.injEq]
  refine ⟨h0, h1, ?_⟩
  apply List.map_congr_left
  intro i hi
  have hlt : i < numDirect := List.mem_range.mp hi
  apply hword
  unfold numDirect at hlt
  omega

/-- The header that a sector of the disk holds. -/
def onDisk (disk : Disk) (sector : ℤ) : FileHeader :=
  ofBytes (sectorBytes (disk.sectors sector))

theorem fetchFrom_eq
    {sector : ℤ} (hidle : disk.active = false) (hsector : IsSector sector) :
    fetchFrom disk sector = .ok (onDisk disk sector) := by
  rw [fetchFrom, readSector_eq hidle hsector]
  rfl

theorem onDisk_congr
    {sector : ℤ} (hsame : disk'.sectors sector = disk.sectors sector) :
    onDisk disk' sector = onDisk disk sector := by
  rw [onDisk, onDisk, hsame]

theorem writeBack_spec
    (hdr : FileHeader) {sector : ℤ} (hidle : disk.active = false)
    (hsector : IsSector sector) :
    ∃ disk', hdr.writeBack disk sector = .ok disk' ∧
      disk'.active = false ∧ onDisk disk' sector = hdr ∧
      ∀ other, other ≠ sector →
        disk'.sectors other = disk.sectors other := by
  obtain ⟨disk', hwrite, hidle', hwritten, hothers⟩ :=
    writeSector_spec hidle hsector (sectorAt hdr.bytes 0)
  refine ⟨disk', hwrite, hidle', ?_, hothers⟩
  rw [onDisk, hwritten, ← ofBytes_bytes hdr]
  apply ofBytes_congr
  intro a ha
  rw [ofBytes_bytes, sectorBytes_sectorAt _ _ ha, Nat.zero_add]

/-- The bytes of the file, which has them in its data sectors. -/
def content (hdr : FileHeader) (disk : Disk) : Block :=
  fun a => sectorBytes
    (disk.sectors (hdr.sectors.getD (a / sectorSize) 0)) a

end FileHeader

/-! ## Reading -/

namespace OpenFile

variable {f : OpenFile} {disk : Disk} {fresh into : Block}
variable {start position : ℕ} {numBytes : ℤ}

theorem content_sector
    {hdr : FileHeader} {i a : ℕ} (hi : i < hdr.sectors.length)
    (ha : a < sectorSize) :
    hdr.content disk (i * sectorSize + a) =
      sectorBytes (disk.sectors hdr.sectors[i]) a := by
  unfold sectorSize at ha
  have hdiv : (i * sectorSize + a) / sectorSize = i := by
    unfold sectorSize
    omega
  have hmod : (i * sectorSize + a) % sectorSize = a % sectorSize := by
    unfold sectorSize
    omega
  have hget : hdr.sectors.getD i 0 = hdr.sectors[i] := by
    simp [List.getD_eq_getElem?_getD, hi]
  simp only [FileHeader.content, sectorBytes, hdiv, hmod, hget]

theorem byteToSector_eq
    {hdr : FileHeader} {i : ℕ} (hi : i < hdr.sectors.length) :
    hdr.byteToSector (i * sectorSize) = .ok hdr.sectors[i] := by
  have hdiv : i * sectorSize / sectorSize = i :=
    Nat.mul_div_cancel _ (by decide)
  rw [FileHeader.byteToSector, hdiv, FileHeader.dataSector_eq hi]

theorem readSectors_spec
    (fresh : Block) {first count : ℕ}
    (hvalid : f.hdr.Valid) (hidle : disk.active = false)
    (hcount : first + count ≤ f.hdr.sectors.length) :
    ∃ buf, countedLoop (f.readRound disk first) first count fresh = .ok buf ∧
      ∀ a, buf a = if a < count * sectorSize then
        f.hdr.content disk (first * sectorSize + a) else fresh a := by
  let Inv : ℕ → Block → Prop := fun i buf =>
    ∀ a, buf a = if a < (i - first) * sectorSize then
      f.hdr.content disk (first * sectorSize + a) else fresh a
  have hzero : Inv first fresh := by
    intro a
    simp
  have hround : ∀ i buf, first ≤ i → i < first + count → Inv i buf →
      ∃ buf', f.readRound disk first i buf = .ok buf' ∧ Inv (i + 1) buf' := by
    intro i buf hle hlt hinv
    have hi : i < f.hdr.sectors.length := by omega
    have hsector := hvalid.exist _ (List.getElem_mem hi)
    refine ⟨(sectorBytes (disk.sectors f.hdr.sectors[i])).copy 0 buf
      ((i - first) * sectorSize) sectorSize, ?_, ?_⟩
    · rw [readRound, byteToSector_eq hi, ok_bind, readSector_eq hidle hsector]
      rfl
    · intro a
      have hcontent := fun h => @content_sector disk f.hdr i
        (a - (i - first) * sectorSize) hi h
      rw [Block.copy_apply, hinv a, Nat.zero_add]
      unfold sectorSize at hcontent ⊢
      split_ifs with hhere hbelow hbefore hbelow
      · rw [← hcontent (by omega)]
        congr 1
        omega
      · omega
      · rfl
      · omega
      · omega
      · rfl
  obtain ⟨buf, hloop, hbuf⟩ := countedLoop_spec Inv hzero hround
  refine ⟨buf, hloop, ?_⟩
  simpa [Inv] using hbuf

/-- A request that is about some byte is about bytes of the file. -/
theorem clamp_spec
    (hnumBytes : 0 < numBytes) (hposition : (position : ℤ) < f.hdr.fileLength) :
    0 < (f.clamp numBytes position).toNat ∧
      (f.clamp numBytes position).toNat = min numBytes
        (f.hdr.fileLength - position) ∧
      (position : ℤ) + (f.clamp numBytes position).toNat ≤
        f.hdr.fileLength := by
  unfold clamp
  split_ifs <;> omega

/-- The sectors from the first to the last byte of a request. -/
theorem sectors_of_clamp
    (hvalid : f.hdr.Valid) {n : ℕ} (hpos : 0 < n)
    (hfits : (position : ℤ) + n ≤ f.hdr.fileLength) :
    position / sectorSize ≤ (position + n - 1) / sectorSize ∧
      (position + n - 1) / sectorSize < f.hdr.sectors.length := by
  have hlength := FileHeader.length_sectors hvalid
  have hcount := hvalid.count
  have hspace := hvalid.fits
  unfold sectorSize at *
  omega

/-- `ReadAt` gets the bytes of the file, as far as it goes. -/
theorem readAt_spec
    (hvalid : f.hdr.Valid) (hidle : disk.active = false)
    (hnumBytes : 0 < numBytes) (hposition : (position : ℤ) < f.hdr.fileLength) :
    f.readAt disk fresh into start numBytes position =
      .ok ((f.clamp numBytes position).toNat,
        Block.copy (fun a => f.hdr.content disk (position + a)) 0 into start
          (f.clamp numBytes position).toNat) := by
  obtain ⟨hpos, -, hfits⟩ := clamp_spec hnumBytes hposition
  have hnormal : ¬(numBytes ≤ 0 ∨ (position : ℤ) ≥ f.hdr.fileLength) := by
    omega
  rw [readAt, if_neg hnormal]
  generalize (f.clamp numBytes position).toNat = n at hpos hfits
  obtain ⟨hle, hlast⟩ := sectors_of_clamp hvalid hpos hfits
  have hcount : position / sectorSize +
      (1 + (position + n - 1) / sectorSize - position / sectorSize) ≤
        f.hdr.sectors.length := by
    omega
  obtain ⟨buf, hloop, hbuf⟩ := readSectors_spec fresh hvalid hidle hcount
  simp only [hloop, ok_bind]
  congr 2
  funext a
  rw [Block.copy_apply, Block.copy_apply, hbuf]
  unfold sectorSize at *
  split_ifs with hcopied hread
  · congr 1
    omega
  · omega
  · rfl

/-! ## Writing -/

/-- Reading one sector, or what the file has of it. -/
theorem readPartial_spec
    (fresh buf : Block) (modified : Prop) [Decidable modified] (start : ℕ)
    {i : ℕ} (hvalid : f.hdr.Valid) (hidle : disk.active = false)
    (hi : ((i * sectorSize : ℕ) : ℤ) < f.hdr.fileLength) :
    ∃ buf', f.readPartial disk fresh buf modified start i = .ok buf' ∧
      ∀ a, buf' a = if modified ∧ start ≤ a ∧ a < start + sectorSize ∧
          ((i * sectorSize + (a - start) : ℕ) : ℤ) < f.hdr.fileLength then
        f.hdr.content disk (i * sectorSize + (a - start)) else buf a := by
  unfold readPartial
  by_cases hmodified : modified
  · have hsize : 0 < (sectorSize : ℤ) := by decide
    obtain ⟨-, hclamp, -⟩ := clamp_spec hsize hi
    rw [if_pos hmodified, readAt_spec hvalid hidle hsize hi]
    refine ⟨_, rfl, ?_⟩
    intro a
    have hsame : (start ≤ a ∧ a < start +
        (f.clamp sectorSize (i * sectorSize)).toNat) ↔
        modified ∧ start ≤ a ∧ a < start + sectorSize ∧
          ((i * sectorSize + (a - start) : ℕ) : ℤ) < f.hdr.fileLength := by
      simp only [hmodified, true_and]
      omega
    simp only [Block.copy_apply, hsame, Nat.zero_add]
  · rw [if_neg hmodified]
    refine ⟨buf, rfl, ?_⟩
    simp [hmodified]

/-- In the buffer of `WriteAt`, what is not going to be written is what the
file has there. -/
theorem readEnds_spec
    (fresh : Block) {n : ℕ} (hvalid : f.hdr.Valid) (hidle : disk.active = false)
    (hpos : 0 < n) (hfits : (position : ℤ) + n ≤ f.hdr.fileLength) :
    ∃ buf, f.readEnds disk fresh position n (position / sectorSize)
        ((position + n - 1) / sectorSize) = .ok buf ∧
      ∀ a, a / sectorSize ≤ (position + n - 1) / sectorSize →
        position / sectorSize * sectorSize ≤ a → (a : ℤ) < f.hdr.fileLength →
        ¬(position ≤ a ∧ a < position + n) →
        buf (a - position / sectorSize * sectorSize) =
          f.hdr.content disk a := by
  generalize hfirst : position / sectorSize = first
  generalize hlast : (position + n - 1) / sectorSize = last
  have hends : first * sectorSize ≤ position ∧
      position < (first + 1) * sectorSize ∧
      last * sectorSize ≤ position + n - 1 ∧
      position + n - 1 < (last + 1) * sectorSize ∧ first ≤ last := by
    unfold sectorSize at *
    omega
  obtain ⟨buf, hreadFirst, hbuf⟩ := readPartial_spec (i := first) fresh fresh
    (¬position = first * sectorSize) 0 hvalid hidle (by omega)
  obtain ⟨buf', hreadLast, hbuf'⟩ := readPartial_spec (i := last) fresh buf
    (¬position + n = (last + 1) * sectorSize ∧
      (first ≠ last ∨ position = first * sectorSize))
    ((last - first) * sectorSize) hvalid hidle (by omega)
  refine ⟨buf', ?_, ?_⟩
  · rw [readEnds, hreadFirst, ok_bind]
    exact hreadLast
  · intro a hle hfrom hinside hkept
    rw [hbuf']
    split_ifs with hread
    · congr 1
      unfold sectorSize at *
      omega
    · rw [hbuf, if_pos]
      · congr 1
        omega
      · unfold sectorSize at *
        omega

/-- The sectors that the loop of `WriteAt` has written. -/
theorem writeSectors_spec
    (buf : Block) {first count : ℕ}
    (hvalid : f.hdr.Valid) (hnodup : f.hdr.sectors.Nodup)
    (hidle : disk.active = false)
    (hcount : first + count ≤ f.hdr.sectors.length) :
    ∃ disk', countedLoop (f.writeRound buf first) first count disk =
        .ok disk' ∧
      disk'.active = false ∧
      (∀ sector, sector ∉ f.hdr.sectors →
        disk'.sectors sector = disk.sectors sector) ∧
      ∀ i (hi : i < f.hdr.sectors.length), disk'.sectors f.hdr.sectors[i] =
        if first ≤ i ∧ i < first + count then
          sectorAt buf ((i - first) * sectorSize)
        else disk.sectors f.hdr.sectors[i] := by
  let Inv : ℕ → Disk → Prop := fun round disk' =>
    disk'.active = false ∧
      (∀ sector, sector ∉ f.hdr.sectors →
        disk'.sectors sector = disk.sectors sector) ∧
      ∀ i (hi : i < f.hdr.sectors.length), disk'.sectors f.hdr.sectors[i] =
        if first ≤ i ∧ i < round then
          sectorAt buf ((i - first) * sectorSize)
        else disk.sectors f.hdr.sectors[i]
  have hzero : Inv first disk := by
    refine ⟨hidle, fun _ _ => rfl, ?_⟩
    intro i hi
    rw [if_neg (by omega)]
  have hround : ∀ i disk', first ≤ i → i < first + count → Inv i disk' →
      ∃ disk'', f.writeRound buf first i disk' = .ok disk'' ∧
        Inv (i + 1) disk'' := by
    intro i disk' hle hlt hinv
    obtain ⟨hactive, hothers, hwritten⟩ := hinv
    have hi : i < f.hdr.sectors.length := by omega
    have hsector := hvalid.exist _ (List.getElem_mem hi)
    obtain ⟨disk'', hwrite, hidle', hself, hkept⟩ := writeSector_spec hactive
      hsector (sectorAt buf ((i - first) * sectorSize))
    refine ⟨disk'', ?_, hidle', ?_, ?_⟩
    · rw [writeRound, byteToSector_eq hi, ok_bind, hwrite]
    · intro sector hsector
      have hne : sector ≠ f.hdr.sectors[i] := by
        rintro rfl
        exact hsector (List.getElem_mem hi)
      rw [hkept sector hne, hothers sector hsector]
    · intro j hj
      by_cases heq : j = i
      · subst heq
        rw [hself, if_pos (by omega)]
      · have hne : f.hdr.sectors[j] ≠ f.hdr.sectors[i] :=
          fun hsame => heq ((hnodup.getElem_inj_iff).mp hsame)
        have hiff : first ≤ j ∧ j < i + 1 ↔ first ≤ j ∧ j < i := by omega
        rw [hkept _ hne, hwritten j hj]
        simp only [hiff]
  exact countedLoop_spec Inv hzero hround

/-- `WriteAt` changes the bytes that it is about, and no other byte of the
file or of a sector that is not the file's. -/
theorem writeAt_spec
    (source : Block) (hvalid : f.hdr.Valid) (hnodup : f.hdr.sectors.Nodup)
    (hidle : disk.active = false)
    (hnumBytes : 0 < numBytes) (hposition : (position : ℤ) < f.hdr.fileLength) :
    ∃ disk', f.writeAt disk fresh source numBytes position =
        .ok ((f.clamp numBytes position).toNat, disk') ∧
      disk'.active = false ∧
      (∀ sector, sector ∉ f.hdr.sectors →
        disk'.sectors sector = disk.sectors sector) ∧
      ∀ a : ℕ, (a : ℤ) < f.hdr.fileLength → f.hdr.content disk' a =
        source.copy 0 (f.hdr.content disk) position
          (f.clamp numBytes position).toNat a := by
  obtain ⟨hpos, -, hfits⟩ := clamp_spec hnumBytes hposition
  have hnormal : ¬(numBytes ≤ 0 ∨ (position : ℤ) ≥ f.hdr.fileLength) := by
    omega
  rw [writeAt, if_neg hnormal]
  generalize (f.clamp numBytes position).toNat = n at hpos hfits
  obtain ⟨hle, hlast⟩ := sectors_of_clamp hvalid hpos hfits
  obtain ⟨buf, hread, hbuf⟩ := readEnds_spec fresh hvalid hidle hpos hfits
  have hcount : position / sectorSize +
      (1 + (position + n - 1) / sectorSize - position / sectorSize) ≤
        f.hdr.sectors.length := by
    omega
  obtain ⟨disk', hloop, hactive, hothers, hwritten⟩ := writeSectors_spec
    (source.copy 0 buf (position - position / sectorSize * sectorSize) n)
    hvalid hnodup hidle hcount
  refine ⟨disk', ?_, hactive, hothers, ?_⟩
  · simp only [hread, ok_bind, hloop]
    rfl
  · intro a ha
    have hlength := FileHeader.length_sectors hvalid
    have hi : a / sectorSize < f.hdr.sectors.length := by
      have hspace := hvalid.fits
      have hnonneg := hvalid.count.1
      unfold sectorSize at *
      omega
    have hmod : a % sectorSize < sectorSize := Nat.mod_lt _ (by decide)
    have hsplit : a / sectorSize * sectorSize + a % sectorSize = a := by
      rw [Nat.mul_comm]
      exact Nat.div_add_mod a sectorSize
    have hbefore := @content_sector disk f.hdr _ _ hi hmod
    have hafter := @content_sector disk' f.hdr _ _ hi hmod
    rw [hsplit] at hbefore hafter
    rw [hafter, hwritten _ hi, Block.copy_apply, hbefore]
    split_ifs with hsectors hbyte hbyte
    · rw [sectorBytes_sectorAt _ _ hmod, Block.copy_apply, if_pos]
      · congr 1
        unfold sectorSize at *
        omega
      · unfold sectorSize at *
        omega
    · rw [sectorBytes_sectorAt _ _ hmod, Block.copy_apply, if_neg, ← hbefore,
        ← hbuf a (by omega) (by unfold sectorSize at *; omega) ha hbyte]
      · congr 1
        unfold sectorSize at *
        omega
      · unfold sectorSize at *
        omega
    · exfalso
      unfold sectorSize at *
      omega
    · rfl

end OpenFile

end Filesys

end Nachos
