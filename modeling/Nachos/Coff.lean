import Nachos.Network
import Nachos.FileContents
import Nachos.LoadedImage

/-!
# Making executables: `coff2noff/coff2noff.c`

The cross compiler links programs into COFF files; `coff2noff` turns them into
the NOFF files that `AddrSpace::Load` reads.  It is built with `RDATA` and
`-m32`, so that a `long` is a word, on a host that is little endian.  The file
it writes begins as a gap of the size of the header, which is filled last; when
it exits with a message it unlinks this file.
-/

namespace Nachos

namespace Coff

/-! ## The COFF format -/

/-- `sizeof(struct filehdr)`. -/
def filehdrSize : ℕ := 20

/-- `sizeof(struct aouthdr)`. -/
def aouthdrSize : ℕ := 56

/-- `sizeof(struct scnhdr)`. -/
def scnhdrSize : ℕ := 40

/-- `MIPSELMAGIC`. -/
def mipselMagic : BitVec 16 := 0x0162

/-- `OMAGIC`. -/
def omagic : BitVec 16 := 0o407

/-- The little-endian short word at a place of a structure. -/
def shortAt (bytes : List (BitVec 8)) (i : ℕ) : BitVec 16 :=
  bytes.getD (i + 1) 0 ++ bytes.getD i 0

/-- `ShortToHost` of a host that is little endian. -/
def shortToHost (shortword : BitVec 16) : BitVec 16 :=
  shortword

structure Filehdr where
  fMagic : BitVec 16
  fNscns : BitVec 16

def Filehdr.ofBytes (bytes : List (BitVec 8)) : Filehdr where
  fMagic := shortToHost (shortAt bytes 0)
  fNscns := shortToHost (shortAt bytes 2)

structure Aouthdr where
  magic : BitVec 16

def Aouthdr.ofBytes (bytes : List (BitVec 8)) : Aouthdr where
  magic := shortToHost (shortAt bytes 0)

structure Scnhdr where
  sName : List (BitVec 8)
  sPaddr : BitVec 32
  sSize : BitVec 32
  sScnptr : BitVec 32

namespace Scnhdr

def ofBytes (bytes : List (BitVec 8)) : Scnhdr where
  sName := bytes.take 8
  sPaddr := wordToHost (NoffHeader.wordAt bytes 8)
  sSize := wordToHost (NoffHeader.wordAt bytes 16)
  sScnptr := wordToHost (NoffHeader.wordAt bytes 20)

/-- What `strcmp` and `printf` see of `s_name`. -/
def name (sec : Scnhdr) : CString :=
  cString sec.sName

end Scnhdr

/-- The array `sections`. -/
def sections (table : List (BitVec 8)) (numsections : ℕ) : List Scnhdr :=
  (List.range numsections).map fun i =>
    Scnhdr.ofBytes (table.drop (i * scnhdrSize))

/-! ## Files -/

/-- How `coff2noff` exits with status 1, once both files are open. -/
inductive Failure
  /-- "File is too short" -/
  | fileTooShort
  /-- "Unable to write file" -/
  | unableToWrite
  /-- "File is not a MIPSEL COFF file" -/
  | notMipsel
  /-- "File is not a OMAGIC file" -/
  | notOmagic
  /-- "Can't handle both bss and sbss" -/
  | bothBssAndSbss
  /-- "Unknown segment type: %s" -/
  | unknownSegment (name : CString)
  /-- What comes of a `read` of a negative number of bytes is up to the
  host. -/
  | hostDependent
  deriving DecidableEq

/-- The largest file of the host; an `off_t` is a `long`. -/
structure HostLimit where
  maxSize : ℕ
  lt : maxSize < 2 ^ 31

/-- The two files with their positions. -/
structure Files where
  input : List (BitVec 8)
  position : ℕ
  output : List (BitVec 8)
  outPosition : ℕ

namespace Files

/-- Where `lseek(fdIn, offset, 0)` leaves the position; nobody looks whether it
has failed. -/
def sought (files : Files) (offset : BitVec 32) : ℕ :=
  if 0 ≤ offset.toInt then offset.toInt.toNat else files.position

/-- `lseek(fdIn, offset, 0)`. -/
def seekInput (files : Files) (offset : BitVec 32) : Files :=
  { files with position := files.sought offset }

/-- `lseek(fdOut, offset, 0)`. -/
def seekOutput (files : Files) (offset : ℕ) : Files :=
  { files with outPosition := offset }

/-- `Read(fdIn, buf, nBytes)`. -/
def read (files : Files) (nBytes : ℕ) :
    Except Failure (List (BitVec 8) × Files) :=
  let bytes := (files.input.drop files.position).take nBytes
  if bytes.length ≠ nBytes then .error .fileTooShort
  else .ok (bytes, { files with position := files.position + nBytes })

/-- `Write(fdOut, buf, nBytes)`. -/
def write (files : Files) (limit : HostLimit) (buf : List (BitVec 8)) :
    Except Failure Files :=
  if limit.maxSize < files.outPosition + buf.length then .error .unableToWrite
  else .ok { files with
    output := overwrite files.output files.outPosition buf
    outPosition := files.outPosition + buf.length }

end Files

/-! ## The sections -/

/-- The fields of the header whose sections have raw data. -/
inductive Part
  | code
  | initData
  | readonlyData
  deriving DecidableEq

instance : Fintype Part where
  elems := {.code, .initData, .readonlyData}
  complete := by
    intro part
    cases part <;> decide

namespace Part

/-- ".text", ".data" and ".rdata". -/
def sectionName : Part → CString
  | .code => [46, 116, 101, 120, 116]
  | .initData => [46, 100, 97, 116, 97]
  | .readonlyData => [46, 114, 100, 97, 116, 97]

def field : Part → NoffHeader → Segment
  | .code, noffH => noffH.code
  | .initData, noffH => noffH.initData
  | .readonlyData, noffH => noffH.readonlyData

def setField (segment : Segment) : Part → NoffHeader → NoffHeader
  | .code, noffH => { noffH with code := segment }
  | .initData, noffH => { noffH with initData := segment }
  | .readonlyData, noffH => { noffH with readonlyData := segment }

end Part

/-- ".bss". -/
def bssName : CString := [46, 98, 115, 115]

/-- The local variables of the loop over the sections. -/
structure Conversion where
  noffH : NoffHeader
  inNoffFile : BitVec 32
  files : Files

namespace Conversion

/-- The branch of a section with raw data; `malloc` finds the memory. -/
def copySection (c : Conversion) (limit : HostLimit) (sec : Scnhdr)
    (part : Part) : Except Failure Conversion :=
  let noffH := part.setField ⟨sec.sPaddr, c.inNoffFile, sec.sSize⟩ c.noffH
  if sec.sSize.toInt < 0 then .error .hostDependent
  else do
    let (buffer, files) ←
      (c.files.seekInput sec.sScnptr).read sec.sSize.toInt.toNat
    let files ← files.write limit buffer
    return ⟨noffH, c.inNoffFile + sec.sSize, files⟩

/-- The branch of `.bss`. -/
def mergeBss (uninitData : Segment) (sec : Scnhdr) : Except Failure Segment :=
  if uninitData.size ≠ 0 then
    if sec.sPaddr = uninitData.virtualAddr + uninitData.size then
      .error .bothBssAndSbss
    else .ok { uninitData with size := uninitData.size + sec.sSize }
  else .ok { uninitData with virtualAddr := sec.sPaddr, size := sec.sSize }

/-- One round of the loop. -/
def convert (limit : HostLimit) (c : Conversion) (sec : Scnhdr) :
    Except Failure Conversion :=
  if sec.sSize = 0 then .ok c
  else if sec.name = Part.code.sectionName then c.copySection limit sec .code
  else if sec.name = Part.initData.sectionName then
    c.copySection limit sec .initData
  else if sec.name = Part.readonlyData.sectionName then
    c.copySection limit sec .readonlyData
  else if sec.name = bssName then do
    let uninitData ← mergeBss c.noffH.uninitData sec
    return { c with noffH := { c.noffH with uninitData := uninitData } }
  else .error (.unknownSegment sec.name)

end Conversion

/-! ## The program -/

/-- The header before the loop: the other fields are what the stack holds. -/
def initialHeader (garbage : NoffHeader) : NoffHeader where
  noffMagic := noffMagicNumber
  code := { garbage.code with size := 0 }
  initData := { garbage.initData with size := 0 }
  readonlyData := { garbage.readonlyData with size := 0 }
  uninitData := { garbage.uninitData with size := 0 }

def segmentWords (segment : Segment) : List (BitVec 32) :=
  [segment.virtualAddr, segment.inFileAddr, segment.size]

/-- The header in memory. -/
def headerBytes (noffH : NoffHeader) : List (BitVec 8) :=
  (noffH.noffMagic :: (segmentWords noffH.code ++
    segmentWords noffH.initData ++ segmentWords noffH.readonlyData ++
      segmentWords noffH.uninitData)).flatMap wordBytes

/-- The local variables when the loop begins. -/
def Conversion.initial (garbage : NoffHeader) (files : Files) :
    Conversion where
  noffH := initialHeader garbage
  inNoffFile := BitVec.ofNat 32 noffHeaderSize
  files := files.seekOutput noffHeaderSize

/-- The loop over the sections and what follows it. -/
def convertSections (limit : HostLimit) (garbage : NoffHeader)
    (table : List Scnhdr) (files : Files) :
    Except Failure (List (BitVec 8)) := do
  let c ← table.foldlM (Conversion.convert limit)
    (Conversion.initial garbage files)
  let files ← (c.files.seekOutput 0).write limit
    (headerBytes c.noffH.swapHeader)
  return files.output

/-- `main`, once both files are open: the file it leaves behind. -/
def main (limit : HostLimit) (garbage : NoffHeader)
    (input : List (BitVec 8)) : Except Failure (List (BitVec 8)) := do
  let (bytes, files) ← Files.read ⟨input, 0, [], 0⟩ filehdrSize
  let fileh := Filehdr.ofBytes bytes
  if fileh.fMagic ≠ mipselMagic then .error .notMipsel
  else do
    let (bytes, files) ← files.read aouthdrSize
    let systemh := Aouthdr.ofBytes bytes
    if systemh.magic ≠ omagic then .error .notOmagic
    else do
      let numsections := fileh.fNscns.toNat
      let (table, files) ← files.read (numsections * scnhdrSize)
      convertSections limit garbage (sections table numsections) files

/-! ## What the headers say -/

/-- The file header of an input. -/
def fileHeader (input : List (BitVec 8)) : Filehdr :=
  .ofBytes (input.take filehdrSize)

/-- The system header of an input. -/
def systemHeader (input : List (BitVec 8)) : Aouthdr :=
  .ofBytes ((input.drop filehdrSize).take aouthdrSize)

def numsections (input : List (BitVec 8)) : ℕ :=
  (fileHeader input).fNscns.toNat

/-- Where the section table ends. -/
def headersEnd (input : List (BitVec 8)) : ℕ :=
  filehdrSize + aouthdrSize + numsections input * scnhdrSize

/-- The section table of an input. -/
def sectionTable (input : List (BitVec 8)) : List Scnhdr :=
  sections ((input.drop (filehdrSize + aouthdrSize)).take
    (numsections input * scnhdrSize)) (numsections input)

/-- An input that is long enough for its headers and has the right magic
numbers. -/
structure RightHeaders (input : List (BitVec 8)) : Prop where
  complete : headersEnd input ≤ input.length
  magic : (fileHeader input).fMagic = mipselMagic
  systemMagic : (systemHeader input).magic = omagic

section Headers

variable {limit : HostLimit} {garbage : NoffHeader}
variable {input output : List (BitVec 8)}

theorem Files.read_ok {files : Files} {nBytes : ℕ}
    (hinside : files.position + nBytes ≤ files.input.length) :
    files.read nBytes = .ok ((files.input.drop files.position).take nBytes,
      { files with position := files.position + nBytes }) := by
  have hlength : ((files.input.drop files.position).take nBytes).length =
      nBytes := by
    rw [List.length_take, List.length_drop]
    omega
  exact if_neg (not_not.mpr hlength)

theorem Files.read_inv {files files' : Files} {nBytes : ℕ}
    {bytes : List (BitVec 8)} (hread : files.read nBytes = .ok (bytes, files')) :
    bytes = (files.input.drop files.position).take nBytes ∧
      files' = { files with position := files.position + nBytes } ∧
      nBytes ≤ files.input.length - files.position := by
  unfold read at hread
  simp only at hread
  split_ifs at hread with hlength
  cases hread
  rw [not_not, List.length_take, List.length_drop] at hlength
  exact ⟨rfl, rfl, by omega⟩

theorem Files.read_short {files : Files} {nBytes : ℕ} (hpos : 0 < nBytes)
    (hshort : files.input.length < files.position + nBytes) :
    files.read nBytes = .error .fileTooShort := by
  apply if_pos
  rw [List.length_take, List.length_drop]
  omega

theorem main_of_rightHeaders (hheaders : RightHeaders input) :
    main limit garbage input =
      convertSections limit garbage (sectionTable input)
        ⟨input, headersEnd input, [], 0⟩ := by
  obtain ⟨hcomplete, hmagic, hsystem⟩ := hheaders
  have hlength : filehdrSize + aouthdrSize +
      numsections input * scnhdrSize ≤ input.length := hcomplete
  unfold main
  rw [Files.read_ok (show 0 + filehdrSize ≤ input.length by omega)]
  refine (if_neg (not_not.mpr hmagic)).trans ?_
  rw [Files.read_ok
    (show 0 + filehdrSize + aouthdrSize ≤ input.length by omega)]
  refine (if_neg (not_not.mpr hsystem)).trans ?_
  have htable := @Files.read_ok
    ⟨input, filehdrSize + aouthdrSize, [], 0⟩ _ hlength
  exact congrArg (· >>= fun result => convertSections limit garbage
    (sections result.1 (numsections input)) result.2) htable

theorem rightHeaders_of_main (hok : main limit garbage input = .ok output) :
    RightHeaders input := by
  unfold main at hok
  obtain ⟨⟨bytes, files⟩, hread, hok⟩ := ok_of_bind hok
  obtain ⟨rfl, rfl, hfirst⟩ := Files.read_inv hread
  simp only at hok
  split_ifs at hok with hmagic
  obtain ⟨⟨bytes, files⟩, hread, hok⟩ := ok_of_bind hok
  obtain ⟨rfl, rfl, hsecond⟩ := Files.read_inv hread
  simp only at hok
  split_ifs at hok with hsystem
  obtain ⟨⟨bytes, files⟩, hread, -⟩ := ok_of_bind hok
  obtain ⟨-, -, hthird⟩ := Files.read_inv hread
  refine ⟨?_, not_not.mp hmagic, not_not.mp hsystem⟩
  change numsections input * scnhdrSize ≤
    input.length - (0 + filehdrSize + aouthdrSize) at hthird
  simp only [headersEnd, filehdrSize, aouthdrSize] at *
  omega

end Headers

/-! ## One round of the loop -/

namespace Scnhdr

/-- `s_size` where it is not negative. -/
def bytes (sec : Scnhdr) : ℕ :=
  sec.sSize.toInt.toNat

def IsPart (sec : Scnhdr) (part : Part) : Prop :=
  sec.sSize ≠ 0 ∧ sec.name = part.sectionName

def IsBss (sec : Scnhdr) : Prop :=
  sec.sSize ≠ 0 ∧ sec.name = bssName

instance (sec : Scnhdr) (part : Part) : Decidable (sec.IsPart part) := by
  unfold IsPart
  infer_instance

instance (sec : Scnhdr) : Decidable sec.IsBss := by
  unfold IsBss
  infer_instance

end Scnhdr

theorem Part.sectionName_inj {part part' : Part}
    (h : part.sectionName = part'.sectionName) : part = part' := by
  revert h
  cases part <;> cases part' <;> decide

theorem Part.sectionName_ne_bssName (part : Part) :
    part.sectionName ≠ bssName := by
  cases part <;> decide

@[simp] theorem Part.field_setField (part : Part) (segment : Segment)
    (noffH : NoffHeader) : part.field (part.setField segment noffH) =
      segment := by
  cases part <;> rfl

theorem Part.field_setField_of_ne {part part' : Part} (hne : part' ≠ part)
    (segment : Segment) (noffH : NoffHeader) :
    part'.field (part.setField segment noffH) = part'.field noffH := by
  cases part <;> cases part' <;> first | rfl | exact (hne rfl).elim

@[simp] theorem Part.uninitData_setField (part : Part) (segment : Segment)
    (noffH : NoffHeader) :
    (part.setField segment noffH).uninitData = noffH.uninitData := by
  cases part <;> rfl

@[simp] theorem Part.noffMagic_setField (part : Part) (segment : Segment)
    (noffH : NoffHeader) :
    (part.setField segment noffH).noffMagic = noffH.noffMagic := by
  cases part <;> rfl

section Rounds

variable {limit : HostLimit} {c : Conversion} {sec : Scnhdr} {part : Part}

theorem Scnhdr.bytes_pos (hne : sec.sSize ≠ 0) (hnonneg : 0 ≤ sec.sSize.toInt) :
    0 < sec.bytes := by
  have hzero : sec.sSize.toInt ≠ 0 := by
    intro h
    exact hne (BitVec.eq_of_toInt_eq h)
  unfold bytes
  omega

theorem Scnhdr.toNat_sSize (hnonneg : 0 ≤ sec.sSize.toInt) :
    sec.sSize.toNat = sec.bytes := by
  have heq := Machine.toInt_eq_toNat hnonneg
  unfold bytes
  omega

/-- The same name would have to end differently. -/
theorem Scnhdr.IsPart.not_isBss (hpart : sec.IsPart part) : ¬sec.IsBss := by
  intro hbss
  exact part.sectionName_ne_bssName (hpart.2.symm.trans hbss.2)

theorem convert_empty (hempty : sec.sSize = 0) :
    c.convert limit sec = .ok c :=
  if_pos hempty

theorem convert_part (hpart : sec.IsPart part) :
    c.convert limit sec = c.copySection limit sec part := by
  obtain ⟨hne, hname⟩ := hpart
  have hdiffers : ∀ other : Part, part ≠ other →
      sec.name ≠ other.sectionName := by
    intro other hother heq
    exact hother (Part.sectionName_inj (hname.symm.trans heq))
  unfold Conversion.convert
  rw [if_neg hne]
  cases part with
  | code => rw [if_pos hname]
  | initData => rw [if_neg (hdiffers .code (by decide)), if_pos hname]
  | readonlyData =>
      rw [if_neg (hdiffers .code (by decide)),
        if_neg (hdiffers .initData (by decide)), if_pos hname]

theorem convert_bss (hbss : sec.IsBss) :
    c.convert limit sec = (do
      let uninitData ← Conversion.mergeBss c.noffH.uninitData sec
      return { c with noffH := { c.noffH with uninitData := uninitData } }) := by
  obtain ⟨hne, hname⟩ := hbss
  have hdiffers : ∀ part : Part, sec.name ≠ part.sectionName :=
    fun part heq => part.sectionName_ne_bssName (heq.symm.trans hname)
  unfold Conversion.convert
  rw [if_neg hne, if_neg (hdiffers .code), if_neg (hdiffers .initData),
    if_neg (hdiffers .readonlyData), if_pos hname]

theorem convert_unknown (hne : sec.sSize ≠ 0)
    (hpart : ∀ part : Part, ¬sec.IsPart part) (hbss : ¬sec.IsBss) :
    c.convert limit sec = .error (.unknownSegment sec.name) := by
  have hdiffers : ∀ part : Part, sec.name ≠ part.sectionName :=
    fun part heq => hpart part ⟨hne, heq⟩
  unfold Conversion.convert
  rw [if_neg hne, if_neg (hdiffers .code), if_neg (hdiffers .initData),
    if_neg (hdiffers .readonlyData), if_neg fun heq => hbss ⟨hne, heq⟩]

/-- Where a section begins in the input. -/
def Conversion.start (c : Conversion) (sec : Scnhdr) : ℕ :=
  c.files.sought sec.sScnptr

/-- What is left of the files when a section has been copied. -/
def Conversion.copied (c : Conversion) (sec : Scnhdr) (part : Part) :
    Conversion where
  noffH := part.setField ⟨sec.sPaddr, c.inNoffFile, sec.sSize⟩ c.noffH
  inNoffFile := c.inNoffFile + sec.sSize
  files :=
    { input := c.files.input
      position := c.start sec + sec.bytes
      output := overwrite c.files.output c.files.outPosition
        ((c.files.input.drop (c.start sec)).take sec.bytes)
      outPosition := c.files.outPosition + sec.bytes }

/-- A section can be copied: it is in the input, and the output has room. -/
structure Conversion.CanCopy (limit : HostLimit) (c : Conversion)
    (sec : Scnhdr) : Prop where
  nonneg : 0 ≤ sec.sSize.toInt
  inside : c.start sec + sec.bytes ≤ c.files.input.length
  room : c.files.outPosition + sec.bytes ≤ limit.maxSize

theorem copySection_eq (hnonneg : 0 ≤ sec.sSize.toInt)
    (hinside : c.start sec + sec.bytes ≤ c.files.input.length) :
    c.copySection limit sec part =
      if limit.maxSize < c.files.outPosition + sec.bytes then
        .error .unableToWrite
      else .ok (c.copied sec part) := by
  have hread : (c.files.seekInput sec.sScnptr).read sec.sSize.toInt.toNat =
      .ok ((c.files.input.drop (c.start sec)).take sec.bytes,
        { c.files with position := c.start sec + sec.bytes }) :=
    @Files.read_ok (c.files.seekInput sec.sScnptr) _ hinside
  have hlength : ((c.files.input.drop (c.start sec)).take sec.bytes).length =
      sec.bytes := by
    rw [List.length_take, List.length_drop]
    omega
  unfold Conversion.copySection
  simp only [if_neg (not_lt.mpr hnonneg), hread, Files.write, hlength,
    bind, Except.bind]
  by_cases hroom : limit.maxSize < c.files.outPosition + sec.bytes
  · simp only [if_pos hroom]
  · simp only [if_neg hroom]
    rfl

theorem copySection_ok (hcan : c.CanCopy limit sec) :
    c.copySection limit sec part = .ok (c.copied sec part) := by
  rw [copySection_eq hcan.nonneg hcan.inside, if_neg (not_lt.mpr hcan.room)]

theorem canCopy_of_copySection {c' : Conversion} (hne : sec.sSize ≠ 0)
    (hok : c.copySection limit sec part = .ok c') :
    c.CanCopy limit sec ∧ c' = c.copied sec part := by
  have hnonneg : 0 ≤ sec.sSize.toInt := by
    by_contra hnegative
    unfold Conversion.copySection at hok
    simp only [if_pos (not_le.mp hnegative)] at hok
    cases hok
  have hinside : c.start sec + sec.bytes ≤ c.files.input.length := by
    by_contra houtside
    have hshort : (c.files.seekInput sec.sScnptr).read
        sec.sSize.toInt.toNat = .error .fileTooShort :=
      Files.read_short (Scnhdr.bytes_pos hne hnonneg) (not_le.mp houtside)
    unfold Conversion.copySection at hok
    simp only [if_neg (not_lt.mpr hnonneg), hshort] at hok
    cases hok
  rw [copySection_eq hnonneg hinside] at hok
  split_ifs at hok with hroom
  cases hok
  exact ⟨⟨hnonneg, hinside, not_lt.mp hroom⟩, rfl⟩

end Rounds

/-! ## The header at the end -/

section Written

variable {limit : HostLimit} {garbage noffH : NoffHeader}
variable {table : List Scnhdr} {files : Files}

theorem wordAt_eq_bytesWord (bytes : List (BitVec 8)) (i : ℕ) :
    NoffHeader.wordAt bytes i = bytesWord (bytes.drop i) := by
  unfold NoffHeader.wordAt bytesWord
  simp only [List.getD_eq_getElem?_getD, List.getElem?_drop, Nat.add_zero]

theorem wordAt_of_drop {bytes more : List (BitVec 8)} {i : ℕ}
    {word : BitVec 32} (hdrop : bytes.drop i = wordBytes word ++ more) :
    NoffHeader.wordAt bytes i = word := by
  rw [wordAt_eq_bytesWord, hdrop, bytesWord_append]

theorem segmentAt_of_drop {bytes more : List (BitVec 8)} {i : ℕ}
    {segment : Segment}
    (hdrop : bytes.drop i =
      (segmentWords segment).flatMap wordBytes ++ more) :
    NoffHeader.segmentAt bytes i = segment := by
  have hdrop₄ : bytes.drop (i + 4) = wordBytes segment.inFileAddr ++
      (wordBytes segment.size ++ more) := by
    rw [← List.drop_drop, hdrop]
    rfl
  have hdrop₈ : bytes.drop (i + 8) = wordBytes segment.size ++ more := by
    rw [← List.drop_drop, hdrop]
    rfl
  calc NoffHeader.segmentAt bytes i
      = ⟨NoffHeader.wordAt bytes i, NoffHeader.wordAt bytes (i + 4),
          NoffHeader.wordAt bytes (i + 8)⟩ := rfl
    _ = segment := by
        rw [@wordAt_of_drop bytes _ i segment.virtualAddr hdrop,
          wordAt_of_drop hdrop₄, wordAt_of_drop hdrop₈]

theorem ofBytes_headerBytes (noffH : NoffHeader) (rest : List (BitVec 8)) :
    NoffHeader.ofBytes (headerBytes noffH ++ rest) = noffH := by
  have hmagic : NoffHeader.wordAt (headerBytes noffH ++ rest) 0 =
      noffH.noffMagic := wordAt_of_drop rfl
  have hcode : NoffHeader.segmentAt (headerBytes noffH ++ rest) 4 =
      noffH.code := segmentAt_of_drop rfl
  have hinitData : NoffHeader.segmentAt (headerBytes noffH ++ rest) 16 =
      noffH.initData := segmentAt_of_drop rfl
  have hreadonlyData : NoffHeader.segmentAt (headerBytes noffH ++ rest) 28 =
      noffH.readonlyData := segmentAt_of_drop rfl
  have huninitData : NoffHeader.segmentAt (headerBytes noffH ++ rest) 40 =
      noffH.uninitData := segmentAt_of_drop rfl
  rw [NoffHeader.ofBytes, hmagic, hcode, hinitData, hreadonlyData,
    huninitData]

theorem length_headerBytes (noffH : NoffHeader) :
    (headerBytes noffH).length = noffHeaderSize := rfl

/-- The header that is written last goes over the gap. -/
theorem overwrite_headerBytes (noffH : NoffHeader)
    (output : List (BitVec 8)) :
    overwrite output 0 (headerBytes noffH) =
      headerBytes noffH ++ output.drop noffHeaderSize := by
  have hne : headerBytes noffH ≠ [] := List.cons_ne_nil _ _
  rw [overwrite, if_neg hne, Nat.zero_add, length_headerBytes]
  rfl

theorem convertSections_of_loop {c : Conversion}
    (hloop : table.foldlM (Conversion.convert limit)
      (.initial garbage files) = .ok c) :
    convertSections limit garbage table files =
      if limit.maxSize < noffHeaderSize then .error .unableToWrite
      else .ok (headerBytes c.noffH ++ c.files.output.drop noffHeaderSize) := by
  unfold convertSections
  simp only [hloop, bind, Except.bind]
  simp only [Files.write, Files.seekOutput, length_headerBytes,
    Nat.zero_add, overwrite_headerBytes]
  by_cases hroom : limit.maxSize < noffHeaderSize
  · simp only [if_pos hroom]
  · simp only [if_neg hroom]
    rfl

theorem convertSections_of_error {failure : Failure}
    (hloop : table.foldlM (Conversion.convert limit)
      (.initial garbage files) = .error failure) :
    convertSections limit garbage table files = .error failure := by
  unfold convertSections
  simp only [hloop, bind, Except.bind]

end Written

end Coff

end Nachos
