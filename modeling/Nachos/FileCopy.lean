import Nachos.FileHistory
import Nachos.FileSystem
import Nachos.Library.WhileLoop

/-!
# `Copy` and `Print` of `main.cc`

A file of the host is copied into the file system in small parts, of which the
host may deliver less than was asked for, and a file is printed in such parts.
-/

namespace Nachos.Filesys

open Library
open Scheduling (Disk)

/-- `TransferSize`. -/
def transferSize : ℕ := 128

/-! ## `Copy` -/

/-- What the loop of `Copy` works on.  The rounds are counted, because the
host answers in each of them, and `Write` has a new buffer. -/
structure CopyState where
  host : Host
  disk : Disk
  openFile : OpenedFile
  round : ℕ

/-- One round of the loop of `Copy`. -/
def copyRound (fd : ℕ) (answers : ℕ → HostAnswer) (fresh : ℕ → Block)
    (s : CopyState) : Except Fault (Bool × CopyState) := do
  let (amountRead, host) :=
    s.host.readPartial fd transferSize (answers s.round)
  if bytesCount amountRead > 0 then
    let buffer := amountRead.getD []
    let (_, disk, openFile) ← s.openFile.write s.disk (fresh s.round)
      (.ofList buffer) (bytesCount amountRead)
    return (true, ⟨host, disk, openFile, s.round + 1⟩)
  else
    return (false, { s with host := host })

/-- `Copy(from, to)`, without the deletion of the object `openFile`; `none`
when the loop needs more fuel. -/
def copy (h : Host) (fs : FileSystem) (source target : CString)
    (answers : ℕ → HostAnswer) (fresh : ℕ → Block) (heap : ℕ → Heap)
    (fuel : ℕ) : Except Fault (Option (Host × FileSystem)) := do
  match h.openForReadWrite source with
  | none => return some (h, fs)
  | some (fd, h) =>
      let h ← h.lseekEnd fd
      let fileLength := h.tell fd
      let h ← h.lseek fd 0
      let (created, fs) ← fs.create target fileLength (heap 0)
      if ¬created then
        let h ← h.close fd
        return some (h, fs)
      else
        match ← fs.open target (heap 1) with
        | none => .error .abort
        | some openFile =>
            match ← whileLoop (copyRound fd answers fresh) fuel
                ⟨h, fs.disk, openFile, 0⟩ with
            | none => return none
            | some s =>
                let h ← s.host.close fd
                return some (h, { fs with disk := s.disk })

/-! ## `Print` -/

structure PrintState where
  openFile : OpenedFile
  buffer : Block
  output : List (BitVec 8)
  round : ℕ

/-- One round of the loop of `Print`. -/
def printRound (disk : Disk) (fresh : ℕ → Block) (s : PrintState) :
    Except Fault (Bool × PrintState) := do
  let (amountRead, buffer, openFile) ← s.openFile.read disk (fresh s.round)
    s.buffer transferSize
  if amountRead > 0 then
    return (true, ⟨openFile, buffer, s.output ++ firstBytes buffer amountRead,
      s.round + 1⟩)
  else
    return (false, { s with openFile := openFile, buffer := buffer })

/-- What `Print` prints: that it is unable to open the file, or the file. -/
inductive Printed
  | unable
  | bytes (output : List (BitVec 8))
  deriving DecidableEq

/-- `Print(name)`, without the deletion of the object `openFile`; `none` when
the loop needs more fuel. -/
def print (fs : FileSystem) (name : CString) (fresh : ℕ → Block)
    (buffer : Block) (heap : Heap) (fuel : ℕ) :
    Except Fault (Option Printed) := do
  match ← fs.open name heap with
  | none => return some .unable
  | some openFile =>
      match ← whileLoop (printRound fs.disk fresh) fuel
          ⟨openFile, buffer, [], 0⟩ with
      | none => return none
      | some s => return some (.bytes s.output)

/-! ## A file that is open besides those of a session -/

section Opening

variable {s : Session} {name : CString} {f : OpenedFile}

def Session.withFile (s : Session) (name : CString) (f : OpenedFile) :
    Session :=
  { s with opened := s.opened ++ [some (name, f)] }

theorem Session.getElem?_withFile (s : Session) (name : CString)
    (f : OpenedFile) :
    (s.withFile name f).opened[s.opened.length]? = some (some (name, f)) := by
  simp [withFile]

theorem Faithful.withFile
    (hfaithful : Faithful s)
    (hheader : HasHeader s.fs.disk name f.file.hdr) :
    Faithful (s.withFile name f) := by
  refine ⟨hfaithful.intact, ?_⟩
  intro other g hg
  obtain hold | hnew := List.mem_append.mp hg
  · exact hfaithful.headers other g hold
  · cases List.mem_singleton.mp hnew
    exact hheader

theorem Faithful.of_withFile (hfaithful : Faithful (s.withFile name f)) :
    Faithful s :=
  ⟨hfaithful.intact, fun other g hg =>
    hfaithful.headers other g (List.mem_append_left _ hg)⟩

theorem Faithful.lookup_withFile (hfaithful : Faithful (s.withFile name f)) :
    (filesOn s.fs.disk).lookup name =
      some (f.file.hdr.contents s.fs.disk) := by
  obtain ⟨-, -, -, -, -, hstore⟩ :=
    hfaithful.file (s.getElem?_withFile name f)
  exact FileStore.file_spec hstore

/-- A file is not longer than a header can list. -/
theorem Faithful.length_le (hfaithful : Faithful (s.withFile name f)) :
    (f.file.hdr.contents s.fs.disk).length ≤ maxFileSize := by
  have hfile :=
    (hfaithful.isSized (s.getElem?_withFile name f)).toIsFile
  have hdirect := hfile.direct
  rw [hfile.numSectors] at hdirect
  have hsize := FileHeader.divRoundUpInt_le_numDirect_iff.mp hdirect
  rw [FileHeader.length_contents]
  omega

end Opening

/-! ## What `Print` prints -/

section Print

variable {s : Session} {name : CString}

/-- What is to be printed of a file, or that there is none. -/
def printedOf : Option (List (BitVec 8)) → Printed
  | none => .unable
  | some bytes => .bytes bytes

/-- What holds between the rounds of `Print`. -/
structure Printing (s : Session) (name : CString) (file : OpenFile)
    (bytes : List (BitVec 8)) (p : PrintState) : Prop where
  faithful : Faithful (s.withFile name p.openFile)
  file : p.openFile.file = file
  within : p.openFile.seekPosition ≤ bytes.length
  output : p.output = bytes.take p.openFile.seekPosition

theorem Printing.round
    {file : OpenFile} {p : PrintState}
    (hprinting : Printing s name file (file.hdr.contents s.fs.disk) p)
    (fresh : ℕ → Block) :
    (∃ p', printRound s.fs.disk fresh p = .ok (true, p') ∧
      Printing s name file (file.hdr.contents s.fs.disk) p' ∧
      (file.hdr.contents s.fs.disk).length - p'.openFile.seekPosition <
        (file.hdr.contents s.fs.disk).length - p.openFile.seekPosition) ∨
    ∃ p', printRound s.fs.disk fresh p = .ok (false, p') ∧
      p'.output = file.hdr.contents s.fs.disk := by
  obtain ⟨hfaithful, hfile, hwithin, houtput⟩ := hprinting
  have hopen := s.getElem?_withFile name p.openFile
  obtain ⟨buffer, hread, hfirst⟩ :=
    hfaithful.readFile (fresh p.round) p.buffer hopen transferSize
  simp only [Session.withFile, hfile] at hread hfirst
  generalize file.hdr.contents s.fs.disk = bytes at *
  have hlength :=
    @length_readable p.openFile.seekPosition transferSize bytes
  have hsize : transferSize = 128 := rfl
  simp only [printRound, hread, ok_bind]
  by_cases hmore : p.openFile.seekPosition < bytes.length
  · have hpos : ((FileStore.readable bytes transferSize
        p.openFile.seekPosition).length : ℤ) > 0 := by
      omega
    rw [if_pos hpos]
    refine .inl ⟨_, rfl, ?_, ?_⟩
    · constructor
      case faithful =>
        apply hfaithful.of_withFile.withFile
        exact hfaithful.headers name p.openFile (List.mem_of_getElem? hopen)
      case file => exact hfile
      case within =>
        simp only [OpenedFile.seek]
        omega
      case output =>
        simp only [OpenedFile.seek, hfirst, houtput]
        exact take_append_take_drop _ _ _
    · simp only [OpenedFile.seek]
      omega
  · have hzero : ¬((FileStore.readable bytes transferSize
        p.openFile.seekPosition).length : ℤ) > 0 := by
      omega
    rw [if_neg hzero]
    refine .inr ⟨_, rfl, ?_⟩
    exact houtput.trans (List.take_of_length_le (by omega))

/-- `Print` prints a file as a whole. -/
theorem print_spec
    (hfaithful : Faithful s) (hname : IsName name) (fresh : ℕ → Block)
    (buffer : Block) (heap : Heap) {fuel : ℕ} (hfuel : maxFileSize < fuel) :
    print s.fs name fresh buffer heap fuel =
      .ok (some (printedOf ((filesOn s.fs.disk).lookup name))) := by
  obtain ⟨e, he, rfl, hopen⟩ | ⟨habsent, hopen⟩ :=
    open_spec hfaithful.intact.sound hname heap
  · have hopened := hfaithful.withFile
      (f := ⟨⟨FileHeader.onDisk s.fs.disk e.sector.toInt⟩, 0⟩)
      ⟨e, he, rfl, rfl⟩
    have hlength : (fileBytes s.fs.disk e).length ≤ maxFileSize :=
      hopened.length_le
    have hbegin : Printing s e.fileName
        ⟨FileHeader.onDisk s.fs.disk e.sector.toInt⟩ (fileBytes s.fs.disk e)
        ⟨⟨⟨FileHeader.onDisk s.fs.disk e.sector.toInt⟩, 0⟩, buffer, [], 0⟩ :=
      ⟨hopened, rfl, Nat.zero_le _, rfl⟩
    have hrank : (fileBytes s.fs.disk e).length - 0 < fuel := by omega
    obtain ⟨last, hloop, houtput⟩ := whileLoop_spec _
      (fun p => (fileBytes s.fs.disk e).length - p.openFile.seekPosition)
      (fun p => p.output = fileBytes s.fs.disk e)
      (fun p hprinting => hprinting.round fresh) hbegin hrank
    rw [print, hopen, ok_bind, lookup_filesOn_of_mem hfaithful.intact.names he]
    simp only [hloop, ok_bind, houtput]
    rfl
  · have hnone : (filesOn s.fs.disk).lookup name = none :=
      Finmap.lookup_eq_none.mpr
        ((mem_filesOn hfaithful.intact.names).not.mpr habsent)
    rw [print, hopen, hnone]
    rfl

end Print

/-! ## What `Copy` stores -/

section Copy

variable {s : Session} {target : CString} {files : Files}
variable {h : Host} {fd inode : ℕ} {old bytes : List (BitVec 8)}

theorem firstBytes_ofList (bytes : List (BitVec 8)) :
    firstBytes (.ofList bytes) bytes.length = bytes := by
  apply List.ext_getElem?
  intro i
  by_cases hi : i < bytes.length
  · simp [firstBytes, hi, Block.ofList]
  · rw [List.getElem?_eq_none (by rw [length_firstBytes]; omega),
      List.getElem?_eq_none (by omega)]

/-- The session, with the disk of a copy. -/
def Session.copying (s : Session) (target : CString) (c : CopyState) :
    Session :=
  (s.setDisk c.disk).withFile target c.openFile

theorem Session.copying_written
    (s : Session) (target : CString) (c c' : CopyState) :
    ((s.copying target c).setDisk c'.disk).setFile s.opened.length
        (some (target, c'.openFile)) = s.copying target c' := by
  simp [copying, setDisk, setFile, withFile]

/-- What holds between the rounds of `Copy`: the target begins with what has
been read. -/
structure Copying (s : Session) (target : CString) (files : Files) (h : Host)
    (fd inode : ℕ) (old : List (BitVec 8)) (c : CopyState) : Prop where
  faithful : Faithful (s.copying target c)
  files : filesOn c.disk = files.insert target
    (splice old 0 ((h.contents inode).take c.openFile.seekPosition))
  within : c.openFile.seekPosition ≤ (h.contents inode).length
  file : c.host.file fd = some ⟨inode, c.openFile.seekPosition⟩
  contents : c.host.contents = h.contents
  directory : c.host.directory = h.directory

theorem Copying.round
    {c : CopyState} (hcopying : Copying s target files h fd inode old c)
    (hold : old.length = (h.contents inode).length)
    {answers : ℕ → HostAnswer}
    (hanswers : ∀ round, ∃ limit, answers round = some limit ∧ 0 < limit)
    (fresh : ℕ → Block) :
    (∃ c', copyRound fd answers fresh c = .ok (true, c') ∧
      Copying s target files h fd inode old c' ∧
      (h.contents inode).length - c'.openFile.seekPosition <
        (h.contents inode).length - c.openFile.seekPosition) ∨
    ∃ c', copyRound fd answers fresh c = .ok (false, c') ∧
      Copying s target files h fd inode old c' ∧
      c'.openFile.seekPosition = (h.contents inode).length := by
  obtain ⟨hfaithful, hfiles, hwithin, hfile, hcontents, hdirectory⟩ :=
    hcopying
  obtain ⟨limit, hanswer, hlimit⟩ := hanswers c.round
  have hopen := (s.setDisk c.disk).getElem?_withFile target c.openFile
  have hsize : transferSize = 128 := rfl
  generalize hbytes : h.contents inode = bytes at *
  have hremaining := Host.remaining_eq hfile
  simp only [hcontents, hbytes] at hremaining
  have hread := Host.readPartial_eq hfile transferSize limit
  rw [hremaining] at hread
  generalize hchunk : (bytes.drop c.openFile.seekPosition).take
    (min transferSize limit) = chunk at hread
  have hlength : chunk.length =
      min (min transferSize limit) (bytes.length - c.openFile.seekPosition) :=
    by rw [← hchunk, List.length_take, List.length_drop]
  simp only [copyRound, hanswer, hread, bytesCount, Option.getD_some]
  by_cases hmore : c.openFile.seekPosition < bytes.length
  · have hpos : (chunk.length : ℤ) > 0 := by omega
    have hbegin : (bytes.take c.openFile.seekPosition).length =
        c.openFile.seekPosition := by
      rw [List.length_take]
      omega
    -- the target, as far as it has been written
    have hheld : c.openFile.file.hdr.contents c.disk =
        splice old 0 (bytes.take c.openFile.seekPosition) := by
      have hlookup := hfaithful.lookup_withFile
      change (filesOn c.disk).lookup target = _ at hlookup
      rw [hfiles, Finmap.lookup_insert] at hlookup
      exact (Option.some.inj hlookup).symm
    have hroom : (splice old 0
        (bytes.take c.openFile.seekPosition)).length = bytes.length := by
      rw [length_splice (by omega), hold]
    have hfitting : FileStore.fitting
        (splice old 0 (bytes.take c.openFile.seekPosition)) chunk
          c.openFile.seekPosition = chunk := by
      rw [FileStore.fitting, hroom]
      exact List.take_of_length_le (by omega)
    have hcount : chunk.length = (FileStore.fitting
        (c.openFile.file.hdr.contents c.disk)
        (firstBytes (.ofList chunk) chunk.length)
          c.openFile.seekPosition).length := by
      rw [firstBytes_ofList, hheld, hfitting]
    obtain ⟨disk', hwrite, hafter, hstore⟩ :=
      hfaithful.writeFile (fresh c.round) (.ofList chunk) hopen chunk.length
        hcount
    have hfiles' := congrArg FileStore.files hstore
    change filesOn disk' = (filesOn c.disk).insert target
      (splice (c.openFile.file.hdr.contents c.disk) c.openFile.seekPosition
        (FileStore.fitting (c.openFile.file.hdr.contents c.disk)
          (firstBytes (.ofList chunk) chunk.length)
            c.openFile.seekPosition)) at hfiles'
    rw [firstBytes_ofList, hheld, hfitting, hfiles, Finmap.insert_insert]
      at hfiles'
    change c.openFile.write c.disk _ _ _ = _ at hwrite
    simp only [hpos, if_true, hwrite, ok_bind]
    refine .inl ⟨_, rfl, ?_, ?_⟩
    · constructor
      case faithful =>
        rw [← s.copying_written target c]
        exact hafter
      case files =>
        have hsplice := @splice_splice _ old 0
          (bytes.take c.openFile.seekPosition) chunk (by omega)
        rw [Nat.zero_add, hbegin] at hsplice
        simp only [hfiles', hsplice, hbytes, OpenedFile.seek]
        rw [← hchunk, take_append_take_drop]
      case within =>
        simp only [OpenedFile.seek, hbytes]
        omega
      case file =>
        rw [Host.file_setFile_self hfile]
        rfl
      case contents => exact hcontents
      case directory => exact hdirectory
    · simp only [OpenedFile.seek]
      omega
  · have hzero : ¬(chunk.length : ℤ) > 0 := by omega
    simp only [hzero, if_false]
    refine .inr ⟨_, rfl, ?_, ?_⟩
    · constructor
      case faithful => exact hfaithful
      case files => rwa [hbytes]
      case within => rwa [hbytes]
      case file =>
        have hnone : chunk.length = 0 := by omega
        rw [Host.file_setFile_self hfile, hnone]
        rfl
      case contents => exact hcontents
      case directory => exact hdirectory
    · change c.openFile.seekPosition = bytes.length
      omega

/-- What `Copy` does with the file of the host before it reads it. -/
theorem openSource_spec
    {source : CString} (hsource : h.directory source = some inode) :
    ∃ fd h₁ h₂ h₃, h.openForReadWrite source = some (fd, h₁) ∧
      h₁.lseekEnd fd = .ok h₂ ∧ h₂.tell fd = (h.contents inode).length ∧
      h₂.lseek fd 0 = .ok h₃ ∧ h₃.file fd = some ⟨inode, 0⟩ ∧
      h₃.contents = h.contents ∧ h₃.directory = h.directory := by
  obtain ⟨h₁, hafter⟩ : ∃ h₁ : Host,
      h₁ = { h with files := h.files ++ [some ⟨inode, 0⟩] } := ⟨_, rfl⟩
  have hopen : h.openForReadWrite source = some (h.files.length, h₁) := by
    rw [Host.openForReadWrite, hsource, hafter]
    rfl
  have hfile : h₁.file h.files.length = some ⟨inode, 0⟩ := by
    rw [hafter]
    simp [Host.file]
  have hcontents : h₁.contents = h.contents := by rw [hafter]
  have hdirectory : h₁.directory = h.directory := by rw [hafter]
  have hfile' := Host.file_setFile_self hfile
    (some ⟨inode, (h.contents inode).length⟩)
  refine ⟨h.files.length, h₁, h₁.setFile h.files.length
    (some ⟨inode, (h.contents inode).length⟩), _, hopen, ?_,
    Host.tell_eq hfile', ?_, Host.file_setFile_self hfile' _, hcontents,
    hdirectory⟩
  · simp only [Host.lseekEnd, hfile, hcontents]
  · simp only [Host.lseek, hfile']
    rfl

theorem close_spec {f : HostFile} (hfile : h.file fd = some f) :
    ∃ h', h.close fd = .ok h' ∧ h'.contents = h.contents ∧
      h'.directory = h.directory := by
  refine ⟨h.setFile fd none, ?_, rfl, rfl⟩
  simp only [Host.close, hfile]

/-- `Copy` makes a file with the contents of that of the host, if there is
space for it, and else it changes nothing. -/
theorem copy_spec
    (hfaithful : Faithful s) (hname : IsName target) {source : CString}
    (hsource : h.directory source = some inode)
    (hsize : (h.contents inode).length ≤ maxFileSize)
    {answers : ℕ → HostAnswer}
    (hanswers : ∀ round, ∃ limit, answers round = some limit ∧ 0 < limit)
    (fresh : ℕ → Block) (heap : ℕ → Heap) {fuel : ℕ}
    (hfuel : maxFileSize < fuel) :
    ∃ h' fs', copy h s.fs source target answers fresh heap fuel =
        .ok (some (h', fs')) ∧
      h'.contents = h.contents ∧ h'.directory = h.directory ∧
      Faithful { s with fs := fs' } ∧
      filesOn fs'.disk =
        if FileStore.CanCreate (filesOn s.fs.disk) target
            (h.contents inode).length then
          (filesOn s.fs.disk).insert target (h.contents inode)
        else filesOn s.fs.disk := by
  obtain ⟨fd, h₁, h₂, h₃, hopen, hend, htell, hseek, hfile, hcontents,
    hdirectory⟩ := openSource_spec hsource
  simp only [copy, hopen, hend, ok_bind, htell, hseek]
  obtain ⟨hcannot, hcreate⟩ | ⟨hcan, fs₁, old, hcreate, hold, hintact, hfiles,
    hheaders⟩ := hfaithful.intact.create hname hsize (heap 0)
  · rw [if_neg hcannot]
    obtain ⟨h₄, hclose, hcontents', hdirectory'⟩ := close_spec hfile
    simp only [hcreate, ok_bind, Bool.false_eq_true, not_false_eq_true,
      if_true, hclose]
    exact ⟨h₄, s.fs, rfl, hcontents'.trans hcontents,
      hdirectory'.trans hdirectory, hfaithful, rfl⟩
  · rw [if_pos hcan]
    have hcreated : Faithful { s with fs := fs₁ } :=
      ⟨hintact, fun other g hg => hheaders other _
        (hfaithful.headers other g hg)⟩
    have hlookup : (filesOn fs₁.disk).lookup target = some old := by
      rw [hfiles, Finmap.lookup_insert]
    obtain ⟨e, he, rfl, hopenFile⟩ | ⟨habsent, -⟩ :=
      open_spec hintact.sound hname (heap 1)
    · have hbegin : Copying { s with fs := fs₁ } e.fileName
          (filesOn s.fs.disk) h fd inode old ⟨h₃, fs₁.disk,
            ⟨⟨FileHeader.onDisk fs₁.disk e.sector.toInt⟩, 0⟩, 0⟩ := by
        constructor
        case faithful => exact hcreated.withFile ⟨e, he, rfl, rfl⟩
        case files => rw [hfiles, List.take_zero, splice_nil]
        case within => exact Nat.zero_le _
        case file => exact hfile
        case contents => exact hcontents
        case directory => exact hdirectory
      have hrank : (h.contents inode).length - 0 < fuel := by omega
      obtain ⟨last, hloop, hlast, hposition⟩ := whileLoop_spec _
        (fun c => (h.contents inode).length - c.openFile.seekPosition) _
        (fun c hcopying => hcopying.round hold hanswers fresh) hbegin hrank
      obtain ⟨h₄, hclose, hcontents', hdirectory'⟩ := close_spec hlast.file
      simp only [hcreate, hopenFile, hloop, ok_bind, not_true_eq_false,
        if_false, hclose]
      refine ⟨h₄, { fs₁ with disk := last.disk }, rfl,
        hcontents'.trans hlast.contents, hdirectory'.trans hlast.directory,
        hlast.faithful.of_withFile, ?_⟩
      have hstored := hlast.files
      rw [hposition, List.take_length, splice_all hold.symm] at hstored
      exact hstored
    · have hmem : target ∈ filesOn fs₁.disk :=
        Finmap.mem_iff.mpr ⟨old, hlookup⟩
      exact (habsent ((mem_filesOn hintact.names).mp hmem)).elim

end Copy

/-! ## Copying and printing in a session -/

end Nachos.Filesys
