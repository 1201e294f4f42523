import Mathlib.Data.List.TakeWhile
import Nachos.DiskAllocation

/-!
# `directory.cc`

A table of entries with a name and the sector of a header.  It is read from a
file as a whole and written back as a whole.
-/

namespace Nachos.Filesys

open Library
open Scheduling (Disk sectorSize)

/-! ## Strings -/

/-- `strncmp(s, t, n)`. -/
def strncmp : List (BitVec 8) → List (BitVec 8) → ℕ → ℤ
  | _, _, 0 => 0
  | s, t, n + 1 =>
      if s.headD 0 ≠ t.headD 0 then (s.headD 0).toNat - (t.headD 0).toNat
      else if s.headD 0 = 0 then 0
      else strncmp s.tail t.tail n

/-- `strncpy(target, source, count)`. -/
def strncpy {n count : ℕ} (target : Buffer n) (source : CString)
    (hfits : count ≤ n) : Buffer n :=
  ⟨(source ++ List.replicate count 0).take count ++ target.val.drop count, by
    simp [target.property]
    omega⟩

theorem cString_cons (c : BitVec 8) (s : List (BitVec 8)) :
    cString (c :: s) = if c = 0 then [] else c :: cString s := by
  rw [cString, List.takeWhile_cons]
  by_cases hzero : c = 0
  · simp [hzero]
  · have htest : decide (c ≠ 0) = true := decide_eq_true hzero
    rw [htest, if_neg hzero]
    rfl

/-- `strncmp` compares the strings up to a number of characters. -/
theorem strncmp_eq_zero {s t : List (BitVec 8)} {n : ℕ} :
    strncmp s t n = 0 ↔ cString (s.take n) = cString (t.take n) := by
  induction n generalizing s t with
  | zero => simp [strncmp]
  | succ n ih =>
      have hhead : ∀ s : List (BitVec 8), cString (s.take (n + 1)) =
          if s.headD 0 = 0 then []
          else s.headD 0 :: cString (s.tail.take n) := by
        intro s
        cases s with
        | nil => rfl
        | cons c s => exact cString_cons c (s.take n)
      have hvalue : (((s.headD 0).toNat : ℤ) - (t.headD 0).toNat = 0) ↔
          s.headD 0 = t.headD 0 := by
        rw [← BitVec.toNat_inj]
        omega
      rw [hhead s, hhead t, strncmp]
      generalize s.headD 0 = c at hvalue
      generalize t.headD 0 = d at hvalue
      by_cases heq : c = d
      · subst heq
        rw [if_neg (not_not.mpr rfl)]
        by_cases hzero : c = 0
        · simp [hzero]
        · rw [if_neg hzero, if_neg hzero, if_neg hzero, ih]
          simp
      · rw [if_pos heq, hvalue]
        split_ifs with hc hd hd
        · exact (heq (hc.trans hd.symm)).elim
        · simp [heq]
        · simp [heq]
        · simp [heq]

/-! ## `class DirectoryEntry` -/

/-- `FileNameMaxLen`. -/
def fileNameMaxLen : ℕ := 9

/-- An entry, with the bytes that keep its members aligned. -/
structure DirectoryEntry where
  inUse : Bool
  padding : Buffer 3
  sector : BitVec 32
  name : Buffer (fileNameMaxLen + 1)
  rest : Buffer 2
  deriving DecidableEq

/-- `sizeof(DirectoryEntry)`. -/
def entrySize : ℕ := 20

namespace DirectoryEntry

def bytes (e : DirectoryEntry) : List (BitVec 8) :=
  [if e.inUse then 1 else 0] ++ e.padding.val ++ wordBytes e.sector ++
    e.name.val ++ e.rest.val

def ofBytes (b : Block) : DirectoryEntry where
  inUse := b 0 ≠ 0
  padding := b.chars 1 3
  sector := b.word 4
  name := b.chars 8 (fileNameMaxLen + 1)
  rest := b.chars 18 2

/-- The condition of `FindIndex`. -/
def hasName (e : DirectoryEntry) (name : CString) : Bool :=
  e.inUse && strncmp e.name.val name fileNameMaxLen = 0

/-- What `Add` does to a free entry. -/
def fill (e : DirectoryEntry) (name : CString) (newSector : ℤ) :
    DirectoryEntry :=
  { e with
    inUse := true
    name := strncpy e.name name (Nat.le_succ fileNameMaxLen)
    sector := .ofInt 32 newSector }

/-- What `Remove` does to an entry. -/
def release (e : DirectoryEntry) : DirectoryEntry :=
  { e with inUse := false }

end DirectoryEntry

/-! ## `class Directory` -/

structure Directory where
  table : List DirectoryEntry
  deriving DecidableEq

namespace Directory

/-- `Directory::Directory(size)`: the new table holds `fresh`. -/
def new (fresh : ℕ → DirectoryEntry) (size : ℕ) : Directory where
  table := (List.range size).map fun i => (fresh i).release

/-- `(char *)table`. -/
def bytes (directory : Directory) : Block :=
  fun a => ((directory.table[a / entrySize]?).map fun e =>
    Block.ofList e.bytes (a % entrySize)).getD 0

/-- The entries that are in memory. -/
def ofBytes (b : Block) (tableSize : ℕ) : Directory where
  table := (List.range tableSize).map fun i =>
    .ofBytes fun a => b (entrySize * i + a)

/-- `tableSize * sizeof(DirectoryEntry)`. -/
def size (directory : Directory) : ℤ :=
  directory.table.length * entrySize

/-- `Directory::FetchFrom`. -/
def fetchFrom (directory : Directory) (file : OpenFile) (disk : Disk)
    (fresh : Block) : Except Fault Directory := do
  let (_, table) ← file.readAt disk fresh directory.bytes 0 directory.size 0
  return ofBytes table directory.table.length

/-- `Directory::WriteBack`. -/
def writeBack (directory : Directory) (file : OpenFile) (disk : Disk)
    (fresh : Block) : Except Fault Disk := do
  let (_, disk) ← file.writeAt disk fresh directory.bytes directory.size 0
  return disk

/-- `Directory::FindIndex`, with `none` for -1. -/
def findIndex (directory : Directory) (name : CString) : Option ℕ :=
  directory.table.findIdx? (·.hasName name)

/-- `Directory::Find`. -/
def find (directory : Directory) (name : CString) : ℤ :=
  match directory.findIndex name with
  | some i => ((directory.table[i]?).map fun e => e.sector.toInt).getD (-1)
  | none => -1

/-- `Directory::Add`. -/
def add (directory : Directory) (name : CString) (newSector : ℤ) :
    Bool × Directory :=
  if (directory.findIndex name).isSome then (false, directory)
  else
    match directory.table.findIdx? (!·.inUse) with
    | some i => (true, ⟨directory.table.modify i (·.fill name newSector)⟩)
    | none => (false, directory)

/-- `Directory::Remove`. -/
def remove (directory : Directory) (name : CString) : Bool × Directory :=
  match directory.findIndex name with
  | some i => (true, ⟨directory.table.modify i (·.release)⟩)
  | none => (false, directory)

end Directory

/-! ## A table on the disk -/

/-- A word of a list that has been put into memory. -/
theorem word_ofList
    {before after : List (BitVec 8)} (w : BitVec 32) :
    (Block.ofList (before ++ wordBytes w ++ after)).word before.length =
      w := by
  have hbyte : ∀ j (b : BitVec 8), (wordBytes w)[j]? = some b →
      Block.ofList (before ++ wordBytes w ++ after) (before.length + j) =
        b := by
    intro j b hb
    obtain ⟨hlt, -⟩ := List.getElem?_eq_some_iff.mp hb
    rw [Block.ofList, List.getD_eq_getElem?_getD, List.append_assoc,
      List.getElem?_append_right (by omega), Nat.add_sub_cancel_left,
      List.getElem?_append_left hlt, hb]
    rfl
  have h0 := hbyte 0 _ rfl
  rw [Nat.add_zero] at h0
  rw [Block.word, h0, hbyte 1 _ rfl, hbyte 2 _ rfl, hbyte 3 _ rfl]
  have hword := bytesWord_append w []
  rwa [List.append_nil] at hword

namespace DirectoryEntry

theorem length_bytes (e : DirectoryEntry) : e.bytes.length = entrySize := by
  simp [bytes, e.padding.property, e.name.property, e.rest.property,
    wordBytes, fileNameMaxLen, entrySize]

@[simp] theorem ofBytes_bytes (e : DirectoryEntry) :
    ofBytes (.ofList e.bytes) = e := by
  obtain ⟨inUse, ⟨padding, hpadding⟩, sector, ⟨name, hname⟩, rest, hrest⟩ := e
  have hlength : ([if inUse then 1 else 0] ++ padding :
      List (BitVec 8)).length = 4 := by
    simp [hpadding]
  have hlength' : ([if inUse then 1 else 0] ++ padding ++ wordBytes sector :
      List (BitVec 8)).length = 8 := by
    rw [List.length_append, hlength]
    rfl
  have hlength'' : ([if inUse then 1 else 0] ++ padding ++
      wordBytes sector ++ name : List (BitVec 8)).length = 18 := by
    rw [List.length_append, hlength', hname]
    rfl
  have hinUse : decide (Block.ofList (bytes ⟨inUse, ⟨padding, hpadding⟩,
      sector, ⟨name, hname⟩, ⟨rest, hrest⟩⟩) 0 ≠ 0) = inUse := by
    cases inUse <;> rfl
  have hpart := @Block.chars_ofList [if inUse then 1 else 0]
    (wordBytes sector ++ name ++ rest) 3 ⟨padding, hpadding⟩
  have hword := @word_ofList ([if inUse then 1 else 0] ++ padding)
    (name ++ rest) sector
  have hpart' := @Block.chars_ofList
    ([if inUse then 1 else 0] ++ padding ++ wordBytes sector) rest
    (fileNameMaxLen + 1) ⟨name, hname⟩
  have hpart'' := @Block.chars_ofList
    ([if inUse then 1 else 0] ++ padding ++ wordBytes sector ++ name) [] 2
    ⟨rest, hrest⟩
  rw [hlength] at hword
  rw [hlength'] at hpart'
  rw [hlength'', List.append_nil] at hpart''
  simp only [← List.append_assoc] at hpart hword hpart' hpart''
  simp only [ofBytes, DirectoryEntry.mk.injEq]
  exact ⟨hinUse, hpart, hword, hpart', hpart''⟩

theorem chars_congr {b b' : Block} {i n : ℕ}
    (hsame : ∀ a, i ≤ a → a < i + n → b a = b' a) :
    b.chars i n = b'.chars i n := by
  apply Subtype.ext
  apply List.map_congr_left
  intro j hj
  have hlt : j < n := List.mem_range.mp hj
  exact hsame (i + j) (by omega) (by omega)

theorem ofBytes_congr {b b' : Block}
    (hsame : ∀ a < entrySize, b a = b' a) : ofBytes b = ofBytes b' := by
  unfold entrySize at hsame
  have hword : b.word 4 = b'.word 4 :=
    Block.word_congr fun j hj => hsame (4 + j) (by omega)
  simp only [ofBytes, DirectoryEntry.mk.injEq]
  refine ⟨?_, chars_congr fun a _ ha => hsame a (by omega), hword,
    chars_congr fun a _ ha => hsame a ?_,
    chars_congr fun a _ ha => hsame a (by omega)⟩
  · rw [hsame 0 (by decide)]
  · unfold fileNameMaxLen at ha
    omega

end DirectoryEntry

/-- `NumDirEntries`. -/
def numDirEntries : ℕ := 10

/-- The table that the file of the directory holds. -/
def FileHeader.directory (hdr : FileHeader) (disk : Disk) : Directory :=
  .ofBytes (hdr.content disk) numDirEntries

/-- The file has the size of the directory. -/
structure FileHeader.HoldsTable (hdr : FileHeader) : Prop where
  valid : hdr.Valid
  nodup : hdr.sectors.Nodup
  length : hdr.fileLength = (numDirEntries * entrySize : ℕ)

namespace Directory

variable {directory : Directory} {file : OpenFile} {disk : Disk}
variable {fresh : Block}

theorem ofBytes_congr {b b' : Block} {n : ℕ}
    (hsame : ∀ a < n * entrySize, b a = b' a) : ofBytes b n = ofBytes b' n := by
  simp only [ofBytes, Directory.mk.injEq]
  apply List.map_congr_left
  intro i hi
  have hlt : i < n := List.mem_range.mp hi
  apply DirectoryEntry.ofBytes_congr
  intro a ha
  apply hsame
  unfold entrySize at *
  omega

@[simp] theorem ofBytes_bytes (directory : Directory) :
    ofBytes directory.bytes directory.table.length = directory := by
  obtain ⟨table⟩ := directory
  simp only [ofBytes, Directory.mk.injEq]
  apply List.ext_getElem
  · simp
  · intro i h₁ hlt
    rw [List.getElem_map, List.getElem_range,
      ← DirectoryEntry.ofBytes_bytes table[i]]
    apply DirectoryEntry.ofBytes_congr
    intro a ha
    have hdiv : (entrySize * i + a) / entrySize = i := by
      unfold entrySize at *
      omega
    have hmod : (entrySize * i + a) % entrySize = a := by
      unfold entrySize at *
      omega
    have hget : table[i]? = some table[i] := List.getElem?_eq_getElem hlt
    simp only [bytes, hdiv, hmod, hget]
    rfl

theorem length_directory (hdr : FileHeader) (disk : Disk) :
    (hdr.directory disk).table.length = numDirEntries := by
  simp [FileHeader.directory, ofBytes]

theorem size_table (hlength : directory.table.length = numDirEntries) :
    directory.size = 200 := by
  rw [size, hlength]
  rfl

theorem clamp_table (htable : file.hdr.HoldsTable) :
    (file.clamp 200 0).toNat = numDirEntries * entrySize := by
  rw [OpenFile.clamp, htable.length]
  rfl

theorem fetchFrom_spec
    (htable : file.hdr.HoldsTable) (hidle : disk.active = false)
    (hlength : directory.table.length = numDirEntries) :
    directory.fetchFrom file disk fresh = .ok (file.hdr.directory disk) := by
  have hposition : ((0 : ℕ) : ℤ) < file.hdr.fileLength := by
    rw [htable.length]
    decide
  have hread : file.readAt disk fresh directory.bytes 0 200 0 = _ :=
    OpenFile.readAt_spec htable.valid hidle (by decide) hposition
  rw [clamp_table htable] at hread
  rw [fetchFrom, size_table hlength, hread, ok_bind, hlength]
  refine congrArg Except.ok (ofBytes_congr ?_)
  intro a ha
  rw [Block.copy_apply, if_pos ⟨Nat.zero_le a, by omega⟩, Nat.sub_zero,
    Nat.zero_add, Nat.zero_add]

theorem writeBack_spec
    (htable : file.hdr.HoldsTable) (hidle : disk.active = false)
    (hlength : directory.table.length = numDirEntries) :
    ∃ disk', directory.writeBack file disk fresh = .ok disk' ∧
      disk'.active = false ∧
      (∀ sector, sector ∉ file.hdr.sectors →
        disk'.sectors sector = disk.sectors sector) ∧
      file.hdr.directory disk' = directory := by
  have hposition : ((0 : ℕ) : ℤ) < file.hdr.fileLength := by
    rw [htable.length]
    decide
  obtain ⟨disk', hwrite, hactive, hothers, hcontent⟩ :=
    @OpenFile.writeAt_spec file disk fresh 0 200 directory.bytes htable.valid
      htable.nodup hidle (by decide) hposition
  rw [clamp_table htable, htable.length] at hcontent
  refine ⟨disk', ?_, hactive, hothers, ?_⟩
  · rw [writeBack, size_table hlength, hwrite]
    rfl
  · have hdirectory := ofBytes_bytes directory
    rw [hlength] at hdirectory
    rw [FileHeader.directory, ← hdirectory]
    apply ofBytes_congr
    intro a ha
    rw [hcontent a (by exact_mod_cast ha), Block.copy_apply,
      if_pos ⟨Nat.zero_le a, by omega⟩, Nat.sub_zero, Nat.zero_add]

end Directory

/-! ## Names -/

/-- A name that an entry can hold. -/
structure IsName (name : CString) : Prop where
  length : name.length ≤ fileNameMaxLen
  zero : 0 ∉ name

theorem cString_of_zero_not_mem
    {name : CString} (hzero : 0 ∉ name) : cString name = name := by
  apply List.takeWhile_eq_self_iff.mpr
  intro c hc
  exact decide_eq_true fun heq => hzero (heq ▸ hc)

theorem cString_append_zero
    {name : CString} (hzero : 0 ∉ name) (rest : List (BitVec 8)) :
    cString (name ++ 0 :: rest) = name := by
  have hall : ∀ c ∈ name, decide (c ≠ 0) = true := fun c hc =>
    decide_eq_true fun heq => hzero (heq ▸ hc)
  rw [cString, List.takeWhile_append_of_pos hall]
  simp

namespace DirectoryEntry

variable {e : DirectoryEntry} {name : CString}

/-- The name of the entry as a string. -/
def fileName (e : DirectoryEntry) : CString :=
  cString (e.name.val.take fileNameMaxLen)

theorem hasName_iff (hname : IsName name) :
    e.hasName name = true ↔ e.inUse = true ∧ e.fileName = name := by
  rw [hasName, Bool.and_eq_true, decide_eq_true_eq, strncmp_eq_zero,
    List.take_of_length_le hname.length, cString_of_zero_not_mem hname.zero]
  rfl

theorem fileName_fill
    (e : DirectoryEntry) (hname : IsName name) (newSector : ℤ) :
    (e.fill name newSector).fileName = name := by
  have hlength := hname.length
  have htake : (strncpy e.name name (Nat.le_succ fileNameMaxLen)).val.take
      fileNameMaxLen =
        name ++ List.replicate (fileNameMaxLen - name.length) 0 := by
    rw [strncpy, List.take_left' (by simp)]
    rw [List.take_append, List.take_of_length_le hlength, List.take_replicate]
    congr 2
    omega
  rw [fileName, fill, htake]
  cases hrest : fileNameMaxLen - name.length with
  | zero =>
      rw [List.replicate_zero, List.append_nil]
      exact cString_of_zero_not_mem hname.zero
  | succ rest => exact cString_append_zero hname.zero _

end DirectoryEntry

namespace Directory

variable {directory : Directory} {name : CString}

/-- The entries that are in use. -/
def files (directory : Directory) : List DirectoryEntry :=
  directory.table.filter (·.inUse)

def names (directory : Directory) : List CString :=
  directory.files.map DirectoryEntry.fileName

end Directory

section Modify

variable {α : Type} {p : α → Bool} {change : α → α} {l : List α} {i : ℕ}

theorem filter_split (hi : i < l.length) :
    l.filter p = (l.take i).filter p ++ ([l[i]].filter p ++
      (l.drop (i + 1)).filter p) := by
  rw [← List.filter_append, ← List.filter_append, List.singleton_append,
    ← List.drop_eq_getElem_cons hi, List.take_append_drop]

theorem filter_modify (hi : i < l.length) :
    (l.modify i change).filter p = (l.take i).filter p ++
      ([change l[i]].filter p ++ (l.drop (i + 1)).filter p) := by
  rw [List.modify_eq_take_cons_drop hi, ← List.filter_append,
    ← List.filter_append, List.singleton_append]

/-- An element comes to satisfy the predicate. -/
theorem perm_filter_modify
    (hi : i < l.length) (hbefore : p l[i] = false)
    (hafter : p (change l[i]) = true) :
    ((l.modify i change).filter p).Perm (change l[i] :: l.filter p) := by
  rw [filter_modify hi, filter_split hi]
  simp [hbefore, hafter]

/-- An element ceases to satisfy the predicate. -/
theorem perm_cons_filter_modify
    (hi : i < l.length) (hbefore : p l[i] = true)
    (hafter : p (change l[i]) = false) :
    (l.filter p).Perm (l[i] :: (l.modify i change).filter p) := by
  rw [filter_modify hi, filter_split hi]
  simp [hbefore, hafter]

end Modify

namespace Directory

variable {directory : Directory} {name : CString}

theorem mem_names :
    name ∈ directory.names ↔ ∃ e ∈ directory.table, e.inUse = true ∧
      e.fileName = name := by
  simp [names, files, and_assoc]

theorem findIndex_absent (hname : IsName name) (habsent : name ∉ directory.names) :
    directory.findIndex name = none := by
  apply List.findIdx?_eq_none_iff.mpr
  intro e he
  apply Bool.eq_false_iff.mpr
  intro hhas
  obtain ⟨hinUse, hsame⟩ := (DirectoryEntry.hasName_iff hname).mp hhas
  exact habsent (mem_names.mpr ⟨e, he, hinUse, hsame⟩)

theorem findIndex_present (hname : IsName name) (hmem : name ∈ directory.names) :
    ∃ i, ∃ hi : i < directory.table.length,
      directory.findIndex name = some i ∧
      directory.table[i].inUse = true ∧
      directory.table[i].fileName = name := by
  obtain ⟨e, he, hinUse, hsame⟩ := mem_names.mp hmem
  have hhas := (DirectoryEntry.hasName_iff hname).mpr ⟨hinUse, hsame⟩
  have hfound := List.findIdx?_eq_some_of_exists (p := (·.hasName name))
    ⟨e, he, hhas⟩
  obtain ⟨hi, hat, -⟩ := List.findIdx?_eq_some_iff_getElem.mp hfound
  exact ⟨_, hi, hfound, (DirectoryEntry.hasName_iff hname).mp hat⟩

theorem find_absent (hname : IsName name) (habsent : name ∉ directory.names) :
    directory.find name = -1 := by
  rw [find, findIndex_absent hname habsent]

/-- A name is added while there is a free entry. -/
theorem add_spec
    (hname : IsName name) (habsent : name ∉ directory.names) (newSector : ℤ)
    (hfree : ∃ e ∈ directory.table, e.inUse = false) :
    ∃ (e : DirectoryEntry) (directory' : Directory),
      directory.add name newSector = (true, directory') ∧
      directory'.table.length = directory.table.length ∧
      directory'.files.Perm (e.fill name newSector :: directory.files) := by
  obtain ⟨e, he, hunused⟩ := hfree
  have hfound := List.findIdx?_eq_some_of_exists
    (p := fun e : DirectoryEntry => !e.inUse) ⟨e, he, by simp [hunused]⟩
  obtain ⟨hi, hat, -⟩ := List.findIdx?_eq_some_iff_getElem.mp hfound
  have hbefore := Bool.not_eq_true' _ |>.mp hat
  refine ⟨_, ⟨directory.table.modify _ (·.fill name newSector)⟩, ?_, ?_,
    perm_filter_modify hi hbefore rfl⟩
  · rw [add, findIndex_absent hname habsent, hfound]
    rfl
  · exact List.length_modify _ _ _

theorem add_full
    (hname : IsName name) (habsent : name ∉ directory.names) (newSector : ℤ)
    (hfull : ∀ e ∈ directory.table, e.inUse = true) :
    directory.add name newSector = (false, directory) := by
  have hnone : directory.table.findIdx? (fun e => !e.inUse) = none := by
    apply List.findIdx?_eq_none_iff.mpr
    intro e he
    simp [hfull e he]
  rw [add, findIndex_absent hname habsent, hnone]
  rfl

/-- A name that is in use is found and can be removed. -/
theorem remove_spec (hname : IsName name) (hmem : name ∈ directory.names) :
    ∃ (e : DirectoryEntry) (directory' : Directory),
      e.fileName = name ∧ directory.find name = e.sector.toInt ∧
      directory.remove name = (true, directory') ∧
      directory'.table.length = directory.table.length ∧
      directory.files.Perm (e :: directory'.files) := by
  obtain ⟨i, hi, hfound, hinUse, hsame⟩ := findIndex_present hname hmem
  have hget : directory.table[i]? = some directory.table[i] :=
    List.getElem?_eq_getElem hi
  refine ⟨directory.table[i], ⟨directory.table.modify i (·.release)⟩, hsame,
    ?_, ?_, ?_, perm_cons_filter_modify hi hinUse rfl⟩
  · rw [find, hfound]
    simp [hget]
  · rw [remove, hfound]
  · exact List.length_modify _ _ _

end Directory

end Nachos.Filesys
