import Nachos.FileSystem

/-!
# Copying between user and kernel memory

`User2System` and `System2User` of `userprog/exception.cc` go through the
page table one byte at a time and stop at a zero byte.  What they do is stated
on ranges of user memory: `HoldsBytes` for a range that can be read,
`Writable` for one that can be written.
-/

namespace Nachos

namespace Machine

/-! ## The two copies -/

/-- The loop of `User2System`.  The zero byte it stops at is in the buffer
already. -/
def copyIn (virtAddr : BitVec 32) : ℕ → Machine → Except Fault (CString × Machine)
  | 0, m => return ([], m)
  | rounds + 1, m => do
      let (oneChar, m) ← m.readMem virtAddr 1
      if oneChar = 0 then return ([], m)
      else
        let (rest, m) ← copyIn (virtAddr + 1) rounds m
        return (oneChar.setWidth 8 :: rest, m)

/-- `User2System`: the buffer of `limit + 1` bytes. -/
def user2System (m : Machine) (virtAddr limit : BitVec 32) :
    Except Fault (List (BitVec 8) × Machine) :=
  if (limit + 1).toInt < 0 then .error .abort
  else do
    let (bytes, m) ← copyIn virtAddr limit.toInt.toNat m
    return (bytes ++
      List.replicate ((limit + 1).toNat - bytes.length) 0, m)

/-- The loop of `System2User` over the rest of the buffer: how many bytes it
copies. -/
def copyOut (virtAddr : BitVec 32) :
    ℕ → List (BitVec 8) → Machine → Except Fault (ℕ × Machine)
  | 0, _, m => return (0, m)
  | _ + 1, [], _ => .error .undefinedBehaviour
  | rounds + 1, oneChar :: buffer, m => do
      let m ← m.writeMem virtAddr 1 (oneChar.signExtend 32)
      if oneChar = 0 then return (1, m)
      else
        let (i, m) ← copyOut (virtAddr + 1) rounds buffer m
        return (i + 1, m)

/-- `System2User`. -/
def system2User (m : Machine) (virtAddr : BitVec 32) (len : ℤ)
    (buffer : List (BitVec 8)) : Except Fault (ℤ × Machine) :=
  if len < 0 then return (-1, m)
  else if len = 0 then return (len, m)
  else do
    let (i, m) ← copyOut virtAddr len.toNat buffer m
    return (i, m)

end Machine

/-- A buffer as a C string. -/
def cString (buffer : List (BitVec 8)) : CString :=
  buffer.takeWhile (· ≠ 0)

/-- What an access needs of the entry of its page. -/
def TranslationEntry.Allows (entry : TranslationEntry) (writing : Bool) :
    Prop :=
  entry.valid = true ∧ ¬(entry.readOnly = true ∧ writing = true) ∧
    0 ≤ entry.physicalPage ∧ entry.physicalPage < numPhysPages

instance (entry : TranslationEntry) (writing : Bool) :
    Decidable (entry.Allows writing) := by
  unfold TranslationEntry.Allows
  infer_instance

namespace Machine

/-! ## Translation of single bytes -/

/-- The entry of the installed page table for an address. -/
def entryAt (m : Machine) (addr : BitVec 32) : Option TranslationEntry :=
  match m.pageTable with
  | some table =>
      if addr.toNat / pageSize < m.pageTableSize then
        table[addr.toNat / pageSize]?
      else none
  | none => none

/-- The physical address of a byte that can be read, or written. -/
def physical (m : Machine) (addr : BitVec 32) (writing : Bool) : Option ℕ :=
  match m.entryAt addr with
  | some entry =>
      if entry.Allows writing then
        some (entry.physicalPage.toNat * pageSize + addr.toNat % pageSize)
      else none
  | none => none

/-- The byte a user program finds at an address. -/
def userByte (m : Machine) (addr : BitVec 32) : Option (BitVec 8) :=
  (m.physical addr false).map m.mainMemory

/-- The frames of the installed page table are distinct. -/
def DistinctFrames (m : Machine) : Prop :=
  ∀ table, m.pageTable = some table →
    (table.map TranslationEntry.physicalPage).Nodup

/-- Two machines that differ in their memory, and in the use and dirty bits,
only. -/
structure SameMapping (m m' : Machine) : Prop where
  registers : m'.registers = m.registers
  pageTableMap : m'.pageTableMap = m.pageTableMap
  physical : ∀ addr writing, m'.physical addr writing = m.physical addr writing
  distinct : m'.DistinctFrames ↔ m.DistinctFrames

theorem SameMapping.refl (m : Machine) : m.SameMapping m :=
  ⟨rfl, rfl, fun _ _ => rfl, .rfl⟩

theorem SameMapping.symm
    {m m' : Machine} (hsame : m.SameMapping m') : m'.SameMapping m where
  registers := hsame.registers.symm
  pageTableMap := hsame.pageTableMap.symm
  physical := fun addr writing => (hsame.physical addr writing).symm
  distinct := hsame.distinct.symm

theorem SameMapping.trans
    {m m' m'' : Machine} (hfirst : m.SameMapping m')
    (hsecond : m'.SameMapping m'') : m.SameMapping m'' where
  registers := hsecond.registers.trans hfirst.registers
  pageTableMap := hsecond.pageTableMap.trans hfirst.pageTableMap
  physical := fun addr writing =>
    (hsecond.physical addr writing).trans (hfirst.physical addr writing)
  distinct := hsecond.distinct.trans hfirst.distinct

theorem toInt_eq_toNat {x : BitVec 32} (hnonneg : 0 ≤ x.toInt) :
    x.toInt = x.toNat := by
  have hlt := x.isLt
  rw [BitVec.toInt_eq_toNat_cond] at hnonneg ⊢
  split_ifs at hnonneg ⊢ <;> omega

theorem add_one_nonneg {x : BitVec 32} (hlt : x.toNat ≤ memorySize) :
    0 ≤ (x + 1).toInt := by
  have hbound : memorySize = 16384 := rfl
  have hnat : (x + 1).toNat = x.toNat + 1 := by
    rw [BitVec.toNat_add]
    exact Nat.mod_eq_of_lt (by simp; omega)
  rw [BitVec.toInt_eq_toNat_cond, if_pos (by omega)]
  exact Int.natCast_nonneg _

theorem toInt_ofInt_natCast {n : ℕ} (hle : n ≤ memorySize) :
    (BitVec.ofInt 32 n).toInt = n := by
  have hbound : memorySize = 16384 := rfl
  rw [BitVec.toInt_ofInt]
  exact Int.bmod_eq_of_le (by omega) (by omega)

theorem setWidth_signExtend (byte : BitVec 8) :
    (byte.signExtend 32).setWidth 8 = byte := by
  revert byte
  decide

theorem signExtend_eq_zero (byte : BitVec 8) :
    byte.signExtend 32 = 0 ↔ byte = 0 := by
  revert byte
  decide

theorem add_one_add_ofNat (addr : BitVec 32) (i : ℕ) :
    addr + 1 + BitVec.ofNat 32 i = addr + BitVec.ofNat 32 (i + 1) := by
  rw [BitVec.add_assoc, BitVec.ofNat_add, BitVec.add_comm 1]
  rfl

theorem ne_add_ofNat_of_lt (addr : BitVec 32) {i : ℕ} (hpos : 0 < i)
    (hlt : i < 2 ^ 32) : addr ≠ addr + BitVec.ofNat 32 i := by
  intro heq
  have hzero : BitVec.ofNat 32 i = 0#32 :=
    BitVec.add_right_eq_self.mp heq.symm
  have hnat := congrArg BitVec.toNat hzero
  simp only [BitVec.toNat_ofNat, Nat.mod_eq_of_lt hlt] at hnat
  omega

section Translation

variable {m m' : Machine} {addr : BitVec 32} {writing : Bool} {paddr : ℕ}

theorem physical_eq_some :
    m.physical addr writing = some paddr ↔
      ∃ entry, m.entryAt addr = some entry ∧ entry.Allows writing ∧
        entry.physicalPage.toNat * pageSize + addr.toNat % pageSize =
          paddr := by
  unfold physical
  cases m.entryAt addr with
  | none => simp
  | some entry => by_cases hallows : entry.Allows writing <;> simp [hallows]

theorem physical_lt (hphys : m.physical addr writing = some paddr) :
    paddr < memorySize := by
  rcases physical_eq_some.mp hphys with ⟨entry, -, ⟨-, -, hrange⟩, rfl⟩
  have hoffset : addr.toNat % pageSize < pageSize :=
    Nat.mod_lt _ (by decide)
  unfold memorySize numPhysPages pageSize at *
  omega

theorem physical_of_writing (hphys : m.physical addr true = some paddr) :
    m.physical addr false = some paddr := by
  rw [physical_eq_some] at hphys ⊢
  rcases hphys with ⟨entry, hentry, ⟨hvalid, -, hrange⟩, heq⟩
  exact ⟨entry, hentry, ⟨hvalid, by simp, hrange⟩, heq⟩

/-- Distinct frames make the mapping injective. -/
theorem DistinctFrames.physical_inj
    (hdistinct : m.DistinctFrames) {addr' : BitVec 32} {writing' : Bool}
    (hphys : m.physical addr writing = some paddr)
    (hphys' : m.physical addr' writing' = some paddr) : addr = addr' := by
  rcases physical_eq_some.mp hphys with ⟨entry, hentry, ⟨-, -, hrange⟩, heq⟩
  rcases physical_eq_some.mp hphys' with
    ⟨entry', hentry', ⟨-, -, hrange'⟩, heq'⟩
  have hoffset : ∀ a : BitVec 32, a.toNat % pageSize < pageSize :=
    fun a => Nat.mod_lt _ (by decide)
  have hlt := hoffset addr
  have hlt' := hoffset addr'
  have hframe : entry.physicalPage = entry'.physicalPage := by
    unfold pageSize at *
    omega
  have hpage : addr.toNat / pageSize = addr'.toNat / pageSize := by
    unfold entryAt at hentry hentry'
    cases htable : m.pageTable with
    | none => simp [htable] at hentry
    | some table =>
        simp only [htable] at hentry hentry'
        split_ifs at hentry hentry'
        have hlookup : (table.map TranslationEntry.physicalPage)[
            addr.toNat / pageSize]? =
            (table.map TranslationEntry.physicalPage)[
              addr'.toNat / pageSize]? := by
          simp only [List.getElem?_map, hentry, hentry', Option.map_some,
            hframe]
        have hin := (List.getElem?_eq_some_iff.mp hentry).1
        exact (List.getElem?_inj (by simpa using hin)
          (hdistinct table htable)).mp hlookup
  apply BitVec.eq_of_toNat_eq
  rw [hframe] at heq
  have hdiv := Nat.div_add_mod addr.toNat pageSize
  have hdiv' := Nat.div_add_mod addr'.toNat pageSize
  rw [hpage] at hdiv
  omega

/-- The entry after an access. -/
def used (entry : TranslationEntry) (writing : Bool) : TranslationEntry :=
  { entry with use := true, dirty := entry.dirty || writing }

@[simp] theorem used_allows (entry : TranslationEntry) (writing w : Bool) :
    (used entry writing).Allows w ↔ entry.Allows w := Iff.rfl

/-- The use and dirty bits do not matter for the mapping. -/
theorem sameMapping_used
    {table : List TranslationEntry} {vpn : ℕ} {entry : TranslationEntry}
    (htable : m.pageTable = some table) (hget : table[vpn]? = some entry)
    (writing : Bool) :
    m.SameMapping
      { m with pageTable := some (table.set vpn (used entry writing)) } := by
  rcases List.getElem?_eq_some_iff.mp hget with ⟨hin, hentry⟩
  constructor
  case registers => rfl
  case pageTableMap => rfl
  case physical =>
    intro addr w
    simp only [physical, entryAt, htable]
    by_cases hlt : addr.toNat / pageSize < m.pageTableSize
    · rw [if_pos hlt, if_pos hlt, List.getElem?_set]
      by_cases heq : vpn = addr.toNat / pageSize
      · subst heq
        simp only [if_true, hin, hget, used_allows]
        rfl
      · simp only [heq, if_false]
    · rw [if_neg hlt, if_neg hlt]
  case distinct =>
    have hmap : (table.set vpn (used entry writing)).map
        TranslationEntry.physicalPage =
          table.map TranslationEntry.physicalPage := by
      apply List.ext_getElem?
      intro i
      simp only [List.getElem?_map, List.getElem?_set]
      by_cases heq : vpn = i
      · subst heq
        simp [hin, hentry, used]
      · simp only [heq, if_false]
    simp only [DistinctFrames, htable, Option.some.injEq, forall_eq', hmap]

/-- An access that is allowed. -/
theorem translate_ok
    {size : ℕ} (hphys : m.physical addr writing = some paddr)
    (haligned : ¬((size = 4 ∧ addr.toNat % 4 ≠ 0) ∨
      (size = 2 ∧ addr.toNat % 2 ≠ 0)))
    (hfits : paddr + size ≤ memorySize) :
    ∃ m', m.translate addr size writing = .ok (.ok (paddr, m')) ∧
      m.SameMapping m' ∧ m'.mainMemory = m.mainMemory := by
  rcases physical_eq_some.mp hphys with
    ⟨entry, hentry, ⟨hvalid, hreadOnly, hrange⟩, heq⟩
  unfold entryAt at hentry
  cases htable : m.pageTable with
  | none => simp [htable] at hentry
  | some table =>
      simp only [htable] at hentry
      split_ifs at hentry with hpage
      let after := table.set (addr.toNat / pageSize) (used entry writing)
      refine ⟨{ m with pageTable := some after }, ?_,
        sameMapping_used htable hentry writing, rfl⟩
      have hpage' : ¬addr.toNat / pageSize ≥ m.pageTableSize := by omega
      simp only [translate, htable, hentry, if_neg haligned, if_neg hpage',
        if_neg (show ¬entry.valid = false by simp [hvalid]),
        if_neg hreadOnly, if_neg (not_not.mpr hrange), heq,
        assert_of_true hfits]
      rfl

theorem translate_byte (hphys : m.physical addr writing = some paddr) :
    ∃ m', m.translate addr 1 writing = .ok (.ok (paddr, m')) ∧
      m.SameMapping m' ∧ m'.mainMemory = m.mainMemory :=
  translate_ok hphys (by simp) (physical_lt hphys)

/-- An access that succeeds has set the bits of one entry. -/
theorem sameMapping_of_translate
    {size : ℕ}
    (htranslate : m.translate addr size writing = .ok (.ok (paddr, m'))) :
    m.SameMapping m' ∧ m'.mainMemory = m.mainMemory := by
  unfold translate at htranslate
  simp only at htranslate
  split at htranslate
  next => cases htranslate
  next =>
    split at htranslate
    next => cases htranslate
    next table htable =>
      split at htranslate
      next => cases htranslate
      next =>
        split at htranslate
        next => cases htranslate
        next entry hentry =>
          split_ifs at htranslate
          · cases htranslate
          · cases htranslate
          · rcases ok_of_bind htranslate with ⟨-, -, hresult⟩
            cases hresult
            exact ⟨sameMapping_used htable hentry writing, rfl⟩
          · cases htranslate

theorem sameMapping_of_readMem
    {size : ℕ} {value : BitVec 32}
    (hread : m.readMem addr size = .ok (value, m')) :
    m.SameMapping m' ∧ m'.mainMemory = m.mainMemory := by
  rcases ok_of_bind hread with ⟨result, htranslate, hread⟩
  cases result with
  | error => cases hread
  | ok result =>
      rcases ok_of_bind hread with ⟨value', -, hresult⟩
      cases hresult
      exact sameMapping_of_translate htranslate

theorem sameMapping_of_store
    {paddr : ℤ} {byte : BitVec 8} (hstore : m.store paddr byte = .ok m') :
    m.SameMapping m' := by
  unfold store at hstore
  split at hstore
  · cases hstore
    exact ⟨rfl, rfl, fun _ _ => rfl, .rfl⟩
  · cases hstore

theorem sameMapping_of_writeMem
    {value : BitVec 32} (hwrite : m.writeMem addr 1 value = .ok m') :
    m.SameMapping m' := by
  rcases ok_of_bind hwrite with ⟨result, htranslate, hwrite⟩
  cases result with
  | error => cases hwrite
  | ok result =>
      rcases result with ⟨physAddr, between⟩
      simp only [storeValue] at hwrite
      exact (sameMapping_of_translate htranslate).1.trans
        (sameMapping_of_store hwrite)

/-- Reading one byte. -/
theorem readMem_byte
    {byte : BitVec 8} (hbyte : m.userByte addr = some byte) :
    ∃ m', m.readMem addr 1 = .ok (byte.signExtend 32, m') ∧
      m.SameMapping m' ∧ m'.mainMemory = m.mainMemory := by
  rcases Option.map_eq_some_iff.mp hbyte with ⟨paddr, hphys, rfl⟩
  rcases translate_byte hphys with ⟨m', htranslate, hsame, hmemory⟩
  refine ⟨m', ?_, hsame, hmemory⟩
  simp only [readMem, htranslate, bind, Except.bind, load, hmemory, pure,
    Except.pure]

/-- Writing one byte. -/
theorem writeMem_byte
    (hphys : m.physical addr true = some paddr) (byte : BitVec 8) :
    ∃ m', m.writeMem addr 1 (byte.signExtend 32) = .ok m' ∧
      m.SameMapping m' ∧
      m'.mainMemory = Function.update m.mainMemory paddr byte := by
  rcases translate_byte hphys with ⟨after, htranslate, hsame, hmemory⟩
  refine ⟨{ after with
    mainMemory := Function.update after.mainMemory paddr byte }, ?_, ?_, ?_⟩
  · simp only [writeMem, htranslate, bind, Except.bind, storeValue,
      setWidth_signExtend, store_eq (physical_lt hphys)]
  · exact hsame.trans ⟨rfl, rfl, fun _ _ => rfl, .rfl⟩
  · simp only [hmemory]

end Translation

/-! ## Ranges of user memory -/

/-- The user memory from an address on can be read and holds the bytes. -/
def HoldsBytes (m : Machine) (addr : BitVec 32) : List (BitVec 8) → Prop
  | [] => True
  | byte :: rest => m.userByte addr = some byte ∧ m.HoldsBytes (addr + 1) rest

/-- The range of `n` bytes can be written. -/
def Writable (m : Machine) (addr : BitVec 32) : ℕ → Prop
  | 0 => True
  | n + 1 => m.physical addr true ≠ none ∧ m.Writable (addr + 1) n

instance decidableHoldsBytes (m : Machine) :
    (addr : BitVec 32) → (bytes : List (BitVec 8)) →
      Decidable (m.HoldsBytes addr bytes)
  | _, [] => isTrue trivial
  | addr, byte :: rest =>
      have := decidableHoldsBytes m (addr + 1) rest
      inferInstanceAs (Decidable
        (m.userByte addr = some byte ∧ m.HoldsBytes (addr + 1) rest))

instance decidableWritable (m : Machine) :
    (addr : BitVec 32) → (n : ℕ) → Decidable (m.Writable addr n)
  | _, 0 => isTrue trivial
  | addr, n + 1 =>
      have := decidableWritable m (addr + 1) n
      inferInstanceAs (Decidable
        (m.physical addr true ≠ none ∧ m.Writable (addr + 1) n))

/-- The memory outside of a range of `n` bytes is as before. -/
def SameOutside (m m' : Machine) (addr : BitVec 32) (n : ℕ) : Prop :=
  ∀ paddr, (∀ i < n, m.physical (addr + BitVec.ofNat 32 i) true ≠ some paddr) →
    m'.mainMemory paddr = m.mainMemory paddr

/-- The bytes up to the first zero byte, and this one, too. -/
def throughZero : List (BitVec 8) → List (BitVec 8)
  | [] => []
  | byte :: rest => if byte = 0 then [byte] else byte :: throughZero rest

theorem throughZero_isPrefix (bytes : List (BitVec 8)) :
    throughZero bytes <+: bytes := by
  induction bytes with
  | nil => exact List.nil_prefix
  | cons byte rest ih =>
      rw [throughZero]
      split
      · exact ⟨rest, rfl⟩
      · exact List.cons_prefix_cons.mpr ⟨rfl, ih⟩

theorem throughZero_eq_nil {bytes : List (BitVec 8)} :
    throughZero bytes = [] ↔ bytes = [] := by
  cases bytes with
  | nil => simp [throughZero]
  | cons byte rest =>
      rw [throughZero]
      split <;> simp

theorem length_throughZero_le (bytes : List (BitVec 8)) :
    (throughZero bytes).length ≤ bytes.length :=
  (throughZero_isPrefix bytes).length_le

section Ranges

variable {m m' : Machine} {addr : BitVec 32}

theorem SameMapping.userByte
    (hsame : m.SameMapping m') (hmemory : m'.mainMemory = m.mainMemory)
    (addr : BitVec 32) : m'.userByte addr = m.userByte addr := by
  rw [Machine.userByte, Machine.userByte, hsame.physical, hmemory]

theorem SameMapping.holdsBytes
    (hsame : m.SameMapping m') (hmemory : m'.mainMemory = m.mainMemory)
    {bytes : List (BitVec 8)} :
    m'.HoldsBytes addr bytes ↔ m.HoldsBytes addr bytes := by
  induction bytes generalizing addr with
  | nil => rfl
  | cons byte rest ih => rw [HoldsBytes, HoldsBytes, ih, hsame.userByte hmemory]

theorem SameMapping.writable
    (hsame : m.SameMapping m') {n : ℕ} :
    m'.Writable addr n ↔ m.Writable addr n := by
  induction n generalizing addr with
  | zero => rfl
  | succ n ih => rw [Writable, Writable, ih, hsame.physical]

theorem HoldsBytes.append
    {first second : List (BitVec 8)} :
    m.HoldsBytes addr (first ++ second) ↔ m.HoldsBytes addr first ∧
      m.HoldsBytes (addr + BitVec.ofNat 32 first.length) second := by
  induction first generalizing addr with
  | nil => simp [HoldsBytes]
  | cons byte rest ih =>
      rw [List.cons_append, HoldsBytes, HoldsBytes, ih, List.length_cons,
        add_one_add_ofNat, and_assoc]

theorem Writable.exists_holdsBytes
    {n : ℕ} (hwritable : m.Writable addr n) :
    ∃ bytes, bytes.length = n ∧ m.HoldsBytes addr bytes := by
  induction n generalizing addr with
  | zero => exact ⟨[], rfl, trivial⟩
  | succ n ih =>
      rcases hwritable with ⟨hmapped, hrest⟩
      rcases Option.ne_none_iff_exists'.mp hmapped with ⟨paddr, hphys⟩
      rcases ih hrest with ⟨bytes, hlength, hholds⟩
      refine ⟨m.mainMemory paddr :: bytes, by simp [hlength], ?_, hholds⟩
      rw [userByte, physical_of_writing hphys, Option.map_some]

theorem Writable.physical_ne_none
    {n i : ℕ} (hwritable : m.Writable addr n) (hlt : i < n) :
    m.physical (addr + BitVec.ofNat 32 i) true ≠ none := by
  induction n generalizing addr i with
  | zero => omega
  | succ n ih =>
      rcases hwritable with ⟨hmapped, hrest⟩
      cases i with
      | zero => simpa using hmapped
      | succ i =>
          rw [← add_one_add_ofNat]
          exact ih hrest (by omega)

theorem Writable.mono
    {n k : ℕ} (hwritable : m.Writable addr n) (hle : k ≤ n) :
    m.Writable addr k := by
  induction k generalizing addr n with
  | zero => trivial
  | succ k ih =>
      cases n with
      | zero => omega
      | succ n => exact ⟨hwritable.1, ih hwritable.2 (by omega)⟩

theorem add_ofNat_inj
    {i j : ℕ} (hi : i < 2 ^ 32) (hj : j < 2 ^ 32) :
    addr + BitVec.ofNat 32 i = addr + BitVec.ofNat 32 j ↔ i = j := by
  rw [BitVec.add_right_inj]
  constructor
  · intro heq
    have hnat := congrArg BitVec.toNat heq
    rwa [BitVec.toNat_ofNat, BitVec.toNat_ofNat, Nat.mod_eq_of_lt hi,
      Nat.mod_eq_of_lt hj] at hnat
  · rintro rfl
    rfl

/-- A range that is mapped to distinct frames is not larger than the
memory. -/
theorem DistinctFrames.le_memorySize
    {n : ℕ} {writing : Bool} (hdistinct : m.DistinctFrames)
    (hmapped : ∀ i < n,
      m.physical (addr + BitVec.ofNat 32 i) writing ≠ none)
    (hsmall : n < 2 ^ 32) : n ≤ memorySize := by
  let place : ℕ → ℕ := fun i =>
    (m.physical (addr + BitVec.ofNat 32 i) writing).getD 0
  have hplace : ∀ i < n,
      m.physical (addr + BitVec.ofNat 32 i) writing = some (place i) := by
    intro i hi
    rcases Option.ne_none_iff_exists'.mp (hmapped i hi) with ⟨paddr, hphys⟩
    simp only [place, hphys, Option.getD_some]
  have hmaps : Set.MapsTo place (Finset.range n) (Finset.range memorySize) := by
    intro i hi
    simp only [Finset.coe_range, Set.mem_Iio] at hi ⊢
    exact physical_lt (hplace i hi)
  have hinj : Set.InjOn place (Finset.range n) := by
    intro i hi j hj heq
    simp only [Finset.coe_range, Set.mem_Iio] at hi hj
    have hphys := hplace i hi
    rw [heq] at hphys
    have haddr := hdistinct.physical_inj hphys (hplace j hj)
    exact (add_ofNat_inj (by omega) (by omega)).mp haddr
  simpa using Finset.card_le_card_of_injOn place hmaps hinj

theorem Writable.le_memorySize
    {n : ℕ} (hdistinct : m.DistinctFrames) (hwritable : m.Writable addr n)
    (hsmall : n < 2 ^ 32) : n ≤ memorySize :=
  hdistinct.le_memorySize (fun _ hi => hwritable.physical_ne_none hi) hsmall

theorem HoldsBytes.userByte_eq
    {bytes : List (BitVec 8)} {i : ℕ} (hholds : m.HoldsBytes addr bytes)
    (hlt : i < bytes.length) :
    m.userByte (addr + BitVec.ofNat 32 i) = some bytes[i] := by
  induction bytes generalizing addr i with
  | nil => simp at hlt
  | cons byte rest ih =>
      cases i with
      | zero => simpa using hholds.1
      | succ i =>
          rw [← add_one_add_ofNat]
          exact ih hholds.2 (by simpa using hlt)

theorem HoldsBytes.le_memorySize
    {bytes : List (BitVec 8)} (hdistinct : m.DistinctFrames)
    (hholds : m.HoldsBytes addr bytes) (hsmall : bytes.length < 2 ^ 32) :
    bytes.length ≤ memorySize := by
  have hmapped : ∀ i < bytes.length,
      m.physical (addr + BitVec.ofNat 32 i) false ≠ none := by
    intro i hi hnone
    have hbyte := hholds.userByte_eq hi
    rw [userByte, hnone] at hbyte
    cases hbyte
  exact hdistinct.le_memorySize hmapped hsmall

end Ranges

/-! ## What the copies do -/

section Copies

variable {m m' : Machine} {addr : BitVec 32}

theorem cString_cons (byte : BitVec 8) (rest : List (BitVec 8)) :
    cString (byte :: rest) = if byte = 0 then [] else byte :: cString rest := by
  unfold cString
  by_cases hzero : byte = 0
  · subst hzero
    rfl
  · rw [List.takeWhile_cons, decide_eq_true hzero, if_neg hzero]
    rfl

/-- A copy from a range that is long enough, or holds a zero byte. -/
theorem copyIn_spec
    {bytes : List (BitVec 8)} {rounds : ℕ}
    (hholds : m.HoldsBytes addr bytes)
    (hends : rounds ≤ bytes.length ∨ 0 ∈ bytes) :
    ∃ m', copyIn addr rounds m = .ok (cString (bytes.take rounds), m') ∧
      m.SameMapping m' ∧ m'.mainMemory = m.mainMemory := by
  induction rounds generalizing m addr bytes with
  | zero => exact ⟨m, by simp [copyIn, cString]; rfl, .refl m, rfl⟩
  | succ rounds ih =>
      cases bytes with
      | nil => simp at hends
      | cons byte rest =>
          rcases hholds with ⟨hbyte, hrest⟩
          rcases readMem_byte hbyte with ⟨between, hread, hsame, hmemory⟩
          by_cases hzero : byte = 0
          · refine ⟨between, ?_, hsame, hmemory⟩
            simp [copyIn, hread, hzero, cString]
            rfl
          · have hends' : rounds ≤ rest.length ∨ 0 ∈ rest := by
              rcases hends with hle | hmem
              · exact .inl (by simpa using hle)
              · exact .inr
                  ((List.mem_cons.mp hmem).resolve_left (Ne.symm hzero))
            rcases ih ((hsame.holdsBytes hmemory).mpr hrest) hends' with
              ⟨m', hcopy, hsame', hmemory'⟩
            refine ⟨m', ?_, hsame.trans hsame', hmemory'.trans hmemory⟩
            have hchar : byte.signExtend 32 ≠ 0 :=
              (signExtend_eq_zero byte).not.mpr hzero
            rw [copyIn, hread]
            simp only [bind, Except.bind, if_neg hchar, hcopy,
              setWidth_signExtend, List.take_succ_cons, cString_cons,
              if_neg hzero]
            rfl

/-- The buffer `User2System` returns for the string it has read. -/
def kernelBuffer (limit : BitVec 32) (name : CString) : List (BitVec 8) :=
  name ++ List.replicate ((limit + 1).toNat - name.length) 0

theorem user2System_spec
    {bytes : List (BitVec 8)} {limit : BitVec 32}
    (hholds : m.HoldsBytes addr bytes)
    (hends : limit.toInt.toNat ≤ bytes.length ∨ 0 ∈ bytes)
    (hlimit : 0 ≤ (limit + 1).toInt) :
    ∃ m', m.user2System addr limit =
        .ok (kernelBuffer limit (cString (bytes.take limit.toInt.toNat)), m') ∧
      m.SameMapping m' ∧ m'.mainMemory = m.mainMemory := by
  rcases copyIn_spec hholds hends with ⟨m', hcopy, hsame, hmemory⟩
  refine ⟨m', ?_, hsame, hmemory⟩
  rw [user2System, if_neg (not_lt.mpr hlimit), hcopy]
  rfl

theorem sameMapping_of_copyIn
    {rounds : ℕ} {name : CString}
    (hcopy : copyIn addr rounds m = .ok (name, m')) :
    m.SameMapping m' ∧ m'.mainMemory = m.mainMemory := by
  induction rounds generalizing m addr name with
  | zero =>
      cases hcopy
      exact ⟨.refl _, rfl⟩
  | succ rounds ih =>
      rcases ok_of_bind hcopy with ⟨⟨oneChar, between⟩, hread, hcopy⟩
      rcases sameMapping_of_readMem hread with ⟨hsame, hmemory⟩
      simp only at hcopy
      split_ifs at hcopy
      · cases hcopy
        exact ⟨hsame, hmemory⟩
      · rcases ok_of_bind hcopy with ⟨⟨rest, after⟩, hrest, hresult⟩
        cases hresult
        rcases ih hrest with ⟨hsame', hmemory'⟩
        exact ⟨hsame.trans hsame', hmemory'.trans hmemory⟩

/-- Whatever it reads, `User2System` changes no memory. -/
theorem sameMapping_of_user2System
    {limit : BitVec 32} {buffer : List (BitVec 8)}
    (hcopy : m.user2System addr limit = .ok (buffer, m')) :
    m.SameMapping m' ∧ m'.mainMemory = m.mainMemory := by
  unfold user2System at hcopy
  split_ifs at hcopy
  rcases ok_of_bind hcopy with ⟨⟨name, after⟩, hname, hresult⟩
  cases hresult
  exact sameMapping_of_copyIn hname

theorem sameMapping_of_copyOut
    {rounds count : ℕ} {buffer : List (BitVec 8)}
    (hcopy : copyOut addr rounds buffer m = .ok (count, m')) :
    m.SameMapping m' := by
  induction rounds generalizing m addr buffer count with
  | zero =>
      cases hcopy
      exact .refl _
  | succ rounds ih =>
      cases buffer with
      | nil => cases hcopy
      | cons oneChar buffer =>
          rcases ok_of_bind hcopy with ⟨between, hwrite, hcopy⟩
          have hsame := sameMapping_of_writeMem hwrite
          split_ifs at hcopy
          · cases hcopy
            exact hsame
          · rcases ok_of_bind hcopy with ⟨⟨rest, after⟩, hrest, hresult⟩
            cases hresult
            exact hsame.trans (ih hrest)

theorem sameMapping_of_system2User
    {len result : ℤ} {buffer : List (BitVec 8)}
    (hcopy : m.system2User addr len buffer = .ok (result, m')) :
    m.SameMapping m' := by
  unfold system2User at hcopy
  split_ifs at hcopy
  · cases hcopy
    exact .refl _
  · cases hcopy
    exact .refl _
  · rcases ok_of_bind hcopy with ⟨⟨count, after⟩, hcount, hresult⟩
    cases hresult
    exact sameMapping_of_copyOut hcount

/-- Bytes that are stored outside of a range do not change what it holds. -/
theorem HoldsBytes.of_sameOutside
    {bytes : List (BitVec 8)} {other : BitVec 32} {n : ℕ}
    (hdistinct : m.DistinctFrames) (hsame : m.SameMapping m')
    (houtside : m.SameOutside m' other n)
    (hdisjoint : ∀ i < bytes.length, ∀ j < n,
      addr + BitVec.ofNat 32 i ≠ other + BitVec.ofNat 32 j)
    (hholds : m.HoldsBytes addr bytes) : m'.HoldsBytes addr bytes := by
  induction bytes generalizing addr with
  | nil => trivial
  | cons byte rest ih =>
      rcases hholds with ⟨hbyte, hrest⟩
      refine ⟨?_, ih ?_ hrest⟩
      · rcases Option.map_eq_some_iff.mp hbyte with ⟨paddr, hphys, rfl⟩
        rw [userByte, hsame.physical, hphys, Option.map_some]
        congr 1
        apply houtside
        intro j hj hother
        have heq := hdistinct.physical_inj hphys hother
        exact hdisjoint 0 (by simp) j hj (by simpa using heq)
      · intro i hi j hj
        have hne := hdisjoint (i + 1) (by simpa using hi) j hj
        rwa [← add_one_add_ofNat] at hne

theorem SameOutside.symm
    {other : BitVec 32} {n : ℕ} (hsame : m.SameMapping m')
    (houtside : m.SameOutside m' other n) : m'.SameOutside m other n := by
  intro paddr hout
  refine (houtside paddr fun i hi => ?_).symm
  rw [← hsame.physical]
  exact hout i hi

theorem holdsBytes_iff_of_sameOutside
    {bytes : List (BitVec 8)} {other : BitVec 32} {n : ℕ}
    (hdistinct : m.DistinctFrames) (hsame : m.SameMapping m')
    (houtside : m.SameOutside m' other n)
    (hdisjoint : ∀ i < bytes.length, ∀ j < n,
      addr + BitVec.ofNat 32 i ≠ other + BitVec.ofNat 32 j) :
    m'.HoldsBytes addr bytes ↔ m.HoldsBytes addr bytes := by
  constructor
  · intro hholds
    exact hholds.of_sameOutside (hsame.distinct.mpr hdistinct) hsame.symm
      (houtside.symm hsame) hdisjoint
  · intro hholds
    exact hholds.of_sameOutside hdistinct hsame houtside hdisjoint

/-- A copy to a range that can be written delivers the buffer up to its first
zero byte. -/
theorem copyOut_spec
    {rounds : ℕ} {buffer : List (BitVec 8)}
    (hdistinct : m.DistinctFrames) (hwritable : m.Writable addr rounds)
    (hlength : rounds ≤ buffer.length) (hsmall : rounds < 2 ^ 32) :
    ∃ m', copyOut addr rounds buffer m =
        .ok ((throughZero (buffer.take rounds)).length, m') ∧
      m.SameMapping m' ∧
      m'.HoldsBytes addr (throughZero (buffer.take rounds)) ∧
      m.SameOutside m' addr (throughZero (buffer.take rounds)).length := by
  induction rounds generalizing m addr buffer with
  | zero =>
      exact ⟨m, by simp [copyOut, throughZero]; rfl, .refl m,
        by simp [throughZero, HoldsBytes], fun _ _ => rfl⟩
  | succ rounds ih =>
      cases buffer with
      | nil => simp at hlength
      | cons byte buffer =>
          rcases hwritable with ⟨hmapped, hrest⟩
          rcases Option.ne_none_iff_exists'.mp hmapped with ⟨paddr, hphys⟩
          rcases writeMem_byte hphys byte with
            ⟨between, hwrite, hsame, hmemory⟩
          have hbyte : between.userByte addr = some byte := by
            rw [userByte, hsame.physical, physical_of_writing hphys,
              Option.map_some, hmemory, Function.update_self]
          have hother : ∀ paddr',
              m.physical (addr + BitVec.ofNat 32 0) true ≠ some paddr' →
                between.mainMemory paddr' = m.mainMemory paddr' := by
            intro paddr' hne
            rw [hmemory]
            apply Function.update_of_ne
            rintro rfl
            exact hne (by simpa using hphys)
          rw [List.take_succ_cons, throughZero]
          by_cases hzero : byte = 0
          · rw [if_pos hzero]
            refine ⟨between, ?_, hsame, ⟨hbyte, trivial⟩, ?_⟩
            · rw [copyOut, hwrite]
              simp only [bind, Except.bind, if_pos hzero]
              rfl
            · intro paddr' hout
              exact hother paddr' (hout 0 (by simp))
          · rw [if_neg hzero]
            rcases ih (hsame.distinct.mpr hdistinct)
                (hsame.writable.mpr hrest) (by simpa using hlength)
                (by omega) with ⟨m', hcopy, hsame', hholds, houtside⟩
            refine ⟨m', ?_, hsame.trans hsame', ⟨?_, hholds⟩, ?_⟩
            · rw [copyOut, hwrite]
              simp only [bind, Except.bind, if_neg hzero, hcopy]
              rfl
            · have hkeep : m'.HoldsBytes addr [byte] := by
                have hbefore : between.HoldsBytes addr [byte] :=
                  ⟨hbyte, trivial⟩
                apply hbefore.of_sameOutside (hsame.distinct.mpr hdistinct)
                  hsame' houtside
                intro i hi j hj heq
                obtain rfl : i = 0 := by simpa using hi
                rw [add_one_add_ofNat] at heq
                have hle := length_throughZero_le (buffer.take rounds)
                have htake := List.length_take_le rounds buffer
                exact ne_add_ofNat_of_lt addr (Nat.succ_pos j) (by omega)
                  (by simpa using heq)
              exact hkeep.1
            · intro paddr' hout
              have hlater := houtside paddr' fun i hi => by
                rw [hsame.physical, add_one_add_ofNat]
                exact hout (i + 1) (by simpa using hi)
              rw [hlater]
              exact hother paddr' (hout 0 (by simp))

theorem system2User_spec
    (len : ℤ) (buffer : List (BitVec 8))
    (hdistinct : m.DistinctFrames) (hpos : 0 < len)
    (hwritable : m.Writable addr len.toNat)
    (hlength : len.toNat ≤ buffer.length) (hsmall : len.toNat < 2 ^ 32) :
    ∃ m', m.system2User addr len buffer =
        .ok ((throughZero (buffer.take len.toNat)).length, m') ∧
      m.SameMapping m' ∧
      m'.HoldsBytes addr (throughZero (buffer.take len.toNat)) ∧
      m.SameOutside m' addr (throughZero (buffer.take len.toNat)).length := by
  rcases copyOut_spec hdistinct hwritable hlength hsmall with
    ⟨m', hcopy, hresult⟩
  refine ⟨m', ?_, hresult⟩
  rw [system2User, if_neg (by omega), if_neg (by omega), hcopy]
  rfl

end Copies

end Machine

end Nachos
