import Nachos.Loader
import Nachos.UserMemory

/-!
# The argument block of a new process

`Load` writes the strings, the array of pointers to them and a null pointer
below the end of the address space, by its own page table.  All of it comes
down to bytes stored one after the other: either the range lies in the pages,
or an index of the page table is out of range.
-/

namespace Nachos

open Library

namespace AddrSpace

/-! ## Page tables of distinct frames -/

/-- The page table has one frame for each page. -/
structure Mapped (space : AddrSpace) (entries : List TranslationEntry) :
    Prop where
  table : space.pageTable = .table entries
  length : entries.length = space.numPages
  small : space.numPages ≤ numPhysPages
  allows : ∀ entry ∈ entries, entry.Allows true
  nodup : (entries.map TranslationEntry.physicalPage).Nodup

/-- The machine with a page table installed. -/
def install (entries : List TranslationEntry) (m : Machine) : Machine :=
  { m with pageTable := some entries, pageTableSize := entries.length }

@[simp] theorem install_mainMemory
    (entries : List TranslationEntry) (m : Machine) :
    (install entries m).mainMemory = m.mainMemory := rfl

theorem install_physical
    (entries : List TranslationEntry) (m m' : Machine) (vaddr : BitVec 32)
    (writing : Bool) : (install entries m).physical vaddr writing =
      (install entries m').physical vaddr writing := rfl

section Addresses

variable {space : AddrSpace} {entries : List TranslationEntry}

theorem Mapped.distinct (hmap : space.Mapped entries) (m : Machine) :
    (install entries m).DistinctFrames := by
  intro table htable
  cases htable
  exact hmap.nodup

/-- The pages are all that can be reached. -/
theorem Mapped.physical (hmap : space.Mapped entries) (m : Machine)
    {vaddr : BitVec 32} (hlt : vaddr.toNat < space.numPages * pageSize) :
    ∃ paddr, space.physicalAddress vaddr = .ok (paddr : ℕ) ∧
      (install entries m).physical vaddr true = some paddr ∧
      paddr < memorySize ∧
      ((paddr / pageSize : ℕ) : ℤ) ∈ space.physicalPages := by
  have hpage : vaddr.toNat / pageSize < entries.length := by
    rw [hmap.length]
    exact Nat.div_lt_of_lt_mul (by rwa [Nat.mul_comm])
  have hmem := List.getElem_mem hpage
  have hallows := hmap.allows _ hmem
  have hphys : (install entries m).physical vaddr true =
      some ((entries[vaddr.toNat / pageSize]).physicalPage.toNat * pageSize +
        vaddr.toNat % pageSize) := by
    rw [Machine.physical_eq_some]
    refine ⟨entries[vaddr.toNat / pageSize], ?_, hallows, rfl⟩
    simp [Machine.entryAt, install, hpage]
  rcases hallows with ⟨-, -, hnonneg, -⟩
  have hoffset : vaddr.toNat % pageSize < pageSize :=
    Nat.mod_lt _ (by decide)
  refine ⟨_, ?_, hphys, Machine.physical_lt hphys, ?_⟩
  · simp only [physicalAddress, entry_eq hmap.table hpage, bind, Except.bind,
      pure, Except.pure]
    push_cast
    rw [Int.toNat_of_nonneg hnonneg]
  · rw [Nat.mul_comm, Nat.mul_add_div (by decide), Nat.div_eq_of_lt hoffset,
      Nat.add_zero, Int.toNat_of_nonneg hnonneg]
    simp only [physicalPages, hmap.table]
    exact List.mem_map_of_mem hmem

theorem Mapped.physicalAddress_outside (hmap : space.Mapped entries)
    {vaddr : BitVec 32} (hge : space.numPages * pageSize ≤ vaddr.toNat) :
    space.physicalAddress vaddr = .error .undefinedBehaviour := by
  have hpage : entries.length ≤ vaddr.toNat / pageSize := by
    rw [hmap.length]
    exact (Nat.le_div_iff_mul_le (by decide)).mpr hge
  simp only [physicalAddress, entry, hmap.table,
    List.getElem?_eq_none hpage]
  rfl

end Addresses

/-- The entries `AllocateMemory` makes are for reading and writing. -/
theorem grantPages_readOnly
    {bm bm' : Bitmap} {numPages : ℕ} {entries : List TranslationEntry}
    (hgrant : countedLoop grantPage 0 numPages (bm, []) =
      .ok (bm', entries)) :
    ∀ entry ∈ entries, entry.readOnly = false := by
  apply countedLoop_invariant
    (fun _ (s : Bitmap × List TranslationEntry) =>
      ∀ entry ∈ s.2, entry.readOnly = false) (by simp) ?_ hgrant
  intro i s s' _ _ hinv hround entry hentry
  rcases ok_of_bind hround with ⟨⟨frame, found⟩, -, hresult⟩
  cases hresult
  rcases List.mem_append.mp hentry with hold | hlast
  · exact hinv entry hold
  · rw [List.mem_singleton.mp hlast, newEntry]

/-- `AllocateMemory` with enough free frames maps the pages. -/
theorem allocateMemory_mapped
    (space : AddrSpace) (m : Machine) {numPages : ℕ}
    (hbits : m.pageTableMap.numBits = numPhysPages)
    (hfree : m.pageTableMap.marked.card + numPages ≤ numPhysPages) :
    ∃ bm entries,
      Granted m.pageTableMap bm entries ∧
      Mapped { space with
        numPages := numPages, pageTable := .table entries } entries ∧
      space.allocateMemory m numPages =
        .ok ({ space with numPages := numPages, pageTable := .table entries },
          { m with
            pageTableMap := bm
            mainMemory := zeroed (entries.map TranslationEntry.physicalPage)
              m.mainMemory }) := by
  rcases space.allocateMemory_spec hbits hfree with
    ⟨bm, entries, hlength, hgranted, hallocate⟩
  have hwritable : ∀ entry ∈ entries, entry.readOnly = false := by
    rcases ok_of_bind hallocate with ⟨⟨bm', entries'⟩, hgrant, hrest⟩
    rcases ok_of_bind hrest with ⟨m', -, hresult⟩
    cases hresult
    exact grantPages_readOnly hgrant
  refine ⟨bm, entries, hgranted, ?_, hallocate⟩
  constructor
  case table => rfl
  case length => exact hlength
  case small => exact (Nat.le_add_left _ _).trans hfree
  case allows =>
    intro entry hentry
    have hrange := hgranted.inRange entry hentry
    rw [Bitmap.InRange, hbits] at hrange
    exact ⟨hgranted.valid entry hentry, by simp [hwritable entry hentry],
      hrange⟩
  case nodup => exact hgranted.nodup

/-! ## Bytes stored one after the other -/

/-- The memory is all that has changed, and in frames of the space only. -/
structure Writes (space : AddrSpace) (m m' : Machine) : Prop where
  frame : m' = { m with mainMemory := m'.mainMemory }
  inside : ∀ paddr, m'.mainMemory paddr ≠ m.mainMemory paddr →
    ((paddr / pageSize : ℕ) : ℤ) ∈ space.physicalPages

theorem Writes.refl (space : AddrSpace) (m : Machine) : space.Writes m m :=
  ⟨rfl, fun _ hne => (hne rfl).elim⟩

theorem Writes.trans
    {space : AddrSpace} {m m' m'' : Machine} (hfirst : space.Writes m m')
    (hsecond : space.Writes m' m'') : space.Writes m m'' where
  frame := by
    rw [hsecond.frame, hfirst.frame]
  inside := by
    intro paddr hne
    by_cases heq : m''.mainMemory paddr = m'.mainMemory paddr
    · exact hfirst.inside paddr (by rwa [← heq])
    · exact hsecond.inside paddr heq

/-- The bytes go to the addresses from `vaddr` on. -/
def storeBytes (space : AddrSpace) (vaddr : BitVec 32) :
    List (BitVec 8) → Machine → Except Fault Machine
  | [], m => return m
  | byte :: rest, m => do
      let paddr ← space.physicalAddress vaddr
      let m ← m.store paddr byte
      storeBytes space (vaddr + 1) rest m

theorem storeBytes_cons
    {space : AddrSpace} {vaddr : BitVec 32} {byte : BitVec 8} {paddr : ℤ}
    {m m' : Machine} (rest : List (BitVec 8))
    (haddress : space.physicalAddress vaddr = .ok paddr)
    (hstore : m.store paddr byte = .ok m') :
    space.storeBytes vaddr (byte :: rest) m =
      space.storeBytes (vaddr + 1) rest m' := by
  rw [storeBytes, haddress]
  change m.store paddr byte >>= space.storeBytes (vaddr + 1) rest = _
  rw [hstore]
  rfl

theorem storeBytes_append
    (space : AddrSpace) (vaddr : BitVec 32) (first second : List (BitVec 8))
    (m : Machine) : space.storeBytes vaddr (first ++ second) m =
      space.storeBytes vaddr first m >>=
        space.storeBytes (vaddr + BitVec.ofNat 32 first.length) second := by
  induction first generalizing vaddr m with
  | nil =>
      simp only [List.nil_append, storeBytes, List.length_nil, pure_bind]
      simp
  | cons byte rest ih =>
      simp only [List.cons_append, storeBytes, bind_assoc, ih,
        List.length_cons, Machine.add_one_add_ofNat]

section Stores

variable {space : AddrSpace} {entries : List TranslationEntry}

/-- A byte stored in the pages. -/
theorem Mapped.storeByte (hmap : space.Mapped entries) (m : Machine)
    {vaddr : BitVec 32} (hlt : vaddr.toNat < space.numPages * pageSize)
    (byte : BitVec 8) :
    ∃ paddr : ℕ, ∃ m', space.physicalAddress vaddr = .ok (paddr : ℕ) ∧
      (install entries m).physical vaddr true = some paddr ∧
      m.store paddr byte = .ok m' ∧
      m'.mainMemory = Function.update m.mainMemory paddr byte ∧
      space.Writes m m' := by
  rcases hmap.physical m hlt with ⟨paddr, haddress, hphys, hfits, hpage⟩
  refine ⟨paddr, _, haddress, hphys, Machine.store_eq hfits byte, rfl, rfl, ?_⟩
  intro other hne
  by_cases heq : other = paddr
  · rwa [heq]
  · exact (hne (Function.update_of_ne heq _ _)).elim

/-- What the bytes have done that fit. -/
structure Stored (space : AddrSpace) (entries : List TranslationEntry)
    (vaddr : BitVec 32) (bytes : List (BitVec 8)) (m m' : Machine) : Prop where
  writes : space.Writes m m'
  holds : (install entries m').HoldsBytes vaddr bytes
  outside : (install entries m).SameOutside (install entries m') vaddr
    bytes.length

theorem sameMapping_install
    {m m' : Machine} (hwrites : space.Writes m m') :
    (install entries m).SameMapping (install entries m') where
  registers := by rw [hwrites.frame]; rfl
  pageTableMap := by rw [hwrites.frame]; rfl
  physical := fun _ _ => rfl
  distinct := Iff.rfl

theorem toNat_add_one {vaddr : BitVec 32} {n : ℕ} (hlt : vaddr.toNat < n)
    (hsmall : n ≤ memorySize) : (vaddr + 1).toNat = vaddr.toNat + 1 := by
  have hbound : memorySize = 16384 := rfl
  rw [BitVec.toNat_add]
  exact Nat.mod_eq_of_lt (by simp; omega)

theorem Mapped.size_le (hmap : space.Mapped entries) :
    space.numPages * pageSize ≤ memorySize :=
  Nat.mul_le_mul_right _ hmap.small

/-- Bytes that lie in the pages are stored. -/
theorem Mapped.storeBytes (hmap : space.Mapped entries)
    (bytes : List (BitVec 8)) (vaddr : BitVec 32) (m : Machine)
    (hfits : vaddr.toNat + bytes.length ≤ space.numPages * pageSize) :
    ∃ m', space.storeBytes vaddr bytes m = .ok m' ∧
      space.Stored entries vaddr bytes m m' := by
  induction bytes generalizing vaddr m with
  | nil => exact ⟨m, rfl, .refl _ _, trivial, fun _ _ => rfl⟩
  | cons byte rest ih =>
      rw [List.length_cons] at hfits
      have hlt : vaddr.toNat < space.numPages * pageSize := by omega
      have hnext := toNat_add_one hlt hmap.size_le
      have hsize := hmap.size_le
      have hbound : memorySize = 16384 := rfl
      rcases hmap.storeByte m hlt byte with
        ⟨paddr, m₁, haddress, hphys, hstore, hmemory, hwrites⟩
      rcases ih (vaddr + 1) m₁ (by omega) with
        ⟨m', hrest, hstored⟩
      refine ⟨m', (storeBytes_cons rest haddress hstore).trans hrest,
        hwrites.trans hstored.writes, ⟨?_, hstored.holds⟩, ?_⟩
      · have hbyte : (install entries m₁).HoldsBytes vaddr [byte] := by
          refine ⟨?_, trivial⟩
          have hread := Machine.physical_of_writing
            (m := install entries m₁) hphys
          rw [Machine.userByte, hread, Option.map_some, install_mainMemory,
            hmemory, Function.update_self]
        have hkept : (install entries m').HoldsBytes vaddr [byte] := by
          apply hbyte.of_sameOutside (hmap.distinct m₁)
            (sameMapping_install hstored.writes) hstored.outside
          intro i hi j hj heq
          obtain rfl : i = 0 := by simpa using hi
          rw [Machine.add_one_add_ofNat] at heq
          exact Machine.ne_add_ofNat_of_lt vaddr (Nat.succ_pos j) (by omega)
            (by simpa using heq)
        exact hkept.1
      · intro paddr' hout
        have hlater := hstored.outside paddr' fun i hi => by
          rw [Machine.add_one_add_ofNat]
          exact hout (i + 1) (by simpa using hi)
        have hfirst : paddr' ≠ paddr := by
          rintro rfl
          exact hout 0 (by simp) (by simpa using hphys)
        simp only [install_mainMemory] at hlater ⊢
        rw [hlater, hmemory, Function.update_of_ne hfirst]

/-- Bytes that do not fit leave the page table. -/
theorem Mapped.storeBytes_outside (hmap : space.Mapped entries)
    {bytes : List (BitVec 8)} {vaddr : BitVec 32} (m : Machine)
    (hne : bytes ≠ [])
    (hout : space.numPages * pageSize < vaddr.toNat + bytes.length) :
    space.storeBytes vaddr bytes m = .error .undefinedBehaviour := by
  induction bytes generalizing vaddr m with
  | nil => exact (hne rfl).elim
  | cons byte rest ih =>
      rw [List.length_cons] at hout
      rcases Nat.lt_or_ge vaddr.toNat (space.numPages * pageSize) with
        hlt | hge
      · have hnext := toNat_add_one hlt hmap.size_le
        rcases hmap.storeByte m hlt byte with
          ⟨paddr, m₁, haddress, -, hstore, -, -⟩
        have hrest : rest ≠ [] := by
          rintro rfl
          simp only [List.length_nil] at hout
          omega
        rw [storeBytes_cons rest haddress hstore]
        exact ih m₁ hrest (by omega)
      · simp only [AddrSpace.storeBytes, hmap.physicalAddress_outside hge,
          bind, Except.bind]

end Stores

/-! ## Words -/

/-- A word as bytes, the lowest first. -/
def wordBytes (word : BitVec 32) : List (BitVec 8) :=
  [word.setWidth 8, (word >>> 8).setWidth 8, (word >>> 16).setWidth 8,
    (word >>> 24).setWidth 8]

/-- Inside a word the physical addresses follow one another. -/
theorem physicalAddress_next
    {space : AddrSpace} {vaddr : BitVec 32} {paddr : ℤ}
    (hword : vaddr.toNat % 4 ≠ 3)
    (haddress : space.physicalAddress vaddr = .ok paddr) :
    space.physicalAddress (vaddr + 1) = .ok (paddr + 1) := by
  have hlt := vaddr.isLt
  have hnext : (vaddr + 1).toNat = vaddr.toNat + 1 := by
    rw [BitVec.toNat_add]
    exact Nat.mod_eq_of_lt (by simp; omega)
  have hpage : (vaddr + 1).toNat / pageSize = vaddr.toNat / pageSize := by
    unfold pageSize
    omega
  have hoffset : (vaddr + 1).toNat % pageSize =
      vaddr.toNat % pageSize + 1 := by
    unfold pageSize
    omega
  rcases ok_of_bind haddress with ⟨entry, hentry, hresult⟩
  cases hresult
  simp only [physicalAddress, hpage, hoffset, hentry, bind, Except.bind, pure,
    Except.pure]
  push_cast
  rw [add_assoc]

theorem storeValue_four (m : Machine) (paddr : ℤ) (word : BitVec 32) :
    m.storeValue paddr word 4 =
      m.store paddr (word.setWidth 8) >>= fun m =>
        m.store (paddr + 1) ((word >>> 8).setWidth 8) >>= fun m =>
          m.store (paddr + 2) ((word >>> 16).setWidth 8) >>= fun m =>
            m.store (paddr + 3) ((word >>> 24).setWidth 8) := by
  rw [Machine.storeValue]

/-- A word at an aligned address is its bytes. -/
theorem storeWord_eq
    (space : AddrSpace) {vaddr : BitVec 32} (haligned : vaddr.toNat % 4 = 0)
    (word : BitVec 32) (m : Machine) :
    (space.physicalAddress vaddr >>= fun paddr =>
        m.storeValue paddr word 4) =
      space.storeBytes vaddr (wordBytes word) m := by
  cases haddress : space.physicalAddress vaddr with
  | error fault =>
      simp only [wordBytes, storeBytes, haddress]
      rfl
  | ok paddr =>
      have hstep : ∀ {v : BitVec 32}, v.toNat % 4 < 3 →
          (v + 1).toNat % 4 = v.toNat % 4 + 1 := by
        intro v hv
        have hlt := v.isLt
        have hnext : (v + 1).toNat = v.toNat + 1 := by
          rw [BitVec.toNat_add]
          exact Nat.mod_eq_of_lt (by simp; omega)
        omega
      have hone := hstep (v := vaddr) (by omega)
      have htwo := hstep (v := vaddr + 1) (by omega)
      have haddress₁ := physicalAddress_next (by omega) haddress
      have haddress₂ := physicalAddress_next (by omega) haddress₁
      have haddress₃ := physicalAddress_next (by omega) haddress₂
      have htwo' : paddr + 1 + 1 = paddr + 2 := by ring
      have hthree' : paddr + 2 + 1 = paddr + 3 := by ring
      rw [htwo'] at haddress₂ haddress₃
      rw [hthree'] at haddress₃
      have hok : ∀ {α β : Type} (a : α) (f : α → Except Fault β),
          (Except.ok a >>= f) = f a := fun _ _ => rfl
      simp only [wordBytes, storeBytes, haddress, haddress₁, haddress₂,
        haddress₃, hok, storeValue_four, bind_pure]

/-! ## The block -/

/-- The strings, each with its zero byte. -/
def block (argv : List CString) : List (BitVec 8) :=
  argv.flatMap (· ++ [0])

/-- The pointers to the strings of a block at `ptr`. -/
def pointers (ptr : BitVec 32) : List CString → List (BitVec 32)
  | [] => []
  | arg :: argv => ptr :: pointers (ptr + argumentSize arg) argv

/-- The array of the pointers, with the null pointer at its end. -/
def pointerArray (ptr : BitVec 32) (argv : List CString) : List (BitVec 8) :=
  (pointers ptr argv ++ [0]).flatMap wordBytes

@[simp] theorem block_cons (arg : CString) (argv : List CString) :
    block (arg :: argv) = arg ++ [0] ++ block argv := rfl

@[simp] theorem length_pointers (ptr : BitVec 32) (argv : List CString) :
    (pointers ptr argv).length = argv.length := by
  induction argv generalizing ptr with
  | nil => rfl
  | cons arg argv ih => rw [pointers, List.length_cons, ih, List.length_cons]

theorem length_flatMap_wordBytes (words : List (BitVec 32)) :
    (words.flatMap wordBytes).length = 4 * words.length := by
  induction words with
  | nil => rfl
  | cons word words ih =>
      rw [List.flatMap_cons, List.length_append, ih, List.length_cons]
      simp only [wordBytes, List.length_cons, List.length_nil]
      omega

@[simp] theorem length_pointerArray (ptr : BitVec 32) (argv : List CString) :
    (pointerArray ptr argv).length = 4 * (argv.length + 1) := by
  rw [pointerArray, length_flatMap_wordBytes, List.length_append,
    length_pointers, List.length_singleton]

theorem argument_eq
    {argv rest : List CString} {arg : CString} {i : ℕ}
    (hdrop : argv.drop i = arg :: rest) : argument argv i = .ok arg := by
  have hget : argv[i]? = some arg := by
    rw [← Nat.add_zero i, ← List.getElem?_drop, hdrop]
    rfl
  simp only [argument, hget]

theorem drop_succ_eq
    {argv rest : List CString} {arg : CString} {i : ℕ}
    (hdrop : argv.drop i = arg :: rest) : argv.drop (i + 1) = rest := by
  rw [← List.drop_drop, hdrop]
  rfl

section Block

variable (space : AddrSpace)

/-- The loop that measures the arguments. -/
theorem measureArguments_eq
    {argv rest : List CString} {i : ℕ} (hdrop : argv.drop i = rest)
    (ptr : BitVec 32) :
    countedLoop
      (fun i ptr => do
        let arg ← argument argv i
        return ptr - argumentSize arg) i rest.length ptr =
      .ok (ptr - BitVec.ofNat 32 (block rest).length) := by
  induction rest generalizing i ptr with
  | nil =>
      rw [List.length_nil, countedLoop_zero, block, List.flatMap_nil]
      simp
      rfl
  | cons arg rest ih =>
      have hsize : BitVec.ofNat 32 (block (arg :: rest)).length =
          argumentSize arg + BitVec.ofNat 32 (block rest).length := by
        rw [argumentSize, ← BitVec.ofNat_add, block_cons, List.length_append,
          List.length_append, List.length_singleton]
      rw [List.length_cons, countedLoop_succ, argument_eq hdrop]
      exact (ih (drop_succ_eq hdrop) _).trans
        (by rw [hsize, ← BitVec.sub_sub])

/-- The bytes are stored, and the address goes past them. -/
def storeThrough (bytes : List (BitVec 8)) (s : BitVec 32 × Machine) :
    Except Fault (BitVec 32 × Machine) := do
  let m ← space.storeBytes s.1 bytes s.2
  return (s.1 + BitVec.ofNat 32 bytes.length, m)

theorem storeThrough_append
    (first second : List (BitVec 8)) (s : BitVec 32 × Machine) :
    space.storeThrough (first ++ second) s =
      space.storeThrough first s >>= space.storeThrough second := by
  simp only [storeThrough, storeBytes_append, bind_assoc, pure_bind,
    List.length_append, BitVec.ofNat_add, BitVec.add_assoc]

/-- The loop over the characters of an argument. -/
theorem copyChars_eq
    {arg : CString} {bytes : List (BitVec 8)} {j : ℕ}
    (hbytes : ∀ i (hi : i < bytes.length), arg.getD (j + i) 0 = bytes[i])
    (s : BitVec 32 × Machine) :
    countedLoop (space.copyChar arg) j bytes.length s =
      space.storeThrough bytes s := by
  induction bytes generalizing j s with
  | nil =>
      rw [List.length_nil, countedLoop_zero, storeThrough, storeBytes,
        pure_bind]
      simp
  | cons byte rest ih =>
      have hfirst : arg.getD j 0 = byte := hbytes 0 (by simp)
      have hrest := ih (j := j + 1) (fun i hi => by
        rw [show j + 1 + i = j + (i + 1) by omega]
        exact hbytes (i + 1) (by simpa using hi))
      simp only [List.length_cons, countedLoop_succ, copyChar, hfirst,
        storeThrough, storeBytes, bind_assoc, pure_bind, hrest,
        Machine.add_one_add_ofNat]

theorem copyArgument_eq
    {argv rest : List CString} {arg : CString} {i : ℕ}
    (hdrop : argv.drop i = arg :: rest) (s : BitVec 32 × Machine) :
    space.copyArgument argv i s = space.storeThrough (arg ++ [0]) s := by
  have hlength : arg.length + 1 = (arg ++ [0]).length := by simp
  rw [copyArgument, argument_eq hdrop]
  change countedLoop (space.copyChar arg) 0 (arg.length + 1) s = _
  rw [hlength]
  apply copyChars_eq
  intro k hk
  rw [Nat.zero_add, List.getElem_append]
  split
  next hlt => simp [hlt]
  next hge => simp [List.getD, List.getElem?_eq_none (not_lt.mp hge)]

/-- The loop over the arguments. -/
theorem copyStrings_eq
    {argv rest : List CString} {i : ℕ} (hdrop : argv.drop i = rest)
    (s : BitVec 32 × Machine) :
    countedLoop (space.copyArgument argv) i rest.length s =
      space.storeThrough (block rest) s := by
  induction rest generalizing i s with
  | nil =>
      rw [List.length_nil, countedLoop_zero, storeThrough, block,
        List.flatMap_nil, storeBytes, pure_bind]
      simp
  | cons arg rest ih =>
      rw [List.length_cons, countedLoop_succ, copyArgument_eq space hdrop,
        block_cons, space.storeThrough_append (arg ++ [0]) (block rest)]
      exact bind_congr fun s' => ih (drop_succ_eq hdrop) s'

/-- The loop over the pointers. -/
theorem copyPointers_eq
    {argv rest : List CString} {i : ℕ} (hdrop : argv.drop i = rest)
    {vaddr : BitVec 32} (haligned : vaddr.toNat % 4 = 0) (ptr : BitVec 32)
    (m : Machine) :
    countedLoop (space.copyPointer argv) i rest.length (vaddr, ptr, m) =
      (space.storeThrough ((pointers ptr rest).flatMap wordBytes) (vaddr, m)
        >>= fun s => pure (s.1, ptr + BitVec.ofNat 32 (block rest).length,
          s.2)) := by
  induction rest generalizing i vaddr ptr m with
  | nil =>
      simp only [List.length_nil, countedLoop_zero, storeThrough, block,
        pointers, List.flatMap_nil, storeBytes, pure_bind]
      simp
  | cons arg rest ih =>
      have hsize : BitVec.ofNat 32 (block (arg :: rest)).length =
          argumentSize arg + BitVec.ofNat 32 (block rest).length := by
        rw [argumentSize, ← BitVec.ofNat_add, block_cons, List.length_append,
          List.length_append, List.length_singleton]
      have hnext : (vaddr + 4).toNat % 4 = 0 := by
        rw [BitVec.toNat_add]
        simp
        omega
      have hround : space.copyPointer argv i (vaddr, ptr, m) =
          space.storeThrough (wordBytes ptr) (vaddr, m) >>= fun s =>
            pure (s.1, ptr + argumentSize arg, s.2) := by
        have hword := space.storeWord_eq haligned ptr m
        simp only [copyPointer, argument_eq hdrop, storeThrough, ← hword,
          bind_assoc, pure_bind]
        rfl
      have hadvance : BitVec.ofNat 32 (wordBytes ptr).length = 4 := rfl
      rw [List.length_cons, countedLoop_succ, hround, pointers,
        List.flatMap_cons, storeThrough_append, hsize]
      simp only [bind_assoc, pure_bind]
      rw [storeThrough, hadvance]
      simp only [bind_assoc, pure_bind]
      refine bind_congr fun m' => ?_
      rw [ih (drop_succ_eq hdrop) hnext, BitVec.add_assoc]

end Block

theorem toNat_alignDown {n : ℕ} (vaddr : BitVec 32) :
    (alignDown vaddr n).toNat = vaddr.toNat - vaddr.toNat % n := by
  have hle := Nat.mod_le vaddr.toNat n
  have hlt := vaddr.isLt
  have hsmall : vaddr.toNat % n < 2 ^ 32 := by omega
  rw [alignDown, BitVec.toNat_sub_of_le]
  · rw [BitVec.toNat_ofNat, Nat.mod_eq_of_lt hsmall]
  · rw [BitVec.le_def, BitVec.toNat_ofNat, Nat.mod_eq_of_lt hsmall]
    exact hle

/-- Where the strings start. -/
def stringsAt (space : AddrSpace) (argv : List CString) : BitVec 32 :=
  BitVec.ofNat 32 (pageSize * space.numPages) - 8 -
    BitVec.ofNat 32 (block argv).length

/-- Where the array of pointers starts. -/
def arrayAt (space : AddrSpace) (argv : List CString) : BitVec 32 :=
  alignDown (space.stringsAt argv -
    (BitVec.ofNat 32 argv.length + 1) * 4) 4

/-- The space after `Load` has set its fields for the arguments. -/
def withArguments (space : AddrSpace) (argv : List CString) : AddrSpace :=
  { space with
    argv := space.arrayAt argv
    argc := BitVec.ofNat 32 argv.length
    stackptr := alignDown (space.arrayAt argv - 4) 8 }

theorem physicalPages_withArguments
    (space : AddrSpace) (argv : List CString) :
    (space.withArguments argv).physicalPages = space.physicalPages := by
  simp only [physicalPages, withArguments]

theorem arrayAt_aligned (space : AddrSpace) (argv : List CString) :
    (space.arrayAt argv).toNat % 4 = 0 := by
  rw [arrayAt, toNat_alignDown]
  omega

/-- The strings are stored, and then the array of pointers to them. -/
theorem copyArguments_eq
    (space : AddrSpace) (m : Machine) (argv : List CString) :
    space.copyArguments m argv.length argv =
      (space.storeBytes (space.stringsAt argv) (block argv) m >>=
        space.storeBytes (space.arrayAt argv)
          (pointerArray (space.stringsAt argv) argv)) >>= fun m =>
        pure (space.withArguments argv, m) := by
  have haligned := space.arrayAt_aligned argv
  have hargc : BitVec.ofInt 32 argv.length = BitVec.ofNat 32 argv.length :=
    BitVec.ofInt_natCast 32 argv.length
  have hend : (space.arrayAt argv + BitVec.ofNat 32
      ((pointers (space.stringsAt argv) argv).flatMap wordBytes).length
        ).toNat % 4 = 0 := by
    rw [length_flatMap_wordBytes, BitVec.toNat_add, BitVec.toNat_ofNat]
    omega
  unfold copyArguments
  simp only [Int.toNat_natCast, hargc,
    measureArguments_eq (List.drop_zero (l := argv)),
    copyStrings_eq space (List.drop_zero (l := argv))]
  change (space.storeThrough (block argv) (space.stringsAt argv, m) >>=
    fun s => countedLoop (space.copyPointer argv) 0 argv.length
      (space.arrayAt argv, space.stringsAt argv, s.2) >>= fun t =>
        space.physicalAddress t.1 >>= fun paddr =>
          t.2.2.storeValue paddr 0 4 >>= fun m =>
            pure (space.withArguments argv, m)) = _
  simp only [storeThrough, bind_assoc, pure_bind]
  refine bind_congr fun m' => ?_
  rw [copyPointers_eq space (List.drop_zero (l := argv)) haligned,
    pointerArray, List.flatMap_append, storeBytes_append]
  simp only [storeThrough, bind_assoc, pure_bind]
  refine bind_congr fun m' => ?_
  rw [← bind_assoc, storeWord_eq space hend, List.flatMap_singleton]

/-! ## When the block fits -/

theorem length_le_block (argv : List CString) :
    argv.length ≤ (block argv).length := by
  induction argv with
  | nil => exact le_rfl
  | cons arg argv ih =>
      rw [block_cons, List.length_append, List.length_append,
        List.length_singleton, List.length_cons]
      omega

/-- The room for the arguments in a space of so many pages. -/
def ArgumentsFit (numPages : ℕ) (argv : List CString) : Prop :=
  (block argv).length + 4 * (argv.length + 1) + 8 ≤ numPages * pageSize

instance (numPages : ℕ) (argv : List CString) :
    Decidable (ArgumentsFit numPages argv) := by
  unfold ArgumentsFit
  infer_instance

section Room

variable {space : AddrSpace} {entries : List TranslationEntry}
variable {argv : List CString}

theorem toNat_stringsAt (argv : List CString)
    (hsmall : space.numPages ≤ numPhysPages) :
    (space.stringsAt argv).toNat =
      (2 ^ 32 - (block argv).length % 2 ^ 32 +
        (2 ^ 32 - 8 + space.numPages * pageSize) % 2 ^ 32) % 2 ^ 32 := by
  have hsize : space.numPages * pageSize ≤ 16384 :=
    Nat.mul_le_mul_right pageSize hsmall
  have height : (8 : BitVec 32).toNat = 8 := rfl
  rw [stringsAt, Nat.mul_comm pageSize, BitVec.toNat_sub, BitVec.toNat_sub,
    BitVec.toNat_ofNat, BitVec.toNat_ofNat, height,
    Nat.mod_eq_of_lt (a := space.numPages * pageSize) (by omega)]

theorem toNat_arraySize (argv : List CString)
    (hsmall : argv.length ≤ memorySize) :
    ((BitVec.ofNat 32 argv.length + 1) * 4).toNat =
      4 * (argv.length + 1) := by
  have hbound : memorySize = 16384 := rfl
  have hone : (1 : BitVec 32).toNat = 1 := rfl
  have hfour : (4 : BitVec 32).toNat = 4 := rfl
  rw [BitVec.toNat_mul, BitVec.toNat_add, BitVec.toNat_ofNat, hone, hfour]
  omega

theorem toNat_arrayAt (hsmall : space.numPages ≤ numPhysPages)
    (hfits : ArgumentsFit space.numPages argv) :
    (space.arrayAt argv).toNat + 4 * (argv.length + 1) ≤
      (space.stringsAt argv).toNat := by
  have hsize : space.numPages * pageSize ≤ 16384 :=
    Nat.mul_le_mul_right pageSize hsmall
  have hlength := length_le_block argv
  unfold ArgumentsFit at hfits
  have hstrings := toNat_stringsAt argv hsmall
  have harray := toNat_arraySize argv
    (show argv.length ≤ 16384 by omega)
  rw [arrayAt, toNat_alignDown, BitVec.toNat_sub, hstrings, harray]
  omega

/-- What `Load` leaves of the arguments in the memory of the process. -/
structure ArgumentsStored (space : AddrSpace)
    (entries : List TranslationEntry) (argv : List CString)
    (m m' : Machine) : Prop where
  writes : space.Writes m m'
  strings : (install entries m').HoldsBytes (space.stringsAt argv)
    (block argv)
  array : (install entries m').HoldsBytes (space.arrayAt argv)
    (pointerArray (space.stringsAt argv) argv)

/-- The strings are stored, and then the array, at the addresses of `Load`. -/
theorem Mapped.storeArguments (hmap : space.Mapped entries) (m : Machine)
    (hfits : ArgumentsFit space.numPages argv) :
    ∃ m₁ m', space.copyArguments m argv.length argv =
        .ok (space.withArguments argv, m') ∧
      space.Stored entries (space.stringsAt argv) (block argv) m m₁ ∧
      space.Stored entries (space.arrayAt argv)
        (pointerArray (space.stringsAt argv) argv) m₁ m' := by
  have hroom := hfits
  unfold ArgumentsFit at hroom
  have hsize : space.numPages * pageSize ≤ 16384 := hmap.size_le
  have hstrings := toNat_stringsAt argv hmap.small
  have harray := toNat_arrayAt hmap.small hfits
  rcases hmap.storeBytes (block argv) (space.stringsAt argv) m (by omega)
    with ⟨m₁, hfirst, hblock⟩
  rcases hmap.storeBytes (pointerArray (space.stringsAt argv) argv)
    (space.arrayAt argv) m₁
    (by rw [length_pointerArray]; omega) with ⟨m', hsecond, hpointers⟩
  refine ⟨m₁, m', ?_, hblock, hpointers⟩
  rw [copyArguments_eq, hfirst]
  change space.storeBytes (space.arrayAt argv)
    (pointerArray (space.stringsAt argv) argv) m₁ >>= _ = _
  rw [hsecond]
  rfl

theorem Mapped.copyArguments (hmap : space.Mapped entries) (m : Machine)
    (hfits : ArgumentsFit space.numPages argv) :
    ∃ m', space.copyArguments m argv.length argv =
        .ok (space.withArguments argv, m') ∧
      space.ArgumentsStored entries argv m m' := by
  have hroom := hfits
  unfold ArgumentsFit at hroom
  have hsize : space.numPages * pageSize ≤ 16384 := hmap.size_le
  have hstrings := toNat_stringsAt argv hmap.small
  have harray := toNat_arrayAt hmap.small hfits
  rcases hmap.storeArguments m hfits with ⟨m₁, m', hcopy, hblock, hpointers⟩
  refine ⟨m', hcopy, hblock.writes.trans hpointers.writes, ?_,
    hpointers.holds⟩
  apply hblock.holds.of_sameOutside (hmap.distinct m₁)
    (sameMapping_install hpointers.writes) hpointers.outside
  intro i hi j hj heq
  rw [length_pointerArray] at hj
  have hnat := congrArg BitVec.toNat heq
  simp only [BitVec.toNat_add, BitVec.toNat_ofNat] at hnat
  omega

theorem Mapped.copyArguments_misfit (hmap : space.Mapped entries)
    (m : Machine) (hmisfit : ¬ArgumentsFit space.numPages argv) :
    space.copyArguments m argv.length argv = .error .undefinedBehaviour := by
  have hsize : space.numPages * pageSize ≤ 16384 := hmap.size_le
  have hpages : space.numPages * pageSize % 128 = 0 := Nat.mul_mod_left _ _
  have hlength := length_le_block argv
  have hstrings := toNat_stringsAt argv hmap.small
  unfold ArgumentsFit at hmisfit
  rw [copyArguments_eq]
  by_cases hblock : block argv ≠ [] ∧
      space.numPages * pageSize < (block argv).length + 8
  · have hout : space.storeBytes (space.stringsAt argv) (block argv) m =
        .error .undefinedBehaviour :=
      hmap.storeBytes_outside m hblock.1 (by omega)
    rw [hout]
    rfl
  · -- The strings are stored, but the array starts before the space.
    have hshort : (block argv).length = 0 ∨
        (block argv).length + 8 ≤ space.numPages * pageSize := by
      rw [not_and_or, not_not, not_lt] at hblock
      exact hblock.imp_left fun hnil => by rw [hnil, List.length_nil]
    have hstored : ∃ m', space.storeBytes (space.stringsAt argv)
        (block argv) m = .ok m' := by
      rcases hshort with hempty | hroom
      · rw [List.length_eq_zero_iff.mp hempty]
        exact ⟨m, rfl⟩
      · rcases hmap.storeBytes (block argv) (space.stringsAt argv) m
          (by omega) with ⟨m', hok, -⟩
        exact ⟨m', hok⟩
    rcases hstored with ⟨m', hok⟩
    have hne : pointerArray (space.stringsAt argv) argv ≠ [] := by
      rw [← List.length_pos_iff, length_pointerArray]
      omega
    have hout : space.storeBytes (space.arrayAt argv)
        (pointerArray (space.stringsAt argv) argv) m' =
          .error .undefinedBehaviour := by
      apply hmap.storeBytes_outside m' hne
      have hcount := toNat_arraySize argv
        (show argv.length ≤ 16384 by omega)
      rw [arrayAt, toNat_alignDown, BitVec.toNat_sub, hcount, hstrings]
      omega
    rw [hok]
    change (space.storeBytes (space.arrayAt argv)
      (pointerArray (space.stringsAt argv) argv) m' >>= _) = _
    rw [hout]
    rfl

end Room

end AddrSpace

end Nachos
