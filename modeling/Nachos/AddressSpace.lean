import Nachos.Machine

/-!
# Address spaces: the allocation of `userprog/addrspace.cc`

The constructor of `AddrSpace` has an empty body, so that a new address space
holds whatever the memory it was given holds.  `AllocateMemory` takes one
frame after the other from `pageTableMap`, and writes its zeros only when the
page table is complete.
-/

namespace Nachos

open Library

/-- What a pointer to a page table points at. -/
inductive TablePointer
  | null
  | wild
  | table (entries : List TranslationEntry)
  deriving DecidableEq

structure AddrSpace where
  stackptr : BitVec 32
  argc : BitVec 32
  argv : BitVec 32
  pageTable : TablePointer
  numPages : ℕ
  deriving DecidableEq

/-! ## Bits by their number -/

namespace Bitmap

/-- The number is one of the bitmap, and its bit is set. -/
def Holds (b : Bitmap) (which : ℤ) : Prop :=
  b.InRange which ∧ b.bit which.toNat = true

theorem holds_setBit
    {b : Bitmap} {i : ℕ} (hlt : i < b.numBits) (which : ℤ) :
    (b.setBit i).Holds which ↔ b.Holds which ∨ which = i := by
  have hrange := inRange_natCast hlt
  have hnat : 0 ≤ which → (which.toNat = i ↔ which = i) := by omega
  simp only [Holds, InRange, numBits_setBit, bit_setBit hlt,
    Bool.or_eq_true, decide_eq_true_eq] at hrange ⊢
  constructor
  · rintro ⟨hwhich, hold | heq⟩
    · exact .inl ⟨hwhich, hold⟩
    · exact .inr ((hnat hwhich.1).mp heq)
  · rintro (⟨hwhich, hold⟩ | rfl)
    · exact ⟨hwhich, .inl hold⟩
    · exact ⟨hrange, .inr (Int.toNat_natCast i)⟩

theorem holds_clearBit
    {b : Bitmap} {i : ℕ} (hlt : i < b.numBits) (which : ℤ) :
    (b.clearBit i).Holds which ↔ b.Holds which ∧ which ≠ i := by
  have hnat : 0 ≤ which → (which.toNat ≠ i ↔ which ≠ i) := by omega
  simp only [Holds, InRange, numBits_clearBit, bit_clearBit hlt,
    Bool.and_eq_true, decide_eq_true_eq]
  constructor
  · rintro ⟨hwhich, hold, hne⟩
    exact ⟨⟨hwhich, hold⟩, (hnat hwhich.1).mp hne⟩
  · rintro ⟨⟨hwhich, hold⟩, hne⟩
    exact ⟨hwhich, hold, (hnat hwhich.1).mpr hne⟩

theorem holds_natCast
    {b : Bitmap} {i : ℕ} (hlt : i < b.numBits) :
    b.Holds i ↔ b.bit i = true := by
  simp [Holds, inRange_natCast hlt]

/-- A bitmap that is not full grants a bit that was clear. -/
theorem findAndSet_of_card_lt
    {b : Bitmap} (hfree : b.marked.card < b.numBits) :
    ∃ i < b.numBits, b.bit i = false ∧
      b.findAndSet = .ok ((i : ℤ), b.setBit i) := by
  rcases b.findAndSet_cases with ⟨-, hall⟩ | ⟨i, hlt, hclear, -, hfind⟩
  · have hmarked : b.marked = Finset.range b.numBits := by
      ext which
      simp only [mem_marked, Finset.mem_range, and_iff_left_iff_imp]
      exact hall which
    rw [hmarked, Finset.card_range] at hfree
    exact (lt_irrefl _ hfree).elim
  · exact ⟨i, hlt, hclear, hfind⟩

end Bitmap

namespace AddrSpace

/-! ## The operations -/

/-- What the memory of a new address space holds. -/
structure Garbage where
  stackptr : BitVec 32
  argc : BitVec 32
  argv : BitVec 32
  pageTable : BitVec 32
  numPages : BitVec 32
  deriving DecidableEq

/-- `AddrSpace::AddrSpace`. -/
def new (garbage : Garbage) : AddrSpace where
  stackptr := garbage.stackptr
  argc := garbage.argc
  argv := garbage.argv
  pageTable := if garbage.pageTable = 0 then .null else .wild
  numPages := garbage.numPages.toNat

/-- `pageTable[i]`. -/
def entry (space : AddrSpace) (i : ℕ) : Except Fault TranslationEntry :=
  match space.pageTable with
  | .table entries =>
      match entries[i]? with
      | some entry => .ok entry
      | none => .error .undefinedBehaviour
  | _ => .error .undefinedBehaviour

/-- The entry `AllocateMemory` makes for a page. -/
def newEntry (virtualPage : ℕ) (frame : ℤ) : TranslationEntry where
  virtualPage := virtualPage
  physicalPage := frame
  valid := true
  readOnly := false
  use := false
  dirty := false

/-- One round of the loop that fills the page table. -/
def grantPage (i : ℕ) (s : Bitmap × List TranslationEntry) :
    Except Fault (Bitmap × List TranslationEntry) := do
  let (frame, bm) ← s.1.findAndSet
  return (bm, s.2 ++ [newEntry i frame])

/-- One round of the loop that zeroes the frames. -/
def zeroPage (space : AddrSpace) (i : ℕ) (m : Machine) :
    Except Fault Machine := do
  let entry ← space.entry i
  countedLoop
    (fun j m => m.store (entry.physicalPage * pageSize + j) 0) 0 pageSize m

/-- `AddrSpace::AllocateMemory`. -/
def allocateMemory (space : AddrSpace) (m : Machine) (numPages : ℕ) :
    Except Fault (AddrSpace × Machine) := do
  let (bm, entries) ←
    countedLoop grantPage 0 numPages (m.pageTableMap, [])
  let space := { space with
    numPages := numPages, pageTable := .table entries }
  let m ← countedLoop space.zeroPage 0 numPages
    { m with pageTableMap := bm }
  return (space, m)

/-- One round of the loop of the destructor. -/
def clearPage (space : AddrSpace) (i : ℕ) (m : Machine) :
    Except Fault Machine := do
  let entry ← space.entry i
  let bm ← m.pageTableMap.clear entry.physicalPage
  return { m with pageTableMap := bm }

/-- `AddrSpace::~AddrSpace`. -/
def destroy (space : AddrSpace) (m : Machine) : Except Fault Machine := do
  let m ← countedLoop space.clearPage 0 space.numPages m
  match space.pageTable with
  | .wild => .error .undefinedBehaviour
  | _ => return m

/-! ## The page table -/

/-- The frames of a page table, in the order of the pages. -/
def physicalPages (space : AddrSpace) : List ℤ :=
  match space.pageTable with
  | .table entries => entries.map TranslationEntry.physicalPage
  | _ => []

/-- The entries `AllocateMemory` has made and the bitmap they left, when it
started with the bitmap `bm`. -/
structure Granted (bm bm' : Bitmap) (entries : List TranslationEntry) :
    Prop where
  numBits : bm'.numBits = bm.numBits
  card : bm'.marked.card = bm.marked.card + entries.length
  valid : ∀ entry ∈ entries, entry.valid = true
  inRange : ∀ entry ∈ entries, bm.InRange entry.physicalPage
  nodup : (entries.map TranslationEntry.physicalPage).Nodup
  free : ∀ entry ∈ entries, ¬bm.Holds entry.physicalPage
  taken : ∀ which, bm'.Holds which ↔
    bm.Holds which ∨ which ∈ entries.map TranslationEntry.physicalPage

theorem Granted.grantPage
    {bm bm' : Bitmap} {entries : List TranslationEntry}
    (hgranted : Granted bm bm' entries)
    (hfree : bm'.marked.card < bm'.numBits) (i : ℕ) :
    ∃ s, grantPage i (bm', entries) = .ok s ∧
      s.2.length = entries.length + 1 ∧ Granted bm s.1 s.2 := by
  rcases Bitmap.findAndSet_of_card_lt hfree with ⟨frame, hlt, hclear, hfind⟩
  have hnew : ¬bm'.Holds frame := by
    rw [Bitmap.holds_natCast hlt, hclear]
    simp
  have hnew' : ¬(bm.Holds frame ∨
      (frame : ℤ) ∈ entries.map TranslationEntry.physicalPage) := by
    rwa [← hgranted.taken]
  push Not at hnew'
  have hround : AddrSpace.grantPage i (bm', entries) =
      .ok (bm'.setBit frame, entries ++ [newEntry i frame]) := by
    simp only [AddrSpace.grantPage, hfind]
    rfl
  refine ⟨_, hround, by simp, ?_⟩
  constructor
  case numBits => exact hgranted.numBits
  case card =>
    have hmem : frame ∉ bm'.marked := by simp [hclear]
    rw [Bitmap.marked_setBit hlt, Finset.card_insert_of_notMem hmem,
      hgranted.card]
    simp
    omega
  case valid =>
    intro entry hentry
    rcases List.mem_append.mp hentry with hold | hlast
    · exact hgranted.valid entry hold
    · rw [List.mem_singleton.mp hlast, newEntry]
  case inRange =>
    intro entry hentry
    rcases List.mem_append.mp hentry with hold | hlast
    · exact hgranted.inRange entry hold
    · rw [List.mem_singleton.mp hlast]
      rw [hgranted.numBits] at hlt
      exact Bitmap.inRange_natCast hlt
  case nodup =>
    rw [List.map_append, List.map_singleton]
    apply hgranted.nodup.append (List.nodup_singleton _)
    intro which hold hlast
    rw [List.mem_singleton.mp hlast] at hold
    exact hnew'.2 hold
  case free =>
    intro entry hentry
    rcases List.mem_append.mp hentry with hold | hlast
    · exact hgranted.free entry hold
    · rw [List.mem_singleton.mp hlast]
      exact hnew'.1
  case taken =>
    intro which
    rw [Bitmap.holds_setBit hlt, hgranted.taken, List.map_append,
      List.map_singleton, List.mem_append, List.mem_singleton, or_assoc]
    rfl

/-- With enough free frames the page table is filled. -/
theorem grantPages_spec
    {bm : Bitmap} {numPages : ℕ}
    (hfree : bm.marked.card + numPages ≤ bm.numBits) :
    ∃ bm' entries, countedLoop grantPage 0 numPages (bm, []) =
        .ok (bm', entries) ∧
      entries.length = numPages ∧ Granted bm bm' entries := by
  let Inv : ℕ → Bitmap × List TranslationEntry → Prop := fun i s =>
    s.2.length = i ∧ Granted bm s.1 s.2
  have hstart : Inv 0 (bm, []) := by
    refine ⟨rfl, ?_⟩
    constructor <;> simp
  have hround : ∀ i s, 0 ≤ i → i < 0 + numPages → Inv i s →
      ∃ s', grantPage i s = .ok s' ∧ Inv (i + 1) s' := by
    rintro i ⟨bm', entries⟩ - hlt ⟨hlength, hgranted⟩
    simp only at hlength hgranted
    have hroom : bm'.marked.card < bm'.numBits := by
      rw [hgranted.card, hgranted.numBits]
      omega
    rcases hgranted.grantPage hroom i with ⟨s, hs, hlength', hnew⟩
    exact ⟨s, hs, by omega, hnew⟩
  rcases countedLoop_spec Inv hstart hround with
    ⟨⟨bm', entries⟩, hloop, hlength, hgranted⟩
  exact ⟨bm', entries, hloop, by simpa using hlength, hgranted⟩

/-! ## Zeroed frames -/

/-- The memory after the frames `pages` have been zeroed. -/
def zeroed (pages : List ℤ) (memory : ℕ → BitVec 8) (a : ℕ) : BitVec 8 :=
  if ((a / pageSize : ℕ) : ℤ) ∈ pages then 0 else memory a

@[simp] theorem zeroed_nil (memory : ℕ → BitVec 8) :
    zeroed [] memory = memory := rfl

theorem zeroed_append (pages more : List ℤ) (memory : ℕ → BitVec 8) :
    zeroed (pages ++ more) memory = zeroed more (zeroed pages memory) := by
  funext a
  simp only [zeroed, List.mem_append]
  split_ifs <;> simp_all

/-- Zeroing one frame. -/
theorem zeroFrame_spec
    (m : Machine) {frame : ℕ} (hlt : frame < numPhysPages) :
    countedLoop (fun j m => m.store ((frame : ℤ) * pageSize + j) 0)
        0 pageSize m =
      .ok { m with mainMemory := zeroed [(frame : ℤ)] m.mainMemory } := by
  let Inv : ℕ → Machine → Prop := fun j m' =>
    m' = { m with mainMemory := fun a =>
      if frame * pageSize ≤ a ∧ a < frame * pageSize + j then 0
      else m.mainMemory a }
  have hstart : Inv 0 m := by
    have hnone : ∀ a, ¬(frame * pageSize ≤ a ∧ a < frame * pageSize + 0) := by
      omega
    simp only [Inv, hnone, if_false]
  have hround : ∀ j m', 0 ≤ j → j < 0 + pageSize → Inv j m' →
      ∃ m'', m'.store ((frame : ℤ) * pageSize + j) 0 = .ok m'' ∧
        Inv (j + 1) m'' := by
    rintro j m' - hj rfl
    have hfits : frame * pageSize + j < memorySize := by
      unfold memorySize numPhysPages pageSize at *
      omega
    refine ⟨_, by exact_mod_cast Machine.store_eq hfits 0, ?_⟩
    simp only [Inv]
    congr 1
    funext a
    simp only [Function.update_apply]
    grind
  rcases countedLoop_spec Inv hstart hround with ⟨m', hloop, hlast⟩
  have hframe : ∀ a,
      frame * pageSize ≤ a ∧ a < frame * pageSize + (0 + pageSize) ↔
        ((a / pageSize : ℕ) : ℤ) ∈ [(frame : ℤ)] := by
    intro a
    rw [List.mem_singleton, Int.natCast_inj]
    unfold pageSize
    omega
  simp only [Inv, hframe] at hlast
  rw [hloop, hlast]
  rfl

theorem entry_eq
    {space : AddrSpace} {entries : List TranslationEntry} {i : ℕ}
    (htable : space.pageTable = .table entries) (hlt : i < entries.length) :
    space.entry i = .ok entries[i] := by
  simp [entry, htable, hlt]

/-- Zeroing the frames of a page table that has frames only. -/
theorem zeroPages_spec
    {space : AddrSpace} {entries : List TranslationEntry} (m : Machine)
    (htable : space.pageTable = .table entries)
    (hrange : ∀ entry ∈ entries,
      0 ≤ entry.physicalPage ∧ entry.physicalPage < numPhysPages) :
    countedLoop space.zeroPage 0 entries.length m =
      .ok { m with
        mainMemory := zeroed (entries.map TranslationEntry.physicalPage)
          m.mainMemory } := by
  let pages := entries.map TranslationEntry.physicalPage
  let Inv : ℕ → Machine → Prop := fun i m' =>
    m' = { m with mainMemory := zeroed (pages.take i) m.mainMemory }
  have hstart : Inv 0 m := by
    simp [Inv]
  have hround : ∀ i m', 0 ≤ i → i < 0 + entries.length → Inv i m' →
      ∃ m'', space.zeroPage i m' = .ok m'' ∧ Inv (i + 1) m'' := by
    rintro i m' - hi rfl
    have hlt : i < entries.length := by omega
    rcases hrange entries[i] (List.getElem_mem hlt) with ⟨hnonneg, hbelow⟩
    obtain ⟨frame, hframe⟩ := Int.eq_ofNat_of_zero_le hnonneg
    have hzero : ∀ before : Machine, space.zeroPage i before =
        .ok { before with
          mainMemory := zeroed [(frame : ℤ)] before.mainMemory } := by
      intro before
      have hloop := zeroFrame_spec before
        (show frame < numPhysPages by omega)
      rw [← hframe] at hloop ⊢
      simp only [zeroPage, entry_eq htable hlt]
      exact hloop
    have htake : pages.take (i + 1) = pages.take i ++ [(frame : ℤ)] := by
      rw [List.take_add_one]
      simp [pages, hlt, hframe]
    refine ⟨_, hzero _, ?_⟩
    simp only [Inv, htake, zeroed_append]
  rcases countedLoop_spec Inv hstart hround with ⟨m', hloop, hlast⟩
  have hall : pages.take (0 + entries.length) = pages := by
    simp [pages]
  rw [hloop, hlast, hall]

/-- `AllocateMemory` with enough free frames. -/
theorem allocateMemory_spec
    (space : AddrSpace) {m : Machine} {numPages : ℕ}
    (hbits : m.pageTableMap.numBits = numPhysPages)
    (hfree : m.pageTableMap.marked.card + numPages ≤ numPhysPages) :
    ∃ bm entries, entries.length = numPages ∧
      Granted m.pageTableMap bm entries ∧
      space.allocateMemory m numPages =
        .ok ({ space with numPages := numPages, pageTable := .table entries },
          { m with
            pageTableMap := bm
            mainMemory := zeroed (entries.map TranslationEntry.physicalPage)
              m.mainMemory }) := by
  rw [← hbits] at hfree
  rcases grantPages_spec hfree with ⟨bm, entries, hloop, hlength, hgranted⟩
  refine ⟨bm, entries, hlength, hgranted, ?_⟩
  have hrange : ∀ entry ∈ entries,
      0 ≤ entry.physicalPage ∧ entry.physicalPage < numPhysPages := by
    intro entry hentry
    rw [← hbits]
    exact hgranted.inRange entry hentry
  have hzero := @zeroPages_spec
    { space with numPages := numPages, pageTable := .table entries } entries
    { m with pageTableMap := bm } rfl hrange
  rw [hlength] at hzero
  simp only [allocateMemory, hloop, bind, Except.bind, hzero]
  rfl

/-! ## The destructor -/

/-- The destructor of a space with a page table of frames. -/
theorem destroy_spec
    {space : AddrSpace} {entries : List TranslationEntry} {m : Machine}
    (htable : space.pageTable = .table entries)
    (hlength : entries.length = space.numPages)
    (hrange : ∀ entry ∈ entries, m.pageTableMap.InRange entry.physicalPage) :
    ∃ bm, space.destroy m = .ok { m with pageTableMap := bm } ∧
      bm.numBits = m.pageTableMap.numBits ∧
      ∀ which, bm.Holds which ↔ m.pageTableMap.Holds which ∧
        which ∉ entries.map TranslationEntry.physicalPage := by
  let Inv : ℕ → Machine → Prop := fun i m' =>
    ∃ bm, m' = { m with pageTableMap := bm } ∧
      bm.numBits = m.pageTableMap.numBits ∧
      ∀ which, bm.Holds which ↔ m.pageTableMap.Holds which ∧
        which ∉ (entries.map TranslationEntry.physicalPage).take i
  have hstart : Inv 0 m := ⟨m.pageTableMap, rfl, rfl, by simp⟩
  have hround : ∀ i m', 0 ≤ i → i < 0 + space.numPages → Inv i m' →
      ∃ m'', space.clearPage i m' = .ok m'' ∧ Inv (i + 1) m'' := by
    rintro i m' - hi ⟨bm, rfl, hbits, hholds⟩
    have hlt : i < entries.length := by omega
    have hin := hrange entries[i] (List.getElem_mem hlt)
    obtain ⟨frame, hframe⟩ := Int.eq_ofNat_of_zero_le hin.1
    have hframeLt : frame < bm.numBits := by
      rw [hbits]
      have hbelow := hin.2
      rw [hframe] at hbelow
      exact_mod_cast hbelow
    refine ⟨{ m with pageTableMap := bm.clearBit frame }, ?_,
      bm.clearBit frame, rfl, hbits, ?_⟩
    · simp only [clearPage, entry_eq htable hlt, hframe, bind, Except.bind,
        Bitmap.clear_eq hframeLt]
      rfl
    · intro which
      have htake : (entries.map TranslationEntry.physicalPage).take (i + 1) =
          (entries.map TranslationEntry.physicalPage).take i ++
            [(frame : ℤ)] := by
        rw [List.take_add_one]
        simp [hlt, hframe]
      rw [Bitmap.holds_clearBit hframeLt, hholds, htake, List.mem_append,
        List.mem_singleton, not_or, and_assoc]
  rcases countedLoop_spec Inv hstart hround with
    ⟨m', hloop, bm, rfl, hbits, hholds⟩
  refine ⟨bm, ?_, hbits, ?_⟩
  · simp only [destroy, hloop, htable, bind, Except.bind]
    rfl
  · intro which
    rw [hholds, List.take_of_length_le (by simp [hlength])]

end AddrSpace

end Nachos
