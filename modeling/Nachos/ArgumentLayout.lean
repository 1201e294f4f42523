import Nachos.ArgumentPassing

/-!
# The layout of the argument block

The array of pointers and the stack pointer are found by two loops that go
down to a multiple of four and of eight.  Between the two there are four bytes
or eight, depending on the number of words in the block.
-/

namespace Nachos

open Library

namespace AddrSpace

/-! ## Positions -/

/-- The words of the strings, rounded up, and of the array of pointers. -/
def blockWords (argv : List CString) : ℕ :=
  divRoundUp (block argv).length 4 + (argv.length + 1)

theorem block_take_succ
    {argv : List CString} {arg : CString} {i : ℕ} (harg : argv[i]? = some arg) :
    (block (argv.take (i + 1))).length =
      (block (argv.take i)).length + arg.length + 1 := by
  obtain ⟨hlt, hget⟩ := List.getElem?_eq_some_iff.mp harg
  have hblock : block (argv.take (i + 1)) =
      block (argv.take i) ++ (arg ++ [0]) := by
    rw [← List.take_append_getElem hlt, hget, block, List.flatMap_append,
      List.flatMap_singleton, ← block]
  rw [hblock, List.length_append, List.length_append, List.length_singleton,
    add_assoc]

theorem block_take_le
    (argv : List CString) {i j : ℕ} (hle : i ≤ j) :
    (block (argv.take i)).length ≤ (block (argv.take j)).length :=
  ((List.take_prefix_take_left hle).flatMap _).length_le

/-- A string of the block starts where the strings before it end. -/
theorem pointers_getElem?
    (ptr : BitVec 32) {argv : List CString} {i : ℕ} (hlt : i < argv.length) :
    (pointers ptr argv)[i]? =
      some (ptr + BitVec.ofNat 32 (block (argv.take i)).length) := by
  induction argv generalizing ptr i with
  | nil => simp at hlt
  | cons arg argv ih =>
      cases i with
      | zero => simp [pointers, block]
      | succ i =>
          have hsize : BitVec.ofNat 32
              (block ((arg :: argv).take (i + 1))).length =
                argumentSize arg +
                  BitVec.ofNat 32 (block (argv.take i)).length := by
            rw [List.take_succ_cons, argumentSize, ← BitVec.ofNat_add,
              block_cons, List.length_append, List.length_append,
              List.length_singleton]
          rw [pointers, List.getElem?_cons_succ,
            ih _ (by simpa using hlt), hsize, BitVec.add_assoc]

section Positions

variable {space : AddrSpace} {argv : List CString}

theorem toNat_stringsAt_of_fits (hsmall : space.numPages ≤ numPhysPages)
    (hfits : ArgumentsFit space.numPages argv) :
    (space.stringsAt argv).toNat + (block argv).length + 8 =
      space.numPages * pageSize := by
  have hsize : space.numPages * pageSize ≤ 16384 :=
    Nat.mul_le_mul_right pageSize hsmall
  have hstrings := toNat_stringsAt argv hsmall
  unfold ArgumentsFit at hfits
  omega

/-- Below the strings there is room for the array. -/
theorem toNat_belowStrings (hsmall : space.numPages ≤ numPhysPages)
    (hfits : ArgumentsFit space.numPages argv) :
    (space.stringsAt argv -
        (BitVec.ofNat 32 argv.length + 1) * 4).toNat + 4 * (argv.length + 1) =
      (space.stringsAt argv).toNat := by
  have hsize : space.numPages * pageSize ≤ 16384 :=
    Nat.mul_le_mul_right pageSize hsmall
  have hlength := length_le_block argv
  have hstrings := toNat_stringsAt_of_fits hsmall hfits
  unfold ArgumentsFit at hfits
  have harray := toNat_arraySize argv
    (show argv.length ≤ 16384 by omega)
  rw [BitVec.toNat_sub, harray]
  omega

/-- The array starts below its words and the slack. -/
theorem toNat_arrayAt_words (hsmall : space.numPages ≤ numPhysPages)
    (hfits : ArgumentsFit space.numPages argv) :
    (space.arrayAt argv).toNat + 4 * blockWords argv + 8 =
      space.numPages * pageSize := by
  have hpages : space.numPages * pageSize % 128 = 0 := Nat.mul_mod_left _ _
  have hstrings := toNat_stringsAt_of_fits hsmall hfits
  have hbelow := toNat_belowStrings hsmall hfits
  rw [arrayAt, toNat_alignDown, blockWords, divRoundUp]
  split <;> omega

/-- The stack pointer is eight bytes below an array of even words, else
four. -/
theorem stackptr_eq (hsmall : space.numPages ≤ numPhysPages)
    (hfits : ArgumentsFit space.numPages argv) :
    (space.withArguments argv).stackptr = space.arrayAt argv -
      if blockWords argv % 2 = 0 then 8 else 4 := by
  have hpages : space.numPages * pageSize % 128 = 0 := Nat.mul_mod_left _ _
  have hwords := toNat_arrayAt_words hsmall hfits
  have hfour : (4 : BitVec 32).toNat = 4 := rfl
  have height : (8 : BitVec 32).toNat = 8 := rfl
  apply BitVec.eq_of_toNat_eq
  change (alignDown (space.arrayAt argv - 4) 8).toNat = _
  rw [toNat_alignDown, BitVec.toNat_sub, hfour]
  split
  · rw [BitVec.toNat_sub, height]
    omega
  · rw [BitVec.toNat_sub, hfour]
    omega

end Positions

/-! ## The layout -/

/-- What the loops `while (vaddr % n != 0) vaddr--` skip. -/
def skipped (space : AddrSpace) (argv : List CString) : ℕ :=
  (space.stringsAt argv -
      (BitVec.ofNat 32 argv.length + 1) * 4).toNat % 4 +
    (space.arrayAt argv - 4).toNat % 8

/-- The slack, the strings, the words of the array, and the alignment. -/
def blockSize (space : AddrSpace) (argv : List CString) : ℕ :=
  8 + (block argv).length + 4 * (argv.length + 1) + space.skipped argv

/-- The arguments of a process in its memory, with the pointers to the
strings. -/
structure ArgumentLayout (space : AddrSpace) (m : Machine)
    (argv : List CString) (pointers : List (BitVec 32)) : Prop where
  argvAligned : space.argv.toNat % 4 = 0
  stackAligned : space.stackptr.toNat % 8 = 0
  stackBelow : space.stackptr.toNat + 4 ≤ space.argv.toNat
  count : pointers.length = argv.length
  word : ∀ (i : ℕ) (ptr : BitVec 32), pointers[i]? = some ptr →
    m.HoldsBytes (space.argv + BitVec.ofNat 32 (4 * i)) (wordBytes ptr)
  null : m.HoldsBytes (space.argv + BitVec.ofNat 32 (4 * argv.length))
    (wordBytes 0)
  string : ∀ (i : ℕ) (ptr : BitVec 32) (arg : CString),
    pointers[i]? = some ptr → argv[i]? = some arg → m.HoldsString ptr arg
  aboveArray : ∀ (i : ℕ) (ptr : BitVec 32), pointers[i]? = some ptr →
    space.argv.toNat + 4 * (argv.length + 1) ≤ ptr.toNat
  apart : ∀ (i j : ℕ) (ptr ptr' : BitVec 32) (arg : CString), i < j →
    pointers[i]? = some ptr → argv[i]? = some arg →
      pointers[j]? = some ptr' → ptr.toNat + (arg.length + 1) ≤ ptr'.toNat
  inside : ∀ (i : ℕ) (ptr : BitVec 32) (arg : CString),
    pointers[i]? = some ptr → argv[i]? = some arg →
      ptr.toNat + (arg.length + 1) ≤ space.numPages * pageSize
  arrayInside :
    space.argv.toNat + 4 * (argv.length + 1) ≤ space.numPages * pageSize

/-- A word of an array in memory. -/
theorem holdsBytes_word
    {m : Machine} {addr : BitVec 32} {words : List (BitVec 32)}
    (hholds : m.HoldsBytes addr (words.flatMap wordBytes)) {i : ℕ}
    {word : BitVec 32} (hword : words[i]? = some word) :
    m.HoldsBytes (addr + BitVec.ofNat 32 (4 * i)) (wordBytes word) := by
  induction words generalizing addr i with
  | nil => simp at hword
  | cons first words ih =>
      rw [List.flatMap_cons, Machine.HoldsBytes.append] at hholds
      cases i with
      | zero =>
          obtain rfl : first = word := by simpa using hword
          simpa using hholds.1
      | succ i =>
          have hnext := ih hholds.2 (i := i) (by simpa using hword)
          have hlength : (wordBytes first).length = 4 := rfl
          rwa [hlength, BitVec.add_assoc, ← BitVec.ofNat_add,
            show 4 + 4 * i = 4 * (i + 1) by ring] at hnext

section Layout

variable {space : AddrSpace} {entries : List TranslationEntry}
variable {argv : List CString}

theorem argumentsFit_of_blockSize
    (hroom : space.blockSize argv ≤ space.numPages * pageSize) :
    ArgumentsFit space.numPages argv := by
  unfold ArgumentsFit
  unfold blockSize at hroom
  omega

/-- A string ends before the next one starts. -/
theorem block_take_lt {i j : ℕ} {arg : CString} (harg : argv[i]? = some arg)
    (hij : i < j) : (block (argv.take i)).length + (arg.length + 1) ≤
      (block (argv.take j)).length := by
  have hsucc := block_take_succ harg
  have hle := block_take_le argv (show i + 1 ≤ j from hij)
  omega

theorem toNat_pointer (hsmall : space.numPages ≤ numPhysPages)
    (hfits : ArgumentsFit space.numPages argv) {i : ℕ} {ptr : BitVec 32}
    (hptr : (pointers (space.stringsAt argv) argv)[i]? = some ptr) :
    i < argv.length ∧ ptr.toNat =
      (space.stringsAt argv).toNat + (block (argv.take i)).length := by
  have hsize : space.numPages * pageSize ≤ 16384 :=
    Nat.mul_le_mul_right pageSize hsmall
  have hstrings := toNat_stringsAt_of_fits hsmall hfits
  have hlt := (List.getElem?_eq_some_iff.mp hptr).1
  rw [length_pointers] at hlt
  rw [pointers_getElem? _ hlt] at hptr
  have hle := block_take_le argv hlt.le
  rw [List.take_length] at hle
  refine ⟨hlt, ?_⟩
  rw [← Option.some.inj hptr, BitVec.toNat_add, BitVec.toNat_ofNat]
  omega

/-- With room for the alignment the stack pointer is below the array. -/
theorem stackptr_below (hsmall : space.numPages ≤ numPhysPages)
    (hroom : space.blockSize argv ≤ space.numPages * pageSize) :
    (space.withArguments argv).stackptr.toNat % 8 = 0 ∧
      (space.withArguments argv).stackptr.toNat + 4 ≤
        (space.arrayAt argv).toNat := by
  have hfits := argumentsFit_of_blockSize hroom
  have hpages : space.numPages * pageSize % 128 = 0 := Nat.mul_mod_left _ _
  have hsize : space.numPages * pageSize ≤ 16384 :=
    Nat.mul_le_mul_right pageSize hsmall
  have hwords := toNat_arrayAt_words hsmall hfits
  have hfour : (4 : BitVec 32).toNat = 4 := rfl
  have hbelow : (space.arrayAt argv - 4).toNat % 8 ≤
      (space.arrayAt argv).toNat := by
    have hstrings := toNat_stringsAt_of_fits hsmall hfits
    have hunaligned := toNat_belowStrings hsmall hfits
    have haligned : (space.arrayAt argv).toNat = _ := toNat_alignDown _
    unfold blockSize skipped at hroom
    omega
  change (alignDown (space.arrayAt argv - 4) 8).toNat % 8 = 0 ∧
    (alignDown (space.arrayAt argv - 4) 8).toNat + 4 ≤ _
  rw [BitVec.toNat_sub, hfour] at hbelow
  rw [toNat_alignDown, BitVec.toNat_sub, hfour]
  omega

/-- The block that `Load` has stored is laid out as the program expects. -/
theorem ArgumentsStored.layout {m m' : Machine}
    (hstored : space.ArgumentsStored entries argv m m')
    (hsmall : space.numPages ≤ numPhysPages)
    (hnonzero : ∀ arg ∈ argv, 0 ∉ arg)
    (hroom : space.blockSize argv ≤ space.numPages * pageSize) :
    (space.withArguments argv).ArgumentLayout (install entries m') argv
      (pointers (space.stringsAt argv) argv) := by
  have hfits := argumentsFit_of_blockSize hroom
  have hsize : space.numPages * pageSize ≤ 16384 :=
    Nat.mul_le_mul_right pageSize hsmall
  have hstrings := toNat_stringsAt_of_fits hsmall hfits
  have harray := toNat_arrayAt hsmall hfits
  have hstack := stackptr_below hsmall hroom
  constructor
  case argvAligned => exact space.arrayAt_aligned argv
  case stackAligned => exact hstack.1
  case stackBelow => exact hstack.2
  case count => exact length_pointers _ _
  case word =>
    intro i ptr hptr
    refine holdsBytes_word hstored.array ?_
    rw [List.getElem?_append_left (List.getElem?_eq_some_iff.mp hptr).1, hptr]
  case null =>
    refine holdsBytes_word hstored.array ?_
    rw [← length_pointers (space.stringsAt argv) argv]
    exact List.getElem?_concat_length
  case string =>
    intro i ptr arg hptr harg
    have hstring := List.Forall₂.get (strings_of_block hstored.strings)
      (List.getElem?_eq_some_iff.mp hptr).1
      (List.getElem?_eq_some_iff.mp harg).1
    refine ⟨hnonzero arg (List.mem_of_getElem? harg), ?_⟩
    simpa only [List.get_eq_getElem,
      (List.getElem?_eq_some_iff.mp hptr).2,
      (List.getElem?_eq_some_iff.mp harg).2] using hstring
  case aboveArray =>
    intro i ptr hptr
    obtain ⟨-, hnat⟩ := toNat_pointer hsmall hfits hptr
    change (space.arrayAt argv).toNat + _ ≤ _
    omega
  case apart =>
    intro i j ptr ptr' arg hij hptr harg hptr'
    obtain ⟨-, hnat⟩ := toNat_pointer hsmall hfits hptr
    obtain ⟨-, hnat'⟩ := toNat_pointer hsmall hfits hptr'
    have hle := block_take_lt harg hij
    omega
  case inside =>
    intro i ptr arg hptr harg
    obtain ⟨hlt, hnat⟩ := toNat_pointer hsmall hfits hptr
    have hle := block_take_lt harg hlt
    rw [List.take_length] at hle
    change _ ≤ space.numPages * pageSize
    omega
  case arrayInside =>
    change (space.arrayAt argv).toNat + _ ≤ space.numPages * pageSize
    omega

end Layout

/-- For every page table of distinct frames, and for the one that `Load` makes,
the block is laid out as the program expects. -/
theorem arguments_laid_out {argv : List CString}
    (hnonzero : ∀ arg ∈ argv, 0 ∉ arg) :
    (∀ (space : AddrSpace) (entries : List TranslationEntry) (m : Machine),
      space.Mapped entries →
      space.blockSize argv ≤ space.numPages * pageSize →
      ∃ m' pointers, space.copyArguments m argv.length argv =
          .ok (space.withArguments argv, m') ∧
        (space.withArguments argv).ArgumentLayout (install entries m') argv
          pointers) ∧
    (∀ (rdata : Bool) (space space' : AddrSpace) (k k' : Kernel)
        (garbage : LoadGarbage) (fileName : CString),
      k.machine.pageTableMap.numBits = numPhysPages →
      space.loadIn rdata k garbage fileName argv.length argv =
        .ok (true, space', k') →
      space'.blockSize argv ≤ space'.numPages * pageSize →
      ∃ entries pointers, space'.pageTable = .table entries ∧
        space'.ArgumentLayout (install entries k'.machine) argv
          pointers) := by
  constructor
  · intro space entries m hmap hroom
    have hfits : ArgumentsFit space.numPages argv := by
      unfold ArgumentsFit
      unfold blockSize at hroom
      omega
    obtain ⟨m', hcopy, hstored⟩ := hmap.copyArguments m hfits
    exact ⟨m', _, hcopy, hstored.layout hmap.small hnonzero hroom⟩
  · intro rdata space space' k k' garbage fileName hbits hload hroom
    obtain ⟨mapped, entries, m, hmap, -, rfl, hstored⟩ :=
      loadIn_ok hbits hload
    exact ⟨entries, _, hmap.table,
      hstored.layout hmap.small hnonzero hroom⟩

/-! ## The first stores of a program -/

/-- The eight bytes from the stack pointer on, where `main` may store its two
parameters, are none of the array of pointers. -/
def EntryStoresMiss (m : Machine) (argc : ℕ) : Prop :=
  ∀ i < 8, ∀ j < 4 * (argc + 1),
    m.readRegister stackReg + BitVec.ofNat 32 i ≠
      m.readRegister 5 + BitVec.ofNat 32 j

theorem initRegisters_stackReg (space : AddrSpace) (m : Machine) :
    (space.initRegisters m).readRegister stackReg = space.stackptr := rfl

theorem initRegisters_argv (space : AddrSpace) (m : Machine) :
    (space.initRegisters m).readRegister 5 = space.argv := rfl

section Entry

variable {space : AddrSpace} {argv : List CString}

theorem entryStoresMiss_withArguments (hsmall : space.numPages ≤ numPhysPages)
    (hfits : ArgumentsFit space.numPages argv) (m : Machine) :
    EntryStoresMiss ((space.withArguments argv).initRegisters m)
        argv.length ↔ blockWords argv % 2 = 0 := by
  have hsize : space.numPages * pageSize ≤ 16384 :=
    Nat.mul_le_mul_right pageSize hsmall
  have hwords := toNat_arrayAt_words hsmall hfits
  have harray : 4 * (argv.length + 1) ≤ 4 * blockWords argv := by
    unfold blockWords
    omega
  have hfour : (4 : BitVec 32).toNat = 4 := rfl
  have height : (8 : BitVec 32).toNat = 8 := rfl
  have hargv : (space.withArguments argv).argv = space.arrayAt argv := rfl
  simp only [EntryStoresMiss, initRegisters_stackReg, initRegisters_argv,
    hargv, stackptr_eq hsmall hfits]
  constructor
  · intro hmiss
    by_contra hodd
    have hfirst := hmiss 4 (by omega) 0 (by omega)
    rw [if_neg hodd] at hfirst
    apply hfirst
    apply BitVec.eq_of_toNat_eq
    rw [BitVec.toNat_add, BitVec.toNat_sub, BitVec.toNat_add, hfour,
      BitVec.toNat_ofNat, BitVec.toNat_ofNat]
    omega
  · intro heven i hi j hj heq
    have hnat := congrArg BitVec.toNat heq
    rw [if_pos heven, BitVec.toNat_add, BitVec.toNat_sub, BitVec.toNat_add,
      height, BitVec.toNat_ofNat, BitVec.toNat_ofNat] at hnat
    omega

theorem stackptr_room_iff (hsmall : space.numPages ≤ numPhysPages)
    (hfits : ArgumentsFit space.numPages argv) :
    (space.withArguments argv).stackptr.toNat + 8 ≤
        (space.withArguments argv).argv.toNat ↔
      blockWords argv % 2 = 0 ∧
        4 * blockWords argv + 8 < space.numPages * pageSize := by
  have hpages : space.numPages * pageSize % 128 = 0 := Nat.mul_mod_left _ _
  have hwords := toNat_arrayAt_words hsmall hfits
  have hfour : (4 : BitVec 32).toNat = 4 := rfl
  have height : (8 : BitVec 32).toNat = 8 := rfl
  have hargv : (space.withArguments argv).argv = space.arrayAt argv := rfl
  rw [hargv, stackptr_eq hsmall hfits]
  split
  next heven =>
    rw [BitVec.toNat_sub, height]
    omega
  next hodd =>
    rw [BitVec.toNat_sub, hfour]
    omega

end Entry

/-- The first stores of `main` miss its array of pointers if and only if the
strings, rounded up to words, and the pointers are an even number of words. -/
theorem entry_stores_miss_iff
    {rdata : Bool} {space space' : AddrSpace} {k k' : Kernel}
    {garbage : LoadGarbage} {fileName : CString} {argv : List CString}
    (hbits : k.machine.pageTableMap.numBits = numPhysPages)
    (hload : space.loadIn rdata k garbage fileName argv.length argv =
      .ok (true, space', k')) :
    (EntryStoresMiss (space'.initRegisters k'.machine) argv.length ↔
        blockWords argv % 2 = 0) ∧
      (space'.stackptr.toNat + 8 ≤ space'.argv.toNat ↔
        blockWords argv % 2 = 0 ∧
          4 * blockWords argv + 8 < space'.numPages * pageSize) := by
  obtain ⟨mapped, entries, m, hmap, hfits, rfl, -⟩ := loadIn_ok hbits hload
  exact ⟨entryStoresMiss_withArguments hmap.small hfits _,
    stackptr_room_iff hmap.small hfits⟩

/-! ## One argument -/

/-- Whether the executable is loaded, with room for the alignment. -/
def loads (words : List (BitVec 32)) (argv : List CString) : Bool :=
  match loadWords words argv with
  | .ok (success, space, _) =>
      success && decide (space.blockSize argv ≤ space.numPages * pageSize)
  | .error _ => false

theorem exists_of_loads {words : List (BitVec 32)} {argv : List CString}
    (hloads : loads words argv = true) :
    ∃ space k, loadWords words argv = .ok (true, space, k) ∧
      space.blockSize argv ≤ space.numPages * pageSize := by
  unfold loads at hloads
  split at hloads
  next success space k hload =>
    rw [Bool.and_eq_true, decide_eq_true_eq] at hloads
    rw [hloads.1] at hload
    exact ⟨space, k, hload, hloads.2⟩
  next => cases hloads

theorem loads_codeOnly :
    loads codeOnly [[97]] = true ∧
      loads codeOnly [[97, 98, 99, 100]] = true := by
  decide +kernel

theorem arguments_laid_out_one :
    ∃ space k entries pointers,
      loadWords codeOnly [[97]] = .ok (true, space, k) ∧
        space.pageTable = .table entries ∧
        space.ArgumentLayout (install entries k.machine) [[97]] pointers := by
  obtain ⟨space, k, hload, hroom⟩ := exists_of_loads loads_codeOnly.1
  obtain ⟨entries, pointers, htable, hlayout⟩ :=
    (arguments_laid_out (by decide : ∀ arg ∈ [[97]], (0 : BitVec 8) ∉ arg)).2 true
      (new ⟨0, 0, 0, 0, 0⟩) space (imageKernel codeOnly) k ⟨0, []⟩ [97] rfl
      hload hroom
  exact ⟨space, k, entries, pointers, hload, htable, hlayout⟩

/-- The first stores of a program with an argument of four characters miss its
array. -/
theorem entry_stores_miss_four :
    ∃ space k,
      loadWords codeOnly [[97, 98, 99, 100]] = .ok (true, space, k) ∧
        EntryStoresMiss (space.initRegisters k.machine) 1 := by
  obtain ⟨space, k, hload, -⟩ := exists_of_loads loads_codeOnly.2
  refine ⟨space, k, hload, ?_⟩
  exact (entry_stores_miss_iff (k := imageKernel codeOnly)
    rfl hload).1.mpr (by decide)

/-- The first stores of a program with an argument of one character hit its
array. -/
theorem entry_stores_hit :
    ∃ space k, loadWords codeOnly [[97]] = .ok (true, space, k) ∧
      ¬EntryStoresMiss (space.initRegisters k.machine) 1 ∧
      ¬space.stackptr.toNat + 8 ≤ space.argv.toNat := by
  obtain ⟨space, k, hload, -⟩ := exists_of_loads loads_codeOnly.1
  have hload' := hload
  unfold loadWords at hload'
  obtain ⟨mapped, entries, m, hmap, hfits, rfl, -⟩ :=
    loadIn_ok (k := imageKernel codeOnly) rfl hload'
  refine ⟨_, k, hload, ?_, ?_⟩
  · have hiff := entryStoresMiss_withArguments hmap.small hfits k.machine
    exact hiff.not.mpr (by decide)
  · rw [stackptr_room_iff hmap.small hfits]
    exact fun hboth => absurd hboth.1 (by decide)

end AddrSpace

end Nachos
