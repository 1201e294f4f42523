import Nachos.Loader

/-!
# When a program cannot be loaded

`Load` returns `FALSE` only before it has looked at the image, when the file
cannot be opened; the destructor then works on fields nobody has set.  An
image that needs more pages than there are free frames is written to frame
-1, outside of `mainMemory`.
-/

namespace Nachos

open Library

namespace AddrSpace

/-! ## Too few frames -/

/-- `FindAndSet` never fails; it refuses with -1. -/
theorem grantPage_ok
    (i : ℕ) (bm : Bitmap) (entries : List TranslationEntry) :
    ∃ bm' frame, grantPage i (bm, entries) =
        .ok (bm', entries ++ [newEntry i frame]) ∧
      bm'.numBits = bm.numBits ∧
      (frame = -1 ∨ bm'.marked.card = bm.marked.card + 1) := by
  rcases bm.findAndSet_cases with ⟨hfind, -⟩ | ⟨j, hlt, hclear, -, hfind⟩
  · refine ⟨bm, -1, ?_, rfl, .inl rfl⟩
    simp only [grantPage, hfind]
    rfl
  · refine ⟨bm.setBit j, j, ?_, rfl, .inr ?_⟩
    · simp only [grantPage, hfind]
      rfl
    · have hmem : j ∉ bm.marked := by simp [hclear]
      rw [Bitmap.marked_setBit hlt, Finset.card_insert_of_notMem hmem]

/-- With too few frames a page gets the frame -1. -/
theorem grantPages_tooFew
    {bm : Bitmap} {numPages : ℕ}
    (hfew : bm.numBits < bm.marked.card + numPages) :
    ∃ bm' entries, countedLoop grantPage 0 numPages (bm, []) =
        .ok (bm', entries) ∧
      entries.length = numPages ∧
      ∃ entry ∈ entries, entry.physicalPage = -1 := by
  let Inv : ℕ → Bitmap × List TranslationEntry → Prop := fun i s =>
    s.2.length = i ∧ s.1.numBits = bm.numBits ∧
      ((∃ entry ∈ s.2, entry.physicalPage = -1) ∨
        s.1.marked.card = bm.marked.card + i)
  have hstart : Inv 0 (bm, []) := ⟨rfl, rfl, .inr rfl⟩
  have hround : ∀ i s, 0 ≤ i → i < 0 + numPages → Inv i s →
      ∃ s', grantPage i s = .ok s' ∧ Inv (i + 1) s' := by
    rintro i ⟨bm', entries⟩ - - ⟨hlength, hbits, hcases⟩
    simp only at hlength hbits hcases
    rcases grantPage_ok i bm' entries with
      ⟨bm'', frame, hgrant, hbits', hframe⟩
    refine ⟨_, hgrant, by simp [hlength], hbits'.trans hbits, ?_⟩
    rcases hcases with ⟨entry, hentry, hrefused⟩ | hcard
    · exact .inl ⟨entry, List.mem_append_left _ hentry, hrefused⟩
    · rcases hframe with rfl | hcard'
      · exact .inl ⟨newEntry i (-1), by simp, rfl⟩
      · right
        simp only
        omega
  rcases countedLoop_spec Inv hstart hround with
    ⟨⟨bm', entries⟩, hloop, hlength, hbits, hcases⟩
  refine ⟨bm', entries, hloop, by simpa using hlength, ?_⟩
  refine hcases.resolve_right fun hcard => ?_
  have hle := bm'.card_marked_le
  simp only at hbits hcard
  omega

/-- A store fails in one way only. -/
theorem store_error
    {m : Machine} {paddr : ℤ} {byte : BitVec 8} {fault : Fault}
    (herror : m.store paddr byte = .error fault) :
    fault = .undefinedBehaviour := by
  unfold Machine.store at herror
  split at herror
  next => simp at herror
  next => simpa using herror.symm

theorem entry_error
    {space : AddrSpace} {i : ℕ} {fault : Fault}
    (herror : space.entry i = .error fault) :
    fault = .undefinedBehaviour := by
  unfold entry at herror
  split at herror
  next =>
    split at herror
    next => simp at herror
    next => simpa using herror.symm
  next => simpa using herror.symm

theorem zeroPage_error
    {space : AddrSpace} {i : ℕ} {m : Machine} {fault : Fault}
    (herror : space.zeroPage i m = .error fault) :
    fault = .undefinedBehaviour := by
  unfold zeroPage at herror
  cases hentry : space.entry i with
  | error fault' =>
      rw [hentry] at herror
      cases herror
      exact entry_error hentry
  | ok entry =>
      rw [hentry] at herror
      exact eq_of_countedLoop_error (fun _ _ _ => store_error) herror

/-- Frame -1 lies before `mainMemory`. -/
theorem zeroPage_refused
    {space : AddrSpace} {i : ℕ} {entry : TranslationEntry}
    (hentry : space.entry i = .ok entry) (hrefused : entry.physicalPage = -1)
    (m m' : Machine) : space.zeroPage i m ≠ .ok m' := by
  have hfirst : ∀ before after : Machine,
      before.store (entry.physicalPage * pageSize + (0 : ℕ)) 0 ≠
        .ok after := by
    intro before after
    have hout : ¬(0 ≤ entry.physicalPage * pageSize + (0 : ℕ) ∧
        entry.physicalPage * pageSize + (0 : ℕ) < memorySize) := by
      rw [hrefused]
      unfold pageSize
      omega
    simp only [Machine.store, if_neg hout]
    simp
  have hloop : countedLoop
      (fun (j : ℕ) (m : Machine) =>
        m.store (entry.physicalPage * pageSize + j) 0) 0 pageSize m =
      .error .undefinedBehaviour :=
    countedLoop_error (fun _ _ _ => store_error) le_rfl (by decide) hfirst m
  simp only [zeroPage, hentry, bind, Except.bind, hloop]
  simp

/-- `AllocateMemory` with too few free frames writes outside of
`mainMemory`. -/
theorem allocateMemory_tooFew
    (space : AddrSpace) {m : Machine} {numPages : ℕ}
    (hfew : m.pageTableMap.numBits <
      m.pageTableMap.marked.card + numPages) :
    space.allocateMemory m numPages = .error .undefinedBehaviour := by
  rcases grantPages_tooFew hfew with
    ⟨bm, entries, hloop, hlength, entry, hmem, hrefused⟩
  rcases List.getElem_of_mem hmem with ⟨i, hi, hget⟩
  let space' : AddrSpace := { space with
    numPages := numPages, pageTable := .table entries }
  have hentry : space'.entry i = .ok entry := by
    rw [entry_eq (show space'.pageTable = .table entries from rfl) hi, hget]
  have hzero : countedLoop space'.zeroPage 0 numPages
      { m with pageTableMap := bm } = .error .undefinedBehaviour :=
    countedLoop_error (fun _ _ _ => zeroPage_error) (Nat.zero_le i)
      (by omega) (zeroPage_refused hentry hrefused) _
  simp only [space'] at hzero
  simp only [allocateMemory, hloop, bind, Except.bind, hzero]

/-! ## Failing cleanly -/

/-- The file cannot be opened. -/
def CannotOpen (k : Kernel) (fileName : CString) : Prop :=
  k.host.directory fileName = none ∨ k.fileSystem.findFreeSlot = none

/-- The image needs more pages than there are free frames. -/
def TooLarge (k : Kernel) (garbage : LoadGarbage) (fileName : CString) :
    Prop :=
  ∃ executable fileSystem host noffH host',
    k.fileSystem.openNamed k.host fileName garbage.openType =
        (some executable, fileSystem, host) ∧
      readHeader executable host garbage = .ok (noffH, host') ∧
      k.machine.pageTableMap.numBits - k.machine.pageTableMap.marked.card <
        noffH.numPages

/-- `Load` into a new address space returns `FALSE`, and when the space is
destroyed the frames, the memory of the frames in use and the descriptor table
are as before. -/
def FailsCleanly (k : Kernel) (garbage : Garbage)
    (loadGarbage : LoadGarbage) (fileName : CString) (argc : ℤ)
    (argv : List CString) : Prop :=
  ∃ space k' machine,
    (new garbage).load k loadGarbage fileName argc argv =
        .ok (false, space, k') ∧
      space.destroy k'.machine = .ok machine ∧
      machine.pageTableMap = k.machine.pageTableMap ∧
      (∀ f < numPhysPages, k.machine.pageTableMap.bit f = true →
        ∀ j < pageSize, machine.mainMemory (f * pageSize + j) =
          k.machine.mainMemory (f * pageSize + j)) ∧
      k'.fileSystem.fileSlot = k.fileSystem.fileSlot

section Failure

variable {k : Kernel} {garbage : Garbage} {loadGarbage : LoadGarbage}
variable {fileName : CString} {argc : ℤ} {argv : List CString}

/-- A file that cannot be opened leaves the descriptor table alone. -/
theorem openNamed_of_cannotOpen
    (hcannot : CannotOpen k fileName) (garbageType : ℤ) :
    ∃ host, k.fileSystem.openNamed k.host fileName garbageType =
      (none, k.fileSystem, host) := by
  unfold FileSystem.openNamed Host.openForReadWrite
  rcases hcannot with hmissing | hfull
  · rw [hmissing]
    exact ⟨_, rfl⟩
  · cases k.host.directory fileName with
    | none => exact ⟨_, rfl⟩
    | some inode =>
        simp only [hfull]
        exact ⟨_, rfl⟩

theorem openNamed_ne_none
    (hcan : ¬CannotOpen k fileName) (garbageType : ℤ) :
    (k.fileSystem.openNamed k.host fileName garbageType).1 ≠ none := by
  rw [CannotOpen, not_or] at hcan
  rcases Option.ne_none_iff_exists'.mp hcan.1 with ⟨inode, hinode⟩
  rcases Option.ne_none_iff_exists'.mp hcan.2 with ⟨id, hid⟩
  simp [FileSystem.openNamed, Host.openForReadWrite, hinode, hid]

theorem not_cannotOpen_of_tooLarge
    (hlarge : TooLarge k loadGarbage fileName) : ¬CannotOpen k fileName := by
  rcases hlarge with ⟨executable, fileSystem, host, -, -, hopen, -⟩
  intro hcannot
  rcases openNamed_of_cannotOpen hcannot loadGarbage.openType with
    ⟨host', hnone⟩
  rw [hnone] at hopen
  simp at hopen

/-- `Load` returns `FALSE` exactly when the file cannot be opened. -/
theorem load_eq_false
    {space space' : AddrSpace} {k' : Kernel}
    (hload : space.load k loadGarbage fileName argc argv =
      .ok (false, space', k')) :
    CannotOpen k fileName ∧ space' = space ∧ k'.machine = k.machine := by
  by_cases hcannot : CannotOpen k fileName
  · rcases openNamed_of_cannotOpen hcannot loadGarbage.openType with
      ⟨host, hopen⟩
    simp only [load, hopen, pure, Except.pure, Except.ok.injEq,
      Prod.mk.injEq, true_and] at hload
    rcases hload with ⟨rfl, rfl⟩
    exact ⟨hcannot, rfl, rfl⟩
  · have hopens := openNamed_ne_none hcannot loadGarbage.openType
    exfalso
    unfold load at hload
    split at hload
    next hnone => exact hopens (by rw [hnone])
    next =>
      rcases ok_of_bind hload with ⟨⟨noffH, host⟩, -, hload⟩
      rcases ok_of_bind hload with ⟨-, -, hload⟩
      rcases ok_of_bind hload with ⟨⟨allocated, machine⟩, -, hload⟩
      rcases ok_of_bind hload with ⟨-, -, hload⟩
      rcases ok_of_bind hload with ⟨copied, -, hload⟩
      rcases ok_of_bind hload with ⟨⟨loaded, machine'⟩, -, hload⟩
      rcases ok_of_bind hload with ⟨⟨closed, fileSystem, host'⟩, -, hload⟩
      cases hload

/-- The destructor of a space whose fields nobody has set. -/
theorem destroy_new
    {m machine : Machine} (hdestroy : (new garbage).destroy m = .ok machine) :
    garbage.numPages = 0 ∧ garbage.pageTable = 0 := by
  have hentry : (new garbage).entry 0 = .error .undefinedBehaviour := by
    unfold new entry
    split_ifs <;> rfl
  rcases ok_of_bind hdestroy with ⟨m', hloop, hdelete⟩
  have hpages : garbage.numPages = 0 := by
    cases hnum : garbage.numPages.toNat with
    | zero => exact BitVec.eq_of_toNat_eq hnum
    | succ count =>
        simp only [new, hnum, countedLoop, clearPage] at hloop hentry
        rw [hentry] at hloop
        cases hloop
  refine ⟨hpages, ?_⟩
  by_contra hwild
  simp only [new, if_neg hwild] at hdelete
  cases hdelete

theorem destroy_new_zero
    (m : Machine) (hpages : garbage.numPages = 0)
    (hnull : garbage.pageTable = 0) : (new garbage).destroy m = .ok m := by
  simp only [destroy, new, hpages, hnull]
  rfl

/-- A load that cannot succeed leaves everything as it was if and only if the
image is not too large for the free frames and, where the file cannot be
opened, the fields of the new address space happen to hold zeros. -/
theorem load_failure_atomic_iff
    (k : Kernel) (garbage : Garbage) (loadGarbage : LoadGarbage)
    (fileName : CString) (argc : ℤ) (argv : List CString) :
    (CannotOpen k fileName ∨ TooLarge k loadGarbage fileName →
        FailsCleanly k garbage loadGarbage fileName argc argv) ↔
      ¬TooLarge k loadGarbage fileName ∧
        (CannotOpen k fileName →
          garbage.numPages = 0 ∧ garbage.pageTable = 0) := by
  constructor
  · intro hatomic
    constructor
    · intro hlarge
      rcases hatomic (.inr hlarge) with ⟨space, k', machine, hload, -⟩
      exact not_cannotOpen_of_tooLarge hlarge (load_eq_false hload).1
    · intro hcannot
      rcases hatomic (.inl hcannot) with
        ⟨space, k', machine, hload, hdestroy, -⟩
      rcases load_eq_false hload with ⟨-, rfl, -⟩
      exact destroy_new hdestroy
  · rintro ⟨hfits, hzeros⟩ hfails
    have hcannot := hfails.resolve_right hfits
    rcases hzeros hcannot with ⟨hpages, hnull⟩
    rcases openNamed_of_cannotOpen hcannot loadGarbage.openType with
      ⟨host, hopen⟩
    refine ⟨new garbage, { k with host := host }, k.machine, ?_,
      destroy_new_zero _ hpages hnull, rfl, fun _ _ _ _ _ => rfl, rfl⟩
    simp only [load, hopen]
    rfl

end Failure

/-! ## A full machine -/

/-- A kernel whose frames are all taken, with one executable whose segments
are empty. -/
def fullKernel : Kernel where
  machine := {
    registers := fun _ => 0
    mainMemory := fun _ => 0
    pageTableMap := ⟨numPhysPages, List.replicate 4 (BitVec.allOnes 32), rfl⟩
    pageTable := none
    pageTableSize := 0 }
  fileSystem := ⟨fun _ => .null⟩
  host := {
    directory := fun name => if name = [97] then some 0 else none
    inodes := 1
    contents := fun _ =>
      [0xad, 0xdf, 0xba, 0] ++ List.replicate 48 (0 : BitVec 8)
    files := []
    sockets := [] }
  consoleIn := []
  consoleOut := []

theorem fullKernel_taken :
    fullKernel.machine.pageTableMap.numBits -
      fullKernel.machine.pageTableMap.marked.card = 0 := by
  decide +kernel

/-- What `Load` finds in the file `[97]`. -/
theorem fullKernel_header :
    ∃ executable fileSystem host noffH host',
      fullKernel.fileSystem.openNamed fullKernel.host [97] 0 =
          (some executable, fileSystem, host) ∧
        readHeader executable host ⟨0, []⟩ = .ok (noffH, host') ∧
        noffH.noffMagic = noffMagicNumber ∧ noffH.numPages = 8 :=
  ⟨⟨0, .object [97], 0, 0, 2⟩, _, _, _, _, rfl, rfl, rfl, by decide +kernel⟩

theorem fullKernel_tooLarge : TooLarge fullKernel ⟨0, []⟩ [97] := by
  rcases fullKernel_header with
    ⟨executable, fileSystem, host, noffH, host', hopen, hread, -, hpages⟩
  refine ⟨executable, fileSystem, host, noffH, host', hopen, hread, ?_⟩
  rw [fullKernel_taken, hpages]
  decide

/-- With no free frame, the loading of a program that needs eight pages writes
before `mainMemory`. -/
theorem load_full_machine :
    TooLarge fullKernel ⟨0, []⟩ [97] ∧
      (∀ garbage argc argv,
        (new garbage).load fullKernel ⟨0, []⟩ [97] argc argv =
          .error .undefinedBehaviour) ∧
      ∀ garbage argc argv,
        ¬FailsCleanly fullKernel garbage ⟨0, []⟩ [97] argc argv := by
  have hfails : ∀ garbage argc argv,
      (new garbage).load fullKernel ⟨0, []⟩ [97] argc argv =
        .error .undefinedBehaviour := by
    intro garbage argc argv
    rcases fullKernel_header with
      ⟨executable, fileSystem, host, noffH, host', hopen, hread, hmagic,
        hpages⟩
    have hfew : fullKernel.machine.pageTableMap.numBits <
        fullKernel.machine.pageTableMap.marked.card + noffH.numPages := by
      have htaken := fullKernel_taken
      omega
    have hallocate := allocateMemory_tooFew (new garbage) hfew
    simp only [load, hopen, hread, hmagic, assert_of_true, bind, Except.bind,
      hallocate]
  refine ⟨fullKernel_tooLarge, hfails, ?_⟩
  rintro garbage argc argv ⟨space, k', machine, hload, -⟩
  rw [hfails] at hload
  cases hload

end AddrSpace

end Nachos
