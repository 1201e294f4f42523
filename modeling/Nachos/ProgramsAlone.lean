import Nachos.LoadedProgram
import Nachos.Library.Components

/-!
# Every program runs as if it were alone

What a run of all programs does to one of them is a run of that program on a
machine of its own: the registers, the bytes, the exceptions and all that the
kernel reads are the same.
-/

namespace Nachos

open Library Machine

/-! ## What is done for a program -/

section Performing

variable {before m v : Machine} {frames own : List ℤ}

/-- The kernel's own accesses abort where a program traps. -/
theorem sameOutcome_afterHandler
    {Value Value' : Type} {R : Machine → Machine → Prop}
    {S : Value → Value' → Prop} {x : Except Stop Value}
    {x' : Except Stop Value'} (hsame : SameOutcome (SameStop R) S x x') :
    SameOutcome Eq S (Machine.afterHandler x) (Machine.afterHandler x') := by
  cases hsame with
  | ok hrelated => exact .ok hrelated
  | error hstop =>
      cases hstop with
      | fault fault => exact .error rfl
      | raised _ => exact .error rfl

theorem load_of_not_access
    {size : ℕ} (hsize : ¬IsAccess size) (m : Machine) (paddr : ℕ) :
    m.load paddr size = .error .abort := by
  unfold Machine.load
  split
  next => exact (hsize (.inl rfl)).elim
  next => exact (hsize (.inr (.inl rfl))).elim
  next => exact (hsize (.inr (.inr rfl))).elim
  next => rfl

theorem storeValue_of_not_access
    {size : ℕ} (hsize : ¬IsAccess size) (m : Machine) (paddr : ℤ)
    (value : BitVec 32) : m.storeValue paddr value size = .error .abort := by
  unfold Machine.storeValue
  split
  next => exact (hsize (.inl rfl)).elim
  next => exact (hsize (.inr (.inl rfl))).elim
  next => exact (hsize (.inr (.inr rfl))).elim
  next => rfl

/-- The assertions of `Translate` are all that can fail. -/
theorem Hosts.translate_fault
    (hhosts : Hosts frames m) {addr : BitVec 32} {size : ℕ} {writing : Bool}
    {fault : Fault} (htranslate : m.translate addr size writing = .error fault) :
    fault = .abort := by
  obtain ⟨entries, htable, hframes, -⟩ := hhosts.table
  have hsize : m.pageTableSize = entries.length := by
    rw [hhosts.size, ← hframes, List.length_map]
  unfold Machine.translate at htranslate
  simp only [htable] at htranslate
  split_ifs at htranslate with haligned hpage
  · cases htranslate
  · cases htranslate
  · have hlt : addr.toNat / pageSize < entries.length := by omega
    simp only [List.getElem?_eq_getElem hlt] at htranslate
    split_ifs at htranslate
    · cases htranslate
    · cases htranslate
    · by_cases hfits : entries[addr.toNat / pageSize].physicalPage.toNat *
          pageSize + addr.toNat % pageSize + size ≤ memorySize
      · rw [assert_of_true hfits] at htranslate
        cases htranslate
      · rw [assert_of_false hfits] at htranslate
        cases htranslate
        rfl
    · cases htranslate

theorem Hosts.readMem_abort
    (hhosts : Hosts frames m) {size : ℕ} (hsize : ¬IsAccess size)
    (addr : BitVec 32) : m.readMem addr size = .error .abort := by
  unfold readMem
  cases htranslate : m.translate addr size false with
  | error fault => rw [hhosts.translate_fault htranslate, error_bind]
  | ok result =>
      rw [ok_bind]
      cases result with
      | error exception => rfl
      | ok result =>
          simp only [load_of_not_access hsize, error_bind]

theorem Hosts.writeMem_abort
    (hhosts : Hosts frames m) {size : ℕ} (hsize : ¬IsAccess size)
    (addr value : BitVec 32) : m.writeMem addr size value = .error .abort := by
  unfold writeMem
  cases htranslate : m.translate addr size true with
  | error fault => rw [hhosts.translate_fault htranslate, error_bind]
  | ok result =>
      rw [ok_bind]
      cases result with
      | error exception => rfl
      | ok result => exact storeValue_of_not_access hsize _ _ _

/-- The program is where it was, and the kernel has seen the same. -/
def SamePerformed (before : Machine) (frames own : List ℤ)
    (result result' : Machine × UserEvent) : Prop :=
  Alike before frames own result.1 result'.1 ∧ result.2 = result'.2

theorem Alike.perform
    (halike : Alike before frames own m v) (action : UserAction) :
    SameOutcome Eq (SamePerformed before frames own) (m.perform action)
      (v.perform action) := by
  have htwins := twins_alike before frames own
  cases action with
  | instruction =>
      have hsame := htwins.oneInstruction halike
      unfold Machine.perform
      simp only
      revert hsame
      generalize m.oneInstruction = x
      generalize v.oneInstruction = x'
      intro hsame
      cases hsame with
      | ok hafter => exact .ok ⟨hafter, rfl⟩
      | error hstop =>
          cases hstop with
          | fault fault => exact .error rfl
          | raised hafter => exact .ok ⟨hafter, rfl⟩
  | interrupt => exact .ok ⟨htwins.delayedLoad halike 0 0, rfl⟩
  | readMem addr size =>
      by_cases haccess : IsAccess size
      · have hsame := sameOutcome_afterHandler
          (halike.readMemory haccess addr)
        rw [← readMem_eq_afterHandler, ← readMem_eq_afterHandler] at hsame
        refine hsame.bind ?_
        rintro ⟨value, m'⟩ ⟨value', v'⟩ ⟨hvalue, hafter⟩
        exact .ok ⟨hafter, congrArg (UserEvent.readMem addr size) hvalue⟩
      · simp only [Machine.perform, halike.hosts.readMem_abort haccess,
          halike.alone.readMem_abort haccess]
        exact .error rfl
  | writeMem addr size value =>
      by_cases haccess : IsAccess size
      · have hsame := sameOutcome_afterHandler
          (halike.writeMemory haccess addr value)
        rw [← writeMem_eq_afterHandler, ← writeMem_eq_afterHandler] at hsame
        refine hsame.bind ?_
        intro m' v' hafter
        exact .ok ⟨hafter, rfl⟩
      · simp only [Machine.perform, halike.hosts.writeMem_abort haccess,
          halike.alone.writeMem_abort haccess]
        exact .error rfl
  | readRegister num =>
      unfold Machine.perform
      by_cases hnum : num < numTotalRegs
      · simp only [assert_of_true hnum, ok_bind, halike.registers num hnum]
        exact .ok ⟨halike, rfl⟩
      · simp only [assert_of_false hnum, error_bind]
        exact .error rfl
  | writeRegister num value =>
      unfold Machine.perform
      by_cases hnum : num < numTotalRegs
      · simp only [assert_of_true hnum, ok_bind]
        exact .ok ⟨halike.writeRegister num value, rfl⟩
      · simp only [assert_of_false hnum, error_bind]
        exact .error rfl

end Performing

/-! ## The program alone -/

namespace Program

variable {program : Program}

def pages (program : Program) : List ℤ :=
  (List.range program.noffH.numPages).map fun i : ℕ => (i : ℤ)

theorem hosts (hsmall : program.noffH.numPages ≤ numPhysPages) :
    Hosts program.pages program.machine := by
  constructor
  case table =>
    refine ⟨program.entries, rfl, ?_, ?_⟩
    · simp [entries, pages, AddrSpace.newEntry, Function.comp_def]
    · intro entry hentry
      obtain ⟨i, hi, rfl⟩ := List.mem_map.mp hentry
      have hlt := List.mem_range.mp hi
      refine ⟨rfl, by simp [AddrSpace.newEntry], ?_⟩
      simp only [AddrSpace.newEntry]
      omega
  case size =>
    change program.noffH.numPages = program.pages.length
    rw [pages, List.length_map, List.length_range]
  case nodup =>
    rw [pages, List.nodup_map_iff Nat.cast_injective]
    exact List.nodup_range

/-- Virtual addresses are physical ones. -/
theorem frameAddress_pages (a : BitVec 32) :
    frameAddress program.pages a =
      if a.toNat < program.noffH.numPages * pageSize then some a.toNat
      else none := by
  have hiff : a.toNat / pageSize < program.noffH.numPages ↔
      a.toNat < program.noffH.numPages * pageSize :=
    Nat.div_lt_iff_lt_mul (by decide)
  unfold frameAddress pages
  rw [List.getElem?_map]
  by_cases hlt : a.toNat < program.noffH.numPages * pageSize
  · rw [if_pos hlt, List.getElem?_range (hiff.mpr hlt)]
    simp only [Option.map_some, Int.toNat_natCast, Nat.div_add_mod']
  · rw [if_neg hlt, List.getElem?_eq_none (by
      rw [List.length_range]
      exact not_lt.mp (hiff.not.mpr hlt))]
    rfl

/-- The image depends on the number of pages only. -/
theorem argumentImage_congr
    {space space' : AddrSpace} (hpages : space.numPages = space'.numPages)
    (argv : List CString) (image : ℕ → BitVec 8) :
    space.argumentImage argv image = space'.argumentImage argv image := by
  simp only [AddrSpace.argumentImage, AddrSpace.arrayAt,
    AddrSpace.stringsAt, hpages]

/-- In whatever frames the program has been loaded, it finds what it finds
alone. -/
theorem bytes_of_loaded
    {space space' : AddrSpace} {m m' : Machine}
    {entries : List TranslationEntry}
    (hloaded : AddrSpace.ProgramLoaded program space m entries space' m')
    (a : BitVec 32) :
    (frameAddress (entries.map TranslationEntry.physicalPage) a).map
      m'.mainMemory = program.machine.userByte a := by
  have hnum : space'.numPages = program.noffH.numPages := by
    rw [hloaded.fields]
    rfl
  have hsmall : program.noffH.numPages ≤ numPhysPages := by
    rw [← hnum]
    exact hloaded.mapped.small
  have hinstalled : Hosts (entries.map TranslationEntry.physicalPage)
      (AddrSpace.install entries m') :=
    ⟨⟨entries, rfl, rfl, hloaded.mapped.allows⟩, by simp [AddrSpace.install],
      hloaded.mapped.nodup⟩
  have hbytes := hinstalled.userByte a
  rw [AddrSpace.install_mainMemory] at hbytes
  rw [← hbytes, (hosts hsmall).userByte, frameAddress_pages]
  by_cases hlt : a.toNat < program.noffH.numPages * pageSize
  · have himage : program.machine.mainMemory =
        space'.argumentImage program.argv
          (AddrSpace.programImage program.file program.noffH) := by
      have hspace : program.space.numPages = space'.numPages := by
        rw [hnum]
        rfl
      rw [← argumentImage_congr hspace, machine]
    have hin : a.toNat < space'.numPages * pageSize := by
      simpa only [hnum] using hlt
    rw [hloaded.shows a hin, if_pos hlt, Option.map_some, himage]
  · have hnone : entries.length ≤ a.toNat / pageSize := by
      rw [hloaded.mapped.length, hnum]
      exact (Nat.le_div_iff_mul_le (by decide)).mpr (not_lt.mp hlt)
    rw [hbytes, if_neg hlt, frameAddress, List.getElem?_eq_none (by
      simpa using hnone)]
    simp only [Option.map_none]

theorem registers_of_loaded
    {space space' : AddrSpace} {m m' : Machine}
    {entries : List TranslationEntry}
    (hloaded : AddrSpace.ProgramLoaded program space m entries space' m')
    (p : ℕ) : Scheduling.initialRegisters (.ofObject p space') =
      program.machine.registers := by
  rw [hloaded.fields]
  rfl

end Program

/-! ## The invariant -/

namespace Scheduling

namespace Multiprogramming

def framesAt (s : Multiprogramming) (p : ℕ) : List ℤ :=
  ((s.entriesAt p).getD []).map TranslationEntry.physicalPage

/-- No frame is in two page tables, and no page table is used by two threads;
the page table of the program that runs is the one that is installed. -/
structure Sound (s : Multiprogramming) : Prop where
  threads : s.threads.shape.Sound
  started : ∀ {t space saved},
    s.threads.contexts t = some (some space, saved) →
      s.threads.shape.Started t
  numBits : s.pageTableMap.numBits = numPhysPages
  mapped : ∀ {p object entries}, s.spaces p = some object →
    object.pageTable = .table entries → AddrSpace.Mapped object entries
  held : ∀ {p}, ∀ frame ∈ s.framesAt p, s.pageTableMap.Holds frame
  disjoint : ∀ {p q}, p ≠ q → (s.framesAt p).Disjoint (s.framesAt q)
  objects : ∀ {t space saved},
    s.threads.contexts t = some (some space, saved) →
      ∃ object, s.spaces space.pageTable = some object ∧
        object.numPages = space.numPages
  unique : ∀ {t space saved t' space' saved'},
    s.threads.contexts t = some (some space, saved) →
      s.threads.contexts t' = some (some space', saved') →
        space.pageTable = space'.pageTable → t = t'
  installed : ∀ {t space saved},
    s.threads.contexts t = some (some space, saved) →
      (s.entriesAt space.pageTable).isSome → s.threads.Installed t space

/-- The program in the space finds what it finds on a machine of its own. -/
def RunsAlone (p : ℕ) (s : Multiprogramming) (v : Option Machine) : Prop :=
  (s.entriesAt p).isSome → ∃ m own, v = some m ∧ Hosts own m ∧
    (s.framesAt p).length = own.length ∧
    (∀ a, (frameAddress (s.framesAt p) a).map s.memory = m.userByte a) ∧
    ∀ {t space saved}, s.threads.contexts t = some (some space, saved) →
      space.pageTable = p → s.threads.Sees t space m.registers

section Kernel

variable {s s' : Multiprogramming} {p : ℕ}

theorem framesAt_of_entries
    {entries : List TranslationEntry} (hentries : s.entriesAt p = some entries) :
    s.framesAt p = entries.map TranslationEntry.physicalPage := by
  rw [framesAt, hentries, Option.getD_some]

theorem entriesAt_eq_some {entries : List TranslationEntry} :
    s.entriesAt p = some entries ↔
      ∃ object, s.spaces p = some object ∧
        object.pageTable = .table entries := by
  unfold entriesAt
  rw [Option.bind_eq_some_iff]
  refine exists_congr fun object => and_congr_right fun _ => ?_
  cases object.pageTable <;> simp [TablePointer.entries]

theorem entriesAt_congr (h : s'.spaces p = s.spaces p) :
    s'.entriesAt p = s.entriesAt p := by
  rw [entriesAt, entriesAt, h]

theorem framesAt_congr (h : s'.entriesAt p = s.entriesAt p) :
    s'.framesAt p = s.framesAt p := by
  rw [framesAt, framesAt, h]

/-- One of the spaces may have been deleted, and nothing else. -/
structure Drops (s s' : Multiprogramming) (gone : Option ℕ) : Prop where
  memory : s'.memory = s.memory
  numBits : s'.pageTableMap.numBits = s.pageTableMap.numBits
  spaces : ∀ p, s'.spaces p = if gone = some p then none else s.spaces p
  held : ∀ {p}, ∀ frame ∈ s'.framesAt p, s'.pageTableMap.Holds frame

theorem Drops.entriesAt
    {gone : Option ℕ} (hdrops : Drops s s' gone) (p : ℕ) :
    s'.entriesAt p = if gone = some p then none else s.entriesAt p := by
  unfold Multiprogramming.entriesAt
  rw [hdrops.spaces]
  split <;> rfl

/-- The destructor of a space without a page table does nothing. -/
theorem destroy_of_no_entries
    {object : AddrSpace} {m m' : Machine}
    (hnone : object.pageTable.entries = none)
    (hdestroy : object.destroy m = .ok m') : m' = m := by
  have hentry : object.entry 0 = .error .undefinedBehaviour := by
    unfold AddrSpace.entry
    revert hnone
    cases object.pageTable <;> simp [TablePointer.entries]
  obtain ⟨m₁, hloop, hdelete⟩ := ok_of_bind hdestroy
  have hkept : m₁ = m := by
    cases hpages : object.numPages with
    | zero =>
        rw [hpages] at hloop
        cases hloop
        rfl
    | succ n =>
        rw [hpages, countedLoop_succ] at hloop
        simp only [AddrSpace.clearPage, hentry, error_bind] at hloop
        cases hloop
  subst hkept
  cases htable : object.pageTable with
  | wild =>
      simp only [htable] at hdelete
      cases hdelete
  | null =>
      simp only [htable] at hdelete
      cases hdelete
      rfl
  | table entries =>
      simp only [htable] at hdelete
      cases hdelete
      rfl

theorem Sound.deleteSpace
    (hsound : s.Sound) (hdelete : s.deleteSpace p = .ok s') :
    Drops s s' (some p) ∧ s'.threads = s.threads := by
  unfold Multiprogramming.deleteSpace at hdelete
  split at hdelete
  next => cases hdelete
  next object hobject =>
    obtain ⟨m, hdestroy, hdone⟩ := ok_of_bind hdelete
    cases hdone
    have hspaces : ∀ q, Function.update s.spaces p none q =
        if some p = some q then none else s.spaces q := by
      intro q
      simp only [Function.update_apply, Option.some.injEq, eq_comm]
    have hrest : ∀ {q}, ∀ frame ∈ framesAt { s with
        pageTableMap := m.pageTableMap
        spaces := Function.update s.spaces p none } q,
          q ≠ p ∧ frame ∈ s.framesAt q := by
      intro q frame hframe
      unfold framesAt entriesAt at hframe
      simp only [hspaces] at hframe
      by_cases hq : q = p
      · subst hq
        simp at hframe
      · rw [if_neg (by simpa [eq_comm] using hq)] at hframe
        exact ⟨hq, hframe⟩
    refine ⟨?_, rfl⟩
    cases htable : object.pageTable.entries with
    | none =>
        have hsame := destroy_of_no_entries htable hdestroy
        rw [hsame]
        rw [hsame] at hrest
        refine ⟨rfl, rfl, hspaces, fun frame hframe => ?_⟩
        exact hsound.held frame (hrest frame hframe).2
    | some entries =>
        have hentries : object.pageTable = .table entries := by
          revert htable
          cases object.pageTable <;> simp [TablePointer.entries]
        have hmapped := hsound.mapped hobject hentries
        have hown : s.framesAt p =
            entries.map TranslationEntry.physicalPage :=
          framesAt_of_entries (entriesAt_eq_some.mpr
            ⟨object, hobject, hentries⟩)
        obtain ⟨bm, hspec, hbits, hholds⟩ := AddrSpace.destroy_spec (m := s.machine) hentries
          hmapped.length fun entry hentry => by
            rw [Bitmap.InRange, show s.machine.pageTableMap.numBits =
              numPhysPages from hsound.numBits]
            exact (hmapped.allows entry hentry).2.2
        rw [hdestroy] at hspec
        cases hspec
        refine ⟨rfl, hbits, hspaces, fun frame hframe => ?_⟩
        obtain ⟨hne, hmem⟩ := hrest frame hframe
        refine (hholds frame).mpr ⟨hsound.held frame hmem, ?_⟩
        rw [← hown]
        exact hsound.disjoint hne hmem

theorem kernelStep_inv
    {action : Scheduling.Action} {event : Event}
    (hstep : s.kernelStep action = .ok (s', event)) :
    ∃ k happened s₁, Threads.step s.threads action = .ok (k, happened) ∧
      event = .kernel happened ∧ s' = { s₁ with threads := k } ∧
      ((s.deleted happened = none ∧ s₁ = s) ∨
        ∃ space, s.deleted happened = some space ∧
          s.deleteSpace space.pageTable = .ok s₁) := by
  obtain ⟨⟨k, happened⟩, hthreads, hstep⟩ := ok_of_bind hstep
  obtain ⟨s₁, hdelete, hdone⟩ := ok_of_bind hstep
  cases hdone
  refine ⟨k, happened, s₁, hthreads, rfl, rfl, ?_⟩
  unfold deleteThread at hdelete
  cases hgone : s.deleted happened with
  | none =>
      rw [hgone] at hdelete
      cases hdelete
      exact .inl ⟨rfl, rfl⟩
  | some space =>
      rw [hgone] at hdelete
      exact .inr ⟨space, rfl, Threads.ok_of_simulate hdelete⟩

/-- What is deleted is the space of a thread that is destroyed. -/
theorem deleted_eq_some
    {happened : Scheduling.Event} {space : Space}
    (hdeleted : s.deleted happened = some space) :
    ∃ d saved, happened.Destroys d ∧
      s.threads.contexts d = some (some space, saved) := by
  unfold deleted at hdeleted
  split at hdeleted
  next u d tested =>
    obtain ⟨th, hth, hspace⟩ := Option.bind_eq_some_iff.mp hdeleted
    refine ⟨d, th.userRegisters, rfl, ?_⟩
    rw [Threads.contexts_eq hth, Thread.context, hspace]
  next => cases hdeleted

/-- A step of the kernel deletes at most a space that no thread is left
with. -/
theorem Sound.kernelStep_drops
    {action : Scheduling.Action} {event : Event} (hsound : s.Sound)
    (hstep : s.kernelStep action = .ok (s', event)) :
    ∃ happened gone,
      Threads.step s.threads action = .ok (s'.threads, happened) ∧
      event = .kernel happened ∧ Drops s s' gone ∧
      ∀ {t space saved}, ¬happened.Destroys t →
        s.threads.contexts t = some (some space, saved) →
          gone ≠ some space.pageTable := by
  obtain ⟨k, happened, s₁, hthreads, rfl, rfl, hgone⟩ := kernelStep_inv hstep
  rcases hgone with ⟨-, rfl⟩ | ⟨space, hdeleted, hdelete⟩
  · exact ⟨happened, none, hthreads, rfl,
      ⟨rfl, rfl, fun p => by simp, hsound.held⟩, by simp⟩
  · obtain ⟨hdrops, -⟩ := hsound.deleteSpace hdelete
    refine ⟨happened, some space.pageTable, hthreads, rfl,
      ⟨hdrops.memory, hdrops.numBits, hdrops.spaces, hdrops.held⟩, ?_⟩
    intro t other saved hkept hcontext hsame
    obtain ⟨d, before, hdestroys, hfound⟩ := deleted_eq_some hdeleted
    have heq := hsound.unique hfound hcontext (Option.some.inj hsame)
    subst heq
    exact hkept hdestroys

theorem Sound.kernelStep
    {action : Scheduling.Action} {event : Event} (hsound : s.Sound)
    (hstep : s.kernelStep action = .ok (s', event)) : s'.Sound := by
  obtain ⟨happened, gone, hthreads, -, hdrops, hleft⟩ :=
    hsound.kernelStep_drops hstep
  have hmoves := Threads.step_moves hthreads
  have hlife := life_of_step hsound.threads hthreads
  have hbefore : ∀ {t space saved},
      s'.threads.contexts t = some (some space, saved) →
        ¬happened.Destroys t ∧
          (∃ before, s.threads.contexts t = some (some space, before)) ∧
          gone ≠ some space.pageTable := by
    intro t space saved hcontext
    obtain ⟨hkept, before, hfound⟩ := hmoves.of_contexts hlife hcontext
    exact ⟨hkept, ⟨before, hfound⟩, hleft hkept hfound⟩
  constructor
  case threads => exact hlife.sound hsound.threads
  case started =>
    intro t space saved hcontext
    obtain ⟨hkept, ⟨before, hfound⟩, -⟩ := hbefore hcontext
    exact hlife.started hsound.threads (hsound.started hfound) hkept
  case numBits => exact hdrops.numBits.trans hsound.numBits
  case mapped =>
    intro p object entries hobject
    rw [hdrops.spaces] at hobject
    split at hobject
    next => cases hobject
    next => exact hsound.mapped hobject
  case held => exact hdrops.held
  case disjoint =>
    intro p q hne frame hp hq
    unfold framesAt at hp hq
    rw [hdrops.entriesAt] at hp hq
    split at hp
    next => simp at hp
    next =>
      split at hq
      next => simp at hq
      next => exact hsound.disjoint hne hp hq
  case objects =>
    intro t space saved hcontext
    obtain ⟨-, ⟨before, hfound⟩, hnot⟩ := hbefore hcontext
    rw [hdrops.spaces, if_neg hnot]
    exact hsound.objects hfound
  case unique =>
    intro t space saved t' space' saved' hcontext hcontext' hsame
    obtain ⟨-, ⟨before, hfound⟩, -⟩ := hbefore hcontext
    obtain ⟨-, ⟨before', hfound'⟩, -⟩ := hbefore hcontext'
    exact hsound.unique hfound hfound' hsame
  case installed =>
    intro t space saved hcontext hentries
    obtain ⟨-, ⟨before, hfound⟩, hnot⟩ := hbefore hcontext
    rw [hdrops.entriesAt, if_neg hnot] at hentries
    exact hmoves.installed (hsound.started hfound) hfound
      (hsound.installed hfound hentries)

/-- The kernel takes no program out of its course. -/
theorem Sound.kernelStep_alone
    {action : Scheduling.Action} {event : Event} {v : Option Machine}
    (hsound : s.Sound) (hstep : s.kernelStep action = .ok (s', event))
    (halone : RunsAlone p s v) : RunsAlone p s' v := by
  obtain ⟨happened, gone, hthreads, -, hdrops, hleft⟩ :=
    hsound.kernelStep_drops hstep
  have hmoves := Threads.step_moves hthreads
  have hlife := life_of_step hsound.threads hthreads
  intro hentries
  have hnot : gone ≠ some p := by
    intro hgone
    rw [hdrops.entriesAt, if_pos hgone] at hentries
    cases hentries
  have hsame : s'.entriesAt p = s.entriesAt p := by
    rw [hdrops.entriesAt, if_neg hnot]
  rw [hsame] at hentries
  obtain ⟨m, own, hv, hhosts, hlength, hbytes, hsees⟩ := halone hentries
  refine ⟨m, own, hv, hhosts, ?_, ?_, ?_⟩
  · rw [framesAt_congr hsame]
    exact hlength
  · rw [framesAt_congr hsame, hdrops.memory]
    exact hbytes
  · intro t space saved hcontext hp
    obtain ⟨hkept, before, hfound⟩ := hmoves.of_contexts hlife hcontext
    exact hmoves.sees hlife hkept (hsound.started hfound) (hsees hfound hp)

end Kernel

/-! ## The program that runs -/

section User

variable {s s' : Multiprogramming} {p q : ℕ}

theorem Sound.hosts_install
    (hsound : s.Sound) {entries : List TranslationEntry}
    (hentries : s.entriesAt p = some entries) (m : Machine) :
    Hosts (s.framesAt p) (AddrSpace.install entries m) := by
  obtain ⟨object, hobject, htable⟩ := entriesAt_eq_some.mp hentries
  have hmapped := hsound.mapped hobject htable
  rw [framesAt_of_entries hentries]
  exact ⟨⟨entries, rfl, rfl, hmapped.allows⟩, by simp [AddrSpace.install],
    hmapped.nodup⟩

/-- The bytes of a program lie in its frames. -/
theorem Sound.frame_mem
    (hsound : s.Sound) {a : BitVec 32} {paddr : ℕ}
    (haddress : frameAddress (s.framesAt p) a = some paddr) :
    ((paddr / pageSize : ℕ) : ℤ) ∈ s.framesAt p := by
  cases hentries : s.entriesAt p with
  | none =>
      unfold framesAt at haddress
      rw [hentries] at haddress
      simp [frameAddress] at haddress
  | some entries =>
      exact (hsound.hosts_install hentries s.machine).frame_mem haddress

theorem bytes_congr
    {frames : List ℤ} {memory memory' : ℕ → BitVec 8}
    (hkept : ∀ {a paddr}, frameAddress frames a = some paddr →
      memory' paddr = memory paddr) (a : BitVec 32) :
    (frameAddress frames a).map memory' =
      (frameAddress frames a).map memory := by
  cases haddress : frameAddress frames a with
  | none => rfl
  | some paddr => rw [Option.map_some, Option.map_some, hkept haddress]

theorem context_of_currentSpace
    {k : Threads} {space : Space} (hspace : k.currentSpace = some space) :
    ∃ saved, k.contexts k.currentThread = some (some space, saved) := by
  obtain ⟨th, hth, hfound⟩ := Option.bind_eq_some_iff.mp hspace
  refine ⟨th.userRegisters, ?_⟩
  rw [Threads.contexts_eq hth, Thread.context, hfound]

theorem currentSpace_of_context
    {k : Threads} {space : Space} {saved : ℕ → BitVec 32}
    (hcontext : k.contexts k.currentThread = some (some space, saved)) :
    k.currentSpace = some space := by
  obtain ⟨th, hth, hfound⟩ := Option.map_eq_some_iff.mp hcontext
  rw [Threads.currentSpace, hth, Option.bind_some]
  exact congrArg Prod.fst hfound

theorem currentProgram_inv (hprogram : s.currentProgram = some p) :
    ∃ space saved entries, space.pageTable = p ∧
      s.threads.contexts s.threads.currentThread = some (some space, saved) ∧
      s.entriesAt p = some entries := by
  obtain ⟨space, hspace, hfound⟩ := Option.bind_eq_some_iff.mp hprogram
  obtain ⟨entries, hentries, rfl⟩ := Option.map_eq_some_iff.mp hfound
  obtain ⟨saved, hcontext⟩ := context_of_currentSpace hspace
  exact ⟨space, saved, entries, rfl, hcontext, hentries⟩

/-- The program that runs: its thread is on the processor, and the frames of
its pages are those that the machine uses. -/
structure OnMachine (s : Multiprogramming) (p : ℕ) : Prop where
  pointer : s.threads.machine.pageTable = some p
  object : ∃ object, s.spaces p = some object ∧
    object.numPages = (s.framesAt p).length ∧ object.numPages ≤ numPhysPages
  hosts : Hosts (s.framesAt p) s.machine

theorem Sound.onMachine
    (hsound : s.Sound) (hcontrol : s.threads.control ≠ .switched)
    (hprogram : s.currentProgram = some p) : s.OnMachine p := by
  obtain ⟨space, saved, entries, rfl, hcontext, hentries⟩ :=
    currentProgram_inv hprogram
  obtain ⟨hpointer, hsize⟩ := hsound.installed hcontext
    (by rw [hentries]; rfl) (Threads.not_off.mpr ⟨rfl, hcontrol⟩)
  obtain ⟨object, hobject, htable⟩ := entriesAt_eq_some.mp hentries
  obtain ⟨found, hfound, hpages⟩ := hsound.objects hcontext
  obtain rfl : found = object :=
    Option.some.inj (hfound.symm.trans hobject)
  have hmapped := hsound.mapped hobject htable
  have hframes := framesAt_of_entries hentries
  have hlength : found.numPages = (s.framesAt space.pageTable).length := by
    rw [hframes, List.length_map, hmapped.length]
  refine ⟨hpointer, ⟨found, hobject, hlength, hmapped.small⟩, ?_⟩
  constructor
  case table =>
    refine ⟨entries, ?_, hframes.symm, hmapped.allows⟩
    change s.threads.machine.pageTable.bind s.entriesAt = some entries
    rw [hpointer, Option.bind_some, hentries]
  case size =>
    change s.threads.machine.pageTableSize = _
    rw [hsize, ← hpages, hlength]
  case nodup =>
    rw [hframes]
    exact hmapped.nodup

section Performed

variable {m : Machine}

theorem OnMachine.spaces
    (hon : s.OnMachine p) {object : AddrSpace} (hobject : s.spaces p = some object)
    {entries : List TranslationEntry} (htable : m.pageTable = some entries)
    (q : ℕ) : (s.withMachine m).spaces q =
      if q = p then some { object with pageTable := .table entries }
      else s.spaces q := by
  simp only [withMachine, setTable, hon.pointer, htable, hobject,
    Option.map_some, Function.update_apply]

/-- The frames are those of before, for every program. -/
theorem OnMachine.framesAt
    (hon : s.OnMachine p) (hhosts : Hosts (s.framesAt p) m) (q : ℕ) :
    (s.withMachine m).framesAt q = s.framesAt q ∧
      ((s.withMachine m).entriesAt q).isSome = (s.entriesAt q).isSome := by
  obtain ⟨object, hobject, -⟩ := hon.object
  obtain ⟨entries, htable, hframes, -⟩ := hhosts.table
  have hspaces := hon.spaces hobject htable q
  by_cases hq : q = p
  · subst hq
    rw [if_pos rfl] at hspaces
    have hentries : (s.withMachine m).entriesAt q = some entries :=
      entriesAt_eq_some.mpr ⟨_, hspaces, rfl⟩
    obtain ⟨before, hinstalled, -⟩ := hon.hosts.table
    have hbefore : s.entriesAt q = some before := by
      rw [← hinstalled]
      change _ = s.threads.machine.pageTable.bind s.entriesAt
      rw [hon.pointer, Option.bind_some]
    rw [framesAt_of_entries hentries, hframes, hentries, hbefore]
    exact ⟨rfl, rfl⟩
  · rw [if_neg hq] at hspaces
    have hsame := entriesAt_congr hspaces
    exact ⟨framesAt_congr hsame, by rw [hsame]⟩

theorem Sound.withMachine
    (hsound : s.Sound) (hon : s.OnMachine p) (hhosts : Hosts (s.framesAt p) m)
    (hmap : m.pageTableMap = s.pageTableMap) : (s.withMachine m).Sound := by
  have hframes := hon.framesAt hhosts
  obtain ⟨object, hobject, hlength, hsmall⟩ := hon.object
  obtain ⟨entries, htable, hpages, hallows⟩ := hhosts.table
  have hspaces := hon.spaces hobject htable
  constructor
  case threads => exact hsound.threads
  case started => exact hsound.started
  case numBits =>
    change m.pageTableMap.numBits = numPhysPages
    rw [hmap]
    exact hsound.numBits
  case mapped =>
    intro q other found hother hfound
    rw [hspaces] at hother
    by_cases hq : q = p
    · rw [if_pos hq, Option.some.injEq] at hother
      subst hother
      obtain rfl : entries = found := by simpa using hfound
      refine ⟨rfl, ?_, hsmall, hallows, ?_⟩
      · change entries.length = object.numPages
        rw [hlength, ← hpages, List.length_map]
      · rw [hpages]
        exact hhosts.nodup
    · rw [if_neg hq] at hother
      exact hsound.mapped hother hfound
  case held =>
    intro q frame hframe
    change m.pageTableMap.Holds frame
    rw [hmap]
    rw [(hframes q).1] at hframe
    exact hsound.held frame hframe
  case disjoint =>
    intro q r hne
    rw [(hframes q).1, (hframes r).1]
    exact hsound.disjoint hne
  case objects =>
    intro t space saved hcontext
    obtain ⟨found, hfound, hnum⟩ := hsound.objects hcontext
    rw [hspaces]
    by_cases hq : space.pageTable = p
    · rw [hq, hobject, Option.some.injEq] at hfound
      subst hfound
      rw [if_pos hq]
      exact ⟨_, rfl, hnum⟩
    · rw [if_neg hq]
      exact ⟨found, hfound, hnum⟩
  case unique => exact hsound.unique
  case installed =>
    intro t space saved hcontext hentries
    rw [(hframes _).2] at hentries
    exact hsound.installed hcontext hentries

/-- Whoever is not on the processor does not see the registers of the
machine. -/
theorem sees_of_off
    {k k' : Threads} {t : ThreadId} {space : Space} {registers : ℕ → BitVec 32}
    (hcontexts : k'.contexts t = k.contexts t) (hoff : k.Off t)
    (hoff' : k'.Off t) (hsees : k.Sees t space registers) :
    k'.Sees t space registers := by
  obtain ⟨saved, hcontext, hsaved, -⟩ := hsees
  exact ⟨saved, hcontexts.trans hcontext, fun _ => hsaved hoff,
    fun hon => (hon hoff').elim⟩

/-- The program that runs goes on as it does alone, and the others are where
they were. -/
theorem Sound.performed_alone
    {action : UserAction} {event : UserEvent} {v : Option Machine}
    (hsound : s.Sound) (hcontrol : s.threads.control ≠ .switched)
    (hprogram : s.currentProgram = some p)
    (hperform : s.machine.perform action = .ok (m, event)) :
    (s.withMachine m).Sound ∧ (RunsAlone q s v →
      Alone.system.Follows v (Event.for q (.user p event))
        (RunsAlone q (s.withMachine m))) := by
  have hon := hsound.onMachine hcontrol hprogram
  obtain ⟨space, saved, entries, rfl, hcontext, hentries⟩ :=
    currentProgram_inv hprogram
  have hself : Alike s.machine (s.framesAt space.pageTable)
      (s.framesAt space.pageTable) s.machine s.machine :=
    ⟨fun _ _ => rfl, hon.hosts, hon.hosts, rfl, fun _ => rfl,
      fun _ _ => rfl, rfl⟩
  obtain ⟨_, _, hafter, _⟩ := (hself.perform action).exists_ok hperform
  have hframes := hon.framesAt hafter.hosts
  refine ⟨hsound.withMachine hon hafter.hosts hafter.pageTableMap, ?_⟩
  intro halone
  by_cases hq : space.pageTable = q
  · subst hq
    rw [Event.for, if_pos rfl]
    obtain ⟨alone, own, rfl, hhosts, hlength, hbytes, hsees⟩ :=
      halone (by rw [hentries]; rfl)
    obtain ⟨before, hbefore, -, hregisters⟩ := hsees hcontext rfl
    have halike : Alike s.machine (s.framesAt space.pageTable) own s.machine
        alone := by
      constructor
      case registers =>
        exact hregisters (Threads.not_off.mpr ⟨rfl, hcontrol⟩)
      case hosts => exact hon.hosts
      case alone => exact hhosts
      case length => exact hlength
      case bytes =>
        intro a
        rw [hon.hosts.userByte]
        exact hbytes a
      case outside => exact fun _ _ => rfl
      case pageTableMap => rfl
    obtain ⟨⟨alone', event'⟩, halone', hsame, hevent⟩ :=
      (halike.perform action).exists_ok hperform
    simp only at hsame hevent
    subst hevent
    refine ⟨.user action, some alone', ?_, ?_⟩
    · simp only [Alone.system, Alone.step, halone', ok_bind]
      rfl
    · intro _
      refine ⟨alone', own, rfl, hsame.alone, ?_, ?_, ?_⟩
      · rw [(hframes _).1]
        exact hlength
      · intro a
        rw [(hframes _).1, ← hsame.bytes a, hsame.hosts.userByte]
        rfl
      · intro t other found hfound hpointer
        have ht := hsound.unique hcontext hfound hpointer.symm
        subst ht
        refine ⟨found, hfound, fun hoff => (hcontrol (hoff rfl)).elim, ?_⟩
        intro _
        exact hsame.registers
  · rw [Event.for, if_neg hq]
    intro hother
    rw [(hframes q).2] at hother
    obtain ⟨alone, own, rfl, hhosts, hlength, hbytes, hsees⟩ := halone hother
    refine ⟨alone, own, rfl, hhosts, ?_, ?_, ?_⟩
    · rw [(hframes q).1]
      exact hlength
    · intro a
      rw [(hframes q).1, ← hbytes a]
      refine bytes_congr ?_ a
      intro a paddr haddress
      exact hafter.outside paddr
        (hsound.disjoint (Ne.symm hq) (hsound.frame_mem haddress))
    · intro t other found hfound hpointer
      have hbefore : s.threads.contexts t = some (some other, found) := hfound
      have hne : s.threads.currentThread ≠ t := by
        rintro rfl
        rw [hcontext, Option.some.injEq, Prod.mk.injEq,
          Option.some.injEq] at hbefore
        rw [← hbefore.1] at hpointer
        exact hq hpointer
      exact sees_of_off (k := s.threads) rfl (Threads.off_of_ne hne)
        (Threads.off_of_ne hne) (hsees hbefore hpointer)

end Performed

/-- A due interrupt while no program is on the processor. -/
theorem Sound.quiet_alone
    {v : Option Machine} (hsound : s.Sound)
    (hnone : s.currentProgram = none) (registers : ℕ → BitVec 32)
    (hs' : s' = { s with threads := { s.threads with machine :=
      { s.threads.machine with registers := registers } } }) :
    s'.Sound ∧ (RunsAlone q s v → RunsAlone q s' v) := by
  subst hs'
  constructor
  · exact ⟨hsound.threads, hsound.started, hsound.numBits, hsound.mapped,
      hsound.held, hsound.disjoint, hsound.objects, hsound.unique,
      hsound.installed⟩
  · intro halone hentries
    obtain ⟨alone, own, rfl, hhosts, hlength, hbytes, hsees⟩ := halone hentries
    refine ⟨alone, own, rfl, hhosts, hlength, hbytes, ?_⟩
    intro t space saved hcontext hpointer
    have hbefore : s.threads.contexts t = some (some space, saved) := hcontext
    have hne : s.threads.currentThread ≠ t := by
      rintro rfl
      have hentries' : (s.entriesAt space.pageTable).isSome := by
        rw [hpointer]
        exact hentries
      obtain ⟨entries, hfound⟩ := Option.isSome_iff_exists.mp hentries'
      simp [currentProgram, currentSpace_of_context hbefore, hfound] at hnone
    exact sees_of_off (k := s.threads) rfl (Threads.off_of_ne hne)
      (Threads.off_of_ne hne) (hsees hbefore hpointer)

theorem withMachine_registers (registers : ℕ → BitVec 32) :
    s.withMachine { s.machine with registers := registers } =
      { s with threads := { s.threads with machine :=
        { s.threads.machine with registers := registers } } } := by
  unfold withMachine
  congr 1
  unfold setTable
  split
  next p entries hpointer htable =>
    have hentries : s.entriesAt p = some entries := by
      rw [← htable]
      change _ = s.threads.machine.pageTable.bind s.entriesAt
      rw [hpointer, Option.bind_some]
    obtain ⟨object, hobject, hobjectTable⟩ := entriesAt_eq_some.mp hentries
    rw [hobject, Option.map_some, ← hobjectTable, ← hobject,
      Function.update_eq_self]
  next => rfl

end User

/-! ## A program is started -/

section Starting

variable {s s' : Multiprogramming} {p q : ℕ} {object : AddrSpace}

/-- A new space, in frames that were free. -/
structure Adds (s s' : Multiprogramming) (p : ℕ) (object : AddrSpace) :
    Prop where
  spaces : s'.spaces = Function.update s.spaces p (some object)
  numBits : s'.pageTableMap.numBits = s.pageTableMap.numBits
  mapped : ∀ {entries}, object.pageTable = .table entries →
    object.Mapped entries
  held : ∀ {frame}, s.pageTableMap.Holds frame → s'.pageTableMap.Holds frame
  fresh : ∀ frame ∈ s'.framesAt p,
    s'.pageTableMap.Holds frame ∧ ¬s.pageTableMap.Holds frame
  memory : ∀ paddr : ℕ, s.pageTableMap.Holds (paddr / pageSize : ℕ) →
    s'.memory paddr = s.memory paddr

/-- The current thread may have got the space. -/
structure Hands (s s' : Multiprogramming) (p : ℕ) (object : AddrSpace) :
    Prop where
  shape : s'.threads.shape = s.threads.shape
  contexts : ∀ {t space saved},
    s'.threads.contexts t = some (some space, saved) →
      (t ≠ s.threads.currentThread ∧
        s.threads.contexts t = some (some space, saved)) ∨
      t = s.threads.currentThread ∧ space = .ofObject p object
  installed : (s'.entriesAt p).isSome →
    s'.threads.machine.pageTable = some p ∧
      s'.threads.machine.pageTableSize = object.numPages

theorem Adds.others (hadds : Adds s s' p object) (hq : q ≠ p) :
    s'.spaces q = s.spaces q := by
  rw [hadds.spaces, Function.update_of_ne hq]

theorem Adds.entriesAt (hadds : Adds s s' p object) (hq : q ≠ p) :
    s'.entriesAt q = s.entriesAt q :=
  entriesAt_congr (hadds.others hq)

theorem Adds.framesAt (hadds : Adds s s' p object) (hq : q ≠ p) :
    s'.framesAt q = s.framesAt q :=
  framesAt_congr (hadds.entriesAt hq)

/-- The frames of the new program are nobody else's. -/
theorem Adds.disjoint
    (hadds : Adds s s' p object) (hsound : s.Sound) (hq : q ≠ p) :
    (s'.framesAt p).Disjoint (s'.framesAt q) := by
  intro frame hnew hold
  rw [hadds.framesAt hq] at hold
  exact (hadds.fresh frame hnew).2 (hsound.held frame hold)

/-- No thread had a space at a place that was free. -/
theorem Sound.ne_of_free
    (hsound : s.Sound) (hfree : s.spaces p = none) {t : ThreadId}
    {space : Space} {saved : ℕ → BitVec 32}
    (hcontext : s.threads.contexts t = some (some space, saved)) :
    space.pageTable ≠ p := by
  rintro rfl
  obtain ⟨found, hfound, -⟩ := hsound.objects hcontext
  rw [hfree] at hfound
  cases hfound

theorem Hands.off
    (hhands : Hands s s' p object) {t : ThreadId}
    (ht : t ≠ s.threads.currentThread) :
    s.threads.Off t ∧ s'.threads.Off t := by
  have hcurrent : s'.threads.currentThread = s.threads.currentThread :=
    congrArg Shape.currentThread hhands.shape
  refine ⟨Threads.off_of_ne ht.symm, Threads.off_of_ne ?_⟩
  rw [hcurrent]
  exact ht.symm

theorem Sound.start
    (hsound : s.Sound) (hrunning : s.threads.control = .running)
    (hfree : s.spaces p = none) (hadds : Adds s s' p object)
    (hhands : Hands s s' p object) : s'.Sound := by
  have hself : s'.spaces p = some object := by
    rw [hadds.spaces, Function.update_self]
  constructor
  case threads =>
    rw [hhands.shape]
    exact hsound.threads
  case started =>
    intro t space saved hcontext
    rw [hhands.shape]
    rcases hhands.contexts hcontext with ⟨-, hold⟩ | ⟨rfl, -⟩
    · exact hsound.started hold
    · obtain ⟨-, -, before, hcurrent⟩ :=
        Threads.Sound.current_running hsound.threads hrunning
      exact ⟨.running, before, hcurrent, by simp, fun _ => ⟨rfl, hrunning⟩⟩
  case numBits => exact hadds.numBits.trans hsound.numBits
  case mapped =>
    intro q found entries hfound htable
    by_cases hq : q = p
    · subst hq
      obtain rfl : object = found := Option.some.inj (hself.symm.trans hfound)
      exact hadds.mapped htable
    · rw [hadds.others hq] at hfound
      exact hsound.mapped hfound htable
  case held =>
    intro q frame hframe
    by_cases hq : q = p
    · subst hq
      exact (hadds.fresh frame hframe).1
    · rw [hadds.framesAt hq] at hframe
      exact hadds.held (hsound.held frame hframe)
  case disjoint =>
    intro q r hne
    by_cases hq : q = p
    · subst hq
      exact hadds.disjoint hsound (Ne.symm hne)
    · by_cases hr : r = p
      · subst hr
        exact (hadds.disjoint hsound hq).symm
      · rw [hadds.framesAt hq, hadds.framesAt hr]
        exact hsound.disjoint hne
  case objects =>
    intro t space saved hcontext
    rcases hhands.contexts hcontext with ⟨-, hold⟩ | ⟨-, rfl⟩
    · rw [hadds.others (hsound.ne_of_free hfree hold)]
      exact hsound.objects hold
    · exact ⟨object, hself, rfl⟩
  case unique =>
    intro t space saved t' space' saved' hcontext hcontext' hsame
    rcases hhands.contexts hcontext with ⟨-, hold⟩ | ⟨rfl, rfl⟩ <;>
      rcases hhands.contexts hcontext' with ⟨-, hold'⟩ | ⟨rfl, rfl⟩
    · exact hsound.unique hold hold' hsame
    · exact (hsound.ne_of_free hfree hold hsame).elim
    · exact (hsound.ne_of_free hfree hold' hsame.symm).elim
    · rfl
  case installed =>
    intro t space saved hcontext hentries hon
    rcases hhands.contexts hcontext with ⟨hne, -⟩ | ⟨-, rfl⟩
    · exact (hon (hhands.off hne).2).elim
    · exact hhands.installed hentries

/-- The programs that have been started before are where they were. -/
theorem Sound.start_others
    {v : Option Machine} (hsound : s.Sound) (hq : q ≠ p)
    (hadds : Adds s s' p object) (hhands : Hands s s' p object)
    (halone : RunsAlone q s v) : RunsAlone q s' v := by
  intro hentries
  rw [hadds.entriesAt hq] at hentries
  obtain ⟨alone, own, rfl, hhosts, hlength, hbytes, hsees⟩ := halone hentries
  refine ⟨alone, own, rfl, hhosts, ?_, ?_, ?_⟩
  · rw [hadds.framesAt hq]
    exact hlength
  · intro a
    rw [hadds.framesAt hq, ← hbytes a]
    refine bytes_congr ?_ a
    intro a paddr haddress
    exact hadds.memory paddr (hsound.held _ (hsound.frame_mem haddress))
  · intro t space saved hcontext hpointer
    rcases hhands.contexts hcontext with ⟨hne, hold⟩ | ⟨-, rfl⟩
    · obtain ⟨hoff, hoff'⟩ := hhands.off hne
      exact sees_of_off (hcontext.trans hold.symm) hoff hoff'
        (hsees hold hpointer)
    · exact (hq hpointer.symm).elim

/-- The new program finds what it finds alone. -/
theorem Sound.start_alone
    {program : Program} {space : AddrSpace} {m m' : Machine}
    {entries : List TranslationEntry} (hsound : s.Sound)
    (hrunning : s.threads.control = .running) (hfree : s.spaces p = none)
    (hadds : Adds s s' p object) (hhands : Hands s s' p object)
    (hloaded : AddrSpace.ProgramLoaded program space m entries object m')
    (hmemory : s'.memory = m'.mainMemory)
    (hregisters : SameRegisters s'.threads.machine.registers
      program.machine.registers) : RunsAlone p s' (some program.machine) := by
  have hself : s'.entriesAt p = some entries :=
    entriesAt_eq_some.mpr ⟨object,
      by rw [hadds.spaces, Function.update_self], hloaded.mapped.table⟩
  have hnum : object.numPages = program.noffH.numPages := by
    rw [hloaded.fields]
    rfl
  have hsmall : program.noffH.numPages ≤ numPhysPages := by
    rw [← hnum]
    exact hloaded.mapped.small
  intro _
  refine ⟨program.machine, program.pages, rfl, Program.hosts hsmall, ?_, ?_, ?_⟩
  · rw [framesAt_of_entries hself, List.length_map, hloaded.mapped.length,
      hnum, Program.pages, List.length_map, List.length_range]
  · intro a
    rw [framesAt_of_entries hself, hmemory]
    exact Program.bytes_of_loaded hloaded a
  · intro t other saved hcontext hpointer
    rcases hhands.contexts hcontext with ⟨-, hold⟩ | ⟨rfl, -⟩
    · exact (hsound.ne_of_free hfree hold hpointer).elim
    · refine ⟨saved, hcontext, fun hoff => ?_, fun _ => hregisters⟩
      have hcontrol : s'.threads.control = s.threads.control :=
        congrArg Shape.control hhands.shape
      have hcurrent : s'.threads.currentThread = s.threads.currentThread :=
        congrArg Shape.currentThread hhands.shape
      have hswitched := hoff hcurrent
      rw [hcontrol, hrunning] at hswitched
      cases hswitched

theorem hands_of_attach
    {k : Threads} (hattach : s.threads.attach (.ofObject p object) = .ok k)
    (hshape : s'.threads.shape = k.shape)
    (hcontexts : s'.threads.contexts = k.contexts)
    (hinstalled : (s'.entriesAt p).isSome →
      s'.threads.machine.pageTable = some p ∧
        s'.threads.machine.pageTableSize = object.numPages) :
    Hands s s' p object := by
  obtain ⟨hsame, -, ⟨saved, hcontext⟩, hothers⟩ := attach_ok hattach
  refine ⟨hshape.trans hsame, ?_, hinstalled⟩
  intro t space found hfound
  rw [hcontexts] at hfound
  by_cases ht : t = s.threads.currentThread
  · subst ht
    rw [hcontext, Option.some.injEq, Prod.mk.injEq, Option.some.injEq] at hfound
    exact .inr ⟨rfl, hfound.1.symm⟩
  · rw [hothers t ht] at hfound
    exact .inl ⟨ht, hfound⟩

/-- A space in which nothing has been loaded. -/
theorem adds_of_failure
    {garbage : AddrSpace.Garbage} (hmemory : s'.memory = s.memory)
    (hmap : s'.pageTableMap = s.pageTableMap)
    (hspaces : s'.spaces =
      Function.update s.spaces p (some (AddrSpace.new garbage))) :
    Adds s s' p (AddrSpace.new garbage) ∧ s'.entriesAt p = none := by
  have hnew : (AddrSpace.new garbage).pageTable.entries = none := by
    unfold AddrSpace.new
    split_ifs <;> rfl
  have hnone : s'.entriesAt p = none := by
    rw [entriesAt, hspaces, Function.update_self, Option.bind_some, hnew]
  refine ⟨?_, hnone⟩
  constructor
  case spaces => exact hspaces
  case numBits => rw [hmap]
  case mapped =>
    intro entries htable
    rw [htable] at hnew
    cases hnew
  case held =>
    intro frame hframe
    rw [hmap]
    exact hframe
  case fresh =>
    intro frame hframe
    rw [framesAt, hnone] at hframe
    simp at hframe
  case memory =>
    intro paddr _
    rw [hmemory]

theorem adds_of_loaded
    {program : Program} {space : AddrSpace} {m' : Machine}
    {entries : List TranslationEntry}
    (hloaded : AddrSpace.ProgramLoaded program space s.machine entries object
      m') (hmemory : s'.memory = m'.mainMemory)
    (hmap : s'.pageTableMap = m'.pageTableMap)
    (hspaces : s'.spaces = Function.update s.spaces p (some object)) :
    Adds s s' p object := by
  have hgranted : AddrSpace.Granted s.pageTableMap s'.pageTableMap entries := by
    rw [hmap]
    exact hloaded.granted
  have hself : s'.entriesAt p = some entries :=
    entriesAt_eq_some.mpr ⟨object, by rw [hspaces, Function.update_self],
      hloaded.mapped.table⟩
  have hfree : ∀ frame ∈ entries.map TranslationEntry.physicalPage,
      ¬s.pageTableMap.Holds frame := by
    intro frame hframe
    obtain ⟨entry, hentry, rfl⟩ := List.mem_map.mp hframe
    exact hgranted.free entry hentry
  constructor
  case spaces => exact hspaces
  case numBits => exact hgranted.numBits
  case mapped =>
    intro found htable
    rw [hloaded.mapped.table, TablePointer.table.injEq] at htable
    subst htable
    exact hloaded.mapped
  case held =>
    intro frame hframe
    exact (hgranted.taken frame).mpr (.inl hframe)
  case fresh =>
    intro frame hframe
    rw [framesAt_of_entries hself] at hframe
    exact ⟨(hgranted.taken frame).mpr (.inr hframe), hfree frame hframe⟩
  case memory =>
    intro paddr hheld
    rw [hmemory]
    exact hloaded.outside paddr fun hframe => hfree _ hframe hheld

theorem Sound.startStep
    {rdata inRunProcess : Bool} {garbage : AddrSpace.Garbage}
    {loadGarbage : LoadGarbage} {fileSystem : FileSystem} {host : Host}
    {fileName : CString} {argv : List CString} {event : Event}
    (hsound : s.Sound) (hrunning : s.threads.control = .running)
    (hnone : s.threads.currentSpace = none) (hfree : s.spaces p = none)
    (hstep : startStep rdata s inRunProcess p garbage loadGarbage fileSystem
      host fileName argv = .ok (s', event)) :
    s'.Sound ∧ ∀ q v, RunsAlone q s v →
      Alone.system.Follows v (event.for q) (RunsAlone q s') := by
  obtain ⟨⟨success, object, k⟩, hload, hstep⟩ := Threads.simulate_ok_bind hstep
  rcases AddrSpace.loadIn_cases hsound.numBits hload with
    ⟨rfl, rfl, hmachine⟩ | ⟨rfl, program, entries, hprogram, hloaded⟩
  · have hmemory : k.machine.mainMemory = s.memory :=
      congrArg Machine.mainMemory hmachine
    have hmap : k.machine.pageTableMap = s.pageTableMap :=
      congrArg Machine.pageTableMap hmachine
    have hfailure : event = .quiet ∧
        (Adds s s' p (AddrSpace.new garbage) ∧ s'.entriesAt p = none) ∧
        (s'.threads = s.threads ∨
          s.threads.attach (.ofObject p (AddrSpace.new garbage)) =
            .ok s'.threads) := by
      cases inRunProcess with
      | true =>
          obtain ⟨threads, hattach, hdone⟩ := Threads.simulate_ok_bind hstep
          cases hdone
          exact ⟨rfl, adds_of_failure hmemory hmap rfl, .inr hattach⟩
      | false =>
          cases hstep
          exact ⟨rfl, adds_of_failure hmemory hmap rfl, .inl rfl⟩
    obtain ⟨rfl, ⟨hadds, hentries⟩, hthreads⟩ := hfailure
    have hunused : ∀ {P : Prop}, (s'.entriesAt p).isSome → P := by
      intro P hsome
      rw [hentries] at hsome
      cases hsome
    have hhands : Hands s s' p (AddrSpace.new garbage) := by
      rcases hthreads with hsame | hattach
      · refine ⟨by rw [hsame], ?_, hunused⟩
        intro t space saved hcontext
        rw [hsame] at hcontext
        refine .inl ⟨?_, hcontext⟩
        rintro rfl
        rw [currentSpace_of_context hcontext] at hnone
        cases hnone
      · exact hands_of_attach hattach rfl rfl hunused
    refine ⟨hsound.start hrunning hfree hadds hhands, fun q v halone => ?_⟩
    by_cases hq : q = p
    · subst hq
      exact hunused
    · exact hsound.start_others hq hadds hhands halone
  · obtain ⟨threads, hexecute, hdone⟩ := Threads.simulate_ok_bind hstep
    obtain ⟨attached, hattach, hexecuted⟩ := ok_of_bind hexecute
    cases hexecuted
    have hs' : s'.memory = k.machine.mainMemory ∧
        s'.pageTableMap = k.machine.pageTableMap ∧
        s'.spaces = Function.update s.spaces p (some object) ∧
        s'.threads = { attached with
          machine :=
            (Threads.restoreState (.ofObject p object)
              (UserState.initRegisters (.ofObject p object)
                attached.machine)) } := by
      cases hdone
      exact ⟨rfl, rfl, rfl, rfl⟩
    have hevent : event = .started p (some program) := by
      cases hdone
      rw [← hprogram]
    obtain ⟨hmemory, hmap, hspaces, hthreads⟩ := hs'
    subst hevent
    have hadds := adds_of_loaded hloaded hmemory hmap hspaces
    have hhands : Hands s s' p object := by
      refine hands_of_attach hattach ?_ ?_ ?_ <;> rw [hthreads]
      · rfl
      · rfl
      · exact fun _ => ⟨rfl, rfl⟩
    refine ⟨hsound.start hrunning hfree hadds hhands, fun q v halone => ?_⟩
    by_cases hq : q = p
    · subst hq
      rw [Event.for, if_pos rfl]
      refine ⟨.start program, some program.machine, rfl, ?_⟩
      refine hsound.start_alone hrunning hfree hadds hhands hloaded hmemory ?_
      rw [hthreads, ← Program.registers_of_loaded hloaded q]
      exact UserState.initRegisters_registers _ _
    · rw [Event.for, if_neg (Ne.symm hq)]
      exact hsound.start_others hq hadds hhands halone

end Starting

/-! ## All runs -/

section Runs

variable {s s' : Multiprogramming} {rdata : Bool}
variable {garbage : ℕ → BitVec 32} {machine : UserState}
variable {initial : SemaphoreId → BitVec 32}

theorem userStep_inv
    {action : UserAction} {event : Event}
    (hstep : step rdata s (.user action) = .ok (s', event)) :
    (s.threads.control ≠ .switched ∧ ∃ p m happened,
      s.currentProgram = some p ∧
        s.machine.perform action = .ok (m, happened) ∧
        s' = s.withMachine m ∧ event = .user p happened) ∨
    (s.currentProgram = none ∧
      s' = s.withMachine (s.machine.delayedLoad 0 0) ∧ event = .quiet) := by
  unfold step at hstep
  simp only at hstep
  split at hstep
  next henabled =>
    have hcontrol : s.threads.control ≠ .switched := by
      intro hswitched
      rw [hswitched] at henabled
      cases action <;> simp [enabled] at henabled
    split at hstep
    next _ _ p hprogram =>
      obtain ⟨⟨m, happened⟩, hperform, hdone⟩ :=
        Threads.simulate_ok_bind hstep
      cases hdone
      exact .inl ⟨hcontrol, p, m, happened, hprogram, hperform, rfl, rfl⟩
    next hprogram =>
      cases hstep
      exact .inr ⟨hprogram, rfl, rfl⟩
    next => cases hstep
  next => cases hstep

/-- A step moves one program as it would move alone, and no other. -/
theorem Sound.step
    {action : Action} {event : Event} (hsound : s.Sound)
    (hstep : step rdata s action = .ok (s', event)) :
    s'.Sound ∧ ∀ q v, RunsAlone q s v →
      Alone.system.Follows v (event.for q) (RunsAlone q s') := by
  cases action with
  | kernel action =>
      obtain ⟨happened, gone, -, rfl, -, -⟩ :=
        hsound.kernelStep_drops hstep
      exact ⟨hsound.kernelStep hstep, fun q v halone =>
        hsound.kernelStep_alone hstep halone⟩
  | user action =>
      obtain ⟨hcontrol, p, m, happened, hprogram, hperform, rfl, rfl⟩ |
        ⟨hnone, rfl, rfl⟩ := userStep_inv hstep
      · refine ⟨(hsound.performed_alone (q := 0) (v := none) hcontrol hprogram
          hperform).1, ?_⟩
        intro q v
        exact (hsound.performed_alone hcontrol hprogram hperform).2
      · have hregisters := withMachine_registers (s := s)
          (s.machine.delayedLoad 0 0).registers
        refine ⟨(hsound.quiet_alone (q := 0) (v := none) hnone _
          hregisters).1, ?_⟩
        intro q v
        exact (hsound.quiet_alone hnone _ hregisters).2
  | start inRunProcess p garbage loadGarbage fileSystem host fileName argv =>
      unfold Multiprogramming.step at hstep
      simp only at hstep
      split at hstep
      next hguard =>
        obtain ⟨hrunning, hnone, hfree⟩ := hguard
        exact hsound.startStep hrunning hnone hfree hstep
      next => cases hstep

theorem sound_start : (start garbage machine initial).Sound := by
  have hnone : ∀ {t space saved}, (Threads.start garbage machine
      initial).contexts t ≠ some (some space, saved) := by
    intro t space saved hcontext
    by_cases ht : t = Threads.mainThread
    · subst ht
      simp [Threads.contexts, Threads.start, Thread.context] at hcontext
    · simp [Threads.contexts, Threads.start, ht] at hcontext
  have hframes : ∀ p, (start garbage machine initial).framesAt p = [] :=
    fun _ => rfl
  constructor
  case threads => exact Scheduling.sound_start
  case started => exact fun hcontext => (hnone hcontext).elim
  case numBits => rfl
  case mapped =>
    intro p object entries hspace
    change none = some object at hspace
    cases hspace
  case held =>
    intro p frame hframe
    rw [hframes] at hframe
    cases hframe
  case disjoint =>
    intro p q _
    rw [hframes]
    exact List.disjoint_nil_left _
  case objects => exact fun hcontext => (hnone hcontext).elim
  case unique => exact fun hcontext => (hnone hcontext).elim
  case installed => exact fun hcontext => (hnone hcontext).elim

theorem carries_alone :
    StepSystem.Carries (system rdata garbage machine initial) Alone.system
      StepSystem.anyStep Event.for Sound RunsAlone where
  start := by
    refine ⟨sound_start, fun q hentries => ?_⟩
    cases hentries
  step := by
    intro trace s s' action event hsound _ hstep
    obtain ⟨hsound', halone⟩ := hsound.step hstep
    exact ⟨hsound', fun q v => halone q v⟩

/-- The registers of the program of a thread. -/
def registersOf (s : Multiprogramming) (t : ThreadId) : ℕ → BitVec 32 :=
  if s.threads.currentThread = t ∧ s.threads.control ≠ .switched then
    s.threads.machine.registers
  else
    match s.threads.threads t with
    | some th => th.userRegisters
    | none => fun _ => 0

/-- The byte that the program in a space finds at an address. -/
def byteOf (s : Multiprogramming) (p : ℕ) (addr : BitVec 32) :
    Option (BitVec 8) :=
  (s.entriesAt p).bind fun entries =>
    (AddrSpace.install entries s.machine).userByte addr

theorem registersOf_of_sees
    {t : ThreadId} {space : Space} {registers : ℕ → BitVec 32}
    (hsees : s.threads.Sees t space registers) :
    SameRegisters (s.registersOf t) registers := by
  obtain ⟨saved, hcontext, hoff, hon⟩ := hsees
  obtain ⟨th, hth, hfound⟩ := Option.map_eq_some_iff.mp hcontext
  have hsaved : th.userRegisters = saved := congrArg Prod.snd hfound
  unfold registersOf
  split
  next hprocessor => exact hon (Threads.not_off.mpr hprocessor)
  next hprocessor =>
    rw [hth]
    simp only [hsaved]
    apply hoff
    by_contra hnot
    exact hprocessor (Threads.not_off.mp hnot)

theorem Sound.byteOf
    (hsound : s.Sound) {p : ℕ} (hentries : (s.entriesAt p).isSome)
    (a : BitVec 32) :
    s.byteOf p a = (frameAddress (s.framesAt p) a).map s.memory := by
  obtain ⟨entries, hfound⟩ := Option.isSome_iff_exists.mp hentries
  rw [Multiprogramming.byteOf, hfound, Option.bind_some,
    (hsound.hosts_install hfound s.machine).userByte]
  rfl

/-- What a run of the kernel and all programs does to the program of an
address space is a run of that program alone, from its image on: with the same
registers and the same bytes at its end, and with the same exceptions and
values read on the way. -/
theorem programs_run_alone
    {trace : List Event}
    (hrun : (system rdata garbage machine initial).Reaches trace s) (p : ℕ) :
    ∃ v, Alone.system.Reaches (trace.filterMap (Event.for p)) v ∧
      ∀ t space saved, s.threads.contexts t = some (some space, saved) →
        space.pageTable = p → (s.entriesAt p).isSome →
          ∃ m, v = some m ∧
            SameRegisters (s.registersOf t) m.registers ∧
            ∀ a, s.byteOf p a = m.userByte a := by
  obtain ⟨hsound, hcomponents⟩ := carries_alone.run hrun
  obtain ⟨v, hreaches, halone⟩ := hcomponents p
  refine ⟨v, hreaches, fun t space saved hcontext hpointer hentries => ?_⟩
  obtain ⟨m, own, hv, -, -, hbytes, hsees⟩ := halone hentries
  refine ⟨m, hv, registersOf_of_sees (hsees hcontext hpointer), fun a => ?_⟩
  rw [hsound.byteOf hentries]
  exact hbytes a

/-- A program of one instruction, in a file `[97]`. -/
def starts (p : ℕ) (instruction : BitVec 32) : Action :=
  .start false p ⟨0, 0, 0, 0, 0⟩ ⟨0, []⟩ ⟨fun _ => .null⟩
    (AddrSpace.imageKernel
      [noffMagicNumber, 0, 52, 4, 0, 0, 0, 0, 0, 0, 0, 0, 0, instruction]).host
    [97] [[97]]

/-- Two programs that write 5 and 9 into register 2, and take turns. -/
def twoWriters : List Action :=
  [starts 1 0x24020005, .user .instruction,
    .kernel (.newThread 1 (fun _ => 0)), .kernel (.fork 1), .kernel .yield,
    .kernel .goOn, starts 2 0x24020009, .user .instruction, .kernel .yield,
    .kernel .goOn]

/-- The thread runs the program of the space, with the value in register 2. -/
def runsWith (t : ThreadId) (p : ℕ) (value : BitVec 32)
    (s : Multiprogramming) : Bool :=
  match s.threads.contexts t with
  | some (some space, _) => space.pageTable = p && (s.entriesAt p).isSome &&
      s.registersOf t 2 = value
  | _ => false

theorem programs_run_alone_twoWriters :
    ∃ trace s m, (system true (fun _ => 0) ⟨fun _ => 0, none, 0⟩
        fun _ => 0).Reaches trace s ∧
      runsWith 1 2 9 s ∧
      Alone.system.Reaches (trace.filterMap (Event.for 1)) (some m) ∧
      m.registers 2 = 5 := by
  have hreplay : (system true (fun _ => 0) ⟨fun _ => 0, none, 0⟩
      fun _ => 0).Replays StepSystem.anyStep twoWriters
        (fun _ s => runsWith 0 1 5 s && runsWith 1 2 9 s) = true := by
    decide +kernel
  obtain ⟨trace, s, hrun, hcheck⟩ := StepSystem.exists_run_of_replays hreplay
  simp only [Bool.and_eq_true] at hcheck
  obtain ⟨hfirst, hsecond⟩ := hcheck
  obtain ⟨v, hreaches, hruns⟩ := programs_run_alone hrun 1
  unfold runsWith at hfirst
  split at hfirst
  next space saved hcontext =>
    simp only [Bool.and_eq_true, decide_eq_true_eq] at hfirst
    obtain ⟨⟨hpointer, hentries⟩, hvalue⟩ := hfirst
    obtain ⟨m, rfl, hregisters, -⟩ :=
      hruns 0 space saved hcontext hpointer hentries
    refine ⟨trace, s, m, hrun, hsecond, hreaches, ?_⟩
    rw [← hregisters 2 (by decide), hvalue]
  next => cases hfirst

end Runs

end Multiprogramming

end Scheduling

end Nachos
