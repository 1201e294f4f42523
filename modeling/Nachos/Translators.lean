import Nachos.ArgumentPassing
import Nachos.FrameOwnership

/-!
# The two translators

`AddrSpace::Translate` and `Machine::Translate` both go through a page table.
The first one does not look at the valid bit, and it compares the frame as a
signed number: the frame -1 of a page that `FindAndSet` has refused passes its
check.
-/

namespace Nachos

open Library

namespace AddrSpace

/-- `pageTable[vpn]` with its use and dirty bits set. -/
def setUsed (space : AddrSpace) (vpn : ℕ) (pte : TranslationEntry)
    (writing : Bool) : AddrSpace :=
  match space.pageTable with
  | .table entries => { space with
      pageTable := .table (entries.set vpn (Machine.used pte writing)) }
  | _ => space

/-- `AddrSpace::Translate`. -/
def translate (space : AddrSpace) (vaddr : BitVec 32) (isReadWrite : Bool) :
    Except Fault (Except ExceptionType (ℕ × AddrSpace)) := do
  let vpn := vaddr.toNat / pageSize
  let offset := vaddr.toNat % pageSize
  if vpn ≥ space.numPages then return .error .addressError
  else
    let pte ← space.entry vpn
    if isReadWrite = true ∧ pte.readOnly = true then return .error .readOnly
    else
      let pfn := pte.physicalPage
      if pfn ≥ numPhysPages then return .error .busError
      else
        let paddr := BitVec.ofInt 32 (pfn * pageSize) + BitVec.ofNat 32 offset
        assert (paddr.toNat < memorySize)
        return .ok (paddr.toNat, space.setUsed vpn pte isReadWrite)

/-- With the table installed the two translators return the same exception, or
the same address after the same change to the table. -/
def TranslatorsAgree (space : AddrSpace) (m : Machine) (vaddr : BitVec 32)
    (writing : Bool) : Prop :=
  ∃ installed, space.restoreState m = .ok installed ∧
    ((∃ which, space.translate vaddr writing = .ok (.error which) ∧
        installed.translate vaddr 1 writing = .ok (.error which)) ∨
      ∃ paddr space' entries m',
        space.translate vaddr writing = .ok (.ok (paddr, space')) ∧
          installed.translate vaddr 1 writing = .ok (.ok (paddr, m')) ∧
          space'.pageTable = .table entries ∧ m'.pageTable = some entries)

/-! ## One entry -/

/-- The entries that `AllocateMemory` makes: a frame, or -1. -/
def Produced (entry : TranslationEntry) : Prop :=
  entry.valid = true ∧ entry.readOnly = false ∧
    (entry.physicalPage = -1 ∨
      0 ≤ entry.physicalPage ∧ entry.physicalPage < numPhysPages)

section Entry

variable {space : AddrSpace} {entries : List TranslationEntry}
variable {vaddr : BitVec 32}

/-- The machine after `RestoreState`. -/
theorem restoreState_table (htable : space.pageTable = .table entries)
    (m : Machine) : space.restoreState m = .ok { m with
      pageTable := some entries, pageTableSize := space.numPages } := by
  rw [restoreState, htable]
  rfl

theorem toNat_frame {frame : ℕ} (hlt : frame < numPhysPages)
    (vaddr : BitVec 32) :
    (BitVec.ofInt 32 ((frame : ℤ) * pageSize) +
      BitVec.ofNat 32 (vaddr.toNat % pageSize)).toNat =
        frame * pageSize + vaddr.toNat % pageSize := by
  have hcast : ((frame : ℤ) * pageSize) = ((frame * pageSize : ℕ) : ℤ) := by
    push_cast
    rfl
  have hoffset : vaddr.toNat % pageSize < pageSize :=
    Nat.mod_lt _ (by decide)
  rw [hcast, BitVec.ofInt_natCast, ← BitVec.ofNat_add, BitVec.toNat_ofNat]
  unfold numPhysPages pageSize at *
  omega

/-- Behind the table both report an address error. -/
theorem agree_outside (htable : space.pageTable = .table entries)
    (hout : space.numPages ≤ vaddr.toNat / pageSize) (m : Machine)
    (writing : Bool) : space.TranslatorsAgree m vaddr writing := by
  refine ⟨_, restoreState_table htable m, .inl ⟨.addressError, ?_, ?_⟩⟩
  · rw [translate, if_pos hout]
    rfl
  · have haligned : ¬((1 = 4 ∧ vaddr.toNat % 4 ≠ 0) ∨
        (1 = 2 ∧ vaddr.toNat % 2 ≠ 0)) := by simp
    simp only [Machine.translate, if_neg haligned, if_pos hout]
    rfl

/-- A frame is translated in the same way by both. -/
theorem agree_of_frame {entry : TranslationEntry}
    (htable : space.pageTable = .table entries)
    (hinside : vaddr.toNat / pageSize < space.numPages)
    (hentry : entries[vaddr.toNat / pageSize]? = some entry)
    (hproduced : Produced entry) (hframe : entry.physicalPage ≠ -1)
    (m : Machine) (writing : Bool) :
    space.TranslatorsAgree m vaddr writing := by
  obtain ⟨hvalid, hreadOnly, hpage⟩ := hproduced
  obtain ⟨hnonneg, hbelow⟩ := hpage.resolve_left hframe
  obtain ⟨frame, hnat⟩ := Int.eq_ofNat_of_zero_le hnonneg
  have hlt : frame < numPhysPages := by omega
  have haddress := toNat_frame hlt vaddr
  have hoffset : vaddr.toNat % pageSize < pageSize :=
    Nat.mod_lt _ (by decide)
  have hfits : frame * pageSize + vaddr.toNat % pageSize + 1 ≤
      memorySize := by
    unfold memorySize numPhysPages pageSize at *
    omega
  have hlookup : space.entry (vaddr.toNat / pageSize) = .ok entry := by
    simp only [AddrSpace.entry, htable, hentry]
  have hwritable : ¬(writing = true ∧ entry.readOnly = true) := by
    simp [hreadOnly]
  have hwritable' : ¬(entry.readOnly = true ∧ writing = true) := by
    simp [hreadOnly]
  refine ⟨_, restoreState_table htable m, .inr
    ⟨frame * pageSize + vaddr.toNat % pageSize,
      space.setUsed (vaddr.toNat / pageSize) entry writing,
      entries.set (vaddr.toNat / pageSize) (Machine.used entry writing),
      { m with
        pageTable := some (entries.set (vaddr.toNat / pageSize)
          (Machine.used entry writing))
        pageTableSize := space.numPages }, ?_, ?_, ?_, rfl⟩⟩
  · rw [translate, if_neg (not_le.mpr hinside), hlookup, ok_bind,
      if_neg hwritable, if_neg (not_le.mpr hbelow), hnat]
    simp only [haddress, assert_of_true (Nat.lt_of_succ_le hfits)]
    rfl
  · have haligned : ¬((1 = 4 ∧ vaddr.toNat % 4 ≠ 0) ∨
        (1 = 2 ∧ vaddr.toNat % 2 ≠ 0)) := by simp
    have hrange : ¬¬(0 ≤ entry.physicalPage ∧
        entry.physicalPage < numPhysPages) := not_not.mpr ⟨hnonneg, hbelow⟩
    have hframeNat : entry.physicalPage.toNat = frame := by omega
    simp only [Machine.translate, if_neg haligned,
      if_neg (not_le.mpr hinside), hentry,
      if_neg (show ¬entry.valid = false by simp [hvalid]),
      if_neg hwritable', if_neg hrange, hframeNat, assert_of_true hfits]
    rfl
  · simp only [setUsed, htable]

/-- With the frame -1 the kernel aborts in one and not in the other. -/
theorem not_agree_of_refused {entry : TranslationEntry}
    (htable : space.pageTable = .table entries)
    (hinside : vaddr.toNat / pageSize < space.numPages)
    (hentry : entries[vaddr.toNat / pageSize]? = some entry)
    (hproduced : Produced entry) (hrefused : entry.physicalPage = -1)
    (m : Machine) (writing : Bool) :
    ¬space.TranslatorsAgree m vaddr writing := by
  obtain ⟨-, hreadOnly, -⟩ := hproduced
  have hlookup : space.entry (vaddr.toNat / pageSize) = .ok entry := by
    simp only [AddrSpace.entry, htable, hentry]
  have hwritable : ¬(writing = true ∧ entry.readOnly = true) := by
    simp [hreadOnly]
  have hoffset : vaddr.toNat % pageSize < pageSize :=
    Nat.mod_lt _ (by decide)
  have hpage : ¬entry.physicalPage ≥ numPhysPages := by
    rw [hrefused]
    unfold numPhysPages
    omega
  have hoverflows : ¬(BitVec.ofInt 32 (-1 * pageSize) +
      BitVec.ofNat 32 (vaddr.toNat % pageSize)).toNat < memorySize := by
    have hframe : (BitVec.ofInt 32 (-1 * pageSize)).toNat = 2 ^ 32 - 128 :=
      rfl
    rw [BitVec.toNat_add, BitVec.toNat_ofNat, hframe]
    unfold memorySize numPhysPages pageSize at *
    omega
  have haborts : space.translate vaddr writing = .error .abort := by
    rw [translate, if_neg (not_le.mpr hinside), hlookup, ok_bind,
      if_neg hwritable, if_neg hpage, hrefused]
    simp only [assert_of_false hoverflows]
    rfl
  rintro ⟨installed, -, ⟨which, hspace, -⟩ |
    ⟨paddr, space', entries', m', hspace, -⟩⟩
  · cases haborts.symm.trans hspace
  · cases haborts.symm.trans hspace

end Entry

/-! ## The tables that are produced -/

theorem grantPage_produced
    {i : ℕ} {s s' : Bitmap × List TranslationEntry}
    (hbits : s.1.numBits = numPhysPages)
    (hproduced : ∀ entry ∈ s.2, Produced entry)
    (hround : grantPage i s = .ok s') :
    s'.1.numBits = numPhysPages ∧ s'.2.length = s.2.length + 1 ∧
      ∀ entry ∈ s'.2, Produced entry := by
  have hlast : ∀ frame : ℤ,
      frame = -1 ∨ 0 ≤ frame ∧ frame < numPhysPages →
        ∀ entry ∈ s.2 ++ [newEntry i frame], Produced entry := by
    intro frame hframe entry hentry
    rcases List.mem_append.mp hentry with hold | hnew
    · exact hproduced entry hold
    · rw [List.mem_singleton.mp hnew]
      exact ⟨rfl, rfl, hframe⟩
  obtain ⟨⟨frame, bm⟩, hfind, hresult⟩ := ok_of_bind hround
  cases hresult
  refine ⟨?_, by simp, hlast frame ?_⟩
  · rcases s.1.findAndSet_cases with ⟨hnone, -⟩ | ⟨j, -, -, -, hset⟩
    · cases hnone.symm.trans hfind
      exact hbits
    · cases hset.symm.trans hfind
      exact hbits
  · rcases s.1.findAndSet_cases with ⟨hnone, -⟩ | ⟨j, hlt, -, -, hset⟩
    · cases hnone.symm.trans hfind
      exact .inl rfl
    · cases hset.symm.trans hfind
      rw [hbits] at hlt
      exact .inr (by omega)

theorem grantPages_produced
    {numPages : ℕ} {bm bm' : Bitmap} {entries : List TranslationEntry}
    (hbits : bm.numBits = numPhysPages)
    (hgrant : countedLoop grantPage 0 numPages (bm, []) =
      .ok (bm', entries)) :
    bm'.numBits = numPhysPages ∧ entries.length = numPages ∧
      ∀ entry ∈ entries, Produced entry := by
  let Inv : ℕ → Bitmap × List TranslationEntry → Prop := fun i s =>
    s.1.numBits = numPhysPages ∧ s.2.length = i ∧
      ∀ entry ∈ s.2, Produced entry
  have hstart : Inv 0 (bm, []) := ⟨hbits, rfl, by simp⟩
  have hround : ∀ i s s', 0 ≤ i → i < 0 + numPages → Inv i s →
      grantPage i s = .ok s' → Inv (i + 1) s' := by
    intro i s s' _ _ hinv hround
    obtain ⟨hbits', hlength, hproduced⟩ :=
      grantPage_produced hinv.1 hinv.2.2 hround
    exact ⟨hbits', by rw [hlength, hinv.2.1], hproduced⟩
  have hall := countedLoop_invariant Inv hstart hround hgrant
  rwa [Nat.zero_add] at hall

theorem numBits_of_clear {b b' : Bitmap} {which : ℤ}
    (hclear : b.clear which = .ok b') : b'.numBits = b.numBits := by
  obtain ⟨-, -, hrest⟩ := ok_of_bind hclear
  obtain ⟨cleared, -, hrest⟩ := ok_of_bind hrest
  obtain ⟨-, -, hresult⟩ := ok_of_bind hrest
  cases hresult
  rfl

theorem numBits_of_destroy {space : AddrSpace} {m m' : Machine}
    (hdestroy : space.destroy m = .ok m') :
    m'.pageTableMap.numBits = m.pageTableMap.numBits := by
  obtain ⟨cleared, hloop, hresult⟩ := ok_of_bind hdestroy
  let Inv : ℕ → Machine → Prop := fun _ after =>
    after.pageTableMap.numBits = m.pageTableMap.numBits
  have hround : ∀ i before after, 0 ≤ i → i < 0 + space.numPages →
      Inv i before → space.clearPage i before = .ok after →
        Inv (i + 1) after := by
    intro i before after _ _ hinv hround
    obtain ⟨entry, -, hround⟩ := ok_of_bind hround
    obtain ⟨bm, hclear, hresult⟩ := ok_of_bind hround
    cases hresult
    exact (numBits_of_clear hclear).trans hinv
  have hbits : Inv (0 + space.numPages) cleared :=
    countedLoop_invariant Inv rfl hround hloop
  cases htable : space.pageTable with
  | wild =>
      simp only [htable] at hresult
      cases hresult
  | null =>
      simp only [htable] at hresult
      cases hresult
      exact hbits
  | table entries =>
      simp only [htable] at hresult
      cases hresult
      exact hbits

end AddrSpace

namespace Frames

open AddrSpace (Produced)

/-- A creation fills a page table of any size.  A page that `FindAndSet`
refuses gets the frame -1; the zeros that `AllocateMemory` then stores for it
are outside of `mainMemory` and are left out. -/
def produceStep (s : Frames) : Action → Except StepError (Frames × Event)
  | .create garbage numPages => do
      let (bm, entries) ← orFault (countedLoop AddrSpace.grantPage 0 numPages
        (s.machine.pageTableMap, []))
      let space := { AddrSpace.new garbage with
        numPages := numPages, pageTable := .table entries }
      return (⟨{ s.machine with pageTableMap := bm },
        s.spaces ++ [some space]⟩, .created numPages)
  | action => s.step action

/-- The page tables that creations and destructions produce, exhausted memory
included. -/
def tableSystem : StepSystem Frames Action Event StepError where
  start := start
  step := produceStep

/-- The tables of the live spaces have produced entries. -/
structure TablesProduced (s : Frames) : Prop where
  numBits : s.machine.pageTableMap.numBits = numPhysPages
  produced : ∀ space, some space ∈ s.spaces →
    ∃ entries, space.pageTable = .table entries ∧
      entries.length = space.numPages ∧ ∀ entry ∈ entries, Produced entry

theorem TablesProduced.step {s s' : Frames} {action : Action} {event : Event}
    (htables : s.TablesProduced)
    (hstep : s.produceStep action = .ok (s', event)) : s'.TablesProduced := by
  cases action with
  | create garbage numPages =>
      cases hgrant : countedLoop AddrSpace.grantPage 0 numPages
          (s.machine.pageTableMap, []) with
      | error fault =>
          simp only [produceStep, hgrant, orFault] at hstep
          cases hstep
      | ok granted =>
          obtain ⟨bm, entries⟩ := granted
          simp only [produceStep, hgrant, orFault] at hstep
          cases hstep
          obtain ⟨hbits, hlength, hproduced⟩ :=
            AddrSpace.grantPages_produced htables.numBits hgrant
          refine ⟨hbits, fun space hspace => ?_⟩
          rcases List.mem_append.mp hspace with hold | hnew
          · exact htables.produced space hold
          · obtain rfl : space = _ := by simpa using hnew
            exact ⟨entries, rfl, hlength, hproduced⟩
  | destroy i =>
      change s.step (.destroy i) = _ at hstep
      unfold Frames.step at hstep
      split at hstep
      next => contradiction
      next i' heq =>
        cases heq
        split at hstep
        next space hget =>
          cases hdestroy : space.destroy s.machine with
          | error fault =>
              simp only [hdestroy, orFault] at hstep
              cases hstep
          | ok machine =>
              simp only [hdestroy, orFault] at hstep
              cases hstep
              refine ⟨(AddrSpace.numBits_of_destroy hdestroy).trans
                htables.numBits, fun other hother => ?_⟩
              rcases List.mem_or_eq_of_mem_set hother with hold | heq
              · exact htables.produced other hold
              · cases heq
        next => cases hstep
      next => contradiction
  | write paddr byte =>
      change s.step (.write paddr byte) = _ at hstep
      by_cases hlt : paddr < memorySize
      · rw [Frames.step, if_pos hlt, Machine.store_eq hlt] at hstep
        cases hstep
        exact ⟨htables.numBits, htables.produced⟩
      · rw [Frames.step, if_neg hlt] at hstep
        cases hstep

theorem tablesProduced_of_reaches {trace : List Event} {s : Frames}
    (hreaches : tableSystem.Reaches trace s) : s.TablesProduced := by
  apply hreaches.invariant (fun _ s => s.TablesProduced)
  · exact ⟨rfl, by simp [tableSystem, start]⟩
  · intro trace s s' action event _ htables _ hstep
    exact htables.step hstep

/-- The translators agree on an address if and only if its page is outside of
the table or has a frame. -/
theorem translators_agree_iff {trace : List Event} {s : Frames}
    (hreaches : tableSystem.Reaches trace s) {space : AddrSpace}
    (hspace : some space ∈ s.spaces) (m : Machine) (vaddr : BitVec 32)
    (writing : Bool) :
    space.TranslatorsAgree m vaddr writing ↔
      ∀ entry, vaddr.toNat / pageSize < space.numPages →
        space.entry (vaddr.toNat / pageSize) = .ok entry →
          entry.physicalPage ≠ -1 := by
  obtain ⟨entries, htable, hlength, hproduced⟩ :=
    (tablesProduced_of_reaches hreaches).produced space hspace
  rcases Nat.lt_or_ge (vaddr.toNat / pageSize) space.numPages with
    hinside | hout
  · have hlt : vaddr.toNat / pageSize < entries.length := by omega
    have hentry : entries[vaddr.toNat / pageSize]? =
        some entries[vaddr.toNat / pageSize] := List.getElem?_eq_getElem hlt
    have hmem := hproduced _ (List.getElem_mem hlt)
    have hlookup := AddrSpace.entry_eq htable hlt
    constructor
    · intro hagree entry _ hget hrefused
      rw [hlookup] at hget
      cases hget
      exact AddrSpace.not_agree_of_refused htable hinside hentry hmem
        hrefused m writing hagree
    · intro hframe
      exact AddrSpace.agree_of_frame htable hinside hentry hmem
        (hframe _ hinside hlookup) m writing
  · exact iff_of_true (AddrSpace.agree_outside htable hout m writing)
      fun _ hinside => absurd hinside (not_lt.mpr hout)

/-! ## A space that found no frame -/

theorem physicalPage_mem {space : AddrSpace} {i : ℕ}
    {entry : TranslationEntry} (hentry : space.entry i = .ok entry) :
    entry.physicalPage ∈ space.physicalPages := by
  cases htable : space.pageTable with
  | null => simp [AddrSpace.entry, htable] at hentry
  | wild => simp [AddrSpace.entry, htable] at hentry
  | table entries =>
      cases hget : entries[i]? with
      | none => simp [AddrSpace.entry, htable, hget] at hentry
      | some found =>
          obtain rfl : found = entry := by
            simpa [AddrSpace.entry, htable, hget] using hentry
          simp only [AddrSpace.physicalPages, htable]
          exact List.mem_map_of_mem (List.mem_of_getElem? hget)

/-- A space of all frames, and one of a page. -/
def exhausting : List Action :=
  [.create ⟨0, 0, 0, 0, 0⟩ 128, .create ⟨0, 0, 0, 0, 0⟩ 1]

/-- The second space has a table of one page, without a frame, and the first
one has frames only. -/
def Exhausted (s : Frames) : Prop :=
  ∃ first second, s.spaces = [some first, some second] ∧
    -1 ∉ first.physicalPages ∧ second.physicalPages = [-1]

def exhaustedCheck (s : Frames) : Bool :=
  match s.spaces with
  | [some first, some second] =>
      decide (-1 ∉ first.physicalPages) &&
        decide (second.physicalPages = [-1])
  | _ => false

theorem exists_exhausted :
    ∃ trace s, tableSystem.Reaches trace s ∧ Exhausted s := by
  have hreplays : tableSystem.Replays StepSystem.anyStep exhausting
      (fun _ s => exhaustedCheck s) = true := by
    decide +kernel
  obtain ⟨trace, s, hrun, hcheck⟩ :=
    StepSystem.exists_run_of_replays hreplays
  refine ⟨trace, s, hrun, ?_⟩
  unfold exhaustedCheck at hcheck
  split at hcheck
  next first second hspaces =>
    simp only [Bool.and_eq_true, decide_eq_true_eq] at hcheck
    exact ⟨first, second, hspaces, hcheck.1, hcheck.2⟩
  next => cases hcheck

/-- The translators agree on a space that has frames. -/
theorem translators_agree_exhausting :
    ∃ trace s space, tableSystem.Reaches trace s ∧ some space ∈ s.spaces ∧
      ∀ vaddr writing, space.TranslatorsAgree s.machine vaddr writing := by
  obtain ⟨trace, s, hrun, first, second, hspaces, hframes, -⟩ :=
    exists_exhausted
  have hmem : some first ∈ s.spaces := by simp [hspaces]
  refine ⟨trace, s, first, hrun, hmem, fun vaddr writing => ?_⟩
  apply (translators_agree_iff hrun hmem s.machine vaddr writing).mpr
  intro entry _ hentry hrefused
  rw [← hrefused] at hframes
  exact hframes (physicalPage_mem hentry)

/-- They do not agree on a space that was created without a free frame. -/
theorem translators_differ :
    ∃ trace s space, tableSystem.Reaches trace s ∧ some space ∈ s.spaces ∧
      ∀ writing, ¬space.TranslatorsAgree s.machine 0 writing := by
  obtain ⟨trace, s, hrun, first, second, hspaces, -, hpages⟩ :=
    exists_exhausted
  have hmem : some second ∈ s.spaces := by simp [hspaces]
  refine ⟨trace, s, second, hrun, hmem, fun writing => ?_⟩
  obtain ⟨entries, htable, hlength, hproduced⟩ :=
    (tablesProduced_of_reaches hrun).produced second hmem
  simp only [AddrSpace.physicalPages, htable] at hpages
  have hcount : entries.length = 1 := by
    rw [← List.length_map TranslationEntry.physicalPage, hpages]
    rfl
  have hlt : 0 < entries.length := by omega
  have hrefused : entries[0].physicalPage = -1 := by
    rw [← List.getElem_map TranslationEntry.physicalPage]
    simp only [hpages, List.getElem_cons_zero]
    simpa using hlt
  have hinside : (0 : BitVec 32).toNat / pageSize < second.numPages := by
    rw [← hlength]
    exact hlt
  exact AddrSpace.not_agree_of_refused htable hinside
    (List.getElem?_eq_getElem hlt) (hproduced _ (List.getElem_mem hlt))
    hrefused s.machine writing

end Frames

end Nachos
