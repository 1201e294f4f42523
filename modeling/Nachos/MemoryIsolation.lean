import Nachos.MemoryAccess

/-!
# Address spaces do not reach each other's memory

Several page tables lie over one memory.  Their entries are as
`AllocateMemory` makes them, and no frame occurs twice.  Distinct pairs of a
table and a virtual address are then distinct physical addresses, and a store
through one table is seen at the addresses it was made at and nowhere else.
-/

namespace Nachos

open Machine

/-- Page tables that share no frame, all of them valid and writable. -/
structure Isolated {ι : Type} (tables : ι → List TranslationEntry) :
    Prop where
  valid : ∀ i, ∀ entry ∈ tables i, entry.valid = true
  writable : ∀ i, ∀ entry ∈ tables i, entry.readOnly = false
  frame : ∀ i, ∀ entry ∈ tables i,
    0 ≤ entry.physicalPage ∧ entry.physicalPage < numPhysPages
  nodup : ∀ i, ((tables i).map TranslationEntry.physicalPage).Nodup
  disjoint : ∀ i j, i ≠ j →
    ((tables i).map TranslationEntry.physicalPage).Disjoint
      ((tables j).map TranslationEntry.physicalPage)

section Isolation

variable {ι : Type} {tables : ι → List TranslationEntry}

/-- The memory seen through one of the tables. -/
def through (tables : ι → List TranslationEntry) (i : ι) (m : Machine) :
    Machine :=
  AddrSpace.install (tables i) m

/-- What `WriteMem` through a table does to the bytes of all spaces. -/
def StoresOwnBytes (tables : ι → List TranslationEntry) (i : ι) (m : Machine)
    (addr : BitVec 32) (size : ℕ) (value : BitVec 32) : Prop :=
  match (through tables i m).writeMemory addr size value with
  | .ok m' =>
      (∀ k < size, m'.userByte (addr + BitVec.ofNat 32 k) =
        some (valueByte value k)) ∧
      (∀ a, (∀ k < size, a ≠ addr + BitVec.ofNat 32 k) →
        m'.userByte a = (through tables i m).userByte a) ∧
      (∀ j, j ≠ i → ∀ a, (through tables j m').userByte a =
        (through tables j m).userByte a) ∧
      ∃ m'', m'.readMemory addr size = .ok (truncated value size, m'')
  | .error (.raised _ _ m') => m'.mainMemory = m.mainMemory
  | .error (.fault _) => False

/-- `ReadMem` through a table changes no byte. -/
def LoadsOwnBytes (tables : ι → List TranslationEntry) (i : ι) (m : Machine)
    (addr : BitVec 32) (size : ℕ) : Prop :=
  match (through tables i m).readMemory addr size with
  | .ok (_, m') => m'.mainMemory = m.mainMemory
  | .error (.raised _ _ m') => m'.mainMemory = m.mainMemory
  | .error (.fault _) => False

variable {m m' : Machine} {i j : ι} {addr a : BitVec 32}
variable {writing writing' : Bool} {paddr : ℕ}

theorem hasTable_through (tables : ι → List TranslationEntry) (i : ι)
    (m : Machine) : (through tables i m).HasTable :=
  ⟨tables i, rfl, le_rfl⟩

theorem through_physical (m m' : Machine) (a : BitVec 32) (writing : Bool) :
    (through tables i m).physical a writing =
      (through tables i m').physical a writing := rfl

theorem mem_of_entryAt
    {entry : TranslationEntry}
    (hentry : (through tables i m).entryAt a = some entry) :
    entry ∈ tables i := by
  have hentry' : (if a.toNat / pageSize < (tables i).length then
      (tables i)[a.toNat / pageSize]? else none) = some entry := hentry
  rw [Option.ite_none_right_eq_some] at hentry'
  exact List.mem_of_getElem? hentry'.2

theorem mem_of_physical
    (hphys : (through tables i m).physical a writing = some paddr) :
    ∃ entry ∈ tables i,
      entry.physicalPage.toNat = paddr / pageSize := by
  obtain ⟨entry, hentry, -, rfl⟩ := physical_eq_some.mp hphys
  have hoffset : a.toNat % pageSize < pageSize := Nat.mod_lt _ (by decide)
  refine ⟨entry, mem_of_entryAt hentry, ?_⟩
  rw [Nat.mul_comm, Nat.mul_add_div (by decide), Nat.div_eq_of_lt hoffset,
    Nat.add_zero]

/-- No physical address belongs to two spaces. -/
theorem Isolated.ne_physical
    (hisolated : Isolated tables) (hne : j ≠ i)
    (hphys : (through tables i m).physical addr writing = some paddr) :
    (through tables j m').physical a writing' ≠ some paddr := by
  intro hother
  obtain ⟨entry, hentry, hframe⟩ := mem_of_physical hphys
  obtain ⟨entry', hentry', hframe'⟩ := mem_of_physical hother
  have hrange := (hisolated.frame i entry hentry).1
  have hrange' := (hisolated.frame j entry' hentry').1
  have hsame : entry'.physicalPage = entry.physicalPage := by omega
  apply hisolated.disjoint i j hne.symm
    (List.mem_map_of_mem hentry)
  rw [← hsame]
  exact List.mem_map_of_mem hentry'

/-- Within one space the mapping is injective. -/
theorem Isolated.distinctFrames
    (hisolated : Isolated tables) (i : ι) (m : Machine) :
    (through tables i m).DistinctFrames := by
  intro table htable
  cases htable
  exact hisolated.nodup i

/-- Every byte that can be read can be written. -/
theorem Isolated.physical_writing
    (hisolated : Isolated tables) :
    (through tables i m).physical a false =
      (through tables i m).physical a true := by
  unfold Machine.physical
  cases hentry : (through tables i m).entryAt a with
  | none => rfl
  | some entry =>
      have hmem := mem_of_entryAt hentry
      simp [TranslationEntry.Allows, hisolated.writable i entry hmem]

/-! ## The bytes after a store -/

theorem userByte_eq (m : Machine) (a : BitVec 32) :
    m.userByte a = (m.physical a false).map m.mainMemory := rfl

/-- A store through a table of the family. -/
theorem Isolated.storesOwnBytes
    (hisolated : Isolated tables) (i : ι) (m : Machine)
    (addr value : BitVec 32) {size : ℕ} (haccess : IsAccess size) :
    StoresOwnBytes tables i m addr size value := by
  have htable := hasTable_through tables i m
  unfold StoresOwnBytes
  rcases writeMemory_cases htable haccess addr value with
    ⟨exception, hraised⟩ |
      ⟨paddr, m', hwritten, haligned, hphys, hsame, hmemory, hafter⟩
  · rw [hraised]
    rfl
  · have hstored : ∀ k < size,
        m'.mainMemory (paddr + k) = valueByte value k := by
      intro k hk
      rw [hmemory, withValue_of_lt _ _ hk]
    have hread : (through tables i m).physical addr false = some paddr :=
      hisolated.physical_writing.trans hphys
    -- what is not one of the stored bytes lies elsewhere in memory
    have hkept : ∀ p, (∀ k < size, p ≠ paddr + k) →
        m'.mainMemory p = m.mainMemory p := by
      intro p hp
      rw [hmemory]
      exact withValue_of_outside _ _ hp
    rw [hwritten]
    refine ⟨?_, ?_, ?_, ?_⟩
    · intro k hk
      have hbyte := physical_add haccess haligned hread hk
      rw [userByte_eq, hsame.physical, hbyte, Option.map_some, hstored k hk]
    · intro a hout
      rw [userByte_eq, userByte_eq, hsame.physical]
      cases hother : (through tables i m).physical a false with
      | none => rfl
      | some p =>
          simp only [Option.map_some, Option.some.injEq]
          apply hkept
          rintro k hk rfl
          apply hout k hk
          exact (hisolated.distinctFrames i m).physical_inj hother
            (physical_add haccess haligned hread hk)
    · intro j hne a
      rw [userByte_eq, userByte_eq, through_physical m' m]
      cases hother : (through tables j m).physical a false with
      | none => rfl
      | some p =>
          simp only [Option.map_some, Option.some.injEq]
          apply hkept
          rintro k hk rfl
          exact hisolated.ne_physical hne
            (physical_add haccess haligned hread hk) hother
    · rcases readMemory_cases hafter haccess addr with
        ⟨exception, -, hnone⟩ | ⟨p, m'', v, hv, -, hp, hload, -, hmem, -⟩
      · rw [hsame.physical, hread] at hnone
        cases hnone haligned
      · rw [hsame.physical, hread, Option.some.injEq] at hp
        subst hp
        have hloaded := load_eq (m := m'') haccess _
          (fun k hk => by rw [hmem]; exact hstored k hk)
        rw [hload, Except.ok.injEq] at hloaded
        subst hloaded
        exact ⟨m'', hv⟩

theorem loadsOwnBytes
    (tables : ι → List TranslationEntry) (i : ι) (m : Machine)
    (addr : BitVec 32) {size : ℕ} (haccess : IsAccess size) :
    LoadsOwnBytes tables i m addr size := by
  have htable := hasTable_through tables i m
  unfold LoadsOwnBytes
  rcases readMemory_cases htable haccess addr with
    ⟨exception, hraised, -⟩ | ⟨_, m', _, hread, -, -, -, -, hmemory, -⟩
  · rw [hraised]
    rfl
  · rw [hread]
    exact hmemory

/-- The spaces are isolated from each other, whichever of them is accessed. -/
theorem memory_isolated
    (hisolated : Isolated tables) (i : ι) (m : Machine)
    (addr value : BitVec 32) {size : ℕ} (haccess : IsAccess size) :
    StoresOwnBytes tables i m addr size value ∧
      LoadsOwnBytes tables i m addr size :=
  ⟨hisolated.storesOwnBytes i m addr value haccess,
    loadsOwnBytes tables i m addr haccess⟩

/-- Two spaces of one page each. -/
def onePageEach (second : Bool) : List TranslationEntry :=
  [⟨0, if second then 3 else 5, true, false, false, false⟩]

theorem isolated_onePageEach : Isolated onePageEach where
  valid := by simp [onePageEach]
  writable := by simp [onePageEach]
  frame := by simp [onePageEach, numPhysPages]
  nodup := by simp [onePageEach]
  disjoint := by simp [onePageEach]

theorem memory_isolated_onePageEach :
    StoresOwnBytes onePageEach true ⟨fun _ => 0, fun _ => 7, ⟨0, [], rfl⟩, none, 0⟩
        8 4 0x01020304 ∧
      LoadsOwnBytes onePageEach true
        ⟨fun _ => 0, fun _ => 7, ⟨0, [], rfl⟩, none, 0⟩ 8 4 :=
  memory_isolated isolated_onePageEach true _ 8 0x01020304
    (.inr (.inr rfl))

end Isolation

end Nachos
