import Nachos.TwinMachines

/-!
# The memory of one program

A page table whose entries allow everything makes the frames it lists into the
memory of one program.  Which frames these are cannot be told from within: two
machines on which a program finds the same bytes run alike, and nothing that
the program does is seen in the frames of another one.
-/

namespace Nachos

open Library Machine

/-- The installed page table is made of these frames. -/
structure Hosts (frames : List ℤ) (m : Machine) : Prop where
  table : ∃ entries, m.pageTable = some entries ∧
    entries.map TranslationEntry.physicalPage = frames ∧
      ∀ entry ∈ entries, entry.Allows true
  size : m.pageTableSize = frames.length
  nodup : frames.Nodup

section Hosting

variable {frames : List ℤ} {m : Machine}

/-- The address of a byte in memory. -/
def frameAddress (frames : List ℤ) (addr : BitVec 32) : Option ℕ :=
  (frames[addr.toNat / pageSize]?).map fun frame =>
    frame.toNat * pageSize + addr.toNat % pageSize

theorem Hosts.physical
    (hhosts : Hosts frames m) (addr : BitVec 32) (writing : Bool) :
    m.physical addr writing = frameAddress frames addr := by
  obtain ⟨entries, htable, hframes, hallows⟩ := hhosts.table
  have hsize : m.pageTableSize = entries.length := by
    rw [hhosts.size, ← hframes, List.length_map]
  unfold Machine.physical frameAddress
  rw [← hframes, List.getElem?_map]
  by_cases hlt : addr.toNat / pageSize < entries.length
  · have hmem := List.getElem_mem hlt
    obtain ⟨hvalid, hreadOnly, hrange⟩ := hallows _ hmem
    have hallowed : (entries[addr.toNat / pageSize]).Allows writing := by
      refine ⟨hvalid, ?_, hrange⟩
      rintro ⟨hnot, -⟩
      exact hreadOnly ⟨hnot, rfl⟩
    simp [Machine.entryAt, htable, hsize, hlt, hallowed]
  · simp [Machine.entryAt, htable, hsize, hlt]

/-- The machine behind an access. -/
structure Accessed (frames : List ℤ) (m m' : Machine) : Prop where
  hosts : Hosts frames m'
  registers : m'.registers = m.registers
  mainMemory : m'.mainMemory = m.mainMemory
  pageTableMap : m'.pageTableMap = m.pageTableMap

/-- The access is aligned, and inside of the pages. -/
def InPages (pages : ℕ) (addr : BitVec 32) (size : ℕ) : Prop :=
  addr.toNat % size = 0 ∧ addr.toNat / pageSize < pages

theorem Hosts.translate_outside
    (hhosts : Hosts frames m) {size : ℕ} (haccess : IsAccess size)
    {addr : BitVec 32} (hout : ¬InPages frames.length addr size)
    (writing : Bool) :
    m.translate addr size writing = .ok (.error .addressError) := by
  obtain ⟨entries, htable, -, -⟩ := hhosts.table
  unfold Machine.translate
  simp only
  by_cases haligned : addr.toNat % size = 0
  · have hge : addr.toNat / pageSize ≥ m.pageTableSize := by
      rw [hhosts.size]
      exact not_lt.mp fun hlt => hout ⟨haligned, hlt⟩
    rw [if_neg ((misaligned_iff haccess).not.mpr (not_not.mpr haligned)),
      htable]
    simp only [if_pos hge]
    rfl
  · rw [if_pos ((misaligned_iff haccess).mpr haligned)]
    rfl

theorem Hosts.translate_inside
    (hhosts : Hosts frames m) {size : ℕ} (haccess : IsAccess size)
    {addr : BitVec 32} (hin : InPages frames.length addr size)
    (writing : Bool) :
    ∃ paddr m', m.translate addr size writing = .ok (.ok (paddr, m')) ∧
      frameAddress frames addr = some paddr ∧ Accessed frames m m' := by
  obtain ⟨entries, htable, hframes, hallows⟩ := hhosts.table
  obtain ⟨haligned, hpage⟩ := hin
  have hsize : m.pageTableSize = entries.length := by
    rw [hhosts.size, ← hframes, List.length_map]
  have hlt : addr.toNat / pageSize < entries.length := by
    rwa [← hframes, List.length_map] at hpage
  have hphysical : m.physical addr writing = some
      (entries[addr.toNat / pageSize].physicalPage.toNat * pageSize +
        addr.toNat % pageSize) := by
    rw [hhosts.physical, frameAddress, ← hframes, List.getElem?_map]
    simp [hlt]
  have hfits := physical_add_le haccess haligned hphysical
  obtain ⟨hvalid, hreadOnly, hrange⟩ := hallows _ (List.getElem_mem hlt)
  have hwritable : ¬(entries[addr.toNat / pageSize].readOnly = true ∧
      writing = true) := fun h => hreadOnly ⟨h.1, rfl⟩
  let after := entries.set (addr.toNat / pageSize)
    (used entries[addr.toNat / pageSize] writing)
  refine ⟨_, { m with pageTable := some after }, ?_,
    (hhosts.physical addr writing).symm.trans hphysical, ?_⟩
  · unfold Machine.translate
    simp only [htable, List.getElem?_eq_getElem hlt,
      if_neg ((misaligned_iff haccess).not.mpr (not_not.mpr haligned)),
      if_neg (show ¬addr.toNat / pageSize ≥ m.pageTableSize by omega),
      if_neg (show ¬entries[addr.toNat / pageSize].valid = false by
        simp [hvalid]),
      if_neg hwritable, if_neg (not_not.mpr hrange), assert_of_true hfits]
    rfl
  · refine ⟨⟨⟨after, rfl, ?_, ?_⟩, hhosts.size, hhosts.nodup⟩, rfl, rfl, rfl⟩
    · rw [← hframes, List.map_set]
      apply List.ext_getElem?
      intro i
      rw [List.getElem?_set]
      split_ifs with hsame hshort
      · subst hsame
        simp [hlt, used]
      · exact (hshort (by simpa using hsame ▸ hlt)).elim
      · rfl
    · intro entry hentry
      rcases List.mem_or_eq_of_mem_set hentry with hold | rfl
      · exact hallows entry hold
      · exact ⟨hvalid, hreadOnly, hrange⟩

/-! ## The bytes of the program -/

theorem Hosts.userByte (hhosts : Hosts frames m) (addr : BitVec 32) :
    m.userByte addr = (frameAddress frames addr).map m.mainMemory := by
  rw [Machine.userByte, hhosts.physical]

theorem Hosts.distinct (hhosts : Hosts frames m) : m.DistinctFrames := by
  obtain ⟨entries, htable, hframes, -⟩ := hhosts.table
  intro table hinstalled
  cases htable.symm.trans hinstalled
  rw [hframes]
  exact hhosts.nodup

theorem Hosts.frame_mem
    (hhosts : Hosts frames m) {addr : BitVec 32} {paddr : ℕ}
    (haddress : frameAddress frames addr = some paddr) :
    ((paddr / pageSize : ℕ) : ℤ) ∈ frames := by
  obtain ⟨entries, -, hframes, hallows⟩ := hhosts.table
  obtain ⟨frame, hget, rfl⟩ := Option.map_eq_some_iff.mp haddress
  have hmem := List.mem_of_getElem? hget
  have hnonneg : 0 ≤ frame := by
    rw [← hframes] at hmem
    obtain ⟨entry, hentry, rfl⟩ := List.mem_map.mp hmem
    exact (hallows entry hentry).2.2.1
  have hoffset : addr.toNat % pageSize < pageSize := Nat.mod_lt _ (by decide)
  rw [Nat.mul_comm, Nat.mul_add_div (by decide), Nat.div_eq_of_lt hoffset,
    Nat.add_zero, Int.toNat_of_nonneg hnonneg]
  exact hmem

theorem load_congr
    {m v : Machine} {p q size : ℕ} (haccess : IsAccess size)
    (hbytes : ∀ k < size, m.mainMemory (p + k) = v.mainMemory (q + k)) :
    m.load p size = v.load q size := by
  rcases haccess with rfl | rfl | rfl
  · have h0 := hbytes 0 (by decide)
    rw [Nat.add_zero, Nat.add_zero] at h0
    simp only [load, h0]
  · have h0 := hbytes 0 (by decide)
    rw [Nat.add_zero, Nat.add_zero] at h0
    simp only [load, h0, hbytes 1 (by decide)]
  · have h0 := hbytes 0 (by decide)
    rw [Nat.add_zero, Nat.add_zero] at h0
    simp only [load, h0, hbytes 1 (by decide), hbytes 2 (by decide),
      hbytes 3 (by decide)]

/-- What a store makes of the bytes of the program and of those outside. -/
structure BytesWritten (frames : List ℤ) (addr value : BitVec 32) (size : ℕ)
    (m m' : Machine) : Prop where
  written : ∀ k < size,
    m'.userByte (addr + BitVec.ofNat 32 k) = some (valueByte value k)
  others : ∀ a, (∀ k < size, a ≠ addr + BitVec.ofNat 32 k) →
    m'.userByte a = m.userByte a
  outside : ∀ p : ℕ, ((p / pageSize : ℕ) : ℤ) ∉ frames →
    m'.mainMemory p = m.mainMemory p

theorem Hosts.bytesWritten
    {m' : Machine} (hhosts : Hosts frames m) (hafter : Hosts frames m')
    {size paddr : ℕ} (haccess : IsAccess size) {addr value : BitVec 32}
    (haligned : addr.toNat % size = 0)
    (haddress : frameAddress frames addr = some paddr)
    (hmemory : m'.mainMemory = withValue m.mainMemory paddr size value) :
    BytesWritten frames addr value size m m' := by
  have hnext : ∀ k < size,
      frameAddress frames (addr + BitVec.ofNat 32 k) = some (paddr + k) := by
    intro k hk
    rw [← hhosts.physical addr true] at haddress
    rw [← hhosts.physical _ true]
    exact physical_add haccess haligned haddress hk
  constructor
  case written =>
    intro k hk
    rw [hafter.userByte, hnext k hk, Option.map_some, hmemory,
      withValue_of_lt _ _ hk]
  case others =>
    intro a hout
    rw [hafter.userByte, hhosts.userByte]
    cases hother : frameAddress frames a with
    | none => rfl
    | some p =>
        simp only [Option.map_some, Option.some.injEq]
        rw [hmemory]
        apply withValue_of_outside
        rintro k hk rfl
        apply hout k hk
        have hsame := hnext k hk
        rw [← hhosts.physical _ true] at hother hsame
        exact hhosts.distinct.physical_inj hother hsame
  case outside =>
    intro p hout
    rw [hmemory]
    apply withValue_of_outside
    rintro k hk rfl
    exact hout (hhosts.frame_mem (hnext k hk))

end Hosting

/-! ## Machines on which a program finds the same -/

/-- The program finds the same registers and bytes on both machines.  On the
first one it has changed nothing but its own frames. -/
structure Alike (before : Machine) (frames own : List ℤ) (m v : Machine) :
    Prop where
  registers : ∀ r < numTotalRegs, m.readRegister r = v.readRegister r
  hosts : Hosts frames m
  alone : Hosts own v
  length : frames.length = own.length
  bytes : ∀ a, m.userByte a = v.userByte a
  outside : ∀ p : ℕ, ((p / pageSize : ℕ) : ℤ) ∉ frames →
    m.mainMemory p = before.mainMemory p
  pageTableMap : m.pageTableMap = before.pageTableMap

section Twins

variable {before m v : Machine} {frames own : List ℤ} {size : ℕ}

theorem Alike.writeRegister
    (halike : Alike before frames own m v) (r : ℕ) (value : BitVec 32) :
    Alike before frames own (m.writeRegister r value)
      (v.writeRegister r value) where
  registers := by
    intro q hq
    simp only [readRegister_writeRegister, halike.registers q hq]
  hosts := ⟨halike.hosts.table, halike.hosts.size, halike.hosts.nodup⟩
  alone := ⟨halike.alone.table, halike.alone.size, halike.alone.nodup⟩
  length := halike.length
  bytes := halike.bytes
  outside := halike.outside
  pageTableMap := halike.pageTableMap

/-- An access sets bits of the page tables only. -/
theorem Alike.accessed
    {m' v' : Machine} (halike : Alike before frames own m v)
    (hm : Accessed frames m m') (hv : Accessed own v v') :
    Alike before frames own m' v' where
  registers := by
    intro r hr
    rw [readRegister, readRegister, hm.registers, hv.registers]
    exact halike.registers r hr
  hosts := hm.hosts
  alone := hv.hosts
  length := halike.length
  bytes := by
    intro a
    rw [hm.hosts.userByte, hv.hosts.userByte, hm.mainMemory, hv.mainMemory,
      ← halike.hosts.userByte, ← halike.alone.userByte]
    exact halike.bytes a
  outside := by
    rw [hm.mainMemory]
    exact halike.outside
  pageTableMap := hm.pageTableMap.trans halike.pageTableMap

theorem Alike.translate
    (halike : Alike before frames own m v) (haccess : IsAccess size)
    (addr : BitVec 32) (writing : Bool) :
    (m.translate addr size writing = .ok (.error .addressError) ∧
      v.translate addr size writing = .ok (.error .addressError)) ∨
    ∃ paddr paddr' m' v', addr.toNat % size = 0 ∧
      m.translate addr size writing = .ok (.ok (paddr, m')) ∧
      v.translate addr size writing = .ok (.ok (paddr', v')) ∧
      frameAddress frames addr = some paddr ∧
      frameAddress own addr = some paddr' ∧
      Alike before frames own m' v' := by
  by_cases hin : InPages frames.length addr size
  · have hin' := hin
    rw [halike.length] at hin'
    obtain ⟨paddr, m', hm, haddress, hafter⟩ :=
      halike.hosts.translate_inside haccess hin writing
    obtain ⟨paddr', v', hv, haddress', hafter'⟩ :=
      halike.alone.translate_inside haccess hin' writing
    exact .inr ⟨paddr, paddr', m', v', hin.1, hm, hv, haddress, haddress',
      halike.accessed hafter hafter'⟩
  · have hin' := hin
    rw [halike.length] at hin'
    exact .inl ⟨halike.hosts.translate_outside haccess hin writing,
      halike.alone.translate_outside haccess hin' writing⟩

theorem twinRegisters_alike (before : Machine) (frames own : List ℤ) :
    TwinRegisters (Alike before frames own) where
  readRegister := fun halike hr => halike.registers _ hr
  writeRegister := Alike.writeRegister

theorem Alike.readMemory
    (halike : Alike before frames own m v) (haccess : IsAccess size)
    (addr : BitVec 32) :
    SameOutcome (SameStop (Alike before frames own))
      (SameResult (Alike before frames own)) (m.readMemory addr size)
      (v.readMemory addr size) := by
  unfold Machine.readMemory
  rcases halike.translate haccess addr false with ⟨hm, hv⟩ |
    ⟨paddr, paddr', m', v', haligned, hm, hv, haddress, haddress', hafter⟩
  · rw [hm, hv]
    exact (twinRegisters_alike before frames own).raiseException halike _ addr
  · have hbytes : ∀ k < size,
        m'.mainMemory (paddr + k) = v'.mainMemory (paddr' + k) := by
      intro k hk
      have hsame := hafter.bytes (addr + BitVec.ofNat 32 k)
      rw [← halike.hosts.physical addr true] at haddress
      rw [← halike.alone.physical addr true] at haddress'
      rw [hafter.hosts.userByte, hafter.alone.userByte,
        ← halike.hosts.physical _ true, ← halike.alone.physical _ true,
        physical_add haccess haligned haddress hk,
        physical_add haccess haligned haddress' hk] at hsame
      simpa using hsame
    obtain ⟨value, hload⟩ := exists_load v' paddr' haccess
    rw [hm, hv]
    simp only [simulate_ok, done_bind, load_congr haccess hbytes, hload]
    exact .ok ⟨rfl, hafter⟩

theorem Alike.writeMemory
    (halike : Alike before frames own m v) (haccess : IsAccess size)
    (addr value : BitVec 32) :
    SameOutcome (SameStop (Alike before frames own))
      (Alike before frames own) (m.writeMemory addr size value)
      (v.writeMemory addr size value) := by
  unfold Machine.writeMemory
  rcases halike.translate haccess addr true with ⟨hm, hv⟩ |
    ⟨paddr, paddr', m', v', haligned, hm, hv, haddress, haddress', hafter⟩
  · rw [hm, hv]
    exact (twinRegisters_alike before frames own).raiseException halike _ addr
  · have hfits : paddr + size ≤ memorySize := by
      rw [← halike.hosts.physical addr true] at haddress
      exact physical_add_le haccess haligned haddress
    have hfits' : paddr' + size ≤ memorySize := by
      rw [← halike.alone.physical addr true] at haddress'
      exact physical_add_le haccess haligned haddress'
    rw [hm, hv]
    simp only [simulate_ok, done_bind, storeValue_eq _ value haccess hfits,
      storeValue_eq _ value haccess hfits']
    have hstored : ∀ {frames : List ℤ} {m : Machine}, Hosts frames m →
        ∀ memory, Hosts frames { m with mainMemory := memory } :=
      fun h _ => ⟨h.table, h.size, h.nodup⟩
    have hwritten := hafter.hosts.bytesWritten
      (hstored hafter.hosts (withValue m'.mainMemory paddr size value))
      haccess haligned haddress rfl
    have hwritten' := hafter.alone.bytesWritten
      (hstored hafter.alone (withValue v'.mainMemory paddr' size value))
      haccess haligned haddress' rfl
    refine .ok ?_
    constructor
    case registers => exact hafter.registers
    case hosts => exact hstored hafter.hosts _
    case alone => exact hstored hafter.alone _
    case length => exact hafter.length
    case bytes =>
      intro a
      by_cases hin : ∃ k < size, a = addr + BitVec.ofNat 32 k
      · obtain ⟨k, hk, rfl⟩ := hin
        rw [hwritten.written k hk, hwritten'.written k hk]
      · push Not at hin
        rw [hwritten.others a hin, hwritten'.others a hin]
        exact hafter.bytes a
    case outside =>
      intro p hout
      rw [hwritten.outside p hout]
      exact hafter.outside p hout
    case pageTableMap => exact hafter.pageTableMap

/-- No instruction tells them apart. -/
theorem twins_alike (before : Machine) (frames own : List ℤ) :
    Twins (Alike before frames own) where
  toTwinRegisters := twinRegisters_alike before frames own
  readMemory := Alike.readMemory
  writeMemory := Alike.writeMemory

end Twins

end Nachos
