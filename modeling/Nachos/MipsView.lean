import Nachos.MipsDecoding
import Nachos.ProgramMemory

/-!
# The simulated machine, seen by a program

The value of a load that is still in progress counts as the register's; so the
end of an instruction, and an interrupt, show the program what it expects.
-/

namespace Nachos

open Library

namespace Mips

/-! ## Numbers in memory -/

section Numbers

open Machine (valueByte IsAccess)

theorem valueByte_wordOf (bytes : ℕ → BitVec 8) {k : ℕ} (hk : k < 4) :
    valueByte (wordOf bytes) k = bytes k := by
  apply BitVec.eq_of_getLsbD_eq
  intro i hi
  simp only [wordOf, valueByte, BitVec.getLsbD_setWidth,
    BitVec.getLsbD_append, BitVec.getLsbD_ushiftRight]
  interval_cases k <;> grind

theorem eq_of_valueByte {x y : BitVec 32}
    (hbytes : ∀ k < 4, valueByte x k = valueByte y k) : x = y := by
  apply BitVec.eq_of_getLsbD_eq
  intro i hi
  have hbyte := congrArg (fun b => b.getLsbD (i % 8))
    (hbytes (i / 8) (by omega))
  simp only [valueByte, BitVec.getLsbD_setWidth,
    BitVec.getLsbD_ushiftRight, Nat.div_add_mod] at hbyte
  have hlt : i % 8 < 8 := Nat.mod_lt _ (by decide)
  simpa [hlt] using hbyte

variable {s : State} {size : ℕ} {addr value : BitVec 32}

theorem State.bytes_of_read
    (haccess : IsAccess size) (hread : s.read addr size = some value) :
    addr.toNat % size = 0 ∧ ∀ k < size,
      s.memory (addr + BitVec.ofNat 32 k) = some (valueByte value k) := by
  rcases haccess with rfl | rfl | rfl
  · refine ⟨Nat.mod_one _, fun k hk => ?_⟩
    obtain rfl : k = 0 := by omega
    obtain ⟨byte, hbyte, hvalue⟩ := Option.bind_eq_some_iff.mp hread
    cases hvalue
    rw [show addr + BitVec.ofNat 32 0 = addr by simp, hbyte]
    simp [valueByte]
  · by_cases haligned : addr.toNat % 2 = 0
    · simp only [State.read, if_pos haligned] at hread
      refine ⟨haligned, fun k hk => ?_⟩
      obtain ⟨high, hhigh, hread⟩ := Option.bind_eq_some_iff.mp hread
      obtain ⟨low, hlow, hvalue⟩ := Option.bind_eq_some_iff.mp hread
      cases hvalue
      interval_cases k
      · rw [show addr + BitVec.ofNat 32 0 = addr by simp, hlow]
        congr 1
        apply BitVec.eq_of_getLsbD_eq
        intro i hi
        simp only [valueByte, BitVec.getLsbD_setWidth,
          BitVec.getLsbD_append, BitVec.getLsbD_ushiftRight]
        grind
      · rw [show addr + BitVec.ofNat 32 1 = addr + 1 by simp, hhigh]
        congr 1
        apply BitVec.eq_of_getLsbD_eq
        intro i hi
        simp only [valueByte, BitVec.getLsbD_setWidth,
          BitVec.getLsbD_append, BitVec.getLsbD_ushiftRight]
        grind
    · simp only [State.read, if_neg haligned] at hread
      cases hread
  · by_cases haligned : addr.toNat % 4 = 0
    · simp only [State.read, if_pos haligned] at hread
      refine ⟨haligned, fun k hk => ?_⟩
      obtain ⟨b3, h3, hread⟩ := Option.bind_eq_some_iff.mp hread
      obtain ⟨b2, h2, hread⟩ := Option.bind_eq_some_iff.mp hread
      obtain ⟨b1, h1, hread⟩ := Option.bind_eq_some_iff.mp hread
      obtain ⟨b0, h0, hvalue⟩ := Option.bind_eq_some_iff.mp hread
      have hword : value = wordOf fun k =>
          if k = 0 then b0 else if k = 1 then b1 else if k = 2 then b2
          else b3 := by
        cases hvalue
        rfl
      rw [hword, valueByte_wordOf _ hk]
      interval_cases k
      · simpa using h0
      · simpa using h1
      · simpa using h2
      · simpa using h3
    · simp only [State.read, if_neg haligned] at hread
      cases hread

theorem State.exists_read
    (haccess : IsAccess size) (haligned : addr.toNat % size = 0)
    (hbytes : ∀ k < size, ∃ byte,
      s.memory (addr + BitVec.ofNat 32 k) = some byte) :
    ∃ value, s.read addr size = some value := by
  rcases haccess with rfl | rfl | rfl
  · obtain ⟨b0, h0⟩ := hbytes 0 (by decide)
    simp only [BitVec.add_zero] at h0
    exact ⟨b0.setWidth 32, by simp [State.read, h0]⟩
  · obtain ⟨b0, h0⟩ := hbytes 0 (by decide)
    obtain ⟨b1, h1⟩ := hbytes 1 (by decide)
    simp only [BitVec.add_zero] at h0 h1
    exact ⟨(b1 ++ b0).setWidth 32, by simp [State.read, haligned, h0, h1]⟩
  · obtain ⟨b0, h0⟩ := hbytes 0 (by decide)
    obtain ⟨b1, h1⟩ := hbytes 1 (by decide)
    obtain ⟨b2, h2⟩ := hbytes 2 (by decide)
    obtain ⟨b3, h3⟩ := hbytes 3 (by decide)
    simp only [BitVec.add_zero] at h0 h1 h2 h3
    exact ⟨b3 ++ b2 ++ b1 ++ b0,
      by simp [State.read, haligned, h0, h1, h2, h3]⟩

end Numbers

end Mips

namespace Machine

/-- A general register, with the load in progress. -/
def gpr (m : Machine) (r : BitVec 5) : BitVec 32 :=
  if r = 0 then 0 else m.mergedWith r.toNat

def architecture (m : Machine) : Mips.State where
  gpr := m.gpr
  hi := m.readRegister hiReg
  lo := m.readRegister loReg
  pc := m.readRegister pcReg
  nextPc := m.readRegister nextPCReg
  memory := m.userByte
  loaded := (m.readRegister loadReg).setWidth 5

/-- The machine is between two instructions of a program. -/
structure Runnable (frames : List ℤ) (m : Machine) : Prop where
  hosts : Hosts frames m
  zero : m.readRegister 0 = 0
  pending : (m.readRegister loadReg).toNat < 32

/-! ## Registers -/

section Registers

variable {m : Machine}

/-- Register `r` is not the one that is being loaded. -/
def Settled (m : Machine) (r : BitVec 5) : Prop :=
  m.architecture.loaded = 0 ∨ r ≠ m.architecture.loaded

theorem toNat_pos_of_ne_zero {r : BitVec 5} (hr : r ≠ 0) : 0 < r.toNat := by
  have hne : r.toNat ≠ 0 := fun hzero => hr (BitVec.eq_of_toNat_eq hzero)
  omega

theorem toNat_loaded (hpending : (m.readRegister loadReg).toNat < 32) :
    m.architecture.loaded.toNat = (m.readRegister loadReg).toNat := by
  rw [architecture, BitVec.toNat_setWidth, Nat.mod_eq_of_lt hpending]

theorem not_pending
    (hpending : (m.readRegister loadReg).toNat < 32) {r : BitVec 5}
    (hr : r ≠ 0) (hsettled : m.Settled r) :
    (m.readRegister loadReg).toNat ≠ r.toNat := by
  rw [← toNat_loaded hpending]
  intro heq
  have hloaded : m.architecture.loaded = r := BitVec.eq_of_toNat_eq heq
  rcases hsettled with hzero | hne
  · exact hr (hloaded.symm.trans hzero)
  · exact hne hloaded.symm

theorem readRegister_eq_gpr
    (hzero : m.readRegister 0 = 0)
    (hpending : (m.readRegister loadReg).toNat < 32) {r : BitVec 5}
    (hsettled : m.Settled r) : m.readRegister r.toNat = m.gpr r := by
  unfold gpr
  by_cases hr : r = 0
  · rw [if_pos hr, hr]
    exact hzero
  · rw [if_neg hr, mergedWith, if_neg (not_pending hpending hr hsettled)]

theorem mergedWith_writeRegister
    {d : ℕ} (hd : d < 32) {r : ℕ} (value : BitVec 32)
    (hr : (m.readRegister loadReg).toNat ≠ d) :
    (m.writeRegister d value).mergedWith r =
      if r = d then value else m.mergedWith r := by
  obtain ⟨-, -, -, hload, hvalue⟩ := general_ne hd
  unfold mergedWith
  simp only [readRegister_writeRegister, if_neg hload.symm,
    if_neg hvalue.symm]
  by_cases hrd : r = d
  · rw [if_neg (by rw [hrd]; exact hr), if_pos hrd, if_pos hrd]
  · simp only [if_neg hrd]

/-- A register that is not being loaded is written. -/
theorem architecture_writeRegister
    (hpending : (m.readRegister loadReg).toNat < 32) {d : BitVec 5}
    (hsettled : m.Settled d) (value : BitVec 32) :
    (m.writeRegister d.toNat value).architecture =
      m.architecture.write d value := by
  obtain ⟨hpc, hnext, -, hload, -⟩ := general_ne d.isLt
  have hhi : hiReg ≠ d.toNat := by
    have hlt := d.isLt
    unfold hiReg
    omega
  have hlo : loReg ≠ d.toNat := by
    have hlt := d.isLt
    unfold loReg
    omega
  have hgpr : (m.writeRegister d.toNat value).gpr =
      if d = 0 then m.gpr else Function.update m.gpr d value := by
    by_cases hd : d = 0
    · subst hd
      rw [if_pos rfl]
      funext r
      unfold gpr
      by_cases hr : r = 0
      · rw [if_pos hr, if_pos hr]
      · have hne : r.toNat ≠ (0 : BitVec 5).toNat :=
          (toNat_pos_of_ne_zero hr).ne'
        rw [if_neg hr, if_neg hr]
        unfold mergedWith
        simp only [readRegister_writeRegister, if_neg hload.symm, if_neg hne]
        rfl
    · rw [if_neg hd]
      funext r
      have hmerged := mergedWith_writeRegister (m := m) d.isLt (r := r.toNat)
        value (not_pending hpending hd hsettled)
      unfold gpr
      by_cases hr : r = d
      · subst hr
        rw [if_neg hd, Function.update_self, hmerged, if_pos rfl]
      · have hne : r.toNat ≠ d.toNat := fun h => hr (BitVec.eq_of_toNat_eq h)
        rw [Function.update_of_ne hr, hmerged, if_neg hne]
  ext1
  case gpr =>
    exact hgpr.trans (Mips.State.gpr_write m.architecture d value).symm
  case memory => simp only [Mips.State.memory_write]; rfl
  all_goals
    simp [architecture, hhi, hlo, hpc.symm, hnext.symm, hload.symm]

/-- `Hi`, `Lo` and the program counters are not loaded. -/
theorem readRegister_delayedLoad_special
    (hpending : (m.readRegister loadReg).toNat < 32) {r : ℕ}
    (hr : 32 ≤ r ∧ r ≤ prevPCReg) (nextReg nextValue : BitVec 32) :
    (m.delayedLoad nextReg nextValue).readRegister r = m.readRegister r := by
  unfold prevPCReg at hr
  rw [readRegister_delayedLoad, if_neg (by omega),
    if_neg (by unfold loadValueReg; omega),
    if_neg (by unfold loadReg; omega), if_neg (by omega)]

theorem gpr_delayedLoad
    (r : BitVec 5) (nextReg nextValue : BitVec 32)
    (hnext : nextReg.toNat = r.toNat) :
    (m.delayedLoad nextReg nextValue).gpr =
      (m.architecture.write r nextValue).gpr := by
  rw [Mips.State.gpr_write]
  funext q
  by_cases hq : q = 0
  · subst hq
    split
    next => rfl
    next hr =>
      rw [Function.update_of_ne (Ne.symm hr)]
      rfl
  · rw [gpr, if_neg hq,
      mergedWith_delayedLoad (toNat_pos_of_ne_zero hq) q.isLt, hnext]
    have hgpr : m.mergedWith q.toNat = m.architecture.gpr q :=
      (if_neg hq).symm
    by_cases hrq : r = q
    · subst hrq
      rw [if_pos rfl, if_neg hq, Function.update_self]
    · have hne : r.toNat ≠ q.toNat := fun h => hrq (BitVec.eq_of_toNat_eq h)
      rw [if_neg hne, hgpr]
      split
      next => rfl
      next => rw [Function.update_of_ne (Ne.symm hrq)]

/-- The load in progress is finished and another one begun. -/
theorem architecture_delayedLoad
    (hpending : (m.readRegister loadReg).toNat < 32)
    (r : BitVec 5) (nextReg nextValue : BitVec 32)
    (hnext : nextReg.toNat = r.toNat) :
    (m.delayedLoad nextReg nextValue).architecture =
      { m.architecture.write r nextValue with loaded := r } := by
  have hspecial := @readRegister_delayedLoad_special m hpending
  have hloaded : nextReg.setWidth 5 = r := by
    apply BitVec.eq_of_toNat_eq
    rw [BitVec.toNat_setWidth, hnext, Nat.mod_eq_of_lt r.isLt]
  ext1
  case gpr => exact gpr_delayedLoad r nextReg nextValue hnext
  case memory => simp only [Mips.State.memory_write]; rfl
  case loaded =>
    simp only [architecture]
    rw [readRegister_delayedLoad, if_neg (by decide), if_neg (by decide),
      if_pos rfl, hloaded]
  case hi => simpa [architecture] using hspecial (by decide) _ _
  case lo => simpa [architecture] using hspecial (by decide) _ _
  case pc => simpa [architecture] using hspecial (by decide) _ _
  case nextPc => simpa [architecture] using hspecial (by decide) _ _

/-- An interrupt. -/
theorem architecture_drained
    (hpending : (m.readRegister loadReg).toNat < 32) :
    (m.delayedLoad 0 0).architecture = { m.architecture with loaded := 0 } :=
  architecture_delayedLoad hpending 0 0 0 rfl

/-- The end of an instruction. -/
theorem architecture_finish
    {e : Executed} (hpending : (e.machine.readRegister loadReg).toNat < 32)
    (r : BitVec 5) (hnext : e.nextLoadReg.toNat = r.toNat) :
    e.finish.architecture =
      { (e.machine.architecture.write r e.nextLoadValue).goOn e.pcAfter with
        loaded := r } := by
  have hfinish : e.finish.architecture =
      { (e.machine.delayedLoad e.nextLoadReg e.nextLoadValue).architecture with
        pc := (e.machine.delayedLoad e.nextLoadReg
          e.nextLoadValue).readRegister nextPCReg
        nextPc := e.pcAfter } := by
    ext1
    case gpr =>
      funext q
      obtain ⟨hpc, hnextPc, hprev, -⟩ := general_ne q.isLt
      simp only [architecture, gpr, mergedWith, Executed.finish,
        readRegister_writeRegister, if_neg hpc, if_neg hnextPc, if_neg hprev]
      rfl
    all_goals
      simp [architecture, Executed.finish, readRegister_writeRegister,
        nextPCReg, pcReg, prevPCReg, hiReg, loReg, loadReg]
    rfl
  rw [hfinish, architecture_delayedLoad hpending r _ _ hnext,
    readRegister_delayedLoad_special hpending (by decide)]
  simp only [Mips.State.goOn, Mips.State.nextPc_write]
  rfl

theorem gpr_writeRegister_special
    {r : ℕ} (hr : 32 ≤ r) (hload : r ≠ loadReg) (hvalue : r ≠ loadValueReg)
    (value : BitVec 32) : (m.writeRegister r value).gpr = m.gpr := by
  funext q
  have hne : q.toNat ≠ r := by
    have hlt := q.isLt
    omega
  simp only [gpr, mergedWith, readRegister_writeRegister, if_neg hne,
    if_neg hload.symm, if_neg hvalue.symm]

theorem architecture_hi (m : Machine) (value : BitVec 32) :
    (m.writeRegister hiReg value).architecture =
      { m.architecture with hi := value } := by
  ext1
  case gpr =>
    exact gpr_writeRegister_special (by decide) (by decide) (by decide) value
  all_goals
    simp [architecture, nextPCReg, pcReg, hiReg, loReg, loadReg]
  rfl

theorem architecture_lo (m : Machine) (value : BitVec 32) :
    (m.writeRegister loReg value).architecture =
      { m.architecture with lo := value } := by
  ext1
  case gpr =>
    exact gpr_writeRegister_special (by decide) (by decide) (by decide) value
  all_goals
    simp [architecture, nextPCReg, pcReg, hiReg, loReg, loadReg]
  rfl

/-- At the handler no load is in progress. -/
theorem architecture_raised
    (hpending : (m.readRegister loadReg).toNat < 32) (badVAddr : BitVec 32) :
    ((m.writeRegister badVAddrReg badVAddr).delayedLoad 0 0).architecture =
      { m.architecture with loaded := 0 } := by
  have hload : (m.writeRegister badVAddrReg badVAddr).readRegister loadReg =
      m.readRegister loadReg := by
    rw [readRegister_writeRegister, if_neg (by decide)]
  have hbad : (m.writeRegister badVAddrReg badVAddr).architecture =
      m.architecture := by
    ext1
    case gpr =>
      exact gpr_writeRegister_special (by decide) (by decide) (by decide) _
    all_goals
      simp [architecture, nextPCReg, pcReg, hiReg, loReg, loadReg,
        badVAddrReg]
    rfl
  rw [architecture_drained (by rw [hload]; exact hpending), hbad]

end Registers

/-! ## Memory -/

section Memory

variable {frames : List ℤ} {m m' : Machine} {size : ℕ} {addr value : BitVec 32}

theorem architecture_accessed
    (hhosts : Hosts frames m) (hafter : Accessed frames m m') :
    m'.architecture = m.architecture := by
  have hread : ∀ r, m'.readRegister r = m.readRegister r :=
    congrFun hafter.registers
  have hbytes : m'.userByte = m.userByte := by
    funext a
    rw [hafter.hosts.userByte, hhosts.userByte, hafter.mainMemory]
  ext1
  case memory => exact hbytes
  case gpr =>
    funext q
    simp only [architecture, gpr, mergedWith, hread]
  all_goals
    simp only [architecture, hread]

theorem bytes_of_inPages
    (hhosts : Hosts frames m) (haccess : IsAccess size)
    (hin : InPages frames.length addr size) {k : ℕ} (hk : k < size) :
    ∃ byte, m.userByte (addr + BitVec.ofNat 32 k) = some byte := by
  obtain ⟨paddr, m', -, haddress, -⟩ :=
    hhosts.translate_inside haccess hin false
  rw [← hhosts.physical addr false] at haddress
  have hnext := physical_add haccess hin.1 haddress hk
  rw [hhosts.physical] at hnext
  exact ⟨_, by rw [hhosts.userByte, hnext, Option.map_some]⟩

theorem not_inPages_of_read
    (hhosts : Hosts frames m) (haccess : IsAccess size)
    (hread : m.architecture.read addr size = none) :
    ¬InPages frames.length addr size := by
  intro hin
  obtain ⟨value, hvalue⟩ := Mips.State.exists_read (s := m.architecture)
    haccess hin.1 fun k hk => bytes_of_inPages hhosts haccess hin hk
  rw [hread] at hvalue
  cases hvalue

theorem inPages_of_read
    (hhosts : Hosts frames m) (haccess : IsAccess size)
    (hread : m.architecture.read addr size = some value) :
    InPages frames.length addr size := by
  obtain ⟨haligned, hbytes⟩ := Mips.State.bytes_of_read haccess hread
  have hfirst : m.userByte (addr + BitVec.ofNat 32 0) = _ :=
    hbytes 0 haccess.pos
  rw [BitVec.add_zero, hhosts.userByte, Option.map_eq_some_iff] at hfirst
  obtain ⟨paddr, haddress, -⟩ := hfirst
  obtain ⟨frame, hframe, -⟩ := Option.map_eq_some_iff.mp haddress
  exact ⟨haligned, (List.getElem?_eq_some_iff.mp hframe).1⟩

theorem readMemory_of_none
    (hhosts : Hosts frames m) (haccess : IsAccess size)
    (hread : m.architecture.read addr size = none) :
    m.readMemory addr size =
      m.raiseException (.translation .addressError) addr := by
  unfold readMemory
  rw [hhosts.translate_outside haccess
    (not_inPages_of_read hhosts haccess hread)]
  rfl

theorem writeMemory_of_none
    (hhosts : Hosts frames m) (haccess : IsAccess size)
    (hread : m.architecture.read addr size = none) (word : BitVec 32) :
    m.writeMemory addr size word =
      m.raiseException (.translation .addressError) addr := by
  unfold writeMemory
  rw [hhosts.translate_outside haccess
    (not_inPages_of_read hhosts haccess hread)]
  rfl

theorem readMemory_of_some
    (hhosts : Hosts frames m) (haccess : IsAccess size)
    (hread : m.architecture.read addr size = some value) :
    ∃ m', m.readMemory addr size = .ok (truncated value size, m') ∧
      Accessed frames m m' := by
  have hin := inPages_of_read hhosts haccess hread
  obtain ⟨haligned, hbytes⟩ := Mips.State.bytes_of_read haccess hread
  obtain ⟨paddr, m', htranslate, haddress, hafter⟩ :=
    hhosts.translate_inside haccess hin false
  refine ⟨m', ?_, hafter⟩
  have hstored : ∀ k < size, m'.mainMemory (paddr + k) = valueByte value k := by
    intro k hk
    have hbyte : m.userByte (addr + BitVec.ofNat 32 k) = _ := hbytes k hk
    rw [← hhosts.physical addr false] at haddress
    have hnext := physical_add haccess haligned haddress hk
    rw [hhosts.physical] at hnext
    rw [hhosts.userByte, hnext, Option.map_some, Option.some.injEq] at hbyte
    rw [hafter.mainMemory, hbyte]
  unfold readMemory
  rw [htranslate]
  simp only [simulate_ok, done_bind, load_eq haccess value hstored]
  rfl

/-- The address is one of the bytes of an access. -/
theorem exists_offset_iff (start a : BitVec 32) (hsize : size ≤ 4) :
    (∃ k < size, a = start + BitVec.ofNat 32 k) ↔
      (a - start).toNat < size := by
  constructor
  · rintro ⟨k, hk, rfl⟩
    rw [BitVec.add_comm, BitVec.add_sub_cancel, BitVec.toNat_ofNat]
    omega
  · intro hlt
    refine ⟨_, hlt, ?_⟩
    rw [BitVec.ofNat_toNat, BitVec.setWidth_eq, BitVec.add_comm,
      BitVec.sub_add_cancel]

theorem writeMemory_of_some
    (hhosts : Hosts frames m) (haccess : IsAccess size)
    (hread : m.architecture.read addr size = some value) (word : BitVec 32) :
    ∃ m', m.writeMemory addr size word = .ok m' ∧ Hosts frames m' ∧
      m'.registers = m.registers ∧
      m'.architecture = m.architecture.withBytes addr size
        fun k => some (valueByte word k) := by
  have hin := inPages_of_read hhosts haccess hread
  obtain ⟨paddr, m₁, htranslate, haddress, hafter⟩ :=
    hhosts.translate_inside haccess hin true
  have hfits : paddr + size ≤ memorySize := by
    rw [← hhosts.physical addr true] at haddress
    exact physical_add_le haccess hin.1 haddress
  set m' := { m₁ with mainMemory := withValue m₁.mainMemory paddr size word }
    with hm'
  have hhosts' : Hosts frames m' :=
    ⟨hafter.hosts.table, hafter.hosts.size, hafter.hosts.nodup⟩
  have hwritten : BytesWritten frames addr word size m₁ m' :=
    hafter.hosts.bytesWritten hhosts' haccess hin.1 haddress rfl
  have hsame := architecture_accessed hhosts hafter
  have hbytes : ∀ a, m₁.userByte a = m.userByte a :=
    fun a => congrFun (congrArg Mips.State.memory hsame) a
  refine ⟨m', ?_, hhosts', hafter.registers, ?_⟩
  · unfold writeMemory
    rw [htranslate]
    simp only [simulate_ok, done_bind, storeValue_eq _ word haccess hfits]
    rfl
  · have hregisters : ∀ r, m'.readRegister r = m.readRegister r :=
      congrFun hafter.registers
    ext1
    case memory =>
      funext a
      simp only [architecture, Mips.State.withBytes]
      have hsize : size ≤ 4 := by
        rcases haccess with rfl | rfl | rfl <;> decide
      split
      next hlt =>
        obtain ⟨k, hk, rfl⟩ := (exists_offset_iff addr a hsize).mpr hlt
        have hoffset : (addr + BitVec.ofNat 32 k - addr).toNat = k := by
          rw [BitVec.add_comm, BitVec.add_sub_cancel, BitVec.toNat_ofNat]
          omega
        rw [hwritten.written k hk, hoffset]
        rfl
      next hge =>
        rw [hwritten.others a, hbytes]
        intro k hk heq
        exact hge ((exists_offset_iff addr a hsize).mp ⟨k, hk, heq⟩)
    case gpr =>
      funext q
      simp only [architecture, gpr, mergedWith, hregisters,
        Mips.State.withBytes]
    all_goals
      simp only [architecture, hregisters, Mips.State.withBytes]

end Memory

end Machine


end Nachos
