import Nachos.ReadCall
import Nachos.SystemCallEffects

/-!
# Negative lengths

The length that a program passes to `Read`, `Write`, `Send` or `Receive` is
looked at by none of the handlers.  It goes to `new char[]`, to the loops over
the console, and to the host.  A call that has another reason to fail returns
before it comes to that.
-/

namespace Nachos

/-- The calls that take a length. -/
def SystemCall.TakesLength (call : SystemCall) : Prop :=
  call = .read ∨ call = .write ∨ call = .socketTCPSend ∨
    call = .socketTCPReceive

namespace Kernel

/-- The length that is passed to a call. -/
def lengthOf (k : Kernel) (call : SystemCall) : BitVec 32 :=
  if call = .read ∨ call = .write then k.register 5 else k.register 6

/-- The call returns -1 and changes no memory, no slot and no file; it tries
no allocation and no copy of a negative size. -/
structure RejectsLength (env : Environment) (k : Kernel)
    (call : SystemCall) (k' : Kernel) : Prop where
  returned : k.handle env call = .ok k'
  result : k'.register 2 = -1
  memory : k'.machine.mainMemory = k.machine.mainMemory
  slots : k'.fileSystem = k.fileSystem
  host : k'.host = k.host

/-- The slot is that of a file of one of the types. -/
def FileOfType (k : Kernel) (id : ℤ) (types : List ℤ) : Prop :=
  ∃ slot f, k.fileSystem.fileSlot id.toNat = .object slot ∧ slot.type ≠ 1 ∧
    slot.fileOpen = .object f ∧ f.type ∈ types

/-- The call fails for another reason before it uses the length.  (The table
has no socket in the slots of the console.) -/
def FailsBefore (env : Environment) (k : Kernel) : SystemCall → Prop
  | .read => ¬k.occupied (k.register 6).toInt ∨
      k.FileOfType (k.register 6).toInt [3]
  | .write => ¬k.occupied (k.register 6).toInt ∨
      k.FileOfType (k.register 6).toInt [1, 2] ∨
        (k.register 5 = -1 ∧ FileSystem.outside (k.register 6).toInt ∧
          ∃ slot, k.fileSystem.fileSlot (k.register 6).toInt.toNat =
            .object slot ∧ slot.type = 1)
  | .socketTCPSend => FileSystem.outside (k.register 4).toInt ∧
      ∃ buff k₁, k.user2System (k.register 5) env.leng = .ok (buff, k₁) ∧
        buff ≠ []
  | _ => False

variable {env : Environment} {k k' : Kernel}

/-- A call that returns at once. -/
theorem rejectsLength_of_returns
    {call : SystemCall} (hcall : k.handle env call = .ok (k.returns (-1))) :
    ∃ k', k.RejectsLength env call k' :=
  ⟨k.returns (-1), hcall, rfl, rfl, rfl, rfl⟩

/-! ## `Read` -/

theorem rejectsLength_read_iff (hneg : (k.register 5).toInt < 0) :
    (∃ k', k.RejectsLength env .read k') ↔ k.FailsBefore env .read := by
  constructor
  · rintro ⟨k', hrejects⟩
    cases read_returns hrejects.returned with
    | free hfree _ => exact .inl hfree
    | socket _ _ _ hreceive =>
        rw [receive, if_pos hneg] at hreceive
        cases hreceive
    | stdout _ hslot hfile hopen hstdout _ =>
        exact .inr ⟨_, _, hslot, hfile, hopen, by simp [hstdout]⟩
    | console _ _ _ _ _ _ hread =>
        rw [readConsole, if_pos hneg] at hread
        cases hread
    | file _ _ _ _ _ _ _ hread =>
        rw [readFile, if_pos hneg] at hread
        cases hread
  · intro hfails
    apply rejectsLength_of_returns
    rw [handle, handleSCRead]
    by_cases hoccupied : k.occupied (k.register 6).toInt
    · obtain ⟨slot, f, hslot, hfile, hopen, htype⟩ :=
        hfails.resolve_left (not_not.mpr hoccupied)
      have hstdout : f.type = 3 := List.mem_singleton.mp htype
      simp only [if_pos hoccupied, hslot, Pointer.deref_object, ok_bind,
        if_neg hfile, hopen, if_pos hstdout]
      rfl
    · simp only [if_neg hoccupied]
      rfl

/-! ## `Write` -/

/-- What `User2System` copies when it is passed -1. -/
theorem user2System_minusOne (virtAddr : BitVec 32) :
    k.user2System virtAddr (-1) = .ok ([], k) :=
  rfl

theorem eq_minusOne_of_user2System
    {virtAddr limit : BitVec 32} {copied : List (BitVec 8) × Kernel}
    (hneg : limit.toInt < 0)
    (hcopy : k.user2System virtAddr limit = .ok copied) : limit = -1 := by
  obtain ⟨⟨bytes, m⟩, hmachine, -⟩ := ok_of_bind hcopy
  unfold Machine.user2System at hmachine
  split at hmachine
  next => cases hmachine
  next hsize =>
    have hlt := limit.isLt
    have hnext : (limit + 1).toNat = (limit.toNat + 1) % 2 ^ 32 := by
      rw [BitVec.toNat_add]
      rfl
    apply BitVec.eq_of_toNat_eq
    rw [BitVec.toInt_eq_toNat_cond] at hneg hsize
    have hminus : (-1 : BitVec 32).toNat = 2 ^ 32 - 1 := rfl
    omega

theorem sendTCP_negative
    {fs : FileSystem} {h : Host} {id len : ℤ} {buffer : List (BitVec 8)}
    {answer : HostAnswer} {result : Option (List (BitVec 8)) × Host}
    (hneg : len < 0)
    (hsend : fs.sendTCP h id buffer len answer = .ok result) :
    FileSystem.outside id ∧ result = (none, h) ∨
      ¬FileSystem.outside id ∧ (fs.fileSlot id.toNat).isNull = true ∧
        result = (some [], h) := by
  unfold FileSystem.sendTCP at hsend
  split at hsend
  next hout =>
    cases hsend
    exact .inl ⟨hout, rfl⟩
  next hin =>
    split at hsend
    next hnull =>
      cases hsend
      exact .inr ⟨hin, hnull, rfl⟩
    next =>
      obtain ⟨fd, -, hsend⟩ := ok_of_bind hsend
      rw [if_neg fun h => absurd h.1 (not_le.mpr hneg)] at hsend
      cases hsend

theorem rejectsLength_write_iff
    (hneg : (k.register 5).toInt < 0) (hcode : k.register 2 ≠ -1) :
    (∃ k', k.RejectsLength env .write k') ↔ k.FailsBefore env .write := by
  constructor
  · rintro ⟨k', hrejects⟩
    cases write_returns hrejects.returned with
    | free hfree _ => exact .inl hfree
    | socket hoccupied hslot hsocket hcopy hsend =>
        have hminus := eq_minusOne_of_user2System hneg hcopy
        obtain ⟨m, -, -, rfl⟩ := user2System_ok hcopy
        obtain ⟨result, hsend, -⟩ := ok_of_bind hsend
        obtain ⟨hout, -⟩ | ⟨-, hnull, -⟩ := sendTCP_negative hneg hsend
        · exact .inr (.inr ⟨hminus, hout, _, hslot, hsocket⟩)
        · exact absurd (hnull.symm.trans hoccupied.2.2) (by decide)
    | readOnly _ hslot hfile hopen hreadOnly _ =>
        exact .inr (.inl ⟨_, _, hslot, hfile, hopen, by simpa using hreadOnly⟩)
    | file _ _ _ _ _ _ hwrite =>
        obtain ⟨written, hwrite, -⟩ := ok_of_bind hwrite
        obtain ⟨numWritten, hat, -⟩ := ok_of_bind hwrite
        obtain ⟨host, -, hat⟩ := ok_of_bind hat
        rw [if_neg fun h => absurd h.1 (not_le.mpr hneg)] at hat
        cases hat
    | console _ _ _ _ _ _ hwrite =>
        rw [writeConsole, if_pos hneg] at hwrite
        cases hwrite
    | noType _ _ _ _ hcopy heq =>
        -- register 2 keeps the number of the call
        obtain ⟨m, -, hsame, rfl⟩ := user2System_ok hcopy
        subst heq
        have hresult := hrejects.result
        have hkept : m.pcIncrease.readRegister 2 = k.register 2 :=
          congrFun hsame.registers 2
        exact (hcode (hkept.symm.trans hresult)).elim
  · intro hfails
    apply rejectsLength_of_returns
    rw [handle, handleSCWrite]
    by_cases hoccupied : k.occupied (k.register 6).toInt
    · obtain hfree | hreadOnly | ⟨hminus, hout, slot, hslot, hsocket⟩ := hfails
      · exact (hfree hoccupied).elim
      · obtain ⟨slot, f, hslot, hfile, hopen, htype⟩ := hreadOnly
        have htypes : f.type = 1 ∨ f.type = 2 := by simpa using htype
        simp only [if_pos hoccupied, hslot, Pointer.deref_object, ok_bind,
          if_neg hfile, hopen, if_pos htypes]
        rfl
      · have hsend : k.fileSystem.sendTCP k.host (k.register 6).toInt []
            (-1 : BitVec 32).toInt env.answer = .ok (none, k.host) := by
          rw [FileSystem.sendTCP, if_pos hout]
          rfl
        simp only [if_pos hoccupied, hslot, Pointer.deref_object, ok_bind,
          if_pos hsocket, hminus, user2System_minusOne, send, hsend]
        rfl
    · simp only [if_neg hoccupied]
      rfl

/-! ## `Send` and `Receive` -/

theorem rejectsLength_send_iff (hneg : (k.register 6).toInt < 0) :
    (∃ k', k.RejectsLength env .socketTCPSend k') ↔
      k.FailsBefore env .socketTCPSend := by
  constructor
  · rintro ⟨k', hrejects⟩
    obtain ⟨⟨buff, k₁⟩, hcopy, hcall⟩ := ok_of_bind hrejects.returned
    obtain ⟨m, -, hsame, rfl⟩ := user2System_ok hcopy
    simp only at hcall
    split at hcall
    next => cases hcall
    next hbuff =>
      obtain ⟨result, hsend, hresult⟩ := ok_of_bind hcall
      have hneg : (m.readRegister 6).toInt < 0 := by
        rw [Machine.readRegister, hsame.registers]
        exact hneg
      obtain ⟨hout, -⟩ | ⟨-, -, rfl⟩ := sendTCP_negative hneg hsend
      · exact ⟨hout, buff, _, hcopy, hbuff⟩
      · cases hresult
        have hzero := hrejects.result
        rw [register_two_returns] at hzero
        exact absurd hzero (by decide)
  · rintro ⟨hout, buff, k₁, hcopy, hbuff⟩
    obtain ⟨m, hmachine, -, rfl⟩ := user2System_ok hcopy
    obtain ⟨-, hmemory⟩ := Machine.sameMapping_of_user2System hmachine
    refine ⟨{ k with machine := m }.returns (-1), ?_, rfl, hmemory, rfl, rfl⟩
    have hsend : ∀ len, k.fileSystem.sendTCP k.host (k.register 4).toInt buff
        len env.answer = .ok (none, k.host) := by
      intro len
      rw [FileSystem.sendTCP, if_pos hout]
      rfl
    simp only [handle, handleSCSocketTCPSend, hcopy, ok_bind, if_neg hbuff,
      send, hsend]
    rfl

theorem not_rejectsLength_receive (hneg : (k.register 6).toInt < 0) :
    ¬∃ k', k.RejectsLength env .socketTCPReceive k' := by
  rintro ⟨k', hrejects⟩
  have hcall := hrejects.returned
  rw [handle, handleSCSocketTCPReceive, receive, if_pos hneg] at hcall
  cases hcall

/-- A negative length is rejected exactly by the calls that fail for another
reason before they use it. -/
theorem rejects_negative_length_iff
    {call : SystemCall} (htakes : call.TakesLength)
    (hselected : k.register 2 = call.code)
    (hneg : (k.lengthOf call).toInt < 0) :
    (∃ k', k.RejectsLength env call k') ↔ k.FailsBefore env call := by
  obtain rfl | rfl | rfl | rfl := htakes
  · exact rejectsLength_read_iff hneg
  · refine rejectsLength_write_iff hneg ?_
    rw [hselected]
    decide
  · exact rejectsLength_send_iff hneg
  · exact iff_of_false (not_rejectsLength_receive hneg) not_false

/-! ## A length of -1 -/

/-- The program passes the length -1 to a call on the descriptor 2. -/
def passingMinusOne (call : SystemCall) (slot : FileSlot) : Kernel :=
  let k := onePage call slot [1, 2, 3] []
  { k with machine := k.machine.writeRegister 5 (-1) }

/-- A file for reading only is not written. -/
theorem rejects_negative_length_iff_readOnly :
    ∃ k', (passingMinusOne .write (fileSlotOf 1)).RejectsLength willing .write
      k' :=
  (rejects_negative_length_iff (.inr (.inl rfl)) rfl (by decide)).mpr
    (.inr (.inl ⟨_, _, rfl, by decide, rfl, by decide⟩))

/-- `Read` of a file goes on with the length -1. -/
theorem negative_length_not_rejected :
    ¬∃ k', (passingMinusOne .read (fileSlotOf 0)).RejectsLength willing .read
      k' := by
  rintro ⟨k', hrejects⟩
  have hfault : (passingMinusOne .read (fileSlotOf 0)).handle willing .read =
      .error .undefinedBehaviour := rfl
  exact nomatch hfault.symm.trans hrejects.returned

end Kernel

end Nachos
