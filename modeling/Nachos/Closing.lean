import Nachos.DescriptorKinds
import Nachos.DescriptorTable

/-!
# Closing a descriptor

`handle_SC_Close` deletes the slot of a file and puts `NULL` in its place.  A
socket goes to `closeTCP`, which closes it before the destructor of the slot
closes it again, and which leaves the pointer to the deleted slot in the table.
-/

namespace Nachos

open Library

/-! ## What is to be shown of a descriptor that has been closed -/

/-- The calls that take a descriptor. -/
def SystemCall.OnDescriptor (call : SystemCall) : Prop :=
  call ∈ [SystemCall.close, .read, .write, .seek, .socketTCPConnect,
    .socketTCPSend, .socketTCPReceive, .socketTCPClose]

instance (call : SystemCall) : Decidable call.OnDescriptor := by
  unfold SystemCall.OnDescriptor
  infer_instance

/-- The result of a call on a descriptor tells that there is none: `Send` and
`Receive` return the 0 of a closed connection, the other calls -1. -/
def SystemCall.ReportsError (call : SystemCall) (result : BitVec 32) : Prop :=
  if call = .socketTCPSend ∨ call = .socketTCPReceive then result = 0
  else result = -1

/-- The host descriptor of a slot is closed, once. -/
inductive FileSlot.ClosedOnce (h : Host) : FileSlot → Host → Prop
  | file {f : OpenFile} {h' : Host} : h.close f.file = .ok h' →
      ClosedOnce h (.ofFile (.object f)) h'
  | socket {s : OpenFileSocket} :
      ClosedOnce h (.ofSocket (.object s)) (h.closeSocket s.fd)

/-- No call of a run gets the slot from `FindFreeSlot`. -/
def NotReused (id : ℕ) (_ : List DescriptorEvent) (k : Kernel) :
    DescriptorAction → Prop
  | .call _ _ call => call ∈ [SystemCall.open, .socketTCPOpen, .exec] →
      k.fileSystem.findFreeSlot ≠ some id
  | .load .. => True

namespace Kernel

/-- The slot that a call of `k` has closed is free. -/
structure Freed (k k' : Kernel) (id : ℕ) (slot : FileSlot) : Prop where
  null : k'.fileSystem.fileSlot id = .null
  others : ∀ i, i ≠ id → k'.fileSystem.fileSlot i = k.fileSystem.fileSlot i
  closed : slot.ClosedOnce k.host k'.host
  /-- Until the slot is used again, there is no such descriptor. -/
  refused : ∀ trace later,
    (descriptorSystem k').Run (NotReused id) trace later →
      ∀ m env call after, call.OnDescriptor →
        ({ later with machine := m } : Kernel).descriptor call = id →
        later.callFrom m env call = .ok after →
          call.ReportsError (after.register 2)
  /-- A second `Close` returns -1. -/
  again : ∀ (m : Machine) env, (m.readRegister 4).toInt = id →
    ∃ after, k'.callFrom m env .close = .ok after ∧ after.register 2 = -1
  offered : (∀ i, 2 ≤ i → i < id → k.fileSystem.fileSlot i ≠ .null) →
    k'.fileSystem.findFreeSlot = some id

/-- The slot is that of an open file or of a socket. -/
def LiveAt (k : Kernel) (slot : FileSlot) : Prop :=
  (∃ f, slot = .ofFile (.object f) ∧ k.host.file f.file ≠ none) ∨
    slot.LiveSocket

variable {env : Environment} {k k' : Kernel} {call : SystemCall} {id : ℕ}

/-! ## A descriptor that is not open -/

theorem not_occupied_of_null
    (hnull : k.fileSystem.fileSlot id = .null) : ¬k.occupied id := by
  rintro ⟨-, -, hslot⟩
  rw [Int.toNat_natCast, hnull] at hslot
  cases hslot

theorem not_outside (hlow : 2 ≤ id) (hhigh : id < maxFileOpen) :
    ¬FileSystem.outside id := by
  have hreserved : reverseFD = 2 := rfl
  rintro (h | h)
  · omega
  · omega

section Null

variable (hlow : 2 ≤ id) (hhigh : id < maxFileOpen)
variable (hnull : k.fileSystem.fileSlot id = .null)

include hnull

theorem isNull_of_null :
    (k.fileSystem.fileSlot (id : ℤ).toNat).isNull = true := by
  rw [Int.toNat_natCast, hnull]
  rfl

theorem close_null (hid : (k.register 4).toInt = id) :
    k.handle env .close = .ok (k.returns (-1)) := by
  unfold handle handleSCClose
  simp only
  rw [hid, if_neg fun h => not_occupied_of_null hnull h.2]
  rfl

include hlow hhigh

theorem connect_null
    (hid : (k.register 4).toInt = id)
    (hcall : k.handle env .socketTCPConnect = .ok k') :
    k'.register 2 = -1 := by
  obtain ⟨⟨ip, k₁⟩, hcopy, hcall⟩ := ok_of_bind hcall
  obtain ⟨m, -, -, rfl⟩ := user2System_ok hcopy
  have hconnect : k.fileSystem.connectTCP (k.register 4).toInt env.answer =
      .ok (-1) := by
    rw [hid, FileSystem.connectTCP, if_neg (not_outside hlow hhigh),
      if_pos (isNull_of_null hnull)]
    rfl
  simp only [hconnect, ok_bind] at hcall
  cases hcall
  rfl

theorem send_null
    (hid : (k.register 4).toInt = id)
    (hcall : k.handle env .socketTCPSend = .ok k') :
    k'.register 2 = 0 := by
  obtain ⟨⟨buff, k₁⟩, hcopy, hcall⟩ := ok_of_bind hcall
  obtain ⟨m, -, -, rfl⟩ := user2System_ok hcopy
  simp only at hcall
  split at hcall
  next => cases hcall
  next =>
    have hsend : ∀ len, k.fileSystem.sendTCP k.host (k.register 4).toInt buff
        len env.answer = .ok (some [], k.host) := by
      intro len
      rw [hid, FileSystem.sendTCP, if_neg (not_outside hlow hhigh),
        if_pos (isNull_of_null hnull)]
      rfl
    simp only [send, hsend, ok_bind] at hcall
    cases hcall
    rfl

theorem receive_null
    (hid : (k.register 4).toInt = id)
    (hcall : k.handle env .socketTCPReceive = .ok k') :
    k'.register 2 = 0 := by
  have hreceive : ∀ len, k.fileSystem.receiveTCP k.host (k.register 4).toInt
      len env.answer = .ok (some [], k.host) := by
    intro len
    rw [hid, FileSystem.receiveTCP, if_neg (not_outside hlow hhigh),
      if_pos (isNull_of_null hnull)]
    rfl
  simp only [handle, handleSCSocketTCPReceive, receive, hreceive,
    ok_bind] at hcall
  split at hcall
  next => cases hcall
  next =>
    cases hcall
    rfl

theorem closeSocket_null
    (hid : (k.register 4).toInt = id)
    (hcall : k.handle env .socketTCPClose = .ok k') :
    k'.register 2 = -1 := by
  have hclose : k.fileSystem.closeTCP k.host (k.register 4).toInt =
      .ok (-1, k.fileSystem, k.host) := by
    rw [hid, FileSystem.closeTCP, if_neg (not_outside hlow hhigh),
      if_pos (isNull_of_null hnull)]
    rfl
  simp only [handle, handleSCSocketTCPClose, hclose, ok_bind] at hcall
  cases hcall
  rfl

/-- Each call on a descriptor looks whether its slot is `NULL`. -/
theorem reportsError_of_null
    (hon : call.OnDescriptor) (hid : k.descriptor call = id)
    (hcall : k.handle env call = .ok k') :
    call.ReportsError (k'.register 2) := by
  have hnone : ∀ i : ℤ, i = id → ¬k.occupied i := by
    rintro i rfl
    exact not_occupied_of_null hnull
  cases call with
  | close =>
      rw [close_null hnull hid] at hcall
      cases hcall
      rfl
  | read =>
      rw [handle, handleSCRead, if_neg (hnone (k.register 6).toInt hid)] at hcall
      cases hcall
      rfl
  | write =>
      rw [handle, handleSCWrite, if_neg (hnone (k.register 6).toInt hid)] at hcall
      cases hcall
      rfl
  | seek =>
      rw [handle, handleSCSeek,
        if_neg fun h => hnone (k.register 5).toInt hid h.1] at hcall
      cases hcall
      rfl
  | socketTCPConnect => exact connect_null hlow hhigh hnull hid hcall
  | socketTCPSend => exact send_null hlow hhigh hnull hid hcall
  | socketTCPReceive => exact receive_null hlow hhigh hnull hid hcall
  | socketTCPClose => exact closeSocket_null hlow hhigh hnull hid hcall
  | _ => exact absurd hon (by decide)

end Null

/-! ## Until the slot is used again -/

theorem Effect.null
    {fs : FileSystem} {h : Host} {result : Option ℤ}
    (heffect : k.Effect env call fs h result)
    (hnull : k.fileSystem.fileSlot id = .null)
    (hkept : call ∈ [SystemCall.open, .socketTCPOpen, .exec] →
      k.fileSystem.findFreeSlot ≠ some id) :
    fs.fileSlot id = .null := by
  have hother : ∀ {i : ℕ} (slot : Pointer FileSlot), i ≠ id →
      (k.fileSystem.setSlot i slot).fileSlot id = .null := by
    intro i slot hne
    rw [FileSystem.fileSlot_setSlot_of_ne (Ne.symm hne), hnull]
  have hobject : ∀ {i : ℕ} {slot : FileSlot},
      k.fileSystem.fileSlot i = .object slot → i ≠ id := by
    rintro i slot hslot rfl
    cases hslot.symm.trans hnull
  have hfree : ∀ {i : ℕ}, k.fileSystem.findFreeSlot = some i →
      call ∈ [SystemCall.open, .socketTCPOpen, .exec] → i ≠ id := by
    rintro i hfree hcall rfl
    exact hkept hcall hfree
  cases heffect with
  | opened _ htaken => exact hother _ (hfree htaken (by decide))
  | socketOpened htaken => exact hother _ (hfree htaken (by decide))
  | executed htaken => exact hother _ (hfree htaken (by decide))
  | closed _ _ hslot => exact hother _ (hobject hslot)
  | socketClosed _ _ _ hslot => exact hother _ (hobject hslot)
  | moved _ hslot => exact hother _ (hobject hslot)
  | written _ hslot => exact hother _ (hobject hslot)
  | _ => exact hnull

theorem null_of_run
    {trace : List DescriptorEvent} {later : Kernel}
    (hnull : k.fileSystem.fileSlot id = .null)
    (hrun : (descriptorSystem k).Run (NotReused id) trace later) :
    later.fileSystem.fileSlot id = .null := by
  refine hrun.invariant (fun _ k => k.fileSystem.fileSlot id = .null) hnull ?_
  intro trace s s' action event _ hbefore hguard hmove
  cases action with
  | call m env call =>
      obtain ⟨k', hcall, hresult⟩ := ok_of_bind hmove
      cases hresult
      obtain ⟨fs, h, result, hreturned, heffect⟩ := ends_of_handle hcall
      rw [hreturned.fileSystem]
      exact heffect.null hbefore hguard
  | load m space garbage fileName argc argv =>
      obtain ⟨⟨loaded, space', k'⟩, hload, hresult⟩ := ok_of_bind hmove
      cases hresult
      rw [AddrSpace.load_fileSystem hload]
      exact hbefore

/-! ## The two ways to close -/

theorem findFreeSlot_eq
    {fs : FileSystem} (hlow : 2 ≤ id) (hhigh : id < maxFileOpen)
    (hnull : fs.fileSlot id = .null)
    (htaken : ∀ i, 2 ≤ i → i < id → fs.fileSlot i ≠ .null) :
    fs.findFreeSlot = some id := by
  have hreserved : reverseFD = 2 := rfl
  rw [FileSystem.findFreeSlot, List.find?_range'_eq_some]
  refine ⟨?_, ?_, ?_⟩
  · rw [hnull]
    rfl
  · rw [List.mem_range'_1]
    omega
  · intro i hi hlt
    have hi' := htaken i (by omega) hlt
    cases hslot : fs.fileSlot i with
    | null => exact (hi' hslot).elim
    | dangling => rfl
    | object slot => rfl

/-- What follows when the slot of a file has been closed. -/
theorem freed_of_file
    {f : OpenFile} {host : Host} (result : ℤ) (hlow : 2 ≤ id)
    (hhigh : id < maxFileOpen) (hclose : k.host.close f.file = .ok host) :
    k.Freed ({ k with
      fileSystem := k.fileSystem.setSlot id .null
      host := host }.returns result) id (.ofFile (.object f)) := by
  have hnull : (k.fileSystem.setSlot id .null).fileSlot id = .null :=
    FileSystem.fileSlot_setSlot_self _ _
  constructor
  case null => exact hnull
  case others =>
    intro i hne
    exact FileSystem.fileSlot_setSlot_of_ne hne _
  case closed => exact .file hclose
  case refused =>
    intro trace later hrun m env call after hon hid hcall
    have hlater : later.fileSystem.fileSlot id = .null :=
      null_of_run hnull hrun
    exact reportsError_of_null (k := { later with machine := m }) hlow hhigh
      hlater hon hid hcall
  case again =>
    intro m env hid
    exact ⟨_, close_null (k := ⟨m, k.fileSystem.setSlot id .null, host,
      k.consoleIn, k.consoleOut⟩) hnull hid, rfl⟩
  case offered =>
    intro htaken
    refine findFreeSlot_eq hlow hhigh hnull ?_
    intro i hi hlt
    have hsame : (k.fileSystem.setSlot id .null).fileSlot i =
        k.fileSystem.fileSlot i :=
      FileSystem.fileSlot_setSlot_of_ne hlt.ne _
    exact hsame ▸ htaken i hi hlt

theorem close_liveFile
    {f : OpenFile} (hlow : 2 ≤ id) (hhigh : id < maxFileOpen)
    (hid : (k.register 4).toInt = id)
    (hslot : k.fileSystem.fileSlot id = .object (.ofFile (.object f)))
    (hopen : k.host.file f.file ≠ none) :
    ∃ k', k.handle env .close = .ok k' ∧ k'.register 2 = 0 ∧
      k.Freed k' id (.ofFile (.object f)) := by
  have hoccupied : k.occupied id := by
    refine ⟨by omega, by omega, ?_⟩
    rw [Int.toNat_natCast, hslot]
    rfl
  obtain ⟨position, hfile⟩ := Option.ne_none_iff_exists'.mp hopen
  have hclose : k.host.close f.file = .ok (k.host.setFile f.file none) := by
    rw [Host.close, hfile]
  refine ⟨_, ?_, rfl, freed_of_file 0 hlow hhigh hclose⟩
  have hdelete : (FileSlot.ofFile (.object f)).delete k.host =
      .ok (k.host.setFile f.file none) := by
    simp only [FileSlot.delete, FileSlot.ofFile, FileSlot.deleteFile,
      Pointer.deref_object, ok_bind, hclose]
    rfl
  unfold handle handleSCClose
  simp only
  rw [hid, if_pos ⟨by omega, hoccupied⟩, Int.toNat_natCast, hslot]
  simp only [Pointer.deref_object, ok_bind, hdelete]
  rfl

/-- A socket is closed twice, and its slot is not cleared. -/
theorem closeTCP_socket
    {s : OpenFileSocket} (hlow : 2 ≤ id) (hhigh : id < maxFileOpen)
    (hslot : k.fileSystem.fileSlot id = .object (.ofSocket (.object s))) :
    k.fileSystem.closeTCP k.host id = .ok (0,
      k.fileSystem.setSlot id .dangling,
      (k.host.closeSocket s.fd).closeSocket s.fd) := by
  have hslot' : k.fileSystem.fileSlot (id : ℤ).toNat =
      .object (.ofSocket (.object s)) := by
    rw [Int.toNat_natCast, hslot]
  have hnonnull : ¬(k.fileSystem.fileSlot (id : ℤ).toNat).isNull = true := by
    rw [hslot']
    simp [Pointer.isNull]
  rw [FileSystem.closeTCP, if_neg (not_outside hlow hhigh), if_neg hnonnull,
    FileSystem.socketAt_eq hslot', hslot']
  rfl

theorem close_socket
    {s : OpenFileSocket} (hlow : 2 ≤ id) (hhigh : id < maxFileOpen)
    (hcall : call = .close ∨ call = .socketTCPClose)
    (hid : (k.register 4).toInt = id)
    (hslot : k.fileSystem.fileSlot id = .object (.ofSocket (.object s))) :
    ∃ k', k.handle env call = .ok k' ∧ k'.register 2 = 0 ∧
      k'.fileSystem.fileSlot id = .dangling ∧
        k'.host = (k.host.closeSocket s.fd).closeSocket s.fd := by
  have hoccupied : k.occupied id := by
    refine ⟨by omega, by omega, ?_⟩
    rw [Int.toNat_natCast, hslot]
    rfl
  have hclose := closeTCP_socket hlow hhigh hslot
  have hleft : (k.fileSystem.setSlot id .dangling).fileSlot id = .dangling :=
    FileSystem.fileSlot_setSlot_self _ _
  refine ⟨{ k with
    fileSystem := k.fileSystem.setSlot id .dangling
    host := (k.host.closeSocket s.fd).closeSocket s.fd }.returns 0, ?_, rfl,
      hleft, rfl⟩
  cases hcall with
  | inl hcall =>
      subst hcall
      unfold handle handleSCClose
      simp only
      rw [hid, if_pos ⟨by omega, hoccupied⟩, hclose, Int.toNat_natCast, hslot]
      rfl
  | inr hcall =>
      subst hcall
      rw [handle, handleSCSocketTCPClose, hid, hclose]
      rfl

/-- A `Close` that returns 0 has freed the descriptor exactly when it is that
of a file. -/
theorem close_frees_iff
    {slot : FileSlot} (hlow : 2 ≤ id) (hhigh : id < maxFileOpen)
    (hid : (k.register 4).toInt = id)
    (hslot : k.fileSystem.fileSlot id = .object slot) (hlive : k.LiveAt slot)
    (hcall : call = .close ∨ call = .socketTCPClose ∧ slot.LiveSocket) :
    ∃ k', k.handle env call = .ok k' ∧ k'.register 2 = 0 ∧
      (k.Freed k' id slot ↔ ¬slot.LiveSocket) := by
  obtain ⟨f, rfl, hopen⟩ | ⟨s, rfl⟩ := hlive
  · have hfile : ¬(FileSlot.ofFile (.object f)).LiveSocket := nofun
    obtain rfl | ⟨-, hsocket⟩ := hcall
    · obtain ⟨k', hclose, hzero, hfreed⟩ :=
        close_liveFile hlow hhigh hid hslot hopen
      exact ⟨k', hclose, hzero, iff_of_true hfreed hfile⟩
    · exact (hfile hsocket).elim
  · obtain ⟨k', hclose, hzero, hleft, -⟩ :=
      close_socket hlow hhigh (hcall.imp_right And.left) hid hslot
    refine ⟨k', hclose, hzero, iff_of_false ?_ (not_not_intro ⟨s, rfl⟩)⟩
    intro hfreed
    exact nomatch hleft.symm.trans hfreed.null

/-- The program closes its descriptor 2. -/
def closingTwo (slot : FileSlot) : Kernel :=
  let k := onePage .close slot [] []
  { k with machine := k.machine.writeRegister 4 2 }

theorem close_frees_iff_file :
    ∃ k', (closingTwo (fileSlotOf 0)).handle willing .close = .ok k' ∧
      k'.register 2 = 0 ∧
        (closingTwo (fileSlotOf 0)).Freed k' 2 (fileSlotOf 0) := by
  have hlive : (closingTwo (fileSlotOf 0)).LiveAt (fileSlotOf 0) :=
    .inl ⟨_, rfl, by decide⟩
  obtain ⟨k', hclose, hzero, hiff⟩ := close_frees_iff
    (le_refl 2) (by decide) rfl rfl hlive (.inl rfl)
  exact ⟨k', hclose, hzero, hiff.mpr nofun⟩

/-- A socket that has been closed leaves its slot in the table. -/
theorem socket_not_freed :
    ∃ k', (closingTwo (.ofSocket (.object ⟨0⟩))).handle willing .close =
        .ok k' ∧ k'.register 2 = 0 ∧
      ¬(closingTwo (.ofSocket (.object ⟨0⟩))).Freed k' 2
        (.ofSocket (.object ⟨0⟩)) := by
  obtain ⟨k', hclose, hzero, hleft, -⟩ :=
    close_socket (k := closingTwo (.ofSocket (.object ⟨0⟩)))
      (le_refl 2) (by decide) (.inl rfl) rfl rfl
  refine ⟨k', hclose, hzero, ?_⟩
  intro hfreed
  exact nomatch hleft.symm.trans hfreed.null

end Kernel

end Nachos
