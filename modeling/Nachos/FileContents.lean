import Nachos.OpenFiles

/-!
# Who may change a file

A file changes only by a call that names it or by a `Write` on an identifier
that was opened for writing on it, and the latter changes only the bytes that
were written.  When the file was emptied in the meantime, the host fills the
gap between its end and the position with zeros.
-/

namespace Nachos

open Library

/-! ## Bytes of a file -/

/-- Only the bytes of a range differ. -/
def Within (old new : List (BitVec 8)) (offset count : ℕ) : Prop :=
  ∀ i, i < offset ∨ offset + count ≤ i → new[i]? = old[i]?

/-- Only the bytes of a range differ, and zeros fill a gap before it. -/
def WithinOrGap (old new : List (BitVec 8)) (offset count : ℕ) : Prop :=
  ∀ i, i < offset ∨ offset + count ≤ i → new[i]? = old[i]? ∨
    old.length ≤ i ∧ i < offset ∧ new[i]? = some 0

theorem getElem?_takeD
    {n i : ℕ} (hi : i < n) (bytes : List (BitVec 8)) :
    (bytes.takeD n 0)[i]? = some (bytes[i]?.getD 0) := by
  induction n generalizing i bytes with
  | zero => omega
  | succ n ih =>
      rw [List.takeD_succ]
      cases i with
      | zero => cases bytes <;> rfl
      | succ i =>
          rw [List.getElem?_cons_succ, ih (by omega)]
          cases bytes <;> rfl

theorem withinOrGap_overwrite
    (old bytes : List (BitVec 8)) (offset : ℕ) :
    WithinOrGap old (overwrite old offset bytes) offset bytes.length := by
  intro i hi
  unfold overwrite
  split
  · exact .inl rfl
  · rcases hi with hbefore | hbehind
    · rw [List.append_assoc,
        List.getElem?_append_left (by simpa using hbefore),
        getElem?_takeD hbefore]
      rcases Nat.lt_or_ge i old.length with hin | hout
      · rw [List.getElem?_eq_getElem hin]
        exact .inl rfl
      · rw [List.getElem?_eq_none hout]
        exact .inr ⟨hout, hbefore, rfl⟩
    · left
      rw [List.getElem?_append_right (by simp; omega), List.getElem?_drop]
      congr 1
      simp
      omega

/-! ## Changes -/

/-- The position of an identifier. -/
def Kernel.positionOf (k : Kernel) (id : ℕ) : Option ℕ :=
  match k.fileSystem.fileSlot id with
  | .object slot =>
      match slot.fileOpen with
      | .object f => (k.host.file f.file).map HostFile.offset
      | _ => none
  | _ => none

/-- The call names the file, or writes to an identifier that was opened on it
for writing, and changes only the bytes that `within` tells. -/
def MayChange
    (within : List (BitVec 8) → List (BitVec 8) → ℕ → ℕ → Prop)
    (trace : List DescriptorEvent) (k : Kernel) (m : Machine)
    (call : SystemCall) (k' : Kernel) (inode : ℕ) : Prop :=
  (call = .create ∨ call = .open ∧ (m.readRegister 5).toInt = 4) ∧
      Names m call k'.host inode ∨
    call = .remove ∧ Names m call k.host inode ∨
    call = .write ∧ ∃ id mode offset, id < maxFileOpen ∧
      m.readRegister 6 = BitVec.ofNat 32 id ∧ (mode = 0 ∨ mode = 4) ∧
        OpenOn trace id inode mode ∧ k.positionOf id = some offset ∧
        within (k.host.contents inode) (k'.host.contents inode) offset
          (k'.register 2).toNat

/-- Each file whose contents are other after a call is one that the call may
change, and so is each name. -/
structure ChangesGranted
    (within : List (BitVec 8) → List (BitVec 8) → ℕ → ℕ → Prop)
    (trace : List DescriptorEvent) (k : Kernel) (m : Machine)
    (call : SystemCall) (k' : Kernel) : Prop where
  contents : ∀ inode,
    k'.host.contents inode ≠ k.host.contents inode →
      MayChange within trace k m call k' inode
  directory : ∀ name, k'.host.directory name ≠ k.host.directory name →
    (call = .create ∨ call = .open ∧ (m.readRegister 5).toInt = 4 ∨
      call = .remove) ∧
    ∃ filename m', m.user2System (m.readRegister 4) (nameLimit call) =
      .ok (filename, m') ∧ cString filename = name

section Changes

variable {within : List (BitVec 8) → List (BitVec 8) → ℕ → ℕ → Prop}
variable {trace : List DescriptorEvent} {k k' : Kernel} {m : Machine}
variable {env : Environment} {call : SystemCall}

theorem changesGranted_of_same
    (hcontents : k'.host.contents = k.host.contents)
    (hdirectory : k'.host.directory = k.host.directory) :
    ChangesGranted within trace k m call k' where
  contents := fun inode hne => (hne (by rw [hcontents])).elim
  directory := fun name hne => (hne (by rw [hdirectory])).elim

/-- A call that makes or empties the file it names. -/
theorem changesGranted_of_named
    {filename : List (BitVec 8)} {m' : Machine} {inode : ℕ}
    (hcall : call = .create ∨ call = .open ∧ (m.readRegister 5).toInt = 4)
    (hname : m.user2System (m.readRegister 4) (nameLimit call) =
      .ok (filename, m'))
    (hfound : k'.host.directory (cString filename) = some inode)
    (hcontents : ∀ other, other ≠ inode →
      k'.host.contents other = k.host.contents other)
    (hdirectory : ∀ other, other ≠ cString filename →
      k'.host.directory other = k.host.directory other) :
    ChangesGranted within trace k m call k' where
  contents := by
    intro other hne
    have hinode : other = inode := by
      by_contra hother
      exact hne (hcontents other hother)
    rw [hinode]
    exact .inl ⟨hcall, filename, m', hname, hfound⟩
  directory := by
    intro name hne
    refine ⟨hcall.imp_right .inl, filename, m', hname, ?_⟩
    by_contra hother
    exact hne (hdirectory name (Ne.symm hother))

theorem Host.close_keeps
    {h h' : Host} {fd : ℕ} (hclose : h.close fd = .ok h') :
    h'.contents = h.contents ∧ h'.directory = h.directory := by
  unfold Host.close at hclose
  split at hclose
  · cases hclose
    exact ⟨rfl, rfl⟩
  · cases hclose

theorem FileSlot.delete_keeps
    {f : Pointer OpenFile} {h h' : Host}
    (hdelete : (FileSlot.ofFile f).delete h = .ok h') :
    h'.contents = h.contents ∧ h'.directory = h.directory := by
  cases f with
  | null =>
      cases hdelete
      exact ⟨rfl, rfl⟩
  | dangling => cases hdelete
  | object f =>
      rcases ok_of_bind hdelete with ⟨closed, hclose, hresult⟩
      cases hresult
      exact Host.close_keeps hclose

/-- The file of a slot is the one that its identifier was opened on. -/
theorem FilesKnown.openOn
    (hknown : FilesKnown trace k) {id : ℕ} {slot : FileSlot} {f : OpenFile}
    {position : HostFile} (hslot : k.fileSystem.fileSlot id = .object slot)
    (hopen : slot.fileOpen = .object f) (hmode : f.type ≠ 2 ∧ f.type ≠ 3)
    (hposition : k.host.file f.file = some position) :
    OpenOn trace id position.inode f.type := by
  have hentry : k.fileSystem.Entry id f.type f.file := by
    have hplain := entry_setSlot_offset (hknown.plain id) hslot hopen 0
    rw [hplain.1] at hslot
    exact ⟨f, hslot, rfl, rfl⟩
  have hid := hknown.range id f.type f.file hentry
  rcases hknown.granted id f.type f.file hentry with h2 | h3 | ⟨inode, hon⟩
  · exact (hmode.1 h2).elim
  · exact (hmode.2 h3).elim
  · rcases hknown.known id inode f.type hid hon with
      ⟨fd, position', ⟨f', hslot', hmode', rfl⟩, hposition', rfl⟩
    cases hslot.symm.trans hslot'
    cases hopen
    cases hposition.symm.trans hposition'
    exact hon

/-- A call that has been made in a run. -/
theorem FilesKnown.changesGranted
    (hknown : FilesKnown trace k) (hfiles : call ∈ fileCalls)
    (hcall : k.callFrom m env call = .ok k') :
    ChangesGranted WithinOrGap trace k m call k' := by
  rcases Kernel.ends_of_handle hcall with
    ⟨fs, h, result, hreturned, heffect⟩
  have hhost := hreturned.host
  have hsame : h.contents = k.host.contents →
      h.directory = k.host.directory →
      ChangesGranted WithinOrGap trace k m call k' := by
    intro hcontents hdirectory
    rw [← hhost] at hcontents hdirectory
    exact changesGranted_of_same hcontents hdirectory
  cases heffect with
  | refused => exact hsame rfl rfl
  | answered _ hhosts => exact hsame hhosts.contents hhosts.directory
  | console _ _ _ => exact hsame rfl rfl
  | @created filename m' h hname hcreate =>
      subst hhost
      rcases Host.create_ok hcreate with
        ⟨inode, hfound, -, hcontents, hdirectory⟩
      exact changesGranted_of_named (.inl rfl) hname hfound hcontents
        hdirectory
  | @opened filename m' id f h hname hfree hopen hmode =>
      rcases openTyped_ok hopen with
        ⟨rfl, rfl, -⟩ |
          ⟨inode, rfl, hfound, -, hread, hcontents, hdirectory⟩
      · exact hsame rfl rfl
      · by_cases htype : (m.readRegister 5).toInt = 4
        · subst hhost
          exact changesGranted_of_named (.inr ⟨rfl, htype⟩) hname hfound
            hcontents hdirectory
        · exact hsame (hread htype).1 (hread htype).2
  | @closed slot h hlow hhigh hslot htype hdelete =>
      obtain ⟨f, rfl⟩ := hknown.file_of_slot hslot
      rcases FileSlot.delete_keeps hdelete with ⟨hcontents, hdirectory⟩
      exact hsame hcontents hdirectory
  | socketClosed hwhich hlow hhigh hslot =>
      rcases hwhich with ⟨rfl, htype⟩ | rfl
      · obtain ⟨f, rfl⟩ := hknown.file_of_slot hslot
        cases htype
      · exact absurd hfiles (by decide)
  | moved _ _ _ hhosts => exact hsame hhosts.contents hhosts.directory
  | @written slot f position bytes hid hslot hopen hmode hposition hcount =>
      have hrange : 0 ≤ (m.readRegister 6).toInt := hid.1
      have hregister : m.readRegister 6 =
          BitVec.ofNat 32 (m.readRegister 6).toInt.toNat := by
        rw [← BitVec.ofInt_natCast, Int.toNat_of_nonneg hrange,
          BitVec.ofInt_toInt]
      have hopenOn := hknown.openOn hslot hopen (by omega) hposition
      have hnew : ∀ inode, k'.host.contents inode =
          Function.update k.host.contents position.inode (overwrite
            (k.host.contents position.inode) position.offset bytes)
              inode := by
        intro inode
        rw [hhost]
        rfl
      constructor
      case contents =>
        intro inode hne
        rw [hnew] at hne
        have hinode : inode = position.inode := by
          by_contra hother
          exact hne (Function.update_of_ne hother _ _)
        subst hinode
        rw [Function.update_self] at hne
        have hbytes : bytes ≠ [] := by
          rintro rfl
          exact hne rfl
        rw [if_neg hbytes] at hreturned
        have hlength : (k'.register 2).toNat = bytes.length := by
          have hbound : (m.readRegister 5).toInt < 2 ^ 31 :=
            BitVec.toInt_lt
          have hcount' : (m.readRegister 5).toInt = bytes.length := hcount
          rw [hreturned.register_two, BitVec.ofInt_natCast,
            BitVec.toNat_ofNat, Nat.mod_eq_of_lt (by omega)]
        have hid' : (m.readRegister 6).toInt < maxFileOpen := hid.2.1
        have hoffset : k.positionOf (m.readRegister 6).toInt.toNat =
            some position.offset := by
          have hslot' : k.fileSystem.fileSlot
              (m.readRegister 6).toInt.toNat = .object slot := hslot
          have hposition' : k.host.file f.file = some position := hposition
          simp only [Kernel.positionOf, hslot', hopen, hposition',
            Option.map_some]
        refine .inr (.inr ⟨rfl, _, f.type, position.offset, by omega,
          hregister, hmode, hopenOn, hoffset, ?_⟩)
        rw [hnew, Function.update_self, hlength]
        exact withinOrGap_overwrite _ _ _
      case directory =>
        intro name hne
        exact (hne (by rw [hhost]; rfl)).elim
  | @removed filename m' hname =>
      constructor
      case contents =>
        intro inode hne
        refine (hne ?_).elim
        rw [hhost]
        unfold FileSystem.remove Host.unlink
        split <;> rfl
      case directory =>
        intro name hne
        refine ⟨.inr (.inr rfl), filename, m', hname, ?_⟩
        by_contra hother
        refine hne ?_
        rw [hhost]
        unfold FileSystem.remove Host.unlink
        split
        · exact Function.update_of_ne (Ne.symm hother) _ _
        · rfl
  | socketOpened => exact absurd hfiles (by decide)
  | notExecuted => exact absurd hfiles (by decide)
  | executed => exact absurd hfiles (by decide)

/-- The register in which a call gets an identifier. -/
def idRegister : SystemCall → ℕ
  | .read => 6
  | .write => 6
  | .seek => 5
  | _ => 4

/-- A call through an identifier that was opened for reading. -/
def DescriptorEvent.ThroughReadOnly (trace : List DescriptorEvent)
    (event : DescriptorEvent) : Prop :=
  ∃ m env call id inode, event.action = .call m env call ∧
    call ∈ [SystemCall.close, .read, .write, .seek] ∧ id < maxFileOpen ∧
    m.readRegister (idRegister call) = BitVec.ofNat 32 id ∧
    OpenOn trace id inode 1

/-- Each of the later calls goes through such an identifier. -/
def ReadOnlyCalls (trace later : List DescriptorEvent) : Prop :=
  ∀ earlier event rest, later = earlier ++ event :: rest →
    event.ThroughReadOnly (trace ++ earlier)

/-- An identifier has one mode. -/
theorem FilesKnown.mode_unique
    (hknown : FilesKnown trace k) {id inode inode' : ℕ} {mode mode' : ℤ}
    (hid : id < maxFileOpen) (hopen : OpenOn trace id inode mode)
    (hopen' : OpenOn trace id inode' mode') : mode = mode' := by
  rcases hknown.known id inode mode hid hopen with
    ⟨fd, position, ⟨f, hslot, rfl, -⟩, -⟩
  rcases hknown.known id inode' mode' hid hopen' with
    ⟨fd', position', ⟨f', hslot', rfl, -⟩, -⟩
  cases hslot.symm.trans hslot'
  rfl

theorem FilesKnown.readOnly
    (hknown : FilesKnown trace k) (hcall : k.callFrom m env call = .ok k')
    (hread : DescriptorEvent.ThroughReadOnly trace
      ⟨.call m env call, k'⟩) :
    k'.host.contents = k.host.contents ∧
      k'.host.directory = k.host.directory := by
  rcases hread with
    ⟨m', env', call', id, inode, haction, hcalls, hid, hregister, hopen⟩
  cases haction
  have hfiles : call ∈ fileCalls := by
    revert hcalls
    cases call <;> decide
  have hgranted := hknown.changesGranted hfiles hcall
  constructor
  · funext other
    by_contra hne
    rcases hgranted.contents other hne with
      ⟨hcreate, -⟩ | ⟨rfl, -⟩ |
        ⟨rfl, id', mode, -, hid', hregister', hmode, hopen', -⟩
    · rcases hcreate with rfl | ⟨rfl, -⟩
      · exact absurd hcalls (by decide)
      · exact absurd hcalls (by decide)
    · exact absurd hcalls (by decide)
    · obtain rfl : id = id' :=
        (ofNat_inj hid hid').mp (hregister.symm.trans hregister')
      have hone := hknown.mode_unique hid hopen hopen'
      omega
  · funext name
    by_contra hne
    rcases (hgranted.directory name hne).1 with rfl | ⟨rfl, -⟩ | rfl
    · exact absurd hcalls (by decide)
    · exact absurd hcalls (by decide)
    · exact absurd hcalls (by decide)

end Changes

section Runs

variable {start k k' : Kernel} {trace later : List DescriptorEvent}

/-- The trace tells the state. -/
theorem state_of_run
    (hrun : (descriptorSystem start).Run onFiles trace k) :
    k = (trace.getLast?.map DescriptorEvent.after).getD start := by
  cases hrun with
  | start => rfl
  | @step trace s s' action event _ hfiles hmove =>
      rw [List.getLast?_concat]
      cases action with
      | call m env call =>
          rcases ok_of_bind hmove with ⟨k', hcall, hresult⟩
          cases hresult
          rfl
      | load => exact hfiles.elim

/-- Calls through identifiers that were opened for reading. -/
theorem readOnly_run
    {h : Host} {stdin stdout : HostAnswer}
    (hnew : FileSystem.new h stdin stdout =
      .ok (start.fileSystem, start.host))
    (hrun : (descriptorSystem start).Run onFiles trace k)
    (hlater : (descriptorSystem start).Run onFiles (trace ++ later) k')
    (hread : ReadOnlyCalls trace later) :
    k'.host.contents = k.host.contents ∧
      k'.host.directory = k.host.directory := by
  induction later using List.reverseRecOn generalizing k' with
  | nil =>
      rw [List.append_nil] at hlater
      rw [state_of_run hlater, state_of_run hrun]
      exact ⟨rfl, rfl⟩
  | append_singleton later event ih =>
      rw [← List.append_assoc] at hlater
      rcases hlater.last_step with ⟨before, action, hbefore, hfiles, hmove⟩
      have hunchanged := ih hbefore fun earlier event' rest hsplit =>
        hread earlier event' (rest ++ [event]) (by simp [hsplit])
      cases action with
      | call m env call =>
          rcases ok_of_bind hmove with ⟨after, hcall, hresult⟩
          cases hresult
          have hstep := (filesKnown_of_run hnew hbefore).readOnly hcall
            (hread later _ [] rfl)
          exact ⟨hstep.1.trans hunchanged.1, hstep.2.trans hunchanged.2⟩
      | load => exact hfiles.elim

end Runs

/-- The kernel after the constructor, with a program of one page. -/
def freshKernel : Kernel :=
  let machine := (Kernel.onePage .add (.ofFile .null) [] []).machine
  match FileSystem.new emptyHost (some 0) (some 0) with
  | .ok (fileSystem, host) => ⟨machine, fileSystem, host, [], []⟩
  | .error _ => ⟨machine, ⟨fun _ => .null⟩, emptyHost, [], []⟩

theorem freshKernel_new :
    FileSystem.new emptyHost (some 0) (some 0) =
      .ok (freshKernel.fileSystem, freshKernel.host) := by
  rfl

/-- A program whose page starts with `memory` and that has `second` in
register 5. -/
def callerWith (call : SystemCall) (second : BitVec 32)
    (memory : List (BitVec 8)) : Machine :=
  (Kernel.onePage call (.ofFile .null) [] memory).machine.writeRegister 5
    second

/-- The program opens the file `a`, writes three bytes and creates the file again. -/
def recreate : List DescriptorAction :=
  [.call (callerWith .create 0 [97, 0]) Kernel.willing .create,
    .call (callerWith .open 0 [97, 0]) Kernel.willing .open,
    .call (callerWith .write 3 [1, 2, 3]) Kernel.willing .write,
    .call (callerWith .create 0 [97, 0]) Kernel.willing .create]

/-- The file is empty, the identifier is behind its end, and one more byte is
written there. -/
def gapLeft (_ : List DescriptorEvent) (k : Kernel) : Bool :=
  k.positionOf 2 = some 3 ∧ k.host.contents 2 = [] ∧
    ((k.callFrom (callerWith .write 1 [5]) Kernel.willing .write).map
      fun k' => k'.host.contents 2) = .ok [0, 0, 0, 5]

theorem exists_gap :
    ∃ trace k, (descriptorSystem freshKernel).Run onFiles trace k ∧
      gapLeft trace k = true := by
  have hreplays : (descriptorSystem freshKernel).Replays onFiles recreate
      gapLeft = true := by
    decide +kernel
  exact StepSystem.exists_run_of_replays hreplays

end Nachos
