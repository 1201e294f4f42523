import Nachos.DescriptorTable
import Nachos.ReadCall

/-!
# The position of a file after a failed `Seek`

`handle_SC_Seek` compares the position with `Length()`, which moves the
descriptor of the host to the end of the file.  The next `Read` or `Write`
takes its position from the descriptor.
-/

namespace Nachos

namespace Kernel

/-- All but the descriptor table. -/
def visible (k : Kernel) :
    Machine × Host × List (BitVec 8) × List (BitVec 8) :=
  (k.machine, k.host, k.consoleIn, k.consoleOut)

/-- The next call on the file starts where it would have started, and does
what it would have done. -/
structure PositionKept (k k' : Kernel) (id : ℕ) (f : OpenFile) : Prop where
  starts : k'.host.tell f.file = k.host.tell f.file
  asBefore : ∀ (m : Machine) env call, call = .read ∨ call = .write →
    (m.readRegister 6).toInt = id →
      (k'.callFrom m env call).map visible =
        (k.callFrom m env call).map visible

/-! ## `currentOffset` is taken from the host -/

section CurrentOffset

variable {k : Kernel} {id : ℕ} {f : OpenFile}
variable (hslot : k.fileSystem.fileSlot id = .object (.ofFile (.object f)))
variable (hid : (k.register 6).toInt = id)
variable (env : Environment) (offset : ℤ)

/-- The kernel with another `currentOffset` in an open file. -/
def withOffset (k : Kernel) (id : ℕ) (f : OpenFile) (offset : ℤ) : Kernel :=
  k.setFile id (.ofFile (.object f)) { f with currentOffset := offset }

theorem withOffset_slot (k : Kernel) (id : ℕ) (f : OpenFile) (offset : ℤ) :
    (k.withOffset id f offset).fileSystem.fileSlot id =
      .object (.ofFile (.object { f with currentOffset := offset })) :=
  FileSystem.fileSlot_setSlot_self _ _

/-- `GetCurrentPos()` writes over it. -/
theorem withOffset_setFile
    (k : Kernel) (id : ℕ) (f : OpenFile) (offset : ℤ) (g : OpenFile) :
    (k.withOffset id f offset).setFile id (.ofFile (.object f)) g =
      k.setFile id (.ofFile (.object f)) g := by
  simp only [withOffset, setFile, FileSystem.setSlot_setSlot]

include hslot

theorem withOffset_self : k.withOffset id f f.currentOffset = k := by
  have hsame := FileSystem.setSlot_self hslot
  rw [withOffset, setFile]
  simp only [FileSlot.ofFile] at hsame ⊢
  rw [hsame]

include hid

theorem occupied_withOffset :
    (k.withOffset id f offset).occupied (k.register 6).toInt ↔
      k.occupied (k.register 6).toInt := by
  rw [hid, occupied, occupied, Int.toNat_natCast, withOffset_slot, hslot]
  rfl

theorem read_withOffset :
    ((k.withOffset id f offset).handleSCRead env).map visible =
      (k.handleSCRead env).map visible := by
  have hregister : ∀ num,
      (k.withOffset id f offset).register num = k.register num :=
    fun _ => rfl
  have hset := withOffset_setFile k id f offset (f.getCurrentPos k.host).2
  rw [handleSCRead, handleSCRead]
  simp only [hregister]
  by_cases hoccupied : k.occupied (k.register 6).toInt
  · rw [if_pos ((occupied_withOffset hslot hid offset).mpr hoccupied),
      if_pos hoccupied, hid, Int.toNat_natCast, withOffset_slot, hslot]
    simp only [Pointer.deref_object, ok_bind, FileSlot.ofFile,
      if_neg Nat.zero_ne_one] at hset ⊢
    split
    next => rfl
    next =>
      rw [← hset]
      rfl
  · rw [if_neg ((occupied_withOffset hslot hid offset).not.mpr hoccupied),
      if_neg hoccupied]
    rfl

theorem write_withOffset :
    ((k.withOffset id f offset).handleSCWrite env).map visible =
      (k.handleSCWrite env).map visible := by
  have hregister : ∀ num,
      (k.withOffset id f offset).register num = k.register num :=
    fun _ => rfl
  have hset := withOffset_setFile k id f offset (f.getCurrentPos k.host).2
  rw [handleSCWrite, handleSCWrite]
  simp only [hregister]
  by_cases hoccupied : k.occupied (k.register 6).toInt
  · rw [if_pos ((occupied_withOffset hslot hid offset).mpr hoccupied),
      if_pos hoccupied, hid, Int.toNat_natCast, withOffset_slot, hslot]
    simp only [Pointer.deref_object, ok_bind, FileSlot.ofFile,
      if_neg Nat.zero_ne_one] at hset ⊢
    split
    next => rfl
    next =>
      rw [← hset]
      rfl
  · rw [if_neg ((occupied_withOffset hslot hid offset).not.mpr hoccupied),
      if_neg hoccupied]
    rfl

end CurrentOffset

/-! ## `Seek` -/

section Seek

variable {env : Environment} {k k' : Kernel} {id : ℕ} {f : OpenFile}
variable {position : HostFile}

/-- The host with the descriptor of a file at its end. -/
def atEnd (h : Host) (fd : ℕ) (position : HostFile) : Host :=
  h.setFile fd
    (some { position with offset := (h.contents position.inode).length })

theorem length_eq (hfile : k.host.file f.file = some position) :
    f.length k.host = .ok ((k.host.contents position.inode).length,
      atEnd k.host f.file position) := by
  have hmoved := Host.file_setFile_self hfile
    (some { position with offset := (k.host.contents position.inode).length })
  simp only [OpenFile.length, Host.lseekEnd, hfile, ok_bind,
    Host.tell_eq hmoved]
  rfl

/-- A second `Length()` finds the same. -/
theorem length_atEnd (hfile : k.host.file f.file = some position) :
    f.length (atEnd k.host f.file position) =
      .ok ((k.host.contents position.inode).length,
        atEnd k.host f.file position) := by
  have hmoved := Host.file_setFile_self hfile
    (some { position with offset := (k.host.contents position.inode).length })
  have hlength := length_eq
    (k := { k with host := atEnd k.host f.file position }) hmoved
  refine hlength.trans ?_
  simp only [atEnd, Host.setFile_setFile]
  rfl

/-- A `Seek` to the end of a file, from the end. -/
theorem seek_atEnd (hfile : k.host.file f.file = some position) :
    f.seek (atEnd k.host f.file position)
        (k.host.contents position.inode).length =
      .ok ({ f with currentOffset := (k.host.contents position.inode).length },
        atEnd k.host f.file position) := by
  have hmoved := Host.file_setFile_self hfile
    (some { position with offset := (k.host.contents position.inode).length })
  have hsame := Host.lseek_self hmoved
  rw [OpenFile.seek, atEnd, hsame]
  simp only [ok_bind, Host.tell_eq hmoved]
  rfl

/-- The console is refused before anything has moved. -/
theorem seek_console (hid : (k.register 5).toInt = id) (hlow : id < 2) :
    k.handle env .seek = .ok (k.returns (-1)) := by
  rw [handle, handleSCSeek]
  simp only
  rw [hid, if_neg]
  · rfl
  · rintro ⟨-, hne0, hne1⟩
    omega

variable (hslot : k.fileSystem.fileSlot id = .object (.ofFile (.object f)))
variable (hhigh : id < maxFileOpen) (hid : (k.register 5).toInt = id)

include hslot hhigh hid

/-- After a `Seek` with the result -1 the descriptor is at the end of the
file. -/
theorem atEnd_of_failed
    (hlow : 2 ≤ id) (hfile : k.host.file f.file = some position)
    (hcall : k.handle env .seek = .ok k') (hresult : k'.register 2 = -1) :
    ∃ (m : Machine) (offset : ℤ), k' = { k.withOffset id f offset with
      machine := m
      host := atEnd k.host f.file position } := by
  have hoccupied : k.occupied id ∧ (id : ℤ) ≠ 0 ∧ (id : ℤ) ≠ 1 := by
    refine ⟨⟨by omega, by omega, ?_⟩, by omega, by omega⟩
    rw [Int.toNat_natCast, hslot]
    rfl
  rw [handle, handleSCSeek] at hcall
  simp only at hcall
  rw [hid, if_pos hoccupied, Int.toNat_natCast, hslot] at hcall
  have hopen : (FileSlot.ofFile (.object f)).fileOpen.deref = .ok f := rfl
  simp only [Pointer.deref_object, ok_bind, hopen] at hcall
  by_cases hminus : (k.register 4).toInt = -1
  · -- the position is that of the end, and the search goes there
    have hinside : ¬((k.host.contents position.inode).length >
        ((k.host.contents position.inode).length : ℤ) ∨
          ((k.host.contents position.inode).length : ℤ) < 0) := by omega
    simp only [if_pos hminus, length_eq hfile, length_atEnd hfile, ok_bind,
      if_neg hinside, seek_atEnd hfile] at hcall
    cases hcall
    exact ⟨_, (k.host.contents position.inode).length, rfl⟩
  · simp only [if_neg hminus, length_eq hfile, ok_bind, pure_bind] at hcall
    split at hcall
    next =>
      cases hcall
      refine ⟨k.machine.writeRegister 2 (BitVec.ofInt 32 (-1)) |>.pcIncrease,
        f.currentOffset, ?_⟩
      rw [withOffset_self hslot]
      rfl
    next =>
      -- the position is the result
      obtain ⟨⟨g, host⟩, -, hcall⟩ := ok_of_bind hcall
      cases hcall
      rw [register_two_returns, BitVec.ofInt_toInt] at hresult
      rw [hresult] at hminus
      exact absurd rfl hminus

/-- A `Seek` that has failed leaves the position alone exactly when it was
that of the console, or the file was at its end. -/
theorem failed_seek_keeps_iff
    (hfile : k.host.file f.file = some position)
    (hcall : k.handle env .seek = .ok k') (hresult : k'.register 2 = -1) :
    k.PositionKept k' id f ↔
      id < 2 ∨ position.offset = (k.host.contents position.inode).length := by
  by_cases hlow : id < 2
  · rw [seek_console hid hlow] at hcall
    cases hcall
    exact iff_of_true ⟨rfl, fun _ _ _ _ _ => rfl⟩ (.inl hlow)
  · obtain ⟨m, offset, rfl⟩ := atEnd_of_failed hslot hhigh hid
      (not_lt.mp hlow) hfile hcall hresult
    have hmoved := Host.file_setFile_self hfile
      (some { position with
        offset := (k.host.contents position.inode).length })
    constructor
    · intro hkept
      have hstarts := hkept.starts
      rw [Host.tell_eq hfile] at hstarts
      have htell : (atEnd k.host f.file position).tell f.file =
          (k.host.contents position.inode).length := Host.tell_eq hmoved
      exact .inr (Int.natCast_inj.mp (hstarts.symm.trans htell))
    · rintro (hconsole | hend)
      · exact (hlow hconsole).elim
      · have hhost : atEnd k.host f.file position = k.host := by
          rw [atEnd, ← hend]
          exact Host.setFile_self hfile
        constructor
        case starts => exact congrArg (·.tell f.file) hhost
        case asBefore =>
          intro m env call hcall hdescriptor
          have hbefore : ({ k with machine := m } : Kernel).fileSystem.fileSlot
              id = .object (.ofFile (.object f)) := hslot
          simp only [callFrom, hhost]
          obtain rfl | rfl := hcall
          · exact read_withOffset hbefore hdescriptor env offset
          · exact write_withOffset hbefore hdescriptor env offset

end Seek

/-! ## A `Seek` behind the end -/

/-- The program passes the position 9 and the descriptor 2 to `Seek`. -/
def seekingBehind (contents : List (BitVec 8)) : Kernel :=
  let k := onePage .seek (fileSlotOf 0) contents []
  { k with machine := (k.machine.writeRegister 4 9).writeRegister 5 2 }

/-- An empty file is at its end. -/
theorem failed_seek_keeps_iff_empty :
    ∃ k', (seekingBehind []).handle willing .seek = .ok k' ∧
      k'.register 2 = -1 ∧
        (seekingBehind []).PositionKept k' 2 ⟨0, .dangling, 0, 0, 2⟩ := by
  have hcall : ∃ k', (seekingBehind []).handle willing .seek = .ok k' ∧
      k'.register 2 = -1 := ⟨_, rfl, rfl⟩
  obtain ⟨k', hcall, hresult⟩ := hcall
  have hfile : (seekingBehind []).host.file 0 = some ⟨0, 0⟩ := rfl
  have hkept := failed_seek_keeps_iff rfl (by decide) rfl hfile hcall hresult
  exact ⟨k', hcall, hresult, hkept.mpr (.inr rfl)⟩

/-- The next call starts at the end of the file, not at 0. -/
theorem failed_seek_moves :
    ∃ k', (seekingBehind [1, 2, 3]).handle willing .seek = .ok k' ∧
      k'.register 2 = -1 ∧ k'.host.tell 0 = 3 ∧
        ¬(seekingBehind [1, 2, 3]).PositionKept k' 2
          ⟨0, .dangling, 0, 0, 2⟩ := by
  have hcall : ∃ k', (seekingBehind [1, 2, 3]).handle willing .seek = .ok k' ∧
      k'.register 2 = -1 ∧ k'.host.tell 0 = 3 := ⟨_, rfl, rfl, rfl⟩
  obtain ⟨k', hcall, hresult, htell⟩ := hcall
  refine ⟨k', hcall, hresult, htell, ?_⟩
  intro hkept
  exact absurd (htell.symm.trans hkept.starts) (by decide)

end Kernel

end Nachos
