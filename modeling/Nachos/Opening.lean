import Nachos.Closing
import Nachos.OpenFiles

/-!
# What a failed open leaves behind

`handle_SC_Open` puts a slot into the table before it knows whether the host
has opened the file, and takes every other mode for the console.
`FileSystem::Open(name)` opens the file before it looks for a slot.
-/

namespace Nachos

/-- The descriptors of the host that are open. -/
def Host.openDescriptors (h : Host) : Set ℕ :=
  {fd | h.file fd ≠ none}

/-! ## What is to be shown -/

/-- The modes of `Open`. -/
def openModes : List ℤ :=
  [0, 1, 2, 3, 4]

namespace Kernel

/-- The host does not open the file. -/
def CannotOpen (env : Environment) (k : Kernel) (name : CString) : Prop :=
  if (k.register 5).toInt = 4 then env.answer = none
  else k.host.openForReadWrite name = none

/-- `Open` has to fail. -/
def OpenFails (env : Environment) (k : Kernel) (name : CString) : Prop :=
  (k.register 5).toInt ∈ [0, 1, 4] ∧ k.CannotOpen env name ∨
    k.fileSystem.findFreeSlot = none ∨ (k.register 5).toInt ∉ openModes

/-- `Open` returns -1 and has no effect. -/
def OpenRefused (env : Environment) (k : Kernel) : Prop :=
  ∃ k', k.handle env .open = .ok k' ∧ k'.register 2 = -1 ∧
    k'.fileSystem = k.fileSystem ∧
      k'.host.openDescriptors = k.host.openDescriptors

end Kernel

/-- `FileSystem::Open(name)` returns `NULL` and has no effect. -/
def FileSystem.NamedRefused (fs : FileSystem) (h : Host) (name : CString)
    (garbageType : ℤ) : Prop :=
  ∃ h', fs.openNamed h name garbageType = (none, fs, h') ∧
    h'.openDescriptors = h.openDescriptors

/-! ## `Open` -/

namespace Kernel

variable {env : Environment} {k : Kernel} {filename : List (BitVec 8)}
variable {m : Machine}

section Open

variable (hname : k.machine.user2System (k.register 4) maxFileLength =
  .ok (filename, m))

include hname

theorem openRefused_of_full (hfull : k.fileSystem.findFreeSlot = none) :
    k.OpenRefused env := by
  refine ⟨{ k with machine := m }.returns (-1), ?_, rfl, rfl, rfl⟩
  rw [handle, handleSCOpen, user2System_eq hname]
  simp only [ok_bind, hfull]
  rfl

/-- With a free slot the result is an identifier. -/
theorem not_openRefused_of_free
    {id : ℕ} (hfree : k.fileSystem.findFreeSlot = some id) :
    ¬k.OpenRefused env := by
  obtain ⟨-, hhigh, -⟩ := FileSystem.findFreeSlot_spec hfree
  rintro ⟨k', hcall, hresult, -, -⟩
  rw [handle, handleSCOpen, user2System_eq hname] at hcall
  simp only [ok_bind, hfree] at hcall
  split at hcall
  next =>
    obtain ⟨⟨f, host⟩, -, hcall⟩ := ok_of_bind hcall
    cases hcall
    rw [register_two_returns, BitVec.ofInt_natCast] at hresult
    exact ofNat_ne_neg_one hhigh hresult
  next =>
    split at hcall
    next =>
      cases hcall
      rw [register_two_returns] at hresult
      exact absurd hresult (by decide)
    next =>
      cases hcall
      rw [register_two_returns] at hresult
      exact absurd hresult (by decide)

end Open

end Kernel

/-! ## `FileSystem::Open(name)` -/

theorem FileSystem.namedRefused_of_missing
    {fs : FileSystem} {h : Host} {name : CString}
    (hmissing : h.openForReadWrite name = none) (garbageType : ℤ) :
    fs.NamedRefused h name garbageType := by
  refine ⟨h, ?_, rfl⟩
  rw [openNamed, hmissing]

theorem Host.openDescriptors_openForReadWrite
    {h h' : Host} {name : CString} {fd : ℕ}
    (hopen : h.openForReadWrite name = some (fd, h')) :
    fd ∉ h.openDescriptors ∧ fd ∈ h'.openDescriptors := by
  obtain ⟨inode, -, hinode⟩ := Option.map_eq_some_iff.mp hopen
  cases hinode
  constructor
  · intro hold
    exact lt_irrefl _ (file_lt hold)
  · simp [openDescriptors, file]

/-- The descriptor of a file without a slot stays open. -/
theorem FileSystem.not_namedRefused_of_found
    {fs : FileSystem} {h : Host} {name : CString}
    (hfound : h.openForReadWrite name ≠ none) (garbageType : ℤ) :
    ¬fs.NamedRefused h name garbageType := by
  rintro ⟨h', hnamed, hsame⟩
  obtain ⟨⟨fd, opened⟩, hopen⟩ := Option.ne_none_iff_exists'.mp hfound
  obtain ⟨hold, hnew⟩ := Host.openDescriptors_openForReadWrite hopen
  rw [openNamed, hopen] at hnamed
  simp only at hnamed
  split at hnamed
  next =>
    cases hnamed
    rw [hsame] at hnew
    exact hold hnew
  next => cases hnamed

/-- An open that has to fail has no effect exactly when the system call finds
no free slot, and `FileSystem::Open(name)` no file. -/
theorem failed_open_iff
    (env : Environment) (k : Kernel) (name : CString) (garbageType : ℤ) :
    (∀ filename m, k.machine.user2System (k.register 4) maxFileLength =
        .ok (filename, m) → k.OpenFails env (cString filename) →
      (k.OpenRefused env ↔ k.fileSystem.findFreeSlot = none)) ∧
    (k.host.openForReadWrite name = none ∨ k.fileSystem.findFreeSlot = none →
      (k.fileSystem.NamedRefused k.host name garbageType ↔
        k.host.openForReadWrite name = none)) := by
  constructor
  · intro filename m hname _
    constructor
    · intro hrefused
      cases hfree : k.fileSystem.findFreeSlot with
      | none => rfl
      | some id =>
          exact (Kernel.not_openRefused_of_free hname hfree hrefused).elim
    · exact Kernel.openRefused_of_full hname
  · intro _
    constructor
    · intro hrefused
      by_contra hfound
      exact FileSystem.not_namedRefused_of_found hfound garbageType hrefused
    · intro hmissing
      exact FileSystem.namedRefused_of_missing hmissing garbageType

/-! ## A file that does not exist -/

/-- The program passes the name `b` to `Open`, with the mode 0. -/
def openingMissing : Kernel :=
  let k := Kernel.onePage .open (Kernel.fileSlotOf 0) [] [98, 0]
  { k with machine := k.machine.writeRegister 5 0 }

/-- All slots are taken. -/
def openingFull : Kernel :=
  { openingMissing with fileSystem := ⟨fun _ => .object (Kernel.fileSlotOf 0)⟩ }

theorem openingMissing_name :
    ∃ filename m, openingMissing.machine.user2System
        (openingMissing.register 4) maxFileLength = .ok (filename, m) ∧
      cString filename = [98] := by
  have hname : openingMissing.machine.HoldsString
      (openingMissing.register 4) [98] := by decide
  have hlimit : 0 ≤ (maxFileLength + 1).toInt := by decide
  obtain ⟨buffer, m, hcopy, hstring⟩ := hname.user2System hlimit
  exact ⟨buffer, m, hcopy, hstring⟩

theorem failed_open_iff_full :
    openingFull.OpenRefused Kernel.willing ∧
      openingFull.fileSystem.NamedRefused openingFull.host [98] 0 := by
  obtain ⟨filename, m, hcopy, -⟩ := openingMissing_name
  have hiff := failed_open_iff Kernel.willing openingFull [98] 0
  constructor
  · exact (hiff.1 filename m hcopy (.inr (.inl rfl))).mpr rfl
  · exact (hiff.2 (.inl rfl)).mpr rfl

/-- The slot of a file that does not exist is taken, and `Open` returns it. -/
theorem missing_file_opened :
    ∃ filename m, openingMissing.machine.user2System
        (openingMissing.register 4) maxFileLength = .ok (filename, m) ∧
      openingMissing.OpenFails Kernel.willing (cString filename) ∧
        ¬openingMissing.OpenRefused Kernel.willing := by
  obtain ⟨filename, m, hcopy, hname⟩ := openingMissing_name
  refine ⟨filename, m, hcopy, ?_, ?_⟩
  · rw [hname]
    exact .inl ⟨by decide, rfl⟩
  · have hfree : openingMissing.fileSystem.findFreeSlot = some 3 := rfl
    exact Kernel.not_openRefused_of_free hcopy hfree

end Nachos
