import Nachos.Opening
import Nachos.LoaderBounds

/-!
# The descriptor table after `Exec`

`handle_SC_Exec` asks whether the executable exists by opening it, and deletes
the `OpenFile` it has got.  The slot that `FileSystem::Open(name)` has taken
keeps the pointer; no later call frees it.  The child's `Load` takes a slot of
its own and gives it back.
-/

namespace Nachos

namespace Kernel

/-- A slot that points to an `OpenFile` that was deleted. -/
def deletedSlot : FileSlot :=
  .ofFile .dangling

/-- The slots hold what they held, and the host has the same descriptors
open. -/
structure KeepsDescriptors (k k' : Kernel) : Prop where
  slots : ∀ id < maxFileOpen, k'.fileSystem.fileSlot id = k.fileSystem.fileSlot id
  opened : k'.host.openDescriptors = k.host.openDescriptors

variable {env : Environment} {k k' : Kernel} {call : SystemCall} {id : ℕ}

/-! ## A slot with a deleted file -/

theorem closeTCP_deleted
    (hlow : 2 ≤ id) (hhigh : id < maxFileOpen)
    (hslot : k.fileSystem.fileSlot id = .object deletedSlot) :
    k.fileSystem.closeTCP k.host id = .error .nullDereference := by
  have hnonnull : ¬(k.fileSystem.fileSlot (id : ℤ).toNat).isNull = true := by
    rw [Int.toNat_natCast, hslot]
    simp [Pointer.isNull]
  have hsocket : k.fileSystem.socketAt id = .error .nullDereference := by
    rw [FileSystem.socketAt, Int.toNat_natCast, hslot]
    rfl
  rw [FileSystem.closeTCP, if_neg (not_outside hlow hhigh), if_neg hnonnull,
    hsocket]
  rfl

/-- The calls that close a descriptor fault at a deleted file, and the others
look at it or pass it by. -/
theorem deleted_of_handle
    (hlow : 2 ≤ id) (hhigh : id < maxFileOpen)
    (hslot : k.fileSystem.fileSlot id = .object deletedSlot)
    (hcall : k.handle env call = .ok k') :
    k'.fileSystem.fileSlot id = .object deletedSlot := by
  have hother : ∀ {i : ℕ} (slot : Pointer FileSlot), i ≠ id →
      (k.fileSystem.setSlot i slot).fileSlot id = .object deletedSlot := by
    intro i slot hne
    rw [FileSystem.fileSlot_setSlot_of_ne (Ne.symm hne), hslot]
  have hfree : ∀ {i : ℕ}, k.fileSystem.findFreeSlot = some i → i ≠ id := by
    rintro i hfree rfl
    obtain ⟨-, -, hnull⟩ := FileSystem.findFreeSlot_spec hfree
    cases hslot.symm.trans hnull
  have hlive : ∀ {i : ℕ} {slot : FileSlot} {f : OpenFile},
      k.fileSystem.fileSlot i = .object slot → slot.fileOpen = .object f →
        i ≠ id := by
    rintro i slot f hi hf rfl
    cases hslot.symm.trans hi
    cases hf
  obtain ⟨fs, h, result, hreturned, heffect⟩ := ends_of_handle hcall
  rw [hreturned.fileSystem]
  cases heffect with
  | opened _ htaken => exact hother _ (hfree htaken)
  | socketOpened htaken => exact hother _ (hfree htaken)
  | executed htaken => exact hother _ (hfree htaken)
  | moved _ hi hf => exact hother _ (hlive hi hf)
  | written _ hi hf => exact hother _ (hlive hi hf)
  | closed _ _ hi _ hdelete =>
      apply hother
      intro hid
      rw [hid, hslot] at hi
      cases hi
      cases hdelete
  | socketClosed hclose hnonneg _ hi =>
      apply hother
      intro hid
      rw [hid, hslot] at hi
      cases hi
      obtain ⟨rfl, htype⟩ | rfl := hclose
      · cases htype
      · have hargument : (k.register 4).toInt = id := by omega
        rw [handle, handleSCSocketTCPClose, hargument,
          closeTCP_deleted hlow hhigh hslot] at hcall
        cases hcall
  | _ => exact hslot

theorem deleted_of_run
    {trace : List DescriptorEvent} {later : Kernel}
    (hlow : 2 ≤ id) (hhigh : id < maxFileOpen)
    (hslot : k.fileSystem.fileSlot id = .object deletedSlot)
    (hrun : (descriptorSystem k).Reaches trace later) :
    later.fileSystem.fileSlot id = .object deletedSlot := by
  refine hrun.invariant
    (fun _ k => k.fileSystem.fileSlot id = .object deletedSlot) hslot ?_
  intro trace s s' action event _ hbefore _ hmove
  cases action with
  | call m env call =>
      obtain ⟨k', hcall, hresult⟩ := ok_of_bind hmove
      cases hresult
      exact deleted_of_handle (k := { s with machine := m }) hlow hhigh
        hbefore hcall
  | load m space garbage fileName argc argv =>
      obtain ⟨⟨loaded, space', k'⟩, hload, hresult⟩ := ok_of_bind hmove
      cases hresult
      rw [AddrSpace.load_fileSystem hload]
      exact hbefore

/-! ## `Exec` -/

theorem deleted_of_exec
    (hcall : k.handle env .exec = .ok k') (hresult : k'.register 2 ≠ -1) :
    ∃ id, k.fileSystem.findFreeSlot = some id ∧
      k'.fileSystem.fileSlot id = .object deletedSlot := by
  obtain ⟨fs, h, result, hreturned, heffect⟩ := ends_of_handle hcall
  cases heffect with
  | refused => exact (hresult hreturned.register_two).elim
  | notExecuted => exact (hresult hreturned.register_two).elim
  | executed htaken =>
      refine ⟨_, htaken, ?_⟩
      rw [hreturned.fileSystem]
      exact FileSystem.fileSlot_setSlot_self _ _
  | answered hkeeps => exact absurd hkeeps (by decide)
  | socketClosed hclose => simp at hclose
  | moved hmoves => simp at hmoves

/-- An `Exec` that succeeds never leaves the table as it was: the slot that
was free points to a deleted file when the child has been loaded, whatever
runs in between. -/
theorem exec_loses_slot
    {k₁ k₂ : Kernel} {trace : List DescriptorEvent} {m : Machine}
    {space space' : AddrSpace} {garbage : LoadGarbage} {fileName : CString}
    {argc : ℤ} {argv : List CString} {loaded : Bool}
    (hcall : k.handle env .exec = .ok k₁) (hresult : k₁.register 2 ≠ -1)
    (hrun : (descriptorSystem k₁).Reaches trace k₂)
    (hload : space.load { k₂ with machine := m } garbage fileName argc argv =
      .ok (loaded, space', k')) :
    ¬k.KeepsDescriptors k' ∧
      ∃ id, k.fileSystem.findFreeSlot = some id ∧
        k'.fileSystem.fileSlot id = .object deletedSlot := by
  obtain ⟨id, hfree, hslot⟩ := deleted_of_exec hcall hresult
  obtain ⟨hlow, hhigh, hnull⟩ := FileSystem.findFreeSlot_spec hfree
  have hbefore := deleted_of_run hlow hhigh hslot hrun
  have hafter : k'.fileSystem.fileSlot id = .object deletedSlot := by
    rw [AddrSpace.load_fileSystem hload]
    exact hbefore
  refine ⟨?_, id, hfree, hafter⟩
  intro hkeeps
  have hsame := hkeeps.slots id hhigh
  rw [hafter, hnull] at hsame
  cases hsame

/-! ## A program without segments -/

/-- The program executes the file `a`, which it has open, too. -/
def executing : Kernel :=
  onePage .exec (fileSlotOf 0)
    ([0xad, 0xdf, 0xba, 0] ++ List.replicate 48 (0 : BitVec 8)) [97, 0]

/-- `Exec`, and the loading of the child. -/
def executed : Except Fault (Kernel × Bool × AddrSpace × Kernel) := do
  let k₁ ← executing.handle willing .exec
  let result ← (AddrSpace.new ⟨0, 0, 0, 0, 0⟩).load k₁ ⟨0, []⟩ [97] 0 []
  return (k₁, result)

theorem executed_ok :
    ∃ k₁ loaded space k₂, executing.handle willing .exec = .ok k₁ ∧
      k₁.register 2 ≠ -1 ∧
        (AddrSpace.new ⟨0, 0, 0, 0, 0⟩).load k₁ ⟨0, []⟩ [97] 0 [] =
          .ok (loaded, space, k₂) := by
  have hexecuted : (executed.map fun result =>
      decide (result.1.register 2 = 1)).toOption = some true := by
    decide +kernel
  cases hresult : executed with
  | error fault =>
      rw [hresult] at hexecuted
      cases hexecuted
  | ok result =>
      rw [hresult] at hexecuted
      have hone : result.1.register 2 = 1 :=
        of_decide_eq_true (Option.some.inj hexecuted)
      obtain ⟨k₁, hcall, hexec⟩ := ok_of_bind hresult
      obtain ⟨⟨loaded, space, k₂⟩, hload, hpair⟩ := ok_of_bind hexec
      cases hpair
      refine ⟨k₁, loaded, space, k₂, hcall, ?_, hload⟩
      rw [hone]
      decide

theorem exec_loses_slot_executing :
    ∃ k₂, ¬executing.KeepsDescriptors k₂ ∧
      k₂.fileSystem.fileSlot 3 = .object deletedSlot := by
  obtain ⟨k₁, loaded, space, k₂, hcall, hsuccess, hload⟩ := executed_ok
  obtain ⟨hlost, id, hfree, hslot⟩ :=
    exec_loses_slot hcall hsuccess .start hload
  have hid : executing.fileSystem.findFreeSlot = some 3 := rfl
  obtain rfl : 3 = id := Option.some.inj (hid.symm.trans hfree)
  exact ⟨k₂, hlost, hslot⟩

/-- The slot 3 does not get free again. -/
theorem exec_not_transparent :
    ∃ k₁ loaded space k₂, executing.handle willing .exec = .ok k₁ ∧
      k₁.register 2 ≠ -1 ∧
      (AddrSpace.new ⟨0, 0, 0, 0, 0⟩).load k₁ ⟨0, []⟩ [97] 0 [] =
        .ok (loaded, space, k₂) ∧
      ¬executing.KeepsDescriptors k₂ := by
  obtain ⟨k₁, loaded, space, k₂, hcall, hsuccess, hload⟩ := executed_ok
  refine ⟨k₁, loaded, space, k₂, hcall, hsuccess, hload, ?_⟩
  intro hkeeps
  obtain ⟨id, hfree, hslot⟩ := deleted_of_exec hcall hsuccess
  obtain ⟨-, hhigh, hnull⟩ := FileSystem.findFreeSlot_spec hfree
  have hsame := hkeeps.slots id hhigh
  rw [AddrSpace.load_fileSystem hload, hnull, hslot] at hsame
  cases hsame

end Kernel

end Nachos
