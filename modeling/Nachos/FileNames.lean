import Nachos.ReadCall
import Nachos.SystemCallEffects

/-!
# Which name a call passes to the file system

The calls that take a path copy it with `User2System`, which cuts it without a
word at the limit it is given.  `Create`, `Remove` and `Exec` give one byte
more than `Open`.
-/

namespace Nachos

/-- The limit of the copy of a path. -/
def nameLimit : SystemCall → BitVec 32
  | .open => maxFileLength
  | _ => maxFileLength + 1

/-- The calls that take a path. -/
def pathCalls : List SystemCall :=
  [.create, .open, .remove, .exec]

/-- User memory holds a string that ends with a zero byte. -/
def Machine.HoldsString (m : Machine) (addr : BitVec 32) (s : CString) :
    Prop :=
  0 ∉ s ∧ m.HoldsBytes addr (s ++ [0])

instance (m : Machine) (addr : BitVec 32) (s : CString) :
    Decidable (m.HoldsString addr s) := by
  unfold Machine.HoldsString
  infer_instance

section Strings

variable {s : CString}

theorem cString_append_zeros (hs : 0 ∉ s) (n : ℕ) :
    cString (s ++ List.replicate n 0) = s := by
  induction s with
  | nil => cases n <;> rfl
  | cons byte rest ih =>
      rw [List.mem_cons, not_or] at hs
      rw [List.cons_append, Machine.cString_cons, if_neg (Ne.symm hs.1),
        ih hs.2]

theorem cString_take (hs : 0 ∉ s) (n : ℕ) :
    cString ((s ++ [0]).take n) = s.take n := by
  rcases Nat.lt_or_ge s.length n with hlt | hle
  · rw [List.take_of_length_le (by simpa using hlt),
      List.take_of_length_le hlt.le]
    exact cString_append_zeros hs 1
  · rw [List.take_append_of_le_length hle]
    have hzero : 0 ∉ s.take n := fun h => hs (List.mem_of_mem_take h)
    simpa using cString_append_zeros hzero 0

/-- What `User2System` makes of a string. -/
theorem Machine.HoldsString.user2System
    {m : Machine} {addr limit : BitVec 32} (hs : m.HoldsString addr s)
    (hlimit : 0 ≤ (limit + 1).toInt) :
    ∃ buffer m', m.user2System addr limit = .ok (buffer, m') ∧
      cString buffer = s.take limit.toInt.toNat := by
  rcases Machine.user2System_spec hs.2 (.inr (by simp)) hlimit with
    ⟨m', hcopy, -, -⟩
  refine ⟨_, m', hcopy, ?_⟩
  rw [cString_take hs.1, Machine.kernelBuffer]
  exact cString_append_zeros (fun h => hs.1 (List.mem_of_mem_take h)) _

end Strings

namespace Kernel

/-- The name that a call passes to the file system. -/
def kernelName (k : Kernel) (call : SystemCall) : Except Fault CString := do
  let (filename, _) ← k.user2System (k.register 4) (nameLimit call)
  return cString filename

/-- What `Create` has made is what `Open` opens, and once it is closed
`Remove` deletes it. -/
def CreatedOpens (k : Kernel) (s : CString) : Prop :=
  ∀ env k₁, k.handle env .create = .ok k₁ → k₁.register 2 = 0 →
    ∃ name inode, k.kernelName .create = .ok name ∧
      k₁.host.directory name = some inode ∧
      ∀ env m id k₂, m.HoldsString (m.readRegister 4) s →
        m.readRegister 5 = 0 → k₁.fileSystem.findFreeSlot = some id →
        k₁.callFrom m env .open = .ok k₂ →
        (∃ f, k₂.register 2 = BitVec.ofNat 32 id ∧
          k₂.fileSystem.fileSlot id = .object (.ofFile (.object f)) ∧
          k₂.host.file f.file = some ⟨inode, 0⟩) ∧
        ∀ env m k₃, m.readRegister 4 = BitVec.ofNat 32 id →
          k₂.callFrom m env .close = .ok k₃ →
          ∀ env m k₄, m.HoldsString (m.readRegister 4) s →
            (∀ i < maxFileOpen, k₃.slotName env i ≠ .ok s) →
            k₃.callFrom m env .remove = .ok k₄ →
            k₃.host.directory name = some inode ∧ k₄.register 2 = 0 ∧
              k₄.host.directory name = none

/-- The calls that take a path agree on the name of a file. -/
structure PathsAgree (k : Kernel) (s : CString) : Prop where
  names : ∀ call ∈ pathCalls, k.kernelName call = k.kernelName .create
  opens : k.CreatedOpens s

variable {env : Environment} {k k' : Kernel} {s : CString}

theorem kernelName_eq
    (hs : k.machine.HoldsString (k.register 4) s) (call : SystemCall) :
    k.kernelName call = .ok (s.take (nameLimit call).toInt.toNat) := by
  have hlimit : 0 ≤ (nameLimit call + 1).toInt := by
    cases call <;> decide
  rcases hs.user2System hlimit with ⟨buffer, m', hcopy, hname⟩
  rw [kernelName, user2System_eq hcopy, ← hname]
  rfl

/-- The names agree exactly if they fit into the shorter copy. -/
theorem names_agree_iff (hs : k.machine.HoldsString (k.register 4) s) :
    (∀ call ∈ pathCalls, k.kernelName call = k.kernelName .create) ↔
      s.length ≤ maxFileLength.toNat := by
  have hmax : maxFileLength.toNat = 32 := rfl
  constructor
  · intro hagree
    have hopen := hagree .open (by simp [pathCalls])
    rw [kernelName_eq hs, kernelName_eq hs] at hopen
    have hlength := congrArg List.length (Except.ok.inj hopen)
    simp only [List.length_take, nameLimit] at hlength
    have h32 : maxFileLength.toInt.toNat = 32 := by decide
    have h33 : (maxFileLength + 1).toInt.toNat = 33 := by decide
    rw [h32, h33] at hlength
    omega
  · intro hle call _
    rw [kernelName_eq hs, kernelName_eq hs]
    have hlimit : ∀ call, 32 ≤ (nameLimit call).toInt.toNat := by
      intro call
      cases call <;> decide
    rw [List.take_of_length_le (hle.trans (hlimit call)),
      List.take_of_length_le (hle.trans (hlimit .create))]

/-! ## Create, open, close and remove -/

/-- A copy of the path that succeeds has copied all of a short string. -/
theorem copied_name
    (call : SystemCall) {filename : List (BitVec 8)} {k₁ : Kernel}
    (hs : k.machine.HoldsString (k.register 4) s)
    (hle : s.length ≤ maxFileLength.toNat)
    (hcopy : k.user2System (k.register 4) (nameLimit call) =
      .ok (filename, k₁)) : cString filename = s := by
  have hname := kernelName_eq hs call
  rw [kernelName, hcopy] at hname
  have hlimit : maxFileLength.toNat ≤ (nameLimit call).toInt.toNat := by
    cases call <;> decide
  rw [List.take_of_length_le (hle.trans hlimit)] at hname
  exact Except.ok.inj hname

theorem directory_of_close
    {h h' : Host} {fd : ℕ} (hclose : h.close fd = .ok h') :
    h'.directory = h.directory := by
  unfold Host.close at hclose
  split at hclose
  · cases hclose
    rfl
  · cases hclose

theorem directory_of_create
    {h h' : Host} {name : CString} {answer : HostAnswer} {created : Bool}
    (hcreate : FileSystem.create h name answer = .ok (created, h')) :
    created = true ∧ ∃ inode, h'.directory name = some inode := by
  rcases ok_of_bind hcreate with ⟨⟨fd, opened⟩, hopen, hclose⟩
  rcases ok_of_bind hclose with ⟨closed, hclosed, hresult⟩
  cases hresult
  refine ⟨rfl, ?_⟩
  rw [directory_of_close hclosed]
  unfold Host.openForWrite at hopen
  split at hopen
  next => cases hopen
  next inode hfound =>
    cases hopen
    exact ⟨inode, hfound⟩
  next =>
    cases hopen
    exact ⟨h.inodes, Function.update_self _ _ _⟩

theorem create_made
    (hs : k.machine.HoldsString (k.register 4) s)
    (hle : s.length ≤ maxFileLength.toNat)
    (hcall : k.handle env .create = .ok k') :
    ∃ inode, k'.host.directory s = some inode := by
  rcases ok_of_bind hcall with ⟨⟨filename, k₁⟩, hcopy, hcall⟩
  have hname : cString filename = s := copied_name .create hs hle hcopy
  rcases user2System_ok hcopy with ⟨m, -, -, rfl⟩
  rcases ok_of_bind hcall with ⟨⟨created, host⟩, hcreate, hresult⟩
  cases hresult
  rw [hname] at hcreate
  exact (directory_of_create hcreate).2

theorem openTyped_existing
    {h : Host} {name : CString} {type : ℤ} {inode : ℕ}
    (hfound : h.directory name = some inode) (htype : type ≠ 4) (id : ℕ)
    (answer : HostAnswer) :
    FileSystem.openTyped h name type id answer =
      .ok (.object ⟨type, .object name, h.files.length, 0, id⟩,
        { h with files := h.files ++ [some ⟨inode, 0⟩] }) := by
  simp only [FileSystem.openTyped, if_neg htype, Host.openForReadWrite,
    hfound, Option.map_some, Host.openInode]
  rfl

/-- `Open` of an existing file in mode 0. -/
theorem open_existing
    {inode id : ℕ} (hs : k.machine.HoldsString (k.register 4) s)
    (hle : s.length ≤ maxFileLength.toNat) (hmode : k.register 5 = 0)
    (hfound : k.host.directory s = some inode)
    (hfree : k.fileSystem.findFreeSlot = some id)
    (hcall : k.handle env .open = .ok k') :
    k'.host.directory = k.host.directory ∧
      k'.fileSystem = k.fileSystem.setSlot id (.object (.ofFile (.object
        ⟨0, .dangling, k.host.files.length, 0, id⟩))) ∧
      k'.register 2 = BitVec.ofNat 32 id ∧
      k'.host.file k.host.files.length = some ⟨inode, 0⟩ := by
  rcases ok_of_bind hcall with ⟨⟨filename, k₁⟩, hcopy, hcall⟩
  have hname : cString filename = s := copied_name .open hs hle hcopy
  rcases user2System_ok hcopy with ⟨m, -, -, rfl⟩
  simp only [hfree, hmode, hname] at hcall
  rw [if_pos (.inl rfl)] at hcall
  change (FileSystem.openTyped k.host s 0 id env.answer >>= _) = _ at hcall
  rw [openTyped_existing hfound (by decide)] at hcall
  cases hcall
  refine ⟨rfl, rfl, ?_, ?_⟩
  · rw [register_two_returns, BitVec.ofInt_natCast]
  · simp [Host.file]

/-- `Close` of a file. -/
theorem close_file
    {id : ℕ} {f : OpenFile} (hlow : 2 ≤ id) (hhigh : id < maxFileOpen)
    (hid : k.register 4 = BitVec.ofNat 32 id)
    (hslot : k.fileSystem.fileSlot id = .object (.ofFile (.object f)))
    (hcall : k.handle env .close = .ok k') :
    k'.host.directory = k.host.directory ∧
      k'.fileSystem = k.fileSystem.setSlot id .null := by
  have hmax : maxFileOpen = 20 := rfl
  have hint : (k.register 4).toInt = id := by
    have hmemory : memorySize = 16384 := rfl
    rw [hid, ← BitVec.ofInt_natCast]
    exact Machine.toInt_ofInt_natCast (by omega)
  have hoccupied : 2 ≤ (id : ℤ) ∧ k.occupied id := by
    refine ⟨by omega, by omega, by omega, ?_⟩
    rw [Int.toNat_natCast, hslot]
    rfl
  rw [handle, handleSCClose, hint] at hcall
  simp only [if_pos hoccupied, Int.toNat_natCast, hslot] at hcall
  rcases ok_of_bind hcall with ⟨slot, hderef, hcall⟩
  cases hderef
  rw [if_neg (by simp [FileSlot.ofFile])] at hcall
  rcases ok_of_bind hcall with ⟨host, hdelete, hresult⟩
  cases hresult
  rcases ok_of_bind hdelete with ⟨closed, hclosed, hdelete⟩
  cases hdelete
  exact ⟨directory_of_close hclosed, rfl⟩

theorem nameInUse_found
    {filename : CString} {slots : List ℕ}
    (hfound : k.nameInUse env filename slots = .ok true) :
    ∃ i ∈ slots, k.slotName env i = .ok filename := by
  induction slots with
  | nil => cases hfound
  | cons i slots ih =>
      rw [nameInUse] at hfound
      split at hfound
      · rcases ih hfound with ⟨j, hj, hname⟩
        exact ⟨j, List.mem_cons_of_mem _ hj, hname⟩
      · rcases ok_of_bind hfound with ⟨name, hname, hfound⟩
        split at hfound
        next heq => exact ⟨i, List.mem_cons_self, heq ▸ hname⟩
        next =>
          rcases ih hfound with ⟨j, hj, hname⟩
          exact ⟨j, List.mem_cons_of_mem _ hj, hname⟩

/-- `Remove` of a file that is not open. -/
theorem remove_closed
    {inode : ℕ} (hs : k.machine.HoldsString (k.register 4) s)
    (hle : s.length ≤ maxFileLength.toNat)
    (hfound : k.host.directory s = some inode)
    (hclosed : ∀ i < maxFileOpen, k.slotName env i ≠ .ok s)
    (hcall : k.handle env .remove = .ok k') :
    k'.register 2 = 0 ∧ k'.host.directory s = none := by
  rcases ok_of_bind hcall with ⟨⟨filename, k₁⟩, hcopy, hcall⟩
  have hname : cString filename = s := copied_name .remove hs hle hcopy
  rcases user2System_ok hcopy with ⟨m, -, -, rfl⟩
  rcases ok_of_bind hcall with ⟨inUse, hsearch, hcall⟩
  cases inUse with
  | true =>
      rcases nameInUse_found hsearch with ⟨i, hi, hfile⟩
      rw [hname] at hfile
      exact (hclosed i (List.mem_range.mp hi) hfile).elim
  | false =>
      simp only [hname, FileSystem.remove, Host.unlink, hfound] at hcall
      cases hcall
      exact ⟨rfl, Function.update_self _ _ _⟩

/-- Where the name is short, `Create`, `Open` and `Remove` mean one file. -/
theorem createdOpens_of_le
    (hs : k.machine.HoldsString (k.register 4) s)
    (hle : s.length ≤ maxFileLength.toNat) : k.CreatedOpens s := by
  intro env k₁ hcreate _
  rcases create_made hs hle hcreate with ⟨inode, hinode⟩
  refine ⟨s, inode, ?_, hinode, ?_⟩
  · have hlimit : maxFileLength.toNat ≤
        (nameLimit .create).toInt.toNat := by decide
    rw [kernelName_eq hs, List.take_of_length_le (hle.trans hlimit)]
  · intro env m id k₂ hs₂ hmode hfree hopen
    rcases FileSystem.findFreeSlot_spec hfree with ⟨hlow, hhigh, -⟩
    rcases open_existing (k := { k₁ with machine := m }) hs₂ hle hmode hinode
      hfree hopen with ⟨hdirectory, htable, hresult, hposition⟩
    have hslot : k₂.fileSystem.fileSlot id = .object (.ofFile (.object
        ⟨0, .dangling, k₁.host.files.length, 0, id⟩)) := by
      rw [htable]
      exact Function.update_self _ _ _
    refine ⟨⟨_, hresult, hslot, hposition⟩, ?_⟩
    intro env m₃ k₃ hid hclose
    rcases close_file (k := { k₂ with machine := m₃ }) hlow hhigh hid hslot
      hclose with ⟨hdirectory', htable'⟩
    have hinode' : k₃.host.directory s = some inode := by
      rw [hdirectory']
      change k₂.host.directory s = _
      rw [hdirectory]
      exact hinode
    intro env m₄ k₄ hs₄ hclosed hremove
    rcases remove_closed (k := { k₃ with machine := m₄ }) hs₄ hle hinode'
      hclosed hremove with ⟨hresult', hdeleted⟩
    exact ⟨hinode', hresult', hdeleted⟩

end Kernel

end Nachos
