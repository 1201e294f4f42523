import Nachos.ReadCall
import Nachos.SystemCallEffects

/-!
# Files and sockets in one descriptor table

A slot holds a file or a socket, and the other pointer of it is `NULL`.
`Close`, `Read` and `Write` look at the type of the slot first; `Seek`, the
calls on sockets and the search of `Remove` follow the pointer of their own
kind without looking.
-/

namespace Nachos

/-- The computation does not dereference `NULL`. -/
def DerefsNoNull {α : Type} (x : Except Fault α) : Prop :=
  x ≠ .error .nullDereference

section Computations

variable {α β : Type}

theorem derefsNoNull_ok (value : α) : DerefsNoNull (.ok value) := by
  intro h
  cases h

theorem derefsNoNull_pure (value : α) :
    DerefsNoNull (pure value : Except Fault α) :=
  derefsNoNull_ok value

theorem derefsNoNull_error {fault : Fault} (hne : fault ≠ .nullDereference) :
    DerefsNoNull (.error fault : Except Fault α) := by
  intro h
  cases h
  exact hne rfl

theorem derefsNoNull_bind
    {first : Except Fault α} {next : α → Except Fault β}
    (hfirst : DerefsNoNull first)
    (hnext : ∀ value, first = .ok value → DerefsNoNull (next value)) :
    DerefsNoNull (first >>= next) := by
  cases first with
  | error fault =>
      intro h
      cases h
      exact hfirst rfl
  | ok value => exact hnext value rfl

theorem derefsNoNull_assert (condition : Prop) [Decidable condition] :
    DerefsNoNull (assert condition) := by
  unfold assert
  split
  · exact derefsNoNull_ok _
  · exact derefsNoNull_error (by simp)

end Computations

namespace Machine

variable (m : Machine) (addr : BitVec 32)

theorem derefsNoNull_translate (size : ℕ) (writing : Bool) :
    DerefsNoNull (m.translate addr size writing) := by
  unfold translate
  simp only
  split
  next => exact derefsNoNull_pure _
  next =>
    split
    next => exact derefsNoNull_error (by simp)
    next table =>
      split
      next => exact derefsNoNull_pure _
      next =>
        split
        next => exact derefsNoNull_error (by simp)
        next entry =>
          split_ifs
          · exact derefsNoNull_pure _
          · exact derefsNoNull_pure _
          · exact derefsNoNull_bind (derefsNoNull_assert _)
              fun _ _ => derefsNoNull_pure _
          · exact derefsNoNull_pure _

theorem derefsNoNull_readMem_byte : DerefsNoNull (m.readMem addr 1) := by
  apply derefsNoNull_bind (derefsNoNull_translate m addr 1 false)
  intro result _
  cases result with
  | error => exact derefsNoNull_error (by simp)
  | ok result =>
      exact derefsNoNull_bind (derefsNoNull_ok _)
        fun _ _ => derefsNoNull_pure _

theorem derefsNoNull_store (paddr : ℤ) (byte : BitVec 8) :
    DerefsNoNull (m.store paddr byte) := by
  unfold store
  split
  · exact derefsNoNull_ok _
  · exact derefsNoNull_error (by simp)

theorem derefsNoNull_writeMem_byte (word : BitVec 32) :
    DerefsNoNull (m.writeMem addr 1 word) := by
  have htranslated := derefsNoNull_translate m addr 1 true
  cases htranslate : m.translate addr 1 true with
  | error fault =>
      rw [writeMem_of_fault word htranslate]
      apply derefsNoNull_error
      rintro rfl
      exact htranslated htranslate
  | ok result =>
      cases result with
      | error which =>
          rw [writeMem_of_exception word htranslate]
          exact derefsNoNull_error (by simp)
      | ok result =>
          rw [writeMem_of_translate word htranslate]
          exact derefsNoNull_store _ _ _

theorem derefsNoNull_copyIn (rounds : ℕ) :
    DerefsNoNull (copyIn addr rounds m) := by
  induction rounds generalizing m addr with
  | zero => exact derefsNoNull_pure _
  | succ rounds ih =>
      apply derefsNoNull_bind (derefsNoNull_readMem_byte m addr)
      intro result _
      simp only
      split
      · exact derefsNoNull_pure _
      · exact derefsNoNull_bind (ih _ _) fun _ _ => derefsNoNull_pure _

theorem derefsNoNull_user2System (limit : BitVec 32) :
    DerefsNoNull (m.user2System addr limit) := by
  unfold user2System
  split
  · exact derefsNoNull_error (by simp)
  · exact derefsNoNull_bind (derefsNoNull_copyIn _ _ _)
      fun _ _ => derefsNoNull_pure _

theorem derefsNoNull_copyOut (rounds : ℕ) (buffer : List (BitVec 8)) :
    DerefsNoNull (copyOut addr rounds buffer m) := by
  induction rounds generalizing m addr buffer with
  | zero => exact derefsNoNull_pure _
  | succ rounds ih =>
      cases buffer with
      | nil => exact derefsNoNull_error (by simp)
      | cons oneChar buffer =>
          apply derefsNoNull_bind (derefsNoNull_writeMem_byte m addr _)
          intro m' _
          split
          · exact derefsNoNull_pure _
          · exact derefsNoNull_bind (ih _ _ _)
              fun _ _ => derefsNoNull_pure _

theorem derefsNoNull_system2User (len : ℤ) (buffer : List (BitVec 8)) :
    DerefsNoNull (m.system2User addr len buffer) := by
  unfold system2User
  split_ifs
  · exact derefsNoNull_pure _
  · exact derefsNoNull_pure _
  · exact derefsNoNull_bind (derefsNoNull_copyOut _ _ _ _)
      fun _ _ => derefsNoNull_pure _

end Machine

namespace Host

variable (h : Host) (fd : ℕ)

theorem derefsNoNull_lseek (offset : ℤ) :
    DerefsNoNull (h.lseek fd offset) := by
  unfold lseek
  split
  · split
    · exact derefsNoNull_ok _
    · exact derefsNoNull_error (by simp)
  · exact derefsNoNull_error (by simp)

theorem derefsNoNull_lseekEnd : DerefsNoNull (h.lseekEnd fd) := by
  unfold lseekEnd
  split
  · exact derefsNoNull_ok _
  · exact derefsNoNull_error (by simp)

theorem derefsNoNull_writeFile (bytes : List (BitVec 8))
    (answer : HostAnswer) : DerefsNoNull (h.writeFile fd bytes answer) := by
  unfold writeFile
  split
  · split
    · exact derefsNoNull_ok _
    · exact derefsNoNull_error (by simp)
  · exact derefsNoNull_error (by simp)

theorem derefsNoNull_close : DerefsNoNull (h.close fd) := by
  unfold close
  split
  · exact derefsNoNull_ok _
  · exact derefsNoNull_error (by simp)

end Host

namespace OpenFile

variable (f : OpenFile) (h : Host)

theorem derefsNoNull_read (numBytes : ℕ) (answer : HostAnswer) :
    DerefsNoNull (f.read h numBytes answer) := by
  apply derefsNoNull_bind
  · exact derefsNoNull_bind (h.derefsNoNull_lseek _ _)
      fun _ _ => derefsNoNull_pure _
  · exact fun _ _ => derefsNoNull_pure _

theorem derefsNoNull_write (buffer : List (BitVec 8)) (numBytes : ℤ)
    (answer : HostAnswer) : DerefsNoNull (f.write h buffer numBytes answer) := by
  apply derefsNoNull_bind
  · apply derefsNoNull_bind (h.derefsNoNull_lseek _ _)
    intro h' _
    split
    · exact derefsNoNull_bind (h'.derefsNoNull_writeFile _ _ _)
        fun _ _ => derefsNoNull_pure _
    · exact derefsNoNull_error (by simp)
  · exact fun _ _ => derefsNoNull_pure _

theorem derefsNoNull_length : DerefsNoNull (f.length h) :=
  derefsNoNull_bind (h.derefsNoNull_lseekEnd _) fun _ _ => derefsNoNull_pure _

theorem derefsNoNull_seek (position : ℤ) : DerefsNoNull (f.seek h position) :=
  derefsNoNull_bind (h.derefsNoNull_lseek _ _) fun _ _ => derefsNoNull_pure _

end OpenFile

/-! ## Tables of live files and live sockets -/

/-- A file that is open; every `OpenFile` of a slot has got a name. -/
def FileSlot.LiveFile (slot : FileSlot) : Prop :=
  ∃ f, slot = .ofFile (.object f) ∧ f.fName ≠ .null

def FileSlot.LiveSocket (slot : FileSlot) : Prop :=
  ∃ s, slot = .ofSocket (.object s)

/-- Each slot that is not `NULL` holds a live file or a live socket. -/
def FileSystem.LiveSlots (fs : FileSystem) : Prop :=
  ∀ id < maxFileOpen, fs.fileSlot id = .null ∨
    ∃ slot, fs.fileSlot id = .object slot ∧
      (slot.LiveFile ∨ slot.LiveSocket)

namespace FileSystem

def HoldsFile (fs : FileSystem) (id : ℤ) : Prop :=
  0 ≤ id ∧ id < maxFileOpen ∧
    ∃ slot, fs.fileSlot id.toNat = .object slot ∧ slot.LiveFile

def HoldsSocket (fs : FileSystem) (id : ℤ) : Prop :=
  0 ≤ id ∧ id < maxFileOpen ∧
    ∃ slot, fs.fileSlot id.toNat = .object slot ∧ slot.LiveSocket

variable {fs : FileSystem} {h : Host} {id : ℤ} {answer : HostAnswer}

theorem LiveSlots.cases
    (hlive : fs.LiveSlots) (hlow : 0 ≤ id) (hhigh : id < maxFileOpen) :
    fs.fileSlot id.toNat = .null ∨ fs.HoldsFile id ∨ fs.HoldsSocket id := by
  rcases hlive id.toNat (by omega) with hnull | ⟨slot, hslot, hfile | hsocket⟩
  · exact .inl hnull
  · exact .inr (.inl ⟨hlow, hhigh, slot, hslot, hfile⟩)
  · exact .inr (.inr ⟨hlow, hhigh, slot, hslot, hsocket⟩)

theorem HoldsFile.eq (hfile : fs.HoldsFile id) :
    ∃ f, fs.fileSlot id.toNat = .object (.ofFile (.object f)) ∧
      f.fName ≠ .null := by
  rcases hfile with ⟨-, -, slot, hslot, f, rfl, hname⟩
  exact ⟨f, hslot, hname⟩

theorem HoldsSocket.eq (hsocket : fs.HoldsSocket id) :
    ∃ s, fs.fileSlot id.toNat = .object (.ofSocket (.object s)) := by
  rcases hsocket with ⟨-, -, slot, hslot, s, rfl⟩
  exact ⟨s, hslot⟩

theorem HoldsFile.not_holdsSocket (hfile : fs.HoldsFile id) :
    ¬fs.HoldsSocket id := by
  intro hsocket
  rcases hfile.eq with ⟨f, hf, -⟩
  rcases hsocket.eq with ⟨s, hs⟩
  rw [hf] at hs
  cases hs

/-- The calls on sockets follow the pointer of a file. -/
theorem HoldsFile.socketAt (hfile : fs.HoldsFile id) :
    fs.socketAt id = .error .nullDereference := by
  rcases hfile.eq with ⟨f, hslot, -⟩
  simp only [FileSystem.socketAt, hslot, Pointer.deref_object, bind,
    Except.bind]
  rfl

variable (hlive : fs.LiveSlots) (hkind : ¬outside id → ¬fs.HoldsFile id)

include hlive hkind

/-- The calls on sockets begin with the same two tests.  Where they follow the
pointer, they find a socket unless the slot is that of a file. -/
theorem LiveSlots.derefsNoNull_tested
    {α : Type} {refused empty : α} {next : ℕ → Except Fault α}
    (hnext : ∀ s : OpenFileSocket,
      fs.fileSlot id.toNat = .object (.ofSocket (.object s)) →
        DerefsNoNull (next s.fd)) :
    DerefsNoNull (if outside id then pure refused
      else if (fs.fileSlot id.toNat).isNull then pure empty
      else fs.socketAt id >>= next) := by
  split
  next => exact derefsNoNull_pure _
  next hin =>
    split
    next => exact derefsNoNull_pure _
    next hslot =>
      rcases not_or.mp hin with ⟨hlow, hhigh⟩
      have hreserved : reverseFD = 2 := rfl
      have hnonneg : 0 ≤ id := by omega
      rcases hlive.cases hnonneg (not_le.mp hhigh) with hnull | hfile | hsocket
      · rw [hnull] at hslot
        exact (hslot rfl).elim
      · exact (hkind hin hfile).elim
      · rcases hsocket.eq with ⟨s, hs⟩
        rw [socketAt_eq hs]
        exact hnext s hs

theorem LiveSlots.derefsNoNull_connectTCP :
    DerefsNoNull (fs.connectTCP id answer) :=
  hlive.derefsNoNull_tested hkind fun _ _ => derefsNoNull_pure _

theorem LiveSlots.derefsNoNull_sendTCP (buffer : List (BitVec 8)) (len : ℤ) :
    DerefsNoNull (fs.sendTCP h id buffer len answer) := by
  refine hlive.derefsNoNull_tested hkind ?_
  intro s _
  split
  · exact derefsNoNull_pure _
  · exact derefsNoNull_error (by simp)

theorem LiveSlots.derefsNoNull_receiveTCP (len : ℕ) :
    DerefsNoNull (fs.receiveTCP h id len answer) :=
  hlive.derefsNoNull_tested hkind fun _ _ => derefsNoNull_pure _

theorem LiveSlots.derefsNoNull_closeTCP :
    DerefsNoNull (fs.closeTCP h id) := by
  refine hlive.derefsNoNull_tested hkind ?_
  intro s hs
  rw [hs]
  exact derefsNoNull_pure _

end FileSystem

namespace Kernel

variable {env : Environment} {k : Kernel}

theorem derefsNoNull_user2System (addr limit : BitVec 32) :
    DerefsNoNull (k.user2System addr limit) :=
  derefsNoNull_bind (k.machine.derefsNoNull_user2System addr limit)
    fun _ _ => derefsNoNull_pure _

theorem derefsNoNull_system2User
    (addr : BitVec 32) (len : ℤ) (buffer : List (BitVec 8)) :
    DerefsNoNull (k.system2User addr len buffer) :=
  derefsNoNull_bind (k.machine.derefsNoNull_system2User addr len buffer)
    fun _ _ => derefsNoNull_pure _

/-! ## The calls that look at the type -/

theorem derefsNoNull_receive
    {id : ℤ} (hlive : k.fileSystem.LiveSlots)
    (hkind : ¬FileSystem.outside id → ¬k.fileSystem.HoldsFile id)
    (addr len : BitVec 32) : DerefsNoNull (k.receive env id addr len) := by
  unfold receive
  split
  · exact derefsNoNull_error (by simp)
  · apply derefsNoNull_bind (hlive.derefsNoNull_receiveTCP hkind _)
    intro result _
    rcases result with ⟨bytes, host⟩
    match bytes with
    | none => exact derefsNoNull_pure _
    | some [] => exact derefsNoNull_pure _
    | some (byte :: rest) =>
        exact derefsNoNull_bind (derefsNoNull_system2User _ _ _)
          fun _ _ => derefsNoNull_pure _

theorem derefsNoNull_send
    {id : ℤ} (hlive : k.fileSystem.LiveSlots)
    (hkind : ¬FileSystem.outside id → ¬k.fileSystem.HoldsFile id)
    (buf : List (BitVec 8)) (len : ℤ) :
    DerefsNoNull (k.send env id buf len) :=
  derefsNoNull_bind (hlive.derefsNoNull_sendTCP hkind buf len)
    fun _ _ => derefsNoNull_pure _

theorem derefsNoNull_readLine (charCnt : ℕ) (input : List (BitVec 8)) :
    DerefsNoNull (readLine charCnt input) := by
  induction charCnt generalizing input with
  | zero => exact derefsNoNull_pure _
  | succ charCnt ih =>
      cases input with
      | nil => exact derefsNoNull_error (by simp)
      | cons t input =>
          unfold readLine
          split
          · exact derefsNoNull_pure _
          · exact derefsNoNull_bind (ih input) fun _ _ => derefsNoNull_pure _

theorem derefsNoNull_readConsole (addr charCnt : BitVec 32) :
    DerefsNoNull (k.readConsole addr charCnt) := by
  unfold readConsole
  split
  · exact derefsNoNull_error (by simp)
  · apply derefsNoNull_bind (derefsNoNull_readLine _ _)
    intro result _
    exact derefsNoNull_bind (derefsNoNull_system2User _ _ _)
      fun _ _ => derefsNoNull_pure _

theorem derefsNoNull_readFile
    (id : ℕ) (slot : FileSlot) (f : OpenFile) (oldPosition : ℤ)
    (addr charCnt : BitVec 32) (buf : List (BitVec 8)) :
    DerefsNoNull
      (k.readFile env id slot f oldPosition addr charCnt buf) := by
  unfold readFile
  split
  · exact derefsNoNull_error (by simp)
  · apply derefsNoNull_bind (f.derefsNoNull_read _ _ _)
    intro result _
    simp only
    split
    · exact derefsNoNull_bind (derefsNoNull_system2User _ _ _)
        fun _ _ => derefsNoNull_pure _
    · exact derefsNoNull_pure _

theorem derefsNoNull_writeConsole (charCnt : ℤ) (buf : List (BitVec 8)) :
    DerefsNoNull (k.writeConsole charCnt buf) := by
  unfold writeConsole
  split
  · exact derefsNoNull_error (by simp)
  · exact derefsNoNull_pure _

theorem derefsNoNull_writeFile
    (id : ℕ) (slot : FileSlot) (f : OpenFile) (oldPosition charCnt : ℤ)
    (buf : List (BitVec 8)) :
    DerefsNoNull (k.writeFile env id slot f oldPosition charCnt buf) := by
  apply derefsNoNull_bind (f.derefsNoNull_write _ _ _ _)
  intro result _
  simp only
  split
  · exact derefsNoNull_pure _
  · exact derefsNoNull_pure _

theorem not_holdsFile_of_socket
    {id : ℤ} {s : OpenFileSocket}
    (hslot : k.fileSystem.fileSlot id.toNat =
      .object (.ofSocket (.object s))) : ¬k.fileSystem.HoldsFile id := by
  intro hfile
  rcases hfile.eq with ⟨f, hf, -⟩
  rw [hslot] at hf
  cases hf

section Live

variable (hlive : k.fileSystem.LiveSlots)

include hlive

/-- The two kinds of slot that an id can have. -/
theorem occupied_cases {id : ℤ} (hid : k.occupied id) :
    (∃ f, k.fileSystem.fileSlot id.toNat = .object (.ofFile (.object f))) ∨
      ∃ s, k.fileSystem.fileSlot id.toNat =
        .object (.ofSocket (.object s)) := by
  rcases hid with ⟨hlow, hhigh, hnull⟩
  rcases hlive.cases hlow hhigh with hslot | hfile | hsocket
  · rw [hslot] at hnull
    cases hnull
  · rcases hfile.eq with ⟨f, hf, -⟩
    exact .inl ⟨f, hf⟩
  · exact .inr hsocket.eq

/-- What follows the pointer in an occupied slot finds a file or a socket. -/
theorem derefsNoNull_slot
    {id : ℤ} {next : FileSlot → Except Fault Kernel} (hid : k.occupied id)
    (hfile : ∀ f, DerefsNoNull (next (.ofFile (.object f))))
    (hsocket : ∀ s, k.fileSystem.fileSlot id.toNat =
        .object (.ofSocket (.object s)) →
      DerefsNoNull (next (.ofSocket (.object s)))) :
    DerefsNoNull ((k.fileSystem.fileSlot id.toNat).deref >>= next) := by
  rcases occupied_cases hlive hid with ⟨f, hslot⟩ | ⟨s, hslot⟩
  · rw [hslot]
    exact hfile f
  · have hnext := hsocket s hslot
    rw [hslot]
    exact hnext

theorem derefsNoNull_close : DerefsNoNull k.handleSCClose := by
  unfold handleSCClose
  simp only
  split
  next hid =>
    refine derefsNoNull_slot hlive hid.2 ?_ ?_
    · intro f
      apply derefsNoNull_bind
      · apply derefsNoNull_bind
        · exact k.host.derefsNoNull_close f.file
        · exact fun _ _ => derefsNoNull_pure _
      · exact fun _ _ => derefsNoNull_pure _
    · intro s hslot
      have hkind := not_holdsFile_of_socket hslot
      exact derefsNoNull_bind (hlive.derefsNoNull_closeTCP fun _ => hkind)
        fun _ _ => derefsNoNull_pure _
  next => exact derefsNoNull_pure _

theorem derefsNoNull_read : DerefsNoNull (k.handleSCRead env) := by
  unfold handleSCRead
  simp only
  split
  next hid =>
    refine derefsNoNull_slot hlive hid ?_ ?_
    · intro f
      apply derefsNoNull_bind (derefsNoNull_ok _)
      intro f' _
      split
      · exact derefsNoNull_pure _
      · apply derefsNoNull_bind (derefsNoNull_user2System _ _)
        intro copied _
        split
        · exact derefsNoNull_readConsole _ _
        · exact derefsNoNull_readFile _ _ _ _ _ _ _
    · intro s hslot
      have hkind := not_holdsFile_of_socket hslot
      exact derefsNoNull_receive hlive (fun _ => hkind) _ _
  next => exact derefsNoNull_pure _

theorem derefsNoNull_write : DerefsNoNull (k.handleSCWrite env) := by
  unfold handleSCWrite
  simp only
  split
  next hid =>
    refine derefsNoNull_slot hlive hid ?_ ?_
    · intro f
      apply derefsNoNull_bind (derefsNoNull_ok _)
      intro f' _
      split
      · exact derefsNoNull_pure _
      · apply derefsNoNull_bind (derefsNoNull_user2System _ _)
        intro copied _
        split
        · exact derefsNoNull_writeFile _ _ _ _ _ _
        · split
          · exact derefsNoNull_writeConsole _ _
          · exact derefsNoNull_pure _
    · intro s hslot
      have hkind := not_holdsFile_of_socket hslot
      apply derefsNoNull_bind (derefsNoNull_user2System _ _)
      intro copied hcopy
      rcases copied with ⟨buf, k₁⟩
      rcases user2System_ok hcopy with ⟨m, -, -, rfl⟩
      exact derefsNoNull_send (k := { k with machine := m }) hlive
        (fun _ => hkind) _ _
  next => exact derefsNoNull_pure _

end Live

/-! ## The calls of one kind -/

/-- The register with the descriptor of a call. -/
def descriptor (k : Kernel) : SystemCall → ℤ
  | .seek => (k.register 5).toInt
  | .read => (k.register 6).toInt
  | .write => (k.register 6).toInt
  | _ => (k.register 4).toInt

/-- A call that knows files only gets the descriptor of a socket, or the other
way round. -/
def WrongKind (k : Kernel) : SystemCall → Prop
  | .seek => k.fileSystem.HoldsSocket (k.descriptor .seek)
  | .socketTCPConnect =>
      k.fileSystem.HoldsFile (k.descriptor .socketTCPConnect)
  | .socketTCPSend => k.fileSystem.HoldsFile (k.descriptor .socketTCPSend)
  | .socketTCPReceive =>
      k.fileSystem.HoldsFile (k.descriptor .socketTCPReceive)
  | .socketTCPClose => k.fileSystem.HoldsFile (k.descriptor .socketTCPClose)
  | _ => False

/-- What a handler does with its arguments before it looks at the slot does
not end in a fault. -/
def ArgumentsRead (env : Environment) (k : Kernel) : SystemCall → Prop
  | .socketTCPConnect =>
      ∃ copied, k.user2System (k.register 5) maxIpAddressLength = .ok copied
  | .socketTCPSend => ∃ copied,
      k.user2System (k.register 5) env.leng = .ok copied ∧ copied.1 ≠ []
  | .socketTCPReceive => 0 ≤ (k.register 6).toInt
  | _ => True

/-- The call returns -1 and leaves the table as it was. -/
def Refuses (env : Environment) (k : Kernel) (call : SystemCall) : Prop :=
  ∃ k', k.handle env call = .ok k' ∧ k'.register 2 = -1 ∧
    k'.fileSystem = k.fileSystem

theorem not_refuses_of_error
    {call : SystemCall} {fault : Fault}
    (hfault : k.handle env call = .error fault) : ¬k.Refuses env call := by
  rintro ⟨k', hreturns, -⟩
  rw [hfault] at hreturns
  cases hreturns

section Seek

theorem derefsNoNull_seekTo
    (id : ℕ) (slot : FileSlot) (f : OpenFile) (position : ℤ) (host : Host) :
    DerefsNoNull (do
      let (length, host) ← f.length host
      if position > length ∨ position < 0 then
        return { k with host := host }.returns (-1)
      else
        let (f, host) ← f.seek host position
        return ({ k with host := host }.setFile id slot f).returns position :
      Except Fault Kernel) := by
  apply derefsNoNull_bind (f.derefsNoNull_length host)
  intro length _
  simp only
  split
  · exact derefsNoNull_pure _
  · exact derefsNoNull_bind (f.derefsNoNull_seek _ _)
      fun _ _ => derefsNoNull_pure _

theorem derefsNoNull_seek
    (hlive : k.fileSystem.LiveSlots)
    (hkind : reverseFD ≤ k.descriptor .seek →
      ¬k.fileSystem.HoldsSocket (k.descriptor .seek)) :
    DerefsNoNull k.handleSCSeek := by
  unfold handleSCSeek
  simp only
  split
  next hid =>
    rcases hid with ⟨hoccupied, hne0, hne1⟩
    have hreserved : reverseFD ≤ k.descriptor .seek := by
      have hlow := hoccupied.1
      simp only [descriptor, reverseFD]
      omega
    refine derefsNoNull_slot hlive hoccupied ?_ ?_
    · intro f
      apply derefsNoNull_bind (derefsNoNull_ok _)
      intro f' _
      split
      · apply derefsNoNull_bind (f'.derefsNoNull_length _)
        intro result _
        exact derefsNoNull_seekTo _ _ _ _ _
      · exact derefsNoNull_seekTo _ _ _ _ _
    · intro s hslot
      have hsocket : k.fileSystem.HoldsSocket (k.descriptor .seek) :=
        ⟨hoccupied.1, hoccupied.2.1, _, hslot, s, rfl⟩
      exact (hkind hreserved hsocket).elim
  next => exact derefsNoNull_pure _

/-- `Seek` of a socket follows the `NULL` pointer, if it is not the console. -/
theorem seek_socket
    (hsocket : k.fileSystem.HoldsSocket (k.descriptor .seek)) :
    k.handle env .seek =
      if k.descriptor .seek < reverseFD then .ok (k.returns (-1))
      else .error .nullDereference := by
  have hoccupied : k.occupied (k.register 5).toInt := by
    rcases hsocket with ⟨hlow, hhigh, slot, hslot, -⟩
    refine ⟨hlow, hhigh, ?_⟩
    rw [descriptor] at hslot
    rw [hslot]
    rfl
  rcases hsocket.eq with ⟨s, hslot⟩
  rw [descriptor] at hslot
  rw [handle, handleSCSeek, descriptor]
  have hlow := hoccupied.1
  have hreserved : reverseFD = 2 := rfl
  simp only
  by_cases hconsole : (k.register 5).toInt < reverseFD
  · rw [if_pos hconsole, if_neg]
    · rfl
    · rintro ⟨-, hne0, hne1⟩
      omega
  · rw [if_neg hconsole, if_pos ⟨hoccupied, by omega, by omega⟩, hslot]
    rfl

end Seek

theorem refuses_returns
    {call : SystemCall} {k₁ : Kernel}
    (hcall : k.handle env call = .ok (k₁.returns (-1)))
    (hfs : k₁.fileSystem = k.fileSystem) : k.Refuses env call :=
  ⟨_, hcall, rfl, hfs⟩

/-- The handler has read its arguments and returns on the console only. -/
theorem refuses_iff_of_eq
    {call : SystemCall} {k₁ : Kernel} {id : ℤ}
    (heq : k.handle env call = if id < reverseFD then .ok (k₁.returns (-1))
      else .error .nullDereference)
    (hfs : k₁.fileSystem = k.fileSystem)
    (harguments : k.ArgumentsRead env call) :
    k.Refuses env call ↔ id < reverseFD ∧ k.ArgumentsRead env call := by
  by_cases hid : id < reverseFD
  · rw [if_pos hid] at heq
    exact iff_of_true (refuses_returns heq hfs) ⟨hid, harguments⟩
  · rw [if_neg hid] at heq
    exact iff_of_false (not_refuses_of_error heq) fun h => hid h.1

section Sockets

variable {id : ℤ} (hfile : k.fileSystem.HoldsFile id)

include hfile

theorem inside_of_file (hid : ¬id < reverseFD) :
    ¬FileSystem.outside id ∧ ¬(k.fileSystem.fileSlot id.toNat).isNull = true := by
  rcases hfile.eq with ⟨f, hslot, -⟩
  constructor
  · rintro (hlow | hhigh)
    · exact hid hlow
    · exact absurd hfile.2.1 (not_lt.mpr hhigh)
  · rw [hslot]
    simp [Pointer.isNull]

/-- The same two tests, where the slot is that of a file. -/
theorem tested_file
    {α : Type} {refused empty : α} {next : ℕ → Except Fault α} :
    (if FileSystem.outside id then pure refused
      else if (k.fileSystem.fileSlot id.toNat).isNull then pure empty
      else k.fileSystem.socketAt id >>= next) =
      if id < reverseFD then .ok refused else .error .nullDereference := by
  by_cases hid : id < reverseFD
  · rw [if_pos (.inl hid), if_pos hid]
    rfl
  · rcases inside_of_file hfile hid with ⟨hin, hslot⟩
    rw [if_neg hin, if_neg hslot, if_neg hid, hfile.socketAt]
    rfl

theorem connectTCP_file (answer : HostAnswer) :
    k.fileSystem.connectTCP id answer =
      if id < reverseFD then .ok (-1) else .error .nullDereference :=
  tested_file hfile

theorem sendTCP_file
    (buf : List (BitVec 8)) (len : ℤ) (answer : HostAnswer) :
    k.fileSystem.sendTCP k.host id buf len answer =
      if id < reverseFD then .ok (none, k.host)
      else .error .nullDereference :=
  tested_file hfile

theorem receiveTCP_file (len : ℕ) (answer : HostAnswer) :
    k.fileSystem.receiveTCP k.host id len answer =
      if id < reverseFD then .ok (none, k.host)
      else .error .nullDereference :=
  tested_file hfile

theorem closeTCP_file :
    k.fileSystem.closeTCP k.host id =
      if id < reverseFD then .ok (-1, k.fileSystem, k.host)
      else .error .nullDereference :=
  tested_file hfile

end Sockets

theorem refuses_connect_iff
    (hfile : k.fileSystem.HoldsFile (k.register 4).toInt) :
    k.Refuses env .socketTCPConnect ↔ (k.register 4).toInt < reverseFD ∧
      k.ArgumentsRead env .socketTCPConnect := by
  cases hcopy : k.user2System (k.register 5) maxIpAddressLength with
  | error fault =>
      have hfault : k.handle env .socketTCPConnect = .error fault := by
        rw [handle, handleSCSocketTCPConnect, hcopy]
        rfl
      refine iff_of_false (not_refuses_of_error hfault) ?_
      rintro ⟨-, copied, hcopied⟩
      rw [hcopy] at hcopied
      cases hcopied
  | ok copied =>
      rcases copied with ⟨ip, k₁⟩
      rcases user2System_ok hcopy with ⟨m, -, -, rfl⟩
      have heq : k.handle env .socketTCPConnect =
          if (k.register 4).toInt < reverseFD then
            .ok ({ k with machine := m }.returns (-1))
          else .error .nullDereference := by
        rw [handle, handleSCSocketTCPConnect, hcopy]
        change (k.fileSystem.connectTCP _ _ >>= _) = _
        rw [connectTCP_file hfile]
        split <;> rfl
      exact refuses_iff_of_eq heq rfl ⟨_, hcopy⟩

theorem refuses_send_iff
    (hfile : k.fileSystem.HoldsFile (k.register 4).toInt) :
    k.Refuses env .socketTCPSend ↔ (k.register 4).toInt < reverseFD ∧
      k.ArgumentsRead env .socketTCPSend := by
  cases hcopy : k.user2System (k.register 5) env.leng with
  | error fault =>
      have hfault : k.handle env .socketTCPSend = .error fault := by
        rw [handle, handleSCSocketTCPSend, hcopy]
        rfl
      refine iff_of_false (not_refuses_of_error hfault) ?_
      rintro ⟨-, copied, hcopied, -⟩
      rw [hcopy] at hcopied
      cases hcopied
  | ok copied =>
      rcases copied with ⟨buff, k₁⟩
      rcases user2System_ok hcopy with ⟨m, -, -, rfl⟩
      by_cases hempty : buff = []
      · have hfault : k.handle env .socketTCPSend =
            .error .undefinedBehaviour := by
          rw [handle, handleSCSocketTCPSend, hcopy]
          exact if_pos hempty
        refine iff_of_false (not_refuses_of_error hfault) ?_
        rintro ⟨-, copied, hcopied, hne⟩
        rw [hcopy] at hcopied
        obtain rfl := Except.ok.inj hcopied
        exact hne hempty
      · have heq : k.handle env .socketTCPSend =
            if (k.register 4).toInt < reverseFD then
              .ok ({ k with machine := m }.returns (-1))
            else .error .nullDereference := by
          rw [handle, handleSCSocketTCPSend, hcopy]
          change (if buff = [] then _ else _) = _
          rw [if_neg hempty]
          change (k.fileSystem.sendTCP k.host _ _ _ _ >>= _) = _
          rw [sendTCP_file hfile]
          split <;> rfl
        exact refuses_iff_of_eq heq rfl ⟨_, hcopy, hempty⟩

theorem refuses_receive_iff
    (hfile : k.fileSystem.HoldsFile (k.register 4).toInt) :
    k.Refuses env .socketTCPReceive ↔ (k.register 4).toInt < reverseFD ∧
      k.ArgumentsRead env .socketTCPReceive := by
  by_cases hlen : (k.register 6).toInt < 0
  · have hfault : k.handle env .socketTCPReceive = .error .abort := by
      rw [handle, handleSCSocketTCPReceive, receive, if_pos hlen]
    exact iff_of_false (not_refuses_of_error hfault)
      fun h => not_lt.mpr h.2 hlen
  · have heq : k.handle env .socketTCPReceive =
        if (k.register 4).toInt < reverseFD then .ok (k.returns (-1))
        else .error .nullDereference := by
      rw [handle, handleSCSocketTCPReceive, receive, if_neg hlen,
        receiveTCP_file hfile]
      split <;> rfl
    exact refuses_iff_of_eq heq rfl (not_lt.mp hlen)

theorem refuses_close_iff
    (hfile : k.fileSystem.HoldsFile (k.register 4).toInt) :
    k.Refuses env .socketTCPClose ↔ (k.register 4).toInt < reverseFD ∧
      k.ArgumentsRead env .socketTCPClose := by
  have heq : k.handle env .socketTCPClose =
      if (k.register 4).toInt < reverseFD then .ok (k.returns (-1))
      else .error .nullDereference := by
    rw [handle, handleSCSocketTCPClose, closeTCP_file hfile]
    split <;> rfl
  exact refuses_iff_of_eq heq rfl trivial

theorem refuses_seek_iff
    (hsocket : k.fileSystem.HoldsSocket (k.register 5).toInt) :
    k.Refuses env .seek ↔ (k.register 5).toInt < reverseFD ∧
      k.ArgumentsRead env .seek :=
  refuses_iff_of_eq (seek_socket hsocket) rfl trivial

/-- A call of the wrong kind is refused exactly on the console and where it
can read its arguments. -/
theorem refuses_iff
    {call : SystemCall} (hwrong : k.WrongKind call) :
    k.Refuses env call ↔
      k.descriptor call < reverseFD ∧ k.ArgumentsRead env call := by
  cases call with
  | seek => exact refuses_seek_iff hwrong
  | socketTCPConnect => exact refuses_connect_iff hwrong
  | socketTCPSend => exact refuses_send_iff hwrong
  | socketTCPReceive => exact refuses_receive_iff hwrong
  | socketTCPClose => exact refuses_close_iff hwrong
  | _ => exact hwrong.elim

/-! ## The search of `Remove` -/

/-- The slot is that of an open file with this name. -/
def Named (env : Environment) (k : Kernel) (filename : CString) (i : ℕ) :
    Prop :=
  k.fileSystem.HoldsFile i ∧ k.slotName env i = .ok filename

/-- Each socket comes behind a file with the name that is searched. -/
def NameBeforeSockets (env : Environment) (k : Kernel) : Prop :=
  ∀ filename k₁,
    k.user2System (k.register 4) (maxFileLength + 1) = .ok (filename, k₁) →
      ∀ i < maxFileOpen, k.fileSystem.HoldsSocket i →
        ∃ j < i, k.Named env (cString filename) j

/-- `Remove` refuses the name of an open file and passes any other name to the
host. -/
def RemoveWorks (env : Environment) (k : Kernel) : Prop :=
  ∀ filename k₁,
    k.user2System (k.register 4) (maxFileLength + 1) = .ok (filename, k₁) →
      ∃ inUse, (inUse = true ↔
          ∃ i < maxFileOpen, k.Named env (cString filename) i) ∧
        k.handle env .remove = .ok (if inUse then k₁.returns (-1)
          else { k₁ with
            host := (FileSystem.remove k.host (cString filename)).2 }.returns
              (if (FileSystem.remove k.host (cString filename)).1 then 0
                else -1))

section Search

variable {filename : CString}

theorem slotName_file
    (env : Environment) {i : ℕ} (hfile : k.fileSystem.HoldsFile i) :
    ∃ name, k.slotName env i = .ok name := by
  rcases hfile.eq with ⟨f, hslot, hname⟩
  rw [Int.toNat_natCast] at hslot
  rw [slotName, hslot]
  cases hf : f.fName with
  | null => exact (hname hf).elim
  | dangling =>
      refine ⟨env.freedName i, ?_⟩
      simp [bind, Except.bind, FileSlot.ofFile, hf]
      rfl
  | object name =>
      refine ⟨name, ?_⟩
      simp [bind, Except.bind, FileSlot.ofFile, hf]

theorem slotName_socket
    {i : ℕ} (hsocket : k.fileSystem.HoldsSocket i) :
    k.slotName env i = .error .nullDereference := by
  rcases hsocket.eq with ⟨s, hslot⟩
  rw [Int.toNat_natCast] at hslot
  rw [slotName, hslot]
  rfl

/-- Among the slots of a range each socket comes behind a file with the
name. -/
def Guarded (env : Environment) (k : Kernel) (filename : CString)
    (start count : ℕ) : Prop :=
  ∀ i, start ≤ i → i < start + count → k.fileSystem.HoldsSocket i →
    ∃ j, start ≤ j ∧ j < i ∧ k.Named env filename j

/-- The slots of a range have a file with the name. -/
def NamedIn (env : Environment) (k : Kernel) (filename : CString)
    (start count : ℕ) : Prop :=
  ∃ i, start ≤ i ∧ i < start + count ∧ k.Named env filename i

/-- What the search does at a slot: it passes the slot by, follows `NULL`, or
compares the name. -/
inductive SearchedAt (env : Environment) (k : Kernel) (filename : CString)
    (blocked named : ℕ → Prop) (i : ℕ) : Prop
  | passed : (k.fileSystem.fileSlot i).isNull = true → ¬blocked i →
      ¬named i → SearchedAt env k filename blocked named i
  | faults : ¬(k.fileSystem.fileSlot i).isNull = true →
      k.slotName env i = .error .nullDereference → blocked i →
      ¬named i → SearchedAt env k filename blocked named i
  | compared {name : CString} : ¬(k.fileSystem.fileSlot i).isNull = true →
      k.slotName env i = .ok name → ¬blocked i →
      (named i ↔ name = filename) → SearchedAt env k filename blocked named i

/-- In a range each blocked slot comes behind a slot with the name. -/
def Preceded (blocked named : ℕ → Prop) (start count : ℕ) : Prop :=
  ∀ i, start ≤ i → i < start + count → blocked i →
    ∃ j, start ≤ j ∧ j < i ∧ named j

def Among (named : ℕ → Prop) (start count : ℕ) : Prop :=
  ∃ i, start ≤ i ∧ i < start + count ∧ named i

section Skip

variable {blocked named : ℕ → Prop} {start : ℕ} (hother : ¬named start)
variable (count : ℕ)

include hother

theorem preceded_succ (hfree : ¬blocked start) :
    Preceded blocked named start (count + 1) ↔
      Preceded blocked named (start + 1) count := by
  constructor
  · intro hpreceded i hlow hhigh hi
    obtain ⟨j, hstart, hlt, hj⟩ := hpreceded i (by omega) (by omega) hi
    refine ⟨j, ?_, hlt, hj⟩
    obtain rfl | hafter := Nat.eq_or_lt_of_le hstart
    · exact (hother hj).elim
    · exact hafter
  · intro hpreceded i hlow hhigh hi
    obtain rfl | hafter := Nat.eq_or_lt_of_le hlow
    · exact (hfree hi).elim
    · obtain ⟨j, hstart, hlt, hj⟩ := hpreceded i hafter (by omega) hi
      exact ⟨j, by omega, hlt, hj⟩

theorem among_succ :
    Among named start (count + 1) ↔ Among named (start + 1) count := by
  constructor
  · rintro ⟨i, hlow, hhigh, hi⟩
    obtain rfl | hafter := Nat.eq_or_lt_of_le hlow
    · exact (hother hi).elim
    · exact ⟨i, hafter, by omega, hi⟩
  · rintro ⟨i, hlow, hhigh, hi⟩
    exact ⟨i, by omega, by omega, hi⟩

end Skip

/-- The search from the slot `start` on, by induction on the number of the
slots that are left: it faults at a blocked slot unless it has found the name
before. -/
theorem nameInUse_search
    {blocked named : ℕ → Prop} {start count : ℕ}
    (hslots : ∀ i, start ≤ i → i < start + count →
      SearchedAt env k filename blocked named i) :
    (Preceded blocked named start count →
      ∃ inUse, (inUse = true ↔ Among named start count) ∧
        k.nameInUse env filename (List.range' start count) = .ok inUse) ∧
    (¬Preceded blocked named start count →
      k.nameInUse env filename (List.range' start count) =
        .error .nullDereference) := by
  induction count generalizing start with
  | zero =>
      constructor
      · intro _
        refine ⟨false, ?_, rfl⟩
        simp only [Bool.false_eq_true, false_iff]
        rintro ⟨i, hlow, hhigh, -⟩
        omega
      · intro hunguarded
        exact (hunguarded fun i hlow hhigh => by omega).elim
  | succ count ih =>
      have hrest := @ih (start + 1) fun i hlow hhigh =>
        hslots i (by omega) (by omega)
      rw [List.range'_succ]
      cases hslots start le_rfl (by omega) with
      | passed hnull hfree hother =>
          rw [preceded_succ hother count hfree, among_succ hother count,
            nameInUse, if_pos hnull]
          exact hrest
      | faults hslot hfault hblocked _ =>
          constructor
          · intro hpreceded
            obtain ⟨j, hstart, hlt, -⟩ :=
              hpreceded start le_rfl (by omega) hblocked
            omega
          · intro _
            rw [nameInUse, if_neg hslot, hfault]
            rfl
      | @compared name hslot hname hfree hiff =>
          have hcompare : k.nameInUse env filename
              (start :: List.range' (start + 1) count) =
              if name = filename then .ok true
              else k.nameInUse env filename
                (List.range' (start + 1) count) := by
            rw [nameInUse, if_neg hslot, hname]
            rfl
          rw [hcompare]
          by_cases heq : name = filename
          · have hnamed := hiff.mpr heq
            have hpreceded : Preceded blocked named start (count + 1) := by
              intro i hlow _ hi
              obtain rfl | hafter := Nat.eq_or_lt_of_le hlow
              · exact (hfree hi).elim
              · exact ⟨start, le_rfl, hafter, hnamed⟩
            rw [if_pos heq]
            refine ⟨fun _ => ⟨true, ?_, rfl⟩, fun h => (h hpreceded).elim⟩
            exact iff_of_true rfl ⟨start, le_rfl, by omega, hnamed⟩
          · rw [if_neg heq, preceded_succ (hiff.not.mpr heq) count hfree,
              among_succ (hiff.not.mpr heq) count]
            exact hrest

/-- In a table of live slots the search faults at the sockets. -/
theorem searchedAt_of_liveSlots
    (hlive : k.fileSystem.LiveSlots) {i : ℕ} (hi : i < maxFileOpen) :
    SearchedAt env k filename (fun i => k.fileSystem.HoldsSocket i)
      (k.Named env filename) i := by
  have hnonneg : (0 : ℤ) ≤ i := Int.natCast_nonneg _
  have hlt : (i : ℤ) < maxFileOpen := by omega
  have hnull : ∀ slot : FileSlot, k.fileSystem.fileSlot i = .object slot →
      ¬(k.fileSystem.fileSlot i).isNull = true := by
    intro slot hslot
    rw [hslot]
    simp [Pointer.isNull]
  rcases hlive.cases hnonneg hlt with hfree | hfile | hsocket
  · rw [Int.toNat_natCast] at hfree
    apply SearchedAt.passed
    · rw [hfree]
      rfl
    · rintro ⟨-, -, slot, hslot, -⟩
      rw [Int.toNat_natCast, hfree] at hslot
      cases hslot
    · rintro ⟨⟨-, -, slot, hslot, -⟩, -⟩
      rw [Int.toNat_natCast, hfree] at hslot
      cases hslot
  · obtain ⟨f, hslot, -⟩ := hfile.eq
    rw [Int.toNat_natCast] at hslot
    obtain ⟨name, hname⟩ := slotName_file env hfile
    apply SearchedAt.compared (hnull _ hslot) hname hfile.not_holdsSocket
    rw [Named, hname, Except.ok.injEq]
    exact ⟨And.right, fun heq => ⟨hfile, heq⟩⟩
  · obtain ⟨s, hslot⟩ := hsocket.eq
    rw [Int.toNat_natCast] at hslot
    apply SearchedAt.faults (hnull _ hslot) (slotName_socket hsocket) hsocket
    rintro ⟨hfile, -⟩
    exact hfile.not_holdsSocket hsocket

/-- The search of a table of live slots. -/
theorem nameInUse_range'
    (hlive : k.fileSystem.LiveSlots) (start count : ℕ)
    (hle : start + count ≤ maxFileOpen) :
    (k.Guarded env filename start count →
      ∃ inUse, (inUse = true ↔ k.NamedIn env filename start count) ∧
        k.nameInUse env filename (List.range' start count) = .ok inUse) ∧
    (¬k.Guarded env filename start count →
      k.nameInUse env filename (List.range' start count) =
        .error .nullDereference) :=
  nameInUse_search fun _ _ hhigh => searchedAt_of_liveSlots hlive (by omega)

end Search

/-- `Remove` after it has copied the name. -/
theorem remove_copied
    {filename : List (BitVec 8)} {k₁ : Kernel}
    (hcopy : k.user2System (k.register 4) (maxFileLength + 1) =
      .ok (filename, k₁)) :
    k.handle env .remove =
      (k.nameInUse env (cString filename) (List.range maxFileOpen) >>=
        fun inUse => .ok (if inUse then k₁.returns (-1)
          else { k₁ with
            host := (FileSystem.remove k.host (cString filename)).2 }.returns
              (if (FileSystem.remove k.host (cString filename)).1 then 0
                else -1))) := by
  rcases user2System_ok hcopy with ⟨m, -, -, rfl⟩
  rw [handle, handleSCRemove, hcopy]
  change (nameInUse env { k with machine := m } _ _ >>= _) = _
  rw [nameInUse_congr (k := k) rfl]
  congr 1
  funext inUse
  cases inUse <;> rfl

theorem namedIn_maxFileOpen (filename : CString) :
    k.NamedIn env filename 0 maxFileOpen ↔
      ∃ i < maxFileOpen, k.Named env filename i := by
  simp only [NamedIn, Nat.zero_le, true_and, Nat.zero_add]

theorem guarded_maxFileOpen (filename : CString) :
    k.Guarded env filename 0 maxFileOpen ↔
      ∀ i < maxFileOpen, k.fileSystem.HoldsSocket i →
        ∃ j < i, k.Named env filename j := by
  simp only [Guarded, Nat.zero_le, true_and, true_implies, Nat.zero_add]

/-- `Remove` works exactly if its search meets no socket. -/
theorem removeWorks_iff (hlive : k.fileSystem.LiveSlots) :
    DerefsNoNull (k.handle env .remove) ∧ k.RemoveWorks env ↔
      k.NameBeforeSockets env := by
  have hsearch := fun filename =>
    @nameInUse_range' env k filename hlive 0 maxFileOpen (by omega)
  constructor
  · rintro ⟨hnoNull, -⟩ filename k₁ hcopy
    rw [← guarded_maxFileOpen]
    by_contra hunguarded
    apply hnoNull
    rw [remove_copied hcopy, List.range_eq_range', (hsearch _).2 hunguarded]
    rfl
  · intro hnames
    have hworks : k.RemoveWorks env := by
      intro filename k₁ hcopy
      have hguarded := (guarded_maxFileOpen _).mpr (hnames _ _ hcopy)
      rcases (hsearch _).1 hguarded with ⟨inUse, hiff, hfound⟩
      refine ⟨inUse, ?_, ?_⟩
      · rw [hiff, namedIn_maxFileOpen]
      · rw [remove_copied hcopy, List.range_eq_range', hfound]
        rfl
    refine ⟨?_, hworks⟩
    have hread := derefsNoNull_user2System (k := k) (k.register 4)
      (maxFileLength + 1)
    cases hcopy : k.user2System (k.register 4) (maxFileLength + 1) with
    | error fault =>
        have hfault : k.handle env .remove = .error fault := by
          rw [handle, handleSCRemove, hcopy]
          rfl
        rw [hfault]
        apply derefsNoNull_error
        rintro rfl
        exact hread hcopy
    | ok copied =>
        rcases hworks copied.1 copied.2 hcopy with ⟨inUse, -, hreturns⟩
        rw [hreturns]
        exact derefsNoNull_ok _

/-! ## Kind-correct dispatch -/

/-- The calls that take a descriptor or search the table. -/
def OnDescriptors (call : SystemCall) : Prop :=
  call = .close ∨ call = .read ∨ call = .write ∨ call = .seek ∨
    call = .remove ∨ call = .socketTCPConnect ∨ call = .socketTCPSend ∨
    call = .socketTCPReceive ∨ call = .socketTCPClose

/-- The call follows no `NULL` pointer, refuses a slot of the other kind, and
`Remove` works. -/
structure KindCorrect (env : Environment) (k : Kernel) (call : SystemCall) :
    Prop where
  noNull : DerefsNoNull (k.handle env call)
  refuses : k.WrongKind call → k.Refuses env call
  removes : call = .remove → k.RemoveWorks env

/-- The socket calls are safe where the slot is none of a file. -/
theorem derefsNoNull_socketCall
    {call : SystemCall} (hlive : k.fileSystem.LiveSlots)
    (hcall : call = .socketTCPConnect ∨ call = .socketTCPSend ∨
      call = .socketTCPReceive ∨ call = .socketTCPClose)
    (hkind : ¬FileSystem.outside (k.register 4).toInt →
      ¬k.fileSystem.HoldsFile (k.register 4).toInt) :
    DerefsNoNull (k.handle env call) := by
  rcases hcall with rfl | rfl | rfl | rfl
  · apply derefsNoNull_bind (derefsNoNull_user2System _ _)
    intro copied hcopy
    rcases copied with ⟨ip, k₁⟩
    rcases user2System_ok hcopy with ⟨m, -, -, rfl⟩
    exact derefsNoNull_bind (hlive.derefsNoNull_connectTCP hkind)
      fun _ _ => derefsNoNull_pure _
  · apply derefsNoNull_bind (derefsNoNull_user2System _ _)
    intro copied hcopy
    rcases copied with ⟨buff, k₁⟩
    rcases user2System_ok hcopy with ⟨m, -, -, rfl⟩
    simp only
    split
    · exact derefsNoNull_error (by simp)
    · exact derefsNoNull_send (k := { k with machine := m }) hlive hkind _ _
  · exact derefsNoNull_receive hlive hkind _ _
  · exact derefsNoNull_bind (hlive.derefsNoNull_closeTCP hkind)
      fun _ _ => derefsNoNull_pure _

/-- A call dispatches on the kind of its slot exactly if it is not one of
those that do not look at it: `Seek` of a socket, a socket call on a file
other than the console, and `Remove` while a socket is open before any file
with the name. -/
theorem kindCorrect_iff
    {call : SystemCall} (hlive : k.fileSystem.LiveSlots)
    (hcall : OnDescriptors call) :
    k.KindCorrect env call ↔
      (k.WrongKind call →
        k.descriptor call < reverseFD ∧ k.ArgumentsRead env call) ∧
      (call = .remove → k.NameBeforeSockets env) := by
  constructor
  · intro hcorrect
    refine ⟨fun hwrong => (refuses_iff hwrong).mp (hcorrect.refuses hwrong),
      ?_⟩
    rintro rfl
    exact (removeWorks_iff hlive).mp
      ⟨hcorrect.noNull, hcorrect.removes rfl⟩
  · rintro ⟨hkinds, hnames⟩
    constructor
    case noNull =>
      have hkind : k.WrongKind call → FileSystem.outside (k.descriptor call) :=
        fun hwrong => .inl (hkinds hwrong).1
      rcases hcall with rfl | rfl | rfl | rfl | rfl | hsocket
      · exact derefsNoNull_close hlive
      · exact derefsNoNull_read hlive
      · exact derefsNoNull_write hlive
      · apply derefsNoNull_seek hlive
        intro hreserved hsocket
        exact absurd (hkinds hsocket).1 (not_lt.mpr hreserved)
      · exact ((removeWorks_iff hlive).mpr (hnames rfl)).1
      · apply derefsNoNull_socketCall hlive hsocket
        intro hin hfile
        rcases hsocket with rfl | rfl | rfl | rfl
        all_goals exact hin (hkind hfile)
    case refuses => exact fun hwrong => (refuses_iff hwrong).mpr (hkinds hwrong)
    case removes =>
      rintro rfl
      exact ((removeWorks_iff hlive).mpr (hnames rfl)).2

/-- The slot 2 is the only one that is taken. -/
theorem onePage_liveSlots
    (call : SystemCall) {slot : FileSlot} (contents memory : List (BitVec 8))
    (hslot : slot.LiveFile ∨ slot.LiveSocket) :
    (onePage call slot contents memory).fileSystem.LiveSlots := by
  intro id _
  by_cases hid : id = 2
  · exact .inr ⟨slot, if_pos hid, hslot⟩
  · exact .inl (if_neg hid)

/-- `Read` of a socket goes to the socket. -/
theorem kindCorrect_read_socket :
    (onePage .read (.ofSocket (.object ⟨0⟩)) [1, 2, 3]
      [7, 7, 7]).KindCorrect willing .read := by
  refine (kindCorrect_iff ?_ (.inr (.inl rfl))).mpr ⟨False.elim, ?_⟩
  · exact onePage_liveSlots _ _ _ (.inr ⟨⟨0⟩, rfl⟩)
  · intro h
    cases h

/-- `Seek` of a socket follows a `NULL` pointer. -/
theorem seek_socket_derefs_null :
    (onePage .seek (.ofSocket (.object ⟨0⟩)) [] [7, 7]).fileSystem.LiveSlots ∧
      ¬(onePage .seek (.ofSocket (.object ⟨0⟩)) [] [7, 7]).KindCorrect willing
        .seek := by
  refine ⟨onePage_liveSlots _ _ _ (.inr ⟨⟨0⟩, rfl⟩), ?_⟩
  intro hcorrect
  have hsocket : (onePage .seek (.ofSocket (.object ⟨0⟩)) []
      [7, 7]).WrongKind .seek :=
    ⟨by decide, by decide, _, rfl, ⟨0⟩, rfl⟩
  apply hcorrect.noNull
  rw [seek_socket hsocket, if_neg (by decide)]

end Kernel

end Nachos
