import Mathlib.Data.List.TakeWhile
import Nachos.ReadCall

/-!
# What `Write` hands over

`User2System` stops at the first zero byte and leaves zeros behind it, while
the length of the write is taken from the register.  The console gets a zero
byte that the user did not write.
-/

namespace Nachos

/-- The bytes of a range as `User2System` puts them into its buffer. -/
def padded (bytes : List (BitVec 8)) : List (BitVec 8) :=
  cString bytes ++
    List.replicate (bytes.length - (cString bytes).length) 0

theorem length_cString_le (bytes : List (BitVec 8)) :
    (cString bytes).length ≤ bytes.length :=
  (List.takeWhile_prefix _).length_le

@[simp] theorem length_padded (bytes : List (BitVec 8)) :
    (padded bytes).length = bytes.length := by
  have hle := length_cString_le bytes
  simp only [padded, List.length_append, List.length_replicate]
  omega

theorem take_kernelBuffer
    {bytes : List (BitVec 8)} {limit : BitVec 32}
    (hlimit : bytes.length ≤ (limit + 1).toNat) :
    (Machine.kernelBuffer limit (cString bytes)).take bytes.length =
      padded bytes := by
  have hle := length_cString_le bytes
  rw [Machine.kernelBuffer, padded, List.take_append,
    List.take_of_length_le hle, List.take_replicate]
  congr 2
  omega

theorem cString_padded (bytes : List (BitVec 8)) :
    cString (padded bytes) = cString bytes := by
  have hnonzero : ∀ byte ∈ cString bytes, decide (byte ≠ 0) = true :=
    fun byte => List.mem_takeWhile_imp
  have hzeros : ∀ n, (List.replicate n (0 : BitVec 8)).takeWhile (· ≠ 0) =
      [] := by
    intro n
    cases n <;> rfl
  rw [padded, cString, List.takeWhile_append_of_pos hnonzero, hzeros,
    List.append_nil]

namespace Kernel

/-- The slot is that of the console output. -/
structure ConsoleAt (k : Kernel) (id : ℤ) (f : OpenFile) : Prop where
  slot : k.fileSystem.fileSlot id.toNat = .object (.ofFile (.object f))
  range : 0 ≤ id ∧ id < maxFileOpen
  type : f.type = 3

/-- Everything a call of `Write` can hand bytes to. -/
def targets (k : Kernel) :
    (ℕ → List (BitVec 8)) × List HostSocket × List (BitVec 8) :=
  (k.host.contents, k.host.sockets, k.consoleOut)

/-- The targets when the one of a slot has got the bytes: a file at its old
position. -/
def handed (k : Kernel) (id : ℤ) (bytes : List (BitVec 8)) :
    (ℕ → List (BitVec 8)) × List HostSocket × List (BitVec 8) :=
  match k.fileSystem.fileSlot id.toNat with
  | .object ⟨0, .object f, _⟩ =>
      if f.type = 3 then
        (k.host.contents, k.host.sockets, k.consoleOut ++ bytes)
      else
        match k.host.file f.file with
        | some position =>
            (Function.update k.host.contents position.inode
              (overwrite (k.host.contents position.inode) position.offset
                bytes), k.host.sockets, k.consoleOut)
        | none => k.targets
  | .object ⟨1, _, .object s⟩ =>
      (k.host.contents, k.host.sockets.modify s.fd fun socket =>
        { socket with outgoing := socket.outgoing ++ bytes }, k.consoleOut)
  | _ => k.targets

/-- A result of `Write` that is not negative counts the bytes of the user
that the target has got, and nothing else has been handed over. -/
def WriteDelivers (env : Environment) (k : Kernel)
    (user : List (BitVec 8)) : Prop :=
  ∀ k', k.handle env .write = .ok k' → 0 ≤ (k'.register 2).toInt →
    (k'.register 2).toInt ≤ (k.register 5).toInt ∧
      k'.targets = k.handed (k.register 6).toInt
        (user.take (k'.register 2).toInt.toNat)

/-- The slot is not the console.  A file that takes the bytes gets at least
one, and all behind the first zero byte are zeros; of the bytes for a socket
those that it accepts are. -/
def BufferUnharmed (env : Environment) (k : Kernel)
    (user : List (BitVec 8)) : Prop :=
  let id := (k.register 6).toInt
  (∀ f, ¬k.ConsoleAt id f) ∧
    (∀ f limit, k.FileAt id f → env.answer = some limit →
      user.length ≤ limit → user ≠ [] ∧ padded user = user) ∧
    (∀ s limit, k.SocketAt id s → env.answer = some limit →
      (padded user).take limit = user.take limit)

section Files

variable {env : Environment} {k : Kernel} {f : OpenFile}
variable {user : List (BitVec 8)}

/-- The handler has found the file and copied the user's buffer: it is about
to write. -/
theorem handle_write_eq
    (env : Environment)
    (hslot : k.fileSystem.fileSlot (k.register 6).toInt.toNat =
      .object (.ofFile (.object f)))
    (hrange : 0 ≤ (k.register 6).toInt ∧ (k.register 6).toInt < maxFileOpen)
    (hwritable : f.type ≠ 1 ∧ f.type ≠ 2)
    {buf : List (BitVec 8)} {machine : Machine}
    (hcopy : k.machine.user2System (k.register 4) (k.register 5) =
      .ok (buf, machine)) :
    let id := (k.register 6).toInt.toNat
    let f' := { f with currentOffset := k.host.tell f.file }
    let before : Kernel :=
      { k.setFile id (.ofFile (.object f)) f' with machine := machine }
    k.handle env .write =
      if f.type = 0 ∨ f.type = 4 then
        before.writeFile env id (.ofFile (.object f)) f'
          (k.host.tell f.file) (k.register 5).toInt buf
      else if f.type = 3 then before.writeConsole (k.register 5).toInt buf
      else .ok { before with machine := machine.pcIncrease } := by
  have hoccupied : k.occupied (k.register 6).toInt :=
    ⟨hrange.1, hrange.2, by rw [hslot]; rfl⟩
  have htype : (FileSlot.ofFile (.object f)).type ≠ 1 := by
    simp [FileSlot.ofFile]
  intro id f' before
  have hcopy' : (k.setFile id (.ofFile (.object f)) f').user2System
      (k.register 4) (k.register 5) = _ := user2System_eq hcopy
  simp only [handle, handleSCWrite, if_pos hoccupied, hslot,
    Pointer.deref_object, bind, Except.bind, if_neg htype]
  simp only [FileSlot.ofFile, Pointer.deref_object,
    if_neg (not_or.mpr hwritable), OpenFile.getCurrentPos] at hcopy' ⊢
  rw [hcopy']
  rfl

/-- The arguments of a call: the count is that of the user's bytes, which lie
in memory. -/
structure UserBuffer (k : Kernel) (user : List (BitVec 8)) : Prop where
  count : 0 ≤ (k.register 5).toInt
  distinct : k.machine.DistinctFrames
  holds : k.machine.HoldsBytes (k.register 4) user
  length : user.length = (k.register 5).toNat

theorem UserBuffer.toInt_eq (huser : k.UserBuffer user) :
    (k.register 5).toInt = user.length := by
  rw [huser.length]
  exact Machine.toInt_eq_toNat huser.count

theorem UserBuffer.le_memorySize (huser : k.UserBuffer user) :
    user.length ≤ memorySize := by
  apply huser.holds.le_memorySize huser.distinct
  rw [huser.length]
  exact (k.register 5).isLt

/-- `User2System` reads the user's bytes up to the first zero byte. -/
theorem UserBuffer.user2System_eq (huser : k.UserBuffer user) :
    ∃ buf machine, k.machine.user2System (k.register 4) (k.register 5) =
        .ok (buf, machine) ∧
      k.machine.SameMapping machine ∧
      machine.mainMemory = k.machine.mainMemory ∧
      buf.take user.length = padded user ∧ user.length < buf.length := by
  have hsize := huser.le_memorySize
  have hbound : memorySize = 16384 := rfl
  have hint := huser.toInt_eq
  have hnat : (k.register 5 + 1).toNat = user.length + 1 := by
    rw [BitVec.toNat_add, ← huser.length]
    exact Nat.mod_eq_of_lt (by simp; omega)
  rcases Machine.user2System_spec huser.holds (.inl (by omega))
      (Machine.add_one_nonneg (huser.length ▸ hsize)) with
    ⟨machine, hcopy, hsame, hmemory⟩
  rw [List.take_of_length_le (by omega)] at hcopy
  refine ⟨_, machine, hcopy, hsame, hmemory, take_kernelBuffer (by omega), ?_⟩
  have hle := length_cString_le user
  simp only [Machine.kernelBuffer, List.length_append, List.length_replicate]
  omega

/-- The types of a file that is not opened for reading only. -/
theorem FileAt.written
    {id : ℤ} (hfile : k.FileAt id f) (htype : f.type ≠ 1) :
    f.type = 0 ∨ f.type = 4 := by
  rcases hfile.type with h | h | h
  · exact .inl h
  · exact (htype h).elim
  · exact .inr h

/-- `Write` on a file that takes all of the bytes. -/
theorem handle_write_file
    (hfile : k.FileAt (k.register 6).toInt f) (htype : f.type ≠ 1)
    (huser : k.UserBuffer user) {limit : ℕ}
    (hanswer : env.answer = some limit) (hlimit : user.length ≤ limit) :
    ∃ k', k.handle env .write = .ok k' ∧
      k'.register 2 =
        (if user = [] then k.register 2 else BitVec.ofInt 32 user.length) ∧
      k'.targets = k.handed (k.register 6).toInt (padded user) := by
  rcases Option.ne_none_iff_exists'.mp hfile.opened with ⟨position, hopened⟩
  rcases huser.user2System_eq with
    ⟨buf, machine, hcopy, hsame, hmemory, htake, hbuf⟩
  have hwritten := hfile.written htype
  have hstdin : f.type ≠ 2 := by
    rcases hwritten with h | h <;> rw [h] <;> decide
  have hstdout : f.type ≠ 3 := by
    rcases hwritten with h | h <;> rw [h] <;> decide
  have hcall := handle_write_eq env hfile.slot hfile.range ⟨htype, hstdin⟩
    hcopy
  simp only [if_pos hwritten, writeFile, huser.toInt_eq, hanswer,
    Host.tell_eq hopened] at hcall
  have hwrite := OpenFile.write_eq
    (f := { f with currentOffset := (position.offset : ℤ) }) hopened rfl
    hbuf.le hlimit
  rw [htake] at hwrite
  simp only [setFile, hwrite, bind, Except.bind] at hcall
  have htargets : k.handed (k.register 6).toInt (padded user) =
      (Function.update k.host.contents position.inode
        (overwrite (k.host.contents position.inode) position.offset
          (padded user)), k.host.sockets, k.consoleOut) := by
    simp only [handed, hfile.slot, FileSlot.ofFile, if_neg hstdout, hopened]
  by_cases hempty : user = []
  · rw [hcall, htargets, if_neg (by simp [hempty])]
    refine ⟨_, rfl, ?_, rfl⟩
    rw [if_pos hempty]
    exact congrFun hsame.registers 2
  · have hpos : 0 < user.length := List.length_pos_iff.mpr hempty
    rw [hcall, htargets, if_pos (by exact_mod_cast hpos), if_neg hempty]
    refine ⟨_, rfl, ?_, rfl⟩
    have hposition : ∀ contents, (k.host.setContents position.inode
        contents).file f.file = some position := fun _ => hopened
    simp only [register_two_returns, OpenFile.getCurrentPos,
      Host.tell_eq (Host.file_setFile_self (hposition _) _)]
    congr 1
    push_cast
    omega

/-- `Write` on a file that does not take all of the bytes. -/
theorem handle_write_abort
    (hfile : k.FileAt (k.register 6).toInt f) (htype : f.type ≠ 1)
    (huser : k.UserBuffer user)
    (hanswer : ∀ limit, env.answer = some limit → limit < user.length) :
    k.handle env .write = .error .abort := by
  rcases Option.ne_none_iff_exists'.mp hfile.opened with ⟨position, hopened⟩
  rcases huser.user2System_eq with
    ⟨buf, machine, hcopy, hsame, hmemory, htake, hbuf⟩
  have hwritten := hfile.written htype
  have hstdin : f.type ≠ 2 := by
    rcases hwritten with h | h <;> rw [h] <;> decide
  have hcall := handle_write_eq env hfile.slot hfile.range ⟨htype, hstdin⟩
    hcopy
  simp only [if_pos hwritten, writeFile, huser.toInt_eq,
    Host.tell_eq hopened] at hcall
  have hwrite := OpenFile.write_abort
    (f := { f with currentOffset := (position.offset : ℤ) }) hopened rfl
    hbuf.le hanswer
  simp only [setFile, hwrite, bind, Except.bind] at hcall
  exact hcall

/-- `Write` on the console. -/
theorem handle_write_console
    (env : Environment) (hconsole : k.ConsoleAt (k.register 6).toInt f)
    (huser : k.UserBuffer user) :
    ∃ k', k.handle env .write = .ok k' ∧
      k'.register 2 = BitVec.ofInt 32 (cString user).length ∧
      k'.targets =
        k.handed (k.register 6).toInt (cString user ++ [0]) := by
  rcases huser.user2System_eq with
    ⟨buf, machine, hcopy, hsame, hmemory, htake, hbuf⟩
  have hwritable : f.type ≠ 1 ∧ f.type ≠ 2 := by
    rw [hconsole.type]
    decide
  have hfile : ¬(f.type = 0 ∨ f.type = 4) := by
    rw [hconsole.type]
    decide
  have hcall := handle_write_eq env hconsole.slot hconsole.range hwritable
    hcopy
  have hcount : ¬(user.length : ℤ) < 0 := by omega
  simp only [if_neg hfile, if_pos hconsole.type, writeConsole, huser.toInt_eq,
    if_neg hcount, Int.toNat_natCast, htake, cString_padded] at hcall
  refine ⟨_, hcall, rfl, ?_⟩
  simp only [handed, hconsole.slot, FileSlot.ofFile, if_pos hconsole.type,
    targets, returns_host, returns_consoleOut, setFile, List.append_assoc]

end Files

section Sockets

variable {env : Environment} {k : Kernel} {s : OpenFileSocket}
variable {user : List (BitVec 8)}

/-- `Write` on a socket. -/
theorem handle_write_socket
    (env : Environment) (hsocket : k.SocketAt (k.register 6).toInt s)
    (huser : k.UserBuffer user) :
    ∃ k', k.handle env .write = .ok k' ∧
      (env.answer = none → k'.register 2 = -1) ∧
      ∀ limit, env.answer = some limit →
        k'.register 2 =
          BitVec.ofInt 32 ((padded user).take limit).length ∧
        k'.targets =
          k.handed (k.register 6).toInt ((padded user).take limit) := by
  rcases huser.user2System_eq with
    ⟨buf, machine, hcopy, hsame, hmemory, htake, hbuf⟩
  have htype : (FileSlot.ofSocket (.object s)).type = 1 := rfl
  have hcopy' : k.user2System (k.register 4) (k.register 5) = _ :=
    user2System_eq hcopy
  have hsend : k.fileSystem.sendTCP k.host (k.register 6).toInt buf
      user.length env.answer =
        .ok (k.host.send s.fd (padded user) env.answer) := by
    have hrange : (0 : ℤ) ≤ user.length ∧
        (user.length : ℤ) ≤ buf.length := by omega
    rw [FileSystem.sendTCP, if_neg hsocket.not_outside,
      if_neg hsocket.not_isNull, FileSystem.socketAt_eq hsocket.slot]
    simp only [bind, Except.bind, if_pos hrange, Int.toNat_natCast, htake]
    rfl
  have hcall : k.handle env .write = .ok
      (({ k with machine := machine
                 host := (k.host.send s.fd (padded user) env.answer).2 }).returns
        (bytesCount (k.host.send s.fd (padded user) env.answer).1)) := by
    simp only [handle, handleSCWrite, if_pos hsocket.occupied, hsocket.slot,
      Pointer.deref_object, bind, Except.bind, if_pos htype, hcopy',
      Kernel.send, huser.toInt_eq, hsend]
    rfl
  refine ⟨_, hcall, ?_, ?_⟩
  · intro hanswer
    rw [hanswer]
    rfl
  · intro limit hanswer
    rw [hanswer]
    refine ⟨rfl, ?_⟩
    simp only [handed, hsocket.slot, FileSlot.ofSocket, targets, returns_host,
      returns_consoleOut, Host.send, Host.modifySocket]

end Sockets

/-! ## When the target gets the user's bytes -/

section Delivery

variable {env : Environment} {k : Kernel}
variable {user bytes bytes' : List (BitVec 8)}

theorem handed_inj_file
    {id : ℤ} {f : OpenFile} (hfile : k.FileAt id f)
    (hlength : bytes.length = bytes'.length) :
    k.handed id bytes = k.handed id bytes' ↔ bytes = bytes' := by
  have hstdout : f.type ≠ 3 := by
    rcases hfile.type with h | h | h <;> rw [h] <;> decide
  rcases Option.ne_none_iff_exists'.mp hfile.opened with ⟨position, hopened⟩
  refine ⟨fun heq => ?_, fun heq => by rw [heq]⟩
  simp only [handed, hfile.slot, FileSlot.ofFile, if_neg hstdout, hopened,
    Prod.mk.injEq, and_true] at heq
  have hcontents := congrFun heq position.inode
  rw [Function.update_self, Function.update_self] at hcontents
  exact (overwrite_inj hlength).mp hcontents

theorem handed_inj_socket
    {id : ℤ} {s : OpenFileSocket} (hsocket : k.SocketAt id s) :
    k.handed id bytes = k.handed id bytes' ↔ bytes = bytes' := by
  rcases Option.ne_none_iff_exists'.mp hsocket.opened with ⟨socket, hopened⟩
  refine ⟨fun heq => ?_, fun heq => by rw [heq]⟩
  simp only [handed, hsocket.slot, FileSlot.ofSocket, Prod.mk.injEq,
    and_true, true_and] at heq
  have hget := congrArg (fun sockets => sockets[s.fd]?) heq
  simpa [List.getElem?_modify_eq, hopened] using hget

theorem handed_inj_console
    {id : ℤ} {f : OpenFile} (hconsole : k.ConsoleAt id f) :
    k.handed id bytes = k.handed id bytes' ↔ bytes = bytes' := by
  refine ⟨fun heq => ?_, fun heq => by rw [heq]⟩
  simpa only [handed, hconsole.slot, FileSlot.ofFile, if_pos hconsole.type,
    Prod.mk.injEq, true_and, List.append_cancel_left_eq] using heq

theorem not_consoleAt_of_fileAt
    {id : ℤ} {f : OpenFile} (hfile : k.FileAt id f) (f' : OpenFile) :
    ¬k.ConsoleAt id f' := by
  intro hconsole
  have hslot := hfile.slot.symm.trans hconsole.slot
  obtain rfl : f = f' := by simpa [FileSlot.ofFile] using hslot
  rcases hfile.type with h | h | h <;>
    exact absurd (h.symm.trans hconsole.type) (by decide)

theorem not_consoleAt_of_socketAt
    {id : ℤ} {s : OpenFileSocket} (hsocket : k.SocketAt id s)
    (f : OpenFile) : ¬k.ConsoleAt id f := by
  intro hconsole
  have hslot := hsocket.slot.symm.trans hconsole.slot
  simp [FileSlot.ofFile, FileSlot.ofSocket] at hslot

theorem writeDelivers_iff_file
    {f : OpenFile} (hfile : k.FileAt (k.register 6).toInt f)
    (htype : f.type ≠ 1) (huser : k.UserBuffer user)
    (hcode : k.register 2 = SystemCall.write.code) :
    k.WriteDelivers env user ↔ k.BufferUnharmed env user := by
  have hsize := huser.le_memorySize
  by_cases htakes : ∃ limit, env.answer = some limit ∧ user.length ≤ limit
  · rcases htakes with ⟨limit, hanswer, hlimit⟩
    rcases handle_write_file hfile htype huser hanswer hlimit with
      ⟨k', hcall, hregister, htargets⟩
    have hunharmed : k.BufferUnharmed env user ↔
        user ≠ [] ∧ padded user = user := by
      constructor
      · intro h
        exact h.2.1 f limit hfile hanswer hlimit
      · intro h
        exact ⟨fun f' => not_consoleAt_of_fileAt hfile f',
          fun _ _ _ _ _ => h, fun s _ hs =>
            (not_socketAt_of_fileAt hfile s hs).elim⟩
    rw [hunharmed]
    by_cases hempty : user = []
    · -- register 2 still holds the number of the call
      have hresult : (k'.register 2).toInt = 8 := by
        rw [hregister, if_pos hempty, hcode]
        rfl
      constructor
      · intro hdelivers
        have hle := (hdelivers k' hcall (by omega)).1
        rw [hresult, huser.toInt_eq, hempty] at hle
        exact absurd hle (by decide)
      · intro h
        exact (h.1 hempty).elim
    · have hresult : (k'.register 2).toInt = user.length := by
        rw [hregister, if_neg hempty]
        exact Machine.toInt_ofInt_natCast hsize
      constructor
      · intro hdelivers
        have heq := (hdelivers k' hcall (by omega)).2
        rw [htargets, hresult, Int.toNat_natCast, List.take_length,
          handed_inj_file hfile (length_padded user)] at heq
        exact ⟨hempty, heq⟩
      · rintro ⟨-, heq⟩ k'' hcall' -
        obtain rfl : k' = k'' := Except.ok.inj (hcall.symm.trans hcall')
        refine ⟨by rw [hresult, huser.toInt_eq], ?_⟩
        rw [htargets, hresult, Int.toNat_natCast, List.take_length, heq]
  · push Not at htakes
    have habort := handle_write_abort hfile htype huser htakes
    constructor
    · intro _
      exact ⟨fun f' => not_consoleAt_of_fileAt hfile f',
        fun _ limit _ hanswer hlimit =>
          absurd (htakes limit hanswer) (not_lt.mpr hlimit),
        fun s _ hs => (not_socketAt_of_fileAt hfile s hs).elim⟩
    · intro _ k' hcall
      rw [habort] at hcall
      cases hcall

theorem writeDelivers_iff_socket
    {s : OpenFileSocket} (hsocket : k.SocketAt (k.register 6).toInt s)
    (huser : k.UserBuffer user) :
    k.WriteDelivers env user ↔ k.BufferUnharmed env user := by
  have hsize := huser.le_memorySize
  rcases handle_write_socket env hsocket huser with
    ⟨k', hcall, hfailed, hsent⟩
  have hother : (∀ f, ¬k.ConsoleAt (k.register 6).toInt f) ∧
      ∀ f, ¬k.FileAt (k.register 6).toInt f :=
    ⟨not_consoleAt_of_socketAt hsocket,
      fun f hfile => not_socketAt_of_fileAt hfile s hsocket⟩
  cases hanswer : env.answer with
  | none =>
      constructor
      · intro _
        refine ⟨hother.1, fun f _ hfile => (hother.2 f hfile).elim, ?_⟩
        intro _ limit _ hsome
        cases hanswer.symm.trans hsome
      · intro _ k'' hcall' hpos
        obtain rfl : k' = k'' := Except.ok.inj (hcall.symm.trans hcall')
        rw [hfailed hanswer] at hpos
        exact absurd hpos (by decide)
  | some limit =>
      rcases hsent limit hanswer with ⟨hregister, htargets⟩
      have hlength : ((padded user).take limit).length =
          min limit user.length := by
        rw [List.length_take, length_padded]
      have hresult : (k'.register 2).toInt = (min limit user.length : ℕ) := by
        rw [hregister, hlength]
        exact Machine.toInt_ofInt_natCast
          ((min_le_right _ _).trans hsize)
      have htake : user.take (min limit user.length) = user.take limit :=
        List.take_eq_take_min.symm
      constructor
      · intro hdelivers
        refine ⟨hother.1, fun f _ hfile => (hother.2 f hfile).elim, ?_⟩
        intro s' limit' _ hsome
        obtain rfl : limit = limit' :=
          Option.some.inj (hanswer.symm.trans hsome)
        have heq := (hdelivers k' hcall (by omega)).2
        rwa [htargets, hresult, Int.toNat_natCast, htake,
          handed_inj_socket hsocket] at heq
      · rintro ⟨-, -, hunharmed⟩ k'' hcall' -
        obtain rfl : k' = k'' := Except.ok.inj (hcall.symm.trans hcall')
        refine ⟨by rw [hresult, huser.toInt_eq]; omega, ?_⟩
        rw [htargets, hresult, Int.toNat_natCast, htake,
          hunharmed s limit hsocket hanswer]

theorem not_writeDelivers_console
    {f : OpenFile} (hconsole : k.ConsoleAt (k.register 6).toInt f)
    (huser : k.UserBuffer user) : ¬k.WriteDelivers env user := by
  rcases handle_write_console env hconsole huser with
    ⟨k', hcall, hregister, htargets⟩
  have hle := length_cString_le user
  have hresult : (k'.register 2).toInt = (cString user).length := by
    rw [hregister]
    exact Machine.toInt_ofInt_natCast (hle.trans huser.le_memorySize)
  intro hdelivers
  have heq := (hdelivers k' hcall (by omega)).2
  rw [htargets, hresult, Int.toNat_natCast, handed_inj_console hconsole] at heq
  have hlength := congrArg List.length heq
  rw [List.length_append, List.length_take] at hlength
  simp only [List.length_singleton] at hlength
  omega

/-- `Write` hands over the user's bytes if and only if the buffer is
unharmed. -/
theorem write_delivers_iff
    (hslot : (∃ f, k.FileAt (k.register 6).toInt f ∧ f.type ≠ 1) ∨
      (∃ s, k.SocketAt (k.register 6).toInt s) ∨
      ∃ f, k.ConsoleAt (k.register 6).toInt f)
    (huser : k.UserBuffer user)
    (hcode : k.register 2 = SystemCall.write.code) :
    k.WriteDelivers env user ↔ k.BufferUnharmed env user := by
  rcases hslot with ⟨f, hfile, htype⟩ | ⟨s, hsocket⟩ | ⟨f, hconsole⟩
  · exact writeDelivers_iff_file hfile htype huser hcode
  · exact writeDelivers_iff_socket hsocket huser
  · refine iff_of_false (not_writeDelivers_console hconsole huser) ?_
    rintro ⟨hnot, -, -⟩
    exact hnot f hconsole

end Delivery

/-- Three bytes without a zero among them. -/
theorem write_delivers_iff_onePage :
    (onePage .write (fileSlotOf 0) [] [1, 2, 3]).WriteDelivers willing
      [1, 2, 3] := by
  have hfile := onePage_fileAt .write [] [1, 2, 3]
  refine (write_delivers_iff (.inl ⟨_, hfile, by decide⟩)
    ⟨by decide, onePage_distinctFrames _ _ _ _, by decide, rfl⟩ rfl).mpr
      ⟨fun f => not_consoleAt_of_fileAt hfile f, ?_, ?_⟩
  · intro f limit _ _ _
    decide
  · intro s limit hsocket
    exact (not_socketAt_of_fileAt hfile s hsocket).elim

/-- Of the bytes 1, 0, 2 the file gets 1, 0, 0, and the result is 3. -/
theorem write_not_delivered :
    ¬(onePage .write (fileSlotOf 0) [] [1, 0, 2]).WriteDelivers willing
      [1, 0, 2] := by
  have hfile := onePage_fileAt .write [] [1, 0, 2]
  intro hdelivers
  have hunharmed := (writeDelivers_iff_file hfile (by decide)
    ⟨by decide, onePage_distinctFrames _ _ _ _, by decide, rfl⟩ rfl).mp
      hdelivers
  exact absurd (hunharmed.2.1 _ memorySize hfile rfl (by decide)).2
    (by decide)

end Kernel

end Nachos
