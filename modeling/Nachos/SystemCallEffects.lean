import Nachos.SystemCalls

/-!
# What a system call does

A handler that returns has left the registers alone except for the result and
the program counter, and has made one of a few moves on the descriptor table
and the files of the host.  `Effect` lists these moves; that each handler makes
one of them is the only place where the bodies of the handlers are taken
apart.
-/

namespace Nachos

/-- Two states of the host with the same files, opened by the same
descriptors. -/
structure Host.SameFiles (h h' : Host) : Prop where
  directory : h'.directory = h.directory
  inodes : h'.inodes = h.inodes
  contents : h'.contents = h.contents
  opened : h'.files.length = h.files.length
  inode : ∀ fd, (h'.file fd).map HostFile.inode =
    (h.file fd).map HostFile.inode

namespace Host

namespace SameFiles

theorem refl (h : Host) : h.SameFiles h :=
  ⟨rfl, rfl, rfl, rfl, fun _ => rfl⟩

theorem trans
    {h h' h'' : Host} (hfirst : h.SameFiles h') (hsecond : h'.SameFiles h'') :
    h.SameFiles h'' where
  directory := hsecond.directory.trans hfirst.directory
  inodes := hsecond.inodes.trans hfirst.inodes
  contents := hsecond.contents.trans hfirst.contents
  opened := hsecond.opened.trans hfirst.opened
  inode := fun fd => (hsecond.inode fd).trans (hfirst.inode fd)

end SameFiles

variable {h h' : Host} {fd : ℕ}

/-- A descriptor moves to another place of its file. -/
theorem sameFiles_setFile
    {f : HostFile} (hfile : h.file fd = some f) (offset : ℕ) :
    h.SameFiles (h.setFile fd (some { f with offset := offset })) where
  directory := rfl
  inodes := rfl
  contents := rfl
  opened := by simp [setFile]
  inode := fun fd' => by
    by_cases heq : fd' = fd
    · subst heq
      rw [file_setFile_self hfile, hfile]
      rfl
    · rw [file_setFile_of_ne heq]

theorem sameFiles_of_lseek
    {offset : ℤ} (hseek : h.lseek fd offset = .ok h') : h.SameFiles h' := by
  unfold lseek at hseek
  split at hseek
  next f hfile =>
    split_ifs at hseek
    cases hseek
    exact sameFiles_setFile hfile _
  next => cases hseek

theorem sameFiles_of_lseekEnd (hseek : h.lseekEnd fd = .ok h') :
    h.SameFiles h' := by
  unfold lseekEnd at hseek
  split at hseek
  next f hfile =>
    cases hseek
    exact sameFiles_setFile hfile _
  next => cases hseek

theorem sameFiles_readPartial (numBytes : ℕ) (answer : HostAnswer) :
    h.SameFiles (h.readPartial fd numBytes answer).2 := by
  unfold readPartial
  split
  next f limit hfile => exact sameFiles_setFile hfile _
  next => exact .refl h

theorem sameFiles_modifySocket (change : HostSocket → HostSocket) :
    h.SameFiles (h.modifySocket fd change) :=
  ⟨rfl, rfl, rfl, rfl, fun _ => rfl⟩

theorem sameFiles_receive (len : ℕ) (answer : HostAnswer) :
    h.SameFiles (h.receive fd len answer).2 := by
  cases answer with
  | none => exact .refl h
  | some limit => exact sameFiles_modifySocket _

theorem sameFiles_send (bytes : List (BitVec 8)) (answer : HostAnswer) :
    h.SameFiles (h.send fd bytes answer).2 := by
  cases answer with
  | none => exact .refl h
  | some limit => exact sameFiles_modifySocket _

end Host

namespace OpenFile

variable {f f' : OpenFile} {h h' : Host} {answer : HostAnswer}

theorem sameFiles_of_readAt
    {numBytes : ℕ} {position : ℤ} {bytes : Option (List (BitVec 8))}
    (hread : f.readAt h numBytes position answer = .ok (bytes, h')) :
    h.SameFiles h' := by
  rcases ok_of_bind hread with ⟨sought, hseek, hresult⟩
  have hafter : (sought.readPartial f.file numBytes answer).2 = h' :=
    congrArg Prod.snd (Except.ok.inj hresult)
  rw [← hafter]
  exact (Host.sameFiles_of_lseek hseek).trans
    (Host.sameFiles_readPartial numBytes answer)

/-- `Read` moves the position of the file. -/
theorem read_ok
    {numBytes : ℕ} {bytes : Option (List (BitVec 8))}
    (hread : f.read h numBytes answer = .ok (bytes, f', h')) :
    (∃ position, f' = { f with currentOffset := position }) ∧
      h.SameFiles h' := by
  rcases ok_of_bind hread with ⟨⟨bytes', after⟩, hat, hresult⟩
  cases hresult
  exact ⟨⟨_, rfl⟩, sameFiles_of_readAt hat⟩

theorem sameFiles_of_length
    {length : ℤ} (hlength : f.length h = .ok (length, h')) :
    h.SameFiles h' := by
  rcases ok_of_bind hlength with ⟨after, hseek, hresult⟩
  cases hresult
  exact Host.sameFiles_of_lseekEnd hseek

theorem seek_ok
    {position : ℤ} (hseek : f.seek h position = .ok (f', h')) :
    (∃ position, f' = { f with currentOffset := position }) ∧
      h.SameFiles h' := by
  rcases ok_of_bind hseek with ⟨after, hlseek, hresult⟩
  cases hresult
  exact ⟨⟨_, rfl⟩, Host.sameFiles_of_lseek hlseek⟩

/-- `Write` at the place where the descriptor is. -/
theorem write_ok
    {buffer : List (BitVec 8)} {numBytes numWritten : ℤ}
    (hoffset : f.currentOffset = h.tell f.file)
    (hwrite : f.write h buffer numBytes answer = .ok (numWritten, f', h')) :
    ∃ position bytes, h.file f.file = some position ∧
      numWritten = bytes.length ∧ numBytes = numWritten ∧
      f' = { f with currentOffset := position.offset + bytes.length } ∧
      h' = (h.setContents position.inode (overwrite
        (h.contents position.inode) position.offset bytes)).setFile f.file
          (some { position with offset := position.offset + bytes.length }) := by
  rcases ok_of_bind hwrite with ⟨⟨count, after⟩, hat, hresult⟩
  cases hresult
  rcases ok_of_bind hat with ⟨sought, hseek, hat⟩
  cases hfile : h.file f.file with
  | none =>
      simp only [Host.lseek, hfile] at hseek
      cases hseek
  | some position =>
      have htell := Host.tell_eq hfile
      rw [hoffset, htell, Host.lseek_self hfile] at hseek
      obtain rfl : h = sought := by simpa using hseek
      split at hat
      next hrange =>
        rcases ok_of_bind hat with ⟨written, hhost, hresult⟩
        cases hresult
        have hlength : ((buffer.take numBytes.toNat).length : ℤ) =
            numBytes := by
          rw [List.length_take]
          omega
        unfold Host.writeFile at hhost
        rw [hfile] at hhost
        cases answer with
        | none => cases hhost
        | some limit =>
            simp only at hhost
            split_ifs at hhost
            refine ⟨position, buffer.take numBytes.toNat, rfl, hlength.symm,
              rfl, ?_, ?_⟩
            · rw [hoffset, htell, hlength]
            · simpa using hhost.symm
      next => cases hat

end OpenFile

/-- The calls that neither name a file nor take or free a slot. -/
def SystemCall.KeepsTable (call : SystemCall) : Prop :=
  call ∉ [SystemCall.create, .open, .close, .remove, .exec, .socketTCPOpen,
    .socketTCPClose]

instance (call : SystemCall) : Decidable call.KeepsTable := by
  unfold SystemCall.KeepsTable
  infer_instance

namespace Kernel

/-! ## The ways a handler ends -/

/-- The handler has returned, with this table, this state of the host, and
what it wrote into register 2. -/
structure Returned (k k' : Kernel) (fs : FileSystem) (h : Host)
    (result : Option ℤ) : Prop where
  fileSystem : k'.fileSystem = fs
  host : k'.host = h
  machine : ∃ m, k.machine.SameMapping m ∧
    k'.machine = (match result with
      | some result => m.writeRegister 2 (BitVec.ofInt 32 result)
      | none => m).pcIncrease

theorem Returned.register_two
    {k k' : Kernel} {fs : FileSystem} {h : Host} {result : ℤ}
    (hreturned : k.Returned k' fs h (some result)) :
    k'.register 2 = BitVec.ofInt 32 result := by
  rcases hreturned.machine with ⟨m, -, hmachine⟩
  rw [register, hmachine]
  rfl

/-- What a call that returns has done with the descriptor table and the files
of the host, and its result. -/
inductive Effect (env : Environment) (k : Kernel) :
    SystemCall → FileSystem → Host → Option ℤ → Prop
  | refused {call : SystemCall} :
      Effect env k call k.fileSystem k.host (some (-1))
  | answered {call : SystemCall} {h : Host} {result : ℤ} :
      call.KeepsTable → k.host.SameFiles h →
        Effect env k call k.fileSystem h (some result)
  /-- The console is open already. -/
  | console {result : ℤ} :
      (k.register 5).toInt ≠ 0 → (k.register 5).toInt ≠ 1 →
        (k.register 5).toInt ≠ 4 →
        Effect env k .open k.fileSystem k.host (some result)
  | created {filename : List (BitVec 8)} {m : Machine} {h : Host} :
      k.machine.user2System (k.register 4) (maxFileLength + 1) =
        .ok (filename, m) →
      FileSystem.create k.host (cString filename) env.answer =
        .ok (true, h) →
        Effect env k .create k.fileSystem h (some 0)
  | opened {filename : List (BitVec 8)} {m : Machine} {id : ℕ}
      {f : Pointer OpenFile} {h : Host} :
      k.machine.user2System (k.register 4) maxFileLength =
        .ok (filename, m) →
      k.fileSystem.findFreeSlot = some id →
      FileSystem.openTyped k.host (cString filename) (k.register 5).toInt id
        env.answer = .ok (f, h) →
      (k.register 5).toInt = 0 ∨ (k.register 5).toInt = 1 ∨
        (k.register 5).toInt = 4 →
        Effect env k .open
          (k.fileSystem.setSlot id (.object (.ofFile (freeName f)))) h
          (some id)
  | closed {slot : FileSlot} {h : Host} :
      2 ≤ (k.register 4).toInt → (k.register 4).toInt < maxFileOpen →
      k.fileSystem.fileSlot (k.register 4).toInt.toNat = .object slot →
      slot.type ≠ 1 → slot.delete k.host = .ok h →
        Effect env k .close
          (k.fileSystem.setSlot (k.register 4).toInt.toNat .null) h (some 0)
  | socketClosed {call : SystemCall} {slot : FileSlot} {h : Host} :
      call = .close ∧ slot.type = 1 ∨ call = .socketTCPClose →
      2 ≤ (k.register 4).toInt → (k.register 4).toInt < maxFileOpen →
      k.fileSystem.fileSlot (k.register 4).toInt.toNat = .object slot →
        Effect env k call
          (k.fileSystem.setSlot (k.register 4).toInt.toNat .dangling) h
          (some 0)
  /-- The position of an open file is another one. -/
  | moved {call : SystemCall} {id : ℕ} {slot : FileSlot} {f : OpenFile}
      {position : ℤ} {h : Host} {result : Option ℤ} :
      call = .read ∨ call = .write ∨ call = .seek →
      k.fileSystem.fileSlot id = .object slot → slot.fileOpen = .object f →
      k.host.SameFiles h →
        Effect env k call
          (k.fileSystem.setSlot id (.object { slot with
            fileOpen := .object { f with currentOffset := position } })) h
          result
  | written {slot : FileSlot} {f : OpenFile} {position : HostFile}
      {bytes : List (BitVec 8)} :
      k.occupied (k.register 6).toInt →
      k.fileSystem.fileSlot (k.register 6).toInt.toNat = .object slot →
      slot.fileOpen = .object f → f.type = 0 ∨ f.type = 4 →
      k.host.file f.file = some position →
      (k.register 5).toInt = bytes.length →
        Effect env k .write
          (k.fileSystem.setSlot (k.register 6).toInt.toNat (.object { slot with
            fileOpen := .object { f with
              currentOffset := position.offset + bytes.length } }))
          ((k.host.setContents position.inode (overwrite
            (k.host.contents position.inode) position.offset bytes)).setFile
              f.file (some { position with
                offset := position.offset + bytes.length }))
          (if bytes = [] then none else some bytes.length)
  | removed {filename : List (BitVec 8)} {m : Machine} :
      k.machine.user2System (k.register 4) (maxFileLength + 1) =
        .ok (filename, m) →
        Effect env k .remove k.fileSystem
          (FileSystem.remove k.host (cString filename)).2
          (some (if (FileSystem.remove k.host (cString filename)).1 then 0
            else -1))
  | socketOpened {id fd : ℕ} {h : Host} :
      k.fileSystem.findFreeSlot = some id →
      k.host.openSocketInternet env.answer = .ok (fd, h) →
        Effect env k .socketTCPOpen
          (k.fileSystem.setSlot id (.object (.ofSocket (.object ⟨fd⟩)))) h
          (some id)
  /-- There was no such program, or no slot for it. -/
  | notExecuted {filename : List (BitVec 8)} {m : Machine} {h : Host} :
      k.machine.user2System (k.register 4) (maxFileLength + 1) =
        .ok (filename, m) →
      k.fileSystem.openNamed k.host (cString filename) env.openType =
        (none, k.fileSystem, h) →
        Effect env k .exec k.fileSystem h (some (-1))
  /-- The slot that was taken for the program stays taken. -/
  | executed {id : ℕ} {h : Host} {n : ℤ} :
      k.fileSystem.findFreeSlot = some id →
        Effect env k .exec
          (k.fileSystem.setSlot id (.object (.ofFile .dangling))) h (some n)

/-- The call has ended in one of the ways listed. -/
def Ends (env : Environment) (k : Kernel) (call : SystemCall)
    (k' : Kernel) : Prop :=
  ∃ fs h result, k.Returned k' fs h result ∧ k.Effect env call fs h result

variable {env : Environment} {k k₁ k' : Kernel} {call : SystemCall}

theorem ends_of_returns
    {result : ℤ} (hmap : k.machine.SameMapping k₁.machine)
    (heffect : k.Effect env call k₁.fileSystem k₁.host (some result)) :
    k.Ends env call (k₁.returns result) := by
  refine ⟨k₁.fileSystem, k₁.host, some result, ?_, heffect⟩
  constructor
  case fileSystem => rfl
  case host => rfl
  case machine => exact ⟨k₁.machine, hmap, rfl⟩

/-- The handler of `Write` may end without a result. -/
theorem ends_of_pcIncrease
    {m : Machine} {fs : FileSystem} {h : Host}
    {input output : List (BitVec 8)} (hmap : k.machine.SameMapping m)
    (heffect : k.Effect env call fs h none) :
    k.Ends env call ⟨m.pcIncrease, fs, h, input, output⟩ := by
  refine ⟨fs, h, none, ?_, heffect⟩
  constructor
  case fileSystem => rfl
  case host => rfl
  case machine => exact ⟨m, hmap, rfl⟩

theorem ends_refused : k.Ends env call (k.returns (-1)) :=
  ends_of_returns (.refl _) .refused

theorem user2System_ok
    {addr limit : BitVec 32} {buffer : List (BitVec 8)}
    (hcopy : k.user2System addr limit = .ok (buffer, k')) :
    ∃ m, k.machine.user2System addr limit = .ok (buffer, m) ∧
      k.machine.SameMapping m ∧ k' = { k with machine := m } := by
  rcases ok_of_bind hcopy with ⟨⟨bytes, m⟩, hmachine, hresult⟩
  cases hresult
  exact ⟨m, hmachine, (Machine.sameMapping_of_user2System hmachine).1, rfl⟩

theorem system2User_ok
    {addr : BitVec 32} {len count : ℤ} {buffer : List (BitVec 8)}
    (hcopy : k.system2User addr len buffer = .ok (count, k')) :
    ∃ m, k.machine.SameMapping m ∧ k' = { k with machine := m } := by
  rcases ok_of_bind hcopy with ⟨⟨count', m⟩, hmachine, hresult⟩
  cases hresult
  exact ⟨m, Machine.sameMapping_of_system2User hmachine, rfl⟩

/-! ## Files -/

theorem ends_create (hcall : k.handleSCCreate env = .ok k') :
    k.Ends env .create k' := by
  rcases ok_of_bind hcall with ⟨⟨filename, k₁⟩, hcopy, hcall⟩
  rcases user2System_ok hcopy with ⟨m, hname, hmap, rfl⟩
  rcases ok_of_bind hcall with ⟨⟨created, host⟩, hcreate, hresult⟩
  cases hresult
  obtain rfl : created = true := by
    rcases ok_of_bind hcreate with ⟨⟨fd, h⟩, -, hclose⟩
    rcases ok_of_bind hclose with ⟨h', -, hdone⟩
    cases hdone
    rfl
  exact ends_of_returns hmap (.created hname hcreate)

theorem ends_open (hcall : k.handleSCOpen env = .ok k') :
    k.Ends env .open k' := by
  rcases ok_of_bind hcall with ⟨⟨filename, k₁⟩, hcopy, hcall⟩
  rcases user2System_ok hcopy with ⟨m, hname, hmap, rfl⟩
  simp only at hcall
  split at hcall
  next hfull =>
    cases hcall
    exact ends_of_returns hmap .refused
  next id hfree =>
    split_ifs at hcall with hfile hstdin
    · rcases ok_of_bind hcall with ⟨⟨f, host⟩, hopen, hresult⟩
      cases hresult
      exact ends_of_returns hmap (.opened hname hfree hopen hfile)
    · cases hcall
      exact ends_of_returns hmap (.console (by omega) (by omega) (by omega))
    · cases hcall
      exact ends_of_returns hmap (.console (by omega) (by omega) (by omega))

theorem closeTCP_ok
    {fs fs' : FileSystem} {h h' : Host} {id rVal : ℤ}
    (hclose : fs.closeTCP h id = .ok (rVal, fs', h')) :
    (rVal = -1 ∧ fs' = fs ∧ h' = h) ∨
      ∃ slot, 2 ≤ id ∧ id < maxFileOpen ∧
        fs.fileSlot id.toNat = .object slot ∧ rVal = 0 ∧
        fs' = fs.setSlot id.toNat .dangling := by
  unfold FileSystem.closeTCP at hclose
  split_ifs at hclose with hout hnull
  · cases hclose
    exact .inl ⟨rfl, rfl, rfl⟩
  · cases hclose
    exact .inl ⟨rfl, rfl, rfl⟩
  · rcases ok_of_bind hclose with ⟨fd, -, hclose⟩
    rcases ok_of_bind hclose with ⟨slot, hslot, hclose⟩
    rcases ok_of_bind hclose with ⟨host, -, hresult⟩
    cases hresult
    rcases not_or.mp hout with ⟨hlow, hhigh⟩
    exact .inr ⟨slot, not_lt.mp hlow, not_le.mp hhigh,
      Pointer.object_of_deref hslot, rfl, rfl⟩

theorem ends_close (hcall : k.handleSCClose = .ok k') :
    k.Ends env .close k' := by
  unfold handleSCClose at hcall
  simp only at hcall
  split_ifs at hcall with hid
  · rcases hid with ⟨hlow, -, hhigh, -⟩
    rcases ok_of_bind hcall with ⟨slot, hslot, hcall⟩
    have hat := Pointer.object_of_deref hslot
    split_ifs at hcall with htype
    · rcases ok_of_bind hcall with ⟨⟨rVal, fs, host⟩, hclose, hresult⟩
      cases hresult
      rcases closeTCP_ok hclose with
        ⟨rfl, rfl, rfl⟩ | ⟨slot', -, -, -, rfl, rfl⟩
      · exact ends_refused
      · exact ends_of_returns (.refl _)
          (.socketClosed (.inl ⟨rfl, htype⟩) hlow hhigh hat)
    · rcases ok_of_bind hcall with ⟨host, hdelete, hresult⟩
      cases hresult
      exact ends_of_returns (.refl _)
        (.closed hlow hhigh hat htype hdelete)
  · cases hcall
    exact ends_refused

/-! ## Reading and writing -/

theorem sameFiles_of_receiveTCP
    {fs : FileSystem} {h h' : Host} {id : ℤ} {len : ℕ} {answer : HostAnswer}
    {bytes : Option (List (BitVec 8))}
    (hreceive : fs.receiveTCP h id len answer = .ok (bytes, h')) :
    h.SameFiles h' := by
  unfold FileSystem.receiveTCP at hreceive
  split_ifs at hreceive
  · cases hreceive
    exact .refl _
  · cases hreceive
    exact .refl _
  · rcases ok_of_bind hreceive with ⟨fd, -, hresult⟩
    have hafter : (h.receive fd len answer).2 = h' :=
      congrArg Prod.snd (Except.ok.inj hresult)
    rw [← hafter]
    exact Host.sameFiles_receive len answer

theorem sameFiles_of_sendTCP
    {fs : FileSystem} {h h' : Host} {id len : ℤ} {answer : HostAnswer}
    {buffer : List (BitVec 8)} {bytes : Option (List (BitVec 8))}
    (hsend : fs.sendTCP h id buffer len answer = .ok (bytes, h')) :
    h.SameFiles h' := by
  unfold FileSystem.sendTCP at hsend
  split_ifs at hsend
  · cases hsend
    exact .refl _
  · cases hsend
    exact .refl _
  · rcases ok_of_bind hsend with ⟨fd, -, hresult⟩
    have hafter : (h.send fd (buffer.take len.toNat) answer).2 = h' :=
      congrArg Prod.snd (Except.ok.inj hresult)
    rw [← hafter]
    exact Host.sameFiles_send _ answer
  · rcases ok_of_bind hsend with ⟨fd, -, hresult⟩
    cases hresult

theorem ends_receive
    {id : ℤ} {addr len : BitVec 32} (hkeeps : call.KeepsTable)
    (hcall : k.receive env id addr len = .ok k') : k.Ends env call k' := by
  unfold receive at hcall
  split_ifs at hcall
  rcases ok_of_bind hcall with ⟨⟨bytes, host⟩, hreceive, hcall⟩
  have hfiles := sameFiles_of_receiveTCP hreceive
  have heffect : ∀ result,
      k.Effect env call k.fileSystem host (some result) :=
    fun result => .answered hkeeps hfiles
  match bytes with
  | none =>
      cases hcall
      exact ends_of_returns (.refl _) (heffect _)
  | some [] =>
      cases hcall
      exact ends_of_returns (.refl _) (heffect _)
  | some (byte :: rest) =>
      rcases ok_of_bind hcall with ⟨⟨count, k₁⟩, hcopy, hresult⟩
      rcases system2User_ok hcopy with ⟨m, hmap, rfl⟩
      cases hresult
      exact ends_of_returns hmap (heffect _)

theorem ends_send
    {id len : ℤ} {buf : List (BitVec 8)} (hkeeps : call.KeepsTable)
    (hcall : k₁.send env id buf len = .ok k')
    (hmap : k.machine.SameMapping k₁.machine)
    (hfs : k₁.fileSystem = k.fileSystem) (hhost : k₁.host = k.host) :
    k.Ends env call k' := by
  rcases ok_of_bind hcall with ⟨⟨bytes, host⟩, hsend, hresult⟩
  cases hresult
  have hfiles := sameFiles_of_sendTCP hsend
  rw [hhost] at hfiles
  refine ends_of_returns hmap ?_
  rw [show k₁.fileSystem = k.fileSystem from hfs]
  exact .answered hkeeps hfiles

theorem ends_moved
    {id : ℕ} {slot : FileSlot} {f : OpenFile} {result : ℤ} (position : ℤ)
    (hcall : call = .read ∨ call = .write ∨ call = .seek)
    (hslot : k.fileSystem.fileSlot id = .object slot)
    (hopen : slot.fileOpen = .object f)
    (hmap : k.machine.SameMapping k₁.machine)
    (hfs : k₁.fileSystem = k.fileSystem.setSlot id (.object { slot with
      fileOpen := .object { f with currentOffset := position } }))
    (hfiles : k.host.SameFiles k₁.host) :
    k.Ends env call (k₁.returns result) := by
  apply ends_of_returns hmap
  rw [hfs]
  exact .moved hcall hslot hopen hfiles

theorem readConsole_ok
    {addr charCnt : BitVec 32}
    (hread : k.readConsole addr charCnt = .ok k') :
    ∃ m input result, k.machine.SameMapping m ∧
      k' = { k with machine := m, consoleIn := input }.returns result := by
  unfold readConsole at hread
  split_ifs at hread
  rcases ok_of_bind hread with ⟨⟨line, input⟩, -, hread⟩
  rcases ok_of_bind hread with ⟨⟨count, k₁⟩, hcopy, hresult⟩
  rcases system2User_ok hcopy with ⟨m, hmap, rfl⟩
  cases hresult
  exact ⟨m, input, line.length, hmap, rfl⟩

theorem readFile_ok
    {id : ℕ} {slot : FileSlot} {f : OpenFile} {oldPosition : ℤ}
    {addr charCnt : BitVec 32} {buf : List (BitVec 8)}
    (hread : k.readFile env id slot f oldPosition addr charCnt buf =
      .ok k') :
    ∃ (k₁ : Kernel) (result position : ℤ), k' = k₁.returns result ∧
      k.machine.SameMapping k₁.machine ∧ k.host.SameFiles k₁.host ∧
      k₁.fileSystem = k.fileSystem.setSlot id (.object { slot with
        fileOpen := .object { f with currentOffset := position } }) := by
  unfold readFile at hread
  split_ifs at hread
  rcases ok_of_bind hread with ⟨⟨bytes, f', host⟩, hfile, hread⟩
  rcases OpenFile.read_ok hfile with ⟨⟨position, rfl⟩, hfiles⟩
  simp only at hread
  split_ifs at hread
  · rcases ok_of_bind hread with ⟨⟨count, k₁⟩, hcopy, hresult⟩
    rcases system2User_ok hcopy with ⟨m, hmap, rfl⟩
    cases hresult
    exact ⟨_, _, _, rfl, hmap, hfiles, rfl⟩
  · cases hread
    exact ⟨_, _, _, rfl, .refl _, hfiles, rfl⟩

/-- The ways `Read` returns. -/
inductive ReadReturns (env : Environment) (k k' : Kernel) : Prop
  | free : ¬k.occupied (k.register 6).toInt → k' = k.returns (-1) →
      ReadReturns env k k'
  | socket {slot : FileSlot} : k.occupied (k.register 6).toInt →
      k.fileSystem.fileSlot (k.register 6).toInt.toNat = .object slot →
      slot.type = 1 →
      k.receive env (k.register 6).toInt (k.register 4) (k.register 5) =
        .ok k' → ReadReturns env k k'
  | stdout {slot : FileSlot} {f : OpenFile} :
      k.occupied (k.register 6).toInt →
      k.fileSystem.fileSlot (k.register 6).toInt.toNat = .object slot →
      slot.type ≠ 1 → slot.fileOpen = .object f → f.type = 3 →
      k' = k.returns (-1) → ReadReturns env k k'
  | console {slot : FileSlot} {f : OpenFile} {buf : List (BitVec 8)}
      {k₁ : Kernel} : k.occupied (k.register 6).toInt →
      k.fileSystem.fileSlot (k.register 6).toInt.toNat = .object slot →
      slot.type ≠ 1 → slot.fileOpen = .object f → f.type = 2 →
      (k.setFile (k.register 6).toInt.toNat slot
        (f.getCurrentPos k.host).2).user2System (k.register 4)
          (k.register 5) = .ok (buf, k₁) →
      k₁.readConsole (k.register 4) (k.register 5) = .ok k' →
      ReadReturns env k k'
  | file {slot : FileSlot} {f : OpenFile} {buf : List (BitVec 8)}
      {k₁ : Kernel} : k.occupied (k.register 6).toInt →
      k.fileSystem.fileSlot (k.register 6).toInt.toNat = .object slot →
      slot.type ≠ 1 → slot.fileOpen = .object f → f.type ≠ 2 → f.type ≠ 3 →
      (k.setFile (k.register 6).toInt.toNat slot
        (f.getCurrentPos k.host).2).user2System (k.register 4)
          (k.register 5) = .ok (buf, k₁) →
      k₁.readFile env (k.register 6).toInt.toNat slot
        (f.getCurrentPos k.host).2 (f.getCurrentPos k.host).1 (k.register 4)
          (k.register 5) buf = .ok k' →
      ReadReturns env k k'

theorem read_returns (hcall : k.handleSCRead env = .ok k') :
    ReadReturns env k k' := by
  unfold handleSCRead at hcall
  simp only at hcall
  split at hcall
  next hid =>
    rcases ok_of_bind hcall with ⟨slot, hderef, hcall⟩
    have hslot := Pointer.object_of_deref hderef
    split at hcall
    next hsocket => exact .socket hid hslot hsocket hcall
    next hfile =>
      rcases ok_of_bind hcall with ⟨f, hopened, hcall⟩
      have hopen := Pointer.object_of_deref hopened
      split at hcall
      next hstdout =>
        cases hcall
        exact .stdout hid hslot hfile hopen hstdout rfl
      next hstdout =>
        rcases ok_of_bind hcall with ⟨⟨buf, k₁⟩, hcopy, hcall⟩
        simp only at hcall
        split at hcall
        next hstdin => exact .console hid hslot hfile hopen hstdin hcopy hcall
        next hstdin =>
          exact .file hid hslot hfile hopen hstdin hstdout hcopy hcall
  next hid =>
    cases hcall
    exact .free hid rfl

theorem ends_read (hcall : k.handleSCRead env = .ok k') :
    k.Ends env .read k' := by
  cases read_returns hcall with
  | free _ heq => exact heq ▸ ends_refused
  | socket _ _ _ hreceive => exact ends_receive (by decide) hreceive
  | stdout _ _ _ _ _ heq => exact heq ▸ ends_refused
  | console _ hslot _ hopen _ hcopy hread =>
      rcases user2System_ok hcopy with ⟨m, -, hmap, rfl⟩
      rcases readConsole_ok hread with ⟨m', input, result, hmap', rfl⟩
      exact ends_moved _ (.inl rfl) hslot hopen (hmap.trans hmap') rfl
        (.refl _)
  | file _ hslot _ hopen _ _ hcopy hread =>
      rcases user2System_ok hcopy with ⟨m, -, hmap, rfl⟩
      rcases readFile_ok hread with
        ⟨k₁, result, position, rfl, hmap', hfiles, hfs⟩
      refine ends_moved position (.inl rfl) hslot hopen
        (hmap.trans hmap') ?_ hfiles
      rw [hfs]
      exact FileSystem.setSlot_setSlot _ _ _ _

theorem ends_writeFile
    {slot : FileSlot} {f : OpenFile} {buf : List (BitVec 8)}
    (hid : k.occupied (k.register 6).toInt)
    (hslot : k.fileSystem.fileSlot (k.register 6).toInt.toNat = .object slot)
    (hopen : slot.fileOpen = .object f) (hmode : f.type = 0 ∨ f.type = 4)
    (hwrite : k₁.writeFile env (k.register 6).toInt.toNat slot
      (f.getCurrentPos k.host).2 (k.host.tell f.file) (k.register 5).toInt
        buf = .ok k')
    (hmap : k.machine.SameMapping k₁.machine) (hhost : k₁.host = k.host)
    (hfs : k₁.fileSystem = k.fileSystem.setSlot (k.register 6).toInt.toNat
      (.object { slot with fileOpen := .object (f.getCurrentPos k.host).2 })) :
    k.Ends env .write k' := by
  rcases ok_of_bind hwrite with ⟨⟨numWritten, f', host⟩, hfile, hwrite⟩
  rw [hhost] at hfile
  rcases OpenFile.write_ok rfl hfile with
    ⟨position, bytes, hposition, rfl, hcount, rfl, rfl⟩
  have heffect := @Effect.written env k slot f position bytes hid hslot hopen
    hmode hposition hcount
  have htell : k.host.tell f.file = position.offset := Host.tell_eq hposition
  let moved := (k.host.setContents position.inode (overwrite
    (k.host.contents position.inode) position.offset bytes)).setFile f.file
      (some { position with offset := position.offset + bytes.length })
  have hmoved : moved.tell f.file = position.offset + bytes.length :=
    Host.tell_eq (Host.file_setFile_self
      (h := k.host.setContents position.inode _) hposition _)
  have hslots : ∀ f', (k₁.fileSystem.setSlot (k.register 6).toInt.toNat
      (.object { slot with fileOpen := .object f' })) =
        k.fileSystem.setSlot (k.register 6).toInt.toNat
          (.object { slot with fileOpen := .object f' }) := by
    intro f'
    rw [hfs, FileSystem.setSlot_setSlot]
  simp only at hwrite
  split at hwrite
  next hpos =>
    have hbytes : bytes ≠ [] := by
      rintro rfl
      simp at hpos
    have hresult : moved.tell f.file - k.host.tell f.file = bytes.length := by
      rw [hmoved, htell]
      omega
    cases hwrite
    change k.Ends env .write
      (Kernel.returns _ (moved.tell f.file - k.host.tell f.file))
    rw [if_neg hbytes, ← hslots, ← hmoved] at heffect
    rw [hresult]
    refine ends_of_returns ?_ ?_
    · exact hmap
    · exact heffect
  next hzero =>
    cases hwrite
    have hbytes : bytes = [] := by
      simpa using hzero
    rw [if_pos hbytes, ← hslots] at heffect
    exact ends_of_pcIncrease hmap heffect

theorem writeConsole_ok
    {charCnt : ℤ} {buf : List (BitVec 8)}
    (hwrite : k.writeConsole charCnt buf = .ok k') :
    ∃ output result, k' = { k with consoleOut := output }.returns result := by
  unfold writeConsole at hwrite
  split_ifs at hwrite
  cases hwrite
  exact ⟨_, _, rfl⟩

/-- The ways `Write` returns. -/
inductive WriteReturns (env : Environment) (k k' : Kernel) : Prop
  | free : ¬k.occupied (k.register 6).toInt → k' = k.returns (-1) →
      WriteReturns env k k'
  | socket {slot : FileSlot} {buf : List (BitVec 8)} {k₁ : Kernel} :
      k.occupied (k.register 6).toInt →
      k.fileSystem.fileSlot (k.register 6).toInt.toNat = .object slot →
      slot.type = 1 →
      k.user2System (k.register 4) (k.register 5) = .ok (buf, k₁) →
      k₁.send env (k.register 6).toInt buf (k.register 5).toInt = .ok k' →
      WriteReturns env k k'
  | readOnly {slot : FileSlot} {f : OpenFile} :
      k.occupied (k.register 6).toInt →
      k.fileSystem.fileSlot (k.register 6).toInt.toNat = .object slot →
      slot.type ≠ 1 → slot.fileOpen = .object f → f.type = 1 ∨ f.type = 2 →
      k' = k.returns (-1) → WriteReturns env k k'
  | file {slot : FileSlot} {f : OpenFile} {buf : List (BitVec 8)}
      {k₁ : Kernel} : k.occupied (k.register 6).toInt →
      k.fileSystem.fileSlot (k.register 6).toInt.toNat = .object slot →
      slot.type ≠ 1 → slot.fileOpen = .object f → f.type = 0 ∨ f.type = 4 →
      (k.setFile (k.register 6).toInt.toNat slot
        (f.getCurrentPos k.host).2).user2System (k.register 4)
          (k.register 5) = .ok (buf, k₁) →
      k₁.writeFile env (k.register 6).toInt.toNat slot
        (f.getCurrentPos k.host).2 (f.getCurrentPos k.host).1
          (k.register 5).toInt buf = .ok k' →
      WriteReturns env k k'
  | console {slot : FileSlot} {f : OpenFile} {buf : List (BitVec 8)}
      {k₁ : Kernel} : k.occupied (k.register 6).toInt →
      k.fileSystem.fileSlot (k.register 6).toInt.toNat = .object slot →
      slot.type ≠ 1 → slot.fileOpen = .object f → f.type = 3 →
      (k.setFile (k.register 6).toInt.toNat slot
        (f.getCurrentPos k.host).2).user2System (k.register 4)
          (k.register 5) = .ok (buf, k₁) →
      k₁.writeConsole (k.register 5).toInt buf = .ok k' →
      WriteReturns env k k'
  | noType {slot : FileSlot} {f : OpenFile} {buf : List (BitVec 8)}
      {k₁ : Kernel} : k.occupied (k.register 6).toInt →
      k.fileSystem.fileSlot (k.register 6).toInt.toNat = .object slot →
      slot.type ≠ 1 → slot.fileOpen = .object f →
      (k.setFile (k.register 6).toInt.toNat slot
        (f.getCurrentPos k.host).2).user2System (k.register 4)
          (k.register 5) = .ok (buf, k₁) →
      k' = { k₁ with machine := k₁.machine.pcIncrease } →
      WriteReturns env k k'

theorem write_returns (hcall : k.handleSCWrite env = .ok k') :
    WriteReturns env k k' := by
  unfold handleSCWrite at hcall
  simp only at hcall
  split at hcall
  next hid =>
    rcases ok_of_bind hcall with ⟨slot, hderef, hcall⟩
    have hslot := Pointer.object_of_deref hderef
    split at hcall
    next hsocket =>
      rcases ok_of_bind hcall with ⟨⟨buf, k₁⟩, hcopy, hcall⟩
      exact .socket hid hslot hsocket hcopy hcall
    next hfile =>
      rcases ok_of_bind hcall with ⟨f, hopened, hcall⟩
      have hopen := Pointer.object_of_deref hopened
      split at hcall
      next hreadOnly =>
        cases hcall
        exact .readOnly hid hslot hfile hopen hreadOnly rfl
      next =>
        rcases ok_of_bind hcall with ⟨⟨buf, k₁⟩, hcopy, hcall⟩
        simp only at hcall
        split at hcall
        next hmode => exact .file hid hslot hfile hopen hmode hcopy hcall
        next =>
          split at hcall
          next hstdout =>
            exact .console hid hslot hfile hopen hstdout hcopy hcall
          next =>
            cases hcall
            exact .noType hid hslot hfile hopen hcopy rfl
  next hid =>
    cases hcall
    exact .free hid rfl

theorem ends_write (hcall : k.handleSCWrite env = .ok k') :
    k.Ends env .write k' := by
  cases write_returns hcall with
  | free _ heq => exact heq ▸ ends_refused
  | socket _ _ _ hcopy hsend =>
      rcases user2System_ok hcopy with ⟨m, -, hmap, rfl⟩
      exact ends_send (by decide) hsend hmap rfl rfl
  | readOnly _ _ _ _ _ heq => exact heq ▸ ends_refused
  | file hid hslot _ hopen hmode hcopy hwrite =>
      rcases user2System_ok hcopy with ⟨m, -, hmap, rfl⟩
      exact ends_writeFile hid hslot hopen hmode hwrite hmap rfl rfl
  | @console _ f _ _ _ hslot _ hopen _ hcopy hwrite =>
      rcases user2System_ok hcopy with ⟨m, -, hmap, rfl⟩
      rcases writeConsole_ok hwrite with ⟨output, result, rfl⟩
      exact ends_moved (k.host.tell f.file) (.inr (.inl rfl)) hslot hopen hmap
        rfl (.refl _)
  | noType _ hslot _ hopen hcopy heq =>
      rcases user2System_ok hcopy with ⟨m, -, hmap, rfl⟩
      subst heq
      exact ends_of_pcIncrease hmap
        (.moved (.inr (.inl rfl)) hslot hopen (.refl _))

theorem ends_seekTo
    {id : ℕ} {slot : FileSlot} {f : OpenFile} {position : ℤ} {host : Host}
    (hslot : k.fileSystem.fileSlot id = .object slot)
    (hopen : slot.fileOpen = .object f) (hfiles : k.host.SameFiles host)
    (hcall : (do
      let (length, host) ← f.length host
      if position > length ∨ position < 0 then
        return { k with host := host }.returns (-1)
      else
        let (f, host) ← f.seek host position
        return ({ k with host := host }.setFile id slot f).returns position :
      Except Fault Kernel) = .ok k') :
    k.Ends env .seek k' := by
  rcases ok_of_bind hcall with ⟨⟨length, host'⟩, hlength, hcall⟩
  have hfiles' := hfiles.trans (OpenFile.sameFiles_of_length hlength)
  simp only at hcall
  split at hcall
  next =>
    cases hcall
    exact ends_of_returns (.refl _) (.answered (by decide) hfiles')
  next =>
    rcases ok_of_bind hcall with ⟨⟨f', host''⟩, hseek, hresult⟩
    rcases OpenFile.seek_ok hseek with ⟨⟨offset, rfl⟩, hfiles''⟩
    cases hresult
    exact ends_moved offset (.inr (.inr rfl)) hslot hopen (.refl _) rfl
      (hfiles'.trans hfiles'')

theorem ends_seek (hcall : k.handleSCSeek = .ok k') :
    k.Ends env .seek k' := by
  unfold handleSCSeek at hcall
  simp only at hcall
  split at hcall
  next =>
    rcases ok_of_bind hcall with ⟨slot, hderef, hcall⟩
    have hslot := Pointer.object_of_deref hderef
    rcases ok_of_bind hcall with ⟨f, hopened, hcall⟩
    have hopen := Pointer.object_of_deref hopened
    split at hcall
    next =>
      rcases ok_of_bind hcall with ⟨⟨position, host⟩, hlength, hcall⟩
      exact ends_seekTo hslot hopen (OpenFile.sameFiles_of_length hlength)
        hcall
    next => exact ends_seekTo hslot hopen (.refl _) hcall
  next =>
    cases hcall
    exact ends_refused

theorem nameInUse_congr
    (hfs : k₁.fileSystem = k.fileSystem) (filename : CString)
    (slots : List ℕ) :
    k₁.nameInUse env filename slots = k.nameInUse env filename slots := by
  induction slots with
  | nil => rfl
  | cons i slots ih => simp only [nameInUse, slotName, hfs, ih]

theorem ends_remove (hcall : k.handleSCRemove env = .ok k') :
    k.Ends env .remove k' := by
  rcases ok_of_bind hcall with ⟨⟨filename, k₁⟩, hcopy, hcall⟩
  rcases user2System_ok hcopy with ⟨m, hname, hmap, rfl⟩
  rcases ok_of_bind hcall with ⟨inUse, -, hcall⟩
  cases inUse with
  | true =>
      cases hcall
      exact ends_of_returns hmap .refused
  | false =>
      cases hcall
      exact ends_of_returns hmap (.removed hname)

/-! ## Sockets -/

theorem ends_socketTCPOpen (hcall : k.handleSCSocketTCPOpen env = .ok k') :
    k.Ends env .socketTCPOpen k' := by
  rcases ok_of_bind hcall with ⟨⟨socketID, fs, host⟩, hcreate, hresult⟩
  cases hresult
  unfold FileSystem.createTCP at hcreate
  split at hcreate
  next =>
    cases hcreate
    exact ends_refused
  next id hfree =>
    rcases ok_of_bind hcreate with ⟨⟨fd, h⟩, hopen, hcreate⟩
    simp only at hcreate
    split_ifs at hcreate with hfailed
    · omega
    · cases hcreate
      exact ends_of_returns (.refl _) (.socketOpened hfree hopen)

theorem ends_socketTCPConnect
    (hcall : k.handleSCSocketTCPConnect env = .ok k') :
    k.Ends env .socketTCPConnect k' := by
  rcases ok_of_bind hcall with ⟨⟨ip, k₁⟩, hcopy, hcall⟩
  rcases user2System_ok hcopy with ⟨m, -, hmap, rfl⟩
  rcases ok_of_bind hcall with ⟨result, -, hresult⟩
  cases hresult
  exact ends_of_returns hmap (.answered (by decide) (.refl _))

theorem ends_socketTCPSend (hcall : k.handleSCSocketTCPSend env = .ok k') :
    k.Ends env .socketTCPSend k' := by
  rcases ok_of_bind hcall with ⟨⟨buff, k₁⟩, hcopy, hcall⟩
  rcases user2System_ok hcopy with ⟨m, -, hmap, rfl⟩
  simp only at hcall
  split_ifs at hcall
  exact ends_send (by decide) hcall hmap rfl rfl

theorem ends_socketTCPClose (hcall : k.handleSCSocketTCPClose = .ok k') :
    k.Ends env .socketTCPClose k' := by
  rcases ok_of_bind hcall with ⟨⟨rVal, fs, host⟩, hclose, hresult⟩
  cases hresult
  rcases closeTCP_ok hclose with
    ⟨rfl, rfl, rfl⟩ | ⟨slot, hlow, hhigh, hslot, rfl, rfl⟩
  · exact ends_refused
  · exact ends_of_returns (.refl _)
      (.socketClosed (.inr rfl) hlow hhigh hslot)

/-! ## Processes and semaphores -/

theorem ends_exec (hcall : k.handleSCExec env = .ok k') :
    k.Ends env .exec k' := by
  rcases ok_of_bind hcall with ⟨⟨name, k₁⟩, hcopy, hcall⟩
  rcases user2System_ok hcopy with ⟨m, hname, hmap, rfl⟩
  simp only at hcall
  cases hfound : k.host.openForReadWrite (cString name) with
  | none =>
      have hopen : k.fileSystem.openNamed k.host (cString name)
          env.openType = (none, k.fileSystem, k.host) := by
        simp only [FileSystem.openNamed, hfound]
      rw [hopen] at hcall
      cases hcall
      exact ends_of_returns hmap (.notExecuted hname hopen)
  | some opened =>
      rcases opened with ⟨fd, h⟩
      cases hfree : k.fileSystem.findFreeSlot with
      | none =>
          have hopen : k.fileSystem.openNamed k.host (cString name)
              env.openType = (none, k.fileSystem, h) := by
            simp only [FileSystem.openNamed, hfound, hfree]
          rw [hopen] at hcall
          cases hcall
          exact ends_of_returns hmap (.notExecuted hname hopen)
      | some id =>
          simp only [FileSystem.openNamed, hfound, hfree] at hcall
          rcases ok_of_bind hcall with ⟨k₁, hdelete, hcall⟩
          rcases ok_of_bind hdelete with ⟨host, -, hdeleted⟩
          cases hdeleted
          rcases ok_of_bind hcall with ⟨n, -, hresult⟩
          cases hresult
          refine ends_of_returns hmap ?_
          rw [FileSystem.setSlot_setSlot]
          exact .executed hfree

theorem copyRows_ok
    {addr : BitVec 32} {rows : ℕ} {argv : List CString}
    (hcopy : copyRows addr rows k = .ok (argv, k')) :
    ∃ m, k.machine.SameMapping m ∧ k' = { k with machine := m } := by
  induction rows generalizing k addr argv with
  | zero =>
      cases hcopy
      exact ⟨k'.machine, .refl _, rfl⟩
  | succ rows ih =>
      rcases ok_of_bind hcopy with ⟨⟨row, k₁⟩, hrow, hcopy⟩
      rcases user2System_ok hrow with ⟨m, -, hmap, rfl⟩
      rcases ok_of_bind hcopy with ⟨⟨argv', k₂⟩, hrest, hresult⟩
      cases hresult
      rcases ih hrest with ⟨m', hmap', rfl⟩
      exact ⟨m', hmap.trans hmap', rfl⟩

theorem ends_execV (hcall : k.handleSCExecV env = .ok k') :
    k.Ends env .execV k' := by
  unfold handleSCExecV at hcall
  simp only at hcall
  split_ifs at hcall
  rcases ok_of_bind hcall with ⟨⟨argv, k₁⟩, hcopy, hcall⟩
  rcases copyRows_ok hcopy with ⟨m, hmap, rfl⟩
  rcases ok_of_bind hcall with ⟨n, -, hresult⟩
  cases hresult
  exact ends_of_returns hmap (.answered (by decide) (.refl _))

theorem ends_onSemaphore
    {act : CString → Except Fault ℤ} (hkeeps : call.KeepsTable)
    (hcall : k.onSemaphore act = .ok k') : k.Ends env call k' := by
  rcases ok_of_bind hcall with ⟨⟨name, k₁⟩, hcopy, hcall⟩
  rcases user2System_ok hcopy with ⟨m, -, hmap, rfl⟩
  rcases ok_of_bind hcall with ⟨result, -, hcall⟩
  have heffect : ∀ result,
      k.Effect env call k.fileSystem k.host (some result) :=
    fun result => .answered hkeeps (.refl _)
  split_ifs at hcall
  · cases hcall
    exact ends_of_returns hmap (heffect _)
  · cases hcall
    exact ends_of_returns hmap (heffect _)

theorem ends_join (hcall : k.handleSCJoin env = .ok k') :
    k.Ends env .join k' := by
  rcases ok_of_bind hcall with ⟨result, -, hresult⟩
  cases hresult
  exact ends_of_returns (.refl _) (.answered (by decide) (.refl _))

/-- A call that returns has had one of the effects. -/
theorem ends_of_handle (hcall : k.handle env call = .ok k') :
    k.Ends env call k' := by
  cases call with
  | add =>
      cases hcall
      exact ends_of_returns (.refl _)
        (.answered (by decide) (.refl _))
  | create => exact ends_create hcall
  | «open» => exact ends_open hcall
  | close => exact ends_close hcall
  | read => exact ends_read hcall
  | write => exact ends_write hcall
  | seek => exact ends_seek hcall
  | remove => exact ends_remove hcall
  | socketTCPOpen => exact ends_socketTCPOpen hcall
  | socketTCPConnect => exact ends_socketTCPConnect hcall
  | socketTCPSend => exact ends_socketTCPSend hcall
  | socketTCPReceive => exact ends_receive (by decide) hcall
  | socketTCPClose => exact ends_socketTCPClose hcall
  | exec => exact ends_exec hcall
  | execV => exact ends_execV hcall
  | wait => exact ends_onSemaphore (by decide) hcall
  | signal => exact ends_onSemaphore (by decide) hcall
  | join => exact ends_join hcall
  | createSemaphore =>
      rw [handle, handleSCCreateSemaphore] at hcall
      exact ends_onSemaphore (by decide) hcall

end Kernel

end Nachos
