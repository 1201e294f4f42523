import Nachos.SystemCalls

/-!
# What `Read` delivers

The bytes of a file or of a stream go through a kernel buffer, and
`System2User` stops behind the first zero byte.  For a file the returned count
comes from the positions, for a socket from `System2User`; so zero bytes make
the data and the count disagree, or the count and what was consumed.
-/

namespace Nachos

namespace Kernel

/-- The slot is that of an open file that a user has opened. -/
structure FileAt (k : Kernel) (id : ℤ) (f : OpenFile) : Prop where
  slot : k.fileSystem.fileSlot id.toNat = .object (.ofFile (.object f))
  range : 0 ≤ id ∧ id < maxFileOpen
  type : f.type = 0 ∨ f.type = 1 ∨ f.type = 4
  opened : k.host.file f.file ≠ none

/-- The slot is that of a socket. -/
structure SocketAt (k : Kernel) (id : ℤ) (s : OpenFileSocket) : Prop where
  slot : k.fileSystem.fileSlot id.toNat = .object (.ofSocket (.object s))
  range : reverseFD ≤ id ∧ id < maxFileOpen
  opened : k.host.sockets[s.fd]? ≠ none

/-- The bytes a slot has still to deliver: those of the file behind its
position, or those of the stream. -/
def source (k : Kernel) (id : ℤ) : List (BitVec 8) :=
  match k.fileSystem.fileSlot id.toNat with
  | .object ⟨0, .object f, _⟩ => k.host.remaining f.file
  | .object ⟨1, _, .object s⟩ => k.host.incoming s.fd
  | _ => []

/-- The prefix of the source that the host delivers to a call of `Read`. -/
def chunk (env : Environment) (k : Kernel) (id : ℤ) (charCnt : ℕ) :
    List (BitVec 8) :=
  match env.answer with
  | some limit => (k.source id).take (min charCnt limit)
  | none => []

/-- A positive result of `Read` counts the bytes that the user has got, and
these are consumed. -/
def ReadDelivers (env : Environment) (k : Kernel) : Prop :=
  ∀ k', k.handle env .read = .ok k' → 0 < (k'.register 2).toInt →
    let id := (k.register 6).toInt
    let count := (k'.register 2).toInt.toNat
    (k'.register 2).toInt ≤ (k.register 5).toInt ∧
      count ≤ (k.source id).length ∧
      k'.machine.HoldsBytes (k.register 4) ((k.source id).take count) ∧
      k'.source id = (k.source id).drop count

/-- What the user has behind the first zero byte of a chunk of a file is the
rest of the chunk already; a chunk of a stream has no zero byte before its
end. -/
def ChunkUnharmed (env : Environment) (k : Kernel) : Prop :=
  let id := (k.register 6).toInt
  let chunk := k.chunk env id (k.register 5).toNat
  let copied := Machine.throughZero chunk
  (∀ f, k.FileAt id f → k.machine.HoldsBytes
      (k.register 4 + BitVec.ofNat 32 copied.length)
      (chunk.drop copied.length)) ∧
    (∀ s, k.SocketAt id s → copied = chunk)

/-- What a call of `Read` has done that delivered a chunk of which
`System2User` has copied a part. -/
structure HasRead (k k' : Kernel) (id : ℤ) (virAddr : BitVec 32)
    (chunk : List (BitVec 8)) : Prop where
  delivered : k'.machine.HoldsBytes virAddr (Machine.throughZero chunk)
  rest : ∀ bytes : List (BitVec 8),
    (Machine.throughZero chunk).length + bytes.length ≤ chunk.length →
      (k'.machine.HoldsBytes (virAddr +
          BitVec.ofNat 32 (Machine.throughZero chunk).length) bytes ↔
        k.machine.HoldsBytes (virAddr +
          BitVec.ofNat 32 (Machine.throughZero chunk).length) bytes)
  consumed : k'.source id = (k.source id).drop chunk.length

section Copies

variable {m m' : Machine} {addr : BitVec 32}

/-- What lies in the range behind a copy to its front. -/
theorem holdsBytes_behind
    {n : ℕ} {bytes : List (BitVec 8)}
    (hdistinct : m.DistinctFrames) (hsame : m.SameMapping m')
    (houtside : m.SameOutside m' addr n)
    (hsmall : n + bytes.length < 2 ^ 32) :
    m'.HoldsBytes (addr + BitVec.ofNat 32 n) bytes ↔
      m.HoldsBytes (addr + BitVec.ofNat 32 n) bytes := by
  apply Machine.holdsBytes_iff_of_sameOutside hdistinct hsame houtside
  intro i hi j hj heq
  rw [BitVec.add_assoc, ← BitVec.ofNat_add] at heq
  have hij := (Machine.add_ofNat_inj (by omega) (by omega)).mp heq
  omega

end Copies

section Files

variable {env : Environment} {k : Kernel} {f : OpenFile}

@[simp] theorem source_returns (result id : ℤ) :
    (k.returns result).source id = k.source id := rfl

theorem source_setFile (id : ℤ) (pointer : Pointer OpenFile) :
    (k.setFile id.toNat (.ofFile pointer) f).source id =
      k.host.remaining f.file := by
  simp [source, setFile, FileSystem.setSlot, FileSlot.ofFile]

theorem FileAt.source_eq {id : ℤ} (hfile : k.FileAt id f) :
    k.source id = k.host.remaining f.file := by
  simp only [source, hfile.slot, FileSlot.ofFile]

theorem FileAt.occupied {id : ℤ} (hfile : k.FileAt id f) : k.occupied id :=
  ⟨hfile.range.1, hfile.range.2, by rw [hfile.slot]; rfl⟩

theorem FileAt.chunk_eq {id : ℤ} (hfile : k.FileAt id f) (charCnt : ℕ) :
    k.chunk env id charCnt = (env.answer.map fun limit =>
      (k.host.remaining f.file).take (min charCnt limit)).getD [] := by
  unfold chunk
  rw [hfile.source_eq]
  cases env.answer <;> rfl

theorem length_chunk_le (id : ℤ) (charCnt : ℕ) :
    (k.chunk env id charCnt).length ≤ charCnt := by
  unfold chunk
  split
  · exact (List.length_take_le _ _).trans (min_le_left _ _)
  · exact Nat.zero_le _

/-- The handler has found the file and copied the user's buffer: it is about
to read. -/
theorem handle_read_eq_readFile
    (hfile : k.FileAt (k.register 6).toInt f) {position : HostFile}
    (hopened : k.host.file f.file = some position)
    {buf : List (BitVec 8)} {machine : Machine}
    (hcopy : k.machine.user2System (k.register 4) (k.register 5) =
      .ok (buf, machine)) :
    let id := (k.register 6).toInt.toNat
    let f' := { f with currentOffset := (position.offset : ℤ) }
    k.handle env .read =
      readFile env
        { k.setFile id (.ofFile (.object f)) f' with machine := machine }
        id (.ofFile (.object f)) f' position.offset (k.register 4)
        (k.register 5) buf := by
  have hstdout : f.type ≠ 3 := by
    rcases hfile.type with htype | htype | htype <;> rw [htype] <;> decide
  have hstdin : f.type ≠ 2 := by
    rcases hfile.type with htype | htype | htype <;> rw [htype] <;> decide
  have htype : (FileSlot.ofFile (.object f)).type ≠ 1 := by
    simp [FileSlot.ofFile]
  intro id f'
  have hcopy' : (k.setFile id (.ofFile (.object f)) f').user2System
      (k.register 4) (k.register 5) = _ := user2System_eq hcopy
  simp only [handle, handleSCRead, if_pos hfile.occupied, hfile.slot,
    Pointer.deref_object, bind, Except.bind, if_neg htype]
  simp only [FileSlot.ofFile, Pointer.deref_object, if_neg hstdout,
    OpenFile.getCurrentPos, Host.tell_eq hopened] at hcopy' ⊢
  rw [hcopy']
  simp only [f', if_neg hstdin]
  rfl

/-- What the handler does with the bytes it has read. -/
theorem readFile_spec
    (id : ℕ) (slot : FileSlot) {virAddr charCnt : BitVec 32}
    {answered : Option (List (BitVec 8))} {f' : OpenFile} {host : Host}
    {oldPosition : ℤ}
    (hcount : 0 ≤ charCnt.toInt)
    (hread : f.read k.host charCnt.toNat env.answer = .ok (answered, f', host))
    (htell : host.tell f'.file = oldPosition + (answered.getD []).length)
    (hdistinct : k.machine.DistinctFrames)
    (hwritable : k.machine.Writable virAddr (answered.getD []).length)
    (hsmall : (answered.getD []).length < 2 ^ 32) (buf : List (BitVec 8)) :
    ∃ machine offset,
      readFile env k id slot f oldPosition virAddr charCnt buf =
        .ok (({ k with machine := machine, host := host }.setFile id slot
          { f' with currentOffset := offset }).returns
            (answered.getD []).length) ∧
      k.machine.SameMapping machine ∧
      machine.HoldsBytes virAddr (Machine.throughZero (answered.getD [])) ∧
      k.machine.SameOutside machine virAddr
        (Machine.throughZero (answered.getD [])).length := by
  rw [readFile, if_neg (not_lt.mpr hcount), hread]
  simp only [bind, Except.bind, bytesCount_pos]
  by_cases hempty : answered.getD [] = []
  · refine ⟨k.machine, f'.currentOffset, ?_, .refl _, ?_, fun _ _ => rfl⟩
    · rw [if_neg (not_not.mpr hempty), hempty]
      rfl
    · rw [hempty]
      trivial
  · have hlength : 0 < ((answered.getD []).length : ℤ) := by
      exact_mod_cast List.length_pos_iff.mpr hempty
    rcases Machine.system2User_spec (answered.getD []).length
        (answered.getD [] ++ buf.drop (answered.getD []).length)
        hdistinct hlength (by simpa using hwritable) (by simp)
        (by simpa using hsmall) with ⟨machine, hcopy, hsame, hholds, houtside⟩
    have htake : (answered.getD [] ++ buf.drop (answered.getD []).length).take
        (((answered.getD []).length : ℤ).toNat) = answered.getD [] := by
      simp
    rw [htake] at hcopy hholds houtside
    refine ⟨machine, host.tell f'.file, ?_, hsame, hholds, houtside⟩
    have hdiff : host.tell f'.file - oldPosition =
        (answered.getD []).length := by
      rw [htell]
      omega
    have hcopy' : ({ k with host := host }.setFile id slot
        { f' with currentOffset := host.tell f'.file }).system2User virAddr
          (answered.getD []).length
          (answered.getD [] ++ buf.drop (answered.getD []).length) = _ :=
      system2User_eq hcopy
    rw [if_pos hempty]
    simp only [OpenFile.getCurrentPos, hdiff, hcopy']
    rfl

/-- `Read` on an open file. -/
theorem handle_read_file
    (env : Environment) (hfile : k.FileAt (k.register 6).toInt f)
    (hcount : 0 ≤ (k.register 5).toInt)
    (hdistinct : k.machine.DistinctFrames)
    (hwritable : k.machine.Writable (k.register 4) (k.register 5).toNat) :
    let id := (k.register 6).toInt
    let chunk := k.chunk env id (k.register 5).toNat
    ∃ k', k.handle env .read = .ok k' ∧
      k'.register 2 = BitVec.ofInt 32 chunk.length ∧
      k.HasRead k' id (k.register 4) chunk := by
  intro id chunk
  rcases Option.ne_none_iff_exists'.mp hfile.opened with ⟨position, hopened⟩
  rcases hwritable.exists_holdsBytes with ⟨user, huser, hholds⟩
  have hsize := hwritable.le_memorySize hdistinct (k.register 5).isLt
  have hlimit := Machine.add_one_nonneg hsize
  have hint : (k.register 5).toInt.toNat = (k.register 5).toNat := by
    have hnat := Machine.toInt_eq_toNat hcount
    omega
  rcases Machine.user2System_spec hholds (.inl (by omega)) hlimit with
    ⟨machine, hcopy, hsame, hmemory⟩
  have hchunk : chunk.length ≤ (k.register 5).toNat := length_chunk_le _ _
  let f' := { f with currentOffset := (position.offset : ℤ) }
  have hread := OpenFile.read_eq (f := f') hopened rfl (k.register 5).toNat
    env.answer
  simp only at hread
  generalize hanswered : (env.answer.map fun limit =>
    (k.host.remaining f'.file).take (min (k.register 5).toNat limit)) =
      answered at hread
  have hgetD : chunk = answered.getD [] := by
    rw [← hanswered]
    exact hfile.chunk_eq _
  rw [hgetD] at hchunk ⊢
  have hbytes : (answered.getD []).length < 2 ^ 32 :=
    hchunk.trans_lt (k.register 5).isLt
  let before : Kernel :=
    { k.setFile id.toNat (.ofFile (.object f)) f' with machine := machine }
  have hposition : (k.host.setFile f'.file (some { position with
      offset := position.offset + (answered.getD []).length })).tell f'.file =
        (position.offset : ℤ) + (answered.getD []).length := by
    rw [Host.tell_eq (Host.file_setFile_self hopened _)]
    push_cast
    rfl
  rcases readFile_spec (k := before) id.toNat (.ofFile (.object f)) hcount
      hread hposition
      (hsame.distinct.mpr hdistinct)
      ((hsame.writable.mpr hwritable).mono hchunk) hbytes _ with
    ⟨machine', offset, hcall, hsame', hholds', houtside⟩
  rw [handle_read_eq_readFile hfile hopened hcopy]
  refine ⟨_, hcall, rfl, ?_, ?_, ?_⟩
  · rw [returns_holdsBytes]
    exact hholds'
  · intro bytes hrest
    rw [returns_holdsBytes, ← hsame.holdsBytes hmemory]
    exact holdsBytes_behind (hsame.distinct.mpr hdistinct) hsame' houtside
      (by omega)
  · rw [source_returns, source_setFile, hfile.source_eq,
      Host.remaining_eq hopened, List.drop_drop,
      Host.remaining_eq (Host.file_setFile_self hopened _)]
    rfl

end Files

section Sockets

variable {env : Environment} {k : Kernel} {s : OpenFileSocket}

theorem SocketAt.source_eq {id : ℤ} (hsocket : k.SocketAt id s) :
    k.source id = k.host.incoming s.fd := by
  simp only [source, hsocket.slot, FileSlot.ofSocket]

theorem SocketAt.occupied {id : ℤ} (hsocket : k.SocketAt id s) :
    k.occupied id := by
  have hrange := hsocket.range
  refine ⟨by unfold reverseFD at hrange; omega, hrange.2, ?_⟩
  rw [hsocket.slot]
  rfl

theorem handle_read_eq_receive
    (hsocket : k.SocketAt (k.register 6).toInt s) :
    k.handle env .read = k.receive env (k.register 6).toInt (k.register 4)
      (k.register 5) := by
  have htype : (FileSlot.ofSocket (.object s)).type = 1 := rfl
  simp only [handle, handleSCRead, if_pos hsocket.occupied, hsocket.slot,
    Pointer.deref_object, bind, Except.bind, if_pos htype]

theorem SocketAt.not_outside {id : ℤ} (hsocket : k.SocketAt id s) :
    ¬FileSystem.outside id := by
  have hrange := hsocket.range
  unfold FileSystem.outside
  omega

theorem SocketAt.not_isNull {id : ℤ} (hsocket : k.SocketAt id s) :
    ¬(k.fileSystem.fileSlot id.toNat).isNull = true := by
  rw [hsocket.slot]
  simp [Pointer.isNull]

theorem SocketAt.receiveTCP_eq
    {id : ℤ} (hsocket : k.SocketAt id s) (len : ℕ) (answer : HostAnswer) :
    k.fileSystem.receiveTCP k.host id len answer =
      .ok (k.host.receive s.fd len answer) := by
  rw [FileSystem.receiveTCP, if_neg hsocket.not_outside,
    if_neg hsocket.not_isNull, FileSystem.socketAt_eq hsocket.slot]
  rfl

/-- `Read` on a socket. -/
theorem handle_read_socket
    (env : Environment) (hsocket : k.SocketAt (k.register 6).toInt s)
    (hcount : 0 ≤ (k.register 5).toInt)
    (hdistinct : k.machine.DistinctFrames)
    (hwritable : k.machine.Writable (k.register 4) (k.register 5).toNat) :
    let id := (k.register 6).toInt
    let chunk := k.chunk env id (k.register 5).toNat
    ∃ k', k.handle env .read = .ok k' ∧
      (env.answer ≠ none →
        k'.register 2 = BitVec.ofInt 32 (Machine.throughZero chunk).length) ∧
      (env.answer = none → k'.register 2 = -1) ∧
      k.HasRead k' id (k.register 4) chunk := by
  intro id chunk
  rw [handle_read_eq_receive hsocket, receive, if_neg (not_lt.mpr hcount),
    hsocket.receiveTCP_eq]
  cases hanswer : env.answer with
  | none =>
      have hchunk : chunk = [] := by simp only [chunk, Kernel.chunk, hanswer]
      rw [hchunk]
      refine ⟨k.returns (-1), rfl, by simp, fun _ => rfl, trivial, ?_, rfl⟩
      intro bytes _
      exact returns_holdsBytes k (-1) _ _
  | some limit =>
      rcases k.host.receive_some s.fd (k.register 5).toNat limit with
        ⟨host, hreceive, hincoming⟩
      have hchunk : (k.host.incoming s.fd).take
          (min (k.register 5).toNat limit) = chunk := by
        simp only [chunk, Kernel.chunk, hanswer]
        rw [hsocket.source_eq]
      rw [hchunk] at hreceive hincoming
      have hsource : ∀ (machine : Machine) (result : ℤ),
          ({ k with host := host, machine := machine }.returns result).source
            id = (k.source id).drop chunk.length := by
        intro machine result
        have hafter : ({ k with host := host, machine := machine }).source id =
            host.incoming s.fd := by
          simp only [source, id, hsocket.slot, FileSlot.ofSocket]
        rw [source_returns, hafter, hincoming, hsocket.source_eq]
      simp only [bind, Except.bind, hreceive]
      have hlength : chunk.length ≤ (k.register 5).toNat :=
        length_chunk_le _ _
      clear_value chunk
      cases chunk with
      | nil =>
          refine ⟨_, rfl, fun _ => rfl, by simp, trivial, ?_, hsource _ _⟩
          intro bytes _
          exact returns_holdsBytes k 0 _ _
      | cons byte rest =>
          have hsmall := hlength.trans_lt (k.register 5).isLt
          rcases Machine.system2User_spec (byte :: rest).length (byte :: rest)
              hdistinct (by simp) (hwritable.mono hlength) (by simp) hsmall with
            ⟨machine, hcopy, hsame, hholds, houtside⟩
          rw [Int.toNat_natCast, List.take_length] at hcopy hholds houtside
          have hcopy' : { k with host := host }.system2User (k.register 4)
              (byte :: rest).length (byte :: rest) = _ := system2User_eq hcopy
          simp only [hcopy']
          refine ⟨_, rfl, fun _ => rfl, by simp, ?_, ?_, hsource _ _⟩
          · rw [returns_holdsBytes]
            exact hholds
          · intro bytes hrest
            rw [returns_holdsBytes]
            exact holdsBytes_behind hdistinct hsame houtside (by omega)

end Sockets

section Delivery

variable {env : Environment} {k : Kernel}

theorem chunk_isPrefix (id : ℤ) (charCnt : ℕ) :
    k.chunk env id charCnt <+: k.source id := by
  unfold chunk
  split
  · exact List.take_prefix _ _
  · exact List.nil_prefix

/-- The user has got the whole chunk if and only if what `System2User` has
not copied was there before. -/
theorem HasRead.holdsBytes_iff
    {k' : Kernel} {id : ℤ} {virAddr : BitVec 32} {chunk : List (BitVec 8)}
    (hread : k.HasRead k' id virAddr chunk) :
    k'.machine.HoldsBytes virAddr chunk ↔
      k.machine.HoldsBytes
        (virAddr + BitVec.ofNat 32 (Machine.throughZero chunk).length)
        (chunk.drop (Machine.throughZero chunk).length) := by
  have hprefix := Machine.throughZero_isPrefix chunk
  have hsplit : chunk = Machine.throughZero chunk ++
      chunk.drop (Machine.throughZero chunk).length :=
    (List.prefix_iff_eq_append.mp hprefix).symm
  rw [← hread.rest _ (by simp; have hle := hprefix.length_le; omega)]
  nth_rewrite 1 [hsplit]
  rw [Machine.HoldsBytes.append]
  exact and_iff_right hread.delivered

theorem not_socketAt_of_fileAt
    {id : ℤ} {f : OpenFile} (hfile : k.FileAt id f) (s : OpenFileSocket) :
    ¬k.SocketAt id s := by
  intro hsocket
  have hslot := hfile.slot.symm.trans hsocket.slot
  simp [FileSlot.ofFile, FileSlot.ofSocket] at hslot

theorem readDelivers_iff_file
    {f : OpenFile} (hfile : k.FileAt (k.register 6).toInt f)
    (hcount : 0 ≤ (k.register 5).toInt)
    (hdistinct : k.machine.DistinctFrames)
    (hwritable : k.machine.Writable (k.register 4) (k.register 5).toNat) :
    k.ReadDelivers env ↔ k.ChunkUnharmed env := by
  have hsize := hwritable.le_memorySize hdistinct (k.register 5).isLt
  have hint := Machine.toInt_eq_toNat hcount
  have hprefix : k.chunk env (k.register 6).toInt (k.register 5).toNat <+:
    k.source (k.register 6).toInt := chunk_isPrefix _ _
  have hle : (k.chunk env (k.register 6).toInt (k.register 5).toNat).length ≤
    (k.register 5).toNat := length_chunk_le _ _
  rcases handle_read_file env hfile hcount hdistinct hwritable with
    ⟨k', hcall, hregister, hread⟩
  have hresult : (k'.register 2).toInt =
      (k.chunk env (k.register 6).toInt (k.register 5).toNat).length := by
    rw [hregister]
    exact Machine.toInt_ofInt_natCast (hle.trans hsize)
  have htake := List.prefix_iff_eq_take.mp hprefix
  constructor
  · intro hdelivers
    refine ⟨fun f' _ => ?_, fun s hs =>
      (not_socketAt_of_fileAt hfile s hs).elim⟩
    by_cases hpos : 0 < (k'.register 2).toInt
    · rcases hdelivers k' hcall hpos with ⟨-, -, hholds, -⟩
      rw [hresult, Int.toNat_natCast, ← htake, hread.holdsBytes_iff] at hholds
      exact hholds
    · have hempty : k.chunk env (k.register 6).toInt (k.register 5).toNat =
          [] := by
        rw [hresult] at hpos
        exact List.length_eq_zero_iff.mp (by omega)
      simp only [hempty, List.drop_nil]
      trivial
  · rintro ⟨hunharmed, -⟩ k'' hcall' -
    obtain rfl : k' = k'' := Except.ok.inj (hcall.symm.trans hcall')
    simp only [hresult, Int.toNat_natCast, ← htake]
    exact ⟨by omega, hprefix.length_le,
      hread.holdsBytes_iff.mpr (hunharmed f hfile), hread.consumed⟩

theorem readDelivers_iff_socket
    {s : OpenFileSocket} (hsocket : k.SocketAt (k.register 6).toInt s)
    (hcount : 0 ≤ (k.register 5).toInt)
    (hdistinct : k.machine.DistinctFrames)
    (hwritable : k.machine.Writable (k.register 4) (k.register 5).toNat) :
    k.ReadDelivers env ↔ k.ChunkUnharmed env := by
  have hsize := hwritable.le_memorySize hdistinct (k.register 5).isLt
  have hint := Machine.toInt_eq_toNat hcount
  have hprefix : k.chunk env (k.register 6).toInt (k.register 5).toNat <+:
    k.source (k.register 6).toInt := chunk_isPrefix _ _
  have hle : (k.chunk env (k.register 6).toInt (k.register 5).toNat).length ≤
    (k.register 5).toNat := length_chunk_le _ _
  rcases handle_read_socket env hsocket hcount hdistinct
      hwritable with ⟨k', hcall, hregister, hfailed, hread⟩
  have hcopied := Machine.throughZero_isPrefix
    (k.chunk env (k.register 6).toInt (k.register 5).toNat)
  have hlength := hcopied.length_le
  cases hanswer : env.answer with
  | none =>
      have hempty : k.chunk env (k.register 6).toInt (k.register 5).toNat =
          [] := by simp only [chunk, hanswer]
      constructor
      · intro _
        refine ⟨fun f hfile => (not_socketAt_of_fileAt hfile s hsocket).elim,
          fun _ _ => ?_⟩
        rw [hempty]
        rfl
      · intro _ k'' hcall' hpos
        obtain rfl : k' = k'' := Except.ok.inj (hcall.symm.trans hcall')
        rw [hfailed hanswer] at hpos
        exact absurd hpos (by decide)
  | some limit =>
      have hresult : (k'.register 2).toInt = (Machine.throughZero
          (k.chunk env (k.register 6).toInt (k.register 5).toNat)).length := by
        rw [hregister (by simp [hanswer])]
        exact Machine.toInt_ofInt_natCast (by omega)
      constructor
      · intro hdelivers
        refine ⟨fun f hfile => (not_socketAt_of_fileAt hfile s hsocket).elim,
          fun _ _ => ?_⟩
        by_cases hpos : 0 < (k'.register 2).toInt
        · rcases hdelivers k' hcall hpos with ⟨-, -, -, hconsumed⟩
          rw [hread.consumed, hresult, Int.toNat_natCast] at hconsumed
          have hrest := congrArg List.length hconsumed
          rw [List.length_drop, List.length_drop] at hrest
          have hall := hprefix.length_le
          exact hcopied.eq_of_length (by omega)
        · rw [hresult] at hpos
          have hzero : (Machine.throughZero (k.chunk env
              (k.register 6).toInt (k.register 5).toNat)).length = 0 := by
            omega
          have hnone := List.length_eq_zero_iff.mp hzero
          rw [hnone, Machine.throughZero_eq_nil.mp hnone]
      · rintro ⟨-, hunharmed⟩ k'' hcall' -
        obtain rfl : k' = k'' := Except.ok.inj (hcall.symm.trans hcall')
        have hwhole := hunharmed s hsocket
        rw [hwhole] at hresult
        simp only [hresult, Int.toNat_natCast,
          ← List.prefix_iff_eq_take.mp hprefix]
        refine ⟨by omega, hprefix.length_le, ?_, hread.consumed⟩
        have hdelivered := hread.delivered
        rwa [hwhole] at hdelivered

/-- `Read` of an open file, or of a socket, delivers the bytes of the source
if and only if its chunk is unharmed. -/
theorem read_delivers_iff
    (hslot : (∃ f, k.FileAt (k.register 6).toInt f) ∨
      ∃ s, k.SocketAt (k.register 6).toInt s)
    (hcount : 0 ≤ (k.register 5).toInt)
    (hdistinct : k.machine.DistinctFrames)
    (hwritable : k.machine.Writable (k.register 4) (k.register 5).toNat) :
    k.ReadDelivers env ↔ k.ChunkUnharmed env := by
  rcases hslot with ⟨f, hfile⟩ | ⟨s, hsocket⟩
  · exact readDelivers_iff_file hfile hcount hdistinct hwritable
  · exact readDelivers_iff_socket hsocket hcount hdistinct hwritable

end Delivery

/-! ## A program with one page -/

/-- The program has one page that starts with `memory` and holds 7 behind it,
and the descriptor 2 for a file or a socket with `contents`.  It passes the
address 0, the length of `memory` and the descriptor to a call. -/
def onePage (call : SystemCall) (slot : FileSlot)
    (contents memory : List (BitVec 8)) : Kernel where
  machine := {
    registers := fun num =>
      if num = 2 then call.code
      else if num = 5 then BitVec.ofNat 32 memory.length
      else if num = 6 then 2
      else 0
    mainMemory := fun paddr => memory.getD paddr 7
    pageTableMap := ⟨numPhysPages, [1, 0, 0, 0], rfl⟩
    pageTable := some [⟨0, 0, true, false, false, false⟩]
    pageTableSize := 1 }
  fileSystem := ⟨fun id => if id = 2 then .object slot else .null⟩
  host := {
    directory := fun name => if name = [97] then some 0 else none
    inodes := 1
    contents := fun _ => contents
    files := [some ⟨0, 0⟩]
    sockets := [⟨contents, [], 0⟩] }
  consoleIn := []
  consoleOut := []

/-- An open file of a given type. -/
def fileSlotOf (type : ℤ) : FileSlot :=
  .ofFile (.object ⟨type, .dangling, 0, 0, 2⟩)

/-- Everything succeeds. -/
def willing : Environment where
  answer := some memorySize
  tables := ⟨fun _ => .ok 1, fun _ _ => .ok 1, fun _ => .ok 0, fun _ => .ok 0,
    fun _ => .ok 0, fun _ _ => .ok 0⟩
  freedName := fun _ => []
  leng := 0
  openType := 0

section OnePage

variable (call : SystemCall) (contents memory : List (BitVec 8))

theorem onePage_distinctFrames (slot : FileSlot) :
    (onePage call slot contents memory).machine.DistinctFrames := by
  intro table htable
  cases htable
  decide

theorem onePage_fileAt :
    (onePage call (fileSlotOf 0) contents memory).FileAt 2
      ⟨0, .dangling, 0, 0, 2⟩ :=
  ⟨rfl, by decide, .inl rfl, by simp [onePage, Host.file]⟩

end OnePage

/-- A file without a zero byte is delivered. -/
theorem read_delivers_iff_onePage :
    (onePage .read (fileSlotOf 0) [1, 2, 3] [7, 7, 7]).ReadDelivers
      willing := by
  have hfile := onePage_fileAt .read [1, 2, 3] [7, 7, 7]
  refine (read_delivers_iff (.inl ⟨_, hfile⟩) (by decide)
    (onePage_distinctFrames _ _ _ _) (by decide)).mpr ⟨?_, ?_⟩
  · intro f _
    decide
  · intro s hsocket
    exact (not_socketAt_of_fileAt hfile s hsocket).elim

/-- Of the file 1, 0, 2 the user gets two bytes, and the result is 3. -/
theorem read_not_delivered :
    ¬(onePage .read (fileSlotOf 0) [1, 0, 2] [7, 7, 7]).ReadDelivers
      willing := by
  have hfile := onePage_fileAt .read [1, 0, 2] [7, 7, 7]
  intro hdelivers
  have hunharmed := (readDelivers_iff_file hfile (by decide)
    (onePage_distinctFrames _ _ _ _) (by decide)).mp hdelivers
  exact absurd (hunharmed.1 _ hfile) (by decide)

end Kernel

end Nachos
