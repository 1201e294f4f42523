import Nachos.ReadCall
import Nachos.SystemCallEffects

/-!
# What `Read` leaves alone in the user's memory

`Read` passes a buffer and its length to `System2User`.  For a file it is the
length that was read, for a socket the length that was received; a line of the
console is passed with the zero byte behind it.
-/

namespace Nachos

namespace Machine

/-- The bytes of the program outside of a range are as before. -/
def KeepsOutside (m m' : Machine) (virtAddr : BitVec 32) (n : ℕ) : Prop :=
  ∀ addr, n ≤ (addr - virtAddr).toNat → m'.userByte addr = m.userByte addr

variable {m m' : Machine} {addr : BitVec 32}

theorem KeepsOutside.trans
    {m'' : Machine} {n : ℕ} (hfirst : m.KeepsOutside m' addr n)
    (hsecond : m'.KeepsOutside m'' addr n) : m.KeepsOutside m'' addr n :=
  fun other hout => (hsecond other hout).trans (hfirst other hout)

/-! ## Copies that have succeeded -/

theorem physical_of_translate
    {size paddr : ℕ} {writing : Bool}
    (htranslate : m.translate addr size writing = .ok (.ok (paddr, m'))) :
    m.physical addr writing = some paddr := by
  unfold translate at htranslate
  simp only at htranslate
  split at htranslate
  next => cases htranslate
  next =>
    split at htranslate
    next => cases htranslate
    next table htable =>
      split at htranslate
      next => cases htranslate
      next hpage =>
        split at htranslate
        next => cases htranslate
        next entry hentry =>
          have hat : m.entryAt addr = some entry := by
            simp only [entryAt, htable, if_pos (not_le.mp hpage), hentry]
          split_ifs at htranslate with hvalid hreadOnly hrange
          · cases htranslate
          · cases htranslate
          · obtain ⟨-, -, hresult⟩ := ok_of_bind htranslate
            cases hresult
            exact physical_eq_some.mpr ⟨entry, hat,
              ⟨by simpa using hvalid, hreadOnly, hrange⟩, rfl⟩
          · cases htranslate

theorem writeMem_ok
    {byte : BitVec 8}
    (hwrite : m.writeMem addr 1 (byte.signExtend 32) = .ok m') :
    ∃ paddr, m.physical addr true = some paddr ∧
      m'.mainMemory = Function.update m.mainMemory paddr byte := by
  obtain ⟨result, htranslate, -⟩ := ok_of_bind hwrite
  cases result with
  | error which =>
      rw [writeMem_of_exception _ htranslate] at hwrite
      cases hwrite
  | ok result =>
      have hphys := physical_of_translate htranslate
      obtain ⟨after, hafter, -, hmemory⟩ := writeMem_byte hphys byte
      cases hafter.symm.trans hwrite
      exact ⟨result.1, hphys, hmemory⟩

/-- A copy writes the bytes that it counts, and no others. -/
theorem sameOutside_of_copyOut
    {rounds count : ℕ} {buffer : List (BitVec 8)}
    (hcopy : copyOut addr rounds buffer m = .ok (count, m')) :
    count ≤ rounds ∧ m.SameOutside m' addr count := by
  induction rounds generalizing m addr buffer count with
  | zero =>
      cases hcopy
      exact ⟨le_rfl, fun _ _ => rfl⟩
  | succ rounds ih =>
      cases buffer with
      | nil => cases hcopy
      | cons oneChar buffer =>
          obtain ⟨between, hwrite, hcopy⟩ := ok_of_bind hcopy
          obtain ⟨paddr, hphys, hmemory⟩ := writeMem_ok hwrite
          have hsame := sameMapping_of_writeMem hwrite
          have hother : ∀ other,
              m.physical (addr + BitVec.ofNat 32 0) true ≠ some other →
                between.mainMemory other = m.mainMemory other := by
            intro other hne
            rw [hmemory]
            apply Function.update_of_ne
            rintro rfl
            exact hne (by simpa using hphys)
          split_ifs at hcopy
          · cases hcopy
            exact ⟨by omega, fun other hout => hother other (hout 0 one_pos)⟩
          · obtain ⟨⟨i, after⟩, hrest, hresult⟩ := ok_of_bind hcopy
            cases hresult
            obtain ⟨hle, hlater⟩ := ih hrest
            refine ⟨by omega, ?_⟩
            intro other hout
            have hafter := hlater other fun j hj => by
              rw [hsame.physical, add_one_add_ofNat]
              exact hout (j + 1) (by omega)
            rw [hafter]
            exact hother other (hout 0 (by omega))

/-- The zero byte at the end of a string is written, too. -/
theorem userByte_of_copyOut_string
    {line : List (BitVec 8)} {count : ℕ} (hline : 0 ∉ line)
    (hcopy : copyOut addr (line.length + 1) (line ++ [0]) m =
      .ok (count, m')) :
    count = line.length + 1 ∧
      m'.userByte (addr + BitVec.ofNat 32 line.length) = some 0 := by
  induction line generalizing m addr count with
  | nil =>
      obtain ⟨between, hwrite, hcopy⟩ := ok_of_bind hcopy
      obtain ⟨paddr, hphys, hmemory⟩ := writeMem_ok hwrite
      have hsame := sameMapping_of_writeMem hwrite
      rw [if_pos rfl] at hcopy
      cases hcopy
      refine ⟨rfl, ?_⟩
      have hread := physical_of_writing hphys
      rw [← hsame.physical] at hread
      simp [userByte, hread, hmemory]
  | cons byte line ih =>
      rw [List.mem_cons, not_or] at hline
      obtain ⟨between, hwrite, hcopy⟩ := ok_of_bind hcopy
      rw [if_neg (Ne.symm hline.1)] at hcopy
      obtain ⟨⟨i, after⟩, hrest, hresult⟩ := ok_of_bind hcopy
      cases hresult
      obtain ⟨rfl, hzero⟩ := ih hline.2 hrest
      refine ⟨rfl, ?_⟩
      rw [add_one_add_ofNat] at hzero
      exact hzero

theorem keepsOutside_of_sameOutside
    {count n : ℕ} (hdistinct : m.DistinctFrames)
    (hsame : m.SameMapping m') (houtside : m.SameOutside m' addr count)
    (hle : count ≤ n) : m.KeepsOutside m' addr n := by
  intro other hout
  rw [userByte, userByte, hsame.physical]
  cases hphys : m.physical other false with
  | none => rfl
  | some paddr =>
      rw [Option.map_some, Option.map_some]
      congr 1
      apply houtside
      intro i hi hwritten
      have heq := hdistinct.physical_inj hphys hwritten
      have hlt := other.isLt
      rw [heq, BitVec.add_comm, BitVec.add_sub_cancel, BitVec.toNat_ofNat]
        at hout
      have hmod := Nat.mod_le i (2 ^ 32)
      omega

/-- What `System2User` leaves alone. -/
theorem keepsOutside_of_system2User
    {len result : ℤ} {buffer : List (BitVec 8)} {n : ℕ}
    (hdistinct : m.DistinctFrames)
    (hcopy : m.system2User addr len buffer = .ok (result, m'))
    (hle : len.toNat ≤ n) : m.KeepsOutside m' addr n := by
  unfold system2User at hcopy
  split_ifs at hcopy
  · cases hcopy
    exact fun _ _ => rfl
  · cases hcopy
    exact fun _ _ => rfl
  · obtain ⟨⟨count, after⟩, hcount, hresult⟩ := ok_of_bind hcopy
    cases hresult
    obtain ⟨hrounds, houtside⟩ := sameOutside_of_copyOut hcount
    exact keepsOutside_of_sameOutside hdistinct
      (sameMapping_of_copyOut hcount) houtside (hrounds.trans hle)

/-- A string and its zero byte stay in a range that has room for both, or
where the zero byte is not new. -/
theorem keepsOutside_string_iff
    {line : List (BitVec 8)} {n : BitVec 32} {result : ℤ}
    (hdistinct : m.DistinctFrames) (hline : 0 ∉ line)
    (hle : line.length ≤ n.toNat)
    (hcopy : m.system2User addr (line.length + 1) (line ++ [0]) =
      .ok (result, m')) :
    m.KeepsOutside m' addr n.toNat ↔
      line.length < n.toNat ∨ m.userByte (addr + n) = some 0 := by
  have hkept := fun k => keepsOutside_of_system2User (n := k) hdistinct hcopy
  have hrounds : ((line.length : ℤ) + 1).toNat = line.length + 1 := by omega
  have hbehind : addr + n - addr = n := by
    rw [BitVec.add_comm, BitVec.add_sub_cancel]
  rw [hrounds] at hkept
  unfold system2User at hcopy
  rw [if_neg (by omega), if_neg (by omega), hrounds] at hcopy
  obtain ⟨⟨count, after⟩, hcount, hresult⟩ := ok_of_bind hcopy
  cases hresult
  obtain ⟨-, hzero⟩ := userByte_of_copyOut_string hline hcount
  obtain hlt | heq := Nat.lt_or_eq_of_le hle
  · exact iff_of_true (hkept _ hlt) (.inl hlt)
  · rw [heq, BitVec.ofNat_toNat, BitVec.setWidth_eq] at hzero
    constructor
    · intro hkeeps
      rw [← hzero]
      exact .inr (hkeeps (addr + n) (by rw [hbehind])).symm
    · rintro (hlt | hbefore)
      · omega
      · intro other hout
        by_cases hat : (other - addr).toNat = n.toNat
        · have hother : other = addr + n := by
            rw [← BitVec.eq_of_toNat_eq hat, BitVec.add_comm,
              BitVec.sub_add_cancel]
          rw [hother, hzero, hbefore]
        · exact hkept (line.length + 1) le_rfl other (by omega)

end Machine

namespace Kernel

variable {env : Environment} {k k' : Kernel} {virtAddr charCnt : BitVec 32}

/-! ## Files and sockets -/

theorem keepsOutside_of_system2User
    {k₁ : Kernel} {len result : ℤ} {buffer : List (BitVec 8)} {n : ℕ}
    (hcopy : k.system2User virtAddr len buffer = .ok (result, k₁))
    (hdistinct : k.machine.DistinctFrames) (hle : len.toNat ≤ n) :
    k.machine.KeepsOutside k₁.machine virtAddr n := by
  obtain ⟨⟨count, m⟩, hwrite, hresult⟩ := ok_of_bind hcopy
  cases hresult
  exact Machine.keepsOutside_of_system2User hdistinct hwrite hle

/-- `Read` moves the position by what it has read. -/
theorem tell_of_read
    {f g : OpenFile} {h h' : Host} {numBytes : ℕ} {answer : HostAnswer}
    {bytes : Option (List (BitVec 8))}
    (hposition : f.currentOffset = h.tell f.file)
    (hread : f.read h numBytes answer = .ok (bytes, g, h')) :
    g.file = f.file ∧ (bytes.getD []).length ≤ numBytes ∧
      h'.tell f.file = f.currentOffset + (bytes.getD []).length := by
  cases hfile : h.file f.file with
  | none =>
      simp [OpenFile.read, OpenFile.readAt, Host.lseek, hfile, bind,
        Except.bind] at hread
  | some position =>
      rw [Host.tell_eq hfile] at hposition
      rw [OpenFile.read_eq hfile hposition] at hread
      cases hread
      refine ⟨rfl, ?_, ?_⟩
      · cases answer with
        | none => exact Nat.zero_le _
        | some limit =>
            exact (List.length_take_le _ _).trans (min_le_left _ _)
      · rw [Host.tell_eq (Host.file_setFile_self hfile _), hposition]
        exact Nat.cast_add _ _

/-- A file delivers at most what was asked for. -/
theorem keepsOutside_of_readFile
    {id : ℕ} {slot : FileSlot} {f : OpenFile} {buf : List (BitVec 8)}
    (hdistinct : k.machine.DistinctFrames)
    (hposition : f.currentOffset = k.host.tell f.file)
    (hcall : readFile env k id slot f f.currentOffset virtAddr charCnt buf =
      .ok k') :
    k.machine.KeepsOutside k'.machine virtAddr charCnt.toNat := by
  rw [readFile] at hcall
  split at hcall
  next => cases hcall
  next =>
    obtain ⟨⟨bytes, g, host⟩, hread, hcall⟩ := ok_of_bind hcall
    obtain ⟨hsame, hle, htell⟩ := tell_of_read hposition hread
    simp only at hcall
    split at hcall
    next =>
      obtain ⟨⟨count, k₁⟩, hcopy, hcall⟩ := ok_of_bind hcall
      cases hcall
      have hlength : ((g.getCurrentPos host).1 - f.currentOffset).toNat ≤
          charCnt.toNat := by
        simp only [OpenFile.getCurrentPos, hsame, htell]
        omega
      have hkept := keepsOutside_of_system2User hcopy hdistinct hlength
      exact hkept
    next =>
      cases hcall
      exact fun _ _ => rfl

theorem length_of_receiveTCP
    {fs : FileSystem} {h h' : Host} {id : ℤ} {len : ℕ} {answer : HostAnswer}
    {bytes : List (BitVec 8)}
    (hreceive : fs.receiveTCP h id len answer = .ok (some bytes, h')) :
    bytes.length ≤ len := by
  unfold FileSystem.receiveTCP at hreceive
  split at hreceive
  next => cases hreceive
  next =>
    split at hreceive
    next =>
      cases hreceive
      exact Nat.zero_le _
    next =>
      obtain ⟨fd, -, hresult⟩ := ok_of_bind hreceive
      cases answer with
      | none => cases hresult
      | some limit =>
          cases hresult
          exact (List.length_take_le _ _).trans (min_le_left _ _)

/-- A socket delivers at most what was asked for. -/
theorem keepsOutside_of_receive
    {id : ℤ} (hdistinct : k.machine.DistinctFrames)
    (hcall : k.receive env id virtAddr charCnt = .ok k') :
    k.machine.KeepsOutside k'.machine virtAddr charCnt.toNat := by
  rw [receive] at hcall
  split at hcall
  next => cases hcall
  next =>
    obtain ⟨⟨bytes, host⟩, hreceive, hcall⟩ := ok_of_bind hcall
    simp only at hcall
    split at hcall
    next =>
      cases hcall
      exact fun _ _ => rfl
    next =>
      cases hcall
      exact fun _ _ => rfl
    next buffer hnonempty =>
      obtain ⟨⟨count, k₁⟩, hcopy, hcall⟩ := ok_of_bind hcall
      cases hcall
      have hlength : (buffer.length : ℤ).toNat ≤ charCnt.toNat := by
        rw [Int.toNat_natCast]
        exact length_of_receiveTCP hreceive
      have hkept := keepsOutside_of_system2User hcopy hdistinct hlength
      exact hkept

/-! ## The console -/

/-- The characters that end a line of the console. -/
def EndsLine (t : BitVec 8) : Prop :=
  t = 0xff ∨ t = 10 ∨ t = 0

instance (t : BitVec 8) : Decidable (EndsLine t) := by
  unfold EndsLine
  infer_instance

/-- A line is shorter than the buffer if its end is among the characters that
the buffer has room for. -/
theorem readLine_ok
    {n : ℕ} {input line rest : List (BitVec 8)}
    (hread : readLine n input = .ok (line, rest)) :
    0 ∉ line ∧ line.length ≤ n ∧
      (line.length < n ↔ ∃ t ∈ input.take n, EndsLine t) := by
  induction n generalizing input line rest with
  | zero =>
      cases hread
      simp
  | succ n ih =>
      cases input with
      | nil => cases hread
      | cons t input =>
          rw [readLine] at hread
          split at hread
          next hends =>
            cases hread
            refine ⟨List.not_mem_nil, Nat.zero_le _, ?_⟩
            exact iff_of_true (Nat.succ_pos n)
              ⟨t, List.mem_cons_self, hends⟩
          next hgoes =>
            obtain ⟨⟨line', rest'⟩, hline, hresult⟩ := ok_of_bind hread
            cases hresult
            obtain ⟨hzero, hle, hlt⟩ := ih hline
            have hnonzero : (0 : BitVec 8) ≠ t := by
              rintro rfl
              exact hgoes (.inr (.inr rfl))
            refine ⟨?_, Nat.succ_le_succ hle, ?_⟩
            · rw [List.mem_cons, not_or]
              exact ⟨hnonzero, hzero⟩
            · have hchar : ¬EndsLine t := hgoes
              rw [List.length_cons, Nat.add_lt_add_iff_right, hlt,
                List.take_succ_cons]
              simp [hchar]

/-- What `Read` from the console leaves alone: a line that fills the buffer
has its zero byte behind it. -/
theorem keepsOutside_readConsole_iff
    (hdistinct : k.machine.DistinctFrames)
    (hcall : k.readConsole virtAddr charCnt = .ok k') :
    k.machine.KeepsOutside k'.machine virtAddr charCnt.toNat ↔
      (∃ t ∈ k.consoleIn.take charCnt.toNat, EndsLine t) ∨
        k.machine.userByte (virtAddr + charCnt) = some 0 := by
  rw [readConsole] at hcall
  split at hcall
  next => cases hcall
  next hcount =>
    obtain ⟨⟨line, input⟩, hline, hcall⟩ := ok_of_bind hcall
    obtain ⟨⟨count, k₁⟩, hcopy, hcall⟩ := ok_of_bind hcall
    cases hcall
    obtain ⟨hzero, hle, hlt⟩ := readLine_ok hline
    rw [← hlt]
    obtain ⟨⟨written, m⟩, hwrite, hresult⟩ := ok_of_bind hcopy
    cases hresult
    have hiff := Machine.keepsOutside_string_iff hdistinct hzero hle hwrite
    exact hiff

/-! ## `Read` -/

/-- The call reads from the console. -/
def ReadsConsole (k : Kernel) : Prop :=
  k.occupied (k.register 6).toInt ∧
    ∃ slot f, k.fileSystem.fileSlot (k.register 6).toInt.toNat = .object slot ∧
      slot.type ≠ 1 ∧ slot.fileOpen = .object f ∧ f.type = 2

theorem readsConsole_iff
    {slot : FileSlot} {f : OpenFile}
    (hoccupied : k.occupied (k.register 6).toInt)
    (hslot : k.fileSystem.fileSlot (k.register 6).toInt.toNat = .object slot)
    (hfile : slot.type ≠ 1) (hopen : slot.fileOpen = .object f) :
    k.ReadsConsole ↔ f.type = 2 := by
  constructor
  · rintro ⟨-, slot', f', hslot', -, hopen', htype⟩
    cases hslot.symm.trans hslot'
    cases hopen.symm.trans hopen'
    exact htype
  · intro htype
    exact ⟨hoccupied, slot, f, hslot, hfile, hopen, htype⟩

/-- `Read` writes into the buffer only, unless a line of the console fills
the buffer and the byte behind the buffer is not zero. -/
theorem read_inside_iff
    (hdistinct : k.machine.DistinctFrames)
    (hcall : k.handle env .read = .ok k') :
    k.machine.KeepsOutside k'.machine (k.register 4) (k.register 5).toNat ↔
      (k.ReadsConsole →
        (∃ t ∈ k.consoleIn.take (k.register 5).toNat, EndsLine t) ∨
          k.machine.userByte (k.register 4 + k.register 5) = some 0) := by
  have hbefore : ∀ {m : Machine} {buf : List (BitVec 8)},
      k.machine.user2System (k.register 4) (k.register 5) = .ok (buf, m) →
        (∀ addr, m.userByte addr = k.machine.userByte addr) ∧
          m.DistinctFrames := by
    intro m buf hmachine
    obtain ⟨hsame, hmemory⟩ := Machine.sameMapping_of_user2System hmachine
    exact ⟨hsame.userByte hmemory, hsame.distinct.mpr hdistinct⟩
  cases read_returns hcall with
  | free hfree heq =>
      subst heq
      refine iff_of_true (fun _ _ => rfl) ?_
      rintro ⟨hoccupied, -⟩
      exact (hfree hoccupied).elim
  | socket _ hslot hsocket hreceive =>
      refine iff_of_true (keepsOutside_of_receive hdistinct hreceive) ?_
      rintro ⟨-, slot', f, hslot', htype, -⟩
      cases hslot.symm.trans hslot'
      exact (htype hsocket).elim
  | stdout hoccupied hslot hfile hopen hstdout heq =>
      subst heq
      refine iff_of_true (fun _ _ => rfl) ?_
      intro hstdin
      rw [readsConsole_iff hoccupied hslot hfile hopen, hstdout] at hstdin
      exact absurd hstdin (by decide)
  | console hoccupied hslot hfile hopen hstdin hcopy hread =>
      obtain ⟨m, hmachine, -, rfl⟩ := user2System_ok hcopy
      obtain ⟨hbytes, hdistinct'⟩ := hbefore hmachine
      have hiff := keepsOutside_readConsole_iff hdistinct' hread
      have hreads := (readsConsole_iff hoccupied hslot hfile hopen).mpr hstdin
      simp only [hreads, true_implies]
      rw [← hbytes]
      refine Iff.trans ?_ hiff
      constructor
      · intro hkept addr hout
        exact (hkept addr hout).trans (hbytes addr).symm
      · intro hkept addr hout
        exact (hkept addr hout).trans (hbytes addr)
  | file hoccupied hslot hfile hopen hother _ hcopy hread =>
      obtain ⟨m, hmachine, -, rfl⟩ := user2System_ok hcopy
      obtain ⟨hbytes, hdistinct'⟩ := hbefore hmachine
      have hkept := keepsOutside_of_readFile hdistinct' rfl hread
      refine iff_of_true ?_ ?_
      · intro addr hout
        exact (hkept addr hout).trans (hbytes addr)
      · intro hreads
        exact (hother
          ((readsConsole_iff hoccupied hslot hfile hopen).mp hreads)).elim

/-- The program reads three characters from the console. -/
def readingLine (input : List (BitVec 8)) : Kernel :=
  { onePage .read (fileSlotOf 2) [] [7, 7, 7] with consoleIn := input }

theorem readingLine_distinctFrames (input : List (BitVec 8)) :
    (readingLine input).machine.DistinctFrames :=
  onePage_distinctFrames .read [] [7, 7, 7] (fileSlotOf 2)

/-- The line `a` stays in the buffer. -/
theorem read_inside_iff_shortLine :
    ∃ k', (readingLine [97, 10]).handle willing .read = .ok k' ∧
      (readingLine [97, 10]).machine.KeepsOutside k'.machine 0 3 := by
  have hcall : ∃ k', (readingLine [97, 10]).handle willing .read = .ok k' :=
    ⟨_, rfl⟩
  obtain ⟨k', hcall⟩ := hcall
  have hiff := read_inside_iff (readingLine_distinctFrames [97, 10]) hcall
  exact ⟨k', hcall, hiff.mpr fun _ => .inl (by decide)⟩

/-- The zero byte of the line `abc` goes behind the buffer. -/
theorem read_writes_behind :
    ∃ k', (readingLine [97, 98, 99]).handle willing .read = .ok k' ∧
      ¬(readingLine [97, 98, 99]).machine.KeepsOutside k'.machine 0 3 := by
  have hcall : ∃ k', (readingLine [97, 98, 99]).handle willing .read =
      .ok k' ∧ k'.machine.userByte 3 = some 0 := ⟨_, rfl, rfl⟩
  obtain ⟨k', hcall, hzero⟩ := hcall
  refine ⟨k', hcall, ?_⟩
  intro hkept
  have hsame := hkept 3 (by decide)
  rw [hzero] at hsame
  exact absurd hsame (by decide)

end Kernel

end Nachos
