import Nachos.WriteCall
import Nachos.ReturnProtocol
import Nachos.ReadBounds
import Nachos.CopyRoundTrip

/-!
# The calls on sockets beside `Read` and `Write`

`SocketTCP_Receive` and `Read` share their code.  `SocketTCP_Send` copies the
user's bytes with a length that it reads from a variable before it is set, and
`Write` with its argument.  How far a copy looks can be told from the bytes it
has got and from the use bits of the page table.
-/

namespace Nachos

namespace Machine

/-! ## The pages a copy refers to -/

def reference (entry : TranslationEntry) : TranslationEntry :=
  { entry with use := true }

/-- The table when so many bytes have been read, each through its page. -/
def referencedPages (addr : BitVec 32) :
    ℕ → List TranslationEntry → List TranslationEntry
  | 0, table => table
  | count + 1, table =>
      referencedPages (addr + 1) count
        (table.modify (addr.toNat / pageSize) reference)

def referenced (m : Machine) (addr : BitVec 32) (count : ℕ) : Machine :=
  { m with pageTable := m.pageTable.map (referencedPages addr count) }

/-- One of the bytes lies in the page. -/
def ReachesPage (addr : BitVec 32) (count vpn : ℕ) : Prop :=
  ∃ i < count, (addr + BitVec.ofNat 32 i).toNat / pageSize = vpn

/-- Two copies reach the same pages, but for pages that have been used
before. -/
def SamePages (m : Machine) (addr : BitVec 32) (count count' : ℕ) : Prop :=
  ∀ table, m.pageTable = some table → ∀ vpn entry, table[vpn]? = some entry →
    (ReachesPage addr count vpn ↔ ReachesPage addr count' vpn) ∨
      entry.use = true

section Pages

variable {m m' : Machine} {addr : BitVec 32} {count count' : ℕ}

theorem reachesPage_succ {vpn : ℕ} : ReachesPage addr (count + 1) vpn ↔
    addr.toNat / pageSize = vpn ∨ ReachesPage (addr + 1) count vpn := by
  constructor
  · rintro ⟨i, hi, hpage⟩
    cases i with
    | zero => exact .inl (by simpa using hpage)
    | succ i =>
        rw [← add_one_add_ofNat] at hpage
        exact .inr ⟨i, by omega, hpage⟩
  · rintro (hpage | ⟨i, hi, hpage⟩)
    · exact ⟨0, by omega, by simpa using hpage⟩
    · rw [add_one_add_ofNat] at hpage
      exact ⟨i + 1, by omega, hpage⟩

open Classical in
theorem referencedPages_getElem?
    (addr : BitVec 32) (count : ℕ) (table : List TranslationEntry) (vpn : ℕ) :
    (referencedPages addr count table)[vpn]? = (table[vpn]?).map fun entry =>
      if ReachesPage addr count vpn then reference entry else entry := by
  induction count generalizing addr table with
  | zero =>
      have hnone : ¬ReachesPage addr 0 vpn := by
        rintro ⟨i, hi, -⟩
        omega
      simp [referencedPages, hnone]
  | succ count ih =>
      rw [referencedPages, ih, List.getElem?_modify, reachesPage_succ]
      cases table[vpn]? with
      | none => rfl
      | some entry =>
          by_cases hpage : addr.toNat / pageSize = vpn
          · simp [hpage, reference]
          · simp [hpage]

theorem reference_eq_self_iff {entry : TranslationEntry} :
    reference entry = entry ↔ entry.use = true := by
  constructor
  · intro hsame
    rw [← hsame]
    rfl
  · intro huse
    cases entry
    cases huse
    rfl

theorem referenced_eq_iff : m.referenced addr count =
    m.referenced addr count' ↔ m.SamePages addr count count' := by
  classical
  have hpages : m.referenced addr count = m.referenced addr count' ↔
      ∀ table, m.pageTable = some table →
        referencedPages addr count table =
          referencedPages addr count' table := by
    constructor
    · intro hsame table htable
      have hmap := congrArg Machine.pageTable hsame
      simpa [referenced, htable] using hmap
    · intro hsame
      cases htable : m.pageTable with
      | none => simp [referenced, htable]
      | some table => simp [referenced, htable, hsame table htable]
  rw [hpages]
  refine forall₂_congr fun table _ => ?_
  constructor
  · intro hsame vpn entry hentry
    have hget := congrArg (fun pages => pages[vpn]?) hsame
    simp only [referencedPages_getElem?, hentry, Option.map_some,
      Option.some.injEq] at hget
    rw [← reference_eq_self_iff]
    split_ifs at hget with hfirst hsecond hsecond
    · exact .inl (iff_of_true hfirst hsecond)
    · exact .inr hget
    · exact .inr hget.symm
    · exact .inl (iff_of_false hfirst hsecond)
  · intro hsame
    apply List.ext_getElem?
    intro vpn
    rw [referencedPages_getElem?, referencedPages_getElem?]
    cases hentry : table[vpn]? with
    | none => rfl
    | some entry =>
        rw [Option.map_some, Option.map_some]
        rcases hsame vpn entry hentry with hiff | huse
        · by_cases hreaches : ReachesPage addr count vpn
          · rw [if_pos hreaches, if_pos (hiff.mp hreaches)]
          · rw [if_neg hreaches, if_neg (hiff.not.mp hreaches)]
        · rw [reference_eq_self_iff.mpr huse, ite_self, ite_self]

end Pages

/-! ## The bytes a copy looks at -/

/-- The bytes that `User2System` reads with the limit: that many, or up to the
first zero byte. -/
structure Looks (m : Machine) (addr : BitVec 32) (limit : ℕ)
    (text : List (BitVec 8)) : Prop where
  holds : m.HoldsBytes addr text
  first : throughZero text = text
  ends : text.length = limit ∨ 0 ∈ text ∧ text.length ≤ limit

section Looking

variable {m m' : Machine} {addr : BitVec 32} {limit : ℕ}
variable {text user : List (BitVec 8)} {byte : BitVec 8}

theorem referenced_zero (m : Machine) (addr : BitVec 32) :
    m.referenced addr 0 = m := by
  rcases m with ⟨registers, memory, map, table, tableSize⟩
  cases table <;> rfl

theorem referenced_succ (m : Machine) (addr : BitVec 32) (count : ℕ) :
    (m.referenced addr 1).referenced (addr + 1) count =
      m.referenced addr (count + 1) := by
  rcases m with ⟨registers, memory, map, table, tableSize⟩
  cases table <;> rfl

/-- A translation for reading sets the use bit of the entry, and nothing
else. -/
theorem referenced_of_translate {size paddr : ℕ}
    (htranslate : m.translate addr size false = .ok (.ok (paddr, m'))) :
    m' = m.referenced addr 1 := by
  unfold translate at htranslate
  simp only at htranslate
  split at htranslate
  next => cases htranslate
  next =>
    split at htranslate
    next => cases htranslate
    next table htable =>
      split at htranslate
      next => cases htranslate
      next hpage =>
        split at htranslate
        next => cases htranslate
        next entry hentry =>
          have hmodify : table.set (addr.toNat / pageSize)
              { entry with use := true, dirty := entry.dirty || false } =
                table.modify (addr.toNat / pageSize) reference := by
            obtain ⟨hlt, hold⟩ := List.getElem?_eq_some_iff.mp hentry
            apply List.ext_getElem?
            intro vpn
            rw [List.getElem?_modify, List.getElem?_set]
            by_cases hsame : addr.toNat / pageSize = vpn
            · subst hsame
              simp [hlt, hold, reference]
            · simp [hsame]
          split_ifs at htranslate
          · cases htranslate
          · cases htranslate
          · obtain ⟨-, -, hresult⟩ := ok_of_bind htranslate
            cases hresult
            rw [referenced, htable, hmodify]
            rfl
          · cases htranslate

theorem readMem_ok {value : BitVec 32}
    (hread : m.readMem addr 1 = .ok (value, m')) :
    ∃ byte, m.userByte addr = some byte ∧ value = byte.signExtend 32 ∧
      m' = m.referenced addr 1 := by
  obtain ⟨result, htranslate, hread⟩ := ok_of_bind hread
  cases result with
  | error which => cases hread
  | ok result =>
      obtain ⟨paddr, after⟩ := result
      obtain ⟨loaded, hload, hresult⟩ := ok_of_bind hread
      cases hresult
      cases hload
      have hphys := physical_of_translate htranslate
      have hmemory := (sameMapping_of_translate htranslate).2
      refine ⟨m.mainMemory paddr, ?_, by rw [hmemory], ?_⟩
      · rw [userByte, hphys, Option.map_some]
      · exact referenced_of_translate htranslate

theorem readMem_eq (hbyte : m.userByte addr = some byte) :
    m.readMem addr 1 = .ok (byte.signExtend 32, m.referenced addr 1) := by
  obtain ⟨after, hread, -, -⟩ := readMem_byte hbyte
  obtain ⟨other, -, -, rfl⟩ := readMem_ok hread
  exact hread

theorem holdsBytes_referenced (hbyte : m.userByte addr = some byte)
    (other : BitVec 32) : (m.referenced addr 1).HoldsBytes other text ↔
      m.HoldsBytes other text := by
  obtain ⟨after, hread, hsame, hmemory⟩ := readMem_byte hbyte
  obtain ⟨-, -, -, rfl⟩ := readMem_ok hread
  exact hsame.holdsBytes hmemory

theorem looks_cons_iff {rest : List (BitVec 8)} (hbyte : byte ≠ 0) :
    m.Looks addr (limit + 1) (byte :: rest) ↔
      m.userByte addr = some byte ∧ m.Looks (addr + 1) limit rest := by
  have hthrough : throughZero (byte :: rest) = byte :: throughZero rest :=
    if_neg hbyte
  have hmem : 0 ∈ byte :: rest ↔ 0 ∈ rest := by
    rw [List.mem_cons, or_iff_right (Ne.symm hbyte)]
  constructor
  · rintro ⟨⟨hhead, htail⟩, hfirst, hends⟩
    rw [hthrough] at hfirst
    refine ⟨hhead, htail, (List.cons.inj hfirst).2, ?_⟩
    rw [hmem, List.length_cons] at hends
    exact hends.imp (by omega) fun ⟨hin, hle⟩ => ⟨hin, by omega⟩
  · rintro ⟨hhead, htail, hfirst, hends⟩
    refine ⟨⟨hhead, htail⟩, by rw [hthrough, hfirst], ?_⟩
    rw [hmem, List.length_cons]
    exact hends.imp (by omega) fun ⟨hin, hle⟩ => ⟨hin, by omega⟩

/-- What a copy does when the bytes it looks at can be read. -/
theorem Looks.copyIn_eq (hlooks : m.Looks addr limit text) :
    copyIn addr limit m =
      .ok (cString text, m.referenced addr text.length) := by
  induction text generalizing m addr limit with
  | nil =>
      have hlimit : limit = 0 := by
        have hends := hlooks.ends
        simp at hends
        omega
      rw [hlimit, copyIn, List.length_nil, referenced_zero]
      rfl
  | cons byte rest ih =>
      have hpositive : limit ≠ 0 := by
        rintro rfl
        simpa using hlooks.ends
      obtain ⟨rounds, rfl⟩ := Nat.exists_eq_succ_of_ne_zero hpositive
      rw [copyIn, readMem_eq hlooks.holds.1]
      simp only [bind, Except.bind, signExtend_eq_zero]
      by_cases hzero : byte = 0
      · obtain rfl : rest = [] := by
          have hfirst := hlooks.first
          rw [throughZero, if_pos hzero] at hfirst
          exact (List.cons.inj hfirst).2.symm
        rw [if_pos hzero, cString_cons, if_pos hzero]
        rfl
      · obtain ⟨hbyte, hrest⟩ := (looks_cons_iff hzero).mp hlooks
        have hrest' : (m.referenced addr 1).Looks (addr + 1) rounds rest :=
          ⟨(holdsBytes_referenced hbyte _).mpr hrest.holds, hrest.first,
            hrest.ends⟩
        rw [if_neg hzero, ih hrest', cString_cons, if_neg hzero,
          referenced_succ, setWidth_signExtend]
        rfl

/-- A copy that comes to an end has looked at some bytes. -/
theorem looks_of_copyIn {name : CString}
    (hcopy : copyIn addr limit m = .ok (name, m')) :
    ∃ text, m.Looks addr limit text := by
  induction limit generalizing m m' addr name with
  | zero => exact ⟨[], trivial, rfl, .inl rfl⟩
  | succ rounds ih =>
      obtain ⟨⟨value, after⟩, hread, hcopy⟩ := ok_of_bind hcopy
      obtain ⟨byte, hbyte, rfl, rfl⟩ := readMem_ok hread
      by_cases hzero : byte = 0
      · subst hzero
        exact ⟨[0], ⟨hbyte, trivial⟩, rfl, .inr ⟨by simp, by simp⟩⟩
      · simp only [if_neg ((signExtend_eq_zero byte).not.mpr hzero)] at hcopy
        obtain ⟨⟨rest, last⟩, hrest, -⟩ := ok_of_bind hcopy
        obtain ⟨text, hlooks⟩ := ih hrest
        refine ⟨byte :: text, (looks_cons_iff hzero).mpr ⟨hbyte, ?_⟩⟩
        exact ⟨(holdsBytes_referenced hbyte _).mp hlooks.holds, hlooks.first,
          hlooks.ends⟩

end Looking

/-! ## Two copies from one address -/

section Comparing

variable {m m' : Machine} {addr limit : BitVec 32}
variable {text user : List (BitVec 8)}

theorem user2System_of_looks (hlimit : 0 ≤ (limit + 1).toInt)
    (hlooks : m.Looks addr limit.toInt.toNat text) :
    m.user2System addr limit = .ok (kernelBuffer limit (cString text),
      m.referenced addr text.length) := by
  rw [user2System, if_neg (not_lt.mpr hlimit), hlooks.copyIn_eq]
  rfl

theorem looks_of_user2System {buffer : List (BitVec 8)}
    (hcopy : m.user2System addr limit = .ok (buffer, m')) :
    0 ≤ (limit + 1).toInt ∧
      ∃ text, m.Looks addr limit.toInt.toNat text := by
  unfold user2System at hcopy
  split_ifs at hcopy with hnegative
  obtain ⟨⟨name, after⟩, hname, -⟩ := ok_of_bind hcopy
  exact ⟨not_lt.mp hnegative, looks_of_copyIn hname⟩

theorem isPrefix_of_holdsBytes (htext : m.HoldsBytes addr text)
    (huser : m.HoldsBytes addr user) (hle : text.length ≤ user.length) :
    text <+: user := by
  induction text generalizing addr user with
  | nil => exact List.nil_prefix
  | cons byte rest ih =>
      cases user with
      | nil => simp at hle
      | cons other more =>
          have hsame : byte = other :=
            Option.some.inj (htext.1.symm.trans huser.1)
          rw [hsame]
          exact List.cons_prefix_cons.mpr
            ⟨rfl, ih htext.2 huser.2 (by simpa using hle)⟩

theorem zero_mem_throughZero (bytes : List (BitVec 8)) :
    0 ∈ throughZero bytes ↔ 0 ∈ bytes := by
  induction bytes with
  | nil => rfl
  | cons byte rest ih =>
      rw [throughZero]
      split
      next hzero => simp [hzero]
      next hne => rw [List.mem_cons, List.mem_cons, ih]

theorem throughZero_of_not_mem (hzero : 0 ∉ text) : throughZero text = text := by
  induction text with
  | nil => rfl
  | cons byte rest ih =>
      rw [List.mem_cons, not_or] at hzero
      rw [throughZero, if_neg (Ne.symm hzero.1), ih hzero.2]

theorem throughZero_throughZero (bytes : List (BitVec 8)) :
    throughZero (throughZero bytes) = throughZero bytes := by
  induction bytes with
  | nil => rfl
  | cons byte rest ih =>
      rw [throughZero]
      split
      next hzero => rw [throughZero, if_pos hzero]
      next hne => rw [throughZero, if_neg hne, ih]

theorem cString_throughZero (bytes : List (BitVec 8)) :
    cString (throughZero bytes) = cString bytes := by
  induction bytes with
  | nil => rfl
  | cons byte rest ih =>
      rw [throughZero]
      split
      next hzero => rw [cString_cons, cString_cons, if_pos hzero, if_pos hzero]
      next hne =>
        rw [cString_cons, cString_cons, if_neg hne, if_neg hne, ih]

/-- A copy of a whole range looks at it up to the first zero byte. -/
theorem looks_throughZero (huser : m.HoldsBytes addr user) :
    m.Looks addr user.length (throughZero user) := by
  obtain ⟨behind, hsplit⟩ := throughZero_isPrefix user
  refine ⟨?_, throughZero_throughZero user, ?_⟩
  · rw [← hsplit] at huser
    exact (HoldsBytes.append.mp huser).1
  · by_cases hzero : 0 ∈ user
    · exact .inr ⟨(zero_mem_throughZero user).mpr hzero,
        length_throughZero_le user⟩
    · exact .inl (congrArg List.length (throughZero_of_not_mem hzero))

end Comparing

end Machine

/-! ## The bytes that are handed over -/

section Bytes

variable {m : Machine} {addr : BitVec 32} {text user : List (BitVec 8)}
variable {name : CString}

theorem cString_bytes_take (bytes : List (BitVec 8)) (n : ℕ) :
    cString (bytes.take n) = (cString bytes).take n := by
  induction bytes generalizing n with
  | nil => simp [cString]
  | cons byte rest ih =>
      cases n with
      | zero => rfl
      | succ n =>
          rw [List.take_succ_cons, Machine.cString_cons,
            Machine.cString_cons]
          split
          next => rfl
          next => rw [ih, List.take_succ_cons]

theorem zero_not_mem_cString (bytes : List (BitVec 8)) : 0 ∉ cString bytes := by
  intro hmem
  have hne := List.mem_takeWhile_imp hmem
  simp at hne

theorem length_cString_lt (hzero : 0 ∈ text) :
    (cString text).length < text.length := by
  induction text with
  | nil => simp at hzero
  | cons byte rest ih =>
      rw [Machine.cString_cons]
      split
      next => simp
      next hne =>
        have hrest := (List.mem_cons.mp hzero).resolve_left (Ne.symm hne)
        have hlt := ih hrest
        simp only [List.length_cons]
        omega

theorem cString_of_not_mem (hzero : 0 ∉ text) : cString text = text := by
  have hname := cString_append_zeros hzero 0
  simpa using hname

/-- A buffer shows the string it has been filled with, as far as it is
handed over. -/
theorem cString_take_kernelBuffer {limit : BitVec 32} (hname : 0 ∉ name)
    (n : ℕ) : cString ((Machine.kernelBuffer limit name).take n) =
      name.take n := by
  rw [Machine.kernelBuffer, cString_bytes_take, cString_append_zeros hname]

theorem kernelBuffer_take {limit : BitVec 32} {n : ℕ}
    (hlimit : n ≤ (limit + 1).toNat) (hle : name.length ≤ (limit + 1).toNat) :
    (Machine.kernelBuffer limit name).take n =
      name.take n ++ List.replicate (n - name.length) 0 := by
  rw [Machine.kernelBuffer, List.take_append, List.take_replicate]
  congr 2
  omega

/-- The copies hand over the same bytes if their strings agree. -/
theorem take_kernelBuffer_eq_iff {limit : BitVec 32}
    (hlimit : user.length ≤ (limit + 1).toNat)
    (hle : (cString text).length ≤ (limit + 1).toNat) :
    (Machine.kernelBuffer limit (cString text)).take user.length =
        padded user ↔
      cString (text.take user.length) = cString user := by
  rw [cString_bytes_take]
  constructor
  · intro hsame
    have hshown := congrArg cString hsame
    rwa [cString_take_kernelBuffer (zero_not_mem_cString text),
      cString_padded] at hshown
  · intro hsame
    have hlength := congrArg List.length hsame
    have huser := length_cString_le user
    rw [List.length_take] at hlength
    rw [kernelBuffer_take hlimit hle, hsame, padded]
    congr 2
    omega

/-- The string of a copy that looks no further than one byte short of the
user's bytes is theirs if they end with a zero byte. -/
theorem cString_looks_iff {limit : ℕ} (hlooks : m.Looks addr limit text)
    (huser : m.HoldsBytes addr user) (hle : user.length ≤ limit + 1) :
    cString (text.take user.length) = cString user ↔
      user.length ≤ limit ∨ 0 ∈ user := by
  by_cases hlong : user.length ≤ text.length
  · have hprefix := Machine.isPrefix_of_holdsBytes huser hlooks.holds hlong
    rw [← List.prefix_iff_eq_take.mp hprefix]
    have hends : text.length ≤ limit := by
      rcases hlooks.ends with hall | ⟨-, hzero⟩ <;> omega
    exact iff_of_true rfl (.inl (by omega))
  · have hshort : text.length ≤ user.length := by omega
    have hprefix := Machine.isPrefix_of_holdsBytes hlooks.holds huser hshort
    have htext : text = user.take text.length :=
      List.prefix_iff_eq_take.mp hprefix
    rw [List.take_of_length_le hshort]
    rcases hlooks.ends with hall | ⟨hzero, hends⟩
    · constructor
      · intro hsame
        by_contra hnone
        rw [not_or] at hnone
        have hlength := congrArg List.length hsame
        rw [cString_of_not_mem hnone.2] at hlength
        have hstring := length_cString_le text
        omega
      · intro hends
        have hzero : 0 ∈ user := hends.resolve_left (by omega)
        have hlt := length_cString_lt hzero
        rw [htext, cString_bytes_take, List.take_of_length_le (by omega)]
    · have hin : 0 ∈ user := hprefix.subset hzero
      have hlt := length_cString_lt hzero
      have hstring := congrArg cString htext
      rw [cString_bytes_take] at hstring
      refine iff_of_true ?_ (.inr hin)
      rw [hstring, List.take_of_length_le]
      have hlength := congrArg List.length hstring
      rw [List.length_take] at hlength
      omega

end Bytes

namespace Machine

theorem writeRegister_comm (m : Machine) {i j : ℕ} (hne : i ≠ j)
    (value value' : BitVec 32) :
    (m.writeRegister i value).writeRegister j value' =
      (m.writeRegister j value').writeRegister i value := by
  unfold writeRegister
  rw [Function.update_comm hne]

theorem pcIncrease_writeRegister (m : Machine) {num : ℕ} (hlt : num < 34)
    (value : BitVec 32) : (m.writeRegister num value).pcIncrease =
      m.pcIncrease.writeRegister num value := by
  have hread : ∀ m : Machine, (m.writeRegister num value).readRegister pcReg =
      m.readRegister pcReg := by
    intro m
    exact Function.update_of_ne (by unfold pcReg; omega) _ _
  have hother : ∀ {reg : ℕ}, 34 ≤ reg → ∀ (m : Machine) (x : BitVec 32),
      (m.writeRegister num value).writeRegister reg x =
        (m.writeRegister reg x).writeRegister num value :=
    fun hle m x => m.writeRegister_comm (by omega) value x
  simp only [pcIncrease, hread, hother (show 34 ≤ prevPCReg by decide),
    hother (show 34 ≤ pcReg by decide), hother (show 34 ≤ nextPCReg by decide)]

end Machine

namespace Kernel

/-! ## Calls with three arguments -/

/-- The registers of the arguments. -/
def withArguments (k : Kernel) (first second third : BitVec 32) : Kernel :=
  { k with machine := ((k.machine.writeRegister 4 first).writeRegister 5
      second).writeRegister 6 third }

/-- What the arguments do not show. -/
def forget (k : Kernel) : Kernel :=
  k.withArguments 0 0 0

/-- The calls end in the same way: with the same fault, or in states that
differ in the registers of the arguments only. -/
def SameEnd (result result' : Except Fault Kernel) : Prop :=
  result.map forget = result'.map forget

/-- `SocketTCP_Send(id, va, n)` does what `Write(va, n, id)` does, whatever the
host answers. -/
def SendAgrees (env : Environment) (k : Kernel) (id va n : BitVec 32) :
    Prop :=
  ∀ answer, SameEnd
    ((k.withArguments id va n).handle { env with answer := answer }
      .socketTCPSend)
    ((k.withArguments va n id).handle { env with answer := answer } .write)

/-- `SocketTCP_Receive(id, va, n)` does what `Read(va, n, id)` does. -/
def ReceiveAgrees (env : Environment) (k : Kernel) (id va n : BitVec 32) :
    Prop :=
  ∀ answer, SameEnd
    ((k.withArguments id va n).handle { env with answer := answer }
      .socketTCPReceive)
    ((k.withArguments va n id).handle { env with answer := answer } .read)

section Arguments

variable {env : Environment} {k : Kernel} {a b c a' b' c' : BitVec 32}

theorem forget_withArguments (k : Kernel) (a b c : BitVec 32) :
    (k.withArguments a b c).forget = k.forget := by
  unfold forget withArguments Machine.writeRegister
  congr 2
  funext num
  simp only [Function.update_apply]
  split_ifs <;> rfl

theorem returns_withArguments (k : Kernel) (a b c : BitVec 32) (result : ℤ) :
    (k.withArguments a b c).returns result =
      (k.returns result).withArguments a b c := by
  have hregister : ∀ {num : ℕ}, 2 ≠ num → ∀ (m : Machine)
      (value value' : BitVec 32),
      (m.writeRegister num value).writeRegister 2 value' =
        (m.writeRegister 2 value').writeRegister num value :=
    fun hne m value value' => m.writeRegister_comm hne.symm value value'
  simp only [returns, withArguments, hregister (show 2 ≠ 6 by decide),
    hregister (show 2 ≠ 5 by decide), hregister (show 2 ≠ 4 by decide),
    Machine.pcIncrease_writeRegister _ (show 6 < 34 by decide),
    Machine.pcIncrease_writeRegister _ (show 5 < 34 by decide),
    Machine.pcIncrease_writeRegister _ (show 4 < 34 by decide)]

theorem user2System_withArguments (k : Kernel) (a b c addr limit : BitVec 32) :
    (k.withArguments a b c).user2System addr limit =
      (k.user2System addr limit).map
        (Prod.map id (·.withArguments a b c)) := by
  simp only [user2System, withArguments, Machine.user2System_writeRegister]
  cases k.machine.user2System addr limit <;> rfl

theorem system2User_withArguments (k : Kernel) (a b c addr : BitVec 32)
    (len : ℤ) (buffer : List (BitVec 8)) :
    (k.withArguments a b c).system2User addr len buffer =
      (k.system2User addr len buffer).map
        (Prod.map id (·.withArguments a b c)) := by
  simp only [system2User, withArguments, Machine.system2User_writeRegister]
  cases k.machine.system2User addr len buffer <;> rfl

theorem receive_withArguments (k : Kernel) (a b c : BitVec 32) (id : ℤ)
    (addr len : BitVec 32) :
    (k.withArguments a b c).receive env id addr len =
      (k.receive env id addr len).map (·.withArguments a b c) := by
  unfold receive
  split
  next => rfl
  next =>
    have hreceive : (k.withArguments a b c).fileSystem.receiveTCP
        (k.withArguments a b c).host id len.toNat env.answer =
          k.fileSystem.receiveTCP k.host id len.toNat env.answer := rfl
    rw [hreceive]
    cases k.fileSystem.receiveTCP k.host id len.toNat env.answer with
    | error fault => rfl
    | ok result =>
        obtain ⟨bytes, host⟩ := result
        have hhost : ({ k.withArguments a b c with host := host } : Kernel) =
            ({ k with host := host } : Kernel).withArguments a b c := rfl
        simp only [bind, Except.bind, hhost, returns_withArguments]
        cases bytes with
        | none => rfl
        | some buffer =>
            cases buffer with
            | nil => rfl
            | cons byte rest =>
                simp only [system2User_withArguments]
                cases ({ k with host := host } : Kernel).system2User addr
                    (byte :: rest).length (byte :: rest) with
                | error fault => rfl
                | ok result =>
                    simp only [Except.map, Prod.map, id_eq,
                      returns_withArguments]
                    rfl

end Arguments

/-! ## The handlers -/

/-- The bytes have gone to the host's `send`. -/
def sent (k : Kernel) (m : Machine) (fd : ℕ) (bytes : List (BitVec 8))
    (answer : HostAnswer) : Kernel :=
  { k with machine := m, host := (k.host.send fd bytes answer).2 }.returns
    (bytesCount (k.host.send fd bytes answer).1)

section Handlers

variable {env : Environment} {k : Kernel} {s : OpenFileSocket}
variable {id va n : BitVec 32} {buff : List (BitVec 8)} {m : Machine}

theorem send_withArguments (hsocket : k.SocketAt id.toInt s)
    (a b c : BitVec 32) (m : Machine) (buff : List (BitVec 8)) (len : ℤ) :
    (({ k with machine := m } : Kernel).withArguments a b c).send env id.toInt
        buff len =
      if 0 ≤ len ∧ len ≤ buff.length then
        .ok ((k.sent m s.fd (buff.take len.toNat) env.answer).withArguments
          a b c)
      else .error .undefinedBehaviour := by
  have hsend : k.fileSystem.sendTCP k.host id.toInt buff len env.answer =
      if 0 ≤ len ∧ len ≤ buff.length then
        .ok (k.host.send s.fd (buff.take len.toNat) env.answer)
      else .error .undefinedBehaviour := by
    rw [FileSystem.sendTCP, if_neg hsocket.not_outside,
      if_neg hsocket.not_isNull, FileSystem.socketAt_eq hsocket.slot]
    rfl
  unfold send
  change (k.fileSystem.sendTCP k.host id.toInt buff len env.answer >>= _) = _
  rw [hsend]
  split
  next =>
    simp only [bind, Except.bind, sent]
    rw [← returns_withArguments]
    rfl
  next => rfl

theorem handle_send_of_copy (env : Environment)
    (hsocket : k.SocketAt id.toInt s)
    (hcopy : k.machine.user2System va env.leng = .ok (buff, m)) :
    (k.withArguments id va n).handle env .socketTCPSend =
      if buff = [] then .error .undefinedBehaviour
      else if 0 ≤ n.toInt ∧ n.toInt ≤ buff.length then
        .ok ((k.sent m s.fd (buff.take n.toInt.toNat) env.answer).withArguments
          id va n)
      else .error .undefinedBehaviour := by
  have hcopied : (k.withArguments id va n).user2System
      ((k.withArguments id va n).register 5) env.leng =
        .ok (buff, ({ k with machine := m } : Kernel).withArguments id va n) := by
    change (k.withArguments id va n).user2System va env.leng = _
    rw [user2System_withArguments, user2System_eq hcopy]
    rfl
  simp only [handle, handleSCSocketTCPSend, hcopied, bind, Except.bind]
  split
  next => rfl
  next => exact send_withArguments hsocket id va n m buff n.toInt

theorem handle_send_of_fault (env : Environment) {fault : Fault}
    (hcopy : k.machine.user2System va env.leng = .error fault) :
    (k.withArguments id va n).handle env .socketTCPSend = .error fault := by
  have hcopied : (k.withArguments id va n).user2System
      ((k.withArguments id va n).register 5) env.leng = .error fault := by
    change (k.withArguments id va n).user2System va env.leng = _
    rw [user2System_withArguments, user2System, hcopy]
    rfl
  simp only [handle, handleSCSocketTCPSend, hcopied, bind, Except.bind]

theorem handle_write_of_copy (hsocket : k.SocketAt id.toInt s)
    (hcopy : k.machine.user2System va n = .ok (buff, m)) :
    (k.withArguments va n id).handle env .write =
      if 0 ≤ n.toInt ∧ n.toInt ≤ buff.length then
        .ok ((k.sent m s.fd (buff.take n.toInt.toNat) env.answer).withArguments
          va n id)
      else .error .undefinedBehaviour := by
  have htype : (FileSlot.ofSocket (.object s)).type = 1 := rfl
  have hslot : (k.withArguments va n id).fileSystem.fileSlot
      ((k.withArguments va n id).register 6).toInt.toNat =
        .object (.ofSocket (.object s)) := hsocket.slot
  have hoccupied : (k.withArguments va n id).occupied
      ((k.withArguments va n id).register 6).toInt := hsocket.occupied
  have hcopied : (k.withArguments va n id).user2System
      ((k.withArguments va n id).register 4)
      ((k.withArguments va n id).register 5) =
        .ok (buff, ({ k with machine := m } : Kernel).withArguments va n id) := by
    change (k.withArguments va n id).user2System va n = _
    rw [user2System_withArguments, user2System_eq hcopy]
    rfl
  simp only [handle, handleSCWrite, if_pos hoccupied, hslot,
    Pointer.deref_object, bind, Except.bind, if_pos htype, hcopied]
  exact send_withArguments hsocket va n id m buff n.toInt

theorem receiveAgrees (hsocket : k.SocketAt id.toInt s) (va n : BitVec 32) :
    k.ReceiveAgrees env id va n := by
  intro answer
  have hsocket' : (k.withArguments va n id).SocketAt
      ((k.withArguments va n id).register 6).toInt s :=
    ⟨hsocket.slot, hsocket.range, hsocket.opened⟩
  unfold SameEnd
  rw [handle_read_eq_receive hsocket']
  change Except.map forget ((k.withArguments id va n).receive _ id.toInt va n) =
    Except.map forget ((k.withArguments va n id).receive _ id.toInt va n)
  rw [receive_withArguments, receive_withArguments]
  cases k.receive { env with answer := answer } id.toInt va n with
  | error fault => rfl
  | ok k' =>
      simp only [Except.map, forget_withArguments]

end Handlers

section Sends

variable {env : Environment} {k : Kernel} {s : OpenFileSocket}
variable {id va n : BitVec 32} {user text : List (BitVec 8)}

/-- Whatever the host accepts, the states tell the bytes apart and the use bits
that the copies have set. -/
theorem forget_sent_iff {fd count count' : ℕ} {bytes bytes' : List (BitVec 8)}
    (hopened : k.host.sockets[fd]? ≠ none) :
    (∀ answer,
        (k.sent (k.machine.referenced va count) fd bytes answer).forget =
          (k.sent (k.machine.referenced va count') fd bytes' answer).forget) ↔
      bytes = bytes' ∧
        k.machine.referenced va count = k.machine.referenced va count' := by
  constructor
  · intro hsame
    obtain ⟨socket, hsocket⟩ := Option.ne_none_iff_exists'.mp hopened
    have hall := hsame (some (max bytes.length bytes'.length))
    have houtgoing := congrArg (fun k => k.host.sockets[fd]?) hall
    have hpages := congrArg (fun k => k.machine.pageTable) hall
    constructor
    · have hfirst : bytes.take (max bytes.length bytes'.length) = bytes :=
        List.take_of_length_le (le_max_left _ _)
      have hsecond : bytes'.take (max bytes.length bytes'.length) = bytes' :=
        List.take_of_length_le (le_max_right _ _)
      simpa [forget, withArguments, sent, returns, Host.send,
        Host.modifySocket, hsocket, hfirst, hsecond] using houtgoing
    · have htable : k.machine.pageTable.map
          (Machine.referencedPages va count) =
            k.machine.pageTable.map (Machine.referencedPages va count') :=
        hpages
      rw [Machine.referenced, Machine.referenced, htable]
  · rintro ⟨rfl, hmachine⟩ answer
    rw [hmachine]

theorem length_kernelBuffer {limit : BitVec 32} {name : CString}
    (hle : name.length ≤ (limit + 1).toNat) :
    (Machine.kernelBuffer limit name).length = (limit + 1).toNat := by
  rw [Machine.kernelBuffer, List.length_append, List.length_replicate]
  omega

theorem toNat_toInt_eq_length (hcount : 0 ≤ n.toInt)
    (hlength : user.length = n.toNat) : n.toInt.toNat = user.length := by
  have hnat := Machine.toInt_eq_toNat hcount
  omega

theorem handle_write_user (env : Environment)
    (hsocket : k.SocketAt id.toInt s)
    (hcount : 0 ≤ n.toInt) (hdistinct : k.machine.DistinctFrames)
    (huser : k.machine.HoldsBytes va user) (hlength : user.length = n.toNat) :
    (k.withArguments va n id).handle env .write =
      .ok ((k.sent
        (k.machine.referenced va (Machine.throughZero user).length) s.fd
          (padded user) env.answer).withArguments va n id) := by
  have hsize := huser.le_memorySize hdistinct (hlength ▸ n.isLt)
  have hbound : memorySize = 16384 := rfl
  have hint := toNat_toInt_eq_length hcount hlength
  have hroom : (n + 1).toNat = user.length + 1 := by
    have hone : (1 : BitVec 32).toNat = 1 := rfl
    rw [BitVec.toNat_add, hone, ← hlength]
    omega
  have hlooks : k.machine.Looks va n.toInt.toNat
      (Machine.throughZero user) := by
    rw [hint]
    exact Machine.looks_throughZero huser
  have hcopy := Machine.user2System_of_looks
    (Machine.add_one_nonneg (hlength ▸ hsize)) hlooks
  rw [Machine.cString_throughZero] at hcopy
  have hname := length_cString_le user
  have hbuffer : (Machine.kernelBuffer n (cString user)).length =
      user.length + 1 := by
    rw [length_kernelBuffer (by omega), hroom]
  rw [handle_write_of_copy hsocket hcopy, hint,
    take_kernelBuffer (by omega), if_pos ⟨hcount, by omega⟩]

/-- The sends agree when the copies agree. -/
theorem sendAgrees_iff_of_looks (hsocket : k.SocketAt id.toInt s)
    (hcount : 0 ≤ n.toInt) (hdistinct : k.machine.DistinctFrames)
    (huser : k.machine.HoldsBytes va user) (hlength : user.length = n.toNat)
    (hrange : 0 < (env.leng + 1).toInt)
    (hlooks : k.machine.Looks va env.leng.toInt.toNat text) :
    k.SendAgrees env id va n ↔
      user.length ≤ env.leng.toInt.toNat + 1 ∧
        cString (text.take user.length) = cString user ∧
        k.machine.SamePages va text.length
          (Machine.throughZero user).length := by
  have hroom := Machine.toNat_add_one hrange
  have hint := toNat_toInt_eq_length hcount hlength
  have hname : (cString text).length ≤ (env.leng + 1).toNat := by
    have hle := length_cString_le text
    rcases hlooks.ends with hall | ⟨-, hends⟩ <;> omega
  have hbuffer := length_kernelBuffer hname
  have hsome : Machine.kernelBuffer env.leng (cString text) ≠ [] := by
    rw [← List.length_pos_iff]
    omega
  have hsend := fun answer => handle_send_of_copy
    { env with answer := answer } (n := n) hsocket
    (Machine.user2System_of_looks hrange.le hlooks)
  simp only [if_neg hsome] at hsend
  have hwrite := fun answer => handle_write_user
    { env with answer := answer } hsocket hcount hdistinct huser
    hlength
  by_cases hfits : user.length ≤ (env.leng + 1).toNat
  · have hbytes := take_kernelBuffer_eq_iff hfits hname
    rw [← hbytes, ← Machine.referenced_eq_iff, and_iff_right (by omega),
      ← forget_sent_iff hsocket.opened]
    refine forall_congr' fun answer => ?_
    rw [hsend, hwrite, if_pos ⟨hcount, by omega⟩, hint]
    simp only [SameEnd, Except.map, forget_withArguments, Except.ok.injEq]
  · refine iff_of_false ?_ (by omega)
    intro hagrees
    have hsame := hagrees none
    rw [hsend, hwrite, if_neg (by omega)] at hsame
    cases hsame

/-- The variable `leng` does as well as the length of the buffer: it is a
length, the copy gets the same string, the bytes it looks at can be read, and
the two copies set the same use bits. -/
structure LengServes (m : Machine) (va : BitVec 32) (user : List (BitVec 8))
    (leng : BitVec 32) : Prop where
  range : 0 ≤ leng.toInt ∧ leng.toInt < 2 ^ 31 - 1
  enough : user.length ≤ leng.toInt ∨
    user.length = leng.toInt + 1 ∧ 0 ∈ user
  readable : ∃ text, m.Looks va leng.toInt.toNat text ∧
    m.SamePages va text.length (Machine.throughZero user).length

theorem sendAgrees_iff (hsocket : k.SocketAt id.toInt s)
    (hcount : 0 ≤ n.toInt) (hdistinct : k.machine.DistinctFrames)
    (huser : k.machine.HoldsBytes va user) (hlength : user.length = n.toNat) :
    k.SendAgrees env id va n ↔ LengServes k.machine va user env.leng := by
  constructor
  · intro hagrees
    have hwrite := handle_write_user { env with answer := none }
      hsocket hcount hdistinct huser hlength
    have hsame := hagrees none
    rw [hwrite] at hsame
    cases hcopy : k.machine.user2System va env.leng with
    | error fault =>
        rw [handle_send_of_fault { env with answer := none }
          hcopy] at hsame
        cases hsame
    | ok result =>
        obtain ⟨buff, m⟩ := result
        obtain ⟨hlimit, text, hlooks⟩ := Machine.looks_of_user2System hcopy
        have hrange : 0 < (env.leng + 1).toInt := by
          by_contra hzero
          have hbuff := Machine.eq_nil_of_user2System hcopy hzero
          rw [handle_send_of_copy { env with answer := none }
            hsocket hcopy, if_pos hbuff] at hsame
          cases hsame
        obtain ⟨hfits, hstring, hpages⟩ := (sendAgrees_iff_of_looks hsocket
          hcount hdistinct huser hlength hrange hlooks).mp hagrees
        have henough := (cString_looks_iff hlooks huser hfits).mp hstring
        have hlength' := (Machine.toInt_add_one_pos_iff _).mp hrange
        refine ⟨hlength', ?_, text, hlooks, hpages⟩
        rcases henough with hle | hzero
        · exact .inl (by omega)
        · by_cases hle : user.length ≤ env.leng.toInt
          · exact .inl hle
          · exact .inr ⟨by omega, hzero⟩
  · rintro ⟨hrange, henough, text, hlooks, hpages⟩
    have hfits : user.length ≤ env.leng.toInt.toNat + 1 := by
      rcases henough with hle | ⟨heq, -⟩ <;> omega
    refine (sendAgrees_iff_of_looks hsocket hcount hdistinct huser hlength
      ((Machine.toInt_add_one_pos_iff _).mpr hrange) hlooks).mpr
        ⟨hfits, ?_, hpages⟩
    rw [cString_looks_iff hlooks huser hfits]
    exact henough.imp (by omega) And.right

/-- `SocketTCP_Send` and `SocketTCP_Receive` do what `Write` and `Read` do if
and only if the unset variable serves as a length. -/
theorem socket_calls_agree_iff (hsocket : k.SocketAt id.toInt s)
    (hcount : 0 ≤ n.toInt) (hdistinct : k.machine.DistinctFrames)
    (huser : k.machine.HoldsBytes va user) (hlength : user.length = n.toNat) :
    k.SendAgrees env id va n ∧ k.ReceiveAgrees env id va n ↔
      LengServes k.machine va user env.leng := by
  rw [and_iff_left (receiveAgrees hsocket va n)]
  exact sendAgrees_iff hsocket hcount hdistinct huser hlength

end Sends

/-- A socket in the slot of number 2. -/
def openSocket : Kernel :=
  onePage .socketTCPSend (.ofSocket (.object ⟨0⟩)) [] [1, 2, 3]

theorem openSocket_socketAt : openSocket.SocketAt (2 : BitVec 32).toInt ⟨0⟩ :=
  ⟨rfl, by decide, by simp [openSocket, onePage]⟩

/-- With the length of the user's buffer. -/
theorem socket_calls_agree_openSocket :
    openSocket.SendAgrees { willing with leng := 3 } 2 0 3 ∧
      openSocket.ReceiveAgrees { willing with leng := 3 } 2 0 3 := by
  have hholds : openSocket.machine.HoldsBytes 0 [1, 2, 3] := by decide
  refine (socket_calls_agree_iff openSocket_socketAt (by decide)
    (onePage_distinctFrames _ _ _ _) hholds rfl).mpr ⟨by decide, ?_, ?_⟩
  · exact .inl (by decide)
  · exact ⟨[1, 2, 3], ⟨hholds, rfl, .inl rfl⟩, fun _ _ _ _ _ => .inl Iff.rfl⟩

/-- With a number one below, `SocketTCP_Send` hands over 1, 2, 0. -/
theorem socket_calls_differ :
    openSocket.SocketAt 2 ⟨0⟩ ∧
      openSocket.machine.HoldsBytes 0 [1, 2, 3] ∧
      ¬openSocket.SendAgrees { willing with leng := 2 } 2 0 3 := by
  have hholds : openSocket.machine.HoldsBytes 0 [1, 2, 3] := by decide
  refine ⟨openSocket_socketAt, hholds, ?_⟩
  rw [sendAgrees_iff openSocket_socketAt (by decide)
    (onePage_distinctFrames _ _ _ _) hholds rfl]
  intro hserves
  exact absurd hserves.enough (by decide)

end Kernel

end Nachos
