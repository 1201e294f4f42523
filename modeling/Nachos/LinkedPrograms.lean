import Nachos.CoffSections
import Nachos.LoadedProgram

/-!
# From the linker to the memory

The linker script of the user programs lays the sections one behind the other,
from address 0 on and in the order of the table.  Each byte of raw data then
lies as far from the beginning of the executable as from the beginning of the
memory, but for the header.  The loop of `Load` over the read-only data, which
goes on behind the segment, finds there what is in place already.
-/

namespace Nachos

open Library

namespace Coff

/-! ## Linked programs -/

def rawSize (table : List Scnhdr) : ℕ :=
  (table.map Scnhdr.copiedBytes).sum

def Scnhdr.zeroedBytes (sec : Scnhdr) : ℕ :=
  if sec.IsBss then sec.bytes else 0

def bssSize (table : List Scnhdr) : ℕ :=
  (table.map Scnhdr.zeroedBytes).sum

/-- The pages of the program, with those of its stack. -/
def linkedPages (table : List Scnhdr) : ℕ :=
  divRoundUp (rawSize table + bssSize table + 1024) pageSize

/-- The raw data lies in the order of the table, from the address on. -/
def LaidOut : ℕ → List Scnhdr → Prop
  | _, [] => True
  | address, sec :: rest =>
      (∀ part, sec.IsPart part → sec.sPaddr.toNat = address) ∧
        LaidOut (address + sec.copiedBytes) rest

instance decidableLaidOut :
    ∀ (address : ℕ) (table : List Scnhdr), Decidable (LaidOut address table)
  | _, [] => .isTrue trivial
  | address, sec :: rest =>
      have := decidableLaidOut (address + sec.copiedBytes) rest
      inferInstanceAs (Decidable (_ ∧ _))

/-- A file that the linker has made with the script: the code is in front of the
read-only data and at least as long, the uninitialised data is at the end. -/
structure Linked (input : List (BitVec 8)) : Prop where
  convertible : Convertible input
  laidOut : LaidOut 0 (sectionTable input)
  readonlyData : ∀ sec ∈ sectionTable input, sec.IsPart .readonlyData →
    sec.bytes ≤ sec.sPaddr.toNat
  bss : ∀ sec ∈ sectionTable input, sec.IsBss →
    rawSize (sectionTable input) ≤ sec.sPaddr.toNat ∧ 0 ≤ sec.sSize.toInt

section Layout

variable {address : ℕ} {table : List Scnhdr} {sec : Scnhdr} {part : Part}

theorem rawSize_append (done : List Scnhdr) (sec : Scnhdr) :
    rawSize (done ++ [sec]) = rawSize done + sec.copiedBytes := by
  unfold rawSize
  simp

theorem bssSize_append (done : List Scnhdr) (sec : Scnhdr) :
    bssSize (done ++ [sec]) = bssSize done + sec.zeroedBytes := by
  unfold bssSize
  simp

theorem bssSize_eq_zero (hnone : ∀ sec ∈ table, ¬sec.IsBss) :
    bssSize table = 0 := by
  apply List.sum_eq_zero
  intro bytes hin
  obtain ⟨sec, hsec, rfl⟩ := List.mem_map.mp hin
  exact if_neg (hnone sec hsec)

theorem LaidOut.inside (hlaid : LaidOut address table) (hin : sec ∈ table)
    (hpart : sec.IsPart part) :
    sec.sPaddr.toNat + sec.bytes ≤ address + rawSize table := by
  induction table generalizing address with
  | nil => cases hin
  | cons first rest ih =>
      obtain ⟨hfirst, hrest⟩ := hlaid
      have hsize : rawSize (first :: rest) =
          first.copiedBytes + rawSize rest := List.sum_cons
      rcases List.mem_cons.mp hin with rfl | hin
      · rw [hfirst part hpart, hsize, copiedBytes_part hpart]
        omega
      · have hle := ih hrest hin
        omega

/-- There are no gaps. -/
theorem LaidOut.exists_section (hlaid : LaidOut address table)
    (hnamed : ∀ sec ∈ table, sec.sSize ≠ 0 →
      sec.IsBss ∨ ∃ part, sec.IsPart part)
    {place : ℕ} (hlow : address ≤ place)
    (hhigh : place < address + rawSize table) :
    ∃ part, ∃ sec ∈ table, sec.IsPart part ∧ sec.sPaddr.toNat ≤ place ∧
      place < sec.sPaddr.toNat + sec.bytes := by
  induction table generalizing address with
  | nil => exact absurd hhigh (not_lt.mpr hlow)
  | cons first rest ih =>
      obtain ⟨hfirst, hrest⟩ := hlaid
      have hsize : rawSize (first :: rest) =
          first.copiedBytes + rawSize rest := List.sum_cons
      by_cases hhere : place < address + first.copiedBytes
      · have hbss : ¬first.IsBss := by
          intro hbss
          rw [Scnhdr.copiedBytes, if_pos hbss] at hhere
          omega
        rw [Scnhdr.copiedBytes, if_neg hbss] at hhere
        have hne : first.sSize ≠ 0 := by
          intro hempty
          rw [Scnhdr.bytes, hempty] at hhere
          exact absurd hhere (not_lt.mpr hlow)
        rcases hnamed first (by simp) hne with hbss' | ⟨part, hpart⟩
        · exact (hbss hbss').elim
        · have hplace := hfirst part hpart
          exact ⟨part, first, by simp, hpart, by omega, by omega⟩
      · obtain ⟨part, sec, hin, hsec⟩ := ih hrest
          (fun sec hin => hnamed sec (List.mem_cons_of_mem _ hin))
          (not_lt.mp hhere) (by omega)
        exact ⟨part, sec, List.mem_cons_of_mem _ hin, hsec⟩

end Layout

/-! ## The places in the executable -/

/-- What the loop of `coff2noff` keeps of a linked program. -/
structure Aligned (done : List Scnhdr) (noffH : NoffHeader) : Prop where
  place : ∀ part, ∀ sec ∈ done, sec.IsPart part →
    (part.field noffH).inFileAddr.toNat = noffHeaderSize + sec.sPaddr.toNat
  bss : ∀ sec ∈ done, sec.IsBss → noffH.uninitData.virtualAddr = sec.sPaddr
  total : noffH.code.size.toNat + noffH.initData.size.toNat +
    noffH.readonlyData.size.toNat = rawSize done
  bssTotal : noffH.uninitData.size.toNat = bssSize done

section Loop

variable {limit : HostLimit} {garbage noffH : NoffHeader}
variable {input output : List (BitVec 8)} {done rest : List Scnhdr}
variable {c c' : Conversion} {sec : Scnhdr} {part : Part}

theorem aligned_initial (garbage : NoffHeader) :
    Aligned [] (initialHeader garbage) where
  place := by simp
  bss := by simp
  total := rfl
  bssTotal := rfl

/-- A section without raw data. -/
theorem Aligned.skip (haligned : Aligned done c.noffH)
    (hother : ∀ part, ¬sec.IsPart part) (hbytes : sec.copiedBytes = 0)
    (hfield : ∀ part : Part, part.field noffH = part.field c.noffH)
    (hbss : ∀ other ∈ done ++ [sec], other.IsBss →
      noffH.uninitData.virtualAddr = other.sPaddr)
    (hbssTotal : noffH.uninitData.size.toNat = bssSize (done ++ [sec])) :
    Aligned (done ++ [sec]) noffH where
  place := by
    intro part other hin hpart
    rw [hfield]
    rcases List.mem_append.mp hin with hdone | hlast
    · exact haligned.place part other hdone hpart
    · rw [List.mem_singleton.mp hlast] at hpart
      exact (hother part hpart).elim
  bss := hbss
  total := by
    have htotal := haligned.total
    rw [rawSize_append, hbytes, Nat.add_zero, ← htotal]
    exact congrArg₂ (· + ·)
      (congrArg₂ (· + ·) (congrArg (·.size.toNat) (hfield .code))
        (congrArg (·.size.toNat) (hfield .initData)))
      (congrArg (·.size.toNat) (hfield .readonlyData))
  bssTotal := hbssTotal

/-- A part that has been absent is counted. -/
theorem total_setField (part : Part) (segment : Segment) (noffH : NoffHeader)
    (habsent : (part.field noffH).size = 0) :
    (part.setField segment noffH).code.size.toNat +
        (part.setField segment noffH).initData.size.toNat +
        (part.setField segment noffH).readonlyData.size.toNat =
      noffH.code.size.toNat + noffH.initData.size.toNat +
        noffH.readonlyData.size.toNat + segment.size.toNat := by
  have hzero : (part.field noffH).size.toNat = 0 := by
    rw [habsent]
    rfl
  cases part <;> simp only [Part.field] at hzero <;>
    simp only [Part.setField] <;> omega

theorem Aligned.copies (haligned : Aligned done c.noffH)
    (hcopied : Copied input done c) (hpart : sec.IsPart part)
    (hnew : ∀ other ∈ done, ¬other.IsPart part)
    (hplace : sec.sPaddr.toNat = rawSize done) (hcan : c.CanCopy limit sec) :
    Aligned (done ++ [sec]) (c.copied sec part).noffH where
  place := by
    intro other done' hin hother
    rw [field_copied]
    rcases List.mem_append.mp hin with hdone | hlast
    · have hne : other ≠ part := by
        rintro rfl
        exact hnew done' hdone hother
      rw [if_neg hne]
      exact haligned.place other done' hdone hother
    · obtain rfl := List.mem_singleton.mp hlast
      rw [if_pos (Part.sectionName_inj (hother.2.symm.trans hpart.2))]
      show c.inNoffFile.toNat = _
      rw [hcopied.next, hcopied.position, hplace]
      rfl
  bss := by
    intro other hin hisBss
    rcases List.mem_append.mp hin with hdone | hlast
    · exact (congrArg Segment.virtualAddr
        (part.uninitData_setField _ _)).trans
          (haligned.bss other hdone hisBss)
    · rw [List.mem_singleton.mp hlast] at hisBss
      exact (hpart.not_isBss hisBss).elim
  total := by
    have htotal := haligned.total
    have hsize := Scnhdr.toNat_sSize hcan.nonneg
    rw [rawSize_append, copiedBytes_part hpart, ← htotal, ← hsize]
    exact total_setField part _ c.noffH (hcopied.absent part hnew)
  bssTotal := by
    rw [bssSize_append, Scnhdr.zeroedBytes, if_neg hpart.not_isBss,
      Nat.add_zero, ← haligned.bssTotal]
    exact congrArg (·.size.toNat) (part.uninitData_setField _ _)

theorem Aligned.round (haligned : Aligned done c.noffH)
    (hcopied : Copied input done c)
    (hknown : KnownSections input (done ++ sec :: rest))
    (hplace : ∀ part, sec.IsPart part → sec.sPaddr.toNat = rawSize done)
    (hnonneg : sec.IsBss → 0 ≤ sec.sSize.toInt)
    (hok : c.convert limit sec = .ok c') :
    Aligned (done ++ [sec]) c'.noffH := by
  by_cases hempty : sec.sSize = 0
  · rw [convert_empty hempty] at hok
    cases hok
    have hbytes : sec.copiedBytes = 0 := by
      unfold Scnhdr.copiedBytes Scnhdr.bytes
      rw [hempty]
      split <;> rfl
    have hnot : ¬sec.IsBss := fun hbss => hbss.1 hempty
    refine haligned.skip (fun part hpart => hpart.1 hempty) hbytes
      (fun _ => rfl) ?_ ?_
    · intro other hin hbss
      rcases List.mem_append.mp hin with hdone | hlast
      · exact haligned.bss other hdone hbss
      · rw [List.mem_singleton.mp hlast] at hbss
        exact (hnot hbss).elim
    · rw [bssSize_append, Scnhdr.zeroedBytes, if_neg hnot, Nat.add_zero]
      exact haligned.bssTotal
  · rcases hknown.named sec (by simp) hempty with hbss | ⟨part, hpart⟩
    · have hfirst := hknown.not_isBss_done hbss
      have hsize := hcopied.noBss hfirst
      rw [convert_bss hbss, Conversion.mergeBss,
        if_neg (not_not.mpr hsize)] at hok
      cases hok
      refine haligned.skip (fun part hpart => hpart.not_isBss hbss)
        (if_pos hbss) (fun part => by cases part <;> rfl) ?_ ?_
      · intro other hin hisBss
        rcases List.mem_append.mp hin with hdone | hlast
        · exact (hfirst other hdone hisBss).elim
        · rw [List.mem_singleton.mp hlast]
      · rw [bssSize_append, bssSize_eq_zero hfirst, Scnhdr.zeroedBytes,
          if_pos hbss, Nat.zero_add]
        exact Scnhdr.toNat_sSize (hnonneg hbss)
    · rw [convert_part hpart] at hok
      obtain ⟨hcan, rfl⟩ := canCopy_of_copySection hempty hok
      exact haligned.copies hcopied hpart (hknown.not_isPart_done hpart)
        (hplace part hpart) hcan

theorem Aligned.loop (haligned : Aligned done c.noffH)
    (hcopied : Copied input done c)
    (hknown : KnownSections input (done ++ rest))
    (hlaid : LaidOut (rawSize done) rest)
    (hnonneg : ∀ sec ∈ rest, sec.IsBss → 0 ≤ sec.sSize.toInt)
    (hok : rest.foldlM (Conversion.convert limit) c = .ok c') :
    Copied input (done ++ rest) c' ∧ Aligned (done ++ rest) c'.noffH := by
  induction rest generalizing done c with
  | nil =>
      cases hok
      rw [List.append_nil]
      exact ⟨hcopied, haligned⟩
  | cons sec rest ih =>
      have hsplit : done ++ sec :: rest = (done ++ [sec]) ++ rest := by simp
      obtain ⟨hplace, hrest⟩ := hlaid
      rw [List.foldlM_cons] at hok
      obtain ⟨c₁, hround, hok⟩ := ok_of_bind hok
      have haligned₁ := haligned.round hcopied hknown hplace
        (hnonneg sec (by simp)) hround
      rcases hcopied.round limit hknown with
        ⟨c₂, hround₂, hcopied₁, -⟩ | ⟨hfails, -⟩
      · obtain rfl : c₁ = c₂ := Except.ok.inj (hround.symm.trans hround₂)
        rw [hsplit] at hknown ⊢
        rw [← rawSize_append] at hrest
        exact ih haligned₁ hcopied₁ hknown hrest
          (fun other hin => hnonneg other (List.mem_cons_of_mem _ hin)) hok
      · rw [hfails] at hround
        cases hround

/-! ## The executable -/

/-- The executable of a linked program. -/
structure Executes (input output : List (BitVec 8)) : Prop where
  preserved : Preserved input output
  aligned : Aligned (sectionTable input) (.ofBytes output)
  noBss : (∀ sec ∈ sectionTable input, ¬sec.IsBss) →
    (NoffHeader.ofBytes output).uninitData.size = 0
  length : output.length = noffHeaderSize + rawSize (sectionTable input)
  small : output.length < 2 ^ 31

theorem executes_of_main (hlinked : Linked input)
    (hmain : main limit garbage input = .ok output) :
    Executes input output := by
  have hknown : KnownSections input ([] ++ sectionTable input) :=
    hlinked.convertible.sections
  have hinitial := copied_initial garbage input (headersEnd input) 0
  rw [main_of_rightHeaders hlinked.convertible.headers] at hmain
  rcases hinitial.loop limit hknown with ⟨c, hloop, -, hsize⟩ | ⟨hfails, -⟩
  · obtain ⟨hcopied, haligned⟩ := (aligned_initial garbage).loop hinitial
      hknown hlinked.laidOut (fun sec hin hbss => (hlinked.bss sec hin hbss).2)
      hloop
    rw [convertSections_of_loop hloop] at hmain
    split_ifs at hmain with hroom
    obtain rfl := Except.ok.inj hmain
    have hheader := ofBytes_headerBytes c.noffH
      (c.files.output.drop noffHeaderSize)
    have hlength : (headerBytes c.noffH ++
        c.files.output.drop noffHeaderSize).length =
        noffHeaderSize + rawSize (sectionTable input) := by
      have hposition : c.files.outPosition =
        noffHeaderSize + rawSize (sectionTable input) := hcopied.position
      rw [List.length_append, length_headerBytes, List.length_drop]
      rcases hcopied.length with hlength | ⟨hempty, hlength⟩
      · omega
      · rw [hempty, List.length_nil]
        omega
    have hlimit := limit.lt
    have hbound : noffHeaderSize + rawSize (sectionTable input) ≤
        max limit.maxSize noffHeaderSize := hsize
    constructor
    case preserved => exact hcopied.preserved
    case aligned =>
      rw [hheader]
      exact haligned
    case noBss =>
      rw [hheader]
      exact hcopied.noBss
    case length => exact hlength
    case small => omega
  · rw [convertSections_of_error hfails] at hmain
    cases hmain

end Loop

/-! ## The image -/

/-- The byte of the executable that belongs to the address. -/
def linkedByte (output : List (BitVec 8)) (address : ℕ) : BitVec 8 :=
  (output[noffHeaderSize + address]?).getD 0

section Image

variable {input output : List (BitVec 8)} {image : ℕ → BitVec 8}
variable {part : Part} {sec : Scnhdr} {address count : ℕ}

theorem Executes.byte (hexec : Executes input output)
    (hraw : address < rawSize (sectionTable input)) :
    output[noffHeaderSize + address]? = some (linkedByte output address) := by
  have hlt : noffHeaderSize + address < output.length := by
    rw [hexec.length]
    omega
  rw [linkedByte, List.getElem?_eq_getElem hlt, Option.getD_some]

/-- The bytes that a loop of `Load` finds in a section, and behind it. -/
theorem Executes.segmentBytes_eq (hexec : Executes input output)
    (hin : sec ∈ sectionTable input) (hpart : sec.IsPart part) (count : ℕ) :
    AddrSpace.segmentBytes output (part.field (.ofBytes output)) count =
      (output.drop (noffHeaderSize +
        (part.field (.ofBytes output)).virtualAddr.toNat)).take count := by
  rw [AddrSpace.segmentBytes, hexec.aligned.place part sec hin hpart,
    (hexec.preserved.held part sec hin hpart).virtualAddr]

/-- A loop of `Load` over a segment, however far it goes, leaves the bytes of
the executable where they are. -/
theorem Executes.overlay_segment (hexec : Executes input output) (part : Part)
    (hcount : (part.field (.ofBytes output)).size = 0 → count = 0)
    (himage : image address = linkedByte output address) :
    overlay (part.field (.ofBytes output)).virtualAddr.toNat
        (AddrSpace.segmentBytes output (part.field (.ofBytes output)) count)
        image address = linkedByte output address := by
  by_cases hpresent : ∃ sec ∈ sectionTable input, sec.IsPart part
  · obtain ⟨sec, hin, hpart⟩ := hpresent
    rw [hexec.segmentBytes_eq hin hpart]
    exact overlay_window himage
  · push Not at hpresent
    rw [hcount (hexec.preserved.absent part hpresent),
      AddrSpace.segmentBytes, List.take_zero, overlay_nil]
    exact himage

theorem Executes.overlay_section (hexec : Executes input output)
    (hin : sec ∈ sectionTable input) (hpart : sec.IsPart part)
    (hraw : address < rawSize (sectionTable input))
    (hlow : sec.sPaddr.toNat ≤ address)
    (hhigh : address < sec.sPaddr.toNat + count) :
    overlay (part.field (.ofBytes output)).virtualAddr.toNat
        (AddrSpace.segmentBytes output (part.field (.ofBytes output)) count)
        image address = linkedByte output address := by
  have hvirtual := (hexec.preserved.held part sec hin hpart).virtualAddr
  rw [hexec.segmentBytes_eq hin hpart, hvirtual]
  exact overlay_window_inside hlow hhigh (hexec.byte hraw)

/-- The uninitialised data lies behind the raw data. -/
theorem Executes.overlay_bss (hlinked : Linked input)
    (hexec : Executes input output) (count : ℕ)
    (hcount : (NoffHeader.ofBytes output).uninitData.size = 0 → count = 0)
    (hraw : address < rawSize (sectionTable input)) :
    overlay (NoffHeader.ofBytes output).uninitData.virtualAddr.toNat
        (List.replicate count 0) image address = image address := by
  by_cases hpresent : ∃ sec ∈ sectionTable input, sec.IsBss
  · obtain ⟨sec, hin, hbss⟩ := hpresent
    have hbehind := (hlinked.bss sec hin hbss).1
    apply overlay_outside
    rw [hexec.aligned.bss sec hin hbss, Covered]
    omega
  · push Not at hpresent
    rw [hcount (hexec.noBss hpresent), List.replicate_zero, overlay_nil]

theorem overlay_zeros {start : ℕ} (himage : image address = 0) :
    overlay start (List.replicate count (0 : BitVec 8)) image address = 0 := by
  unfold overlay
  split
  next =>
    rw [himage]
    cases hget : (List.replicate count (0 : BitVec 8))[address - start]? with
    | none => rfl
    | some byte =>
        rw [List.getElem?_replicate] at hget
        split_ifs at hget
        cases hget
        rfl
  next => exact himage

/-- The loop over the read-only data goes to the end of the segment at least. -/
theorem Executes.bytes_le_readonlyRounds (hlinked : Linked input)
    (hexec : Executes input output) (hin : sec ∈ sectionTable input)
    (hpart : sec.IsPart .readonlyData) :
    (NoffHeader.ofBytes output).readonlyRounds = sec.sPaddr.toNat ∧
      sec.bytes ≤ sec.sPaddr.toNat := by
  have hholds := hexec.preserved.held .readonlyData sec hin hpart
  have hvirtual : (NoffHeader.ofBytes output).readonlyData.virtualAddr =
    sec.sPaddr := hholds.virtualAddr
  have hsize : (NoffHeader.ofBytes output).readonlyData.size = sec.sSize :=
    hholds.size
  have hinside := hlinked.laidOut.inside hin hpart
  have hlength := hexec.length
  have hsmall := hexec.small
  have hpositive := Scnhdr.bytes_pos hpart.1
    (hlinked.convertible.sections.inside sec hin _ hpart).2.1
  have hsizePos : 0 < sec.sSize.toInt := by
    unfold Scnhdr.bytes at hpositive
    omega
  refine ⟨?_, hlinked.readonlyData sec hin hpart⟩
  rw [NoffHeader.readonlyRounds, hsize, if_pos hsizePos, hvirtual,
    AddrSpace.rounds, BitVec.toInt_eq_toNat_cond, if_pos (by omega),
    Int.toNat_natCast]

theorem readonlyRounds_eq_zero {noffH : NoffHeader}
    (hempty : noffH.readonlyData.size = 0) : noffH.readonlyRounds = 0 := by
  rw [NoffHeader.readonlyRounds, hempty]
  rfl

theorem rounds_eq_zero {size : BitVec 32} (hempty : size = 0) :
    AddrSpace.rounds size = 0 := by
  rw [hempty]
  rfl

/-- The loops of `Load` lay out the executable as the linker has laid out the
program. -/
theorem Executes.programImage_eq (hlinked : Linked input)
    (hexec : Executes input output) (address : ℕ) :
    AddrSpace.programImage output (.ofBytes output) address =
      linkedByte output address := by
  have hreadonly : ∀ {image : ℕ → BitVec 8},
      image address = linkedByte output address →
      overlay _ (AddrSpace.segmentBytes output _ _) image address =
        linkedByte output address := fun himage =>
    hexec.overlay_segment .readonlyData readonlyRounds_eq_zero himage
  have hinit : ∀ {image : ℕ → BitVec 8},
      image address = linkedByte output address →
      overlay _ (AddrSpace.segmentBytes output _ _) image address =
        linkedByte output address := fun himage =>
    hexec.overlay_segment .initData rounds_eq_zero himage
  by_cases hraw : address < rawSize (sectionTable input)
  · obtain ⟨part, sec, hin, hpart, hlow, hhigh⟩ :=
      hlinked.laidOut.exists_section
        hlinked.convertible.sections.named (Nat.zero_le address) (by omega)
    have hrounds : AddrSpace.rounds (part.field (.ofBytes output)).size =
        sec.bytes := by
      rw [(hexec.preserved.held part sec hin hpart).size]
      rfl
    cases part with
    | code =>
        apply hreadonly
        apply hinit
        rw [hexec.overlay_bss hlinked _ rounds_eq_zero hraw]
        apply hexec.overlay_section hin hpart hraw hlow
        exact hrounds ▸ hhigh
    | initData =>
        apply hreadonly
        apply hexec.overlay_section hin hpart hraw hlow
        exact hrounds ▸ hhigh
    | readonlyData =>
        obtain ⟨hall, hle⟩ := hexec.bytes_le_readonlyRounds hlinked hin hpart
        apply hexec.overlay_section hin hpart hraw hlow
        omega
  · have hzero : linkedByte output address = 0 := by
      rw [linkedByte, List.getElem?_eq_none, Option.getD_none]
      rw [hexec.length]
      omega
    have hcode : overlay _ (AddrSpace.segmentBytes output _ _) (fun _ => 0)
        address = linkedByte output address :=
      hexec.overlay_segment .code rounds_eq_zero hzero.symm
    apply hreadonly
    apply hinit
    rw [hzero]
    exact overlay_zeros (hcode.trans hzero)

/-- A raw byte of a section is where the section has its address. -/
theorem Executes.rawBytes_eq (hlinked : Linked input)
    (hexec : Executes input output) (hin : sec ∈ sectionTable input)
    (hpart : sec.IsPart part) {i : ℕ} (hlt : i < sec.bytes) :
    (rawBytes input sec)[i]? =
      some (linkedByte output (sec.sPaddr.toNat + i)) := by
  have hholds := hexec.preserved.held part sec hin hpart
  have hinside := hlinked.laidOut.inside hin hpart
  have hsize : (part.field (.ofBytes output)).size.toNat = sec.bytes := by
    rw [hholds.size]
    exact Scnhdr.toNat_sSize
      (hlinked.convertible.sections.inside sec hin part hpart).2.1
  rw [← hholds.raw, AddrSpace.segmentBytes_getElem? _ _ (hsize ▸ hlt),
    hexec.aligned.place part sec hin hpart, add_assoc]
  exact hexec.byte (by omega)

end Image

/-! ## The memory -/

/-- The program finds the sections where the linker has placed them, and zeros
behind them, up to the arguments. -/
structure LoadedAsLinked (input : List (BitVec 8)) (space : AddrSpace)
    (entries : List TranslationEntry) (m : Machine) : Prop where
  table : space.pageTable = .table entries
  raw : ∀ part, ∀ sec ∈ sectionTable input, sec.IsPart part →
    ∀ i < sec.bytes, sec.sPaddr.toNat + i < space.argv.toNat →
      (AddrSpace.install entries m).userByte
        (sec.sPaddr + BitVec.ofNat 32 i) = (rawBytes input sec)[i]?
  zero : ∀ vaddr : BitVec 32, rawSize (sectionTable input) ≤ vaddr.toNat →
    vaddr.toNat < space.argv.toNat →
      (AddrSpace.install entries m).userByte vaddr = some 0

/-- There is room for a program and its arguments.  The loop over the read-only
data needs as much behind its address as is in front of it. -/
structure Fits (table : List Scnhdr) (argv : List CString) (free : ℕ) :
    Prop where
  frames : linkedPages table ≤ free
  bss : ∀ sec ∈ table, sec.IsBss →
    sec.sPaddr.toNat + bssSize table ≤ linkedPages table * pageSize
  readonlyData : ∀ sec ∈ table, sec.IsPart .readonlyData →
    sec.sPaddr.toNat + sec.sPaddr.toNat ≤ linkedPages table * pageSize
  arguments : AddrSpace.ArgumentsFit (linkedPages table) argv

section Memory

variable {limit : HostLimit} {noffGarbage : NoffHeader}
variable {input output : List (BitVec 8)} {space space' : AddrSpace}
variable {k k' : Kernel} {fileName : CString} {argv : List CString}
variable {inode : ℕ} {f : OpenFile} {h : Host}
variable {m m' : Machine} {entries : List TranslationEntry}

theorem readHeader_of_length {file : List (BitVec 8)}
    (hfile : AddrSpace.ReadsFile h f file)
    (hlength : noffHeaderSize ≤ file.length) (garbage : LoadGarbage) :
    ∃ h', AddrSpace.readHeaderIn true f h garbage =
      .ok (NoffHeader.ofBytes file, h') := by
  obtain ⟨h', hread, -⟩ := AddrSpace.readAt_file hfile (le_refl 0)
    noffHeaderSize noffHeaderSize
  have htake : (file.take 52).length = 52 := by
    rw [List.length_take]
    exact Nat.min_eq_left hlength
  have hbytes : NoffHeader.ofBytes
      (file.take 52 ++ garbage.header.drop (file.take 52).length) =
      NoffHeader.ofBytes file := by
    rw [← AddrSpace.ofBytes_take, List.take_left' htake,
      AddrSpace.ofBytes_take]
  have hdrop : (file.drop (Int.toNat 0)).take
      (min noffHeaderSize noffHeaderSize) = file.take 52 := rfl
  rw [hdrop] at hread
  refine ⟨h', ?_⟩
  simp only [AddrSpace.readHeaderIn, if_true, AddrSpace.readHeader, hread,
    ok_bind, Option.getD_some, hbytes]
  exact if_neg fun hswap => hswap.1 hswap.2

theorem Executes.loadedAsLinked (hlinked : Linked input)
    (hexec : Executes input output)
    (hloaded : AddrSpace.ProgramLoaded ⟨output, .ofBytes output, argv⟩ space m
      entries space' m') :
    LoadedAsLinked input space' entries m' := by
  obtain ⟨hfields, hmapped, -, hfits, hshows, -⟩ := hloaded
  have hpages : space'.numPages = (NoffHeader.ofBytes output).numPages := by
    rw [hfields]
    rfl
  have hargs : AddrSpace.ArgumentsFit space'.numPages argv := hpages ▸ hfits
  have harray : space'.argv = space'.arrayAt argv := by
    rw [hfields, AddrSpace.arrayAt_withArguments]
    rfl
  have hend := AddrSpace.toNat_arrayAt_words hmapped.small hargs
  have hbyte : ∀ vaddr : BitVec 32, vaddr.toNat < space'.argv.toNat →
      (AddrSpace.install entries m').userByte vaddr =
        some (linkedByte output vaddr.toNat) := by
    intro vaddr hbelow
    rw [harray] at hbelow
    rw [hshows vaddr (by omega),
      AddrSpace.argumentImage_outside hmapped.small hargs (.inl hbelow),
      hexec.programImage_eq hlinked]
  constructor
  case table => exact hmapped.table
  case raw =>
    intro part sec hin hpart i hlt hbelow
    have hpagesSmall := hmapped.small
    have hroom : space'.numPages * pageSize ≤ 16384 :=
      Nat.mul_le_mul_right pageSize hpagesSmall
    have haddress : (sec.sPaddr + BitVec.ofNat 32 i).toNat =
        sec.sPaddr.toNat + i := by
      rw [harray] at hbelow
      rw [BitVec.toNat_add, BitVec.toNat_ofNat]
      omega
    rw [hbyte _ (by rwa [haddress]), haddress,
      hexec.rawBytes_eq hlinked hin hpart hlt]
  case zero =>
    intro vaddr hbehind hbelow
    rw [hbyte vaddr hbelow, linkedByte, List.getElem?_eq_none,
      Option.getD_none]
    rw [hexec.length]
    omega

/-! ### Room for a program -/

theorem rawSize_le_linkedPages (table : List Scnhdr) :
    rawSize table + bssSize table + 1024 ≤ linkedPages table * pageSize :=
  le_divRoundUp_mul (by decide)

theorem Executes.numPages_eq (hexec : Executes input output)
    (hsmall : linkedPages (sectionTable input) ≤ numPhysPages) :
    (NoffHeader.ofBytes output).numPages =
      linkedPages (sectionTable input) := by
  have hle := rawSize_le_linkedPages (sectionTable input)
  have hroom : linkedPages (sectionTable input) * pageSize ≤ 16384 :=
    Nat.mul_le_mul_right pageSize hsmall
  have htotal := hexec.aligned.total
  have hbss := hexec.aligned.bssTotal
  have hstack : userStackSize.toNat = 1024 := rfl
  have hsize : (NoffHeader.ofBytes output).size.toNat =
      rawSize (sectionTable input) + bssSize (sectionTable input) + 1024 := by
    rw [NoffHeader.size, BitVec.toNat_add, BitVec.toNat_add,
      BitVec.toNat_add, BitVec.toNat_add]
    omega
  rw [NoffHeader.numPages, hsize, linkedPages]

theorem Executes.rounds_eq (hlinked : Linked input)
    (hexec : Executes input output) (part : Part) :
    AddrSpace.rounds (part.field (.ofBytes output)).size = 0 ∨
      (part.field (.ofBytes output)).virtualAddr.toNat +
        AddrSpace.rounds (part.field (.ofBytes output)).size ≤
          rawSize (sectionTable input) ∧
      (part.field (.ofBytes output)).inFileAddr.toNat = noffHeaderSize +
        (part.field (.ofBytes output)).virtualAddr.toNat := by
  by_cases hpresent : ∃ sec ∈ sectionTable input, sec.IsPart part
  · obtain ⟨sec, hin, hpart⟩ := hpresent
    have hholds := hexec.preserved.held part sec hin hpart
    have hinside := hlinked.laidOut.inside hin hpart
    rw [Nat.zero_add] at hinside
    rw [hholds.virtualAddr, hholds.size]
    exact .inr ⟨hinside, hexec.aligned.place part sec hin hpart⟩
  · push Not at hpresent
    exact .inl (rounds_eq_zero (hexec.preserved.absent part hpresent))

theorem Executes.readonly_rounds (hlinked : Linked input)
    (hexec : Executes input output) {free : ℕ}
    (hfits : Fits (sectionTable input) argv free) :
    (NoffHeader.ofBytes output).readonlyRounds = 0 ∨
      (NoffHeader.ofBytes output).readonlyData.virtualAddr.toNat +
        (NoffHeader.ofBytes output).readonlyRounds ≤
          linkedPages (sectionTable input) * pageSize ∧
      (NoffHeader.ofBytes output).readonlyData.inFileAddr.toNat =
        noffHeaderSize +
          (NoffHeader.ofBytes output).readonlyData.virtualAddr.toNat := by
  by_cases hpresent : ∃ sec ∈ sectionTable input, sec.IsPart .readonlyData
  · obtain ⟨sec, hin, hpart⟩ := hpresent
    have hvirtual : (NoffHeader.ofBytes output).readonlyData.virtualAddr =
      sec.sPaddr :=
        (hexec.preserved.held .readonlyData sec hin hpart).virtualAddr
    rw [(hexec.bytes_le_readonlyRounds hlinked hin hpart).1, hvirtual]
    exact .inr ⟨hfits.readonlyData sec hin hpart,
      hexec.aligned.place .readonlyData sec hin hpart⟩
  · push Not at hpresent
    exact .inl (readonlyRounds_eq_zero
      (hexec.preserved.absent .readonlyData hpresent))

theorem Executes.segmentsInside (hlinked : Linked input)
    (hexec : Executes input output) {free : ℕ}
    (hfits : Fits (sectionTable input) argv free) :
    (NoffHeader.ofBytes output).SegmentsInside
      (linkedPages (sectionTable input)) := by
  have hle := rawSize_le_linkedPages (sectionTable input)
  have hpart : ∀ part : Part, (part.field (.ofBytes output)).CopiesInside
      (AddrSpace.rounds (part.field (.ofBytes output)).size)
      (linkedPages (sectionTable input)) := by
    intro part
    unfold Segment.CopiesInside Segment.Inside
    rcases hexec.rounds_eq hlinked part with hzero | ⟨hinside, -⟩ <;> omega
  have hbss : (NoffHeader.ofBytes output).uninitData.Inside
      (AddrSpace.rounds (NoffHeader.ofBytes output).uninitData.size)
      (linkedPages (sectionTable input)) := by
    by_cases hpresent : ∃ sec ∈ sectionTable input, sec.IsBss
    · obtain ⟨sec, hin, hisBss⟩ := hpresent
      have hend := hfits.bss sec hin hisBss
      have htotal := hexec.aligned.bssTotal
      have hrounds : AddrSpace.rounds
          (NoffHeader.ofBytes output).uninitData.size ≤
            (NoffHeader.ofBytes output).uninitData.size.toNat := by
        rw [AddrSpace.rounds, BitVec.toInt_eq_toNat_cond]
        split <;> omega
      rw [Segment.Inside, hexec.aligned.bss sec hin hisBss]
      omega
    · push Not at hpresent
      exact .inl (rounds_eq_zero (hexec.noBss hpresent))
  refine ⟨hpart .code, fun _ => ⟨hbss, hpart .initData, fun _ => ?_⟩⟩
  unfold Segment.CopiesInside Segment.Inside
  rcases hexec.readonly_rounds hlinked hfits with hzero | ⟨hinside, -⟩ <;>
    omega

theorem Executes.segmentsRead (hlinked : Linked input)
    (hexec : Executes input output) {free : ℕ} (hfree : free ≤ numPhysPages)
    (hfits : Fits (sectionTable input) argv free) :
    (NoffHeader.ofBytes output).SegmentsRead := by
  have hlength := hexec.length
  have hsmall := hexec.small
  have hroom : linkedPages (sectionTable input) * pageSize ≤ 16384 :=
    Nat.mul_le_mul_right pageSize (hfits.frames.trans hfree)
  have hheader : noffHeaderSize = 52 := rfl
  have hpart : ∀ part : Part,
      AddrSpace.rounds (part.field (.ofBytes output)).size ≤
        (part.field (.ofBytes output)).readable := by
    intro part
    unfold Segment.readable
    rcases hexec.rounds_eq hlinked part with hzero | ⟨hinside, hplace⟩ <;>
      omega
  refine ⟨hpart .code, hpart .initData, ?_⟩
  unfold Segment.readable
  rcases hexec.readonly_rounds hlinked hfits with hzero | ⟨hinside, hplace⟩ <;>
    omega

end Memory

/-! ## A small program -/

/-- Code, read-only data, initialised and uninitialised data as the linker
script has them. -/
def linkedProgram : List (BitVec 8) :=
  coffFile
    [sectionBytes [46, 116, 101, 120, 116, 0, 0, 0] 0 8 236,
      sectionBytes [46, 114, 100, 97, 116, 97, 0, 0] 8 4 244,
      sectionBytes [46, 100, 97, 116, 97, 0, 0, 0] 12 4 248,
      sectionBytes [46, 98, 115, 115, 0, 0, 0, 0] 16 16 0]
    [1, 2, 3, 4, 5, 6, 7, 8, 9, 10, 11, 12, 13, 14, 15, 16]

/-- The executable that is made of it. -/
def linkedWords : List (BitVec 32) :=
  [noffMagicNumber, 0, 52, 8, 12, 64, 4, 8, 60, 4, 16, 0, 16, 0x04030201,
    0x08070605, 0x0c0b0a09, 0x100f0e0d]

theorem linked_linkedProgram : Linked linkedProgram where
  convertible :=
    { headers :=
        { complete := by decide +kernel
          magic := by decide +kernel
          systemMagic := by decide +kernel }
      sections :=
        { named := by decide +kernel
          once := by decide +kernel
          inside := by decide +kernel } }
  laidOut := by decide +kernel
  readonlyData := by decide +kernel
  bss := by decide +kernel

end Coff

end Nachos
