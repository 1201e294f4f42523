import Nachos.Coff

/-!
# Sections that are carried over

The cross linker gives a program at most one section of each name.  From such a
file `coff2noff` makes an executable in which the loader finds the raw bytes of
each section, in whatever order the sections and their raw bytes come.  The
position in the output only ever advances by what has been written, and each
segment lies below it.
-/

namespace Nachos

namespace Coff

/-! ## What is to be shown of the output -/

def rawBytes (input : List (BitVec 8)) (sec : Scnhdr) : List (BitVec 8) :=
  (input.drop sec.sScnptr.toNat).take sec.bytes

/-- The non-empty sections have known names, each at most once, and their raw
bytes are in the input. -/
structure KnownSections (input : List (BitVec 8)) (table : List Scnhdr) :
    Prop where
  named : ∀ sec ∈ table, sec.sSize ≠ 0 →
    sec.IsBss ∨ ∃ part, sec.IsPart part
  once : table.Pairwise fun sec other =>
    sec.sSize ≠ 0 → other.sSize ≠ 0 → sec.name ≠ other.name
  inside : ∀ sec ∈ table, ∀ part, sec.IsPart part →
    0 ≤ sec.sScnptr.toInt ∧ 0 ≤ sec.sSize.toInt ∧
      sec.sScnptr.toInt + sec.sSize.toInt ≤ input.length

structure Convertible (input : List (BitVec 8)) : Prop where
  headers : RightHeaders input
  sections : KnownSections input (sectionTable input)

/-- The loader finds the raw bytes of a section behind the header. -/
structure Holds (input output : List (BitVec 8)) (segment : Segment)
    (sec : Scnhdr) : Prop where
  virtualAddr : segment.virtualAddr = sec.sPaddr
  size : segment.size = sec.sSize
  behind : noffHeaderSize ≤ segment.inFileAddr.toNat
  inside : segment.inFileAddr.toNat + segment.size.toNat ≤ output.length
  raw : AddrSpace.segmentBytes output segment segment.size.toNat =
    rawBytes input sec

/-- The place is in the file range of the segment. -/
def InRange (segment : Segment) (place : ℕ) : Prop :=
  segment.inFileAddr.toNat ≤ place ∧
    place < segment.inFileAddr.toNat + segment.size.toNat

structure Preserved (input output : List (BitVec 8)) : Prop where
  length : noffHeaderSize ≤ output.length
  magic : (NoffHeader.ofBytes output).noffMagic = noffMagicNumber
  held : ∀ part, ∀ sec ∈ sectionTable input, sec.IsPart part →
    Holds input output (part.field (.ofBytes output)) sec
  absent : ∀ part, (∀ sec ∈ sectionTable input, ¬sec.IsPart part) →
    (part.field (.ofBytes output)).size = 0
  disjoint : ∀ part part' : Part, part ≠ part' → ∀ place,
    InRange (part.field (.ofBytes output)) place →
      ¬InRange (part'.field (.ofBytes output)) place

/-- What a section takes in the output. -/
def Scnhdr.copiedBytes (sec : Scnhdr) : ℕ :=
  if sec.IsBss then 0 else sec.bytes

def outputSize (table : List Scnhdr) : ℕ :=
  noffHeaderSize + (table.map Scnhdr.copiedBytes).sum

/-! ## The invariant of the loop -/

structure Copied (input : List (BitVec 8)) (done : List Scnhdr)
    (c : Conversion) : Prop where
  source : c.files.input = input
  position : c.files.outPosition = outputSize done
  next : c.inNoffFile.toNat = c.files.outPosition
  length : c.files.output.length = c.files.outPosition ∨
    c.files.output = [] ∧ c.files.outPosition = noffHeaderSize
  magic : c.noffH.noffMagic = noffMagicNumber
  held : ∀ part, ∀ sec ∈ done, sec.IsPart part →
    Holds input c.files.output (part.field c.noffH) sec
  absent : ∀ part, (∀ sec ∈ done, ¬sec.IsPart part) →
    (part.field c.noffH).size = 0
  noBss : (∀ sec ∈ done, ¬sec.IsBss) → c.noffH.uninitData.size = 0
  disjoint : ∀ part part' : Part, part ≠ part' → ∀ place,
    InRange (part.field c.noffH) place → ¬InRange (part'.field c.noffH) place

section Loop

variable {limit : HostLimit} {garbage : NoffHeader}
variable {input output more : List (BitVec 8)} {done rest : List Scnhdr}
variable {c c' : Conversion} {sec : Scnhdr} {part : Part} {segment : Segment}

theorem segmentBytes_append
    {count : ℕ} (hinside : segment.inFileAddr.toNat + count ≤ output.length) :
    AddrSpace.segmentBytes (output ++ more) segment count =
      AddrSpace.segmentBytes output segment count := by
  unfold AddrSpace.segmentBytes
  rw [List.drop_append_of_le_length (by omega),
    List.take_append_of_le_length]
  rw [List.length_drop]
  omega

theorem Holds.append (hholds : Holds input output segment sec) :
    Holds input (output ++ more) segment sec where
  virtualAddr := hholds.virtualAddr
  size := hholds.size
  behind := hholds.behind
  inside := by
    rw [List.length_append]
    exact hholds.inside.trans (Nat.le_add_right _ _)
  raw := (segmentBytes_append hholds.inside).trans hholds.raw

/-- The header takes the place of the gap. -/
theorem Holds.withHeader
    (hholds : Holds input output segment sec) (noffH : NoffHeader) :
    Holds input (headerBytes noffH ++ output.drop noffHeaderSize) segment
      sec where
  virtualAddr := hholds.virtualAddr
  size := hholds.size
  behind := hholds.behind
  inside := by
    have hbehind := hholds.behind
    have hinside := hholds.inside
    rw [List.length_append, length_headerBytes, List.length_drop]
    omega
  raw := by
    rw [← hholds.raw]
    unfold AddrSpace.segmentBytes
    have hbehind := hholds.behind
    rw [List.drop_append, List.drop_eq_nil_of_le
        (by rw [length_headerBytes]; exact hbehind), List.nil_append,
      length_headerBytes, List.drop_drop, Nat.add_sub_cancel' hbehind]

/-- What has been copied so far lies below the position. -/
theorem Copied.below (hcopied : Copied input done c) (part : Part) :
    (part.field c.noffH).size.toNat = 0 ∨
      (part.field c.noffH).inFileAddr.toNat +
        (part.field c.noffH).size.toNat ≤ c.files.outPosition := by
  by_cases hpresent : ∃ sec ∈ done, sec.IsPart part
  · obtain ⟨sec, hsec, hpart⟩ := hpresent
    have hholds := hcopied.held part sec hsec hpart
    have hbehind := hholds.behind
    have hinside := hholds.inside
    rcases hcopied.length with hlength | ⟨hempty, -⟩
    · exact .inr (hlength ▸ hinside)
    · rw [hempty, List.length_nil] at hinside
      unfold noffHeaderSize at hbehind
      omega
  · push Not at hpresent
    exact .inl (by rw [hcopied.absent part hpresent]; rfl)

/-! ### What one section does -/

theorem copiedBytes_part (hpart : sec.IsPart part) :
    sec.copiedBytes = sec.bytes :=
  if_neg hpart.not_isBss

theorem outputSize_append (done : List Scnhdr) (sec : Scnhdr) :
    outputSize (done ++ [sec]) = outputSize done + sec.copiedBytes := by
  unfold outputSize
  simp [Nat.add_assoc]

/-- A section that changes none of the parts. -/
theorem Copied.skip (hcopied : Copied input done c)
    (hother : ∀ part, ¬sec.IsPart part) (hbytes : sec.copiedBytes = 0)
    (noffH : NoffHeader) (hmagic : noffH.noffMagic = c.noffH.noffMagic)
    (hfield : ∀ part : Part, part.field noffH = part.field c.noffH)
    (hbss : ¬sec.IsBss → noffH.uninitData = c.noffH.uninitData) :
    Copied input (done ++ [sec]) { c with noffH := noffH } where
  source := hcopied.source
  position := by
    rw [outputSize_append, hbytes, Nat.add_zero]
    exact hcopied.position
  next := hcopied.next
  length := hcopied.length
  magic := hmagic.trans hcopied.magic
  held := by
    intro part other hin hpart
    rw [hfield]
    rcases List.mem_append.mp hin with hdone | hlast
    · exact hcopied.held part other hdone hpart
    · rw [List.mem_singleton.mp hlast] at hpart
      exact (hother part hpart).elim
  absent := by
    intro part habsent
    rw [hfield]
    exact hcopied.absent part fun other hin =>
      habsent other (List.mem_append_left _ hin)
  noBss := by
    intro hnone
    rw [hbss (hnone sec (by simp))]
    exact hcopied.noBss fun other hin =>
      hnone other (List.mem_append_left _ hin)
  disjoint := by
    intro part part' hne
    simp only [hfield]
    exact hcopied.disjoint part part' hne

/-- The output up to the position; it may be all gap. -/
def Conversion.written (c : Conversion) : List (BitVec 8) :=
  c.files.output.takeD c.files.outPosition 0

theorem length_written (c : Conversion) :
    c.written.length = c.files.outPosition :=
  List.takeD_length _ _ _

theorem Copied.length_le (hcopied : Copied input done c) :
    c.files.output.length ≤ c.files.outPosition := by
  rcases hcopied.length with hlength | ⟨hempty, -⟩
  · exact hlength.le
  · rw [hempty]
    exact Nat.zero_le _

theorem Copied.holds_written
    (hcopied : Copied input done c)
    (hholds : Holds input c.files.output segment sec) :
    Holds input c.written segment sec := by
  rcases hcopied.length with hlength | ⟨hempty, -⟩
  · have heq : c.written = c.files.output := by
      rw [Conversion.written, ← hlength, List.takeD_eq_take _ le_rfl,
        List.take_length]
    rwa [heq]
  · have hbehind := hholds.behind
    have hinside := hholds.inside
    rw [hempty, List.length_nil] at hinside
    unfold noffHeaderSize at hbehind
    omega

theorem start_eq (hscnptr : 0 ≤ sec.sScnptr.toInt) :
    c.start sec = sec.sScnptr.toNat := by
  have heq := Machine.toInt_eq_toNat hscnptr
  rw [Conversion.start, Files.sought, if_pos hscnptr]
  omega

theorem Conversion.CanCopy.length_rawBytes
    (hcan : c.CanCopy limit sec) (hsource : c.files.input = input)
    (hscnptr : 0 ≤ sec.sScnptr.toInt) :
    (rawBytes input sec).length = sec.bytes := by
  have hinside := hcan.inside
  rw [start_eq hscnptr, hsource] at hinside
  rw [rawBytes, List.length_take, List.length_drop]
  omega

theorem Copied.output_copied
    (hcopied : Copied input done c) (hne : sec.sSize ≠ 0)
    (hscnptr : 0 ≤ sec.sScnptr.toInt) (hcan : c.CanCopy limit sec) :
    (c.copied sec part).files.output = c.written ++ rawBytes input sec := by
  have hlength := hcan.length_rawBytes hcopied.source hscnptr
  have hpos := Scnhdr.bytes_pos hne hcan.nonneg
  have hraw : rawBytes input sec ≠ [] := by
    intro hnil
    rw [hnil, List.length_nil] at hlength
    omega
  have htail : c.files.output.drop
      (c.files.outPosition + (rawBytes input sec).length) = [] := by
    apply List.drop_eq_nil_of_le
    exact hcopied.length_le.trans (Nat.le_add_right _ _)
  have hcopy : (c.files.input.drop (c.start sec)).take sec.bytes =
      rawBytes input sec := by
    rw [start_eq hscnptr, hcopied.source, rawBytes]
  calc (c.copied sec part).files.output
      = overwrite c.files.output c.files.outPosition (rawBytes input sec) :=
        congrArg (overwrite c.files.output c.files.outPosition) hcopy
    _ = c.written ++ rawBytes input sec := by
        rw [overwrite, if_neg hraw, htail, List.append_nil]
        rfl

theorem segmentBytes_last
    (hplace : segment.inFileAddr.toNat = output.length) :
    AddrSpace.segmentBytes (output ++ more) segment more.length = more := by
  rw [AddrSpace.segmentBytes, hplace, List.drop_left', List.take_length]
  rfl

theorem Copied.behind (hcopied : Copied input done c) :
    noffHeaderSize ≤ c.files.outPosition := by
  rw [hcopied.position]
  exact Nat.le_add_right _ _

theorem Copied.length_copied
    (hcopied : Copied input done c) (hne : sec.sSize ≠ 0)
    (hscnptr : 0 ≤ sec.sScnptr.toInt) (hcan : c.CanCopy limit sec) :
    (c.copied sec part).files.output.length =
      c.files.outPosition + sec.bytes := by
  rw [hcopied.output_copied hne hscnptr hcan, List.length_append,
    length_written, hcan.length_rawBytes hcopied.source hscnptr]

/-- The place of a section in the output. -/
def Conversion.newSegment (c : Conversion) (sec : Scnhdr) : Segment :=
  ⟨sec.sPaddr, c.inNoffFile, sec.sSize⟩

theorem field_copied (c : Conversion) (sec : Scnhdr) (part other : Part) :
    other.field (c.copied sec part).noffH =
      if other = part then c.newSegment sec else other.field c.noffH := by
  split
  next heq =>
      rw [heq]
      exact part.field_setField (c.newSegment sec) c.noffH
  next hne => exact Part.field_setField_of_ne hne (c.newSegment sec) c.noffH

theorem Copied.holds_newSegment
    (hcopied : Copied input done c) (hne : sec.sSize ≠ 0)
    (hscnptr : 0 ≤ sec.sScnptr.toInt) (hcan : c.CanCopy limit sec) :
    Holds input (c.copied sec part).files.output (c.newSegment sec) sec where
  virtualAddr := rfl
  size := rfl
  behind := by
    show noffHeaderSize ≤ c.inNoffFile.toNat
    rw [hcopied.next]
    exact hcopied.behind
  inside := by
    show c.inNoffFile.toNat + sec.sSize.toNat ≤ _
    rw [hcopied.length_copied hne hscnptr hcan, hcopied.next,
      Scnhdr.toNat_sSize hcan.nonneg]
  raw := by
    show AddrSpace.segmentBytes _ (c.newSegment sec) sec.sSize.toNat = _
    rw [hcopied.output_copied hne hscnptr hcan,
      Scnhdr.toNat_sSize hcan.nonneg,
      ← hcan.length_rawBytes hcopied.source hscnptr]
    apply segmentBytes_last
    rw [length_written]
    exact hcopied.next

/-- The new part begins where everything else ends. -/
theorem Copied.apart (hcopied : Copied input done c) (sec : Scnhdr)
    (other : Part) {place : ℕ} (hplace : InRange (other.field c.noffH) place) :
    ¬InRange (c.newSegment sec) place := by
  rintro ⟨hlow', -⟩
  obtain ⟨hlow, hhigh⟩ := hplace
  have hnext : (c.newSegment sec).inFileAddr.toNat = c.files.outPosition :=
    hcopied.next
  rcases hcopied.below other with hempty | hbelow <;> omega

theorem Copied.copies (hcopied : Copied input done c)
    (hpart : sec.IsPart part) (hnew : ∀ other ∈ done, ¬other.IsPart part)
    (hscnptr : 0 ≤ sec.sScnptr.toInt) (hcan : c.CanCopy limit sec) :
    Copied input (done ++ [sec]) (c.copied sec part) where
  source := hcopied.source
  position := by
    show c.files.outPosition + sec.bytes = _
    rw [hcopied.position, outputSize_append, copiedBytes_part hpart]
  next := by
    show (c.inNoffFile + sec.sSize).toNat = c.files.outPosition + sec.bytes
    have hroom := hcan.room
    have hlimit := limit.lt
    rw [BitVec.toNat_add, hcopied.next, Scnhdr.toNat_sSize hcan.nonneg,
      Nat.mod_eq_of_lt (by omega)]
  length := .inl (hcopied.length_copied hpart.1 hscnptr hcan)
  magic := (part.noffMagic_setField _ _).trans hcopied.magic
  held := by
    intro other done' hin hother
    rw [field_copied]
    rcases List.mem_append.mp hin with hdone | hlast
    · have hne : other ≠ part := by
        rintro rfl
        exact hnew done' hdone hother
      rw [if_neg hne, hcopied.output_copied hpart.1 hscnptr hcan]
      exact (hcopied.holds_written
        (hcopied.held other done' hdone hother)).append
    · obtain rfl := List.mem_singleton.mp hlast
      rw [if_pos (Part.sectionName_inj (hother.2.symm.trans hpart.2))]
      exact hcopied.holds_newSegment hpart.1 hscnptr hcan
  absent := by
    intro other habsent
    have hne : other ≠ part := by
      rintro rfl
      exact habsent sec (by simp) hpart
    rw [field_copied, if_neg hne]
    exact hcopied.absent other fun done' hin =>
      habsent done' (List.mem_append_left _ hin)
  noBss := by
    intro hnone
    refine (congrArg Segment.size (part.uninitData_setField _ _)).trans ?_
    exact hcopied.noBss fun done' hin =>
      hnone done' (List.mem_append_left _ hin)
  disjoint := by
    intro other other' hne place
    simp only [field_copied]
    split <;> split
    next heq heq' => exact (hne (heq.trans heq'.symm)).elim
    next => exact fun hnew' hold => hcopied.apart sec other' hold hnew'
    next => exact hcopied.apart sec other
    next => exact hcopied.disjoint other other' hne place

/-! ### The loop as a whole -/

theorem KnownSections.not_isPart_done
    (hknown : KnownSections input (done ++ sec :: rest))
    (hpart : sec.IsPart part) : ∀ other ∈ done, ¬other.IsPart part := by
  intro other hother hsame
  have honce := (List.pairwise_append.mp hknown.once).2.2 other hother sec
    (by simp)
  exact honce hsame.1 hpart.1 (hsame.2.trans hpart.2.symm)

theorem KnownSections.not_isBss_done
    (hknown : KnownSections input (done ++ sec :: rest))
    (hbss : sec.IsBss) : ∀ other ∈ done, ¬other.IsBss := by
  intro other hother hsame
  have honce := (List.pairwise_append.mp hknown.once).2.2 other hother sec
    (by simp)
  exact honce hsame.1 hbss.1 (hsame.2.trans hbss.2.symm)

theorem KnownSections.inside_input
    (hknown : KnownSections input (done ++ sec :: rest))
    (hpart : sec.IsPart part) (hsource : c.files.input = input) :
    0 ≤ sec.sScnptr.toInt ∧ 0 ≤ sec.sSize.toInt ∧
      c.start sec + sec.bytes ≤ c.files.input.length := by
  obtain ⟨hscnptr, hnonneg, hinside⟩ := hknown.inside sec (by simp) part hpart
  refine ⟨hscnptr, hnonneg, ?_⟩
  have hstart := Machine.toInt_eq_toNat hscnptr
  rw [start_eq hscnptr, hsource]
  unfold Scnhdr.bytes
  omega

/-- One round: the section is carried over, unless the output becomes too
large. -/
theorem Copied.round (limit : HostLimit) (hcopied : Copied input done c)
    (hknown : KnownSections input (done ++ sec :: rest)) :
    (∃ c', c.convert limit sec = .ok c' ∧ Copied input (done ++ [sec]) c' ∧
      outputSize (done ++ [sec]) ≤ max limit.maxSize (outputSize done)) ∨
    c.convert limit sec = .error .unableToWrite ∧
      limit.maxSize < outputSize (done ++ [sec]) := by
  rw [outputSize_append]
  by_cases hempty : sec.sSize = 0
  · have hbytes : sec.copiedBytes = 0 := by
      unfold Scnhdr.copiedBytes Scnhdr.bytes
      rw [hempty]
      split <;> rfl
    refine .inl ⟨c, convert_empty hempty, ?_, by omega⟩
    exact hcopied.skip (fun part hpart => hpart.1 hempty) hbytes c.noffH rfl
      (fun _ => rfl) (fun _ => rfl)
  · rcases hknown.named sec (by simp) hempty with hbss | ⟨part, hpart⟩
    · have hbytes : sec.copiedBytes = 0 := if_pos hbss
      have hsize := hcopied.noBss (hknown.not_isBss_done hbss)
      refine .inl ⟨{ c with noffH := { c.noffH with uninitData :=
        { c.noffH.uninitData with
          virtualAddr := sec.sPaddr, size := sec.sSize } } }, ?_, ?_,
        by omega⟩
      · rw [convert_bss hbss, Conversion.mergeBss,
          if_neg (not_not.mpr hsize)]
        rfl
      · refine hcopied.skip (fun part hpart => hpart.not_isBss hbss) hbytes
          _ rfl ?_ (fun hnot => (hnot hbss).elim)
        intro part
        cases part <;> rfl
    · obtain ⟨hscnptr, hnonneg, hinside⟩ :=
        hknown.inside_input hpart hcopied.source
      rw [convert_part hpart, copiedBytes_part hpart, ← hcopied.position]
      by_cases hroom : limit.maxSize < c.files.outPosition + sec.bytes
      · refine .inr ⟨?_, hroom⟩
        rw [copySection_eq hnonneg hinside, if_pos hroom]
      · have hcan : c.CanCopy limit sec :=
          ⟨hnonneg, hinside, not_lt.mp hroom⟩
        exact .inl ⟨_, copySection_ok hcan, hcopied.copies hpart
          (hknown.not_isPart_done hpart) hscnptr hcan, by omega⟩

theorem outputSize_le_append (done rest : List Scnhdr) :
    outputSize done ≤ outputSize (done ++ rest) := by
  unfold outputSize
  rw [List.map_append, List.sum_append]
  omega

theorem Copied.loop (limit : HostLimit) (hcopied : Copied input done c)
    (hknown : KnownSections input (done ++ rest)) :
    (∃ c', rest.foldlM (Conversion.convert limit) c = .ok c' ∧
      Copied input (done ++ rest) c' ∧
      outputSize (done ++ rest) ≤ max limit.maxSize (outputSize done)) ∨
    rest.foldlM (Conversion.convert limit) c = .error .unableToWrite ∧
      limit.maxSize < outputSize (done ++ rest) := by
  induction rest generalizing done c with
  | nil =>
      rw [List.append_nil]
      exact .inl ⟨c, rfl, hcopied, by omega⟩
  | cons sec rest ih =>
      have hsplit : done ++ sec :: rest = (done ++ [sec]) ++ rest := by simp
      rw [List.foldlM_cons]
      rcases hcopied.round limit hknown with
        ⟨c₁, hround, hcopied₁, hsize⟩ | ⟨hround, hsize⟩
      · rw [hround, hsplit]
        rw [hsplit] at hknown
        rcases ih hcopied₁ hknown with ⟨c', hloop, hcopied', hsize'⟩ | hfails
        · exact .inl ⟨c', hloop, hcopied', by omega⟩
        · exact .inr hfails
      · refine .inr ⟨by rw [hround]; rfl, ?_⟩
        rw [hsplit]
        exact hsize.trans_le (outputSize_le_append _ _)

theorem copied_initial (garbage : NoffHeader) (input : List (BitVec 8))
    (position outPosition : ℕ) :
    Copied input []
      (.initial garbage ⟨input, position, [], outPosition⟩) where
  source := rfl
  position := rfl
  next := rfl
  length := .inr ⟨rfl, rfl⟩
  magic := rfl
  held := by simp
  absent := by
    intro part _
    cases part <;> rfl
  noBss := fun _ => rfl
  disjoint := by
    rintro part part' - place ⟨hlow, hhigh⟩
    have hempty : (part.field (initialHeader garbage)).size.toNat = 0 := by
      cases part <;> rfl
    change place < _ + (part.field (initialHeader garbage)).size.toNat
      at hhigh
    rw [hempty] at hhigh
    exact (not_lt.mpr hlow hhigh).elim

theorem Copied.preserved (hcopied : Copied input (sectionTable input) c) :
    Preserved input
      (headerBytes c.noffH ++ c.files.output.drop noffHeaderSize) where
  length := by
    rw [List.length_append, length_headerBytes]
    exact Nat.le_add_right _ _
  magic := by
    rw [ofBytes_headerBytes]
    exact hcopied.magic
  held := by
    intro part sec hin hpart
    rw [ofBytes_headerBytes]
    exact (hcopied.held part sec hin hpart).withHeader c.noffH
  absent := by
    intro part habsent
    rw [ofBytes_headerBytes]
    exact hcopied.absent part habsent
  disjoint := by
    rw [ofBytes_headerBytes]
    exact hcopied.disjoint

/-- Every section with raw data is where the loader looks for it; when the host
has no room for the output, there is none. -/
theorem main_preserves_sections
    (limit : HostLimit) (garbage : NoffHeader) (input : List (BitVec 8))
    (hinput : Convertible input) :
    (outputSize (sectionTable input) ≤ limit.maxSize →
      ∃ output, main limit garbage input = .ok output ∧
        Preserved input output) ∧
    (limit.maxSize < outputSize (sectionTable input) →
      main limit garbage input = .error .unableToWrite) := by
  have hknown : KnownSections input ([] ++ sectionTable input) :=
    hinput.sections
  have hloop := (copied_initial garbage input (headersEnd input) 0).loop
    limit hknown
  have hheader : noffHeaderSize ≤ outputSize (sectionTable input) :=
    Nat.le_add_right _ _
  rw [main_of_rightHeaders hinput.headers]
  rcases hloop with ⟨c, hok, hcopied, hsize⟩ | ⟨herror, hsize⟩
  · rw [convertSections_of_loop hok]
    constructor
    · intro hroom
      rw [if_neg (not_lt.mpr (hheader.trans hroom))]
      exact ⟨_, rfl, hcopied.preserved⟩
    · intro hroom
      have hsize' : outputSize (sectionTable input) ≤
          max limit.maxSize noffHeaderSize := hsize
      exact if_pos (by omega)
  · rw [convertSections_of_error herror]
    constructor
    · intro hroom
      exact (not_le.mpr hsize hroom).elim
    · intro _
      rfl

end Loop

/-! ## A small program -/

/-- The bytes of a `struct scnhdr`; eight bytes are given for the name. -/
def sectionBytes (sName : List (BitVec 8)) (sPaddr sSize sScnptr : BitVec 32) :
    List (BitVec 8) :=
  sName ++ [sPaddr, 0, sSize, sScnptr, 0, 0, 0, 0].flatMap wordBytes

/-- A COFF file with the right magic numbers. -/
def coffFile (table : List (List (BitVec 8))) (raw : List (BitVec 8)) :
    List (BitVec 8) :=
  [0x62, 0x01, BitVec.ofNat 8 table.length, 0] ++ List.replicate 16 0 ++
    [0x07, 0x01] ++ List.replicate 54 0 ++ table.flatten ++ raw

/-- Four sections; the code comes behind the initialized data in the table and
before it in the file, and there are no read-only data. -/
def fourSections : List (BitVec 8) :=
  coffFile
    [sectionBytes [46, 100, 97, 116, 97, 0, 0, 0] 0x80 2 240,
      sectionBytes [46, 98, 115, 115, 0, 0, 0, 0] 0x100 64 0,
      sectionBytes [46, 114, 100, 97, 116, 97, 0, 0] 0x40 0 7,
      sectionBytes [46, 116, 101, 120, 116, 0, 0, 0] 0 4 236]
    [1, 2, 3, 4, 5, 6]

theorem main_preserves_four_sections :
    ∃ output, main ⟨100, by decide⟩ ⟨0, ⟨0, 0, 0⟩, ⟨0, 0, 0⟩, ⟨0, 0, 0⟩,
        ⟨0, 0, 0⟩⟩ fourSections = .ok output ∧
      Preserved fourSections output := by
  have hconvertible : Convertible fourSections :=
    { headers :=
        { complete := by decide +kernel
          magic := by decide +kernel
          systemMagic := by decide +kernel }
      sections :=
        { named := by decide +kernel
          once := by decide +kernel
          inside := by decide +kernel } }
  exact (main_preserves_sections _ _ _ hconvertible).1 (by decide +kernel)

end Coff

end Nachos
