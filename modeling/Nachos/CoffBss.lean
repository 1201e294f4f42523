import Nachos.CoffSections
import Nachos.Library.Arcs

/-!
# Uninitialized data

The `.bss` sections of a file are merged into one segment.  They are meant to be
contiguous, but the section that begins where the merged ones end is the one
that is refused; every other one is accepted, and the segment then describes the
sections only if they happen to fill the addresses from the first of them on.
-/

namespace Nachos

namespace Coff

open Library

/-! ## What is to be shown of the merged segment -/

def segmentArc (segment : Segment) : Arc 32 :=
  (segment.virtualAddr, segment.size)

/-- The addresses of the non-empty `.bss` sections, in the order of the
table. -/
def bssArcs (table : List Scnhdr) : List (Arc 32) :=
  (table.filter fun sec => sec.IsBss).map fun sec => (sec.sPaddr, sec.sSize)

/-- The sections that are not merged can be copied, from the positions of the
two files on. -/
def OthersCopied (limit : HostLimit) (inputLength : ℕ) :
    List Scnhdr → ℕ → ℕ → Prop
  | [], _, _ => True
  | sec :: rest, position, outPosition =>
      if sec.sSize = 0 ∨ sec.IsBss then
        OthersCopied limit inputLength rest position outPosition
      else
        let start :=
          if 0 ≤ sec.sScnptr.toInt then sec.sScnptr.toInt.toNat else position
        (∃ part, sec.IsPart part) ∧ 0 ≤ sec.sSize.toInt ∧
          start + sec.bytes ≤ inputLength ∧
          outPosition + sec.bytes ≤ limit.maxSize ∧
          OthersCopied limit inputLength rest (start + sec.bytes)
            (outPosition + sec.bytes)

/-- Nothing but the `.bss` sections can keep an input from being accepted. -/
structure OthersAccepted (limit : HostLimit) (input : List (BitVec 8)) :
    Prop where
  headers : RightHeaders input
  room : noffHeaderSize ≤ limit.maxSize
  copied : OthersCopied limit input.length (sectionTable input)
    (headersEnd input) noffHeaderSize

/-- The segment is what it should be: contiguous `.bss` sections are merged into
their union, and others are refused. -/
structure DescribesBss (limit : HostLimit) (garbage : NoffHeader)
    (input : List (BitVec 8)) : Prop where
  exact : ∀ output, main limit garbage input = .ok output →
    (segmentArc (NoffHeader.ofBytes output).uninitData).addresses =
      Arc.union (bssArcs (sectionTable input))
  accepts : OthersAccepted limit input →
    Arc.Contiguous (bssArcs (sectionTable input)) →
      ∃ output, main limit garbage input = .ok output
  rejects : ¬Arc.Contiguous (bssArcs (sectionTable input)) →
    ∀ output, main limit garbage input ≠ .ok output

/-- One of the arcs begins where those before it end. -/
def MeetsEnd : Arc 32 → List (Arc 32) → Prop
  | _, [] => False
  | merged, arc :: rest =>
      (merged.2 ≠ 0 ∧ arc.1 = merged.1 + merged.2) ∨
        MeetsEnd (merged.extend arc) rest

/-- The arcs for which the wrong test does no harm. -/
def MergedRightly (arcs : List (Arc 32)) : Prop :=
  MeetsEnd (0, 0) arcs ∧ ¬Arc.Contiguous arcs ∨
    ¬MeetsEnd (0, 0) arcs ∧ Arc.ContiguousFromFirst arcs

/-! ## The loop -/

section Loop

variable {limit : HostLimit} {garbage : NoffHeader}
variable {input output : List (BitVec 8)} {table rest : List Scnhdr}
variable {c c' : Conversion} {sec : Scnhdr} {part : Part}
variable {uninitData : Segment}

theorem bssArcs_bss (hbss : sec.IsBss) :
    bssArcs (sec :: rest) = (sec.sPaddr, sec.sSize) :: bssArcs rest := by
  simp only [bssArcs, List.filter_cons, decide_eq_true hbss, if_true,
    List.map_cons]

theorem bssArcs_other (hother : ¬sec.IsBss) :
    bssArcs (sec :: rest) = bssArcs rest := by
  simp [bssArcs, hother]

theorem size_ne_zero_of_mem_bssArcs :
    ∀ arc ∈ bssArcs table, arc.2 ≠ 0 := by
  intro arc harc
  obtain ⟨sec, hsec, rfl⟩ := List.mem_map.mp harc
  have hbss := (List.mem_filter.mp hsec).2
  exact (of_decide_eq_true hbss).1

theorem mergeBss_meets (hne : uninitData.size ≠ 0)
    (hmeets : sec.sPaddr = uninitData.virtualAddr + uninitData.size) :
    Conversion.mergeBss uninitData sec = .error .bothBssAndSbss := by
  rw [Conversion.mergeBss, if_pos hne, if_pos hmeets]

theorem mergeBss_extends
    (happart : ¬(uninitData.size ≠ 0 ∧
      sec.sPaddr = uninitData.virtualAddr + uninitData.size)) :
    ∃ merged, Conversion.mergeBss uninitData sec = .ok merged ∧
      segmentArc merged =
        (segmentArc uninitData).extend (sec.sPaddr, sec.sSize) := by
  unfold Conversion.mergeBss
  by_cases hne : uninitData.size ≠ 0
  · rw [if_pos hne, if_neg fun hmeets => happart ⟨hne, hmeets⟩]
    exact ⟨_, rfl, (if_neg hne).symm⟩
  · rw [if_neg hne]
    exact ⟨_, rfl, (if_pos (not_not.mp hne)).symm⟩

theorem foldlM_of_round (hround : c.convert limit sec = .ok c') :
    (sec :: rest).foldlM (Conversion.convert limit) c =
      rest.foldlM (Conversion.convert limit) c' := by
  rw [List.foldlM_cons, hround]
  rfl

theorem foldlM_of_failure {failure : Failure}
    (hround : c.convert limit sec = .error failure) :
    (sec :: rest).foldlM (Conversion.convert limit) c = .error failure := by
  rw [List.foldlM_cons, hround]
  rfl

/-- What the loop does with the `.bss` sections, and what it takes to reach its
end. -/
structure Ends (limit : HostLimit) (table : List Scnhdr) (c : Conversion) :
    Prop where
  ends : OthersCopied limit c.files.input.length table c.files.position
      c.files.outPosition →
    ¬MeetsEnd (segmentArc c.noffH.uninitData) (bssArcs table) →
      ∃ c', table.foldlM (Conversion.convert limit) c = .ok c'
  ended : ∀ c', table.foldlM (Conversion.convert limit) c = .ok c' →
    OthersCopied limit c.files.input.length table c.files.position
        c.files.outPosition ∧
      ¬MeetsEnd (segmentArc c.noffH.uninitData) (bssArcs table) ∧
      segmentArc c'.noffH.uninitData =
        (segmentArc c.noffH.uninitData).merge (bssArcs table)

theorem Ends.cons_of_ok {c₁ : Conversion}
    (hrest : Ends limit rest c₁) (hround : c.convert limit sec = .ok c₁)
    (hcopied : OthersCopied limit c.files.input.length (sec :: rest)
        c.files.position c.files.outPosition ↔
      OthersCopied limit c₁.files.input.length rest c₁.files.position
        c₁.files.outPosition)
    (hmeets : MeetsEnd (segmentArc c.noffH.uninitData)
        (bssArcs (sec :: rest)) ↔
      MeetsEnd (segmentArc c₁.noffH.uninitData) (bssArcs rest))
    (hmerge : (segmentArc c.noffH.uninitData).merge (bssArcs (sec :: rest)) =
      (segmentArc c₁.noffH.uninitData).merge (bssArcs rest)) :
    Ends limit (sec :: rest) c := by
  constructor
  case ends =>
    intro hothers happart
    rw [foldlM_of_round hround]
    exact hrest.ends (hcopied.mp hothers) (hmeets.not.mp happart)
  case ended =>
    intro c' hloop
    rw [foldlM_of_round hround] at hloop
    rw [hcopied, hmeets, hmerge]
    exact hrest.ended c' hloop

theorem Ends.cons_of_error {failure : Failure}
    (hround : c.convert limit sec = .error failure)
    (hrefused : OthersCopied limit c.files.input.length (sec :: rest)
        c.files.position c.files.outPosition →
      MeetsEnd (segmentArc c.noffH.uninitData) (bssArcs (sec :: rest))) :
    Ends limit (sec :: rest) c := by
  have hloop : (sec :: rest).foldlM (Conversion.convert limit) c =
      .error failure := foldlM_of_failure hround
  constructor
  case ends =>
    intro hothers happart
    exact (happart (hrefused hothers)).elim
  case ended =>
    intro c' hok
    cases hloop.symm.trans hok

theorem othersCopied_skip {inputLength position outPosition : ℕ}
    (hskip : sec.sSize = 0 ∨ sec.IsBss) :
    OthersCopied limit inputLength (sec :: rest) position outPosition ↔
      OthersCopied limit inputLength rest position outPosition := by
  rw [OthersCopied, if_pos hskip]

theorem othersCopied_part (hpart : sec.IsPart part) :
    OthersCopied limit c.files.input.length (sec :: rest) c.files.position
        c.files.outPosition ↔
      c.CanCopy limit sec ∧
        OthersCopied limit c.files.input.length rest
          (c.start sec + sec.bytes) (c.files.outPosition + sec.bytes) := by
  have hcopied : ¬(sec.sSize = 0 ∨ sec.IsBss) :=
    not_or.mpr ⟨hpart.1, hpart.not_isBss⟩
  rw [OthersCopied, if_neg hcopied]
  constructor
  · rintro ⟨-, hnonneg, hinside, hroom, hrest⟩
    exact ⟨⟨hnonneg, hinside, hroom⟩, hrest⟩
  · rintro ⟨⟨hnonneg, hinside, hroom⟩, hrest⟩
    exact ⟨⟨part, hpart⟩, hnonneg, hinside, hroom, hrest⟩

theorem ends (limit : HostLimit) (table : List Scnhdr) (c : Conversion) :
    Ends limit table c := by
  induction table generalizing c with
  | nil =>
      constructor
      case ends => exact fun _ _ => ⟨c, rfl⟩
      case ended =>
        rintro c' ⟨⟩
        exact ⟨trivial, id, rfl⟩
  | cons sec rest ih =>
      by_cases hempty : sec.sSize = 0
      · have hother : ¬sec.IsBss := fun hbss => hbss.1 hempty
        refine (ih c).cons_of_ok (convert_empty hempty)
          (othersCopied_skip (.inl hempty)) ?_ ?_
        · rw [bssArcs_other hother]
        · rw [bssArcs_other hother]
      by_cases hbss : sec.IsBss
      · by_cases hmeets : c.noffH.uninitData.size ≠ 0 ∧
            sec.sPaddr = c.noffH.uninitData.virtualAddr +
              c.noffH.uninitData.size
        · have hround : c.convert limit sec = .error .bothBssAndSbss := by
            rw [convert_bss hbss, mergeBss_meets hmeets.1 hmeets.2]
            rfl
          refine .cons_of_error hround fun _ => ?_
          rw [bssArcs_bss hbss]
          exact .inl hmeets
        · obtain ⟨merged, hmerged, hextend⟩ := mergeBss_extends hmeets
          refine (ih { c with noffH := { c.noffH with
            uninitData := merged } }).cons_of_ok ?_
            (othersCopied_skip (.inr hbss)) ?_ ?_
          · rw [convert_bss hbss, hmerged]
            rfl
          · rw [bssArcs_bss hbss, hextend]
            exact or_iff_right hmeets
          · rw [bssArcs_bss hbss, hextend]
            rfl
      by_cases hpart : ∃ part, sec.IsPart part
      · obtain ⟨part, hpart⟩ := hpart
        by_cases hcan : c.CanCopy limit sec
        · refine (ih (c.copied sec part)).cons_of_ok
            ((convert_part hpart).trans (copySection_ok hcan)) ?_ ?_ ?_
          · rw [othersCopied_part hpart]
            exact and_iff_right hcan
          · rw [bssArcs_other hbss]
            exact iff_of_eq (congrArg
              (fun segment => MeetsEnd (segmentArc segment) (bssArcs rest))
              (part.uninitData_setField _ _).symm)
          · rw [bssArcs_other hbss]
            exact congrArg
              (fun segment => (segmentArc segment).merge (bssArcs rest))
              (part.uninitData_setField _ _).symm
        · cases hround : c.convert limit sec with
          | ok c₁ =>
              rw [convert_part hpart] at hround
              exact (hcan (canCopy_of_copySection hempty hround).1).elim
          | error failure =>
              refine .cons_of_error hround fun hothers => ?_
              exact (hcan ((othersCopied_part hpart).mp hothers).1).elim
      · have hunknown : c.convert limit sec =
            .error (.unknownSegment sec.name) :=
          convert_unknown hempty (not_exists.mp hpart) hbss
        refine .cons_of_error hunknown fun hothers => ?_
        rw [OthersCopied, if_neg (not_or.mpr ⟨hempty, hbss⟩)] at hothers
        exact (hpart hothers.1).elim

theorem othersCopied_of_bss
    {inputLength position outPosition : ℕ}
    (hnone : ∀ sec ∈ table, sec.sSize = 0 ∨ sec.IsBss) :
    OthersCopied limit inputLength table position outPosition := by
  induction table with
  | nil => trivial
  | cons sec rest ih =>
      rw [othersCopied_skip (hnone sec (by simp))]
      exact ih fun other hother => hnone other (by simp [hother])

/-! ## The program -/

theorem meetsEnd_empty (start : BitVec 32) (arcs : List (Arc 32)) :
    MeetsEnd (start, 0) arcs ↔ MeetsEnd (0, 0) arcs := by
  cases arcs with
  | nil => exact Iff.rfl
  | cons arc arcs => simp [MeetsEnd, Arc.extend]

/-- Two sections are not merged rightly, unless their sizes are too large for
the address space. -/
theorem not_mergedRightly_pair
    {arc arc' : Arc 32} (hne : arc.2 ≠ 0) (hne' : arc'.2 ≠ 0)
    (hsum : arc.2.toNat + arc'.2.toNat < 2 ^ 32) :
    ¬MergedRightly [arc, arc'] := by
  have hmeets : MeetsEnd (0, 0) [arc, arc'] ↔ arc'.1 = arc.1 + arc.2 := by
    constructor
    · rintro (⟨hzero, -⟩ | ⟨-, hnext⟩ | hfalse)
      · exact (hzero rfl).elim
      · exact hnext
      · exact hfalse.elim
    · intro hnext
      exact .inr (.inl ⟨hne, hnext⟩)
  rintro (⟨hmeet, hnot⟩ | ⟨happart, hfirst⟩)
  · apply hnot
    have harc' : arc' = (arc.1 + arc.2, arc'.2) :=
      Prod.ext (hmeets.mp hmeet) rfl
    rw [harc']
    exact Arc.contiguous_next hsum
  · exact happart (hmeets.mpr (hfirst.next hne hne'))

/-- The segment before the loop: it starts anywhere and is empty. -/
def emptyArc (garbage : NoffHeader) : Arc 32 :=
  (garbage.uninitData.virtualAddr, 0)

theorem main_accepts (hothers : OthersAccepted limit input)
    (happart : ¬MeetsEnd (0, 0) (bssArcs (sectionTable input))) :
    ∃ output, main limit garbage input = .ok output := by
  obtain ⟨c, hloop⟩ := (ends limit (sectionTable input)
    (.initial garbage ⟨input, headersEnd input, [], 0⟩)).ends hothers.copied
      ((meetsEnd_empty _ _).not.mpr happart)
  rw [main_of_rightHeaders hothers.headers, convertSections_of_loop hloop,
    if_neg (not_lt.mpr hothers.room)]
  exact ⟨_, rfl⟩

theorem main_accepted (hok : main limit garbage input = .ok output) :
    OthersAccepted limit input ∧
      ¬MeetsEnd (0, 0) (bssArcs (sectionTable input)) ∧
      segmentArc (NoffHeader.ofBytes output).uninitData =
        (emptyArc garbage).merge (bssArcs (sectionTable input)) := by
  have hheaders := rightHeaders_of_main hok
  rw [main_of_rightHeaders hheaders] at hok
  cases hloop : (sectionTable input).foldlM (Conversion.convert limit)
      (.initial garbage ⟨input, headersEnd input, [], 0⟩) with
  | error failure =>
      rw [convertSections_of_error hloop] at hok
      cases hok
  | ok c =>
      obtain ⟨hcopied, happart, hmerge⟩ := (ends limit _ _).ended c hloop
      rw [convertSections_of_loop hloop] at hok
      split_ifs at hok with hroom
      cases hok
      refine ⟨⟨hheaders, not_lt.mp hroom, hcopied⟩,
        (meetsEnd_empty _ _).not.mp happart, ?_⟩
      rw [ofBytes_headerBytes]
      exact hmerge

/-- The segment is as it should be exactly for the arcs that are merged
rightly, if nothing else keeps the input from being accepted. -/
theorem describesBss_iff (limit : HostLimit) (garbage : NoffHeader)
    (input : List (BitVec 8)) :
    DescribesBss limit garbage input ↔
      (OthersAccepted limit input →
        MergedRightly (bssArcs (sectionTable input))) := by
  have hunion : Arc.Contiguous (bssArcs (sectionTable input)) →
      (((emptyArc garbage).merge (bssArcs (sectionTable input))).addresses =
          Arc.union (bssArcs (sectionTable input)) ↔
        Arc.ContiguousFromFirst (bssArcs (sectionTable input))) :=
    fun hcontiguous => hcontiguous.merge_eq_union_iff rfl
      size_ne_zero_of_mem_bssArcs
  constructor
  · intro hdescribes hothers
    by_cases hmeets : MeetsEnd (0, 0) (bssArcs (sectionTable input))
    · refine .inl ⟨hmeets, fun hcontiguous => ?_⟩
      obtain ⟨output, hok⟩ := hdescribes.accepts hothers hcontiguous
      exact (main_accepted hok).2.1 hmeets
    · have hok : ∃ output, main limit garbage input = .ok output :=
        main_accepts hothers hmeets
      obtain ⟨output, hok⟩ := hok
      have hcontiguous : Arc.Contiguous (bssArcs (sectionTable input)) := by
        by_contra hnot
        exact hdescribes.rejects hnot output hok
      have hexact := hdescribes.exact output hok
      rw [(main_accepted hok).2.2] at hexact
      exact .inr ⟨hmeets, (hunion hcontiguous).mp hexact⟩
  · intro hrightly
    constructor
    case exact =>
      intro output hok
      obtain ⟨hothers, happart, hmerge⟩ := main_accepted hok
      rcases hrightly hothers with ⟨hmeets, -⟩ | ⟨-, hfirst⟩
      · exact (happart hmeets).elim
      · rw [hmerge]
        exact (hunion hfirst.contiguous).mpr hfirst
    case accepts =>
      intro hothers hcontiguous
      rcases hrightly hothers with ⟨-, hnot⟩ | ⟨happart, -⟩
      · exact (hnot hcontiguous).elim
      · exact main_accepts hothers happart
    case rejects =>
      intro hnot output hok
      obtain ⟨hothers, happart, -⟩ := main_accepted hok
      rcases hrightly hothers with ⟨hmeets, -⟩ | ⟨-, hfirst⟩
      · exact happart hmeets
      · exact hnot hfirst.contiguous

end Loop

/-- Two `.bss` sections, the second of which begins where the first ends. -/
def twoBss : List (BitVec 8) :=
  coffFile
    [sectionBytes [46, 98, 115, 115, 0, 0, 0, 0] 0x1000 0x10 0,
      sectionBytes [46, 98, 115, 115, 0, 0, 0, 0] 0x1010 0x20 0]
    []

theorem bssArcs_twoBss :
    bssArcs (sectionTable twoBss) = [(0x1000, 0x10), (0x1010, 0x20)] := by
  decide +kernel

theorem not_describesBss_twoBss :
    ¬DescribesBss ⟨100, by decide⟩ ⟨0, ⟨0, 0, 0⟩, ⟨0, 0, 0⟩, ⟨0, 0, 0⟩,
      ⟨0, 0, 0⟩⟩ twoBss := by
  intro hdescribes
  have hothers : OthersAccepted ⟨100, by decide⟩ twoBss :=
    { headers :=
        { complete := by decide +kernel
          magic := by decide +kernel
          systemMagic := by decide +kernel }
      room := by decide
      copied := othersCopied_of_bss (by decide +kernel) }
  have hcontiguous : Arc.Contiguous (bssArcs (sectionTable twoBss)) := by
    rw [bssArcs_twoBss]
    exact @Arc.contiguous_next 32 0x1000 0x10 0x20 (by decide)
  obtain ⟨output, hok⟩ := hdescribes.accepts hothers hcontiguous
  have happart := (main_accepted hok).2.1
  rw [bssArcs_twoBss] at happart
  exact happart (.inr (.inl (by decide)))

end Coff

end Nachos
