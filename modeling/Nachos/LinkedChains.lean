import Nachos.LinkedLists

/-!
# What the operations on a list do to its chain

The pointers of a list describe one chain of elements.  Each operation is
stated by what it makes of the chain.
-/

namespace Nachos

open Library

namespace LinkedList

variable {α β : Type} {l l' : LinkedList α} {nodes : List (ℕ × α)}
variable {item x : α} {element a : ℕ} {p : Option ℕ}

/-- The pointers `first` and `last` are the ends of the chain `nodes`. -/
structure Linked (l : LinkedList α) (nodes : List (ℕ × α)) : Prop where
  chain : Library.Segment l.elements l.first nodes none
  nodup : (nodes.map Prod.fst).Nodup
  last : l.last = nodes.getLast?.map Prod.fst

/-- A list that is in order, with its elements. -/
structure IsList (l : LinkedList α) (nodes : List (ℕ × α)) : Prop
    extends l.Linked nodes where
  count : l.numInList = nodes.length

/-! ## Pointers -/

theorem element_eq
    {e : ListElement α} (hcell : l.elements.lookup a = some e) :
    l.element (some a) = .ok e := by
  rw [LinkedList.element, hcell]

theorem setNext_eq
    {e : ListElement α} (hcell : l.elements.lookup a = some e)
    (next : Option ℕ) :
    l.setNext (some a) next = .ok { l with
      elements := l.elements.insert a ⟨e.item, next⟩ } := by
  rw [setNext, element_eq hcell]
  rfl

theorem new_isList : (new : LinkedList α).IsList [] where
  chain := rfl
  nodup := List.nodup_nil
  last := rfl
  count := rfl

theorem Linked.first_nil (hlinked : l.Linked []) : l.first = none :=
  hlinked.chain

theorem Linked.first_cons (hlinked : l.Linked ((a, x) :: nodes)) :
    l.first = some a :=
  hlinked.chain.1

theorem Linked.last_concat (hlinked : l.Linked (nodes ++ [(a, x)])) :
    l.last = some a := by
  rw [hlinked.last, List.getLast?_concat]
  rfl

theorem Linked.fresh
    (hlinked : l.Linked nodes) (hfree : element ∉ l.elements) :
    element ∉ nodes.map Prod.fst :=
  fun hmem => hfree (hlinked.chain.mem hmem)

theorem IsList.isEmpty_iff (hlist : l.IsList nodes) :
    l.IsEmpty ↔ nodes = [] := by
  rw [IsEmpty, hlist.count, ← List.length_eq_zero_iff]
  omega

theorem IsList.allocate
    (hlist : l.IsList nodes) (hfree : element ∉ l.elements) (item : α) :
    (l.allocate item element).IsList nodes where
  chain := hlist.chain.insert_of_notMem (hlist.fresh hfree) _
  nodup := hlist.nodup
  last := hlist.last
  count := hlist.count

/-! ## Links -/

theorem linked_singleton (l : LinkedList α) (item : α) (element : ℕ) :
    ({ l.allocate item element with
      first := some element, last := some element } :
        LinkedList α).Linked [(element, item)] where
  chain := segment_singleton.mpr ⟨rfl, Finmap.lookup_insert _⟩
  nodup := List.nodup_singleton _
  last := rfl

/-- An element goes behind the last one. -/
theorem Linked.snoc
    (hlinked : l.Linked nodes) (hne : nodes ≠ [])
    (hcell : l.elements.lookup element = some ⟨item, none⟩)
    (hfresh : element ∉ nodes.map Prod.fst) :
    ∃ l', l.setNext l.last (some element) = .ok l' ∧
      l'.numInList = l.numInList ∧
      ({ l' with last := some element } : LinkedList α).Linked
        (nodes ++ [(element, item)]) := by
  obtain ⟨before, ⟨b, y⟩, rfl⟩ := List.eq_nil_or_concat' nodes |>.resolve_left hne
  obtain ⟨hbefore, hlast⟩ := segment_concat.mp hlinked.chain
  have hout : b ∉ before.map Prod.fst := by
    have hnodup := hlinked.nodup
    rw [List.map_append, List.nodup_append] at hnodup
    intro hmem
    exact hnodup.2.2 b hmem b (by simp) rfl
  have hneq : element ≠ b := by
    rintro rfl
    simp at hfresh
  rw [hlinked.last_concat, setNext_eq hlast]
  refine ⟨_, rfl, rfl, ?_, ?_, ?_⟩
  · refine segment_concat.mpr ⟨hlinked.chain.redirect hout _, ?_⟩
    rw [Finmap.lookup_insert_of_ne _ hneq, hcell]
  · rw [List.map_append]
    exact hlinked.nodup.append (List.nodup_singleton _)
      (by simpa using hfresh)
  · rw [List.getLast?_concat]
    rfl

/-- An element goes before the first one. -/
theorem Linked.push
    (hlinked : l.Linked ((a, x) :: nodes))
    (hcell : l.elements.lookup element = some ⟨item, none⟩)
    (hfresh : element ∉ ((a, x) :: nodes).map Prod.fst) :
    ∃ l', l.setNext (some element) l.first = .ok l' ∧
      l'.numInList = l.numInList ∧
      ({ l' with first := some element } : LinkedList α).Linked
        ((element, item) :: (a, x) :: nodes) := by
  rw [setNext_eq hcell]
  refine ⟨_, rfl, rfl, ⟨rfl, l.first, Finmap.lookup_insert _,
    hlinked.chain.insert_of_notMem hfresh _⟩,
    List.nodup_cons.mpr ⟨hfresh, hlinked.nodup⟩, ?_⟩
  rw [List.getLast?_cons_cons]
  exact hlinked.last

/-! ## Loops over the items -/

/-- The loop on a sequence of items. -/
def firstExit (body : α → Except Fault (Option β)) :
    List α → Except Fault (Option β)
  | [] => return none
  | x :: xs => do
      match ← body x with
      | some result => return some result
      | none => firstExit body xs

theorem loop_eq
    {body : α → Except Fault (Option β)} {fuel : ℕ}
    (hchain : Library.Segment l.elements p nodes none) (hfuel : nodes.length ≤ fuel) :
    l.loop body fuel p = firstExit body (nodes.map Prod.snd) := by
  induction nodes generalizing p fuel with
  | nil =>
      obtain rfl : p = none := hchain
      cases fuel <;> rfl
  | cons node nodes ih =>
      obtain ⟨a, x⟩ := node
      obtain ⟨rfl, next, hcell, hrest⟩ := hchain
      cases fuel with
      | zero => simp at hfuel
      | succ fuel =>
          have hlater := ih hrest (Nat.le_of_succ_le_succ hfuel)
          simp only [loop, element_eq hcell, ok_bind, List.map_cons, firstExit]
          cases body x with
          | error fault => rfl
          | ok result =>
              cases result with
              | some result => rfl
              | none => exact hlater

theorem Linked.forEach_eq
    (hlinked : l.Linked nodes) (body : α → Except Fault (Option β)) :
    l.forEach body = firstExit body (nodes.map Prod.snd) :=
  loop_eq hlinked.chain (hlinked.chain.length_le_card hlinked.nodup)

theorem firstExit_eq_find
    (choose : α → Option β) (xs : List α) :
    firstExit (fun x => .ok (choose x)) xs = .ok (xs.findSome? choose) := by
  induction xs with
  | nil => rfl
  | cons x xs ih =>
      rw [firstExit, ok_bind, ih, List.findSome?_cons]
      cases choose x <;> rfl

/-! ## `RemoveFront` -/

theorem Linked.first_eq_last_iff (hlinked : l.Linked ((a, x) :: nodes)) :
    l.first = l.last ↔ nodes = [] := by
  rw [hlinked.first_cons, hlinked.last]
  constructor
  · intro hsame
    obtain ⟨hout, -⟩ := List.nodup_cons.mp hlinked.nodup
    by_contra hne
    obtain ⟨before, ⟨b, y⟩, rfl⟩ :=
      List.eq_nil_or_concat' nodes |>.resolve_left hne
    rw [← List.cons_append, List.getLast?_concat] at hsame
    obtain rfl : a = b := by simpa using hsame
    simp at hout
  · rintro rfl
    rfl

theorem IsList.removeFront (hlist : l.IsList ((a, x) :: nodes)) :
    ∃ l', l.removeFront = .ok (x, l') ∧ l'.IsList nodes := by
  have hnonempty := hlist.isEmpty_iff.not.mpr (List.cons_ne_nil _ _)
  have hcount := hlist.count
  obtain ⟨hfirst, next, hcell, hrest⟩ := hlist.chain
  obtain ⟨hout, hnodup⟩ := List.nodup_cons.mp hlist.nodup
  have hchain := hrest.erase_of_notMem hout
  have hcount' : l.numInList - 1 = nodes.length := by
    rw [hcount, List.length_cons]
    push_cast
    omega
  rw [LinkedList.removeFront]
  simp only [assert_of_true hnonempty, ok_bind, hfirst, element_eq hcell]
  by_cases hsingle : nodes = []
  · have hsame := hlist.first_eq_last_iff.mpr hsingle
    subst hsingle
    rw [hfirst] at hsame
    rw [if_pos hsame]
    exact ⟨_, rfl, ⟨rfl, hnodup, rfl⟩, hcount'⟩
  · have hdiffer := hlist.first_eq_last_iff.not.mpr hsingle
    rw [hfirst] at hdiffer
    rw [if_neg hdiffer]
    refine ⟨_, rfl, ⟨hchain, hnodup, ?_⟩, hcount'⟩
    obtain ⟨node, rest, rfl⟩ := List.exists_cons_of_ne_nil hsingle
    exact hlist.last.trans (by rw [List.getLast?_cons_cons])

section Items

variable [DecidableEq α]

/-! ## `IsInList` -/

theorem Linked.isInList_eq (hlinked : l.Linked nodes) (item : α) :
    l.isInList item = .ok (decide (item ∈ nodes.map Prod.snd)) := by
  have hloop := hlinked.forEach_eq fun other =>
    .ok (if item = other then some () else none)
  rw [firstExit_eq_find] at hloop
  rw [isInList]
  refine (congrArg (· >>= _) hloop).trans ?_
  rw [ok_bind]
  congr 1
  rw [Bool.eq_iff_iff, List.findSome?_isSome_iff]
  simp

theorem Linked.isInList_true
    (hlinked : l.Linked nodes) (hmem : item ∈ nodes.map Prod.snd) :
    l.isInList item = .ok true := by
  rw [hlinked.isInList_eq, decide_eq_true hmem]

theorem Linked.isInList_false
    (hlinked : l.Linked nodes) (hnot : item ∉ nodes.map Prod.snd) :
    l.isInList item = .ok false := by
  rw [hlinked.isInList_eq, decide_eq_false hnot]

/-! ## Insertions -/

theorem Linked.counted
    (hlinked : l.Linked nodes) (hcount : l.numInList + 1 = nodes.length)
    (hmem : item ∈ nodes.map Prod.snd) :
    ∃ l', l.counted item = .ok l' ∧ l'.IsList nodes := by
  have hlist : ({ l with numInList := l.numInList + 1 } :
      LinkedList α).IsList nodes :=
    ⟨⟨hlinked.chain, hlinked.nodup, hlinked.last⟩, hcount⟩
  refine ⟨_, ?_, hlist⟩
  rw [LinkedList.counted]
  simp only [hlist.isInList_true hmem, ok_bind, assert_of_true]
  rfl

/-- An item is inserted into an empty list. -/
theorem IsList.counted_singleton
    (hlist : l.IsList []) (item : α) (element : ℕ) :
    ∃ l', ({ l.allocate item element with
        first := some element, last := some element } :
          LinkedList α).counted item = .ok l' ∧
      l'.IsList [(element, item)] := by
  apply (linked_singleton l item element).counted
  · simpa [LinkedList.allocate] using hlist.count
  · simp

theorem IsList.append
    (hlist : l.IsList nodes) (hnew : item ∉ nodes.map Prod.snd)
    (hfree : element ∉ l.elements) :
    ∃ l', l.append item element = .ok l' ∧
      l'.IsList (nodes ++ [(element, item)]) := by
  have hallocated := hlist.allocate hfree item
  have hcount := hlist.count
  have hfresh := hlist.fresh hfree
  rw [LinkedList.append]
  simp only [hallocated.isInList_false hnew, ok_bind, assert_of_true]
  by_cases hempty : nodes = []
  · subst hempty
    rw [if_pos (hallocated.isEmpty_iff.mpr rfl)]
    exact hlist.counted_singleton item element
  · rw [if_neg (hallocated.isEmpty_iff.not.mpr hempty)]
    obtain ⟨l', hset, hsame, hlinked⟩ := hallocated.snoc hempty
      (Finmap.lookup_insert _) hfresh
    rw [hset, ok_bind]
    apply hlinked.counted
    · simp only [hsame, LinkedList.allocate, hcount]
      simp
    · simp

theorem IsList.prepend
    (hlist : l.IsList nodes) (hnew : item ∉ nodes.map Prod.snd)
    (hfree : element ∉ l.elements) :
    ∃ l', l.prepend item element = .ok l' ∧
      l'.IsList ((element, item) :: nodes) := by
  have hallocated := hlist.allocate hfree item
  have hcount := hlist.count
  have hfresh := hlist.fresh hfree
  rw [LinkedList.prepend]
  simp only [hallocated.isInList_false hnew, ok_bind, assert_of_true]
  cases nodes with
  | nil =>
      rw [if_pos (hallocated.isEmpty_iff.mpr rfl)]
      exact hlist.counted_singleton item element
  | cons node nodes =>
      rw [if_neg (hallocated.isEmpty_iff.not.mpr (List.cons_ne_nil _ _))]
      obtain ⟨l', hset, hsame, hlinked⟩ := hallocated.push
        (Finmap.lookup_insert _) hfresh
      rw [hset, ok_bind]
      apply hlinked.counted
      · simp only [hsame, LinkedList.allocate, hcount]
        simp
      · simp

/-! ## `Remove` -/

/-- The node of an item is taken out. -/
def eraseItem (item : α) (nodes : List (ℕ × α)) : List (ℕ × α) :=
  nodes.eraseP fun node => item = node.2

theorem eraseItem_cons (item : α) (node : ℕ × α) (nodes : List (ℕ × α)) :
    eraseItem item (node :: nodes) =
      if item = node.2 then nodes else node :: eraseItem item nodes := by
  rw [eraseItem, List.eraseP_cons]
  simp [eraseItem]

theorem map_eraseItem (item : α) (nodes : List (ℕ × α)) :
    (eraseItem item nodes).map Prod.snd = (nodes.map Prod.snd).erase item := by
  induction nodes with
  | nil => rfl
  | cons node nodes ih =>
      rw [eraseItem_cons, List.map_cons, List.erase_cons]
      by_cases heq : item = node.2
      · simp [heq]
      · have hne : ¬(node.2 == item) = true := by
          simpa using Ne.symm heq
        rw [if_neg heq, if_neg hne, List.map_cons, ih]

theorem nodup_eraseItem
    (hnodup : (nodes.map Prod.fst).Nodup) (item : α) :
    ((eraseItem item nodes).map Prod.fst).Nodup :=
  hnodup.sublist (List.eraseP_sublist.map _)

/-- The loop of `Remove`, from the element behind `prev`. -/
theorem removeFrom_spec
    {prev : ℕ} {y : α} {fuel : ℕ}
    (hcell : l.elements.lookup prev = some ⟨y, p⟩)
    (hrest : Library.Segment l.elements p nodes none)
    (hnodup : (((prev, y) :: nodes).map Prod.fst).Nodup)
    (hlast : l.last = ((prev, y) :: nodes).getLast?.map Prod.fst)
    (hmem : item ∈ nodes.map Prod.snd) (hfuel : nodes.length ≤ fuel) :
    ∃ ptr l', l.removeFrom item fuel (some prev) p = .ok (some ptr, l') ∧
      l'.first = l.first ∧ l'.numInList = l.numInList - 1 ∧
      l'.last = ((prev, y) :: eraseItem item nodes).getLast?.map Prod.fst ∧
      Library.Segment l'.elements (some prev) ((prev, y) :: eraseItem item nodes)
        none ∧
      ∀ c, c ∉ ((prev, y) :: nodes).map Prod.fst →
        l'.elements.lookup c = l.elements.lookup c := by
  induction nodes generalizing prev y p fuel with
  | nil => simp at hmem
  | cons node nodes ih =>
      obtain ⟨b, z⟩ := node
      obtain ⟨rfl, next, hnode, hlater⟩ := hrest
      obtain ⟨hprev, hnodup'⟩ := List.nodup_cons.mp hnodup
      obtain ⟨hb, -⟩ := List.nodup_cons.mp hnodup'
      have hprevb : prev ≠ b := fun heq => hprev (by simp [heq])
      have hprevrest : prev ∉ nodes.map Prod.fst := fun h =>
        hprev (List.mem_cons_of_mem _ h)
      rw [List.getLast?_cons_cons] at hlast
      obtain _ | fuel := fuel
      · simp at hfuel
      rw [eraseItem_cons]
      simp only [removeFrom, element_eq hnode, ok_bind]
      by_cases heq : item = z
      · rw [if_pos heq, if_pos heq, setNext_eq hcell, ok_bind]
        rw [element_eq (Finmap.lookup_insert _), ok_bind]
        have hafter : Library.Segment
            ((l.elements.insert prev ⟨y, next⟩).erase b) next nodes none :=
          (hlater.insert_of_notMem hprevrest _).erase_of_notMem hb
        have hcell' : ((l.elements.insert prev ⟨y, next⟩).erase b).lookup prev =
            some ⟨y, next⟩ := by
          rw [Finmap.lookup_erase_ne hprevb, Finmap.lookup_insert]
        have hothers : ∀ c, c ∉ ((prev, y) :: (b, z) :: nodes).map Prod.fst →
            ((l.elements.insert prev ⟨y, next⟩).erase b).lookup c =
              l.elements.lookup c := by
          intro c hc
          simp only [List.map_cons, List.mem_cons, not_or] at hc
          rw [Finmap.lookup_erase_ne hc.2.1, Finmap.lookup_insert_of_ne _ hc.1]
        cases nodes with
        | nil =>
            obtain rfl : next = none := hlater
            exact ⟨b, _, rfl, rfl, rfl, rfl,
              ⟨rfl, _, hcell', hafter⟩, hothers⟩
        | cons node nodes =>
            obtain ⟨rfl, -⟩ := hlater
            refine ⟨b, _, rfl, rfl, rfl, ?_,
              ⟨rfl, _, hcell', hafter⟩, hothers⟩
            rw [List.getLast?_cons_cons] at hlast ⊢
            exact hlast
      · rw [if_neg heq, if_neg heq]
        have hmem' : item ∈ nodes.map Prod.snd := by
          rcases List.mem_cons.mp hmem with hhere | hthere
          · exact absurd hhere heq
          · exact hthere
        obtain ⟨ptr, l', hremove, hfirst, hcount, hlast', hchain, hothers⟩ :=
          ih hnode hlater hnodup' hlast hmem' (Nat.le_of_succ_le_succ hfuel)
        refine ⟨ptr, l', hremove, hfirst, hcount, ?_, ⟨rfl, some b, ?_, hchain⟩,
          fun c hc => hothers c fun h => hc (List.mem_cons_of_mem _ h)⟩
        · rw [List.getLast?_cons_cons]
          exact hlast'
        · rw [hothers prev hprev, hcell]

theorem IsList.remove
    (hlist : l.IsList nodes) (hnodup : (nodes.map Prod.snd).Nodup)
    (hmem : item ∈ nodes.map Prod.snd) :
    ∃ l', l.remove item = .ok l' ∧ l'.IsList (eraseItem item nodes) := by
  have hgone : item ∉ (eraseItem item nodes).map Prod.snd := by
    rw [map_eraseItem]
    exact hnodup.not_mem_erase
  rw [LinkedList.remove]
  simp only [hlist.isInList_true hmem, ok_bind, assert_of_true]
  cases nodes with
  | nil => simp at hmem
  | cons node nodes =>
      obtain ⟨a, x⟩ := node
      obtain ⟨hfirst, next, hcell, hrest⟩ := hlist.chain
      rw [eraseItem_cons] at hgone ⊢
      simp only [hfirst, element_eq hcell, ok_bind]
      by_cases heq : item = x
      · rw [if_pos heq] at hgone ⊢
        obtain ⟨l', hremove, hlist'⟩ := hlist.removeFront
        refine ⟨l', ?_, by rwa [if_pos heq]⟩
        simp only [hremove, ok_bind, assert_of_true heq,
          hlist'.isInList_false hgone, assert_of_true]
        rfl
      · rw [if_neg heq] at hgone ⊢
        have hmem' : item ∈ nodes.map Prod.snd := by
          rcases List.mem_cons.mp hmem with hhere | hthere
          · exact absurd hhere heq
          · exact hthere
        have hcard := hlist.chain.length_le_card hlist.nodup
        obtain ⟨ptr, l', hremove, hfirst', hcount, hlast, hchain, -⟩ :=
          removeFrom_spec hcell hrest hlist.nodup hlist.last hmem'
            (Nat.le_of_succ_le hcard)
        have hnodup' := nodup_eraseItem hlist.nodup item
        rw [eraseItem_cons, if_neg heq] at hnodup'
        have hlist' : l'.IsList ((a, x) :: eraseItem item nodes) := by
          refine ⟨⟨?_, hnodup', hlast⟩, ?_⟩
          · rwa [hfirst', hfirst]
          · have hlength := congrArg List.length (map_eraseItem item nodes)
            rw [List.length_map, List.length_erase_of_mem hmem',
              List.length_map] at hlength
            have hpos := List.length_pos_of_mem hmem'
            rw [List.length_map] at hpos
            rw [hcount, hlist.count, List.length_cons, List.length_cons,
              hlength]
            omega
        refine ⟨l', ?_, by rwa [if_neg heq]⟩
        simp only [hremove, ok_bind, assert_of_true (Option.some_ne_none ptr),
          hlist'.isInList_false hgone, assert_of_true]
        rfl

end Items

/-! ## `SanityCheck` -/

theorem countFrom_eq
    {fuel : ℕ} {numFound : ℤ}
    (hchain : Library.Segment l.elements (some a) ((a, x) :: nodes) none)
    (hnodup : (((a, x) :: nodes).map Prod.fst).Nodup)
    (hlast : l.last = ((a, x) :: nodes).getLast?.map Prod.fst)
    (hcount : numFound + nodes.length ≤ l.numInList)
    (hfuel : nodes.length ≤ fuel) :
    l.countFrom fuel (some a) numFound = .ok (numFound + nodes.length) := by
  induction nodes generalizing a x fuel numFound with
  | nil =>
      have hend : some a = l.last := hlast.symm
      cases fuel with
      | zero =>
          rw [countFrom, if_pos hend]
          simp [pure, Except.pure]
      | succ fuel =>
          rw [countFrom, if_pos hend]
          simp [pure, Except.pure]
  | cons node nodes ih =>
      obtain ⟨b, y⟩ := node
      obtain ⟨-, next, hcell, hrest⟩ := hchain
      obtain rfl : next = some b := hrest.1
      obtain ⟨hout, hnodup'⟩ := List.nodup_cons.mp hnodup
      rw [List.getLast?_cons_cons] at hlast
      have hnotlast : ¬some a = l.last := by
        rw [hlast]
        intro hsame
        obtain ⟨node, hnode, hfst⟩ := Option.map_eq_some_iff.mp hsame.symm
        exact hout (List.mem_map.mpr
          ⟨node, List.mem_of_getLast? hnode, hfst⟩)
      rw [List.length_cons] at hcount hfuel ⊢
      push_cast at hcount ⊢
      obtain _ | fuel := fuel
      · omega
      have hbound : numFound + 1 ≤ l.numInList := by omega
      rw [countFrom, if_neg hnotlast, assert_of_true hbound, ok_bind,
        element_eq hcell, ok_bind,
        ih hrest hnodup' hlast (by omega) (by omega)]
      congr 1
      omega

theorem Linked.element_last
    (hlinked : l.Linked (nodes ++ [(a, x)])) :
    l.element l.last = .ok ⟨x, none⟩ := by
  rw [hlinked.last_concat, element_eq (segment_concat.mp hlinked.chain).2]

theorem IsList.sanityCheck (hlist : l.IsList nodes) :
    l.sanityCheck = .ok () := by
  have hcount := hlist.count
  rw [LinkedList.sanityCheck]
  cases nodes with
  | nil =>
      have hlast : l.last = none := hlist.last
      rw [if_pos hlist.first_nil]
      exact assert_of_true ⟨hcount, hlast⟩
  | cons node nodes =>
      obtain ⟨a, x⟩ := node
      have hfirst : ¬l.first = none := by
        rw [hlist.first_cons]
        simp
      rw [if_neg hfirst]
      by_cases hsingle : nodes = []
      · rw [if_pos (hlist.first_eq_last_iff.mpr hsingle)]
        subst hsingle
        have hlast := (show l.Linked ([] ++ [(a, x)]) from
          hlist.toLinked).element_last
        rw [hlast, ok_bind]
        exact assert_of_true ⟨hcount, rfl⟩
      · rw [if_neg (hlist.first_eq_last_iff.not.mpr hsingle)]
        obtain ⟨before, ⟨b, y⟩, rfl⟩ :=
          List.eq_nil_or_concat' nodes |>.resolve_left hsingle
        have hlast := (show l.Linked (((a, x) :: before) ++ [(b, y)]) from
          hlist.toLinked).element_last
        rw [List.length_cons] at hcount
        push_cast at hcount
        have hchain := hlist.chain
        rw [hlist.first_cons] at hchain ⊢
        rw [countFrom_eq hchain hlist.nodup hlist.last (by omega) (by omega),
          ok_bind, assert_of_true (by omega), ok_bind, hlast, ok_bind]
        exact assert_of_true rfl

end LinkedList

end Nachos
