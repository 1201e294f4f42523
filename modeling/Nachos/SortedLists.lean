import Nachos.Library.StableSort
import Nachos.LinkedChains

/-!
# Sorted lists

`SortedList::Insert` puts an item before the first one that is greater.  It
returns from within its loop when there is one behind the first element, and
counts the item there.
-/

namespace Nachos

open Library

namespace LinkedList

variable {α : Type} {compare : α → α → ℤ} {l : LinkedList α}
variable {nodes : List (ℕ × α)} {item x : α} {element a : ℕ} {p : Option ℕ}

/-- The node goes before the first one with a greater item. -/
def insertNode (compare : α → α → ℤ) (node : ℕ × α) (nodes : List (ℕ × α)) :
    List (ℕ × α) :=
  insertSorted (fun node other => compare node.2 other.2) node nodes

theorem insertNode_of_lt {node other : ℕ × α}
    (hlt : compare node.2 other.2 < 0) :
    insertNode compare node (other :: nodes) = node :: other :: nodes := by
  rw [insertNode, insertSorted_cons, if_pos hlt]

theorem insertNode_of_not_lt {node other : ℕ × α}
    (hnot : ¬compare node.2 other.2 < 0) :
    insertNode compare node (other :: nodes) =
      other :: insertNode compare node nodes := by
  rw [insertNode, insertSorted_cons, if_neg hnot, insertNode]

theorem exists_greater_of_cons {other : ℕ × α}
    (hgreater : ∃ node ∈ other :: nodes, compare item node.2 < 0)
    (hnot : ¬compare item other.2 < 0) :
    ∃ node ∈ nodes, compare item node.2 < 0 := by
  obtain ⟨node, hnode, hless⟩ := hgreater
  rcases List.mem_cons.mp hnode with rfl | hthere
  · exact absurd hless hnot
  · exact ⟨node, hthere, hless⟩

theorem map_insertNode (node : ℕ × α) (nodes : List (ℕ × α)) :
    (insertNode compare node nodes).map Prod.snd =
      insertSorted compare node.2 (nodes.map Prod.snd) := by
  induction nodes with
  | nil => rfl
  | cons other nodes ih =>
      rw [List.map_cons, insertSorted_cons]
      split_ifs with hlt
      · rw [insertNode_of_lt hlt]
        rfl
      · rw [insertNode_of_not_lt hlt, List.map_cons, ih]

theorem perm_insertNode (node : ℕ × α) (nodes : List (ℕ × α)) :
    (insertNode compare node nodes).Perm (node :: nodes) :=
  perm_insertSorted

theorem insertNode_of_forall_not_lt
    (hnot : ∀ other ∈ nodes, ¬compare item other.2 < 0) :
    insertNode compare (element, item) nodes = nodes ++ [(element, item)] :=
  insertSorted_of_forall_not_lt hnot

theorem getLast?_insertNode
    (hgreater : ∃ other ∈ nodes, compare item other.2 < 0) :
    (insertNode compare (element, item) nodes).getLast? =
      nodes.getLast? := by
  induction nodes with
  | nil => simp at hgreater
  | cons node nodes ih =>
      by_cases hlt : compare item node.2 < 0
      · rw [insertNode_of_lt hlt]
        exact List.getLast?_cons_cons
      · have hlater := exists_greater_of_cons hgreater hlt
        have hsame := ih hlater
        obtain ⟨first, rest, hnodes⟩ := List.exists_cons_of_ne_nil
          (show nodes ≠ [] by
            rintro rfl
            simp at hlater)
        obtain ⟨first', rest', hnodes'⟩ := List.exists_cons_of_ne_nil
          (show insertNode compare (element, item) nodes ≠ [] by
            intro hnil
            have hmem := (@perm_insertNode _ compare (element, item)
              nodes).mem_iff.mpr List.mem_cons_self
            simp [hnil] at hmem)
        rw [insertNode_of_not_lt hlt, hnodes', List.getLast?_cons_cons,
          ← hnodes', hsame, hnodes, List.getLast?_cons_cons]

/-- The loop of `Insert` comes to its end when no item is greater. -/
theorem insertFrom_none
    {fuel : ℕ}
    (hcell : l.elements.lookup a = some ⟨x, p⟩)
    (hrest : Library.Segment l.elements p nodes none)
    (hnot : ∀ node ∈ nodes, ¬compare item node.2 < 0)
    (hfuel : nodes.length < fuel) :
    l.insertFrom compare item element fuel (some a) = .ok none := by
  induction nodes generalizing a x p fuel with
  | nil =>
      obtain rfl : p = none := hrest
      obtain _ | fuel := fuel
      · simp at hfuel
      · rw [insertFrom, element_eq hcell]
        rfl
  | cons node nodes ih =>
      obtain ⟨b, y⟩ := node
      obtain ⟨rfl, next, hnode, hlater⟩ := hrest
      obtain ⟨hhere, hthere⟩ := List.forall_mem_cons.mp hnot
      obtain _ | fuel := fuel
      · simp at hfuel
      · rw [insertFrom, element_eq hcell, ok_bind,
          if_neg (Option.some_ne_none b), element_eq hnode, ok_bind,
          if_neg hhere]
        exact ih hnode hlater hthere (Nat.lt_of_succ_lt_succ hfuel)

/-- An element goes between two others. -/
theorem segment_splice
    {elements : Finmap fun _ : ℕ => ListElement α}
    (hchain : Library.Segment elements p nodes none)
    (ha : a ∉ nodes.map Prod.fst) (hne : a ≠ element)
    (hfresh : element ∉ nodes.map Prod.fst) :
    Library.Segment ((elements.insert element ⟨item, p⟩).insert a
      ⟨x, some element⟩) (some a) ((a, x) :: (element, item) :: nodes) none := by
  refine ⟨rfl, some element, Finmap.lookup_insert _, rfl, p, ?_, ?_⟩
  · rw [Finmap.lookup_insert_of_ne _ hne.symm, Finmap.lookup_insert]
  · exact (hchain.insert_of_notMem hfresh _).insert_of_notMem ha _

/-- The loop of `Insert` returns when it finds a greater item. -/
theorem insertFrom_some
    {fuel : ℕ}
    (hcell : l.elements.lookup a = some ⟨x, p⟩)
    (hrest : Library.Segment l.elements p nodes none)
    (hnodup : (((a, x) :: nodes).map Prod.fst).Nodup)
    (hnew : l.elements.lookup element = some ⟨item, none⟩)
    (hfresh : element ∉ ((a, x) :: nodes).map Prod.fst)
    (hgreater : ∃ node ∈ nodes, compare item node.2 < 0)
    (hfuel : nodes.length < fuel) :
    ∃ l', l.insertFrom compare item element fuel (some a) = .ok (some l') ∧
      l'.first = l.first ∧ l'.last = l.last ∧
      l'.numInList = l.numInList + 1 ∧
      Library.Segment l'.elements (some a)
        ((a, x) :: insertNode compare (element, item) nodes) none ∧
      ∀ c, c ≠ element → c ∉ ((a, x) :: nodes).map Prod.fst →
        l'.elements.lookup c = l.elements.lookup c := by
  induction nodes generalizing a x p fuel with
  | nil => simp at hgreater
  | cons node nodes ih =>
      obtain ⟨b, y⟩ := node
      obtain ⟨rfl, next, hnode, hlater⟩ := hrest
      obtain ⟨ha, hnodup'⟩ := List.nodup_cons.mp hnodup
      have hane : a ≠ element := by
        rintro rfl
        simp at hfresh
      have hfresh' : element ∉ ((b, y) :: nodes).map Prod.fst :=
        fun h => hfresh (List.mem_cons_of_mem _ h)
      obtain _ | fuel := fuel
      · simp at hfuel
      rw [insertFrom, element_eq hcell, ok_bind,
        if_neg (Option.some_ne_none b), element_eq hnode, ok_bind]
      by_cases hlt : compare item y < 0
      · have hcell' : (l.elements.insert element ⟨item, some b⟩).lookup a =
            some ⟨x, some b⟩ := by
          rw [Finmap.lookup_insert_of_ne _ hane, hcell]
        have hchain : Library.Segment l.elements (some b) ((b, y) :: nodes)
            none := ⟨rfl, next, hnode, hlater⟩
        rw [if_pos hlt, insertNode_of_lt hlt, setNext_eq hnew, ok_bind,
          setNext_eq hcell', ok_bind]
        refine ⟨_, rfl, rfl, rfl, rfl,
          segment_splice hchain ha hane hfresh', ?_⟩
        · intro c hc hout
          have hca : c ≠ a := by
            rintro rfl
            simp at hout
          rw [Finmap.lookup_insert_of_ne _ hca,
            Finmap.lookup_insert_of_ne _ hc]
      · have hgreater' := exists_greater_of_cons hgreater hlt
        obtain ⟨l', hinsert, hfirst, hlast, hcount, hchain, hothers⟩ :=
          ih hnode hlater hnodup' hfresh' hgreater'
            (Nat.lt_of_succ_lt_succ hfuel)
        rw [if_neg hlt, insertNode_of_not_lt hlt]
        refine ⟨l', hinsert, hfirst, hlast, hcount,
          ⟨rfl, some b, ?_, hchain⟩, ?_⟩
        · rw [hothers a hane ha, hcell]
        · intro c hc hout
          exact hothers c hc fun h => hout (List.mem_cons_of_mem _ h)

/-- The loop of `SanityCheck`, on a sorted chain. -/
theorem sortedFrom_eq
    {prev : α} {fuel : ℕ}
    (hchain : Library.Segment l.elements p nodes none) (hfuel : nodes.length ≤ fuel)
    (hsorted : (prev :: nodes.map Prod.snd).Pairwise (compare · · ≤ 0)) :
    l.sortedFrom compare fuel prev p = .ok () := by
  induction nodes generalizing p prev fuel with
  | nil =>
      obtain rfl : p = none := hchain
      cases fuel <;> rfl
  | cons node nodes ih =>
      obtain ⟨b, y⟩ := node
      obtain ⟨rfl, next, hcell, hrest⟩ := hchain
      obtain ⟨hprev, hsorted'⟩ := List.pairwise_cons.mp hsorted
      obtain _ | fuel := fuel
      · simp at hfuel
      rw [sortedFrom, element_eq hcell, ok_bind,
        assert_of_true (hprev y (by simp)), ok_bind]
      exact ih hrest (Nat.le_of_succ_le_succ hfuel) hsorted'

theorem IsList.sortedSanityCheck
    (hlist : l.IsList nodes)
    (hsorted : (nodes.map Prod.snd).Pairwise (compare · · ≤ 0)) :
    l.sortedSanityCheck compare = .ok () := by
  rw [LinkedList.sortedSanityCheck, hlist.sanityCheck, ok_bind]
  cases nodes with
  | nil =>
      have hsame : l.first = l.last := by
        rw [hlist.first_nil, hlist.last]
        rfl
      rw [if_neg (not_not.mpr hsame)]
      rfl
  | cons node nodes =>
      obtain ⟨a, x⟩ := node
      split_ifs with hdiffer
      · have hcard := hlist.chain.length_le_card hlist.nodup
        obtain ⟨hfirst, next, hcell, hrest⟩ := hlist.chain
        rw [hfirst, element_eq hcell, ok_bind]
        exact sortedFrom_eq hrest (Nat.le_of_succ_le hcard) hsorted
      · rfl

/-- `Insert` when the item belongs between two others. -/
theorem IsList.insertFrom_some
    {fuel : ℕ} (hlist : l.IsList ((a, x) :: nodes))
    (hnew : l.elements.lookup element = some ⟨item, none⟩)
    (hfresh : element ∉ ((a, x) :: nodes).map Prod.fst)
    (hgreater : ∃ node ∈ nodes, compare item node.2 < 0)
    (hfuel : nodes.length < fuel) :
    ∃ l', l.insertFrom compare item element fuel (some a) = .ok (some l') ∧
      l'.IsList ((a, x) :: insertNode compare (element, item) nodes) := by
  obtain ⟨hfirst, next, hcell, hrest⟩ := hlist.chain
  obtain ⟨l', hinsert, hfirst', hlast, hnum, hchain, -⟩ :=
    LinkedList.insertFrom_some hcell hrest hlist.nodup hnew hfresh hgreater
      hfuel
  have hperm : ((a, x) :: insertNode compare (element, item) nodes).Perm
      ((element, item) :: (a, x) :: nodes) :=
    ((perm_insertNode _ _).cons _).trans (.swap _ _ _)
  obtain ⟨first, rest, hnodes⟩ := List.exists_cons_of_ne_nil
    (show nodes ≠ [] by
      rintro rfl
      simp at hgreater)
  refine ⟨l', hinsert, ⟨?_, ?_, ?_⟩, ?_⟩
  · rwa [hfirst', hfirst]
  · exact (hperm.map Prod.fst).nodup_iff.mpr
      (List.nodup_cons.mpr ⟨hfresh, hlist.nodup⟩)
  · rw [hlast, hlist.last, List.getLast?_cons, List.getLast?_cons,
      getLast?_insertNode hgreater]
  · rw [hnum, hlist.count, hperm.length_eq]
    rfl

section Items

variable [DecidableEq α]

theorem IsList.insert
    (hlist : l.IsList nodes) (hnew : item ∉ nodes.map Prod.snd)
    (hfree : element ∉ l.elements) :
    ∃ l', l.insert compare item element = .ok l' ∧
      l'.IsList (insertNode compare (element, item) nodes) := by
  have hallocated := hlist.allocate hfree item
  have hfresh := hlist.fresh hfree
  have hcell : (l.allocate item element).elements.lookup element =
      some ⟨item, none⟩ :=
    Finmap.lookup_insert _
  rw [LinkedList.insert]
  simp only [hallocated.isInList_false hnew, ok_bind, assert_of_true]
  cases nodes with
  | nil =>
      rw [if_pos (hallocated.isEmpty_iff.mpr rfl)]
      exact hlist.counted_singleton item element
  | cons node nodes =>
      obtain ⟨a, x⟩ := node
      obtain ⟨hfirst, next, hfront, hrest⟩ := hallocated.chain
      have hcount' : (l.allocate item element).numInList + 1 =
          (((a, x) :: nodes).length + 1 : ℕ) := by
        rw [hallocated.count]
        push_cast
        rfl
      rw [if_neg (hallocated.isEmpty_iff.not.mpr (List.cons_ne_nil _ _)),
        hfirst, element_eq hfront, ok_bind]
      by_cases hlt : compare item x < 0
      · obtain ⟨l', hset, hsame, hlinked⟩ := hallocated.push hcell hfresh
        rw [if_pos hlt, insertNode_of_lt hlt, ← hfirst, hset, ok_bind]
        apply hlinked.counted
        · rw [hsame, hcount']
          rfl
        · simp
      · have hcard : nodes.length <
            (l.allocate item element).elements.keys.card :=
          hallocated.chain.length_le_card hallocated.nodup
        rw [if_neg hlt, insertNode_of_not_lt hlt]
        by_cases hgreater : ∃ node ∈ nodes, compare item node.2 < 0
        · obtain ⟨l', hinsert, hinserted⟩ :=
            hallocated.insertFrom_some hcell hfresh hgreater hcard
          rw [hinsert, ok_bind]
          exact ⟨l', rfl, hinserted⟩
        · have hnot : ∀ node ∈ nodes, ¬compare item node.2 < 0 := by
            intro node hnode hless
            exact hgreater ⟨node, hnode, hless⟩
          obtain ⟨l', hset, hsame, hlinked⟩ := hallocated.snoc
            (List.cons_ne_nil _ _) hcell hfresh
          rw [insertFrom_none hfront hrest hnot hcard, ok_bind, hset, ok_bind,
            insertNode_of_forall_not_lt hnot]
          apply hlinked.counted
          · rw [hsame, hcount']
            simp
          · simp

end Items

end LinkedList

end Nachos
