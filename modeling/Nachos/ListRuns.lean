import Nachos.Library.StepSystem
import Nachos.SortedLists

/-!
# Runs of calls on a list

Every call is made when what it asks of its caller holds: an item that is put
on the list is not on it, an item that is taken off is.
-/

namespace Nachos

open Library

variable {α : Type} [DecidableEq α]

/-! ## `class List` -/

/-- A call on a list, with the address that `new` returns in it. -/
inductive ListCall (α : Type)
  | append (item : α) (element : ℕ)
  | prepend (item : α) (element : ℕ)
  | removeFront
  | remove (item : α)

/-- A call that has returned, with the item that `RemoveFront` returned. -/
structure ListEvent (α : Type) where
  call : ListCall α
  returned : Option α

namespace ListCall

/-- What a call makes of a sequence. -/
def apply (xs : List α) : ListCall α → List α
  | .append item _ => xs ++ [item]
  | .prepend item _ => item :: xs
  | .removeFront => xs.tail
  | .remove item => xs.erase item

def returns (xs : List α) : ListCall α → Option α
  | .removeFront => xs.head?
  | .append _ _ | .prepend _ _ | .remove _ => none

/-- What a call asks for. -/
def Allowed (l : LinkedList α) (xs : List α) : ListCall α → Prop
  | .append item element | .prepend item element =>
      item ∉ xs ∧ element ∉ l.elements
  | .removeFront => xs ≠ []
  | .remove item => item ∈ xs

end ListCall

/-- The sequence that the calls of a run make. -/
def contentsAfter (trace : List (ListEvent α)) : List α :=
  trace.foldl (fun xs event => event.call.apply xs) []

theorem contentsAfter_append
    (trace : List (ListEvent α)) (event : ListEvent α) :
    contentsAfter (trace ++ [event]) =
      event.call.apply (contentsAfter trace) := by
  simp [contentsAfter]

namespace LinkedList

def listStep (l : LinkedList α) :
    ListCall α → Except Fault (LinkedList α × ListEvent α)
  | .append item element => do
      let l ← l.append item element
      return (l, ⟨.append item element, none⟩)
  | .prepend item element => do
      let l ← l.prepend item element
      return (l, ⟨.prepend item element, none⟩)
  | .removeFront => do
      let (item, l) ← l.removeFront
      return (l, ⟨.removeFront, some item⟩)
  | .remove item => do
      let l ← l.remove item
      return (l, ⟨.remove item, none⟩)

def listSystem (α : Type) [DecidableEq α] :
    StepSystem (LinkedList α) (ListCall α) (ListEvent α) Fault where
  start := .new
  step := listStep

def listAllowed (trace : List (ListEvent α)) (l : LinkedList α)
    (call : ListCall α) : Prop :=
  call.Allowed l (contentsAfter trace)

/-- The list is in order and holds the items of `xs`, each once. -/
structure Holds (l : LinkedList α) (nodes : List (ℕ × α)) (xs : List α) :
    Prop where
  isList : l.IsList nodes
  items : nodes.map Prod.snd = xs
  nodup : xs.Nodup

variable {l : LinkedList α} {nodes : List (ℕ × α)} {xs : List α}

theorem Holds.append
    (hholds : l.Holds nodes xs) {item : α} {element : ℕ}
    (hnew : item ∉ xs) (hfree : element ∉ l.elements) :
    ∃ l', l.append item element = .ok l' ∧
      l'.Holds (nodes ++ [(element, item)]) (xs ++ [item]) := by
  obtain ⟨hlist, rfl, hnodup⟩ := hholds
  obtain ⟨l', happend, hlist'⟩ := hlist.append hnew hfree
  refine ⟨l', happend, hlist', by simp, ?_⟩
  exact hnodup.append (List.nodup_singleton _) (by simpa using hnew)

theorem Holds.prepend
    (hholds : l.Holds nodes xs) {item : α} {element : ℕ}
    (hnew : item ∉ xs) (hfree : element ∉ l.elements) :
    ∃ l', l.prepend item element = .ok l' ∧
      l'.Holds ((element, item) :: nodes) (item :: xs) := by
  obtain ⟨hlist, rfl, hnodup⟩ := hholds
  obtain ⟨l', hprepend, hlist'⟩ := hlist.prepend hnew hfree
  exact ⟨l', hprepend, hlist', rfl, List.nodup_cons.mpr ⟨hnew, hnodup⟩⟩

omit [DecidableEq α] in
theorem Holds.removeFront
    {x : α} (hholds : l.Holds nodes (x :: xs)) :
    ∃ l' nodes', l.removeFront = .ok (x, l') ∧ l'.Holds nodes' xs := by
  obtain ⟨hlist, hitems, hnodup⟩ := hholds
  cases nodes with
  | nil => simp at hitems
  | cons node nodes =>
      obtain ⟨a, y⟩ := node
      obtain ⟨rfl, hrest⟩ := List.cons_eq_cons.mp hitems
      obtain ⟨l', hremove, hlist'⟩ := hlist.removeFront
      exact ⟨l', nodes, hremove, hlist', hrest, (List.nodup_cons.mp hnodup).2⟩

theorem Holds.remove
    (hholds : l.Holds nodes xs) {item : α} (hmem : item ∈ xs) :
    ∃ l' nodes', l.remove item = .ok l' ∧
      l'.Holds nodes' (xs.erase item) := by
  obtain ⟨hlist, rfl, hnodup⟩ := hholds
  obtain ⟨l', hremove, hlist'⟩ := hlist.remove hnodup hmem
  exact ⟨l', _, hremove, hlist', map_eraseItem item nodes,
    hnodup.erase item⟩

/-- An allowed call does on the list what it does on the sequence. -/
theorem Holds.listStep
    (hholds : l.Holds nodes xs) {call : ListCall α}
    (hallowed : call.Allowed l xs) :
    ∃ l' nodes', l.listStep call = .ok (l', ⟨call, call.returns xs⟩) ∧
      l'.Holds nodes' (call.apply xs) := by
  cases call with
  | append item element =>
      obtain ⟨l', happend, hholds'⟩ := hholds.append hallowed.1 hallowed.2
      refine ⟨l', _, ?_, hholds'⟩
      rw [LinkedList.listStep, happend]
      rfl
  | prepend item element =>
      obtain ⟨l', hprepend, hholds'⟩ := hholds.prepend hallowed.1 hallowed.2
      refine ⟨l', _, ?_, hholds'⟩
      rw [LinkedList.listStep, hprepend]
      rfl
  | removeFront =>
      obtain ⟨x, rest, rfl⟩ := List.exists_cons_of_ne_nil hallowed
      obtain ⟨l', nodes', hremove, hholds'⟩ := hholds.removeFront
      refine ⟨l', nodes', ?_, hholds'⟩
      rw [LinkedList.listStep, hremove]
      rfl
  | remove item =>
      obtain ⟨l', nodes', hremove, hholds'⟩ := hholds.remove hallowed
      refine ⟨l', nodes', ?_, hholds'⟩
      rw [LinkedList.listStep, hremove]
      rfl

theorem holds_of_run
    {trace : List (ListEvent α)}
    (hrun : (listSystem α).Run listAllowed trace l) :
    ∃ nodes, l.Holds nodes (contentsAfter trace) := by
  apply hrun.invariant fun trace l => ∃ nodes,
    l.Holds nodes (contentsAfter trace)
  · exact ⟨[], new_isList, rfl, List.nodup_nil⟩
  · rintro trace s s' call event - ⟨nodes, hholds⟩ hallowed hstep
    obtain ⟨l', nodes', hmove, hholds'⟩ := hholds.listStep hallowed
    obtain ⟨rfl, rfl⟩ : s' = l' ∧ event = ⟨call, _⟩ := by
      simpa using hstep.symm.trans hmove
    refine ⟨nodes', ?_⟩
    rw [contentsAfter_append]
    exact hholds'

end LinkedList

/-! ## `class SortedList` -/

/-- A call on a sorted list, with the address that `new` returns in it. -/
inductive SortedCall (α : Type)
  | insert (item : α) (element : ℕ)
  | removeFront
  | remove (item : α)

structure SortedEvent (α : Type) where
  call : SortedCall α
  returned : Option α

/-- What an event makes of the items in the order of their insertion. -/
def SortedEvent.apply (live : List α) : SortedEvent α → List α
  | ⟨.insert item _, _⟩ => live ++ [item]
  | ⟨.removeFront, returned⟩ => returned.elim live live.erase
  | ⟨.remove item, _⟩ => live.erase item

/-- The items that have been inserted and not been removed since, in the order
of their insertion. -/
def liveAfter (trace : List (SortedEvent α)) : List α :=
  trace.foldl SortedEvent.apply []

theorem liveAfter_append
    (trace : List (SortedEvent α)) (event : SortedEvent α) :
    liveAfter (trace ++ [event]) = event.apply (liveAfter trace) := by
  simp [liveAfter]

namespace SortedCall

/-- `RemoveFront` returns the least item that was inserted first. -/
def returns (compare : α → α → ℤ) (live : List α) : SortedCall α → Option α
  | .removeFront => live.find? fun y => ∀ z ∈ live, compare y z ≤ 0
  | .insert _ _ | .remove _ => none

def Allowed (l : LinkedList α) (live : List α) : SortedCall α → Prop
  | .insert item element => item ∉ live ∧ element ∉ l.elements
  | .removeFront => live ≠ []
  | .remove item => item ∈ live

end SortedCall

namespace LinkedList

def sortedStep (compare : α → α → ℤ) (l : LinkedList α) :
    SortedCall α → Except Fault (LinkedList α × SortedEvent α)
  | .insert item element => do
      let l ← l.insert compare item element
      return (l, ⟨.insert item element, none⟩)
  | .removeFront => do
      let (item, l) ← l.removeFront
      return (l, ⟨.removeFront, some item⟩)
  | .remove item => do
      let l ← l.remove item
      return (l, ⟨.remove item, none⟩)

def sortedSystem (compare : α → α → ℤ) :
    StepSystem (LinkedList α) (SortedCall α) (SortedEvent α) Fault where
  start := .new
  step := sortedStep compare

def sortedAllowed (trace : List (SortedEvent α)) (l : LinkedList α)
    (call : SortedCall α) : Prop :=
  call.Allowed l (liveAfter trace)

variable {compare : α → α → ℤ} {l : LinkedList α} {nodes : List (ℕ × α)}
variable {xs live : List α}

theorem Holds.insert
    (hholds : l.Holds nodes xs) {item : α} {element : ℕ}
    (hnew : item ∉ xs) (hfree : element ∉ l.elements) :
    ∃ l', l.insert compare item element = .ok l' ∧
      l'.Holds (insertNode compare (element, item) nodes)
        (insertSorted compare item xs) := by
  obtain ⟨hlist, rfl, hnodup⟩ := hholds
  obtain ⟨l', hinsert, hlist'⟩ := hlist.insert hnew hfree
  refine ⟨l', hinsert, hlist', map_insertNode (element, item) nodes, ?_⟩
  exact perm_insertSorted.nodup_iff.mpr (List.nodup_cons.mpr ⟨hnew, hnodup⟩)

/-- An allowed call keeps the list sorted, and items that compare equal in the
order of their insertion. -/
theorem Holds.sortedStep
    (hcompare : IsComparison compare) (hholds : l.Holds nodes xs)
    (hstably : StablySorted compare xs live) {call : SortedCall α}
    (hallowed : call.Allowed l live) :
    ∃ l' nodes' xs',
      l.sortedStep compare call =
        .ok (l', ⟨call, call.returns compare live⟩) ∧
      l'.Holds nodes' xs' ∧
      StablySorted compare xs'
        (SortedEvent.apply live ⟨call, call.returns compare live⟩) := by
  have hperm := hstably.perm hcompare
  cases call with
  | insert item element =>
      obtain ⟨hnew, hfree⟩ := hallowed
      obtain ⟨l', hinsert, hholds'⟩ := hholds.insert
        (fun hmem => hnew (hperm.mem_iff.mp hmem)) hfree
      refine ⟨l', _, _, ?_, hholds', hstably.insertSorted hcompare item⟩
      rw [LinkedList.sortedStep, hinsert]
      rfl
  | removeFront =>
      have hne : xs ≠ [] := by
        rintro rfl
        exact hallowed (List.nil_perm.mp hperm)
      obtain ⟨x, rest, rfl⟩ := List.exists_cons_of_ne_nil hne
      obtain ⟨l', nodes', hremove, hholds'⟩ := hholds.removeFront
      have hleast := hstably.find?_least hcompare
      have hstably' := hstably.erase x
      rw [List.erase_cons_head] at hstably'
      rw [SortedCall.returns, hleast]
      refine ⟨l', nodes', rest, ?_, hholds', hstably'⟩
      rw [LinkedList.sortedStep, hremove]
      rfl
  | remove item =>
      obtain ⟨l', nodes', hremove, hholds'⟩ :=
        hholds.remove (hperm.mem_iff.mpr hallowed)
      refine ⟨l', nodes', _, ?_, hholds', hstably.erase item⟩
      rw [LinkedList.sortedStep, hremove]
      rfl

theorem sorted_of_run
    (hcompare : IsComparison compare) {trace : List (SortedEvent α)}
    (hrun : (sortedSystem compare).Run sortedAllowed trace l) :
    ∃ nodes xs, l.Holds nodes xs ∧
      StablySorted compare xs (liveAfter trace) := by
  apply hrun.invariant fun trace l => ∃ nodes xs, l.Holds nodes xs ∧
    StablySorted compare xs (liveAfter trace)
  · exact ⟨[], [], ⟨new_isList, rfl, List.nodup_nil⟩, List.Pairwise.nil,
      fun _ => rfl⟩
  · rintro trace s s' call event - ⟨nodes, xs, hholds, hstably⟩ hallowed hstep
    obtain ⟨l', nodes', xs', hmove, hholds', hstably'⟩ :=
      hholds.sortedStep hcompare hstably hallowed
    obtain ⟨rfl, rfl⟩ : s' = l' ∧ event = ⟨call, _⟩ := by
      simpa using hstep.symm.trans hmove
    refine ⟨nodes', xs', hholds', ?_⟩
    rw [liveAfter_append]
    exact hstably'

/-! ## What the lists are -/

end LinkedList

end Nachos
