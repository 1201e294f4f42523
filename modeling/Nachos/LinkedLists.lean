import Nachos.Basic
import Nachos.Library.Chains

/-!
# The linked lists of `lib/list.cc`

A list is a chain of elements that are allocated when an item is put on the
list and deleted when it is taken off.  The pointers are those of the source:
an element is known by its address, and to follow a pointer to an element that
is not there is a fault.  `new` returns any address that is not in use.
-/

namespace Nachos

open Library

/-- `class ListElement`. -/
abbrev ListElement (α : Type) := Cell α

/-- `class List`, with the elements that have been allocated for it. -/
structure LinkedList (α : Type) where
  elements : Cells α
  first : Option ℕ
  last : Option ℕ
  numInList : ℤ

namespace LinkedList

variable {α β : Type}

/-- `List::List`. -/
def new : LinkedList α :=
  ⟨∅, none, none, 0⟩

/-- `*ptr`. -/
def element (l : LinkedList α) : Option ℕ → Except Fault (ListElement α)
  | none => .error .nullDereference
  | some ptr =>
      match l.elements.lookup ptr with
      | some e => .ok e
      | none => .error .undefinedBehaviour

/-- `ptr->next = next`. -/
def setNext (l : LinkedList α) (ptr next : Option ℕ) :
    Except Fault (LinkedList α) := do
  let e ← l.element ptr
  return { l with
    elements := l.elements.insert (ptr.getD 0) { e with next := next } }

/-- `new ListElement(item)`, which is at the address `element`. -/
def allocate (l : LinkedList α) (item : α) (element : ℕ) : LinkedList α :=
  { l with elements := l.elements.insert element ⟨item, none⟩ }

/-- `delete ptr`. -/
def delete (l : LinkedList α) : Option ℕ → LinkedList α
  | none => l
  | some ptr => { l with elements := l.elements.erase ptr }

/-- `List::IsEmpty`. -/
def IsEmpty (l : LinkedList α) : Prop :=
  l.numInList = 0

instance (l : LinkedList α) : Decidable l.IsEmpty :=
  inferInstanceAs (Decidable (_ = _))

/-- The loop `for (; ptr != NULL; ptr = ptr->next)` on the items, which the
body may leave with a result.  It cannot visit more elements than there are
unless it goes in a circle. -/
def loop (l : LinkedList α) (body : α → Except Fault (Option β)) :
    ℕ → Option ℕ → Except Fault (Option β)
  | _, none => return none
  | 0, some _ => .error .waitsForever
  | fuel + 1, some ptr => do
      let e ← l.element (some ptr)
      match ← body e.item with
      | some result => return some result
      | none => l.loop body fuel e.next

/-- The loop from the first element. -/
def forEach (l : LinkedList α) (body : α → Except Fault (Option β)) :
    Except Fault (Option β) :=
  l.loop body l.elements.keys.card l.first

section Items

variable [DecidableEq α]

/-- `List::IsInList`. -/
def isInList (l : LinkedList α) (item : α) : Except Fault Bool := do
  let found ← l.forEach fun other =>
    return if item = other then some () else none
  return found.isSome

/-- The end of an insertion: `numInList++` and the assertion behind it. -/
def counted (l : LinkedList α) (item : α) : Except Fault (LinkedList α) := do
  let l := { l with numInList := l.numInList + 1 }
  assert ((← l.isInList item) = true)
  return l

/-- `List::Append`. -/
def append (l : LinkedList α) (item : α) (element : ℕ) :
    Except Fault (LinkedList α) := do
  let l := l.allocate item element
  assert ((← l.isInList item) = false)
  if l.IsEmpty then
    counted { l with first := some element, last := some element } item
  else
    let l ← l.setNext l.last (some element)
    counted { l with last := some element } item

/-- `List::Prepend`. -/
def prepend (l : LinkedList α) (item : α) (element : ℕ) :
    Except Fault (LinkedList α) := do
  let l := l.allocate item element
  assert ((← l.isInList item) = false)
  if l.IsEmpty then
    counted { l with first := some element, last := some element } item
  else
    let l ← l.setNext (some element) l.first
    counted { l with first := some element } item

/-- `List::RemoveFront`. -/
def removeFront (l : LinkedList α) : Except Fault (α × LinkedList α) := do
  let element := l.first
  assert ¬l.IsEmpty
  let front ← l.element l.first
  let l ←
    if l.first = l.last then pure { l with first := none, last := none }
    else do
      let e ← l.element element
      pure { l with first := e.next }
  return (front.item, { l with numInList := l.numInList - 1 }.delete element)

/-- The loop of `Remove`, with the value of `ptr` behind it. -/
def removeFrom (l : LinkedList α) (item : α) :
    ℕ → Option ℕ → Option ℕ → Except Fault (Option ℕ × LinkedList α)
  | _, _, none => return (none, l)
  | 0, _, some _ => .error .waitsForever
  | fuel + 1, prev, some ptr => do
      let e ← l.element (some ptr)
      if item = e.item then
        let l ← l.setNext prev e.next
        let before ← l.element prev
        let l := if before.next = none then { l with last := prev } else l
        let l := l.delete (some ptr)
        return (some ptr, { l with numInList := l.numInList - 1 })
      else l.removeFrom item fuel (some ptr) e.next

/-- `List::Remove`. -/
def remove (l : LinkedList α) (item : α) : Except Fault (LinkedList α) := do
  assert ((← l.isInList item) = true)
  let front ← l.element l.first
  if item = front.item then
    let (removed, l) ← l.removeFront
    assert (item = removed)
    assert ((← l.isInList item) = false)
    return l
  else
    let (ptr, l) ← l.removeFrom item l.elements.keys.card l.first front.next
    assert (ptr ≠ none)
    assert ((← l.isInList item) = false)
    return l

end Items

/-- The loop of `SanityCheck`, with `numFound` behind it.  The assertion in it
ends it after `numInList` rounds. -/
def countFrom (l : LinkedList α) :
    ℕ → Option ℕ → ℤ → Except Fault ℤ
  | 0, ptr, numFound =>
      if ptr = l.last then return numFound else .error .abort
  | fuel + 1, ptr, numFound =>
      if ptr = l.last then return numFound
      else do
        assert (numFound + 1 ≤ l.numInList)
        let e ← l.element ptr
        l.countFrom fuel e.next (numFound + 1)

/-- `List::SanityCheck`. -/
def sanityCheck (l : LinkedList α) : Except Fault Unit :=
  if l.first = none then assert (l.numInList = 0 ∧ l.last = none)
  else if l.first = l.last then do
    let e ← l.element l.last
    assert (l.numInList = 1 ∧ e.next = none)
  else do
    let numFound ← l.countFrom l.numInList.toNat l.first 1
    assert (numFound = l.numInList)
    let e ← l.element l.last
    assert (e.next = none)

end LinkedList

/-! ## `class SortedList` -/

namespace LinkedList

variable {α : Type} [DecidableEq α]

/-- The loop of `SortedList::Insert`, with the list it returns early. -/
def insertFrom (compare : α → α → ℤ) (l : LinkedList α) (item : α)
    (element : ℕ) : ℕ → Option ℕ → Except Fault (Option (LinkedList α))
  | 0, _ => .error .waitsForever
  | fuel + 1, ptr => do
      let e ← l.element ptr
      if e.next = none then return none
      else
        let greater ← l.element e.next
        if compare item greater.item < 0 then
          let l ← l.setNext (some element) e.next
          let l ← l.setNext ptr (some element)
          return some { l with numInList := l.numInList + 1 }
        else l.insertFrom compare item element fuel e.next

/-- `SortedList::Insert`. -/
def insert (compare : α → α → ℤ) (l : LinkedList α) (item : α)
    (element : ℕ) : Except Fault (LinkedList α) := do
  let l := l.allocate item element
  assert ((← l.isInList item) = false)
  if l.IsEmpty then
    counted { l with first := some element, last := some element } item
  else
    let front ← l.element l.first
    if compare item front.item < 0 then
      let l ← l.setNext (some element) l.first
      counted { l with first := some element } item
    else
      match ← l.insertFrom compare item element l.elements.keys.card
        l.first with
      | some l => return l
      | none =>
          let l ← l.setNext l.last (some element)
          counted { l with last := some element } item

/-- The loop of `SortedList::SanityCheck`, from the item of `prev`. -/
def sortedFrom (compare : α → α → ℤ) (l : LinkedList α) :
    ℕ → α → Option ℕ → Except Fault Unit
  | _, _, none => return ()
  | 0, _, some _ => .error .waitsForever
  | fuel + 1, prev, some ptr => do
      let e ← l.element (some ptr)
      assert (compare prev e.item ≤ 0)
      l.sortedFrom compare fuel e.item e.next

/-- `SortedList::SanityCheck`. -/
def sortedSanityCheck (compare : α → α → ℤ) (l : LinkedList α) :
    Except Fault Unit := do
  l.sanityCheck
  if l.first ≠ l.last then
    let e ← l.element l.first
    l.sortedFrom compare l.elements.keys.card e.item e.next

end LinkedList

end Nachos
