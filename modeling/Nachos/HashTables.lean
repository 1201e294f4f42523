import Nachos.Library.CountedLoop
import Nachos.ListRuns

/-!
# The hash tables of `lib/hash.cc`

A hash table is an array of lists, one for each value of the hash function
modulo the number of lists.  When there are too many items for the lists, they
all move into an array of another size.
-/

namespace Nachos

open Library

/-- The functions that a table is constructed with. -/
structure KeyFunctions (Key α : Type) where
  getKey : α → Key
  hash : Key → BitVec 32

/-- Where `new` puts the elements of a list. -/
structure Allocator (α : Type) where
  element : Cells α → ℕ
  fresh : ∀ cells, element cells ∉ cells

/-- `class HashTable`. -/
structure HashTable (α : Type) where
  buckets : List (LinkedList α)
  numBuckets : ℕ
  numItems : ℤ

namespace HashTable

/-- `InitialBuckets`. -/
def initialBuckets : ℕ := 4

/-- `ResizeRatio`. -/
def resizeRatio : ℤ := 3

/-- `IncreaseSizeBy`. -/
def increaseSizeBy : ℕ := 4

variable {Key α : Type}

/-- `HashTable::InitBuckets`. -/
def initBuckets (table : HashTable α) (size : ℕ) : HashTable α :=
  { table with numBuckets := size, buckets := List.replicate size .new }

/-- `HashTable::HashTable`. -/
def new : HashTable α :=
  initBuckets ⟨[], 0, 0⟩ initialBuckets

/-- `buckets[i]`. -/
def bucket (table : HashTable α) (i : ℕ) : Except Fault (LinkedList α) :=
  match table.buckets[i]? with
  | some b => .ok b
  | none => .error .undefinedBehaviour

/-- `HashTable::HashValue`. -/
def hashValue (f : KeyFunctions Key α) (table : HashTable α) (key : Key) :
    Except Fault ℕ := do
  let result := (f.hash key).toNat % table.numBuckets
  assert (0 ≤ result ∧ result < table.numBuckets)
  return result

section Lookup

variable [DecidableEq Key]

/-- `HashTable::FindInBucket`. -/
def findInBucket (f : KeyFunctions Key α) (table : HashTable α) (i : ℕ)
    (key : Key) : Except Fault (Option α) := do
  let b ← table.bucket i
  b.forEach fun item => return if key = f.getKey item then some item else none

/-- `HashTable::Find`. -/
def find (f : KeyFunctions Key α) (table : HashTable α) (key : Key) :
    Except Fault (Option α) := do
  let i ← table.hashValue f key
  table.findInBucket f i key

/-- `HashTable::IsInTable`. -/
def isInTable (f : KeyFunctions Key α) (table : HashTable α) (key : Key) :
    Except Fault Bool := do
  let found ← table.find f key
  return found.isSome

end Lookup

/-- One round of the loop of `SanityCheck`. -/
def checkBucket (f : KeyFunctions Key α) (table : HashTable α) (i : ℕ)
    (numFound : ℤ) : Except Fault ℤ := do
  let b ← table.bucket i
  b.sanityCheck
  let _ ← b.forEach fun item => do
    let value ← table.hashValue f (f.getKey item)
    assert (i = value)
    return (none : Option Unit)
  return numFound + b.numInList

/-- `HashTable::SanityCheck`. -/
def sanityCheck (f : KeyFunctions Key α) (table : HashTable α) :
    Except Fault Unit := do
  let numFound ← countedLoop (table.checkBucket f) 0 table.numBuckets 0
  assert (table.numItems = numFound)

section Changes

variable [DecidableEq α]

/-- `buckets[HashValue(getKey(item))]->Append(item)`. -/
def appendToBucket (f : KeyFunctions Key α) (memory : Allocator α)
    (table : HashTable α) (item : α) : Except Fault (HashTable α) := do
  let i ← table.hashValue f (f.getKey item)
  let b ← table.bucket i
  let b ← b.append item (memory.element b.elements)
  return { table with buckets := table.buckets.set i b }

/-- The inner loop of `ReHash`: it takes one item after the other from a list,
which has as many as it counts. -/
def moveItems (f : KeyFunctions Key α) (memory : Allocator α) :
    ℕ → LinkedList α → HashTable α → Except Fault (HashTable α)
  | 0, old, table =>
      if old.IsEmpty then return table else .error .waitsForever
  | fuel + 1, old, table =>
      if old.IsEmpty then return table
      else do
        let (item, old) ← old.removeFront
        let table ← table.appendToBucket f memory item
        moveItems f memory fuel old table

/-- One round of the outer loop of `ReHash`. -/
def moveBucket (f : KeyFunctions Key α) (memory : Allocator α)
    (oldTable : HashTable α) (i : ℕ) (table : HashTable α) :
    Except Fault (HashTable α) := do
  let old ← oldTable.bucket i
  moveItems f memory old.numInList.toNat old table

/-- `HashTable::ReHash`. -/
def reHash (f : KeyFunctions Key α) (memory : Allocator α)
    (table : HashTable α) : Except Fault (HashTable α) := do
  let oldTable := table
  table.sanityCheck f
  let table ← countedLoop (oldTable.moveBucket f memory) 0 oldTable.numBuckets
    (table.initBuckets (table.numBuckets * increaseSizeBy))
  table.sanityCheck f
  return table

/-- The resizing in `Insert`. -/
def makeRoom (f : KeyFunctions Key α) (memory : Allocator α)
    (table : HashTable α) : Except Fault (HashTable α) :=
  if table.numItems.tdiv table.numBuckets ≥ resizeRatio then
    table.reHash f memory
  else .ok table

variable [DecidableEq Key]

/-- `HashTable::Insert`. -/
def insert (f : KeyFunctions Key α) (memory : Allocator α)
    (table : HashTable α) (item : α) : Except Fault (HashTable α) := do
  let key := f.getKey item
  assert ((← table.isInTable f key) = false)
  let table ← table.makeRoom f memory
  let table ← table.appendToBucket f memory item
  let table := { table with numItems := table.numItems + 1 }
  assert ((← table.isInTable f key) = true)
  return table

/-- `HashTable::Remove`. -/
def remove (f : KeyFunctions Key α) (table : HashTable α) (key : Key) :
    Except Fault (α × HashTable α) := do
  let i ← table.hashValue f key
  match ← table.findInBucket f i key with
  | none => .error .abort
  | some item =>
      let b ← table.bucket i
      let b ← b.remove item
      let table := { table with
        buckets := table.buckets.set i b
        numItems := table.numItems - 1 }
      assert ((← table.isInTable f key) = false)
      return (item, table)

end Changes

/-- The loop of `FindNextFullBucket`, with `remaining` buckets to go. -/
def findFullFrom (table : HashTable α) : ℕ → ℕ → Except Fault ℕ
  | i, 0 => return i
  | i, remaining + 1 => do
      let b ← table.bucket i
      if b.IsEmpty then table.findFullFrom (i + 1) remaining else return i

/-- `HashTable::FindNextFullBucket`. -/
def findNextFullBucket (table : HashTable α) (i : ℕ) : Except Fault ℕ :=
  table.findFullFrom i (table.numBuckets - i)

end HashTable

/-- `class HashIterator`, with the `current` of `bucketIter` unless that is
`NULL`. -/
structure HashIterator where
  bucket : ℕ
  bucketIter : Option (Option ℕ)
  deriving DecidableEq

namespace HashIterator

variable {α : Type}

/-- The iterator at the first item from bucket `i` on. -/
def enter (table : HashTable α) (i : ℕ) : Except Fault HashIterator := do
  let bucket ← table.findNextFullBucket i
  if bucket < table.numBuckets then
    let b ← table.bucket bucket
    return ⟨bucket, some b.first⟩
  else return ⟨bucket, none⟩

/-- `HashIterator::HashIterator`. -/
def new (table : HashTable α) : Except Fault HashIterator :=
  enter table 0

/-- `HashIterator::IsDone`. -/
def IsDone (iterator : HashIterator) (table : HashTable α) : Prop :=
  iterator.bucket = table.numBuckets

instance (iterator : HashIterator) (table : HashTable α) :
    Decidable (iterator.IsDone table) :=
  inferInstanceAs (Decidable (_ = _))

/-- `HashIterator::Item`. -/
def item (iterator : HashIterator) (table : HashTable α) : Except Fault α := do
  assert ¬iterator.IsDone table
  match iterator.bucketIter with
  | none => .error .nullDereference
  | some current =>
      assert (current ≠ none)
      let b ← table.bucket iterator.bucket
      let e ← b.element current
      return e.item

/-- `HashIterator::Next`. -/
def next (iterator : HashIterator) (table : HashTable α) :
    Except Fault HashIterator := do
  match iterator.bucketIter with
  | none => .error .nullDereference
  | some current =>
      let b ← table.bucket iterator.bucket
      let e ← b.element current
      if e.next = none then enter table (iterator.bucket + 1)
      else return { iterator with bucketIter := some e.next }

/-- The loop `for (; !iter->IsDone(); iter->Next())`, with the items it sees,
for at most `rounds` rounds. -/
def walk (table : HashTable α) :
    ℕ → HashIterator → Except Fault (List α × HashIterator)
  | 0, iterator => return ([], iterator)
  | rounds + 1, iterator =>
      if iterator.IsDone table then return ([], iterator)
      else do
        let item ← iterator.item table
        let iterator ← iterator.next table
        let (items, last) ← walk table rounds iterator
        return (item :: items, last)

end HashIterator

end Nachos
