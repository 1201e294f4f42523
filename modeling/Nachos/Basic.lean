import Mathlib.Tactic

/-!
# Faults of the simulator process

Kernel code either returns or takes the whole simulator down.  An `ASSERT`
that fails calls `Abort`, as does an allocation of a negative size; a
dereference of `NULL` is a segmentation fault; the use of any other pointer
that is not valid has undefined behaviour; a kernel thread may also wait for
something that never happens.
-/

namespace Nachos

/-- A C string, without its terminating zero byte. -/
abbrev CString := List (BitVec 8)

inductive Fault
  | abort
  | nullDereference
  | undefinedBehaviour
  | waitsForever
  deriving DecidableEq, Repr

/-- A pointer into the heap of the kernel: `dangling` once its object has been
deleted. -/
inductive Pointer (α : Type)
  | null
  | dangling
  | object (value : α)
  deriving DecidableEq

namespace Pointer

variable {α : Type}

def isNull : Pointer α → Bool
  | .null => true
  | _ => false

def deref : Pointer α → Except Fault α
  | .null => .error .nullDereference
  | .dangling => .error .undefinedBehaviour
  | .object value => .ok value

@[simp] theorem deref_object (value : α) :
    (Pointer.object value).deref = .ok value := rfl

theorem object_of_deref {pointer : Pointer α} {value : α}
    (hderef : pointer.deref = .ok value) : pointer = .object value := by
  cases pointer with
  | null => cases hderef
  | dangling => cases hderef
  | object value' =>
      cases hderef
      rfl

end Pointer

/-- `ASSERT(condition)`. -/
def assert (condition : Prop) [Decidable condition] : Except Fault Unit :=
  if condition then .ok () else .error .abort

@[simp] theorem assert_of_true
    {condition : Prop} [Decidable condition] (h : condition) :
    assert condition = .ok () := by
  simp [assert, h]

@[simp] theorem assert_of_false
    {condition : Prop} [Decidable condition] (h : ¬condition) :
    assert condition = .error .abort := by
  simp [assert, h]

theorem ok_bind {α β : Type} (value : α) (next : α → Except Fault β) :
    Except.ok value >>= next = next value := rfl

theorem error_bind {α β : Type} (fault : Fault) (next : α → Except Fault β) :
    Except.error fault >>= next = .error fault := rfl

/-- A computation that returns has returned at each step. -/
theorem ok_of_bind
    {ε α β : Type} {first : Except ε α} {next : α → Except ε β}
    {result : β} (h : first >>= next = .ok result) :
    ∃ value, first = .ok value ∧ next value = .ok result := by
  cases first with
  | error failure => cases h
  | ok value => exact ⟨value, rfl, h⟩

/-- `divRoundUp(n, s)`. -/
def divRoundUp (n s : ℕ) : ℕ :=
  n / s + if n % s > 0 then 1 else 0

theorem le_divRoundUp_mul {n s : ℕ} (hs : 0 < s) :
    n ≤ divRoundUp n s * s := by
  have hdiv := Nat.div_add_mod n s
  have hmod := Nat.mod_lt n hs
  unfold divRoundUp
  split <;> nlinarith

end Nachos
