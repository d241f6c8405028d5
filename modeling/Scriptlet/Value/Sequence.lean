/-
  Scriptlet.Value.Sequence — runs of integers, whole or one at a time.

  A loop visits a range one element after the other, however long it is; as a value a range becomes
  an array, and is refused if that array cannot exist.
-/
import Scriptlet.Number.Word
import Scriptlet.Value.Heap

namespace Scriptlet

/-- The integers from the first on, so many of them. -/
structure Progression where
  first : Int64
  count : Nat
  deriving DecidableEq, Repr, Inhabited

namespace Progression

/-- The integers from `first` up to `last`, which is the last one if `inclusive` and the first one
    left out otherwise. -/
def between (first last : Int64) (inclusive : Bool) : Progression :=
  ⟨first, (last.toInt - first.toInt + if inclusive then 1 else 0).toNat⟩

/-- The `k`-th element. -/
def item (p : Progression) (k : Nat) : Value := .int (Int64.ofInt (p.first.toInt + k))

/-- All elements in order. -/
def toList (p : Progression) : List Value := (List.range p.count).map p.item

/-- The most elements that an array can have: an element takes 24 bytes, and an array no more than
    `2 ^ 63 - 1`. -/
def capacity : Nat := (Nat.pow 2 63 - 1) / 24

/-- An array of the elements, after room for `request` elements has been set aside. -/
def toArray (p : Progression) (request : Nat) (undertaking : Undertaking) : Alloc Value := do
  if capacity < request then throw (.outOfMemory undertaking)
  Alloc.make (·.newArray p.toList.toArray)

end Progression

/-- What a loop visits. -/
inductive Sequence where
  /-- Consecutive integers. -/
  | ints (run : Progression)
  /-- Values in order. -/
  | values (items : List Value)

/-- The visited values in order. -/
def Sequence.toList : Sequence → List Value
  | .ints run => run.toList
  | .values items => items

/-- The room that a range expression asks for: its length, which may be more than a size can say. -/
def rangeRequest (first last : Int64) (inclusive : Bool) : Nat :=
  let span := last.toInt - first.toInt + if inclusive then 1 else 0
  min span.toNat (UInt64.size - 1)

/-- The array of a range expression. -/
def rangeArray (first last : Int64) (inclusive : Bool) : Alloc Value :=
  (Progression.between first last inclusive).toArray (rangeRequest first last inclusive)
    (.rangeExpression first last)

/-- The room that a call of the range builtin asks for: the difference as a word, the nearest one if
    it is out of range, and none if it is negative. -/
def rangeCallRequest (first last : Int64) : Nat :=
  (Number.Word.clamp (last.toInt - first.toInt)).toInt.toNat

/-- The array of a call of the range builtin. -/
def rangeCallArray (first last : Int64) : Alloc Value :=
  (Progression.between first last false).toArray (rangeCallRequest first last)
    (.rangeCall first last)

end Scriptlet
