/-
  Scriptlet.Number.Word — 64-bit signed integers with visible overflow.

  The script's integers are `Int64`.  Arithmetic is done on `Int` and brought back by `Word.ofInt?`,
  which refuses a result outside the range, so that no operation wraps around.
-/
import Scriptlet.Number.Binary

namespace Scriptlet.Number.Word

/-- The word of the integer, if it lies in the range of words. -/
def ofInt? (n : Int) : Option Int64 :=
  if Int64.minValue.toInt ≤ n ∧ n ≤ Int64.maxValue.toInt then some (Int64.ofInt n) else none

/-- The word nearest to the integer: the bounds of the range stand for all beyond them. -/
def clamp (n : Int) : Int64 :=
  Int64.ofInt (max Int64.minValue.toInt (min n Int64.maxValue.toInt))

/-- The number read, without its fraction part; out of range the nearest word, not a number zero. -/
def truncate : Reading → Int64
  | .nan => 0
  | .infinite negative => if negative then Int64.minValue else Int64.maxValue
  | .finite negative mantissa exponent =>
    let whole :=
      if 0 ≤ exponent then mantissa * Nat.pow 2 exponent.toNat
      else mantissa / Nat.pow 2 (-exponent).toNat
    clamp (if negative then -(whole : Int) else whole)

/-- The word in decimal. -/
def text (n : Int64) : String := toString n.toInt

end Scriptlet.Number.Word
