/-
  Scriptlet.Text.Blank — the Unicode property White_Space, and trimming by it.
-/
import Scriptlet.Text.CodeRange

namespace Scriptlet.Text

/-- The code points that have the property White_Space, in ascending order. -/
def blankRanges : Array CodeRange := #[
    (0x9, 0xD), (0x20, 0x20), (0x85, 0x85), (0xA0, 0xA0), (0x1680, 0x1680), (0x2000, 0x200A),
    (0x2028, 0x2029), (0x202F, 0x202F), (0x205F, 0x205F), (0x3000, 0x3000)]

/-- Whether the character has the property White_Space. -/
def isBlank (c : Char) : Bool := CodeRange.covers blankRanges c

/-- The text without the blanks at its two ends. -/
def trim (cs : List Char) : List Char :=
  ((cs.dropWhile isBlank).reverse.dropWhile isBlank).reverse

end Scriptlet.Text
