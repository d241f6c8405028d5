/-
  Scriptlet.Value.Render — the text of a value, as `print` writes it.

  Strings stand bare on their own and in quotes inside a container; an optional is written as its
  content.  A container inside itself is written `[...]`: the writer remembers the containers that
  enclose it.  It also counts down from the number of containers in the heap, which is never reached
  because the enclosing ones are distinct.
-/
import Scriptlet.Number.Decimal
import Scriptlet.Value.Heap

namespace Scriptlet

/-- An object that holds others. -/
inductive Container where
  | array (ref : ArrayRef)
  | dict (ref : DictRef)
  deriving DecidableEq, Repr

namespace Value

/-- Floating point numbers are written with six places. -/
def places : Nat := 6

/-- The text of a value, given the texts of containers. -/
def textWith (container : Container → String) (nested : Bool) : Value → String
  | .nil => "nil"
  | .bool b => if b then "true" else "false"
  | .int n => Number.Word.text n
  | .float x => Number.Decimal.fixed places (Number.readSingle x)
  | .double x => Number.Decimal.fixed places (Number.readDouble x)
  | .string s => if nested then "\"" ++ s ++ "\"" else s
  | .array ref => container (.array ref)
  | .dict ref => container (.dict ref)
  | .nothing _ => "nil"
  | .just _ content => content.textWith container nested

end Value

namespace Heap

/-- The texts of a container's parts, given the texts of values. -/
def partTexts (h : Heap) (text : Value → String) : Container → List String
  | .array ref => (h.items ref).toList.map text
  | .dict ref => (h.table ref).entries.map fun (key, v) => "\"" ++ key ++ "\": " ++ text v

/-- The text of a container inside others, at most so many levels deep. -/
def containerText (h : Heap) : Nat → List Container → Container → String
  | 0, _, _ => "[...]"
  | levels + 1, enclosing, c =>
    if c ∈ enclosing then "[...]"
    else
      let text := Value.textWith (h.containerText levels (c :: enclosing)) true
      "[" ++ ", ".intercalate (h.partTexts text c) ++ "]"

/-- How many containers there are, and one more. -/
def levels (h : Heap) : Nat := h.arrays.size + h.dicts.size + 1

/-- The text of a value. -/
def text (h : Heap) (v : Value) : String := v.textWith (h.containerText h.levels []) false

end Heap

end Scriptlet
