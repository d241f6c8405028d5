/-
  Scriptlet.Value.Coercion — conversion of values to declared types.

  A value is converted when it is bound, assigned, passed or returned.  Numbers convert to every
  number type, toward integers by dropping the fraction part; a value becomes an optional by being
  wrapped; all else must have the kind of the type.  What needs no conversion stays the same object.
-/
import Scriptlet.Number.Word
import Scriptlet.Value.Heap

namespace Scriptlet

open Number

/-- Converts a value to a type. -/
def Ty.coerce : Ty → Value → Alloc Value
  | .any, v => pure v
  | .optional _, .nil => Alloc.make Heap.newNothing
  | .optional _, .nothing i => pure (.nothing i)
  | .optional type, .just i content => do
    let converted ← type.coerce content
    if converted.equal content then pure (.just i content)
    else Alloc.make (·.newJust converted)
  | .optional type, v => do
    let converted ← type.coerce v
    Alloc.make (·.newJust converted)
  | .int, .int n => pure (.int n)
  | .int, .float x => pure (.int (Word.truncate (readSingle x)))
  | .int, .double x => pure (.int (Word.truncate (readDouble x)))
  | .float, .float x => pure (.float x)
  | .float, .int n => pure (.float (singleOfInt n.toInt))
  | .float, .double x => pure (.float (narrow x))
  | .double, .double x => pure (.double x)
  | .double, .int n => pure (.double (doubleOfInt n.toInt))
  | .double, .float x => pure (.double (widen x))
  | .bool, .bool b => pure (.bool b)
  | .string, .string s => pure (.string s)
  | .array _, .array ref => pure (.array ref)
  | .dict _ _, .dict ref => pure (.dict ref)
  | type, v => throw (.notConvertible type v.kind)

end Scriptlet
