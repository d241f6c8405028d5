/-
  Scriptlet.Value.Basic — values.

  Numbers, truth values and strings are plain data.  Arrays and dictionaries are shared and can
  change, so a value only refers to one; their contents are in the heap.  An optional never changes,
  so it carries its content; but it is an object of its own, told from others by its identity.
-/
import Scriptlet.Ast.Ty
import Scriptlet.Error
import Scriptlet.Value.Kind

namespace Scriptlet

/-- A reference to an array. -/
structure ArrayRef where
  index : Nat
  deriving DecidableEq, Repr, Inhabited

/-- A reference to a dictionary. -/
structure DictRef where
  index : Nat
  deriving DecidableEq, Repr, Inhabited

/-- What tells one optional from another. -/
structure Identity where
  number : Nat
  deriving DecidableEq, Repr, Inhabited

/-- A value of the script language. -/
inductive Value where
  /-- No value. -/
  | nil
  /-- A truth value. -/
  | bool (b : Bool)
  /-- A 64-bit integer. -/
  | int (n : Int64)
  /-- A 32-bit floating point number. -/
  | float (x : Float32)
  /-- A 64-bit floating point number. -/
  | double (x : Float)
  /-- A string. -/
  | string (s : String)
  /-- A shared array. -/
  | array (ref : ArrayRef)
  /-- A shared dictionary. -/
  | dict (ref : DictRef)
  /-- An optional without content. -/
  | nothing (identity : Identity)
  /-- An optional with content. -/
  | just (identity : Identity) (content : Value)
  deriving DecidableEq, Repr, Inhabited

namespace Value

/-- The kind of the value. -/
def kind : Value → Kind
  | .nil => .nil
  | .bool _ => .bool
  | .int _ => .int
  | .float _ => .float
  | .double _ => .double
  | .string _ => .string
  | .array _ => .array
  | .dict _ => .dict
  | .nothing _ => .optional
  | .just _ _ => .optional

/-- The type of a binding declared with this value and without annotation. -/
def inferredType : Value → Ty
  | .nil => .any
  | .bool _ => .bool
  | .int _ => .int
  | .float _ => .float
  | .double _ => .double
  | .string _ => .string
  | .array _ => .array .any
  | .dict _ => .dict .string .any
  | .nothing _ => .optional .any
  | .just _ _ => .optional .any

/-- Whether there is nothing: `nil`, or an optional without content. -/
def isAbsent : Value → Bool
  | .nil => true
  | .nothing _ => true
  | _ => false

/-- The content of an optional, `nil` if it has none; any other value itself. -/
def unwrap : Value → Value
  | .nothing _ => .nil
  | .just _ content => content
  | v => v

/-- Whether the value is the truth value `true`; nothing else counts as true. -/
def isTrue : Value → Bool
  | .bool b => b
  | _ => false

/-- The integer that the value is. -/
def asInt : Value → Except Error Int64
  | .int n => .ok n
  | v => .error (.wrongKind "int" v.kind)

/-- The equality of scripts: values of one kind only; numbers and strings by value, arrays,
    dictionaries and optionals by being the same object. -/
def equal : Value → Value → Bool
  | .nil, .nil => true
  | .bool a, .bool b => a == b
  | .int a, .int b => a == b
  | .float a, .float b => a == b
  | .double a, .double b => a == b
  | .string a, .string b => a == b
  | .array a, .array b => a == b
  | .dict a, .dict b => a == b
  | .nothing a, .nothing b => a == b
  | .just a _, .just b _ => a == b
  | _, _ => false

end Value

end Scriptlet
