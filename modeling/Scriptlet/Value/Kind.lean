/-
  Scriptlet.Value.Kind — the kinds of values.
-/
namespace Scriptlet

/-- The kind of a value, by which operators and conversions decide. -/
inductive Kind where
  | nil | bool | int | float | double | string | array | dict | optional
  deriving DecidableEq, Repr, Inhabited

/-- The name of the kind, as scripts and messages show it. -/
def Kind.name : Kind → String
  | .nil => "nil"
  | .bool => "bool"
  | .int => "int"
  | .float => "float"
  | .double => "double"
  | .string => "string"
  | .array => "array"
  | .dict => "dict"
  | .optional => "optional"

end Scriptlet
