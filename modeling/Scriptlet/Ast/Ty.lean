/-
  Scriptlet.Ast.Ty — declared types.

  A type stands on a declaration, a parameter or a function's result, and says to what a value is
  converted when it is bound there.  `any` is not written in scripts: it arises for declarations
  without annotation, for the parts that a single value does not show.
-/
namespace Scriptlet

/-- A declared type. -/
inductive Ty where
  /-- Signed integers of 64 bits. -/
  | int
  /-- Floating point numbers of 32 bits. -/
  | float
  /-- Floating point numbers of 64 bits. -/
  | double
  /-- Truth values. -/
  | bool
  /-- Strings. -/
  | string
  /-- Arrays, written `[T]`. -/
  | array (element : Ty)
  /-- Dictionaries, written `[K: V]`. -/
  | dict (key value : Ty)
  /-- Optionals, written `T?`. -/
  | optional (content : Ty)
  /-- Any value, unchanged. -/
  | any
  deriving DecidableEq, Repr, Inhabited

namespace Ty

/-- The type a script names by a single word. -/
def ofName? : String → Option Ty
  | "Int" => some .int
  | "Float" => some .float
  | "Double" => some .double
  | "Bool" => some .bool
  | "String" => some .string
  | _ => none

/-- Whether values of the type are numbers. -/
def isNumeric : Ty → Bool
  | .int | .float | .double => true
  | _ => false

/-- The type as a script writes it. -/
def text : Ty → String
  | .int => "Int"
  | .float => "Float"
  | .double => "Double"
  | .bool => "Bool"
  | .string => "String"
  | .array element => "[" ++ element.text ++ "]"
  | .dict key value => "[" ++ key.text ++ ": " ++ value.text ++ "]"
  | .optional content => content.text ++ "?"
  | .any => "Any"

end Ty

end Scriptlet
