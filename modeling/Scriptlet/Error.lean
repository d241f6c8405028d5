/-
  Scriptlet.Error — what can go wrong, how bad it is, and how it is told.

  An error is a cause with its data.  `Error.message` is the only place that words it, and
  `Error.severity` says whether nothing runs at all (the text is no program) or one statement is
  given up.
-/
import Scriptlet.Ast.Stmt
import Scriptlet.Number.Word
import Scriptlet.Value.Kind

namespace Scriptlet

/-- The two jumps that belong inside a loop. -/
inductive Jump where
  | brk | cont
  deriving DecidableEq, Repr, Inhabited

/-- The keyword of the jump. -/
def Jump.keyword : Jump → String
  | .brk => "break"
  | .cont => "continue"

/-- An undertaking for which memory may not suffice. -/
inductive Undertaking where
  /-- A range expression whose elements are all needed at once. -/
  | rangeExpression (first last : Int64)
  /-- A call of the range builtin. -/
  | rangeCall (first last : Int64)
  deriving DecidableEq, Repr, Inhabited

/-- The undertaking in words. -/
def Undertaking.text : Undertaking → String
  | .rangeExpression a b =>
    "materializing range " ++ Number.Word.text a ++ ".." ++ Number.Word.text b
  | .rangeCall a b =>
    "building range(" ++ Number.Word.text a ++ ", " ++ Number.Word.text b ++ ")"

/-- What went wrong. -/
inductive Error where
  /-- The text is malformed at a position. -/
  | malformed (line column : Nat) (reason : String)
  /-- The text ends inside a construct. -/
  | unexpectedEnd (expected : String)
  /-- A numeric literal that stands for no number of its type. -/
  | invalidNumber (literal : String)
  /-- An annotation that names no type. -/
  | unknownType (name : String)
  /-- A variable that no visible scope binds. -/
  | undefinedVariable (name : String)
  /-- A call of a name that nothing defines. -/
  | undefinedFunction (name : String)
  /-- A value of the wrong kind. -/
  | wrongKind (expected : String) (got : Kind)
  /-- A value that cannot be converted to a declared type. -/
  | notConvertible (target : Ty) (got : Kind)
  /-- An operator that its operands do not support. -/
  | invalidOperation (op : BinaryOp) (left right : Kind)
  /-- An order between values that have none. -/
  | incomparable (left right : Kind)
  /-- An assignment to a constant. -/
  | constantReassigned (name : String)
  /-- A second declaration of a name in one scope. -/
  | redeclared (name : String)
  /-- A second declaration of a function. -/
  | functionRedefined (name : String)
  /-- A division by zero. -/
  | divisionByZero
  /-- A remainder by zero. -/
  | moduloByZero
  /-- An integer result outside the range, with the operator's symbol. -/
  | overflow (symbol : String)
  /-- An index outside a string, or a store outside an array. -/
  | indexOutOfBounds (index : Int64) (length : Nat)
  /-- An index on a value that has none. -/
  | notIndexable (kind : Kind)
  /-- A member that the value does not have. -/
  | unsupportedMember (member : String) (kind : Kind)
  /-- A call with the wrong number of arguments. -/
  | wrongArity (name : String) (expected : Arity) (got : Nat)
  /-- A function whose body ended without `return`. -/
  | missingReturn (name : String)
  /-- Arguments that a builtin refuses. -/
  | invalidArguments (tool : String) (reason : String)
  /-- A `break` or `continue` outside a loop. -/
  | outsideLoop (jump : Jump)
  /-- A `return` outside a function. -/
  | outsideFunction
  /-- More nested calls than the settings allow. -/
  | callDepthExceeded (limit : Nat)
  /-- A module's export used in a way it does not support, or a failed resolution. -/
  | moduleFailure (name : String) (reason : String)
  /-- Not enough memory. -/
  | outOfMemory (undertaking : Undertaking)
  deriving DecidableEq, Repr, Inhabited

/-- How bad an error is. -/
inductive Severity where
  /-- Nothing is run. -/
  | fatal
  /-- One statement is given up. -/
  | recoverable
  deriving DecidableEq, Repr, Inhabited

namespace Error

/-- The error in words. -/
def message : Error → String
  | malformed line column reason =>
    s!"Syntax error at line {line}, column {column}: {reason}"
  | unexpectedEnd expected => s!"Unexpected end of input: expected {expected}"
  | invalidNumber literal => s!"Invalid number literal: {literal}"
  | unknownType name => s!"Unknown type: {name}"
  | undefinedVariable name => s!"Undefined variable: {name}"
  | undefinedFunction name => s!"Undefined function: {name}"
  | wrongKind expected got => s!"Type error: expected {expected}, got {got.name}"
  | notConvertible target got =>
    s!"Type mismatch: cannot convert {got.name} to {target.text}"
  | invalidOperation op left right =>
    s!"Invalid operation: {op.symbol} on types {left.name} and {right.name}"
  | incomparable left right =>
    s!"Cannot compare different types: {left.name} and {right.name}"
  | constantReassigned name => s!"Cannot reassign constant: {name}"
  | redeclared name => s!"Variable '{name}' is already declared in this scope"
  | functionRedefined name => s!"Function '{name}' is already defined"
  | divisionByZero => "Division by zero"
  | moduloByZero => "Modulo by zero"
  | overflow symbol => s!"Integer overflow in {symbol}"
  | indexOutOfBounds index length =>
    s!"Index out of bounds: {Number.Word.text index} for length {length}"
  | notIndexable kind => s!"Value of type {kind.name} cannot be indexed"
  | unsupportedMember member kind => s!"Unsupported member '{member}' on type {kind.name}"
  | wrongArity name expected got =>
    s!"Function '{name}' expects {expected.text} arguments, got {got}"
  | missingReturn name => s!"Function '{name}' ended without return"
  | invalidArguments tool reason => s!"Invalid arguments for {tool}: {reason}"
  | outsideLoop jump => s!"'{jump.keyword}' used outside of a loop"
  | outsideFunction => "'return' used outside of a function"
  | callDepthExceeded limit => s!"Maximum call depth exceeded (limit: {limit})"
  | moduleFailure name reason => s!"Module error for '{name}': {reason}"
  | outOfMemory undertaking => s!"Out of memory while {undertaking.text}"

/-- A text that is no program is fatal; everything else concerns one statement. -/
def severity : Error → Severity
  | malformed .. | unexpectedEnd .. | invalidNumber .. | unknownType .. => .fatal
  | _ => .recoverable

end Error

end Scriptlet
