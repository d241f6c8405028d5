/-
  Scriptlet.Tool.Builtin — the tools that every script has: `range`, `len`, `type`, `str`, `int` and
  `float`.
-/
import Scriptlet.Text.Blank
import Scriptlet.Tool.Basic
import Scriptlet.Value.Render
import Scriptlet.Value.Sequence

namespace Scriptlet.Builtin

open Number

/-! ## §1. Collections -/

/-- An integer bound of a range. -/
def bound (v : Value) : Except Error Int64 :=
  match v with
  | .int n => .ok n
  | v => .error (.invalidArguments "range" ("expected int, got " ++ v.kind.name))

/-- The bounds of a range: `range(n)` begins at zero. -/
def rangeBounds (args : List Value) : Except Error (Int64 × Int64) :=
  match args with
  | [last] => do return (0, ← bound last)
  | [first, last] => do return (← bound first, ← bound last)
  | _ => .error (.wrongArity "range" ⟨1, 2⟩ args.length)

/-- The array of the integers of a range. -/
def range : Tool where
  name := "range"
  description := "Array of integers from start (default 0) up to, not including, end"
  arity := none
  run args := ToolRun.ofAlloc do
    let (first, last) ← rangeBounds args
    rangeCallArray first last

/-- A tool of one argument. -/
def unary (name description : String) (run : Heap → Value → Except Error Value) : Tool where
  name := name
  description := description
  arity := some 1
  run args := ToolRun.ofAlloc do
    match args with
    | [] => throw (.invalidArguments name "expected 1 argument, got none")
    | v :: _ => run (← get) v

/-- The length of a string, array or dictionary. -/
def len : Tool :=
  unary "len" "Number of characters, elements or entries" fun h v =>
    match h.length? v with
    | some n => .ok (.int (Int64.ofNat n))
    | none => .error (.invalidArguments "len" (v.kind.name ++ " has no length"))

/-! ## §2. Conversions -/

/-- The name of a value's kind. -/
def type : Tool :=
  unary "type"
    "Runtime type name: nil, bool, int, float, double, string, array, dict or optional"
    fun _ v => .ok (.string v.kind.name)

/-- The text of a value. -/
def str : Tool :=
  unary "str" "Converts a value to the string `print` would write" fun h v =>
    .ok (.string (h.text v))

/-- The integer of a number, truth value or numeral. -/
def toInt (v : Value) : Except Error Value :=
  match v with
  | .int n => .ok (.int n)
  | .float x => .ok (.int (Word.truncate (readSingle x)))
  | .double x => .ok (.int (Word.truncate (readDouble x)))
  | .bool b => .ok (.int (if b then 1 else 0))
  | .string s =>
    match Decimal.word? (Text.trim s.toList) with
    | some n => .ok (.int n)
    | none => .error (.invalidArguments "int" ("cannot parse \"" ++ s ++ "\" as int"))
  | v => .error (.wrongKind "number, bool or string" v.kind)

/-- The double of a number or numeral. -/
def toDouble (v : Value) : Except Error Value :=
  match v with
  | .int n => .ok (.double (doubleOfInt n.toInt))
  | .float x => .ok (.double (widen x))
  | .double x => .ok (.double x)
  | .string s =>
    match Decimal.double? (Text.trim s.toList) with
    | some x => .ok (.double x)
    | none => .error (.invalidArguments "float" ("cannot parse \"" ++ s ++ "\" as float"))
  | v => .error (.wrongKind "number or string" v.kind)

/-- Conversion to an integer. -/
def int : Tool :=
  unary "int" "Converts a number, bool or numeric string to int" fun _ v => toInt v

/-- Conversion to a double. -/
def float : Tool :=
  unary "float" "Converts a number or numeric string to double" fun _ v => toDouble v

/-- All builtins. -/
def toolbox : Toolbox :=
  [range, len, type, str, int, float].foldl Toolbox.register OrderedMap.empty

end Scriptlet.Builtin
