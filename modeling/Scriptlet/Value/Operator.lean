/-
  Scriptlet.Value.Operator — operators on values.

  Two integers stay integers, and a result outside their range is an error.  Any other two numbers
  are taken as doubles.  Equality never converts; order does.
-/
import Scriptlet.Ast.Expr
import Scriptlet.Number.Word
import Scriptlet.Text.ByteOrder
import Scriptlet.Value.Basic

namespace Scriptlet

open Number

/-! ## §1. Numbers -/

/-- Two numbers brought to one type. -/
inductive Operands where
  | ints (a b : Int64)
  | doubles (a b : Float)

/-- The number as a double. -/
def Value.asDouble? : Value → Option Float
  | .int n => some (doubleOfInt n.toInt)
  | .float x => some (widen x)
  | .double x => some x
  | _ => none

/-- Two values as numbers of one type. -/
def Operands.of? : Value → Value → Option Operands
  | .int a, .int b => some (.ints a b)
  | a, b => do return .doubles (← a.asDouble?) (← b.asDouble?)

/-- The word of an integer result, or the error that it is out of range. -/
def wordResult (symbol : String) (n : Int) : Except Error Value :=
  match Word.ofInt? n with
  | some w => .ok (.int w)
  | none => .error (.overflow symbol)

namespace BinaryOp

/-- Arithmetic of integers; quotients are cut toward zero and remainders have the dividend's sign.
    A remainder needs its quotient to be in range too. -/
def onInts (op : BinaryOp) (a b : Int64) : Except Error Value :=
  match op with
  | .add => wordResult op.symbol (a.toInt + b.toInt)
  | .sub => wordResult op.symbol (a.toInt - b.toInt)
  | .mul => wordResult op.symbol (a.toInt * b.toInt)
  | .div => if b == 0 then .error .divisionByZero else wordResult op.symbol (a.toInt.tdiv b.toInt)
  | .mod =>
    if b == 0 then .error .moduloByZero
    else do
      let _ ← wordResult op.symbol (a.toInt.tdiv b.toInt)
      wordResult op.symbol (a.toInt.tmod b.toInt)
  | _ => .error (.invalidOperation op .int .int)

/-- Arithmetic of doubles, of the two kinds given; there is no remainder. -/
def onDoubles (op : BinaryOp) (left right : Kind) (a b : Float) : Except Error Value :=
  match op with
  | .add => .ok (.double (a + b))
  | .sub => .ok (.double (a - b))
  | .mul => .ok (.double (a * b))
  | .div => if b == 0 then .error .divisionByZero else .ok (.double (a / b))
  | _ => .error (.invalidOperation op left right)

/-- Arithmetic: on numbers, and `+` on strings. -/
def arithmetic (op : BinaryOp) (left right : Value) : Except Error Value :=
  match op, left, right with
  | .add, .string a, .string b => .ok (.string (a ++ b))
  | _, _, _ =>
    match Operands.of? left right with
    | some (.ints a b) => op.onInts a b
    | some (.doubles a b) => op.onDoubles left.kind right.kind a b
    | none => .error (.invalidOperation op left.kind right.kind)

end BinaryOp

/-! ## §2. Order -/

/-- The order of two doubles; with a not-a-number there is none. -/
def compareDoubles (a b : Float) : Option Ordering :=
  if a < b then some .lt else if b < a then some .gt else if a == b then some .eq else none

/-- The order of two values: of numbers, truth values or strings. -/
def Value.compare (left right : Value) : Except Error (Option Ordering) :=
  match Operands.of? left right with
  | some (.ints a b) => .ok (some (Ord.compare a.toInt b.toInt))
  | some (.doubles a b) => .ok (compareDoubles a b)
  | none =>
    match left, right with
    | .bool a, .bool b => .ok (some (Ord.compare a b))
    | .string a, .string b => .ok (some (Text.compareUtf8 a b))
    | _, _ => .error (.incomparable left.kind right.kind)

/-- Whether the order is one that the comparison asks for. -/
def BinaryOp.holds (op : BinaryOp) (order : Option Ordering) : Bool :=
  match op, order with
  | .lt, some .lt => true
  | .gt, some .gt => true
  | .le, some .lt => true
  | .le, some .eq => true
  | .ge, some .gt => true
  | .ge, some .eq => true
  | _, _ => false

/-! ## §3. All operators -/

/-- Applies an operator to two values. -/
def BinaryOp.apply (op : BinaryOp) (left right : Value) : Except Error Value :=
  match op with
  | .add | .sub | .mul | .div | .mod => op.arithmetic left right
  | .eq => .ok (.bool (left.equal right))
  | .ne => .ok (.bool !(left.equal right))
  | .lt | .gt | .le | .ge => (left.compare right).map fun order => .bool (op.holds order)
  | .and =>
    match left, right with
    | .bool a, .bool b => .ok (.bool (a && b))
    | _, _ => .error (.invalidOperation op left.kind right.kind)
  | .or =>
    match left, right with
    | .bool a, .bool b => .ok (.bool (a || b))
    | _, _ => .error (.invalidOperation op left.kind right.kind)

/-- Applies an operator to one value. -/
def UnaryOp.apply (op : UnaryOp) (operand : Value) : Except Error Value :=
  match op, operand with
  | .not, .bool b => .ok (.bool !b)
  | .not, v => .error (.wrongKind "bool" v.kind)
  | .neg, .int n => wordResult op.symbol (-n.toInt)
  | .neg, .float x => .ok (.float (-x))
  | .neg, .double x => .ok (.double (-x))
  | .neg, v => .error (.wrongKind "number" v.kind)

end Scriptlet
