/-
  Scriptlet.Ast.Expr — expressions.
-/
namespace Scriptlet

/-- Operators between two operands. -/
inductive BinaryOp where
  | add | sub | mul | div | mod
  | eq | ne | lt | gt | le | ge
  | and | or
  deriving DecidableEq, Repr, Inhabited

/-- The operator as a script writes it. -/
def BinaryOp.symbol : BinaryOp → String
  | .add => "+"
  | .sub => "-"
  | .mul => "*"
  | .div => "/"
  | .mod => "%"
  | .eq => "=="
  | .ne => "!="
  | .lt => "<"
  | .gt => ">"
  | .le => "<="
  | .ge => ">="
  | .and => "&&"
  | .or => "||"

/-- Operators before one operand. -/
inductive UnaryOp where
  | neg | not
  deriving DecidableEq, Repr, Inhabited

/-- The operator as a script writes it. -/
def UnaryOp.symbol : UnaryOp → String
  | .neg => "-"
  | .not => "!"

/-- Expressions. -/
inductive Expr where
  /-- The literal `nil`. -/
  | nil
  /-- The literals `true` and `false`. -/
  | bool (value : Bool)
  /-- An integer literal. -/
  | int (value : Int64)
  /-- A literal with a decimal point. -/
  | double (value : Float)
  /-- A string literal, its escapes resolved. -/
  | string (value : String)
  /-- A variable. -/
  | var (name : String)
  /-- Two operands and the operator between them. -/
  | binary (op : BinaryOp) (left right : Expr)
  /-- An operand and the operator before it. -/
  | unary (op : UnaryOp) (operand : Expr)
  /-- A call by name. -/
  | call (name : String) (args : List Expr)
  /-- An array: `[a, b, c]`. -/
  | array (items : List Expr)
  /-- A dictionary: `[k: v, l: w]`. -/
  | dict (pairs : List (Expr × Expr))
  /-- A range: `a..b`, with `b` among the elements, or `a..<b`, without it. -/
  | range (first last : Expr) (inclusive : Bool)
  /-- An index: `target[index]`. -/
  | index (target index : Expr)
  /-- A member: `target.name`, or with `optional` `target?.name`. -/
  | member (target : Expr) (name : String) (optional : Bool)
  /-- A method call: `target.name(args)`, or with `optional` `target?.name(args)`. -/
  | method (target : Expr) (name : String) (args : List Expr) (optional : Bool)
  deriving Repr, Inhabited

end Scriptlet
