/-
  Scriptlet.Ast.Stmt — statements, function declarations and programs.
-/
import Scriptlet.Ast.Expr
import Scriptlet.Ast.Ty

namespace Scriptlet

/-- A parameter of a function; one with a default may be left out of a call. -/
structure Param where
  name : String
  type : Ty
  default : Option Expr
  deriving Repr, Inhabited

/-- Statements. -/
inductive Stmt where
  /-- A declaration: `let x: T = e`, `var x = e` or `const x = e`. -/
  | declare (name : String) (type : Option Ty) (value : Expr) (constant : Bool)
  /-- An assignment: `x = e`. -/
  | assign (name : String) (value : Expr)
  /-- A store at an index: `target[index] = e`. -/
  | storeIndex (target index value : Expr)
  /-- A store at a member: `target.name = e`. -/
  | storeMember (target : Expr) (name : String) (value : Expr)
  /-- Output: `print(e)`. -/
  | print (value : Expr)
  /-- An expression evaluated for its effects. -/
  | expr (value : Expr)
  /-- A condition: `if c { … }`. -/
  | ifThen (condition : Expr) (body : List Stmt)
  /-- A choice: `if c { … } else { … }`. -/
  | ifElse (condition : Expr) (body otherwise : List Stmt)
  /-- A loop while a condition holds: `while c { … }`. -/
  | loop (condition : Expr) (body : List Stmt)
  /-- A loop over a sequence: `for x in e { … }`. -/
  | forIn (item : String) (iterable : Expr) (body : List Stmt)
  /-- The statement `break`. -/
  | brk
  /-- The statement `continue`. -/
  | cont
  /-- A function: `func f(params) -> T { … }`. -/
  | func (name : String) (params : List Param) (returns : Ty) (body : List Stmt)
  /-- A return: `return e`; a bare `return` gives `nil`. -/
  | ret (value : Expr)
  deriving Repr, Inhabited

/-- The kind of the statement, as the trace names it. -/
def Stmt.kind : Stmt → String
  | .declare .. => "var_decl"
  | .assign .. => "assignment"
  | .storeIndex .. => "index_assign"
  | .storeMember .. => "member_assign"
  | .print .. => "print"
  | .expr .. => "expression"
  | .ifThen .. => "if"
  | .ifElse .. => "if"
  | .loop .. => "while"
  | .forIn .. => "for_in"
  | .brk => "break"
  | .cont => "continue"
  | .func .. => "function_decl"
  | .ret .. => "return"

/-- How many arguments a call may have. -/
structure Arity where
  least : Nat
  most : Nat
  deriving DecidableEq, Repr, Inhabited

namespace Arity

/-- Exactly `n` arguments. -/
def exactly (n : Nat) : Arity := ⟨n, n⟩

/-- Whether a call with `n` arguments is accepted. -/
def accepts (a : Arity) (n : Nat) : Bool := a.least ≤ n && n ≤ a.most

/-- The accepted count, as error messages give it. -/
def text (a : Arity) : String :=
  if a.least = a.most then toString a.least else toString a.least ++ " to " ++ toString a.most

end Arity

/-- A function that a script or a module declares. -/
structure Func where
  name : String
  params : List Param
  returns : Ty
  body : List Stmt
  deriving Repr, Inhabited

/-- The accepted number of arguments: parameters with a default may be left out. -/
def Func.arity (f : Func) : Arity :=
  ⟨(f.params.filter fun p => p.default.isNone).length, f.params.length⟩

/-- A program: its statements at the top level. -/
abbrev Program := List Stmt

end Scriptlet
