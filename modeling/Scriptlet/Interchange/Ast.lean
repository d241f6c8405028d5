/-
  Scriptlet.Interchange.Ast — programs as trees of data.

  Writing follows the structure of a program.  Reading refuses an unknown case, a missing field and a
  field of the wrong form; fields it does not know are ignored.  It goes down as many levels as the
  tree has, which suffices for every program written here.
-/
import Scriptlet.Ast.Stmt
import Scriptlet.Interchange.Json

namespace Scriptlet

open Json

/-! ## §1. Writing -/

/-- The tree of a type. -/
def Ty.toJson : Ty → Json
  | .int => .string "Int"
  | .float => .string "Float"
  | .double => .string "Double"
  | .bool => .string "Bool"
  | .string => .string "String"
  | .array element => tagged "Array" element.toJson
  | .dict key value => tagged "Dict" (.object [("key", key.toJson), ("value", value.toJson)])
  | .optional content => tagged "Optional" content.toJson
  | .any => .string "Any"

/-- The name of an operator's case. -/
def BinaryOp.caseName : BinaryOp → String
  | .add => "Add"
  | .sub => "Sub"
  | .mul => "Mul"
  | .div => "Div"
  | .mod => "Mod"
  | .eq => "Eq"
  | .ne => "NotEq"
  | .lt => "Lt"
  | .gt => "Gt"
  | .le => "LtEq"
  | .ge => "GtEq"
  | .and => "And"
  | .or => "Or"

/-- The name of an operator's case. -/
def UnaryOp.caseName : UnaryOp → String
  | .neg => "Neg"
  | .not => "Not"

/-- A double by its bits; an infinite one as null. -/
def doubleToJson (x : Float) : Json :=
  if x.isInf then .null else .string (hexDigits 16 x.toBits.toNat)

mutual

/-- The tree of an expression. -/
def Expr.toJson : Expr → Json
  | .nil => .string "NilLiteral"
  | .bool b => tagged "BoolLiteral" (.bool b)
  | .int n => tagged "IntLiteral" (.string (Number.Word.text n))
  | .double x => tagged "DoubleLiteral" (doubleToJson x)
  | .string s => tagged "StringLiteral" (.string s)
  | .var name => tagged "Variable" (.string name)
  | .binary op left right =>
    tagged "Binary" (.object
      [("op", .string op.caseName), ("left", left.toJson), ("right", right.toJson)])
  | .unary op operand =>
    tagged "Unary" (.object [("op", .string op.caseName), ("operand", operand.toJson)])
  | .call name args =>
    tagged "Call" (.object [("name", .string name), ("args", .array (Expr.listToJson args))])
  | .array items => tagged "ArrayLiteral" (.array (Expr.listToJson items))
  | .dict pairs => tagged "DictLiteral" (.array (Expr.pairsToJson pairs))
  | .range first last inclusive =>
    tagged "Range" (.object
      [("start", first.toJson), ("end", last.toJson), ("inclusive", .bool inclusive)])
  | .index target place =>
    tagged "Index" (.object [("target", target.toJson), ("index", place.toJson)])
  | .member target name optional =>
    tagged "Member" (.object
      [("target", target.toJson), ("name", .string name), ("optional", .bool optional)])
  | .method target name args optional =>
    tagged "MethodCall" (.object
      [("target", target.toJson), ("name", .string name),
        ("args", .array (Expr.listToJson args)), ("optional", .bool optional)])

/-- The trees of expressions. -/
def Expr.listToJson : List Expr → List Json
  | [] => []
  | e :: rest => e.toJson :: Expr.listToJson rest

/-- The trees of pairs of expressions. -/
def Expr.pairsToJson : List (Expr × Expr) → List Json
  | [] => []
  | (k, v) :: rest => .array [k.toJson, v.toJson] :: Expr.pairsToJson rest

end

/-- What may be left out, as null if it is. -/
def optionToJson {α : Type} (write : α → Json) : Option α → Json
  | none => .null
  | some a => write a

/-- The tree of a parameter. -/
def Param.toJson (p : Param) : Json :=
  .object [("name", .string p.name), ("ty", p.type.toJson),
    ("default", optionToJson Expr.toJson p.default)]

mutual

/-- The tree of a statement. -/
def Stmt.toJson : Stmt → Json
  | .declare name type value constant =>
    tagged "VarDecl" (.object
      [("name", .string name), ("ty", optionToJson Ty.toJson type), ("init", value.toJson),
        ("is_const", .bool constant)])
  | .assign name value =>
    tagged "Assignment" (.object [("name", .string name), ("value", value.toJson)])
  | .storeIndex target index value =>
    tagged "IndexAssign" (.object
      [("target", target.toJson), ("index", index.toJson), ("value", value.toJson)])
  | .storeMember target name value =>
    tagged "MemberAssign" (.object
      [("target", target.toJson), ("name", .string name), ("value", value.toJson)])
  | .print value => tagged "Print" value.toJson
  | .expr value => tagged "Expression" value.toJson
  | .ifThen condition body =>
    tagged "If" (.object
      [("condition", condition.toJson), ("then_branch", .array (Stmt.listToJson body)),
        ("else_branch", .null)])
  | .ifElse condition body otherwise =>
    tagged "If" (.object
      [("condition", condition.toJson), ("then_branch", .array (Stmt.listToJson body)),
        ("else_branch", .array (Stmt.listToJson otherwise))])
  | .loop condition body =>
    tagged "While" (.object
      [("condition", condition.toJson), ("body", .array (Stmt.listToJson body))])
  | .forIn item iterable body =>
    tagged "ForIn" (.object
      [("variable", .string item), ("iterable", iterable.toJson),
        ("body", .array (Stmt.listToJson body))])
  | .brk => .string "Break"
  | .cont => .string "Continue"
  | .func name params returns body =>
    tagged "FunctionDecl" (.object
      [("name", .string name), ("params", .array (params.map Param.toJson)),
        ("return_type", returns.toJson), ("body", .array (Stmt.listToJson body))])
  | .ret value => tagged "Return" value.toJson

/-- The trees of statements. -/
def Stmt.listToJson : List Stmt → List Json
  | [] => []
  | s :: rest => s.toJson :: Stmt.listToJson rest

end

/-- The tree of a program. -/
def Program.toJson (program : Program) : Json :=
  .object [("statements", .array (Stmt.listToJson program))]

/-! ## §2. Reading -/

/-- A type from its case, given how types one level down are read. -/
def Ty.ofCase? (read : Json → Option Ty) (name : String) (content : Json) : Option Ty :=
  match name, content with
  | "Int", .null => some .int
  | "Float", .null => some .float
  | "Double", .null => some .double
  | "Bool", .null => some .bool
  | "String", .null => some .string
  | "Any", .null => some .any
  | "Array", j => do return .array (← read j)
  | "Dict", j => do
    let key ← read (← j.field? "key")
    return .dict key (← read (← j.field? "value"))
  | "Optional", j => do return .optional (← read j)
  | _, _ => none

/-- A type from a tree of so many levels. -/
def Ty.ofJsonWithin : Nat → Json → Option Ty
  | 0, _ => none
  | levels + 1, j => do
    let (name, content) ← j.case?
    Ty.ofCase? (Ty.ofJsonWithin levels) name content

/-- A type from its tree. -/
def Ty.ofJson? (j : Json) : Option Ty := Ty.ofJsonWithin j.depth j

/-- An operator from the name of its case. -/
def BinaryOp.ofCaseName? (name : String) : Option BinaryOp :=
  [BinaryOp.add, .sub, .mul, .div, .mod, .eq, .ne, .lt, .gt, .le, .ge, .and, .or].find?
    (·.caseName == name)

/-- An operator from the name of its case. -/
def UnaryOp.ofCaseName? (name : String) : Option UnaryOp :=
  [UnaryOp.neg, .not].find? (·.caseName == name)

/-- The name of a case without content. -/
def plainCase? (j : Json) : Option String :=
  match j.case? with
  | some (name, .null) => some name
  | _ => none

/-- An operator from its tree. -/
def BinaryOp.ofJson? (j : Json) : Option BinaryOp := (plainCase? j).bind BinaryOp.ofCaseName?

/-- An operator from its tree. -/
def UnaryOp.ofJson? (j : Json) : Option UnaryOp := (plainCase? j).bind UnaryOp.ofCaseName?

/-- An integer from its decimal text. -/
def intOfJson? (j : Json) : Option Int64 := do
  Number.Decimal.word? (← j.string?).toList

/-- A double from its bits. -/
def doubleOfJson? (j : Json) : Option Float := do
  let bits ← hexNumber? (← j.string?)
  if bits < UInt64.size then some (Float.ofBits (UInt64.ofNat bits)) else none

/-- Two expressions from a list of two trees. -/
def exprPairOfJson? (read : Json → Option Expr) (j : Json) : Option (Expr × Expr) := do
  let (k, v) ← j.pair?
  return (← read k, ← read v)

/-- An expression from its case, given how expressions one level down are read. -/
def Expr.ofCase? (read : Json → Option Expr) (name : String) (j : Json) : Option Expr :=
  match name with
  | "NilLiteral" => if j matches .null then some .nil else none
  | "BoolLiteral" => do return .bool (← j.bool?)
  | "IntLiteral" => do return .int (← intOfJson? j)
  | "DoubleLiteral" => do return .double (← doubleOfJson? j)
  | "StringLiteral" => do return .string (← j.string?)
  | "Variable" => do return .var (← j.string?)
  | "Binary" => do
    let op ← BinaryOp.ofJson? (← j.field? "op")
    let left ← read (← j.field? "left")
    return .binary op left (← read (← j.field? "right"))
  | "Unary" => do
    let op ← UnaryOp.ofJson? (← j.field? "op")
    return .unary op (← read (← j.field? "operand"))
  | "Call" => do
    let name ← j.stringField? "name"
    return .call name (← (← j.itemsField? "args").mapM read)
  | "ArrayLiteral" => do return .array (← (← j.items?).mapM read)
  | "DictLiteral" => do return .dict (← (← j.items?).mapM (exprPairOfJson? read))
  | "Range" => do
    let first ← read (← j.field? "start")
    let last ← read (← j.field? "end")
    return .range first last (← j.boolField? "inclusive")
  | "Index" => do
    let target ← read (← j.field? "target")
    return .index target (← read (← j.field? "index"))
  | "Member" => do
    let target ← read (← j.field? "target")
    let name ← j.stringField? "name"
    return .member target name (← j.boolField? "optional")
  | "MethodCall" => do
    let target ← read (← j.field? "target")
    let name ← j.stringField? "name"
    let args ← (← j.itemsField? "args").mapM read
    return .method target name args (← j.boolField? "optional")
  | _ => none

/-- An expression from a tree of so many levels. -/
def Expr.ofJsonWithin : Nat → Json → Option Expr
  | 0, _ => none
  | levels + 1, j => do
    let (name, content) ← j.case?
    Expr.ofCase? (Expr.ofJsonWithin levels) name content

/-- An expression from its tree. -/
def Expr.ofJson? (j : Json) : Option Expr := Expr.ofJsonWithin j.depth j

/-- A parameter from its tree. -/
def Param.ofJson? (j : Json) : Option Param := do
  let name ← j.stringField? "name"
  let type ← Ty.ofJson? (← j.field? "ty")
  let default ← j.optionalField? "default" Expr.ofJson?
  return { name, type, default }

/-- A function from its fields, given how statements are read. -/
def Func.ofFields? (read : Json → Option Stmt) (j : Json) : Option Func := do
  let name ← j.stringField? "name"
  let params ← (← j.itemsField? "params").mapM Param.ofJson?
  let returns ← Ty.ofJson? (← j.field? "return_type")
  let body ← (← j.itemsField? "body").mapM read
  return { name, params, returns, body }

/-- A statement from its case, given how statements one level down are read. -/
def Stmt.ofCase? (read : Json → Option Stmt) (name : String) (j : Json) : Option Stmt :=
  match name with
  | "VarDecl" => do
    let name ← j.stringField? "name"
    let type ← j.optionalField? "ty" Ty.ofJson?
    let value ← Expr.ofJson? (← j.field? "init")
    return .declare name type value (← j.boolField? "is_const")
  | "Assignment" => do
    let name ← j.stringField? "name"
    return .assign name (← Expr.ofJson? (← j.field? "value"))
  | "IndexAssign" => do
    let target ← Expr.ofJson? (← j.field? "target")
    let index ← Expr.ofJson? (← j.field? "index")
    return .storeIndex target index (← Expr.ofJson? (← j.field? "value"))
  | "MemberAssign" => do
    let target ← Expr.ofJson? (← j.field? "target")
    let name ← j.stringField? "name"
    return .storeMember target name (← Expr.ofJson? (← j.field? "value"))
  | "Print" => do return .print (← Expr.ofJson? j)
  | "Expression" => do return .expr (← Expr.ofJson? j)
  | "If" => do
    let condition ← Expr.ofJson? (← j.field? "condition")
    let body ← (← j.itemsField? "then_branch").mapM read
    match ← j.optionalField? "else_branch" items? with
    | none => return .ifThen condition body
    | some otherwise => return .ifElse condition body (← otherwise.mapM read)
  | "While" => do
    let condition ← Expr.ofJson? (← j.field? "condition")
    return .loop condition (← (← j.itemsField? "body").mapM read)
  | "ForIn" => do
    let item ← j.stringField? "variable"
    let iterable ← Expr.ofJson? (← j.field? "iterable")
    return .forIn item iterable (← (← j.itemsField? "body").mapM read)
  | "Break" => if j matches .null then some .brk else none
  | "Continue" => if j matches .null then some .cont else none
  | "FunctionDecl" => do
    let f ← Func.ofFields? read j
    return .func f.name f.params f.returns f.body
  | "Return" => do return .ret (← Expr.ofJson? j)
  | _ => none

/-- A statement from a tree of so many levels. -/
def Stmt.ofJsonWithin : Nat → Json → Option Stmt
  | 0, _ => none
  | levels + 1, j => do
    let (name, content) ← j.case?
    Stmt.ofCase? (Stmt.ofJsonWithin levels) name content

/-- A statement from its tree. -/
def Stmt.ofJson? (j : Json) : Option Stmt := Stmt.ofJsonWithin j.depth j

/-- A function declaration from its tree. -/
def Func.ofJson? (j : Json) : Option Func := Func.ofFields? Stmt.ofJson? j

/-- A program from its tree. -/
def Program.ofJson? (j : Json) : Option Program := do
  (← j.itemsField? "statements").mapM Stmt.ofJson?

end Scriptlet
