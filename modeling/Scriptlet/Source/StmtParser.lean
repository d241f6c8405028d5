/-
  Scriptlet.Source.StmtParser — statements and programs.

  Statements end at a line end, a semicolon, a closing brace or the end of the text.  A block goes
  one level down, so the recursion of the grammar is the recursion of `block` on the levels left; a
  chain of `else if` stays on its level and is read by repetition.
-/
import Scriptlet.Source.ExprParser
import Scriptlet.Source.TyParser

namespace Scriptlet.Parser

/-! ## §1. Ends of statements -/

/-- Whether a statement may end at this character. -/
def endsStatement (c : Char) : Bool := c == '\n' || c == ';' || c == '}'

/-- Makes sure that a statement ends here. -/
def terminator : Parser Unit := do
  gap .inline
  let c ← get
  unless endsStatement c.peek || c.atEnd do unexpected "end of statement"

/-! ## §2. Statements without blocks -/

/-- The rest of a declaration. -/
def declaration (levels : Nat) (constant : Bool) : Parser Stmt := do
  let name ← name .inline "a variable name"
  gap .inline
  let type ← if ← accept ':' then some <$> ty levels .inline else pure none
  expect .inline '='
  return .declare name type (← expr levels .inline) constant

/-- The rest of a `return`; nothing after it stands for `nil`. -/
def returned (levels : Nat) : Parser Stmt := do
  gap .inline
  let c ← get
  if c.atEnd || endsStatement c.peek then return .ret .nil
  else return .ret (← expr levels .inline)

/-- The cursor after `print` and an opening bracket, if both stand here. -/
def printCall? (c : Cursor) : Option Cursor := do
  let c ← c.acceptKeyword? "print"
  (c.skip .inline).accept? '('

/-- The store that an assignment to this expression is. -/
def storeTo? (target value : Expr) : Option Stmt :=
  match target with
  | .var name => some (.assign name value)
  | .index target index => some (.storeIndex target index value)
  | .member target name false => some (.storeMember target name value)
  | _ => none

/-- An expression, or an assignment to it. -/
def storeOrExpr (levels : Nat) : Parser Stmt := do
  let target ← expr levels .inline
  gap .inline
  let c ← get
  if c.peek == '=' && c.peekAt 1 != '=' then
    advance
    let value ← expr levels .inline
    match storeTo? target value with
    | some stmt => return stmt
    | none => throw (c.malformed "invalid assignment target")
  else return .expr target

/-! ## §3. Statements with blocks -/

/-- What follows the block of an `if`. -/
inductive AfterIf where
  /-- An `else if`. -/
  | elseIf
  /-- An `else` and its block. -/
  | otherwise (body : List Stmt)
  /-- Nothing that belongs to it. -/
  | nothing

/-- What follows the block of an `if`; without an `else` nothing is taken. -/
def afterIf (block : Parser (List Stmt)) : Parser AfterIf := do
  let before ← get
  gap .lines
  if ← acceptKeyword "else" then
    gap .inline
    if ← acceptKeyword "if" then return .elseIf
    else return .otherwise (← block)
  else
    set before
    return .nothing

/-- The statement of a chain of conditions with their blocks, last first, around its last part. -/
def nestIfs (last : Stmt) (before : List (Expr × List Stmt)) : Stmt :=
  before.foldl (fun inner guard => .ifElse guard.1 guard.2 [inner]) last

/-- The rest of an `if`, with all the `else if` that follow. -/
def conditional (levels : Nat) (block : Parser (List Stmt)) : Parser Stmt :=
  iterate step []
where
  /-- One condition with its block, given those before it, last first. -/
  step (before : List (Expr × List Stmt)) : Parser (Round (List (Expr × List Stmt)) Stmt) := do
    let condition ← expr levels .inline
    let body ← block
    match ← afterIf block with
    | .elseIf => return .again ((condition, body) :: before)
    | .otherwise other => return .done (nestIfs (.ifElse condition body other) before)
    | .nothing => return .done (nestIfs (.ifThen condition body) before)

/-- The rest of a `while`. -/
def whileLoop (levels : Nat) (block : Parser (List Stmt)) : Parser Stmt := do
  let condition ← expr levels .inline
  return .loop condition (← block)

/-- The rest of a `for`. -/
def forLoop (levels : Nat) (block : Parser (List Stmt)) : Parser Stmt := do
  let item ← name .inline "a loop variable"
  gap .inline
  unless ← acceptKeyword "in" do unexpected "'in'"
  let iterable ← expr levels .inline
  return .forIn item iterable (← block)

/-- A parameter; once one has a default, all that follow need one. -/
def param (levels : Nat) (before : List Param) : Parser Param := do
  let name ← name .lines "a parameter name"
  expect .lines ':'
  let type ← ty levels .lines
  gap .lines
  let default ← if ← accept '=' then some <$> expr levels .lines else pure none
  if default.isNone && before.any fun p => p.default.isSome then
    fail ("parameter '" ++ name ++ "' without a default follows a defaulted parameter")
  return { name, type, default }

/-- Parameters after the opening bracket, through the closing one. -/
def params (levels : Nat) : Parser (List Param) := do
  gap .lines
  if ← accept ')' then return []
  iterate step []
where
  /-- One parameter, given those before it, last first. -/
  step (before : List Param) : Parser (Round (List Param) (List Param)) := do
    let all := (← param levels before) :: before
    gap .lines
    if ← accept ')' then return .done all.reverse
    expect .lines ','
    return .again all

/-- The rest of a function declaration. -/
def function (levels : Nat) (block : Parser (List Stmt)) : Parser Stmt := do
  let name ← name .inline "a function name"
  expect .inline '('
  let params ← descend levels params
  gap .inline
  unless ← acceptText "->" do unexpected "'->' and a return type"
  let returns ← ty levels .inline
  return .func name params returns (← block)

/-- A statement, given the reader of its blocks. -/
def statement (levels : Nat) (block : Parser (List Stmt)) : Parser Stmt := do
  gap .inline
  if ← acceptKeyword "func" then return ← function levels block
  if ← acceptKeyword "fn" then return ← function levels block
  if ← acceptKeyword "return" then return ← returned levels
  if ← acceptKeyword "let" then return ← declaration levels false
  if ← acceptKeyword "var" then return ← declaration levels false
  if ← acceptKeyword "const" then return ← declaration levels true
  if ← acceptKeyword "if" then return ← conditional levels block
  if ← acceptKeyword "while" then return ← whileLoop levels block
  if ← acceptKeyword "for" then return ← forLoop levels block
  if ← acceptKeyword "break" then return .brk
  if ← acceptKeyword "continue" then return .cont
  if ← taking printCall? then
    return .print (← descend levels fun n => enclosed (operand byScan n .lines) ')')
  storeOrExpr levels

/-! ## §4. Sequences of statements -/

/-- Statements up to the end of the text, or inside a block up to its closing brace. -/
def statements (inBlock : Bool) (stmt : Parser Stmt) : Parser (List Stmt) :=
  iterate step []
where
  /-- One statement, given those before it, last first. -/
  step (before : List Stmt) : Parser (Round (List Stmt) (List Stmt)) := do
    gap .separators
    let c ← get
    if c.atEnd then
      if inBlock then unexpected "'\x7d'" else return .done before.reverse
    else if inBlock && c.peek == '}' then return .done before.reverse
    else
      let s ← stmt
      terminator
      return .again (s :: before)

/-- The opening brace of a block, perhaps on a later line. -/
def openBrace : Parser Unit := do
  gap .lines
  unless ← accept '{' do unexpected "'\x7b'"

/-- A block, with so many levels left outside it. -/
def block : Nat → Parser (List Stmt)
  | 0 => do
    openBrace
    tooDeep
  | n + 1 => do
    openBrace
    let body ← statements true (statement n (block n))
    advance
    return body

end Scriptlet.Parser

namespace Scriptlet

/-- The program that a text holds. -/
def Program.parse (source : String) : Except Error Program :=
  let stmt := Parser.statement maxNesting (Parser.block maxNesting)
  (Parser.statements false stmt (Cursor.start source)).map Prod.fst

end Scriptlet
