/-
  Scriptlet.Proofs.Counting — the grammar read by a machine that counts.

  The readers of `Scriptlet.Source` are told how many levels are left and what separates words, and
  refuse a round of a repetition that takes nothing.  The machine here is told nothing and refuses
  nothing.  It stands at an offset in a text that never changes, and counts what is open: `depth` all
  brackets, prefixed operators and blocks, of which `maxNesting` may be open at once, and `nesting` the
  brackets of the innermost block, between which line ends are gaps.  What goes down raises a counter
  on entry and lowers it on every exit, and a failure hands the state on as a result does.  A repetition
  goes on for as long as its rounds ask for it, and a call goes as deep as it must, within a budget;
  beyond the budget a run has no outcome at all.

  Two marks are kept for the record and read by nothing: the furthest offset and the greatest depth.

  Gaps, names, literals and the look ahead for pairs are loops over characters, on the same budget.
  Only words that are known beforehand, operators and keywords, are read at once from the text ahead;
  the machine then moves to the place after them one character at a time.

  Contents:
    * `Reader` — the state, and `Counted` — computations over it.
    * `Counted.characters` — a loop over characters.
    * `Counted.ty`, `Counted.expr`, `Counted.statement` — the grammar.
    * `Counted.program`, `Counted.onlyExpr` — whole texts.
-/
import Scriptlet.Source.StmtParser

namespace Scriptlet

/-! ## §1. The state -/

/-- A place in a text, with the counters of what is open there and the marks of what has been. -/
structure Reader where
  /-- The whole text. -/
  text : List Char
  /-- How many characters have been read. -/
  offset : Nat
  /-- The line, from one. -/
  line : Nat
  /-- The column, from one. -/
  column : Nat
  /-- How many brackets are open in the innermost block. -/
  nesting : Nat
  /-- How many brackets, prefixed operators and blocks are open. -/
  depth : Nat
  /-- The furthest offset so far. -/
  furthest : Nat
  /-- The greatest depth so far. -/
  deepest : Nat
  deriving DecidableEq, Repr

namespace Reader

/-- The beginning of a text, with nothing open. -/
def start (source : String) : Reader := ⟨source.toList, 0, 1, 1, 0, 0, 0, 0⟩

/-- What lies ahead. -/
def cursor (r : Reader) : Cursor := ⟨r.text.drop r.offset, r.line, r.column⟩

/-- What separates words here. -/
def gap (r : Reader) : Gap := if r.nesting = 0 then .inline else .lines

/-- One character further; at the end, nowhere. -/
def advance (r : Reader) : Reader :=
  match r.text[r.offset]? with
  | none => r
  | some ch =>
    { r with
      offset := r.offset + 1
      line := if ch == '\n' then r.line + 1 else r.line
      column := if ch == '\n' then 1 else r.column + 1
      furthest := max r.furthest (r.offset + 1) }

/-- So many characters further. -/
def advanceBy : Nat → Reader → Reader
  | 0, r => r
  | n + 1, r => advanceBy n r.advance

/-- On to the place of a cursor ahead. -/
def moveTo (r : Reader) (c : Cursor) : Reader := r.advanceBy (r.cursor.rest.length - c.rest.length)

/-- Back to an earlier place; the counters and marks stay. -/
def backTo (r place : Reader) : Reader :=
  { r with offset := place.offset, line := place.line, column := place.column }

/-- One more is open. -/
def enter (r : Reader) : Reader :=
  { r with depth := r.depth + 1, deepest := max r.deepest (r.depth + 1) }

/-- One less is open. -/
def leave (r : Reader) : Reader := { r with depth := r.depth - 1 }

/-- As many brackets open in the innermost block. -/
def withNesting (r : Reader) (n : Nat) : Reader := { r with nesting := n }

end Reader

/-! ## §2. Steps and loops -/

/-- A computation of the machine; it has no outcome if the budget does not suffice. -/
abbrev Counted := ExceptT Error (StateT Reader Option)

namespace Counted

variable {α β σ : Type}

/-- The budget is used up. -/
def outOfBudget : Counted α := ExceptT.mk fun _ => none

/-- What lies ahead. -/
def look : Counted Cursor := return (← get).cursor

/-- Reads a token. -/
def token (p : Parser α) : Counted α := do
  let r ← get
  match p r.cursor with
  | .ok (a, c) => set (r.moveTo c); return a
  | .error e => throw e

/-- Takes the character if it stands here. -/
def accept (ch : Char) : Counted Bool := token (Parser.accept ch)

/-- Takes the keyword if it stands here. -/
def keyword (word : String) : Counted Bool := token (Parser.acceptKeyword word)

/-- Fails because something else was expected here. -/
def unexpected (expected : String) : Counted α := token (Parser.unexpected expected)

/-- Runs with the counters changed, and changes them back whatever the outcome. -/
def around (enter leave : Reader → Reader) (q : Counted α) : Counted α := ExceptT.mk fun r =>
  (q (enter r)).map fun (result, after) => (result, leave after)

/-- Runs one level down, unless too much is open already. -/
def descend (q : Counted α) : Counted α := do
  if maxNesting ≤ (← get).depth then token Parser.tooDeep else around .enter .leave q

/-- Runs inside a bracket. -/
def nested (q : Counted α) : Counted α :=
  around (fun r => r.withNesting (r.nesting + 1)) (fun r => r.withNesting (r.nesting - 1)) (descend q)

/-- Runs inside a block, where no bracket is open yet. -/
def unnested (q : Counted α) : Counted α := do
  let outside := (← get).nesting
  around (·.withNesting 0) (·.withNesting outside) (descend q)

/-- Runs rounds until one is the last. -/
def repeated (step : σ → Counted (Round σ β)) : (budget : Nat) → σ → Counted β
  | 0, _ => outOfBudget
  | budget + 1, state => do
    match ← step state with
    | .again next => repeated step budget next
    | .done result => return result

/-! ## §3. Characters -/

variable (budget : Nat)

/-- Takes characters one at a time for as long as there are any and `go` says so, from a state and
    what lies ahead. -/
def characters (go : σ → Char → List Char → Option σ) (state : σ) : Counted σ :=
  repeated step budget state
where
  /-- One character, if it is taken. -/
  step (state : σ) : Counted (Round σ σ) := do
    match (← look).rest with
    | [] => return .done state
    | ch :: rest =>
      match go state ch rest with
      | some next =>
        modify (·.advance)
        return .again next
      | none => return .done state

/-- Whether the gap goes on here; the state says whether a comment is open. -/
def inGap (g : Gap) : Bool → Char → List Char → Option Bool
  | true, ch, _ => if ch == '\n' then if g.admits ch then some false else none else some true
  | false, ch, rest =>
    if g.admits ch then some false else if opensComment ch rest then some true else none

/-- Goes past a gap. -/
def gap (g : Gap) : Counted Unit := do
  let _ ← characters budget (inGap g) false

/-- Goes past what separates words here. -/
def blank : Counted Unit := do gap budget (← get).gap

/-- Takes the character after a gap, or fails. -/
def expect (ch : Char) : Counted Unit := do
  blank budget
  unless ← accept ch do unexpected ("'" ++ ch.toString ++ "'")

/-- Adds the character to those before it, if it is of the kind. -/
def ofKind (kind : Char → Bool) (before : List Char) (ch : Char) (_ : List Char) :
    Option (List Char) :=
  if kind ch then some (before ++ [ch]) else none

/-- Takes the name here, or fails. -/
def nameHere (what : String) : Counted String := do
  if Text.isNameStart (← look).peek then
    return String.ofList (← characters budget (ofKind Text.isNameChar) [])
  else unexpected what

/-- Takes the name after a gap, or fails. -/
def name (what : String) : Counted String := do
  blank budget
  nameHere budget what

/-- A number literal: digits, and a point with more digits if a digit follows the point. -/
def number : Counted Numeral := do
  let whole ← characters budget (ofKind Char.isDigit) []
  let c ← look
  if c.peek == '.' && (c.peekAt 1).isDigit then
    modify (·.advance)
    let fraction ← characters budget (ofKind Char.isDigit) []
    return .double (Number.Decimal.doubleOfDigits whole fraction)
  else
    match Number.Decimal.word? whole with
    | some n => return .int n
    | none => throw (.invalidNumber (String.ofList whole))

/-- What the text of a string stands for, up to its closing quote; the flag says that the character
    before was a backslash that begins a pair. -/
def inQuotes : List Char × Bool → Char → List Char → Option (List Char × Bool)
  | (body, true), ch, _ => some (body ++ unescape ch, false)
  | (body, false), ch, _ =>
    if ch == '"' then none else if ch == '\\' then some (body, true) else some (body ++ [ch], false)

/-- A string literal with both its quotes. -/
def string : Counted String := do
  let start ← look
  unless ← accept '"' do throw (start.malformed "expected string literal")
  let (body, _) ← characters budget inQuotes ([], false)
  unless ← accept '"' do throw (start.malformed "unterminated string literal")
  return String.ofList body

/-- Whether the entries ahead are pairs, without reading them. -/
def scan : Counted Bool :=
  repeated step budget (0, 0, false)
where
  /-- One character, so many places ahead, with so many brackets open, in a string or not. -/
  step : Nat × Nat × Bool → Counted (Round (Nat × Nat × Bool) Bool)
    | (i, nesting, inString) => do
      let c := (← look).peekAt i
      if c == Cursor.pastEnd then return .done false
      else if inString then
        if c == '\\' then return .again (i + 2, nesting, true)
        else return .again (i + 1, nesting, c != '"')
      else if c == '"' then return .again (i + 1, nesting, true)
      else if c == '(' || c == '[' || c == '{' then return .again (i + 1, nesting + 1, false)
      else if c == ')' || c == '}' then return .again (i + 1, nesting - 1, false)
      else if nesting == 0 then
        if c == ']' || c == ',' then return .done false
        else if c == ':' then return .done true
        else return .again (i + 1, nesting, false)
      else if c == ']' then return .again (i + 1, nesting - 1, false)
      else return .again (i + 1, nesting, false)

/-! ## §4. Types -/

/-- A type, given the reader of those in its brackets. -/
def tyLevel (deeper : Counted Ty) : Counted Ty := do
  blank budget
  let base ← if ← accept '[' then nested bracketed else named
  repeated question budget base
where
  /-- The inside of brackets. -/
  bracketed : Counted Ty := do
    let first ← deeper
    blank budget
    if ← accept ':' then
      let value ← deeper
      expect budget ']'
      return .dict first value
    else
      expect budget ']'
      return .array first
  /-- A type named by a word. -/
  named : Counted Ty := do
    let word ← name budget "a type name"
    match Ty.ofName? word with
    | some type => return type
    | none => throw (.unknownType word)
  /-- A mark of optionality, if one follows. -/
  question (type : Ty) : Counted (Round Ty Ty) := do
    if ← accept '?' then return .again (.optional type) else return .done type

/-- A type, within so many calls. -/
def ty : (calls : Nat) → Counted Ty
  | 0 => outOfBudget
  | calls + 1 => tyLevel budget (ty calls)

/-! ## §5. Expressions -/

/-- Operands joined by operators of one rank, from the left. -/
def leftChain (operator : Parser (Option BinaryOp)) (next : Counted Expr) : Counted Expr := do
  repeated step budget (← next)
where
  /-- One more operator and operand, if they follow. -/
  step (left : Expr) : Counted (Round Expr Expr) := do
    blank budget
    match ← token operator with
    | none => return .done left
    | some op => return .again (.binary op left (← next))

/-- Two operands and an operator between them, or one operand alone. -/
def pair (join : Parser (Option (Expr → Expr → Expr))) (next : Counted Expr) : Counted Expr := do
  let left ← next
  blank budget
  match ← token join with
  | none => return left
  | some make => return make left (← next)

/-- A whole expression, given the reader of its operands. -/
def exprOf (operand : Counted Expr) : Counted Expr :=
  let product := leftChain budget Parser.productOperator operand
  let sum := leftChain budget Parser.sumOperator product
  let range := pair budget Parser.rangeOperator sum
  let comparison := pair budget Parser.comparisonOperator range
  let conjunction := leftChain budget (Parser.wordOperator "&&" .and) comparison
  leftChain budget (Parser.wordOperator "||" .or) conjunction

/-- An expression inside brackets, through the closing one. -/
def enclosed (operand : Counted Expr) (close : Char) : Counted Expr := do
  let inner ← exprOf budget operand
  expect budget close
  return inner

/-- Arguments after the opening bracket, through the closing one. -/
def arguments (operand : Counted Expr) : Counted (List Expr) := do
  blank budget
  if ← accept ')' then return []
  repeated step budget []
where
  /-- One argument, given those before it, last first. -/
  step (before : List Expr) : Counted (Round (List Expr) (List Expr)) := do
    let args := (← exprOf budget operand) :: before
    blank budget
    if ← accept ')' then return .done args.reverse
    expect budget ','
    return .again args

/-- The rest of a collection after one entry: through the closing bracket, or past a comma. -/
def collectionGoesOn : Counted Bool := do
  blank budget
  if ← accept ']' then return false
  expect budget ','
  blank budget
  return !(← accept ']')

/-- The entries of a collection, through the closing bracket. -/
def entries (entry : Counted α) : Counted (List α) :=
  repeated step budget []
where
  /-- One entry, given those before it, last first. -/
  step (before : List α) : Counted (Round (List α) (List α)) := do
    let all := (← entry) :: before
    return if ← collectionGoesOn budget then .again all else .done all.reverse

/-- A key and its value. -/
def keyAndValue (operand : Counted Expr) : Counted (Expr × Expr) := do
  let key ← exprOf budget operand
  expect budget ':'
  return (key, ← exprOf budget operand)

/-- The entries of a collection whose kind is known, through the closing bracket. -/
def contents (operand : Counted Expr) : (pairs : Bool) → Counted Expr
  | true => return .dict (← entries budget (keyAndValue budget operand))
  | false => return .array (← entries budget (exprOf budget operand))

/-- An array or dictionary after the opening bracket. -/
def collection (operand : Counted Expr) : Counted Expr := do
  blank budget
  if ← accept ']' then return .array []
  if ← accept ':' then
    expect budget ']'
    return .dict []
  contents budget operand (← scan budget)

/-- What a name stands for: a literal, a call or a variable. -/
def nameOrCall (deeper : Counted Expr) (word : String) : Counted Expr :=
  match word with
  | "nil" => return .nil
  | "true" => return .bool true
  | "false" => return .bool false
  | _ => do
    if ← accept '(' then return .call word (← nested (arguments budget deeper))
    else return .var word

/-- A literal, a name, a call, or an expression in brackets. -/
def primary (deeper : Counted Expr) : Counted Expr := do
  blank budget
  let c ← look
  if c.atEnd then unexpected "an expression"
  else if c.peek == '(' then
    token Parser.advance
    nested (enclosed budget deeper ')')
  else if c.peek == '"' then return .string (← string budget)
  else if c.peek.isDigit then
    match ← number budget with
    | .int n => return .int n
    | .double x => return .double x
  else if c.peek == '[' then
    token Parser.advance
    nested (collection budget deeper)
  else nameOrCall budget deeper (← nameHere budget "an expression")

/-- The member of a target, with arguments if a bracket follows the name. -/
def memberOf (deeper : Counted Expr) (target : Expr) (optional : Bool) : Counted Expr := do
  let word ← nameHere budget "a member name"
  if ← accept '(' then
    return .method target word (← nested (arguments budget deeper)) optional
  else return .member target word optional

/-- One more suffix of a target, if it follows: an index or a member. -/
def suffix (deeper : Counted Expr) (target : Expr) : Counted (Round Expr Expr) := do
  if ← accept '[' then
    return .again (.index target (← nested (enclosed budget deeper ']')))
  if ← token (Parser.acceptText "?.") then return .again (← memberOf budget deeper target true)
  if (← look).peekAt 1 != '.' then
    if ← accept '.' then return .again (← memberOf budget deeper target false)
  return .done target

/-- An operand with the operators before it and the suffixes after it. -/
def operandLevel (deeper : Counted Expr) : Counted Expr := do
  blank budget
  match ← token Parser.leadingOperator with
  | some op => return .unary op (← descend deeper)
  | none => repeated (suffix budget deeper) budget (← primary budget deeper)

/-- An operand, within so many calls. -/
def operand : (calls : Nat) → Counted Expr
  | 0 => outOfBudget
  | calls + 1 => operandLevel budget (operand calls)

/-- An expression. -/
def expr : Counted Expr := exprOf budget (operand budget budget)

/-- An expression and nothing else but gaps. -/
def onlyExpr : Counted Expr := do
  gap budget .lines
  let e ← expr budget
  gap budget .lines
  if (← look).atEnd then return e else unexpected "end of input"

/-! ## §6. Statements -/

/-- Makes sure that a statement ends here. -/
def terminator : Counted Unit := do
  gap budget .inline
  let c ← look
  unless Parser.endsStatement c.peek || c.atEnd do unexpected "end of statement"

/-- The rest of a declaration. -/
def declaration (constant : Bool) : Counted Stmt := do
  let name ← name budget "a variable name"
  blank budget
  let type ← if ← accept ':' then some <$> ty budget budget else pure none
  expect budget '='
  return .declare name type (← expr budget) constant

/-- The rest of a `return`. -/
def returned : Counted Stmt := do
  gap budget .inline
  let c ← look
  if c.atEnd || Parser.endsStatement c.peek then return .ret .nil
  else return .ret (← expr budget)

/-- Takes `print` and an opening bracket; without them it goes back. -/
def printHead : Counted Bool := do
  let before ← get
  if ← ahead then return true
  else
    modify (·.backTo before)
    return false
where
  /-- Whether both stand here; what does is taken. -/
  ahead : Counted Bool := do
    if ← keyword "print" then
      gap budget .inline
      accept '('
    else return false

/-- An expression, or an assignment to it. -/
def storeOrExpr : Counted Stmt := do
  let target ← expr budget
  gap budget .inline
  let c ← look
  if c.peek == '=' && c.peekAt 1 != '=' then
    token Parser.advance
    let value ← expr budget
    match Parser.storeTo? target value with
    | some stmt => return stmt
    | none => throw (c.malformed "invalid assignment target")
  else return .expr target

/-- What follows the block of an `if`; without an `else` it goes back. -/
def afterIf (block : Counted (List Stmt)) : Counted Parser.AfterIf := do
  let before ← get
  if ← ahead then
    gap budget .inline
    if ← keyword "if" then return .elseIf
    else return .otherwise (← block)
  else
    modify (·.backTo before)
    return .nothing
where
  /-- Whether an `else` stands here or on a later line. -/
  ahead : Counted Bool := do
    gap budget .lines
    keyword "else"

/-- The rest of an `if`, with all the `else if` that follow. -/
def conditional (block : Counted (List Stmt)) : Counted Stmt :=
  repeated step budget []
where
  /-- One condition with its block, given those before it, last first. -/
  step (before : List (Expr × List Stmt)) : Counted (Round (List (Expr × List Stmt)) Stmt) := do
    let condition ← expr budget
    let body ← block
    match ← afterIf budget block with
    | .elseIf => return .again ((condition, body) :: before)
    | .otherwise other => return .done (Parser.nestIfs (.ifElse condition body other) before)
    | .nothing => return .done (Parser.nestIfs (.ifThen condition body) before)

/-- The rest of a `while`. -/
def whileLoop (block : Counted (List Stmt)) : Counted Stmt := do
  let condition ← expr budget
  return .loop condition (← block)

/-- The rest of a `for`. -/
def forLoop (block : Counted (List Stmt)) : Counted Stmt := do
  let item ← name budget "a loop variable"
  blank budget
  unless ← keyword "in" do unexpected "'in'"
  let iterable ← expr budget
  return .forIn item iterable (← block)

/-- A parameter; once one has a default, all that follow need one. -/
def param (before : List Param) : Counted Param := do
  let name ← name budget "a parameter name"
  expect budget ':'
  let type ← ty budget budget
  blank budget
  let default ← if ← accept '=' then some <$> expr budget else pure none
  if default.isNone && before.any fun p => p.default.isSome then
    token (Parser.fail
      ("parameter '" ++ name ++ "' without a default follows a defaulted parameter"))
  return { name, type, default }

/-- Parameters after the opening bracket, through the closing one. -/
def params : Counted (List Param) := do
  blank budget
  if ← accept ')' then return []
  repeated step budget []
where
  /-- One parameter, given those before it, last first. -/
  step (before : List Param) : Counted (Round (List Param) (List Param)) := do
    let all := (← param budget before) :: before
    blank budget
    if ← accept ')' then return .done all.reverse
    expect budget ','
    return .again all

/-- The rest of a function declaration. -/
def function (block : Counted (List Stmt)) : Counted Stmt := do
  let name ← name budget "a function name"
  expect budget '('
  let params ← nested (params budget)
  blank budget
  unless ← token (Parser.acceptText "->") do unexpected "'->' and a return type"
  let returns ← ty budget budget
  return .func name params returns (← block)

/-- A statement, given the reader of its blocks. -/
def statementOf (block : Counted (List Stmt)) : Counted Stmt := do
  gap budget .inline
  if ← keyword "func" then return ← function budget block
  if ← keyword "fn" then return ← function budget block
  if ← keyword "return" then return ← returned budget
  if ← keyword "let" then return ← declaration budget false
  if ← keyword "var" then return ← declaration budget false
  if ← keyword "const" then return ← declaration budget true
  if ← keyword "if" then return ← conditional budget block
  if ← keyword "while" then return ← whileLoop budget block
  if ← keyword "for" then return ← forLoop budget block
  if ← keyword "break" then return .brk
  if ← keyword "continue" then return .cont
  if ← printHead budget then return .print (← nested (enclosed budget (operand budget budget) ')'))
  storeOrExpr budget

/-- Statements up to the end of the text, or inside a block up to its closing brace. -/
def statements (inBlock : Bool) (stmt : Counted Stmt) : Counted (List Stmt) :=
  repeated step budget []
where
  /-- One statement, given those before it, last first. -/
  step (before : List Stmt) : Counted (Round (List Stmt) (List Stmt)) := do
    gap budget .separators
    let c ← look
    if c.atEnd then
      if inBlock then unexpected "'\x7d'" else return .done before.reverse
    else if inBlock && c.peek == '}' then return .done before.reverse
    else
      let s ← stmt
      terminator budget
      return .again (s :: before)

/-- The opening brace of a block, perhaps on a later line. -/
def openBrace : Counted Unit := do
  gap budget .lines
  unless ← accept '{' do unexpected "'\x7b'"

/-- A block, within so many calls. -/
def block : (calls : Nat) → Counted (List Stmt)
  | 0 => outOfBudget
  | calls + 1 => do
    openBrace budget
    let body ← unnested (statements budget true (statementOf budget (block calls)))
    token Parser.advance
    return body

/-- A statement. -/
def statement : Counted Stmt := statementOf budget (block budget budget)

/-- A whole program. -/
def program : Counted Program := statements budget false (statement budget)

end Counted

end Scriptlet
