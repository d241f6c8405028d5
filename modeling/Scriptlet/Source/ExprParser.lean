/-
  Scriptlet.Source.ExprParser — expressions.

  From loosest to tightest: `||`, `&&`, one comparison, one range, sums, products, prefixed
  operators, suffixes.  The operators of sums, products, `&&` and `||` associate to the left;
  comparisons and ranges do not chain.  Brackets and prefixed operators go one level down, and inside
  brackets line ends are gaps.  All levels are built over the reader of prefixed operands, so the
  recursion of the grammar is the recursion of `operand` on the levels left.
-/
import Scriptlet.Source.Parser

namespace Scriptlet.Parser

/-! ## §1. Binary operators over a reader of operands -/

/-- Operands joined by operators of one rank, from the left. -/
def leftChain (g : Gap) (operator : Parser (Option BinaryOp)) (next : Parser Expr) :
    Parser Expr := do
  iterate step (← next)
where
  /-- One more operator and operand, if they follow. -/
  step (left : Expr) : Parser (Round Expr Expr) := do
    gap g
    match ← operator with
    | none => return .done left
    | some op => return .again (.binary op left (← next))

/-- Two operands and an operator between them, or one operand alone. -/
def pair (g : Gap) (join : Parser (Option (Expr → Expr → Expr))) (next : Parser Expr) :
    Parser Expr := do
  let left ← next
  gap g
  match ← join with
  | none => return left
  | some make => return make left (← next)

/-- An operator spelled by a word. -/
def wordOperator (word : String) (op : BinaryOp) : Parser (Option BinaryOp) := do
  return if ← acceptText word then some op else none

/-- The operators `*`, `/` and `%`. -/
def productOperator : Parser (Option BinaryOp) := do
  if ← accept '*' then return some .mul
  if ← accept '/' then return some .div
  if ← accept '%' then return some .mod
  return none

/-- The operators `+` and `-`; a `-` that begins `->` is none. -/
def sumOperator : Parser (Option BinaryOp) := do
  if ← accept '+' then return some .add
  if (← get).peekAt 1 != '>' then
    if ← accept '-' then return some .sub
  return none

/-- The dots of a range: `..` for one with its end, `..<` for one without. -/
def rangeOperator : Parser (Option (Expr → Expr → Expr)) := do
  if ← acceptText ".." then
    let exclusive ← accept '<'
    return some fun first last => .range first last !exclusive
  else return none

/-- The comparison that stands here; the longer spellings first. -/
def comparisonOperator : Parser (Option (Expr → Expr → Expr)) := do
  if ← acceptText "==" then return some (.binary .eq)
  if ← acceptText "!=" then return some (.binary .ne)
  if ← acceptText "<=" then return some (.binary .le)
  if ← acceptText ">=" then return some (.binary .ge)
  if ← accept '<' then return some (.binary .lt)
  if ← accept '>' then return some (.binary .gt)
  return none

/-- A whole expression, given the reader of its operands. -/
def exprOf (g : Gap) (operand : Parser Expr) : Parser Expr :=
  let product := leftChain g productOperator operand
  let sum := leftChain g sumOperator product
  let range := pair g rangeOperator sum
  let comparison := pair g comparisonOperator range
  let conjunction := leftChain g (wordOperator "&&" .and) comparison
  leftChain g (wordOperator "||" .or) conjunction

/-! ## §2. Brackets -/

/-- An expression inside brackets, through the closing one. -/
def enclosed (operand : Parser Expr) (close : Char) : Parser Expr := do
  let inner ← exprOf .lines operand
  expect .lines close
  return inner

/-- Arguments after the opening bracket, through the closing one. -/
def arguments (operand : Parser Expr) : Parser (List Expr) := do
  gap .lines
  if ← accept ')' then return []
  iterate step []
where
  /-- One argument, given those before it, last first. -/
  step (before : List Expr) : Parser (Round (List Expr) (List Expr)) := do
    let args := (← exprOf .lines operand) :: before
    gap .lines
    if ← accept ')' then return .done args.reverse
    expect .lines ','
    return .again args

/-- Whether a colon stands in the text before the first comma or closing bracket outside nested
    brackets and strings. -/
def startsPair : (nesting : Nat) → (inString : Bool) → List Char → Bool
  | _, _, [] => false
  | nesting, inString, c :: rest =>
    if c == Cursor.pastEnd then false
    else if inString then
      if c == '\\' then
        match rest with
        | [] => false
        | _ :: more => startsPair nesting true more
      else startsPair nesting (c != '"') rest
    else if c == '"' then startsPair nesting true rest
    else if c == '(' || c == '[' || c == '{' then startsPair (nesting + 1) false rest
    else if c == ')' || c == '}' then startsPair (nesting - 1) false rest
    else if nesting == 0 then
      if c == ']' || c == ',' then false
      else if c == ':' then true
      else startsPair nesting false rest
    else if c == ']' then startsPair (nesting - 1) false rest
    else startsPair nesting false rest

/-- The rest of a collection after one entry: through the closing bracket, or past a comma. -/
def collectionGoesOn : Parser Bool := do
  gap .lines
  if ← accept ']' then return false
  expect .lines ','
  gap .lines
  return !(← accept ']')

/-- The entries of a collection, through the closing bracket. -/
def entries {α : Type} (entry : Parser α) : Parser (List α) :=
  iterate step []
where
  /-- One entry, given those before it, last first. -/
  step (before : List α) : Parser (Round (List α) (List α)) := do
    let all := (← entry) :: before
    return if ← collectionGoesOn then .again all else .done all.reverse

/-- A key and its value. -/
def keyAndValue (operand : Parser Expr) : Parser (Expr × Expr) := do
  let key ← exprOf .lines operand
  expect .lines ':'
  return (key, ← exprOf .lines operand)

/-- How it is decided whether the entries that begin here are pairs, given the reader of operands. -/
abbrev Lookahead := Parser Expr → Parser Bool

/-- Decides by a scan of the text ahead, without reading it. -/
def byScanning (scan : List Char → Bool) : Lookahead := fun _ => do return scan (← get).rest

/-- Decides by the first colon, comma or closing bracket ahead. -/
def byScan : Lookahead := byScanning (startsPair 0 false)

/-- The entries of a collection whose kind is known, through the closing bracket. -/
def contents (operand : Parser Expr) : (pairs : Bool) → Parser Expr
  | true => return .dict (← entries (keyAndValue operand))
  | false => return .array (← entries (exprOf .lines operand))

/-- The entries of a collection that is not empty, through the closing bracket. -/
def filled (havePairs : Lookahead) (operand : Parser Expr) : Parser Expr := do
  contents operand (← havePairs operand)

/-- An array or dictionary after the opening bracket. -/
def collection (havePairs : Lookahead) (operand : Parser Expr) : Parser Expr := do
  gap .lines
  if ← accept ']' then return .array []
  if ← accept ':' then
    expect .lines ']'
    return .dict []
  filled havePairs operand

/-! ## §3. Operands -/

/-- What an operand one level down is read by, for either kind of gap. -/
abbrev Deeper := Option (Gap → Parser Expr)

/-- What a name stands for: a literal, a call or a variable. -/
def nameOrCall (deeper : Deeper) (word : String) : Parser Expr :=
  match word with
  | "nil" => return .nil
  | "true" => return .bool true
  | "false" => return .bool false
  | _ => do
    if ← accept '(' then return .call word (← within deeper fun d => arguments (d .lines))
    else return .var word

/-- A literal, a name, a call, or an expression in brackets. -/
def primary (havePairs : Lookahead) (deeper : Deeper) (g : Gap) : Parser Expr := do
  gap g
  let c ← get
  if c.atEnd then unexpected "an expression"
  else if c.peek == '(' then
    advance
    within deeper fun d => enclosed (d .lines) ')'
  else if c.peek == '"' then return .string (← literal Cursor.string)
  else if c.peek.isDigit then
    match ← literal Cursor.number with
    | .int n => return .int n
    | .double x => return .double x
  else if c.peek == '[' then
    advance
    within deeper fun d => collection havePairs (d .lines)
  else nameOrCall deeper (← nameHere "an expression")

/-- The member of a target, with arguments if a bracket follows the name. -/
def memberOf (deeper : Deeper) (target : Expr) (optional : Bool) : Parser Expr := do
  let word ← nameHere "a member name"
  if ← accept '(' then
    return .method target word (← within deeper fun d => arguments (d .lines)) optional
  else return .member target word optional

/-- One more suffix of a target, if it follows: an index or a member.  A single dot only: two are a
    range. -/
def suffix (deeper : Deeper) (target : Expr) : Parser (Round Expr Expr) := do
  if ← accept '[' then
    return .again (.index target (← within deeper fun d => enclosed (d .lines) ']'))
  if ← acceptText "?." then return .again (← memberOf deeper target true)
  if (← get).peekAt 1 != '.' then
    if ← accept '.' then return .again (← memberOf deeper target false)
  return .done target

/-- An operand with its suffixes. -/
def suffixed (havePairs : Lookahead) (deeper : Deeper) (g : Gap) : Parser Expr := do
  iterate (suffix deeper) (← primary havePairs deeper g)

/-- The operator before an operand: `!` unless it begins `!=`, or `-`. -/
def leadingOperator : Parser (Option UnaryOp) := do
  if (← get).peekAt 1 != '=' then
    if ← accept '!' then return some .not
  if ← accept '-' then return some .neg
  return none

/-- An operand with the operators before it, given the reader one level down. -/
def operandLevel (havePairs : Lookahead) (deeper : Deeper) (g : Gap) : Parser Expr := do
  gap g
  match ← leadingOperator with
  | some op => return .unary op (← within deeper fun d => d g)
  | none => suffixed havePairs deeper g

/-- An operand, with so many levels left. -/
def operand (havePairs : Lookahead) : Nat → Gap → Parser Expr
  | 0, g => operandLevel havePairs none g
  | n + 1, g => operandLevel havePairs (some (operand havePairs n)) g

/-- An expression, with so many levels left. -/
def expr (levels : Nat) (g : Gap) : Parser Expr := exprOf g (operand byScan levels g)

/-- An expression and nothing else but gaps. -/
def onlyExpr (havePairs : Lookahead) : Parser Expr := do
  gap .lines
  let e ← exprOf .inline (operand havePairs maxNesting .inline)
  gap .lines
  if (← get).atEnd then return e else unexpected "end of input"

end Scriptlet.Parser

namespace Scriptlet

/-- The expression that a text holds, where the kinds of collections are decided as given. -/
def Expr.parseBy (havePairs : Parser.Lookahead) (source : String) : Except Error Expr :=
  (Parser.onlyExpr havePairs (Cursor.start source)).map Prod.fst

/-- The expression that a text holds. -/
def Expr.parse (source : String) : Except Error Expr := Expr.parseBy Parser.byScan source

end Scriptlet
