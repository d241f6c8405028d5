/-
  Scriptlet.Source.Parser — readers of source text.

  A parser is a state computation over a cursor that may fail.  Repetition is `iterate`, the only
  loop: a round that asks for another must have consumed text, so every parser ends on every text.
  How deep brackets, operators and blocks may be nested is bounded by `maxNesting`; parsers that
  descend take the levels left as an argument and recurse on it.
-/
import Scriptlet.Source.Literal

namespace Scriptlet

/-- A reader of source text. -/
abbrev Parser := StateT Cursor (Except Error)

/-- How deep brackets, prefixed operators and blocks may be nested. -/
def maxNesting : Nat := 48

/-- The result of one round of a repetition. -/
inductive Round (σ β : Type) where
  /-- Another round follows. -/
  | again (state : σ)
  /-- The repetition is over. -/
  | done (result : β)

namespace Parser

variable {α β σ : Type}

/-! ## §1. Single steps -/

/-- Goes past a gap. -/
def gap (g : Gap) : Parser Unit := modify (·.skip g)

/-- Takes what `step` takes, and says whether it took anything. -/
def taking (step : Cursor → Option Cursor) : Parser Bool := do
  match step (← get) with
  | some c => set c; return true
  | none => return false

/-- Takes the character if it stands here. -/
def accept (ch : Char) : Parser Bool := taking (·.accept? ch)

/-- Takes the word if it stands here. -/
def acceptText (word : String) : Parser Bool := taking (·.acceptText? word)

/-- Takes the keyword if it stands here. -/
def acceptKeyword (word : String) : Parser Bool := taking (·.acceptKeyword? word)

/-- Takes the next character. -/
def advance : Parser Unit := modify (·.advance)

/-- Fails here. -/
def fail (reason : String) : Parser α := do throw ((← get).malformed reason)

/-- Fails because something else was expected here. -/
def unexpected (expected : String) : Parser α := do throw ((← get).unexpected expected)

/-- Takes the character after a gap, or fails. -/
def expect (g : Gap) (ch : Char) : Parser Unit := do
  gap g
  unless ← accept ch do unexpected ("'" ++ ch.toString ++ "'")

/-- Takes the name here, or fails. -/
def nameHere (what : String) : Parser String := do
  match (← get).name? with
  | some (name, c) => set c; return name
  | none => unexpected what

/-- Takes the name after a gap, or fails. -/
def name (g : Gap) (what : String) : Parser String := do
  gap g
  nameHere what

/-- Takes a literal. -/
def literal (read : Cursor → Except Error α × Cursor) : Parser α := do
  let (result, c) := read (← get)
  set c
  liftExcept result
where
  /-- Fails with the error of a failed reading. -/
  liftExcept : Except Error α → Parser α
    | .ok a => pure a
    | .error e => throw e

/-! ## §2. Repetition -/

/-- Runs rounds until one is the last.  A round that asks for another without having consumed text
    is refused. -/
def iterate (step : σ → Parser (Round σ β)) (state : σ) (c : Cursor) : Except Error (β × Cursor) :=
  match step state c with
  | .error e => .error e
  | .ok (.done result, next) => .ok (result, next)
  | .ok (.again state, next) =>
    if next.rest.length < c.rest.length then iterate step state next
    else .error (next.malformed "nothing to repeat")
termination_by c.rest.length

/-! ## §3. Descent -/

/-- Fails because no level is left. -/
def tooDeep : Parser α := fail "nesting too deep"

/-- Goes one level down, if one is left. -/
def descend (levels : Nat) (inner : Nat → Parser α) : Parser α :=
  match levels with
  | 0 => tooDeep
  | n + 1 => inner n

/-- Uses what stands for the level below, if there is one. -/
def within (deeper : Option σ) (inner : σ → Parser α) : Parser α :=
  match deeper with
  | none => tooDeep
  | some d => inner d

end Parser

end Scriptlet
