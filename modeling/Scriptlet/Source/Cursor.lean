/-
  Scriptlet.Source.Cursor — a place in a source text.

  A cursor is the text still to be read with its line and column, both counted from one.  It moves
  only by `advance`, one character at a time; skipping gaps and cutting names measure a prefix of the
  remaining text first and then advance by its length.  Cursors are values: to come back to a place,
  keep the cursor.
-/
import Scriptlet.Error
import Scriptlet.Text.Identifier

namespace Scriptlet

/-- A place in a source text. -/
structure Cursor where
  /-- The text from here on. -/
  rest : List Char
  /-- The line, from one. -/
  line : Nat
  /-- The column, from one. -/
  column : Nat
  deriving DecidableEq, Repr, Inhabited

/-- What may stand between two words of a source text, besides comments. -/
inductive Gap where
  /-- Blanks on one line. -/
  | inline
  /-- Blanks and line ends. -/
  | lines
  /-- Blanks, line ends and semicolons. -/
  | separators
  deriving DecidableEq, Repr, Inhabited

/-- Whether the gap may hold the character outside comments. -/
def Gap.admits : Gap → Char → Bool
  | .inline, c => c == ' ' || c == '\t' || c == '\r'
  | .lines, c => c == ' ' || c == '\t' || c == '\r' || c == '\n'
  | .separators, c => c == ' ' || c == '\t' || c == '\r' || c == '\n' || c == ';'

/-- Whether a comment begins here: `#` or `//`, up to the end of the line. -/
def opensComment (c : Char) (rest : List Char) : Bool :=
  c == '#' || (c == '/' && rest.head? == some '/')

/-- The length of the gap at the front of a text; the flag says that the text begins in a comment. -/
def Gap.length (gap : Gap) : Bool → List Char → Nat
  | _, [] => 0
  | true, c :: rest =>
    if c == '\n' then if gap.admits c then gap.length false rest + 1 else 0
    else gap.length true rest + 1
  | false, c :: rest =>
    if gap.admits c then gap.length false rest + 1
    else if opensComment c rest then gap.length true rest + 1
    else 0

namespace Cursor

/-! ## §1. Looking and moving -/

/-- The beginning of a text. -/
def start (text : String) : Cursor := ⟨text.toList, 1, 1⟩

/-- Whether nothing is left. -/
def atEnd (c : Cursor) : Bool := c.rest.isEmpty

/-- What is seen past the end of the text. -/
def pastEnd : Char := '\x00'

/-- The character `n` places ahead. -/
def peekAt (c : Cursor) (n : Nat) : Char := c.rest.getD n pastEnd

/-- The next character. -/
def peek (c : Cursor) : Char := c.peekAt 0

/-- One character further; at the end, nowhere. -/
def advance (c : Cursor) : Cursor :=
  match c.rest with
  | [] => c
  | ch :: rest => if ch == '\n' then ⟨rest, c.line + 1, 1⟩ else ⟨rest, c.line, c.column + 1⟩

/-- So many characters further. -/
def advanceBy : Nat → Cursor → Cursor
  | 0, c => c
  | n + 1, c => advanceBy n c.advance

/-- The cursor after the gap that begins here. -/
def skip (c : Cursor) (gap : Gap) : Cursor := c.advanceBy (gap.length false c.rest)

/-- A step takes the first character off the text that is left. -/
@[simp]
theorem rest_advance (c : Cursor) : c.advance.rest = c.rest.drop 1 := by
  unfold advance
  split
  · simp_all
  · split <;> simp_all

/-- Steps take the first characters off the text that is left. -/
@[simp]
theorem rest_advanceBy (n : Nat) (c : Cursor) : (advanceBy n c).rest = c.rest.drop n := by
  induction n generalizing c with
  | zero => rfl
  | succ n ih => rw [advanceBy, ih, rest_advance, List.drop_drop, Nat.add_comm]

/-! ## §2. Matching -/

/-- The cursor after the character, if it stands here. -/
def accept? (c : Cursor) (ch : Char) : Option Cursor :=
  if !c.atEnd && c.peek == ch then some c.advance else none

/-- Whether the word is what is seen from the front of a text on. -/
def sees : List Char → List Char → Bool
  | [], _ => true
  | w :: word, [] => w == pastEnd && sees word []
  | w :: word, c :: rest => w == c && sees word rest

/-- Whether the word stands here. -/
def stands (c : Cursor) (word : String) : Bool := sees word.toList c.rest

/-- The cursor after the word, if it stands here. -/
def acceptText? (c : Cursor) (word : String) : Option Cursor :=
  if c.stands word then some (c.advanceBy word.length) else none

/-- Whether the word stands here and no longer name does. -/
def standsKeyword (c : Cursor) (word : String) : Bool :=
  c.stands word && !Text.isNameChar (c.peekAt word.length)

/-- The cursor after the keyword, if it stands here. -/
def acceptKeyword? (c : Cursor) (word : String) : Option Cursor :=
  if c.standsKeyword word then some (c.advanceBy word.length) else none

/-- The longest name that begins here, and the cursor after it. -/
def name? (c : Cursor) : Option (String × Cursor) :=
  if Text.isNameStart c.peek then
    let name := c.rest.takeWhile Text.isNameChar
    some (String.ofList name, c.advanceBy name.length)
  else none

/-! ## §3. Errors at a place -/

/-- The text is malformed here. -/
def malformed (c : Cursor) (reason : String) : Error := .malformed c.line c.column reason

/-- Something else was expected here. -/
def unexpected (c : Cursor) (expected : String) : Error :=
  if c.atEnd then .unexpectedEnd expected
  else
    let found := if c.peek == '\n' then "newline" else "'" ++ c.peek.toString ++ "'"
    c.malformed ("expected " ++ expected ++ ", found " ++ found)

end Cursor

end Scriptlet
