/-
  Scriptlet.Source.Literal — number and string literals at a place in a text.

  A number is the longest run of digits, with a point and more digits where a digit follows the
  point; so the dots of a range and of a member are left alone.  A string runs to the first quote
  that is not the second character of a backslash pair.
-/
import Scriptlet.Number.Decimal
import Scriptlet.Source.Cursor

namespace Scriptlet

/-- The value of a number literal. -/
inductive Numeral where
  | int (value : Int64)
  | double (value : Float)
  deriving Repr, Inhabited

/-- What the second character of a backslash pair stands for; an unknown pair stands for itself. -/
def unescape (c : Char) : List Char :=
  if c == 'n' then ['\n']
  else if c == 't' then ['\t']
  else if c == 'r' then ['\r']
  else if c == '"' then ['"']
  else if c == '\\' then ['\\']
  else ['\\', c]

/-- The text up to the closing quote, its pairs resolved, and the count of characters through that
    quote; nothing if the string does not end. -/
def quotedBody : List Char → Option (List Char × Nat)
  | [] => none
  | c :: rest =>
    if c == '"' then some ([], 1)
    else if c == '\\' then
      match rest with
      | [] => none
      | e :: more => (quotedBody more).map fun (body, n) => (unescape e ++ body, n + 2)
    else (quotedBody rest).map fun (body, n) => (c :: body, n + 1)

namespace Cursor

/-- The number literal here, and the cursor after its text. -/
def number (c : Cursor) : Except Error Numeral × Cursor :=
  let whole := c.rest.takeWhile Char.isDigit
  let after := c.rest.drop whole.length
  let fraction := if after.head? == some '.' then after.tail.takeWhile Char.isDigit else []
  if fraction.isEmpty then
    let numeral := match Number.Decimal.word? whole with
      | some n => .ok (.int n)
      | none => .error (.invalidNumber (String.ofList whole))
    (numeral, c.advanceBy whole.length)
  else
    (.ok (.double (Number.Decimal.doubleOfDigits whole fraction)),
      c.advanceBy (whole.length + 1 + fraction.length))

/-- The string literal here, and the cursor after its text; without an end it takes all. -/
def string (c : Cursor) : Except Error String × Cursor :=
  if c.rest.head? == some '"' then
    match quotedBody c.rest.tail with
    | some (body, n) => (.ok (String.ofList body), c.advanceBy (n + 1))
    | none => (.error (c.malformed "unterminated string literal"), c.advanceBy c.rest.length)
  else (.error (c.malformed "expected string literal"), c)

end Cursor

end Scriptlet
