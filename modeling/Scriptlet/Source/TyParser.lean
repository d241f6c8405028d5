/-
  Scriptlet.Source.TyParser — type annotations: `Int`, `[T]`, `[K: V]`, each with any number of `?`.
-/
import Scriptlet.Source.Parser

namespace Scriptlet.Parser

/-- A type, given the reader of types one level down. -/
def tyLevel (deeper : Option (Parser Ty)) (g : Gap) : Parser Ty := do
  gap g
  let base ← if ← accept '[' then within deeper bracketed else named
  iterate question base
where
  /-- The inside of brackets: an element type, or a key type and a value type. -/
  bracketed (inner : Parser Ty) : Parser Ty := do
    let first ← inner
    gap .lines
    if ← accept ':' then
      let value ← inner
      expect .lines ']'
      return .dict first value
    else
      expect .lines ']'
      return .array first
  /-- A type named by a word. -/
  named : Parser Ty := do
    let word ← name g "a type name"
    match Ty.ofName? word with
    | some type => return type
    | none => throw (.unknownType word)
  /-- A mark of optionality, if one follows. -/
  question (type : Ty) : Parser (Round Ty Ty) := do
    if ← accept '?' then return .again (.optional type) else return .done type

/-- A type, with so many levels of brackets left. -/
def ty : Nat → Gap → Parser Ty
  | 0, g => tyLevel none g
  | n + 1, g => tyLevel (some (ty n .lines)) g

end Scriptlet.Parser
