/-
  Scriptlet.Interchange.Json — trees of data, the form in which programs are exchanged.
-/
import Scriptlet.Number.Decimal

namespace Scriptlet

/-- A tree of data. -/
inductive Json where
  | null
  | bool (b : Bool)
  /-- The number `mantissa · 10 ^ (-places)`. -/
  | number (mantissa : Int) (places : Nat)
  | string (s : String)
  | array (items : List Json)
  | object (fields : List (String × Json))
  deriving Repr, Inhabited

namespace Json

/-! ## §1. Size -/

mutual

/-- How many levels the tree has. -/
def depth : Json → Nat
  | array items => depths items + 1
  | object fields => fieldDepths fields + 1
  | _ => 1

/-- The most levels that one of the trees has. -/
def depths : List Json → Nat
  | [] => 0
  | j :: rest => max (depth j) (depths rest)

/-- The most levels that one of the fields has. -/
def fieldDepths : List (String × Json) → Nat
  | [] => 0
  | (_, j) :: rest => max (depth j) (fieldDepths rest)

end

/-! ## §2. Access -/

/-- The field of an object. -/
def field? : Json → String → Option Json
  | object fields, name => fields.lookup name
  | _, _ => none

/-- The items of an array. -/
def items? : Json → Option (List Json)
  | array items => some items
  | _ => none

/-- The string that the tree is. -/
def string? : Json → Option String
  | string s => some s
  | _ => none

/-- The truth value that the tree is. -/
def bool? : Json → Option Bool
  | bool b => some b
  | _ => none

/-- The two items of an array of two. -/
def pair? : Json → Option (Json × Json)
  | array [a, b] => some (a, b)
  | _ => none

/-- A string field. -/
def stringField? (j : Json) (name : String) : Option String := (j.field? name).bind string?

/-- A truth value field. -/
def boolField? (j : Json) (name : String) : Option Bool := (j.field? name).bind bool?

/-- An array field. -/
def itemsField? (j : Json) (name : String) : Option (List Json) := (j.field? name).bind items?

/-- A field that may be missing or null; the outer option is failure to read it. -/
def optionalField? {α : Type} (j : Json) (name : String) (read : Json → Option α) :
    Option (Option α) :=
  match j.field? name with
  | none => some none
  | some null => some none
  | some content => (read content).map some

/-! ## §3. Cases of a type

A case without content is written as its name, one with content as an object whose only field is
named for the case. -/

/-- A case with content. -/
def tagged (name : String) (content : Json) : Json := object [(name, content)]

/-- The name and content of a case; one without content has none or null. -/
def case? : Json → Option (String × Json)
  | string name => some (name, null)
  | object [(name, content)] => some (name, content)
  | _ => none

/-! ## §4. Bit patterns -/

/-- The pattern in hexadecimal, with this many digits. -/
def hexDigits (width n : Nat) : String :=
  let digits := Nat.toDigits 16 n
  String.ofList (List.replicate (width - digits.length) '0' ++ digits)

/-- The value of a hexadecimal digit. -/
def hexValue? (c : Char) : Option Nat :=
  if c.isDigit then some (c.toNat - '0'.toNat)
  else if 'a' ≤ c && c ≤ 'f' then some (c.toNat - 'a'.toNat + 10)
  else if 'A' ≤ c && c ≤ 'F' then some (c.toNat - 'A'.toNat + 10)
  else none

/-- The number that hexadecimal digits stand for. -/
def hexNumber? (digits : String) : Option Nat :=
  if digits.isEmpty then none
  else digits.toList.foldlM (fun n c => (hexValue? c).map (16 * n + ·)) 0

end Json

end Scriptlet
