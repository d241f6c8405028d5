/-
  Scriptlet.Number.Decimal — numerals in base ten: reading integers and doubles, and writing a
  number with a fixed count of places.

  Both directions are exact: a numeral is read as a quotient of natural numbers and rounded once, and
  a number is written by rounding its exact value once.
-/
import Scriptlet.Number.Word

namespace Scriptlet.Number.Decimal

/-! ## §1. Integers -/

/-- The value of a run of digits, read in base ten. -/
def digitsValue (ds : List Char) : Nat :=
  ds.foldl (fun n d => 10 * n + (d.toNat - '0'.toNat)) 0

/-- A non-empty run of digits. -/
def natural? (cs : List Char) : Option Nat :=
  if !cs.isEmpty && cs.all Char.isDigit then some (digitsValue cs) else none

/-- A sign, if there is one, and the rest; `true` is minus. -/
def splitSign : List Char → Bool × List Char
  | '-' :: rest => (true, rest)
  | '+' :: rest => (false, rest)
  | cs => (false, cs)

/-- An optional sign and digits. -/
def integer? (cs : List Char) : Option Int :=
  let (negative, rest) := splitSign cs
  (natural? rest).map fun n => if negative then -(n : Int) else n

/-- An integer numeral in the range of words. -/
def word? (cs : List Char) : Option Int64 := (integer? cs).bind Word.ofInt?

/-- A numeral without minus sign for a number below `2 ^ 64`. -/
def unsigned? : List Char → Option Nat
  | '+' :: rest => (natural? rest).filter (· < UInt64.size)
  | cs => (natural? cs).filter (· < UInt64.size)

/-! ## §2. Doubles -/

/-- Decimal exponents beyond this are past every double, on either side. -/
def exponentBound : Int := 400

/-- The pattern of the double nearest to `± mantissa · 10 ^ exponent`. -/
def doublePattern (negative : Bool) (mantissa : Nat) (exponent : Int) : Nat :=
  let f := Format.double
  let leading := exponent + (Nat.toDigits 10 mantissa).length
  if mantissa = 0 || leading < -exponentBound then f.sign negative
  else if exponentBound < leading then f.sign negative + f.infinity
  else if 0 ≤ exponent then f.round negative (mantissa * Nat.pow 10 exponent.toNat) 1
  else f.round negative mantissa (Nat.pow 10 (-exponent).toNat)

/-- The double nearest to `± mantissa · 10 ^ exponent`. -/
def double (negative : Bool) (mantissa : Nat) (exponent : Int) : Float :=
  Float.ofBits (UInt64.ofNat (doublePattern negative mantissa exponent))

/-- The double of the numeral with these digits before and after the point. -/
def doubleOfDigits (whole fraction : List Char) : Float :=
  double false (digitsValue (whole ++ fraction)) (-(fraction.length : Int))

/-- The part of a numeral after its digits: nothing, or an exponent. -/
def exponent? : List Char → Option Int
  | [] => some 0
  | c :: rest => if c == 'e' || c == 'E' then integer? rest else none

/-- Digits with at most one point among them and an optional exponent; one digit at least. -/
def unsignedDouble? (negative : Bool) (cs : List Char) : Option Float :=
  let whole := cs.takeWhile Char.isDigit
  let rest := cs.dropWhile Char.isDigit
  let (fraction, tail) := match rest with
    | '.' :: more => (more.takeWhile Char.isDigit, more.dropWhile Char.isDigit)
    | _ => ([], rest)
  if whole.isEmpty && fraction.isEmpty then none
  else (exponent? tail).map fun e =>
    double negative (digitsValue (whole ++ fraction)) (e - fraction.length)

/-- A numeral for a double: an optional sign, then digits or a word for infinity or not-a-number,
    in letters of either case. -/
def double? (cs : List Char) : Option Float :=
  let (negative, rest) := splitSign cs
  let name := String.ofList (rest.map Char.toLower)
  if name == "inf" || name == "infinity" then some (doubleOf (.infinite negative))
  else if name == "nan" then some (doubleOf .nan)
  else unsignedDouble? negative rest

/-! ## §3. Fixed places -/

/-- The digits of `n`, with zeros before them up to the width. -/
def padded (width n : Nat) : String :=
  let digits := toString n
  String.ofList (List.replicate (width - digits.length) '0') ++ digits

/-- The value in units of the last of `places` decimal places, rounded to nearest, ties to even. -/
def scaled (places mantissa : Nat) (exponent : Int) : Nat :=
  if 0 ≤ exponent then mantissa * Nat.pow 2 exponent.toNat * Nat.pow 10 places
  else nearestEven (mantissa * Nat.pow 10 places) (Nat.pow 2 (-exponent).toNat)

/-- The number with this many decimal places, its sign kept also at zero. -/
def fixed (places : Nat) : Reading → String
  | .nan => "NaN"
  | .infinite negative => if negative then "-inf" else "inf"
  | .finite negative mantissa exponent =>
    let units := scaled places mantissa exponent
    (if negative then "-" else "") ++ toString (units / Nat.pow 10 places) ++ "." ++
      padded places (units % Nat.pow 10 places)

end Scriptlet.Number.Decimal
