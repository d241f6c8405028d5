/-
  Scriptlet.Number.Binary — binary floating point formats, read and written exactly.

  A format is fixed by the widths of its fraction and exponent fields.  `Format.read` takes a bit
  pattern apart into the number it stands for, `± mantissa · 2 ^ exponent`; `Format.round` is the bit
  pattern nearest to a quotient of natural numbers, ties going to the even pattern.  Conversions
  between the two widths, from integers and to integers are compositions of these two.
-/
import Scriptlet.Number.NearestEven

namespace Scriptlet.Number

/-! ## §1. Formats and what a bit pattern stands for -/

/-- A binary interchange format: a sign bit, an exponent field, a fraction field. -/
structure Format where
  fractionBits : Nat
  exponentBits : Nat
  deriving DecidableEq, Repr

/-- The 32-bit format. -/
def Format.single : Format := ⟨23, 8⟩

/-- The 64-bit format. -/
def Format.double : Format := ⟨52, 11⟩

/-- What a bit pattern stands for. -/
inductive Reading where
  /-- Not a number. -/
  | nan
  /-- An infinity. -/
  | infinite (negative : Bool)
  /-- The number `± mantissa · 2 ^ exponent`. -/
  | finite (negative : Bool) (mantissa : Nat) (exponent : Int)
  deriving DecidableEq, Repr

namespace Format

/-- The exponent of the last place of the smallest numbers. -/
def minExponent (f : Format) : Int := 2 - Nat.pow 2 (f.exponentBits - 1) - f.fractionBits

/-- The pattern of positive infinity: all exponent bits set, no fraction bit. -/
def infinity (f : Format) : Nat := (Nat.pow 2 f.exponentBits - 1) * Nat.pow 2 f.fractionBits

/-- The sign bit, set or not. -/
def sign (f : Format) (negative : Bool) : Nat :=
  if negative then Nat.pow 2 (f.fractionBits + f.exponentBits) else 0

/-- The pattern chosen for a result that is not a number. -/
def notANumber (f : Format) : Nat := f.infinity + Nat.pow 2 (f.fractionBits - 1)

/-- What the bit pattern stands for. -/
def read (f : Format) (bits : Nat) : Reading :=
  let fraction := bits % Nat.pow 2 f.fractionBits
  let field := bits / Nat.pow 2 f.fractionBits % Nat.pow 2 f.exponentBits
  let negative := bits / Nat.pow 2 (f.fractionBits + f.exponentBits) % 2 == 1
  if field = Nat.pow 2 f.exponentBits - 1 then
    if fraction = 0 then .infinite negative else .nan
  else if field = 0 then .finite negative fraction f.minExponent
  else .finite negative (Nat.pow 2 f.fractionBits + fraction) (f.minExponent + field - 1)

/-! ## §2. Rounding a quotient to a pattern -/

/-- The exponent of the leading binary place of `num / den`, both positive. -/
def leadingPlace (num den : Nat) : Int :=
  let guess : Int := (num.log2 : Int) - den.log2
  let reached :=
    if 0 ≤ guess then den * Nat.pow 2 guess.toNat ≤ num else den ≤ num * Nat.pow 2 (-guess).toNat
  if reached then guess else guess - 1

/-- The pattern, without its sign, nearest to `num / den`; too large a quotient gives infinity. -/
def magnitude (f : Format) (num den : Nat) : Nat :=
  if num = 0 then 0
  else
    let place := max f.minExponent (leadingPlace num den - f.fractionBits)
    let steps :=
      if 0 ≤ place then nearestEven num (den * Nat.pow 2 place.toNat)
      else nearestEven (num * Nat.pow 2 (-place).toNat) den
    min f.infinity ((place - f.minExponent).toNat * Nat.pow 2 f.fractionBits + steps)

/-- The pattern nearest to `± num / den`. -/
def round (f : Format) (negative : Bool) (num den : Nat) : Nat :=
  f.sign negative + f.magnitude num den

/-- The pattern nearest to the number read from a pattern, perhaps of another format. -/
def write (f : Format) : Reading → Nat
  | .nan => f.notANumber
  | .infinite negative => f.sign negative + f.infinity
  | .finite negative mantissa exponent =>
    if 0 ≤ exponent then f.round negative (mantissa * Nat.pow 2 exponent.toNat) 1
    else f.round negative mantissa (Nat.pow 2 (-exponent).toNat)

/-- The pattern nearest to an integer. -/
def ofInt (f : Format) (n : Int) : Nat := f.round (n < 0) n.natAbs 1

end Format

/-! ## §3. Doubles and singles -/

/-- What a double stands for. -/
def readDouble (x : Float) : Reading := Format.double.read x.toBits.toNat

/-- What a single stands for. -/
def readSingle (x : Float32) : Reading := Format.single.read x.toBits.toNat

/-- The double nearest to a reading. -/
def doubleOf (r : Reading) : Float := Float.ofBits (UInt64.ofNat (Format.double.write r))

/-- The single nearest to a reading. -/
def singleOf (r : Reading) : Float32 := Float32.ofBits (UInt32.ofNat (Format.single.write r))

/-- The double of the same value as a single. -/
def widen (x : Float32) : Float := doubleOf (readSingle x)

/-- The single nearest to a double. -/
def narrow (x : Float) : Float32 := singleOf (readDouble x)

/-- The double nearest to an integer. -/
def doubleOfInt (n : Int) : Float := Float.ofBits (UInt64.ofNat (Format.double.ofInt n))

/-- The single nearest to an integer. -/
def singleOfInt (n : Int) : Float32 := Float32.ofBits (UInt32.ofNat (Format.single.ofInt n))

end Scriptlet.Number
