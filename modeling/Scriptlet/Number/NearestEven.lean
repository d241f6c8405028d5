/-
  Scriptlet.Number.NearestEven — the natural number nearest to a quotient.
-/
namespace Scriptlet.Number

/-- The natural number nearest to `num / den`; halfway between two, the even one. -/
def nearestEven (num den : Nat) : Nat :=
  let below := num / den
  let rest := num % den
  if 2 * rest < den then below
  else if den < 2 * rest then below + 1
  else if below % 2 = 0 then below
  else below + 1

end Scriptlet.Number
