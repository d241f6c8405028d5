/-
  Scriptlet.Text.CodeRange — character classes given by ranges of code points.

  A class of characters is a table of closed ranges; `CodeRange.covers` decides membership.  The
  tables themselves live in modules named for the property they hold.
-/
namespace Scriptlet.Text

/-- A closed range of code points, first and last. -/
abbrev CodeRange := Nat × Nat

/-- Whether some range of the table holds the character. -/
def CodeRange.covers (table : Array CodeRange) (c : Char) : Bool :=
  table.any fun range => range.1 ≤ c.toNat && c.toNat ≤ range.2

end Scriptlet.Text
