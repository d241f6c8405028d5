/-
  Scriptlet.Text.Identifier — the characters a name is made of.
-/
import Scriptlet.Text.Alphabetic
import Scriptlet.Text.Numeric

namespace Scriptlet.Text

/-- Whether a name may begin with the character: a letter or an underscore. -/
def isNameStart (c : Char) : Bool := isAlphabetic c || c == '_'

/-- Whether a name may go on with the character: a letter, a number or an underscore. -/
def isNameChar (c : Char) : Bool := isAlphabetic c || isNumeric c || c == '_'

end Scriptlet.Text
