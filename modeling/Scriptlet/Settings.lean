/-
  Scriptlet.Settings — how a run is traced and how deep its calls may go.
-/
import Scriptlet.Number.Decimal
import Scriptlet.Text.Blank

namespace Scriptlet

/-- The settings of a run. -/
structure Settings where
  /-- Whether each statement is announced before it is executed. -/
  trace : Bool := false
  /-- How many calls may be open at once; without a limit, any number. -/
  maxCallDepth : Option Nat := none
  deriving DecidableEq, Repr, Inhabited

namespace Settings

/-- The environment variable that turns the trace on. -/
def traceVariable : String := "CRUMB_TRACE"

/-- The environment variable that limits the depth of calls. -/
def depthVariable : String := "CRUMB_MAX_CALL_DEPTH"

/-- Whether the text turns a setting on. -/
def isOn (text : String) : Bool :=
  let word := String.ofList (Text.trim text.toList)
  word == "1" || word == "true"

/-- The positive number that the text is, below `2 ^ 64`. -/
def positive? (text : String) : Option Nat :=
  (Number.Decimal.unsigned? (Text.trim text.toList)).filter (0 < ·)

/-- The settings that the two environment variables give; what they do not say is left out. -/
def ofTexts (trace depth : Option String) : Settings where
  trace := trace.any isOn
  maxCallDepth := depth.bind positive?

end Settings

end Scriptlet
