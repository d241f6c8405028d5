/-
  Scriptlet.Sink — where lines go.
-/
namespace Scriptlet

/-- Where lines go. -/
inductive Sink where
  /-- A stream passes each line on at once and holds nothing. -/
  | stream
  /-- A buffer holds its text until it is taken. -/
  | buffer (held : String)
  deriving DecidableEq, Repr, Inhabited

namespace Sink

/-- An empty buffer. -/
def empty : Sink := .buffer ""

/-- Writes a line and its end. -/
def writeLine (sink : Sink) (line : String) : Sink :=
  match sink with
  | .stream => .stream
  | .buffer held => .buffer (held ++ line ++ "\n")

/-- Writes lines one after the other. -/
def writeLines (sink : Sink) (lines : List String) : Sink := lines.foldl writeLine sink

/-- Takes the text that the sink holds. -/
def take : Sink → String × Sink
  | .stream => ("", .stream)
  | .buffer held => (held, .empty)

end Sink

end Scriptlet
