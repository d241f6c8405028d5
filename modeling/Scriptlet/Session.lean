/-
  Scriptlet.Session — one run after another on the same state.

  A session keeps bindings, functions, objects and pending errors from step to step.  After each step
  the new lines are delivered to the session's two sinks.
-/
import Scriptlet.Eval.Run
import Scriptlet.Sink
import Scriptlet.Source.StmtParser

namespace Scriptlet

/-- A host, a state, and where the lines go. -/
structure Session where
  host : Host := {}
  state : State := {}
  /-- Where printed lines go. -/
  out : Sink := .empty
  /-- Where diagnostics go. -/
  diag : Sink := .empty

namespace Session

variable {α : Type}

/-- The fuel of a step: far more than a step that ends can use. -/
def fuel : Nat := Nat.pow 2 60

/-- Delivers the new lines of the state to the sinks. -/
def deliver (s : Session) : Session :=
  { s with
    out := s.out.writeLines s.state.printed.toList
    diag := s.diag.writeLines (s.state.diagnostics.toList.map Diagnostic.text)
    state := { s.state with printed := #[], diagnostics := #[] } }

/-- Performs a computation and delivers its lines; nothing if it runs out of fuel. -/
def perform (s : Session) (x : Run α) : Option (α × Session) := do
  let (a, state) ← x s.state
  return (a, deliver { s with state })

/-- Executes a program within so much fuel; gives the errors reported up to its end. -/
def executeWithin (s : Session) (fuel : Nat) (program : Program) : Option (List Error × Session) :=
  s.perform (program.exec s.host fuel)

/-- Executes a program. -/
def execute (s : Session) (program : Program) : Option (List Error × Session) :=
  s.executeWithin fuel program

/-- Executes the program that a text holds.  A text that holds none is reported and changes nothing
    else. -/
def run (s : Session) (source : String) : Option (Except Error (List Error) × Session) :=
  s.perform
    (match Program.parse source with
      | .ok program => do return .ok (← program.exec s.host fuel)
      | .error e => do
        Run.diagnose (.error e)
        return .error e)

/-- Executes the statements that a text holds, without taking the errors they report. -/
def block (s : Session) (source : String) : Option (Except Error Signal × Session) :=
  s.perform
    (match Program.parse source with
      | .ok body => do return .ok (← Block.exec s.host fuel body)
      | .error e => return .error e)

/-- Evaluates the expression that a text holds. -/
def eval (s : Session) (source : String) : Option (Except Error Value × Session) :=
  s.perform
    (match Expr.parse source with
      | .ok e => (Expr.eval s.host fuel e).run
      | .error e => return .error e)

/-- The visible binding of a name. -/
def binding? (s : Session) (name : String) : Option Binding := s.state.scopes.get? name

/-- The function of a name that the script has declared. -/
def function? (s : Session) (name : String) : Option Func := s.state.functions.get? name

/-- Takes the text of printed lines. -/
def takeOutput (s : Session) : String × Session :=
  let (text, out) := s.out.take
  (text, { s with out })

/-- Takes the text of diagnostics. -/
def takeDiagnostics (s : Session) : String × Session :=
  let (text, diag) := s.diag.take
  (text, { s with diag })

end Session

end Scriptlet
