/-
  Scriptlet.Command — the command line: runs the script in a file.

  The exit code is 0 when the script reported no error, 1 when it reported some, and 2 when it could
  not be run at all.
-/
import Scriptlet.FileTree
import Scriptlet.Session

namespace Scriptlet.Command

/-- What a run of the command leaves behind. -/
structure Outcome where
  stdout : String
  stderr : String
  exitCode : Nat
  deriving DecidableEq, Repr, Inhabited

/-- How the command is used. -/
def usage : String :=
  "usage: cargo run --example run_file <script.crumb>\n\nsample script: demos/tour.crumb"

/-- The script cannot be run. -/
def refusal (reason : String) : Outcome := ⟨"", "Error: " ++ reason ++ "\n", 2⟩

/-- The script has been run: its lines, and a line more if it reported errors. -/
def completion (stdout diagnostics : String) (errors : Nat) : Outcome :=
  if errors = 0 then ⟨stdout, diagnostics, 0⟩
  else ⟨stdout, diagnostics ++ toString errors ++ " statement(s) failed\n", 1⟩

/-- Runs a program in a new session; nothing if it runs out of fuel. -/
def runProgram (fuel : Nat) (settings : Settings) (program : Program) : Option Outcome := do
  let session : Session := { host := { settings } }
  let (errors, session) ← session.executeWithin fuel program
  let (stdout, session) := session.takeOutput
  return completion stdout session.takeDiagnostics.1 errors.length

/-- Runs the command within so much fuel.  `read` gives the text of a file or the reason why it cannot
    be read. -/
def runWithin (fuel : Nat) (settings : Settings) (read : String → Except ReadFailure String)
    (args : List String) : Option Outcome :=
  match args with
  | [] => some (refusal usage)
  | path :: _ =>
    match read path with
    | .error failure => some (refusal ("reading file '" ++ path ++ "': " ++ failure.message))
    | .ok source =>
      match Program.parse source with
      | .error e => some (refusal ("parsing '" ++ path ++ "': " ++ e.message))
      | .ok program => runProgram fuel settings program

/-- Runs the command. -/
def run (settings : Settings) (read : String → Except ReadFailure String) (args : List String) :
    Option Outcome :=
  runWithin Session.fuel settings read args

end Scriptlet.Command
