/-
  Scriptlet.Main — the executable: reads the file and the environment, writes the two streams.
-/
import Scriptlet.Command

namespace Scriptlet

/-- The reason why a file cannot be read. -/
def ReadFailure.ofError : IO.Error → ReadFailure
  | .noFileOrDirectory .. => .missing
  | .permissionDenied .. => .denied
  | .inappropriateType _ _ details =>
    if details == "not a directory" then .notFolder else .isFolder
  | .invalidArgument _ _ details =>
    if details == "name too long" then .tooLong else .other details
  | e => .other (toString e)

/-- Reads a text file, or tells why not. -/
def readSource (path : String) : IO (Except ReadFailure String) := do
  try
    match String.fromUTF8? (← IO.FS.readBinFile path) with
    | some text => return .ok text
    | none => return .error .notText
  catch e =>
    return .error (.ofError e)

end Scriptlet

open Scriptlet

def main (args : List String) : IO UInt32 := do
  let settings := Settings.ofTexts
    (← IO.getEnv Settings.traceVariable) (← IO.getEnv Settings.depthVariable)
  let source ← match args with
    | [] => pure (.error .missing)
    | path :: _ => readSource path
  match Command.run settings (fun _ => source) args with
  | none => return 3
  | some outcome =>
    (← IO.getStdout).putStr outcome.stdout
    (← IO.getStderr).putStr outcome.stderr
    return UInt32.ofNat outcome.exitCode
