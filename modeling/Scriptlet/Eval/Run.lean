/-
  Scriptlet.Eval.Run — evaluation and execution, bounded by fuel.

  Every descent into a part takes one unit, and a `while` may run as many rounds as fuel is left.  A
  computation that ends with some fuel ends the same way with more.
-/
import Scriptlet.Eval.Stmt

namespace Scriptlet

mutual

/-- Evaluates an expression. -/
def Expr.eval (host : Host) : Nat → Expr → Eval Value
  | 0, _ => Eval.outOfFuel
  | fuel + 1, e => Eval.expression host (Expr.eval host fuel) (Block.exec host fuel) e

/-- Executes statements in the current frame. -/
def Block.exec (host : Host) : Nat → List Stmt → Run Signal
  | 0, _ => Run.outOfFuel
  | fuel + 1, body =>
    Eval.block (Eval.statement host (Expr.eval host fuel) (Block.exec host fuel) fuel) body

end

/-- The error that a signal is at the top level. -/
def Signal.stray? : Signal → Option Error
  | .next => none
  | .brk => some (.outsideLoop .brk)
  | .cont => some (.outsideLoop .cont)
  | .ret _ => some .outsideFunction

/-- Executes a program and hands over the errors reported so far. -/
def Program.exec (host : Host) (fuel : Nat) (program : Program) : Run (List Error) := do
  let signal ← Block.exec host fuel program
  match signal.stray? with
  | some e => Run.report e
  | none => pure ()
  modifyGet fun s => (s.pending.toList, { s with pending := #[] })

end Scriptlet
