/-
  Scriptlet.Proofs.Watch — runs under observation.

  An outcome says where a run ends and not what it has gone through.  A `Watch` puts a question each
  time a call has been opened and each time a statement has failed; a run that gets a no has no
  outcome.  So that a watched run has one says something about every such moment.

  An endless run has no outcome either, whatever it is asked.  A watch may therefore give up where the
  fuel is used up: the part that is cut off then counts as one that has come to nothing, and the run
  goes on after it.  With enough fuel this comes after any given moment of the endless run, so that a
  watch which gives up asks at every moment of it, and at others besides.

  Main results:
    * `Watch.eval_plain` and `Watch.exec_plain` — a watch that asks nothing and does not give up
        leaves every run as it is.
-/
import Scriptlet.Eval.Run

namespace Scriptlet

/-! ## §1. Watched runs -/

/-- What is asked of a run on the way. -/
structure Watch where
  /-- What surrounds the run. -/
  host : Host
  /-- Asked in the state in which a call has just been opened. -/
  opened : State → Bool := fun _ => true
  /-- Asked when a statement has failed with an error, in the state that it has reached. -/
  failed : Error → State → Bool := fun _ _ => true
  /-- Whether to go on where the fuel is used up. -/
  givesUp : Bool := false

namespace Watch

open Eval

variable {α : Type}

/-- Puts a question; on a no there is no outcome. -/
def ask (question : State → Bool) : Run Unit := fun s =>
  if question s then some ((), s) else none

/-- A question that is answered yes changes nothing. -/
theorem ask_yes {question : State → Bool} {s : State} (h : question s = true) :
    ask question s = some ((), s) := if_pos h

/-- A question that is answered no ends the watch, as running out of fuel does. -/
theorem ask_no {question : State → Bool} {s : State} (h : question s = false) :
    ask question s = none := by
  rw [ask, h]
  rfl

/-- A watch that goes on has its answer, and the state it asked about. -/
theorem ask_eq_some {question : State → Bool} {s t : State} {a : Unit}
    (h : ask question s = some (a, t)) : question s = true ∧ t = s := by
  cases hanswer : question s with
  | true =>
    rw [ask_yes hanswer] at h
    cases h
    exact ⟨rfl, rfl⟩
  | false =>
    rw [ask_no hanswer] at h
    cases h

/-- Where the fuel is used up. -/
def cutOff (w : Watch) (a : α) : Run α := if w.givesUp then pure a else Run.outOfFuel

/-- Calls a function and asks once the call is open. -/
def callFunction (w : Watch) (evaluate : Evaluate) (execute : Execute) (f : Func)
    (args : List Expr) : Eval Value := do
  unless f.arity.accepts args.length do throw (.wrongArity f.name f.arity args.length)
  Eval.ofExcept (w.host.admitsCall (← get).callDepth)
  let args ← values evaluate args
  inCall do
    ask w.opened
    callBody evaluate execute f args

/-- A call by name. -/
def call (w : Watch) (evaluate : Evaluate) (execute : Execute) (name : String)
    (args : List Expr) : Eval Value := do
  match ← callee w.host name with
  | .function f => w.callFunction evaluate execute f args
  | .tool => callTool w.host name (← values evaluate args)

/-- The value of an expression. -/
def expression (w : Watch) (evaluate : Evaluate) (execute : Execute) : Expr → Eval Value
  | .call name args => w.call evaluate execute name args
  | e => Eval.expression w.host evaluate execute e

/-- Rounds while the condition holds, at most so many. -/
def whileLoop (w : Watch) (condition : Eval Value) (body : Run Signal) : Nat → Eval Signal
  | 0 => liftM (w.cutOff Signal.next)
  | rounds + 1 => do
    if (← condition).isTrue then
      match afterRound (← body) with
      | some signal => return signal
      | none => w.whileLoop condition body rounds
    else return .next

/-- What a statement does. -/
def effect (w : Watch) (evaluate : Evaluate) (execute : Execute) (rounds : Nat) :
    Stmt → Eval Signal
  | .loop condition body => w.whileLoop (evaluate condition) (innerBlock execute body) rounds
  | st => Eval.effect evaluate execute rounds st

/-- Executes a statement, after announcing it. -/
def statement (w : Watch) (evaluate : Evaluate) (execute : Execute) (rounds : Nat) (st : Stmt) :
    Eval Signal := do
  announce w.host st
  w.effect evaluate execute rounds st

/-- Executes statements and asks before an error is reported. -/
def block (w : Watch) (stmt : Stmt → Eval Signal) : List Stmt → Run Signal
  | [] => pure .next
  | st :: rest => do
    match ← (stmt st).run with
    | .ok .next => w.block stmt rest
    | .ok signal => return signal
    | .error e =>
      ask (w.failed e)
      Run.report e
      w.block stmt rest

mutual

/-- Evaluates an expression under watch. -/
def eval (w : Watch) : Nat → Expr → Eval Value
  | 0, _ => liftM (w.cutOff Value.nil)
  | fuel + 1, e => w.expression (w.eval fuel) (w.exec fuel) e

/-- Executes statements under watch. -/
def exec (w : Watch) : Nat → List Stmt → Run Signal
  | 0, _ => w.cutOff Signal.next
  | fuel + 1, body => w.block (w.statement (w.eval fuel) (w.exec fuel) fuel) body

end

/-! ## §2. A watch that asks nothing -/

/-- Nothing is asked, and where the fuel is used up there is no outcome. -/
def plain (host : Host) : Watch where
  host := host

variable (host : Host) {evaluate : Evaluate} {execute : Execute}

theorem call_plain (name : String) (args : List Expr) :
    (plain host).call evaluate execute name args = Eval.call host evaluate execute name args := rfl

/-- Calls are the only expressions that are watched. -/
theorem expression_plain (e : Expr) :
    (plain host).expression evaluate execute e = Eval.expression host evaluate execute e := by
  cases e with
  | call name args => exact call_plain host name args
  | _ => rfl

/-- A loop is watched where its rounds are used up; here it then runs out of fuel as ever. -/
theorem whileLoop_plain (condition : Eval Value) (body : Run Signal) (rounds : Nat) :
    (plain host).whileLoop condition body rounds = Eval.whileLoop condition body rounds := by
  induction rounds with
  | zero => rfl
  | succ rounds ih =>
    unfold whileLoop Eval.whileLoop
    refine bind_congr fun v => ?_
    split
    · refine bind_congr fun signal => ?_
      cases afterRound signal with
      | none => exact ih
      | some last => rfl
    · rfl

theorem effect_plain (rounds : Nat) (st : Stmt) :
    (plain host).effect evaluate execute rounds st = Eval.effect evaluate execute rounds st := by
  cases st with
  | loop condition body => exact whileLoop_plain host _ _ rounds
  | _ => rfl

theorem statement_plain (rounds : Nat) (st : Stmt) :
    (plain host).statement evaluate execute rounds st =
      Eval.statement host evaluate execute rounds st := by
  unfold statement Eval.statement
  rw [effect_plain]
  rfl

/-- A block asks before it reports an error, and to this question the answer is always yes. -/
theorem block_plain (stmt : Stmt → Eval Signal) (body : List Stmt) :
    (plain host).block stmt body = Eval.block stmt body := by
  induction body with
  | nil => rfl
  | cons st rest ih =>
    unfold block Eval.block
    rw [ih]
    rfl

/-- **A watch that asks nothing leaves every run as it is**: one induction on the fuel for
    expressions and statements together. -/
theorem run_plain (fuel : Nat) :
    (plain host).eval fuel = Expr.eval host fuel ∧
      (plain host).exec fuel = Block.exec host fuel := by
  induction fuel with
  | zero => exact ⟨rfl, rfl⟩
  | succ fuel ih =>
    obtain ⟨heval, hexec⟩ := ih
    constructor
    -- an expression runs its parts with one fuel less
    · funext e
      unfold eval Expr.eval
      rw [heval, hexec, expression_plain]
    -- and a block its statements, each of them with the fuel that is left
    · funext body
      unfold exec Block.exec
      rw [heval, hexec, block_plain]
      congr 1
      funext st
      exact statement_plain host fuel st

theorem eval_plain (fuel : Nat) : (plain host).eval fuel = Expr.eval host fuel :=
  (run_plain host fuel).1

theorem exec_plain (fuel : Nat) : (plain host).exec fuel = Block.exec host fuel :=
  (run_plain host fuel).2

end Watch

end Scriptlet
