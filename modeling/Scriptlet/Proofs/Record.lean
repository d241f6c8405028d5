/-
  Scriptlet.Proofs.Record — runs with a record of what happens in them.

  The evaluator says where a run ends.  Here the same evaluator also writes down, in order, every
  state that it passes through, every statement that it begins, every value that it evaluates and
  every target that it finds to the left of a `?.`.  The record is kept beside the outcome and not in
  it, so what has happened is known also of a run that does not end: with more fuel there is more of
  it.

  Only functions that evaluate or execute a part are written anew; all else is one `step`, taken as
  it is in the evaluator.
-/
import Scriptlet.Eval.Run

namespace Scriptlet

/-! ## §1. Records -/

/-- What is written down. -/
inductive Occasion where
  /-- Something has been done to the state, or looked up in it. -/
  | step
  /-- A statement is about to be executed. -/
  | statement (st : Stmt)
  /-- An expression, or a link of a chain, has this value. -/
  | value (v : Value)
  /-- This is the target of a `?.`. -/
  | link (target : Value)

/-- An occasion and the state at that moment. -/
structure Event where
  occasion : Occasion
  state : State

namespace Event

/-- The statement that is begun at the moment. -/
def begun? (ev : Event) : Option Stmt :=
  match ev.occasion with
  | .statement st => some st
  | _ => none

/-- The value that has been evaluated at the moment. -/
def value? (ev : Event) : Option Value :=
  match ev.occasion with
  | .value v => some v
  | _ => none

/-- The target of a `?.` that is met at the moment. -/
def target? (ev : Event) : Option Value :=
  match ev.occasion with
  | .link target => some target
  | _ => none

end Event

/-- A recorded computation that cannot fail, but may run out of fuel: how it ends, and what has
    happened on the way. -/
def Recording (α : Type) : Type := State → Option (α × State) × List Event

namespace Recording

variable {α β : Type}

/-- How the computation ends. -/
def outcome (x : Recording α) (s : State) : Option (α × State) := (x s).1

/-- What happens in the computation. -/
def log (x : Recording α) (s : State) : List Event := (x s).2

instance : Monad Recording where
  pure a := fun s => (some (a, s), [])
  bind x f := fun s =>
    ((x.outcome s).bind fun p => (f p.1).outcome p.2,
      x.log s ++ (x.outcome s).elim [] fun p => (f p.1).log p.2)

/-- The state is read without a note. -/
instance : MonadReaderOf State Recording where
  read := fun s => (some (s, s), [])

/-- Writes down an occasion. -/
def note (occasion : Occasion) : Recording Unit := fun s => (some ((), s), [⟨occasion, s⟩])

/-- Takes a step and writes down where it has led to. -/
def step (x : Run α) : Recording α := fun s =>
  (x s, (x s).elim [] fun p => [⟨.step, p.2⟩])

/-- Runs a computation in a new frame, which is closed afterwards. -/
def inFrame (kind : FrameKind) (body : Recording α) : Recording α := do
  step (modify fun s => { s with scopes := s.scopes.push kind })
  let result ← body
  step (modify fun s => { s with scopes := s.scopes.pop })
  return result

/-- Runs a computation as one more open call. -/
def inCall (body : Recording α) : Recording α := do
  step (modify fun s => { s with callDepth := s.callDepth + 1 })
  let result ← inFrame .call body
  step (modify fun s => { s with callDepth := s.callDepth - 1 })
  return result

end Recording

/-- A recorded computation that may fail. -/
abbrev Attempt := ExceptT Error Recording

namespace Attempt

variable {α : Type}

/-- Takes a step that may fail. -/
def step (x : Eval α) : Attempt α := ExceptT.mk (Recording.step x.run)

/-- Writes down the value of a computation. -/
def noted (x : Attempt Value) : Attempt Value := do
  let v ← x
  Recording.note (.value v)
  return v

/-- Runs a computation in a new frame, which is closed afterwards, also on failure. -/
def inFrame (kind : FrameKind) (body : Attempt α) : Attempt α :=
  ExceptT.mk (Recording.inFrame kind body.run)

/-- Runs a computation as one more open call, also closed on failure. -/
def inCall (body : Attempt α) : Attempt α := ExceptT.mk (Recording.inCall body.run)

end Attempt

/-! ## §2. The recorded evaluator -/

namespace Record

open Eval (afterRound)

/-- How expressions are evaluated. -/
abbrev Evaluate := Expr → Attempt Value

/-- How a list of statements is executed. -/
abbrev Execute := List Stmt → Recording Signal

/-- The values of expressions, from left to right. -/
def values (evaluate : Evaluate) : List Expr → Attempt (List Value)
  | [] => pure []
  | e :: es => do
    let v ← evaluate e
    let vs ← values evaluate es
    return v :: vs

/-- The entries of a dictionary. -/
def entries (evaluate : Evaluate) : OrderedMap Value → List (Expr × Expr) →
    Attempt (OrderedMap Value)
  | table, [] => pure table
  | table, (k, e) :: rest => do
    let name ← Attempt.step (Eval.key (← evaluate k))
    let v ← evaluate e
    entries evaluate (table.set name v) rest

/-- The two ends of a range. -/
def rangeEnds (evaluate : Evaluate) (first last : Expr) : Attempt (Int64 × Int64) := do
  let a ← evaluate first
  let b ← evaluate last
  return (← Attempt.step (Eval.ofExcept a.asInt), ← Attempt.step (Eval.ofExcept b.asInt))

/-- The value of a parameter. -/
def argument (evaluate : Evaluate) (f : Func) (supplied : Nat) (p : Param) :
    List Value → Attempt Value
  | v :: _ => pure v
  | [] =>
    match p.default with
    | some e => evaluate e
    | none => throw (.wrongArity f.name f.arity supplied)

/-- Binds parameters as constants, in order. -/
def bindParams (evaluate : Evaluate) (f : Func) (supplied : Nat) :
    List Param → List Value → Attempt Unit
  | [], _ => pure ()
  | p :: ps, args => do
    let v ← argument evaluate f supplied p args
    Attempt.step (Eval.changeScopes fun s => s.declare p.name p.type v true)
    bindParams evaluate f supplied ps args.tail

/-- Binds the parameters and executes the body, in the frame of the call. -/
def callBody (evaluate : Evaluate) (execute : Execute) (f : Func) (args : List Value) :
    Attempt Value := do
  bindParams evaluate f args.length f.params args
  let signal ← execute f.body
  Attempt.step (Eval.callResult f signal)

/-- Calls a function. -/
def callFunction (host : Host) (evaluate : Evaluate) (execute : Execute) (f : Func)
    (args : List Expr) : Attempt Value := do
  unless f.arity.accepts args.length do throw (.wrongArity f.name f.arity args.length)
  Attempt.step (Eval.ofExcept (host.admitsCall (← read).callDepth))
  let args ← values evaluate args
  Attempt.inCall (callBody evaluate execute f args)

/-- A call by name. -/
def call (host : Host) (evaluate : Evaluate) (execute : Execute) (name : String)
    (args : List Expr) : Attempt Value := do
  match ← Attempt.step (Eval.callee host name) with
  | .function f => callFunction host evaluate execute f args
  | .tool => do
    let args ← values evaluate args
    Attempt.step (Eval.callTool host name args)

/-- Writes down the target of a `?.`, if the chain has got there. -/
def noteLink (optional : Bool) : Option Value → Recording Unit
  | none => pure ()
  | some target => if optional then Recording.note (.link target) else pure ()

/-- The value of a chain of indices, members and methods; none if a `?.` ended it. -/
def chain (evaluate : Evaluate) : Expr → Attempt (Option Value)
  | .index target index => do
    match ← chain evaluate target with
    | none => return none
    | some t =>
      let i ← evaluate index
      return some (← Attempt.noted (Attempt.step (Eval.ofExcept ((← read).heap.index t i))))
  | .member target name optional => do
    let reached ← chain evaluate target
    noteLink optional reached
    match reached.bind (Eval.linkTarget optional) with
    | none => return none
    | some t =>
      return some (← Attempt.noted (Attempt.step (Eval.ofExcept ((← read).heap.member t name))))
  | .method target name args optional => do
    let reached ← chain evaluate target
    noteLink optional reached
    match reached.bind (Eval.linkTarget optional) with
    | none => return none
    | some t =>
      let args ← values evaluate args
      return some
        (← Attempt.noted (Attempt.step (Eval.ofAlloc fun h => h.callMethod t name args)))
  | e => do return some (← evaluate e)

/-- The value of an expression. -/
def expression (host : Host) (evaluate : Evaluate) (execute : Execute) : Expr → Attempt Value
  | .nil => pure .nil
  | .bool b => pure (.bool b)
  | .int n => pure (.int n)
  | .double x => pure (.double x)
  | .string s => pure (.string s)
  | .var name => Attempt.step (Eval.variableValue host name)
  | .binary op left right => do
    let a ← evaluate left
    if Eval.decided op a then return a
    let b ← evaluate right
    Attempt.step (Eval.ofExcept (op.apply a b))
  | .unary op operand => do
    let a ← evaluate operand
    Attempt.step (Eval.ofExcept (op.apply a))
  | .call name args => call host evaluate execute name args
  | .array items => do
    let vs ← values evaluate items
    Attempt.step (Eval.ofAlloc (Alloc.make (·.newArray vs.toArray)))
  | .dict pairs => do
    let table ← entries evaluate .empty pairs
    Attempt.step (Eval.ofAlloc (Alloc.make (·.newDict table)))
  | .range first last inclusive => do
    let (a, b) ← rangeEnds evaluate first last
    Attempt.step (Eval.ofAlloc (rangeArray a b inclusive))
  | .index target index => do return (← chain evaluate (.index target index)).getD .nil
  | .member target name optional => do
    return (← chain evaluate (.member target name optional)).getD .nil
  | .method target name args optional => do
    return (← chain evaluate (.method target name args optional)).getD .nil

/-- Executes a block in a frame of its own. -/
def innerBlock (execute : Execute) (body : List Stmt) : Recording Signal :=
  Recording.inFrame .block (execute body)

/-- Rounds while the condition holds, at most so many. -/
def whileLoop (condition : Attempt Value) (body : Recording Signal) : Nat → Attempt Signal
  | 0 => Attempt.step Eval.outOfFuel
  | rounds + 1 => do
    if (← condition).isTrue then
      match afterRound (← body) with
      | some signal => return signal
      | none => whileLoop condition body rounds
    else return .next

/-- A round for each value. -/
def overValues (round : Value → Attempt Signal) : List Value → Attempt Signal
  | [] => pure .next
  | v :: rest => do
    match afterRound (← round v) with
    | some signal => return signal
    | none => overValues round rest

/-- A round for each of the integers of a run, from the `k`-th on. -/
def overInts (round : Value → Attempt Signal) (run : Progression) (k : Nat) : Nat → Attempt Signal
  | 0 => pure .next
  | left + 1 => do
    match afterRound (← round (run.item k)) with
    | some signal => return signal
    | none => overInts round run (k + 1) left

/-- A round for each value of a sequence. -/
def overSequence (round : Value → Attempt Signal) : Sequence → Attempt Signal
  | .ints run => overInts round run 0 run.count
  | .values items => overValues round items

/-- What a `for` visits. -/
def visited (evaluate : Evaluate) : Expr → Attempt Sequence
  | .range first last inclusive => do
    let (a, b) ← rangeEnds evaluate first last
    return .ints (.between a b inclusive)
  | .call name args => do
    if Eval.countsUp (← read).functions name then
      let args ← values evaluate args
      let (a, b) ← Attempt.step (Eval.ofExcept (Builtin.rangeBounds args))
      return .ints (.between a b false)
    else
      let v ← evaluate (.call name args)
      Attempt.step (Eval.sequenceOf v)
  | e => do
    let v ← evaluate e
    Attempt.step (Eval.sequenceOf v)

/-- One round of a `for`. -/
def forRound (execute : Execute) (reuse : Bool) (name : String) (body : List Stmt) (v : Value) :
    Attempt Signal := do
  Attempt.step (Eval.setItem reuse name v)
  innerBlock execute body

/-- A `for`. -/
def forIn (evaluate : Evaluate) (execute : Execute) (name : String) (iterable : Expr)
    (body : List Stmt) : Attempt Signal := do
  let sequence ← visited evaluate iterable
  let reuse := (← read).scopes.isBound name
  let rounds := overSequence (forRound execute reuse name body) sequence
  if reuse then rounds else Attempt.inFrame .block rounds

/-- What a statement does; `rounds` bounds the rounds of a `while`. -/
def effect (evaluate : Evaluate) (execute : Execute) (rounds : Nat) : Stmt → Attempt Signal
  | .declare name type value constant => do
    let v ← evaluate value
    Attempt.step (Eval.changeScopes fun s => s.declare name (type.getD v.inferredType) v constant)
    return .next
  | .assign name value => do
    let v ← evaluate value
    Attempt.step (Eval.changeScopes fun s => s.assign name v)
    return .next
  | .storeIndex target index value => do
    let t ← evaluate target
    let i ← evaluate index
    let v ← evaluate value
    Attempt.step (Eval.changeHeap fun h => h.storeIndex v t i)
    return .next
  | .storeMember target name value => do
    let t ← evaluate target
    let v ← evaluate value
    Attempt.step (Eval.changeHeap fun h => h.storeMember t name v)
    return .next
  | .print value => do
    let v ← evaluate value
    Attempt.step (liftM (Run.print ((← read).heap.text v)))
    return .next
  | .expr value => do
    let _ ← evaluate value
    return .next
  | .ifThen condition body => do
    if (← evaluate condition).isTrue then innerBlock execute body else return .next
  | .ifElse condition body otherwise => do
    if (← evaluate condition).isTrue then innerBlock execute body else innerBlock execute otherwise
  | .loop condition body => whileLoop (evaluate condition) (innerBlock execute body) rounds
  | .forIn name iterable body => forIn evaluate execute name iterable body
  | .brk => return .brk
  | .cont => return .cont
  | .func name params returns body => do
    Attempt.step (Eval.define { name, params, returns, body })
    return .next
  | .ret value => do return .ret (← evaluate value)

/-- Writes down that a statement is begun, and announces it if the trace is on. -/
def announce (host : Host) (st : Stmt) : Recording Unit := do
  Recording.note (.statement st)
  Recording.step (Eval.announce host st)

/-- Executes a statement, after announcing it. -/
def statement (host : Host) (evaluate : Evaluate) (execute : Execute) (rounds : Nat) (st : Stmt) :
    Attempt Signal := do
  announce host st
  effect evaluate execute rounds st

/-- Executes statements until one leaves something to be done; errors are reported. -/
def block (stmt : Stmt → Attempt Signal) : List Stmt → Recording Signal
  | [] => pure .next
  | st :: rest => do
    match ← (stmt st).run with
    | .ok .next => block stmt rest
    | .ok signal => return signal
    | .error e =>
      Recording.step (Run.report e)
      block stmt rest

mutual

/-- Evaluates an expression and writes down its value. -/
def eval (host : Host) : Nat → Expr → Attempt Value
  | 0, _ => Attempt.step Eval.outOfFuel
  | fuel + 1, e => Attempt.noted (expression host (eval host fuel) (exec host fuel) e)

/-- Executes statements in the current frame. -/
def exec (host : Host) : Nat → List Stmt → Recording Signal
  | 0, _ => Recording.step Run.outOfFuel
  | fuel + 1, body => block (statement host (eval host fuel) (exec host fuel) fuel) body

end

end Record

end Scriptlet
