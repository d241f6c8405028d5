/-
  Scriptlet.Eval.Stmt — statements, given how to evaluate expressions and how to execute blocks.

  An error gives up the statement that raised it; the block reports it and goes on.  So a block never
  fails, and a loop or a call sees errors only from its own expressions.
-/
import Scriptlet.Eval.Expr

namespace Scriptlet.Eval

/-! ## §1. Inner blocks and loops -/

/-- Executes a block in a frame of its own. -/
def innerBlock (execute : Execute) (body : List Stmt) : Run Signal :=
  Run.inFrame .block (execute body)

/-- What a loop does after a round: goes on, or ends with a signal. -/
def afterRound : Signal → Option Signal
  | .next => none
  | .cont => none
  | .brk => some .next
  | .ret v => some (.ret v)

/-- Rounds while the condition holds, at most so many. -/
def whileLoop (condition : Eval Value) (body : Run Signal) : Nat → Eval Signal
  | 0 => outOfFuel
  | rounds + 1 => do
    if (← condition).isTrue then
      match afterRound (← body) with
      | some signal => return signal
      | none => whileLoop condition body rounds
    else return .next

/-- A round for each value. -/
def overValues (round : Value → Eval Signal) : List Value → Eval Signal
  | [] => pure .next
  | v :: rest => do
    match afterRound (← round v) with
    | some signal => return signal
    | none => overValues round rest

/-- A round for each of the integers of a run, from the `k`-th on. -/
def overInts (round : Value → Eval Signal) (run : Progression) (k : Nat) : Nat → Eval Signal
  | 0 => pure .next
  | left + 1 => do
    match afterRound (← round (run.item k)) with
    | some signal => return signal
    | none => overInts round run (k + 1) left

/-- A round for each value of a sequence. -/
def overSequence (round : Value → Eval Signal) : Sequence → Eval Signal
  | .ints run => overInts round run 0 run.count
  | .values items => overValues round items

/-- Whether a call in the head of a `for` counts up without making an array. -/
def countsUp (functions : OrderedMap Func) (name : String) : Bool :=
  name == "range" && !functions.contains name

/-- What a loop over this value visits: the elements of an array or the keys of a dictionary, as they
    are before the first round. -/
def sequenceOf (v : Value) : Eval Sequence := do
  match v with
  | .array ref => return .values ((← get).heap.items ref).toList
  | .dict ref => return .values (((← get).heap.table ref).keys.map .string)
  | v => throw (.wrongKind "array, dict or range" v.kind)

/-- What a `for` visits.  Ranges are not made into arrays. -/
def visited (evaluate : Evaluate) : Expr → Eval Sequence
  | .range first last inclusive => do
    let (a, b) ← rangeEnds evaluate first last
    return .ints (.between a b inclusive)
  | .call name args => do
    if countsUp (← get).functions name then
      let args ← values evaluate args
      let (a, b) ← ofExcept (Builtin.rangeBounds args)
      return .ints (.between a b false)
    else sequenceOf (← evaluate (.call name args))
  | e => do sequenceOf (← evaluate e)

/-- Gives the loop variable its value: a name that is visible already is assigned, else it is bound
    in the loop's own frame. -/
def setItem (reuse : Bool) (name : String) (v : Value) : Eval Unit :=
  if reuse then changeScopes fun s => s.assign name v
  else modify fun s => { s with scopes := s.scopes.rebind name v }

/-- One round of a `for`. -/
def forRound (execute : Execute) (reuse : Bool) (name : String) (body : List Stmt) (v : Value) :
    Eval Signal := do
  setItem reuse name v
  innerBlock execute body

/-- A `for`. -/
def forIn (evaluate : Evaluate) (execute : Execute) (name : String) (iterable : Expr)
    (body : List Stmt) : Eval Signal := do
  let sequence ← visited evaluate iterable
  let reuse := (← get).scopes.isBound name
  let rounds := overSequence (forRound execute reuse name body) sequence
  if reuse then rounds else inFrame .block rounds

/-! ## §2. One statement -/

/-- Registers a function under a name that has none yet. -/
def define (f : Func) : Eval Unit := do
  if (← get).functions.contains f.name then throw (.functionRedefined f.name)
  modify fun s => { s with functions := s.functions.set f.name f }

/-- Announces a statement, if the trace is on. -/
def announce (host : Host) (s : Stmt) : Run Unit :=
  if host.settings.trace then Run.diagnose (.trace s.kind) else pure ()

/-- What a statement does; `rounds` bounds the rounds of a `while`. -/
def effect (evaluate : Evaluate) (execute : Execute) (rounds : Nat) : Stmt → Eval Signal
  | .declare name type value constant => do
    let v ← evaluate value
    changeScopes fun s => s.declare name (type.getD v.inferredType) v constant
    return .next
  | .assign name value => do
    let v ← evaluate value
    changeScopes fun s => s.assign name v
    return .next
  | .storeIndex target index value => do
    let t ← evaluate target
    let i ← evaluate index
    let v ← evaluate value
    changeHeap fun h => h.storeIndex v t i
    return .next
  | .storeMember target name value => do
    let t ← evaluate target
    let v ← evaluate value
    changeHeap fun h => h.storeMember t name v
    return .next
  | .print value => do
    let v ← evaluate value
    Run.print ((← get).heap.text v)
    return .next
  | .expr value => do
    let _ ← evaluate value
    return .next
  | .ifThen condition body => do
    if (← evaluate condition).isTrue then innerBlock execute body else return .next
  | .ifElse condition body otherwise => do
    if (← evaluate condition).isTrue then innerBlock execute body else innerBlock execute otherwise
  | .loop condition body =>
    whileLoop (evaluate condition) (innerBlock execute body) rounds
  | .forIn name iterable body => forIn evaluate execute name iterable body
  | .brk => return .brk
  | .cont => return .cont
  | .func name params returns body => do
    define { name, params, returns, body }
    return .next
  | .ret value => do return .ret (← evaluate value)

/-- Executes a statement, after announcing it. -/
def statement (host : Host) (evaluate : Evaluate) (execute : Execute) (rounds : Nat) (s : Stmt) :
    Eval Signal := do
  announce host s
  effect evaluate execute rounds s

/-! ## §3. Blocks -/

/-- Executes statements until one leaves something to be done; errors are reported. -/
def block (stmt : Stmt → Eval Signal) : List Stmt → Run Signal
  | [] => pure .next
  | s :: rest => do
    match ← (stmt s).run with
    | .ok .next => block stmt rest
    | .ok signal => return signal
    | .error e =>
      Run.report e
      block stmt rest

end Scriptlet.Eval
