/-
  Scriptlet.Eval.Expr — expressions, given how to evaluate their parts and how to run a block.

  Nothing here recurses on fuel: `evaluate` stands for the evaluation of parts and `execute` for the
  execution of a function's body.  Chains of indices, members and methods are followed from their
  base outward; a `?.` on an absent target ends the whole chain with `nil`.
-/
import Scriptlet.Eval.State
import Scriptlet.Value.Access
import Scriptlet.Value.Operator

namespace Scriptlet.Eval

/-- How expressions are evaluated. -/
abbrev Evaluate := Expr → Eval Value

/-- How a list of statements is executed. -/
abbrev Execute := List Stmt → Run Signal

/-! ## §1. Several expressions -/

/-- The values of expressions, from left to right. -/
def values (evaluate : Evaluate) : List Expr → Eval (List Value)
  | [] => pure []
  | e :: es => do
    let v ← evaluate e
    let vs ← values evaluate es
    return v :: vs

/-- The string that a key of a dictionary must be. -/
def key : Value → Eval String
  | .string s => pure s
  | v => throw (.wrongKind "string key" v.kind)

/-- The entries of a dictionary, a later one in place of an earlier one of the same key. -/
def entries (evaluate : Evaluate) : OrderedMap Value → List (Expr × Expr) → Eval (OrderedMap Value)
  | table, [] => pure table
  | table, (k, e) :: rest => do
    let name ← key (← evaluate k)
    let v ← evaluate e
    entries evaluate (table.set name v) rest

/-- The two ends of a range, both evaluated before either is checked. -/
def rangeEnds (evaluate : Evaluate) (first last : Expr) : Eval (Int64 × Int64) := do
  let a ← evaluate first
  let b ← evaluate last
  return (← ofExcept a.asInt, ← ofExcept b.asInt)

/-! ## §2. Names -/

/-- The value of a variable: a visible binding, else a module's export. -/
def variableValue (host : Host) (name : String) : Eval Value := do
  match (← get).scopes.get? name with
  | some b => return b.value
  | none =>
    match ← ofExcept (host.resolver name) with
    | some (.value v) => return v
    | some (.function _) => throw (.moduleFailure name "exported function used as a value")
    | none => throw (.undefinedVariable name)

/-- What a call of a name runs. -/
inductive Callee where
  /-- A function of the script or of a module. -/
  | function (f : Func)
  /-- The tool of that name. -/
  | tool

/-- What a call of a name runs: a function of the script, else a tool, else a module's function. -/
def callee (host : Host) (name : String) : Eval Callee := do
  match (← get).functions.get? name with
  | some f => return .function f
  | none =>
    if host.tools.contains name then return .tool
    match ← ofExcept (host.resolver name) with
    | some (.function f) => return .function f
    | some (.value _) => throw (.moduleFailure name "exported value is not callable")
    | none => throw (.undefinedFunction name)

/-! ## §3. Calls -/

/-- The value of a parameter: the argument, else the default, evaluated in the callee's frame. -/
def argument (evaluate : Evaluate) (f : Func) (supplied : Nat) (p : Param) :
    List Value → Eval Value
  | v :: _ => pure v
  | [] =>
    match p.default with
    | some e => evaluate e
    | none => throw (.wrongArity f.name f.arity supplied)

/-- Binds parameters as constants, in order. -/
def bindParams (evaluate : Evaluate) (f : Func) (supplied : Nat) :
    List Param → List Value → Eval Unit
  | [], _ => pure ()
  | p :: ps, args => do
    let v ← argument evaluate f supplied p args
    changeScopes fun s => s.declare p.name p.type v true
    bindParams evaluate f supplied ps args.tail

/-- The result of a call, from what its body left to be done. -/
def callResult (f : Func) : Signal → Eval Value
  | .ret v => ofAlloc (f.returns.coerce v)
  | .next => throw (.missingReturn f.name)
  | .brk => throw (.outsideLoop .brk)
  | .cont => throw (.outsideLoop .cont)

/-- Binds the parameters and executes the body, in the frame of the call. -/
def callBody (evaluate : Evaluate) (execute : Execute) (f : Func) (args : List Value) :
    Eval Value := do
  bindParams evaluate f args.length f.params args
  let signal ← execute f.body
  callResult f signal

/-- Calls a function: the number of arguments and the depth of calls are checked before any argument
    is evaluated. -/
def callFunction (host : Host) (evaluate : Evaluate) (execute : Execute) (f : Func)
    (args : List Expr) : Eval Value := do
  unless f.arity.accepts args.length do throw (.wrongArity f.name f.arity args.length)
  ofExcept (host.admitsCall (← get).callDepth)
  let args ← values evaluate args
  inCall (callBody evaluate execute f args)

/-- Calls a tool on the current heap. -/
def callTool (host : Host) (name : String) (args : List Value) : Eval Value := do
  let (result, heap) := host.tools.call name args (← get).heap
  modify fun s => { s with heap }
  ofExcept result

/-- A call by name. -/
def call (host : Host) (evaluate : Evaluate) (execute : Execute) (name : String)
    (args : List Expr) : Eval Value := do
  match ← callee host name with
  | .function f => callFunction host evaluate execute f args
  | .tool => callTool host name (← values evaluate args)

/-! ## §4. Chains -/

/-- The target of a link; through `?.` an absent one ends the chain and an optional is unwrapped. -/
def linkTarget (optional : Bool) (target : Value) : Option Value :=
  if optional then if target.isAbsent then none else some target.unwrap else some target

/-- The value of a chain of indices, members and methods; none if a `?.` ended it. -/
def chain (evaluate : Evaluate) : Expr → Eval (Option Value)
  | .index target index => do
    match ← chain evaluate target with
    | none => return none
    | some t =>
      let i ← evaluate index
      return some (← ofExcept ((← get).heap.index t i))
  | .member target name optional => do
    match (← chain evaluate target).bind (linkTarget optional) with
    | none => return none
    | some t => return some (← ofExcept ((← get).heap.member t name))
  | .method target name args optional => do
    match (← chain evaluate target).bind (linkTarget optional) with
    | none => return none
    | some t =>
      let args ← values evaluate args
      let v ← ofAlloc fun h => h.callMethod t name args
      return some v
  | e => do return some (← evaluate e)

/-! ## §5. One expression -/

/-- Whether the left operand alone decides. -/
def decided : BinaryOp → Value → Bool
  | .and, .bool b => !b
  | .or, .bool b => b
  | _, _ => false

/-- The value of an expression. -/
def expression (host : Host) (evaluate : Evaluate) (execute : Execute) : Expr → Eval Value
  | .nil => pure .nil
  | .bool b => pure (.bool b)
  | .int n => pure (.int n)
  | .double x => pure (.double x)
  | .string s => pure (.string s)
  | .var name => variableValue host name
  | .binary op left right => do
    let a ← evaluate left
    if decided op a then return a
    let b ← evaluate right
    ofExcept (op.apply a b)
  | .unary op operand => do ofExcept (op.apply (← evaluate operand))
  | .call name args => call host evaluate execute name args
  | .array items => do
    let vs ← values evaluate items
    ofAlloc (Alloc.make (·.newArray vs.toArray))
  | .dict pairs => do
    let table ← entries evaluate .empty pairs
    ofAlloc (Alloc.make (·.newDict table))
  | .range first last inclusive => do
    let (a, b) ← rangeEnds evaluate first last
    ofAlloc (rangeArray a b inclusive)
  | .index target index => do return (← chain evaluate (.index target index)).getD .nil
  | .member target name optional => do
    return (← chain evaluate (.member target name optional)).getD .nil
  | .method target name args optional => do
    return (← chain evaluate (.method target name args optional)).getD .nil

end Scriptlet.Eval
