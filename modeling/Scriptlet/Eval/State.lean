/-
  Scriptlet.Eval.State — what a run reads and what it changes.

  A `Host` is what surrounds a run and does not change in it: settings, tools, and the modules that
  resolve names the script does not bind.  A `State` is everything that a run changes.  Printed lines,
  diagnostics and errors are only ever added to.
-/
import Scriptlet.Ast.Stmt
import Scriptlet.Scope
import Scriptlet.Settings
import Scriptlet.Tool.Builtin

namespace Scriptlet

/-! ## §1. What surrounds a run -/

/-- What a module exports under a name. -/
inductive Symbol where
  /-- A value, read like a variable. -/
  | value (v : Value)
  /-- A function, called like one of the script. -/
  | function (f : Func)
  deriving Inhabited

/-- Finds the export of a name; resolution itself may fail. -/
abbrev Resolver := String → Except Error (Option Symbol)

/-- What surrounds a run. -/
structure Host where
  settings : Settings := {}
  tools : Toolbox := Builtin.toolbox
  resolver : Resolver := fun _ => .ok none

/-- Whether one more call may be opened where so many are open. -/
def Host.admitsCall (host : Host) (depth : Nat) : Except Error Unit :=
  match host.settings.maxCallDepth with
  | none => .ok ()
  | some limit => if limit ≤ depth then .error (.callDepthExceeded limit) else .ok ()

/-! ## §2. What a run changes -/

/-- A line for whoever runs the script. -/
inductive Diagnostic where
  /-- A statement of this kind is about to be executed. -/
  | trace (kind : String)
  /-- An error was reported. -/
  | error (e : Error)
  deriving DecidableEq, Repr, Inhabited

/-- The text of the line. -/
def Diagnostic.text : Diagnostic → String
  | .trace kind => "trace: " ++ kind
  | .error e => "Error: " ++ e.message

/-- What a run changes. -/
structure State where
  scopes : Scopes := .empty
  heap : Heap := .empty
  /-- The functions that the script has declared. -/
  functions : OrderedMap Func := .empty
  /-- How many calls are open. -/
  callDepth : Nat := 0
  /-- The lines printed so far. -/
  printed : Array String := #[]
  /-- The diagnostics so far. -/
  diagnostics : Array Diagnostic := #[]
  /-- The errors reported and not yet handed over. -/
  pending : Array Error := #[]
  deriving Inhabited

/-- What a statement leaves to be done by what surrounds it. -/
inductive Signal where
  /-- Go on with the next statement. -/
  | next
  /-- Leave the innermost loop. -/
  | brk
  /-- Go on with the next round of the innermost loop. -/
  | cont
  /-- Leave the call with a value. -/
  | ret (v : Value)
  deriving DecidableEq, Repr, Inhabited

/-! ## §3. Computations -/

/-- A computation that cannot fail, but may run out of fuel. -/
abbrev Run := StateT State Option

/-- A computation that may fail.  The state that it has reached when it fails is kept. -/
abbrev Eval := ExceptT Error Run

namespace Run

variable {α : Type}

/-- The fuel is used up. -/
def outOfFuel : Run α := fun _ => none

/-- Adds a printed line. -/
def print (line : String) : Run Unit :=
  modify fun s => { s with printed := s.printed.push line }

/-- Adds a diagnostic. -/
def diagnose (d : Diagnostic) : Run Unit :=
  modify fun s => { s with diagnostics := s.diagnostics.push d }

/-- Reports an error: it is shown and kept. -/
def report (e : Error) : Run Unit := do
  diagnose (.error e)
  modify fun s => { s with pending := s.pending.push e }

/-- Runs a computation in a new frame, which is closed afterwards. -/
def inFrame (kind : FrameKind) (body : Run α) : Run α := do
  modify fun s => { s with scopes := s.scopes.push kind }
  let result ← body
  modify fun s => { s with scopes := s.scopes.pop }
  return result

/-- Runs a computation as one more open call. -/
def inCall (body : Run α) : Run α := do
  modify fun s => { s with callDepth := s.callDepth + 1 }
  let result ← inFrame .call body
  modify fun s => { s with callDepth := s.callDepth - 1 }
  return result

end Run

namespace Eval

variable {α : Type}

/-- The fuel is used up. -/
def outOfFuel : Eval α := ExceptT.mk Run.outOfFuel

/-- A result, or failure with its error. -/
def ofExcept : Except Error α → Eval α
  | .ok a => pure a
  | .error e => throw e

/-- A computation on the heap; when it fails the heap is as before. -/
def ofAlloc (x : Alloc α) : Eval α := do
  let (a, heap) ← ofExcept (x (← get).heap)
  modify fun s => { s with heap }
  return a

/-- A change of the heap, or failure. -/
def changeHeap (f : Heap → Except Error Heap) : Eval Unit := do
  let heap ← ofExcept (f (← get).heap)
  modify fun s => { s with heap }

/-- A change of the scopes, which may make objects, or failure. -/
def changeScopes (f : Scopes → Alloc Scopes) : Eval Unit := do
  let scopes ← ofAlloc (f (← get).scopes)
  modify fun s => { s with scopes }

/-- Runs a computation in a new frame, which is closed afterwards, also on failure. -/
def inFrame (kind : FrameKind) (body : Eval α) : Eval α := ExceptT.mk (Run.inFrame kind body.run)

/-- Runs a computation as one more open call, also closed on failure. -/
def inCall (body : Eval α) : Eval α := ExceptT.mk (Run.inCall body.run)

end Eval

/-! ## §4. Running one computation after the other -/

namespace Eval

variable {α β : Type} {s t : State} {x : Eval α} {f : α → Eval β}

/-- After a value the rest is run from where it was reached. -/
theorem bind_ok {a : α} (h : x s = some (.ok a, t)) : (x >>= f) s = f a t := by
  show (x s).bind (fun p => ExceptT.bindCont f p.1 p.2) = f a t
  rw [h]
  rfl

/-- After an error the rest is skipped. -/
theorem bind_error {e : Error} (h : x s = some (.error e, t)) :
    (x >>= f) s = some (.error e, t) := by
  show (x s).bind (fun p => ExceptT.bindCont f p.1 p.2) = _
  rw [h]
  rfl

/-- **Two computations end where the first fails, or where the second ends after it.** -/
theorem bind_inv {r : Except Error β} (h : (x >>= f) s = some (r, t)) :
    (∃ e, r = .error e ∧ x s = some (.error e, t)) ∨
      ∃ a u, x s = some (.ok a, u) ∧ f a u = some (r, t) := by
  have h : (x s).bind (fun p => ExceptT.bindCont f p.1 p.2) = some (r, t) := h
  obtain ⟨⟨first, u⟩, hx, hrest⟩ := Option.bind_eq_some_iff.mp h
  cases first with
  | ok a => exact .inr ⟨a, u, hx, hrest⟩
  | error e =>
    cases hrest
    exact .inl ⟨e, rfl, hx⟩

/-- Where two computations end with a value, so does the first alone. -/
theorem bind_ok_inv {b : β} (h : (x >>= f) s = some (.ok b, t)) :
    ∃ a u, x s = some (.ok a, u) ∧ f a u = some (.ok b, t) := by
  obtain ⟨e, herr, _⟩ | hok := bind_inv h
  · cases herr
  · exact hok

/-- What follows sees of a computation only how it ends. -/
theorem bind_apply_congr {y : Eval α} (h : x s = y s) (f : α → Eval β) :
    (x >>= f) s = (y >>= f) s := by
  show (x s).bind (fun p => ExceptT.bindCont f p.1 p.2) =
    (y s).bind (fun p => ExceptT.bindCont f p.1 p.2)
  rw [h]

theorem get_ok {f : State → Eval β} : (get >>= f : Eval β) s = f s s := rfl

theorem ofAlloc_ok {x : Alloc α} {a : α} {h : Heap} (hx : x s.heap = .ok (a, h)) :
    ofAlloc x s = some (.ok a, { s with heap := h }) := by
  show (ofExcept (x s.heap) >>= fun p =>
    (modify fun s => { s with heap := p.2 }) >>= fun _ => pure p.1 : Eval α) s = _
  rw [hx]
  rfl

/-- A computation that fails leaves the heap as it was. -/
theorem ofAlloc_error {x : Alloc α} {e : Error} (hx : x s.heap = .error e) :
    ofAlloc x s = some (.error e, s) := by
  show (ofExcept (x s.heap) >>= fun p =>
    (modify fun s => { s with heap := p.2 }) >>= fun _ => pure p.1 : Eval α) s = _
  rw [hx]
  rfl

end Eval

end Scriptlet
