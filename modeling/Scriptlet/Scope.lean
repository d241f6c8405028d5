/-
  Scriptlet.Scope — bindings and the stack of scopes.

  A frame is opened by a block or by a call.  A name is looked up from the innermost frame outward
  through the frame of the current call, and then among the globals; frames below that call are not
  seen.
-/
import Scriptlet.OrderedMap
import Scriptlet.Value.Coercion

namespace Scriptlet

/-- A named value with its declared type. -/
structure Binding where
  /-- The type to which every value of the binding is converted. -/
  type : Ty
  /-- The current value. -/
  value : Value
  /-- Whether the binding refuses assignment. -/
  constant : Bool
  deriving Inhabited

/-- What opened a frame. -/
inductive FrameKind where
  | block | call
  deriving DecidableEq, Repr, Inhabited

/-- A frame above the global one. -/
structure Frame where
  kind : FrameKind
  bindings : OrderedMap Binding := .empty
  deriving Inhabited

/-- The global bindings and the frames above them, innermost first. -/
structure Scopes where
  globals : OrderedMap Binding := .empty
  frames : List Frame := []
  deriving Inhabited

namespace Scopes

/-- The globals alone, without bindings. -/
def empty : Scopes := {}

/-! ## §1. Opening and closing -/

/-- Opens a frame. -/
def push (s : Scopes) (kind : FrameKind) : Scopes := { s with frames := { kind } :: s.frames }

/-- Closes the innermost frame; the global one stays. -/
def pop (s : Scopes) : Scopes := { s with frames := s.frames.tail }

/-- The number of frames, the global one included. -/
def depth (s : Scopes) : Nat := s.frames.length + 1

@[simp]
theorem pop_push (s : Scopes) (kind : FrameKind) : (s.push kind).pop = s := rfl

@[simp]
theorem depth_push (s : Scopes) (kind : FrameKind) : (s.push kind).depth = s.depth + 1 := rfl

/-! ## §2. Looking up -/

/-- The binding of a name in the frames of the current call. -/
def localBinding? (name : String) : List Frame → Option Binding
  | [] => none
  | f :: outer =>
    match f.bindings.get? name, f.kind with
    | some b, _ => some b
    | none, .block => localBinding? name outer
    | none, .call => none

/-- The visible binding of a name. -/
def get? (s : Scopes) (name : String) : Option Binding :=
  match localBinding? name s.frames with
  | some b => some b
  | none => s.globals.get? name

/-- Whether the name is visible. -/
def isBound (s : Scopes) (name : String) : Bool := (s.get? name).isSome

/-- The bindings of the innermost frame. -/
def current (s : Scopes) : OrderedMap Binding :=
  match s.frames with
  | [] => s.globals
  | f :: _ => f.bindings

/-! ## §3. Binding -/

/-- Sets a name in the innermost frame. -/
def bind (s : Scopes) (name : String) (b : Binding) : Scopes :=
  match s.frames with
  | [] => { s with globals := s.globals.set name b }
  | f :: outer => { s with frames := { f with bindings := f.bindings.set name b } :: outer }

/-- Declares a name in the innermost frame, where it must be new. -/
def declare (s : Scopes) (name : String) (type : Ty) (value : Value) (constant : Bool) :
    Alloc Scopes := do
  if s.current.contains name then throw (.redeclared name)
  let value ← type.coerce value
  return s.bind name { type, value, constant }

/-- Binds a name in the innermost frame, whether it is new or not. -/
def rebind (s : Scopes) (name : String) (value : Value) : Scopes :=
  s.bind name { type := value.inferredType, value, constant := false }

/-! ## §4. Assigning -/

/-- Sets a name in the frame of the current call that binds it, if one does. -/
def setLocal? (name : String) (b : Binding) : List Frame → Option (List Frame)
  | [] => none
  | f :: outer =>
    if f.bindings.contains name then
      some ({ f with bindings := f.bindings.set name b } :: outer)
    else
      match f.kind with
      | .block => (setLocal? name b outer).map (f :: ·)
      | .call => none

/-- Sets a name where it is visible. -/
def set (s : Scopes) (name : String) (b : Binding) : Scopes :=
  match setLocal? name b s.frames with
  | some frames => { s with frames }
  | none => { s with globals := s.globals.set name b }

/-- Assigns to a visible name that is no constant. -/
def assign (s : Scopes) (name : String) (value : Value) : Alloc Scopes := do
  match s.get? name with
  | none => throw (.undefinedVariable name)
  | some b =>
    if b.constant then throw (.constantReassigned name)
    let value ← b.type.coerce value
    return s.set name { b with value }

/-! ## §5. Reading after binding and assigning -/

/-- What was bound is read back. -/
theorem get?_bind (s : Scopes) (name : String) (b : Binding) :
    (s.bind name b).get? name = some b := by
  obtain ⟨globals, frames⟩ := s
  cases frames with
  | nil => simp [bind, get?, localBinding?, OrderedMap.get?_set]
  | cons f outer => simp [bind, get?, localBinding?, OrderedMap.get?_set]

/-- In the frames of the current call a name is set where it is found, or it is not there. -/
theorem localBinding?_setLocal (name : String) (frames : List Frame) (b : Binding) :
    (∃ frames', setLocal? name b frames = some frames' ∧ localBinding? name frames' = some b) ∨
      setLocal? name b frames = none ∧ localBinding? name frames = none := by
  induction frames with
  | nil => exact .inr ⟨rfl, rfl⟩
  | cons f outer ih =>
    by_cases hhere : f.bindings.contains name = true
    · refine .inl ⟨_, by rw [setLocal?, if_pos hhere], ?_⟩
      simp [localBinding?, OrderedMap.get?_set]
    · have hnone : f.bindings.get? name = none := by
        simpa [OrderedMap.contains] using hhere
      cases hkind : f.kind with
      | call => exact .inr ⟨by simp [setLocal?, hhere, hkind], by simp [localBinding?, hnone, hkind]⟩
      | block =>
        rcases ih with ⟨frames', hset, hlocal⟩ | ⟨hset, hlocal⟩
        · refine .inl ⟨f :: frames', by simp [setLocal?, hhere, hkind, hset], ?_⟩
          simp [localBinding?, hnone, hkind, hlocal]
        · exact .inr ⟨by simp [setLocal?, hhere, hkind, hset], by simp [localBinding?, hnone, hkind, hlocal]⟩

/-- What was set is read back. -/
theorem get?_set (s : Scopes) (name : String) (b : Binding) : (s.set name b).get? name = some b := by
  unfold set get?
  rcases localBinding?_setLocal name s.frames b with
    ⟨frames', hset, hlocal⟩ | ⟨hset, hlocal⟩
  · rw [hset, hlocal]
  · rw [hset, hlocal]
    simp [OrderedMap.get?_set]

end Scopes

end Scriptlet
