/-
  Scriptlet.Proofs.Effect — what a computation can do to the state.

  `Effect host D k s t` says that the state `t` arises from `s` by steps that evaluation and execution
  are able to take, one constructor for each kind of step.  The `Licence` `k` says which of them are
  open: an expression can change the heap and make calls, and nothing else; statements can do the
  rest, and declare the names that stand directly among them; only the rounds of a loop can bind
  anew, and only the loop variable.  Frames are opened and closed in pairs by construction.

  Main results:
    * `Effect.sound` — every step keeps up the discipline.
    * `Effect.callDepth_eq` — afterwards as many calls are open as before.
-/
import Scriptlet.Proofs.Discipline

namespace Scriptlet

/-! ## §1. Opening and closing -/

namespace State

/-- Opens a frame. -/
def openFrame (s : State) (kind : FrameKind) : State := { s with scopes := s.scopes.push kind }

/-- Closes the innermost frame. -/
def closeFrame (s : State) : State := { s with scopes := s.scopes.pop }

/-- Opens a call with its frame. -/
def openCall (s : State) : State :=
  { s with scopes := s.scopes.push .call, callDepth := s.callDepth + 1 }

/-- Closes the innermost frame and its call. -/
def closeCall (s : State) : State :=
  { s with scopes := s.scopes.pop, callDepth := s.callDepth - 1 }

end State

/-- What runs in a frame runs with the frame open, and the frame is closed however it ends. -/
theorem Run.inFrame_run {α : Type} (kind : FrameKind) (x : Run α) (s : State) :
    Run.inFrame kind x s = (x (s.openFrame kind)).map fun p => (p.1, p.2.closeFrame) := by
  show (x (s.openFrame kind)).bind (fun p => some (p.1, p.2.closeFrame)) = _
  cases x (s.openFrame kind) <;> rfl

/-- What runs in a call runs with the call open, and the call is closed however it ends. -/
theorem Run.inCall_run {α : Type} (x : Run α) (s : State) :
    Run.inCall x s = (x s.openCall).map fun p => (p.1, p.2.closeCall) := by
  show ((x s.openCall).bind (fun p => some (p.1, p.2.closeFrame))).bind
      (fun p => some (p.1, { p.2 with callDepth := p.2.callDepth - 1 })) = _
  cases x s.openCall <;> rfl

/-! ## §2. Sound states -/

/-- The exports and tools of the host obey the discipline, on this heap and on all that keep it. -/
structure Host.Obeys (host : Host) (D : Discipline) (h : Heap) : Prop where
  exports : ∀ name v, host.resolver name = .ok (some (.value v)) → D.value h v
  refusals : ∀ name e, host.resolver name = .error e → D.error e
  tools : ∀ name args h', D.Keeps h h' → h'.Sound D → (∀ v ∈ args, D.value h' v) →
    D.Change h' (host.tools.call name args h').2 ∧
      D.Outcome D.value (host.tools.call name args h').2 (host.tools.call name args h').1

/-- Every host obeys the discipline that allows everything. -/
theorem Host.Obeys.any (host : Host) (h : Heap) : host.Obeys .any h where
  exports _ _ _ := trivial
  refusals _ _ _ := trivial
  tools name args h' _ _ _ := by
    refine ⟨⟨fun _ _ => trivial, ⟨fun _ _ _ => trivial, fun _ _ _ _ => trivial⟩⟩, ?_⟩
    cases (host.tools.call name args h').1 <;> trivial

/-- A host goes on obeying while the values that are good stay good. -/
theorem Host.Obeys.keep {host : Host} {D : Discipline} {h h' : Heap} (ho : host.Obeys D h)
    (hk : D.Keeps h h') : host.Obeys D h' where
  exports name v hv := hk v (ho.exports name v hv)
  refusals := ho.refusals
  tools name args h'' hk' := ho.tools name args h'' fun v hv => hk' v (hk v hv)

/-- Every value of the state is good, and the host hands out good values. -/
structure State.Sound (host : Host) (D : Discipline) (s : State) : Prop where
  heap : s.heap.Sound D
  scopes : s.scopes.All fun b => D.value s.heap b.value
  host : host.Obeys D s.heap

namespace State

variable {host : Host} {D : Discipline} {s : State}

/-- Every state is sound under the discipline that allows everything. -/
theorem Sound.any (host : Host) (s : State) : s.Sound host .any where
  heap := ⟨fun _ _ _ => trivial, fun _ _ _ _ => trivial⟩
  scopes := ⟨fun _ _ _ => trivial, fun _ _ _ _ _ => trivial⟩
  host := .any host s.heap

/-- An allowed change of the heap leaves the bindings and the host as good as they were. -/
theorem Sound.changeHeap (hs : s.Sound host D) {h : Heap} (hc : D.Change s.heap h) :
    State.Sound host D { s with heap := h } where
  heap := hc.sound
  scopes := hs.scopes.imp fun b hb => hc.keeps b.value hb
  host := hs.host.keep hc.keeps

theorem Sound.openFrame (hs : s.Sound host D) (kind : FrameKind) :
    (s.openFrame kind).Sound host D :=
  ⟨hs.heap, hs.scopes.push kind, hs.host⟩

theorem Sound.closeFrame (hs : s.Sound host D) : s.closeFrame.Sound host D :=
  ⟨hs.heap, hs.scopes.pop, hs.host⟩

theorem Sound.openCall (hs : s.Sound host D) : s.openCall.Sound host D :=
  ⟨hs.heap, hs.scopes.push .call, hs.host⟩

theorem Sound.closeCall (hs : s.Sound host D) : s.closeCall.Sound host D :=
  ⟨hs.heap, hs.scopes.pop, hs.host⟩

end State

/-! ## §3. Effects -/

/-- The name that a statement declares. -/
def Stmt.declared? : Stmt → Option String
  | .declare name _ _ _ => some name
  | _ => none

/-- The names declared by statements that stand directly in the list. -/
def Block.declared (body : List Stmt) : List String := body.filterMap Stmt.declared?

/-- Which steps are open to a computation. -/
structure Licence where
  /-- Whether it may do what statements do. -/
  executes : Prop
  /-- The names that it may declare in the innermost frame. -/
  declares : String → Prop
  /-- The names that it may bind in the innermost frame, whether they are new or not. -/
  rebinds : String → Prop

namespace Licence

/-- Expressions. -/
def expression : Licence := ⟨False, fun _ => False, fun _ => False⟩

/-- Statements in a frame that takes these names. -/
def frame (names : List String) : Licence := ⟨True, (· ∈ names), fun _ => False⟩

/-- The rounds of a loop, in the frame of its variable. -/
def rounds (item : String) : Licence := ⟨True, fun _ => False, (· = item)⟩

end Licence

/-- What a computation can do to the state. -/
inductive Effect (host : Host) (D : Discipline) : Licence → State → State → Prop
  /-- Nothing. -/
  | refl {k s} : Effect host D k s s
  /-- One thing after the other. -/
  | trans {k s t u} : Effect host D k s t → Effect host D k t u → Effect host D k s u
  /-- An allowed change of the heap. -/
  | heap {k s h} : D.Change s.heap h → Effect host D k s { s with heap := h }
  /-- A call, if one more may be opened. -/
  | call {k s t} (names : List String) : host.admitsCall s.callDepth = .ok () →
      Effect host D (.frame names) s.openCall t → Effect host D k s t.closeCall
  /-- A block in a frame of its own. -/
  | block {k s t} (names : List String) : k.executes →
      Effect host D (.frame names) (s.openFrame .block) t → Effect host D k s t.closeFrame
  /-- The rounds of a loop, in a frame for its variable. -/
  | loop {k s t} (item : String) : k.executes →
      Effect host D (.rounds item) (s.openFrame .block) t → Effect host D k s t.closeFrame
  /-- A declaration of a name that is new in the innermost frame. -/
  | declare {k s name type v w h} (constant : Bool) : k.declares name →
      s.scopes.current.contains name = false → D.value s.heap v →
      Ty.coerce type v s.heap = .ok (w, h) →
      Effect host D k s { s with scopes := s.scopes.bind name ⟨type, w, constant⟩, heap := h }
  /-- An assignment to a visible name that is no constant. -/
  | assign {k s name b v w h} : k.executes → s.scopes.get? name = some b → b.constant = false →
      D.value s.heap v → b.type.coerce v s.heap = .ok (w, h) →
      Effect host D k s { s with scopes := s.scopes.set name { b with value := w }, heap := h }
  /-- A value for the loop variable in the loop's own frame. -/
  | rebind {k s name v} : k.rebinds name → D.value s.heap v →
      Effect host D k s { s with scopes := s.scopes.rebind name v }
  /-- A printed line. -/
  | print {k s} (line : String) : k.executes →
      Effect host D k s { s with printed := s.printed.push line }
  /-- A line of the trace, if it is on. -/
  | trace {k s} (kind : String) : k.executes → host.settings.trace = true →
      Effect host D k s { s with diagnostics := s.diagnostics.push (.trace kind) }
  /-- A reported error. -/
  | report {k s e} : k.executes → D.error e →
      Effect host D k s
        { s with diagnostics := s.diagnostics.push (.error e), pending := s.pending.push e }
  /-- A function under a name that has none yet. -/
  | define {k s} (f : Func) : k.executes → s.functions.contains f.name = false →
      Effect host D k s { s with functions := s.functions.set f.name f }

namespace Effect

variable {host : Host} {D : Discipline} {k : Licence} {s t : State}

/-- **Every step keeps up the discipline.** -/
theorem sound (he : Effect host D k s t) (hs : s.Sound host D) :
    t.Sound host D ∧ D.Keeps s.heap t.heap := by
  induction he with
  | refl => exact ⟨hs, fun _ hv => hv⟩
  -- what is kept twice is kept
  | trans _ _ ih₁ ih₂ =>
    obtain ⟨ht, hk₁⟩ := ih₁ hs
    obtain ⟨hu, hk₂⟩ := ih₂ ht
    exact ⟨hu, fun v hv => hk₂ v (hk₁ v hv)⟩
  | heap hc => exact ⟨hs.changeHeap hc, hc.keeps⟩
  -- a frame on its way in or out changes neither heap nor host
  | call names _ _ ih =>
    obtain ⟨ht, hk⟩ := ih hs.openCall
    exact ⟨ht.closeCall, hk⟩
  | block names _ _ ih =>
    obtain ⟨ht, hk⟩ := ih (hs.openFrame .block)
    exact ⟨ht.closeFrame, hk⟩
  | loop item _ _ ih =>
    obtain ⟨ht, hk⟩ := ih (hs.openFrame .block)
    exact ⟨ht.closeFrame, hk⟩
  -- the converted value is good on the heap that the conversion leaves, and so are the bindings
  -- that were there
  | @declare k s name type v w h constant _ _ hv hw =>
    obtain ⟨hc, hgood, -⟩ := (Ty.coerce_obeys type v hs.heap hv).ok hw
    have hs' := hs.changeHeap hc
    exact ⟨⟨hs'.heap, hs'.scopes.bind name hgood, hs'.host⟩, hc.keeps⟩
  | @assign k s name b v w h _ _ _ hv hw =>
    obtain ⟨hc, hgood, -⟩ := (Ty.coerce_obeys b.type v hs.heap hv).ok hw
    have hs' := hs.changeHeap hc
    exact ⟨⟨hs'.heap, hs'.scopes.set name hgood, hs'.host⟩, hc.keeps⟩
  | rebind _ hv => exact ⟨⟨hs.heap, hs.scopes.bind _ hv, hs.host⟩, fun _ hv => hv⟩
  | print | trace | report | define =>
    exact ⟨⟨hs.heap, hs.scopes, hs.host⟩, fun _ hv => hv⟩

/-- **Afterwards as many calls are open as before.** -/
theorem callDepth_eq (he : Effect host D k s t) : t.callDepth = s.callDepth := by
  induction he with
  | trans _ _ ih₁ ih₂ => rw [ih₂, ih₁]
  | @call k s t names _ _ ih =>
    -- inside the call one more is open, before its body and after
    show t.callDepth - 1 = s.callDepth
    rw [ih]
    show s.callDepth + 1 - 1 = s.callDepth
    omega
  | block names _ _ ih => exact ih
  | loop item _ _ ih => exact ih
  | _ => rfl

end Effect

end Scriptlet
