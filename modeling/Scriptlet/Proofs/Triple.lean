/-
  Scriptlet.Proofs.Triple — rules for computations that take only allowed steps.

  `Run.Leads host D k s x Q` says of a computation `x` in a sound state `s`: whenever it ends, it has
  got there by an `Effect` under the licence `k`, and its result has the property `Q`.  `Eval.Leads`
  is the same for a computation that may fail: a failure has an allowed error and, like a success,
  an allowed effect.  There is one rule for each primitive of the evaluator, so that what is built
  from the primitives never has to be run.
-/
import Scriptlet.Proofs.Effect

namespace Scriptlet

variable {α β : Type} {host : Host} {D : Discipline} {k : Licence} {s : State}

/-! ## §1. Computations that cannot fail -/

/-- Where the computation ends, it has taken allowed steps only, and its result is as asked. -/
def Run.Leads (host : Host) (D : Discipline) (k : Licence) (s : State) (x : Run α)
    (Q : Heap → α → Prop) : Prop :=
  s.Sound host D → ∀ a t, x s = some (a, t) → Effect host D k s t ∧ Q t.heap a

namespace Run.Leads

variable {x : Run α} {Q : Heap → α → Prop}

/-- A computation without fuel does not end, so nothing is asked of it. -/
theorem outOfFuel : Run.Leads host D k s (Run.outOfFuel : Run α) Q := by
  intro _ a t hrun
  cases hrun

theorem pure {a : α} (ha : Q s.heap a) : Run.Leads host D k s (pure a) Q := by
  intro _ b t hrun
  cases hrun
  exact ⟨.refl, ha⟩

/-- A change of the state that is an effect. -/
theorem modify {f : State → State} (he : Effect host D k s (f s)) :
    Run.Leads host D k s (modify f) fun _ _ => True := by
  intro _ b t hrun
  cases hrun
  exact ⟨he, trivial⟩

/-- One computation after the other; what holds of the heap before the first still holds. -/
theorem bind {f : α → Run β} {R : Heap → β → Prop} (hx : Run.Leads host D k s x Q)
    (hf : ∀ t a, D.Keeps s.heap t.heap → Q t.heap a → Run.Leads host D k t (f a) R) :
    Run.Leads host D k s (x >>= f) R := by
  intro hs b u hrun
  -- the first effect makes the state between the two sound, so that the second rule applies there
  have hrun : (x s).bind (fun p => f p.1 p.2) = some (b, u) := hrun
  obtain ⟨⟨a, t⟩, hfirst, hrest⟩ := Option.bind_eq_some_iff.mp hrun
  obtain ⟨he, hq⟩ := hx hs a t hfirst
  obtain ⟨ht, hk⟩ := he.sound hs
  obtain ⟨he', hr⟩ := hf t a hk hq ht b u hrest
  exact ⟨he.trans he', hr⟩

/-- A frame of its own, for steps that are an effect once the frame is closed. -/
theorem inFrame {k' : Licence} {kind : FrameKind}
    (hx : Run.Leads host D k' (s.openFrame kind) x Q)
    (hclose : ∀ t, Effect host D k' (s.openFrame kind) t → Effect host D k s t.closeFrame) :
    Run.Leads host D k s (Run.inFrame kind x) Q := by
  intro hs a u hrun
  rw [Run.inFrame_run] at hrun
  obtain ⟨⟨b, t⟩, hbody, hclosed⟩ := Option.map_eq_some_iff.mp hrun
  cases hclosed
  obtain ⟨he, hq⟩ := hx (hs.openFrame kind) b t hbody
  exact ⟨hclose t he, hq⟩

/-- A call, where one more may be opened. -/
theorem inCall {names : List String} (hadmits : host.admitsCall s.callDepth = .ok ())
    (hx : Run.Leads host D (.frame names) s.openCall x Q) :
    Run.Leads host D k s (Run.inCall x) Q := by
  intro hs a u hrun
  rw [Run.inCall_run] at hrun
  obtain ⟨⟨b, t⟩, hbody, hclosed⟩ := Option.map_eq_some_iff.mp hrun
  cases hclosed
  obtain ⟨he, hq⟩ := hx hs.openCall b t hbody
  exact ⟨.call names hadmits he, hq⟩

end Run.Leads

/-! ## §2. Computations that may fail -/

/-- Where the computation ends, it has taken allowed steps only, and its result is as asked, or its
    error is allowed. -/
def Eval.Leads (host : Host) (D : Discipline) (k : Licence) (s : State) (x : Eval α)
    (Q : Heap → α → Prop) : Prop :=
  Run.Leads host D k s x.run (D.Outcome Q)

/-- A declaration refuses a name of the current frame, and otherwise binds the converted value. -/
theorem Scopes.declare_run (s : Scopes) (name : String) (type : Ty) (v : Value) (constant : Bool)
    (h : Heap) :
    s.declare name type v constant h =
      if s.current.contains name then .error (.redeclared name)
      else (type.coerce v h).map fun p => (s.bind name ⟨type, p.1, constant⟩, p.2) := by
  unfold Scopes.declare
  split
  · rfl
  · show (type.coerce v h).bind (fun p => .ok (s.bind name ⟨type, p.1, constant⟩, p.2)) = _
    cases type.coerce v h <;> rfl

/-- An assignment needs a variable that is no constant, and otherwise sets the converted value. -/
theorem Scopes.assign_run (s : Scopes) (name : String) (v : Value) (h : Heap) :
    s.assign name v h =
      match s.get? name with
      | none => .error (.undefinedVariable name)
      | some b =>
        if b.constant then .error (.constantReassigned name)
        else (b.type.coerce v h).map fun p => (s.set name { b with value := p.1 }, p.2) := by
  unfold Scopes.assign
  cases s.get? name with
  | none => rfl
  | some b =>
    dsimp only
    -- a constant is refused before the value is looked at
    split
    · rfl
    · show (b.type.coerce v h).bind (fun p => .ok (s.set name { b with value := p.1 }, p.2)) = _
      cases b.type.coerce v h <;> rfl

/-- A change of the scopes happens as a whole or not at all. -/
theorem Eval.changeScopes_run (f : Scopes → Alloc Scopes) (s : State) :
    (Eval.changeScopes f).run s =
      match f s.scopes s.heap with
      | .ok (scopes, h) => some (.ok (), { s with scopes, heap := h })
      | .error e => some (.error e, s) := by
  show ((Eval.ofExcept (f s.scopes s.heap) >>= fun p =>
      (modify fun s => { s with heap := p.2 }) >>= fun _ => pure p.1) >>= fun scopes =>
        modify fun s => { s with scopes } : Eval Unit).run s = _
  cases f s.scopes s.heap <;> rfl

namespace Eval.Leads

variable {x : Eval α} {Q : Heap → α → Prop}

theorem outOfFuel : Eval.Leads host D k s (Eval.outOfFuel : Eval α) Q := Run.Leads.outOfFuel

theorem pure {a : α} (ha : Q s.heap a) : Eval.Leads host D k s (pure a) Q :=
  Run.Leads.pure (Q := D.Outcome Q) (a := .ok a) ha

/-- A failure with an error that the discipline allows. -/
theorem fail {e : Error} (he : D.error e) : Eval.Leads host D k s (throw e) Q :=
  Run.Leads.pure (Q := D.Outcome Q) (a := .error e) he

/-- A failure with a recoverable error, which every discipline allows. -/
theorem throw {e : Error} (he : e.severity = .recoverable) : Eval.Leads host D k s (throw e) Q :=
  .fail (D.recoverable he)

/-- A computation that cannot fail, as one that may. -/
theorem lift {x : Run α} (hx : Run.Leads host D k s x Q) :
    Eval.Leads host D k s (liftM x : Eval α) Q := by
  intro hs r t hrun
  have hrun : (x s).bind (fun p => some (.ok p.1, p.2)) = some (r, t) := hrun
  obtain ⟨⟨a, t'⟩, hbody, hok⟩ := Option.bind_eq_some_iff.mp hrun
  cases hok
  exact hx hs a t' hbody

/-- One computation after the other, unless the first fails. -/
theorem bind_effect {f : α → Eval β} {R : Heap → β → Prop} (hx : Eval.Leads host D k s x Q)
    (hf : ∀ t a, Effect host D k s t → D.Keeps s.heap t.heap → Q t.heap a →
      Eval.Leads host D k t (f a) R) :
    Eval.Leads host D k s (x >>= f) R := by
  intro hs r u hrun
  have hrun : (x.run s).bind (fun p => ExceptT.bindCont f p.1 p.2) = some (r, u) := hrun
  obtain ⟨⟨first, t⟩, hfirst, hrest⟩ := Option.bind_eq_some_iff.mp hrun
  obtain ⟨he, hq⟩ := hx hs first t hfirst
  obtain ⟨ht, hk⟩ := he.sound hs
  cases first with
  | ok a =>
    obtain ⟨he', hr⟩ := hf t a he hk hq ht r u hrest
    exact ⟨he.trans he', hr⟩
  | error e =>
    -- the rest is skipped, but the effect of what failed stays
    cases hrest
    exact ⟨he, hq⟩

/-- The same, where the effect of the first computation is not needed. -/
theorem bind {f : α → Eval β} {R : Heap → β → Prop} (hx : Eval.Leads host D k s x Q)
    (hf : ∀ t a, D.Keeps s.heap t.heap → Q t.heap a → Eval.Leads host D k t (f a) R) :
    Eval.Leads host D k s (x >>= f) R :=
  hx.bind_effect fun t a _ hk hq => hf t a hk hq

/-- Reading the state, which is sound. -/
theorem get {f : State → Eval β} {R : Heap → β → Prop}
    (hf : s.Sound host D → Eval.Leads host D k s (f s) R) :
    Eval.Leads host D k s (get >>= f) R :=
  fun hs => hf hs hs

/-- A change of the state that is an effect, as a computation that may fail. -/
theorem modify {f : State → State} (he : Effect host D k s (f s)) :
    Eval.Leads host D k s (modify f) fun _ _ => True :=
  .lift (Run.Leads.modify he)

/-- A result that has been computed already. -/
theorem ofExcept {r : Except Error α} (hr : D.Outcome Q s.heap r) :
    Eval.Leads host D k s (Eval.ofExcept r) Q := by
  cases r with
  | ok a => exact .pure hr
  | error e => exact .fail hr

/-- A computation on the heap. -/
theorem ofAlloc {x : Alloc α} (hx : s.Sound host D → Alloc.Obeys D s.heap x Q) :
    Eval.Leads host D k s (Eval.ofAlloc x) Q := by
  unfold Eval.ofAlloc
  refine .get fun hs => ?_
  cases hr : x s.heap with
  | error e => exact .fail ((hx hs).error hr)
  | ok p =>
    obtain ⟨hc, hq⟩ := (hx hs).ok hr
    intro _ r t hrun
    cases hrun
    exact ⟨.heap hc, hq⟩

/-- A change of the heap. -/
theorem changeHeap {f : Heap → Except Error Heap}
    (hf : s.Sound host D → D.Outcome D.Change s.heap (f s.heap)) :
    Eval.Leads host D k s (Eval.changeHeap f) fun _ _ => True := by
  unfold Eval.changeHeap
  refine .get fun hs => ?_
  have hchange := hf hs
  cases hr : f s.heap with
  | error e =>
    rw [hr] at hchange
    exact .fail hchange
  | ok h =>
    rw [hr] at hchange
    exact .modify (.heap hchange)

/-- A change of the scopes that is an effect where it succeeds. -/
theorem changeScopes {f : Scopes → Alloc Scopes}
    (hf : s.Sound host D → D.Outcome
      (fun _ p => Effect host D k s { s with scopes := p.1, heap := p.2 }) s.heap
      (f s.scopes s.heap)) :
    Eval.Leads host D k s (Eval.changeScopes f) fun _ _ => True := by
  intro hs r t hrun
  have hstep := hf hs
  rw [changeScopes_run] at hrun
  cases hr : f s.scopes s.heap with
  | ok p =>
    rw [hr] at hrun hstep
    cases hrun
    exact ⟨hstep, trivial⟩
  | error e =>
    -- a refused declaration or assignment has changed nothing, not even the heap
    rw [hr] at hrun hstep
    cases hrun
    exact ⟨.refl, hstep⟩

/-- A declaration of a name that the licence lets be declared. -/
theorem declare {name : String} {type : Ty} {v : Value} {constant : Bool} (hk : k.declares name)
    (hv : D.value s.heap v) :
    Eval.Leads host D k s (Eval.changeScopes fun s => s.declare name type v constant)
      fun _ _ => True := by
  refine .changeScopes fun hs => ?_
  rw [Scopes.declare_run]
  split
  · exact D.recoverable rfl
  · rename_i hnew
    cases hr : type.coerce v s.heap with
    | ok p => exact .declare constant hk (by simpa using hnew) hv hr
    | error e => exact (Ty.coerce_obeys type v hs.heap hv).error hr

/-- An assignment, where statements are executed. -/
theorem assign {name : String} {v : Value} (hk : k.executes) (hv : D.value s.heap v) :
    Eval.Leads host D k s (Eval.changeScopes fun s => s.assign name v) fun _ _ => True := by
  refine .changeScopes fun hs => ?_
  rw [Scopes.assign_run]
  -- no such variable, or a constant: the state stays as it is
  cases hb : s.scopes.get? name with
  | none => exact D.recoverable rfl
  | some b =>
    show D.Outcome _ s.heap (if b.constant then _ else _)
    split
    · exact D.recoverable rfl
    · rename_i hvar
      -- the value has to fit the type of the variable
      cases hr : b.type.coerce v s.heap with
      | ok p => exact .assign hk hb (by simpa using hvar) hv hr
      | error e => exact (Ty.coerce_obeys b.type v hs.heap hv).error hr

/-- A frame of its own, for a computation that may fail. -/
theorem inFrame {k' : Licence} {kind : FrameKind}
    (hx : Eval.Leads host D k' (s.openFrame kind) x Q)
    (hclose : ∀ t, Effect host D k' (s.openFrame kind) t → Effect host D k s t.closeFrame) :
    Eval.Leads host D k s (Eval.inFrame kind x) Q :=
  Run.Leads.inFrame hx hclose

/-- A call, for a computation that may fail. -/
theorem inCall {names : List String} (hadmits : host.admitsCall s.callDepth = .ok ())
    (hx : Eval.Leads host D (.frame names) s.openCall x Q) :
    Eval.Leads host D k s (Eval.inCall x) Q :=
  Run.Leads.inCall hadmits hx

end Eval.Leads

end Scriptlet
