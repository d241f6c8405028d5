/-
  Scriptlet.Proofs.Regime — rules for runs that keep something up, and for runs that go along.

  A `Regime` between two watches says what a run under the first keeps up at every moment, and from
  which pending errors, at its end, the second run is known to have done the same: errors are never
  taken back, so what is asked of all errors at the end has held from the beginning.

  `Eval.Repeats R s x y` says of two computations in a state `s` in which the regime holds: the first
  keeps it up, and the second has the same outcome if the errors at the end allow to tell.  There is
  one rule for each primitive of the evaluator.
-/
import Scriptlet.Proofs.Syntax
import Scriptlet.Proofs.Triple
import Scriptlet.Proofs.Watch

namespace Scriptlet

/-! ## §1. Errors of data -/

/-- Whether a jump or a return was left over where nothing takes it. -/
def Error.isStray : Error → Bool
  | .outsideLoop _ | .outsideFunction => true
  | _ => false

/-- The error, if there is one, is of something else than a jump or a return left over. -/
def Orderly {α : Type} : Except Error α → Prop
  | .ok _ => True
  | .error e => e.isStray = false

namespace Orderly

variable {α β : Type} {r : Except Error α}

/-- The error of an orderly outcome is of data. -/
theorem error (hr : Orderly r) {e : Error} (h : r = .error e) : e.isStray = false := by
  rw [h] at hr
  exact hr

/-- What is built from orderly outcomes is orderly. -/
theorem bind {f : α → Except Error β} (hr : Orderly r) (hf : ∀ a, Orderly (f a)) :
    Orderly (r >>= f) := by
  cases r with
  | ok a => exact hf a
  | error e => exact hr

theorem map {f : α → β} (hr : Orderly r) : Orderly (r.map f) := by
  cases r with
  | ok a => trivial
  | error e => exact hr

end Orderly

theorem Value.asInt_orderly (v : Value) : Orderly v.asInt := by
  cases v <;> trivial

theorem wordResult_orderly (symbol : String) (n : Int) : Orderly (wordResult symbol n) := by
  unfold wordResult
  split <;> trivial

/-- Arithmetic fails by its operands: by their kinds, by a zero, or by their size. -/
theorem BinaryOp.onInts_orderly (op : BinaryOp) (a b : Int64) : Orderly (op.onInts a b) := by
  unfold BinaryOp.onInts
  split
  · exact wordResult_orderly _ _
  · exact wordResult_orderly _ _
  · exact wordResult_orderly _ _
  · split
    · trivial
    · exact wordResult_orderly _ _
  · split
    · trivial
    · exact (wordResult_orderly _ _).bind fun _ => wordResult_orderly _ _
  · trivial

theorem BinaryOp.onDoubles_orderly (op : BinaryOp) (left right : Kind) (a b : Float) :
    Orderly (op.onDoubles left right a b) := by
  unfold BinaryOp.onDoubles
  split
  · trivial
  · trivial
  · trivial
  · split <;> trivial
  · trivial

theorem BinaryOp.arithmetic_orderly (op : BinaryOp) (left right : Value) :
    Orderly (op.arithmetic left right) := by
  unfold BinaryOp.arithmetic
  split
  · trivial
  · split
    · exact op.onInts_orderly _ _
    · exact op.onDoubles_orderly _ _ _ _
    · trivial

/-- Values that have no order are refused. -/
theorem Value.compare_orderly (left right : Value) : Orderly (left.compare right) := by
  unfold Value.compare
  split
  · trivial
  · trivial
  · split <;> trivial

/-- **An operator fails for the sake of its operands.** -/
theorem BinaryOp.apply_orderly (op : BinaryOp) (left right : Value) :
    Orderly (op.apply left right) := by
  cases op <;> simp only [BinaryOp.apply]
  case eq | ne => trivial
  case lt | gt | le | ge => exact (Value.compare_orderly _ _).map
  case and | or => split <;> trivial
  all_goals exact BinaryOp.arithmetic_orderly _ _ _

theorem UnaryOp.apply_orderly (op : UnaryOp) (operand : Value) : Orderly (op.apply operand) := by
  unfold UnaryOp.apply
  split
  · trivial
  · trivial
  · exact wordResult_orderly _ _
  · trivial
  · trivial
  · trivial

namespace Heap

variable (h : Heap)

/-- A read at an index fails for the sake of the target or the index. -/
theorem index_orderly (target i : Value) : Orderly (h.index target i) := by
  fun_induction Heap.index h target i with
  | case6 i content target ih => exact ih
  | _ => trivial

theorem keyMember_orderly (target : Value) (name : String) : Orderly (h.keyMember target name) := by
  unfold keyMember
  split <;> trivial

theorem member_orderly (target : Value) (name : String) : Orderly (h.member target name) := by
  unfold member
  split
  · split
    · trivial
    · exact h.keyMember_orderly target name
  · exact h.keyMember_orderly target name

/-- So does a store. -/
theorem storeIndex_orderly (v target i : Value) : Orderly (h.storeIndex v target i) := by
  fun_induction Heap.storeIndex h v target i with
  | case5 i content target ih => exact ih
  | _ => trivial

theorem storeMember_orderly (target : Value) (name : String) (v : Value) :
    Orderly (h.storeMember target name v) := by
  unfold storeMember
  split <;> trivial

/-- A method fails for the sake of its target or its arguments. -/
theorem callMethod_orderly (target : Value) (name : String) (args : List Value) :
    Orderly (h.callMethod target name args) := by
  unfold callMethod
  split
  · unfold append
    split <;> trivial
  · trivial
  · trivial
  · trivial
  · trivial

end Heap

/-- A conversion fails for the sake of the value. -/
theorem Ty.coerce_orderly (type : Ty) (v : Value) (h : Heap) : Orderly (type.coerce v h) := by
  fun_induction Ty.coerce type v generalizing h with
  | case4 type i content ih =>
    refine (ih h).bind fun p => ?_
    dsimp only
    split <;> trivial
  | case5 type v _ _ _ ih => exact (ih h).bind fun p => trivial
  | _ => trivial

theorem rangeArray_orderly (first last : Int64) (inclusive : Bool) (h : Heap) :
    Orderly (rangeArray first last inclusive h) := by
  unfold rangeArray Progression.toArray
  dsimp only
  split <;> trivial

theorem Builtin.rangeBounds_orderly (args : List Value) : Orderly (Builtin.rangeBounds args) := by
  have hbound : ∀ v, Orderly (Builtin.bound v) := by
    intro v
    cases v <;> trivial
  unfold Builtin.rangeBounds
  split
  · exact (hbound _).bind fun _ => trivial
  · exact (hbound _).bind fun _ => (hbound _).bind fun _ => trivial
  · trivial

/-- A declaration fails for its name or for its value. -/
theorem Scopes.declare_orderly (s : Scopes) (name : String) (type : Ty) (v : Value)
    (constant : Bool) (h : Heap) : Orderly (s.declare name type v constant h) := by
  rw [Scopes.declare_run]
  split
  · trivial
  · exact (type.coerce_orderly v h).map

/-- An assignment fails for its name, for a constant, or for its value. -/
theorem Scopes.assign_orderly (s : Scopes) (name : String) (v : Value) (h : Heap) :
    Orderly (s.assign name v h) := by
  rw [Scopes.assign_run]
  cases s.get? name with
  | none => trivial
  | some b =>
    dsimp only
    split
    · trivial
    · exact (b.type.coerce_orderly v h).map

/-! ## §2. Regimes -/

/-- The jump as a signal. -/
def Jump.signal : Jump → Signal
  | .brk => .brk
  | .cont => .cont

/-- What a run under a watch may execute, and the errors with which its parts may fail. -/
structure Conduct (w : Watch) where
  /-- The lists of statements that may be executed. -/
  code : List Stmt → Prop
  /-- The functions that may be called. -/
  callable : Func → Prop
  /-- The errors with which a part may fail. -/
  allows : Error → Prop
  /-- The functions of modules may be called. -/
  exported : ∀ {name f}, w.host.resolver name = .ok (some (.function f)) → callable f
  /-- The body of a function that may be called may be executed. -/
  body : ∀ {f}, callable f → code f.body
  /-- What may be executed may be with the blocks in it. -/
  inner : ∀ {body st block}, code body → st ∈ body → block ∈ st.blocks → code block
  /-- What may be executed declares functions that may be called. -/
  declared : ∀ {body name params returns block}, code body →
    Stmt.func name params returns block ∈ body → callable ⟨name, params, returns, block⟩
  /-- Errors other than leftover jumps and returns are allowed. -/
  orderly : ∀ {e}, e.isStray = false → allows e
  /-- The errors of modules are allowed. -/
  refusals : ∀ {name e}, w.host.resolver name = .error e → allows e
  /-- The errors of tools are allowed. -/
  failures : ∀ {name args h e}, (w.host.tools.call name args h).1 = .error e → allows e
  /-- A jump that a function's body leaves over is allowed. -/
  jumps : ∀ {f fuel s t j}, callable f → w.exec fuel f.body s = some (Jump.signal j, t) →
    allows (.outsideLoop j)

/-- Everything may be executed, and every error is allowed. -/
def Conduct.any (w : Watch) : Conduct w where
  code _ := True
  callable _ := True
  allows _ := True
  exported _ := trivial
  body _ := trivial
  inner _ _ _ := trivial
  declared _ _ := trivial
  orderly _ := trivial
  refusals _ := trivial
  failures _ := trivial
  jumps _ _ := trivial

/-- The error that is under way after a computation that may fail. -/
def failure? {α : Type} : Except Error α → Option Error
  | .ok _ => none
  | .error e => some e

/-- The pending errors, with the one that is under way. -/
def errorsWith (pending : Array Error) : Option Error → Array Error
  | none => pending
  | some e => pending.push e

/-- The hosts have the same tools and modules, and trace statements both or neither. -/
structure Host.Alike (host host' : Host) : Prop where
  tools : host'.tools = host.tools
  resolver : host'.resolver = host.resolver
  trace : host'.settings.trace = host.settings.trace

theorem Host.Alike.refl (host : Host) : host.Alike host := ⟨rfl, rfl, rfl⟩

/-- What a run under the first watch keeps up, and how long a run under the second goes along. -/
structure Regime (w w' : Watch) extends Conduct w where
  /-- What holds of the number of open calls and of the pending errors at every moment. -/
  within : Nat → Array Error → Prop
  /-- The pending errors that let both runs be the same up to here. -/
  keeps : Array Error → Prop
  /-- Whether the first run may be without an outcome. -/
  stops : Prop
  /-- Only the limit on calls may differ. -/
  alike : w.host.Alike w'.host
  /-- Both runs admit the same calls, as far as they are to be the same. -/
  admits : ∀ {depth pending}, within depth pending →
    keeps (errorsWith pending (failure? (w.host.admitsCall depth))) →
    w'.host.admitsCall depth = w.host.admitsCall depth
  /-- One more call that is admitted. -/
  opens : ∀ {depth pending}, within depth pending → w.host.admitsCall depth = .ok () →
    within (depth + 1) pending
  /-- One call less. -/
  closes : ∀ {depth pending}, within (depth + 1) pending → within depth pending
  /-- The answer when a call has been opened. -/
  opened : ∀ {s}, within s.callDepth s.pending → w.opened s = false → stops
  /-- The second run gets the answer of the first when a call has been opened. -/
  openedToo : ∀ {s}, within s.callDepth s.pending → w.opened s = true → w'.opened s = true
  /-- The answer when a statement has failed. -/
  failed : ∀ {s e}, within s.callDepth s.pending → w.failed e s = false → stops
  /-- The second run gets the answer of the first when a statement has failed. -/
  failedToo : ∀ {s e}, within s.callDepth s.pending → keeps (s.pending.push e) →
    w.failed e s = true → w'.failed e s = true
  /-- One more pending error. -/
  reports : ∀ {s e}, within s.callDepth s.pending → allows e → w.failed e s = true →
    within s.callDepth (s.pending.push e)
  /-- What is asked of all errors holds of the earlier ones. -/
  earlier : ∀ {pending e}, keeps (pending.push e) → keeps pending
  /-- A run that does not give up may be without an outcome. -/
  endless : w.givesUp = false → stops
  /-- The second run gives up with the first. -/
  givesUpToo : w.givesUp = true → w'.givesUp = true

variable {α β : Type} {w w' : Watch} {R : Regime w w'} {s : State}

/-- What is asked of the errors with the one under way is asked of the pending ones. -/
theorem Regime.keeps_pending (R : Regime w w') {pending : Array Error} {under : Option Error}
    (h : R.keeps (errorsWith pending under)) : R.keeps pending := by
  cases under with
  | none => exact h
  | some e => exact R.earlier h

/-- The regime holds in the state. -/
structure Regime.Holds (R : Regime w w') (s : State) : Prop where
  functions : s.functions.All R.callable
  within : R.within s.callDepth s.pending

namespace Regime.Holds

/-- The regime is about the functions, the open calls and the pending errors, and about nothing
    else. -/
theorem congr {t : State} (h : R.Holds s) (hfunctions : t.functions = s.functions)
    (hdepth : t.callDepth = s.callDepth) (hpending : t.pending = s.pending) : R.Holds t := by
  refine ⟨hfunctions ▸ h.functions, ?_⟩
  rw [hdepth, hpending]
  exact h.within

/-- Opening a call that is admitted keeps up the regime. -/
theorem openCall (h : R.Holds s) (hadmits : w.host.admitsCall s.callDepth = .ok ()) :
    R.Holds s.openCall :=
  ⟨h.functions, R.opens h.within hadmits⟩

/-- So does closing it, as the number of open calls is what it was when it was opened. -/
theorem closeCall {t : State} (h : R.Holds t) (hdepth : t.callDepth = s.openCall.callDepth) :
    R.Holds t.closeCall := by
  have hdepth : t.callDepth = s.callDepth + 1 := hdepth
  refine ⟨h.functions, R.closes ?_⟩
  show R.within (t.callDepth - 1 + 1) t.pending
  rw [show t.callDepth - 1 + 1 = t.callDepth by omega]
  exact h.within

/-- A function that may be called may be registered. -/
theorem define (h : R.Holds s) {f : Func} (hf : R.callable f) :
    R.Holds { s with functions := s.functions.set f.name f } :=
  ⟨h.functions.set f.name hf, h.within⟩

/-- An error that is allowed may become pending. -/
theorem report (h : R.Holds s) {e : Error} (he : R.allows e) (hfailed : w.failed e s = true) :
    R.Holds { s with diagnostics := s.diagnostics.push (.error e), pending := s.pending.push e } :=
  ⟨h.functions, R.reports h.within he hfailed⟩

end Regime.Holds

/-! ## §3. Computations that cannot fail -/

/-- From a state in which the regime holds, with an error under way or none, the first computation
    keeps up the regime; and if the errors at its end allow to tell, so did those at its beginning,
    and the second computation has the same outcome. -/
def Run.Repeats (R : Regime w w') (s : State) (before : Option Error) (after : α → Option Error)
    (x y : Run α) : Prop :=
  R.Holds s → (∀ e, before = some e → R.allows e) →
    (x s = none → R.stops) ∧ ∀ a t, x s = some (a, t) →
      t.callDepth = s.callDepth ∧ R.Holds t ∧ (∀ e, after a = some e → R.allows e) ∧
        (R.keeps (errorsWith t.pending (after a)) →
          R.keeps (errorsWith s.pending before) ∧ y s = some (a, t))

namespace Run.Repeats

variable {x y : Run α} {before : Option Error} {after : α → Option Error}

/-- A step that both take. -/
theorem step {a : α} {t : State} (hx : x s = some (a, t)) (hy : y s = some (a, t))
    (hdepth : t.callDepth = s.callDepth) (ht : R.Holds s → R.Holds t)
    (hafter : (∀ e, before = some e → R.allows e) → ∀ e, after a = some e → R.allows e)
    (hkeeps : R.keeps (errorsWith t.pending (after a)) → R.keeps (errorsWith s.pending before)) :
    Run.Repeats R s before after x y := by
  intro hs hbefore
  constructor
  -- a step has an outcome
  · intro hnone
    rw [hx] at hnone
    cases hnone
  · intro b u hrun
    rw [hx] at hrun
    cases hrun
    exact ⟨hdepth, ht hs, hafter hbefore, fun h => ⟨hkeeps h, hy⟩⟩

/-- A step that leaves alone what the regime is about, and an error under way stays so. -/
theorem quiet {a : α} {t : State} (hx : x s = some (a, t)) (hy : y s = some (a, t))
    (hfunctions : t.functions = s.functions) (hdepth : t.callDepth = s.callDepth)
    (hpending : t.pending = s.pending) (hafter : after a = before) :
    Run.Repeats R s before after x y := by
  refine .step hx hy hdepth (fun hs => hs.congr hfunctions hdepth hpending) ?_ ?_
  · rw [hafter]
    exact id
  · rw [hafter, hpending]
    exact id

theorem pure {a : α} (ha : after a = before) : Run.Repeats R s before after (pure a) (pure a) :=
  .quiet rfl rfl rfl rfl rfl ha

/-- One computation after the other: both facts about the errors go from the end to the beginning. -/
theorem bind {f g : α → Run β} {last : β → Option Error}
    (hx : Run.Repeats R s before after x y)
    (hf : ∀ a t, x s = some (a, t) → t.callDepth = s.callDepth →
      Run.Repeats R t (after a) last (f a) (g a)) :
    Run.Repeats R s before last (x >>= f) (y >>= g) := by
  intro hs hbefore
  obtain ⟨hnone, hsome⟩ := hx hs hbefore
  constructor
  -- no outcome: either part may be without one
  · intro h
    have h : (x s).bind (fun p => f p.1 p.2) = none := h
    cases hfirst : x s with
    | none => exact hnone hfirst
    | some p =>
      obtain ⟨a, t⟩ := p
      obtain ⟨hdepth, ht, hafter, -⟩ := hsome a t hfirst
      rw [hfirst] at h
      exact (hf a t hfirst hdepth ht hafter).1 h
  -- an outcome: the errors at the end let the second part be repeated, and those between the first
  · intro b u h
    have h : (x s).bind (fun p => f p.1 p.2) = some (b, u) := h
    obtain ⟨⟨a, t⟩, hfirst, hrest⟩ := Option.bind_eq_some_iff.mp h
    obtain ⟨hdepth, ht, hafter, hsame⟩ := hsome a t hfirst
    obtain ⟨hdepth', hu, hlast, hsame'⟩ := (hf a t hfirst hdepth ht hafter).2 b u hrest
    refine ⟨hdepth'.trans hdepth, hu, hlast, fun hkeeps => ?_⟩
    obtain ⟨hmiddle, hg⟩ := hsame' hkeeps
    obtain ⟨hfirst', hy⟩ := hsame hmiddle
    refine ⟨hfirst', ?_⟩
    show (y s).bind (fun p => g p.1 p.2) = some (b, u)
    rw [hy]
    exact hg

/-- The end of the fuel. -/
theorem cutOff {a : α} (ha : after a = none) :
    Run.Repeats R s none after (w.cutOff a) (w'.cutOff a) := by
  unfold Watch.cutOff
  cases hgive : w.givesUp with
  | true =>
    rw [R.givesUpToo hgive]
    exact .pure ha
  | false => exact fun _ _ => ⟨fun _ => R.endless hgive, fun a t hrun => by cases hrun⟩

/-- The frames have no part in the regime. -/
theorem inFrame {kind : FrameKind}
    (hx : Run.Repeats R (s.openFrame kind) none after x y) :
    Run.Repeats R s none after (Run.inFrame kind x) (Run.inFrame kind y) := by
  have hopen : Run.Repeats R s none (fun _ : PUnit => none)
      (modify fun s => { s with scopes := s.scopes.push kind })
      (modify fun s => { s with scopes := s.scopes.push kind }) :=
    .quiet rfl rfl rfl rfl rfl rfl
  refine .bind hopen fun _ t ht _ => ?_
  cases ht
  refine .bind hx fun a t _ _ => ?_
  -- the frame is closed with the error under way, if there is one
  have hclose : Run.Repeats R t (after a) (fun _ : PUnit => after a)
      (modify fun s => { s with scopes := s.scopes.pop })
      (modify fun s => { s with scopes := s.scopes.pop }) :=
    .quiet rfl rfl rfl rfl rfl rfl
  exact .bind hclose fun _ _ _ _ => .pure rfl

/-- A call that is admitted; the regime holds inside it and again after it. -/
theorem inCall (hadmits : w.host.admitsCall s.callDepth = .ok ())
    (hx : Run.Repeats R s.openCall none after x y) :
    Run.Repeats R s none after (Run.inCall x) (Run.inCall y) := by
  intro hs hbefore
  obtain ⟨hnone, hsome⟩ := hx (hs.openCall hadmits) hbefore
  rw [Run.inCall_run, Run.inCall_run]
  constructor
  · intro h
    exact hnone (Option.map_eq_none_iff.mp h)
  · intro a u h
    obtain ⟨⟨b, t⟩, hbody, hclose⟩ := Option.map_eq_some_iff.mp h
    cases hclose
    obtain ⟨hdepth, ht, hafter, hsame⟩ := hsome b t hbody
    -- one call is closed, so there are as many open as before
    refine ⟨?_, ht.closeCall hdepth, hafter, fun hkeeps => ?_⟩
    · show t.callDepth - 1 = s.callDepth
      rw [hdepth]
      exact Nat.add_sub_cancel s.callDepth 1
    · obtain ⟨hkept, hy⟩ := hsame hkeeps
      exact ⟨hkept, by rw [hy]; rfl⟩

/-- A question; an error under way stays so. -/
theorem ask {question question' : State → Bool}
    (hno : R.Holds s → question s = false → R.stops)
    (hyes : R.Holds s → R.keeps (errorsWith s.pending before) → question s = true →
      question' s = true) :
    Run.Repeats R s before (fun _ => before) (Watch.ask question) (Watch.ask question') := by
  intro hs hbefore
  cases hanswer : question s with
  -- the answer is yes, and the second run gets the same
  | true =>
    rw [Watch.ask_yes hanswer]
    refine ⟨fun h => (by cases h), fun a t hrun => ?_⟩
    cases hrun
    exact ⟨rfl, hs, hbefore, fun hkeeps => ⟨hkeeps, Watch.ask_yes (hyes hs hkeeps hanswer)⟩⟩
  -- the answer is no, and there is no outcome
  | false =>
    rw [Watch.ask_no hanswer]
    exact ⟨fun _ => hno hs hanswer, fun a t hrun => by cases hrun⟩

/-- A report after which the error is no longer under way, but pending. -/
theorem report {e : Error} (hfailed : w.failed e s = true) :
    Run.Repeats R s (some e) (fun _ => none) (Run.report e) (Run.report e) := by
  intro hs hbefore
  refine ⟨fun h => (by cases h), fun a t hrun => ?_⟩
  cases hrun
  exact ⟨rfl, hs.report (hbefore e rfl) hfailed, fun _ he => (by cases he), fun hkeeps => ⟨hkeeps, rfl⟩⟩

end Run.Repeats

/-! ## §4. Computations that may fail -/

/-- The first computation keeps up the regime, and the second repeats it if the errors at the end
    allow to tell. -/
def Eval.Repeats (R : Regime w w') (s : State) (x y : Eval α) : Prop :=
  Run.Repeats R s none failure? x.run y.run

namespace Eval.Repeats

variable {x y : Eval α}

/-- A step of both that leaves alone what the regime is about. -/
theorem step {r : Except Error α} {t : State} (hx : x.run s = some (r, t))
    (hy : y.run s = some (r, t)) (hfunctions : t.functions = s.functions)
    (hdepth : t.callDepth = s.callDepth) (hpending : t.pending = s.pending)
    (hr : ∀ e, r = .error e → R.allows e) : Eval.Repeats R s x y := by
  refine Run.Repeats.step hx hy hdepth (fun hs => hs.congr hfunctions hdepth hpending) ?_ ?_
  · intro _ e he
    cases r with
    | ok a => cases he
    | error e' => exact hr e (congrArg Except.error (Option.some.inj he))
  · rw [hpending]
    exact R.keeps_pending

/-- Such a step that succeeds. -/
theorem done {a : α} {t : State} (hx : x.run s = some (.ok a, t)) (hy : y.run s = some (.ok a, t))
    (hfunctions : t.functions = s.functions) (hdepth : t.callDepth = s.callDepth)
    (hpending : t.pending = s.pending) : Eval.Repeats R s x y :=
  .step hx hy hfunctions hdepth hpending fun _ he => (by cases he)

theorem pure (a : α) : Eval.Repeats R s (pure a) (pure a) :=
  .done rfl rfl rfl rfl rfl

/-- An allowed error, under way from here on. -/
theorem throw {e : Error} (he : R.allows e) : Eval.Repeats R s (throw e : Eval α) (throw e) :=
  .step rfl rfl rfl rfl rfl fun _ h => Except.error.inj h ▸ he

/-- A failure skips what follows. -/
theorem fail {e : Error} {f g : α → Eval β} (he : R.allows e) :
    Eval.Repeats R s (MonadExcept.throw e >>= f) (MonadExcept.throw e >>= g) :=
  .step rfl rfl rfl rfl rfl fun _ h => Except.error.inj h ▸ he

/-- A computation that cannot fail leaves no error under way. -/
theorem lift {x y : Run α} (hx : Run.Repeats R s none (fun _ => none) x y) :
    Eval.Repeats R s (liftM x : Eval α) (liftM y : Eval α) := by
  show Run.Repeats R s none failure? (x >>= fun a => Pure.pure (Except.ok a))
    (y >>= fun a => Pure.pure (Except.ok a))
  exact .bind hx fun _ _ _ _ => .quiet rfl rfl rfl rfl rfl rfl

/-- One computation after the other, unless the first fails. -/
theorem bind {f g : α → Eval β} (hx : Eval.Repeats R s x y)
    (hf : ∀ a t, x.run s = some (.ok a, t) → t.callDepth = s.callDepth →
      Eval.Repeats R t (f a) (g a)) : Eval.Repeats R s (x >>= f) (y >>= g) := by
  refine Run.Repeats.bind (f := ExceptT.bindCont f) (g := ExceptT.bindCont g) hx ?_
  intro r t hrun hdepth
  cases r with
  | ok a => exact hf a t hrun hdepth
  | error e => exact .quiet rfl rfl rfl rfl rfl rfl

/-- Reading the state, in which the regime holds. -/
theorem get {f g : State → Eval β} (hf : R.Holds s → Eval.Repeats R s (f s) (g s)) :
    Eval.Repeats R s (MonadState.get >>= f) (MonadState.get >>= g) :=
  fun hs => hf hs hs

/-- A result that is known before, or its error, which has to be allowed. -/
theorem ofExcept {r : Except Error α} (hr : ∀ e, r = .error e → R.allows e) :
    Eval.Repeats R s (Eval.ofExcept r) (Eval.ofExcept r) := by
  cases r with
  | ok a => exact .pure a
  | error e => exact .throw (hr e rfl)

/-- Data that may be wrong. -/
theorem data {r : Except Error α} (hr : Orderly r) :
    Eval.Repeats R s (Eval.ofExcept r) (Eval.ofExcept r) :=
  .ofExcept fun _ he => R.orderly (hr.error he)

/-- A computation on the heap, which fails for the sake of its data. -/
theorem ofAlloc {x : Alloc α} (hx : ∀ h, Orderly (x h)) :
    Eval.Repeats R s (Eval.ofAlloc x) (Eval.ofAlloc x) := by
  unfold Eval.ofAlloc
  refine .get fun _ => .bind (.data (hx s.heap)) fun p t _ _ => ?_
  exact .done rfl rfl rfl rfl rfl

theorem changeHeap {f : Heap → Except Error Heap} (hf : ∀ h, Orderly (f h)) :
    Eval.Repeats R s (Eval.changeHeap f) (Eval.changeHeap f) := by
  unfold Eval.changeHeap
  refine .get fun _ => .bind (.data (hf s.heap)) fun h t _ _ => ?_
  exact .done rfl rfl rfl rfl rfl

theorem changeScopes {f : Scopes → Alloc Scopes} (hf : ∀ scopes h, Orderly (f scopes h)) :
    Eval.Repeats R s (Eval.changeScopes f) (Eval.changeScopes f) := by
  unfold Eval.changeScopes
  refine .get fun _ => .bind (.ofAlloc (hf s.scopes)) fun scopes t _ _ => ?_
  exact .done rfl rfl rfl rfl rfl

/-- A frame is closed also on failure. -/
theorem inFrame {kind : FrameKind} (hx : Eval.Repeats R (s.openFrame kind) x y) :
    Eval.Repeats R s (Eval.inFrame kind x) (Eval.inFrame kind y) :=
  Run.Repeats.inFrame hx

theorem inCall (hadmits : w.host.admitsCall s.callDepth = .ok ())
    (hx : Eval.Repeats R s.openCall x y) :
    Eval.Repeats R s (Eval.inCall x) (Eval.inCall y) :=
  Run.Repeats.inCall hadmits hx

end Eval.Repeats

end Scriptlet
