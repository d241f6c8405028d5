/-
  Scriptlet.Proofs.Chronicle — what stands in the record of a run.

  `Recording.Tells host D s x' x Q` says of a recorded computation `x'` in a sound state `s` that it
  is the computation `x` with a record: it ends as `x` does; at every moment that is written down the
  state is sound, the value is good and the lines of the trace are those of the statements begun
  before; and where `x` ends, all this holds of its end, and the result has the property `Q`.
  `Attempt.Tells` is the same for computations that may fail.  As in `Triple` there is one rule for
  each primitive, so that what is built from the primitives never has to be run.
-/
import Scriptlet.Proofs.Record
import Scriptlet.Proofs.Triple

namespace Scriptlet

/-! ## §1. The lines of the trace -/

/-- The kind of statement that a line of the trace names. -/
def Diagnostic.traced? : Diagnostic → Option String
  | .trace kind => some kind
  | .error _ => none

/-- What the lines of the trace have named so far. -/
def State.traced (s : State) : List String := s.diagnostics.toList.filterMap Diagnostic.traced?

/-- The line of an error is none of the trace. -/
theorem Diagnostic.filterMap_traced?_push_error (ds : Array Diagnostic) (e : Error) :
    (ds.push (.error e)).toList.filterMap traced? = ds.toList.filterMap traced? := by
  rw [Array.toList_push, List.filterMap_append]
  exact List.append_nil _

/-- The kinds of the statements that are begun in a record. -/
def kindsBegun (log : List Event) : List String := (log.filterMap Event.begun?).map Stmt.kind

/-- What the lines of the trace name for a record, if it is on. -/
def Host.lines (host : Host) (log : List Event) : List String :=
  if host.settings.trace then kindsBegun log else []

theorem Host.lines_nil (host : Host) : host.lines [] = [] := by
  unfold lines
  split <;> rfl

/-- The lines of one record follow those of another. -/
theorem Host.lines_append (host : Host) (log log' : List Event) :
    host.lines (log ++ log') = host.lines log ++ host.lines log' := by
  unfold lines kindsBegun
  split
  · rw [List.filterMap_append, List.map_append]
  · rfl

/-- Only a statement that is begun has a line. -/
theorem Host.lines_of_begun_none (host : Host) {ev : Event} (h : ev.begun? = none) :
    host.lines [ev] = [] := by
  unfold lines kindsBegun
  split
  · rw [List.filterMap_cons_none h]
    rfl
  · rfl

/-! ## §2. Chronicles -/

/-- At that moment the state is sound, and what is evaluated or met there is good. -/
structure Event.Good (host : Host) (D : Discipline) (ev : Event) : Prop where
  state : ev.state.Sound host D
  value : ∀ v, ev.value? = some v → D.value ev.state.heap v
  target : ∀ v, ev.target? = some v → D.value ev.state.heap v

namespace Event.Good

variable {host : Host} {D : Discipline} {s : State}

theorem step (hs : s.Sound host D) : Event.Good host D ⟨.step, s⟩ where
  state := hs
  value _ h := by cases h
  target _ h := by cases h

theorem statement (st : Stmt) (hs : s.Sound host D) : Event.Good host D ⟨.statement st, s⟩ where
  state := hs
  value _ h := by cases h
  target _ h := by cases h

/-- A value that is written down must be good where it is. -/
theorem evaluated {v : Value} (hs : s.Sound host D) (hv : D.value s.heap v) :
    Event.Good host D ⟨.value v, s⟩ where
  state := hs
  value _ h := Option.some.inj h ▸ hv
  target _ h := by cases h

theorem link {v : Value} (hs : s.Sound host D) (hv : D.value s.heap v) :
    Event.Good host D ⟨.link v, s⟩ where
  state := hs
  value _ h := by cases h
  target _ h := Option.some.inj h ▸ hv

end Event.Good

/-- Every moment of the record is good, and the lines of the trace, after those there were, are those
    of the statements begun before. -/
def Chronicle (host : Host) (D : Discipline) (traced : List String) (log : List Event) : Prop :=
  ∀ before ev after, log = before ++ ev :: after →
    ev.Good host D ∧ ev.state.traced = traced ++ host.lines before

namespace Chronicle

variable {host : Host} {D : Discipline} {traced : List String} {log log' : List Event}

theorem nil : Chronicle host D traced [] := by
  intro before ev after h
  cases List.append_eq_nil_iff.mp h.symm |>.2

/-- One moment, before which no statement was begun. -/
theorem one {ev : Event} (hev : ev.Good host D) (htraced : ev.state.traced = traced) :
    Chronicle host D traced [ev] := by
  intro before ev' after h
  cases before with
  | nil =>
    cases h
    rw [host.lines_nil, List.append_nil]
    exact ⟨hev, htraced⟩
  | cons first rest =>
    have hrest : [] = rest ++ ev' :: after := (List.cons.inj h).2
    cases List.append_eq_nil_iff.mp hrest.symm |>.2

/-- **One record after the other**: the second begins with the lines that the first has left. -/
theorem append (h : Chronicle host D traced log)
    (h' : Chronicle host D (traced ++ host.lines log) log') :
    Chronicle host D traced (log ++ log') := by
  intro before ev after heq
  rcases List.append_eq_append_iff.mp heq with ⟨rest, rfl, hrest⟩ | ⟨rest, hlog, hrest⟩
  · -- the moment lies in the second record
    rw [host.lines_append, ← List.append_assoc]
    exact h' rest ev after hrest
  · cases rest with
    | nil =>
      -- it is the first of the second record
      rw [List.append_nil] at hlog
      subst hlog
      have hnext := h' [] ev after hrest.symm
      rw [host.lines_nil, List.append_nil] at hnext
      exact hnext
    | cons ev' rest =>
      cases (List.cons.inj hrest).1
      exact h before ev rest hlog

end Chronicle

/-- What holds where a computation with this record has ended. -/
structure State.Reached (host : Host) (D : Discipline) (s : State) (log : List Event) (t : State) :
    Prop where
  sound : t.Sound host D
  keeps : D.Keeps s.heap t.heap
  traced : t.traced = s.traced ++ host.lines log

namespace State.Reached

variable {host : Host} {D : Discipline} {s t u : State} {log log' : List Event}

/-- Where nothing has happened the state is as it was. -/
theorem refl (hs : s.Sound host D) : State.Reached host D s [] s where
  sound := hs
  keeps _ hv := hv
  traced := by rw [host.lines_nil, List.append_nil]

/-- What is reached from where a computation has ended is reached from where it began. -/
theorem trans (h : State.Reached host D s log t) (h' : State.Reached host D t log' u) :
    State.Reached host D s (log ++ log') u where
  sound := h'.sound
  keeps v hv := h'.keeps v (h.keeps v hv)
  traced := by rw [h'.traced, h.traced, host.lines_append, List.append_assoc]

end State.Reached

/-! ## §3. Computations that cannot fail -/

namespace Recording

variable {α β : Type} {host : Host} {D : Discipline} {s : State}

/-- The recorded computation and the one that it records, in one state. -/
structure Account (host : Host) (D : Discipline) (s : State) (x' : Recording α) (x : Run α)
    (Q : Heap → α → Prop) : Prop where
  outcome : x'.outcome s = x s
  chronicle : Chronicle host D s.traced (x'.log s)
  result : ∀ a t, x s = some (a, t) → State.Reached host D s (x'.log s) t ∧ Q t.heap a

/-- In a sound state, the one is the other with a record. -/
def Tells (host : Host) (D : Discipline) (s : State) (x' : Recording α) (x : Run α)
    (Q : Heap → α → Prop) : Prop :=
  s.Sound host D → Account host D s x' x Q

namespace Tells

variable {x' : Recording α} {x : Run α} {Q : Heap → α → Prop}

theorem pure {a : α} (ha : Q s.heap a) : Tells host D s (pure a) (pure a) Q := by
  intro hs
  refine ⟨rfl, .nil, fun b t h => ?_⟩
  cases h
  exact ⟨.refl hs, ha⟩

/-- A step that leaves the trace alone. -/
theorem step (hx : s.Sound host D → ∀ a t, x s = some (a, t) →
      t.Sound host D ∧ D.Keeps s.heap t.heap ∧ t.traced = s.traced ∧ Q t.heap a) :
    Tells host D s (Recording.step x) x Q := by
  intro hs
  have hx := hx hs
  cases hrun : x s with
  -- out of fuel: nothing is written down, and there is no end to speak of
  | none =>
    have hlog : (Recording.step x).log s = [] := by
      show (x s).elim [] _ = _
      rw [hrun]
      rfl
    refine ⟨rfl, hlog ▸ .nil, fun a t h => ?_⟩
    rw [hrun] at h
    cases h
  | some p =>
    obtain ⟨a, t⟩ := p
    obtain ⟨hsound, hkeeps, htraced, hq⟩ := hx a t hrun
    -- one moment is written down, the one that the step has led to
    have hlog : (Recording.step x).log s = [⟨.step, t⟩] := by
      show (x s).elim [] _ = _
      rw [hrun]
      rfl
    refine ⟨rfl, hlog ▸ .one (.step hsound) htraced, fun b u h => ?_⟩
    rw [hrun] at h
    cases h
    rw [hlog]
    refine ⟨⟨hsound, hkeeps, ?_⟩, hq⟩
    rw [host.lines_of_begun_none rfl, List.append_nil, htraced]

/-- One computation after the other. -/
theorem bind_run {f' : α → Recording β} {f : α → Run β} {R : Heap → β → Prop}
    (hx : Tells host D s x' x Q)
    (hf : ∀ t a, x s = some (a, t) → D.Keeps s.heap t.heap → Q t.heap a →
      Tells host D t (f' a) (f a) R) :
    Tells host D s (x' >>= f') (x >>= f) R := by
  intro hs
  obtain ⟨houtcome, hchronicle, hresult⟩ := hx hs
  have houtcome' : (x' >>= f').outcome s =
      (x s).bind fun p => (f' p.1).outcome p.2 := houtcome ▸ rfl
  have hlog' : (x' >>= f').log s =
      x'.log s ++ (x s).elim [] fun p => (f' p.1).log p.2 := houtcome ▸ rfl
  have hrun' : (x >>= f) s = (x s).bind fun p => f p.1 p.2 := rfl
  cases hrun : x s with
  | none =>
    -- the second is never begun, and the record is that of the first
    rw [hrun] at houtcome' hlog' hrun'
    refine ⟨houtcome'.trans hrun'.symm, ?_, fun b u h => ?_⟩
    · rw [hlog']
      exact hchronicle.append .nil
    · rw [hrun'] at h
      cases h
  | some p =>
    -- the second starts in the state that the first has left, with the lines of its statements
    obtain ⟨a, t⟩ := p
    rw [hrun] at houtcome' hlog' hrun'
    obtain ⟨hreached, hq⟩ := hresult a t hrun
    obtain ⟨hout, hchron, hres⟩ := hf t a hrun hreached.keeps hq hreached.sound
    refine ⟨houtcome'.trans (hout.trans hrun'.symm), ?_, fun b u h => ?_⟩
    · rw [hlog']
      exact hchronicle.append (hreached.traced ▸ hchron)
    · rw [hrun'] at h
      obtain ⟨hreached', hr⟩ := hres b u h
      rw [hlog']
      exact ⟨hreached.trans hreached', hr⟩

/-- The same where what follows does not rely on the run. -/
theorem bind {f' : α → Recording β} {f : α → Run β} {R : Heap → β → Prop}
    (hx : Tells host D s x' x Q)
    (hf : ∀ t a, D.Keeps s.heap t.heap → Q t.heap a → Tells host D t (f' a) (f a) R) :
    Tells host D s (x' >>= f') (x >>= f) R :=
  hx.bind_run fun t a _ => hf t a

/-- A change of the state that leaves the objects and the trace alone, and what follows. -/
theorem modify_bind {g : State → State} {f' : Unit → Recording β} {f : Unit → Run β}
    {R : Heap → β → Prop} (hg : s.Sound host D → (g s).Sound host D)
    (hheap : (g s).heap = s.heap) (htraced : (g s).traced = s.traced)
    (hf : Tells host D (g s) (f' ()) (f ()) R) :
    Tells host D s (Recording.step (modify g) >>= f') (modify g >>= f) R := by
  have hstep : Tells host D s (Recording.step (modify g)) (modify g) fun _ _ => True := by
    refine step fun hs a t h => ?_
    cases h
    exact ⟨hg hs, hheap ▸ fun _ hv => hv, htraced, trivial⟩
  refine hstep.bind_run fun t a h _ _ => ?_
  cases h
  exact hf

/-- A frame of its own. -/
theorem inFrame {kind : FrameKind} (hx : Tells host D (s.openFrame kind) x' x Q) :
    Tells host D s (Recording.inFrame kind x') (Run.inFrame kind x) Q := by
  refine modify_bind (fun hs => hs.openFrame kind) rfl rfl (hx.bind fun t a _ hq => ?_)
  exact modify_bind (fun ht => ht.closeFrame) rfl rfl (pure hq)

/-- A call. -/
theorem inCall (hx : Tells host D s.openCall x' x Q) :
    Tells host D s (Recording.inCall x') (Run.inCall x) Q := by
  refine modify_bind (fun hs => ⟨hs.heap, hs.scopes, hs.host⟩) rfl rfl ?_
  refine Tells.bind (Q := Q) (inFrame hx) fun t a _ hq => ?_
  exact modify_bind (fun ht => ⟨ht.heap, ht.scopes, ht.host⟩) rfl rfl (pure hq)

end Tells

end Recording

/-! ## §4. Steps that leave the trace alone -/

/-- No diagnostic is added, whatever comes of the computation. -/
def Eval.Quiet {α : Type} (x : Eval α) : Prop :=
  ∀ s r t, x s = some (r, t) → t.diagnostics = s.diagnostics

namespace Eval.Quiet

variable {α β : Type} {x : Eval α}

theorem pure {a : α} : Quiet (pure a) := by
  intro s r t h
  cases h
  rfl

theorem throw {e : Error} : Quiet (throw e : Eval α) := by
  intro s r t h
  cases h
  rfl

theorem get : Quiet (get : Eval State) := by
  intro s r t h
  cases h
  rfl

theorem modify {f : State → State} (hf : ∀ s, (f s).diagnostics = s.diagnostics) :
    Quiet (modify f) := by
  intro s r t h
  cases h
  exact hf s

/-- What is built from quiet computations is quiet. -/
theorem bind {f : α → Eval β} (hx : Quiet x) (hf : ∀ a, Quiet (f a)) : Quiet (x >>= f) := by
  intro s r u h
  have h : (x s).bind (fun p => ExceptT.bindCont f p.1 p.2) = some (r, u) := h
  obtain ⟨⟨first, t⟩, hfirst, hrest⟩ := Option.bind_eq_some_iff.mp h
  cases first with
  | ok a => rw [hf a t r u hrest, hx s _ t hfirst]
  | error e =>
    cases hrest
    exact hx s _ t hfirst

theorem ofExcept (r : Except Error α) : Quiet (Eval.ofExcept r) := by
  cases r with
  | ok a => exact .pure
  | error e => exact .throw

/-- Computations on the heap write no diagnostics. -/
theorem ofAlloc (x : Alloc α) : Quiet (Eval.ofAlloc x) :=
  .bind .get fun _ => .bind (.ofExcept _) fun _ => .bind (.modify fun _ => rfl) fun _ => .pure

theorem changeHeap (f : Heap → Except Error Heap) : Quiet (Eval.changeHeap f) :=
  .bind .get fun _ => .bind (.ofExcept _) fun _ => .modify fun _ => rfl

/-- Nor do changes of the bindings. -/
theorem changeScopes (f : Scopes → Alloc Scopes) : Quiet (Eval.changeScopes f) :=
  .bind .get fun _ => .bind (.ofAlloc _) fun _ => .modify fun _ => rfl

theorem key (v : Value) : Quiet (Eval.key v) := by
  unfold Eval.key
  split
  · exact .pure
  · exact .throw

/-- Nor does a look at a name. -/
theorem variableValue (host : Host) (name : String) : Quiet (Eval.variableValue host name) := by
  refine .bind .get fun s => ?_
  split
  · exact .pure
  · refine .bind (.ofExcept _) fun symbol => ?_
    split
    · exact .pure
    · exact .throw
    · exact .throw

theorem callee (host : Host) (name : String) : Quiet (Eval.callee host name) := by
  refine .bind .get fun s => ?_
  split
  · exact .pure
  · split
    · exact .pure
    · refine .bind (.ofExcept _) fun symbol => ?_
      split
      · exact .pure
      · exact .throw
      · exact .throw

theorem callResult (f : Func) (signal : Signal) : Quiet (Eval.callResult f signal) := by
  cases signal with
  | ret v => exact .ofAlloc _
  | next | brk | cont => exact .throw

/-- A tool sees the heap and nothing else of the state, so it is quiet too. -/
theorem callTool (host : Host) (name : String) (args : List Value) :
    Quiet (Eval.callTool host name args) :=
  .bind .get fun _ => .bind (.modify fun _ => rfl) fun _ => .ofExcept _

theorem sequenceOf (v : Value) : Quiet (Eval.sequenceOf v) := by
  unfold Eval.sequenceOf
  split
  · exact .bind .get fun _ => .pure
  · exact .bind .get fun _ => .pure
  · exact .throw

/-- To set the variable of a loop adds nothing to the trace. -/
theorem setItem (reuse : Bool) (name : String) (v : Value) :
    Quiet (Eval.setItem reuse name v) := by
  unfold Eval.setItem
  split
  · exact .changeScopes _
  · exact .modify fun _ => rfl

theorem define (f : Func) : Quiet (Eval.define f) := by
  refine .bind .get fun s => ?_
  split
  · exact .bind .throw fun _ => .modify fun _ => rfl
  · exact .modify fun _ => rfl

/-- A printed line is no line of the trace. -/
theorem print (line : String) : Quiet (liftM (Run.print line) : Eval Unit) :=
  .modify fun _ => rfl

end Eval.Quiet

/-! ## §5. Computations that may fail -/

namespace Attempt

variable {α β : Type} {host : Host} {D : Discipline} {s : State}

/-- In a sound state, the one is the other with a record; an error is an allowed one. -/
def Tells (host : Host) (D : Discipline) (s : State) (x' : Attempt α) (x : Eval α)
    (Q : Heap → α → Prop) : Prop :=
  Recording.Tells host D s x'.run x.run (D.Outcome Q)

namespace Tells

variable {x' : Attempt α} {x : Eval α} {Q : Heap → α → Prop}

theorem pure {a : α} (ha : Q s.heap a) : Tells host D s (pure a) (pure a) Q :=
  Recording.Tells.pure (Q := D.Outcome Q) (a := .ok a) ha

/-- An error that a program raises is recoverable, and so allowed. -/
theorem throw {e : Error} (he : e.severity = .recoverable) :
    Tells host D s (throw e) (throw e) Q :=
  Recording.Tells.pure (Q := D.Outcome Q) (a := .error e) (D.recoverable he)

/-- A step of the evaluator. -/
theorem step {k : Licence} (hx : Eval.Leads host D k s x Q) (hquiet : x.Quiet) :
    Tells host D s (Attempt.step x) x Q := by
  refine Recording.Tells.step fun hs r t h => ?_
  obtain ⟨heffect, hq⟩ := hx hs r t h
  obtain ⟨hsound, hkeeps⟩ := heffect.sound hs
  refine ⟨hsound, hkeeps, ?_, hq⟩
  unfold State.traced
  rw [hquiet s r t h]

/-- A result that is known before, or its error. -/
theorem ofExcept {r : Except Error α} (hr : D.Outcome Q s.heap r) :
    Tells host D s (Attempt.step (Eval.ofExcept r)) (Eval.ofExcept r) Q :=
  step (k := .expression) (.ofExcept hr) (.ofExcept r)

/-- A computation on the heap. -/
theorem ofAlloc {x : Alloc α} (hx : s.Sound host D → Alloc.Obeys D s.heap x Q) :
    Tells host D s (Attempt.step (Eval.ofAlloc x)) (Eval.ofAlloc x) Q :=
  step (k := .expression) (.ofAlloc hx) (.ofAlloc x)

/-- A change of the heap. -/
theorem changeHeap {f : Heap → Except Error Heap}
    (hf : s.Sound host D → D.Outcome D.Change s.heap (f s.heap)) :
    Tells host D s (Attempt.step (Eval.changeHeap f)) (Eval.changeHeap f) fun _ _ => True :=
  step (k := .expression) (.changeHeap hf) (.changeHeap f)

/-- A declaration of a good value. -/
theorem declare {name : String} {type : Ty} {v : Value} {constant : Bool}
    (hv : D.value s.heap v) :
    Tells host D s (Attempt.step (Eval.changeScopes fun s => s.declare name type v constant))
      (Eval.changeScopes fun s => s.declare name type v constant) fun _ _ => True :=
  step (k := .frame [name]) (.declare (List.mem_singleton_self name) hv) (.changeScopes _)

/-- An assignment of a good value. -/
theorem assign {name : String} {v : Value} (hv : D.value s.heap v) :
    Tells host D s (Attempt.step (Eval.changeScopes fun s => s.assign name v))
      (Eval.changeScopes fun s => s.assign name v) fun _ _ => True :=
  step (k := .frame []) (.assign trivial hv) (.changeScopes _)

/-- Where the fuel is used up there is nothing to tell. -/
theorem outOfFuel : Tells host D s (Attempt.step Eval.outOfFuel : Attempt α) Eval.outOfFuel Q := by
  refine Recording.Tells.step fun _ r t h => ?_
  cases h

/-- One computation after the other, unless the first fails. -/
theorem bind {f' : α → Attempt β} {f : α → Eval β} {R : Heap → β → Prop}
    (hx : Tells host D s x' x Q)
    (hf : ∀ t a, D.Keeps s.heap t.heap → Q t.heap a → Tells host D t (f' a) (f a) R) :
    Tells host D s (x' >>= f') (x >>= f) R := by
  refine Recording.Tells.bind hx fun t r hk hr => ?_
  cases r with
  | ok a => exact hf t a hk hr
  | error e => exact Recording.Tells.pure (Q := D.Outcome R) (a := .error e) hr

/-- A computation that cannot fail, among those that may. -/
theorem lift {x' : Recording α} {x : Run α} (hx : Recording.Tells host D s x' x Q) :
    Tells host D s (liftM x' : Attempt α) (liftM x : Eval α) Q := by
  have hok : ∀ t a, D.Keeps s.heap t.heap → Q t.heap a →
      Recording.Tells host D t (Pure.pure (Except.ok a)) (Pure.pure (Except.ok a))
        (D.Outcome Q) :=
    fun _ a _ hq => Recording.Tells.pure (Q := D.Outcome Q) hq
  exact Recording.Tells.bind hx hok

/-- Reading the state, which is sound. -/
theorem read {f' : State → Attempt β} {f : State → Eval β} {R : Heap → β → Prop}
    (hf : s.Sound host D → Tells host D s (f' s) (f s) R) :
    Tells host D s (read >>= f') (get >>= f) R := by
  intro hs
  obtain ⟨houtcome, hchronicle, hresult⟩ := hf hs hs
  exact ⟨houtcome, hchronicle, hresult⟩

/-- A note of something good that is no statement, and what follows. -/
theorem note {o : Occasion} {f' : Unit → Attempt β} {y : Eval β} {R : Heap → β → Prop}
    (hgood : s.Sound host D → Event.Good host D ⟨o, s⟩) (hbegun : Event.begun? ⟨o, s⟩ = none)
    (hf : Tells host D s (f' ()) y R) :
    Tells host D s (liftM (Recording.note o) >>= f') y R := by
  intro hs
  obtain ⟨houtcome, hchronicle, hresult⟩ := hf hs
  -- the note is of no statement, so the trace need not know of it
  have hlines : host.lines [⟨o, s⟩] = [] := host.lines_of_begun_none hbegun
  have hone : State.Reached host D s [⟨o, s⟩] s :=
    ⟨hs, fun _ hv => hv, by rw [hlines, List.append_nil]⟩
  have hlog : (liftM (Recording.note o) >>= f' : Attempt β).run.log s =
      [⟨o, s⟩] ++ (f' ()).run.log s := rfl
  refine ⟨houtcome, ?_, fun a t h => ?_⟩
  · have hrest : Chronicle host D (s.traced ++ host.lines [⟨o, s⟩]) ((f' ()).run.log s) := by
      rw [hlines, List.append_nil]
      exact hchronicle
    rw [hlog]
    exact .append (.one (hgood hs) rfl) hrest
  · obtain ⟨hreached, hr⟩ := hresult a t h
    exact ⟨hone.trans hreached, hr⟩

/-- The value is written down as well. -/
theorem noted {x' : Attempt Value} {x : Eval Value} (hx : Tells host D s x' x D.value) :
    Tells host D s (Attempt.noted x') x D.value := by
  -- the note stands where the computation that is recorded does nothing more
  rw [← bind_pure x]
  exact hx.bind fun t v _ hv => .note (fun ht => .evaluated ht hv) rfl (.pure hv)

/-- A frame is closed also on failure. -/
theorem inFrame {kind : FrameKind} (hx : Tells host D (s.openFrame kind) x' x Q) :
    Tells host D s (Attempt.inFrame kind x') (Eval.inFrame kind x) Q :=
  Recording.Tells.inFrame hx

/-- So is a call. -/
theorem inCall (hx : Tells host D s.openCall x' x Q) :
    Tells host D s (Attempt.inCall x') (Eval.inCall x) Q :=
  Recording.Tells.inCall hx

end Tells

end Attempt

end Scriptlet
