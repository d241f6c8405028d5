/-
  Scriptlet.Proofs.Simulation — two runs side by side.

  A `Simulation` relates the states of two runs.  It says once what a run can see of a state (its
  `View`) and what it can do to one (an `Update`, or to open and close a frame): related states show
  the same, and the same deed on both leaves them related.  `Run.Follows S ks s t x y` then says that
  whatever `x` comes to from `s`, `y` comes to from `t`, with the same result and in related states.
  As in `Triple`, there is one rule for each primitive of the evaluator, so the functions of the
  evaluator are followed part by part, and the fuel of the second run need only be no smaller.

  Main results:
    * `Eval.expression_follows` and `Eval.block_follows` — one level of the evaluator.
    * `Simulation.run_follows` — every simulation carries over to evaluation and execution.
    * `Eval.values_mono` — values that are there with some fuel are the same with more.
-/
import Scriptlet.Proofs.Evaluation

namespace Scriptlet

/-! ## §1. What a run sees and does -/

/-- What a run can see of a state, besides whether it may open a call. -/
structure View where
  heap : Heap
  functions : OrderedMap Func
  /-- The visible binding of a name. -/
  lookup : String → Option Binding
  /-- Whether a name is bound in the innermost frame. -/
  taken : String → Bool

/-- What a run can see of the state. -/
def State.view (s : State) : View where
  heap := s.heap
  functions := s.functions
  lookup := s.scopes.get?
  taken := s.scopes.current.contains

/-- What a run can do to a state between opening and closing frames. -/
inductive Update where
  /-- Changes the objects. -/
  | heap (h : Heap)
  /-- Binds a name in the innermost frame. -/
  | bind (name : String) (b : Binding)
  /-- Sets a name where it is visible. -/
  | set (name : String) (b : Binding)
  /-- Prints a line. -/
  | print (line : String)
  /-- Reports an error. -/
  | report (e : Error)
  /-- Registers a function. -/
  | define (f : Func)

/-- The state after the update. -/
def Update.apply : Update → State → State
  | .heap h, s => { s with heap := h }
  | .bind name b, s => { s with scopes := s.scopes.bind name b }
  | .set name b, s => { s with scopes := s.scopes.set name b }
  | .print line, s => { s with printed := s.printed.push line }
  | .report e, s =>
    { s with diagnostics := s.diagnostics.push (.error e), pending := s.pending.push e }
  | .define f, s => { s with functions := s.functions.set f.name f }

/-- The state after a statement has been announced to the host. -/
def Host.announced (host : Host) (st : Stmt) (s : State) : State :=
  if host.settings.trace then { s with diagnostics := s.diagnostics.push (.trace st.kind) } else s

/-- A relation between the states of two runs that no step of a run can tell apart or break.  Its
    index lists the kinds of the frames opened by both, innermost first. -/
structure Simulation (host host' : Host) where
  /-- The states of the two runs belong together. -/
  rel : List FrameKind → State → State → Prop
  tools : host'.tools = host.tools
  resolver : host'.resolver = host.resolver
  view {ks s t} : rel ks s t → t.view = s.view
  admits {ks s t} : rel ks s t → host'.admitsCall t.callDepth = host.admitsCall s.callDepth
  update {ks s t} (u : Update) : rel ks s t → rel ks (u.apply s) (u.apply t)
  announce {ks s t} (st : Stmt) : rel ks s t → rel ks (host.announced st s) (host'.announced st t)
  openFrame {ks s t} (k : FrameKind) : rel ks s t → rel (k :: ks) (s.openFrame k) (t.openFrame k)
  closeFrame {ks s t s' t' k} : rel ks s t → rel (k :: ks) s' t' →
    rel ks s'.closeFrame t'.closeFrame
  openCall {ks s t} : rel ks s t → rel (.call :: ks) s.openCall t.openCall
  closeCall {ks s t s' t'} : rel ks s t → rel (.call :: ks) s' t' →
    rel ks s'.closeCall t'.closeCall

namespace Simulation

variable {host host' : Host} (S : Simulation host host') {ks : List FrameKind} {s t : State}

/-- Both runs work on the same objects. -/
theorem heap (h : S.rel ks s t) : t.heap = s.heap := congrArg View.heap (S.view h)

theorem functions (h : S.rel ks s t) : t.functions = s.functions := congrArg View.functions (S.view h)

/-- A name stands for the same binding in both. -/
theorem lookup (h : S.rel ks s t) (name : String) : t.scopes.get? name = s.scopes.get? name :=
  congrFun (congrArg View.lookup (S.view h)) name

/-- A declaration is refused for its name in both or in none. -/
theorem taken (h : S.rel ks s t) (name : String) :
    t.scopes.current.contains name = s.scopes.current.contains name :=
  congrFun (congrArg View.taken (S.view h)) name

end Simulation

variable {α β : Type} {host host' : Host} {S : Simulation host host'} {ks : List FrameKind}
variable {s t : State}

/-! ## §2. Computations that cannot fail -/

/-- Whatever the first computation comes to, the second one comes to from a related state. -/
def Run.Follows (S : Simulation host host') (ks : List FrameKind) (s t : State) (x y : Run α) :
    Prop :=
  S.rel ks s t → ∀ a s', x s = some (a, s') → ∃ t', y t = some (a, t') ∧ S.rel ks s' t'

namespace Run.Follows

variable {x y : Run α}

/-- A run that has no outcome is followed by every other. -/
theorem outOfFuel : Run.Follows S ks s t Run.outOfFuel y := by
  intro _ a s' hrun
  cases hrun

theorem pure {a : α} : Run.Follows S ks s t (pure a) (pure a) := by
  intro hr b s' hrun
  cases hrun
  exact ⟨t, rfl, hr⟩

/-- The same deed on both. -/
theorem update (u : Update) : Run.Follows S ks s t (modify u.apply) (modify u.apply) := by
  intro hr b s' hrun
  cases hrun
  exact ⟨u.apply t, rfl, S.update u hr⟩

/-- What follows is followed from every pair of related states, so also from these. -/
theorem bind {f g : α → Run β} (hx : Run.Follows S ks s t x y)
    (hf : ∀ a s' t', Run.Follows S ks s' t' (f a) (g a)) :
    Run.Follows S ks s t (x >>= f) (y >>= g) := by
  intro hr b s'' hrun
  have hrun : (x s).bind (fun p => f p.1 p.2) = some (b, s'') := hrun
  obtain ⟨⟨a, s'⟩, hfirst, hrest⟩ := Option.bind_eq_some_iff.mp hrun
  obtain ⟨t', hfirst', hr'⟩ := hx hr a s' hfirst
  obtain ⟨t'', hrest', hr''⟩ := hf a s' t' hr' b s'' hrest
  refine ⟨t'', ?_, hr''⟩
  show (y t).bind (fun p => g p.1 p.2) = some (b, t'')
  rw [hfirst']
  exact hrest'

/-- A frame of its own in both runs. -/
theorem inFrame {k : FrameKind} (hx : Run.Follows S (k :: ks) (s.openFrame k) (t.openFrame k) x y) :
    Run.Follows S ks s t (Run.inFrame k x) (Run.inFrame k y) := by
  intro hr a s'' hrun
  rw [Run.inFrame_run] at hrun
  obtain ⟨⟨b, s'⟩, hbody, hclosed⟩ := Option.map_eq_some_iff.mp hrun
  cases hclosed
  obtain ⟨t', hbody', hr'⟩ := hx (S.openFrame k hr) b s' hbody
  refine ⟨t'.closeFrame, ?_, S.closeFrame hr hr'⟩
  rw [Run.inFrame_run, hbody']
  rfl

/-- A call in both runs. -/
theorem inCall (hx : Run.Follows S (.call :: ks) s.openCall t.openCall x y) :
    Run.Follows S ks s t (Run.inCall x) (Run.inCall y) := by
  intro hr a s'' hrun
  rw [Run.inCall_run] at hrun
  obtain ⟨⟨b, s'⟩, hbody, hclosed⟩ := Option.map_eq_some_iff.mp hrun
  cases hclosed
  obtain ⟨t', hbody', hr'⟩ := hx (S.openCall hr) b s' hbody
  refine ⟨t'.closeCall, ?_, S.closeCall hr hr'⟩
  rw [Run.inCall_run, hbody']
  rfl

end Run.Follows

/-! ## §3. Computations that may fail -/

/-- Whatever the first computation comes to, also an error, the second one comes to from a related
    state. -/
def Eval.Follows (S : Simulation host host') (ks : List FrameKind) (s t : State) (x y : Eval α) :
    Prop :=
  Run.Follows S ks s t x.run y.run

namespace Eval.Follows

variable {x y : Eval α}

theorem outOfFuel : Eval.Follows S ks s t Eval.outOfFuel y := Run.Follows.outOfFuel

/-- The same result, in states that nobody has touched. -/
theorem pure {a : α} : Eval.Follows S ks s t (pure a) (pure a) := by
  intro hr r s' hrun
  cases hrun
  exact ⟨t, rfl, hr⟩

/-- The same error in both runs, which skips what follows. -/
theorem fail {e : Error} {f g : α → Eval β} :
    Eval.Follows S ks s t (throw e >>= f) (throw e >>= g) := by
  intro hr r s' hrun
  cases hrun
  exact ⟨t, rfl, hr⟩

theorem throw {e : Error} : Eval.Follows S ks s t (throw e : Eval α) (throw e) := by
  intro hr r s' hrun
  cases hrun
  exact ⟨t, rfl, hr⟩

/-- A computation that cannot fail, among those that may. -/
theorem lift {x y : Run α} (hx : Run.Follows S ks s t x y) :
    Eval.Follows S ks s t (liftM x : Eval α) (liftM y) := by
  intro hr r s' hrun
  have hrun : (x s).bind (fun p => some (Except.ok p.1, p.2)) = some (r, s') := hrun
  obtain ⟨⟨a, u⟩, hbody, hok⟩ := Option.bind_eq_some_iff.mp hrun
  cases hok
  obtain ⟨t', hbody', hr'⟩ := hx hr a u hbody
  refine ⟨t', ?_, hr'⟩
  show (y t).bind (fun p => some (Except.ok p.1, p.2)) = _
  rw [hbody']
  rfl

/-- Where the first part fails in both, the second is skipped in both. -/
theorem bind {f g : α → Eval β} (hx : Eval.Follows S ks s t x y)
    (hf : ∀ a s' t', Eval.Follows S ks s' t' (f a) (g a)) :
    Eval.Follows S ks s t (x >>= f) (y >>= g) := by
  refine Run.Follows.bind hx fun r s' t' => ?_
  cases r with
  | ok a => exact hf a s' t'
  | error e => exact Run.Follows.pure

/-- Reading both states, which are related. -/
theorem get {f g : State → Eval β} (hf : S.rel ks s t → Eval.Follows S ks s t (f s) (g t)) :
    Eval.Follows S ks s t (get >>= f) (get >>= g) :=
  fun hr => hf hr hr

theorem update (u : Update) :
    Eval.Follows S ks s t (modify u.apply) (modify u.apply) :=
  .lift (.update u)

/-- A result that is known before, or its error. -/
theorem ofExcept (r : Except Error α) :
    Eval.Follows S ks s t (Eval.ofExcept r) (Eval.ofExcept r) := by
  cases r with
  | ok a => exact .pure
  | error e => exact .throw

/-- The same computation on the heap, which both share. -/
theorem ofAlloc (x : Alloc α) : Eval.Follows S ks s t (Eval.ofAlloc x) (Eval.ofAlloc x) := by
  refine .get fun hr => ?_
  rw [S.heap hr]
  refine .bind (.ofExcept _) fun p s' t' => ?_
  exact .bind (.update (.heap p.2)) fun _ _ _ => .pure

/-- The same change of the heap, which both share. -/
theorem changeHeap (f : Heap → Except Error Heap) :
    Eval.Follows S ks s t (Eval.changeHeap f) (Eval.changeHeap f) := by
  refine .get fun hr => ?_
  rw [S.heap hr]
  exact .bind (.ofExcept _) fun h _ _ => .update (.heap h)

/-- A change of the scopes that is refused alike or is the same update of both. -/
theorem changeScopes {f : Scopes → Alloc Scopes}
    (hf : S.rel ks s t →
      (∃ e, f s.scopes s.heap = .error e ∧ f t.scopes t.heap = .error e) ∨
      (∃ u h p q, f s.scopes s.heap = .ok (p, h) ∧ f t.scopes t.heap = .ok (q, h) ∧
        { s with scopes := p, heap := h } = Update.apply u (Update.apply (.heap h) s) ∧
        { t with scopes := q, heap := h } = Update.apply u (Update.apply (.heap h) t))) :
    Eval.Follows S ks s t (Eval.changeScopes f) (Eval.changeScopes f) := by
  intro hr a s' hrun
  rw [changeScopes_run] at hrun ⊢
  rcases hf hr with ⟨e, hs, ht⟩ | ⟨u, h, p, q, hs, ht, hsu, htu⟩
  -- refused alike: both states are as they were
  · rw [hs] at hrun
    rw [ht]
    cases hrun
    exact ⟨t, rfl, hr⟩
  -- the same update on the same new heap
  · rw [hs] at hrun
    rw [ht]
    cases hrun
    refine ⟨_, rfl, ?_⟩
    rw [hsu, htu]
    exact S.update u (S.update (.heap h) hr)

/-- A declaration in both runs, which see the same of its name and of the heap. -/
theorem declare (name : String) (type : Ty) (v : Value) (constant : Bool) :
    Eval.Follows S ks s t (Eval.changeScopes fun s => s.declare name type v constant)
      (Eval.changeScopes fun s => s.declare name type v constant) := by
  refine .changeScopes fun hr => ?_
  rw [Scopes.declare_run, Scopes.declare_run, S.taken hr, S.heap hr]
  by_cases htaken : s.scopes.current.contains name
  · exact .inl ⟨_, if_pos htaken, if_pos htaken⟩
  · rw [if_neg htaken, if_neg htaken]
    cases type.coerce v s.heap with
    | error e => exact .inl ⟨e, rfl, rfl⟩
    | ok p => exact .inr ⟨.bind name ⟨type, p.1, constant⟩, p.2, _, _, rfl, rfl, rfl, rfl⟩

/-- An assignment in both runs, to the same binding. -/
theorem assign (name : String) (v : Value) :
    Eval.Follows S ks s t (Eval.changeScopes fun s => s.assign name v)
      (Eval.changeScopes fun s => s.assign name v) := by
  refine .changeScopes fun hr => ?_
  rw [Scopes.assign_run, Scopes.assign_run, S.lookup hr, S.heap hr]
  cases s.scopes.get? name with
  | none => exact .inl ⟨_, rfl, rfl⟩
  | some b =>
    dsimp only
    by_cases hconstant : b.constant
    -- a constant is refused in both
    · exact .inl ⟨_, if_pos hconstant, if_pos hconstant⟩
    · rw [if_neg hconstant, if_neg hconstant]
      cases b.type.coerce v s.heap with
      | error e => exact .inl ⟨e, rfl, rfl⟩
      | ok p => exact .inr ⟨.set name { b with value := p.1 }, p.2, _, _, rfl, rfl, rfl, rfl⟩

theorem inFrame {k : FrameKind}
    (hx : Eval.Follows S (k :: ks) (s.openFrame k) (t.openFrame k) x y) :
    Eval.Follows S ks s t (Eval.inFrame k x) (Eval.inFrame k y) :=
  Run.Follows.inFrame hx

theorem inCall (hx : Eval.Follows S (.call :: ks) s.openCall t.openCall x y) :
    Eval.Follows S ks s t (Eval.inCall x) (Eval.inCall y) :=
  Run.Follows.inCall hx

end Eval.Follows

/-! ## §4. Expressions -/

namespace Eval

variable {evaluate evaluate' : Evaluate} {execute execute' : Execute}

/-- The second way to evaluate expressions follows the first. -/
def EvaluateFollows (S : Simulation host host') (evaluate evaluate' : Evaluate) : Prop :=
  ∀ ks e s t, Eval.Follows S ks s t (evaluate e) (evaluate' e)

/-- The second way to execute statements follows the first. -/
def ExecuteFollows (S : Simulation host host') (execute execute' : Execute) : Prop :=
  ∀ ks body s t, Run.Follows S ks s t (execute body) (execute' body)

/-- The values of several expressions, from left to right in both. -/
theorem values_follows (he : EvaluateFollows S evaluate evaluate') (es : List Expr) (s t : State) :
    Eval.Follows S ks s t (values evaluate es) (values evaluate' es) := by
  induction es generalizing s t with
  | nil => exact .pure
  | cons e es ih =>
    refine .bind (he ks e s t) fun v s' t' => ?_
    exact .bind (ih s' t') fun vs _ _ => .pure

theorem key_follows (v : Value) : Eval.Follows S ks s t (key v) (key v) := by
  unfold key
  split
  · exact .pure
  · exact .throw

/-- The keys and values of a dictionary; the tables are the same all the way. -/
theorem entries_follows (he : EvaluateFollows S evaluate evaluate') (pairs : List (Expr × Expr))
    (table : OrderedMap Value) (s t : State) :
    Eval.Follows S ks s t (entries evaluate table pairs) (entries evaluate' table pairs) := by
  induction pairs generalizing table s t with
  | nil => exact .pure
  | cons pair rest ih =>
    obtain ⟨k, e⟩ := pair
    refine .bind (he ks k s t) fun v s₁ t₁ => ?_
    refine .bind (key_follows v) fun name s₂ t₂ => ?_
    refine .bind (he ks e s₂ t₂) fun w s₃ t₃ => ?_
    exact ih (table.set name w) s₃ t₃

theorem rangeEnds_follows (he : EvaluateFollows S evaluate evaluate') (first last : Expr)
    (s t : State) :
    Eval.Follows S ks s t (rangeEnds evaluate first last) (rangeEnds evaluate' first last) := by
  refine .bind (he ks first s t) fun a s₁ t₁ => ?_
  refine .bind (he ks last s₁ t₁) fun b s₂ t₂ => ?_
  refine .bind (.ofExcept _) fun i _ _ => ?_
  exact .bind (.ofExcept _) fun j _ _ => .pure

/-- A name is looked up among the bindings, then in the host; both give the same. -/
theorem variableValue_follows (name : String) (s t : State) :
    Eval.Follows S ks s t (variableValue host name) (variableValue host' name) := by
  refine .get fun hr => ?_
  rw [S.lookup hr, S.resolver]
  split
  · exact .pure
  · refine .bind (.ofExcept _) fun symbol _ _ => ?_
    split
    · exact .pure
    · exact .throw
    · exact .throw

/-- The function or the tool of a name is the same in both. -/
theorem callee_follows (name : String) (s t : State) :
    Eval.Follows S ks s t (callee host name) (callee host' name) := by
  refine .get fun hr => ?_
  rw [S.functions hr, S.resolver, S.tools]
  split
  · exact .pure
  · split
    · exact .pure
    · refine .bind (.ofExcept _) fun symbol _ _ => ?_
      split
      · exact .pure
      · exact .throw
      · exact .throw

theorem argument_follows (he : EvaluateFollows S evaluate evaluate') (f : Func) (supplied : Nat)
    (p : Param) (args : List Value) (s t : State) :
    Eval.Follows S ks s t (argument evaluate f supplied p args)
      (argument evaluate' f supplied p args) := by
  unfold argument
  cases args with
  | cons v _ => exact .pure
  | nil =>
    cases p.default with
    | some e => exact he ks e s t
    | none => exact .throw

/-- The same parameters are bound in both, in the same order. -/
theorem bindParams_follows (he : EvaluateFollows S evaluate evaluate') (f : Func) (supplied : Nat)
    (params : List Param) (args : List Value) (s t : State) :
    Eval.Follows S ks s t (bindParams evaluate f supplied params args)
      (bindParams evaluate' f supplied params args) := by
  induction params generalizing args s t with
  | nil => exact .pure
  | cons p ps ih =>
    refine .bind (argument_follows he f supplied p args s t) fun v s₁ t₁ => ?_
    refine .bind (.declare p.name p.type v true) fun _ s₂ t₂ => ?_
    exact ih args.tail s₂ t₂

theorem callBody_follows (he : EvaluateFollows S evaluate evaluate')
    (hx : ExecuteFollows S execute execute') (f : Func) (args : List Value) (s t : State) :
    Eval.Follows S ks s t (callBody evaluate execute f args) (callBody evaluate' execute' f args) := by
  refine .bind (bindParams_follows he f args.length f.params args s t) fun _ s₁ t₁ => ?_
  refine .bind (.lift (hx ks f.body s₁ t₁)) fun signal s₂ t₂ => ?_
  cases signal with
  | ret v => exact .ofAlloc _
  | next => exact .throw
  | brk => exact .throw
  | cont => exact .throw

/-- A call is refused in both for the same reason, or opened in both. -/
theorem callFunction_follows (he : EvaluateFollows S evaluate evaluate')
    (hx : ExecuteFollows S execute execute') (f : Func) (args : List Expr) (s t : State) :
    Eval.Follows S ks s t (callFunction host evaluate execute f args)
      (callFunction host' evaluate' execute' f args) := by
  unfold callFunction
  split
  · refine .get fun hr => ?_
    rw [S.admits hr]
    refine .bind (.ofExcept _) fun _ s₁ t₁ => ?_
    refine .bind (values_follows he args s₁ t₁) fun vs s₂ t₂ => ?_
    exact .inCall (callBody_follows he hx f vs s₂.openCall t₂.openCall)
  · exact .fail

/-- The hosts have the same tools, and these see the heap only. -/
theorem callTool_follows (name : String) (args : List Value) (s t : State) :
    Eval.Follows S ks s t (callTool host name args) (callTool host' name args) := by
  refine .get fun hr => ?_
  rw [S.heap hr, S.tools]
  exact .bind (.update (.heap _)) fun _ _ _ => .ofExcept _

theorem call_follows (he : EvaluateFollows S evaluate evaluate')
    (hx : ExecuteFollows S execute execute') (name : String) (args : List Expr) (s t : State) :
    Eval.Follows S ks s t (call host evaluate execute name args)
      (call host' evaluate' execute' name args) := by
  refine .bind (callee_follows name s t) fun c s₁ t₁ => ?_
  cases c with
  | function f => exact callFunction_follows he hx f args s₁ t₁
  | tool =>
    exact .bind (values_follows he args s₁ t₁) fun vs s₂ t₂ => callTool_follows name vs s₂ t₂

/-- **A chain is followed if its parts are**: its links are looked up on one heap. -/
theorem chain_follows (he : EvaluateFollows S evaluate evaluate') (e : Expr) (s t : State) :
    Eval.Follows S ks s t (chain evaluate e) (chain evaluate' e) := by
  fun_induction chain evaluate e generalizing s t with
  | case1 target index ih =>
    rw [chain]
    refine .bind (ih s t) fun link s₁ t₁ => ?_
    cases link with
    -- cut off in both
    | none => exact .pure
    | some target =>
      refine .bind (he ks index s₁ t₁) fun i s₂ t₂ => .get fun hr => ?_
      rw [S.heap hr]
      exact .bind (.ofExcept _) fun _ _ _ => .pure
  | case2 target name optional ih =>
    rw [chain]
    refine .bind (ih s t) fun link s₁ t₁ => ?_
    cases link.bind (linkTarget optional) with
    | none => exact .pure
    | some target =>
      refine .get fun hr => ?_
      rw [S.heap hr]
      exact .bind (.ofExcept _) fun _ _ _ => .pure
  | case3 target name args optional ih =>
    rw [chain]
    refine .bind (ih s t) fun link s₁ t₁ => ?_
    cases link.bind (linkTarget optional) with
    | none => exact .pure
    | some target =>
      refine .bind (values_follows he args s₁ t₁) fun vs s₂ t₂ => ?_
      exact .bind (.ofAlloc _) fun _ _ _ => .pure
  | case4 e hindex hmember hmethod =>
    rw [chain]
    -- what is no link is evaluated as a whole
    · exact .bind (he ks e s t) fun _ _ _ => .pure
    · exact hindex
    · exact hmember
    · exact hmethod

/-- **An expression is followed if its parts are.** -/
theorem expression_follows (he : EvaluateFollows S evaluate evaluate')
    (hx : ExecuteFollows S execute execute') :
    EvaluateFollows S (expression host evaluate execute) (expression host' evaluate' execute') := by
  intro ks e s t
  cases e with
  | nil | bool | int | double | string => exact .pure
  | var name => exact variableValue_follows name s t
  | binary op left right =>
    refine .bind (he ks left s t) fun a s₁ t₁ => ?_
    split
    · exact .pure
    · exact .bind (he ks right s₁ t₁) fun b _ _ => .ofExcept _
  | unary op operand => exact .bind (he ks operand s t) fun a _ _ => .ofExcept _
  | call name args => exact call_follows he hx name args s t
  | array items => exact .bind (values_follows he items s t) fun vs _ _ => .ofAlloc _
  | dict pairs => exact .bind (entries_follows he pairs .empty s t) fun table _ _ => .ofAlloc _
  | range first last inclusive =>
    exact .bind (rangeEnds_follows he first last s t) fun ends _ _ => .ofAlloc _
  | index | member | method => exact .bind (chain_follows he _ s t) fun _ _ _ => .pure

/-! ## §5. Loops -/

theorem innerBlock_follows (hx : ExecuteFollows S execute execute') (body : List Stmt)
    (s t : State) : Run.Follows S ks s t (innerBlock execute body) (innerBlock execute' body) :=
  .inFrame (hx _ body _ _)

/-- A loop that ends within so many rounds ends alike where more are allowed. -/
theorem whileLoop_follows {condition condition' : Eval Value} {body body' : Run Signal}
    (hc : ∀ s t, Eval.Follows S ks s t condition condition')
    (hb : ∀ s t, Run.Follows S ks s t body body') (rounds rounds' : Nat) (hle : rounds ≤ rounds')
    (s t : State) :
    Eval.Follows S ks s t (whileLoop condition body rounds) (whileLoop condition' body' rounds') := by
  induction rounds generalizing rounds' s t with
  | zero => exact .outOfFuel
  | succ n ih =>
    -- where more rounds are allowed there is one for this round too
    obtain ⟨m, rfl⟩ : ∃ m, rounds' = m + 1 := ⟨rounds' - 1, by omega⟩
    refine .bind (hc s t) fun v s₁ t₁ => ?_
    split
    · refine .bind (.lift (hb s₁ t₁)) fun signal s₂ t₂ => ?_
      split
      · exact .pure
      · exact ih m (by omega) s₂ t₂
    · exact .pure

/-- A round for each value in both. -/
theorem overValues_follows {round round' : Value → Eval Signal}
    (hr : ∀ v s t, Eval.Follows S ks s t (round v) (round' v)) (items : List Value) (s t : State) :
    Eval.Follows S ks s t (overValues round items) (overValues round' items) := by
  induction items generalizing s t with
  | nil => exact .pure
  | cons v rest ih =>
    refine .bind (hr v s t) fun signal s₁ t₁ => ?_
    split
    · exact .pure
    · exact ih s₁ t₁

theorem overInts_follows {round round' : Value → Eval Signal}
    (hr : ∀ v s t, Eval.Follows S ks s t (round v) (round' v)) (run : Progression) (i left : Nat)
    (s t : State) :
    Eval.Follows S ks s t (overInts round run i left) (overInts round' run i left) := by
  induction left generalizing i s t with
  | zero => exact .pure
  | succ left ih =>
    refine .bind (hr (run.item i) s t) fun signal s₁ t₁ => ?_
    split
    · exact .pure
    · exact ih (i + 1) s₁ t₁

theorem overSequence_follows {round round' : Value → Eval Signal}
    (hr : ∀ v s t, Eval.Follows S ks s t (round v) (round' v)) (items : Sequence) (s t : State) :
    Eval.Follows S ks s t (overSequence round items) (overSequence round' items) := by
  cases items with
  | ints run => exact overInts_follows hr run 0 run.count s t
  | values items => exact overValues_follows hr items s t

theorem sequenceOf_follows (v : Value) (s t : State) :
    Eval.Follows S ks s t (sequenceOf v) (sequenceOf v) := by
  unfold sequenceOf
  split
  · refine .get fun hr => ?_
    rw [S.heap hr]
    exact .pure
  · refine .get fun hr => ?_
    rw [S.heap hr]
    exact .pure
  · exact .throw

/-- What is visited is the same in both, as the values are. -/
theorem visited_follows (he : EvaluateFollows S evaluate evaluate') (iterable : Expr)
    (s t : State) : Eval.Follows S ks s t (visited evaluate iterable) (visited evaluate' iterable) := by
  unfold visited
  split
  · exact .bind (rangeEnds_follows he _ _ s t) fun _ _ _ => .pure
  · rename_i name args
    refine .get fun hr => ?_
    rw [S.functions hr]
    split
    · refine .bind (values_follows he args s t) fun vs s₁ t₁ => ?_
      exact .bind (.ofExcept _) fun _ _ _ => .pure
    · exact .bind (he ks _ s t) fun v s₁ t₁ => sequenceOf_follows v s₁ t₁
  · exact .bind (he ks _ s t) fun v s₁ t₁ => sequenceOf_follows v s₁ t₁

theorem forRound_follows (hx : ExecuteFollows S execute execute') (reuse : Bool) (name : String)
    (body : List Stmt) (v : Value) (s t : State) :
    Eval.Follows S ks s t (forRound execute reuse name body v)
      (forRound execute' reuse name body v) := by
  have hset : Eval.Follows S ks s t (setItem reuse name v) (setItem reuse name v) := by
    unfold setItem
    split
    · exact .assign name v
    · exact .update (.bind name ⟨v.inferredType, v, false⟩)
  exact .bind hset fun _ s₁ t₁ => .lift (innerBlock_follows hx body s₁ t₁)

/-- A `for` finds its variable in both or opens a frame in both. -/
theorem forIn_follows (he : EvaluateFollows S evaluate evaluate')
    (hx : ExecuteFollows S execute execute') (name : String) (iterable : Expr) (body : List Stmt)
    (s t : State) :
    Eval.Follows S ks s t (forIn evaluate execute name iterable body)
      (forIn evaluate' execute' name iterable body) := by
  refine .bind (visited_follows he iterable s t) fun items s₁ t₁ => .get fun hr => ?_
  -- both runs find the variable visible or both do not
  have hbound : t₁.scopes.isBound name = s₁.scopes.isBound name := by
    unfold Scopes.isBound
    rw [S.lookup hr]
  dsimp only
  rw [hbound]
  split
  · exact overSequence_follows (fun v s t => forRound_follows hx _ name body v s t) items s₁ t₁
  · exact .inFrame
      (overSequence_follows (fun v s t => forRound_follows hx _ name body v s t) items _ _)

/-! ## §6. Statements and runs -/

/-- A function is defined in both, or refused in both. -/
theorem define_follows (f : Func) (s t : State) :
    Eval.Follows S ks s t (define f) (define f) := by
  refine .get fun hr => ?_
  rw [S.functions hr]
  split
  · exact .fail
  · exact .update (.define f)

/-- Only here the settings of the two hosts may differ. -/
theorem announce_follows (st : Stmt) (s t : State) :
    Run.Follows S ks s t (announce host st) (announce host' st) := by
  have hrun : ∀ (host : Host) (s : State),
      announce host st s = some ((), host.announced st s) := by
    intro host s
    unfold announce Host.announced
    split <;> rfl
  intro hr a s' h
  rw [hrun] at h
  cases h
  exact ⟨_, hrun host' t, S.announce st hr⟩

/-- **A statement is followed if its parts are**, and if the second run has at least as many rounds.
    -/
theorem effect_follows (he : EvaluateFollows S evaluate evaluate')
    (hx : ExecuteFollows S execute execute') (rounds rounds' : Nat) (hle : rounds ≤ rounds')
    (st : Stmt) (s t : State) :
    Eval.Follows S ks s t (effect evaluate execute rounds st)
      (effect evaluate' execute' rounds' st) := by
  cases st with
  -- declarations, assignments and stores: the same change of both states
  | declare name type value constant =>
    refine .bind (he ks value s t) fun v _ _ => ?_
    exact .bind (.declare name _ v constant) fun _ _ _ => .pure
  | assign name value =>
    refine .bind (he ks value s t) fun v _ _ => ?_
    exact .bind (.assign name v) fun _ _ _ => .pure
  | storeIndex target index value =>
    refine .bind (he ks target s t) fun a s₁ t₁ => ?_
    refine .bind (he ks index s₁ t₁) fun i s₂ t₂ => ?_
    refine .bind (he ks value s₂ t₂) fun v _ _ => ?_
    exact .bind (.changeHeap _) fun _ _ _ => .pure
  | storeMember target name value =>
    refine .bind (he ks target s t) fun a s₁ t₁ => ?_
    refine .bind (he ks value s₁ t₁) fun v _ _ => ?_
    exact .bind (.changeHeap _) fun _ _ _ => .pure
  | print value =>
    refine .bind (he ks value s t) fun v s₁ t₁ => .get fun hr => ?_
    rw [S.heap hr]
    exact .bind (.lift (.update (.print _))) fun _ _ _ => .pure
  | expr value => exact .bind (he ks value s t) fun _ _ _ => .pure
  -- branches and loops: the same way in both, as the conditions are the same
  | ifThen condition body =>
    refine .bind (he ks condition s t) fun v s₁ t₁ => ?_
    split
    · exact .lift (innerBlock_follows hx body s₁ t₁)
    · exact .pure
  | ifElse condition body otherwise =>
    refine .bind (he ks condition s t) fun v s₁ t₁ => ?_
    split
    · exact .lift (innerBlock_follows hx body s₁ t₁)
    · exact .lift (innerBlock_follows hx otherwise s₁ t₁)
  | loop condition body =>
    exact whileLoop_follows (he ks condition) (innerBlock_follows hx body) rounds rounds' hle s t
  | forIn name iterable body => exact forIn_follows he hx name iterable body s t
  | brk | cont => exact .pure
  | func name params returns body => exact .bind (define_follows _ s t) fun _ _ _ => .pure
  | ret value => exact .bind (he ks value s t) fun _ _ _ => .pure

theorem statement_follows (he : EvaluateFollows S evaluate evaluate')
    (hx : ExecuteFollows S execute execute') (rounds rounds' : Nat) (hle : rounds ≤ rounds')
    (st : Stmt) (s t : State) :
    Eval.Follows S ks s t (statement host evaluate execute rounds st)
      (statement host' evaluate' execute' rounds' st) :=
  .bind (.lift (announce_follows st s t)) fun _ s₁ t₁ =>
    effect_follows he hx rounds rounds' hle st s₁ t₁

/-- An error is reported in both. -/
theorem report_follows (e : Error) (s t : State) :
    Run.Follows S ks s t (Run.report e) (Run.report e) := by
  intro hr a s' h
  cases h
  exact ⟨_, rfl, S.update (.report e) hr⟩

/-- **A list of statements is followed if each statement is.** -/
theorem block_follows {stmt stmt' : Stmt → Eval Signal}
    (hstmt : ∀ st s t, Eval.Follows S ks s t (stmt st) (stmt' st)) (body : List Stmt)
    (s t : State) : Run.Follows S ks s t (block stmt body) (block stmt' body) := by
  induction body generalizing s t with
  | nil => exact .pure
  | cons st rest ih =>
    refine Run.Follows.bind (hstmt st s t) fun r s₁ t₁ => ?_
    split
    · exact ih s₁ t₁
    · exact .pure
    · exact .bind (report_follows _ s₁ t₁) fun _ s₂ t₂ => ih s₂ t₂

end Eval

/-- **Every simulation carries over to whole runs**, where the second has at least the fuel of the
    first. -/
theorem Simulation.run_follows (S : Simulation host host') {fuel fuel' : Nat}
    (hle : fuel ≤ fuel') :
    Eval.EvaluateFollows S (Expr.eval host fuel) (Expr.eval host' fuel') ∧
      Eval.ExecuteFollows S (Block.exec host fuel) (Block.exec host' fuel') := by
  induction fuel generalizing fuel' with
  | zero => exact ⟨fun _ _ _ _ => Eval.Follows.outOfFuel, fun _ _ _ _ => Run.Follows.outOfFuel⟩
  | succ n ih =>
    obtain ⟨m, rfl⟩ : ∃ m, fuel' = m + 1 := ⟨fuel' - 1, by omega⟩
    have hnm : n ≤ m := by omega
    obtain ⟨he, hx⟩ := ih hnm
    refine ⟨Eval.expression_follows he hx, fun ks body s t => ?_⟩
    exact Eval.block_follows (fun st s t => Eval.statement_follows he hx n m hnm st s t) body s t

/-- What one run can follow in the other, the other can follow in it. -/
def Simulation.symm (S : Simulation host host') : Simulation host' host where
  rel ks s t := S.rel ks t s
  tools := S.tools.symm
  resolver := S.resolver.symm
  view h := (S.view h).symm
  admits h := (S.admits h).symm
  update u h := S.update u h
  announce st h := S.announce st h
  openFrame k h := S.openFrame k h
  closeFrame h h' := S.closeFrame h h'
  openCall h := S.openCall h
  closeCall h h' := S.closeCall h h'

/-! ## §7. More fuel -/

/-- A run beside itself, in a host that is the same. -/
def Simulation.ofEq (hhost : host' = host) : Simulation host host' where
  rel _ s t := t = s
  tools := congrArg Host.tools hhost
  resolver := congrArg Host.resolver hhost
  view h := congrArg State.view h
  admits h := congr (congrArg Host.admitsCall hhost) (congrArg State.callDepth h)
  update u h := congrArg u.apply h
  announce st h := congr (congrArg (Host.announced · st) hhost) h
  openFrame k h := congrArg (State.openFrame · k) h
  closeFrame _ h := congrArg State.closeFrame h
  openCall h := congrArg State.openCall h
  closeCall _ h := congrArg State.closeCall h

/-- **Values that are there with some fuel are the same with more.** -/
theorem Eval.values_mono {fuel fuel' : Nat} (hle : fuel ≤ fuel') {es : List Expr}
    {r : Except Error (List Value)} (h : Eval.values (Expr.eval host fuel) es s = some (r, t)) :
    Eval.values (Expr.eval host fuel') es s = some (r, t) := by
  have hfollows : Eval.Follows (Simulation.ofEq (Eq.refl host)) [] s s
      (Eval.values (Expr.eval host fuel) es) (Eval.values (Expr.eval host fuel') es) :=
    Eval.values_follows ((Simulation.ofEq rfl).run_follows hle).1 es s s
  obtain ⟨t', ht', rfl⟩ := hfollows rfl r t h
  exact ht'

end Scriptlet
