/-
  Scriptlet.Proofs.Retelling — every run is the recorded one.

  One lemma for each function of the evaluator that evaluates or executes parts: it is its recorded
  twin with a record that tells the truth, if the parts are.  A single induction on the fuel closes
  the knot.

  Main results:
    * `Record.expression_tells` and `Record.block_tells` — one level of the evaluator.
    * `Record.run_tells` — every run, with any fuel.
-/
import Scriptlet.Proofs.Chronicle
import Scriptlet.Proofs.Evaluation

namespace Scriptlet

/-! ## §1. Expressions -/

namespace Record

variable {host : Host} {D : Discipline} {s : State}
variable {evaluate' : Evaluate} {evaluate : Eval.Evaluate}
variable {execute' : Execute} {execute : Eval.Execute}

/-- Expressions are evaluated the same way, with a record. -/
def Evaluates (host : Host) (D : Discipline) (evaluate' : Evaluate) (evaluate : Eval.Evaluate) :
    Prop :=
  ∀ e s, Attempt.Tells host D s (evaluate' e) (evaluate e) D.value

/-- Lists of statements are executed the same way, with a record. -/
def Executes (host : Host) (D : Discipline) (execute' : Execute) (execute : Eval.Execute) : Prop :=
  ∀ body s, Recording.Tells host D s (execute' body) (execute body) fun h => Signal.All (D.value h)

/-- Several expressions, one record after the other. -/
theorem values_tells (he : Evaluates host D evaluate' evaluate) (es : List Expr) (s : State) :
    Attempt.Tells host D s (values evaluate' es) (Eval.values evaluate es)
      fun h vs => ∀ v ∈ vs, D.value h v := by
  induction es generalizing s with
  | nil => exact .pure nofun
  | cons e es ih =>
    refine (he e s).bind fun t v _ hv => ?_
    refine (ih t).bind fun u vs hk hvs => ?_
    exact .pure (List.forall_mem_cons.mpr ⟨hk v hv, hvs⟩)

/-- The keys and values of a dictionary, with what the table holds so far kept good. -/
theorem entries_tells (he : Evaluates host D evaluate' evaluate) (pairs : List (Expr × Expr))
    (table : OrderedMap Value) (s : State) (ht : table.All (D.value s.heap)) :
    Attempt.Tells host D s (entries evaluate' table pairs) (Eval.entries evaluate table pairs)
      fun h table => table.All (D.value h) := by
  induction pairs generalizing table s with
  | nil => exact .pure ht
  | cons pair rest ih =>
    obtain ⟨keyExpr, valueExpr⟩ := pair
    refine (he keyExpr s).bind fun t v hk _ => ?_
    refine (Attempt.Tells.step (k := .expression) (Eval.key_leads v) (.key v)).bind
      fun t' name hk' _ => ?_
    refine (he valueExpr t').bind fun u w hk'' hw => ?_
    refine ih (table.set name w) u (.set ?_ name hw)
    -- the entries so far have lived through a key, its step and a value
    exact ht.imp fun a ha => hk'' a (hk' a (hk a ha))

theorem rangeEnds_tells (he : Evaluates host D evaluate' evaluate) (first last : Expr)
    (s : State) :
    Attempt.Tells host D s (rangeEnds evaluate' first last) (Eval.rangeEnds evaluate first last)
      fun _ _ => True := by
  refine (he first s).bind fun t a _ _ => ?_
  refine (he last t).bind fun u b _ _ => ?_
  refine (Attempt.Tells.ofExcept (Eval.asInt_outcome a u.heap)).bind fun u' _ _ _ => ?_
  refine (Attempt.Tells.ofExcept (Eval.asInt_outcome b u'.heap)).bind fun _ _ _ _ => ?_
  exact .pure trivial

theorem argument_tells (he : Evaluates host D evaluate' evaluate) (f : Func) (supplied : Nat)
    (p : Param) (args : List Value) (s : State) (ha : ∀ v ∈ args, D.value s.heap v) :
    Attempt.Tells host D s (argument evaluate' f supplied p args)
      (Eval.argument evaluate f supplied p args) D.value := by
  unfold argument Eval.argument
  cases args with
  | cons v rest => exact .pure (ha v List.mem_cons_self)
  | nil =>
    cases p.default with
    | some e => exact he e s
    | none => exact .throw rfl

/-- Binding the parameters: each of them is one step, after what its default may have taken. -/
theorem bindParams_tells (he : Evaluates host D evaluate' evaluate) (f : Func) (supplied : Nat)
    (params : List Param) (args : List Value) (s : State) (ha : ∀ v ∈ args, D.value s.heap v) :
    Attempt.Tells host D s (bindParams evaluate' f supplied params args)
      (Eval.bindParams evaluate f supplied params args) fun _ _ => True := by
  induction params generalizing args s with
  | nil => exact .pure trivial
  | cons p ps ih =>
    refine (argument_tells he f supplied p args s ha).bind fun t v hk hv => ?_
    refine (Attempt.Tells.declare hv).bind fun u _ hk' _ => ?_
    -- the arguments that are left have stayed good while a default was evaluated
    refine ih args.tail u fun w hw => ?_
    exact hk' w (hk w (ha w (List.mem_of_mem_tail hw)))

/-- The body of a call: the parameters, the statements, and the step to the result. -/
theorem callBody_tells (he : Evaluates host D evaluate' evaluate)
    (hx : Executes host D execute' execute) (f : Func) (args : List Value) (s : State)
    (ha : ∀ v ∈ args, D.value s.heap v) :
    Attempt.Tells host D s (callBody evaluate' execute' f args)
      (Eval.callBody evaluate execute f args) D.value := by
  refine (bindParams_tells he f args.length f.params args s ha).bind fun t _ _ _ => ?_
  refine (Attempt.Tells.lift (hx f.body t)).bind fun u signal _ hsignal => ?_
  refine .step (k := .expression) (Eval.callResult_leads f signal u (fun v hv => ?_) hsignal)
    (.callResult f signal)
  refine .ofAlloc fun hs => ?_
  exact (Ty.coerce_obeys f.returns v hs.heap hv).imp fun _ _ hw => hw.1

/-- A call, from the check of its arguments to the frame that is closed. -/
theorem callFunction_tells (he : Evaluates host D evaluate' evaluate)
    (hx : Executes host D execute' execute) (f : Func) (args : List Expr) (s : State) :
    Attempt.Tells host D s (callFunction host evaluate' execute' f args)
      (Eval.callFunction host evaluate execute f args) D.value := by
  unfold callFunction Eval.callFunction
  split
  · refine .read fun _ => ?_
    refine (Attempt.Tells.ofExcept (Eval.admitsCall_outcome s.callDepth s.heap)).bind fun t _ _ _ => ?_
    refine (values_tells he args t).bind fun u vs _ hvs => ?_
    exact .inCall (callBody_tells he hx f vs u.openCall hvs)
  · exact (Attempt.Tells.throw (Q := fun _ _ => False) rfl).bind fun _ _ _ h => h.elim

/-- A call by name; the look at the name is a step of its own. -/
theorem call_tells (he : Evaluates host D evaluate' evaluate)
    (hx : Executes host D execute' execute) (name : String) (args : List Expr) (s : State) :
    Attempt.Tells host D s (call host evaluate' execute' name args)
      (Eval.call host evaluate execute name args) D.value := by
  refine (Attempt.Tells.step (k := .expression) (Eval.callee_leads name s)
    (.callee host name)).bind fun t c _ _ => ?_
  cases c with
  | function f => exact callFunction_tells he hx f args t
  | tool =>
    refine (values_tells he args t).bind fun u vs _ hvs => ?_
    exact .step (k := .expression) (Eval.callTool_leads name vs u hvs) (.callTool host name vs)

/-- A note of the target of a `?.`, and what follows. -/
theorem noteLink_tells {α : Type} {Q : Heap → α → Prop} {optional : Bool} {reached : Option Value}
    {f' : Unit → Attempt α} {x : Eval α} (hr : ∀ v, reached = some v → D.value s.heap v)
    (hf : Attempt.Tells host D s (f' ()) x Q) :
    Attempt.Tells host D s (liftM (noteLink optional reached) >>= f') x Q := by
  -- where nothing is noted the record is that of what follows
  have hskip : Attempt.Tells host D s (liftM (pure () : Recording Unit) >>= f') x Q := by
    intro hs
    obtain ⟨houtcome, hchronicle, hresult⟩ := hf hs
    exact ⟨houtcome, hchronicle, hresult⟩
  cases reached with
  | none => exact hskip
  | some target =>
    cases optional with
    | false => exact hskip
    | true => exact .note (fun hs => .link hs (hr target rfl)) rfl hf

/-- **A chain is recorded if its parts are**, with a note for each `?.` that it gets to. -/
theorem chain_tells (he : Evaluates host D evaluate' evaluate) (e : Expr) (s : State) :
    Attempt.Tells host D s (chain evaluate' e) (Eval.chain evaluate e)
      fun h r => ∀ v, r = some v → D.value h v := by
  fun_induction Eval.chain evaluate e generalizing s with
  | case1 target index ih =>
    rw [chain]
    refine (ih s).bind fun t link _ hlink => ?_
    cases link with
    -- cut off further down: no link is looked at any more
    | none => exact .pure fun _ h => (by cases h)
    | some target =>
      refine (he index t).bind fun u i hk hi => .read fun hs => ?_
      -- the target has stayed good while the index was evaluated
      have htarget : D.value u.heap target := hk target (hlink target rfl)
      refine (Attempt.Tells.noted (Attempt.Tells.ofExcept (Heap.index_good hs.heap target i htarget))).bind
        fun _ v _ hv => ?_
      exact .pure fun w hw => Option.some.inj hw ▸ hv
  | case2 target name optional ih =>
    rw [chain]
    refine (ih s).bind fun t link _ hlink => noteLink_tells hlink ?_
    cases link.bind (Eval.linkTarget optional) with
    | none => exact .pure fun _ h => (by cases h)
    | some target =>
      refine .read fun hs => ?_
      refine (Attempt.Tells.noted (Attempt.Tells.ofExcept (Heap.member_good hs.heap target name))).bind
        fun _ v _ hv => ?_
      exact .pure fun w hw => Option.some.inj hw ▸ hv
  | case3 target name args optional ih =>
    rw [chain]
    refine (ih s).bind fun t link _ hlink => noteLink_tells hlink ?_
    cases link.bind (Eval.linkTarget optional) with
    | none => exact .pure fun _ h => (by cases h)
    | some target =>
      refine (values_tells he args t).bind fun u vs _ hvs => ?_
      refine (Attempt.Tells.noted (.ofAlloc fun hs =>
        Heap.callMethod_obeys hs.heap target name hvs)).bind fun _ v _ hv => ?_
      exact .pure fun w hw => Option.some.inj hw ▸ hv
  | case4 e hindex hmember hmethod =>
    rw [chain]
    -- what is no link is evaluated as a whole
    · refine (he e s).bind fun t v _ hv => ?_
      exact .pure fun w hw => Option.some.inj hw ▸ hv
    · exact hindex
    · exact hmember
    · exact hmethod

/-- **An expression is recorded if its parts are.** -/
theorem expression_tells (he : Evaluates host D evaluate' evaluate)
    (hx : Executes host D execute' execute) :
    Evaluates host D (expression host evaluate' execute')
      (Eval.expression host evaluate execute) := by
  intro e s
  cases e with
  -- literals have no record of their own
  | nil | bool | int | double | string => exact .pure (D.plain s.heap rfl)
  | var name =>
    exact .step (k := .expression) (Eval.variableValue_leads name s) (.variableValue host name)
  | binary op left right =>
    refine (he left s).bind fun t a _ ha => ?_
    split
    -- the left operand has settled it
    · exact .pure ha
    · refine (he right t).bind fun u b _ _ => ?_
      exact .ofExcept ((op.apply_plain a b).outcome u.heap)
  | unary op operand =>
    refine (he operand s).bind fun t a _ _ => ?_
    exact .ofExcept ((op.apply_plain a).outcome t.heap)
  | call name args => exact call_tells he hx name args s
  | array items =>
    refine (values_tells he items s).bind fun t vs _ hvs => ?_
    -- the items are good where the array is made
    have hitems : ∀ v ∈ vs.toArray, D.value t.heap v := fun v hv => hvs v (List.mem_toArray.mp hv)
    exact .ofAlloc fun hs =>
      .make (.newArray hs.heap hitems) (D.array (by simp [Heap.newArray]))
  | dict pairs =>
    refine (entries_tells he pairs .empty s .empty).bind fun t table _ ht => ?_
    exact .ofAlloc fun hs => .make (.newDict hs.heap ht) (D.dict (by simp [Heap.newDict]))
  | range first last inclusive =>
    refine (rangeEnds_tells he first last s).bind fun t ends _ _ => ?_
    exact .ofAlloc fun hs => Progression.toArray_obeys hs.heap _ _ _
  | index | member | method =>
    exact (chain_tells he _ s).bind fun t r _ hr => .pure (D.getD_nil hr)

/-! ## §2. Loops -/

/-- The frame of a block is opened and closed in two steps. -/
theorem innerBlock_tells (hx : Executes host D execute' execute) (body : List Stmt) (s : State) :
    Recording.Tells host D s (innerBlock execute' body) (Eval.innerBlock execute body)
      fun h => Signal.All (D.value h) :=
  .inFrame (hx body _)

/-- A `while`, by induction on the rounds that are left. -/
theorem whileLoop_tells {condition' : Attempt Value} {condition : Eval Value}
    {body' : Recording Signal} {body : Run Signal}
    (hc : ∀ s, Attempt.Tells host D s condition' condition D.value)
    (hb : ∀ s, Recording.Tells host D s body' body fun h => Signal.All (D.value h)) (rounds : Nat)
    (s : State) :
    Attempt.Tells host D s (whileLoop condition' body' rounds) (Eval.whileLoop condition body rounds)
      fun h => Signal.All (D.value h) := by
  -- on the rounds that are left: each starts in the state that the one before it has reached
  induction rounds generalizing s with
  | zero => exact .outOfFuel
  | succ rounds ih =>
    refine (hc s).bind fun t v _ _ => ?_
    split
    · refine (Attempt.Tells.lift (hb t)).bind fun u signal _ hsignal => ?_
      cases hround : Eval.afterRound signal with
      | some result => exact .pure (Eval.afterRound_all hsignal hround)
      | none => exact ih u
    · exact .pure trivial

/-- A round for each value; the values not yet visited stay good. -/
theorem overValues_tells {round' : Value → Attempt Signal} {round : Value → Eval Signal}
    (hr : ∀ v s, D.value s.heap v →
      Attempt.Tells host D s (round' v) (round v) fun h => Signal.All (D.value h))
    (items : List Value) (s : State) (hi : ∀ v ∈ items, D.value s.heap v) :
    Attempt.Tells host D s (overValues round' items) (Eval.overValues round items)
      fun h => Signal.All (D.value h) := by
  induction items generalizing s with
  | nil => exact .pure trivial
  | cons v rest ih =>
    refine (hr v s (hi v List.mem_cons_self)).bind fun t signal hk hsignal => ?_
    cases hround : Eval.afterRound signal with
    | some result => exact .pure (Eval.afterRound_all hsignal hround)
    | none => exact ih t fun w hw => hk w (hi w (List.mem_cons_of_mem v hw))

/-- Integers are good on every heap. -/
theorem overInts_tells {round' : Value → Attempt Signal} {round : Value → Eval Signal}
    (hr : ∀ v s, D.value s.heap v →
      Attempt.Tells host D s (round' v) (round v) fun h => Signal.All (D.value h))
    (run : Progression) (i left : Nat) (s : State) :
    Attempt.Tells host D s (overInts round' run i left) (Eval.overInts round run i left)
      fun h => Signal.All (D.value h) := by
  induction left generalizing i s with
  | zero => exact .pure trivial
  | succ left ih =>
    refine (hr (run.item i) s (D.plain s.heap rfl)).bind fun t signal _ hsignal => ?_
    cases hround : Eval.afterRound signal with
    | some result => exact .pure (Eval.afterRound_all hsignal hround)
    | none => exact ih (i + 1) t

theorem overSequence_tells {round' : Value → Attempt Signal} {round : Value → Eval Signal}
    (hr : ∀ v s, D.value s.heap v →
      Attempt.Tells host D s (round' v) (round v) fun h => Signal.All (D.value h))
    (items : Sequence) (s : State) (hi : items.All (D.value s.heap)) :
    Attempt.Tells host D s (overSequence round' items) (Eval.overSequence round items)
      fun h => Signal.All (D.value h) := by
  cases items with
  | ints run => exact overInts_tells hr run 0 run.count s
  | values items => exact overValues_tells hr items s hi

theorem sequenceOf_tells (v : Value) (s : State) :
    Attempt.Tells host D s (Attempt.step (Eval.sequenceOf v)) (Eval.sequenceOf v)
      fun h items => items.All (D.value h) :=
  .step (k := .expression) (Eval.sequenceOf_leads v s) (.sequenceOf v)

/-- What a `for` visits: integers without an array, or what a value holds. -/
theorem visited_tells (he : Evaluates host D evaluate' evaluate) (iterable : Expr) (s : State) :
    Attempt.Tells host D s (visited evaluate' iterable) (Eval.visited evaluate iterable)
      fun h items => items.All (D.value h) := by
  cases iterable with
  | range first last inclusive =>
    exact (rangeEnds_tells he first last s).bind fun _ _ _ _ => .pure trivial
  | call name args =>
    refine .read fun _ => ?_
    split
    -- a call of `range` that stands for the built-in one is counted
    · refine (values_tells he args s).bind fun t vs _ _ => ?_
      refine (Attempt.Tells.ofExcept (Builtin.rangeBounds_outcome vs t.heap)).bind fun _ _ _ _ => ?_
      exact .pure trivial
    · exact (he _ s).bind fun t v _ _ => sequenceOf_tells v t
  | _ => exact (he _ s).bind fun t v _ _ => sequenceOf_tells v t

theorem forRound_tells (hx : Executes host D execute' execute) (reuse : Bool) (name : String)
    (body : List Stmt) (v : Value) (s : State) (hv : D.value s.heap v) :
    Attempt.Tells host D s (forRound execute' reuse name body v)
      (Eval.forRound execute reuse name body v) fun h => Signal.All (D.value h) := by
  refine (Attempt.Tells.step (k := .rounds name)
    (Eval.setItem_leads trivial (fun _ => rfl) hv) (.setItem reuse name v)).bind fun t _ _ _ => ?_
  exact .lift (innerBlock_tells hx body t)

/-- A `for`: one look whether its variable exists, and the rounds, in a frame if it does not. -/
theorem forIn_tells (he : Evaluates host D evaluate' evaluate)
    (hx : Executes host D execute' execute) (name : String) (iterable : Expr) (body : List Stmt)
    (s : State) :
    Attempt.Tells host D s (forIn evaluate' execute' name iterable body)
      (Eval.forIn evaluate execute name iterable body) fun h => Signal.All (D.value h) := by
  refine (visited_tells he iterable s).bind fun t items _ hitems => .read fun _ => ?_
  -- the rounds are the same with the frame and without it
  have hround : ∀ v u, D.value u.heap v →
      Attempt.Tells host D u (forRound execute' (t.scopes.isBound name) name body v)
        (Eval.forRound execute (t.scopes.isBound name) name body v)
        fun h => Signal.All (D.value h) :=
    fun v u => forRound_tells hx _ name body v u
  dsimp only
  split
  · exact overSequence_tells hround items t hitems
  · exact .inFrame (overSequence_tells hround items (t.openFrame .block) hitems)

/-! ## §3. Statements and runs -/

/-- **A statement is recorded if its parts are.** -/
theorem effect_tells (he : Evaluates host D evaluate' evaluate)
    (hx : Executes host D execute' execute) (rounds : Nat) (st : Stmt) (s : State) :
    Attempt.Tells host D s (effect evaluate' execute' rounds st)
      (Eval.effect evaluate execute rounds st) fun h => Signal.All (D.value h) := by
  cases st with
  -- declarations, assignments and stores: the expressions, and then one step
  | declare name type value constant =>
    refine (he value s).bind fun t v _ hv => ?_
    exact (Attempt.Tells.declare hv).bind fun _ _ _ _ => .pure trivial
  | assign name value =>
    refine (he value s).bind fun t v _ hv => ?_
    exact (Attempt.Tells.assign hv).bind fun _ _ _ _ => .pure trivial
  | storeIndex target index value =>
    refine (he target s).bind fun t target _ _ => ?_
    refine (he index t).bind fun u index _ _ => ?_
    refine (he value u).bind fun u' v _ hv => ?_
    refine (Attempt.Tells.changeHeap fun hs => ?_).bind fun _ _ _ _ => .pure trivial
    exact Heap.storeIndex_good hs.heap hv target index
  | storeMember target name value =>
    refine (he target s).bind fun t target _ _ => ?_
    refine (he value t).bind fun u v _ hv => ?_
    refine (Attempt.Tells.changeHeap fun hs => ?_).bind fun _ _ _ _ => .pure trivial
    exact Heap.storeMember_good hs.heap hv target name
  | print value =>
    refine (he value s).bind fun t v _ _ => .read fun _ => ?_
    exact (Attempt.Tells.step (k := .frame []) (.lift (.modify (.print _ trivial)))
      (.print _)).bind fun _ _ _ _ => .pure trivial
  | expr value => exact (he value s).bind fun _ _ _ _ => .pure trivial
  -- branches and loops: the condition, and blocks in frames of their own
  | ifThen condition body =>
    refine (he condition s).bind fun t v _ _ => ?_
    split
    · exact .lift (innerBlock_tells hx body t)
    · exact .pure trivial
  | ifElse condition body otherwise =>
    refine (he condition s).bind fun t v _ _ => ?_
    split
    · exact .lift (innerBlock_tells hx body t)
    · exact .lift (innerBlock_tells hx otherwise t)
  | loop condition body =>
    exact whileLoop_tells (he condition) (innerBlock_tells hx body) rounds s
  | forIn name iterable body => exact forIn_tells he hx name iterable body s
  | brk | cont => exact .pure trivial
  | func name params returns body =>
    exact (Attempt.Tells.step (k := .frame []) (Eval.define_leads trivial _ s) (.define _)).bind
      fun _ _ _ _ => .pure trivial
  | ret value => exact (he value s).bind fun _ _ _ hv => .pure hv

/-- Where the trace is on, the line that announces a statement is the one of the statement begun. -/
theorem announce_tells (st : Stmt) (s : State) :
    Recording.Tells host D s (announce host st) (Eval.announce host st) fun _ _ => True := by
  intro hs
  obtain ⟨t, hrun, hsound, hheap, htraced⟩ : ∃ t, Eval.announce host st s = some ((), t) ∧
      t.Sound host D ∧ t.heap = s.heap ∧ t.traced = s.traced ++ host.lines [⟨.statement st, s⟩] := by
    unfold Eval.announce Host.lines
    by_cases htrace : host.settings.trace = true
    · -- the line is the one that the statement stands for
      rw [if_pos htrace, if_pos htrace]
      refine ⟨_, rfl, ⟨hs.heap, hs.scopes, hs.host⟩, rfl, ?_⟩
      unfold State.traced
      rw [Array.toList_push, List.filterMap_append]
      rfl
    · rw [if_neg htrace, if_neg htrace]
      exact ⟨s, rfl, hs, rfl, (List.append_nil _).symm⟩
  have hlog : (announce host st).log s = [⟨.statement st, s⟩] ++ [⟨.step, t⟩] := by
    show [_] ++ (Eval.announce host st s).elim [] _ = _
    rw [hrun]
    rfl
  refine ⟨rfl, ?_, fun a u h => ?_⟩
  · rw [hlog]
    exact .append (.one (.statement st hs) rfl) (.one (.step hsound) htraced)
  · rw [hrun] at h
    cases h
    have hstep : host.lines [⟨.step, t⟩] = [] := host.lines_of_begun_none rfl
    refine ⟨⟨hsound, hheap ▸ fun _ hv => hv, ?_⟩, trivial⟩
    rw [hlog, host.lines_append, hstep, List.append_nil]
    exact htraced

/-- A statement is written down before it is announced. -/
theorem statement_tells (he : Evaluates host D evaluate' evaluate)
    (hx : Executes host D execute' execute) (rounds : Nat) (st : Stmt) (s : State) :
    Attempt.Tells host D s (statement host evaluate' execute' rounds st)
      (Eval.statement host evaluate execute rounds st) fun h => Signal.All (D.value h) :=
  (Attempt.Tells.lift (announce_tells st s)).bind fun t _ _ _ => effect_tells he hx rounds st t

/-- A report is one step. -/
theorem report_tells (e : Error) (s : State) :
    Recording.Tells host D s (Recording.step (Run.report e)) (Run.report e) fun _ _ => True := by
  refine .step fun hs a t h => ?_
  cases h
  refine ⟨⟨hs.heap, hs.scopes, hs.host⟩, fun _ hv => hv, ?_, trivial⟩
  exact Diagnostic.filterMap_traced?_push_error s.diagnostics e

/-- **A list of statements is recorded if each statement is.** -/
theorem block_tells {stmt' : Stmt → Attempt Signal} {stmt : Stmt → Eval Signal}
    (hstmt : ∀ st s, Attempt.Tells host D s (stmt' st) (stmt st) fun h => Signal.All (D.value h))
    (body : List Stmt) (s : State) :
    Recording.Tells host D s (block stmt' body) (Eval.block stmt body)
      fun h => Signal.All (D.value h) := by
  induction body generalizing s with
  | nil => exact .pure trivial
  | cons st rest ih =>
    refine Recording.Tells.bind (hstmt st s) fun t r _ hr => ?_
    cases r with
    | error e =>
      -- the error is shown, which adds no line of the trace, and the next statement is begun
      exact (report_tells e t).bind fun u _ _ _ => ih u
    | ok signal =>
      cases signal with
      | next => exact ih t
      | brk | cont => exact .pure trivial
      | ret v => exact .pure hr

/-- **Every run is the recorded one, and every moment of it is as the discipline asks**: one induction
    on the fuel for expressions and statements together. -/
theorem run_tells (host : Host) (D : Discipline) (fuel : Nat) :
    Evaluates host D (eval host fuel) (Expr.eval host fuel) ∧
      Executes host D (exec host fuel) (Block.exec host fuel) := by
  induction fuel with
  | zero =>
    refine ⟨fun _ _ => .outOfFuel, fun body s => ?_⟩
    exact .step fun _ a t h => by cases h
  | succ fuel ih =>
    -- parts are evaluated and executed with the fuel below, and recorded there
    obtain ⟨he, hx⟩ := ih
    refine ⟨fun e s => .noted (expression_tells he hx e s), fun body s => ?_⟩
    exact block_tells (fun st s => statement_tells he hx fuel st s) body s

end Record

end Scriptlet
