/-
  Scriptlet.Proofs.Repetition — every run keeps up the regime under which it is watched.

  As everywhere in the evaluator the recursion is open, so each function has one lemma, which takes
  what is claimed from its parts to the whole, and a single induction on the fuel closes the knot.
  What a regime asks is only ever at stake where a call is opened, where a statement fails and where
  a function is declared; all else is passed on.

  Main results:
    * `Watch.run_repeats` — expressions and statements under two watches.
-/
import Scriptlet.Proofs.Evaluation
import Scriptlet.Proofs.Regime

namespace Scriptlet

namespace Eval

variable {w w' : Watch} {R : Regime w w'} {s : State}
variable {evaluate evaluate' : Evaluate} {execute execute' : Execute}

/-- The two ways to evaluate go together. -/
def EvaluateRepeats (R : Regime w w') (evaluate evaluate' : Evaluate) : Prop :=
  ∀ e s, Eval.Repeats R s (evaluate e) (evaluate' e)

/-- The two ways to execute go together on what may be executed. -/
def ExecuteRepeats (R : Regime w w') (execute execute' : Execute) : Prop :=
  ∀ body s, R.code body → Run.Repeats R s none (fun _ => none) (execute body) (execute' body)

/-- What the bodies of functions leave over is allowed. -/
def JumpsAllowed (R : Regime w w') (execute : Execute) : Prop :=
  ∀ f s t j, R.callable f → execute f.body s = some (Jump.signal j, t) →
    R.allows (.outsideLoop j)

/-! ## §1. Several expressions and names -/

/-- Several expressions, one after the other on both sides. -/
theorem values_repeats (he : EvaluateRepeats R evaluate evaluate') (es : List Expr) (s : State) :
    Eval.Repeats R s (values evaluate es) (values evaluate' es) := by
  induction es generalizing s with
  | nil => exact .pure []
  | cons e es ih =>
    refine .bind (he e s) fun v t _ _ => ?_
    exact .bind (ih t) fun vs u _ _ => .pure (v :: vs)

theorem key_repeats (v : Value) (s : State) : Eval.Repeats R s (key v) (key v) := by
  unfold key
  split
  · exact .pure _
  · exact .throw (R.orderly rfl)

/-- The keys and values of a dictionary; a key of another kind is an error of data. -/
theorem entries_repeats (he : EvaluateRepeats R evaluate evaluate') (pairs : List (Expr × Expr))
    (table : OrderedMap Value) (s : State) :
    Eval.Repeats R s (entries evaluate table pairs) (entries evaluate' table pairs) := by
  induction pairs generalizing table s with
  | nil => exact .pure table
  | cons pair rest ih =>
    obtain ⟨k, e⟩ := pair
    refine .bind (he k s) fun v t _ _ => ?_
    refine .bind (key_repeats v t) fun name t' _ _ => ?_
    exact .bind (he e t') fun v u _ _ => ih (table.set name v) u

theorem rangeEnds_repeats (he : EvaluateRepeats R evaluate evaluate') (first last : Expr)
    (s : State) :
    Eval.Repeats R s (rangeEnds evaluate first last) (rangeEnds evaluate' first last) := by
  refine .bind (he first s) fun a t _ _ => ?_
  refine .bind (he last t) fun b u _ _ => ?_
  refine .bind (.data a.asInt_orderly) fun i u' _ _ => ?_
  exact .bind (.data b.asInt_orderly) fun j _ _ _ => .pure (i, j)

/-- Both runs ask the same modules. -/
theorem variableValue_repeats (name : String) (s : State) :
    Eval.Repeats R s (variableValue w.host name) (variableValue w'.host name) := by
  unfold variableValue
  rw [R.alike.resolver]
  refine .get fun _ => ?_
  cases s.scopes.get? name with
  | some b => exact .pure b.value
  | none =>
    refine .bind (.ofExcept fun _ => R.refusals) fun symbol t _ _ => ?_
    split
    · exact .pure _
    · exact .throw (R.orderly rfl)
    · exact .throw (R.orderly rfl)

/-- Both runs find the same function or the same tool, or fail alike. -/
theorem callee_repeats (name : String) (s : State) :
    Eval.Repeats R s (callee w.host name) (callee w'.host name) := by
  unfold callee
  rw [R.alike.tools, R.alike.resolver]
  refine .get fun _ => ?_
  cases s.functions.get? name with
  | some f => exact .pure _
  | none =>
    dsimp only
    split
    · exact .pure _
    -- the errors of modules are allowed, and names without a function are errors of data
    · refine .bind (.ofExcept fun _ => R.refusals) fun symbol t _ _ => ?_
      split
      · exact .pure _
      · exact .throw (R.orderly rfl)
      · exact .throw (R.orderly rfl)

/-! ## §2. Calls -/

theorem get_bind_run {β : Type} (f : State → Eval β) (s : State) :
    (get >>= f).run s = (f s).run s := rfl

/-- What a computation that cannot fail gives is what it gives. -/
theorem liftM_run_ok {α : Type} {x : Run α} {a : α} {t : State}
    (h : (liftM x : Eval α).run s = some (.ok a, t)) : x s = some (a, t) := by
  have h : (x s).bind (fun p => some (Except.ok p.1, p.2)) = some (.ok a, t) := h
  obtain ⟨p, hx, hok⟩ := Option.bind_eq_some_iff.mp h
  cases hok
  exact hx

/-- A result that is known before leaves the state as it was. -/
theorem ofExcept_run_ok {α : Type} {r : Except Error α} {a : α} {t : State}
    (h : (ofExcept r).run s = some (.ok a, t)) : r = .ok a ∧ t = s := by
  cases r with
  | ok b =>
    cases h
    exact ⟨rfl, rfl⟩
  | error e => cases h

/-- A function that is called by its name may be called. -/
theorem callee_callable (hs : R.Holds s) {name : String} {f : Func} {t : State}
    (hrun : (callee w.host name).run s = some (.ok (.function f), t)) : R.callable f := by
  unfold callee at hrun
  rw [get_bind_run] at hrun
  cases hf : s.functions.get? name with
  -- a function of the script is under the regime already
  | some g =>
    rw [hf] at hrun
    cases hrun
    exact hs.functions name f hf
  | none =>
    rw [hf] at hrun
    dsimp only at hrun
    split at hrun
    · cases hrun
    · cases hr : w.host.resolver name with
      | error e =>
        rw [hr] at hrun
        cases hrun
      | ok symbol =>
        rw [hr] at hrun
        cases symbol with
        | none => cases hrun
        | some exported =>
          cases exported with
          | value v => cases hrun
          -- a function of a module may be called
          | function g =>
            cases hrun
            exact R.exported hr

/-- The parameters are bound alike; a missing value is an error of data. -/
theorem bindParams_repeats (he : EvaluateRepeats R evaluate evaluate') (f : Func) (supplied : Nat)
    (params : List Param) (args : List Value) (s : State) :
    Eval.Repeats R s (bindParams evaluate f supplied params args)
      (bindParams evaluate' f supplied params args) := by
  induction params generalizing args s with
  | nil => exact .pure ()
  | cons p ps ih =>
    -- an argument, a default, or neither
    have hargument : Eval.Repeats R s (argument evaluate f supplied p args)
        (argument evaluate' f supplied p args) := by
      unfold argument
      cases args with
      | cons v rest => exact .pure v
      | nil =>
        cases p.default with
        | some e => exact he e s
        | none => exact .throw (R.orderly rfl)
    refine .bind hargument fun v t _ _ => ?_
    refine .bind (.changeScopes fun scopes => scopes.declare_orderly _ _ v _) fun _ u _ _ => ?_
    exact ih args.tail u

/-- **The body of a call**: what it leaves over is a result, or a jump that the regime allows. -/
theorem callBody_repeats (he : EvaluateRepeats R evaluate evaluate')
    (hx : ExecuteRepeats R execute execute') (hj : JumpsAllowed R execute) {f : Func}
    (hf : R.callable f) (args : List Value) (s : State) :
    Eval.Repeats R s (callBody evaluate execute f args) (callBody evaluate' execute' f args) := by
  refine .bind (bindParams_repeats he f args.length f.params args s) fun _ t _ _ => ?_
  refine .bind (.lift (hx f.body t (R.body hf))) fun signal u hrun _ => ?_
  -- what the body leaves over becomes an error here, unless it is a value
  have hbody := liftM_run_ok hrun
  cases signal with
  | ret v => exact .ofAlloc (f.returns.coerce_orderly v)
  | next => exact .throw (R.orderly rfl)
  | brk => exact .throw (hj f t u .brk hf hbody)
  | cont => exact .throw (hj f t u .cont hf hbody)

theorem admitsCall_orderly (host : Host) (depth : Nat) : Orderly (host.admitsCall depth) := by
  unfold Host.admitsCall
  split
  · trivial
  · split <;> trivial

/-- The two runs may differ in whether they admit a call, but then the errors tell. -/
theorem admitsCall_repeats (s : State) :
    Eval.Repeats R s (ofExcept (w.host.admitsCall s.callDepth))
      (ofExcept (w'.host.admitsCall s.callDepth)) := by
  intro hs hbefore
  obtain ⟨hnone, hsome⟩ :=
    (Eval.Repeats.data (admitsCall_orderly w.host s.callDepth) : Eval.Repeats R s _ _) hs hbefore
  refine ⟨hnone, fun r t hrun => ?_⟩
  obtain ⟨hdepth, ht, hr, hsame⟩ := hsome r t hrun
  refine ⟨hdepth, ht, hr, fun hkeeps => ?_⟩
  obtain ⟨hkept, -⟩ := hsame hkeeps
  refine ⟨hkept, ?_⟩
  -- the look at the limit changes nothing, whatever comes of it
  have hr : w.host.admitsCall s.callDepth = r ∧ t = s := by
    cases hadmits : w.host.admitsCall s.callDepth with
    | ok _ =>
      rw [hadmits] at hrun
      cases hrun
      exact ⟨rfl, rfl⟩
    | error e =>
      rw [hadmits] at hrun
      cases hrun
      exact ⟨rfl, rfl⟩
  obtain ⟨rfl, rfl⟩ := hr
  -- as the errors allow to tell, both runs admit the call or neither does
  rw [R.admits hs.within hkeeps]
  exact hrun

/-- **A call**: it is admitted by both, and asked about once it is open. -/
theorem callFunction_repeats (he : EvaluateRepeats R evaluate evaluate')
    (hx : ExecuteRepeats R execute execute') (hj : JumpsAllowed R execute) {f : Func}
    (hf : R.callable f) (args : List Expr) (s : State) :
    Eval.Repeats R s (w.callFunction evaluate execute f args)
      (w'.callFunction evaluate' execute' f args) := by
  unfold Watch.callFunction
  split
  · refine .get fun _ => .bind (admitsCall_repeats s) fun _ t hadmits _ => ?_
    obtain ⟨hadmits, rfl⟩ := ofExcept_run_ok hadmits
    refine .bind (values_repeats he args t) fun vs u _ hdepth => ?_
    -- the arguments have opened and closed calls, but as many are open as when it was asked
    refine .inCall (by rw [hdepth]; exact hadmits) ?_
    have hasked : Run.Repeats R u.openCall none (fun _ => none) (Watch.ask w.opened)
        (Watch.ask w'.opened) :=
      .ask (fun hu => R.opened hu.within) fun hu _ => R.openedToo hu.within
    exact .bind (.lift hasked) fun _ u' _ _ => callBody_repeats he hx hj hf vs u'
  · exact .fail (R.orderly rfl)

/-- The tools are the same, and so are their errors. -/
theorem callTool_repeats (name : String) (args : List Value) (s : State) :
    Eval.Repeats R s (callTool w.host name args) (callTool w'.host name args) := by
  unfold callTool
  rw [R.alike.tools]
  refine .get fun _ => ?_
  cases hcall : w.host.tools.call name args s.heap with
  | mk result heap =>
    cases result with
    | ok v => exact .done rfl rfl rfl rfl rfl
    | error e =>
      have he : R.allows e := R.failures (congrArg Prod.fst hcall)
      exact .step rfl rfl rfl rfl rfl fun _ h => Except.error.inj h ▸ he

/-- A call of a function, which may be called, or of a tool. -/
theorem call_repeats (he : EvaluateRepeats R evaluate evaluate')
    (hx : ExecuteRepeats R execute execute') (hj : JumpsAllowed R execute) (name : String)
    (args : List Expr) (s : State) :
    Eval.Repeats R s (w.call evaluate execute name args) (w'.call evaluate' execute' name args) := by
  intro hs
  refine Eval.Repeats.bind (callee_repeats name s) (fun c t hcallee _ => ?_) hs
  cases c with
  | function f => exact callFunction_repeats he hx hj (callee_callable hs hcallee) args t
  | tool => exact .bind (values_repeats he args t) fun vs u _ _ => callTool_repeats name vs u

/-! ## §3. Expressions -/

/-- The links of a chain fail for the sake of their data. -/
theorem chain_repeats (he : EvaluateRepeats R evaluate evaluate') (e : Expr) (s : State) :
    Eval.Repeats R s (chain evaluate e) (chain evaluate' e) := by
  fun_induction chain evaluate e generalizing s with
  | case1 target index ih =>
    rw [chain]
    refine .bind (ih s) fun link t _ _ => ?_
    cases link with
    -- the chain has been cut off
    | none => exact .pure none
    | some v =>
      refine .bind (he index t) fun i u _ _ => .get fun _ => ?_
      exact .bind (.data (u.heap.index_orderly v i)) fun x _ _ _ => .pure (some x)
  | case2 target name optional ih =>
    rw [chain]
    refine .bind (ih s) fun link t _ _ => ?_
    cases link.bind (linkTarget optional) with
    | none => exact .pure none
    | some v =>
      refine .get fun _ => ?_
      exact .bind (.data (t.heap.member_orderly v name)) fun x _ _ _ => .pure (some x)
  | case3 target name args optional ih =>
    rw [chain]
    refine .bind (ih s) fun link t _ _ => ?_
    cases link.bind (linkTarget optional) with
    | none => exact .pure none
    | some v =>
      refine .bind (values_repeats he args t) fun vs u _ _ => ?_
      refine .bind (.ofAlloc fun h => h.callMethod_orderly v name vs) fun x _ _ _ => ?_
      exact .pure (some x)
  | case4 e hindex hmember hmethod =>
    rw [chain.eq_4 evaluate' e hindex hmember hmethod]
    exact .bind (he e s) fun x _ _ _ => .pure (some x)

/-- **One expression**, over its parts. -/
theorem expression_repeats (he : EvaluateRepeats R evaluate evaluate')
    (hx : ExecuteRepeats R execute execute') (hj : JumpsAllowed R execute) (e : Expr) (s : State) :
    Eval.Repeats R s (w.expression evaluate execute e) (w'.expression evaluate' execute' e) := by
  cases e with
  | nil | bool | int | double | string => exact .pure _
  | var name => exact variableValue_repeats name s
  | binary op left right =>
    refine .bind (he left s) fun a t _ _ => ?_
    split
    -- the left operand has settled it
    · exact .pure a
    · exact .bind (he right t) fun b u _ _ => .data (op.apply_orderly a b)
  | unary op operand => exact .bind (he operand s) fun a t _ _ => .data (op.apply_orderly a)
  | call name args => exact call_repeats he hx hj name args s
  | array items =>
    -- making an array cannot fail
    exact .bind (values_repeats he items s) fun vs t _ _ => .ofAlloc fun _ => trivial
  | dict pairs =>
    exact .bind (entries_repeats he pairs .empty s) fun table t _ _ => .ofAlloc fun _ => trivial
  | range first last inclusive =>
    refine .bind (rangeEnds_repeats he first last s) fun ends t _ _ => ?_
    exact .ofAlloc (rangeArray_orderly ends.1 ends.2 inclusive)
  | index | member | method =>
    exact .bind (chain_repeats he _ s) fun link t _ _ => .pure (link.getD .nil)

/-! ## §4. Loops -/

theorem innerBlock_repeats (hx : ExecuteRepeats R execute execute') {body : List Stmt}
    (hbody : R.code body) (s : State) :
    Run.Repeats R s none (fun _ => none) (innerBlock execute body) (innerBlock execute' body) :=
  .inFrame (hx body _ hbody)

/-- Rounds are bounded by the same number on both sides. -/
theorem whileLoop_repeats {condition condition' : Eval Value} {body body' : Run Signal}
    (hcondition : ∀ s, Eval.Repeats R s condition condition')
    (hbody : ∀ s, Run.Repeats R s none (fun _ => none) body body') (rounds : Nat) (s : State) :
    Eval.Repeats R s (w.whileLoop condition body rounds) (w'.whileLoop condition' body' rounds) := by
  induction rounds generalizing s with
  | zero => exact .lift (.cutOff rfl)
  | succ rounds ih =>
    unfold Watch.whileLoop
    refine .bind (hcondition s) fun v t _ _ => ?_
    -- the condition is the same on both sides, so both make a round or neither does
    split
    · refine .bind (.lift (hbody t)) fun signal u _ _ => ?_
      cases afterRound signal with
      | some result => exact .pure result
      | none => exact ih u
    · exact .pure _

section Rounds

variable {round round' : Value → Eval Signal} (hr : ∀ v s, Eval.Repeats R s (round v) (round' v))

include hr

/-- A round for each value. -/
theorem overValues_repeats (items : List Value) (s : State) :
    Eval.Repeats R s (overValues round items) (overValues round' items) := by
  induction items generalizing s with
  | nil => exact .pure _
  | cons v rest ih =>
    refine .bind (hr v s) fun signal t _ _ => ?_
    cases afterRound signal with
    | some result => exact .pure result
    | none => exact ih t

/-- A round for each integer. -/
theorem overInts_repeats (run : Progression) (i left : Nat) (s : State) :
    Eval.Repeats R s (overInts round run i left) (overInts round' run i left) := by
  induction left generalizing i s with
  | zero => exact .pure _
  | succ left ih =>
    refine .bind (hr (run.item i) s) fun signal t _ _ => ?_
    cases afterRound signal with
    | some result => exact .pure result
    | none => exact ih (i + 1) t

theorem overSequence_repeats (items : Sequence) (s : State) :
    Eval.Repeats R s (overSequence round items) (overSequence round' items) := by
  cases items with
  | ints run => exact overInts_repeats hr run 0 run.count s
  | values items => exact overValues_repeats hr items s

end Rounds

theorem sequenceOf_repeats (v : Value) (s : State) :
    Eval.Repeats R s (sequenceOf v) (sequenceOf v) := by
  unfold sequenceOf
  split
  · exact .get fun _ => .pure _
  · exact .get fun _ => .pure _
  · exact .throw (R.orderly rfl)

/-- What is visited is the same on both sides, or fails for the sake of its data. -/
theorem visited_repeats (he : EvaluateRepeats R evaluate evaluate') (iterable : Expr) (s : State) :
    Eval.Repeats R s (visited evaluate iterable) (visited evaluate' iterable) := by
  unfold visited
  split
  · exact .bind (rangeEnds_repeats he _ _ s) fun ends _ _ _ => .pure _
  · refine .get fun _ => ?_
    split
    · refine .bind (values_repeats he _ s) fun vs t _ _ => ?_
      exact .bind (.data (Builtin.rangeBounds_orderly vs)) fun ends _ _ _ => .pure _
    · exact .bind (he _ s) fun v t _ _ => sequenceOf_repeats v t
  · exact .bind (he _ s) fun v t _ _ => sequenceOf_repeats v t

theorem forRound_repeats (hx : ExecuteRepeats R execute execute') {body : List Stmt}
    (hbody : R.code body) (reuse : Bool) (name : String) (v : Value) (s : State) :
    Eval.Repeats R s (forRound execute reuse name body v) (forRound execute' reuse name body v) := by
  have hset : Eval.Repeats R s (setItem reuse name v) (setItem reuse name v) := by
    unfold setItem
    split
    · exact .changeScopes fun scopes => scopes.assign_orderly name v
    · exact .done rfl rfl rfl rfl rfl
  exact .bind hset fun _ t _ _ => .lift (innerBlock_repeats hx hbody t)

/-- A `for` whose body may be executed. -/
theorem forIn_repeats (he : EvaluateRepeats R evaluate evaluate')
    (hx : ExecuteRepeats R execute execute') (name : String) (iterable : Expr) {body : List Stmt}
    (hbody : R.code body) (s : State) :
    Eval.Repeats R s (forIn evaluate execute name iterable body)
      (forIn evaluate' execute' name iterable body) := by
  refine .bind (visited_repeats he iterable s) fun items t _ _ => .get fun _ => ?_
  dsimp only
  split
  · exact overSequence_repeats (forRound_repeats hx hbody _ name) items t
  · exact .inFrame (overSequence_repeats (forRound_repeats hx hbody _ name) items _)

/-! ## §5. Statements -/

/-- A function comes under the regime where it is declared. -/
theorem define_repeats {f : Func} (hf : R.callable f) (s : State) :
    Eval.Repeats R s (define f) (define f) := by
  unfold define
  refine .get fun _ => ?_
  split
  · exact .fail (R.orderly rfl)
  · exact Run.Repeats.step rfl rfl rfl (fun hs => hs.define hf) (fun _ _ he => (by cases he)) id

/-- **One statement**, over its expressions and the blocks in it. -/
theorem effect_repeats (he : EvaluateRepeats R evaluate evaluate')
    (hx : ExecuteRepeats R execute execute') (rounds : Nat) {body : List Stmt} (hcode : R.code body)
    {st : Stmt} (hst : st ∈ body) (s : State) :
    Eval.Repeats R s (w.effect evaluate execute rounds st)
      (w'.effect evaluate' execute' rounds st) := by
  -- the blocks in the statement may be executed if the statement may
  have hinner : ∀ block ∈ st.blocks, R.code block := fun block hblock =>
    R.inner hcode hst hblock
  cases st with
  | declare name type value constant =>
    refine .bind (he value s) fun v t _ _ => ?_
    exact .bind (.changeScopes fun scopes => scopes.declare_orderly _ _ v _) fun _ _ _ _ =>
      .pure _
  | assign name value =>
    refine .bind (he value s) fun v t _ _ => ?_
    exact .bind (.changeScopes fun scopes => scopes.assign_orderly _ v) fun _ _ _ _ => .pure _
  | storeIndex target index value =>
    refine .bind (he target s) fun a t _ _ => ?_
    refine .bind (he index t) fun i u _ _ => ?_
    refine .bind (he value u) fun v u' _ _ => ?_
    exact .bind (.changeHeap fun h => h.storeIndex_orderly v a i) fun _ _ _ _ => .pure _
  | storeMember target name value =>
    refine .bind (he target s) fun a t _ _ => ?_
    refine .bind (he value t) fun v u _ _ => ?_
    exact .bind (.changeHeap fun h => h.storeMember_orderly a name v) fun _ _ _ _ => .pure _
  | print value =>
    refine .bind (he value s) fun v t _ _ => .get fun _ => ?_
    exact .done rfl rfl rfl rfl rfl
  | expr value => exact .bind (he value s) fun _ _ _ _ => .pure _
  | ifThen condition body =>
    refine .bind (he condition s) fun v t _ _ => ?_
    split
    · exact .lift (innerBlock_repeats hx (hinner body (by simp [Stmt.blocks])) t)
    · exact .pure _
  | ifElse condition body otherwise =>
    refine .bind (he condition s) fun v t _ _ => ?_
    split
    · exact .lift (innerBlock_repeats hx (hinner body (by simp [Stmt.blocks])) t)
    · exact .lift (innerBlock_repeats hx (hinner otherwise (by simp [Stmt.blocks])) t)
  | loop condition body =>
    have hbody := innerBlock_repeats hx (hinner body (by simp [Stmt.blocks]))
    exact whileLoop_repeats (he condition) hbody rounds s
  | forIn name iterable body =>
    exact forIn_repeats he hx name iterable (hinner body (by simp [Stmt.blocks])) s
  | brk => exact .pure _
  | cont => exact .pure _
  | func name params returns body =>
    -- a function that is declared here may be called
    exact .bind (define_repeats (R.declared hcode hst) s) fun _ _ _ _ => .pure _
  | ret value => exact .bind (he value s) fun v _ _ _ => .pure _

/-- The trace of both runs is on or off. -/
theorem statement_repeats (he : EvaluateRepeats R evaluate evaluate')
    (hx : ExecuteRepeats R execute execute') (rounds : Nat) {body : List Stmt} (hcode : R.code body)
    {st : Stmt} (hst : st ∈ body) (s : State) :
    Eval.Repeats R s (w.statement evaluate execute rounds st)
      (w'.statement evaluate' execute' rounds st) := by
  have hannounce : Run.Repeats R s none (fun _ => none) (announce w.host st)
      (announce w'.host st) := by
    unfold announce
    rw [R.alike.trace]
    split
    · exact .quiet rfl rfl rfl rfl rfl rfl
    · exact .pure rfl
  exact .bind (.lift hannounce) fun _ t _ _ => effect_repeats he hx rounds hcode hst t

/-- **A list of statements**: an error that is under way after one of them becomes a pending one. -/
theorem block_repeats {stmt stmt' : Stmt → Eval Signal} (body : List Stmt)
    (hstmt : ∀ st ∈ body, ∀ s, Eval.Repeats R s (stmt st) (stmt' st)) (s : State) :
    Run.Repeats R s none (fun _ => none) (w.block stmt body) (w'.block stmt' body) := by
  induction body generalizing s with
  | nil => exact .pure rfl
  | cons st rest ih =>
    have hrest := ih fun st h => hstmt st (List.mem_cons_of_mem _ h)
    refine Run.Repeats.bind (hstmt st List.mem_cons_self s) fun r t _ _ => ?_
    cases r with
    | ok signal =>
      cases signal with
      | next => exact hrest t
      | brk => exact .pure rfl
      | cont => exact .pure rfl
      | ret v => exact .pure rfl
    | error e =>
      -- the answer may stop the first run; if it is yes, it is yes for the second too
      have hasked : Run.Repeats R t (some e) (fun _ => some e) (Watch.ask (w.failed e))
          (Watch.ask (w'.failed e)) :=
        .ask (fun ht => R.failed ht.within) fun ht => R.failedToo ht.within
      refine .bind hasked fun _ u hanswer _ => ?_
      obtain ⟨hfailed, rfl⟩ := Watch.ask_eq_some hanswer
      exact .bind (.report hfailed) fun _ u _ _ => hrest u

end Eval

/-! ## §6. Runs -/

variable {w w' : Watch}

/-- **Every run under a watch keeps up the regime**, and the run under the other watch repeats it as
    far as its errors allow to tell. -/
theorem Watch.run_repeats (R : Regime w w') (fuel : Nat) :
    Eval.EvaluateRepeats R (w.eval fuel) (w'.eval fuel) ∧
      Eval.ExecuteRepeats R (w.exec fuel) (w'.exec fuel) := by
  induction fuel with
  | zero => exact ⟨fun _ _ => .lift (.cutOff rfl), fun _ _ _ => .cutOff rfl⟩
  | succ fuel ih =>
    obtain ⟨he, hx⟩ := ih
    have hj : Eval.JumpsAllowed R (w.exec fuel) := fun _ _ _ _ => R.jumps
    constructor
    · exact Eval.expression_repeats he hx hj
    · intro body s hcode
      exact Eval.block_repeats body (fun _ hst => Eval.statement_repeats he hx fuel hcode hst) s

variable {R : Regime w w'} {fuel : Nat} {body : List Stmt} {s : State}

/-- A run that nothing stops has an outcome. -/
theorem Watch.exec_isSome (hbody : R.code body) (hs : R.Holds s) (hstops : ¬ R.stops) :
    (w.exec fuel body s).isSome = true := by
  have hrun := ((Watch.run_repeats R fuel).2 body s hbody hs fun _ he => (by cases he)).1
  rw [Option.isSome_iff_ne_none]
  exact fun hnone => hstops (hrun hnone)

/-- Where the run ends, the regime holds, and the other run has ended the same way, if the errors
    allow to tell. -/
theorem Watch.exec_repeats (hbody : R.code body) (hs : R.Holds s) {signal : Signal} {t : State}
    (h : w.exec fuel body s = some (signal, t)) :
    R.Holds t ∧ (R.keeps t.pending → w'.exec fuel body s = some (signal, t)) := by
  have hrun := ((Watch.run_repeats R fuel).2 body s hbody hs fun _ he => (by cases he)).2 signal t h
  exact ⟨hrun.2.1, fun hkeeps => (hrun.2.2.2 hkeeps).2⟩

end Scriptlet
