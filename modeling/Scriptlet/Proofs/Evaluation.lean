/-
  Scriptlet.Proofs.Evaluation — evaluation and execution take only the steps of an `Effect`.

  The evaluator is open: every function takes as arguments how parts are evaluated (`evaluate`) and
  how a function's body is executed (`execute`).  So each function has one lemma, which says that it
  takes allowed steps if these two do, and a single induction on the fuel closes the knot.

  Main results:
    * `Eval.expression_leads` — one expression, over its parts.
    * `Eval.statement_leads` and `Eval.block_leads` — one statement, and a list of them.
    * `Expr.eval_effect` and `Block.exec_effect` — every run, with any fuel.
-/
import Scriptlet.Eval.Run
import Scriptlet.Proofs.Builtin
import Scriptlet.Proofs.Triple

namespace Scriptlet

/-! ## §1. Parts of a run -/

/-- The returned value, if there is one, has the property. -/
def Signal.All (P : Value → Prop) : Signal → Prop
  | .ret v => P v
  | _ => True

/-- Every visited value has the property; integers need not be asked. -/
def Sequence.All (P : Value → Prop) : Sequence → Prop
  | .ints _ => True
  | .values items => ∀ v ∈ items, P v

namespace Eval

variable {host : Host} {D : Discipline} {k : Licence} {s : State}
variable {evaluate : Evaluate} {execute : Execute}

/-- Expressions are evaluated by allowed steps, whatever the licence. -/
def Evaluates (host : Host) (D : Discipline) (evaluate : Evaluate) : Prop :=
  ∀ k e s, Eval.Leads host D k s (evaluate e) D.value

/-- Lists of statements are executed by allowed steps in a frame that takes their declarations. -/
def Executes (host : Host) (D : Discipline) (execute : Execute) : Prop :=
  ∀ names body s, (∀ name ∈ Block.declared body, name ∈ names) →
    Run.Leads host D (.frame names) s (execute body) fun h => Signal.All (D.value h)

/-! ## §2. Several expressions -/

/-- Values that are good when they are made stay good while the others are made. -/
theorem values_leads (he : Evaluates host D evaluate) (es : List Expr) (s : State) :
    Eval.Leads host D k s (values evaluate es) fun h vs => ∀ v ∈ vs, D.value h v := by
  induction es generalizing s with
  | nil => exact .pure nofun
  | cons e es ih =>
    refine (he k e s).bind fun t v _ hv => ?_
    refine (ih t).bind fun u vs hk hvs => ?_
    exact .pure (List.forall_mem_cons.mpr ⟨hk v hv, hvs⟩)

theorem key_leads (v : Value) : Eval.Leads host D k s (key v) fun _ _ => True := by
  unfold key
  split
  · exact .pure trivial
  · exact .throw rfl

/-- The keys and values of a dictionary: what the table holds already stays good on the way. -/
theorem entries_leads (he : Evaluates host D evaluate) (pairs : List (Expr × Expr))
    (table : OrderedMap Value) (s : State) (ht : table.All (D.value s.heap)) :
    Eval.Leads host D k s (entries evaluate table pairs) fun h table => table.All (D.value h) := by
  induction pairs generalizing table s with
  | nil => exact .pure ht
  | cons pair rest ih =>
    obtain ⟨keyExpr, valueExpr⟩ := pair
    refine (he k keyExpr s).bind fun t v hk _ => ?_
    refine (key_leads v).bind fun t' name hk' _ => ?_
    refine (he k valueExpr t').bind fun u w hk'' hw => ?_
    refine ih (table.set name w) u (.set ?_ name hw)
    exact ht.imp fun a ha => hk'' a (hk' a (hk a ha))

theorem asInt_outcome (v : Value) (h : Heap) : D.Outcome (fun _ _ => True) h v.asInt := by
  unfold Value.asInt
  split
  · trivial
  · exact D.recoverable rfl

theorem rangeEnds_leads (he : Evaluates host D evaluate) (first last : Expr) (s : State) :
    Eval.Leads host D k s (rangeEnds evaluate first last) fun _ _ => True := by
  refine (he k first s).bind fun t a _ _ => ?_
  refine (he k last t).bind fun u b _ _ => ?_
  refine (Eval.Leads.ofExcept (asInt_outcome a u.heap)).bind fun u' _ _ _ => ?_
  refine (Eval.Leads.ofExcept (asInt_outcome b u'.heap)).bind fun _ _ _ _ => ?_
  exact .pure trivial

/-! ## §3. Names -/

/-- What the host exports is good, as the host obeys. -/
theorem resolver_outcome (ho : host.Obeys D s.heap) (name : String) :
    D.Outcome (fun h symbol => ∀ v, symbol = some (.value v) → D.value h v) s.heap
      (host.resolver name) := by
  cases hr : host.resolver name with
  | error e => exact ho.refusals name e hr
  | ok symbol =>
    rintro v rfl
    exact ho.exports name v hr

/-- A name stands for what is bound to it, or for what the host exports; both are good. -/
theorem variableValue_leads (name : String) (s : State) :
    Eval.Leads host D k s (variableValue host name) D.value := by
  refine .get fun hs => ?_
  split
  · rename_i b hb
    exact .pure (hs.scopes.get? hb)
  · refine (Eval.Leads.ofExcept (resolver_outcome hs.host name)).bind fun t symbol _ hsymbol => ?_
    split
    · exact .pure (hsymbol _ rfl)
    · exact .throw rfl
    · exact .throw rfl

theorem callee_leads (name : String) (s : State) :
    Eval.Leads host D k s (callee host name) fun _ _ => True := by
  refine .get fun hs => ?_
  split
  · exact .pure trivial
  · split
    · exact .pure trivial
    · refine (Eval.Leads.ofExcept (resolver_outcome hs.host name)).bind fun t symbol _ _ => ?_
      split
      · exact .pure trivial
      · exact .throw rfl
      · exact .throw rfl

/-! ## §4. Calls -/

/-- A parameter gets the next argument or its default, evaluated then and there. -/
theorem argument_leads (he : Evaluates host D evaluate) (f : Func) (supplied : Nat) (p : Param)
    (args : List Value) (s : State) (ha : ∀ v ∈ args, D.value s.heap v) :
    Eval.Leads host D k s (argument evaluate f supplied p args) D.value := by
  unfold argument
  split
  · exact .pure (ha _ List.mem_cons_self)
  · split
    · exact he k _ s
    · exact .throw rfl

/-- **Binding the parameters declares their names** and nothing else in the frame of the call. -/
theorem bindParams_leads (he : Evaluates host D evaluate) (f : Func) (supplied : Nat)
    (params : List Param) (args : List Value) (s : State) (hp : ∀ p ∈ params, k.declares p.name)
    (ha : ∀ v ∈ args, D.value s.heap v) :
    Eval.Leads host D k s (bindParams evaluate f supplied params args) fun _ _ => True := by
  induction params generalizing args s with
  | nil => exact .pure trivial
  | cons p ps ih =>
    refine (argument_leads he f supplied p args s ha).bind fun t v hk hv => ?_
    refine (Eval.Leads.declare (hp p List.mem_cons_self) hv).bind fun u _ hk' _ => ?_
    -- a default may have made objects, and conversion too; the arguments have stayed good
    refine ih args.tail u (fun q hq => hp q (List.mem_cons_of_mem p hq)) fun w hw => ?_
    exact hk' w (hk w (ha w (List.mem_of_mem_tail hw)))

/-- The result of a call is what was returned, converted, or `nil`, converted. -/
theorem callResult_leads {Q : Heap → Value → Prop} (f : Func) (signal : Signal) (s : State)
    (hreturn : ∀ v, D.value s.heap v → Eval.Leads host D k s (ofAlloc (f.returns.coerce v)) Q)
    (hsignal : signal.All (D.value s.heap)) :
    Eval.Leads host D k s (callResult f signal) Q := by
  unfold callResult
  split
  · exact hreturn _ hsignal
  · exact .throw rfl
  · exact .throw rfl
  · exact .throw rfl

/-- The names that the frame of a call takes. -/
def callNames (f : Func) : List String := f.params.map (·.name) ++ Block.declared f.body

/-- The frame of a call takes the names of the parameters and of the declarations in the body. -/
theorem callBody_leads {Q : Heap → Value → Prop} (he : Evaluates host D evaluate)
    (hx : Executes host D execute) (f : Func)
    (hreturn : ∀ k v s, D.value s.heap v →
      Eval.Leads host D k s (ofAlloc (f.returns.coerce v)) Q)
    (args : List Value) (s : State) (ha : ∀ v ∈ args, D.value s.heap v) :
    Eval.Leads host D (.frame (callNames f)) s (callBody evaluate execute f args) Q := by
  have hparams : ∀ p ∈ f.params, (Licence.frame (callNames f)).declares p.name := fun p hp =>
    List.mem_append_left _ (List.mem_map_of_mem hp)
  have hbody : ∀ name ∈ Block.declared f.body, name ∈ callNames f := fun name hname =>
    List.mem_append_right _ hname
  refine (bindParams_leads he f args.length f.params args s hparams ha).bind fun t _ _ _ => ?_
  refine (Eval.Leads.lift (hx _ f.body t hbody)).bind fun u signal _ hsignal => ?_
  exact callResult_leads f signal u (fun v => hreturn _ v u) hsignal

/-- That one more call may be opened is known to what runs in it. -/
theorem admitsCall_outcome (depth : Nat) (h : Heap) :
    D.Outcome (fun _ _ => host.admitsCall depth = .ok ()) h (host.admitsCall depth) := by
  cases hr : host.admitsCall depth with
  | ok _ => rfl
  | error e =>
    unfold Host.admitsCall at hr
    split at hr
    · cases hr
    · split at hr
      · cases hr
        exact D.recoverable rfl
      · cases hr

/-- A call takes allowed steps, and its result has every property that conversion to the type of the
    function's result gives. -/
theorem callFunction_leads {Q : Heap → Value → Prop} (he : Evaluates host D evaluate)
    (hx : Executes host D execute) (f : Func)
    (hreturn : ∀ k v s, D.value s.heap v →
      Eval.Leads host D k s (ofAlloc (f.returns.coerce v)) Q)
    (args : List Expr) (s : State) :
    Eval.Leads host D k s (callFunction host evaluate execute f args) Q := by
  unfold callFunction
  split
  · refine .get fun _ => ?_
    refine (Eval.Leads.ofExcept (admitsCall_outcome s.callDepth s.heap)).bind_effect
      fun t _ ht _ hadmits => ?_
    refine (values_leads he args t).bind_effect fun u vs hu _ hvs => ?_
    -- the arguments may make calls of their own, but have closed them again
    have hdepth : u.callDepth = s.callDepth := by rw [hu.callDepth_eq, ht.callDepth_eq]
    exact .inCall (by rw [hdepth]; exact hadmits) (callBody_leads he hx f hreturn vs u.openCall hvs)
  · exact (Eval.Leads.throw (Q := fun _ _ => False) rfl).bind fun _ _ _ h => h.elim

/-- A tool takes good values and gives a good one, as the host obeys. -/
theorem callTool_leads (name : String) (args : List Value) (s : State)
    (ha : ∀ v ∈ args, D.value s.heap v) :
    Eval.Leads host D k s (callTool host name args) D.value := by
  refine .get fun hs => ?_
  obtain ⟨hc, hr⟩ := hs.host.tools name args s.heap (fun _ hv => hv) hs.heap ha
  -- what a tool did to the heap stays also when it fails
  rcases hcall : host.tools.call name args s.heap with ⟨result, heap⟩
  rw [hcall] at hc hr
  intro _ r t hrun
  cases result with
  | ok v =>
    cases hrun
    exact ⟨.heap hc, hr⟩
  | error e =>
    cases hrun
    exact ⟨.heap hc, hr⟩

/-- A call by name is one of a function or one of a tool. -/
theorem call_leads (he : Evaluates host D evaluate) (hx : Executes host D execute) (name : String)
    (args : List Expr) (s : State) :
    Eval.Leads host D k s (call host evaluate execute name args) D.value := by
  refine (callee_leads name s).bind fun t c _ _ => ?_
  split
  · rename_i f
    refine callFunction_leads he hx f (fun k v s hv => .ofAlloc fun hs => ?_) args t
    exact (Ty.coerce_obeys f.returns v hs.heap hv).imp fun _ _ hw => hw.1
  · exact (values_leads he args t).bind fun u vs _ hvs => callTool_leads name vs u hvs

/-! ## §5. Chains -/

/-- **A chain takes allowed steps**, and what it comes to, if it comes to anything, is good. -/
theorem chain_leads (he : Evaluates host D evaluate) (e : Expr) (s : State) :
    Eval.Leads host D k s (chain evaluate e) fun h r => ∀ v, r = some v → D.value h v := by
  fun_induction chain evaluate e generalizing s with
  | case1 target index ih =>
    refine (ih s).bind fun t link _ hlink => ?_
    split
    -- the chain has been cut off further down, and the index is not looked at
    · exact .pure nofun
    · rename_i target
      refine (he k index t).bind fun u i hk hi => ?_
      refine .get fun hs => ?_
      -- the target is still good after the index has been evaluated
      have htarget : D.value u.heap target := hk target (hlink target rfl)
      refine (Eval.Leads.ofExcept (Heap.index_good hs.heap target i htarget)).bind
        fun _ v _ hv => ?_
      exact .pure fun w hw => Option.some.inj hw ▸ hv
  | case2 target name optional ih =>
    refine (ih s).bind fun t link _ _ => ?_
    split
    · exact .pure nofun
    · rename_i target _
      refine .get fun hs => ?_
      refine (Eval.Leads.ofExcept (Heap.member_good hs.heap target name)).bind fun _ v _ hv => ?_
      exact .pure fun w hw => Option.some.inj hw ▸ hv
  | case3 target name args optional ih =>
    refine (ih s).bind fun t link _ _ => ?_
    split
    · exact .pure nofun
    · rename_i target _
      refine (values_leads he args t).bind fun u vs _ hvs => ?_
      refine (Eval.Leads.ofAlloc fun hs => Heap.callMethod_obeys hs.heap target name hvs).bind
        fun _ v _ hv => ?_
      exact .pure fun w hw => Option.some.inj hw ▸ hv
  | case4 e =>
    -- no link: the chain starts here
    refine (he k e s).bind fun t v _ hv => ?_
    exact .pure fun w hw => Option.some.inj hw ▸ hv

/-! ## §6. One expression -/

/-- **An expression takes allowed steps if its parts do.** -/
theorem expression_leads (he : Evaluates host D evaluate) (hx : Executes host D execute) :
    Evaluates host D (expression host evaluate execute) := by
  intro k e s
  cases e with
  -- no literal refers to anything on the heap
  | nil | bool | int | double | string => exact .pure (D.plain s.heap rfl)
  | var name => exact variableValue_leads name s
  | binary op left right =>
    refine (he k left s).bind fun t a _ ha => ?_
    split
    -- the left operand has settled it
    · exact .pure ha
    · refine (he k right t).bind fun u b _ _ => ?_
      exact .ofExcept ((op.apply_plain a b).outcome u.heap)
  | unary op operand =>
    refine (he k operand s).bind fun t a _ _ => ?_
    exact .ofExcept ((op.apply_plain a).outcome t.heap)
  | call name args => exact call_leads he hx name args s
  | array items =>
    refine (values_leads he items s).bind fun t vs _ hvs => ?_
    -- a new array holds the values of its items, which are good by now
    have hitems : ∀ v ∈ vs.toArray, D.value t.heap v := fun v hv => hvs v (List.mem_toArray.mp hv)
    exact .ofAlloc fun hs => .make (.newArray hs.heap hitems) (D.array (by simp [Heap.newArray]))
  | dict pairs =>
    refine (entries_leads he pairs .empty s .empty).bind fun t table _ ht => ?_
    exact .ofAlloc fun hs => .make (.newDict hs.heap ht) (D.dict (by simp [Heap.newDict]))
  | range first last inclusive =>
    refine (rangeEnds_leads he first last s).bind fun t ends _ _ => ?_
    exact .ofAlloc fun hs => Progression.toArray_obeys hs.heap _ _ _
  | index | member | method =>
    exact (chain_leads he _ s).bind fun t r _ hr => .pure (D.getD_nil hr)

/-! ## §7. Inner blocks and loops -/

theorem innerBlock_leads (hx : Executes host D execute) (hk : k.executes) (body : List Stmt)
    (s : State) :
    Run.Leads host D k s (innerBlock execute body) fun h => Signal.All (D.value h) :=
  .inFrame (hx (Block.declared body) body _ fun _ hname => hname) fun _ he => .block _ hk he

/-- What ends a loop is the end of the loop, or a return that was made in a round. -/
theorem afterRound_all {P : Value → Prop} {signal result : Signal} (hsignal : signal.All P)
    (h : afterRound signal = some result) : result.All P := by
  unfold afterRound at h
  split at h
  · cases h
  · cases h
  · cases h
    trivial
  · cases h
    exact hsignal

/-- A `while`, by induction on the rounds that are left; condition and body may do the same in each.
    -/
theorem whileLoop_leads {condition : Eval Value} {body : Run Signal}
    (hc : ∀ s, Eval.Leads host D k s condition D.value)
    (hb : ∀ s, Run.Leads host D k s body fun h => Signal.All (D.value h)) (rounds : Nat)
    (s : State) :
    Eval.Leads host D k s (whileLoop condition body rounds) fun h => Signal.All (D.value h) := by
  -- on the rounds that are left: each starts in the state that the one before it has reached
  induction rounds generalizing s with
  | zero => exact .outOfFuel
  | succ rounds ih =>
    refine (hc s).bind fun t v _ _ => ?_
    split
    · refine (Eval.Leads.lift (hb t)).bind fun u signal _ hsignal => ?_
      split
      · rename_i result hresult
        exact .pure (afterRound_all hsignal hresult)
      · exact ih u
    · exact .pure trivial

/-- A round for each value; those that have not been visited yet stay good meanwhile. -/
theorem overValues_leads {round : Value → Eval Signal}
    (hr : ∀ v s, D.value s.heap v →
      Eval.Leads host D k s (round v) fun h => Signal.All (D.value h))
    (items : List Value) (s : State) (hi : ∀ v ∈ items, D.value s.heap v) :
    Eval.Leads host D k s (overValues round items) fun h => Signal.All (D.value h) := by
  induction items generalizing s with
  | nil => exact .pure trivial
  | cons v rest ih =>
    refine (hr v s (hi v List.mem_cons_self)).bind fun t signal hk hsignal => ?_
    split
    · rename_i result hresult
      exact .pure (afterRound_all hsignal hresult)
    · exact ih t fun w hw => hk w (hi w (List.mem_cons_of_mem v hw))

/-- Integers are good on every heap, so there is nothing to keep. -/
theorem overInts_leads {round : Value → Eval Signal}
    (hr : ∀ v s, D.value s.heap v →
      Eval.Leads host D k s (round v) fun h => Signal.All (D.value h))
    (run : Progression) (i left : Nat) (s : State) :
    Eval.Leads host D k s (overInts round run i left) fun h => Signal.All (D.value h) := by
  induction left generalizing i s with
  | zero => exact .pure trivial
  | succ left ih =>
    refine (hr (run.item i) s (D.plain s.heap rfl)).bind fun t signal _ hsignal => ?_
    split
    · rename_i result hresult
      exact .pure (afterRound_all hsignal hresult)
    · exact ih (i + 1) t

/-- What is visited are integers, or values that were good where they lay. -/
theorem sequenceOf_leads (v : Value) (s : State) :
    Eval.Leads host D k s (sequenceOf v) fun h items => items.All (D.value h) := by
  unfold sequenceOf
  split
  · refine .get fun hs => .pure ?_
    intro w hw
    exact hs.heap.items _ w (Array.mem_toList_iff.mp hw)
  · refine .get fun hs => .pure ?_
    intro w hw
    obtain ⟨key, -, rfl⟩ := List.mem_map.mp hw
    exact D.plain s.heap rfl
  · exact .throw rfl

theorem visited_leads (he : Evaluates host D evaluate) (iterable : Expr) (s : State) :
    Eval.Leads host D k s (visited evaluate iterable) fun h items => items.All (D.value h) := by
  unfold visited
  split
  · exact (rangeEnds_leads he _ _ s).bind fun _ _ _ _ => .pure trivial
  · rename_i name args
    refine .get fun _ => ?_
    split
    · refine (values_leads he args s).bind fun t vs _ _ => ?_
      refine (Eval.Leads.ofExcept (Builtin.rangeBounds_outcome vs t.heap)).bind fun _ _ _ _ => ?_
      exact .pure trivial
    · exact (he k _ s).bind fun t v _ _ => sequenceOf_leads v t
  · exact (he k _ s).bind fun t v _ _ => sequenceOf_leads v t

/-- The loop variable is assigned to if it existed before, and is bound in the loop's own frame if
    not. -/
theorem setItem_leads {reuse : Bool} {name : String} {v : Value} (hk : k.executes)
    (hname : reuse = false → k.rebinds name) (hv : D.value s.heap v) :
    Eval.Leads host D k s (setItem reuse name v) fun _ _ => True := by
  unfold setItem
  split
  · exact .assign hk hv
  · rename_i hreuse
    exact .modify (.rebind (hname (by simpa using hreuse)) hv)

theorem forRound_leads (hx : Executes host D execute) {reuse : Bool} {name : String}
    (hk : k.executes) (hname : reuse = false → k.rebinds name) (body : List Stmt) (v : Value)
    (s : State) (hv : D.value s.heap v) :
    Eval.Leads host D k s (forRound execute reuse name body v) fun h => Signal.All (D.value h) :=
  (setItem_leads hk hname hv).bind fun t _ _ _ => .lift (innerBlock_leads hx hk body t)

theorem overSequence_leads {round : Value → Eval Signal}
    (hr : ∀ v s, D.value s.heap v →
      Eval.Leads host D k s (round v) fun h => Signal.All (D.value h))
    (items : Sequence) (s : State) (hi : items.All (D.value s.heap)) :
    Eval.Leads host D k s (overSequence round items) fun h => Signal.All (D.value h) := by
  cases items with
  | ints run => exact overInts_leads hr run 0 run.count s
  | values items => exact overValues_leads hr items s hi

/-- A `for` without a variable at hand opens a frame for it, in which no name but the variable's may
    be bound. -/
theorem forIn_leads (he : Evaluates host D evaluate) (hx : Executes host D execute)
    (hk : k.executes) (name : String) (iterable : Expr) (body : List Stmt) (s : State) :
    Eval.Leads host D k s (forIn evaluate execute name iterable body)
      fun h => Signal.All (D.value h) := by
  refine (visited_leads he iterable s).bind fun t items _ hitems => ?_
  refine .get fun _ => ?_
  dsimp only
  split
  · -- the variable is visible already: it is assigned, and no frame is opened
    rename_i hreuse
    exact overSequence_leads (fun v u => forRound_leads hx hk (by simp [hreuse]) body v u) items t
      hitems
  · -- the variable is bound in the loop's own frame
    have hround : ∀ v u, D.value u.heap v →
        Eval.Leads host D (.rounds name) u
          (forRound execute (t.scopes.isBound name) name body v) fun h => Signal.All (D.value h) :=
      fun v u => forRound_leads hx trivial (fun _ => rfl) body v u
    exact .inFrame (overSequence_leads hround items (t.openFrame .block) hitems)
      fun _ he => .loop name hk he

/-! ## §8. One statement -/

/-- A function is defined under a name that has none yet, or refused. -/
theorem define_leads (hk : k.executes) (f : Func) (s : State) :
    Eval.Leads host D k s (define f) fun _ _ => True := by
  refine .get fun _ => ?_
  split
  · exact (Eval.Leads.throw (Q := fun _ _ => False) rfl).bind fun _ _ _ h => h.elim
  · rename_i hnew
    exact .modify (.define f hk (by simpa using hnew))

theorem announce_leads (hk : k.executes) (st : Stmt) (s : State) :
    Run.Leads host D k s (announce host st) fun _ _ => True := by
  unfold announce
  split
  · rename_i htrace
    exact .modify (.trace st.kind hk htrace)
  · exact .pure trivial

/-- **A statement takes allowed steps if its parts do.** -/
theorem effect_leads (he : Evaluates host D evaluate) (hx : Executes host D execute)
    (hk : k.executes) (rounds : Nat) (st : Stmt) (s : State)
    (hdeclared : ∀ name, st.declared? = some name → k.declares name) :
    Eval.Leads host D k s (effect evaluate execute rounds st)
      fun h => Signal.All (D.value h) := by
  cases st with
  -- declarations need the licence for their name
  | declare name type value constant =>
    refine (he k value s).bind fun t v _ hv => ?_
    exact (Eval.Leads.declare (hdeclared name rfl) hv).bind fun _ _ _ _ => .pure trivial
  | assign name value =>
    refine (he k value s).bind fun t v _ hv => ?_
    exact (Eval.Leads.assign hk hv).bind fun _ _ _ _ => .pure trivial
  -- stores: the value goes into the heap, which stays good with it
  | storeIndex target index value =>
    refine (he k target s).bind fun t target _ _ => ?_
    refine (he k index t).bind fun u index _ _ => ?_
    refine (he k value u).bind fun u' v _ hv => ?_
    refine (Eval.Leads.changeHeap fun hs => ?_).bind fun _ _ _ _ => .pure trivial
    exact Heap.storeIndex_good hs.heap hv target index
  | storeMember target name value =>
    refine (he k target s).bind fun t target _ _ => ?_
    refine (he k value t).bind fun u v _ hv => ?_
    refine (Eval.Leads.changeHeap fun hs => ?_).bind fun _ _ _ _ => .pure trivial
    exact Heap.storeMember_good hs.heap hv target name
  | print value =>
    refine (he k value s).bind fun t v _ _ => .get fun _ => ?_
    exact (Eval.Leads.lift (.modify (.print _ hk))).bind fun _ _ _ _ => .pure trivial
  | expr value => exact (he k value s).bind fun _ _ _ _ => .pure trivial
  -- branches and loops execute their blocks in frames of their own
  | ifThen condition body =>
    refine (he k condition s).bind fun t v _ _ => ?_
    split
    · exact .lift (innerBlock_leads hx hk body t)
    · exact .pure trivial
  | ifElse condition body otherwise =>
    refine (he k condition s).bind fun t v _ _ => ?_
    split
    · exact .lift (innerBlock_leads hx hk body t)
    · exact .lift (innerBlock_leads hx hk otherwise t)
  | loop condition body =>
    exact whileLoop_leads (he k condition) (innerBlock_leads hx hk body) rounds s
  | forIn name iterable body => exact forIn_leads he hx hk name iterable body s
  | brk | cont => exact .pure trivial
  | func name params returns body =>
    exact (define_leads hk _ s).bind fun _ _ _ _ => .pure trivial
  -- and a returned value leaves with its signal
  | ret value => exact (he k value s).bind fun _ _ _ hv => .pure hv

theorem statement_leads (he : Evaluates host D evaluate) (hx : Executes host D execute)
    (hk : k.executes) (rounds : Nat) (st : Stmt) (s : State)
    (hdeclared : ∀ name, st.declared? = some name → k.declares name) :
    Eval.Leads host D k s (statement host evaluate execute rounds st)
      fun h => Signal.All (D.value h) :=
  (Eval.Leads.lift (announce_leads hk st s)).bind fun t _ _ _ =>
    effect_leads he hx hk rounds st t hdeclared

/-! ## §9. Blocks and runs -/

/-- A report of an error is allowed if the error is. -/
theorem report_leads (hk : k.executes) {e : Error} (he : D.error e) (s : State) :
    Run.Leads host D k s (Run.report e) fun _ _ => True := by
  intro _ a t hrun
  cases hrun
  exact ⟨.report hk he, trivial⟩

/-- **A list of statements takes allowed steps if each statement does.** -/
theorem block_leads {stmt : Stmt → Eval Signal} (hk : k.executes) (body : List Stmt)
    (hbody : ∀ st ∈ body, ∀ s, Eval.Leads host D k s (stmt st) fun h => Signal.All (D.value h))
    (s : State) : Run.Leads host D k s (block stmt body) fun h => Signal.All (D.value h) := by
  induction body generalizing s with
  | nil => exact .pure trivial
  | cons st rest ih =>
    have hrest := ih fun st hst => hbody st (List.mem_cons_of_mem _ hst)
    refine Run.Leads.bind (hbody st List.mem_cons_self s) fun t r _ hr => ?_
    split
    · exact hrest t
    · exact .pure hr
    · -- a statement that fails is reported, and the next one is executed all the same
      exact (report_leads hk hr t).bind fun u _ _ _ => hrest u

end Eval

/-- With any fuel, evaluation and execution take allowed steps. -/
theorem run_leads (host : Host) (D : Discipline) (fuel : Nat) :
    Eval.Evaluates host D (Expr.eval host fuel) ∧ Eval.Executes host D (Block.exec host fuel) := by
  induction fuel with
  | zero =>
    exact ⟨fun _ _ _ => Eval.Leads.outOfFuel, fun _ _ _ _ => Run.Leads.outOfFuel⟩
  | succ fuel ih =>
    -- all parts are evaluated and executed with the fuel below
    obtain ⟨he, hx⟩ := ih
    refine ⟨Eval.expression_leads he hx, ?_⟩
    intro names body s hnames
    refine Eval.block_leads trivial body (fun st hst s => ?_) s
    refine Eval.statement_leads he hx trivial fuel st s fun name hname => hnames name ?_
    exact List.mem_filterMap.mpr ⟨st, hst, hname⟩

/-- **Evaluating an expression takes only the steps of expressions.** -/
theorem Expr.eval_effect {host : Host} {D : Discipline} {fuel : Nat} {e : Expr} {s t : State}
    {r : Except Error Value} (hs : s.Sound host D) (h : Expr.eval host fuel e s = some (r, t)) :
    Effect host D .expression s t ∧ D.Outcome D.value t.heap r :=
  (run_leads host D fuel).1 .expression e s hs r t h

/-- **Executing statements declares at most the names that stand directly among them.** -/
theorem Block.exec_effect {host : Host} {D : Discipline} {fuel : Nat} {body : List Stmt}
    {s t : State} {signal : Signal} (hs : s.Sound host D)
    (h : Block.exec host fuel body s = some (signal, t)) :
    Effect host D (.frame (Block.declared body)) s t ∧ signal.All (D.value t.heap) :=
  (run_leads host D fuel).2 _ body s (fun _ hname => hname) hs signal t h

end Scriptlet
