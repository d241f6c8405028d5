/-
  Scriptlet.Proofs.Termination — a limit on the depth of calls makes every run without `while` end.

  A run with fuel is a family of computations, one for each amount; it ends if all large enough
  amounts come to one and the same outcome.  `Run.Ends` and `Eval.Ends` say so together with what the
  run keeps up: no function that it can reach has a `while`, and only so many more calls may be
  opened (`State.Limited`).  The argument is lexicographic: an outer induction on the calls that may
  still be opened, inside it one on the syntax, and inside that one on the items that a loop has
  still to visit, which are fixed before its first round.

  Main results:
    * `Expr.eval_ends` and `Block.exec_ends` — expressions, and statements without `while`.
    * `limited_programs_end` — programs.
-/
import Scriptlet.Proofs.Evaluation
import Scriptlet.Proofs.Syntax

namespace Scriptlet

/-! ## §1. Programs without `while` -/

mutual

/-- Whether no `while` stands in the statement, the bodies of functions included. -/
def Stmt.loopFree : Stmt → Bool
  | .loop _ _ => false
  | .ifThen _ body => Block.loopFree body
  | .ifElse _ body otherwise => Block.loopFree body && Block.loopFree otherwise
  | .forIn _ _ body => Block.loopFree body
  | .func _ _ _ body => Block.loopFree body
  | _ => true

/-- Whether no `while` stands in the statements. -/
def Block.loopFree : List Stmt → Bool
  | [] => true
  | st :: rest => st.loopFree && Block.loopFree rest

end

/-- What holds of all statements holds of each. -/
theorem Block.loopFree_mem {body : List Stmt} (h : Block.loopFree body = true) {st : Stmt}
    (hst : st ∈ body) : st.loopFree = true := by
  induction body with
  | nil => cases hst
  | cons first rest ih =>
    rw [Block.loopFree, Bool.and_eq_true] at h
    rcases List.mem_cons.mp hst with rfl | hst
    · exact h.1
    · exact ih h.2 hst

/-- The blocks of a statement have no `while` if the statement has none. -/
theorem Stmt.loopFree_block {st : Stmt} (h : st.loopFree = true) {body : List Stmt}
    (hbody : body ∈ st.blocks) : Block.loopFree body = true := by
  cases st with
  | loop condition body => cases h
  | ifElse condition body otherwise =>
    rw [Stmt.loopFree, Bool.and_eq_true] at h
    simp only [Stmt.blocks, List.mem_cons, List.not_mem_nil, or_false] at hbody
    rcases hbody with rfl | rfl
    · exact h.1
    · exact h.2
  | ifThen | forIn | func =>
    obtain rfl := List.mem_singleton.mp hbody
    exact h
  | _ => cases hbody

/-! ## §2. Families of computations that end -/

/-- What a run with a limit on the depth of calls keeps up: the functions of the script have no
    `while`, and at most so many more calls may be opened. -/
structure State.Limited (limit levels : Nat) (s : State) : Prop where
  functions : ∀ name f, s.functions.get? name = some f → Block.loopFree f.body = true
  depth : limit ≤ s.callDepth + levels

variable {α β : Type} {host : Host} {limit levels : Nat} {s : State}

/-- The limits are about the functions and the open calls only. -/
theorem State.Limited.congr {t : State} (h : s.Limited limit levels)
    (hfunctions : t.functions = s.functions) (hdepth : t.callDepth = s.callDepth) :
    t.Limited limit levels :=
  ⟨hfunctions ▸ h.functions, hdepth ▸ h.depth⟩

/-- A call that is opened is one less to be opened. -/
theorem State.Limited.openCall (h : s.Limited limit (levels + 1)) :
    s.openCall.Limited limit levels := by
  refine ⟨h.functions, ?_⟩
  have hdepth := h.depth
  show limit ≤ s.callDepth + 1 + levels
  omega

/-- A call that is closed can be opened again. -/
theorem State.Limited.closeCall (h : s.Limited limit levels) :
    s.closeCall.Limited limit (levels + 1) := by
  refine ⟨h.functions, ?_⟩
  have hdepth := h.depth
  show limit ≤ s.callDepth - 1 + (levels + 1)
  omega

/-- A function without `while` may be registered. -/
theorem State.Limited.define (h : s.Limited limit levels) {f : Func}
    (hf : Block.loopFree f.body = true) :
    State.Limited limit levels { s with functions := s.functions.set f.name f } := by
  refine ⟨fun name g hg => ?_, h.depth⟩
  rw [OrderedMap.get?_set] at hg
  split at hg
  · cases hg
    exact hf
  · exact h.functions name g hg

/-- With enough fuel the computation has an outcome, which more fuel does not change; it is as asked,
    and the limits are kept up. -/
def Run.Ends (limit levels : Nat) (s : State) (x : Nat → Run α) (Q : α → Prop) : Prop :=
  s.Limited limit levels →
    ∃ n a t, (∀ fuel, n ≤ fuel → x fuel s = some (a, t)) ∧ t.Limited limit levels ∧ Q a

namespace Run.Ends

variable {x : Nat → Run α} {Q : α → Prop}

/-- A single step, which takes no fuel. -/
theorem step {x : Run α} {a : α} {t : State} (hrun : x s = some (a, t))
    (ht : s.Limited limit levels → t.Limited limit levels) (hq : Q a) :
    Run.Ends limit levels s (fun _ => x) Q :=
  fun hs => ⟨0, a, t, fun _ _ => hrun, ht hs, hq⟩

theorem pure {a : α} (hq : Q a) : Run.Ends limit levels s (fun _ => pure a) Q :=
  .step rfl id hq

/-- One computation after the other: the larger amount is enough for both. -/
theorem bind {f : Nat → α → Run β} {R : β → Prop} (hx : Run.Ends limit levels s x Q)
    (hf : ∀ a t, Q a → Run.Ends limit levels t (fun n => f n a) R) :
    Run.Ends limit levels s (fun n => x n >>= f n) R := by
  intro hs
  obtain ⟨n, a, t, hfirst, ht, hq⟩ := hx hs
  obtain ⟨m, b, u, hrest, hu, hr⟩ := hf a t hq ht
  refine ⟨max n m, b, u, fun fuel hle => ?_, hu, hr⟩
  show (x fuel s).bind (fun p => f fuel p.1 p.2) = some (b, u)
  rw [hfirst fuel (by omega)]
  exact hrest fuel (by omega)

/-- A unit of fuel to go one level down. -/
theorem descend {y : Nat → Run α} (h : ∀ n, x (n + 1) = y n) (hy : Run.Ends limit levels s y Q) :
    Run.Ends limit levels s x Q := by
  intro hs
  obtain ⟨n, a, t, hrun, hrest⟩ := hy hs
  refine ⟨n + 1, a, t, fun fuel hle => ?_, hrest⟩
  obtain ⟨m, rfl⟩ : ∃ m, fuel = m + 1 := ⟨fuel - 1, by omega⟩
  rw [h]
  exact hrun m (by omega)

/-- The frames have no part in the limits. -/
theorem inFrame {kind : FrameKind} (hx : Run.Ends limit levels (s.openFrame kind) x Q) :
    Run.Ends limit levels s (fun n => Run.inFrame kind (x n)) Q := by
  intro hs
  obtain ⟨n, a, t, hrun, ht, hq⟩ := hx ⟨hs.functions, hs.depth⟩
  refine ⟨n, a, t.closeFrame, fun fuel hle => ?_, ⟨ht.functions, ht.depth⟩, hq⟩
  refine (Run.inFrame_run kind (x fuel) s).trans ?_
  rw [hrun fuel hle]
  rfl

/-- A call uses up one of the calls that may be opened. -/
theorem inCall (hx : Run.Ends limit levels s.openCall x Q) :
    Run.Ends limit (levels + 1) s (fun n => Run.inCall (x n)) Q := by
  intro hs
  obtain ⟨n, a, t, hrun, ht, hq⟩ := hx hs.openCall
  refine ⟨n, a, t.closeCall, fun fuel hle => ?_, ht.closeCall, hq⟩
  refine (Run.inCall_run (x fuel) s).trans ?_
  rw [hrun fuel hle]
  rfl

end Run.Ends

/-- With enough fuel the computation has a result or an error, which more fuel does not change; a
    result is as asked, and the limits are kept up. -/
def Eval.Ends (limit levels : Nat) (s : State) (x : Nat → Eval α) (Q : α → Prop) : Prop :=
  Run.Ends limit levels s (fun n => (x n).run) fun r => ∀ a, r = .ok a → Q a

namespace Eval.Ends

variable {x : Nat → Eval α} {Q : α → Prop}

/-- A single step that leaves the functions and the open calls alone. -/
theorem step {x : Eval α} {r : Except Error α} {t : State} (hrun : x.run s = some (r, t))
    (hfunctions : t.functions = s.functions) (hdepth : t.callDepth = s.callDepth)
    (hq : ∀ a, r = .ok a → Q a) : Eval.Ends limit levels s (fun _ => x) Q :=
  Run.Ends.step hrun (fun hs => hs.congr hfunctions hdepth) hq

theorem pure {a : α} (hq : Q a) : Eval.Ends limit levels s (fun _ => pure a) Q :=
  .step rfl rfl rfl fun _ h => Except.ok.inj h ▸ hq

/-- An error is an end. -/
theorem throw {e : Error} : Eval.Ends limit levels s (fun _ => throw e) Q :=
  .step rfl rfl rfl nofun

/-- An error skips what follows. -/
theorem fail {e : Error} {f : Nat → α → Eval β} {R : β → Prop} :
    Eval.Ends limit levels s (fun n => MonadExcept.throw e >>= f n) R :=
  fun hs => ⟨0, .error e, s, fun _ _ => rfl, hs, nofun⟩

theorem lift {x : Nat → Run α} (hx : Run.Ends limit levels s x Q) :
    Eval.Ends limit levels s (fun n => (liftM (x n) : Eval α)) Q := by
  intro hs
  obtain ⟨n, a, t, hrun, ht, hq⟩ := hx hs
  refine ⟨n, .ok a, t, fun fuel hle => ?_, ht, fun b hb => Except.ok.inj hb ▸ hq⟩
  show (x fuel s).bind (fun p => some (Except.ok p.1, p.2)) = _
  rw [hrun fuel hle]
  rfl

/-- An error of the first computation skips the second. -/
theorem bind {f : Nat → α → Eval β} {R : β → Prop} (hx : Eval.Ends limit levels s x Q)
    (hf : ∀ a t, Q a → Eval.Ends limit levels t (fun n => f n a) R) :
    Eval.Ends limit levels s (fun n => x n >>= f n) R := by
  refine Run.Ends.bind (f := fun n => ExceptT.bindCont (f n)) hx fun r t hr => ?_
  cases r with
  | ok a => exact hf a t (hr a rfl)
  | error e => exact Run.Ends.pure nofun

/-- Reading the state, in which the limits hold. -/
theorem get {f : Nat → State → Eval β} {R : β → Prop}
    (hf : s.Limited limit levels → Eval.Ends limit levels s (fun n => f n s) R) :
    Eval.Ends limit levels s (fun n => MonadState.get >>= f n) R :=
  fun hs => hf hs hs

theorem ofExcept {r : Except Error α} (hq : ∀ a, r = .ok a → Q a) :
    Eval.Ends limit levels s (fun _ => Eval.ofExcept r) Q := by
  cases r with
  | ok a => exact .pure (hq a rfl)
  | error e => exact .throw

/-- A computation on the heap takes no fuel. -/
theorem ofAlloc (x : Alloc α) : Eval.Ends limit levels s (fun _ => Eval.ofAlloc x) fun _ => True := by
  unfold Eval.ofAlloc
  refine .get fun _ => ?_
  cases x s.heap with
  | ok p => exact .step rfl rfl rfl fun _ _ => trivial
  | error e => exact .fail

theorem changeHeap (f : Heap → Except Error Heap) :
    Eval.Ends limit levels s (fun _ => Eval.changeHeap f) fun _ => True := by
  unfold Eval.changeHeap
  refine .get fun _ => ?_
  cases f s.heap with
  | ok h => exact .step rfl rfl rfl fun _ _ => trivial
  | error e => exact .fail

/-- Nor does a change of the bindings. -/
theorem changeScopes (f : Scopes → Alloc Scopes) :
    Eval.Ends limit levels s (fun _ => Eval.changeScopes f) fun _ => True := by
  have hrun := Eval.changeScopes_run f s
  cases hf : f s.scopes s.heap with
  | ok p =>
    rw [hf] at hrun
    exact .step hrun rfl rfl fun _ _ => trivial
  | error e =>
    rw [hf] at hrun
    exact .step hrun rfl rfl fun _ _ => trivial

theorem inFrame {kind : FrameKind} (hx : Eval.Ends limit levels (s.openFrame kind) x Q) :
    Eval.Ends limit levels s (fun n => Eval.inFrame kind (x n)) Q :=
  Run.Ends.inFrame hx

theorem inCall (hx : Eval.Ends limit levels s.openCall x Q) :
    Eval.Ends limit (levels + 1) s (fun n => Eval.inCall (x n)) Q :=
  Run.Ends.inCall hx

end Eval.Ends

/-! ## §3. Expressions -/

namespace Eval

variable {evaluate : Nat → Evaluate} {execute : Nat → Execute}

/-- The expression can be evaluated to an end from every state with these limits. -/
def EvaluateEnds (limit levels : Nat) (evaluate : Nat → Evaluate) (e : Expr) : Prop :=
  ∀ s, Eval.Ends limit levels s (fun n => evaluate n e) fun _ => True

/-- The statements can be executed to an end from every state with these limits. -/
def ExecuteEnds (limit levels : Nat) (execute : Nat → Execute) (body : List Stmt) : Prop :=
  ∀ s, Run.Ends limit levels s (fun n => execute n body) fun _ => True

/-- Several expressions end if each does. -/
theorem values_ends (es : List Expr) (he : ∀ e ∈ es, EvaluateEnds limit levels evaluate e)
    (s : State) : Eval.Ends limit levels s (fun n => values (evaluate n) es) fun _ => True := by
  induction es generalizing s with
  | nil => exact .pure trivial
  | cons e es ih =>
    refine .bind (he e List.mem_cons_self s) fun v t _ => ?_
    refine .bind (ih (fun e' h => he e' (List.mem_cons_of_mem e h)) t) fun vs u _ => ?_
    exact .pure trivial

/-- The keys and values of a dictionary. -/
theorem entries_ends (pairs : List (Expr × Expr)) (table : OrderedMap Value)
    (he : ∀ pair ∈ pairs, EvaluateEnds limit levels evaluate pair.1 ∧
      EvaluateEnds limit levels evaluate pair.2) (s : State) :
    Eval.Ends limit levels s (fun n => entries (evaluate n) table pairs) fun _ => True := by
  induction pairs generalizing table s with
  | nil => exact .pure trivial
  | cons pair rest ih =>
    obtain ⟨k, e⟩ := pair
    obtain ⟨hk, hv⟩ := he _ List.mem_cons_self
    refine .bind (hk s) fun v t _ => ?_
    -- a key is looked at without any fuel
    have hkey : Eval.Ends limit levels t (fun _ => key v) fun _ => True := by
      unfold key
      split
      · exact .pure trivial
      · exact .throw
    refine .bind hkey fun name t' _ => ?_
    refine .bind (hv t') fun w u _ => ?_
    exact ih (table.set name w) (fun pair h => he pair (List.mem_cons_of_mem _ h)) u

theorem rangeEnds_ends {first last : Expr} (hfirst : EvaluateEnds limit levels evaluate first)
    (hlast : EvaluateEnds limit levels evaluate last) (s : State) :
    Eval.Ends limit levels s (fun n => rangeEnds (evaluate n) first last) fun _ => True := by
  refine .bind (hfirst s) fun a t _ => ?_
  refine .bind (hlast t) fun b u _ => ?_
  refine .bind (.ofExcept fun _ _ => trivial) fun _ _ (_ : True) => ?_
  exact .bind (.ofExcept fun _ _ => trivial) fun _ _ (_ : True) => .pure trivial

theorem variableValue_ends (name : String) (s : State) :
    Eval.Ends limit levels s (fun _ => variableValue host name) fun _ => True := by
  unfold variableValue
  refine .get fun _ => ?_
  cases s.scopes.get? name with
  | some b => exact .pure trivial
  | none =>
    refine .bind (.ofExcept fun _ _ => trivial) fun symbol t (_ : True) => ?_
    split
    · exact .pure trivial
    · exact .throw
    · exact .throw

/-- The functions that modules export have no `while`. -/
def exportsLoopFree (host : Host) : Prop :=
  ∀ name f, host.resolver name = .ok (some (.function f)) → Block.loopFree f.body = true

/-- What a call of a name runs has no `while`. -/
theorem callee_ends (hexports : exportsLoopFree host) (name : String) (s : State) :
    Eval.Ends limit levels s (fun _ => callee host name)
      fun c => ∀ f, c = .function f → Block.loopFree f.body = true := by
  unfold callee
  refine .get fun hs => ?_
  -- the script's own functions hide tools, and tools what modules export
  cases hf : s.functions.get? name with
  | some f =>
    refine .pure fun g hg => ?_
    cases hg
    exact hs.functions name f hf
  | none =>
    dsimp only
    split
    · exact .pure nofun
    · have hresolved : Eval.Ends limit levels s (fun _ => Eval.ofExcept (host.resolver name))
          fun symbol => ∀ f, symbol = some (.function f) → Block.loopFree f.body = true := by
        refine .ofExcept fun symbol hsymbol f hf => hexports name f ?_
        rw [hsymbol, hf]
      refine .bind hresolved fun symbol t hsymbol => ?_
      split
      · refine .pure fun g hg => ?_
        cases hg
        exact hsymbol _ rfl
      · exact .throw
      · exact .throw

/-- The parameters end if their defaults do, whatever these are. -/
theorem bindParams_ends (he : ∀ e, EvaluateEnds limit levels evaluate e) (f : Func)
    (supplied : Nat) (params : List Param) (args : List Value) (s : State) :
    Eval.Ends limit levels s (fun n => bindParams (evaluate n) f supplied params args)
      fun _ => True := by
  induction params generalizing args s with
  | nil => exact .pure trivial
  | cons p ps ih =>
    -- an argument is there, or a default is evaluated, or there is an error
    have hargument : Eval.Ends limit levels s
        (fun n => argument (evaluate n) f supplied p args) fun _ => True := by
      unfold argument
      cases args with
      | cons v rest => exact .pure trivial
      | nil =>
        cases p.default with
        | some e => exact he e s
        | none => exact .throw
    refine .bind hargument fun v t _ => ?_
    refine .bind (.changeScopes _) fun _ u _ => ?_
    exact ih args.tail u

/-- The body of a call ends if it ends as a list of statements. -/
theorem callBody_ends (he : ∀ e, EvaluateEnds limit levels evaluate e) (f : Func)
    (hx : ExecuteEnds limit levels execute f.body) (args : List Value) (s : State) :
    Eval.Ends limit levels s (fun n => callBody (evaluate n) (execute n) f args) fun _ => True := by
  refine .bind (bindParams_ends he f args.length f.params args s) fun _ t _ => ?_
  refine .bind (.lift (hx t)) fun signal u _ => ?_
  cases signal with
  | ret v => exact .ofAlloc _
  | next | brk | cont => exact .throw

/-- Everything ends in a call that is opened from here. -/
def CallsEnd (limit levels : Nat) (evaluate : Nat → Evaluate) (execute : Nat → Execute) : Prop :=
  ∀ below, levels = below + 1 → (∀ e, EvaluateEnds limit below evaluate e) ∧
    ∀ body, Block.loopFree body = true → ExecuteEnds limit below execute body

/-- **A call ends**: it is refused, or what runs in it has one call less to open. -/
theorem callFunction_ends (hlimit : host.settings.maxCallDepth = some limit)
    (hcalls : CallsEnd limit levels evaluate execute) (f : Func)
    (hf : Block.loopFree f.body = true) (args : List Expr)
    (he : ∀ e ∈ args, EvaluateEnds limit levels evaluate e) (s : State) :
    Eval.Ends limit levels s (fun n => callFunction host (evaluate n) (execute n) f args)
      fun _ => True := by
  unfold callFunction
  split
  · refine .get fun hs => ?_
    unfold Host.admitsCall
    rw [hlimit]
    dsimp only
    split
    · exact .fail
    · -- a call is only opened while fewer are open than the limit, so a level is left
      obtain ⟨below, rfl⟩ : ∃ below, levels = below + 1 := by
        have hdepth := hs.depth
        exact ⟨levels - 1, by omega⟩
      obtain ⟨hevaluate, hexecute⟩ := hcalls below rfl
      refine .bind (.ofExcept fun _ _ => trivial) fun _ t (_ : True) => ?_
      refine .bind (values_ends args he t) fun vs u _ => ?_
      exact .inCall (callBody_ends hevaluate f (hexecute f.body hf) vs u.openCall)
  · exact .fail

/-- A tool takes no fuel. -/
theorem callTool_ends (name : String) (args : List Value) (s : State) :
    Eval.Ends limit levels s (fun _ => callTool host name args) fun _ => True := by
  unfold callTool
  refine .get fun _ => ?_
  rcases host.tools.call name args s.heap with ⟨result, heap⟩
  cases result with
  | ok v => exact .step rfl rfl rfl fun _ _ => trivial
  | error e => exact .step rfl rfl rfl fun _ _ => trivial

/-- What a name calls is a function without `while` or a tool. -/
theorem call_ends (hlimit : host.settings.maxCallDepth = some limit)
    (hexports : exportsLoopFree host) (hcalls : CallsEnd limit levels evaluate execute)
    (name : String) (args : List Expr) (he : ∀ e ∈ args, EvaluateEnds limit levels evaluate e)
    (s : State) :
    Eval.Ends limit levels s (fun n => call host (evaluate n) (execute n) name args)
      fun _ => True := by
  refine .bind (callee_ends hexports name s) fun c t hc => ?_
  cases c with
  | function f => exact callFunction_ends hlimit hcalls f (hc f rfl) args he t
  | tool => exact .bind (values_ends args he t) fun vs u _ => callTool_ends name vs u

end Eval

/-- Whether the expression is an index, a member or a method call. -/
def Expr.isLink : Expr → Bool
  | .index _ _ | .member _ _ _ | .method _ _ _ _ => true
  | _ => false

namespace Eval

variable {evaluate : Nat → Evaluate} {execute : Nat → Execute}

/-- The expression can be followed as a chain to an end from every state with these limits. -/
def ChainEnds (limit levels : Nat) (evaluate : Nat → Evaluate) (e : Expr) : Prop :=
  ∀ s, Eval.Ends limit levels s (fun n => chain (evaluate n) e) fun _ => True

/-- **A chain ends** if its parts do, as chains or as expressions. -/
theorem chain_ends (e : Expr)
    (hparts : ∀ p ∈ e.parts, EvaluateEnds limit levels evaluate p ∧ ChainEnds limit levels evaluate p)
    (hself : e.isLink = false → EvaluateEnds limit levels evaluate e) :
    ChainEnds limit levels evaluate e := by
  intro s
  unfold chain
  split
  · rename_i target i
    refine .bind ((hparts target (by simp [Expr.parts])).2 s) fun link t _ => ?_
    cases link with
    | none => exact .pure trivial
    | some v =>
      refine .bind ((hparts i (by simp [Expr.parts])).1 t) fun w u _ => .get fun _ => ?_
      exact .bind (.ofExcept fun _ _ => trivial) fun _ _ (_ : True) => .pure trivial
  · rename_i target name optional
    refine .bind ((hparts target (by simp [Expr.parts])).2 s) fun link t _ => ?_
    cases link.bind (linkTarget optional) with
    | none => exact .pure trivial
    | some v =>
      refine .get fun _ => ?_
      exact .bind (.ofExcept fun _ _ => trivial) fun _ _ (_ : True) => .pure trivial
  · rename_i target name args optional
    refine .bind ((hparts target (by simp [Expr.parts])).2 s) fun link t _ => ?_
    cases link.bind (linkTarget optional) with
    | none => exact .pure trivial
    | some v =>
      have hargs : ∀ e ∈ args, EvaluateEnds limit levels evaluate e :=
        fun e h => (hparts e (by simp [Expr.parts, h])).1
      refine .bind (values_ends args hargs t) fun vs u _ => ?_
      exact .bind (.ofAlloc _) fun _ _ _ => .pure trivial
  · rename_i hindex hmember hmethod
    -- a chain begins with an expression that is no link of it, evaluated as any other
    have hbase : e.isLink = false := by
      cases e with
      | index t i => exact (hindex t i rfl).elim
      | member t name o => exact (hmember t name o rfl).elim
      | method t name args o => exact (hmethod t name args o rfl).elim
      | _ => rfl
    exact .bind (hself hbase s) fun _ _ _ => .pure trivial

/-- **An expression can be evaluated to an end if its parts can**, and calls can. -/
theorem expression_ends (hlimit : host.settings.maxCallDepth = some limit)
    (hexports : exportsLoopFree host) (hcalls : CallsEnd limit levels evaluate execute) (e : Expr)
    (hparts : ∀ p ∈ e.parts, EvaluateEnds limit levels evaluate p ∧ ChainEnds limit levels evaluate p)
    (s : State) :
    Eval.Ends limit levels s (fun n => expression host (evaluate n) (execute n) e)
      fun _ => True := by
  have hpart : ∀ p ∈ e.parts, EvaluateEnds limit levels evaluate p := fun p hp => (hparts p hp).1
  cases e with
  | nil | bool | int | double | string => exact .pure trivial
  | var name => exact variableValue_ends name s
  | binary op left right =>
    refine .bind (hpart left (by simp [Expr.parts]) s) fun a t _ => ?_
    split
    · exact .pure trivial
    · refine .bind (hpart right (by simp [Expr.parts]) t) fun b u _ => ?_
      exact .ofExcept fun _ _ => trivial
  | unary op operand =>
    refine .bind (hpart operand (by simp [Expr.parts]) s) fun a t _ => ?_
    exact .ofExcept fun _ _ => trivial
  | call name args => exact call_ends hlimit hexports hcalls name args hpart s
  | array items => exact .bind (values_ends items hpart s) fun vs _ _ => .ofAlloc _
  | dict pairs =>
    -- the keys and the values are parts
    have hpairs : ∀ pair ∈ pairs, EvaluateEnds limit levels evaluate pair.1 ∧
        EvaluateEnds limit levels evaluate pair.2 := by
      intro pair hpair
      constructor
      · exact hpart _ (List.mem_flatMap.mpr ⟨pair, hpair, by simp⟩)
      · exact hpart _ (List.mem_flatMap.mpr ⟨pair, hpair, by simp⟩)
    exact .bind (entries_ends pairs .empty hpairs s) fun table _ _ => .ofAlloc _
  | range first last inclusive =>
    have hfirst := hpart first (by simp [Expr.parts])
    have hlast := hpart last (by simp [Expr.parts])
    exact .bind (rangeEnds_ends hfirst hlast s) fun bounds _ _ => .ofAlloc _
  | index | member | method =>
    -- a chain is evaluated link by link, and each of its links is a chain again
    have hlink := chain_ends _ hparts (fun hself => by cases hself) s
    exact .bind hlink fun _ _ _ => .pure trivial

/-! ## §4. Loops over sequences -/

theorem innerBlock_ends {body : List Stmt} (hx : ExecuteEnds limit levels execute body)
    (s : State) :
    Run.Ends limit levels s (fun n => innerBlock (execute n) body) fun _ => True :=
  .inFrame (hx _)

/-- A loop over values ends if each round does, whatever the rounds do to the container. -/
theorem overValues_ends {round : Nat → Value → Eval Signal}
    (hr : ∀ v s, Eval.Ends limit levels s (fun n => round n v) fun _ => True) (items : List Value)
    (s : State) : Eval.Ends limit levels s (fun n => overValues (round n) items) fun _ => True := by
  induction items generalizing s with
  | nil => exact .pure trivial
  | cons v rest ih =>
    refine .bind (hr v s) fun signal t _ => ?_
    cases afterRound signal with
    | some result => exact .pure trivial
    | none => exact ih t

/-- Integers are counted, and their number is fixed before the first round. -/
theorem overInts_ends {round : Nat → Value → Eval Signal}
    (hr : ∀ v s, Eval.Ends limit levels s (fun n => round n v) fun _ => True) (run : Progression)
    (i left : Nat) (s : State) :
    Eval.Ends limit levels s (fun n => overInts (round n) run i left) fun _ => True := by
  induction left generalizing i s with
  | zero => exact .pure trivial
  | succ left ih =>
    refine .bind (hr (run.item i) s) fun signal t _ => ?_
    cases afterRound signal with
    | some result => exact .pure trivial
    | none => exact ih (i + 1) t

theorem overSequence_ends {round : Nat → Value → Eval Signal}
    (hr : ∀ v s, Eval.Ends limit levels s (fun n => round n v) fun _ => True) (items : Sequence)
    (s : State) :
    Eval.Ends limit levels s (fun n => overSequence (round n) items) fun _ => True := by
  cases items with
  | ints run => exact overInts_ends hr run 0 run.count s
  | values items => exact overValues_ends hr items s

theorem sequenceOf_ends (v : Value) (s : State) :
    Eval.Ends limit levels s (fun _ => sequenceOf v) fun _ => True := by
  unfold sequenceOf
  split
  · exact .get fun _ => .pure trivial
  · exact .get fun _ => .pure trivial
  · exact .throw

/-- What a `for` visits is evaluated once. -/
theorem visited_ends (he : ∀ e, EvaluateEnds limit levels evaluate e) (iterable : Expr)
    (s : State) :
    Eval.Ends limit levels s (fun n => visited (evaluate n) iterable) fun _ => True := by
  unfold visited
  split
  · rename_i first last inclusive
    exact .bind (rangeEnds_ends (he first) (he last) s) fun _ _ _ => .pure trivial
  -- a call of the built-in `range` is counted, and any other is evaluated
  · rename_i name args
    refine .get fun _ => ?_
    split
    · refine .bind (values_ends args (fun e _ => he e) s) fun vs t _ => ?_
      exact .bind (.ofExcept fun _ _ => trivial) fun _ _ (_ : True) => .pure trivial
    · exact .bind (he _ s) fun v t _ => sequenceOf_ends v t
  · exact .bind (he _ s) fun v t _ => sequenceOf_ends v t

/-- A round of a `for` ends if the body does. -/
theorem forRound_ends {body : List Stmt} (hx : ExecuteEnds limit levels execute body)
    (reuse : Bool) (name : String) (v : Value) (s : State) :
    Eval.Ends limit levels s (fun n => forRound (execute n) reuse name body v) fun _ => True := by
  have hset : Eval.Ends limit levels s (fun _ => setItem reuse name v) fun _ => True := by
    unfold setItem
    split
    · exact .changeScopes _
    · exact .step rfl rfl rfl fun _ _ => trivial
  exact .bind hset fun _ t _ => .lift (innerBlock_ends hx t)

/-- A `for` ends if what it visits and its body do. -/
theorem forIn_ends (he : ∀ e, EvaluateEnds limit levels evaluate e) {body : List Stmt}
    (hx : ExecuteEnds limit levels execute body) (name : String) (iterable : Expr) (s : State) :
    Eval.Ends limit levels s (fun n => forIn (evaluate n) (execute n) name iterable body)
      fun _ => True := by
  refine .bind (visited_ends he iterable s) fun items t _ => .get fun _ => ?_
  dsimp only
  split
  · exact overSequence_ends (fun v u => forRound_ends hx _ name v u) items t
  · exact .inFrame (overSequence_ends (fun v u => forRound_ends hx _ name v u) items _)

/-! ## §5. Statements -/

/-- A function that is registered is one that the limits allow. -/
theorem define_ends {f : Func} (hf : Block.loopFree f.body = true) (s : State) :
    Eval.Ends limit levels s (fun _ => define f) fun _ => True := by
  unfold define
  refine .get fun _ => ?_
  split
  · exact .fail
  · exact Run.Ends.step rfl (fun hs => hs.define hf) fun _ _ => trivial

/-- **A statement without `while` can be executed to an end** if its expressions and the blocks
    inside it can; `rounds` is left to `while`. -/
theorem effect_ends (he : ∀ e, EvaluateEnds limit levels evaluate e) (st : Stmt)
    (hfree : st.loopFree = true)
    (hx : ∀ body ∈ st.blocks, ExecuteEnds limit levels execute body) (rounds : Nat → Nat)
    (s : State) :
    Eval.Ends limit levels s (fun n => effect (evaluate n) (execute n) (rounds n) st)
      fun _ => True := by
  cases st with
  -- declarations, assignments and stores: expressions, and then a step
  | declare name type value constant =>
    refine .bind (he value s) fun v t _ => ?_
    exact .bind (.changeScopes _) fun _ _ _ => .pure trivial
  | assign name value =>
    refine .bind (he value s) fun v t _ => ?_
    exact .bind (.changeScopes _) fun _ _ _ => .pure trivial
  | storeIndex target index value =>
    refine .bind (he target s) fun a t _ => ?_
    refine .bind (he index t) fun i u _ => ?_
    refine .bind (he value u) fun v u' _ => ?_
    exact .bind (.changeHeap _) fun _ _ _ => .pure trivial
  | storeMember target name value =>
    refine .bind (he target s) fun a t _ => ?_
    refine .bind (he value t) fun v u _ => ?_
    exact .bind (.changeHeap _) fun _ _ _ => .pure trivial
  | print value =>
    refine .bind (he value s) fun v t _ => .get fun _ => ?_
    exact .step rfl rfl rfl fun _ _ => trivial
  | expr value => exact .bind (he value s) fun _ _ _ => .pure trivial
  -- branches and loops: blocks in frames of their own
  | ifThen condition body =>
    refine .bind (he condition s) fun v t _ => ?_
    split
    · exact .lift (innerBlock_ends (hx body (by simp [Stmt.blocks])) t)
    · exact .pure trivial
  | ifElse condition body otherwise =>
    refine .bind (he condition s) fun v t _ => ?_
    split
    · exact .lift (innerBlock_ends (hx body (by simp [Stmt.blocks])) t)
    · exact .lift (innerBlock_ends (hx otherwise (by simp [Stmt.blocks])) t)
  -- there is no `while`
  | loop condition body => cases hfree
  | forIn name iterable body =>
    exact forIn_ends he (hx body (by simp [Stmt.blocks])) name iterable s
  | brk | cont => exact .pure trivial
  | func name params returns body =>
    have hbody : Block.loopFree (Func.mk name params returns body).body = true := hfree
    exact .bind (define_ends hbody s) fun _ _ _ => .pure trivial
  | ret value => exact .bind (he value s) fun _ _ _ => .pure trivial

theorem statement_ends (he : ∀ e, EvaluateEnds limit levels evaluate e) (st : Stmt)
    (hfree : st.loopFree = true)
    (hx : ∀ body ∈ st.blocks, ExecuteEnds limit levels execute body) (rounds : Nat → Nat)
    (s : State) :
    Eval.Ends limit levels s (fun n => statement host (evaluate n) (execute n) (rounds n) st)
      fun _ => True := by
  have hannounce : Run.Ends limit levels s (fun _ => announce host st) fun _ => True := by
    unfold announce
    split
    · exact .step rfl (fun hs => hs.congr rfl rfl) trivial
    · exact .pure trivial
  exact .bind (.lift hannounce) fun _ t _ => effect_ends he st hfree hx rounds t

/-- **A list of statements ends** if each of them does; an error is reported, and the next one
    follows. -/
theorem block_ends {stmt : Nat → Stmt → Eval Signal} (body : List Stmt)
    (hstmt : ∀ st ∈ body, ∀ s, Eval.Ends limit levels s (fun n => stmt n st) fun _ => True)
    (s : State) : Run.Ends limit levels s (fun n => block (stmt n) body) fun _ => True := by
  induction body generalizing s with
  | nil => exact .pure trivial
  | cons st rest ih =>
    have hrest := ih fun st h => hstmt st (List.mem_cons_of_mem _ h)
    refine Run.Ends.bind (hstmt st List.mem_cons_self s) fun r t _ => ?_
    match r with
    | .ok .next => exact hrest t
    | .ok .brk | .ok .cont | .ok (.ret v) => exact .pure trivial
    | .error e =>
      have hreport : Run.Ends limit levels t (fun _ => Run.report e) fun _ => True :=
        .step rfl (fun ht => ht.congr rfl rfl) trivial
      exact .bind hreport fun _ u _ => hrest u

end Eval

/-! ## §6. Runs -/

/-- Evaluation takes the parts of an expression one level down, so it ends with them. -/
theorem Expr.eval_ends (hlimit : host.settings.maxCallDepth = some limit)
    (hexports : Eval.exportsLoopFree host)
    (hcalls : Eval.CallsEnd limit levels (Expr.eval host) (Block.exec host)) (e : Expr) :
    Eval.EvaluateEnds limit levels (Expr.eval host) e := by
  -- chains are followed through their targets without a level down, so they go along
  have hboth : Eval.EvaluateEnds limit levels (Expr.eval host) e ∧
      Eval.ChainEnds limit levels (Expr.eval host) e := by
    induction e using Expr.parts_induction with
    | h e hparts =>
      have hself : Eval.EvaluateEnds limit levels (Expr.eval host) e := fun s =>
        Run.Ends.descend (fun n => rfl)
          (Eval.expression_ends hlimit hexports hcalls e hparts s)
      exact ⟨hself, Eval.chain_ends e hparts fun _ => hself⟩
  exact hboth.1

/-- Execution takes the inner blocks one level down, so it ends with them. -/
theorem Block.exec_ends
    (he : ∀ e, Eval.EvaluateEnds limit levels (Expr.eval host) e) (body : List Stmt)
    (hfree : Block.loopFree body = true) :
    Eval.ExecuteEnds limit levels (Block.exec host) body := by
  induction body using Block.inner_induction with
  | h body ih =>
    -- the statements of the list, with the blocks inside them by induction
    have hstmt : ∀ st ∈ body, ∀ s, Eval.Ends limit levels s
        (fun n => Eval.statement host (Expr.eval host n) (Block.exec host n) n st)
        fun _ => True := by
      intro st hst s
      have hst' := Block.loopFree_mem hfree hst
      exact Eval.statement_ends he st hst'
        (fun inner h => ih st hst inner h (Stmt.loopFree_block hst' h)) id s
    exact fun s => Run.Ends.descend (fun n => rfl) (Eval.block_ends body hstmt s)

/-- **With so many levels left, every expression and every block without `while` ends.** -/
theorem runs_end (hlimit : host.settings.maxCallDepth = some limit)
    (hexports : Eval.exportsLoopFree host) (levels : Nat) :
    (∀ e, Eval.EvaluateEnds limit levels (Expr.eval host) e) ∧
      ∀ body, Block.loopFree body = true →
        Eval.ExecuteEnds limit levels (Block.exec host) body := by
  induction levels with
  | zero =>
    -- no level is left, so no call comes to run a body
    have he : ∀ e, Eval.EvaluateEnds limit 0 (Expr.eval host) e :=
      Expr.eval_ends hlimit hexports nofun
    exact ⟨he, Block.exec_ends he⟩
  | succ levels ih =>
    have hcalls : Eval.CallsEnd limit (levels + 1) (Expr.eval host) (Block.exec host) := by
      intro below hbelow
      obtain rfl : levels = below := by omega
      exact ih
    have he := Expr.eval_ends hlimit hexports hcalls
    exact ⟨he, Block.exec_ends he⟩

/-- **Programs end under a limit on the depth of calls.**  If no `while` stands in the program, in the
    functions that the script has declared or in those that modules export, then with enough fuel the
    program comes to an end, always the same one. -/
theorem limited_programs_end (host : Host) (limit : Nat) (program : Program) (s : State)
    (hlimit : host.settings.maxCallDepth = some limit)
    (hprogram : Block.loopFree program = true)
    (hfunctions : ∀ name f, s.functions.get? name = some f → Block.loopFree f.body = true)
    (hexports : ∀ name f, host.resolver name = .ok (some (.function f)) →
      Block.loopFree f.body = true) :
    ∃ n errors t, ∀ fuel, n ≤ fuel → Program.exec host fuel program s = some (errors, t) := by
  have hs : s.Limited limit limit := ⟨hfunctions, by omega⟩
  have hends : Run.Ends limit limit s (fun n => Program.exec host n program) fun _ => True := by
    refine .bind ((runs_end hlimit hexports limit).2 program hprogram s) fun signal t _ => ?_
    -- what is left is to report a stray signal and to hand over the errors
    cases signal with
    | next => exact .step rfl (fun ht => ht.congr rfl rfl) trivial
    | brk => exact .step rfl (fun ht => ht.congr rfl rfl) trivial
    | cont => exact .step rfl (fun ht => ht.congr rfl rfl) trivial
    | ret v => exact .step rfl (fun ht => ht.congr rfl rfl) trivial
  obtain ⟨n, errors, t, hrun, -, -⟩ := hends hs
  exact ⟨n, errors, t, hrun⟩

/-- A function that calls itself twice, the second time from the default of a parameter, and a loop
    that appends to the array it visits. -/
theorem limited_programs_end_in_recursion :
    let host : Host := { settings := { maxCallDepth := some 3 } }
    let program : Program :=
      [.func "f" [⟨"a", .int, some (.call "f" [.int 1])⟩] .int [.ret (.call "f" [])],
        .declare "xs" none (.array [.int 1]) false,
        .forIn "x" (.var "xs") [.expr (.method (.var "xs") "append" [.call "f" []] false)]]
    host.settings.maxCallDepth = some 3 ∧ Block.loopFree program = true ∧
      ∃ n errors t, ∀ fuel, n ≤ fuel → Program.exec host fuel program {} = some (errors, t) := by
  intro host program
  have hprogram : Block.loopFree program = true := by decide
  exact ⟨rfl, hprogram, limited_programs_end host 3 program {} rfl hprogram nofun nofun⟩

end Scriptlet
