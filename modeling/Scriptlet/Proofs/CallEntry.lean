/-
  Scriptlet.Proofs.CallEntry — how a call comes to its body.

  A call binds the parameters one after the other in a frame of its own: to the arguments as long as
  there are any, then to the values of the defaults, each evaluated in the frame that holds the
  parameters before it.  `Func.Entering` follows this from the open frame on, and `Param.Refused`
  says how it can break off.  Because the parameters with a default come last, a call whose number
  of arguments is accepted never lacks a default on the way.  `Func.Ends` puts this together: the
  ends of such a call are that it is not admitted, that an argument fails, that a parameter is
  refused, and what its body comes to.

  Main results:
    * `Func.Entering.frames` — the frame of the call at every step of the way.
    * `Eval.bindParams_iff` — the parameters are bound along the way, or one of them is refused.
    * `Eval.callFunction_iff` — a call with an accepted number of arguments ends in these ways only.
    * `calls_bind_declared_parameters` — calls of the functions of an accepted program.
-/
import Scriptlet.Proofs.Declarations
import Scriptlet.Proofs.InsertionOrder
import Scriptlet.Proofs.LoopHeads
import Scriptlet.Proofs.Scoping

namespace Scriptlet

/-! ## §1. The way into a call -/

/-- The value for a parameter: the argument as it is, without one the value of the default. -/
inductive Param.Supplied (evaluate : Eval.Evaluate) (p : Param) :
    Option Value → State → Value → State → Prop where
  | argument {v : Value} {s : State} : Supplied evaluate p (some v) s v s
  | default {e : Expr} {s t : State} {v : Value} : p.default = some e →
      evaluate e s = some (.ok v, t) → Supplied evaluate p none s v t

/-- The way into a call: the first `i` parameters are bound, as constants of their types, and the
    state is reached. -/
inductive Func.Entering (evaluate : Eval.Evaluate) (f : Func) (args : List Value) (start : State) :
    Nat → List (String × Binding) → State → Prop where
  /-- The frame is open and empty. -/
  | opened : Entering evaluate f args start 0 [] start
  /-- One more parameter is bound to its converted value. -/
  | bound {i : Nat} {bindings : List (String × Binding)} {s t : State} {p : Param} {v w : Value}
      {h : Heap} : Entering evaluate f args start i bindings s → f.params[i]? = some p →
      p.Supplied evaluate args[i]? s v t → p.name ∉ bindings.map Prod.fst →
      p.type.coerce v t.heap = .ok (w, h) →
      Entering evaluate f args start (i + 1) (bindings ++ [(p.name, ⟨p.type, w, true⟩)])
        { t with scopes := t.scopes.bind p.name ⟨p.type, w, true⟩, heap := h }

/-- Why a parameter is not bound, beside those of the given names, and the state this leaves. -/
inductive Param.Refused (evaluate : Eval.Evaluate) (p : Param) (taken : List String) :
    Option Value → State → Error → State → Prop where
  /-- There is no argument, and the default fails. -/
  | default {e : Expr} {s t : State} {err : Error} : p.default = some e →
      evaluate e s = some (.error err, t) → Refused evaluate p taken none s err t
  /-- The name is taken. -/
  | redeclared {supplied : Option Value} {s t : State} {v : Value} :
      p.Supplied evaluate supplied s v t → p.name ∈ taken →
      Refused evaluate p taken supplied s (.redeclared p.name) t
  /-- The value cannot be converted to the type. -/
  | conversion {supplied : Option Value} {s t : State} {v : Value} {err : Error} :
      p.Supplied evaluate supplied s v t → p.name ∉ taken → p.type.coerce v t.heap = .error err →
      Refused evaluate p taken supplied s err t

/-- Every parameter on the way has a value, which can be converted to its type. -/
def Func.Binds (evaluate : Eval.Evaluate) (f : Func) (args : List Value) (start : State) : Prop :=
  ∀ i p bindings s, f.Entering evaluate args start i bindings s → f.params[i]? = some p →
    ∃ v t w h, p.Supplied evaluate args[i]? s v t ∧ p.type.coerce v t.heap = .ok (w, h)

/-- The ends of a call with an accepted number of arguments.  None of them is a refusal of that
    number. -/
inductive Func.Ends (host : Host) (evaluate : Eval.Evaluate) (execute : Eval.Execute) (f : Func)
    (es : List Expr) (s : State) : Except Error Value → State → Prop where
  /-- As many calls are open as may be. -/
  | tooDeep {err : Error} : host.admitsCall s.callDepth = .error err →
      Ends host evaluate execute f es s (.error err) s
  /-- An argument fails, in the frame of the caller. -/
  | argument {err : Error} {t : State} : host.admitsCall s.callDepth = .ok () →
      Eval.values evaluate es s = some (.error err, t) →
      Ends host evaluate execute f es s (.error err) t
  /-- A parameter is refused, and the frame of the call is closed. -/
  | parameter {args : List Value} {s₁ u t : State} {i : Nat} {p : Param}
      {bindings : List (String × Binding)} {err : Error} : host.admitsCall s.callDepth = .ok () →
      Eval.values evaluate es s = some (.ok args, s₁) →
      f.Entering evaluate args s₁.openCall i bindings u → f.params[i]? = some p →
      p.Refused evaluate (bindings.map Prod.fst) args[i]? u err t →
      Ends host evaluate execute f es s (.error err) t.closeCall
  /-- The body is executed with all parameters bound, and the frame of the call is closed. -/
  | body {args : List Value} {s₁ u t : State} {bindings : List (String × Binding)}
      {r : Except Error Value} : host.admitsCall s.callDepth = .ok () →
      Eval.values evaluate es s = some (.ok args, s₁) →
      f.Entering evaluate args s₁.openCall f.params.length bindings u →
      (do Eval.callResult f (← execute f.body) : Eval Value) u = some (r, t) →
      Ends host evaluate execute f es s r t.closeCall

/-! ## §2. The frame of the call -/

/-- Evaluating an expression leaves the frames and the open calls as they are. -/
theorem Expr.eval_keeps {host : Host} {fuel : Nat} {e : Expr} {s t : State}
    {r : Except Error Value} (h : Expr.eval host fuel e s = some (r, t)) :
    t.scopes.frames = s.scopes.frames ∧ t.callDepth = s.callDepth := by
  obtain ⟨heffect, _⟩ := Expr.eval_effect (.any host s) h
  exact ⟨heffect.frames_eq, heffect.callDepth_eq⟩

theorem Eval.values_keeps {host : Host} {fuel : Nat} {es : List Expr} {s t : State}
    {vs : List Value} (h : Eval.values (Expr.eval host fuel) es s = some (.ok vs, t)) :
    t.scopes.frames = s.scopes.frames ∧ t.callDepth = s.callDepth := by
  have heffect := (Eval.values_leads (k := .expression) (run_leads host .any fuel).1 es s
    (.any host s) (.ok vs) t h).1
  exact ⟨heffect.frames_eq, heffect.callDepth_eq⟩

section Way

variable {host : Host} {fuel : Nat} {f : Func} {args : List Value} {s u : State} {i : Nat}
variable {bindings : List (String × Binding)}

theorem Param.Supplied.keeps {p : Param} {supplied : Option Value} {v : Value} {t : State}
    (h : p.Supplied (Expr.eval host fuel) supplied s v t) :
    t.scopes.frames = s.scopes.frames ∧ t.callDepth = s.callDepth := by
  cases h with
  | argument => exact ⟨rfl, rfl⟩
  | default _ heval => exact Expr.eval_keeps heval

/-- **On the way into a call its frame holds the bindings made so far**, above the frames of the
    caller. -/
theorem Func.Entering.frames (h : f.Entering (Expr.eval host fuel) args s.openCall i bindings u) :
    u.scopes.frames = ⟨.call, ⟨bindings⟩⟩ :: s.scopes.frames ∧ u.callDepth = s.callDepth + 1 := by
  induction h with
  | opened => exact ⟨rfl, rfl⟩
  | @bound i bindings u t p v w h _ _ hsupplied hnew _ ih =>
    obtain ⟨hframes, hdepth⟩ := hsupplied.keeps
    rw [ih.1] at hframes
    refine ⟨?_, hdepth.trans ih.2⟩
    show (t.scopes.bind p.name ⟨p.type, w, true⟩).frames = _
    unfold Scopes.bind
    rw [hframes]
    dsimp only [OrderedMap.set]
    rw [OrderedMap.setEntry_new hnew]

theorem Func.Entering.names (h : f.Entering (Expr.eval host fuel) args s i bindings u) :
    bindings.map Prod.fst = (f.params.take i).map (·.name) := by
  induction h with
  | opened => rfl
  | @bound i bindings u t p v w h _ hp _ _ _ ih =>
    rw [List.take_add_one, hp, List.map_append, List.map_append, ih]
    rfl

theorem Func.Entering.le (h : f.Entering (Expr.eval host fuel) args s i bindings u) :
    i ≤ f.params.length := by
  cases h with
  | opened => exact Nat.zero_le _
  | bound _ hp _ _ _ =>
    obtain ⟨hi, _⟩ := List.getElem?_eq_some_iff.mp hp
    exact hi

theorem Func.Entering.length_eq (h : f.Entering (Expr.eval host fuel) args s i bindings u) :
    bindings.length = i := by
  induction h with
  | opened => rfl
  | bound _ _ _ _ _ ih =>
    rw [List.length_append, ih]
    rfl

/-- Every parameter was bound from the state in which just those before it were bound. -/
theorem Func.Entering.param (h : f.Entering (Expr.eval host fuel) args s i bindings u) {j : Nat}
    (hj : j < i) {p : Param} (hp : f.params[j]? = some p) :
    ∃ u v t w heap, f.Entering (Expr.eval host fuel) args s j (bindings.take j) u ∧
      p.Supplied (Expr.eval host fuel) args[j]? u v t ∧ p.type.coerce v t.heap = .ok (w, heap) ∧
      bindings[j]? = some (p.name, ⟨p.type, w, true⟩) := by
  induction h with
  | opened => cases hj
  | @bound i bindings u t q v w heap hway hq hsupplied _ hw ih =>
    have hlength := hway.length_eq
    by_cases hlast : j = i
    · -- the parameter bound last: all other bindings were there before
      subst hlast
      cases Option.some.inj (hp.symm.trans hq)
      refine ⟨u, v, t, w, heap, ?_, hsupplied, hw, ?_⟩
      · rwa [List.take_append_of_le_length (Nat.le_of_eq hlength.symm),
          List.take_of_length_le (Nat.le_of_eq hlength)]
      · rw [List.getElem?_append_right (Nat.le_of_eq hlength), hlength, Nat.sub_self]
        rfl
    · have hbefore : j < i := by omega
      rw [List.take_append_of_le_length (by omega), List.getElem?_append_left (by omega)]
      exact ih hbefore

end Way

/-! ## §3. One parameter -/

namespace Eval

variable {α β : Type} {evaluate : Evaluate} {f : Func} {p : Param} {args : List Value} {i : Nat}
variable {s t : State} {v : Value}

theorem argument_supplied (k : Nat) (h : p.Supplied evaluate args[i]? s v t) :
    argument evaluate f k p (args.drop i) s = some (.ok v, t) := by
  generalize hsupplied : args[i]? = supplied at h
  cases h with
  | argument =>
    obtain ⟨hi, rfl⟩ := List.getElem?_eq_some_iff.mp hsupplied
    rw [List.drop_eq_getElem_cons hi]
    rfl
  | default hdefault heval =>
    rw [List.drop_eq_nil_of_le (List.getElem?_eq_none_iff.mp hsupplied), argument, hdefault]
    exact heval

/-- Where there is an argument or a default, nothing but the default can fail. -/
theorem argument_inv {k : Nat} {r : Except Error Value}
    (hsome : args.length ≤ i → p.default.isSome = true)
    (h : argument evaluate f k p (args.drop i) s = some (r, t)) :
    (∃ v, r = .ok v ∧ p.Supplied evaluate args[i]? s v t) ∨
      ∃ e err, r = .error err ∧ args[i]? = none ∧ p.default = some e ∧
        evaluate e s = some (.error err, t) := by
  -- the argument at the place, or past the arguments the default
  by_cases hi : i < args.length
  · rw [List.drop_eq_getElem_cons hi] at h
    cases h
    rw [List.getElem?_eq_getElem hi]
    exact .inl ⟨_, rfl, .argument⟩
  · have hle : args.length ≤ i := Nat.le_of_not_lt hi
    obtain ⟨e, hdefault⟩ := Option.isSome_iff_exists.mp (hsome hle)
    rw [List.drop_eq_nil_of_le hle, argument, hdefault] at h
    have h : evaluate e s = some (r, t) := h
    rw [List.getElem?_eq_none_iff.mpr hle]
    cases r with
    | ok v => exact .inl ⟨v, rfl, .default hdefault h⟩
    | error err => exact .inr ⟨e, err, rfl, rfl, hdefault, h⟩

section Declare

variable {bindings : List (String × Binding)} {outer : List Frame}
variable (hframes : t.scopes.frames = ⟨.call, ⟨bindings⟩⟩ :: outer)

include hframes

theorem declare_taken (htaken : p.name ∈ bindings.map Prod.fst) :
    changeScopes (fun s => s.declare p.name p.type v true) t =
      some (.error (.redeclared p.name), t) := by
  have hcontains : t.scopes.current.contains p.name = true := by
    rw [Scopes.current, hframes]
    exact (OrderedMap.contains_iff _ _).mpr htaken
  refine (changeScopes_run _ t).trans ?_
  rw [Scopes.declare_run, if_pos hcontains]

variable (hnew : p.name ∉ bindings.map Prod.fst)

include hnew

theorem declare_new : t.scopes.declare p.name p.type v true t.heap =
    (p.type.coerce v t.heap).map fun c => (t.scopes.bind p.name ⟨p.type, c.1, true⟩, c.2) := by
  have hcontains : t.scopes.current.contains p.name ≠ true := by
    rw [Scopes.current, hframes]
    exact fun h => hnew ((OrderedMap.contains_iff _ _).mp h)
  rw [Scopes.declare_run, if_neg hcontains]

theorem declare_converted {w : Value} {h : Heap} (hw : p.type.coerce v t.heap = .ok (w, h)) :
    changeScopes (fun s => s.declare p.name p.type v true) t =
      some (.ok (), { t with scopes := t.scopes.bind p.name ⟨p.type, w, true⟩, heap := h }) := by
  refine (changeScopes_run _ t).trans ?_
  rw [declare_new hframes hnew, hw]
  rfl

theorem declare_unconverted {err : Error} (herr : p.type.coerce v t.heap = .error err) :
    changeScopes (fun s => s.declare p.name p.type v true) t = some (.error err, t) := by
  refine (changeScopes_run _ t).trans ?_
  rw [declare_new hframes hnew, herr]
  rfl

end Declare

/-! ## §4. All parameters -/

/-- The parameters and arguments that are left begin with those whose turn it is. -/
theorem bindParams_drop (evaluate : Evaluate) (args : List Value) (k : Nat)
    (hp : f.params[i]? = some p) :
    bindParams evaluate f k (f.params.drop i) (args.drop i) =
      argument evaluate f k p (args.drop i) >>= fun v =>
        changeScopes (fun s => s.declare p.name p.type v true) >>= fun _ =>
          bindParams evaluate f k (f.params.drop (i + 1)) (args.drop (i + 1)) := by
  obtain ⟨hi, rfl⟩ := List.getElem?_eq_some_iff.mp hp
  have hargs : args.drop (i + 1) = (args.drop i).tail := List.tail_drop.symm
  rw [hargs, List.drop_eq_getElem_cons hi]
  rfl

section Bind

variable {host : Host} {fuel : Nat} {bindings : List (String × Binding)} {u : State}

section Step

variable (hway : f.Entering (Expr.eval host fuel) args s.openCall i bindings u)
variable (hp : f.params[i]? = some p)

include hway hp

/-- A step of the way is a step of the binding. -/
theorem bindParams_bound (k : Nat) {w : Value} {h : Heap}
    (hsupplied : p.Supplied (Expr.eval host fuel) args[i]? u v t)
    (hnew : p.name ∉ bindings.map Prod.fst) (hw : p.type.coerce v t.heap = .ok (w, h)) :
    bindParams (Expr.eval host fuel) f k (f.params.drop i) (args.drop i) u =
      bindParams (Expr.eval host fuel) f k (f.params.drop (i + 1)) (args.drop (i + 1))
        { t with scopes := t.scopes.bind p.name ⟨p.type, w, true⟩, heap := h } := by
  have hframes := hsupplied.keeps.1.trans hway.frames.1
  rw [bindParams_drop _ args k hp, bind_ok (argument_supplied k hsupplied),
    bind_ok (declare_converted hframes hnew hw)]

/-- A refused parameter is an end of the binding. -/
theorem bindParams_refused (k : Nat) {err : Error}
    (h : p.Refused (Expr.eval host fuel) (bindings.map Prod.fst) args[i]? u err t) :
    bindParams (Expr.eval host fuel) f k (f.params.drop i) (args.drop i) u =
      some (.error err, t) := by
  rw [bindParams_drop _ args k hp]
  -- which of the three ways it was refused in
  generalize hsupplied : args[i]? = supplied at h
  cases h with
  | default hdefault heval =>
    refine bind_error ?_
    rw [List.drop_eq_nil_of_le (List.getElem?_eq_none_iff.mp hsupplied), argument, hdefault]
    exact heval
  | redeclared hvalue htaken =>
    rw [← hsupplied] at hvalue
    rw [bind_ok (argument_supplied k hvalue)]
    exact bind_error (declare_taken (hvalue.keeps.1.trans hway.frames.1) htaken)
  | conversion hvalue hnew herr =>
    rw [← hsupplied] at hvalue
    rw [bind_ok (argument_supplied k hvalue)]
    exact bind_error (declare_unconverted (hvalue.keeps.1.trans hway.frames.1) hnew herr)

/-- **The binding goes no other way**: the parameter whose turn it is is refused, or it is bound and
    the next one follows. -/
theorem bindParams_step {k : Nat} {r : Except Error Unit}
    (hdefault : args.length ≤ i → p.default.isSome = true)
    (h : bindParams (Expr.eval host fuel) f k (f.params.drop i) (args.drop i) u = some (r, t)) :
    (∃ err, r = .error err ∧
        p.Refused (Expr.eval host fuel) (bindings.map Prod.fst) args[i]? u err t) ∨
      ∃ bindings' u', f.Entering (Expr.eval host fuel) args s.openCall (i + 1) bindings' u' ∧
        bindParams (Expr.eval host fuel) f k (f.params.drop (i + 1)) (args.drop (i + 1)) u' =
          some (r, t) := by
  rw [bindParams_drop _ args k hp] at h
  obtain ⟨err, rfl, harg⟩ | ⟨v, w, harg, hdeclare⟩ := bind_inv h
  · -- the value is missing: only the default can have failed
    obtain ⟨_, hok, _⟩ | ⟨e, _, herr, hnone, he, heval⟩ := argument_inv hdefault harg
    · cases hok
    · cases herr
      rw [hnone]
      exact .inl ⟨err, rfl, .default he heval⟩
  · obtain ⟨_, hok, hsupplied⟩ | ⟨_, _, herr, _⟩ := argument_inv hdefault harg
    · cases hok
      have hframes := hsupplied.keeps.1.trans hway.frames.1
      by_cases htaken : p.name ∈ bindings.map Prod.fst
      · rw [bind_error (declare_taken hframes htaken)] at hdeclare
        cases hdeclare
        exact .inl ⟨_, rfl, .redeclared hsupplied htaken⟩
      · cases hc : p.type.coerce v w.heap with
        | error e =>
          rw [bind_error (declare_unconverted hframes htaken hc)] at hdeclare
          cases hdeclare
          exact .inl ⟨e, rfl, .conversion hsupplied htaken hc⟩
        | ok c =>
          rw [bind_ok (declare_converted hframes htaken hc)] at hdeclare
          exact .inr ⟨_, _, hway.bound hp hsupplied htaken hc, hdeclare⟩
    · cases herr

end Step

/-- The binding of all parameters follows the way as far as it goes. -/
theorem bindParams_entering (k : Nat)
    (hway : f.Entering (Expr.eval host fuel) args s.openCall i bindings u) :
    bindParams (Expr.eval host fuel) f k f.params args s.openCall =
      bindParams (Expr.eval host fuel) f k (f.params.drop i) (args.drop i) u := by
  induction hway with
  | opened => rfl
  | bound hway hp hsupplied hnew hw ih =>
    exact ih.trans (bindParams_bound hway hp k hsupplied hnew hw)

/-- At the end of the way all parameters are bound. -/
theorem bindParams_entered (k : Nat)
    (hway : f.Entering (Expr.eval host fuel) args s.openCall f.params.length bindings u) :
    bindParams (Expr.eval host fuel) f k f.params args s.openCall = some (.ok (), u) := by
  rw [bindParams_entering k hway, List.drop_length]
  rfl

/-- From every point of the way the binding comes to its end or to a refused parameter: where the
    number of arguments is accepted, it never lacks a value. -/
theorem bindParams_ended {r : Except Error Unit} (hlast : DefaultsLast f.params)
    (hleast : (f.params.filter fun p => p.default.isNone).length ≤ args.length)
    (hway : f.Entering (Expr.eval host fuel) args s.openCall i bindings u)
    (h : bindParams (Expr.eval host fuel) f args.length (f.params.drop i) (args.drop i) u =
      some (r, t)) :
    (r = .ok () ∧ ∃ bindings,
        f.Entering (Expr.eval host fuel) args s.openCall f.params.length bindings t) ∨
      ∃ err, r = .error err ∧ ∃ i p bindings u,
        f.Entering (Expr.eval host fuel) args s.openCall i bindings u ∧ f.params[i]? = some p ∧
        p.Refused (Expr.eval host fuel) (bindings.map Prod.fst) args[i]? u err t := by
  -- on the number of parameters that are left; what leads up to them is the way taken so far
  induction hleft : f.params.length - i generalizing i bindings u with
  | zero =>
    have hi : i = f.params.length := Nat.le_antisymm hway.le (by omega)
    subst hi
    rw [List.drop_length] at h
    cases h
    exact .inl ⟨rfl, bindings, hway⟩
  | succ n ih =>
    have hi : i < f.params.length := by omega
    have hp : f.params[i]? = some f.params[i] := List.getElem?_eq_getElem hi
    have hdefault : args.length ≤ i → f.params[i].default.isSome = true :=
      fun hle => hlast.default_isSome hp (Nat.le_trans hleast hle)
    obtain ⟨err, hr, hrefused⟩ | ⟨bindings', u', hway', hrest⟩ :=
      bindParams_step hway hp hdefault h
    · exact .inr ⟨err, hr, i, _, bindings, u, hway, hp, hrefused⟩
    · exact ih hway' hrest (by omega)

/-- **Binding the parameters ends where all of them are bound or where one is refused**, and nowhere
    else. -/
theorem bindParams_iff {r : Except Error Unit} (hlast : DefaultsLast f.params)
    (hleast : (f.params.filter fun p => p.default.isNone).length ≤ args.length) :
    bindParams (Expr.eval host fuel) f args.length f.params args s.openCall = some (r, t) ↔
      (r = .ok () ∧ ∃ bindings,
        f.Entering (Expr.eval host fuel) args s.openCall f.params.length bindings t) ∨
      ∃ err, r = .error err ∧ ∃ i p bindings u,
        f.Entering (Expr.eval host fuel) args s.openCall i bindings u ∧ f.params[i]? = some p ∧
        p.Refused (Expr.eval host fuel) (bindings.map Prod.fst) args[i]? u err t := by
  constructor
  · exact bindParams_ended hlast hleast .opened
  · rintro (⟨rfl, bindings, hway⟩ | ⟨err, rfl, i, p, bindings, u, hway, hp, hrefused⟩)
    · exact bindParams_entered args.length hway
    · rw [bindParams_entering args.length hway]
      exact bindParams_refused hway hp args.length hrefused

end Bind

end Eval

/-- **Where no value is missing and every value can be converted, the way goes on to its end.** -/
theorem Func.Binds.entering {host : Host} {fuel : Nat} {f : Func} {args : List Value} {s : State}
    {i : Nat} (hdistinct : (f.params.map (·.name)).Nodup)
    (hbinds : f.Binds (Expr.eval host fuel) args s.openCall) (hi : i ≤ f.params.length) :
    ∃ bindings u, f.Entering (Expr.eval host fuel) args s.openCall i bindings u := by
  induction i with
  | zero => exact ⟨[], s.openCall, .opened⟩
  | succ i ih =>
    obtain ⟨bindings, u, hway⟩ := ih (Nat.le_of_succ_le hi)
    have hp : f.params[i]? = some f.params[i] := List.getElem?_eq_getElem hi
    obtain ⟨v, t, w, h, hsupplied, hw⟩ := hbinds i _ bindings u hway hp
    -- the names bound so far are those of the parameters before
    have hnew : f.params[i].name ∉ bindings.map Prod.fst := by
      have hsplit : f.params = f.params.take i ++ f.params[i] :: f.params.drop (i + 1) := by
        rw [← List.drop_eq_getElem_cons, List.take_append_drop]
      rw [hsplit, List.map_append] at hdistinct
      rw [hway.names]
      intro hmem
      exact (List.nodup_append.mp hdistinct).2.2 _ hmem _ List.mem_cons_self rfl
    exact ⟨_, _, hway.bound hp hsupplied hnew hw⟩

/-! ## §5. The call around its body -/

namespace Eval

variable {host : Host} {evaluate : Evaluate} {execute : Execute} {f : Func} {s t : State}

theorem values_length {es : List Expr} {vs : List Value}
    (h : values evaluate es s = some (.ok vs, t)) : vs.length = es.length := by
  induction es generalizing s vs with
  | nil =>
    cases h
    rfl
  | cons e es ih =>
    obtain ⟨v, u, _, hrest⟩ := bind_ok_inv h
    obtain ⟨ws, u', hws, hvs⟩ := bind_ok_inv hrest
    cases hvs
    exact congrArg (· + 1) (ih hws)

theorem accepts_iff (f : Func) (k : Nat) : f.arity.accepts k = true ↔
    (f.params.filter fun p => p.default.isNone).length ≤ k ∧ k ≤ f.params.length := by
  unfold Arity.accepts Func.arity
  rw [Bool.and_eq_true, decide_eq_true_iff, decide_eq_true_iff]

/-- **A number of arguments outside the accepted ones is refused before anything else is done.** -/
theorem callFunction_wrongArity {es : List Expr} (h : ¬f.arity.accepts es.length = true) :
    callFunction host evaluate execute f es s =
      some (.error (.wrongArity f.name f.arity es.length), s) := by
  unfold callFunction
  rw [if_neg h]
  rfl

theorem callFunction_accepted {es : List Expr} (h : f.arity.accepts es.length = true) :
    callFunction host evaluate execute f es s =
      (ofExcept (host.admitsCall s.callDepth) >>= fun _ => values evaluate es >>= fun vs =>
        inCall (callBody evaluate execute f vs) : Eval Value) s := by
  unfold callFunction
  rw [if_pos h]
  rfl

theorem callFunction_admitted {es : List Expr} (haccepts : f.arity.accepts es.length = true)
    (hadmits : host.admitsCall s.callDepth = .ok ()) :
    callFunction host evaluate execute f es s =
      (values evaluate es >>= fun vs => inCall (callBody evaluate execute f vs) : Eval Value) s := by
  rw [callFunction_accepted haccepts, hadmits]
  rfl

/-- The body is run where the parameters are bound, and the frame is closed afterwards. -/
theorem inCall_callBody {vs : List Value} (hbind : bindParams evaluate f vs.length f.params vs
      s.openCall = some (.ok (), t)) :
    inCall (callBody evaluate execute f vs) s =
      ((do callResult f (← execute f.body) : Eval Value) t).map fun r => (r.1, r.2.closeCall) :=
  (Run.inCall_run _ s).trans (congrArg (Option.map _) (bind_ok hbind))

/-- **A call with an accepted number of arguments ends as described**, whatever executes its body. -/
theorem callFunction_iff {fuel : Nat} {es : List Expr} {r : Except Error Value}
    (hlast : DefaultsLast f.params) (haccepts : f.arity.accepts es.length = true) :
    callFunction host (Expr.eval host fuel) execute f es s = some (r, t) ↔
      f.Ends host (Expr.eval host fuel) execute es s r t := by
  constructor
  · intro h
    cases hadmits : host.admitsCall s.callDepth with
    | error err =>
      rw [callFunction_accepted haccepts, hadmits] at h
      cases h
      exact .tooDeep hadmits
    | ok _ =>
      rw [callFunction_admitted haccepts hadmits] at h
      obtain ⟨err, rfl, hargs⟩ | ⟨args, s₁, hargs, hcall⟩ := bind_inv h
      · exact .argument hadmits hargs
      · -- the frame is open: a parameter is refused, or all are bound and the body is run
        have hcall := (Run.inCall_run _ s₁).symm.trans hcall
        obtain ⟨⟨r', t'⟩, hbody, hclosed⟩ := Option.map_eq_some_iff.mp hcall
        cases hclosed
        have hleast := ((accepts_iff f _).mp haccepts).1
        rw [← values_length hargs] at hleast
        obtain ⟨err, rfl, hbind⟩ | ⟨_, u, hbind, hrest⟩ := bind_inv hbody
        · obtain ⟨hok, _⟩ | ⟨_, herr, i, p, bindings, u, hway, hp, hrefused⟩ :=
            (bindParams_iff hlast hleast).mp hbind
          · cases hok
          · cases herr
            exact .parameter hadmits hargs hway hp hrefused
        · obtain ⟨_, bindings, hway⟩ | ⟨_, herr, _⟩ := (bindParams_iff hlast hleast).mp hbind
          · exact .body hadmits hargs hway hrest
          · cases herr
  · intro h
    cases h with
    | tooDeep hadmits =>
      rw [callFunction_accepted haccepts, hadmits]
      rfl
    | argument hadmits hargs =>
      rw [callFunction_admitted haccepts hadmits]
      exact bind_error hargs
    | @parameter args _ _ _ _ _ _ _ hadmits hargs hway hp hrefused =>
      rw [callFunction_admitted haccepts hadmits, bind_ok hargs]
      have hbind := bindParams_refused hway hp args.length hrefused
      rw [← bindParams_entering args.length hway] at hbind
      exact (Run.inCall_run _ _).trans (congrArg (Option.map _) (bind_error hbind))
    | body hadmits hargs hway hbody =>
      rw [callFunction_admitted haccepts hadmits, bind_ok hargs,
        inCall_callBody (bindParams_entered _ hway), hbody]
      rfl

/-- An accepted number of arguments is not refused whatever is evaluated: an evaluator that does
    nothing is asked for a value or for the body, and gets stuck there. -/
theorem callFunction_outOfFuel {es : List Expr} (h : f.arity.accepts es.length = true) :
    callFunction host (fun _ => outOfFuel) (fun _ => Run.outOfFuel) f es s ≠
      some (.error (.wrongArity f.name f.arity es.length), s) := by
  rw [callFunction_accepted h]
  cases hadmits : host.admitsCall s.callDepth with
  | error e =>
    intro hrun
    cases hrun
    unfold Host.admitsCall at hadmits
    split at hadmits
    · cases hadmits
    · split at hadmits <;> cases hadmits
  | ok _ =>
    -- it gets stuck at the first argument, at the first default or at the body
    cases es with
    | cons e es => exact fun hrun => by cases hrun
    | nil =>
      have hleast : (f.params.filter fun p => p.default.isNone).length ≤ 0 :=
        ((accepts_iff f 0).mp h).1
      have hbody : callBody (fun _ => outOfFuel) (fun _ => Run.outOfFuel) f [] s.openCall = none := by
        unfold callBody
        cases hparams : f.params with
        | nil => rfl
        | cons p ps =>
          cases hdefault : p.default with
          | some e =>
            rw [bindParams, argument, hdefault]
            rfl
          | none => simp [hparams, hdefault] at hleast
      have hrun : inCall (callBody (fun _ => outOfFuel) (fun _ => Run.outOfFuel) f []) s = none := by
        refine (Run.inCall_run _ s).trans ?_
        rw [ExceptT.run, hbody]
        rfl
      exact fun h => by cases hrun.symm.trans h

end Eval

/-! ## §6. Calls of declared functions -/

/-- What the body of a call starts with: one frame more, which holds the parameters and nothing
    else, each as a constant of its type.  A parameter's value was its argument or its default,
    evaluated when the frame held the parameters before it, and was then converted. -/
structure Func.Entered (evaluate : Eval.Evaluate) (f : Func) (args : List Value)
    (caller start : State) (bindings : List (String × Binding)) (t : State) : Prop where
  frames : t.scopes.frames = ⟨.call, ⟨bindings⟩⟩ :: caller.scopes.frames
  callDepth : t.callDepth = caller.callDepth + 1
  names : bindings.map Prod.fst = f.params.map (·.name)
  param : ∀ i p, f.params[i]? = some p → ∃ u v u' w h,
    f.Entering evaluate args start i (bindings.take i) u ∧
    u.scopes.frames = ⟨.call, ⟨bindings.take i⟩⟩ :: caller.scopes.frames ∧
    p.Supplied evaluate args[i]? u v u' ∧ p.type.coerce v u'.heap = .ok (w, h) ∧
    bindings[i]? = some (p.name, ⟨p.type, w, true⟩)

theorem Func.Entering.entered {host : Host} {fuel : Nat} {f : Func} {args : List Value}
    {caller s t : State} {bindings : List (String × Binding)}
    (h : f.Entering (Expr.eval host fuel) args s.openCall f.params.length bindings t)
    (hframes : s.scopes.frames = caller.scopes.frames) (hdepth : s.callDepth = caller.callDepth) :
    f.Entered (Expr.eval host fuel) args caller s.openCall bindings t where
  frames := by rw [h.frames.1, hframes]
  callDepth := by rw [h.frames.2, hdepth]
  names := by rw [h.names, List.take_length]
  param i p hp := by
    obtain ⟨hi, _⟩ := List.getElem?_eq_some_iff.mp hp
    obtain ⟨u, v, u', w, heap, hway, hrest⟩ := h.param hi hp
    exact ⟨u, v, u', w, heap, hway, by rw [hway.frames.1, hframes], hrest⟩

/-- **The contract of calls.**  In a function of an accepted program the parameters with a default
    come last.  A call of it is refused for its number of arguments exactly when there are fewer
    than the parameters without a default or more than the parameters, whatever its arguments would
    do, and nothing is changed.  Any other call ends in one of four ways and never for its number of
    arguments: it is not admitted, an argument fails, a parameter is refused because its default
    fails, its name is taken or its value cannot be converted, or its body has been executed.  If
    nothing fails before the body, this starts in a new frame that holds exactly the parameters. -/
theorem calls_bind_declared_parameters {source : String} {program : Program}
    (hparse : Program.parse source = .ok program) {f : Func} (hf : f ∈ Block.functions program) :
    DefaultsLast f.params ∧
    ∀ (host : Host) (es : List Expr) (s : State),
      (es.length < (f.params.filter fun p => p.default.isNone).length ∨
          f.params.length < es.length ↔
        ∀ evaluate execute, Eval.callFunction host evaluate execute f es s =
          some (.error (.wrongArity f.name f.arity es.length), s)) ∧
      ((f.params.filter fun p => p.default.isNone).length ≤ es.length →
        es.length ≤ f.params.length → ∀ fuel,
          (∀ execute r t, Eval.callFunction host (Expr.eval host fuel) execute f es s = some (r, t) ↔
            f.Ends host (Expr.eval host fuel) execute es s r t) ∧
          ∀ args s₁, Eval.values (Expr.eval host fuel) es s = some (.ok args, s₁) →
            (f.params.map (·.name)).Nodup → host.admitsCall s.callDepth = .ok () →
            f.Binds (Expr.eval host fuel) args s₁.openCall →
            ∃ bindings t, f.Entered (Expr.eval host fuel) args s s₁.openCall bindings t ∧
              ∀ execute, Eval.callFunction host (Expr.eval host fuel) execute f es s =
                ((do Eval.callResult f (← execute f.body) : Eval Value) t).map
                  fun r => (r.1, r.2.closeCall)) := by
  have hlast := Program.parse_defaultsLast hparse hf
  -- refused for the number of arguments: out of range, and only then
  refine ⟨hlast, fun host es s => ⟨⟨?_, ?_⟩, ?_⟩⟩
  · intro hout evaluate execute
    apply Eval.callFunction_wrongArity
    rw [Eval.accepts_iff]
    omega
  · intro hrefused
    by_cases haccepts : f.arity.accepts es.length = true
    -- in range not even a call without fuel is refused so
    · exact absurd (hrefused _ _) (Eval.callFunction_outOfFuel haccepts)
    · rw [Eval.accepts_iff] at haccepts
      omega
  · intro hleast hmost fuel
    have haccepts : f.arity.accepts es.length = true :=
      (Eval.accepts_iff f es.length).mpr ⟨hleast, hmost⟩
    -- in range: how a call ends, and what the body starts with
    refine ⟨fun execute r t => Eval.callFunction_iff hlast haccepts, ?_⟩
    intro args s₁ hargs hdistinct hadmits hbinds
    -- nothing fails before the body, so that all parameters are bound
    obtain ⟨bindings, t, hway⟩ := hbinds.entering hdistinct (Nat.le_refl _)
    obtain ⟨hframes, hdepth⟩ := Eval.values_keeps hargs
    refine ⟨bindings, t, hway.entered hframes hdepth, fun execute => ?_⟩
    rw [Eval.callFunction_admitted haccepts hadmits, Eval.bind_ok hargs]
    exact Eval.inCall_callBody (Eval.bindParams_entered _ hway)

/-- The second parameter's default is the first parameter, which has become an optional.  Without an
    argument the call is refused, with a number its body starts, and with a text it ends where the
    first parameter cannot be converted. -/
theorem calls_bind_declared_parameters_pair :
    let f : Func := ⟨"pair", [⟨"a", .optional .int, none⟩, ⟨"b", .optional .int, some (.var "a")⟩],
      .optional .int, [.ret (.var "b")]⟩
    let program : Program := [.func f.name f.params f.returns f.body]
    Program.parse "func pair(a: Int?, b: Int? = a) -> Int? \x7b return b \x7d" = .ok program ∧
    f ∈ Block.functions program ∧ DefaultsLast f.params ∧
    (∀ evaluate execute, Eval.callFunction {} evaluate execute f [] {} =
      some (.error (.wrongArity "pair" ⟨1, 2⟩ 0), {})) ∧
    (∃ bindings t, f.Entered (Expr.eval {} 1) [.int 2] {} (State.openCall {}) bindings t ∧
      ∀ execute, Eval.callFunction {} (Expr.eval {} 1) execute f [.int 2] {} =
        ((do Eval.callResult f (← execute f.body) : Eval Value) t).map
          fun r => (r.1, r.2.closeCall)) ∧
    ∀ execute, f.Ends {} (Expr.eval {} 1) execute [.string "x"] {}
      (.error (.notConvertible .int .string)) {} := by
  intro f program
  have hparse : Program.parse "func pair(a: Int?, b: Int? = a) -> Int? \x7b return b \x7d" =
      .ok program := by
    with_unfolding_all rfl
  have hf : f ∈ Block.functions program := List.mem_cons_self
  obtain ⟨hlast, hcalls⟩ := calls_bind_declared_parameters hparse hf
  refine ⟨hparse, hf, hlast, ((hcalls {} [] {}).1.mp (.inl (by decide))), ?_, ?_⟩
  · refine ((hcalls {} [.int 2] {}).2 (by decide) (by decide) 1).2 [.int 2] {} rfl (by decide) rfl ?_
    -- the first parameter has its argument, the second its default, and there is no third
    intro i p bindings s hway hp
    obtain _ | _ | i := i
    · cases hway
      cases hp
      exact ⟨_, _, _, _, .argument, rfl⟩
    · obtain _ | ⟨hway, hfirst, hsupplied, _, hw⟩ := hway
      cases hway
      cases hfirst
      cases hsupplied
      cases hw
      cases hp
      exact ⟨_, _, _, _, .default rfl rfl, rfl⟩
    · cases hp
  · intro execute
    exact (((hcalls {} [.string "x"] {}).2 (by decide) (by decide) 1).1 execute _ _).mp rfl

end Scriptlet
