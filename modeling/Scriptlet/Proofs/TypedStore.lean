/-
  Scriptlet.Proofs.TypedStore — every binding holds a value of its declared type.

  Values get into bindings by declarations, assignments, parameters and loop variables, and all but
  the last are converted on the way.  Conversion hands an optional on as it is when its content came
  out equal to what it was; but optionals are equal by identity, whatever their content.  So the
  content is known to be converted only because a new optional never has the identity of an old one,
  and that takes a discipline of its own: every object in a value has been made.

  Main results:
    * `Ty.admits_of_coerce` — what conversion to a type gives is of that type.
    * `Effect.typed` — every effect leaves the bindings typed.
    * `store_is_typed` — the bindings of every reachable state, and the results of calls in it.
-/
import Scriptlet.Proofs.Scoping

namespace Scriptlet

/-! ## §1. Values of a type -/

/-- Whether the value is of the type: of its kind, and for an optional so on with the content.  What
    is in arrays and dictionaries is not asked. -/
def Ty.admits : Ty → Value → Bool
  | .any, _ => true
  | .int, .int _ => true
  | .float, .float _ => true
  | .double, .double _ => true
  | .bool, .bool _ => true
  | .string, .string _ => true
  | .array _, .array _ => true
  | .dict _ _, .dict _ => true
  | .optional _, .nothing _ => true
  | .optional type, .just _ content => type.admits content
  | _, _ => false

/-- A value is of the type that is inferred from it. -/
theorem Value.inferredType_admits (v : Value) : v.inferredType.admits v = true := by
  cases v <;> rfl

/-! ## §2. Values whose objects exist -/

/-- Every object in the value has been made on the heap. -/
def Value.Made (h : Heap) : Value → Prop
  | .array ref => ref.index < h.arrays.size
  | .dict ref => ref.index < h.dicts.size
  | .nothing i => i.number < h.optionals
  | .just i content => i.number < h.optionals ∧ content.Made h
  | _ => True

/-- What has been made stays made while the heap grows. -/
theorem Value.Made.grow {h h' : Heap} (hg : h.Grows h') {v : Value} (hv : v.Made h) :
    v.Made h' := by
  induction v with
  | array ref => exact Nat.lt_of_lt_of_le hv hg.arrays
  | dict ref => exact Nat.lt_of_lt_of_le hv hg.dicts
  | nothing i => exact Nat.lt_of_lt_of_le hv hg.optionals
  | just i content ih => exact ⟨Nat.lt_of_lt_of_le hv.1 hg.optionals, ih hv.2⟩
  | _ => trivial

theorem Value.Made.of_plain (h : Heap) {v : Value} (hv : v.isPlain = true) : v.Made h := by
  cases v with
  | array | dict | nothing | just => cases hv
  | _ => trivial

/-- Every object that a value refers to has been made; of errors nothing is asked. -/
def Discipline.made : Discipline where
  value h v := v.Made h
  error _ := True
  grow hg hv := hv.grow hg
  plain := Value.Made.of_plain
  array hlt := hlt
  dict hlt := hlt
  nothing hlt := hlt
  just hlt _ hv := ⟨hlt, hv⟩
  rewrap _ _ hlt hw := ⟨hlt, hw⟩
  content hv := hv.2
  recoverable _ := trivial

/-- **What conversion to a type gives is of that type**, and a value that comes out equal was of the
    type before. -/
theorem Ty.admits_of_coerce {type : Ty} {v w : Value} {h h' : Heap} (hv : v.Made h)
    (hrun : type.coerce v h = .ok (w, h')) :
    type.admits w = true ∧ (w.equal v = true → type.admits v = true) ∧
      h.optionals ≤ h'.optionals := by
  fun_induction Ty.coerce type v generalizing w h h' with
  | case2 content =>
    cases hrun
    refine ⟨rfl, fun hequal => ?_, Nat.le_succ _⟩
    cases hequal
  | case4 type i content ih =>
    obtain ⟨converted, h₁, hinner, hrest⟩ := Alloc.bind_eq_ok.mp hrun
    obtain ⟨hw, hequal, hle⟩ := ih hv.2 hinner
    split at hrest
    · rename_i hsame
      cases hrest
      exact ⟨hequal hsame, fun _ => hequal hsame, hle⟩
    · cases hrest
      refine ⟨hw, fun hidentity => ?_, Nat.le_succ_of_le hle⟩
      -- the new optional has an identity that no value made before can have
      have hnew : (⟨h₁.optionals⟩ : Identity) = i := eq_of_beq hidentity
      have hold : i.number < h.optionals := hv.1
      rw [← hnew] at hold
      exact absurd hold (Nat.not_lt_of_le hle)
  | case5 type v hnil hnothing hjust ih =>
    obtain ⟨converted, h₁, hinner, hrest⟩ := Alloc.bind_eq_ok.mp hrun
    obtain ⟨hw, -, hle⟩ := ih hv hinner
    cases hrest
    refine ⟨hw, fun hequal => ?_, Nat.le_succ_of_le hle⟩
    cases v with
    | just i content => exact (hjust i content rfl).elim
    | _ => cases hequal
  | case19 => cases hrun
  | case1 | case3 | case6 | case9 | case12 | case15 | case16 | case17 | case18 =>
    cases hrun
    exact ⟨rfl, fun _ => rfl, Nat.le_refl _⟩
  | _ =>
    -- a number of another type comes out as one of this type, and so as no equal one
    cases hrun
    refine ⟨rfl, fun hequal => ?_, Nat.le_refl _⟩
    cases hequal

/-- Conversion obeys this discipline, and gives a value of the type. -/
theorem Ty.coerce_admits (type : Ty) (v : Value) {h : Heap} (hs : h.Sound .made)
    (hv : v.Made h) :
    Alloc.Obeys .made h (type.coerce v) fun _ w =>
      type.admits w = true ∧ (w.equal v = true → type.admits v = true) := by
  have hobeys := Ty.coerce_obeys (D := .made) type v hs hv
  unfold Alloc.Obeys
  cases hrun : type.coerce v h with
  | error e => exact hobeys.error hrun
  | ok p =>
    obtain ⟨hw, hequal, -⟩ := Ty.admits_of_coerce hv hrun
    exact ⟨(hobeys.ok hrun).1, hw, hequal⟩

/-! ## §3. Typed states -/

/-- Every object has been made, and every binding holds a value of its type. -/
structure State.Typed (s : State) : Prop where
  heap : s.heap.Sound .made
  made : s.scopes.All fun b => b.value.Made s.heap
  admits : s.scopes.All fun b => b.type.admits b.value = true

/-- A typed state is sound for hosts that hand out only what has been made. -/
theorem State.Typed.sound {s : State} (hs : s.Typed) {host : Host}
    (ho : host.Obeys .made s.heap) : s.Sound host .made :=
  ⟨hs.heap, hs.made, ho⟩

/-- **Every effect leaves the bindings typed.** -/
theorem Effect.typed {host : Host} {k : Licence} {s t : State} (he : Effect host .made k s t)
    (hs : s.Sound host .made) (hb : s.scopes.All fun b => b.type.admits b.value = true) :
    t.scopes.All fun b => b.type.admits b.value = true := by
  induction he with
  -- along the steps: each leaves the state sound, so that the next one may rely on it
  | trans he₁ _ ih₁ ih₂ => exact ih₂ (he₁.sound hs).1 (ih₁ hs hb)
  | call names _ _ ih => exact (ih hs.openCall (hb.push .call)).pop
  | block names _ _ ih => exact (ih (hs.openFrame .block) (hb.push .block)).pop
  | loop item _ _ ih => exact (ih (hs.openFrame .block) (hb.push .block)).pop
  -- what is bound or assigned has been converted to the type of its variable
  | @declare k s name type v w h constant _ _ hv hw =>
    obtain ⟨-, hadmits, -⟩ := (Ty.coerce_admits type v hs.heap hv).ok hw
    exact hb.bind name hadmits
  | @assign k s name b v w h _ _ _ hv hw =>
    obtain ⟨-, hadmits, -⟩ := (Ty.coerce_admits b.type v hs.heap hv).ok hw
    exact hb.set name hadmits
  -- a loop variable has the type of its value
  | @rebind k s name v _ _ => exact hb.bind name v.inferredType_admits
  | refl | heap | print | trace | report | define => exact hb

/-- An effect of such a host leaves a typed state typed. -/
theorem State.Typed.effect {host : Host} {k : Licence} {s t : State} (hs : s.Typed)
    (ho : host.Obeys .made s.heap) (he : Effect host .made k s t) : t.Typed := by
  obtain ⟨ht, -⟩ := he.sound (hs.sound ho)
  exact ⟨ht.heap, ht.scopes, he.typed (hs.sound ho) hs.admits⟩

/-- Whatever is neither a binding nor an object plays no part. -/
theorem State.Typed.congr {s t : State} (hs : s.Typed) (hscopes : t.scopes = s.scopes)
    (hheap : t.heap = s.heap) : t.Typed := by
  obtain ⟨hsound, hmade, hadmits⟩ := hs
  rw [← hheap] at hsound hmade
  rw [← hscopes] at hmade hadmits
  exact ⟨hsound, hmade, hadmits⟩

/-! ## §4. Reachable states -/

/-- The states that come about from the one in which nothing has happened, by running programs and by
    operations on the scopes, with any outcome.  Frames and calls may be open in them, as they are in
    the middle of a run. -/
inductive State.Reachable : State → Prop
  | fresh : Reachable {}
  /-- A program is run, by a host that hands out only values whose objects exist. -/
  | program {host fuel program errors s t} : Reachable s → Host.Obeys host .made s.heap →
      Program.exec host fuel program s = some (errors, t) → Reachable t
  /-- Statements are executed in the current frame. -/
  | block {host fuel body signal s t} : Reachable s → Host.Obeys host .made s.heap →
      Block.exec host fuel body s = some (signal, t) → Reachable t
  /-- An expression is evaluated in the current frame. -/
  | expression {host fuel e r s t} : Reachable s → Host.Obeys host .made s.heap →
      Expr.eval host fuel e s = some (r, t) → Reachable t
  | openFrame {s} (kind : FrameKind) : Reachable s → Reachable (s.openFrame kind)
  | closeFrame {s} : Reachable s → Reachable s.closeFrame
  /-- A name is declared, or refused. -/
  | declare {name type v constant r s t} : Reachable s → Value.Made s.heap v →
      (Eval.changeScopes fun scopes => scopes.declare name type v constant) s = some (r, t) →
      Reachable t
  /-- A name is assigned, or refused. -/
  | assign {name v r s t} : Reachable s → Value.Made s.heap v →
      (Eval.changeScopes fun scopes => scopes.assign name v) s = some (r, t) → Reachable t
  | rebind {name v s} : Reachable s → Value.Made s.heap v →
      Reachable { s with scopes := s.scopes.rebind name v }
  /-- Objects are made or changed from outside. -/
  | objects {h s} : Reachable s → Discipline.made.Change s.heap h → Reachable { s with heap := h }
  /-- Anything else happens: lines are delivered, a function is defined, a call is opened. -/
  | elsewhere {s t} : Reachable s → t.scopes = s.scopes → t.heap = s.heap → Reachable t

/-- **Every reachable state is typed.** -/
theorem State.Reachable.typed {s : State} (hs : s.Reachable) : s.Typed := by
  induction hs with
  | fresh => exact ⟨.empty, .empty, .empty⟩
  | program _ ho hrun ih =>
    -- after its statements a program only hands over errors
    obtain ⟨signal, u, hblock, hscopes, hheap, -⟩ := Program.exec_block hrun
    have hu := ih.effect ho (Block.exec_effect (ih.sound ho) hblock).1
    exact hu.congr hscopes hheap
  | block _ ho hrun ih => exact ih.effect ho (Block.exec_effect (ih.sound ho) hrun).1
  | expression _ ho hrun ih => exact ih.effect ho (Expr.eval_effect (ih.sound ho) hrun).1
  | openFrame kind _ ih => exact ⟨ih.heap, ih.made.push kind, ih.admits.push kind⟩
  | closeFrame _ ih => exact ⟨ih.heap, ih.made.pop, ih.admits.pop⟩
  | @declare name type v constant r s t _ hv hrun ih =>
    have ho := Host.Obeys.builtin {} .made s.heap
    have hleads : Eval.Leads {} .made (.frame [name]) s
        (Eval.changeScopes fun scopes => scopes.declare name type v constant) fun _ _ => True :=
      .declare (List.mem_singleton_self name) hv
    exact ih.effect ho (hleads (ih.sound ho) r t hrun).1
  | @assign name v r s t _ hv hrun ih =>
    have ho := Host.Obeys.builtin {} .made s.heap
    have hleads : Eval.Leads {} .made (.frame []) s
        (Eval.changeScopes fun scopes => scopes.assign name v) fun _ _ => True :=
      .assign trivial hv
    exact ih.effect ho (hleads (ih.sound ho) r t hrun).1
  | @rebind name v s _ hv ih =>
    exact ih.effect (.builtin {} .made s.heap) (.rebind (k := .rounds name) rfl hv)
  | @objects h s _ hc ih =>
    exact ih.effect (.builtin {} .made s.heap) (.heap (k := .expression) hc)
  | elsewhere _ hscopes hheap ih => exact ih.congr hscopes hheap

/-- A call that succeeds has a value of the type of the function's result. -/
theorem Eval.callFunction_admits {host : Host} {fuel : Nat} {f : Func} {args : List Expr}
    {v : Value} {s t : State} (hs : s.Sound host .made)
    (h : Eval.callFunction host (Expr.eval host fuel) (Block.exec host fuel) f args s =
      some (.ok v, t)) : f.returns.admits v = true := by
  obtain ⟨he, hx⟩ := run_leads host .made fuel
  have hleads := Eval.callFunction_leads (k := .expression)
    (Q := fun _ v => f.returns.admits v = true) he hx f
    (fun k v s hv => .ofAlloc fun hs =>
      (Ty.coerce_admits f.returns v hs.heap hv).imp fun _ _ hw => hw.1) args s
  exact (hleads hs (.ok v) t h).2

/-- **The store is typed.**  In every reachable state each binding holds a value of its declared
    type, and each call that succeeds there has a value of the declared type of its result. -/
theorem store_is_typed (s : State) (hs : s.Reachable) :
    (s.scopes.All fun b => b.type.admits b.value = true) ∧
    ∀ host fuel f args v t, Host.Obeys host .made s.heap →
      Eval.callFunction host (Expr.eval host fuel) (Block.exec host fuel) f args s =
        some (.ok v, t) →
      f.returns.admits v = true := by
  refine ⟨hs.typed.admits, ?_⟩
  intro host fuel f args v t ho h
  exact Eval.callFunction_admits (hs.typed.sound ho) h

/-- An optional integer on its way into an optional of optional doubles, through a declaration and
    through a call. -/
theorem store_is_typed_through_optionals :
    (∃ errors t,
      Program.exec {} 9
        [.func "f" [⟨"n", .optional .int, none⟩] (.optional .double) [.ret (.var "n")],
          .declare "a" (some (.optional .int)) (.int 1) false,
          .declare "b" (some (.optional (.optional .double))) (.var "a") false,
          .assign "b" (.call "f" [.var "a"])] {} = some (errors, t) ∧
      (errors = [] ∧ t.scopes.isBound "b" = true) ∧
      ∀ b, t.scopes.get? "b" = some b → b.type.admits b.value = true) ∧
    (∃ r t,
      Eval.callFunction {} (Expr.eval {} 9) (Block.exec {} 9)
        ⟨"f", [⟨"n", .optional .int, none⟩], .optional .double, [.ret (.var "n")]⟩ [.int 1] {} =
          some (r, t) ∧
      r.toBool = true ∧ ∀ v, r = .ok v → Ty.admits (.optional .double) v = true) := by
  have ho : ∀ h, Host.Obeys {} .made h := .builtin {} .made
  refine ⟨Run.ends_with ⟨_, _, rfl, rfl, rfl⟩ fun errors t h b hb => ?_,
    Run.ends_with ⟨_, _, rfl, rfl⟩ fun r t h v hv => ?_⟩
  · obtain ⟨hadmits, -⟩ := store_is_typed t (.program .fresh (ho _) h)
    exact hadmits.get? hb
  · obtain ⟨-, hcalls⟩ := store_is_typed {} .fresh
    subst hv
    exact hcalls {} 9 _ _ v t (ho _) h

end Scriptlet
