/-
  Scriptlet.Proofs.Conversion — what becomes of a value that is converted to a type.

  A conversion goes down through the optionals of the type and of the value until they meet in a type
  that is no optional.  There the value is kept, becomes a number of the type, or is refused.  On the
  way back optionals are made and nothing else, so arrays and dictionaries are always handed on.

  An optional is handed on too if its content came out equal to what it was.  Equality says so of all
  content that was kept, but for one kind: not-a-number differs from itself, and an optional around it
  is made anew.  `Ty.renews` says where this happens, and it is the only way in which a conversion of a
  value that is of the type already can be noticed.

  The facts about floats that equal themselves come with the whole of the library, with no single
  module of it.

  Main results:
    * `Ty.coerce_of_admits`, `Ty.coerce_renews` — values that are of the type already.
    * `Ty.coerce_ok_iff`, `Ty.coerce_error` — the conversions that succeed, and how the others fail.
    * `conversion_keeps_identity` — all of it about identity, for every way to hand a value on.
    * `conversion_is_exact` — all of it about success and repetition.
-/
import Mathlib
import Scriptlet.Proofs.LoopHeads
import Scriptlet.Proofs.Rendering
import Scriptlet.Proofs.TypedStore

namespace Scriptlet

/-! ## §1. Values that differ from themselves -/

namespace Value

/-- Whether the value is not a number, in either width. -/
def isNaN : Value → Bool
  | .float x => x.isNaN
  | .double x => x.isNaN
  | _ => false

/-- The value without what tells its optionals from others. -/
def anonymous : Value → Value
  | .nothing _ => .nothing ⟨0⟩
  | .just _ content => .just ⟨0⟩ content.anonymous
  | v => v

/-- **A value equals itself unless it is not a number.** -/
theorem equal_self (v : Value) : v.equal v = !v.isNaN := by
  cases v with
  | float x =>
    show (x == x) = !x.isNaN
    rw [Float32.isNaN_eq_decide_eq_nan, ← decide_not, Bool.eq_iff_iff, decide_eq_true_iff]
    exact Float32.beq_self_iff
  | double x =>
    show (x == x) = !x.isNaN
    rw [Float.isNaN_eq_decide_eq_nan, ← decide_not, Bool.eq_iff_iff, decide_eq_true_iff]
    exact Float.beq_self_iff
  | _ => simp [equal, isNaN]

end Value

/-! ## §2. Values that are of the type already -/

namespace Ty

/-- Whether a conversion to the type finds, below optionals of the type and the value, content that is
    not a number. -/
def renews : Ty → Value → Bool
  | .optional type, .just _ content => content.isNaN || type.renews content
  | _, _ => false

variable {T : Ty} {v : Value}

/-- What is not a number is no optional, so nothing is below it. -/
theorem renews_of_isNaN (hnan : v.isNaN = true) : T.renews v = false := by
  cases v with
  | just i content => cases hnan
  | _ => cases T <;> rfl

/-- A type that is no optional keeps what is of the type. -/
theorem coerce_base (hT : ∀ content, T ≠ .optional content) (hv : T.admits v = true) (h : Heap) :
    T.coerce v h = .ok (v, h) := by
  cases T with
  | optional content => exact absurd rfl (hT content)
  | any => rfl
  | _ => cases v <;> first | rfl | cases hv

/-- An optional is kept where its content comes out equal, and renewed otherwise. -/
theorem coerce_just {content converted : Value} {h h' : Heap} (i : Identity)
    (hinner : T.coerce content h = .ok (converted, h')) :
    (Ty.optional T).coerce (.just i content) h =
      if converted.equal content then .ok (.just i content, h') else .ok (h'.newJust converted) := by
  refine (Alloc.bind_ok hinner).trans ?_
  split <;> rfl

/-- **What is of the type is handed on**, and nothing is made. -/
theorem coerce_of_admits (hv : T.admits v = true) (hrenews : T.renews v = false) (h : Heap) :
    T.coerce v h = .ok (v, h) := by
  induction T generalizing v with
  | optional T ih =>
    cases v with
    | nothing i => rfl
    | just i content =>
      obtain ⟨hnan, hinner⟩ := Bool.or_eq_false_iff.mp hrenews
      rw [coerce_just i (ih hv hinner), content.equal_self, hnan]
      rfl
    | _ => cases hv
  | _ => exact coerce_base (fun _ heq => by cases heq) hv h

/-- **Around content that is not a number an optional is made anew**: the value comes out the same but
    for the identities of its optionals, and unlike any value made before. -/
theorem coerce_renews (hv : T.admits v = true) (hrenews : T.renews v = true) (h : Heap) :
    ∃ w h', T.coerce v h = .ok (w, h') ∧ h.optionals < h'.optionals ∧
      w.anonymous = v.anonymous ∧
      (v.Made h → ∃ i content, w = .just i content ∧ h.optionals ≤ i.number) := by
  induction T generalizing v with
  | optional T ih =>
    cases v with
    | just i content =>
      have hv : T.admits content = true := hv
      by_cases hnan : content.isNaN = true
      · -- the content is kept, but it differs from itself
        refine ⟨.just ⟨h.optionals⟩ content, { h with optionals := h.optionals + 1 }, ?_,
          Nat.lt_succ_self _, rfl, fun _ => ⟨_, content, rfl, Nat.le_refl _⟩⟩
        rw [coerce_just i (coerce_of_admits hv (renews_of_isNaN hnan) h), content.equal_self, hnan]
        rfl
      obtain ⟨inner, h', hcoerce, hlt, hsame, hnew⟩ :=
        ih hv ((Bool.or_eq_true_iff.mp hrenews).resolve_left hnan)
      by_cases hequal : inner.equal content = true
      · refine ⟨.just i content, h', ?_, hlt, rfl, fun hmade => ?_⟩
        · rw [coerce_just i hcoerce, if_pos hequal]
        · -- the content came out as an optional that no value made before equals
          obtain ⟨j, below, rfl, hj⟩ := hnew hmade.2
          cases content with
          | just k inside =>
            have hjk : j = k := eq_of_beq hequal
            exact absurd (hjk ▸ hj) (Nat.not_le_of_lt hmade.2.1)
          | _ => cases hequal
      · refine ⟨.just ⟨h'.optionals⟩ inner, { h' with optionals := h'.optionals + 1 }, ?_,
          Nat.lt_succ_of_lt hlt, congrArg (Value.just ⟨0⟩) hsame,
          fun _ => ⟨_, inner, rfl, Nat.le_of_lt hlt⟩⟩
        rw [coerce_just i hcoerce, if_neg hequal]
        rfl
    | _ => cases hrenews
  | _ => cases hrenews

/-- What is of the type comes out the same but for the identities of its optionals. -/
theorem coerce_admitted (hv : T.admits v = true) (h : Heap) :
    ∃ w h', T.coerce v h = .ok (w, h') ∧ w.anonymous = v.anonymous := by
  cases hrenews : T.renews v with
  | false => exact ⟨v, h, coerce_of_admits hv hrenews h, rfl⟩
  | true =>
    obtain ⟨w, h', hcoerce, -, hsame, -⟩ := coerce_renews hv hrenews h
    exact ⟨w, h', hcoerce, hsame⟩

end Ty

/-! ## §3. Arrays and dictionaries -/

/-- **A conversion hands arrays and dictionaries on**: what it gives holds the container that the value
    held, if it held one, and all containers are as before. -/
theorem Ty.coerce_container {T : Ty} {v w : Value} {h h' : Heap} (hrun : T.coerce v h = .ok (w, h')) :
    w.container? = v.container? ∧ h'.arrays = h.arrays ∧ h'.dicts = h.dicts := by
  fun_induction Ty.coerce T v generalizing w h h' with
  -- an optional with a content: the content is converted, and the optional kept or renewed
  | case4 T i content ih =>
    obtain ⟨converted, h₁, hinner, hrest⟩ := Alloc.bind_eq_ok.mp hrun
    obtain ⟨hcontainer, harrays, hdicts⟩ := ih hinner
    split at hrest
    · cases hrest
      exact ⟨rfl, harrays, hdicts⟩
    · cases hrest
      exact ⟨hcontainer, harrays, hdicts⟩
  -- a bare value: it is converted and put into a new optional
  | case5 T v hnil hnothing hjust ih =>
    obtain ⟨converted, h₁, hinner, hrest⟩ := Alloc.bind_eq_ok.mp hrun
    obtain ⟨hcontainer, harrays, hdicts⟩ := ih hinner
    cases hrest
    exact ⟨hcontainer, harrays, hdicts⟩
  | case19 => cases hrun
  | _ =>
    cases hrun
    exact ⟨rfl, rfl, rfl⟩

/-! ## §4. Ways to hand a value on -/

/-- Every slot of the type takes the value as it is: a declaration and an assignment leave the name
    bound to it, a parameter is bound to it, and a call returns it; and nothing is made. -/
structure Ty.HandsOn (T : Ty) (v : Value) : Prop where
  declared : ∀ (evaluate : Eval.Evaluate) (execute : Eval.Execute) (rounds : Nat) (name : String)
    (e : Expr) (constant : Bool) (s t : State), evaluate e s = some (.ok v, t) →
    t.scopes.current.contains name = false →
    ∃ scopes, Eval.effect evaluate execute rounds (.declare name (some T) e constant) s =
        some (.ok .next, { t with scopes }) ∧ scopes.get? name = some ⟨T, v, constant⟩
  assigned : ∀ (evaluate : Eval.Evaluate) (execute : Eval.Execute) (rounds : Nat) (name : String)
    (e : Expr) (b : Binding) (s t : State), evaluate e s = some (.ok v, t) →
    t.scopes.get? name = some b → b.type = T → b.constant = false →
    ∃ scopes, Eval.effect evaluate execute rounds (.assign name e) s =
        some (.ok .next, { t with scopes }) ∧ scopes.get? name = some { b with value := v }
  passed : ∀ (evaluate : Eval.Evaluate) (f : Func) (supplied : Nat) (p : Param) (ps : List Param)
    (args : List Value) (s : State), p.type = T → s.scopes.current.contains p.name = false →
    ∃ scopes, Eval.bindParams evaluate f supplied (p :: ps) (v :: args) s =
        Eval.bindParams evaluate f supplied ps args { s with scopes } ∧
      scopes.get? p.name = some ⟨T, v, true⟩
  returned : ∀ (f : Func) (s : State), f.returns = T → Eval.callResult f (.ret v) s = some (.ok v, s)

section HandsOn

variable {T : Ty} {v : Value} (hkept : ∀ h, T.coerce v h = .ok (v, h))

include hkept

/-- A declaration binds a value that the conversion keeps as it is. -/
theorem Eval.declare_kept {name : String} {constant : Bool} {s : State}
    (hnew : s.scopes.current.contains name = false) :
    Eval.changeScopes (fun scopes => scopes.declare name T v constant) s =
      some (.ok (), { s with scopes := s.scopes.bind name ⟨T, v, constant⟩ }) := by
  refine (Eval.changeScopes_run _ s).trans ?_
  rw [Scopes.declare_run, hnew, hkept]
  rfl

/-- So does an assignment. -/
theorem Eval.assign_kept {name : String} {b : Binding} {s : State}
    (hb : s.scopes.get? name = some b) (htype : b.type = T) (hconstant : b.constant = false) :
    Eval.changeScopes (fun scopes => scopes.assign name v) s =
      some (.ok (), { s with scopes := s.scopes.set name { b with value := v } }) := by
  refine (Eval.changeScopes_run _ s).trans ?_
  rw [Scopes.assign_run, hb]
  dsimp only
  rw [hconstant, htype, hkept]
  rfl

/-- A value that the conversion keeps is handed on in all four places. -/
theorem Ty.HandsOn.of_kept : T.HandsOn v where
  declared evaluate execute rounds name e constant s t he hnew := by
    refine ⟨_, ?_, t.scopes.get?_bind name ⟨T, v, constant⟩⟩
    exact (Eval.bind_ok he).trans (Eval.bind_ok (Eval.declare_kept hkept hnew))
  assigned evaluate execute rounds name e b s t he hb htype hconstant := by
    refine ⟨_, ?_, t.scopes.get?_set name { b with value := v }⟩
    exact (Eval.bind_ok he).trans (Eval.bind_ok (Eval.assign_kept hkept hb htype hconstant))
  passed evaluate f supplied p ps args s htype hnew := by
    refine ⟨_, ?_, s.scopes.get?_bind p.name ⟨T, v, true⟩⟩
    subst htype
    exact Eval.bind_ok (Eval.declare_kept hkept hnew)
  returned f s hreturns := by
    subst hreturns
    exact Eval.ofAlloc_ok (hkept s.heap)

end HandsOn

/-! ## §5. Identity -/

/-- **Conversion keeps identity.**  A value that is of the type already is handed on as it is, and
    nothing is made, exactly if no optional on the way holds what is not a number.  Then every slot of
    the type takes it as it is.  An array, dictionary or optional that exists comes out equal to itself
    exactly in the same case.  And whatever is converted, to whatever type: an array or dictionary in
    the result is the one that was in the value, and all of them are as before. -/
theorem conversion_keeps_identity (T : Ty) (v : Value) (h : Heap) :
    (T.admits v = true →
      (T.coerce v h = .ok (v, h) ↔ T.renews v = false) ∧
      (T.renews v = false → T.HandsOn v) ∧
      (v.isPlain = false → v.Made h →
        ∃ w h', T.coerce v h = .ok (w, h') ∧ (w.equal v = true ↔ T.renews v = false))) ∧
    ∀ w h', T.coerce v h = .ok (w, h') →
      w.container? = v.container? ∧ h'.arrays = h.arrays ∧ h'.dicts = h.dicts := by
  refine ⟨fun hv => ⟨⟨fun hsame => ?_, fun hrenews => ?_⟩, fun hrenews => ?_, fun hobject hmade => ?_⟩,
    fun w h' hrun => Ty.coerce_container hrun⟩
  · -- where an optional is made anew there is one more
    cases hrenews : T.renews v with
    | false => rfl
    | true =>
      obtain ⟨w, h', hcoerce, hlt, -⟩ := Ty.coerce_renews hv hrenews h
      cases hsame.symm.trans hcoerce
      exact absurd hlt (Nat.lt_irrefl _)
  · exact Ty.coerce_of_admits hv hrenews h
  · exact .of_kept fun h => Ty.coerce_of_admits hv hrenews h
  · cases hrenews : T.renews v with
    | false =>
      refine ⟨v, h, Ty.coerce_of_admits hv hrenews h, ⟨fun _ => rfl, fun _ => ?_⟩⟩
      rw [v.equal_self]
      cases v with
      | array | dict | nothing | just => rfl
      | _ => cases hobject
    | true =>
      obtain ⟨w, h', hcoerce, -, -, hnew⟩ := Ty.coerce_renews hv hrenews h
      refine ⟨w, h', hcoerce, ⟨fun hequal => ?_, fun hno => by cases hno⟩⟩
      obtain ⟨i, content, rfl, hi⟩ := hnew hmade
      cases v with
      | just j inside =>
        have hij : i = j := eq_of_beq hequal
        exact absurd (hij ▸ hi) (Nat.not_le_of_lt hmade.1)
      | _ => cases hequal

/-- Through two optionals an array comes out of a slot of its type as what it was. -/
theorem conversion_keeps_identity_nested :
    let T : Ty := .optional (.optional (.array .int))
    let v : Value := .just ⟨1⟩ (.just ⟨0⟩ (.array ⟨0⟩))
    let h : Heap := { arrays := #[#[.int 7]], optionals := 2 }
    T.admits v = true ∧ v.isPlain = false ∧ v.Made h ∧ T.coerce v h = .ok (v, h) ∧ T.HandsOn v ∧
      (∃ w h', T.coerce v h = .ok (w, h') ∧ w.equal v = true) ∧
      v.container? = some (.array ⟨0⟩) := by
  intro T v h
  have hadmits : T.admits v = true := rfl
  have hmade : v.Made h := ⟨by decide, by decide, Nat.zero_lt_one⟩
  obtain ⟨⟨hcoerce, hslots, hequal⟩, -⟩ :=
    (conversion_keeps_identity T v h).imp_left fun hall =>
      (hall hadmits).imp_right fun hrest => hrest.imp_right fun hequal => hequal rfl hmade
  obtain ⟨w, h', hrun, hsame⟩ := hequal
  exact ⟨hadmits, rfl, hmade, hcoerce.mpr rfl, hslots rfl, ⟨w, h', hrun, hsame.mpr rfl⟩, rfl⟩

/-- **What is not a number loses its optional.**  Two variables of one optional type, the second
    declared with the first as its value, are unequal. -/
theorem nan_loses_its_optional :
    let T : Ty := .optional .double
    let v : Value := .just ⟨0⟩ (.double (0.0 / 0.0))
    let h : Heap := { optionals := 1 }
    T.admits v = true ∧ v.Made h ∧
    (T.coerce v h).toOption.map (fun p => p.1.equal v) = some false ∧
    (Program.exec {} 9
      [.declare "a" (some T) (.call "float" [.string "nan"]) false,
        .declare "b" (some T) (.var "a") false,
        .print (.binary .eq (.var "a") (.var "b"))] {}).map (·.2.printed) = some #["false"] := by
  intro T v h
  refine ⟨rfl, ⟨by decide, trivial⟩, ?_, ?_⟩
  · decide +kernel
  · decide +kernel

/-! ## §6. Success -/

/-- Whether the value is a number, of any of the three types. -/
def Value.isNumber : Value → Bool
  | .int _ | .float _ | .double _ => true
  | _ => false

namespace Ty

/-- The values that can be converted to a type. -/
inductive Compatible : Ty → Value → Prop
  | any (v : Value) : Compatible .any v
  | number {T : Ty} {v : Value} :
    T.isNumeric = true → v.isNumber = true → Compatible T v
  | bool (b : Bool) : Compatible .bool (.bool b)
  | string (s : String) : Compatible .string (.string s)
  | array (element : Ty) (ref : ArrayRef) : Compatible (.array element) (.array ref)
  | dict (key value : Ty) (ref : DictRef) : Compatible (.dict key value) (.dict ref)
  | nil (T : Ty) : Compatible (.optional T) .nil
  | nothing (T : Ty) (i : Identity) : Compatible (.optional T) (.nothing i)
  | just {T : Ty} {content : Value} (i : Identity) :
    Compatible T content → Compatible (.optional T) (.just i content)
  | bare {T : Ty} {v : Value} :
    v.kind ≠ .optional → Compatible T v → Compatible (.optional T) v

/-- The type and the value at which a conversion arrives below optionals. -/
def meeting : Ty → Value → Ty × Value
  | .optional T, .just _ content => T.meeting content
  | .optional T, v => T.meeting v
  | T, v => (T, v)

variable {T : Ty} {v : Value} {h h' : Heap}

/-- A value that is no optional is converted to the content type and wrapped. -/
theorem coerce_bare {converted : Value} (hbare : v.kind ≠ .optional) (hnil : v ≠ .nil)
    (hinner : T.coerce v h = .ok (converted, h')) :
    (Ty.optional T).coerce v h = .ok (h'.newJust converted) := by
  cases v with
  | nil => exact absurd rfl hnil
  | nothing | just => exact absurd rfl hbare
  | _ => exact Alloc.bind_ok hinner

/-- What can be converted is compatible. -/
theorem compatible_of_coerce {w : Value} (hrun : T.coerce v h = .ok (w, h')) : Compatible T v := by
  -- along the recursion of the conversion
  fun_induction Ty.coerce T v generalizing w h h' with
  | case1 v => exact .any v
  | case2 T => exact .nil T
  | case3 T i => exact .nothing T i
  | case4 T i content ih =>
    obtain ⟨converted, h₁, hinner, -⟩ := Alloc.bind_eq_ok.mp hrun
    exact .just i (ih hinner)
  | case5 T v hnil hnothing hjust ih =>
    obtain ⟨converted, h₁, hinner, -⟩ := Alloc.bind_eq_ok.mp hrun
    -- what comes here is no optional
    refine .bare (fun hkind => ?_) (ih hinner)
    cases v with
    | nothing i => exact hnothing i rfl
    | just i content => exact hjust i content rfl
    | _ => cases hkind
  | case15 b => exact .bool b
  | case16 s => exact .string s
  | case17 element ref => exact .array element ref
  | case18 key value ref => exact .dict key value ref
  | case19 => cases hrun
  | _ => exact .number rfl rfl

/-- What is compatible can be converted. -/
theorem coerce_of_compatible (hcompatible : Compatible T v) (h : Heap) :
    ∃ w h', T.coerce v h = .ok (w, h') := by
  induction hcompatible with
  | @number T v hT hv =>
    -- every number goes into every type of numbers
    cases T <;> cases hT <;> cases v <;> cases hv <;> exact ⟨_, _, rfl⟩
  | just i _ ih =>
    obtain ⟨converted, h', hinner⟩ := ih
    rw [coerce_just i hinner]
    split <;> exact ⟨_, _, rfl⟩
  | @bare T v hbare _ ih =>
    obtain ⟨converted, h', hinner⟩ := ih
    by_cases hnil : v = .nil
    · subst hnil
      exact ⟨_, _, rfl⟩
    · exact ⟨_, _, coerce_bare hbare hnil hinner⟩
  | _ => exact ⟨_, _, rfl⟩

/-- **A conversion succeeds exactly on the values that can be converted to the type.** -/
theorem coerce_ok_iff : (∃ w h', T.coerce v h = .ok (w, h')) ↔ Compatible T v :=
  ⟨fun ⟨_, _, hrun⟩ => compatible_of_coerce hrun, fun hcompatible => coerce_of_compatible hcompatible h⟩

/-- **A conversion that fails names the type and the kind that met.** -/
theorem coerce_error {e : Error} (hrun : T.coerce v h = .error e) :
    e = .notConvertible (T.meeting v).1 (T.meeting v).2.kind := by
  fun_induction Ty.coerce T v generalizing h with
  -- an optional fails only by its content
  | case4 T i content ih =>
    rcases Alloc.bind_eq_error.mp hrun with hinner | ⟨converted, h₁, -, hrest⟩
    · exact ih hinner
    · split at hrest <;> cases hrest
  | case5 T v hnil hnothing hjust ih =>
    rcases Alloc.bind_eq_error.mp hrun with hinner | ⟨converted, h₁, -, hrest⟩
    · rw [ih hinner, meeting]
      exact hjust
    · cases hrest
  -- no rule applies, so that this is where type and value meet
  | case19 T v =>
    cases hrun
    rw [meeting]
    all_goals grind
  | _ => cases hrun

/-- **A second conversion changes nothing but identities**: what came out is of the type. -/
theorem coerce_again {w : Value} (hv : v.Made h) (hrun : T.coerce v h = .ok (w, h')) :
    ∃ w' h'', T.coerce w h' = .ok (w', h'') ∧ w'.anonymous = w.anonymous :=
  coerce_admitted (admits_of_coerce hv hrun).1 h'

end Ty

/-- **Conversion is exact.**  A conversion succeeds exactly on the compatible pairs.  On all others it
    fails with the type and the kind at which it arrived below optionals.  What a conversion made of a
    value of the heap is converted to the same type again as the same value, up to the identities of
    its optionals, with all arrays and dictionaries as they were. -/
theorem conversion_is_exact (T : Ty) (v : Value) (h : Heap) :
    ((∃ w h', T.coerce v h = .ok (w, h')) ↔ T.Compatible v) ∧
    (¬ T.Compatible v →
      T.coerce v h = .error (.notConvertible (T.meeting v).1 (T.meeting v).2.kind)) ∧
    (v.Made h → ∀ w h', T.coerce v h = .ok (w, h') →
      ∃ w' h'', T.coerce w h' = .ok (w', h'') ∧ w'.anonymous = w.anonymous ∧
        h''.arrays = h'.arrays ∧ h''.dicts = h'.dicts) := by
  refine ⟨Ty.coerce_ok_iff, fun hno => ?_, fun hv w h' hrun => ?_⟩
  -- what cannot be converted fails
  · cases hrun : T.coerce v h with
    | ok p => exact absurd (Ty.compatible_of_coerce hrun) hno
    | error e => rw [Ty.coerce_error hrun]
  -- what has been converted can be converted again
  · obtain ⟨w', h'', hagain, hsame⟩ := Ty.coerce_again hv hrun
    obtain ⟨-, hobjects⟩ := Ty.coerce_container hagain
    exact ⟨w', h'', hagain, hsame, hobjects⟩

/-- A number below two optionals becomes one of another type, and is no string. -/
theorem conversion_is_exact_nested :
    let v : Value := .just ⟨1⟩ (.just ⟨0⟩ (.int 3))
    let h : Heap := { optionals := 2 }
    (Ty.optional (.optional .float)).Compatible v ∧
    (∃ w h' w' h'', (Ty.optional (.optional .float)).coerce v h = .ok (w, h') ∧
      (Ty.optional (.optional .float)).coerce w h' = .ok (w', h'') ∧ w'.anonymous = w.anonymous) ∧
    ¬ (Ty.optional (.optional .string)).Compatible v ∧
    (Ty.optional (.optional .string)).coerce v h = .error (.notConvertible .string .int) := by
  intro v h
  have hmade : v.Made h := ⟨by decide, by decide, trivial⟩
  have hcompatible : (Ty.optional (.optional .float)).Compatible v :=
    .just _ (.just _ (.number rfl rfl))
  have hstring : ¬ (Ty.optional (.optional .string)).Compatible v := by
    intro hv
    obtain ⟨w, h', hrun⟩ := (conversion_is_exact _ v h).1.mpr hv
    cases hrun
  obtain ⟨hok, -, hagain⟩ := conversion_is_exact (.optional (.optional .float)) v h
  obtain ⟨w, h', hrun⟩ := hok.mpr hcompatible
  obtain ⟨w', h'', hsecond, hsame, -⟩ := hagain hmade w h' hrun
  exact ⟨hcompatible, ⟨w, h', w', h'', hrun, hsecond, hsame⟩, hstring,
    (conversion_is_exact (.optional (.optional .string)) v h).2.1 hstring⟩

end Scriptlet
