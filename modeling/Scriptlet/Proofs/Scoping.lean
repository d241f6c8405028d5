/-
  Scriptlet.Proofs.Scoping — what a run does to the stack of scopes.

  A binding that exists keeps its type and whether it is constant, and a constant keeps its value.
  The frames of the current call keep their names, except that the innermost one takes the names
  declared directly in the running statements.  The frames below the current call stay as they are,
  and so do all frames but the global one while an expression is evaluated.

  Main results:
    * `Effect.grow` — every effect lets the scopes grow in this way and in no other.
    * `runs_restore_frames` — frames and open calls are as many and of the same kinds as before.
    * `bindings_are_stable` — what a list of statements leaves of the bindings of every frame.
    * `expressions_write_only_globals` — an expression changes nothing but values of globals.
-/
import Scriptlet.Proofs.Evaluation

namespace Scriptlet

/-! ## §1. Bindings of one frame -/

/-- The second binding is what the first can become. -/
structure Binding.Kept (b b' : Binding) : Prop where
  type : b'.type = b.type
  constant : b'.constant = b.constant
  value : b.constant = true → b'.value = b.value

theorem Binding.Kept.refl (b : Binding) : b.Kept b := ⟨rfl, rfl, fun _ => rfl⟩

theorem Binding.Kept.trans {b c d : Binding} (h₁ : b.Kept c) (h₂ : c.Kept d) : b.Kept d where
  type := h₂.type.trans h₁.type
  constant := h₂.constant.trans h₁.constant
  value hb := (h₂.value (h₁.constant.trans hb)).trans (h₁.value hb)

/-- What the bindings of the innermost frame can become under a licence. -/
structure Licence.Grows (k : Licence) (m m' : OrderedMap Binding) : Prop where
  /-- Bindings are kept, if the licence does not let them be bound anew. -/
  kept : ∀ name b, ¬ k.rebinds name → m.get? name = some b →
    ∃ b', m'.get? name = some b' ∧ b.Kept b'
  /-- New names are those that the licence lets be declared. -/
  gained : ∀ name, ¬ k.rebinds name → m.get? name = none → m'.get? name ≠ none → k.declares name

namespace Licence.Grows

variable {k : Licence} {m m' m'' : OrderedMap Binding}

theorem refl (k : Licence) (m : OrderedMap Binding) : k.Grows m m :=
  ⟨fun _ b _ hb => ⟨b, hb, .refl b⟩, fun _ _ hnone hsome => absurd hnone hsome⟩

theorem trans (h₁ : k.Grows m m') (h₂ : k.Grows m' m'') : k.Grows m m'' where
  kept name b hk hb := by
    obtain ⟨c, hc, hbc⟩ := h₁.kept name b hk hb
    obtain ⟨d, hd, hcd⟩ := h₂.kept name c hk hc
    exact ⟨d, hd, hbc.trans hcd⟩
  gained name hk hnone hsome := by
    by_cases hmid : m'.get? name = none
    · exact h₂.gained name hk hmid hsome
    · exact h₁.gained name hk hnone hmid

/-- What an expression can do is open under every licence. -/
theorem of_expression (h : Licence.expression.Grows m m') : k.Grows m m' :=
  ⟨fun name b _ hb => h.kept name b id hb, fun name _ hnone hsome =>
    (h.gained name id hnone hsome).elim⟩

/-- A new name that may be declared. -/
theorem declare {name : String} {b : Binding} (hk : k.declares name) (hnew : m.get? name = none) :
    k.Grows m (m.set name b) where
  kept other c _ hc := by
    -- the new name is none of those that were bound
    have hne : other ≠ name := by
      rintro rfl
      rw [hnew] at hc
      cases hc
    refine ⟨c, ?_, .refl c⟩
    rw [OrderedMap.get?_set, if_neg hne]
    exact hc
  gained other _ hnone hsome := by
    by_cases hne : other = name
    · rw [hne]
      exact hk
    · rw [OrderedMap.get?_set, if_neg hne] at hsome
      exact absurd hnone hsome

/-- Another value for a name that is bound. -/
theorem assign {name : String} {b b' : Binding} (hb : m.get? name = some b) (hkept : b.Kept b') :
    k.Grows m (m.set name b') where
  kept other c _ hc := by
    -- the assigned name, or any other
    by_cases hne : other = name
    · rw [hne, hb] at hc
      cases hc
      refine ⟨b', ?_, hkept⟩
      rw [OrderedMap.get?_set, if_pos hne]
    · refine ⟨c, ?_, .refl c⟩
      rw [OrderedMap.get?_set, if_neg hne]
      exact hc
  gained other _ hnone hsome := by
    by_cases hne : other = name
    · rw [hne, hb] at hnone
      cases hnone
    · rw [OrderedMap.get?_set, if_neg hne] at hsome
      exact absurd hnone hsome

/-- Anything for a name that may be bound anew. -/
theorem rebind {name : String} (b : Binding) (hk : k.rebinds name) : k.Grows m (m.set name b) := by
  have hne : ∀ other, ¬ k.rebinds other → other ≠ name := by
    rintro other hother rfl
    exact hother hk
  constructor
  · intro other c hother hc
    refine ⟨c, ?_, .refl c⟩
    rw [OrderedMap.get?_set, if_neg (hne other hother)]
    exact hc
  · intro other hother hnone hsome
    rw [OrderedMap.get?_set, if_neg (hne other hother)] at hsome
    exact absurd hnone hsome

end Licence.Grows

/-! ## §2. All frames -/

/-- What a stack of frames can become: the innermost one grows as licensed, those of the same call
    as under expressions, and those below the call not at all. -/
inductive FramesGrow : Licence → List Frame → List Frame → Prop
  | nil {k} : FramesGrow k [] []
  | block {k m m' fs gs} : k.Grows m m' → FramesGrow .expression fs gs →
      FramesGrow k (⟨.block, m⟩ :: fs) (⟨.block, m'⟩ :: gs)
  | call {k m m' fs} : k.Grows m m' → FramesGrow k (⟨.call, m⟩ :: fs) (⟨.call, m'⟩ :: fs)

namespace FramesGrow

variable {k : Licence} {fs gs hs : List Frame}

theorem refl (k : Licence) (fs : List Frame) : FramesGrow k fs fs := by
  induction fs generalizing k with
  | nil => exact .nil
  | cons f fs ih =>
    obtain ⟨kind, m⟩ := f
    cases kind with
    | block => exact .block (.refl k m) (ih .expression)
    | call => exact .call (.refl k m)

theorem trans (h₁ : FramesGrow k fs gs) (h₂ : FramesGrow k gs hs) : FramesGrow k fs hs := by
  induction h₁ generalizing hs with
  | nil => exact h₂
  | block hm _ ih =>
    cases h₂ with
    | block hm' hrest => exact .block (hm.trans hm') (ih hrest)
  | call hm =>
    cases h₂ with
    | call hm' => exact .call (hm.trans hm')

theorem of_expression (h : FramesGrow .expression fs gs) : FramesGrow k fs gs := by
  cases h with
  | nil => exact .nil
  | block hm hrest => exact .block hm.of_expression hrest
  | call hm => exact .call hm.of_expression

/-- When a call is over, the frames below it are as they were. -/
theorem below_call {m : OrderedMap Binding} (h : FramesGrow k (⟨.call, m⟩ :: fs) gs) :
    gs.tail = fs := by
  cases h with
  | call _ => rfl

/-- When a block is over, the frames below it have grown as under expressions. -/
theorem below_block {m : OrderedMap Binding} (h : FramesGrow k (⟨.block, m⟩ :: fs) gs) :
    FramesGrow .expression fs gs.tail := by
  cases h with
  | block _ hrest => exact hrest

/-- The kinds of the frames stay. -/
theorem kinds_eq (h : FramesGrow k fs gs) : gs.map (·.kind) = fs.map (·.kind) := by
  induction h with
  | nil => rfl
  | block _ _ ih => rw [List.map_cons, List.map_cons, ih]
  | call _ => rfl

theorem length_eq (h : FramesGrow k fs gs) : gs.length = fs.length := by
  have hlength := congrArg List.length h.kinds_eq
  rw [List.length_map, List.length_map] at hlength
  exact hlength

/-- Frame by frame, the innermost one grows as licensed and all others as under expressions. -/
theorem frame (h : FramesGrow k fs gs) (i : Nat) {f g : Frame} (hf : fs[i]? = some f)
    (hg : gs[i]? = some g) : (if i = 0 then k else .expression).Grows f.bindings g.bindings := by
  induction h generalizing i with
  | nil => cases hf
  | block hm _ ih =>
    cases i with
    | zero =>
      cases hf
      cases hg
      exact hm
    | succ i =>
      have hrest := ih i hf hg
      rw [ite_self] at hrest
      exact hrest
  | @call k m m' fs hm =>
    cases i with
    | zero =>
      cases hf
      cases hg
      exact hm
    | succ i =>
      -- below the call nothing has changed
      have hsame : some f = some g := hf.symm.trans hg
      cases hsame
      exact .refl _ _

end FramesGrow

/-- The licence at the globals: that of the run where they are the innermost frame. -/
def Licence.atGlobals (k : Licence) : List Frame → Licence
  | [] => k
  | _ :: _ => .expression

theorem Licence.atGlobals_expression (fs : List Frame) :
    Licence.expression.atGlobals fs = .expression := by
  cases fs <;> rfl

theorem FramesGrow.atGlobals_eq {k : Licence} {fs gs : List Frame} (h : FramesGrow k fs gs) :
    k.atGlobals gs = k.atGlobals fs := by
  cases h <;> rfl

/-- What the scopes can become under a licence. -/
structure Scopes.Grow (k : Licence) (s t : Scopes) : Prop where
  frames : FramesGrow k s.frames t.frames
  globals : (k.atGlobals s.frames).Grows s.globals t.globals

namespace Scopes.Grow

variable {k : Licence} {s t u : Scopes}

theorem refl (k : Licence) (s : Scopes) : Scopes.Grow k s s := ⟨.refl k s.frames, .refl _ _⟩

theorem trans (h₁ : Scopes.Grow k s t) (h₂ : Scopes.Grow k t u) : Scopes.Grow k s u := by
  refine ⟨h₁.frames.trans h₂.frames, h₁.globals.trans ?_⟩
  rw [← h₁.frames.atGlobals_eq]
  exact h₂.globals

/-- Growth as under expressions is open under every licence. -/
theorem of_expression (hf : FramesGrow .expression s.frames t.frames)
    (hg : Licence.expression.Grows s.globals t.globals) : Scopes.Grow k s t :=
  ⟨hf.of_expression, hg.of_expression⟩

/-- Setting a name in the innermost frame is growth if it is growth of that frame. -/
theorem bind {name : String} {b : Binding} (h : k.Grows s.current (s.current.set name b)) :
    Scopes.Grow k s (s.bind name b) := by
  obtain ⟨globals, frames⟩ := s
  cases frames with
  | nil => exact ⟨.nil, h⟩
  | cons f outer =>
    obtain ⟨kind, m⟩ := f
    refine ⟨?_, .refl _ _⟩
    cases kind with
    | block => exact .block h (.refl _ outer)
    | call => exact .call h

/-- A name bound in the frames of the current call is set there. -/
theorem setLocal {name : String} {b b' : Binding} {fs : List Frame}
    (hb : localBinding? name fs = some b) (hkept : b.Kept b') :
    ∃ gs, setLocal? name b' fs = some gs ∧ FramesGrow k fs gs := by
  induction fs generalizing k with
  | nil => cases hb
  | cons f outer ih =>
    obtain ⟨kind, m⟩ := f
    unfold localBinding? at hb
    unfold setLocal?
    -- bound in this frame, or further out in the same call
    cases hm : m.get? name with
    | some c =>
      simp only [hm] at hb
      cases hb
      refine ⟨⟨kind, m.set name b'⟩ :: outer, ?_, ?_⟩
      · rw [if_pos (by simp [OrderedMap.contains, hm])]
      · cases kind with
        | block => exact .block (.assign hm hkept) (.refl _ outer)
        | call => exact .call (.assign hm hkept)
    | none =>
      simp only [hm] at hb
      cases kind with
      | block =>
        -- the search goes on through a block, and ends at the frame of a call
        obtain ⟨gs, hgs, hgrow⟩ := ih (k := .expression) hb
        refine ⟨⟨.block, m⟩ :: gs, ?_, .block (.refl _ m) hgrow⟩
        rw [if_neg (by simp [OrderedMap.contains, hm])]
        simp only [hgs, Option.map_some]
      | call => cases hb

/-- A name that the frames of the current call do not bind is not set there. -/
theorem setLocal?_eq_none {name : String} {fs : List Frame} (b : Binding)
    (h : localBinding? name fs = none) : setLocal? name b fs = none := by
  induction fs with
  | nil => rfl
  | cons f outer ih =>
    unfold localBinding? at h
    unfold setLocal?
    split at h
    · cases h
    · rename_i hm hkind
      rw [if_neg (by simp [OrderedMap.contains, hm])]
      simp only [hkind, ih h, Option.map_none]
    · rename_i hm hkind
      rw [if_neg (by simp [OrderedMap.contains, hm])]
      simp only [hkind]

/-- Another value for a visible name. -/
theorem set {name : String} {b b' : Binding} (hb : s.get? name = some b) (hkept : b.Kept b') :
    Scopes.Grow k s (s.set name b') := by
  unfold Scopes.get? at hb
  unfold Scopes.set
  -- a local of the current call, or else a global
  cases hlocal : localBinding? name s.frames with
  | some c =>
    rw [hlocal] at hb
    cases hb
    obtain ⟨gs, hgs, hgrow⟩ := setLocal (k := k) hlocal hkept
    rw [hgs]
    exact ⟨hgrow, .refl _ _⟩
  | none =>
    rw [hlocal] at hb
    rw [setLocal?_eq_none b' hlocal]
    exact ⟨.refl k s.frames, .assign hb hkept⟩

end Scopes.Grow

/-! ## §3. Growth by effects -/

namespace Effect

variable {host : Host} {D : Discipline} {k : Licence} {s t : State}

/-- **Every effect lets the scopes grow as licensed.** -/
theorem grow (he : Effect host D k s t) : Scopes.Grow k s.scopes t.scopes := by
  induction he with
  | refl => exact .refl _ _
  | trans _ _ ih₁ ih₂ => exact ih₁.trans ih₂
  | @call k s t names _ _ ih =>
    -- the callee's frame goes with all it holds; of the rest the callee sees only the globals
    have hframes : t.scopes.frames.tail = s.scopes.frames := ih.frames.below_call
    refine .of_expression ?_ ih.globals
    show FramesGrow .expression s.scopes.frames t.scopes.frames.tail
    rw [hframes]
    exact .refl _ _
  | block names _ _ ih => exact .of_expression ih.frames.below_block ih.globals
  | loop item _ _ ih => exact .of_expression ih.frames.below_block ih.globals
  | declare constant hk hnew _ _ =>
    exact .bind (.declare hk (by simpa [OrderedMap.contains] using hnew))
  | @assign k s name b v w h _ hb hvar _ _ =>
    have hkept : b.Kept { b with value := w } := by
      refine ⟨rfl, rfl, fun hconstant => ?_⟩
      rw [hvar] at hconstant
      cases hconstant
    exact .set hb hkept
  | rebind hk _ => exact .bind (.rebind _ hk)
  | heap | print | trace | report | define => exact .refl _ _

/-- **What an expression does leaves every frame but the global one as it was.** -/
theorem frames_eq (he : Effect host D .expression s t) : t.scopes.frames = s.scopes.frames := by
  -- the licence must be a variable for the induction; the steps of statements then contradict it
  generalize hk : Licence.expression = k at he
  induction he with
  | trans _ _ ih₁ ih₂ => rw [ih₂ hk, ih₁ hk]
  | call names _ hbody _ => exact hbody.grow.frames.below_call
  | heap | refl => rfl
  | block _ hno _ _ | loop _ hno _ _ | declare _ hno _ _ _ | assign hno _ _ _ _ | rebind hno _
  | print _ hno | trace _ hno _ | report hno _ | define _ hno _ =>
    subst hk
    exact False.elim hno

end Effect

/-! ## §4. Frames and calls after a run -/

/-- A run that ends has whatever follows from its having ended. -/
theorem Run.ends_with {α : Type} {x : Run α} {s : State} {P Q : α → State → Prop}
    (hend : ∃ a t, x s = some (a, t) ∧ P a t) (hq : ∀ a t, x s = some (a, t) → Q a t) :
    ∃ a t, x s = some (a, t) ∧ P a t ∧ Q a t := by
  obtain ⟨a, t, hrun, hp⟩ := hend
  exact ⟨a, t, hrun, hp, hq a t hrun⟩

/-- As many frames as before, of the same kinds in the same order, and as many open calls. -/
structure State.Restored (s t : State) : Prop where
  depth : t.scopes.depth = s.scopes.depth
  kinds : t.scopes.frames.map (·.kind) = s.scopes.frames.map (·.kind)
  callDepth : t.callDepth = s.callDepth

theorem Effect.restored {host : Host} {D : Discipline} {k : Licence} {s t : State}
    (he : Effect host D k s t) : s.Restored t := by
  refine ⟨?_, he.grow.frames.kinds_eq, he.callDepth_eq⟩
  have hlength := he.grow.frames.length_eq
  unfold Scopes.depth
  omega

/-- A program leaves the scopes, the objects and the open calls as its statements do. -/
theorem Program.exec_block {host : Host} {fuel : Nat} {program : Program} {s t : State}
    {errors : List Error} (h : Program.exec host fuel program s = some (errors, t)) :
    ∃ signal u, Block.exec host fuel program s = some (signal, u) ∧ t.scopes = u.scopes ∧
      t.heap = u.heap ∧ t.callDepth = u.callDepth := by
  unfold Program.exec at h
  obtain ⟨⟨signal, u⟩, hblock, hrest⟩ := Option.bind_eq_some_iff.mp h
  refine ⟨signal, u, hblock, ?_⟩
  cases signal <;> cases hrest <;> exact ⟨rfl, rfl, rfl⟩

/-- **Whatever a run comes to, the frames and the open calls are restored.** -/
theorem runs_restore_frames (host : Host) (fuel : Nat) (s : State) :
    (∀ body signal t, Block.exec host fuel body s = some (signal, t) → s.Restored t) ∧
    (∀ program errors t, Program.exec host fuel program s = some (errors, t) → s.Restored t) ∧
    (∀ e r t, Expr.eval host fuel e s = some (r, t) → s.Restored t) := by
  have hblock : ∀ body signal t, Block.exec host fuel body s = some (signal, t) →
      s.Restored t := by
    intro body signal t h
    exact (Block.exec_effect (.any host s) h).1.restored
  refine ⟨hblock, ?_, ?_⟩
  · intro program errors t h
    -- a program is its statements and a report, which leaves the scopes alone
    obtain ⟨signal, u, hrun, hscopes, -, hdepth⟩ := Program.exec_block h
    have hu := hblock program signal u hrun
    exact ⟨hscopes ▸ hu.depth, hscopes ▸ hu.kinds, hdepth ▸ hu.callDepth⟩
  · intro e r t h
    exact (Expr.eval_effect (.any host s) h).1.restored

/-- A recursion stopped by the limit, a loop left by `break` and an unknown name, inside a call. -/
theorem runs_restore_frames_nested :
    ∃ signal t,
      Block.exec { settings := { maxCallDepth := some 2 } } 9
        [.func "f" [⟨"n", .int, none⟩] .int [.ret (.call "f" [.var "n"])],
          .forIn "i" (.array [.int 1, .int 2]) [.expr (.call "f" [.var "i"]), .brk],
          .assign "x" (.int 1)]
        { scopes := { frames := [⟨.block, .empty⟩, ⟨.call, .empty⟩] }, callDepth := 1 } =
          some (signal, t) ∧
      t.pending.toList = [.callDepthExceeded 2, .missingReturn "f", .undefinedVariable "x"] ∧
      t.scopes.frames.map (·.kind) = [.block, .call] ∧ t.callDepth = 1 := by
  refine Run.ends_with ⟨_, _, rfl, rfl⟩ fun signal t h => ?_
  have hrestored := (runs_restore_frames _ 9 _).1 _ signal t h
  exact ⟨hrestored.kinds, hrestored.callDepth⟩

/-! ## §5. Bindings after a run -/

/-- The bindings of every frame, from the innermost to the global one. -/
def Scopes.layers (s : Scopes) : List (OrderedMap Binding) :=
  s.frames.map (·.bindings) ++ [s.globals]

theorem Scopes.layers_length (s : Scopes) : s.layers.length = s.depth := by
  unfold Scopes.layers Scopes.depth
  simp

/-- The innermost layer grows as licensed and all others as under expressions. -/
theorem Scopes.Grow.layer {k : Licence} {s t : Scopes} (h : Scopes.Grow k s t) (i : Nat)
    {m m' : OrderedMap Binding} (hm : s.layers[i]? = some m) (hm' : t.layers[i]? = some m') :
    (if i = 0 then k else .expression).Grows m m' := by
  have hlength : t.frames.length = s.frames.length := h.frames.length_eq
  unfold Scopes.layers at hm hm'
  by_cases hi : i < s.frames.length
  · rw [List.getElem?_append_left (by simpa using hi), List.getElem?_map] at hm
    rw [List.getElem?_append_left (by simpa [hlength] using hi), List.getElem?_map] at hm'
    obtain ⟨f, hf, rfl⟩ := Option.map_eq_some_iff.mp hm
    obtain ⟨g, hg, rfl⟩ := Option.map_eq_some_iff.mp hm'
    exact h.frames.frame i hf hg
  · -- the only layer beyond the frames is the global one
    rw [List.getElem?_append_right (by simpa using hi), List.length_map,
      List.getElem?_singleton] at hm
    rw [List.getElem?_append_right (by simpa [hlength] using hi), List.length_map,
      List.getElem?_singleton, hlength] at hm'
    split at hm
    · rename_i hlast
      rw [if_pos hlast] at hm'
      cases hm
      cases hm'
      have hglobals := h.globals
      cases hframes : s.frames with
      | nil =>
        have hzero : i = 0 := by
          rw [hframes, List.length_nil] at hlast
          omega
        rw [hframes] at hglobals
        rw [if_pos hzero]
        exact hglobals
      | cons f outer =>
        have hpositive : i ≠ 0 := by
          rw [hframes, List.length_cons] at hi
          omega
        rw [hframes] at hglobals
        rw [if_neg hpositive]
        exact hglobals
    · cases hm

/-- **Bindings are stable.**  In every frame, a binding keeps its type and whether it is constant,
    and a constant keeps its value.  Only the innermost frame gains names, and only those declared
    directly in the statements. -/
theorem bindings_are_stable (host : Host) (fuel : Nat) (body : List Stmt) (s t : State)
    (signal : Signal) (h : Block.exec host fuel body s = some (signal, t)) :
    t.scopes.layers.length = s.scopes.layers.length ∧
    ∀ i m m', s.scopes.layers[i]? = some m → t.scopes.layers[i]? = some m' →
      (∀ name b, m.get? name = some b →
        ∃ b', m'.get? name = some b' ∧ b'.type = b.type ∧ b'.constant = b.constant ∧
          (b.constant = true → b'.value = b.value)) ∧
      (∀ name, m.get? name = none → m'.get? name ≠ none →
        i = 0 ∧ name ∈ Block.declared body) := by
  have heffect := (Block.exec_effect (.any host s) h).1
  refine ⟨?_, ?_⟩
  · rw [Scopes.layers_length, Scopes.layers_length]
    exact heffect.restored.depth
  · intro i m m' hm hm'
    have hgrows := heffect.grow.layer i hm hm'
    -- only the rounds of a loop bind anew, in a frame that is closed by now
    have hrebinds : ∀ name,
        ¬ (if i = 0 then Licence.frame (Block.declared body) else .expression).rebinds name := by
      intro name
      split <;> exact id
    refine ⟨?_, ?_⟩
    · intro name b hb
      obtain ⟨b', hb', hkept⟩ := hgrows.kept name b (hrebinds name) hb
      exact ⟨b', hb', hkept.type, hkept.constant, hkept.value⟩
    · intro name hnone hsome
      have hdeclares := hgrows.gained name (hrebinds name) hnone hsome
      by_cases hi : i = 0
      · rw [if_pos hi] at hdeclares
        exact ⟨hi, hdeclares⟩
      · rw [if_neg hi] at hdeclares
        exact False.elim hdeclares

/-- A constant below the innermost frame, and loops over a visible and over a new variable. -/
theorem bindings_are_stable_through_loops :
    ∃ signal t,
      Block.exec {} 9
        [.declare "z" none (.int 1) true,
          .assign "c" (.int 2),
          .forIn "x" (.array [.int 3]) [.declare "w" none (.var "x") false, .assign "x" (.int 4)],
          .forIn "i" (.array [.bool true, .int 5]) [.declare "i" none (.int 6) false]]
        { scopes :=
          { globals := (OrderedMap.empty.set "c" ⟨.int, .int 7, true⟩).set "x" ⟨.int, .int 1, false⟩
            frames := [⟨.block, .empty⟩] } } = some (signal, t) ∧
      t.pending.toList = [.constantReassigned "c"] ∧
      (∀ m, t.scopes.layers[1]? = some m → ∃ b, m.get? "c" = some b ∧ b.value = .int 7) ∧
      (∀ m name, t.scopes.layers[0]? = some m → m.get? name ≠ none → name = "z") := by
  refine Run.ends_with ⟨_, _, rfl, rfl⟩ fun signal t h => ?_
  obtain ⟨-, hstable⟩ := bindings_are_stable _ 9 _ _ t signal h
  refine ⟨?_, ?_⟩
  · intro m hm
    obtain ⟨b, hb, -, -, hvalue⟩ := (hstable 1 _ m rfl hm).1 "c" ⟨.int, .int 7, true⟩ rfl
    exact ⟨b, hb, hvalue rfl⟩
  · intro m name hm hsome
    have hdeclared := ((hstable 0 _ m rfl hm).2 name rfl hsome).2
    simpa [Block.declared, Stmt.declared?] using hdeclared

/-- **Expressions write only globals**: every other frame is as it was, and so are the names, types
    and constants among the globals. -/
theorem expressions_write_only_globals (host : Host) (fuel : Nat) (e : Expr) (s t : State)
    (r : Except Error Value) (h : Expr.eval host fuel e s = some (r, t)) :
    t.scopes.frames = s.scopes.frames ∧
    (∀ name, t.scopes.globals.get? name = none ↔ s.scopes.globals.get? name = none) ∧
    (∀ name b b', s.scopes.globals.get? name = some b → t.scopes.globals.get? name = some b' →
      b'.type = b.type ∧ b'.constant = b.constant ∧ (b.constant = true → b'.value = b.value)) := by
  have heffect := (Expr.eval_effect (.any host s) h).1
  -- the steps of an expression may only grow the globals
  have hgrows : Licence.expression.Grows s.scopes.globals t.scopes.globals := by
    have hglobals := heffect.grow.globals
    rw [Licence.atGlobals_expression] at hglobals
    exact hglobals
  refine ⟨heffect.frames_eq, ?_, ?_⟩
  · intro name
    -- an expression declares no global, and none gets lost
    cases hb : s.scopes.globals.get? name with
    | none =>
      refine ⟨fun _ => rfl, fun _ => ?_⟩
      by_cases hnone : t.scopes.globals.get? name = none
      · exact hnone
      · exact False.elim (hgrows.gained name id hb hnone)
    | some b =>
      obtain ⟨b', hb', -⟩ := hgrows.kept name b id hb
      rw [hb']
      exact ⟨nofun, nofun⟩
  · intro name b b' hb hb'
    obtain ⟨c, hc, hkept⟩ := hgrows.kept name b id hb
    rw [hb'] at hc
    cases hc
    exact ⟨hkept.type, hkept.constant, hkept.value⟩

/-- A call that shadows, assigns a global, is refused at a constant, and fails. -/
theorem expressions_write_only_globals_in_calls :
    ∃ r t,
      Expr.eval {} 9 (.call "f" [.int 3])
        { scopes :=
          { globals := (OrderedMap.empty.set "c" ⟨.int, .int 7, true⟩).set "n" ⟨.int, .int 1, false⟩
            frames := [⟨.block, OrderedMap.empty.set "n" ⟨.int, .int 9, false⟩⟩] }
          functions := OrderedMap.empty.set "f"
            ⟨"f", [⟨"a", .int, none⟩], .int,
              [.assign "n" (.var "a"), .declare "m" none (.int 2) false, .assign "c" (.int 8)]⟩ } =
          some (r, t) ∧
      (r = .error (.missingReturn "f") ∧
        t.scopes.globals.get? "n" = some ⟨.int, .int 3, false⟩) ∧
      t.scopes.frames = [⟨.block, OrderedMap.empty.set "n" ⟨.int, .int 9, false⟩⟩] ∧
      (∀ b, t.scopes.globals.get? "c" = some b → b.value = .int 7) := by
  refine Run.ends_with ⟨_, _, rfl, rfl, rfl⟩ fun r t h => ?_
  obtain ⟨hframes, -, hglobals⟩ := expressions_write_only_globals _ 9 _ _ t r h
  refine ⟨hframes, fun b hb => ?_⟩
  exact (hglobals "c" ⟨.int, .int 7, true⟩ b rfl hb).2.2 rfl

end Scriptlet
