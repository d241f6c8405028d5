/-
  Scriptlet.Proofs.Declarations — what an accepted program declares.

  Variables and functions are declared at the top level, in blocks and inside one another.  What the
  reader of a declaration makes sure of holds wherever the declaration stands: `Parser.Ensures` is that
  kind of property, and every statement of an accepted program has it, at any depth.  So in every
  function the parameters with a default come last.

  Main results:
    * `Program.parse_every` — every statement of every accepted program.
    * `Parser.params_defaultsLast` — what is read between the brackets.
    * `Program.parse_defaultsLast` — every function of every accepted program.
    * `DefaultsLast.default_isSome` — so an argument may be left out only where there is a default.
-/
import Scriptlet.Proofs.Nesting
import Scriptlet.Proofs.Syntax

namespace Scriptlet

/-! ## §1. Statements at any depth -/

/-- The statement stands in these statements, at any depth. -/
inductive Stmt.StandsIn (s : Stmt) : List Stmt → Prop
  | here {body : List Stmt} : s ∈ body → StandsIn s body
  | inside {t : Stmt} {inner body : List Stmt} : t ∈ body → inner ∈ t.blocks → StandsIn s inner →
      StandsIn s body

/-- Every statement in these statements, at any depth, has the property. -/
def Block.Every (Q : Stmt → Prop) (body : List Stmt) : Prop := ∀ s, s.StandsIn body → Q s

/-- The statement has the property, and so has every statement in its blocks. -/
structure Stmt.Every (Q : Stmt → Prop) (s : Stmt) : Prop where
  self : Q s
  inner : ∀ body ∈ s.blocks, Block.Every Q body

/-- To stand in statements at any depth is to be one of them or to stand in a block of one. -/
theorem Block.every_iff {Q : Stmt → Prop} {body : List Stmt} :
    Block.Every Q body ↔ ∀ s ∈ body, s.Every Q := by
  constructor
  · intro h s hs
    exact ⟨h s (.here hs), fun inner hinner t ht => h t (.inside hs hinner ht)⟩
  · intro h s hs
    cases hs with
    | here hmem => exact (h s hmem).self
    | inside ht hinner hs => exact (h _ ht).inner _ hinner s hs

/-- Whether the statement declares a variable or a function. -/
def Stmt.isDeclaration : Stmt → Bool
  | .declare .. => true
  | .func .. => true
  | _ => false

/-- Without a brace there is no block. -/
theorem Stmt.blocks_of_flat {s : Stmt} (h : s.braces = 0) : s.blocks = [] := by
  cases s with
  | ifThen | ifElse | loop | forIn | func =>
    simp only [Stmt.braces] at h
    omega
  | _ => rfl

theorem Stmt.isDeclaration_of_isSimple {s : Stmt} (h : s.isSimple = true) :
    s.isDeclaration = false := by
  cases s <;> first | rfl | cases h

/-! ## §2. What readers see to -/

namespace Parser

/-- A property that the readers of declarations see to, and that all other statements have. -/
structure Ensures (Q : Stmt → Prop) : Prop where
  declaration {levels : Nat} (constant : Bool) : levels ≤ maxNesting →
    (declaration levels constant).Yields Q
  function {levels : Nat} (block : Parser (List Stmt)) : levels ≤ maxNesting →
    (function levels block).Yields Q
  other {s : Stmt} : s.isDeclaration = false → Q s

/-- What every statement that is read has, deep down too, a list of them has. -/
theorem statements_every (inBlock : Bool) {Q : Stmt → Prop} {stmt : Parser Stmt}
    (h : stmt.Yields (Stmt.Every Q)) : (statements inBlock stmt).Yields (Block.Every Q) := by
  intro c body c' hrun
  rw [Block.every_iff]
  exact statements_yields inBlock h c body c' hrun

section Ensured

variable {Q : Stmt → Prop} (hQ : Ensures Q)

include hQ

/-- A statement without a block that declares nothing. -/
theorem Ensures.simple {s : Stmt} (h : s.isSimple = true) : s.Every Q := by
  have hblocks := Stmt.blocks_of_flat (Stmt.braces_of_isSimple h)
  refine ⟨hQ.other (Stmt.isDeclaration_of_isSimple h), fun body hbody => ?_⟩
  rw [hblocks] at hbody
  cases hbody

/-- A statement with one block that declares nothing itself. -/
theorem Ensures.outer {s : Stmt} {body : List Stmt} (hs : s.isDeclaration = false)
    (hblocks : s.blocks = [body]) (h : Block.Every Q body) : s.Every Q := by
  refine ⟨hQ.other hs, fun inner hinner => ?_⟩
  rw [hblocks] at hinner
  rwa [List.mem_singleton.mp hinner]

theorem Ensures.ifElse {condition : Expr} {body otherwise : List Stmt} (hbody : Block.Every Q body)
    (hother : Block.Every Q otherwise) : (Stmt.ifElse condition body otherwise).Every Q := by
  refine ⟨hQ.other rfl, fun inner hinner => ?_⟩
  rcases List.mem_cons.mp hinner with rfl | hinner
  · exact hbody
  · rwa [List.mem_singleton.mp hinner]

/-- An `else if` stands in the `else` of the one before it, so every branch is at some depth of the
    first. -/
theorem nestIfs_every {last : Stmt} {before : List (Expr × List Stmt)} (hlast : last.Every Q)
    (hbefore : ∀ guard ∈ before, Block.Every Q guard.2) : (nestIfs last before).Every Q := by
  induction before generalizing last with
  | nil => exact hlast
  | cons guard before ih =>
    have hnested : Block.Every Q [last] := by
      rw [Block.every_iff]
      intro s hs
      rwa [List.mem_singleton.mp hs]
    exact ih (hQ.ifElse (hbefore guard List.mem_cons_self) hnested)
      fun g hg => hbefore g (List.mem_cons_of_mem guard hg)

theorem declaration_every {levels : Nat} (hlevels : levels ≤ maxNesting) (constant : Bool) :
    (declaration levels constant).Yields (Stmt.Every Q) := by
  intro c s c' hrun
  refine ⟨hQ.declaration constant hlevels c s c' hrun, fun body hbody => ?_⟩
  rw [Stmt.blocks_of_flat (declaration_flat levels constant c s c' hrun)] at hbody
  cases hbody

section Blocks

variable (levels : Nat) {block : Parser (List Stmt)} (h : block.Yields (Block.Every Q))

include h

/-- An `if` with all its branches. -/
theorem conditional_every : (conditional levels block).Yields (Stmt.Every Q) := by
  -- the guards are collected until the chain ends
  refine iterate_yields (I := fun before => ∀ guard ∈ before, Block.Every Q guard.2)
    (fun before hbefore => ?_) (fun _ hnone => by cases hnone)
  refine .after fun condition => .bind h fun body hbody => ?_
  refine .bind (afterIf_yields h) fun next hnext => ?_
  cases next with
  | elseIf => exact .pure (List.forall_mem_cons.mpr ⟨hbody, hbefore⟩)
  | otherwise other => exact .pure (nestIfs_every hQ (hQ.ifElse hbody (hnext other rfl)) hbefore)
  | nothing => exact .pure (nestIfs_every hQ (hQ.outer rfl rfl hbody) hbefore)

theorem whileLoop_every : (whileLoop levels block).Yields (Stmt.Every Q) :=
  .after fun _ => .bind h fun _ hbody => .pure (hQ.outer rfl rfl hbody)

theorem forLoop_every : (forLoop levels block).Yields (Stmt.Every Q) := by
  refine .after fun item => .after fun _ => .taking ?_ ?_
  · exact .after fun iterable => .bind h fun _ hbody => .pure (hQ.outer rfl rfl hbody)
  · exact .after fun _ => .after fun iterable => .bind h fun _ hbody =>
      .pure (hQ.outer rfl rfl hbody)

variable (hlevels : levels ≤ maxNesting)

include hlevels

/-- A function: what its reader sees to, and what the reader of its block sees to. -/
theorem function_every : (function levels block).Yields (Stmt.Every Q) := by
  have hinner : (function levels block).Yields fun s => ∀ body ∈ s.blocks, Block.Every Q body := by
    refine .after fun name => .after fun _ => .after fun params => .after fun _ => .taking ?_ ?_
    · exact .after fun returns => .bind h fun _ hbody => .pure (List.forall_mem_singleton.mpr hbody)
    · exact .after fun _ => .after fun returns => .bind h fun _ hbody =>
        .pure (List.forall_mem_singleton.mpr hbody)
  exact fun c s c' hrun => ⟨hQ.function block hlevels c s c' hrun, hinner c s c' hrun⟩

/-- **Every statement that is read**, with all that stands in it, has the property. -/
theorem statement_every : (statement levels block).Yields (Stmt.Every Q) := by
  have hsimple : ∀ {p : Parser Stmt}, p.Simple → p.Yields (Stmt.Every Q) :=
    fun hp c s c' hrun => hQ.simple (hp c s c' hrun)
  have hfunction := function_every hQ levels h hlevels
  have hdeclaration := declaration_every hQ hlevels
  refine .after fun _ => .taking hfunction (.taking hfunction ?_)
  refine .taking (hsimple (returned_simple levels)) (.taking (hdeclaration false) ?_)
  refine .taking (hdeclaration false) (.taking (hdeclaration true) ?_)
  refine .taking (conditional_every hQ levels h) (.taking (whileLoop_every hQ levels h) ?_)
  refine .taking (forLoop_every hQ levels h) (.taking (hsimple (.pure rfl)) ?_)
  refine .taking (hsimple (.pure rfl)) (.taking ?_ ?_)
  · exact hsimple (.after fun value => .pure rfl)
  · exact hsimple (storeOrExpr_simple levels)

end Blocks

/-- By induction on the levels that are left: a block goes one level down. -/
theorem block_every {n : Nat} (hn : n ≤ maxNesting) : (block n).Yields (Block.Every Q) := by
  induction n with
  | zero => exact .after fun _ => .after fun c => .throw _
  | succ n ih =>
    have hlevels : n ≤ maxNesting := Nat.le_of_succ_le hn
    have hstatement := statement_every hQ n (ih hlevels) hlevels
    refine .after fun _ => .bind (statements_every true hstatement) ?_
    exact fun body hbody => .after fun _ => .pure hbody

end Ensured

end Parser

/-- **What the readers see to, every statement of an accepted program has**, at any depth. -/
theorem Program.parse_every {Q : Stmt → Prop} (hQ : Parser.Ensures Q) {source : String}
    {program : Program} (h : Program.parse source = .ok program) : Block.Every Q program := by
  have hlevels := Nat.le_refl maxNesting
  have hstatement := Parser.statement_every hQ maxNesting (Parser.block_every hQ hlevels) hlevels
  exact (Parser.statements_every false hstatement).of_map_fst h

/-! ## §3. The functions of a program -/

mutual

/-- The functions that the statement declares, those inside others included. -/
def Stmt.functions : Stmt → List Func
  | .ifThen _ body => Block.functions body
  | .ifElse _ body otherwise => Block.functions body ++ Block.functions otherwise
  | .loop _ body => Block.functions body
  | .forIn _ _ body => Block.functions body
  | .func name params returns body => { name, params, returns, body } :: Block.functions body
  | _ => []

/-- The functions that are declared in these statements. -/
def Block.functions : List Stmt → List Func
  | [] => []
  | s :: rest => s.functions ++ Block.functions rest

end

/-- No parameter without a default follows one with a default. -/
def DefaultsLast (params : List Param) : Prop :=
  params.Pairwise fun p q => p.default.isSome → q.default.isSome

/-- In every function of the statement the defaults come last. -/
def Stmt.Ordered (s : Stmt) : Prop := ∀ f ∈ s.functions, DefaultsLast f.params

/-- In every function of these statements the defaults come last. -/
def Block.Ordered (body : List Stmt) : Prop := ∀ f ∈ Block.functions body, DefaultsLast f.params

/-- The functions of several statements are those of each. -/
theorem Block.ordered_iff {body : List Stmt} : Block.Ordered body ↔ ∀ s ∈ body, s.Ordered := by
  induction body with
  | nil => simp [Block.Ordered, Block.functions]
  | cons s rest ih =>
    rw [List.forall_mem_cons, ← ih]
    simp only [Block.Ordered, Block.functions, Stmt.Ordered, List.forall_mem_append]

/-- The statement has its defaults last, if it declares a function. -/
def Stmt.HasDefaultsLast (s : Stmt) : Prop :=
  ∀ name params returns body, s = .func name params returns body → DefaultsLast params

/-- In each function the defaults come last, if they do where it is declared. -/
theorem Block.ordered_of_every {body : List Stmt} (h : Block.Every Stmt.HasDefaultsLast body) :
    Block.Ordered body := by
  induction body using Block.inner_induction with
  | h body ih =>
    rw [Block.ordered_iff]
    intro s hs
    have hevery := Block.every_iff.mp h s hs
    -- the blocks of the statement are smaller, so their functions are in order
    have hinner : ∀ inner ∈ s.blocks, Block.Ordered inner :=
      fun inner hmem => ih s hs inner hmem (hevery.inner inner hmem)
    cases s with
    | ifThen | loop | forIn => exact hinner _ List.mem_cons_self
    | ifElse condition body otherwise =>
      exact List.forall_mem_append.mpr ⟨hinner _ List.mem_cons_self,
        hinner _ (List.mem_cons_of_mem body List.mem_cons_self)⟩
    | func name params returns body =>
      exact List.forall_mem_cons.mpr
        ⟨hevery.self name params returns body rfl, hinner _ List.mem_cons_self⟩
    | _ =>
      intro f hf
      cases hf

/-! ## §4. Parameters -/

namespace Parser

/-- Once a parameter has a default, all that follow have one. -/
theorem param_yields (levels : Nat) (before : List Param) : (param levels before).Yields fun p =>
    ∀ q ∈ before, q.default.isSome → p.default.isSome := by
  -- the reader refuses a parameter without a default after one with a default
  have hmade : ∀ name type default,
      (if (default.isNone && before.any fun p => p.default.isSome) = true then
        fail ("parameter '" ++ name ++ "' without a default follows a defaulted parameter")
      else pure ({ name, type, default } : Param) : Parser Param).Yields fun p =>
        ∀ q ∈ before, q.default.isSome → p.default.isSome := by
    intro name type default
    split
    · exact .after fun _ => .throw _
    · rename_i hfine
      refine .pure fun q hq hsome => ?_
      -- such a parameter is among those before
      have hany : (before.any fun p => p.default.isSome) = true :=
        List.any_eq_true.mpr ⟨q, hq, hsome⟩
      cases default with
      | some e => rfl
      | none => exact absurd hany hfine
  refine .after fun name => .after fun _ => .after fun type => .after fun _ => .taking ?_ ?_
  · exact .after fun default => hmade name type default
  · exact hmade name type none

/-- The loop over the parameters keeps those before in order, in reverse. -/
theorem params_defaultsLast (levels : Nat) : (params levels).Yields DefaultsLast := by
  refine .after fun _ => .taking (.pure .nil) ?_
  -- the parameters read so far are kept last first
  refine iterate_yields (I := fun before => before.Pairwise fun q p =>
    p.default.isSome → q.default.isSome) (fun before hbefore => ?_) .nil
  refine .bind (param_yields levels before) fun p hp => ?_
  have hall := List.pairwise_cons.mpr ⟨hp, hbefore⟩
  exact .after fun _ => .taking (.pure (List.pairwise_reverse.mpr hall)) (.after fun _ => .pure hall)

/-- What the reader of a function makes has the parameters that were read. -/
theorem function_hasDefaultsLast (levels : Nat) (block : Parser (List Stmt)) :
    (function levels block).Yields Stmt.HasDefaultsLast := by
  have hparams : (descend levels params).Yields DefaultsLast := by
    cases levels with
    | zero => exact .after fun _ => .throw _
    | succ n => exact params_defaultsLast n
  have hmade : ∀ name params returns body, DefaultsLast params →
      (Stmt.func name params returns body).HasDefaultsLast := by
    rintro name params returns body hlast _ _ _ _ heq
    cases heq
    exact hlast
  refine .after fun name => .after fun _ => .bind hparams fun params hlast => ?_
  refine .after fun _ => .taking ?_ ?_
  · exact .after fun returns => .after fun body => .pure (hmade name params returns body hlast)
  · exact .after fun _ => .after fun returns => .after fun body =>
      .pure (hmade name params returns body hlast)

/-- Functions are the only statements with parameters. -/
theorem ensures_hasDefaultsLast : Ensures Stmt.HasDefaultsLast where
  declaration {levels} constant _ := by
    intro c s c' hrun name params returns body heq
    have hflat := declaration_flat levels constant c s c' hrun
    rw [heq, Stmt.braces] at hflat
    omega
  function block _ := function_hasDefaultsLast _ block
  other hs name params returns body heq := by
    rw [heq] at hs
    cases hs

end Parser

/-- **In every function of an accepted program the parameters with a default come last.** -/
theorem Program.parse_defaultsLast {source : String} {program : Program}
    (h : Program.parse source = .ok program) {f : Func} (hf : f ∈ Block.functions program) :
    DefaultsLast f.params :=
  Block.ordered_of_every (Program.parse_every Parser.ensures_hasDefaultsLast h) f hf

/-! ## §5. Arguments that may be left out -/

/-- **An argument may be left out only where there is a default.** -/
theorem DefaultsLast.default_isSome {params : List Param} (h : DefaultsLast params) {i : Nat}
    {p : Param} (hp : params[i]? = some p)
    (hi : (params.filter fun p => p.default.isNone).length ≤ i) : p.default.isSome = true := by
  induction params generalizing i with
  | nil => cases hp
  | cons q rest ih =>
    obtain ⟨hq, hrest⟩ := List.pairwise_cons.mp h
    cases hdefault : q.default with
    -- from a parameter with a default on, all have one
    | some e =>
      cases i with
      | zero =>
        cases hp
        rw [hdefault]
        rfl
      | succ i => exact hq p (List.mem_of_getElem? hp) (by rw [hdefault]; rfl)
    -- one without a default is counted, and the others are met one place further on
    | none =>
      have hcount : ((q :: rest).filter fun p => p.default.isNone).length =
          (rest.filter fun p => p.default.isNone).length + 1 := by
        simp [hdefault]
      cases i with
      | zero => omega
      | succ i => exact ih hrest hp (by omega)

end Scriptlet
