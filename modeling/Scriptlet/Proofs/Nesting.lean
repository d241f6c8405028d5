/-
  Scriptlet.Proofs.Nesting — how deep the blocks of an accepted program are nested.

  A reader goes one level down for each pair of braces, and there are `maxNesting` levels; so braces
  can be nested that deep.  The blocks of a program can be nested deeper than its braces: each
  `else if` is one more statement in an `else` branch, and the whole chain is read on one level.

  Main results:
    * `Parser.block_braces` — what is read with so many levels left.
    * `Block.nesting_le` — blocks are nested deeper than braces by `else if` only.
    * `Program.parse_wrapped` — chains of any length are accepted.
    * `accepted_programs_nest_by_braces` — how deep blocks can be nested, for every number of
        `else if` that lead into each other.
-/
import Scriptlet.Proofs.RoundTrip
import Scriptlet.Proofs.SourceErrors

open Scriptlet.Parser

namespace Scriptlet

/-! ## §1. Measures of nesting -/

mutual

/-- How many blocks of the statement lie around each other, an `else` branch one below its `if`. -/
def Stmt.nesting : Stmt → Nat
  | .ifThen _ body => Block.nesting body + 1
  | .ifElse _ body otherwise => max (Block.nesting body) (Block.nesting otherwise) + 1
  | .loop _ body => Block.nesting body + 1
  | .forIn _ _ body => Block.nesting body + 1
  | .func _ _ _ body => Block.nesting body + 1
  | _ => 0

/-- How many blocks lie around each other in these statements. -/
def Block.nesting : List Stmt → Nat
  | [] => 0
  | s :: rest => max s.nesting (Block.nesting rest)

end

/-- Whether the statement is an `if`. -/
def Stmt.isIf : Stmt → Bool
  | .ifThen .. => true
  | .ifElse .. => true
  | _ => false

/-- Whether the statement declares nothing and has no block. -/
def Stmt.isSimple : Stmt → Bool
  | .assign .. | .storeIndex .. | .storeMember .. | .print .. => true
  | .expr .. | .brk | .cont | .ret .. => true
  | _ => false

/-- Whether an `else` branch can be written as `else if`. -/
def Block.isChained : List Stmt → Bool
  | [s] => s.isIf
  | _ => false

mutual

/-- How many pairs of braces lie around each other, where `else if` is written if it can be. -/
def Stmt.braces : Stmt → Nat
  | .ifThen _ body => Block.braces body + 1
  | .ifElse _ body otherwise =>
    max (Block.braces body + 1)
      (Block.braces otherwise + if Block.isChained otherwise then 0 else 1)
  | .loop _ body => Block.braces body + 1
  | .forIn _ _ body => Block.braces body + 1
  | .func _ _ _ body => Block.braces body + 1
  | _ => 0

/-- How many pairs of braces lie around each other in these statements. -/
def Block.braces : List Stmt → Nat
  | [] => 0
  | s :: rest => max s.braces (Block.braces rest)

end

mutual

/-- How many `else if` lead into each other. -/
def Stmt.elseIfs : Stmt → Nat
  | .ifThen _ body => Block.elseIfs body
  | .ifElse _ body otherwise =>
    max (Block.elseIfs body)
      (Block.elseIfs otherwise + if Block.isChained otherwise then 1 else 0)
  | .loop _ body => Block.elseIfs body
  | .forIn _ _ body => Block.elseIfs body
  | .func _ _ _ body => Block.elseIfs body
  | _ => 0

/-- How many `else if` lead into each other in these statements. -/
def Block.elseIfs : List Stmt → Nat
  | [] => 0
  | s :: rest => max s.elseIfs (Block.elseIfs rest)

end

mutual

/-- A statement is nested deeper than its braces by `else if` only. -/
theorem Stmt.nesting_le (s : Stmt) : s.nesting ≤ s.braces + s.elseIfs := by
  cases s with
  | ifThen condition body =>
    have hbody := Block.nesting_le body
    simp only [Stmt.nesting, Stmt.braces, Stmt.elseIfs]
    omega
  | ifElse condition body otherwise =>
    have hbody := Block.nesting_le body
    have hother := Block.nesting_le otherwise
    simp only [Stmt.nesting, Stmt.braces, Stmt.elseIfs]
    -- the branch is one block further down: by its braces, or by its `else if`
    cases Block.isChained otherwise <;> simp <;> omega
  | loop condition body =>
    have hbody := Block.nesting_le body
    simp only [Stmt.nesting, Stmt.braces, Stmt.elseIfs]
    omega
  | forIn item iterable body =>
    have hbody := Block.nesting_le body
    simp only [Stmt.nesting, Stmt.braces, Stmt.elseIfs]
    omega
  | func name params returns body =>
    have hbody := Block.nesting_le body
    simp only [Stmt.nesting, Stmt.braces, Stmt.elseIfs]
    omega
  | _ => simp [Stmt.nesting]

/-- **Blocks are nested deeper than braces by `else if` only.** -/
theorem Block.nesting_le (body : List Stmt) :
    Block.nesting body ≤ Block.braces body + Block.elseIfs body := by
  cases body with
  | nil => simp [Block.nesting]
  | cons s rest =>
    have hs := Stmt.nesting_le s
    have hrest := Block.nesting_le rest
    simp only [Block.nesting, Block.braces, Block.elseIfs]
    omega

end

/-- A statement without a block has no braces. -/
theorem Stmt.braces_of_isSimple {s : Stmt} (h : s.isSimple = true) : s.braces = 0 := by
  cases s <;> first | rfl | cases h

/-- Braces of a block are those of its statements. -/
theorem Block.braces_le_iff {body : List Stmt} {n : Nat} :
    Block.braces body ≤ n ↔ ∀ s ∈ body, s.braces ≤ n := by
  induction body with
  | nil => simp [Block.braces]
  | cons s rest ih =>
    simp only [Block.braces, List.mem_cons, forall_eq_or_imp, ← ih]
    omega

/-! ## §2. What readers yield -/

/-- A round keeps this of the states, and gives this of the results. -/
def Round.Keeps {σ β : Type} (I : σ → Prop) (Q : β → Prop) : Round σ β → Prop
  | .again state => I state
  | .done result => Q result

namespace Parser

variable {α β σ : Type}

/-- Whatever the reader accepts, it reads as something of this kind. -/
def Yields (p : Parser α) (Q : α → Prop) : Prop := ∀ c a c', p c = .ok (a, c') → Q a

namespace Yields

variable {p : Parser α} {P : α → Prop} {Q : β → Prop}

theorem pure {b : β} (h : Q b) : Yields (pure b : Parser β) Q := by
  intro c a c' hrun
  cases hrun
  exact h

theorem throw (e : Error) : Yields (throw e : Parser β) Q := by
  intro c a c' hrun
  cases hrun

/-- What the second reader makes of all that the first one yields. -/
theorem bind {f : α → Parser β} (hp : p.Yields P) (hf : ∀ a, P a → (f a).Yields Q) :
    (p >>= f).Yields Q := by
  intro c b c' hrun
  obtain ⟨a, c₁, hfirst, hrest⟩ := bind_eq_ok.mp hrun
  exact hf a (hp c a c₁ hfirst) c₁ b c' hrest

/-- What is read before need not matter. -/
theorem after {f : α → Parser β} (hf : ∀ a, (f a).Yields Q) : (p >>= f).Yields Q :=
  bind (P := fun _ => True) (fun _ _ _ _ => trivial) fun a _ => hf a

/-- Both ways of going on, whether something was taken or not. -/
theorem taking {step : Cursor → Option Cursor} {f : Bool → Parser β}
    (hyes : (f true).Yields Q) (hno : (f false).Yields Q) : (taking step >>= f).Yields Q :=
  after fun taken => by
    cases taken with
    | true => exact hyes
    | false => exact hno

/-- What a reader yields, for the result alone. -/
theorem of_map_fst {q : Parser β} (h : q.Yields Q) {c : Cursor} {b : β}
    (hq : (q c).map Prod.fst = .ok b) : Q b := by
  cases hrun : q c with
  | error e =>
    rw [hrun] at hq
    cases hq
  | ok r =>
    rw [hrun] at hq
    cases hq
    exact h c r.1 r.2 hrun

end Yields

/-- **Repetition**: what every round keeps of its state, the last one makes of the result. -/
theorem iterate_yields {step : σ → Parser (Round σ β)} {I : σ → Prop} {Q : β → Prop}
    (hstep : ∀ s, I s → (step s).Yields (Round.Keeps I Q)) {state : σ} (hstate : I state) :
    Yields (iterate step state) Q := by
  intro c
  -- along the rounds: a failed one, the last one, one that goes on, one that does not get further
  fun_induction iterate step state c with
  | case1 state c e hround =>
    intro b c' hrun
    cases hrun
  | case2 state c result next hround =>
    intro b c' hrun
    cases hrun
    exact hstep state hstate c (.done result) next hround
  | case3 state c state' next hround hless ih =>
    exact ih (hstep state hstate c (.again state') next hround)
  | case4 state c state' next hround hless =>
    intro b c' hrun
    cases hrun

/-! ## §3. Braces -/

/-- A statement with no block inside it. -/
abbrev Flat (p : Parser Stmt) : Prop := p.Yields fun s => s.braces = 0

/-- A declaration has no block. -/
theorem declaration_flat (levels : Nat) (constant : Bool) : (declaration levels constant).Flat := by
  refine .after fun name => .after fun _ => .taking ?_ ?_
  · exact .after fun type => .after fun _ => .after fun value => .pure rfl
  · exact .after fun _ => .after fun _ => .after fun value => .pure rfl

/-- A statement that declares nothing and has no block. -/
abbrev Simple (p : Parser Stmt) : Prop := p.Yields fun s => s.isSimple = true

/-- A `return` declares nothing and has no block. -/
theorem returned_simple (levels : Nat) : (returned levels).Simple := by
  refine .after fun _ => .after fun c => ?_
  split
  · exact .pure rfl
  · exact .after fun value => .pure rfl

/-- Nor does a store. -/
theorem storeTo?_simple {target value : Expr} {s : Stmt} (h : storeTo? target value = some s) :
    s.isSimple = true := by
  unfold storeTo? at h
  split at h <;> cases h <;> rfl

/-- Nor does an expression by itself. -/
theorem storeOrExpr_simple (levels : Nat) : (storeOrExpr levels).Simple := by
  refine .after fun target => .after fun _ => .after fun c => ?_
  split
  · refine .after fun _ => .after fun value => ?_
    cases hstore : storeTo? target value with
    | some s => exact .pure (storeTo?_simple hstore)
    | none => exact .throw _
  · exact .pure rfl

/-- A chain of conditions is on the level of its first one. -/
theorem nestIfs_braces {n : Nat} {last : Stmt} {before : List (Expr × List Stmt)}
    (hif : last.isIf = true) (hlast : last.braces ≤ n)
    (hbefore : ∀ guard ∈ before, Block.braces guard.2 + 1 ≤ n) :
    (nestIfs last before).braces ≤ n := by
  induction before generalizing last with
  | nil => exact hlast
  | cons guard before ih =>
    have hguard := hbefore guard List.mem_cons_self
    refine ih rfl ?_ fun g hg => hbefore g (List.mem_cons_of_mem guard hg)
    simp only [Stmt.braces, Block.braces, Block.isChained, hif, if_true]
    omega

/-- An `else` branch is a block. -/
theorem afterIf_yields {R : List Stmt → Prop} {block : Parser (List Stmt)} (h : block.Yields R) :
    (afterIf block).Yields fun next => ∀ other, next = .otherwise other → R other := by
  refine .after fun before => .after fun _ => .taking (.after fun _ => .taking ?_ ?_) ?_
  · refine .pure fun other heq => ?_
    cases heq
  · refine .bind h fun body hbody => .pure fun other heq => ?_
    cases heq
    exact hbody
  · refine .after fun _ => .pure fun other heq => ?_
    cases heq

section Blocks

variable (levels : Nat) {n : Nat} {block : Parser (List Stmt)}
variable (h : block.Yields fun body => Block.braces body + 1 ≤ n)

include h

/-- A chain of conditions has braces around each of its blocks. -/
theorem conditional_braces : (conditional levels block).Yields fun s => s.braces ≤ n := by
  -- the conditions before this one have blocks that fit
  refine iterate_yields (I := fun before => ∀ guard ∈ before, Block.braces guard.2 + 1 ≤ n)
    (fun before hbefore => ?_) (fun _ hnone => by cases hnone)
  refine .after fun condition => .bind h fun body hbody => ?_
  refine .bind (afterIf_yields h) fun next hnext => ?_
  cases next with
  | elseIf =>
    refine .pure fun guard hguard => ?_
    rcases List.mem_cons.mp hguard with rfl | hguard
    · exact hbody
    · exact hbefore guard hguard
  | otherwise other =>
    have hother := hnext other rfl
    refine .pure (nestIfs_braces rfl ?_ hbefore)
    simp only [Stmt.braces]
    split <;> omega
  | nothing => exact .pure (nestIfs_braces rfl hbody hbefore)

/-- A `while` loop has braces around its body. -/
theorem whileLoop_braces : (whileLoop levels block).Yields fun s => s.braces ≤ n :=
  .after fun _ => .bind h fun _ hbody => .pure hbody

/-- So has a `for` loop. -/
theorem forLoop_braces : (forLoop levels block).Yields fun s => s.braces ≤ n := by
  refine .after fun item => .after fun _ => .taking ?_ ?_
  · exact .after fun iterable => .bind h fun _ hbody => .pure hbody
  · exact .after fun _ => .after fun iterable => .bind h fun _ hbody => .pure hbody

/-- So has a function. -/
theorem function_braces : (function levels block).Yields fun s => s.braces ≤ n := by
  refine .after fun name => .after fun _ => .after fun params => .after fun _ => .taking ?_ ?_
  · exact .after fun returns => .bind h fun _ hbody => .pure hbody
  · exact .after fun _ => .after fun returns => .bind h fun _ hbody => .pure hbody

/-- Every statement, with its blocks read one level down. -/
theorem statement_braces : (statement levels block).Yields fun s => s.braces ≤ n := by
  -- what has no block is nested in no braces
  have hflat : ∀ {p : Parser Stmt}, p.Flat → p.Yields fun s => s.braces ≤ n :=
    fun hp c s c' hrun => Nat.le_trans (Nat.le_of_eq (hp c s c' hrun)) (Nat.zero_le n)
  have hsimple : ∀ {p : Parser Stmt}, p.Simple → p.Yields fun s => s.braces ≤ n :=
    fun hp => hflat fun c s c' hrun => Stmt.braces_of_isSimple (hp c s c' hrun)
  have hfunction := function_braces levels h
  -- one reader of statements after the other, in the order in which they are tried
  refine .after fun _ => .taking hfunction (.taking hfunction ?_)
  refine .taking (hsimple (returned_simple levels)) ?_
  refine .taking (hflat (declaration_flat levels false)) ?_
  refine .taking (hflat (declaration_flat levels false)) ?_
  refine .taking (hflat (declaration_flat levels true)) (.taking (conditional_braces levels h) ?_)
  refine .taking (whileLoop_braces levels h) (.taking (forLoop_braces levels h) ?_)
  refine .taking (hsimple (.pure rfl)) (.taking (hsimple (.pure rfl)) (.taking ?_ ?_))
  · exact hsimple (.after fun value => .pure rfl)
  · exact hsimple (storeOrExpr_simple levels)

end Blocks

/-- What holds of every statement that is read holds of all statements of a block. -/
theorem statements_yields (inBlock : Bool) {stmt : Parser Stmt} {R : Stmt → Prop}
    (h : stmt.Yields R) : (statements inBlock stmt).Yields fun body => ∀ s ∈ body, R s := by
  refine iterate_yields (I := fun before => ∀ s ∈ before, R s) (fun before hbefore => ?_)
    (fun _ hnone => by cases hnone)
  have hdone : ∀ s ∈ before.reverse, R s := fun s hs => hbefore s (List.mem_reverse.mp hs)
  unfold statements.step
  refine .after fun _ => .after fun c => ?_
  -- the end of the text, which must not come inside a block
  split
  · split
    · exact .after fun c => .throw _
    · exact .pure hdone
  -- the closing brace, or one statement more
  split
  · exact .pure hdone
  · exact .bind h fun s hs => .after fun _ => .pure (List.forall_mem_cons.mpr ⟨hs, hbefore⟩)

/-- Braces of statements that are read one after the other. -/
theorem statements_braces (inBlock : Bool) {n : Nat} {stmt : Parser Stmt}
    (h : stmt.Yields fun s => s.braces ≤ n) :
    (statements inBlock stmt).Yields fun body => Block.braces body ≤ n := by
  intro c body c' hrun
  rw [Block.braces_le_iff]
  exact statements_yields inBlock h c body c' hrun

/-- **With so many levels left, braces are nested at most so deep.** -/
theorem block_braces (n : Nat) : (block n).Yields fun body => Block.braces body + 1 ≤ n := by
  induction n with
  | zero => exact .after fun _ => .after fun c => .throw _
  | succ n ih =>
    refine .after fun _ => .bind (statements_braces true (statement_braces n ih)) ?_
    intro body hbody
    exact .after fun _ => .pure (Nat.succ_le_succ hbody)

end Parser

/-- **Braces are nested at most `maxNesting` deep in a text that is accepted.** -/
theorem Program.parse_braces {source : String} {program : Program}
    (h : Program.parse source = .ok program) : Block.braces program ≤ maxNesting :=
  (Parser.statements_braces false
    (Parser.statement_braces maxNesting (Parser.block_braces maxNesting))).of_map_fst h

/-! ## §4. Chains of `else if` -/

namespace Parser

section Chains

variable {α : Type} {p q : Parser α} {t u v : List Char} {a : α}

/-- A keyword that stands here is taken, if no name goes on behind it. -/
theorem Reads.keyword {word : String} (letters : List Char) (hword : word.toList = letters)
    (h : Text.isNameChar (t.getD 0 Cursor.pastEnd) = false) (hp : Reads p t a v) :
    Reads (acceptKeyword word >>= fun taken => if taken = true then p else q)
      (letters ++ t) a v := by
  subst hword
  refine .taking (fun c hc => ⟨c.advanceBy word.length, ?_, ?_⟩) hp
  -- what is seen behind the keyword is what the text goes on with
  · have hnext : c.peekAt word.length = t.getD 0 Cursor.pastEnd := by
      simp only [Cursor.peekAt, hc, ← String.length_toList, List.getD_eq_getElem?_getD,
        List.getElem?_append_right (Nat.le_refl _), Nat.sub_self]
    have hstands : c.standsKeyword word = true := by
      rw [Cursor.standsKeyword, Cursor.stands, hc, Reads.sees_append, hnext, h]
      rfl
    rw [Cursor.acceptKeyword?, if_pos hstands]
  · rw [Cursor.rest_advanceBy, hc, ← String.length_toList, List.drop_left]

/-- A keyword that does not stand here is passed over. -/
theorem Reads.noKeyword {word : String} (letters : List Char) (hword : word.toList = letters)
    (h : Cursor.sees letters t = false) (hq : Reads q t a v) :
    Reads (acceptKeyword word >>= fun taken => if taken = true then p else q) t a v := by
  subst hword
  refine .leaving (fun c hc => ?_) hq
  simp [Cursor.acceptKeyword?, Cursor.standsKeyword, Cursor.stands, hc, h]

/-- An operand is the whole expression if no joint stands past the gap after it. -/
theorem exprOf_reads {g : Gap} {operand : Parser Expr} {e : Expr} (h : Reads operand t e u)
    (hnone : ∀ k, NoJoint k (past g u)) : Reads (exprOf g operand) t e (past g u) := by
  have hclimb : ∀ k, k ≤ 5 → ReadsTo g (reader g operand k) t e u := by
    intro k
    induction k with
    | zero => exact fun _ => h.readsTo
    | succ k ih => exact fun hk => (ih (by omega)).climb_noJoint (by omega) (hnone k)
  rw [exprOf_eq_reader]
  have hlast := chainOperator_none (k := 5) (by omega) rfl (hnone 5)
  exact (Opens.first (hclimb 5 (by omega))).done hlast

/-- A name before a brace is the whole condition. -/
theorem condition_reads (levels : Nat) (u : List Char) :
    Reads (expr levels .inline) (' ' :: 'a' :: ' ' :: '{' :: u) (.var "a") ('{' :: u) := by
  have hname : isIdentifier "a" = true := by decide
  -- the name alone is the head of an operand
  have hheads : Heads levels .inline ('a' :: ' ' :: '{' :: u) (.var "a") (' ' :: '{' :: u) :=
    var_heads hname (by decide) (boundary_mark (by decide) (by decide) (by decide) (by decide))
  -- no suffix stands at a blank before a brace
  have hsuffix : Reads (suffix (below levels) (.var "a")) (' ' :: '{' :: u) (.done (.var "a"))
      (' ' :: '{' :: u) := by
    refine .passingOther (by decide) (.passingText rfl (.get fun c hc => ?_))
    split
    · exact .passingOther (by decide) .pure
    · exact .pure
  -- so the name is the operand, and no operator follows it
  have hoperand : Reads (operand byScan levels .inline) ('a' :: ' ' :: '{' :: u) (.var "a")
      (' ' :: '{' :: u) := by
    rw [operand_eq]
    refine Reads.gap.bind ?_
    have hnone : Reads leadingOperator ('a' :: ' ' :: '{' :: u) none ('a' :: ' ' :: '{' :: u) :=
      leadingOperator_none (by simp) (by simp)
    exact hnone.bind (hheads _ _ (.iterate_done hsuffix))
  refine skipsBlank_exprOf.reads (exprOf_reads hoperand fun k c hc => ?_)
  cases hc
  simp [jointTier]

/-- What may follow a statement: nothing, or the brace that closes the block around it. -/
def Closes (u : List Char) : Prop := u = [] ∨ ∃ v, u = '}' :: v

/-- Nothing has to be read at the end of a statement that closes its block. -/
theorem terminator_reads (hu : Closes u) : Reads terminator u () u := by
  rcases hu with rfl | ⟨v, rfl⟩
  · refine Reads.gap.bind (.get fun c hc => ?_)
    rw [if_pos (by rw [Cursor.atEnd, hc]; simp [past])]
    exact .pure
  · refine Reads.gap.bind (.get fun c hc => ?_)
    have hc : c.rest = '}' :: v := hc
    rw [if_pos (by simp [Cursor.peek, Cursor.peekAt, hc, endsStatement])]
    exact .pure

/-- Nothing belongs to an `if` whose block ends there. -/
theorem afterIf_nothing (hu : Closes u) (p : Parser (List Stmt)) :
    Reads (afterIf p) u .nothing u := by
  refine .get fun c hc => ?_
  have hback : Reads (set c >>= fun _ => pure AfterIf.nothing : Parser AfterIf) u .nothing u :=
    fun _ _ => ⟨c, rfl, hc⟩
  rcases hu with rfl | ⟨v, rfl⟩
  · exact Reads.gap.bind (.noKeyword ['e', 'l', 's', 'e'] rfl rfl hback)
  · exact Reads.gap.bind (.noKeyword ['e', 'l', 's', 'e'] rfl rfl hback)

/-- The characters of ` else if`. -/
def elseIfMark : List Char := [' ', 'e', 'l', 's', 'e', ' ', 'i', 'f']

/-- After the block of an `if` an `else if` is seen. -/
theorem afterIf_elseIf (p : Parser (List Stmt)) (u : List Char) :
    Reads (afterIf p) (elseIfMark ++ ' ' :: u) .elseIf (' ' :: u) := by
  refine .get fun c hc => Reads.gap.bind ?_
  show Reads _ (['e', 'l', 's', 'e'] ++ ' ' :: 'i' :: 'f' :: ' ' :: u) _ _
  refine .keyword _ rfl rfl (Reads.gap.bind ?_)
  show Reads _ (['i', 'f'] ++ ' ' :: u) _ _
  exact .keyword _ rfl rfl .pure

/-- A statement that begins with `if`. -/
theorem statement_if {levels : Nat} {p : Parser (List Stmt)} {s : Stmt}
    (h : Reads (conditional levels p) (' ' :: t) s u) :
    Reads (statement levels p) ('i' :: 'f' :: ' ' :: t) s u := by
  unfold statement
  refine Reads.gap.bind ?_
  refine .noKeyword ['f', 'u', 'n', 'c'] rfl rfl ?_
  refine .noKeyword ['f', 'n'] rfl rfl ?_
  refine .noKeyword ['r', 'e', 't', 'u', 'r', 'n'] rfl rfl ?_
  refine .noKeyword ['l', 'e', 't'] rfl rfl ?_
  refine .noKeyword ['v', 'a', 'r'] rfl rfl ?_
  refine .noKeyword ['c', 'o', 'n', 's', 't'] rfl rfl ?_
  exact .keyword ['i', 'f'] rfl rfl h

/-- Statements end at the end of what they stand in: of the text, or of the block around them. -/
theorem statements_end {inBlock : Bool} {p : Parser Stmt} (hu : Closes u)
    (hin : inBlock = true ↔ u ≠ []) (before : List Stmt) :
    Reads (statements.step inBlock p before) u (.done before.reverse) u := by
  rcases hu with rfl | ⟨v, rfl⟩
  · refine Reads.gap.bind (.get fun c hc => ?_)
    rw [if_pos (by rw [Cursor.atEnd, hc]; rfl), if_neg (fun hb => hin.mp hb rfl)]
    exact .pure
  · refine Reads.gap.bind (.get fun c hc => ?_)
    have hc : c.rest = '}' :: v := hc
    rw [if_neg (by simp [Cursor.atEnd, hc]),
      if_pos (by simp [Cursor.peek, Cursor.peekAt, hc, hin.mpr])]
    exact .pure

/-- One statement, and nothing else. -/
theorem statements_one {inBlock : Bool} {p : Parser Stmt} {s : Stmt} {ch : Char}
    (hch : past .separators (ch :: t) = ch :: t) (hbrace : ch ≠ '}') (hu : Closes u)
    (hin : inBlock = true ↔ u ≠ []) (hless : u.length ≤ t.length) (h : Reads p (ch :: t) s u) :
    Reads (statements inBlock p) (ch :: t) [s] u := by
  have hfirst : Reads (statements.step inBlock p []) (ch :: t) (.again [s]) u := by
    refine Reads.gap.bind (.get fun c hc => ?_)
    rw [hch] at hc ⊢
    have hmore : ¬c.atEnd = true := by simp [Cursor.atEnd, hc]
    have hopen : ¬(inBlock && c.peek == '}') = true := by
      simp [Cursor.peek, Cursor.peekAt, hc, hbrace]
    rw [if_neg hmore, if_neg hopen]
    exact h.bind ((terminator_reads hu).bind .pure)
  exact .iterate_again hfirst (Nat.lt_succ_of_le hless) (.iterate_done (statements_end hu hin [s]))

/-- A block, if there is a level for it. -/
theorem block_reads {levels : Nat} {body : List Stmt}
    (h : Reads (statements true (statement levels (block levels))) t body ('}' :: u)) :
    Reads (block (levels + 1)) ('{' :: t) body u := by
  unfold block
  exact (Reads.gap.bind (.accepting .pure)).bind (h.bind (advance_reads.bind .pure))

/-- A block without statements. -/
theorem block_empty (levels : Nat) (u : List Char) :
    Reads (block (levels + 1)) ('{' :: '}' :: u) [] u :=
  block_reads (.iterate_done (statements_end (.inr ⟨u, rfl⟩) (by simp) []))

/-- What stands after the first `if` of a chain with so many `else if`. -/
def chainText : Nat → List Char → List Char
  | 0, u => [' ', 'a', ' ', '{', '}'] ++ u
  | n + 1, u => [' ', 'a', ' ', '{', '}'] ++ (elseIfMark ++ chainText n u)

/-- What a chain is read as: one `if` in the `else` branch of the other. -/
def chainedIf (n : Nat) : Stmt :=
  nestIfs (.ifThen (.var "a") []) (List.replicate n (.var "a", []))

/-- What stands after the first `if` where so many pairs of braces lie around a chain. -/
def wrappedText (n : Nat) : Nat → List Char → List Char
  | 0, u => chainText n u
  | k + 1, u => [' ', 'a', ' ', '{', 'i', 'f'] ++ wrappedText n k ('}' :: u)

/-- What it is read as. -/
def wrappedIf (n : Nat) : Nat → Stmt
  | 0 => chainedIf n
  | k + 1 => .ifThen (.var "a") [wrappedIf n k]

/-- A chain begins with a blank and is longer than what follows it. -/
theorem chainText_begins (n : Nat) (u : List Char) :
    ∃ v, chainText n u = ' ' :: v ∧ u.length < v.length := by
  induction n with
  | zero => exact ⟨'a' :: ' ' :: '{' :: '}' :: u, rfl, by simp only [List.length_cons]; omega⟩
  | succ n ih =>
    obtain ⟨v, hv, hless⟩ := ih
    refine ⟨'a' :: ' ' :: '{' :: '}' :: (elseIfMark ++ chainText n u), rfl, ?_⟩
    simp only [hv, List.length_append, List.length_cons]
    omega

/-- So does a chain inside braces. -/
theorem wrappedText_begins (n k : Nat) (u : List Char) :
    ∃ v, wrappedText n k u = ' ' :: v ∧ u.length < v.length := by
  induction k generalizing u with
  | zero => exact chainText_begins n u
  | succ k ih =>
    obtain ⟨v, hv, hless⟩ := ih ('}' :: u)
    refine ⟨'a' :: ' ' :: '{' :: 'i' :: 'f' :: wrappedText n k ('}' :: u), rfl, ?_⟩
    simp only [hv, List.length_cons] at hless ⊢
    omega

/-- The rounds of a chain, given the conditions before it. -/
theorem chainText_rounds (hu : Closes u) (levels n : Nat) (before : List (Expr × List Stmt)) :
    Reads (iterate (conditional.step (levels + 1) (block (levels + 1))) before) (chainText n u)
      (nestIfs (.ifThen (.var "a") []) (List.replicate n (.var "a", []) ++ before)) u := by
  induction n generalizing before with
  | zero =>
    refine .iterate_done ((condition_reads _ _).bind ((block_empty levels _).bind ?_))
    exact (afterIf_nothing hu _).bind .pure
  | succ n ih =>
    -- the round puts its own condition in front of those before it
    have hbefore : List.replicate (n + 1) ((.var "a", []) : Expr × List Stmt) ++ before =
        List.replicate n (.var "a", []) ++ (.var "a", []) :: before := by
      rw [List.replicate_succ', List.append_assoc]
      rfl
    rw [hbefore]
    refine .iterate_again (u := chainText n u) ?_ ?_ (ih _)
    · refine (condition_reads _ _).bind ((block_empty levels _).bind ?_)
      obtain ⟨v, hv, -⟩ := chainText_begins n u
      rw [hv]
      exact (afterIf_elseIf _ v).bind .pure
    · simp only [chainText, elseIfMark, List.length_append, List.length_cons]
      omega

/-- **A chain inside braces is read if there is a level for each pair of them**, however long the
    chain is. -/
theorem wrappedText_reads (n k : Nat) {levels : Nat} (hlevels : k + 1 ≤ levels) (hu : Closes u) :
    Reads (conditional levels (block levels)) (wrappedText n k u) (wrappedIf n k) u := by
  obtain ⟨levels, rfl⟩ : ∃ l, levels = l + 1 := ⟨levels - 1, by omega⟩
  induction k generalizing levels u with
  | zero =>
    have hrounds := chainText_rounds hu levels n []
    rw [List.append_nil] at hrounds
    exact hrounds
  | succ k ih =>
    -- the outer braces take one level, and what lies inside them is read with the rest
    obtain ⟨levels, rfl⟩ : ∃ l, levels = l + 1 := ⟨levels - 1, by omega⟩
    have hinner := ih (.inr ⟨u, rfl⟩) levels (by omega)
    obtain ⟨v, hv, hless⟩ := wrappedText_begins n k ('}' :: u)
    rw [hv] at hinner
    have hbody : Reads (statements true (statement (levels + 1) (block (levels + 1))))
        ('i' :: 'f' :: ' ' :: v) [wrappedIf n k] ('}' :: u) := by
      refine statements_one rfl (by decide) (.inr ⟨u, rfl⟩) (by simp) ?_ (statement_if hinner)
      simp only [List.length_cons] at hless ⊢
      omega
    rw [wrappedText, hv]
    refine .iterate_done ((condition_reads _ _).bind ((block_reads hbody).bind ?_))
    exact (afterIf_nothing hu _).bind .pure

end Chains

end Parser

/-- **Chains of any length are accepted** in as many braces as there may be. -/
theorem Program.parse_wrapped (n : Nat) {k : Nat} (hk : k + 1 ≤ maxNesting) {source : String}
    (hsource : source.toList = 'i' :: 'f' :: wrappedText n k []) :
    Program.parse source = .ok [wrappedIf n k] := by
  have hread := Parser.wrappedText_reads n k hk (.inl rfl)
  obtain ⟨v, hv, -⟩ := Parser.wrappedText_begins n k []
  rw [hv] at hread hsource
  have hin : false = true ↔ ([] : List Char) ≠ [] := by simp
  obtain ⟨c, hrun, -⟩ := Parser.statements_one rfl (by decide) (.inl rfl) hin (by simp)
    (Parser.statement_if hread) (Cursor.start source) hsource
  show (Parser.statements false _ _).map Prod.fst = _
  rw [hrun]
  rfl

/-- A chain as it is written. -/
theorem chainText_source (n : Nat) :
    ("if a \x7b\x7d" ++ String.join (List.replicate n " else if a \x7b\x7d")).toList =
      'i' :: 'f' :: chainText n [] := by
  have hchain : chainText n [] = [' ', 'a', ' ', '{', '}'] ++
      (List.replicate n (Parser.elseIfMark ++ [' ', 'a', ' ', '{', '}'])).flatten := by
    induction n with
    | zero => rfl
    | succ n ih => rw [chainText, ih, List.replicate_succ, List.flatten_cons, List.append_assoc]
  have hfirst : "if a \x7b\x7d".toList = 'i' :: 'f' :: [' ', 'a', ' ', '{', '}'] := by decide
  have hnext : " else if a \x7b\x7d".toList = Parser.elseIfMark ++ [' ', 'a', ' ', '{', '}'] := by
    decide
  rw [String.toList_append, String.toList_join, List.flatMap_replicate, hfirst, hnext, hchain]
  rfl

/-- Each condition of a chain is one block further down, and none of its braces. -/
theorem nestIfs_measures (last : Stmt) (hlast : last.isIf = true) (n : Nat) (condition : Expr) :
    (Parser.nestIfs last (List.replicate n (condition, []))).nesting = last.nesting + n ∧
      (Parser.nestIfs last (List.replicate n (condition, []))).elseIfs = last.elseIfs + n := by
  induction n generalizing last with
  | zero => exact ⟨rfl, rfl⟩
  | succ n ih =>
    -- the condition that is folded in first is the innermost one
    obtain ⟨hnesting, helseIfs⟩ := ih (.ifElse condition [] [last]) rfl
    have hlink : Block.isChained [last] = true := hlast
    constructor
    · refine hnesting.trans ?_
      simp only [Stmt.nesting, Block.nesting]
      omega
    · refine helseIfs.trans ?_
      simp only [Stmt.elseIfs, Block.elseIfs, hlink, if_true]
      omega

/-- The measures of a chain inside braces: one block for each pair, and one for each `else if`. -/
theorem wrappedIf_measures (n k : Nat) :
    (wrappedIf n k).nesting = k + n + 1 ∧ (wrappedIf n k).elseIfs = n := by
  induction k with
  | zero =>
    obtain ⟨hnesting, helseIfs⟩ := nestIfs_measures (.ifThen (.var "a") []) rfl n (.var "a")
    simp only [Stmt.nesting, Block.nesting, Stmt.elseIfs, Block.elseIfs] at hnesting helseIfs
    refine ⟨hnesting.trans (by omega), helseIfs.trans (by omega)⟩
  | succ k ih =>
    simp only [wrappedIf, Stmt.nesting, Block.nesting, Stmt.elseIfs, Block.elseIfs, ih]
    omega

/-! ## §5. The bound -/

/-- **Accepted programs nest by braces.**  In every program that is read, at most `maxNesting` pairs
    of braces lie around each other.  So blocks are nested at most `maxNesting` deep without `else if`,
    and at most `maxNesting + n` deep where no more than `n` of them lead into each other; and that
    deep they can be, for every `n`. -/
theorem accepted_programs_nest_by_braces (n : Nat) :
    (∀ source program, Program.parse source = .ok program → Block.braces program ≤ maxNesting ∧
      (Block.elseIfs program ≤ n → Block.nesting program ≤ maxNesting + n)) ∧
    (∃ source program, Program.parse source = .ok program ∧ Block.elseIfs program = n ∧
      Block.nesting program = maxNesting + n) := by
  constructor
  · intro source program hparse
    -- the bound: braces are limited by the levels, and blocks by braces and `else if`
    have hbraces := Program.parse_braces hparse
    have hnesting := Block.nesting_le program
    exact ⟨hbraces, fun helseIfs => by omega⟩
  -- a chain of so many `else if` inside as many braces as there may be
  · refine ⟨String.ofList ('i' :: 'f' :: wrappedText n 47 []), [wrappedIf n 47],
      Program.parse_wrapped n (by decide) String.toList_ofList, ?_⟩
    obtain ⟨hnesting, helseIfs⟩ := wrappedIf_measures n 47
    simp only [Block.elseIfs, Block.nesting, hnesting, helseIfs, maxNesting]
    omega

/-- A function, two loops and a chain with an `else` at its end: four pairs of braces around each
    other, and five blocks. -/
theorem accepted_programs_nest_by_braces_mixed :
    let source := "func f() -> Int \x7b\n while a \x7b\n for i in a \x7b\n" ++
      "  if a \x7b \x7d else if b \x7b \x7d else \x7b x = 1 \x7d\n \x7d\n \x7d\n\x7d"
    ∃ program, Program.parse source = .ok program ∧ Block.nesting program = 5 ∧
      Block.elseIfs program = 1 ∧ Block.braces program ≤ maxNesting ∧
      Block.nesting program ≤ maxNesting + 1 := by
  intro source
  have hmeasures : (Program.parse source).toOption.map
      (fun p => (Block.nesting p, Block.elseIfs p)) = some (5, 1) := by
    decide +kernel
  cases hparse : Program.parse source with
  | error e =>
    rw [hparse] at hmeasures
    cases hmeasures
  | ok program =>
    rw [hparse] at hmeasures
    obtain ⟨hnesting, hlinks⟩ := Prod.mk.inj (Option.some.inj hmeasures)
    obtain ⟨hbraces, hbound⟩ := (accepted_programs_nest_by_braces 1).1 source program hparse
    exact ⟨program, rfl, hnesting, hlinks, hbraces, hbound (Nat.le_of_eq hlinks)⟩

/-- **`else if` escapes the bound**: a chain of one `if` and 48 times `else if` is accepted, and its
    last block lies 49 deep. -/
theorem else_if_escapes_the_bound :
    ∃ program, Program.parse ("if a \x7b\x7d" ++
        String.join (List.replicate 48 " else if a \x7b\x7d")) = .ok program ∧
      maxNesting < Block.nesting program := by
  refine ⟨[wrappedIf 48 0], Program.parse_wrapped 48 (by decide) (chainText_source 48), ?_⟩
  simp only [Block.nesting, wrappedIf_measures]
  decide

end Scriptlet
