/-
  Scriptlet.Proofs.Progress — reading ends, and advances.

  The machine of `Scriptlet.Proofs.Counting` has no guard on its loops and no argument that its calls
  descend on.  That its runs end comes from the text: a round that asks for another has read something,
  also where the rounds are over characters, and a call that goes down has raised the depth, which is
  bounded.

  Main results:
    * `Counted.ty_counts`, `Counted.expr_counts`, `Counted.statement_counts` — the grammar.
    * `parsing_ends_and_advances` — every text.
-/
import Scriptlet.Proofs.Stepping

namespace Scriptlet

namespace Counted

variable {α : Type}

/-! ## §1. Types -/

section Grammar

variable {τ : Type} {budget levels : Nat} {g : Gap}

/-- What stands for the level below: nothing if no level is left, and else something as asked. -/
def Below (levels : Nat) (deeper : Option τ) (P : Nat → τ → Prop) : Prop :=
  levels = 0 ∧ deeper = none ∨ ∃ n d, levels = n + 1 ∧ deeper = some d ∧ P n d

/-- **Inside brackets** the level below is read, where line ends are gaps; where there is none, both
    refuse. -/
theorem Below.nested {deeper : Option τ} {P : Nat → τ → Prop} (hb : Below levels deeper P)
    {inner : τ → Parser α} {marked : α → Bool} {q : Counted α}
    (h : ∀ n d, P n d → Counts budget n .lines marked (inner d) q) :
    Counts budget levels g marked (Parser.within deeper inner) (nested q) := by
  rcases hb with ⟨rfl, rfl⟩ | ⟨n, d, rfl, rfl, hd⟩
  · show Counts budget 0 g marked (Parser.descend 0 fun _ => Parser.tooDeep) (Counted.nested q)
    apply nested_counts
    intro n hn
    cases hn
  · show Counts budget (n + 1) g marked (Parser.descend (n + 1) fun _ => inner d) (Counted.nested q)
    apply nested_counts
    intro m hm
    cases hm
    exact h n d hd

/-- The same without a bracket: what separates words stays. -/
theorem Below.descend {deeper : Option τ} {P : Nat → τ → Prop} (hb : Below levels deeper P)
    {inner : τ → Parser α} {marked : α → Bool} {q : Counted α}
    (h : ∀ n d, P n d → Counts budget n g marked (inner d) q) :
    Counts budget levels g marked (Parser.within deeper inner) (descend q) := by
  rcases hb with ⟨rfl, rfl⟩ | ⟨n, d, rfl, rfl, hd⟩
  · show Counts budget 0 g marked (Parser.descend 0 fun _ => Parser.tooDeep) (Counted.descend q)
    apply descend_counts
    intro n hn
    cases hn
  · show Counts budget (n + 1) g marked (Parser.descend (n + 1) fun _ => inner d) (Counted.descend q)
    apply descend_counts
    intro m hm
    cases hm
    exact h n d hd

/-- The content of brackets: a type, or two with a colon between them. -/
theorem bracketed_counts {p : Parser Ty} {q : Counted Ty}
    (h : Counts budget levels .lines (fun _ => true) p q) :
    Counts budget levels .lines (fun _ => true) (Parser.tyLevel.bracketed p)
      (tyLevel.bracketed budget q) := by
  apply h.andThen
  intro first
  apply Counts.blank
  apply (accept_counts ':').taking
  · apply h.andThen
    intro value
    exact (expect_counts ']').andThen fun _ => .pure rfl
  · exact (expect_counts ']').andThen fun _ => .pure rfl

/-- **Types**, over the level below. -/
theorem tyLevel_counts {deeper : Option (Parser Ty)} {q : Counted Ty}
    (hb : Below levels deeper fun n d => Counts budget n .lines (fun _ => true) d q) :
    Counts budget levels g (fun _ => true) (Parser.tyLevel deeper g) (tyLevel budget q) := by
  -- question marks: each is a character, so a round that asks for another has read one
  have hquestion : ∀ type, Counts budget levels g (fun _ => false)
      (Parser.iterate Parser.tyLevel.question type) (repeated tyLevel.question budget type) := by
    apply repeated_counts
    intro type
    apply (accept_counts '?').taking
    · exact .pure rfl
    · exact .pure rfl
  -- either a bracket, which is read before what is in it, or a name, which is never empty
  apply Counts.blank
  apply (accept_counts '[').taking
  · exact (hb.nested fun n d hd => bracketed_counts hd).first hquestion
  · apply Counts.andThen _ hquestion
    apply (name_counts "a type name").andThen
    intro word
    cases Ty.ofName? word with
    | some type => exact .pure rfl
    | none => exact .throw

/-- **Types**, with more calls in the budget than levels are left. -/
theorem ty_counts {calls : Nat} (h : levels < calls) :
    Counts budget levels g (fun _ => true) (Parser.ty levels g) (ty budget calls) := by
  induction calls generalizing levels g with
  | zero => omega
  | succ calls ih =>
    cases levels with
    | zero => exact tyLevel_counts (.inl ⟨rfl, rfl⟩)
    | succ n => exact tyLevel_counts (.inr ⟨n, _, rfl, rfl, ih (by omega)⟩)

/-! ## §2. Expressions -/

/-- **Operands with operators between them**: a round that asks for another has read an operator. -/
theorem leftChain_counts {operator : Parser (Option BinaryOp)}
    (ho : Parser.Steps Option.isSome operator) {next : Parser Expr} {next' : Counted Expr}
    (hn : Counts budget levels g (fun _ => true) next next') :
    Counts budget levels g (fun _ => true) (Parser.leftChain g operator next)
      (leftChain budget operator next') := by
  apply hn.andThen
  apply repeated_counts
  intro left
  apply Counts.blank
  apply (Counts.token ho).bind
  intro op
  cases op with
  -- no operator: the chain ends, and the last round need not have read anything
  | none => exact .pure rfl
  | some op => exact hn.andThen fun _ => .pure rfl

/-- At most one joint, so no loop. -/
theorem pair_counts {join : Parser (Option (Expr → Expr → Expr))}
    (hj : Parser.Steps Option.isSome join) {next : Parser Expr} {next' : Counted Expr}
    (hn : Counts budget levels g (fun _ => true) next next') :
    Counts budget levels g (fun _ => true) (Parser.pair g join next)
      (pair budget join next') := by
  apply hn.andThen
  intro left
  apply Counts.blank
  apply (Counts.token hj).first
  intro make
  cases make with
  | none => exact .pure rfl
  | some make => exact hn.andThen fun _ => .pure rfl

/-- **The levels of joints**, each over the one below. -/
theorem exprOf_counts {p : Parser Expr} {q : Counted Expr}
    (h : Counts budget levels g (fun _ => true) p q) :
    Counts budget levels g (fun _ => true) (Parser.exprOf g p) (exprOf budget q) := by
  have hproduct := leftChain_counts Parser.productOperator_steps h
  have hsum := leftChain_counts Parser.sumOperator_steps hproduct
  have hrange := pair_counts Parser.rangeOperator_steps hsum
  have hcomparison := pair_counts Parser.comparisonOperator_steps hrange
  have hand : Parser.Steps Option.isSome (Parser.wordOperator "&&" .and) :=
    Parser.wordOperator_steps (by decide) (by decide) .and
  have hconjunction := leftChain_counts hand hcomparison
  exact leftChain_counts (Parser.wordOperator_steps (by decide) (by decide) .or) hconjunction

section Brackets

variable {p : Parser Expr} {q : Counted Expr} (h : Counts budget levels .lines (fun _ => true) p q)

include h

theorem enclosed_counts (close : Char) :
    Counts budget levels .lines (fun _ => true) (Parser.enclosed p close) (enclosed budget q close) := by
  apply (exprOf_counts h).andThen
  intro inner
  exact (expect_counts close).andThen fun _ => .pure rfl

/-- Arguments: each has been read before the loop asks for another. -/
theorem arguments_counts :
    Counts budget levels .lines (fun _ => false) (Parser.arguments p) (arguments budget q) := by
  apply Counts.blank
  apply (accept_counts ')').taking
  · exact .pure rfl
  · apply repeated_counts
    intro before
    apply (exprOf_counts h).andThen
    intro arg
    apply Counts.blank
    apply (accept_counts ')').taking
    · exact .pure rfl
    · exact (expect_counts ',').andThen fun _ => .pure rfl

theorem keyAndValue_counts :
    Counts budget levels .lines (fun _ => true) (Parser.keyAndValue p) (keyAndValue budget q) := by
  apply (exprOf_counts h).andThen
  intro key
  apply (expect_counts ':').andThen
  intro _
  exact (exprOf_counts h).andThen fun _ => .pure rfl

end Brackets

/-- A comma or the closing bracket, one of which has to be there. -/
theorem collectionGoesOn_counts :
    Counts budget levels .lines (fun _ => true) Parser.collectionGoesOn
      (collectionGoesOn budget) := by
  apply Counts.blank
  apply (accept_counts ']').taking
  · exact .pure rfl
  · apply (expect_counts ',').andThen
    intro _
    apply Counts.blank
    apply (accept_counts ']').taking
    · exact .pure rfl
    · exact .pure rfl

/-- Entries: each has been read before the loop asks for another. -/
theorem entries_counts {entry : Parser α} {entry' : Counted α}
    (h : Counts budget levels .lines (fun _ => true) entry entry') :
    Counts budget levels .lines (fun _ => true) (Parser.entries entry) (entries budget entry') := by
  apply repeated_counts
  intro before
  apply h.andThen
  intro a
  apply collectionGoesOn_counts.andThen
  intro more
  cases more with
  | true => exact .pure rfl
  | false => exact .pure rfl

/-- **Collections**: looking ahead reads nothing, so the entries have to. -/
theorem collection_counts {p : Parser Expr} {q : Counted Expr}
    (h : Counts budget levels .lines (fun _ => true) p q) :
    Counts budget levels .lines (fun _ => true) (Parser.collection Parser.byScan p)
      (collection budget q) := by
  apply Counts.blank
  -- an empty array, an empty dictionary, or entries of the kind that is found ahead
  apply (accept_counts ']').taking
  · exact .pure rfl
  · apply (accept_counts ':').taking
    · exact (expect_counts ']').andThen fun _ => .pure rfl
    · apply (scan_counts p).first
      intro pairs
      cases pairs with
      | true => exact (entries_counts (keyAndValue_counts h)).andThen fun _ => .pure rfl
      | false => exact (entries_counts (exprOf_counts h)).andThen fun _ => .pure rfl

section Operands

variable {deeper : Parser.Deeper} {q : Counted Expr}
variable (hb : Below levels deeper fun n d => ∀ g, Counts budget n g (fun _ => true) (d g) q)

include hb

theorem arguments_within_counts :
    Counts budget levels g (fun _ => false) (Parser.within deeper fun d => Parser.arguments (d .lines))
      (nested (arguments budget q)) :=
  hb.nested fun _ _ hd => arguments_counts (hd .lines)

/-- A word has been read already, so nothing more need be. -/
theorem nameOrCall_counts (word : String) :
    Counts budget levels g (fun _ => false) (Parser.nameOrCall deeper word)
      (nameOrCall budget q word) := by
  unfold Parser.nameOrCall
  split
  · exact .pure rfl
  · exact .pure rfl
  · exact .pure rfl
  -- both look at the same words
  · rename_i hnil htrue hfalse
    unfold nameOrCall
    split
    · exact absurd rfl hnil
    · exact absurd rfl htrue
    · exact absurd rfl hfalse
    · apply (accept_counts '(').taking
      · exact (arguments_within_counts hb).first fun _ => .pure rfl
      · exact .pure rfl

/-- A name behind the dot. -/
theorem memberOf_counts (target : Expr) (optional : Bool) :
    Counts budget levels g (fun _ => true) (Parser.memberOf deeper target optional)
      (memberOf budget q target optional) := by
  apply (nameHere_counts "a member name").andThen
  intro word
  apply (accept_counts '(').taking
  · exact (arguments_within_counts hb).first fun _ => .pure rfl
  · exact .pure rfl

/-- **A suffix** that is there has been read: a bracket, two characters or a dot. -/
theorem suffix_counts (target : Expr) :
    Counts budget levels g (fun round => goesOn round || false) (Parser.suffix deeper target)
      (suffix budget q target) := by
  apply (accept_counts '[').taking
  · exact (hb.nested fun n d hd => enclosed_counts (hd .lines) ']').first fun _ => .pure rfl
  · apply (acceptText_counts (by decide) (by decide)).taking
    · exact (memberOf_counts hb target true).andThen fun _ => .pure rfl
    · apply Counts.look
      intro c
      split
      · apply (accept_counts '.').taking
        · exact (memberOf_counts hb target false).andThen fun _ => .pure rfl
        · exact .pure rfl
      · exact .pure rfl

/-- The character ahead says what is read. -/
theorem primary_counts :
    Counts budget levels g (fun _ => true) (Parser.primary Parser.byScan deeper g)
      (primary budget q) := by
  apply Counts.blank
  intro r hr
  show RunsAs (fun _ => true) (if r.cursor.atEnd = true then _ else _)
    (if r.cursor.atEnd = true then _ else _) r
  by_cases hend : r.cursor.atEnd = true
  · rw [if_pos hend, if_pos hend]
    exact unexpected_counts _ r hr
  rw [if_neg hend, if_neg hend]
  have hahead : r.cursor.atEnd = false := Bool.eq_false_iff.mpr hend
  -- the character ahead is the first of what is read, whatever it is
  have hhead : r.cursor.rest.head? = some r.cursor.peek := by
    unfold Cursor.peek Cursor.peekAt
    cases hrest : r.cursor.rest with
    | nil => simp [Cursor.atEnd, hrest] at hahead
    | cons ch rest => rfl
  have hadvance : RunsAs (fun _ => true) Parser.advance (token Parser.advance) r :=
    .token hr.inBounds (Parser.advance_stepsAt hahead)
  -- a parenthesis, then a string, a number, a collection, and at last a name
  by_cases hparen : (r.cursor.peek == '(') = true
  · rw [if_pos hparen, if_pos hparen]
    apply hadvance.bind
    intro _ after hl
    exact (hb.nested fun n d hd => enclosed_counts (hd .lines) ')').any after (hr.leaves hl)
  rw [if_neg hparen, if_neg hparen]
  by_cases hquote : (r.cursor.peek == '"') = true
  · rw [if_pos hquote, if_pos hquote]
    rw [beq_iff_eq.mp hquote] at hhead
    apply (RunsAs.literal hr.inBounds (string_run hr.ahead_lt hhead)
      (Parser.string_forward hhead) hahead).bind
    intro text after hl
    exact Counts.pure rfl after (hr.leaves hl)
  rw [if_neg hquote, if_neg hquote]
  by_cases hdigit : r.cursor.peek.isDigit = true
  · rw [if_pos hdigit, if_pos hdigit]
    apply (RunsAs.literal hr.inBounds (number_run hr.ahead_lt)
      (Parser.number_forward hhead hdigit) hahead).bind
    intro number after hl
    cases number with
    | int n => exact Counts.pure rfl after (hr.leaves hl)
    | double x => exact Counts.pure rfl after (hr.leaves hl)
  rw [if_neg hdigit, if_neg hdigit]
  by_cases hbracket : (r.cursor.peek == '[') = true
  · rw [if_pos hbracket, if_pos hbracket]
    apply hadvance.bind
    intro _ after hl
    exact (hb.nested fun n d hd => collection_counts (hd .lines)).any after (hr.leaves hl)
  rw [if_neg hbracket, if_neg hbracket]
  exact (nameHere_counts "an expression").andThen (fun word => nameOrCall_counts hb word) r hr

/-- A prefixed operator goes one level down, and what has no such operator is read with its
    suffixes. -/
theorem operandLevel_counts :
    Counts budget levels g (fun _ => true) (Parser.operandLevel Parser.byScan deeper g)
      (operandLevel budget q) := by
  apply Counts.blank
  apply (Counts.token Parser.leadingOperator_steps).bind
  intro op
  cases op with
  | some op => exact (hb.descend fun n d hd => hd g).first fun _ => .pure rfl
  | none =>
    apply (primary_counts hb).andThen
    exact repeated_counts (suffix_counts hb)

end Operands

/-- Operands, with more calls in the budget than levels are left. -/
theorem operand_counts {calls : Nat} (h : levels < calls) :
    Counts budget levels g (fun _ => true) (Parser.operand Parser.byScan levels g)
      (operand budget calls) := by
  induction calls generalizing levels g with
  | zero => omega
  | succ calls ih =>
    cases levels with
    | zero => exact operandLevel_counts (.inl ⟨rfl, rfl⟩)
    | succ n => exact operandLevel_counts (.inr ⟨n, _, rfl, rfl, fun g => ih (by omega)⟩)

/-- **Expressions.** -/
theorem expr_counts (h : levels < budget) :
    Counts budget levels g (fun _ => true) (Parser.expr levels g) (expr budget) :=
  exprOf_counts (operand_counts h)

/-! ## §3. Statements -/

/-- What is tried, and given up by going back to where it began. -/
theorem Counts.orBack {p : Parser Bool} {q : Counted Bool}
    (hq : Counts budget levels g (fun taken => taken) p q) {f : Parser α} {k : Counted α}
    (hk : Counts budget levels g (fun _ => false) f k) {other : α} {marked : α → Bool}
    (hother : marked other = false) :
    Counts budget levels g marked
      (do
        let before ← get
        if ← p then f
        else
          set before
          return other)
      (do
        let before ← get
        if ← q then k
        else
          modify (·.backTo before)
          return other) := by
  intro r hr
  show RunsAs marked (p >>= fun taken => if taken = true then f else do set r.cursor; return other)
    (q >>= fun taken => if taken = true then k else do modify (·.backTo r); return other) r
  obtain ⟨result, mid, hrun, hread, hleaves, hmoves⟩ := hq r hr
  have hbind : ∀ after : Bool → Parser α,
      (p >>= after) r.cursor = (p r.cursor).bind fun x => after x.1 x.2 := fun _ => rfl
  cases result with
  -- what was tried has failed
  | error e =>
    refine ⟨.error e, mid, bind_error hrun, ?_, hleaves, fun b hb => by cases hb⟩
    rw [hbind, hread]
    rfl
  | ok taken =>
    obtain ⟨hle, hlt⟩ := hmoves taken rfl
    cases taken with
    -- it has succeeded, and so has read something
    | true =>
      obtain ⟨result, after, hrun', hread', hleaves', hmoves'⟩ := hk mid (hr.leaves hleaves)
      refine ⟨result, after, (bind_ok hrun).trans hrun', ?_, hleaves.trans hleaves', ?_⟩
      · rw [hbind, hread]
        exact hread'
      · intro a ha
        have hless := hlt rfl
        obtain ⟨hle', -⟩ := hmoves' a ha
        exact ⟨by omega, fun _ => by omega⟩
    | false =>
      -- it is given up: the place is the old one, but the marks stay where they have got to
      have hplace : (mid.backTo r).cursor = r.cursor := by
        unfold Reader.backTo Reader.cursor
        dsimp only
        rw [hleaves.text]
      have hbounds := hleaves.inBounds
      have hback : (mid.backTo r).InBounds :=
        ⟨Nat.le_trans hle hbounds.offset_le, hbounds.furthest_le, hbounds.depth_le, hbounds.deepest_le⟩
      refine ⟨.ok other, mid.backTo r, bind_ok hrun, ?_,
        ⟨hleaves.text, hleaves.nesting, hleaves.depth, hback⟩, ?_⟩
      · rw [hbind, hread, hplace]
        rfl
      · intro a ha
        cases ha
        refine ⟨Nat.le_refl _, fun hmark => ?_⟩
        rw [hother] at hmark
        cases hmark

/-- A statement may end at a line end, a bracket or the end of the text without reading anything. -/
theorem terminator_counts :
    Counts budget levels g (fun _ => false) Parser.terminator (terminator budget) := by
  apply Counts.gap
  apply Counts.look
  intro c
  split
  · exact .pure rfl
  · exact unexpected_counts _

/-- Whether `print` and an opening bracket stand here can be found out by taking them. -/
theorem taking_printCall? :
    Parser.taking Parser.printCall? = (do
      let before ← get
      if ← (do
        if ← Parser.acceptKeyword "print" then
          Parser.gap .inline
          Parser.accept '('
        else return false) then return true
      else
        set before
        return false) := by
  funext c
  show _ = (((Parser.acceptKeyword "print" c).bind _).bind _)
  cases hword : c.acceptKeyword? "print" with
  -- no `print` here
  | none =>
    have hkeyword : Parser.acceptKeyword "print" c = .ok (false, c) := Parser.taking_of_none hword
    have hcall : Parser.taking Parser.printCall? c = .ok (false, c) := by
      apply Parser.taking_of_none
      rw [Parser.printCall?, hword]
      rfl
    rw [hkeyword, hcall]
    rfl
  -- `print` is here, and the bracket decides
  | some c' =>
    have hkeyword : Parser.acceptKeyword "print" c = .ok (true, c') := Parser.taking_of_some hword
    have hcall : Parser.printCall? c = (c'.skip .inline).accept? '(' := by
      rw [Parser.printCall?, hword]
      rfl
    rw [hkeyword]
    show _ = (((Parser.accept '(' (c'.skip .inline))).bind _)
    cases hopen : (c'.skip .inline).accept? '(' with
    | none =>
      have hbracket : Parser.accept '(' (c'.skip .inline) = .ok (false, c'.skip .inline) :=
        Parser.taking_of_none hopen
      rw [hbracket, Parser.taking_of_none (hcall.trans hopen)]
      rfl
    | some c'' =>
      have hbracket : Parser.accept '(' (c'.skip .inline) = .ok (true, c'') :=
        Parser.taking_of_some hopen
      rw [hbracket, Parser.taking_of_some (hcall.trans hopen)]
      rfl

/-- `print` is a name like others unless a bracket follows. -/
theorem printHead_counts :
    Counts budget levels g (fun taken => taken) (Parser.taking Parser.printCall?)
      (printHead budget) := by
  rw [taking_printCall?]
  apply Counts.orBack _ (.pure rfl) rfl
  apply (keyword_counts (by decide) (by decide)).taking
  · exact (Counts.gap .inline (accept_counts '(')).any
  · exact .pure rfl

/-- After the block of an `if`: an `else` may follow on another line, else the reader goes back. -/
theorem afterIf_counts {body : Parser (List Stmt)} {body' : Counted (List Stmt)}
    (hbody : Counts budget levels .inline (fun _ => true) body body') :
    Counts budget levels .inline (fun _ => false) (Parser.afterIf body)
      (afterIf budget body') := by
  -- what is tried
  have hhead : Counts budget levels .inline (fun taken => taken)
      (do
        Parser.gap .lines
        Parser.acceptKeyword "else")
      (afterIf.ahead budget) :=
    .gap .lines (keyword_counts (by decide) (by decide))
  -- and what follows if it succeeds
  have hrest : Counts budget levels .inline (fun _ => false)
      (do
        Parser.gap .inline
        if ← Parser.acceptKeyword "if" then return Parser.AfterIf.elseIf
        else return .otherwise (← body))
      (do
        gap budget .inline
        if ← keyword "if" then return Parser.AfterIf.elseIf
        else return .otherwise (← body')) := by
    apply Counts.gap
    apply (keyword_counts (by decide) (by decide)).taking
    · exact .pure rfl
    · exact hbody.andThen fun _ => .pure rfl
  exact hhead.orBack hrest rfl

/-- **Statements**: a round that asks for another has read a statement. -/
theorem statements_counts (inBlock : Bool) {stmt : Parser Stmt} {stmt' : Counted Stmt}
    (hs : Counts budget levels .inline (fun _ => true) stmt stmt') :
    Counts budget levels .inline (fun _ => false) (Parser.statements inBlock stmt)
      (statements budget inBlock stmt') := by
  apply repeated_counts
  intro before
  apply Counts.gap
  apply Counts.look
  intro c
  -- the end of the text, then the end of the block, then one more statement
  split
  · split
    · exact unexpected_counts _
    · exact .pure rfl
  · split
    · exact .pure rfl
    · apply hs.andThen
      intro s
      exact terminator_counts.first fun _ => .pure rfl

theorem openBrace_counts :
    Counts budget levels g (fun _ => true) Parser.openBrace (openBrace budget) := by
  apply Counts.gap
  apply (accept_counts '{').taking
  · exact .pure rfl
  · exact unexpected_counts _

/-- Where no level is left, a block is refused after its brace as if one had been tried. -/
theorem block_eq (levels : Nat) : Parser.block levels = (do
    Parser.openBrace
    let body ← Parser.descend levels fun n => Parser.statements true (Parser.statement n (Parser.block n))
    Parser.advance
    return body) := by
  cases levels with
  | zero => rfl
  | succ n => rfl

section Statements

variable (h : levels < budget)

include h

/-- A declaration, with a name at least. -/
theorem declaration_counts (constant : Bool) :
    Counts budget levels .inline (fun _ => true) (Parser.declaration levels constant)
      (declaration budget constant) := by
  apply (name_counts "a variable name").andThen
  intro name
  have hrest : ∀ type, Counts budget levels .inline (fun _ => false)
      (do
        Parser.expect .inline '='
        return Stmt.declare name type (← Parser.expr levels .inline) constant)
      (do
        expect budget '='
        return Stmt.declare name type (← expr budget) constant) := by
    intro type
    apply (expect_counts '=').andThen
    intro _
    exact (expr_counts h).andThen fun _ => .pure rfl
  apply Counts.blank
  apply (accept_counts ':').taking
  · exact (ty_counts h).map.first hrest
  · exact hrest none

theorem returned_counts :
    Counts budget levels .inline (fun _ => false) (Parser.returned levels) (returned budget) := by
  apply Counts.gap
  apply Counts.look
  intro c
  split
  · exact .pure rfl
  · exact (expr_counts h).andThen fun _ => .pure rfl

/-- An expression, and perhaps what is stored under it. -/
theorem storeOrExpr_counts :
    Counts budget levels .inline (fun _ => true) (Parser.storeOrExpr levels) (storeOrExpr budget) := by
  apply (expr_counts h).andThen
  intro target
  apply Counts.gap
  apply Counts.look
  intro c
  split
  · apply (Counts.token Parser.advance_steps).first
    intro _
    apply (expr_counts h).andThen
    intro value
    cases Parser.storeTo? target value with
    | some stmt => exact .pure rfl
    | none => exact .throw
  · exact .pure rfl

section Blocks

variable {body : Parser (List Stmt)} {body' : Counted (List Stmt)}
variable (hbody : Counts budget levels .inline (fun _ => true) body body')

include hbody

/-- An `else if` is another round, and has read a condition. -/
theorem conditional_counts :
    Counts budget levels .inline (fun _ => true) (Parser.conditional levels body)
      (conditional budget body') := by
  apply repeated_counts
  intro before
  apply (expr_counts h).andThen
  intro condition
  apply hbody.andThen
  intro statements
  apply (afterIf_counts hbody).first
  intro after
  cases after with
  | elseIf => exact .pure rfl
  | otherwise other => exact .pure rfl
  | nothing => exact .pure rfl

theorem whileLoop_counts :
    Counts budget levels .inline (fun _ => true) (Parser.whileLoop levels body)
      (whileLoop budget body') := by
  apply (expr_counts h).andThen
  intro condition
  exact hbody.andThen fun _ => .pure rfl

/-- A `for`; an `in` that is missing is refused in both. -/
theorem forLoop_counts :
    Counts budget levels .inline (fun _ => true) (Parser.forLoop levels body)
      (forLoop budget body') := by
  apply (name_counts "a loop variable").andThen
  intro item
  have hrest : Counts budget levels .inline (fun _ => false)
      (do
        let iterable ← Parser.expr levels .inline
        return Stmt.forIn item iterable (← body))
      (do
        let iterable ← expr budget
        return Stmt.forIn item iterable (← body')) := by
    apply (expr_counts h).andThen
    intro iterable
    exact hbody.andThen fun _ => .pure rfl
  apply Counts.blank
  apply (keyword_counts (by decide) (by decide)).taking
  · exact hrest
  · exact (unexpected_counts "'in'").andThen fun _ => hrest

end Blocks

/-- A parameter, with its name at least. -/
theorem param_counts (before : List Param) :
    Counts budget levels .lines (fun _ => true) (Parser.param levels before) (param budget before) := by
  apply (name_counts "a parameter name").andThen
  intro name
  apply (expect_counts ':').andThen
  intro _
  apply (ty_counts h).andThen
  intro type
  -- whether a default is missing is found out after all has been read
  have hrest : ∀ default, Counts budget levels .lines (fun _ => false)
      (do
        if default.isNone && before.any fun p => p.default.isSome then
          Parser.fail
            ("parameter '" ++ name ++ "' without a default follows a defaulted parameter")
        return { name, type, default : Param })
      (do
        if default.isNone && before.any fun p => p.default.isSome then
          token (Parser.fail
            ("parameter '" ++ name ++ "' without a default follows a defaulted parameter"))
        return { name, type, default : Param }) := by
    intro default
    split
    · exact Counts.andThen (.refused fun _ => ⟨_, rfl⟩) fun _ => .pure rfl
    · exact .pure rfl
  apply Counts.blank
  apply (accept_counts '=').taking
  · exact (expr_counts h).map.first hrest
  · exact hrest none

/-- Parameters: each has been read before the loop asks for another. -/
theorem params_counts :
    Counts budget levels .lines (fun _ => true) (Parser.params levels) (params budget) := by
  apply Counts.blank
  apply (accept_counts ')').taking
  · exact .pure rfl
  · apply repeated_counts
    intro before
    apply (param_counts h before).andThen
    intro p
    apply Counts.blank
    apply (accept_counts ')').taking
    · exact .pure rfl
    · exact (expect_counts ',').andThen fun _ => .pure rfl

section Blocks

variable {body : Parser (List Stmt)} {body' : Counted (List Stmt)}
variable (hbody : Counts budget levels .inline (fun _ => true) body body')

include hbody

/-- A function: its parameters are read in brackets, one level down. -/
theorem function_counts :
    Counts budget levels .inline (fun _ => true) (Parser.function levels body)
      (function budget body') := by
  apply (name_counts "a function name").andThen
  intro name
  apply (expect_counts '(').andThen
  intro _
  -- the parameters
  have hparams : Counts budget levels .inline (fun _ => true)
      (Parser.descend levels Parser.params) (nested (params budget)) := by
    apply nested_counts
    intro n hn
    exact params_counts (by omega)
  apply hparams.andThen
  intro parameters
  -- the arrow, the type of the result and the body
  have hrest : Counts budget levels .inline (fun _ => false)
      (do
        let returns ← Parser.ty levels .inline
        return Stmt.func name parameters returns (← body))
      (do
        let returns ← ty budget budget
        return Stmt.func name parameters returns (← body')) := by
    apply (ty_counts h).andThen
    intro returns
    exact hbody.andThen fun _ => .pure rfl
  apply Counts.blank
  apply (acceptText_counts (by decide) (by decide)).taking
  · exact hrest
  · exact (unexpected_counts "'->' and a return type").andThen fun _ => hrest

/-- A statement, by its first word. -/
theorem statementOf_counts :
    Counts budget levels .inline (fun _ => true) (Parser.statement levels body)
      (statementOf budget body') := by
  -- the argument of `print` stands in brackets
  have hprint : Counts budget levels .inline (fun _ => true)
      (Parser.descend levels fun n => Parser.enclosed (Parser.operand Parser.byScan n .lines) ')')
      (nested (enclosed budget (operand budget budget) ')')) := by
    apply nested_counts
    intro n hn
    exact enclosed_counts (operand_counts (by omega)) ')'
  apply Counts.gap
  -- the first words, in the order in which they are looked for
  apply (keyword_counts (by decide) (by decide)).taking
  · exact (function_counts h hbody).any
  apply (keyword_counts (by decide) (by decide)).taking
  · exact (function_counts h hbody).any
  apply (keyword_counts (by decide) (by decide)).taking
  · exact (returned_counts h).any
  apply (keyword_counts (by decide) (by decide)).taking
  · exact (declaration_counts h _).any
  apply (keyword_counts (by decide) (by decide)).taking
  · exact (declaration_counts h _).any
  apply (keyword_counts (by decide) (by decide)).taking
  · exact (declaration_counts h _).any
  apply (keyword_counts (by decide) (by decide)).taking
  · exact (conditional_counts h hbody).any
  apply (keyword_counts (by decide) (by decide)).taking
  · exact (whileLoop_counts h hbody).any
  apply (keyword_counts (by decide) (by decide)).taking
  · exact (forLoop_counts h hbody).any
  apply (keyword_counts (by decide) (by decide)).taking
  · exact .pure rfl
  apply (keyword_counts (by decide) (by decide)).taking
  · exact .pure rfl
  -- what is none of them is a `print`, or an expression with or without a store
  apply printHead_counts.taking
  · exact hprint.first fun _ => .pure rfl
  exact storeOrExpr_counts h

end Blocks

/-- Blocks, with more calls in the budget than levels are left. -/
theorem block_counts {calls : Nat} (hcalls : levels < calls) :
    Counts budget levels .inline (fun _ => true) (Parser.block levels) (block budget calls) := by
  induction calls generalizing levels with
  | zero => omega
  | succ calls ih =>
    rw [block_eq]
    apply openBrace_counts.andThen
    intro _
    -- the statements of the block are one level down, and there the calls suffice too
    have hbody : Counts budget levels .inline (fun _ => false)
        (Parser.descend levels fun n => Parser.statements true (Parser.statement n (Parser.block n)))
        (unnested (statements budget true (statementOf budget (block budget calls)))) := by
      apply unnested_counts
      intro n hn
      exact statements_counts true (statementOf_counts (by omega) (ih (by omega) (by omega)))
    apply hbody.first
    intro body
    exact (Counts.token Parser.advance_steps).first fun _ => .pure rfl

/-- **Statements.** -/
theorem statement_counts :
    Counts budget levels .inline (fun _ => true) (Parser.statement levels (Parser.block levels))
      (statement budget) :=
  statementOf_counts h (block_counts h h)

/-- **Programs.** -/
theorem program_counts :
    Counts budget levels .inline (fun _ => false)
      (Parser.statements false (Parser.statement levels (Parser.block levels))) (program budget) :=
  statements_counts false (statement_counts h)

end Statements

/-- An expression alone: nothing may be left behind it. -/
theorem onlyExpr_counts (h : maxNesting < budget) :
    Counts budget maxNesting .inline (fun _ => false) (Parser.onlyExpr Parser.byScan)
      (onlyExpr budget) := by
  apply Counts.gap
  apply (expr_counts h).andThen
  intro e
  apply Counts.gap
  apply Counts.look
  intro c
  split
  · exact .pure rfl
  · exact unexpected_counts _

end Grammar

/-- A whole text, from its beginning to an outcome. -/
theorem Counts.from_start {budget : Nat} {source : String} (hlength : source.length < budget)
    {p : Parser α} {q : Counted α} {marked : α → Bool}
    (hq : Counts budget maxNesting .inline marked p q) :
    ∃ after, q (.start source) = some ((p (Cursor.start source)).map Prod.fst, after) ∧
      (Reader.start source).Leaves after := by
  -- at the beginning all levels are left, and the whole text lies ahead
  have hfits : Fits budget maxNesting .inline (Reader.start source) := by
    refine ⟨Reader.start_inBounds source, ?_, Nat.zero_add _, rfl⟩
    show source.toList.length < budget
    rw [String.length_toList]
    exact hlength
  obtain ⟨result, after, hrun, hread, hleaves, -⟩ := hq _ hfits
  refine ⟨after, ?_, hleaves⟩
  have hresult : (p (Cursor.start source)).map Prod.fst = result := by
    rw [show p (Cursor.start source) = _ from hread]
    cases result with
    | ok a => rfl
    | error e => rfl
  rw [hrun, hresult]

end Counted

/-! ## §4. Every text -/

/-- **Reading ends, and advances.**  With a budget of the text's length and the greatest depth, the
    machine that counts, with no guard on any of its loops, has an outcome for every text, as a program
    and as an expression: what `Program.parse` and `Expr.parse` give.  It has one for an expression, a type and a statement from
    every place in the text with anything open; a result has read something.  On every exit the counters
    are what they were on entry, no offset has passed the end of the text, and no depth the limit. -/
theorem parsing_ends_and_advances (source : String) {budget : Nat}
    (h : source.length + maxNesting < budget) :
    (∃ after, Counted.program budget (.start source) = some (Program.parse source, after) ∧
      (Reader.start source).Leaves after) ∧
    (∃ after, Counted.onlyExpr budget (.start source) = some (Expr.parse source, after) ∧
      (Reader.start source).Leaves after) ∧
    ∀ r : Reader, r.text = source.toList → r.InBounds →
      let levels := maxNesting - r.depth
      Counted.RunsAs (fun _ => true) (Parser.expr levels r.gap) (Counted.expr budget) r ∧
      Counted.RunsAs (fun _ => true) (Parser.ty levels r.gap) (Counted.ty budget budget) r ∧
      (r.nesting = 0 → Counted.RunsAs (fun _ => true)
        (Parser.statement levels (Parser.block levels)) (Counted.statement budget) r) := by
  refine ⟨?_, ?_, ?_⟩
  · exact (Counted.program_counts (by omega)).from_start (by omega)
  · exact (Counted.onlyExpr_counts (by omega)).from_start (by omega)
  intro r htext hbounds levels
  -- as many levels are left as the depth has not used up
  have hdepth : r.depth ≤ maxNesting := Nat.le_trans hbounds.depth_le hbounds.deepest_le
  have hlevels : levels < budget := by omega
  have hfits : ∀ g, r.gap = g → Counted.Fits budget levels g r := by
    intro g hgap
    refine ⟨hbounds, ?_, by omega, hgap⟩
    rw [htext, String.length_toList]
    omega
  refine ⟨Counted.expr_counts hlevels r (hfits _ rfl), Counted.ty_counts hlevels r (hfits _ rfl), ?_⟩
  intro hnesting
  exact Counted.statement_counts hlevels r (hfits _ (if_pos hnesting))

/-- A text with an end mark in it, and a statement in its block read where everything that may be open
    is. -/
theorem parsing_ends_and_advances_at_the_limit :
    let source := "if a \x7b\n  print([\"\x00\", -(b)])\n\x7d else"
    let r : Reader :=
      { Reader.start source with
        offset := 7, line := 2, furthest := 20, depth := maxNesting, deepest := maxNesting }
    (source.length + maxNesting < 100 ∧ r.text = source.toList ∧ r.InBounds ∧ r.nesting = 0) ∧
      (∃ after, Counted.program 100 (.start source) = some (Program.parse source, after) ∧
        (Reader.start source).Leaves after) ∧
      Counted.RunsAs (fun _ => true) (Parser.statement 0 (Parser.block 0)) (Counted.statement 100) r := by
  intro source r
  have hlength : source.length + maxNesting < 100 := by decide
  have hbounds : r.InBounds := ⟨by decide, by decide, by decide, by decide⟩
  obtain ⟨hprogram, -, hparts⟩ := parsing_ends_and_advances source hlength
  obtain ⟨-, -, hstatement⟩ := hparts r rfl hbounds
  exact ⟨⟨hlength, rfl, hbounds, rfl⟩, hprogram, hstatement rfl⟩

end Scriptlet
