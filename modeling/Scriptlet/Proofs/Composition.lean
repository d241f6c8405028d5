/-
  Scriptlet.Proofs.Composition — programs compose.

  A program, a line end, a semicolon, a line end and another program are read as the statements of both.
  Up to the seam the whole is read as the first text alone; behind it, as the second, so many lines
  further down.  So the second text's error, if it has one, is that of the whole.

  Main results:
    * `Seam.statement_through`, `Seam.block_through` — statements and blocks, with all they are made of.
    * `programs_compose` — whole programs.
-/
import Scriptlet.Proofs.Alignment
import Scriptlet.Proofs.Progress

namespace Scriptlet

namespace Seam

variable {S : Seam} {c d : Cursor}

/-! ## §1. Statements -/

/-- Where a statement may end on one side it may end on the other. -/
theorem Aligned.ends (h : S.Aligned c d) :
    (Parser.endsStatement c.peek || c.atEnd) = (Parser.endsStatement d.peek || d.atEnd) := by
  unfold Cursor.peek Cursor.peekAt Cursor.atEnd
  rcases h.ahead with ⟨x, t, hc, hd, -⟩ | ⟨hc, ⟨-, hd⟩ | ⟨u, hd⟩ | ⟨u, hd⟩⟩ <;>
    rw [hc, hd] <;> rfl

/-- A statement that may end on one side may end on the other. -/
theorem terminator_through : S.Through Parser.terminator := by
  apply Carries.gap (by decide)
  apply Carries.get
  intro c d h
  rw [h.ends]
  split
  · exact .pure _
  · exact unexpected_through _

/-- A declaration, behind its keyword. -/
theorem declaration_through (levels : Nat) (constant : Bool) :
    S.Through (Parser.declaration levels constant) := by
  apply (name_through (by decide) _).bind
  intro name
  -- what follows the annotation is the same with one and without
  have hrest : ∀ type, S.Through (do
      Parser.expect .inline '='
      return Stmt.declare name type (← Parser.expr levels .inline) constant) := by
    intro type
    apply (expect_through (by decide) (by decide)).bind
    intro _
    exact (expr_through levels (by decide)).bind fun _ => .pure _
  apply Carries.gap (by decide)
  apply Carries.taking (S.accept?_matches (by decide))
  · exact (ty_through levels (by decide)).map.bind hrest
  · exact hrest none

/-- A `return`, with a value or without. -/
theorem returned_through (levels : Nat) : S.Through (Parser.returned levels) := by
  apply Carries.gap (by decide)
  apply Carries.get
  intro c d h
  rw [Bool.or_comm, h.ends, Bool.or_comm]
  split
  · exact .pure _
  · exact (expr_through levels (by decide)).bind fun _ => .pure _

/-- A `print` is recognised on both sides or on neither. -/
theorem printCall?_matches (S : Seam) : S.Matches Parser.printCall? := by
  intro c d h
  have hcall : ∀ c, Parser.printCall? c =
      (c.acceptKeyword? "print").bind fun c => (c.skip .inline).accept? '(' := fun _ => rfl
  have hword : S.Matches (·.acceptKeyword? "print") := S.acceptKeyword?_matches (by decide) (by decide)
  rw [hcall, hcall]
  obtain ⟨hc, hd⟩ | ⟨c', d', hc, hd, h'⟩ := hword c d h
  · dsimp only at hc hd
    rw [hc, hd]
    exact .inl ⟨rfl, rfl⟩
  · dsimp only at hc hd
    rw [hc, hd]
    exact S.accept?_matches (by decide) _ _ (h'.skip (by decide))

/-- A store, or an expression by itself. -/
theorem storeOrExpr_through (levels : Nat) : S.Through (Parser.storeOrExpr levels) := by
  apply (expr_through levels (by decide)).bind
  intro target
  apply Carries.gap (by decide)
  intro c d h
  show S.Carried ((if (c.peek == '=' && c.peekAt 1 != '=') = true then _ else _ : Parser Stmt) c)
    ((if (d.peek == '=' && d.peekAt 1 != '=') = true then _ else _ : Parser Stmt) d)
  -- whether an equals sign stands here, and not two, is seen on both sides
  have hequals : (c.peek == '=') = (d.peek == '=') := h.peekAt_beq (Nat.zero_le 1) (by decide)
  rw [← hequals, ← h.next_bne (by decide)]
  by_cases hstore : (c.peek == '=' && c.peekAt 1 != '=') = true
  · rw [if_pos hstore, if_pos hstore]
    rw [Bool.and_eq_true] at hstore
    -- the sign stands in the common text, since it is not the end
    rcases h.ahead with ⟨x, t, hc, hd, hlevel⟩ | ⟨hc, -⟩
    · have hadvance : S.Carried (Parser.advance c) (Parser.advance d) :=
        .ok (.inl (hlevel.advance hc))
      apply Carries.bindAt hadvance
      intro _
      apply (expr_through levels (by decide)).bind
      intro value
      -- what cannot be stored to is an error at the place of the sign
      cases Parser.storeTo? target value with
      | some stmt => exact .pure _
      | none => exact .throw fun _ => malformed_downBy hlevel _
    -- at the end of the common text no sign is seen
    · have hpeek := hstore.1
      unfold Cursor.peek Cursor.peekAt at hpeek
      rw [hc] at hpeek
      exact absurd hpeek (by decide)
  · rw [if_neg hstore, if_neg hstore]
    exact .ok h

/-- A parameter, with what has been read before it. -/
theorem param_through (levels : Nat) (before : List Param) : S.Through (Parser.param levels before) := by
  apply (name_through (by decide) _).bind
  intro name
  apply (expect_through (by decide) (by decide)).bind
  intro _
  apply (ty_through levels (by decide)).bind
  intro type
  -- whether its default may be missing depends on the parameters before it
  have hrest : ∀ default : Option Expr, S.Through (do
      if default.isNone && before.any fun p => p.default.isSome then
        Parser.fail
          ("parameter '" ++ name ++ "' without a default follows a defaulted parameter")
      return { name, type, default : Param }) := by
    intro default
    split
    · exact (fail_through _).bind fun _ => .pure _
    · exact .pure _
  apply Carries.gap (by decide)
  apply Carries.taking (S.accept?_matches (by decide))
  · exact (expr_through levels (by decide)).map.bind hrest
  · exact hrest none

/-- The parameters of a function, up to the closing bracket. -/
theorem params_through (levels : Nat) : S.Through (Parser.params levels) := by
  apply Carries.gap (by decide)
  apply Carries.taking (S.accept?_matches (by decide))
  · exact .pure _
  · apply iterate_through
    intro before
    apply (param_through levels before).bind
    intro p
    apply Carries.gap (by decide)
    apply Carries.taking (S.accept?_matches (by decide))
    · exact .pure _
    · exact (expect_through (by decide) (by decide)).bind fun _ => .pure _

section Blocks

variable {body : Parser (List Stmt)} (hbody : S.Through body)

include hbody

/-- What follows the block of an `if`. -/
theorem afterIf_through : S.Through (Parser.afterIf body) := by
  apply Carries.get
  intro c d h
  apply Carries.gap (by decide)
  apply Carries.taking (S.acceptKeyword?_matches (by decide) (by decide))
  · apply Carries.gap (by decide)
    apply Carries.taking (S.acceptKeyword?_matches (by decide) (by decide))
    · exact .pure _
    · exact hbody.bind fun _ => .pure _
  · exact Carries.set h (.pure _)

/-- A chain of conditions. -/
theorem conditional_through (levels : Nat) : S.Through (Parser.conditional levels body) := by
  apply iterate_through
  intro before
  apply (expr_through levels (by decide)).bind
  intro condition
  apply hbody.bind
  intro statements
  apply (afterIf_through hbody).bind
  intro after
  cases after with
  | elseIf => exact .pure _
  | otherwise other => exact .pure _
  | nothing => exact .pure _

/-- A `while` loop. -/
theorem whileLoop_through (levels : Nat) : S.Through (Parser.whileLoop levels body) := by
  apply (expr_through levels (by decide)).bind
  intro condition
  exact hbody.bind fun _ => .pure _

/-- A `for` loop. -/
theorem forLoop_through (levels : Nat) : S.Through (Parser.forLoop levels body) := by
  apply (name_through (by decide) _).bind
  intro item
  have hrest : S.Through (do
      let iterable ← Parser.expr levels .inline
      return Stmt.forIn item iterable (← body)) := by
    apply (expr_through levels (by decide)).bind
    intro iterable
    exact hbody.bind fun _ => .pure _
  apply Carries.gap (by decide)
  apply Carries.taking (S.acceptKeyword?_matches (by decide) (by decide))
  · exact hrest
  · exact (unexpected_through _).bind fun _ => hrest

/-- A function: its name, its parameters, its result and its body. -/
theorem function_through (levels : Nat) : S.Through (Parser.function levels body) := by
  apply (name_through (by decide) _).bind
  intro name
  apply (expect_through (by decide) (by decide)).bind
  intro _
  apply (descend_through params_through).bind
  intro parameters
  -- the arrow is asked for, and what follows it is read in any case
  have hrest : S.Through (do
      let returns ← Parser.ty levels .inline
      return Stmt.func name parameters returns (← body)) := by
    apply (ty_through levels (by decide)).bind
    intro returns
    exact hbody.bind fun _ => .pure _
  apply Carries.gap (by decide)
  apply Carries.taking (S.acceptText?_matches (by decide) (by decide))
  · exact hrest
  · exact (unexpected_through _).bind fun _ => hrest

/-- A statement, by its first word. -/
theorem statement_through (levels : Nat) : S.Through (Parser.statement levels body) := by
  apply Carries.gap (by decide)
  -- functions and `return`
  apply Carries.taking (S.acceptKeyword?_matches (by decide) (by decide))
  · exact function_through hbody levels
  apply Carries.taking (S.acceptKeyword?_matches (by decide) (by decide))
  · exact function_through hbody levels
  apply Carries.taking (S.acceptKeyword?_matches (by decide) (by decide))
  · exact returned_through levels
  -- the three keywords of declarations
  apply Carries.taking (S.acceptKeyword?_matches (by decide) (by decide))
  · exact declaration_through levels false
  apply Carries.taking (S.acceptKeyword?_matches (by decide) (by decide))
  · exact declaration_through levels false
  apply Carries.taking (S.acceptKeyword?_matches (by decide) (by decide))
  · exact declaration_through levels true
  -- conditions and loops
  apply Carries.taking (S.acceptKeyword?_matches (by decide) (by decide))
  · exact conditional_through hbody levels
  apply Carries.taking (S.acceptKeyword?_matches (by decide) (by decide))
  · exact whileLoop_through hbody levels
  apply Carries.taking (S.acceptKeyword?_matches (by decide) (by decide))
  · exact forLoop_through hbody levels
  -- `break` and `continue`
  apply Carries.taking (S.acceptKeyword?_matches (by decide) (by decide))
  · exact .pure _
  apply Carries.taking (S.acceptKeyword?_matches (by decide) (by decide))
  · exact .pure _
  -- a `print`, and at last stores and expressions
  apply Carries.taking S.printCall?_matches
  · apply Carries.bind _ fun _ => .pure _
    exact descend_through fun n => enclosed_through (operand_through n (by decide)) (by decide)
  exact storeOrExpr_through levels

end Blocks

/-- Through a gap that may hold semicolons both sides stay in the common text, unless it goes to the end
    and more text follows. -/
theorem Aligned.skip_separators (h : S.Aligned c d) :
    S.Level (c.skip .separators) (d.skip .separators) ∨
      S.tail ≠ [] ∧ (c.skip .separators).rest = [] := by
  by_cases hend : S.tail = []
  · exact .inl ((h.level hend).skip .separators (.inl hend))
  rcases h with h | h
  · by_cases hall : Gap.separators.length false c.rest = c.rest.length
    · refine .inr ⟨hend, ?_⟩
      rw [Cursor.skip, hall, Cursor.rest_advanceBy, List.drop_length]
    · exact .inl (h.skip .separators (.inr hall))
  · refine .inr ⟨hend, ?_⟩
    rw [Cursor.skip, h.ended]
    exact h.ended

/-- While both sides are in the common text they see the same. -/
theorem Level.same (h : S.Level c d) (hc : ¬c.atEnd = true) : ¬d.atEnd = true ∧ d.peek = c.peek := by
  unfold Cursor.atEnd at hc ⊢
  unfold Cursor.peek Cursor.peekAt
  rw [h.rest]
  cases hrest : c.rest with
  | nil =>
    rw [hrest] at hc
    exact absurd rfl hc
  | cons x t =>
    refine ⟨?_, rfl⟩
    intro hnil
    cases hnil

section Sequences

variable {inBlock : Bool} {stmt : Parser Stmt} {before : List Stmt}

/-- At the end of the text a block lacks its brace, and a program is complete. -/
theorem statementsStep_of_end (hc : (c.skip .separators).atEnd = true) :
    Parser.statements.step inBlock stmt before c =
      (if inBlock then Parser.unexpected "'\x7d'" else return .done before.reverse :
        Parser (Round (List Stmt) (List Stmt))) (c.skip .separators) := by
  show (if (c.skip .separators).atEnd = true then _ else _ : Parser (Round (List Stmt) (List Stmt)))
    (c.skip .separators) = _
  rw [if_pos hc]

/-- At a closing brace the block is complete. -/
theorem statementsStep_of_close (hc : ¬(c.skip .separators).atEnd = true)
    (hclose : (inBlock && (c.skip .separators).peek == '}') = true) :
    Parser.statements.step inBlock stmt before c = .ok (.done before.reverse, c.skip .separators) := by
  show (if (c.skip .separators).atEnd = true then _
    else if (inBlock && (c.skip .separators).peek == '}') = true then _ else _ :
      Parser (Round (List Stmt) (List Stmt))) (c.skip .separators) = _
  rw [if_neg hc, if_pos hclose]
  rfl

/-- Anywhere else a statement is read. -/
theorem statementsStep_of_statement (hc : ¬(c.skip .separators).atEnd = true)
    (hclose : ¬(inBlock && (c.skip .separators).peek == '}') = true) :
    Parser.statements.step inBlock stmt before c =
      (do
        let s ← stmt
        Parser.terminator
        return .again (s :: before) : Parser (Round (List Stmt) (List Stmt))) (c.skip .separators) := by
  show (if (c.skip .separators).atEnd = true then _
    else if (inBlock && (c.skip .separators).peek == '}') = true then _ else _ :
      Parser (Round (List Stmt) (List Stmt))) (c.skip .separators) = _
  rw [if_neg hc, if_neg hclose]

/-- One round of a sequence of statements that does not come to the seam. -/
theorem statementsStep_carried (hs : S.Through stmt)
    (h : S.Level (c.skip .separators) (d.skip .separators))
    (hin : S.tail = [] ∨ ¬(c.skip .separators).atEnd = true) :
    S.Carried (Parser.statements.step inBlock stmt before c)
      (Parser.statements.step inBlock stmt before d) := by
  -- the text ends on both sides, as nothing follows it
  by_cases hc : (c.skip .separators).atEnd = true
  · have htail : S.tail = [] := hin.resolve_right (not_not_intro hc)
    have hd : (d.skip .separators).atEnd = true := by
      unfold Cursor.atEnd at hc ⊢
      rw [h.rest, htail, List.append_nil]
      exact hc
    rw [statementsStep_of_end hc, statementsStep_of_end hd]
    cases inBlock with
    | true => exact unexpected_through _ _ _ (.inl h)
    | false => exact .ok (.inl h)
  -- both sides see the same character
  · obtain ⟨hd, hpeek⟩ := h.same hc
    -- a closing brace, or one statement more
    by_cases hclose : (inBlock && (c.skip .separators).peek == '}') = true
    · rw [statementsStep_of_close hc hclose,
        statementsStep_of_close hd (by rw [hpeek]; exact hclose)]
      exact .ok (.inl h)
    · rw [statementsStep_of_statement hc hclose,
        statementsStep_of_statement hd (by rw [hpeek]; exact hclose)]
      apply Carries.bindAt (hs _ _ (.inl h))
      intro s
      exact terminator_through.bind fun _ => .pure _

/-- Sequences of statements, in a block or with nothing behind them. -/
theorem statements_through (hin : inBlock = true ∨ S.tail = []) (hs : S.Through stmt) :
    S.Through (Parser.statements inBlock stmt) := by
  apply iterate_through
  intro before c d h
  -- where the common text ends inside a block, the left reader misses the closing brace
  have hmissing : S.tail ≠ [] → (c.skip .separators).atEnd = true →
      S.Carried (Parser.statements.step inBlock stmt before c)
        (Parser.statements.step inBlock stmt before d) := by
    intro hmore hends
    obtain rfl := hin.resolve_right hmore
    rw [statementsStep_of_end hends]
    exact .cut hmore
  rcases h.skip_separators with hlevel | ⟨hmore, hends⟩
  · by_cases hmore : S.tail ≠ [] ∧ (c.skip .separators).atEnd = true
    · exact hmissing hmore.1 hmore.2
    · apply statementsStep_carried hs hlevel
      by_cases htail : S.tail = []
      · exact .inl htail
      · exact .inr fun hends => hmore ⟨htail, hends⟩
  · exact hmissing hmore (List.isEmpty_iff.mpr hends)

/-- A block's statements end before its closing brace. -/
theorem statements_close {body : List Stmt} {c' : Cursor}
    (h : Parser.statements true stmt c = .ok (body, c')) : ∃ t, c'.rest = '}' :: t := by
  have hfollows : Parser.Follows (fun _ => True) (Parser.statements true stmt)
      (Parser.statements true stmt) fun _ t => ∃ u, t = '}' :: u := by
    apply Parser.Follows.iterate (I := fun _ _ => True)
    intro before c _ round c' hstep
    refine ⟨hstep, ?_⟩
    -- the text must not end inside the block
    by_cases hends : (c.skip .separators).atEnd = true
    · rw [statementsStep_of_end hends] at hstep
      cases hstep
    by_cases hclose : (true && (c.skip .separators).peek == '}') = true
    · rw [statementsStep_of_close hends hclose] at hstep
      cases hstep
      rw [Bool.true_and, beq_iff_eq] at hclose
      unfold Cursor.atEnd at hends
      unfold Cursor.peek Cursor.peekAt at hclose
      -- the brace is the first character of what is left
      cases hrest : (c.skip .separators).rest with
      | nil =>
        rw [hrest] at hends
        exact absurd rfl hends
      | cons x t =>
        rw [hrest] at hclose
        exact ⟨t, congrArg (· :: t) hclose⟩
    -- a round that goes on need not end anywhere
    · rw [statementsStep_of_statement hends hclose] at hstep
      obtain ⟨s, c₁, -, hrest⟩ := Parser.bind_eq_ok.mp hstep
      obtain ⟨u, c₂, -, hagain⟩ := Parser.bind_eq_ok.mp hrest
      cases hagain
      trivial
  exact (hfollows c trivial body c' h).2

end Sequences

/-- The opening brace of a block. -/
theorem openBrace_through : S.Through Parser.openBrace := by
  apply Carries.gap (by decide)
  apply Carries.taking (S.accept?_matches (by decide))
  · exact .pure _
  · exact unexpected_through _

/-- **Blocks.** -/
theorem block_through (levels : Nat) : S.Through (Parser.block levels) := by
  induction levels with
  | zero => exact openBrace_through.bind fun _ => fail_through _
  | succ n ih =>
    apply openBrace_through.bind
    intro _ c d h
    have hbody := statements_through (.inl rfl) (statement_through ih n) c d h
    show S.Carried
      ((Parser.statements true (Parser.statement n (Parser.block n)) c).bind fun x =>
        .ok (x.1, x.2.advance))
      ((Parser.statements true (Parser.statement n (Parser.block n)) d).bind fun x =>
        .ok (x.1, x.2.advance))
    -- the statements inside end before a brace, which stands in the common text
    have hclose := @statements_close c (Parser.statement n (Parser.block n))
    generalize Parser.statements true (Parser.statement n (Parser.block n)) c = x at hbody hclose
    generalize Parser.statements true (Parser.statement n (Parser.block n)) d = y at hbody
    cases hbody with
    | failed => exact .failed
    | cut hmore => exact .cut hmore
    | ok h =>
      obtain ⟨t, ht⟩ := hclose rfl
      rcases h with h | h
      · exact .ok (.inl (h.advance ht))
      -- past the seam there is no brace
      · rw [h.ended] at ht
        cases ht

/-! ## §2. Behind the seam -/

/-- The beginning of the text behind the seam. -/
def resume (S : Seam) (more : List Char) : Cursor := ⟨more, S.last + S.below + 2, 1⟩

/-- Where the common text ends in a gap between statements, the right side goes on behind the seam. -/
theorem Aligned.skip_resume (h : S.Aligned c d) {more : List Char}
    (hmore : S.tail = '\n' :: ';' :: '\n' :: more) (hends : (c.skip .separators).rest = []) :
    d.skip .separators = (S.resume more).skip .separators := by
  rcases h with h | h
  -- the gap takes all of the common text
  · have hall : Gap.separators.length false c.rest = c.rest.length := by
      have hle := gap_length_le .separators false c.rest
      rw [Cursor.skip, Cursor.rest_advanceBy, List.drop_eq_nil_iff] at hends
      omega
    have htail : S.tail ≠ [] := by
      rw [hmore]
      exact List.cons_ne_nil _ _
    -- so the right side stands at the seam, on the last line
    obtain ⟨e, hlevel, -, hskip⟩ := h.skip_all .separators htail hall
    have hrest : e.rest = '\n' :: ';' :: '\n' :: more := by
      rw [hlevel.rest, hends, hmore]
      rfl
    have hline : e.line = S.last + S.below := by
      have hlast := hlevel.last
      rw [hends] at hlast
      rw [hlevel.line, ← hlast]
      rfl
    have hlength : Gap.separators.length false S.tail =
        3 + Gap.separators.length false more := by
      rw [hmore, Nat.add_comm]
      rfl
    -- three characters lead over the seam
    have hthree : Cursor.advanceBy 3 e = S.resume more := by
      obtain ⟨rest, line, column⟩ := e
      cases hrest
      cases hline
      rfl
    rw [hskip, hlength, Cursor.advanceBy_add, hthree]
    rfl
  -- the right side has passed the first line end already, and two characters are left
  · have hrest : d.rest = ';' :: '\n' :: more := by
      have htail := h.rest
      rw [hmore, List.cons.injEq] at htail
      exact htail.2.symm
    have hline := h.line
    rw [h.last] at hline
    have hlength : Gap.separators.length false d.rest = 2 + Gap.separators.length false more := by
      rw [hrest, Nat.add_comm]
      rfl
    -- they lead over the rest of the seam
    have htwo : Cursor.advanceBy 2 d = S.resume more := by
      obtain ⟨rest, line, column⟩ := d
      cases hrest
      cases hline
      rfl
    rw [Cursor.skip, hlength, Cursor.advanceBy_add, htwo]
    rfl

section Sequences

variable {stmt : Parser Stmt} {before : List Stmt}

/-- A round depends on what stands behind the gap only. -/
theorem statementsStep_congr {inBlock : Bool} (h : c.skip .separators = d.skip .separators) :
    Parser.statements.step inBlock stmt before c = Parser.statements.step inBlock stmt before d := by
  -- the three cases of a round: the end, a closing brace, a statement
  by_cases hd : (d.skip .separators).atEnd = true
  · have hc := hd
    rw [← h] at hc
    rw [statementsStep_of_end hc, statementsStep_of_end hd, h]
  have hc := hd
  rw [← h] at hc
  by_cases hclose : (inBlock && (d.skip .separators).peek == '}') = true
  · have hclose' := hclose
    rw [← h] at hclose'
    rw [statementsStep_of_close hc hclose', statementsStep_of_close hd hclose, h]
  · have hclose' := hclose
    rw [← h] at hclose'
    rw [statementsStep_of_statement hc hclose', statementsStep_of_statement hd hclose, h]

/-- The reader consumes something whenever it gives a result. -/
def Advances (p : Parser Stmt) : Prop :=
  ∀ c a c', p c = .ok (a, c') → c'.rest.length < c.rest.length

/-- A gap takes some of the text. -/
theorem length_skip_le (c : Cursor) (g : Gap) : (c.skip g).rest.length ≤ c.rest.length := by
  rw [Cursor.skip, Cursor.rest_advanceBy, List.length_drop]
  omega

/-- Outside blocks only the end of the text ends a sequence. -/
theorem statementsStep_of_more (hc : ¬(c.skip .separators).atEnd = true) :
    Parser.statements.step false stmt before c =
      (do
        let s ← stmt
        Parser.terminator
        return .again (s :: before) : Parser (Round (List Stmt) (List Stmt))) (c.skip .separators) :=
  statementsStep_of_statement hc Bool.false_ne_true

/-- Short of the end of the text a round outside blocks asks for another. -/
theorem statementsStep_goesOn (hc : ¬(c.skip .separators).atEnd = true)
    {round : Round (List Stmt) (List Stmt)} {c' : Cursor}
    (h : Parser.statements.step false stmt before c = .ok (round, c')) :
    ∃ next, round = .again next := by
  rw [statementsStep_of_more hc] at h
  obtain ⟨s, c₁, -, hrest⟩ := Parser.bind_eq_ok.mp h
  obtain ⟨u, c₂, -, hagain⟩ := Parser.bind_eq_ok.mp hrest
  cases hagain
  exact ⟨_, rfl⟩

/-- A round that asks for another has read a statement. -/
theorem statementsStep_shorter (hs : Advances stmt) {next : List Stmt} {c' : Cursor}
    (h : Parser.statements.step false stmt before c = .ok (.again next, c')) :
    c'.rest.length < (c.skip .separators).rest.length := by
  -- at the end of the text there is no further round
  by_cases hc : (c.skip .separators).atEnd = true
  · rw [statementsStep_of_end hc] at h
    cases h
  rw [statementsStep_of_more hc] at h
  obtain ⟨s, c₁, hread, hrest⟩ := Parser.bind_eq_ok.mp h
  obtain ⟨u, c₂, hterminator, hagain⟩ := Parser.bind_eq_ok.mp hrest
  cases hagain
  have hstmt := hs _ _ _ hread
  -- the end of a statement takes no more than a gap
  have hends : c' = c₁.skip .inline := by
    obtain ⟨v, c₃, hgap, hrest⟩ := Parser.bind_eq_ok.mp hterminator
    cases hgap
    obtain ⟨e, c₄, hget, hcheck⟩ := Parser.bind_eq_ok.mp hrest
    cases hget
    split at hcheck
    · cases hcheck
      rfl
    · cases hcheck
  have hskip := length_skip_le c₁ .inline
  rw [hends]
  omega

/-- The round with statements before it. -/
def roundAfter (earlier : List Stmt) : Round (List Stmt) (List Stmt) → Round (List Stmt) (List Stmt)
  | .again all => .again (all ++ earlier)
  | .done all => .done (earlier.reverse ++ all)

/-- A round does not look at what has been read before. -/
theorem statementsStep_append (earlier : List Stmt) :
    Parser.statements.step false stmt (before ++ earlier) c =
      (Parser.statements.step false stmt before c).map fun x => (roundAfter earlier x.1, x.2) := by
  by_cases hc : (c.skip .separators).atEnd = true
  · rw [statementsStep_of_end hc, statementsStep_of_end hc, List.reverse_append]
    rfl
  rw [statementsStep_of_more hc, statementsStep_of_more hc]
  show ((stmt (c.skip .separators)).bind fun x => (Parser.terminator x.2).bind _) =
    ((stmt (c.skip .separators)).bind fun x => (Parser.terminator x.2).bind _).map _
  -- the statement and its end are read alike
  cases stmt (c.skip .separators) with
  | error e => rfl
  | ok x =>
    show (Parser.terminator x.2).bind _ = ((Parser.terminator x.2).bind _).map _
    cases Parser.terminator x.2 with
    | error e => rfl
    | ok y => rfl

/-- What has been read before stands before what is read. -/
theorem statements_append (earlier : List Stmt) :
    Parser.iterate (Parser.statements.step false stmt) (before ++ earlier) c =
      (Parser.iterate (Parser.statements.step false stmt) before c).map fun x =>
        (earlier.reverse ++ x.1, x.2) := by
  -- on the text that is left, of which each further round has consumed some
  induction hn : c.rest.length using Nat.strongRecOn generalizing before c with
  | ind n ih =>
    rw [Parser.iterate, Parser.iterate, statementsStep_append]
    cases Parser.statements.step false stmt before c with
    | error e => rfl
    | ok x =>
      obtain ⟨round, next⟩ := x
      cases round with
      | done all => rfl
      | again all =>
        show (if next.rest.length < c.rest.length then _ else _) =
          (if next.rest.length < c.rest.length then _ else _ : Except Error (List Stmt × Cursor)).map _
        by_cases hless : next.rest.length < c.rest.length
        · rw [if_pos hless, if_pos hless]
          exact ih next.rest.length (by omega) rfl
        · rw [if_neg hless, if_neg hless]
          rfl

/-- **Statements before the seam are read as if nothing followed**, and reading goes on behind it. -/
theorem statements_resume (hs : S.Through stmt) (hadvances : Advances stmt) {more : List Char}
    (hmore : S.tail = '\n' :: ';' :: '\n' :: more) (h : S.Aligned c d) {all : List Stmt} {c' : Cursor}
    (hrun : Parser.iterate (Parser.statements.step false stmt) before c = .ok (all, c')) :
    Parser.iterate (Parser.statements.step false stmt) before d =
      Parser.iterate (Parser.statements.step false stmt) all.reverse (S.resume more) := by
  induction hn : c.rest.length using Nat.strongRecOn generalizing before c d with
  | ind n ih =>
    rw [Parser.iterate] at hrun
    by_cases hc : (c.skip .separators).atEnd = true
    · -- the left side is done, and the right side finds what it would find behind the seam
      rw [statementsStep_of_end hc] at hrun
      cases hrun
      have hskip := h.skip_resume hmore (List.isEmpty_iff.mp hc)
      have hstep := @statementsStep_congr d (S.resume more) stmt before false hskip
      rw [List.reverse_reverse, Parser.iterate, Parser.iterate, hstep]
      cases hround : Parser.statements.step false stmt before (S.resume more) with
      | error e => rfl
      | ok x =>
        obtain ⟨round, next⟩ := x
        cases round with
        | done all => rfl
        | again all =>
          have hless := statementsStep_shorter hadvances hround
          have hle := length_skip_le (S.resume more) .separators
          have hle' := length_skip_le d .separators
          rw [hskip] at hle'
          dsimp only
          rw [if_pos (by omega), if_pos (by omega)]
    · have hlevel : S.Level (c.skip .separators) (d.skip .separators) := by
        rcases h.skip_separators with hlevel | ⟨-, hends⟩
        · exact hlevel
        · exact absurd (List.isEmpty_iff.mpr hends) hc
      have hround := @statementsStep_carried S c d false stmt before hs hlevel (.inr hc)
      have hgoesOn := @statementsStep_goesOn c stmt before hc
      rw [Parser.iterate]
      generalize Parser.statements.step false stmt before c = x at hrun hround hgoesOn
      generalize Parser.statements.step false stmt before d = y at hround
      cases hround with
      | failed => cases hrun
      | cut _ => cases hrun
      | @ok round c₁ d₁ hnext =>
        obtain ⟨next, rfl⟩ := hgoesOn rfl
        dsimp only at hrun ⊢
        split at hrun
        · rename_i hless
          rw [if_pos (h.shorter hnext hless)]
          exact ih c₁.rest.length (by omega) hnext hrun rfl
        · cases hrun

end Sequences

/-! ## §3. Programs -/

/-- The reader of a program's statements. -/
abbrev topStatement : Parser Stmt := Parser.statement maxNesting (Parser.block maxNesting)

/-- A statement has at least one character. -/
theorem topStatement_advances : Advances topStatement := by
  intro c a c' h
  -- the counting reader from the same place reads the same, and gets further
  let r : Reader := ⟨c.rest, 0, c.line, c.column, 0, 0, 0, 0⟩
  have hfits : Counted.Fits (c.rest.length + maxNesting + 1) maxNesting .inline r := by
    refine ⟨⟨Nat.le_refl 0, Nat.zero_le _, Nat.le_refl 0, Nat.zero_le _⟩, ?_, Nat.zero_add _, rfl⟩
    show c.rest.length < c.rest.length + maxNesting + 1
    omega
  obtain ⟨result, after, -, hread, hleaves, hmoves⟩ := Counted.statement_counts (by omega) r hfits
  have hresult := h.symm.trans hread
  cases result with
  | error e => cases hresult
  | ok b =>
    cases hresult
    exact hleaves.ahead_lt hfits.inBounds ((hmoves a rfl).2 rfl)

/-- The seam between two texts. -/
def between (first second : String) : Seam where
  tail := '\n' :: ';' :: '\n' :: second.toList
  below := 0
  last := 1 + first.toList.count '\n'
  shape := .inr ⟨second.toList, rfl⟩

/-- Two texts with the seam between them, from the start. -/
theorem between_level {first : String} (h : hasComment first.toList = false) (second : String) :
    (between first second).Level (Cursor.start first)
      (Cursor.start (first ++ "\n;\n" ++ second)) := by
  refine ⟨?_, rfl, rfl, rfl, .inr h⟩
  show (first ++ "\n;\n" ++ second).toList = first.toList ++ '\n' :: ';' :: '\n' :: second.toList
  rw [String.toList_append, String.toList_append, List.append_assoc]
  rfl

/-- A text so many lines further down. -/
def shifted (source : String) (lines : Nat) : Seam where
  tail := []
  below := lines
  last := 1 + source.toList.count '\n'
  shape := .inl rfl

/-- A text and the same text further down, from the start. -/
theorem shifted_level (source : String) (lines : Nat) :
    (shifted source lines).Level (Cursor.start source) ⟨source.toList, 1 + lines, 1⟩ :=
  ⟨(List.append_nil _).symm, rfl, rfl, rfl, .inl rfl⟩

/-- The first text is read up to the seam, and reading goes on behind it. -/
theorem parse_upto_seam {first : String} (hfree : hasComment first.toList = false) (second : String)
    {p : Program} (h : Program.parse first = .ok p) :
    Parser.statements false topStatement (Cursor.start (first ++ "\n;\n" ++ second)) =
      (Parser.statements false topStatement
        ((between first second).resume second.toList)).map fun x => (p ++ x.1, x.2) := by
  have hthrough : (between first second).Through topStatement :=
    statement_through (block_through maxNesting) maxNesting
  have hparse : Program.parse first =
      (Parser.statements false topStatement (Cursor.start first)).map Prod.fst := rfl
  rw [hparse] at h
  -- what is read of the first text alone
  cases hrun : Parser.statements false topStatement (Cursor.start first) with
  | error e =>
    rw [hrun] at h
    cases h
  | ok x =>
    rw [hrun] at h
    cases h
    -- the whole is read like it up to the seam, and then with its statements in front
    have hresume := statements_resume hthrough topStatement_advances rfl
      (.inl (between_level hfree second)) hrun
    have happend := @statements_append ((between first second).resume second.toList) topStatement []
      x.1.reverse
    rw [List.reverse_reverse] at happend
    exact hresume.trans happend

/-- A text is read further down as it is read at the beginning. -/
theorem parse_shifted (source : String) (lines : Nat) :
    (shifted source lines).Carried (Parser.statements false topStatement (Cursor.start source))
      (Parser.statements false topStatement ⟨source.toList, 1 + lines, 1⟩) := by
  apply statements_through (.inr rfl) (statement_through (block_through maxNesting) maxNesting)
  exact .inl (shifted_level source lines)

end Seam

/-- **Programs compose.**  A program in a text without `#` and `//`, the seam and another text are read as
    the statements of the program followed by those of the other text; if the other text is no program,
    its error is that of the whole, as many lines further down as the program and the seam have. -/
theorem programs_compose {first : String} (second : String) {p : Program}
    (hhash : '#' ∉ first.toList) (hslashes : ¬"//".toList <:+: first.toList)
    (hfirst : Program.parse first = .ok p) :
    (∀ q, Program.parse second = .ok q →
      Program.parse (first ++ "\n;\n" ++ second) = .ok (p ++ q)) ∧
    (∀ e, Program.parse second = .error e →
      Program.parse (first ++ "\n;\n" ++ second) =
        .error (e.downBy (first.toList.count '\n' + 2))) := by
  have hparse : ∀ source, Program.parse source =
      (Parser.statements false Seam.topStatement (Cursor.start source)).map Prod.fst := fun _ => rfl
  have hline : (Seam.between first second).resume second.toList =
      ⟨second.toList, 1 + (first.toList.count '\n' + 2), 1⟩ := rfl
  -- the second text is read behind the seam as it is read alone, so many lines down
  have hsecond := Seam.parse_shifted second (first.toList.count '\n' + 2)
  rw [hparse (first ++ "\n;\n" ++ second), hparse second,
    Seam.parse_upto_seam (hasComment_of_marks hhash hslashes) second hfirst, hline]
  generalize Parser.statements false Seam.topStatement (Cursor.start second) = x at hsecond
  generalize Parser.statements false Seam.topStatement _ = y at hsecond
  -- it has statements, or an error that is moved down
  cases hsecond with
  | ok _ =>
    constructor
    · intro q hq
      cases hq
      rfl
    · intro e he
      cases he
  | failed =>
    constructor
    · intro q hq
      cases hq
    · intro e he
      cases he
      rfl
  | cut hmore => exact absurd rfl hmore

/-- A program on three lines whose last statement runs up to the seam, before a program and before a text
    with an error on its second line. -/
theorem programs_compose_over_lines :
    let first := "let a = [1:\n 2]\nif a \x7b\x7d"
    let second := "else_ = a"
    let broken := "a\n b c"
    ('#' ∉ first.toList ∧ ¬"//".toList <:+: first.toList) ∧
      (∃ p q, Program.parse first = .ok p ∧ Program.parse second = .ok q ∧
        Program.parse (first ++ "\n;\n" ++ second) = .ok (p ++ q)) ∧
      ∃ reason, Program.parse broken = .error (.malformed 2 4 reason) ∧
        Program.parse (first ++ "\n;\n" ++ broken) = .error (.malformed 6 4 reason) := by
  intro first second broken
  have hhash : '#' ∉ first.toList := by decide
  have hslashes : ¬"//".toList <:+: first.toList := by decide +kernel
  have hfirst : (Program.parse first).toOption.isSome = true := by decide +kernel
  have hsecond : (Program.parse second).toOption.isSome = true := by decide +kernel
  have hbroken : (((Program.parse broken).map fun _ => none).tryCatch fun e => .ok (some e)).toOption =
      some (some (Error.malformed 2 4 "expected end of statement, found 'c'")) := by decide +kernel
  have hnewlines : first.toList.count '\n' = 2 := by decide
  cases hp : Program.parse first with
  | error _ =>
    rw [hp] at hfirst
    cases hfirst
  | ok p =>
    have hcompose := fun source => programs_compose source hhash hslashes hp
    rw [hnewlines] at hcompose
    cases hq : Program.parse second with
    | error _ =>
      rw [hq] at hsecond
      cases hsecond
    | ok q =>
      cases he : Program.parse broken with
      | ok _ =>
        rw [he] at hbroken
        cases hbroken
      | error e =>
        rw [he] at hbroken
        cases hbroken
        exact ⟨⟨hhash, hslashes⟩, ⟨p, q, rfl, rfl, (hcompose second).1 q hq⟩,
          _, rfl, (hcompose broken).2 _ he⟩

end Scriptlet
