/-
  Scriptlet.Proofs.RoundTrip — printed expressions read back.

  A printed expression stands in many places: alone, between joints, behind a prefixed operator, before
  a suffix, in brackets.  `ReadsBack` says at once what the readers of all these places do with it, so
  that one induction over the parts of an expression proves it.

  Main results:
    * `Parser.ReadsBack.of_isLegible` — every legible expression reads back, in every place.
    * `printed_expressions_read_back` — a whole text.
-/
import Scriptlet.Proofs.OperandText

namespace Scriptlet.Parser

variable {α : Type} {g : Gap} {tight : Bool} {levels : Nat} {rest : List Char}

/-! ## §1. Ranks -/

variable {e : Expr} {most : Nat}

theorem textAt_of_le (h : e.rank ≤ most) : e.textAt tight most = e.text tight := by
  rw [Expr.textAt, decide_eq_false (by omega)]
  rfl

/-- Where an expression is too loose it stands in parentheses. -/
theorem textAt_of_lt (h : most < e.rank) :
    e.textAt tight most = '(' :: e.text tight ++ [')'] := by
  rw [Expr.textAt, decide_eq_true h]
  rfl

theorem nestingAt_of_le (h : e.rank ≤ most) : e.nestingAt most = e.nesting := by
  rw [Expr.nestingAt, if_neg (by omega), Nat.add_zero]

/-- Parentheses are one level more. -/
theorem nestingAt_of_lt (h : most < e.rank) : e.nestingAt most = e.nesting + 1 := by
  rw [Expr.nestingAt, if_pos h]

/-- The expression reads back in every place that a text may give it. -/
structure ReadsBack (tight : Bool) (e : Expr) : Prop where
  /-- Before suffixes. -/
  heads : ∀ levels g rest, e.nestingAt 0 ≤ levels → Boundary rest →
    Heads levels g (e.textAt tight 0 ++ rest) e rest
  /-- Where joints of the first so many levels are looked for. -/
  level : ∀ k, k ≤ 6 → ∀ levels g rest, e.nestingAt (k + 1) ≤ levels → Follow tight k rest →
    ReadsTo g (reader g (operand byScan levels g) k) (e.textAt tight (k + 1) ++ rest) e rest
  /-- As the left end of a chain. -/
  opens : ∀ k, k ≤ 5 → chains k = true → ∀ levels g rest, e.nestingAt (k + 2) ≤ levels →
    Follow tight k rest →
    Opens g (chainOperator k) (reader g (operand byScan levels g) k)
      (e.textAt tight (k + 2) ++ rest) e (past g rest)

/-- The expression reads back without parentheses where joints of the first so many levels are
    looked for. -/
def ReadsAt (tight : Bool) (k : Nat) (e : Expr) : Prop :=
  ∀ levels g rest, e.nesting ≤ levels → Follow tight k rest →
    ReadsTo g (reader g (operand byScan levels g) k) (e.text tight ++ rest) e rest

/-- What reads back where fewer levels are looked for reads back where more are. -/
theorem ReadsAt.mono {j k : Nat} (h : ReadsAt tight j e) (hjk : j ≤ k) (hk : k ≤ 6) :
    ReadsAt tight k e := by
  -- level by level: none of the joints looked for follows
  induction hjk with
  | refl => exact h
  | step hjm ih =>
    intro levels g rest hlevels hrest
    exact (ih (by omega) levels g rest hlevels (hrest.mono (by omega))).climb (by omega) hrest

/-- Inside brackets every level is looked for. -/
theorem ReadsBack.inside (h : ReadsBack tight e) (hlevels : e.nesting ≤ levels) :
    ReadsInside tight levels e := by
  intro rest hrest
  have hread := h.level 6 (by omega) levels .lines rest
    (by rw [nestingAt_of_le e.rank_le]; exact hlevels) hrest
  rw [textAt_of_le e.rank_le] at hread
  exact hread

/-- In parentheses, with one more level. -/
theorem ReadsAt.parenthesized (h : ReadsAt tight 6 e) (hlevels : e.nesting + 1 ≤ levels) :
    Heads levels g ('(' :: e.text tight ++ [')'] ++ rest) e rest := by
  obtain ⟨n, rfl⟩ : ∃ n, levels = n + 1 := ⟨levels - 1, by omega⟩
  have hinside : ReadsInside tight n e := fun rest hrest => h n .lines rest (by omega) hrest
  have hinner : Reads (enclosed (operand byScan n .lines) ')') (e.text tight ++ ')' :: rest) e
      rest := enclosed_reads (by decide) hinside
  rw [show '(' :: e.text tight ++ [')'] ++ rest = '(' :: (e.text tight ++ ')' :: rest) by simp]
  exact .first (primary_parenthesis hinner)

/-- What is read before suffixes is read at every level, if it begins with no prefixed operator. -/
theorem level_of_heads {t : List Char} {bound k : Nat} (ht : Begins beginsAtom t)
    (h : ∀ levels g rest, bound ≤ levels → Boundary rest → Heads levels g (t ++ rest) e rest)
    (hk : k ≤ 6) {levels : Nat} {g : Gap} {rest : List Char} (hlevels : bound ≤ levels)
    (hrest : Follow tight k rest) :
    ReadsTo g (reader g (operand byScan levels g) k) (t ++ rest) e rest := by
  induction k with
  | zero => exact ((h levels g rest hlevels hrest.boundary).operand ht.append hrest).readsTo
  | succ k ih => exact (ih (by omega) (hrest.mono (by omega))).climb (by omega) hrest

/-- Away from its own level, an expression is a left end by itself. -/
theorem opens_of_level {k : Nat} (hrank : e.rank ≠ k + 2)
    (h : ∀ levels g rest, e.nestingAt (k + 1) ≤ levels → Follow tight k rest →
      ReadsTo g (reader g (operand byScan levels g) k) (e.textAt tight (k + 1) ++ rest) e rest)
    {levels : Nat} {g : Gap} {rest : List Char} (hlevels : e.nestingAt (k + 2) ≤ levels)
    (hrest : Follow tight k rest) :
    Opens g (chainOperator k) (reader g (operand byScan levels g) k)
      (e.textAt tight (k + 2) ++ rest) e (past g rest) := by
  -- tighter than the level, or looser and in parentheses; the text is the same one rank further
  -- down
  by_cases hle : e.rank ≤ k + 1
  · rw [nestingAt_of_le (by omega)] at hlevels
    rw [textAt_of_le (by omega), ← textAt_of_le hle]
    exact .first (h levels g rest (by rw [nestingAt_of_le hle]; exact hlevels) hrest)
  · rw [nestingAt_of_lt (by omega)] at hlevels
    rw [textAt_of_lt (by omega), ← textAt_of_lt (show k + 1 < e.rank by omega)]
    exact .first (h levels g rest (by rw [nestingAt_of_lt (by omega)]; exact hlevels) hrest)

/-- What stands alone reads back if it does so before suffixes. -/
theorem ReadsBack.of_atom (hrank : e.rank = 0) (hlegible : e.isLegible = true)
    (h : ∀ levels g rest, e.nesting ≤ levels → Boundary rest →
      Heads levels g (e.text tight ++ rest) e rest) : ReadsBack tight e := by
  -- it begins with no prefixed operator
  have hbegins : Begins beginsAtom (e.text tight) := by
    rw [← textAt_of_le (Nat.le_of_eq hrank)]
    exact Expr.textAt_zero_starts hlegible
  have hlevel : ∀ k, k ≤ 6 → ∀ levels g rest, e.nestingAt (k + 1) ≤ levels →
      Follow tight k rest →
      ReadsTo g (reader g (operand byScan levels g) k) (e.textAt tight (k + 1) ++ rest) e rest := by
    intro k hk levels g rest hlevels hrest
    rw [nestingAt_of_le (by omega)] at hlevels
    rw [textAt_of_le (by omega)]
    exact level_of_heads hbegins h hk hlevels hrest
  refine ⟨fun levels g rest hlevels hrest => ?_, hlevel, fun k hk _ levels g rest hlevels hrest =>
    opens_of_level (by omega) (hlevel k (by omega)) hlevels hrest⟩
  rw [nestingAt_of_le (by omega)] at hlevels
  rw [textAt_of_le (by omega)]
  exact h levels g rest hlevels hrest

/-- What is joined or prefixed reads back if it does so at its own level: below it, it stands in
    parentheses. -/
theorem ReadsBack.of_level {k : Nat} (hk : k ≤ 6) (hrank : e.rank = k + 1)
    (h : ReadsAt tight k e)
    (hopens : ∀ j, k = j + 1 → chains j = true → ∀ levels g rest, e.nesting ≤ levels →
      Follow tight j rest →
      Opens g (chainOperator j) (reader g (operand byScan levels g) j) (e.text tight ++ rest) e
        (past g rest)) : ReadsBack tight e := by
  have hheads : ∀ levels g rest, e.nesting + 1 ≤ levels → Boundary rest →
      Heads levels g ('(' :: e.text tight ++ [')'] ++ rest) e rest :=
    fun levels g rest hlevels _ => (h.mono hk (by omega)).parenthesized hlevels
  have hparenthesis : Begins beginsAtom ('(' :: e.text tight ++ [')']) :=
    ⟨'(', _, rfl, by decide⟩
  have hlevel : ∀ j, j ≤ 6 → ∀ levels g rest, e.nestingAt (j + 1) ≤ levels →
      Follow tight j rest →
      ReadsTo g (reader g (operand byScan levels g) j) (e.textAt tight (j + 1) ++ rest) e rest := by
    intro j hj levels g rest hlevels hrest
    -- from its own level on it stands bare, and below that in parentheses
    by_cases hkj : k ≤ j
    · rw [nestingAt_of_le (by omega)] at hlevels
      rw [textAt_of_le (by omega)]
      exact h.mono hkj hj levels g rest hlevels hrest
    · rw [nestingAt_of_lt (by omega)] at hlevels
      rw [textAt_of_lt (by omega)]
      exact level_of_heads hparenthesis hheads hj hlevels hrest
  refine ⟨fun levels g rest hlevels hrest => ?_, hlevel,
    fun j hj hchains levels g rest hlevels hrest => ?_⟩
  · rw [nestingAt_of_lt (by omega)] at hlevels
    rw [textAt_of_lt (by omega)]
    exact hheads levels g rest hlevels hrest
  · -- only in a chain of its own level are its joints joints of the chain
    by_cases hown : k = j + 1
    · rw [nestingAt_of_le (by omega)] at hlevels
      rw [textAt_of_le (by omega)]
      exact hopens j hown hchains levels g rest hlevels hrest
    · exact opens_of_level (by omega) (hlevel j (by omega)) hlevels hrest

/-! ## §2. Joined and prefixed expressions -/

section Make

variable {i : Infix} {left right : Expr}

/-- What stands behind a joint: the joint is not longer than it looks, and the right operand reads
    back behind it. -/
theorem right_reads (hright : ReadsBack tight right) (hbegins : Begins beginsExpr (right.text tight))
    (hlevels : right.nestingAt (i.tier + 1) ≤ levels) (hrest : Follow tight i.tier rest)
    {u : List Char} (hu : u = right.textAt tight (i.tier + 1) ++ rest ∨
      u = ' ' :: (right.textAt tight (i.tier + 1) ++ rest)) :
    EndsJoint u ∧ ReadsTo g (reader g (operand byScan levels g) i.tier) u right rest := by
  have htier := i.tier_le
  have hread := hright.level i.tier (by omega) levels g rest hlevels hrest
  have hbegin : Begins beginsExpr (right.textAt tight (i.tier + 1) ++ rest) :=
    hbegins.textAt.append
  rcases hu with rfl | rfl
  · refine ⟨fun c hc => ⟨?_, ?_, ?_⟩, hread⟩ <;> rintro rfl <;>
      exact hbegin.head_ne (by decide) hc
  -- the blank before the operand ends the joint, and the operand is read past it
  · refine ⟨fun c hc => ?_, ((skipsBlank_operand levels g).reader i.tier).readsTo hread⟩
    cases hc
    decide

theorem text_make_append (rest : List Char) :
    (i.make left right).text tight ++ rest = left.textAt tight i.leftRank ++
      (i.written tight ++ (right.textAt tight (i.tier + 1) ++ rest)) := by
  rw [Expr.text_make, List.append_assoc, List.append_assoc]

/-- **A chain goes on with its operator**: the left operand opens it, and the right one is read
    behind. -/
theorem opens_make {op : BinaryOp} (hchains : chains (Infix.operator op).tier = true)
    (hleft : ReadsBack tight left) (hright : ReadsBack tight right)
    (hbegins : Begins beginsExpr (right.text tight))
    (hlevels : (Expr.binary op left right).nesting ≤ levels)
    (hrest : Follow tight (Infix.operator op).tier rest) :
    Opens g (chainOperator (Infix.operator op).tier)
      (reader g (operand byScan levels g) (Infix.operator op).tier)
      ((Expr.binary op left right).text tight ++ rest) (.binary op left right) (past g rest) := by
  have htier := (Infix.operator op).tier_le
  have hrank : (Infix.operator op).leftRank = (Infix.operator op).tier + 2 := by
    rw [Infix.leftRank, hchains, if_pos rfl]
  have hbound : max (left.nestingAt ((Infix.operator op).tier + 2))
      (right.nestingAt ((Infix.operator op).tier + 1)) ≤ levels := by
    rw [← hrank, ← Expr.nesting_make]
    exact hlevels
  have htext : (Expr.binary op left right).text tight ++ rest = _ :=
    text_make_append (i := .operator op) rest
  rw [htext, hrank]
  obtain ⟨u, hpast, hu⟩ := past_written g tight (.operator op)
    (right.textAt tight ((Infix.operator op).tier + 1) ++ rest)
  obtain ⟨hends, hread⟩ := right_reads (g := g) hright hbegins
    (Nat.le_trans (Nat.le_max_right _ _) hbound) hrest hu
  have hopen := hleft.opens _ htier hchains levels g
    ((Infix.operator op).written tight ++
      (right.textAt tight ((Infix.operator op).tier + 1) ++ rest))
    (Nat.le_trans (Nat.le_max_left _ _) hbound) (.joint (.operator op) (Nat.le_refl _))
  rw [hpast] at hopen
  refine hopen.more (chainOperator_some hchains hends) hread ?_
  -- the joint itself is not empty
  obtain ⟨c, more, hsymbol, -⟩ := jointTier_symbol (.operator op)
  rw [hsymbol]
  rcases hu with rfl | rfl
  all_goals
    simp only [List.length_append, List.length_cons]
    omega

/-- Two operands at the level of their joint. -/
theorem readsAt_make (hleft : ReadsBack tight left) (hright : ReadsBack tight right)
    (hbegins : Begins beginsExpr (right.text tight)) :
    ReadsAt tight (i.tier + 1) (i.make left right) := by
  intro levels g rest hlevels hrest
  have htier := i.tier_le
  have hlower : Follow tight i.tier rest := hrest.mono (by omega)
  rw [reader, joined]
  cases hchains : chains i.tier with
  | true =>
    rw [if_pos rfl]
    cases i with
    | dots inclusive => cases hchains
    | operator op =>
      -- the expression is a chain so far, and no joint of the level goes on with it
      have hopen := opens_make (g := g) hchains hleft hright hbegins hlevels hlower
      exact (hopen.done (chainOperator_none htier hchains hrest.noJoint)).readsTo_past
  | false =>
    -- one joint at most, so the left operand is read on the level below like the right one
    rw [if_neg (by decide)]
    have hrank : i.leftRank = i.tier + 1 := by rw [Infix.leftRank, hchains]; rfl
    rw [Expr.nesting_make, hrank] at hlevels
    rw [text_make_append, hrank]
    obtain ⟨u, hpast, hu⟩ := past_written g tight i (right.textAt tight (i.tier + 1) ++ rest)
    obtain ⟨hends, hread⟩ := right_reads (g := g) hright hbegins
      (Nat.le_trans (Nat.le_max_right _ _) hlevels) hlower hu
    have hfirst := hleft.level i.tier (by omega) levels g
      (i.written tight ++ (right.textAt tight (i.tier + 1) ++ rest))
      (Nat.le_trans (Nat.le_max_left _ _) hlevels) (.joint i (Nat.le_refl _))
    refine pair_both hfirst ?_ hread
    rw [hpast]
    exact pairOperator_some hchains hends

end Make

/-- **Joined expressions read back.** -/
theorem ReadsBack.make {i : Infix} {left right : Expr} (hleft : ReadsBack tight left)
    (hright : ReadsBack tight right) (hbegins : Begins beginsExpr (right.text tight)) :
    ReadsBack tight (i.make left right) := by
  have htier := i.tier_le
  refine .of_level (k := i.tier + 1) (by omega) (Expr.rank_make i left right)
    (readsAt_make hleft hright hbegins) fun j hj hchains levels g rest hlevels hrest => ?_
  obtain rfl : i.tier = j := by omega
  cases i with
  | dots inclusive => cases hchains
  | operator op => exact opens_make hchains hleft hright hbegins hlevels hrest

/-- **Prefixed expressions read back**: the operand is read one level down. -/
theorem ReadsBack.unary {op : UnaryOp} {operand : Expr} (h : ReadsBack tight operand)
    (hbegins : Begins beginsExpr (operand.text tight)) : ReadsBack tight (.unary op operand) := by
  refine .of_level (k := 0) (by omega) rfl (fun levels g rest hlevels hrest => ?_)
    (fun j hj => by omega)
  have hnesting : (Expr.unary op operand).nesting = operand.nestingAt 1 + 1 := by
    rw [Expr.nesting, Expr.nestingAt]
  obtain ⟨n, rfl⟩ : ∃ n, levels = n + 1 := ⟨levels - 1, by omega⟩
  -- the operand does not go on with what would make the operator longer
  have hbegin : Begins beginsExpr (operand.textAt tight 1 ++ rest) := hbegins.textAt.append
  have htext : (Expr.unary op operand).text tight ++ rest =
      op.symbol.toList ++ (operand.textAt tight 1 ++ rest) := by
    rw [Expr.text, List.append_assoc]
    rfl
  have hsymbol : Begins beginsExpr (op.symbol.toList ++ (operand.textAt tight 1 ++ rest)) := by
    cases op <;> exact ⟨_, _, rfl, by decide⟩
  obtain ⟨u, hread, hpast, hlength⟩ := h.level 0 (by omega) n g rest
    (show operand.nestingAt 1 ≤ n by omega) hrest
  have hlead := leadingOperator_some op (hbegin.head_ne (by decide))
  refine ⟨u, ?_, hpast, hlength⟩
  rw [reader, operand_eq, htext]
  refine Reads.gap.bind ?_
  rw [past_begins hsymbol]
  exact hlead.bind (hread.bind .pure)

/-! ## §3. Expressions that stand alone -/

/-- A dot before a name is no decimal point. -/
theorem boundary_memberDot {optional : Bool} {t : List Char} (ht : Begins Text.isNameStart t) :
    Boundary (memberDot optional ++ t) := by
  obtain ⟨c, u, rfl, hc⟩ := ht
  cases optional with
  | true => exact boundary_mark (c := '?') (by decide) (by decide) (by decide) (by decide)
  | false =>
    refine boundary_cons (c := '.') (by decide) (by decide) (by decide) fun _ d v hd => ?_
    cases hd
    exact isDigit_of_isNameStart hc

theorem begins_name {name : String} (h : isIdentifier name = true) :
    Begins Text.isNameStart name.toList := by
  obtain ⟨c, rest, hname, hstart, -⟩ := identifier_chars h
  exact ⟨c, rest, hname, hstart⟩

/-- Digits are read as a number, and as the integer that they were written for. -/
theorem int_heads {n : Int64} (hn : 0 ≤ n.toInt) (hrest : Boundary rest) :
    Heads levels g ((Expr.int n).text tight ++ rest) (.int n) rest := by
  have hread := number_reads hn hrest
  rw [Expr.text]
  cases hdigits : (Number.Word.text n).toList with
  | nil =>
    rw [word_text_digits hn] at hdigits
    exact absurd hdigits Nat.toDigits_ne_nil
  | cons ch more =>
    have hch : ch.isDigit = true := by
      rw [word_text_digits hn] at hdigits
      exact isDigit_toDigits (hdigits ▸ List.mem_cons_self)
    -- a digit is none of the other characters that decide
    have hne : ∀ d : Char, d.isDigit = false → ¬(ch == d) = true := by
      intro d hd heq
      rw [beq_iff_eq.mp heq, hd] at hch
      cases hch
    rw [hdigits] at hread
    refine .first (primary_reads (by simp [beginsAtom, hch]) ?_)
    rw [primaryAt, if_neg (hne '(' (by decide)), if_neg (hne '"' (by decide)), if_pos hch]
    exact hread.bind .pure

/-- The words that stand for literals. -/
theorem word_heads {word : String} {e : Expr} (hword : isIdentifier word = true)
    (heq : nameOrCall (below levels) word = pure e) (hrest : Boundary rest) :
    Heads levels g (word.toList ++ rest) e rest := by
  refine .first (primary_word hword (fun c v hv => (hrest c v hv).1) ?_)
  rw [heq]
  exact .pure

/-- A name that stands for no literal, with no bracket behind it. -/
theorem var_heads {name : String} (hname : isIdentifier name = true)
    (hreserved : isReserved name = false) (hrest : Boundary rest) :
    Heads levels g (name.toList ++ rest) (.var name) rest := by
  refine .first (primary_word hname (fun c v hv => (hrest c v hv).1) ?_)
  rw [nameOrCall_eq hreserved]
  refine .passing (fun hhead => ?_) .pure
  cases rest with
  | nil => cases hhead
  | cons c v =>
    cases hhead
    exact (hrest _ v rfl).2.2.1 rfl

/-- Expressions inside brackets, of which the deepest fits. -/
theorem ReadsBack.all_inside {es : List Expr} (h : ∀ a ∈ es, ReadsBack tight a)
    (hlevels : Expr.listNesting es ≤ levels) : ∀ a ∈ es, ReadsInside tight levels a :=
  fun a ha => (h a ha).inside (Nat.le_trans (Expr.nesting_le_list ha) hlevels)

/-- A call: its arguments are read in brackets, one level down. -/
theorem call_heads {name : String} {args : List Expr} (hname : isIdentifier name = true)
    (hreserved : isReserved name = false) (h : ∀ a ∈ args, ReadsBack tight a)
    (hbegins : ∀ a ∈ args, Begins beginsExpr (a.text tight))
    (hlevels : (Expr.call name args).nesting ≤ levels) :
    Heads levels g ((Expr.call name args).text tight ++ rest) (.call name args) rest := by
  rw [Expr.nesting] at hlevels
  obtain ⟨n, rfl⟩ : ∃ n, levels = n + 1 := ⟨levels - 1, by omega⟩
  have hargs : Reads (arguments (operand byScan n .lines))
      (commaSeparated (args.map (·.text tight)) ++ ')' :: rest) args rest :=
    arguments_reads (ReadsBack.all_inside h (by omega)) hbegins
  have htext : (Expr.call name args).text tight ++ rest =
      name.toList ++ '(' :: (commaSeparated (args.map (·.text tight)) ++ ')' :: rest) := by
    simp [Expr.text]
  rw [htext]
  refine .first (primary_word hname (fun c v hv => ?_) ?_)
  · cases hv
    decide
  · rw [nameOrCall_eq hreserved]
    exact .accepting (hargs.bind .pure)

/-- What a scan for pairs finds behind the first entry of a collection. -/
theorem startsPair_commaSeparated {text : α → List Char} {a : α} {as : List α}
    {first : List Char} {pairs : Bool} (behind : List Char) (hfirst : text a = first ++ behind)
    (hpasses : Passes 0 first) (hbehind : ∀ t, startsPair 0 false (behind ++ ',' :: t) = pairs)
    (hend : startsPair 0 false (behind ++ ']' :: rest) = pairs) :
    startsPair 0 false (commaSeparated ((a :: as).map text) ++ ']' :: rest) = pairs := by
  cases as with
  | nil =>
    -- a single entry, before the bracket that closes
    show startsPair 0 false (text a ++ ']' :: rest) = pairs
    rw [hfirst, List.append_assoc, hpasses 0 _ (Nat.le_refl 0)]
    exact hend
  | cons b as =>
    -- the first of several, before a comma
    show startsPair 0 false (text a ++ ',' :: ' ' :: commaSeparated ((b :: as).map text) ++ _) = pairs
    rw [hfirst, List.append_assoc, List.append_assoc, hpasses 0 _ (Nat.le_refl 0)]
    exact hbehind _

/-- An array: the scan meets a comma or the bracket behind its first item. -/
theorem array_heads {items : List Expr} (h : ∀ a ∈ items, ReadsBack tight a)
    (hlegible : ∀ a ∈ items, a.isLegible = true)
    (hlevels : (Expr.array items).nesting ≤ levels) :
    Heads levels g ((Expr.array items).text tight ++ rest) (.array items) rest := by
  rw [Expr.nesting] at hlevels
  obtain ⟨n, rfl⟩ : ∃ n, levels = n + 1 := ⟨levels - 1, by omega⟩
  have hinside : ∀ a ∈ items, ReadsInside tight n a := ReadsBack.all_inside h (by omega)
  have htext : (Expr.array items).text tight ++ rest =
      '[' :: (commaSeparated (items.map (·.text tight)) ++ ']' :: rest) := by
    simp [Expr.text]
  rw [htext]
  refine .first (primary_bracket ?_)
  cases items with
  | nil =>
    refine Reads.gap.bind ?_
    rw [show commaSeparated (([] : List Expr).map (·.text tight)) ++ ']' :: rest = ']' :: rest from rfl,
      past_closing (by decide)]
    exact .accepting .pure
  | cons a as =>
    refine collection_reads false .array rfl ?_ (fun x hx => hinside x hx)
      fun x hx => Expr.text_starts (hlegible x hx)
    -- behind the first item the scan meets a comma or the closing bracket
    refine startsPair_commaSeparated [] (List.append_nil _).symm
      (Expr.text_passes (hlegible a List.mem_cons_self)) (fun t => ?_) ?_
    · rw [List.nil_append, startsPair.eq_def]
      rfl
    · rw [List.nil_append, startsPair.eq_def]
      rfl

theorem emptyDict_heads (hlevels : (Expr.dict []).nesting ≤ levels) :
    Heads levels g ((Expr.dict []).text tight ++ rest) (.dict []) rest := by
  rw [Expr.nesting] at hlevels
  obtain ⟨n, rfl⟩ : ∃ n, levels = n + 1 := ⟨levels - 1, by omega⟩
  rw [Expr.text]
  refine .first (primary_bracket (t := ':' :: ']' :: rest) (Reads.gap.bind ?_))
  rw [past_closing (by decide)]
  refine .passingOther (by decide) (.accepting ?_)
  exact (Reads.expect (past_closing (by decide))).bind .pure

/-- A dictionary: the scan meets the colon behind its first key. -/
theorem dict_heads {pair : Expr × Expr} {pairs : List (Expr × Expr)}
    (h : ∀ p ∈ pair :: pairs, ReadsBack tight p.1 ∧ ReadsBack tight p.2)
    (hlegible : ∀ p ∈ pair :: pairs, p.1.isLegible = true)
    (hlevels : (Expr.dict (pair :: pairs)).nesting ≤ levels) :
    Heads levels g ((Expr.dict (pair :: pairs)).text tight ++ rest) (.dict (pair :: pairs)) rest := by
  rw [Expr.nesting] at hlevels
  obtain ⟨n, rfl⟩ : ∃ n, levels = n + 1 := ⟨levels - 1, by omega⟩
  have hinside : ∀ p ∈ pair :: pairs, ReadsInside tight n p.1 ∧ ReadsInside tight n p.2 := by
    intro p hp
    have hnesting := Expr.nesting_le_pairs hp
    exact ⟨(h p hp).1.inside (by omega), (h p hp).2.inside (by omega)⟩
  have htext : (Expr.dict (pair :: pairs)).text tight ++ rest =
      '[' :: (commaSeparated ((pair :: pairs).map (Expr.pairText tight)) ++ ']' :: rest) := by
    rw [Expr.text, Expr.pairTexts_eq_map]
    simp
  rw [htext]
  refine .first (primary_bracket ?_)
  refine collection_reads true .dict rfl ?_
    (fun p hp t ht => keyAndValue_reads (hinside p hp).1 (hinside p hp).2 ht)
    fun p hp => (Expr.text_starts (hlegible p hp)).append
  -- behind the first key the scan meets the colon
  refine startsPair_commaSeparated (':' :: ' ' :: pair.2.text tight) rfl
    (Expr.text_passes (hlegible pair List.mem_cons_self)) (fun t => ?_) ?_
  · rw [List.cons_append, startsPair.eq_def]
    rfl
  · rw [List.cons_append, startsPair.eq_def]
    rfl

/-- An index behind its target, which is read before its suffixes. -/
theorem index_heads {target i : Expr} (htarget : ReadsBack tight target) (hi : ReadsBack tight i)
    (hlevels : (Expr.index target i).nesting ≤ levels) :
    Heads levels g ((Expr.index target i).text tight ++ rest) (.index target i) rest := by
  have hnesting : (Expr.index target i).nesting = max (target.nestingAt 0) (i.nesting + 1) := by
    rw [Expr.nesting]
    rfl
  obtain ⟨n, rfl⟩ : ∃ n, levels = n + 1 := ⟨levels - 1, by omega⟩
  have htext : (Expr.index target i).text tight ++ rest =
      target.textAt tight 0 ++ '[' :: (i.text tight ++ ']' :: rest) := by
    simp [Expr.text, Expr.textAt]
  have hfirst := htarget.heads (n + 1) g ('[' :: (i.text tight ++ ']' :: rest)) (by omega)
    (boundary_mark (by decide) (by decide) (by decide) (by decide))
  rw [htext]
  refine hfirst.more (suffix_index (hi.inside (by omega))) ?_
  simp only [List.length_cons, List.length_append]
  omega

/-- A member behind its target. -/
theorem member_heads {target : Expr} {name : String} {optional : Bool}
    (htarget : ReadsBack tight target) (hname : isIdentifier name = true) (hrest : Boundary rest)
    (hlevels : (Expr.member target name optional).nesting ≤ levels) :
    Heads levels g ((Expr.member target name optional).text tight ++ rest)
      (.member target name optional) rest := by
  rw [Expr.nesting] at hlevels
  have htext : (Expr.member target name optional).text tight ++ rest =
      target.textAt tight 0 ++ (memberDot optional ++ (name.toList ++ rest)) := by
    simp [Expr.text, Expr.textAt]
  have hfirst := htarget.heads levels g (memberDot optional ++ (name.toList ++ rest)) hlevels
    (boundary_memberDot (begins_name hname).append)
  rw [htext]
  refine hfirst.more (suffix_member hname hrest) ?_
  have hdot : 0 < (memberDot optional).length := by
    cases optional <;> exact Nat.succ_pos _
  simp only [List.length_append]
  omega

/-- A method behind its target, with its arguments one level down. -/
theorem method_heads {target : Expr} {name : String} {args : List Expr} {optional : Bool}
    (htarget : ReadsBack tight target) (hname : isIdentifier name = true)
    (h : ∀ a ∈ args, ReadsBack tight a) (hbegins : ∀ a ∈ args, Begins beginsExpr (a.text tight))
    (hlevels : (Expr.method target name args optional).nesting ≤ levels) :
    Heads levels g ((Expr.method target name args optional).text tight ++ rest)
      (.method target name args optional) rest := by
  have hnesting : (Expr.method target name args optional).nesting =
      max (target.nestingAt 0) (Expr.listNesting args + 1) := by
    rw [Expr.nesting]
    rfl
  obtain ⟨n, rfl⟩ : ∃ n, levels = n + 1 := ⟨levels - 1, by omega⟩
  have hinside : ∀ a ∈ args, ReadsInside tight n a := ReadsBack.all_inside h (by omega)
  have htext : (Expr.method target name args optional).text tight ++ rest =
      target.textAt tight 0 ++ (memberDot optional ++ (name.toList ++
        '(' :: (commaSeparated (args.map (·.text tight)) ++ ')' :: rest))) := by
    simp [Expr.text, Expr.textAt]
  -- the target, up to the dot
  have hfirst := htarget.heads (n + 1) g
    (memberDot optional ++ (name.toList ++
      '(' :: (commaSeparated (args.map (·.text tight)) ++ ')' :: rest)))
    (by omega) (boundary_memberDot (begins_name hname).append)
  rw [htext]
  refine hfirst.more (suffix_method hname hinside hbegins) ?_
  simp only [List.length_append, List.length_cons]
  omega

/-! ## §4. Every expression -/

/-- **Every legible expression reads back**, in every place that a text may give it. -/
theorem ReadsBack.of_isLegible {e : Expr} (h : e.isLegible = true) : ReadsBack tight e := by
  induction e using Expr.parts_induction with
  | h e ih =>
    obtain ⟨hhead, hparts⟩ := Expr.isLegible_iff.mp h
    have hpart : ∀ p ∈ e.parts, ReadsBack tight p := fun p hp => ih p hp (hparts p hp)
    have hbegins : ∀ p ∈ e.parts, Begins beginsExpr (p.text tight) :=
      fun p hp => Expr.text_starts (hparts p hp)
    rcases e.shape with ⟨i, left, right, rfl⟩ | ⟨op, operand, rfl⟩ | hrank
    · have hleft : left ∈ (i.make left right).parts := by simp [Expr.parts_make]
      have hright : right ∈ (i.make left right).parts := by simp [Expr.parts_make]
      exact .make (hpart left hleft) (hpart right hright) (hbegins right hright)
    · have hoperand : operand ∈ (Expr.unary op operand).parts := by simp [Expr.parts]
      exact .unary (hpart operand hoperand) (hbegins operand hoperand)
    -- what is left stands alone
    refine .of_atom hrank h fun levels g rest hlevels hrest => ?_
    cases e with
    | binary op left right => simp [Expr.rank] at hrank
    | range first last inclusive => simp [Expr.rank] at hrank
    | unary op operand => simp [Expr.rank] at hrank
    | double x => cases hhead
    | nil =>
      rw [Expr.text]
      exact word_heads (by decide) rfl hrest
    | bool b =>
      rw [Expr.text]
      cases b <;> exact word_heads (by decide) rfl hrest
    | int n => exact int_heads (by simpa [Expr.hasLegibleHead] using hhead) hrest
    | string s =>
      rw [Expr.text]
      exact .first (primary_reads (by decide) (string_reads.bind .pure))
    | var name =>
      simp only [Expr.hasLegibleHead, Bool.and_eq_true, Bool.not_eq_true'] at hhead
      rw [Expr.text]
      exact var_heads hhead.1 hhead.2 hrest
    | call name args =>
      simp only [Expr.hasLegibleHead, Bool.and_eq_true, Bool.not_eq_true'] at hhead
      exact call_heads hhead.1 hhead.2 hpart hbegins hlevels
    | array items => exact array_heads hpart hparts hlevels
    | dict pairs =>
      cases pairs with
      | nil => exact emptyDict_heads hlevels
      | cons pair pairs =>
        have hmem : ∀ p ∈ pair :: pairs, ∀ x ∈ [p.1, p.2], x ∈ (Expr.dict (pair :: pairs)).parts :=
          fun p hp x hx => List.mem_flatMap.mpr ⟨p, hp, hx⟩
        refine dict_heads (fun p hp => ⟨hpart _ (hmem p hp _ ?_), hpart _ (hmem p hp _ ?_)⟩)
          (fun p hp => hparts _ (hmem p hp _ ?_)) hlevels <;> simp
    | index target i =>
      exact index_heads (hpart target (by simp [Expr.parts])) (hpart i (by simp [Expr.parts])) hlevels
    | member target name optional =>
      exact member_heads (hpart target (by simp [Expr.parts])) hhead hrest hlevels
    | method target name args optional =>
      exact method_heads (hpart target (by simp [Expr.parts])) hhead
        (fun a ha => hpart a (List.mem_cons_of_mem target ha))
        (fun a ha => hbegins a (List.mem_cons_of_mem target ha)) hlevels

/-- The whole text is read, and nothing is left behind it. -/
theorem onlyExpr_reads {e : Expr} (hlegible : e.isLegible = true)
    (hnesting : e.nesting ≤ maxNesting) : Reads (onlyExpr byScan) (e.text tight) e [] := by
  have hback : ReadsBack tight e := .of_isLegible hlegible
  obtain ⟨u, hread, -, hlength⟩ := hback.level 6 (by omega) maxNesting .inline []
    (by rw [nestingAt_of_le e.rank_le]; exact hnesting) .nothing
  rw [textAt_of_le e.rank_le, List.append_nil] at hread
  -- what is left is no longer than what followed the text: nothing
  obtain rfl : u = [] := List.length_eq_zero_iff.mp (Nat.le_zero.mp hlength)
  refine Reads.gap.bind ?_
  rw [past_begins (Expr.text_starts hlegible)]
  refine hread.bind (Reads.gap.bind (.get fun c hc => ?_))
  rw [if_pos (by rw [Cursor.atEnd, hc]; rfl)]
  exact .pure

end Scriptlet.Parser

namespace Scriptlet

/-- The source text of an expression. -/
def Expr.source (tight : Bool) (e : Expr) : String := String.ofList (e.text tight)

/-- **Printed expressions read back**: the text of a legible expression that is not nested too deeply
    is accepted, and what it is read as is that expression. -/
theorem printed_expressions_read_back (tight : Bool) (e : Expr) (hlegible : e.isLegible = true)
    (hnesting : e.nesting ≤ maxNesting) : Expr.parse (e.source tight) = .ok e := by
  have hstart : (Cursor.start (e.source tight)).rest = e.text tight := String.toList_ofList
  obtain ⟨c, hrun, -⟩ := Parser.onlyExpr_reads hlegible hnesting _ hstart
  rw [Expr.parse, Expr.parseBy, hrun]
  rfl

/-- Ranges and comparisons in parentheses, operators that associate to the left without, a colon
    inside a string, and a method behind a negation. -/
theorem printed_expressions_read_back_mixed :
    let e : Expr :=
      .binary .and
        (.unary .not (.binary .lt
          (.range (.int 1) (.binary .sub (.int 2) (.unary .neg (.var "x"))) false)
          (.call "f" [.dict [(.string "a\"\\:", .array [])], .dict []])))
        (.index (.method (.unary .neg (.int 3)) "nil" [.nil, .bool true] true)
          (.binary .or (.binary .or (.var "a") (.var "b")) (.binary .or (.var "c") (.var "d"))))
    e.source false =
        "!(1 ..< 2 - -x < f([\"a\\\"\\\\:\": []], [:])) && (-3)?.nil(nil, true)[a || b || (c || d)]" ∧
      e.isLegible = true ∧ e.nesting ≤ maxNesting ∧ Expr.parse (e.source false) = .ok e := by
  intro e
  have hlegible : e.isLegible = true := by decide +kernel
  have hnesting : e.nesting ≤ maxNesting := by decide +kernel
  exact ⟨by decide +kernel, hlegible, hnesting,
    printed_expressions_read_back false e hlegible hnesting⟩

end Scriptlet
