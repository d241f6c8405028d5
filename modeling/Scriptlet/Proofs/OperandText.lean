/-
  Scriptlet.Proofs.OperandText — what readers take from the text of an operand.

  Brackets, arguments, collections, names, calls and suffixes, each from the text that is printed for
  it, given that the expressions inside its brackets read back there (`ReadsInside`).  Suffixes are
  read by a loop that carries the expression so far; `Heads` says that the loop has come to an
  expression with a rest ahead.

  Main results:
    * `Parser.arguments_reads`, `Parser.collection_reads` — lists in brackets.
    * `Parser.primary_word` — names, calls and the literals that are words.
    * `Parser.suffix_index`, `Parser.suffix_member`, `Parser.suffix_method` — suffixes.
-/
import Scriptlet.Proofs.KnownText

namespace Scriptlet.Parser

variable {α : Type} {g : Gap} {tight : Bool}

/-! ## §1. Operands and their suffixes -/

/-- The readers one level down. -/
def below : (levels : Nat) → Deeper
  | 0 => none
  | n + 1 => some (operand byScan n)

/-- The operands of a level are those over the readers one level down. -/
theorem operand_eq (levels : Nat) (g : Gap) :
    operand byScan levels g = operandLevel byScan (below levels) g := by
  cases levels <;> rfl

theorem skipsBlank_operand (levels : Nat) (g : Gap) : SkipsBlank (operand byScan levels g) := by
  rw [operand_eq]
  exact .gap

/-- No prefixed operator stands here. -/
theorem leadingOperator_none {t : List Char} (hnot : t.head? ≠ some '!')
    (hminus : t.head? ≠ some '-') : Reads leadingOperator t none t := by
  refine .get fun c hc => ?_
  split
  · exact .passing hnot (.passing hminus .pure)
  · exact .passing hminus .pure

/-- A prefixed operator is taken, and no `!=` for a `!`. -/
theorem leadingOperator_some (op : UnaryOp) {t : List Char} (ht : t.head? ≠ some '=') :
    Reads leadingOperator (op.symbol.toList ++ t) (some op) t := by
  refine .get fun c hc => ?_
  cases op with
  | neg =>
    split
    · exact .passingOther (x := '-') (by decide) (.accepting .pure)
    · exact .accepting .pure
  | not =>
    -- the exclamation mark is no part of a comparison
    have hnext : (c.peekAt 1 != '=') = true := by
      cases t with
      | nil => rw [Cursor.peekAt, hc]; rfl
      | cons x t => simpa [Cursor.peekAt, hc, UnaryOp.symbol] using ht
    rw [if_pos hnext]
    exact .accepting .pure

/-- The suffixes come, from the text, to have the expression before them and this rest ahead. -/
def Heads (levels : Nat) (g : Gap) (t : List Char) (e : Expr) (rest : List Char) : Prop :=
  ∀ b u, Reads (iterate (suffix (below levels)) e) rest b u →
    Reads (suffixed byScan (below levels) g) t b u

section Suffixes

variable {levels : Nat} {t rest rest' : List Char} {e e' : Expr}

/-- What stands alone, before any suffix. -/
theorem Heads.first (h : Reads (primary byScan (below levels) g) t e rest) :
    Heads levels g t e rest := fun _ _ hloop => h.bind hloop

/-- One suffix more. -/
theorem Heads.more (h : Heads levels g t e rest)
    (hsuffix : Reads (suffix (below levels) e) rest (.again e') rest')
    (hless : rest'.length < rest.length) : Heads levels g t e' rest' :=
  fun b u hloop => h b u (.iterate_again hsuffix hless hloop)

/-- What may follow an expression is none of its suffixes. -/
theorem suffix_done (h : Follow tight 0 rest) :
    Reads (suffix (below levels) e) rest (.done e) rest := by
  -- no bracket and no question mark follows, and a dot is one of two
  have hend : rest.head? ≠ some '[' ∧ rest.head? ≠ some '?' ∧
      (rest.head? = some '.' → ∃ u, rest = '.' :: '.' :: u) := by
    cases h with
    | nothing => exact ⟨by simp, by simp, by simp⟩
    | closing h =>
      simp only [List.mem_cons, List.not_mem_nil, or_false] at h
      rcases h with rfl | rfl | rfl | rfl <;> exact ⟨by simp, by simp, by simp⟩
    | joint i h =>
      cases i with
      | operator op => exact ⟨by simp [Infix.written], by simp [Infix.written], by simp [Infix.written]⟩
      | dots inclusive =>
        cases tight with
        | true =>
          cases inclusive <;>
            exact ⟨by simp [Infix.written, Infix.symbol], by simp [Infix.written, Infix.symbol],
              fun _ => ⟨_, rfl⟩⟩
        | false => exact ⟨by simp [Infix.written], by simp [Infix.written], by simp [Infix.written]⟩
  obtain ⟨hbracket, hquestion, hdot⟩ := hend
  refine .passing hbracket <|
    .passingText (sees_eq_false (w := '?') (by decide) hquestion) (.get fun c hc => ?_)
  split
  · rename_i hnext
    refine .passing (fun hhead => ?_) .pure
    obtain ⟨u, rfl⟩ := hdot hhead
    simp [Cursor.peekAt, hc] at hnext
  · exact .pure

theorem Heads.done (h : Heads levels g t e rest) (hrest : Follow tight 0 rest) :
    Reads (suffixed byScan (below levels) g) t e rest := h e rest (.iterate_done (suffix_done hrest))

/-- What begins no prefixed operator is read as an operand if it is read with its suffixes. -/
theorem Heads.operand (h : Heads levels g t e rest) (ht : Begins beginsAtom t)
    (hrest : Follow tight 0 rest) : Reads (operand byScan levels g) t e rest := by
  rw [operand_eq]
  refine Reads.gap.bind ?_
  rw [past_begins ht.expr]
  have hnone : Reads leadingOperator t none t :=
    leadingOperator_none (ht.head_ne (by decide)) (ht.head_ne (by decide))
  exact hnone.bind (h.done hrest)

end Suffixes

/-! ## §2. Brackets -/

/-- The expression reads back inside brackets, with so many levels left. -/
def ReadsInside (tight : Bool) (levels : Nat) (e : Expr) : Prop :=
  ∀ rest, Follow tight 6 rest →
    ReadsTo .lines (exprOf .lines (operand byScan levels .lines)) (e.text tight ++ rest) e rest

variable {levels : Nat} {rest : List Char}

theorem skipsBlank_exprOf : SkipsBlank (exprOf g (operand byScan levels g)) := by
  rw [exprOf_eq_reader]
  exact (skipsBlank_operand levels g).reader 6

/-- An expression up to the bracket, comma or colon behind it. -/
theorem enclosed_reads {e : Expr} {close : Char} (hclose : close ∈ [')', ']', ',', ':'])
    (h : ReadsInside tight levels e) :
    Reads (enclosed (operand byScan levels .lines) close) (e.text tight ++ close :: rest) e rest := by
  obtain ⟨u, hread, hpast, -⟩ := h (close :: rest) (.closing hclose)
  have hexpect : Reads (expect .lines close) u () rest :=
    .expect (by rw [hpast, past_closing hclose])
  exact hread.bind (hexpect.bind .pure)

/-- The blank after a comma or colon makes no difference. -/
theorem ReadsInside.led {lead t : List Char} {e : Expr} (h : ReadsInside tight levels e)
    (hlead : lead = [] ∨ lead = [' ']) (ht : Follow tight 6 t) :
    ReadsTo .lines (exprOf .lines (operand byScan levels .lines)) (lead ++ (e.text tight ++ t)) e
      t := by
  rcases hlead with rfl | rfl
  · exact h t ht
  · exact skipsBlank_exprOf.readsTo (h t ht)

/-- The loop over arguments carries those before, in reverse; each one ends at a comma or at the
    bracket. -/
theorem argumentLoop_reads {a : Expr} {as before : List Expr} {lead : List Char}
    (hlead : lead = [] ∨ lead = [' ']) (h : ∀ e ∈ a :: as, ReadsInside tight levels e) :
    Reads (iterate (arguments.step (operand byScan levels .lines)) before)
      (lead ++ (commaSeparated ((a :: as).map (·.text tight)) ++ ')' :: rest))
      (before.reverse ++ a :: as) rest := by
  -- on the arguments after this one
  induction as generalizing a before lead with
  | nil =>
    have hclose : ')' ∈ [')', ']', ',', ':'] := by decide
    obtain ⟨u, hone, hpast, -⟩ :=
      (h a List.mem_cons_self).led hlead (t := ')' :: rest) (.closing hclose)
    refine .iterate_done (hone.bind (Reads.gap.bind ?_))
    rw [hpast, past_closing hclose, show before.reverse ++ [a] = (a :: before).reverse by simp]
    exact .accepting .pure
  | cons b as ih =>
    have hcomma : ',' ∈ [')', ']', ',', ':'] := by decide
    have hnext : Reads (iterate (arguments.step (operand byScan levels .lines)) (a :: before))
        (' ' :: (commaSeparated ((b :: as).map (·.text tight)) ++ ')' :: rest))
        ((a :: before).reverse ++ b :: as) rest :=
      ih (.inr rfl) fun e he => h e (List.mem_cons_of_mem a he)
    have htext : lead ++ (commaSeparated ((a :: b :: as).map (·.text tight)) ++ ')' :: rest) =
        lead ++ (a.text tight ++
          ',' :: ' ' :: (commaSeparated ((b :: as).map (·.text tight)) ++ ')' :: rest)) := by
      simp [commaSeparated]
    rw [htext, show before.reverse ++ a :: b :: as = (a :: before).reverse ++ b :: as by simp]
    obtain ⟨u, hone, hpast, -⟩ := (h a List.mem_cons_self).led hlead (.closing hcomma)
    refine .iterate_again (hone.bind (Reads.gap.bind ?_)) ?_ hnext
    · rw [hpast, past_closing hcomma]
      refine .passingOther (by decide) ?_
      exact (Reads.expect (past_closing hcomma)).bind .pure
    · simp only [List.length_append, List.length_cons]
      omega

/-- **Arguments in brackets**, also none. -/
theorem arguments_reads {args : List Expr} (h : ∀ e ∈ args, ReadsInside tight levels e)
    (hbegins : ∀ e ∈ args, Begins beginsExpr (e.text tight)) :
    Reads (arguments (operand byScan levels .lines))
      (commaSeparated (args.map (·.text tight)) ++ ')' :: rest) args rest := by
  refine Reads.gap.bind ?_
  cases args with
  -- the closing bracket at once
  | nil =>
    have hclose : ')' ∈ [')', ']', ',', ':'] := by decide
    rw [show commaSeparated (([] : List Expr).map (·.text tight)) ++ ')' :: rest = ')' :: rest from rfl,
      past_closing hclose]
    exact .accepting .pure
  | cons a as =>
    -- an argument begins with no closing bracket
    have hbegin : Begins beginsExpr (commaSeparated ((a :: as).map (·.text tight)) ++ ')' :: rest) :=
      (Begins.commaSeparated (hbegins a List.mem_cons_self)).append
    rw [past_begins hbegin]
    refine .passing (hbegin.head_ne (by decide)) ?_
    exact argumentLoop_reads (.inl rfl) h

/-! ## §3. Collections -/

/-- The closing bracket of a collection. -/
theorem collectionGoesOn_end {u : List Char} (hu : past .lines u = ']' :: rest) :
    Reads collectionGoesOn u false rest := by
  refine Reads.gap.bind ?_
  rw [hu]
  exact .accepting .pure

/-- A comma, and another entry behind it. -/
theorem collectionGoesOn_more {u t : List Char} (hu : past .lines u = ',' :: ' ' :: t)
    (ht : Begins beginsExpr t) : Reads collectionGoesOn u true t := by
  refine Reads.gap.bind ?_
  rw [hu]
  refine .passingOther (by decide) ?_
  have hcomma : Reads (expect .lines ',') (',' :: ' ' :: t) () (' ' :: t) :=
    .expect (past_closing (by decide))
  refine hcomma.bind (Reads.gap.bind ?_)
  rw [show past .lines (' ' :: t) = past .lines t from rfl, past_begins ht, bind_bool]
  exact .passing (ht.head_ne (by decide)) .pure

/-- The loop over the entries of a collection, whatever they are. -/
theorem entryLoop_reads {entry : Parser α} {text : α → List Char} {a : α} {as before : List α}
    (h : ∀ x ∈ a :: as, ∀ t, Follow tight 6 t → ReadsTo .lines entry (text x ++ t) x t)
    (hbegins : ∀ x ∈ a :: as, Begins beginsExpr (text x)) :
    Reads (iterate (entries.step entry) before)
      (commaSeparated ((a :: as).map text) ++ ']' :: rest) (before.reverse ++ a :: as) rest := by
  -- on the entries after this one
  induction as generalizing a before with
  | nil =>
    have hclose : ']' ∈ [')', ']', ',', ':'] := by decide
    obtain ⟨u, hone, hpast, -⟩ := h a List.mem_cons_self (']' :: rest) (.closing hclose)
    have hend := collectionGoesOn_end (hpast.trans (past_closing hclose))
    rw [show before.reverse ++ [a] = (a :: before).reverse by simp]
    exact .iterate_done (hone.bind (hend.bind .pure))
  | cons b as ih =>
    have hcomma : ',' ∈ [')', ']', ',', ':'] := by decide
    have hnext : Reads (iterate (entries.step entry) (a :: before))
        (commaSeparated ((b :: as).map text) ++ ']' :: rest)
        ((a :: before).reverse ++ b :: as) rest :=
      ih (fun x hx => h x (List.mem_cons_of_mem a hx)) fun x hx =>
        hbegins x (List.mem_cons_of_mem a hx)
    have hbegin : Begins beginsExpr (commaSeparated ((b :: as).map text) ++ ']' :: rest) :=
      (Begins.commaSeparated (hbegins b (by simp))).append
    have htext : commaSeparated ((a :: b :: as).map text) ++ ']' :: rest =
        text a ++ ',' :: ' ' :: (commaSeparated ((b :: as).map text) ++ ']' :: rest) := by
      simp [commaSeparated]
    rw [htext, show before.reverse ++ a :: b :: as = (a :: before).reverse ++ b :: as by simp]
    obtain ⟨u, hone, hpast, -⟩ := h a List.mem_cons_self _ (.closing hcomma)
    have hmore := collectionGoesOn_more (hpast.trans (past_closing hcomma)) hbegin
    refine .iterate_again (hone.bind (hmore.bind .pure)) ?_ hnext
    simp only [List.length_append, List.length_cons]
    omega

/-- A key, a colon and a value. -/
theorem keyAndValue_reads {pair : Expr × Expr} (hkey : ReadsInside tight levels pair.1)
    (hvalue : ReadsInside tight levels pair.2) {t : List Char} (ht : Follow tight 6 t) :
    ReadsTo .lines (keyAndValue (operand byScan levels .lines)) (Expr.pairText tight pair ++ t)
      pair t := by
  have hcolon : ':' ∈ [')', ']', ',', ':'] := by decide
  have htext : Expr.pairText tight pair ++ t =
      pair.1.text tight ++ ':' :: ' ' :: (pair.2.text tight ++ t) := by
    simp [Expr.pairText]
  obtain ⟨u, hread, hpast, -⟩ := hkey (':' :: ' ' :: (pair.2.text tight ++ t)) (.closing hcolon)
  obtain ⟨v, hread', hpast', hlength⟩ := hvalue.led (.inr rfl) ht
  have hexpect : Reads (expect .lines ':') u () (' ' :: (pair.2.text tight ++ t)) :=
    .expect (hpast.trans (past_closing hcolon))
  rw [htext]
  exact ⟨v, hread.bind (hexpect.bind (hread'.bind .pure)), hpast', hlength⟩

/-- **A collection that is not empty**: the scan finds its kind, and the entries are read. -/
theorem collection_reads {entry : Parser α} {text : α → List Char} {a : α} {as : List α}
    (pairs : Bool) (make : List α → Expr)
    (hcontents : contents (operand byScan levels .lines) pairs =
      entries entry >>= fun all => pure (make all))
    (hscan : startsPair 0 false (commaSeparated ((a :: as).map text) ++ ']' :: rest) = pairs)
    (h : ∀ x ∈ a :: as, ∀ t, Follow tight 6 t → ReadsTo .lines entry (text x ++ t) x t)
    (hbegins : ∀ x ∈ a :: as, Begins beginsExpr (text x)) :
    Reads (collection byScan (operand byScan levels .lines))
      (commaSeparated ((a :: as).map text) ++ ']' :: rest) (make (a :: as)) rest := by
  have hbegin : Begins beginsExpr (commaSeparated ((a :: as).map text) ++ ']' :: rest) :=
    (Begins.commaSeparated (hbegins a List.mem_cons_self)).append
  -- looking ahead takes nothing
  have hlook : Reads (byScan (operand byScan levels .lines))
      (commaSeparated ((a :: as).map text) ++ ']' :: rest) pairs
      (commaSeparated ((a :: as).map text) ++ ']' :: rest) := by
    refine .get fun c hc => ?_
    rw [hc, hscan]
    exact .pure
  have hentries : Reads (entries entry) (commaSeparated ((a :: as).map text) ++ ']' :: rest)
      (a :: as) rest := entryLoop_reads h hbegins
  refine Reads.gap.bind ?_
  rw [past_begins hbegin]
  refine .passing (hbegin.head_ne (by decide)) <|
    .passing (hbegin.head_ne (by decide)) (hlook.bind ?_)
  rw [hcontents]
  exact hentries.bind .pure

/-! ## §4. What stands alone -/

/-- What is read where the next character is this one. -/
def primaryAt (deeper : Deeper) (ch : Char) : Parser Expr :=
  if ch == '(' then do
    advance
    within deeper fun d => enclosed (d .lines) ')'
  else if ch == '"' then return .string (← literal Cursor.string)
  else if ch.isDigit then do
    match ← literal Cursor.number with
    | .int n => return .int n
    | .double x => return .double x
  else if ch == '[' then do
    advance
    within deeper fun d => collection byScan (d .lines)
  else do nameOrCall deeper (← nameHere "an expression")

variable {deeper : Deeper}

/-- The text begins with no gap and has not ended, so its first character decides. -/
theorem primary_reads {ch : Char} {t u : List Char} {e : Expr} (hch : beginsAtom ch = true)
    (h : Reads (primaryAt deeper ch) (ch :: t) e u) :
    Reads (primary byScan deeper g) (ch :: t) e u := by
  have hbegin : Begins beginsAtom (ch :: t) := ⟨ch, t, rfl, hch⟩
  refine Reads.gap.bind ?_
  rw [past_begins hbegin.expr]
  refine .get fun c hc => ?_
  have hmore : ¬c.atEnd = true := by
    rw [Cursor.atEnd, hc]
    exact Bool.false_ne_true
  have hpeek : c.peek = ch := by
    rw [Cursor.peek, Cursor.peekAt, hc]
    rfl
  rw [if_neg hmore, hpeek]
  exact h

theorem advance_reads {ch : Char} {t : List Char} : Reads advance (ch :: t) () t := by
  intro c hc
  refine ⟨c.advance, rfl, ?_⟩
  rw [Cursor.rest_advance, hc]
  rfl

/-- A bracket is taken, and what it opens is read one level down. -/
theorem primary_bracket {t u : List Char} {e : Expr}
    (h : Reads (collection byScan (operand byScan levels .lines)) t e u) :
    Reads (primary byScan (below (levels + 1)) g) ('[' :: t) e u :=
  primary_reads (by decide) (advance_reads.bind h)

/-- The same for a parenthesis. -/
theorem primary_parenthesis {t u : List Char} {e : Expr}
    (h : Reads (enclosed (operand byScan levels .lines) ')') t e u) :
    Reads (primary byScan (below (levels + 1)) g) ('(' :: t) e u :=
  primary_reads (by decide) (advance_reads.bind h)

/-- No name begins with a digit. -/
theorem isDigit_of_isNameStart {c : Char} (h : Text.isNameStart c = true) : c.isDigit = false := by
  cases hdigit : c.isDigit with
  | false => rfl
  | true =>
    have hrange : 48 ≤ c.toNat ∧ c.toNat ≤ 57 := by
      simp only [Char.isDigit, Bool.and_eq_true, decide_eq_true_eq] at hdigit
      exact ⟨UInt32.le_iff_toNat_le.mp hdigit.1, UInt32.le_iff_toNat_le.mp hdigit.2⟩
    have hnone : ∀ n < 10, Text.isNameStart (Char.ofNat (48 + n)) = false := by decide
    have hc := hnone (c.toNat - 48) (by omega)
    rw [show 48 + (c.toNat - 48) = c.toNat by omega, Char.ofNat_toNat, h] at hc
    cases hc

/-- **A word** is none of the other things that stand alone. -/
theorem primary_word {word : String} {u : List Char} {e : Expr} (hword : isIdentifier word = true)
    (hrest : ∀ c v, rest = c :: v → Text.isNameChar c = false)
    (h : Reads (nameOrCall deeper word) rest e u) :
    Reads (primary byScan deeper g) (word.toList ++ rest) e u := by
  obtain ⟨ch, more, hchars, hstart, -⟩ := identifier_chars hword
  have hname : Reads (nameHere "an expression") (word.toList ++ rest) word rest :=
    nameHere_reads hword hrest
  -- no mark and no digit begins a name
  have hne : ∀ d, Text.isNameStart d = false → ¬(ch == d) = true := by
    intro d hd heq
    rw [beq_iff_eq.mp heq, hd] at hstart
    cases hstart
  rw [hchars, List.cons_append] at hname ⊢
  refine primary_reads (by simp [beginsAtom, hstart]) ?_
  rw [primaryAt, if_neg (hne '(' (by decide)), if_neg (hne '"' (by decide)),
    if_neg (by rw [isDigit_of_isNameStart hstart]; decide), if_neg (hne '[' (by decide))]
  exact hname.bind h

/-- A word that stands for no literal is a name, or a call if a bracket follows at once. -/
theorem nameOrCall_eq {word : String} (h : isReserved word = false) :
    nameOrCall deeper word = (do
      if ← accept '(' then return .call word (← within deeper fun d => arguments (d .lines))
      else return .var word) := by
  unfold nameOrCall
  split
  · cases h
  · cases h
  · cases h
  · rfl

/-! ## §5. Suffixes -/

/-- An index in brackets. -/
theorem suffix_index {e i : Expr} (h : ReadsInside tight levels i) :
    Reads (suffix (below (levels + 1)) e) ('[' :: (i.text tight ++ ']' :: rest))
      (.again (.index e i)) rest := by
  have hinner : Reads (enclosed (operand byScan levels .lines) ']') (i.text tight ++ ']' :: rest) i
      rest := enclosed_reads (by decide) h
  exact .accepting (hinner.bind .pure)

/-- A member or method behind its dot. -/
theorem suffix_dot {e next : Expr} {optional : Bool} {t u : List Char} (ht : t.head? ≠ some '.')
    (h : Reads (memberOf deeper e optional) t next u) :
    Reads (suffix deeper e) (memberDot optional ++ t) (.again next) u := by
  cases optional with
  | true => exact .passingOther (x := '?') (by decide) (.acceptingText (w := "?.") (h.bind .pure))
  | false =>
    refine .passingOther (x := '.') (by decide) (.passingText rfl (.get fun c hc => ?_))
    have hnext : (c.peekAt 1 != '.') = true := by
      cases t with
      | nil => rw [Cursor.peekAt, hc]; rfl
      | cons x t => simpa [Cursor.peekAt, hc, memberDot] using ht
    rw [if_pos hnext]
    exact .accepting (h.bind .pure)

theorem identifier_head_ne_dot {name : String} {t : List Char} (h : isIdentifier name = true) :
    (name.toList ++ t).head? ≠ some '.' :=
  (begins_identifier h).append.head_ne (by decide)

/-- A member: a name behind its dot, with no bracket behind it. -/
theorem suffix_member {e : Expr} {name : String} {optional : Bool} (hname : isIdentifier name = true)
    (hrest : Boundary rest) :
    Reads (suffix deeper e) (memberDot optional ++ (name.toList ++ rest))
      (.again (.member e name optional)) rest := by
  refine suffix_dot (identifier_head_ne_dot hname) ?_
  have hword : Reads (nameHere "a member name") (name.toList ++ rest) name rest :=
    nameHere_reads hname fun c v hv => (hrest c v hv).1
  refine hword.bind (.passing (fun hhead => ?_) .pure)
  cases rest with
  | nil => cases hhead
  | cons c v =>
    cases hhead
    exact (hrest _ v rfl).2.2.1 rfl

/-- A method: a name behind its dot, with arguments. -/
theorem suffix_method {e : Expr} {name : String} {args : List Expr} {optional : Bool}
    (hname : isIdentifier name = true) (h : ∀ a ∈ args, ReadsInside tight levels a)
    (hbegins : ∀ a ∈ args, Begins beginsExpr (a.text tight)) :
    Reads (suffix (below (levels + 1)) e)
      (memberDot optional ++
        (name.toList ++ '(' :: (commaSeparated (args.map (·.text tight)) ++ ')' :: rest)))
      (.again (.method e name args optional)) rest := by
  refine suffix_dot (identifier_head_ne_dot hname) ?_
  have hword : Reads (nameHere "a member name")
      (name.toList ++ '(' :: (commaSeparated (args.map (·.text tight)) ++ ')' :: rest)) name
      ('(' :: (commaSeparated (args.map (·.text tight)) ++ ')' :: rest)) := by
    refine nameHere_reads hname fun c v hv => ?_
    cases hv
    decide
  have hargs : Reads (arguments (operand byScan levels .lines))
      (commaSeparated (args.map (·.text tight)) ++ ')' :: rest) args rest :=
    arguments_reads h hbegins
  exact hword.bind (.accepting (hargs.bind .pure))

end Scriptlet.Parser
