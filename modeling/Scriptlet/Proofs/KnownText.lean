/-
  Scriptlet.Proofs.KnownText — what readers take from a text that is known.

  `Reads p t a rest` says that the reader `p` takes `a` from the text `t` and leaves `rest`.  For words
  and for joints this depends on what may follow: nothing that the word could go on with (`Boundary`),
  and no joint of a level that the reader still looks for (`Follow`).  A chain of joints is read by a
  loop that carries the expression so far; `Opens` says that the loop has come to an expression with
  a text ahead, so that the left end of a chain can be read first.

  Main results:
    * `Parser.number_reads`, `Parser.string_reads`, `Parser.nameHere_reads` — words.
    * `Parser.chainOperator_some`, `Parser.pairOperator_some` — joints, none taken for another.
    * `Parser.ReadsTo.climb` — an expression without joints of a level, read where they are looked for.
-/
import Scriptlet.Proofs.Printing

namespace Scriptlet.Parser

variable {α β σ : Type}

/-! ## §1. Reading a known text -/

/-- The reader takes `a` from the text and leaves the rest. -/
def Reads (p : Parser α) (t : List Char) (a : α) (rest : List Char) : Prop :=
  ∀ c, c.rest = t → ∃ c', p c = .ok (a, c') ∧ c'.rest = rest

/-- The text past the gap at its front. -/
def past (g : Gap) (t : List Char) : List Char := t.drop (g.length false t)

namespace Reads

variable {p q : Parser α} {t u v : List Char} {a : α}

theorem pure : Reads (pure a) t a t := fun c hc => ⟨c, rfl, hc⟩

/-- What the first reader leaves the second one reads. -/
theorem bind {f : α → Parser β} {b : β} (hp : Reads p t a u) (hf : Reads (f a) u b v) :
    Reads (p >>= f) t b v := by
  intro c hc
  obtain ⟨c', hrun, hc'⟩ := hp c hc
  obtain ⟨c'', hrun', hc''⟩ := hf c' hc'
  exact ⟨c'', bind_eq_ok.mpr ⟨a, c', hrun, hrun'⟩, hc''⟩

theorem get {f : Cursor → Parser β} {b : β} (h : ∀ c, c.rest = t → Reads (f c) t b u) :
    Reads (get >>= f) t b u :=
  fun c hc => h c hc c hc

theorem gap {g : Gap} : Reads (gap g) t () (past g t) := by
  intro c hc
  refine ⟨c.skip g, rfl, ?_⟩
  rw [Cursor.skip, Cursor.rest_advanceBy, hc, past]

/-- What is taken if something stands here. -/
theorem taking {step : Cursor → Option Cursor} {q : Parser α}
    (hstep : ∀ c, c.rest = t → ∃ c', step c = some c' ∧ c'.rest = u) (hp : Reads p u a v) :
    Reads (taking step >>= fun taken => if taken = true then p else q) t a v := by
  refine Reads.bind (a := true) (u := u) ?_ hp
  intro c hc
  obtain ⟨c', hsome, hc'⟩ := hstep c hc
  refine ⟨c', ?_, hc'⟩
  unfold Parser.taking
  refine bind_eq_ok.mpr ⟨c, c, rfl, ?_⟩
  rw [hsome]
  rfl

/-- What is read if nothing stands here. -/
theorem leaving {step : Cursor → Option Cursor} {q : Parser α}
    (hstep : ∀ c, c.rest = t → step c = none) (hq : Reads q t a v) :
    Reads (Parser.taking step >>= fun taken => if taken = true then p else q) t a v := by
  refine Reads.bind (a := false) (u := t) ?_ hq
  intro c hc
  refine ⟨c, ?_, hc⟩
  unfold Parser.taking
  refine bind_eq_ok.mpr ⟨c, c, rfl, ?_⟩
  rw [hstep c hc]
  rfl

/-- The character stands here and is taken. -/
theorem accepting {ch : Char} (hp : Reads p t a v) :
    Reads (accept ch >>= fun taken => if taken = true then p else q) (ch :: t) a v := by
  refine .taking (fun c hc => ⟨c.advance, ?_, ?_⟩) hp
  · simp [Cursor.accept?, Cursor.atEnd, Cursor.peek, Cursor.peekAt, hc]
  · rw [Cursor.rest_advance, hc, List.drop_one, List.tail_cons]

/-- Another character stands here, or none. -/
theorem passing {ch : Char} (h : t.head? ≠ some ch) (hq : Reads q t a v) :
    Reads (accept ch >>= fun taken => if taken = true then p else q) t a v := by
  refine .leaving (fun c hc => ?_) hq
  cases t with
  | nil => simp [Cursor.accept?, Cursor.atEnd, hc]
  | cons x t =>
    have hx : x ≠ ch := by simpa using h
    simp [Cursor.accept?, Cursor.atEnd, Cursor.peek, Cursor.peekAt, hc, hx]

theorem passingOther {ch x : Char} (h : x ≠ ch) (hq : Reads q (x :: t) a v) :
    Reads (accept ch >>= fun taken => if taken = true then p else q) (x :: t) a v :=
  .passing (by simpa using h) hq

theorem sees_append (word t : List Char) : Cursor.sees word (word ++ t) = true := by
  induction word with
  | nil => cases t <;> rfl
  | cons w word ih => simp [Cursor.sees, ih]

/-- The word stands here and is taken, whatever follows. -/
theorem acceptingText {w : String} (hp : Reads p t a v) :
    Reads (acceptText w >>= fun taken => if taken = true then p else q)
      (w.toList ++ t) a v := by
  refine .taking (fun c hc => ⟨c.advanceBy w.length, ?_, ?_⟩) hp
  · simp [Cursor.acceptText?, Cursor.stands, hc, sees_append]
  · rw [Cursor.rest_advanceBy, hc, ← String.length_toList, List.drop_left]

theorem passingText {word : String} (h : Cursor.sees word.toList t = false) (hq : Reads q t a v) :
    Reads (acceptText word >>= fun taken => if taken = true then p else q) t a v := by
  refine .leaving (fun c hc => ?_) hq
  simp [Cursor.acceptText?, Cursor.stands, hc, h]

/-- A bracket or a sign past the gap. -/
theorem expect {g : Gap} {ch : Char} (h : past g t = ch :: u) : Reads (expect g ch) t () u := by
  refine gap.bind ?_
  rw [h]
  exact .accepting .pure

/-- A round that takes something, and the rounds after it. -/
theorem iterate_again {step : σ → Parser (Round σ β)} {s s' : σ} {b : β}
    (hstep : Reads (step s) t (.again s') u) (hless : u.length < t.length)
    (hrest : Reads (iterate step s') u b v) : Reads (iterate step s) t b v := by
  intro c hc
  obtain ⟨c', hrun, hc'⟩ := hstep c hc
  obtain ⟨c'', hrun', hc''⟩ := hrest c' hc'
  refine ⟨c'', ?_, hc''⟩
  rw [iterate, hrun]
  dsimp only
  rw [if_pos (by rw [hc, hc']; exact hless), hrun']

/-- The last round. -/
theorem iterate_done {step : σ → Parser (Round σ β)} {s : σ} {b : β}
    (hstep : Reads (step s) t (.done b) u) : Reads (iterate step s) t b u := by
  intro c hc
  obtain ⟨c', hrun, hc'⟩ := hstep c hc
  refine ⟨c', ?_, hc'⟩
  rw [iterate, hrun]

/-- A literal reads what its scanner takes. -/
theorem literal {read : Cursor → Except Error α × Cursor}
    (h : ∀ c, c.rest = t → ∃ c', read c = (.ok a, c') ∧ c'.rest = u) : Reads (literal read) t a u := by
  intro c hc
  obtain ⟨c', hread, hc'⟩ := h c hc
  refine ⟨c', bind_eq_ok.mpr ⟨c, c, rfl, ?_⟩, hc'⟩
  rw [hread]
  rfl

end Reads

/-! ## §2. Words -/

/-- What may follow a word: nothing that the word could go on with. -/
def Boundary (t : List Char) : Prop :=
  ∀ c u, t = c :: u → Text.isNameChar c = false ∧ c.isDigit = false ∧ c ≠ '(' ∧
    (c = '.' → ∀ d v, u = d :: v → d.isDigit = false)

theorem boundary_cons {c : Char} {t : List Char} (hname : Text.isNameChar c = false)
    (hdigit : c.isDigit = false) (hcall : c ≠ '(')
    (hpoint : c = '.' → ∀ d u, t = d :: u → d.isDigit = false) : Boundary (c :: t) := by
  intro d u hd
  cases hd
  exact ⟨hname, hdigit, hcall, hpoint⟩

/-- No word goes on with such a mark. -/
theorem boundary_mark {c : Char} {t : List Char} (hname : Text.isNameChar c = false)
    (hdigit : c.isDigit = false) (hcall : c ≠ '(') (hpoint : c ≠ '.') : Boundary (c :: t) :=
  boundary_cons hname hdigit hcall fun hc => absurd hc hpoint

/-- A word ends where the class of its characters ends. -/
theorem takeWhile_append {f : Char → Bool} {word rest : List Char} (hword : ∀ c ∈ word, f c = true)
    (hrest : ∀ c u, rest = c :: u → f c = false) : (word ++ rest).takeWhile f = word := by
  rw [List.takeWhile_append_of_pos hword]
  cases rest with
  | nil => rw [List.takeWhile_nil, List.append_nil]
  | cons c u =>
    have hc : ¬f c = true := Bool.eq_false_iff.mp (hrest c u rfl)
    rw [List.takeWhile_cons_of_neg hc, List.append_nil]

/-- **A name** is read up to the first character that cannot stand in one. -/
theorem nameHere_reads {what word : String} {rest : List Char} (hword : isIdentifier word = true)
    (hrest : ∀ c u, rest = c :: u → Text.isNameChar c = false) :
    Reads (nameHere what) (word.toList ++ rest) word rest := by
  obtain ⟨ch, more, hchars, hstart, hall⟩ := identifier_chars hword
  refine .get fun c hc => ?_
  -- the scanner takes the whole word, as it takes the longest text of the class
  have hname : c.name? = some (word, c.advanceBy word.toList.length) := by
    have hpeek : c.peek = ch := by rw [Cursor.peek, Cursor.peekAt, hc, hchars]; rfl
    rw [Cursor.name?, hpeek, if_pos hstart, hc,
      takeWhile_append (by rw [hchars]; exact hall) hrest]
    dsimp only
    rw [String.ofList_toList]
  rw [hname]
  intro d _
  refine ⟨c.advanceBy word.toList.length, rfl, ?_⟩
  rw [Cursor.rest_advanceBy, hc, List.drop_left]

/-- Resolving the backslashes of a quoted text gives the text, and the place behind its closing
    quote. -/
theorem quotedBody_escaped (body rest : List Char) :
    quotedBody (escaped body ++ '"' :: rest) = some (body, (escaped body).length + 1) := by
  induction body with
  | nil =>
    rw [escaped, List.nil_append, quotedBody.eq_def]
    rfl
  | cons c body ih =>
    rw [escaped]
    split
    -- a quote or a backslash: it stands for itself behind a backslash
    · rename_i hspecial
      rw [List.cons_append, List.cons_append, quotedBody.eq_def]
      simp only [ih, Option.map_some, List.length_cons]
      have hunescape : unescape c = [c] := by
        rcases Bool.or_eq_true _ _ ▸ hspecial with h | h <;> rw [beq_iff_eq.mp h] <;> rfl
      rw [hunescape]
      rfl
    · rename_i hplain
      simp only [Bool.or_eq_true, not_or] at hplain
      rw [List.cons_append, quotedBody.eq_def]
      simp only [if_neg hplain.1, if_neg hplain.2, ih, Option.map_some, List.length_cons]

/-- A quoted text is scanned as what it quotes, whatever follows. -/
theorem string_quoted {c : Cursor} {s : String} {rest : List Char} (h : c.rest = quoted s ++ rest) :
    c.string = (.ok s, c.advanceBy (quoted s).length) := by
  have htail : c.rest.tail = escaped s.toList ++ '"' :: rest := by
    rw [h, quoted, List.append_assoc]
    rfl
  rw [Cursor.string, if_pos (by rw [h]; rfl), htail, quotedBody_escaped]
  simp only [String.ofList_toList, quoted, List.cons_append, List.length_cons, List.length_append,
    List.length_nil]

/-- **A string** is read up to the quote that closes it. -/
theorem string_reads {s : String} {rest : List Char} :
    Reads (literal Cursor.string) (quoted s ++ rest) s rest := by
  refine .literal fun c hc => ⟨c.advanceBy (quoted s).length, string_quoted hc, ?_⟩
  rw [Cursor.rest_advanceBy, hc, List.drop_left]

theorem digitsValue_toDigits (n : Nat) : Number.Decimal.digitsValue (Nat.toDigits 10 n) = n := by
  exact Nat.ofDigitChars_toDigits (by decide) (by decide)

theorem isDigit_toDigits {n : Nat} {c : Char} (h : c ∈ Nat.toDigits 10 n) : c.isDigit = true :=
  Nat.isDigit_of_mem_toDigits (by decide) (by decide) h

/-- The digits of a number are read as the number. -/
theorem natural?_toDigits (n : Nat) : Number.Decimal.natural? (Nat.toDigits 10 n) = some n := by
  have hall : (Nat.toDigits 10 n).all Char.isDigit = true :=
    List.all_eq_true.mpr fun c hc => isDigit_toDigits hc
  have hsome : (Nat.toDigits 10 n).isEmpty = false := by simp
  rw [Number.Decimal.natural?, hall, hsome, digitsValue_toDigits]
  rfl

/-- A text that begins with a digit has no sign. -/
theorem splitSign_of_digit {t : List Char} (h : ∀ c u, t = c :: u → c.isDigit = true) :
    Number.Decimal.splitSign t = (false, t) := by
  unfold Number.Decimal.splitSign
  split
  · cases h '-' _ rfl
  · cases h '+' _ rfl
  · rfl

theorem splitSign_digits {ds : List Char} (h : ∀ c ∈ ds, c.isDigit = true) :
    Number.Decimal.splitSign ds = (false, ds) :=
  splitSign_of_digit fun c _ heq => h c (heq ▸ List.mem_cons_self)

theorem integer?_toDigits (n : Nat) :
    Number.Decimal.integer? (Nat.toDigits 10 n) = some (n : Int) := by
  rw [Number.Decimal.integer?, splitSign_digits fun _ hc => isDigit_toDigits hc]
  dsimp only
  rw [natural?_toDigits]
  rfl

/-- The digits of a word that is not negative are read as the word. -/
theorem word?_toDigits {n : Int64} (h : 0 ≤ n.toInt) :
    Number.Decimal.word? (Nat.toDigits 10 n.toInt.toNat) = some n := by
  have hlow := n.minValue_le_toInt
  have hhigh := n.toInt_le
  rw [Number.Decimal.word?, integer?_toDigits, Option.bind_some, Int.toNat_of_nonneg h,
    Number.Word.ofInt?, if_pos ⟨hlow, hhigh⟩, Int64.ofInt_toInt]

/-- Digits that go on with no digit and with no point before a digit are a number by themselves. -/
theorem number_digits {c : Cursor} {ds after : List Char} (h : c.rest = ds ++ after)
    (hds : ∀ d ∈ ds, d.isDigit = true) (hafter : ∀ d u, after = d :: u → d.isDigit = false)
    (hpoint : ∀ d u, after = '.' :: d :: u → d.isDigit = false) :
    c.number = ((Number.Decimal.word? ds).elim (.error (.invalidNumber (String.ofList ds)))
      fun n => .ok (.int n), c.advanceBy ds.length) := by
  have hwhole : c.rest.takeWhile Char.isDigit = ds := by
    rw [h]
    exact takeWhile_append hds hafter
  have hrest : c.rest.drop ds.length = after := by rw [h, List.drop_left]
  -- there is no fraction: no dot follows, or no digit behind it
  have hfraction :
      (if after.head? == some '.' then after.tail.takeWhile Char.isDigit else []) = [] := by
    cases after with
    | nil => rfl
    | cons d u =>
      by_cases hd : d = '.'
      · cases u with
        | nil => simp
        | cons x v => simp [hpoint x v (by rw [hd])]
      · simp [hd]
  unfold Cursor.number
  simp only [hwhole, hrest, hfraction, List.isEmpty_nil, if_true]
  cases Number.Decimal.word? ds <;> rfl

/-- **An integer** is read with all its digits and no more. -/
theorem number_reads {n : Int64} (h : 0 ≤ n.toInt) {rest : List Char} (hrest : Boundary rest) :
    Reads (literal Cursor.number) ((Number.Word.text n).toList ++ rest) (.int n) rest := by
  rw [word_text_digits h]
  refine .literal fun c hc => ⟨c.advanceBy (Nat.toDigits 10 n.toInt.toNat).length, ?_, ?_⟩
  · rw [number_digits hc (fun _ hd => isDigit_toDigits hd) (fun d u hd => (hrest d u hd).2.1)
      fun d u hd => (hrest '.' (d :: u) hd).2.2.2 rfl d u rfl, word?_toDigits h]
    rfl
  · rw [Cursor.rest_advanceBy, hc, List.drop_left]

/-! ## §3. Joints -/

/-- The operators of a level that associates. -/
def chainOperator : (tier : Nat) → Parser (Option BinaryOp)
  | 0 => productOperator
  | 1 => sumOperator
  | 4 => wordOperator "&&" .and
  | _ => wordOperator "||" .or

/-- The joints of a level that does not. -/
def pairOperator : (tier : Nat) → Parser (Option (Expr → Expr → Expr))
  | 2 => rangeOperator
  | _ => comparisonOperator

/-- Operands joined at a level. -/
def joined (g : Gap) (tier : Nat) (next : Parser Expr) : Parser Expr :=
  if chains tier then leftChain g (chainOperator tier) next else pair g (pairOperator tier) next

/-- The reader of expressions with joints of the first so many levels. -/
def reader (g : Gap) (operand : Parser Expr) : Nat → Parser Expr
  | 0 => operand
  | k + 1 => joined g k (reader g operand k)

/-- The grammar's levels one by one, as one reader over the number of levels. -/
theorem exprOf_eq_reader (g : Gap) (operand : Parser Expr) :
    exprOf g operand = reader g operand 6 := rfl

/-- The level of the joints that begin with the character. -/
def jointTier (c : Char) : Option Nat :=
  if c == '*' || c == '/' || c == '%' then some 0
  else if c == '+' || c == '-' then some 1
  else if c == '.' then some 2
  else if c == '=' || c == '!' || c == '<' || c == '>' then some 3
  else if c == '&' then some 4
  else if c == '|' then some 5
  else none

/-- No joint of this level stands at the front. -/
def NoJoint (tier : Nat) (t : List Char) : Prop := ∀ c, t.head? = some c → jointTier c ≠ some tier

/-- The character after a joint may not make it a longer one. -/
def EndsJoint (t : List Char) : Prop := ∀ c, t.head? = some c → c ≠ '<' ∧ c ≠ '=' ∧ c ≠ '>'

/-- No character that begins a joint of the level stands here. -/
theorem NoJoint.head_ne {tier : Nat} {t : List Char} (h : NoJoint tier t) {ch : Char}
    (hch : jointTier ch = some tier) : t.head? ≠ some ch := fun hhead => h ch hhead hch

/-- A word does not stand where its first character does not. -/
theorem sees_eq_false {w : Char} {word t : List Char} (hw : w ≠ Cursor.pastEnd)
    (h : t.head? ≠ some w) : Cursor.sees (w :: word) t = false := by
  cases t with
  | nil => simp [Cursor.sees, hw]
  | cons x t =>
    have hx : w ≠ x := by simpa using Ne.symm h
    simp [Cursor.sees, hx]

/-- Where no joint of the level stands, its operators take nothing. -/
theorem chainOperator_none {k : Nat} {t : List Char} (hk : k ≤ 5) (hchains : chains k = true)
    (h : NoJoint k t) : Reads (chainOperator k) t none t := by
  -- the two operators that are words
  have hword : ∀ {word : String} {op : BinaryOp} {w : Char} {ws : List Char},
      word.toList = w :: ws → w ≠ Cursor.pastEnd → jointTier w = some k →
      Reads (wordOperator word op) t none t := by
    intro word op w ws heq hw htier
    rw [wordOperator, bind_bool]
    exact .passingText (by rw [heq]; exact sees_eq_false hw (h.head_ne htier)) .pure
  have hpairs : k ≠ 2 ∧ k ≠ 3 := by
    simpa only [chains, Bool.and_eq_true, bne_iff_ne] using hchains
  obtain rfl | rfl | rfl | rfl : k = 0 ∨ k = 1 ∨ k = 4 ∨ k = 5 := by omega
  -- products, then sums, whose minus is none before a `>`
  · exact .passing (h.head_ne rfl) <| .passing (h.head_ne rfl) <| .passing (h.head_ne rfl) .pure
  · refine .passing (h.head_ne rfl) (.get fun c hc => ?_)
    split
    · exact .passing (h.head_ne rfl) .pure
    · exact .pure
  · exact hword (w := '&') rfl (by decide) rfl
  · exact hword (w := '|') rfl (by decide) rfl

/-- The same for the levels that do not associate. -/
theorem pairOperator_none {k : Nat} {t : List Char} (hpairs : chains k = false)
    (h : NoJoint k t) : Reads (pairOperator k) t none t := by
  have hsees : ∀ {w : Char} {ws : List Char}, w ≠ Cursor.pastEnd → jointTier w = some k →
      Cursor.sees (w :: ws) t = false := fun hw htier => sees_eq_false hw (h.head_ne htier)
  obtain rfl | rfl : k = 2 ∨ k = 3 := by
    simpa only [chains, Bool.and_eq_false_iff, bne_eq_false_iff_eq] using hpairs
  · exact .passingText (hsees (w := '.') (by decide) rfl) .pure
  · refine .passingText (hsees (w := '=') (by decide) rfl) <|
      .passingText (hsees (w := '!') (by decide) rfl) <|
      .passingText (hsees (w := '<') (by decide) rfl) <|
      .passingText (hsees (w := '>') (by decide) rfl) ?_
    exact .passing (h.head_ne rfl) <| .passing (h.head_ne rfl) .pure

/-- **An operator that stands here is taken**, and not a shorter one of its level. -/
theorem chainOperator_some {op : BinaryOp} {u : List Char}
    (hchains : chains (Infix.operator op).tier = true) (hu : EndsJoint u) :
    Reads (chainOperator (Infix.operator op).tier) ((Infix.operator op).symbol ++ u) (some op) u := by
  cases op with
  | mul => exact .accepting .pure
  | div => exact .passingOther (x := '/') (by decide) (.accepting .pure)
  | mod =>
    exact .passingOther (x := '%') (by decide) <| .passingOther (by decide) (.accepting .pure)
  | add => exact .accepting .pure
  | sub =>
    refine .passingOther (x := '-') (by decide) (.get fun c hc => ?_)
    -- the minus does not begin an arrow
    have harrow : (c.peekAt 1 != '>') = true := by
      cases u with
      | nil => rw [Cursor.peekAt, hc]; rfl
      | cons x u => simpa [Cursor.peekAt, hc, Infix.symbol, BinaryOp.symbol] using (hu x rfl).2.2
    rw [if_pos harrow]
    exact .accepting .pure
  | and =>
    show Reads (wordOperator "&&" .and) _ _ _
    rw [wordOperator, bind_bool]
    exact .acceptingText .pure
  | or =>
    show Reads (wordOperator "||" .or) _ _ _
    rw [wordOperator, bind_bool]
    exact .acceptingText .pure
  | eq | ne | lt | gt | le | ge => cases hchains

/-- **A joint that does not associate is taken**, and not a shorter one of its level. -/
theorem pairOperator_some {i : Infix} {u : List Char} (hpairs : chains i.tier = false)
    (hu : EndsJoint u) : Reads (pairOperator i.tier) (i.symbol ++ u) (some i.make) u := by
  -- `<` and `>` are looked for after `<=` and `>=`, which are not there
  have hequal : ∀ w : Char, Cursor.sees [w, '='] (w :: u) = false := by
    intro w
    have hhead : u.head? ≠ some '=' := fun h => (hu '=' h).2.1 rfl
    rw [Cursor.sees, sees_eq_false (by decide) hhead, Bool.and_false]
  cases i with
  | dots inclusive =>
    cases inclusive with
    | true =>
      refine .acceptingText (w := "..") ?_
      rw [bind_bool]
      exact .passing (fun h => (hu '<' h).1 rfl) .pure
    | false =>
      refine Reads.acceptingText (w := "..") (t := '<' :: u) ?_
      rw [bind_bool]
      exact .accepting .pure
  | operator op =>
    cases op with
    | eq => exact .acceptingText .pure
    | ne => exact .passingText rfl (.acceptingText .pure)
    | le => exact .passingText rfl <| .passingText rfl (.acceptingText .pure)
    | ge => exact .passingText rfl <| .passingText rfl <| .passingText rfl (.acceptingText .pure)
    | lt =>
      exact .passingText rfl <| .passingText rfl <| .passingText (hequal '<') <|
        .passingText rfl (.accepting .pure)
    | gt =>
      exact .passingText rfl <| .passingText rfl <| .passingText rfl <|
        .passingText (hequal '>') <| .passingOther (x := '>') (by decide) (.accepting .pure)
    | add | sub | mul | div | mod | and | or => cases hpairs

/-! ## §4. What may follow -/

/-- What may follow an expression where joints of the first so many levels are still looked for. -/
inductive Follow (tight : Bool) (k : Nat) : List Char → Prop where
  | nothing : Follow tight k []
  | closing {c : Char} {t : List Char} (h : c ∈ [')', ']', ',', ':']) : Follow tight k (c :: t)
  | joint {t : List Char} (i : Infix) (h : k ≤ i.tier) : Follow tight k (i.written tight ++ t)

variable {g : Gap} {tight : Bool}

/-- Past a gap there is no other gap. -/
theorem past_past (t : List Char) : past g (past g t) = past g t := by
  have hlength := length_after_gap g false t
  rw [past, past, hlength, List.drop_zero]

theorem length_past_le (t : List Char) : (past g t).length ≤ t.length := by
  rw [past, List.length_drop]
  omega

/-- A text whose first character cannot stand in a gap has none at its front. -/
theorem past_cons {f : Char → Bool}
    (hf : [' ', '\t', '\r', '\n', ';', '#', '/'].all (fun c => !f c) = true)
    {c : Char} {t : List Char} (h : f c = true) : past g (c :: t) = c :: t := by
  have hne : ∀ d ∈ [' ', '\t', '\r', '\n', ';', '#', '/'], c ≠ d := by
    rintro d hd rfl
    have hnot := List.all_eq_true.mp hf c hd
    rw [h] at hnot
    cases hnot
  simp only [List.mem_cons, List.not_mem_nil, or_false, forall_eq_or_imp, forall_eq] at hne
  have hadmits : g.admits c = false := by cases g <;> simp [Gap.admits, hne]
  have hopens : opensComment c t = false := by simp [opensComment, hne]
  rw [past, Gap.length, hadmits, hopens]
  rfl

/-- No expression begins with a gap. -/
theorem past_begins {t : List Char} (h : Begins beginsExpr t) : past g t = t := by
  obtain ⟨c, rest, rfl, hc⟩ := h
  exact past_cons (f := beginsExpr) (by decide) hc

theorem past_closing {c : Char} {t : List Char} (h : c ∈ [')', ']', ',', ':']) :
    past g (c :: t) = c :: t :=
  past_cons (f := fun c => [')', ']', ',', ':'].contains c) (by decide) (by simpa using h)

/-- A joint stands past the blank before it. -/
theorem past_written (g : Gap) (tight : Bool) (i : Infix) (t : List Char) :
    ∃ u, past g (i.written tight ++ t) = i.symbol ++ u ∧ (u = t ∨ u = ' ' :: t) := by
  cases i with
  | operator op => exact ⟨' ' :: t, by cases g <;> cases op <;> rfl, .inr rfl⟩
  | dots inclusive =>
    cases tight with
    | true => exact ⟨t, by cases g <;> cases inclusive <;> rfl, .inl rfl⟩
    | false => exact ⟨' ' :: t, by cases g <;> cases inclusive <;> rfl, .inr rfl⟩

/-- The first character of a joint tells its level. -/
theorem jointTier_symbol (i : Infix) :
    ∃ c t, i.symbol = c :: t ∧ jointTier c = some i.tier := by
  cases i with
  | operator op => cases op <;> exact ⟨_, _, rfl, rfl⟩
  | dots inclusive => cases inclusive <;> exact ⟨_, _, rfl, rfl⟩

namespace Follow

variable {j k : Nat} {t : List Char}

/-- Where more levels are looked for, less may follow. -/
theorem mono (hjk : j ≤ k) (h : Follow tight k t) : Follow tight j t := by
  cases h with
  | nothing => exact .nothing
  | closing h => exact .closing h
  | joint i h => exact .joint i (Nat.le_trans hjk h)

/-- What may follow has no joint of the levels that are looked for. -/
theorem noJoint (h : Follow tight (k + 1) t) : NoJoint k (past g t) := by
  intro c hhead
  cases h with
  | nothing => cases hhead
  | closing h =>
    rw [past_closing h] at hhead
    cases hhead
    simp only [List.mem_cons, List.not_mem_nil, or_false] at h
    rcases h with rfl | rfl | rfl | rfl <;> simp [jointTier]
  | joint i h =>
    rename_i rest
    -- the joint is of a level from `k + 1` on, and its first character tells
    obtain ⟨u, hpast, -⟩ := past_written g tight i rest
    obtain ⟨ch, more, hsymbol, htier⟩ := jointTier_symbol i
    rw [hpast, hsymbol] at hhead
    cases hhead
    rw [htier]
    intro heq
    cases heq
    omega

/-- What may follow an expression may follow its last word. -/
theorem boundary (h : Follow tight k t) : Boundary t := by
  cases h with
  | nothing =>
    intro c u hnil
    cases hnil
  | closing h =>
    simp only [List.mem_cons, List.not_mem_nil, or_false] at h
    rcases h with rfl | rfl | rfl | rfl <;>
      exact boundary_mark (by decide) (by decide) (by decide) (by decide)
  | joint i h =>
    rename_i rest
    -- a joint begins with a blank, or it is two dots
    have hblank : ∀ u, Boundary (' ' :: u) := fun u =>
      boundary_mark (by decide) (by decide) (by decide) (by decide)
    have hdots : ∀ u, Boundary ('.' :: '.' :: u) := fun u =>
      boundary_cons (by decide) (by decide) (by decide) fun _ d v hd => by cases hd; rfl
    cases i with
    | operator op => exact hblank _
    | dots inclusive =>
      cases tight with
      | true => cases inclusive <;> exact hdots _
      | false => exact hblank _

end Follow

/-! ## §5. Expressions over operands -/

/-- The reader takes `a` from the text, and leaves the rest or what of it is past the gap. -/
def ReadsTo (g : Gap) (p : Parser α) (t : List Char) (a : α) (rest : List Char) : Prop :=
  ∃ u, Reads p t a u ∧ past g u = past g rest ∧ u.length ≤ rest.length

theorem Reads.readsTo {p : Parser α} {t rest : List Char} {a : α} (h : Reads p t a rest) :
    ReadsTo g p t a rest := ⟨rest, h, rfl, Nat.le_refl _⟩

theorem Reads.readsTo_past {p : Parser α} {t rest : List Char} {a : α}
    (h : Reads p t a (past g rest)) : ReadsTo g p t a rest :=
  ⟨past g rest, h, past_past rest, length_past_le rest⟩

section Joined

variable {next : Parser Expr} {t u rest : List Char} {e left right : Expr}

section Chain

variable {operator : Parser (Option BinaryOp)}

/-- The chain comes, from the text, to have the expression on its left and this text ahead. -/
def Opens (g : Gap) (operator : Parser (Option BinaryOp)) (next : Parser Expr) (t : List Char)
    (e : Expr) (ahead : List Char) : Prop :=
  ∀ b u, (∀ v, past g v = ahead → Reads (iterate (leftChain.step g operator next) e) v b u) →
    Reads (leftChain g operator next) t b u

/-- The chain begins with its first operand. -/
theorem Opens.first (h : ReadsTo g next t e rest) : Opens g operator next t e (past g rest) := by
  obtain ⟨v, hread, hpast, -⟩ := h
  intro b u hloop
  exact hread.bind (hloop v hpast)

/-- An operator and an operand more; the expression so far becomes the left one. -/
theorem Opens.more {op : BinaryOp} {ahead : List Char} (h : Opens g operator next t left ahead)
    (hop : Reads operator ahead (some op) u) (hright : ReadsTo g next u right rest)
    (hless : rest.length < ahead.length) :
    Opens g operator next t (.binary op left right) (past g rest) := by
  obtain ⟨w, hread, hpast, hw⟩ := hright
  intro b u hloop
  refine h b u fun v hv => ?_
  have hlength : ahead.length ≤ v.length := hv ▸ length_past_le v
  refine Reads.iterate_again (Reads.gap.bind ?_) (by omega) (hloop w hpast)
  rw [hv]
  exact hop.bind (hread.bind .pure)

/-- The chain ends where no operator of its level stands. -/
theorem Opens.done {ahead : List Char} (h : Opens g operator next t e ahead)
    (hop : Reads operator ahead none ahead) : Reads (leftChain g operator next) t e ahead := by
  refine h e ahead fun v hv => Reads.iterate_done (Reads.gap.bind ?_)
  rw [hv]
  exact hop.bind .pure

end Chain

variable {join : Parser (Option (Expr → Expr → Expr))}

/-- One operand, and no joint behind it. -/
theorem pair_alone (h : ReadsTo g next t e rest)
    (hjoin : Reads join (past g rest) none (past g rest)) : ReadsTo g (pair g join next) t e rest := by
  obtain ⟨v, hread, hpast, -⟩ := h
  refine Reads.readsTo_past (hread.bind (Reads.gap.bind ?_))
  rw [hpast]
  exact hjoin.bind .pure

/-- Two operands with a joint between them. -/
theorem pair_both {make : Expr → Expr → Expr} {middle : List Char}
    (hleft : ReadsTo g next t left middle) (hjoin : Reads join (past g middle) (some make) u)
    (hright : ReadsTo g next u right rest) :
    ReadsTo g (pair g join next) t (make left right) rest := by
  obtain ⟨v, hread, hpast, -⟩ := hleft
  obtain ⟨w, hread', hpast', hw⟩ := hright
  refine ⟨w, hread.bind (Reads.gap.bind ?_), hpast', hw⟩
  rw [hpast]
  exact hjoin.bind (hread'.bind .pure)

/-- What is read without joints of a level is read by the reader that looks for them too, if none
    stands past the gap. -/
theorem ReadsTo.climb_noJoint {p : Parser Expr} {k : Nat} (hk : k ≤ 5)
    (h : ReadsTo g (reader g p k) t e rest) (hnone : NoJoint k (past g rest)) :
    ReadsTo g (reader g p (k + 1)) t e rest := by
  rw [reader, joined]
  cases hchains : chains k with
  | true =>
    rw [if_pos rfl]
    exact ((Opens.first h).done (chainOperator_none hk hchains hnone)).readsTo_past
  | false =>
    rw [if_neg (by decide)]
    exact pair_alone h (pairOperator_none hchains hnone)

/-- What is read without joints of a level is read by the reader that looks for them too, if none
    follows. -/
theorem ReadsTo.climb {p : Parser Expr} {k : Nat} (hk : k ≤ 5)
    (h : ReadsTo g (reader g p k) t e rest) (hrest : Follow tight (k + 1) rest) :
    ReadsTo g (reader g p (k + 1)) t e rest :=
  h.climb_noJoint hk hrest.noJoint

end Joined

/-- What is done alike at two places is done alike there before anything else. -/
theorem bind_alike {p : Parser α} {f : α → Parser β} {c c' : Cursor} (h : p c = p c') :
    (p >>= f) c = (p >>= f) c' := by
  show (p c).bind _ = (p c').bind _
  rw [h]

/-- Expressions are read alike at two places where their operands are. -/
theorem reader_alike {p : Parser Expr} {c c' : Cursor} (h : p c = p c') (k : Nat) :
    reader g p k c = reader g p k c' := by
  induction k with
  | zero => exact h
  | succ k ih =>
    rw [Parser.reader, joined]
    split
    · exact bind_alike ih
    · exact bind_alike ih

/-- A reader that does not heed a blank at the front. -/
def SkipsBlank (p : Parser α) : Prop := ∀ c t, c.rest = ' ' :: t → p c = p c.advance

/-- A reader that begins with a gap skips a blank with it. -/
theorem SkipsBlank.gap {f : Unit → Parser α} : SkipsBlank (gap g >>= f) := by
  intro c t hc
  have hskip : c.skip g = c.advance.skip g := by
    have hlength : g.length false (' ' :: t) = g.length false t + 1 := by cases g <;> rfl
    rw [Cursor.skip, Cursor.skip, Cursor.rest_advance, hc, hlength]
    rfl
  show f () (c.skip g) = f () (c.advance.skip g)
  rw [hskip]

theorem SkipsBlank.reads {p : Parser α} {t u : List Char} {a : α} (h : SkipsBlank p)
    (hread : Reads p t a u) : Reads p (' ' :: t) a u := by
  intro c hc
  rw [h c t hc]
  exact hread c.advance (by rw [Cursor.rest_advance, hc]; rfl)

/-- Joints between operands change nothing at the front. -/
theorem SkipsBlank.reader {p : Parser Expr} (h : SkipsBlank p) (k : Nat) :
    SkipsBlank (reader g p k) := fun c t hc => reader_alike (h c t hc) k

theorem SkipsBlank.readsTo {p : Parser α} {t rest : List Char} {a : α} (h : SkipsBlank p)
    (hread : ReadsTo g p t a rest) : ReadsTo g p (' ' :: t) a rest := by
  obtain ⟨u, hu, hpast, hlength⟩ := hread
  exact ⟨u, h.reads hu, hpast, hlength⟩

end Scriptlet.Parser
