/-
  Scriptlet.Proofs.Alignment — one text read in two places.

  `Seam.Carries` says of readers on the two sides of a seam that they keep the sides aligned: whatever
  the left one reads, the right one reads too.  If nothing follows the text, the right one also fails
  where the left one does, with the same error so many lines further down.

  The lookahead into collections is the one step that sees more than it reads.  It may run past the seam;
  but then the left reader finds no end of the collection and fails.

  Main results:
    * `Seam.scan_append` — the lookahead has come to a decision where entries are read.
    * `Seam.ty_through`, `Seam.expr_through` — types and expressions.
-/
import Scriptlet.Proofs.Lookahead
import Scriptlet.Proofs.Seam

namespace Scriptlet

/-! ## §1. Readers on both sides -/

/-- The error with its line, if it has one, so many lines further down. -/
def Error.downBy (lines : Nat) : Error → Error
  | .malformed line column reason => .malformed (line + lines) column reason
  | e => e

namespace Seam

variable {α β σ : Type} {S : Seam} {c d : Cursor}

/-- The outcome on the right is that on the left; if more text follows, a failure on the left says
    nothing. -/
inductive Carried (S : Seam) : Except Error (α × Cursor) → Except Error (α × Cursor) → Prop where
  | ok {a : α} {c d : Cursor} (h : S.Aligned c d) : Carried S (.ok (a, c)) (.ok (a, d))
  | failed {e : Error} : Carried S (.error e) (.error (e.downBy S.below))
  | cut {e : Error} {y : Except Error (α × Cursor)} (h : S.tail ≠ []) : Carried S (.error e) y

/-- Wherever the sides are aligned, what the left reader does the right one does. -/
def Carries (S : Seam) (p q : Parser α) : Prop := ∀ c d, S.Aligned c d → S.Carried (p c) (q d)

/-- The reader does the same on both sides. -/
abbrev Through (S : Seam) (p : Parser α) : Prop := S.Carries p p

namespace Carries

variable {p q : Parser α}

theorem pure (a : α) : S.Through (pure a : Parser α) := fun _ _ h => .ok h

/-- A reading that goes on from one pair of places. -/
theorem bindAt {f g : α → Parser β} (hp : S.Carried (p c) (q d))
    (hf : ∀ a, S.Carries (f a) (g a)) : S.Carried ((p >>= f) c) ((q >>= g) d) := by
  show S.Carried ((p c).bind fun x => f x.1 x.2) ((q d).bind fun x => g x.1 x.2)
  generalize p c = x at hp
  generalize q d = y at hp
  cases hp with
  | ok h => exact hf _ _ _ h
  | failed => exact .failed
  | cut hmore => exact .cut hmore

/-- What the left reader reads first the right one does, and they go on from aligned places. -/
theorem bind {f g : α → Parser β} (hp : S.Carries p q) (hf : ∀ a, S.Carries (f a) (g a)) :
    S.Carries (p >>= f) (q >>= g) := fun c d h => bindAt (hp c d h) hf

theorem map {f : α → β} (hp : S.Carries p q) : S.Carries (f <$> p) (f <$> q) :=
  bind (f := fun a => Pure.pure (f a)) (g := fun a => Pure.pure (f a)) hp fun _ => pure _

/-- Looking at the place, on each side its own. -/
theorem get {f g : Cursor → Parser β} (hf : ∀ c d, S.Aligned c d → S.Carries (f c) (g d)) :
    S.Carries (MonadState.get >>= f) (MonadState.get >>= g) := fun c d h => hf c d h c d h

/-- Going back to places that were aligned. -/
theorem set (h : S.Aligned c d) {f g : Unit → Parser β} (hf : S.Carries (f ()) (g ())) :
    S.Carries (MonadStateOf.set c >>= f) (MonadStateOf.set d >>= g) := fun _ _ _ => hf c d h

/-- Failing with an error that depends on the place. -/
theorem throw {error error' : Error} (h : S.tail = [] → error' = error.downBy S.below) :
    S.Carries (throw error : Parser α) (throw error') := by
  intro c d _
  by_cases hend : S.tail = []
  · show S.Carried (.error error) (.error error')
    rw [h hend]
    exact .failed
  · exact .cut hend

/-- A gap that line ends may be part of, but no semicolons, ends in aligned places. -/
theorem gap {g : Gap} (hg : g ≠ .separators) {f f' : Unit → Parser β}
    (hf : S.Carries (f ()) (f' ())) : S.Carries (Parser.gap g >>= f) (Parser.gap g >>= f') :=
  fun _ _ h => hf _ _ (h.skip hg)

/-- What may be taken here, and what follows in either case. -/
theorem taking {step : Cursor → Option Cursor} (hstep : S.Matches step) {f g : Bool → Parser β}
    (hyes : S.Carries (f true) (g true)) (hno : S.Carries (f false) (g false)) :
    S.Carries (Parser.taking step >>= f) (Parser.taking step >>= g) := by
  have htaking : S.Through (Parser.taking step) := by
    intro c d h
    rcases hstep c d h with ⟨hc, hd⟩ | ⟨c', d', hc, hd, h'⟩
    -- nothing stands here on either side
    · rw [Parser.taking_of_none hc, Parser.taking_of_none hd]
      exact .ok h
    -- it stands here on both, and is taken on both
    · rw [Parser.taking_of_some hc, Parser.taking_of_some hd]
      exact .ok h'
  apply htaking.bind
  intro taken
  cases taken with
  | true => exact hyes
  | false => exact hno

end Carries

/-- The place on the right is so many lines further down. -/
theorem malformed_downBy (h : S.Level c d) (reason : String) :
    d.malformed reason = (c.malformed reason).downBy S.below := by
  unfold Cursor.malformed Error.downBy
  rw [h.line, h.column]

/-- Where nothing follows the text both sides meet the same character, or both the end. -/
theorem unexpected_downBy (h : S.Level c d) (hend : S.tail = []) (expected : String) :
    d.unexpected expected = (c.unexpected expected).downBy S.below := by
  -- without more text both have the same ahead
  have hrest : d.rest = c.rest := by
    rw [h.rest, hend, List.append_nil]
  have hatEnd : d.atEnd = c.atEnd := by
    unfold Cursor.atEnd
    rw [hrest]
  have hpeek : d.peek = c.peek := by
    unfold Cursor.peek Cursor.peekAt
    rw [hrest]
  unfold Cursor.unexpected
  rw [hatEnd, hpeek]
  by_cases hc : c.atEnd = true
  · rw [if_pos hc, if_pos hc]
    rfl
  · rw [if_neg hc, if_neg hc]
    exact malformed_downBy h _

/-- What is unexpected on the left is so on the right, or the left is cut off. -/
theorem unexpected_through (expected : String) : S.Through (Parser.unexpected expected : Parser α) := by
  apply Carries.get
  intro c d h
  apply Carries.throw
  intro hend
  exact unexpected_downBy (h.level hend) hend expected

theorem fail_through (reason : String) : S.Through (Parser.fail reason : Parser α) := by
  apply Carries.get
  intro c d h
  apply Carries.throw
  intro hend
  exact malformed_downBy (h.level hend) reason

/-- What is consumed on the left is consumed on the right. -/
theorem Aligned.shorter {c' d' : Cursor} (h : S.Aligned c d) (h' : S.Aligned c' d')
    (hless : c'.rest.length < c.rest.length) : d'.rest.length < d.rest.length := by
  -- while both are in the common text they have the same less ahead
  rcases h with h | h
  · have hd := congrArg List.length h.rest
    rw [List.length_append] at hd
    rcases h' with h' | h'
    · have hd' := congrArg List.length h'.rest
      rw [List.length_append] at hd'
      omega
    · have htail := congrArg List.length h'.rest
      rw [List.length_cons] at htail
      omega
  -- past its end the left has nothing left to consume
  · rw [h.ended] at hless
    cases hless

/-- **Repetition** goes on for the same rounds on both sides. -/
theorem iterate_through {step : σ → Parser (Round σ β)} (h : ∀ state, S.Through (step state))
    (state : σ) : S.Through (Parser.iterate step state) := by
  intro c d hcd
  -- on the text that is left, of which each further round has consumed some
  induction hn : c.rest.length using Nat.strongRecOn generalizing state c d with
  | ind n ih =>
    have hround := h state c d hcd
    rw [Parser.iterate, Parser.iterate]
    generalize step state c = x at hround
    generalize step state d = y at hround
    cases hround with
    | failed => exact .failed
    | cut hmore => exact .cut hmore
    | @ok round c' d' hnext =>
      cases round with
      | done result => exact .ok hnext
      | again next =>
        dsimp only
        by_cases hless : c'.rest.length < c.rest.length
        · rw [if_pos hless, if_pos (hcd.shorter hnext hless)]
          exact ih c'.rest.length (by omega) next c' d' hnext rfl
        · rw [if_neg hless]
          by_cases hend : S.tail = []
          · have hd := (hcd.level hend).rest
            have hd' := (hnext.level hend).rest
            rw [hend, List.append_nil] at hd hd'
            rw [hd, hd', if_neg hless, malformed_downBy (hnext.level hend)]
            exact .failed
          · exact .cut hend

/-! ## §2. Tokens -/

section Tokens

variable {g : Gap} (hg : g ≠ .separators)

/-- A name that begins in the common text ends in it, as no name goes through a seam. -/
theorem nameHere_through (what : String) : S.Through (Parser.nameHere what) := by
  apply Carries.get
  intro c d h
  rcases h.name? with ⟨hc, hd⟩ | ⟨word, c', d', hc, hd, h'⟩
  · rw [hc, hd]
    exact unexpected_through what
  · rw [hc, hd]
    exact Carries.set h' (.pure word)

include hg

/-- A bracket or sign past the gap. -/
theorem expect_through {ch : Char} (hch : isSeamChar ch = false) : S.Through (Parser.expect g ch) := by
  apply Carries.gap hg
  apply Carries.taking (S.accept?_matches hch)
  · exact .pure ()
  · exact unexpected_through _

theorem name_through (what : String) : S.Through (Parser.name g what) :=
  Carries.gap hg (nameHere_through what)

end Tokens

/-- A number has no line in its error, and no more text in it. -/
theorem Level.literal_number (h : S.Level c d) :
    S.Carried (Parser.literal Cursor.number c) (Parser.literal Cursor.number d) := by
  obtain ⟨hsame, hafter⟩ := h.number
  show S.Carried (Parser.literal.liftExcept (Cursor.number c).1 (Cursor.number c).2)
    (Parser.literal.liftExcept (Cursor.number d).1 (Cursor.number d).2)
  rw [hsame]
  cases hread : (Cursor.number c).1 with
  | ok value => exact .ok (.inl hafter)
  | error e =>
    obtain rfl := Cursor.number_error hread
    exact .failed

/-- A string that does not end in the common text is none on the left. -/
theorem Level.literal_string (h : S.Level c d) {t : List Char} (hc : c.rest = '"' :: t) :
    S.Carried (Parser.literal Cursor.string c) (Parser.literal Cursor.string d) := by
  have hd : d.rest = '"' :: (t ++ S.tail) := by
    rw [h.rest, hc]
    rfl
  have hquote : ∀ u : List Char, (('"' :: u).head? == some '"') = true := fun _ => rfl
  show S.Carried (Parser.literal.liftExcept (Cursor.string c).1 (Cursor.string c).2)
    (Parser.literal.liftExcept (Cursor.string d).1 (Cursor.string d).2)
  unfold Cursor.string
  rw [hc, hd, if_pos (hquote _), if_pos (hquote _), List.tail_cons, List.tail_cons]
  cases hbody : quotedBody t with
  -- the closing quote is in the common text
  | some found =>
    obtain ⟨hmore, hlength⟩ := quotedBody_append hbody S.tail
    rw [hmore]
    refine .ok (.inl (h.advanceBy ?_))
    rw [hc]
    exact Nat.succ_le_succ hlength
  -- there is none: the left fails, and so does the right if nothing follows
  | none =>
    by_cases hend : S.tail = []
    · rw [hend, List.append_nil, hbody]
      show S.Carried (.error (c.malformed _)) (.error (d.malformed _))
      rw [malformed_downBy h]
      exact .failed
    · exact .cut hend

theorem descend_through {levels : Nat} {inner : Nat → Parser α}
    (h : ∀ n, S.Through (inner n)) : S.Through (Parser.descend levels inner) := by
  cases levels with
  | zero => exact fail_through _
  | succ n => exact h n

/-- One level down on both sides, or refused on both. -/
theorem within_through {deeper : Option σ} {inner : σ → Parser α}
    (h : ∀ d, deeper = some d → S.Through (inner d)) : S.Through (Parser.within deeper inner) := by
  cases deeper with
  | none => exact fail_through _
  | some d => exact h d rfl

/-! ## §3. Types -/

/-- **Types**, over the level below. -/
theorem tyLevel_through {deeper : Option (Parser Ty)} (h : ∀ d, deeper = some d → S.Through d)
    {g : Gap} (hg : g ≠ .separators) : S.Through (Parser.tyLevel deeper g) := by
  -- question marks, and the bracket that closes
  have hquestion : ∀ type, S.Through (Parser.iterate Parser.tyLevel.question type) := by
    apply iterate_through
    intro type
    apply Carries.taking (S.accept?_matches (by decide))
    · exact .pure _
    · exact .pure _
  have hclose : ∀ type : Ty, S.Through (do
      Parser.expect .lines ']'
      return type) :=
    fun type => (expect_through (by decide) (by decide)).bind fun _ => .pure type
  apply Carries.gap hg
  apply Carries.taking (S.accept?_matches (by decide))
  -- a bracket, with a type or two in it, or a name
  · apply Carries.bind _ hquestion
    apply within_through
    intro inner hinner
    apply (h inner hinner).bind
    intro first
    apply Carries.gap (by decide)
    apply Carries.taking (S.accept?_matches (by decide))
    · exact (h inner hinner).bind fun value => hclose _
    · exact hclose _
  · apply Carries.bind _ hquestion
    apply (name_through hg _).bind
    intro word
    cases Ty.ofName? word with
    | some type => exact .pure type
    | none => exact .throw fun _ => rfl

theorem ty_through (levels : Nat) {g : Gap} (hg : g ≠ .separators) : S.Through (Parser.ty levels g) := by
  induction levels generalizing g with
  | zero => exact tyLevel_through (fun _ hd => by cases hd) hg
  | succ n ih =>
    apply tyLevel_through _ hg
    intro d hd
    cases hd
    exact ih (by decide)

/-! ## §4. The lookahead -/

/-- A gap in a text without comments holds no mark, so a scan for pairs passes over it. -/
theorem startsPair_gap (g : Gap) {t : List Char} (hfree : hasComment t = false) (n : Nat)
    (more : List Char) :
    Parser.startsPair n false (t ++ more) =
      Parser.startsPair n false (t.drop (g.length false t) ++ more) := by
  -- what a gap admits is no mark
  have hunmarked : ∀ x, g.admits x = true → Parser.isMark x = false := by
    intro x hx
    have hplain : Parser.isPlain x = true := Parser.isPlain_of_not (by cases g <;> decide) hx
    simp only [Parser.isPlain, Bool.and_eq_true, Bool.not_eq_true'] at hplain
    exact hplain.1.1
  induction t with
  | nil => rfl
  | cons x t ih =>
    rw [hasComment, Bool.or_eq_false_iff] at hfree
    rw [Gap.length]
    by_cases hx : g.admits x = true
    · rw [if_pos hx, List.drop_succ_cons, List.cons_append, Parser.startsPair_cons (hunmarked x hx),
        ih hfree.2]
    -- no comment begins here, so the gap ends here
    · rw [if_neg hx, hfree.1]
      rfl

/-- Brackets take the scan one level down. -/
theorem startsPair_opening {ch : Char} (h : ch = '(' ∨ ch = '[') (n : Nat) (t : List Char) :
    Parser.startsPair n false (ch :: t) = Parser.startsPair (n + 1) false t := by
  rcases h with rfl | rfl <;> rw [Parser.startsPair.eq_def] <;> rfl

/-- And up again. -/
theorem startsPair_closing {ch : Char} (h : ch = ')' ∨ ch = ']') (n : Nat) (t : List Char) :
    Parser.startsPair (n + 1) false (ch :: t) = Parser.startsPair n false t := by
  rcases h with rfl | rfl <;> rw [Parser.startsPair.eq_def] <;> rfl

/-- Inside brackets separators do not count. -/
theorem startsPair_separator {ch : Char} (h : ch = ',' ∨ ch = ':') (n : Nat) (t : List Char) :
    Parser.startsPair (n + 1) false (ch :: t) = Parser.startsPair (n + 1) false t := by
  rcases h with rfl | rfl <;> rw [Parser.startsPair.eq_def] <;> rfl

theorem startsPair_quote (n : Nat) (t : List Char) :
    Parser.startsPair n false ('"' :: t) = Parser.startsPair n true t := by
  rw [Parser.startsPair.eq_def]
  rfl

/-- If more text changes the outcome of a scan that begins in a string, it does so behind the string. -/
theorem startsPair_string {t body : List Char} {k : Nat} (h : quotedBody t = some (body, k)) {n : Nat}
    {more : List Char}
    (hmore : Parser.startsPair n true (t ++ more) ≠ Parser.startsPair n true t) :
    Parser.startsPair n false (t.drop k ++ more) ≠ Parser.startsPair n false (t.drop k) := by
  fun_induction quotedBody t generalizing body k with
  | case1 => cases h
  | case2 c rest hquote =>
    cases h
    obtain rfl := beq_iff_eq.mp hquote
    have hclose : ∀ u, Parser.startsPair n true ('"' :: u) = Parser.startsPair n false u := by
      intro u
      rw [Parser.startsPair.eq_def]
      rfl
    rw [List.cons_append, hclose, hclose] at hmore
    exact hmore
  | case3 c hquote hslash => cases h
  | case4 c hquote hslash e rest ih =>
    obtain ⟨⟨inner, m⟩, hinner, hk⟩ := Option.map_eq_some_iff.mp h
    cases hk
    obtain rfl := beq_iff_eq.mp hslash
    have hpair : ∀ u, Parser.startsPair n true ('\\' :: e :: u) = Parser.startsPair n true u := by
      intro u
      rw [Parser.startsPair.eq_def]
      rfl
    rw [List.cons_append, List.cons_append, hpair, hpair] at hmore
    exact ih hinner hmore
  | case5 c rest hquote hslash ih =>
    obtain ⟨⟨inner, m⟩, hinner, hk⟩ := Option.map_eq_some_iff.mp h
    cases hk
    apply ih hinner
    -- an end mark in the string decides, with or without more text
    by_cases hend : (c == Cursor.pastEnd) = true
    · have hdecided : ∀ u, Parser.startsPair n true (c :: u) = false := by
        intro u
        rw [Parser.startsPair.eq_def]
        simp [hend]
      rw [List.cons_append, hdecided, hdecided] at hmore
      exact absurd rfl hmore
    · have hinside : ∀ u, Parser.startsPair n true (c :: u) = Parser.startsPair n true u := by
        intro u
        rw [Parser.startsPair.eq_def]
        have hquote' : (c != '"') = true := by simpa using hquote
        simp [hend, hslash, hquote']
      rw [List.cons_append, hinside, hinside] at hmore
      exact hmore

/-- A character that leaves the scan to the text behind it leaves it undecided. -/
theorem undecided_step {n m : Nat} {x : Char} {t more : List Char}
    (hstep : ∀ u, Parser.startsPair n false (x :: u) = Parser.startsPair m false u)
    (h : hasComment (x :: t) = false ∧
      Parser.startsPair n false (x :: t ++ more) ≠ Parser.startsPair n false (x :: t)) :
    hasComment t = false ∧ Parser.startsPair m false (t ++ more) ≠ Parser.startsPair m false t := by
  refine ⟨hasComment_drop h.1 1, ?_⟩
  have hscan := h.2
  rw [List.cons_append, hstep, hstep] at hscan
  exact hscan

/-- More text changes the outcome of a scan for pairs: it has not come to a decision. -/
def undecided (more : List Char) : Parser.TextInvariant where
  holds n t := hasComment t = false ∧
    Parser.startsPair n false (t ++ more) ≠ Parser.startsPair n false t
  gap {n t} g h := by
    refine ⟨hasComment_drop h.1 _, ?_⟩
    have hscan := startsPair_gap g h.1 n []
    rw [List.append_nil, List.append_nil] at hscan
    rw [← hscan, ← startsPair_gap g h.1 n more]
    exact h.2
  plain {n c t} hc h := by
    have hmark : Parser.isMark c = false := by
      simp only [Parser.isPlain, Bool.and_eq_true, Bool.not_eq_true'] at hc
      exact hc.1.1
    exact undecided_step (fun _ => Parser.startsPair_cons hmark) h
  slash _ h := undecided_step (fun _ => Parser.startsPair_cons (by decide)) h
  opening hc h := undecided_step (startsPair_opening hc _) h
  closing hc h := undecided_step (startsPair_closing hc _) h
  separator hc h := undecided_step (startsPair_separator hc _) h
  string {n t body k} hbody h := by
    refine ⟨hasComment_drop h.1 (k + 1), startsPair_string hbody ?_⟩
    have hscan := h.2
    rw [List.cons_append, startsPair_quote, startsPair_quote] at hscan
    exact hscan

/-- A scan of the same text has the same outcome. -/
theorem scan_alike (more : List Char) :
    Parser.Lookahead.Alike (fun _ : Unit => undecided more) Parser.byScan Parser.byScan := by
  intro p q h i n t ht c hc e c' hrun
  have hopen : (undecided more).holds (n + 1) c.rest := by
    rw [hc]
    exact (undecided more).gap .lines ((undecided more).opening (.inr rfl) ht)
  obtain ⟨pairs, d, hscan, hcontents⟩ := Parser.bind_eq_ok.mp hrun
  cases hscan
  obtain ⟨hcontents', hkept⟩ := Parser.contents_follows (h i (n + 1)) _ c hopen e c' hcontents
  exact ⟨Parser.bind_eq_ok.mpr ⟨_, c, rfl, hcontents'⟩, hkept⟩

/-- **Where entries are read, the scan for pairs has come to a decision**: what follows the first entry
    decides, whether more text follows the collection or not. -/
theorem scan_append {p : Parser Expr} {more : List Char} (hp : Parser.Keeps (undecided more) 0 p p)
    (hfree : hasComment c.rest = false) {pairs : Bool} {r : Expr × Cursor}
    (hrun : Parser.contents p pairs c = .ok r) :
    Parser.startsPair 0 false (c.rest ++ more) = Parser.startsPair 0 false c.rest := by
  obtain ⟨first, next, ch, u, hfirst, hrest, hch⟩ := Parser.first_of_contents hrun
  by_cases hsame : Parser.startsPair 0 false (c.rest ++ more) = Parser.startsPair 0 false c.rest
  · exact hsame
  -- if it had not, reading the first entry would have left the scan undecided
  have hnext := (Parser.exprOf_follows hp c ⟨hfree, hsame⟩ first next hfirst).2
  have hafter := (undecided more).gap .lines hnext
  rw [← Cursor.rest_advanceBy] at hafter
  have hscan : Parser.startsPair 0 false (ch :: u ++ more) ≠ Parser.startsPair 0 false (ch :: u) := by
    rw [← hrest]
    exact hafter.2
  have hmark : ch = ':' ∨ ch = ']' ∨ ch = ',' := by
    cases pairs with
    | true => exact .inl hch
    | false => exact .inr hch
  -- but the mark behind the entry decides at once
  have hdecided : ∃ outcome, ∀ v, Parser.startsPair 0 false (ch :: v) = outcome := by
    rcases hmark with rfl | rfl | rfl <;>
      exact ⟨_, fun v => by rw [Parser.startsPair.eq_def]; rfl⟩
  obtain ⟨outcome, houtcome⟩ := hdecided
  rw [List.cons_append, houtcome, houtcome] at hscan
  exact absurd rfl hscan

/-! ## §5. Expressions -/

theorem wordOperator_through {word : String} (hfilled : word.toList ≠ [])
    (hword : seamless word.toList = true) (op : BinaryOp) : S.Through (Parser.wordOperator word op) :=
  .taking (S.acceptText?_matches hfilled hword) (.pure _) (.pure _)

theorem productOperator_through : S.Through Parser.productOperator :=
  .taking (S.accept?_matches (by decide)) (.pure _)
    (.taking (S.accept?_matches (by decide)) (.pure _)
      (.taking (S.accept?_matches (by decide)) (.pure _) (.pure _)))

/-- The character after the next, compared with one that is not in the seam. -/
theorem Aligned.next_bne (h : S.Aligned c d) {ch : Char} (hch : isSeamChar ch = false) :
    (c.peekAt 1 != ch) = (d.peekAt 1 != ch) := by
  unfold bne
  rw [h.peekAt_beq (Nat.le_refl 1) hch]

/-- The sums look one character further, but never at what a seam may hold. -/
theorem sumOperator_through : S.Through Parser.sumOperator := by
  apply Carries.taking (S.accept?_matches (by decide))
  · exact .pure _
  · apply Carries.get
    intro c d h
    rw [h.next_bne (by decide)]
    split
    · exact .taking (S.accept?_matches (by decide)) (.pure _) (.pure _)
    · exact .pure _

theorem rangeOperator_through : S.Through Parser.rangeOperator := by
  apply Carries.taking (S.acceptText?_matches (by decide) (by decide))
  · exact .taking (S.accept?_matches (by decide)) (.pure _) (.pure _)
  · exact .pure _

theorem comparisonOperator_through : S.Through Parser.comparisonOperator :=
  .taking (S.acceptText?_matches (by decide) (by decide)) (.pure _)
    (.taking (S.acceptText?_matches (by decide) (by decide)) (.pure _)
      (.taking (S.acceptText?_matches (by decide) (by decide)) (.pure _)
        (.taking (S.acceptText?_matches (by decide) (by decide)) (.pure _)
          (.taking (S.accept?_matches (by decide)) (.pure _)
            (.taking (S.accept?_matches (by decide)) (.pure _) (.pure _))))))

theorem leadingOperator_through : S.Through Parser.leadingOperator := by
  have hminus : S.Through
      (Parser.accept '-' >>= fun taken => if taken = true then pure (some UnaryOp.neg) else pure none) :=
    .taking (S.accept?_matches (by decide)) (.pure _) (.pure _)
  apply Carries.get
  intro c d h
  rw [h.next_bne (by decide)]
  split
  · exact .taking (S.accept?_matches (by decide)) (.pure _) hminus
  · exact hminus

section Operators

variable {g : Gap} (hg : g ≠ .separators)

include hg

/-- Operators and operands in turn. -/
theorem leftChain_through {operator : Parser (Option BinaryOp)} (ho : S.Through operator)
    {next : Parser Expr} (hn : S.Through next) : S.Through (Parser.leftChain g operator next) := by
  apply hn.bind
  apply iterate_through
  intro left
  apply Carries.gap hg
  apply ho.bind
  intro op
  cases op with
  | none => exact .pure _
  | some op => exact hn.bind fun _ => .pure _

/-- At most one joint. -/
theorem pair_through {join : Parser (Option (Expr → Expr → Expr))} (hj : S.Through join)
    {next : Parser Expr} (hn : S.Through next) : S.Through (Parser.pair g join next) := by
  apply hn.bind
  intro left
  apply Carries.gap hg
  apply hj.bind
  intro make
  cases make with
  | none => exact .pure _
  | some make => exact hn.bind fun _ => .pure _

/-- **The levels of joints**, each over the one below. -/
theorem exprOf_through {p : Parser Expr} (h : S.Through p) : S.Through (Parser.exprOf g p) := by
  have hproduct := leftChain_through hg productOperator_through h
  have hsum := leftChain_through hg sumOperator_through hproduct
  have hrange := pair_through hg rangeOperator_through hsum
  have hcomparison := pair_through hg comparisonOperator_through hrange
  have hand : S.Through (Parser.wordOperator "&&" .and) :=
    wordOperator_through (by decide) (by decide) .and
  have hconjunction := leftChain_through hg hand hcomparison
  exact leftChain_through hg (wordOperator_through (by decide) (by decide) .or) hconjunction

end Operators

section Brackets

variable {p : Parser Expr} (h : S.Through p)

include h

/-- An expression and the bracket that closes it. -/
theorem enclosed_through {close : Char} (hclose : isSeamChar close = false) :
    S.Through (Parser.enclosed p close) := by
  apply (exprOf_through (by decide) h).bind
  intro inner
  exact (expect_through (by decide) hclose).bind fun _ => .pure _

theorem arguments_through : S.Through (Parser.arguments p) := by
  apply Carries.gap (by decide)
  apply Carries.taking (S.accept?_matches (by decide))
  · exact .pure _
  · apply iterate_through
    intro before
    apply (exprOf_through (by decide) h).bind
    intro arg
    apply Carries.gap (by decide)
    apply Carries.taking (S.accept?_matches (by decide))
    · exact .pure _
    · exact (expect_through (by decide) (by decide)).bind fun _ => .pure _

theorem keyAndValue_through : S.Through (Parser.keyAndValue p) := by
  apply (exprOf_through (by decide) h).bind
  intro key
  apply (expect_through (by decide) (by decide)).bind
  intro _
  exact (exprOf_through (by decide) h).bind fun _ => .pure _

end Brackets

theorem collectionGoesOn_through : S.Through Parser.collectionGoesOn := by
  apply Carries.gap (by decide)
  apply Carries.taking (S.accept?_matches (by decide))
  · exact .pure _
  · apply (expect_through (by decide) (by decide)).bind
    intro _
    apply Carries.gap (by decide)
    exact .taking (S.accept?_matches (by decide)) (.pure _) (.pure _)

/-- Entries up to the bracket that closes them. -/
theorem entries_through {entry : Parser α} (h : S.Through entry) : S.Through (Parser.entries entry) := by
  apply iterate_through
  intro before
  apply h.bind
  intro a
  apply collectionGoesOn_through.bind
  intro more
  cases more with
  | true => exact .pure _
  | false => exact .pure _

/-- Entries of either kind. -/
theorem contents_through {p : Parser Expr} (h : S.Through p) (pairs : Bool) :
    S.Through (Parser.contents p pairs) := by
  cases pairs with
  | true => exact (entries_through (keyAndValue_through h)).bind fun _ => .pure _
  | false => exact (entries_through (exprOf_through (by decide) h)).bind fun _ => .pure _

/-- What the scan for pairs sees on the right. -/
theorem Aligned.scan (h : S.Aligned c d) :
    Parser.startsPair 0 false d.rest = Parser.startsPair 0 false (c.rest ++ S.tail) := by
  rcases h with h | h
  · rw [h.rest]
  · rw [h.ended, List.nil_append, h.rest, Parser.startsPair_cons (by decide)]

/-- Where more text follows there is no comment in the text before. -/
theorem Aligned.free (h : S.Aligned c d) (hmore : S.tail ≠ []) : hasComment c.rest = false := by
  rcases h with h | h
  · exact h.free.resolve_left hmore
  · rw [h.ended]
    rfl

/-- **Entries**: where the scan for pairs has another outcome on the right, the left reader fails. -/
theorem filled_through {p : Parser Expr} (h : S.Through p)
    (hp : Parser.Keeps (undecided S.tail) 0 p p) : S.Through (Parser.filled Parser.byScan p) := by
  intro c d hcd
  show S.Carried (Parser.contents p (Parser.startsPair 0 false c.rest) c)
    (Parser.contents p (Parser.startsPair 0 false d.rest) d)
  by_cases hsame : Parser.startsPair 0 false (c.rest ++ S.tail) = Parser.startsPair 0 false c.rest
  -- the scan has the same outcome on both sides
  · rw [hcd.scan, hsame]
    exact contents_through h _ c d hcd
  · have hmore : S.tail ≠ [] := by
      intro hend
      rw [hend, List.append_nil] at hsame
      exact hsame rfl
    -- it has not, so more text follows; and the left reader has nothing to show
    cases hrun : Parser.contents p (Parser.startsPair 0 false c.rest) c with
    | error e => exact .cut hmore
    | ok r => exact absurd (scan_append hp (hcd.free hmore) hrun) hsame

/-- **Collections.** -/
theorem collection_through {p : Parser Expr} (h : S.Through p)
    (hp : Parser.Keeps (undecided S.tail) 0 p p) : S.Through (Parser.collection Parser.byScan p) := by
  apply Carries.gap (by decide)
  apply Carries.taking (S.accept?_matches (by decide))
  · exact .pure _
  · apply Carries.taking (S.accept?_matches (by decide))
    · exact (expect_through (by decide) (by decide)).bind fun _ => .pure _
    · exact filled_through h hp

section Operands

variable {deeper : Parser.Deeper}
variable (h : ∀ e, deeper = some e → ∀ g, g ≠ .separators → S.Through (e g))

include h

theorem arguments_within_through :
    S.Through (Parser.within deeper fun e => Parser.arguments (e .lines)) :=
  within_through fun e he => arguments_through (h e he .lines (by decide))

theorem nameOrCall_through (word : String) : S.Through (Parser.nameOrCall deeper word) := by
  unfold Parser.nameOrCall
  split
  · exact .pure _
  · exact .pure _
  · exact .pure _
  · apply Carries.taking (S.accept?_matches (by decide))
    · exact (arguments_within_through h).bind fun _ => .pure _
    · exact .pure _

/-- A name behind the dot, and perhaps arguments. -/
theorem memberOf_through (target : Expr) (optional : Bool) :
    S.Through (Parser.memberOf deeper target optional) := by
  apply (nameHere_through _).bind
  intro word
  apply Carries.taking (S.accept?_matches (by decide))
  · exact (arguments_within_through h).bind fun _ => .pure _
  · exact .pure _

/-- An index, a member or a method, as the characters ahead say. -/
theorem suffix_through (target : Expr) : S.Through (Parser.suffix deeper target) := by
  apply Carries.taking (S.accept?_matches (by decide))
  · apply Carries.bind _ fun _ => .pure _
    exact within_through fun e he => enclosed_through (h e he .lines (by decide)) (by decide)
  · apply Carries.taking (S.acceptText?_matches (by decide) (by decide))
    · exact (memberOf_through h target true).bind fun _ => .pure _
    · apply Carries.get
      intro c d hcd
      rw [hcd.next_bne (by decide)]
      split
      · apply Carries.taking (S.accept?_matches (by decide))
        · exact (memberOf_through h target false).bind fun _ => .pure _
        · exact .pure _
      · exact .pure _

/-- The character ahead says what is read. -/
theorem primary_through
    (hp : ∀ e, deeper = some e → Parser.Keeps (undecided S.tail) 0 (e .lines) (e .lines))
    {g : Gap} (hg : g ≠ .separators) : S.Through (Parser.primary Parser.byScan deeper g) := by
  apply Carries.gap hg
  intro c d hcd
  show S.Carried ((if c.atEnd = true then _ else _ : Parser Expr) c)
    ((if d.atEnd = true then _ else _ : Parser Expr) d)
  -- a character of the common text is ahead, or the left has come to its end
  rcases hcd.ahead with ⟨x, t, hc, hd, hlevel⟩ | ⟨hc, hseam⟩
  · have hmore : c.atEnd = false ∧ d.atEnd = false := by
      unfold Cursor.atEnd
      rw [hc, hd]
      exact ⟨rfl, rfl⟩
    have hpeek : c.peek = x ∧ d.peek = x := by
      unfold Cursor.peek Cursor.peekAt
      rw [hc, hd]
      exact ⟨rfl, rfl⟩
    have hno : ¬false = true := by decide
    have hadvance : S.Carried (Parser.advance c) (Parser.advance d) := .ok (.inl (hlevel.advance hc))
    rw [hmore.1, hmore.2, if_neg hno, if_neg hno, hpeek.1, hpeek.2]
    -- a parenthesis, a string, a number, a collection, a name
    by_cases hparen : (x == '(') = true
    · rw [if_pos hparen]
      apply Carries.bindAt hadvance
      intro _
      exact within_through fun e he => enclosed_through (h e he .lines (by decide)) (by decide)
    rw [if_neg hparen]
    by_cases hquote : (x == '"') = true
    · rw [if_pos hquote]
      rw [beq_iff_eq.mp hquote] at hc
      exact Carries.bindAt (hlevel.literal_string hc) fun _ => .pure _
    rw [if_neg hquote]
    by_cases hdigit : x.isDigit = true
    · rw [if_pos hdigit]
      apply Carries.bindAt hlevel.literal_number
      intro number
      cases number with
      | int n => exact .pure _
      | double x => exact .pure _
    rw [if_neg hdigit]
    by_cases hbracket : (x == '[') = true
    · rw [if_pos hbracket]
      apply Carries.bindAt hadvance
      intro _
      exact within_through fun e he => collection_through (h e he .lines (by decide)) (hp e he)
    rw [if_neg hbracket]
    exact (nameHere_through _).bind (nameOrCall_through h) c d hcd
  -- at the end of the left text there is no expression on the left, nor on the right if nothing
  -- follows
  · have hend : c.atEnd = true := by
      unfold Cursor.atEnd
      rw [hc]
      rfl
    rw [if_pos hend]
    by_cases hmore : S.tail = []
    · have hend' : d.atEnd = true := by
        have hrest := (hcd.level hmore).rest
        unfold Cursor.atEnd
        rw [hrest, hc, hmore]
        rfl
      rw [if_pos hend']
      exact unexpected_through _ c d hcd
    · exact .cut hmore

/-- A prefixed operator goes one level down. -/
theorem operandLevel_through
    (hp : ∀ e, deeper = some e → Parser.Keeps (undecided S.tail) 0 (e .lines) (e .lines))
    {g : Gap} (hg : g ≠ .separators) : S.Through (Parser.operandLevel Parser.byScan deeper g) := by
  apply Carries.gap hg
  apply leadingOperator_through.bind
  intro op
  cases op with
  | some op =>
    apply Carries.bind _ fun _ => .pure _
    exact within_through fun e he => h e he g hg
  | none =>
    apply (primary_through h hp hg).bind
    exact iterate_through (suffix_through h)

end Operands

/-- By induction on the levels that are left. -/
theorem operand_through (levels : Nat) {g : Gap} (hg : g ≠ .separators) :
    S.Through (Parser.operand Parser.byScan levels g) := by
  induction levels generalizing g with
  | zero => exact operandLevel_through (fun _ he => by cases he) (fun _ he => by cases he) hg
  | succ n ih =>
    apply operandLevel_through _ _ hg
    · intro e he g hg
      cases he
      exact ih hg
    · intro e he
      cases he
      exact Parser.operand_follows (scan_alike S.tail) n () 0 .lines

/-- **Expressions.** -/
theorem expr_through (levels : Nat) {g : Gap} (hg : g ≠ .separators) :
    S.Through (Parser.expr levels g) :=
  exprOf_through hg (operand_through levels hg)

end Seam

end Scriptlet
