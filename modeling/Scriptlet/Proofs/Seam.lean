/-
  Scriptlet.Proofs.Seam — one text in two places.

  On the left a text stands alone.  On the right it stands some lines further down, or with more text
  after it, behind a seam: a line end, a semicolon and a line end.  While both sides are inside the text
  they are at the same character.  Where the left one ends, the right one is before the seam, or past its
  first line end if it went through a gap that may hold line ends.  `Seam.Aligned` is that relation, and
  all that looks ahead or moves keeps it: gaps, characters, words, names and literals.

  A comment that begins in the text would run past the seam, up to its line end, so texts with more
  behind them have none.

  Main results:
    * `Seam.Aligned.skip` — gaps.
    * `Seam.Matches` and its instances — characters and words.
-/
import Scriptlet.Proofs.Stepping

namespace Scriptlet

/-! ## §1. Comments -/

/-- Whether a comment begins somewhere in the text, if strings are not heeded. -/
def hasComment : List Char → Bool
  | [] => false
  | c :: t => opensComment c t || hasComment t

/-- No comment begins in an end of a text in which none begins. -/
theorem hasComment_drop {t : List Char} (h : hasComment t = false) (n : Nat) :
    hasComment (t.drop n) = false := by
  induction n generalizing t with
  | zero => exact h
  | succ n ih =>
    cases t with
    | nil => rfl
    | cons c t =>
      rw [hasComment, Bool.or_eq_false_iff] at h
      exact ih h.2

/-- A text without the two marks has no comment. -/
theorem hasComment_of_marks {t : List Char} (hhash : '#' ∉ t) (hslashes : ¬['/', '/'] <:+: t) :
    hasComment t = false := by
  induction t with
  | nil => rfl
  | cons c t ih =>
    have hrest : hasComment t = false := by
      apply ih
      · intro hmem
        exact hhash (List.mem_cons_of_mem c hmem)
      · intro hinfix
        exact hslashes (List.infix_cons hinfix)
    have hopens : opensComment c t = false := by
      -- neither mark stands at the front
      have hc : (c == '#') = false := beq_eq_false_iff_ne.mpr fun heq => hhash (heq ▸ List.mem_cons_self)
      cases t with
      | nil => simp [opensComment, hc]
      | cons x t =>
        have hpair : ¬(c = '/' ∧ x = '/') := by
          rintro ⟨rfl, rfl⟩
          exact hslashes ⟨[], t, rfl⟩
        simpa [opensComment, hc] using fun h₁ h₂ => hpair ⟨h₁, h₂⟩
    rw [hasComment, hopens, hrest]
    rfl

/-! ## §2. More text behind a line end -/

/-- The digits after a point that stands at the front of a text. -/
def pointDigits (after : List Char) : List Char :=
  if after.head? == some '.' then after.tail.takeWhile Char.isDigit else []

/-- Digits after a point are in the text, and so is the point. -/
theorem pointDigits_length {after : List Char} (h : ¬(pointDigits after).isEmpty = true) :
    (pointDigits after).length + 1 ≤ after.length := by
  unfold pointDigits at h ⊢
  cases after with
  | nil => exact absurd rfl h
  | cons x after =>
    by_cases hx : ((x :: after).head? == some '.') = true
    · rw [if_pos hx, List.tail_cons, List.length_cons]
      exact Nat.succ_le_succ (List.takeWhile_prefix _).length_le
    · rw [if_neg hx] at h
      exact absurd rfl h

/-- The text begins with a line end, if with anything. -/
def FromLineEnd (more : List Char) : Prop := ∀ x, more.head? = some x → x = '\n'

namespace FromLineEnd

variable {more : List Char} (hmore : FromLineEnd more)

include hmore

theorem head_ne {ch : Char} (h : ch ≠ '\n') : more.head? ≠ some ch := fun hhead => h (hmore ch hhead)

/-- Characters of a kind without the line end are taken up to the end of the text. -/
theorem takeWhile_append {f : Char → Bool} (hf : f '\n' = false) (t : List Char) :
    (t ++ more).takeWhile f = t.takeWhile f := by
  induction t with
  | nil =>
    cases more with
    | nil => rfl
    | cons x more =>
      obtain rfl := hmore x rfl
      rw [List.nil_append, List.takeWhile_cons, hf]
      rfl
  | cons x t ih => rw [List.cons_append, List.takeWhile_cons, List.takeWhile_cons, ih]

/-- A word without line ends and end marks is not seen across the end of a text. -/
theorem sees_append {word : List Char}
    (hword : word.all (fun ch => ch != '\n' && ch != Cursor.pastEnd) = true) (t : List Char) :
    Cursor.sees word (t ++ more) = Cursor.sees word t := by
  induction word generalizing t with
  | nil => simp [Cursor.sees]
  | cons w word ih =>
    rw [List.all_cons, Bool.and_eq_true, Bool.and_eq_true] at hword
    cases t with
    | nil =>
      -- past the end of the text either the end mark or the line end is seen, and the word has
      -- neither
      have hend : (w == Cursor.pastEnd) = false := by simpa using hword.1.2
      cases more with
      | nil => rfl
      | cons x more =>
        obtain rfl := hmore x rfl
        have hline : (w == '\n') = false := by simpa using hword.1.1
        rw [List.nil_append, Cursor.sees, Cursor.sees, hline, hend, Bool.false_and, Bool.false_and]
    | cons x t => rw [List.cons_append, Cursor.sees, Cursor.sees, ih hword.2]

/-- Digits after a point end with the text. -/
theorem pointDigits_append (after : List Char) :
    pointDigits (after ++ more) = pointDigits after := by
  unfold pointDigits
  cases after with
  | nil =>
    have hhead : (more.head? == some '.') = false := beq_eq_false_iff_ne.mpr (hmore.head_ne (by decide))
    rw [List.nil_append, hhead]
    rfl
  | cons x after =>
    rw [List.cons_append, List.tail_cons, List.tail_cons, hmore.takeWhile_append (by decide)]
    rfl

variable {c d : Cursor} (hd : d.rest = c.rest ++ more)

include hd

/-- A name that begins in a text also ends there. -/
theorem name?_append :
    c.name? = none ∧ d.name? = none ∨ ∃ word n, n ≤ c.rest.length ∧
      c.name? = some (word, c.advanceBy n) ∧ d.name? = some (word, d.advanceBy n) := by
  -- a name begins on both sides or on neither
  have hstart : Text.isNameStart d.peek = Text.isNameStart c.peek := by
    unfold Cursor.peek Cursor.peekAt
    rw [hd]
    cases c.rest with
    | cons x t => rfl
    | nil =>
      cases more with
      | nil => rfl
      | cons x more =>
        obtain rfl := hmore x rfl
        exact (by decide : Text.isNameStart '\n' = Text.isNameStart Cursor.pastEnd)
  unfold Cursor.name?
  rw [hstart, hd, hmore.takeWhile_append (by decide)]
  by_cases hx : Text.isNameStart c.peek = true
  · rw [if_pos hx, if_pos hx]
    exact .inr ⟨_, _, (List.takeWhile_prefix _).length_le, rfl, rfl⟩
  · rw [if_neg hx, if_neg hx]
    exact .inl ⟨rfl, rfl⟩

/-- A number that begins in a text also ends there. -/
theorem number_append : (Cursor.number d).1 = (Cursor.number c).1 ∧ ∃ n, n ≤ c.rest.length ∧
    (Cursor.number c).2 = c.advanceBy n ∧ (Cursor.number d).2 = d.advanceBy n := by
  -- the digits and the fraction are the same on both sides
  have hlength : (c.rest.takeWhile Char.isDigit).length ≤ c.rest.length :=
    (List.takeWhile_prefix _).length_le
  have hfraction : pointDigits (d.rest.drop (c.rest.takeWhile Char.isDigit).length) =
      pointDigits (c.rest.drop (c.rest.takeWhile Char.isDigit).length) := by
    rw [hd, List.drop_append_of_le_length hlength, hmore.pointDigits_append]
  have hpoint := @pointDigits_length (c.rest.drop (c.rest.takeWhile Char.isDigit).length)
  have hwhole : d.rest.takeWhile Char.isDigit = c.rest.takeWhile Char.isDigit := by
    rw [hd, hmore.takeWhile_append (by decide)]
  rw [List.length_drop] at hpoint
  unfold Cursor.number
  dsimp only
  rw [hwhole]
  unfold pointDigits at hfraction hpoint
  rw [hfraction]
  -- without a fraction the number ends after its digits
  by_cases hempty : (if (c.rest.drop (c.rest.takeWhile Char.isDigit).length).head? == some '.' then
      (c.rest.drop (c.rest.takeWhile Char.isDigit).length).tail.takeWhile Char.isDigit
      else []).isEmpty = true
  · rw [if_pos hempty, if_pos hempty]
    exact ⟨rfl, _, hlength, rfl, rfl⟩
  · have hbound := hpoint hempty
    rw [if_neg hempty, if_neg hempty]
    exact ⟨rfl, _, by omega, rfl, rfl⟩

end FromLineEnd

/-! ## §3. Places on both sides -/

/-- What the right side has that the left side has not. -/
structure Seam where
  /-- The text after the common one. -/
  tail : List Char
  /-- How many lines further down the common text is. -/
  below : Nat
  /-- The last line of the common text on the left. -/
  last : Nat
  /-- Where there is more text, the seam stands before it. -/
  shape : tail = [] ∨ ∃ more, tail = '\n' :: ';' :: '\n' :: more

namespace Seam

/-- Both sides are in the common text, at the same character. -/
structure Level (S : Seam) (c d : Cursor) : Prop where
  rest : d.rest = c.rest ++ S.tail
  line : d.line = c.line + S.below
  column : d.column = c.column
  last : c.line + c.rest.count '\n' = S.last
  free : S.tail = [] ∨ hasComment c.rest = false

/-- The left side is at the end, the right side past the first line end of the seam. -/
structure Past (S : Seam) (c d : Cursor) : Prop where
  ended : c.rest = []
  rest : S.tail = '\n' :: d.rest
  line : d.line = c.line + S.below + 1
  column : d.column = 1
  last : c.line = S.last

/-- Where the two sides may be at the same time. -/
def Aligned (S : Seam) (c d : Cursor) : Prop := S.Level c d ∨ S.Past c d

variable {S : Seam} {c d : Cursor}

/-- Without more text there is nothing to go past. -/
theorem Aligned.level (h : S.Aligned c d) (hend : S.tail = []) : S.Level c d := by
  rcases h with h | h
  · exact h
  · have hrest := h.rest
    rw [hend] at hrest
    cases hrest

/-- Past the first line end of the seam its semicolon stands. -/
theorem Past.semicolon (h : S.Past c d) : ∃ u, d.rest = ';' :: '\n' :: u := by
  rcases S.shape with hend | ⟨more, hmore⟩
  · have hrest := h.rest
    rw [hend] at hrest
    cases hrest
  · have hrest := hmore.symm.trans h.rest
    rw [List.cons.injEq] at hrest
    exact ⟨more, hrest.2.symm⟩

/-- Either both sides see the same character, or the left one is at its end, and the right one is too
    or at the first or second character of the seam. -/
theorem Aligned.ahead (h : S.Aligned c d) :
    (∃ x t, c.rest = x :: t ∧ d.rest = x :: (t ++ S.tail) ∧ S.Level c d) ∨
      c.rest = [] ∧ (S.tail = [] ∧ d.rest = [] ∨
        (∃ u, d.rest = '\n' :: ';' :: u) ∨ ∃ u, d.rest = ';' :: '\n' :: u) := by
  rcases h with h | h
  -- in the common text, or at its end
  · cases hc : c.rest with
    | cons x t =>
      refine .inl ⟨x, t, rfl, ?_, h⟩
      rw [h.rest, hc]
      rfl
    | nil =>
      refine .inr ⟨rfl, ?_⟩
      have hd := h.rest
      rw [hc, List.nil_append] at hd
      rcases S.shape with hend | ⟨more, hmore⟩
      · exact .inl ⟨hend, hd.trans hend⟩
      · exact .inr (.inl ⟨_, hd.trans hmore⟩)
  · exact .inr ⟨h.ended, .inr (.inr h.semicolon)⟩

/-- Past a character of the common text both sides are still in it. -/
theorem Level.advance (h : S.Level c d) {x : Char} {t : List Char} (hc : c.rest = x :: t) :
    S.Level c.advance d.advance := by
  have hd : d.rest = x :: (t ++ S.tail) := by
    rw [h.rest, hc]
    rfl
  have hlast := h.last
  have hline := h.line
  -- no comment begins in what is left either
  have hfree : S.tail = [] ∨ hasComment t = false := by
    apply h.free.imp_right
    intro hcomment
    rw [hc] at hcomment
    exact hasComment_drop hcomment 1
  rw [hc, List.count_cons] at hlast
  unfold Cursor.advance
  rw [hc, hd]
  dsimp only
  -- a line end moves both sides one line down
  by_cases hx : (x == '\n') = true
  · rw [if_pos hx] at hlast
    rw [if_pos hx, if_pos hx]
    refine ⟨rfl, ?_, rfl, ?_, hfree⟩
    · show d.line + 1 = c.line + 1 + S.below
      omega
    · show c.line + 1 + t.count '\n' = S.last
      omega
  · rw [if_neg hx] at hlast
    rw [if_neg hx, if_neg hx]
    exact ⟨rfl, hline, congrArg (· + 1) h.column, hlast, hfree⟩

/-- So they are past any number of its characters. -/
theorem Level.advanceBy (h : S.Level c d) {n : Nat} (hn : n ≤ c.rest.length) :
    S.Level (Cursor.advanceBy n c) (Cursor.advanceBy n d) := by
  induction n generalizing c d with
  | zero => exact h
  | succ n ih =>
    cases hc : c.rest with
    | nil =>
      rw [hc] at hn
      cases hn
    | cons x t =>
      apply ih (h.advance hc)
      rw [hc] at hn
      rw [Cursor.rest_advance, hc]
      exact Nat.le_of_succ_le_succ hn

/-- At the end of the common text, one step on the right alone. -/
theorem Level.past (h : S.Level c d) (hc : c.rest = []) (hmore : S.tail ≠ []) :
    S.Past c d.advance := by
  rcases S.shape with hend | ⟨more, hmore⟩
  · exact absurd hend hmore
  -- the step goes over the first line end of the seam
  have hd : d.rest = '\n' :: ';' :: '\n' :: more := by
    rw [h.rest, hc, List.nil_append, hmore]
  have hstep : d.advance = ⟨';' :: '\n' :: more, d.line + 1, 1⟩ := by
    unfold Cursor.advance
    rw [hd]
    rfl
  have hlast := h.last
  rw [hc] at hlast
  rw [hstep]
  exact ⟨hc, hmore, congrArg (· + 1) h.line, rfl, hlast⟩

/-! ## §4. Gaps -/

/-- A gap is in the text. -/
theorem gap_length_le (g : Gap) (inComment : Bool) (t : List Char) :
    g.length inComment t ≤ t.length := by
  fun_induction Gap.length g inComment t with
  | case1 => exact Nat.le_refl _
  | case2 c rest _ _ ih => exact Nat.succ_le_succ ih
  | case3 => exact Nat.zero_le _
  | case4 c rest _ ih => exact Nat.succ_le_succ ih
  | case5 c rest _ ih => exact Nat.succ_le_succ ih
  | case6 c rest _ _ ih => exact Nat.succ_le_succ ih
  | case7 => exact Nat.zero_le _

/-- A gap ends where it did, unless it went to the end; then it goes on behind it. -/
theorem gap_length_append (g : Gap) {t more : List Char} (hfree : hasComment t = false)
    (hmore : more.head? ≠ some '/') :
    g.length false (t ++ more) =
      if g.length false t = t.length then t.length + g.length false more else g.length false t := by
  induction t with
  | nil =>
    rw [List.nil_append, Gap.length, if_pos (by rfl), List.length_nil, Nat.zero_add]
  | cons x t ih =>
    rw [hasComment, Bool.or_eq_false_iff] at hfree
    rw [List.cons_append, Gap.length, Gap.length]
    -- a character of the gap, or one that ends it
    by_cases hx : g.admits x = true
    · rw [if_pos hx, if_pos hx, ih hfree.2, List.length_cons]
      -- the gap may go through the rest of the text
      by_cases hall : g.length false t = t.length
      · rw [if_pos hall, if_pos (congrArg (· + 1) hall)]
        omega
      · rw [if_neg hall, if_neg (fun h => hall (Nat.succ.inj h))]
    -- no comment begins here, also none whose second mark would be in the text behind
    · have hopens : opensComment x (t ++ more) = false := by
        rw [← hfree.1]
        cases t with
        | nil =>
          have hslash : (more.head? == some '/') = false := beq_eq_false_iff_ne.mpr hmore
          simp [opensComment, hslash]
        | cons y t => rfl
      have hno : ¬false = true := by decide
      have hshort : ¬0 = (x :: t).length := by
        rw [List.length_cons]
        omega
      rw [if_neg hx, if_neg hx, hopens, hfree.1, if_neg hno, if_neg hno, if_neg hshort]

theorem fromLineEnd (S : Seam) : FromLineEnd S.tail := by
  intro x hx
  rcases S.shape with hend | ⟨more, hmore⟩
  · rw [hend] at hx
    cases hx
  · rw [hmore] at hx
    exact (Option.some.inj hx).symm

/-- Both sides go through a gap that ends inside the common text. -/
theorem Level.skip (h : S.Level c d) (g : Gap)
    (hg : S.tail = [] ∨ g.length false c.rest ≠ c.rest.length) : S.Level (c.skip g) (d.skip g) := by
  have hlength : g.length false d.rest = g.length false c.rest := by
    rw [h.rest]
    by_cases hend : S.tail = []
    · rw [hend, List.append_nil]
    · have hfree := h.free.resolve_left hend
      have hstops := hg.resolve_left hend
      rw [gap_length_append g hfree (S.fromLineEnd.head_ne (by decide)), if_neg hstops]
  unfold Cursor.skip
  rw [hlength]
  exact h.advanceBy (gap_length_le g false c.rest)

/-- If the gap goes to the end, the right side goes on behind it. -/
theorem Level.skip_all (h : S.Level c d) (g : Gap) (hmore : S.tail ≠ [])
    (hall : g.length false c.rest = c.rest.length) :
    ∃ e, S.Level (c.skip g) e ∧ (c.skip g).rest = [] ∧
      d.skip g = Cursor.advanceBy (g.length false S.tail) e := by
  have hlength : g.length false d.rest = c.rest.length + g.length false S.tail := by
    rw [h.rest, gap_length_append g (h.free.resolve_left hmore) (S.fromLineEnd.head_ne (by decide)),
      if_pos hall]
  refine ⟨Cursor.advanceBy c.rest.length d, ?_, ?_, ?_⟩
  · unfold Cursor.skip
    rw [hall]
    exact h.advanceBy (Nat.le_refl _)
  · rw [Cursor.skip, hall, Cursor.rest_advanceBy, List.drop_length]
  · rw [Cursor.skip, hlength, Cursor.advanceBy_add]

/-- **Gaps that hold no semicolon keep the sides aligned.** -/
theorem Aligned.skip (h : S.Aligned c d) {g : Gap} (hg : g ≠ .separators) :
    S.Aligned (c.skip g) (d.skip g) := by
  have hsemicolon : g.admits ';' = false := by
    cases g with
    | inline => rfl
    | lines => rfl
    | separators => exact absurd rfl hg
  -- the semicolon of the seam ends every such gap
  have hstops : ∀ t, g.length false (';' :: t) = 0 := by
    intro t
    rw [Gap.length, hsemicolon]
    rfl
  rcases h with h | h
  · by_cases hend : S.tail = []
    · exact .inl (h.skip g (.inl hend))
    -- the gap goes to the end of the common text, or ends inside it
    by_cases hall : g.length false c.rest = c.rest.length
    · obtain ⟨e, hlevel, hrest, hskip⟩ := h.skip_all g hend hall
      obtain ⟨more, hmore⟩ := S.shape.resolve_left hend
      rw [hskip, hmore]
      -- if line ends belong to the gap, it takes the first one of the seam
      by_cases hline : g.admits '\n' = true
      · have hone : g.length false ('\n' :: ';' :: '\n' :: more) = 1 := by
          rw [Gap.length, if_pos hline, hstops]
        rw [hone]
        exact .inr (hlevel.past hrest hend)
      · have hnone : g.length false ('\n' :: ';' :: '\n' :: more) = 0 := by
          rw [Gap.length, if_neg hline]
          rfl
        rw [hnone]
        exact .inl hlevel
    · exact .inl (h.skip g (.inr hall))
  -- past the first line end neither side moves
  · have hleft : c.skip g = c := by
      rw [Cursor.skip, h.ended]
      rfl
    have hright : d.skip g = d := by
      obtain ⟨u, hd⟩ := h.semicolon
      rw [Cursor.skip, hd, hstops]
      rfl
    rw [hleft, hright]
    exact .inr h

/-! ## §5. Characters and words ahead -/

/-- The characters that no reader takes and no reader asks for by name. -/
def isSeamChar (ch : Char) : Bool := ch == '\n' || ch == ';' || ch == Cursor.pastEnd

/-- The next character or the one after it, compared with one that cannot stand in the seam. -/
theorem Aligned.peekAt_beq (h : S.Aligned c d) {n : Nat} (hn : n ≤ 1) {ch : Char}
    (hch : isSeamChar ch = false) : (c.peekAt n == ch) = (d.peekAt n == ch) := by
  simp only [isSeamChar, Bool.or_eq_false_iff, beq_eq_false_iff_ne] at hch
  obtain ⟨⟨hline, hsemicolon⟩, hpast⟩ := hch
  have hseam : (Cursor.pastEnd == ch) = false ∧ ('\n' == ch) = false ∧ (';' == ch) = false :=
    ⟨beq_eq_false_iff_ne.mpr hpast.symm, beq_eq_false_iff_ne.mpr hline.symm,
      beq_eq_false_iff_ne.mpr hsemicolon.symm⟩
  obtain ⟨hpast, hline, hsemicolon⟩ := hseam
  have hplace : n = 0 ∨ n = 1 := by omega
  unfold Cursor.peekAt
  rcases h.ahead with ⟨x, t, hc, hd, -⟩ | ⟨hc, ⟨-, hd⟩ | ⟨u, hd⟩ | ⟨u, hd⟩⟩
  -- inside the common text only its last character has another one behind it
  · rw [hc, hd]
    rcases hplace with rfl | rfl
    · rfl
    · cases t with
      | cons y t => rfl
      | nil =>
        rcases S.shape with hend | ⟨more, hmore⟩
        · rw [hend]
          rfl
        · rw [hmore]
          exact hpast.trans hline.symm
  · rw [hc, hd]
  · rw [hc, hd]
    rcases hplace with rfl | rfl
    · exact hpast.trans hline.symm
    · exact hpast.trans hsemicolon.symm
  · rw [hc, hd]
    rcases hplace with rfl | rfl
    · exact hpast.trans hsemicolon.symm
    · exact hpast.trans hline.symm

/-- What a step does on one side it does on the other. -/
def Matches (S : Seam) (step : Cursor → Option Cursor) : Prop :=
  ∀ c d, S.Aligned c d → step c = none ∧ step d = none ∨
    ∃ c' d', step c = some c' ∧ step d = some d' ∧ S.Aligned c' d'

/-- A character that cannot stand in the seam is taken on both sides or on neither. -/
theorem accept?_matches (S : Seam) {ch : Char} (hch : isSeamChar ch = false) :
    S.Matches (·.accept? ch) := by
  intro c d h
  have hpeek := h.peekAt_beq (Nat.zero_le 1) hch
  have hch' : (Cursor.pastEnd == ch) = false := by
    simp only [isSeamChar, Bool.or_eq_false_iff, beq_eq_false_iff_ne] at hch
    exact beq_eq_false_iff_ne.mpr hch.2.symm
  show c.accept? ch = none ∧ d.accept? ch = none ∨ ∃ c' d', c.accept? ch = some c' ∧
    d.accept? ch = some d' ∧ S.Aligned c' d'
  unfold Cursor.accept? Cursor.peek
  rw [← hpeek]
  by_cases hahead : (c.peekAt 0 == ch) = true
  · -- a character is seen that is not the end mark, so it stands there
    rcases h.ahead with ⟨x, t, hc, hd, hlevel⟩ | ⟨hc, -⟩
    · have hmore : c.atEnd = false ∧ d.atEnd = false := by
        unfold Cursor.atEnd
        rw [hc, hd]
        exact ⟨rfl, rfl⟩
      rw [hmore.1, hmore.2, hahead]
      exact .inr ⟨_, _, rfl, rfl, .inl (hlevel.advance hc)⟩
    · unfold Cursor.peekAt at hahead
      rw [hc] at hahead
      exact absurd hahead (Bool.eq_false_iff.mp hch')
  · rw [Bool.eq_false_iff.mpr hahead]
    simp

/-- The word has no character that stands in the seam or past the end. -/
def seamless (word : List Char) : Bool := word.all fun ch => !isSeamChar ch

/-- A word is not seen at the end of the text, nor at the seam. -/
theorem sees_end {w : Char} {word t : List Char} (hword : seamless (w :: word) = true)
    (ht : t = [] ∨ ∃ ch u, t = ch :: u ∧ isSeamChar ch = true) : Cursor.sees (w :: word) t = false := by
  rw [seamless, List.all_cons, Bool.and_eq_true, Bool.not_eq_true'] at hword
  rcases ht with rfl | ⟨ch, u, rfl, hch⟩
  · have hw : (w == Cursor.pastEnd) = false := by
      have hnot := hword.1
      simp only [isSeamChar, Bool.or_eq_false_iff] at hnot
      exact hnot.2
    rw [Cursor.sees, hw]
    rfl
  · have hw : (w == ch) = false := by
      apply beq_eq_false_iff_ne.mpr
      intro heq
      rw [heq, hch] at hword
      cases hword.1
    rw [Cursor.sees, hw]
    rfl

/-- A word is not seen across the seam. -/
theorem sees_append_tail (S : Seam) {word : List Char} (hword : seamless word = true)
    (t : List Char) : Cursor.sees word (t ++ S.tail) = Cursor.sees word t := by
  refine S.fromLineEnd.sees_append (List.all_eq_true.mpr fun ch hch => ?_) t
  have hnot := List.all_eq_true.mp hword ch hch
  simp only [isSeamChar, Bool.not_eq_true', Bool.or_eq_false_iff] at hnot
  simp [bne, hnot.1.1, hnot.2]

/-- A word is seen on both sides or on none. -/
theorem Aligned.stands (h : S.Aligned c d) {word : String} (hfilled : word.toList ≠ [])
    (hword : seamless word.toList = true) : c.stands word = d.stands word := by
  unfold Cursor.stands
  rcases h with h | h
  · rw [h.rest, S.sees_append_tail hword]
  · obtain ⟨w, more, hw⟩ := List.exists_cons_of_ne_nil hfilled
    obtain ⟨u, hd⟩ := h.semicolon
    rw [hw] at hword ⊢
    rw [sees_end hword (.inl h.ended), sees_end hword (.inr ⟨';', _, hd, by decide⟩)]

/-- Where a word stands on the left, both sides can go past it. -/
theorem Aligned.past_word (h : S.Aligned c d) {word : String} (hfilled : word.toList ≠ [])
    (hword : seamless word.toList = true) (hstands : c.stands word = true) :
    S.Level c d ∧ c.rest = word.toList ++ c.rest.drop word.length ∧
      S.Level (Cursor.advanceBy word.length c) (Cursor.advanceBy word.length d) := by
  -- a word that stands is in the text, so that both sides are
  have hend : Cursor.pastEnd ∉ word.toList := by
    intro hmem
    have hnot := List.all_eq_true.mp hword _ hmem
    revert hnot
    decide
  have hrest : c.rest = word.toList ++ c.rest.drop word.length := by
    rw [← String.length_toList]
    exact Cursor.eq_append_of_sees hend hstands
  have hlevel : S.Level c d := by
    rcases h with h | h
    · exact h
    · rw [h.ended] at hrest
      exact absurd (List.append_eq_nil_iff.mp hrest.symm).1 hfilled
  refine ⟨hlevel, hrest, hlevel.advanceBy ?_⟩
  rw [hrest, List.length_append, String.length_toList]
  omega

/-- The character after those of the common text, for a class that treats the seam as the end. -/
theorem Level.peekAt (h : S.Level c d) {f : Char → Bool} (hf : f '\n' = f Cursor.pastEnd) {n : Nat}
    (hn : n ≤ c.rest.length) : f (d.peekAt n) = f (c.peekAt n) := by
  unfold Cursor.peekAt
  rw [h.rest, List.getD_eq_getElem?_getD, List.getD_eq_getElem?_getD]
  by_cases hlast : n = c.rest.length
  · have hnone : c.rest[n]? = none := List.getElem?_eq_none (by omega)
    rw [List.getElem?_append_right (by omega), hnone, hlast, Nat.sub_self]
    rcases S.shape with hend | ⟨more, hmore⟩
    · rw [hend]
      rfl
    · rw [hmore]
      exact hf
  · rw [List.getElem?_append_left (by omega)]

/-- A word is taken on both sides or on neither. -/
theorem acceptText?_matches (S : Seam) {word : String} (hfilled : word.toList ≠ [])
    (hword : seamless word.toList = true) : S.Matches (·.acceptText? word) := by
  intro c d h
  have hsame := h.stands hfilled hword
  show c.acceptText? word = none ∧ d.acceptText? word = none ∨ ∃ c' d', c.acceptText? word = some c' ∧
    d.acceptText? word = some d' ∧ S.Aligned c' d'
  unfold Cursor.acceptText?
  rw [← hsame]
  by_cases hstands : c.stands word = true
  · obtain ⟨-, -, hpast⟩ := h.past_word hfilled hword hstands
    rw [if_pos hstands, if_pos hstands]
    exact .inr ⟨_, _, rfl, rfl, .inl hpast⟩
  · rw [if_neg hstands, if_neg hstands]
    exact .inl ⟨rfl, rfl⟩

/-- So is a keyword, since no name goes on into the seam. -/
theorem acceptKeyword?_matches (S : Seam) {word : String} (hfilled : word.toList ≠ [])
    (hword : seamless word.toList = true) : S.Matches (·.acceptKeyword? word) := by
  intro c d h
  have hsame := h.stands hfilled hword
  show c.acceptKeyword? word = none ∧ d.acceptKeyword? word = none ∨ ∃ c' d',
    c.acceptKeyword? word = some c' ∧ d.acceptKeyword? word = some d' ∧ S.Aligned c' d'
  unfold Cursor.acceptKeyword? Cursor.standsKeyword
  rw [← hsame]
  by_cases hstands : c.stands word = true
  · obtain ⟨hlevel, hrest, hpast⟩ := h.past_word hfilled hword hstands
    -- what follows the word is seen alike by a class that treats the seam as the end
    have hboundary : Text.isNameChar (d.peekAt word.length) =
        Text.isNameChar (c.peekAt word.length) := by
      apply hlevel.peekAt (by decide)
      rw [hrest, List.length_append, String.length_toList]
      omega
    rw [hboundary]
    by_cases hname : (c.stands word && !Text.isNameChar (c.peekAt word.length)) = true
    · rw [if_pos hname, if_pos hname]
      exact .inr ⟨_, _, rfl, rfl, .inl hpast⟩
    · rw [if_neg hname, if_neg hname]
      exact .inl ⟨rfl, rfl⟩
  · rw [Bool.eq_false_iff.mpr hstands]
    exact .inl ⟨rfl, rfl⟩

/-- A name that begins in the common text also ends there. -/
theorem Aligned.name? (h : S.Aligned c d) :
    c.name? = none ∧ d.name? = none ∨ ∃ word c' d', c.name? = some (word, c') ∧
      d.name? = some (word, d') ∧ S.Aligned c' d' := by
  rcases h with h | h
  · rcases S.fromLineEnd.name?_append h.rest with hnone | ⟨word, n, hn, hc, hd⟩
    · exact .inl hnone
    · exact .inr ⟨word, _, _, hc, hd, .inl (h.advanceBy hn)⟩
  · obtain ⟨u, hd⟩ := h.semicolon
    unfold Cursor.name? Cursor.peek Cursor.peekAt
    rw [h.ended, hd]
    exact .inl ⟨rfl, rfl⟩

/-! ## §6. Literals -/

/-- A string that ends in the common text is the same with more text behind it. -/
theorem quotedBody_append {t body : List Char} {k : Nat} (h : quotedBody t = some (body, k))
    (more : List Char) : quotedBody (t ++ more) = some (body, k) ∧ k ≤ t.length := by
  -- along the body: its end, an escape with the character behind it, any other character
  fun_induction quotedBody t generalizing body k with
  | case1 => cases h
  | case2 c rest hquote =>
    cases h
    rw [List.cons_append, quotedBody.eq_def]
    dsimp only
    rw [if_pos hquote]
    exact ⟨rfl, Nat.succ_le_succ (Nat.zero_le _)⟩
  | case3 c hquote hslash => cases h
  | case4 c hquote hslash e rest ih =>
    obtain ⟨⟨inner, m⟩, hinner, hk⟩ := Option.map_eq_some_iff.mp h
    obtain ⟨hmore, hle⟩ := ih hinner
    cases hk
    rw [List.cons_append, quotedBody.eq_def]
    dsimp only
    rw [if_neg hquote, if_pos hslash, List.cons_append]
    dsimp only
    rw [hmore]
    exact ⟨rfl, Nat.succ_le_succ (Nat.succ_le_succ hle)⟩
  | case5 c rest hquote hslash ih =>
    obtain ⟨⟨inner, m⟩, hinner, hk⟩ := Option.map_eq_some_iff.mp h
    obtain ⟨hmore, hle⟩ := ih hinner
    cases hk
    rw [List.cons_append, quotedBody.eq_def]
    dsimp only
    rw [if_neg hquote, if_neg hslash, hmore]
    exact ⟨rfl, Nat.succ_le_succ hle⟩

/-- A number ends in the common text. -/
theorem Level.number (h : S.Level c d) :
    (Cursor.number d).1 = (Cursor.number c).1 ∧ S.Level (Cursor.number c).2 (Cursor.number d).2 := by
  obtain ⟨hsame, n, hn, hc, hd⟩ := S.fromLineEnd.number_append h.rest
  rw [hc, hd]
  exact ⟨hsame, h.advanceBy hn⟩

end Seam

end Scriptlet
