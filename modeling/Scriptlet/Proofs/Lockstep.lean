/-
  Scriptlet.Proofs.Lockstep — one text alone and inside brackets.

  On the left a text stands alone, where line ends end an expression.  On the right it stands inside
  brackets: a line end and a closing bracket follow it, and line ends are gaps.  Two readers go through
  it in lockstep.  Mostly they are abreast, at the same character.  After a gap the left one may have
  come to a place where no expression goes on.  If only gaps follow there, the right one stands before
  the closing bracket.  If more follows, or if the left one is inside brackets of its own that are still
  open, it is lost: it can only fail from there, and of the right one nothing is said.

  `Track` is where the readers may be, and `Mirrors` says that two readers go from one track to
  another.  The right one may also fail because the brackets around the text are one level too many.

  Main results:
    * `Mirrors.bind`, `Mirrors.iterate` — readers after one another, and repetition.
    * `gap_mirrors` — gaps, where the tracks part.
    * `accept_mirrors`, `nameHere_mirrors`, `number_mirrors`, `string_mirrors` — tokens.
-/
import Scriptlet.Proofs.KnownText
import Scriptlet.Proofs.Seam

open Scriptlet.Parser

namespace Scriptlet.Lockstep

variable {α β σ : Type}

/-! ## §1. Tracks -/

/-- What follows the text on the right. -/
def closing : List Char := ['\n', ')']

theorem closing_fromLineEnd : FromLineEnd closing := by
  intro x hx
  cases hx
  rfl

/-- No expression goes on here: at the end of the text, and at the end of the line where gaps are
    those on one line. -/
def Stops (g : Gap) (t : List Char) : Prop := t = [] ∨ g = .inline ∧ t.head? = some '\n'

/-- Nothing is missing here: no bracket is open, and only gaps follow. -/
def Complete (g : Gap) (t : List Char) : Prop := g = .inline ∧ past .lines t = []

/-- Where the two readers may be, by the texts ahead of them, and where the left one is lost. -/
structure Track where
  lost : List Char → Prop
  meets : List Char → List Char → Prop

namespace Track

/-- Both readers are at the same character. -/
def abreast : Track where
  lost _ := False
  meets t u := u = t ++ closing

/-- Both readers are at this character. -/
def here (t : List Char) : Track where
  lost _ := False
  meets t' u := t' = t ∧ u = t ++ closing

/-- Where the readers are after a gap of this kind on the left. -/
def after (g : Gap) : Track where
  lost t := Stops g t ∧ ¬ Complete g t
  meets t u := u = t ++ closing ∨ (Stops g t ∧ Complete g t) ∧ u = [')']

/-- Where the readers are on the first track they are on the second, or the left one is lost there. -/
structure Within (T U : Track) : Prop where
  lost : ∀ t, T.lost t → U.lost t
  meets : ∀ t u, T.meets t u → U.lost t ∨ U.meets t u

theorem Within.refl (T : Track) : T.Within T := ⟨fun _ h => h, fun _ _ h => .inr h⟩

/-- Readers that are abreast are so after a gap that is empty. -/
theorem abreast_within (g : Gap) : abreast.Within (after g) :=
  ⟨fun _ h => h.elim, fun _ _ h => .inr (.inl h)⟩

/-- Abreast at a known character. -/
theorem here_within (t : List Char) : (here t).Within abreast :=
  ⟨fun _ h => h.elim, fun _ _ h => .inr (h.1 ▸ h.2)⟩

end Track

open Track

/-! ## §2. Readers in lockstep -/

/-- Nothing is read after a failure. -/
theorem bind_of_error {p : Parser α} {f : α → Parser β} {c : Cursor} {e : Error}
    (h : p c = .error e) : (p >>= f) c = .error e := by
  show (p c).bind _ = _
  rw [h]
  rfl

/-- A repetition that ends has one round, or a round that consumed text and a repetition after it. -/
theorem iterate_eq_ok {step : σ → Parser (Round σ β)} {state : σ} {c c' : Cursor} {b : β}
    (h : iterate step state c = .ok (b, c')) :
    step state c = .ok (.done b, c') ∨ ∃ state' next, step state c = .ok (.again state', next) ∧
      next.rest.length < c.rest.length ∧ iterate step state' next = .ok (b, c') := by
  rw [iterate] at h
  cases hround : step state c with
  | error e =>
    rw [hround] at h
    cases h
  | ok r =>
    obtain ⟨round, next⟩ := r
    rw [hround] at h
    -- the round was the last, or it asked for another
    cases round with
    | done result =>
      cases h
      exact .inl rfl
    | again state' =>
      dsimp only at h
      split at h
      · rename_i hless
        exact .inr ⟨state', next, rfl, hless, h⟩
      · cases h

/-- The reading failed because no level was left. -/
def TooDeep (r : Except Error (α × Cursor)) : Prop :=
  ∃ line column, r = .error (.malformed line column "nesting too deep")

/-- A round without a level left ends the repetition. -/
theorem TooDeep.iterate {step : σ → Parser (Round σ β)} {state : σ} {c : Cursor}
    (h : TooDeep (step state c)) : TooDeep (iterate step state c) := by
  obtain ⟨line, column, hdeep⟩ := h
  exact ⟨line, column, by rw [Parser.iterate, hdeep]⟩

/-- Wherever the readers are on the first track and the left one reads something, the right one reads
    the same and they are on the track for it; or the left one is lost, or the right one runs out of
    levels.  From where the left one is lost it does not come back. -/
structure Mirrors (T : Track) (p q : Parser α) (U : α → Track) : Prop where
  lost : ∀ {c c' : Cursor} {a : α}, p c = .ok (a, c') → T.lost c.rest → (U a).lost c'.rest
  runs : ∀ {c c' d : Cursor} {a : α}, p c = .ok (a, c') → T.meets c.rest d.rest →
    (U a).lost c'.rest ∨ TooDeep (q d) ∨ ∃ d', q d = .ok (a, d') ∧ (U a).meets c'.rest d'.rest

namespace Mirrors

variable {T T' : Track} {p q : Parser α} {U U' : α → Track} {V : β → Track}

/-- What reads nothing stays where it is. -/
theorem pure {a : α} (h : T.Within (U a)) : Mirrors T (pure a) (pure a) U where
  lost hrun hlost := by
    cases hrun
    exact h.lost _ hlost
  runs {c c' d a} hrun hmeets := by
    cases hrun
    rcases h.meets _ _ hmeets with hlost | hmeets
    · exact .inl hlost
    · exact .inr (.inr ⟨d, rfl, hmeets⟩)

/-- What reads nothing is mirrored by everything. -/
theorem refused (h : ∀ c, ∃ e, p c = .error e) : Mirrors T p q U where
  lost {c _ _} hrun := by
    obtain ⟨e, he⟩ := h c
    cases he.symm.trans hrun
  runs {c _ _ _} hrun := by
    obtain ⟨e, he⟩ := h c
    cases he.symm.trans hrun

theorem unexpected {what : String} : Mirrors T (unexpected what) q U := .refused fun _ => ⟨_, rfl⟩

/-- It may be asked less of where the readers begin. -/
theorem weaken (h : Mirrors T p q U) (hpre : T'.Within T) : Mirrors T' p q U where
  lost hrun hlost := h.lost hrun (hpre.lost _ hlost)
  runs hrun hmeets := by
    rcases hpre.meets _ _ hmeets with hlost | hmeets
    · exact .inl (h.lost hrun hlost)
    · exact h.runs hrun hmeets

/-- And more may be allowed of where they end. -/
theorem strengthen (h : Mirrors T p q U) (hpost : ∀ a, (U a).Within (U' a)) : Mirrors T p q U' where
  lost hrun hlost := (hpost _).lost _ (h.lost hrun hlost)
  runs hrun hmeets := by
    rcases h.runs hrun hmeets with hlost | hdeep | ⟨d', hq, hmeets⟩
    · exact .inl ((hpost _).lost _ hlost)
    · exact .inr (.inl hdeep)
    · rcases (hpost _).meets _ _ hmeets with hlost | hmeets
      · exact .inl hlost
      · exact .inr (.inr ⟨d', hq, hmeets⟩)

/-- **Readers after one another.** -/
theorem bind {f g : α → Parser β} (hp : Mirrors T p q U) (hf : ∀ a, Mirrors (U a) (f a) (g a) V) :
    Mirrors T (p >>= f) (q >>= g) V where
  lost hrun hlost := by
    obtain ⟨a, c', hfirst, hrest⟩ := bind_eq_ok.mp hrun
    exact (hf a).lost hrest (hp.lost hfirst hlost)
  runs {c c'' d b} hrun hmeets := by
    obtain ⟨a, c', hfirst, hrest⟩ := bind_eq_ok.mp hrun
    rcases hp.runs hfirst hmeets with hlost | ⟨line, column, hdeep⟩ | ⟨d', hq, hmeets'⟩
    -- the left one was lost on the way and stays so
    · exact .inl ((hf a).lost hrest hlost)
    -- the right one has run out of levels, and reads nothing more
    · exact .inr (.inl ⟨line, column, bind_of_error hdeep⟩)
    -- both have read the same, and go on
    · have hcontinue : (q >>= g) d = g a d' := by
        show (q d).bind _ = _
        rw [hq]
        rfl
      rw [hcontinue]
      exact (hf a).runs hrest hmeets'

/-- Looking at the place, on each side its own. -/
theorem get {f g : Cursor → Parser β}
    (h : ∀ c d, d.rest = c.rest ++ closing → Mirrors (here c.rest) (f c) (g d) V) :
    Mirrors abreast (get >>= f) (get >>= g) V where
  lost _ hlost := hlost.elim
  runs {c _ d _} hrun hmeets := (h c d hmeets).runs hrun ⟨rfl, hmeets⟩

/-- Going one level down, where the right side may have none left. -/
theorem within {deeper deeper' : Option σ} {inner inner' : σ → Parser α}
    (h : ∀ d d', deeper = some d → deeper' = some d' → Mirrors abreast (inner d) (inner' d') U) :
    Mirrors abreast (within deeper inner) (within deeper' inner') U := by
  cases hd : deeper with
  | none => exact .refused fun _ => ⟨_, rfl⟩
  | some d =>
    cases hd' : deeper' with
    | none => exact ⟨fun _ hlost => hlost.elim, fun _ _ => .inr (.inl ⟨_, _, rfl⟩)⟩
    | some d' => exact h d d' hd hd'

/-- The track for a round: the loop's own before another round. -/
def roundTrack (T : Track) (V : β → Track) : Round σ β → Track
  | .again _ => T
  | .done b => V b

/-- The left side does not come back by repetition. -/
theorem iterate_lost {step step' : σ → Parser (Round σ β)}
    (hstep : ∀ state, Mirrors T (step state) (step' state) (roundTrack T V)) {state : σ}
    {c c' : Cursor} {b : β} (hrun : Parser.iterate step state c = .ok (b, c')) (hlost : T.lost c.rest) :
    (V b).lost c'.rest := by
  -- on the text that is left, of which each further round has consumed some
  induction hn : c.rest.length using Nat.strongRecOn generalizing state c with
  | ind n ih =>
    rcases iterate_eq_ok hrun with hdone | ⟨state', next, hround, hless, hrest⟩
    · exact (hstep state).lost hdone hlost
    · exact ih next.rest.length (by omega) hrest ((hstep state).lost hround hlost) rfl

/-- **Repetition** goes on for the same rounds on both sides, if the right side consumes text in each
    round in which the left side does. -/
theorem iterate {step step' : σ → Parser (Round σ β)}
    (hstep : ∀ state, Mirrors T (step state) (step' state) (roundTrack T V))
    (hshorter : ∀ {state state'} {c c' d d' : Cursor}, step state c = .ok (.again state', c') →
      T.meets c.rest d.rest → T.meets c'.rest d'.rest → c'.rest.length < c.rest.length →
      d'.rest.length < d.rest.length) (state : σ) :
    Mirrors T (iterate step state) (iterate step' state) V := by
  refine ⟨fun hrun => iterate_lost hstep hrun, ?_⟩
  intro c c' d b hrun hmeets
  induction hn : c.rest.length using Nat.strongRecOn generalizing state c d with
  | ind n ih =>
    rcases iterate_eq_ok hrun with hdone | ⟨state', next, hround, hless, hrest⟩
    -- the last round
    · rcases (hstep state).runs hdone hmeets with hlost | hdeep | ⟨d', hd, hmeets'⟩
      · exact .inl hlost
      · exact .inr (.inl hdeep.iterate)
      · exact .inr (.inr ⟨d', by rw [Parser.iterate, hd], hmeets'⟩)
    -- a round before others, which begin where it has ended
    · rcases (hstep state).runs hround hmeets with hlost | hdeep | ⟨d', hd, hmeets'⟩
      · exact .inl (iterate_lost hstep hrest hlost)
      · exact .inr (.inl hdeep.iterate)
      · have hgoesOn : Parser.iterate step' state d = Parser.iterate step' state' d' := by
          rw [Parser.iterate, hd]
          exact if_pos (hshorter hround hmeets hmeets' hless)
        rw [hgoesOn]
        exact ih next.rest.length (by omega) state' hrest hmeets' rfl

end Mirrors

/-! ## §3. Gaps -/

/-- What follows the text opens no comment with its last character. -/
theorem opensComment_append_closing (c : Char) (t : List Char) :
    opensComment c (t ++ closing) = opensComment c t := by
  cases t with
  | nil => rfl
  | cons x t => rfl

/-- A gap that goes to the end of the text, or a comment in which the text ends, goes on through the
    line end behind it. -/
theorem lines_length_closing (inComment : Bool) (t : List Char) :
    Gap.lines.length inComment (t ++ closing) =
      if Gap.lines.length inComment t = t.length then t.length + 1
      else Gap.lines.length inComment t := by
  fun_induction Gap.length Gap.lines inComment t with
  | case1 inComment => cases inComment <;> rfl
  -- inside a comment: its line end, and what is no line end
  | case2 c rest hline hadmits ih =>
    rw [List.cons_append, Gap.length, if_pos hline, if_pos hadmits, ih, List.length_cons]
    simp only [Nat.add_right_cancel_iff]
    split <;> rfl
  | case3 c rest hline hadmits =>
    obtain rfl := beq_iff_eq.mp hline
    exact absurd rfl hadmits
  | case4 c rest hline ih =>
    rw [List.cons_append, Gap.length, if_neg hline, ih, List.length_cons]
    simp only [Nat.add_right_cancel_iff]
    split <;> rfl
  -- outside: what the gap admits, what opens a comment, and what ends the gap
  | case5 c rest hadmits ih =>
    rw [List.cons_append, Gap.length, if_pos hadmits, ih, List.length_cons]
    simp only [Nat.add_right_cancel_iff]
    split <;> rfl
  | case6 c rest hadmits hopens ih =>
    rw [List.cons_append, Gap.length, if_neg hadmits, opensComment_append_closing, if_pos hopens, ih,
      List.length_cons]
    simp only [Nat.add_right_cancel_iff]
    split <;> rfl
  | case7 c rest hadmits hopens =>
    rw [List.cons_append, Gap.length, if_neg hadmits, opensComment_append_closing, if_neg hopens]
    rfl

/-- Only gaps are ahead if the gap is as long as the text. -/
theorem past_eq_nil {g : Gap} {t : List Char} : past g t = [] ↔ g.length false t = t.length := by
  have hle := Seam.gap_length_le g false t
  rw [past, List.drop_eq_nil_iff]
  omega

/-- With the closing bracket behind the text, a gap goes on to it or ends where it did. -/
theorem past_append_closing (t : List Char) :
    past .lines (t ++ closing) = if past .lines t = [] then [')'] else past .lines t ++ closing := by
  have hle := Seam.gap_length_le .lines false t
  rw [past, lines_length_closing]
  by_cases hall : Gap.lines.length false t = t.length
  · rw [if_pos hall, if_pos (past_eq_nil.mpr hall), List.drop_append]
    simp [closing]
  · rw [if_neg hall, if_neg fun hnil => hall (past_eq_nil.mp hnil), List.drop_append_of_le_length hle]
    rfl

theorem lines_admits (c : Char) : Gap.lines.admits c = (Gap.inline.admits c || c == '\n') := rfl

/-- A gap with line ends begins with a gap on one line. -/
theorem lines_length_inline (inComment : Bool) (t : List Char) :
    Gap.lines.length inComment t = Gap.inline.length inComment t +
      Gap.lines.length false (t.drop (Gap.inline.length inComment t)) := by
  fun_induction Gap.length Gap.inline inComment t with
  | case1 inComment => rfl
  | case2 c rest hline hadmits ih =>
    obtain rfl := beq_iff_eq.mp hline
    cases hadmits
  -- a gap on one line stops before the line end, and the other one goes on from there
  | case3 c rest hline hadmits =>
    obtain rfl := beq_iff_eq.mp hline
    rw [List.drop_zero, Nat.zero_add]
    rfl
  | case4 c rest hline ih =>
    rw [Gap.length, if_neg hline, ih, List.drop_succ_cons]
    omega
  | case5 c rest hadmits ih =>
    have hlines : Gap.lines.admits c = true := by rw [lines_admits, hadmits, Bool.true_or]
    rw [Gap.length, if_pos hlines, ih, List.drop_succ_cons]
    omega
  | case6 c rest hadmits hopens ih =>
    -- a line end opens no comment
    have hlines : ¬Gap.lines.admits c = true := by
      intro hlines
      rw [lines_admits, Bool.or_eq_true] at hlines
      obtain rfl := beq_iff_eq.mp (hlines.resolve_left hadmits)
      cases hopens
    rw [Gap.length, if_neg hlines, if_pos hopens, ih, List.drop_succ_cons]
    omega
  | case7 c rest hadmits hopens => rw [List.drop_zero, Nat.zero_add]

/-- Past a gap on one line the other kind of gap ends where it would have ended. -/
theorem past_lines_past_inline (t : List Char) : past .lines (past .inline t) = past .lines t := by
  rw [past, past, past, List.drop_drop, lines_length_inline false t]

/-- Both kinds of gap end at the same place if it is not at the end of the line. -/
theorem past_inline_eq {t : List Char} (h : ¬Stops .inline (past .inline t)) :
    past .inline t = past .lines t := by
  have hnone : Gap.inline.length false (past .inline t) = 0 := length_after_gap .inline false t
  rw [← past_lines_past_inline]
  cases hpast : past .inline t with
  | nil => exact absurd (.inl hpast) h
  | cons c rest =>
    -- what ends the gap on one line is no line end
    have hline : (c == '\n') = false := by
      refine beq_eq_false_iff_ne.mpr fun heq => h (.inr ⟨rfl, ?_⟩)
      rw [hpast, heq]
      rfl
    rw [hpast, Gap.length] at hnone
    rw [past, Gap.length]
    by_cases hadmits : Gap.inline.admits c = true
    · rw [if_pos hadmits] at hnone
      cases hnone
    · rw [if_neg hadmits] at hnone
      by_cases hopens : opensComment c rest = true
      · rw [if_pos hopens] at hnone
        cases hnone
      · have hlines : ¬Gap.lines.admits c = true := by
          rwa [lines_admits, hline, Bool.or_false]
        rw [if_neg hlines, if_neg hopens]
        rfl

/-- Where no expression goes on there is no gap of the kind either. -/
theorem past_of_stops {g : Gap} {t : List Char} (h : Stops g t) : past g t = t := by
  rcases h with rfl | ⟨rfl, hhead⟩
  · rfl
  · cases t with
    | nil => rfl
    | cons c rest =>
      cases hhead
      rfl

theorem rest_skip (c : Cursor) (g : Gap) : (c.skip g).rest = past g c.rest :=
  c.rest_advanceBy (g.length false c.rest)

theorem gap_eq_ok {g : Gap} {c c' : Cursor} {a : Unit} (h : gap g c = .ok (a, c')) :
    c'.rest = past g c.rest := by
  cases h
  exact rest_skip c g

/-- **Gaps**, where the tracks part: the left one of the kind given, the right one with line ends. -/
theorem gap_mirrors {g : Gap} (hg : g ≠ .separators) :
    Mirrors (after g) (gap g) (gap .lines) fun _ => after g where
  lost hrun hlost := by
    rw [gap_eq_ok hrun, past_of_stops hlost.1]
    exact hlost
  runs {c c' d a} hrun hmeets := by
    obtain ⟨d', hd, hrest⟩ := Reads.gap (g := .lines) d rfl
    rw [gap_eq_ok hrun]
    suffices hsuff : (after g).lost (past g c.rest) ∨ (after g).meets (past g c.rest) d'.rest from
      hsuff.imp_right fun h => .inr ⟨d', hd, h⟩
    rw [hrest]
    -- they were abreast, or the left one had come to the end already
    rcases hmeets with hd | ⟨hstops, hd⟩
    · rw [hd, past_append_closing]
      cases g with
      | separators => exact absurd rfl hg
      -- inside brackets of its own the left one is lost at the end of the text
      | lines =>
        by_cases hnil : past .lines c.rest = []
        · exact .inl ⟨.inl hnil, fun h => by cases h.1⟩
        · rw [if_neg hnil]
          exact .inr (.inl rfl)
      | inline =>
        -- at the end of the line it is lost, unless only gaps follow
        by_cases hstops : Stops .inline (past .inline c.rest)
        · by_cases hnil : past .lines c.rest = []
          · rw [if_pos hnil]
            refine .inr (.inr ⟨⟨hstops, rfl, ?_⟩, rfl⟩)
            rw [past_lines_past_inline, hnil]
          · refine .inl ⟨hstops, fun hcomplete => hnil ?_⟩
            rw [← past_lines_past_inline, hcomplete.2]
        -- else both kinds of gap end at the same place
        · have hsame := past_inline_eq hstops
          rw [if_neg fun hnil => hstops (.inl (hsame.trans hnil)), hsame]
          exact .inr (.inl rfl)
    · rw [past_of_stops hstops.1, hd]
      exact .inr (.inr ⟨hstops, rfl⟩)

/-! ## §4. Tokens -/

/-- As many characters of the text on both sides leave them abreast. -/
theorem rest_advanceBy_abreast {c d : Cursor} (hd : d.rest = c.rest ++ closing) {n : Nat}
    (hn : n ≤ c.rest.length) : (d.advanceBy n).rest = (c.advanceBy n).rest ++ closing := by
  rw [Cursor.rest_advanceBy, Cursor.rest_advanceBy, hd, List.drop_append_of_le_length hn]

/-- What a step does on the left it does on the right. -/
def Agrees (step : Cursor → Option Cursor) : Prop :=
  ∀ c d : Cursor, d.rest = c.rest ++ closing → step c = none ∧ step d = none ∨
    ∃ n, n ≤ c.rest.length ∧ step c = some (c.advanceBy n) ∧ step d = some (d.advanceBy n)

theorem accept?_cons {c : Cursor} {x : Char} {t : List Char} (hc : c.rest = x :: t) (ch : Char) :
    c.accept? ch = if x = ch then some c.advance else none := by
  unfold Cursor.accept? Cursor.atEnd Cursor.peek Cursor.peekAt
  rw [hc]
  by_cases hx : x = ch
  · simp [hx]
  · simp [hx]

theorem accept?_nil {c : Cursor} (hc : c.rest = []) (ch : Char) : c.accept? ch = none := by
  unfold Cursor.accept? Cursor.atEnd
  rw [hc]
  rfl

/-- A character is looked for on both sides; no line end is. -/
theorem accept?_agrees {ch : Char} (hch : ch ≠ '\n') : Agrees (·.accept? ch) := by
  intro c d hd
  cases hc : c.rest with
  | nil =>
    rw [hc] at hd
    have hright : d.accept? ch = none := by rw [accept?_cons hd, if_neg hch.symm]
    exact .inl ⟨accept?_nil hc ch, hright⟩
  | cons x t =>
    rw [hc] at hd
    dsimp only
    rw [accept?_cons hc, accept?_cons hd]
    by_cases hx : x = ch
    · rw [if_pos hx, if_pos hx]
      exact .inr ⟨1, Nat.succ_le_succ (Nat.zero_le _), rfl, rfl⟩
    · rw [if_neg hx, if_neg hx]
      exact .inl ⟨rfl, rfl⟩

/-- So is a word. -/
theorem acceptText?_agrees {word : String}
    (hword : word.toList.all (fun ch => ch != '\n' && ch != Cursor.pastEnd) = true) :
    Agrees (·.acceptText? word) := by
  intro c d hd
  -- neither the line end nor the bracket is part of a word
  have hsame : d.stands word = c.stands word := by
    unfold Cursor.stands
    rw [hd, closing_fromLineEnd.sees_append hword]
  have hend : Cursor.pastEnd ∉ word.toList := fun hmem => by
    have hnot := List.all_eq_true.mp hword _ hmem
    revert hnot
    decide
  dsimp only
  unfold Cursor.acceptText?
  rw [hsame]
  by_cases hstands : c.stands word = true
  · rw [if_pos hstands, if_pos hstands]
    refine .inr ⟨word.length, ?_, rfl, rfl⟩
    have hrest := congrArg List.length (Cursor.eq_append_of_sees hend hstands)
    rw [List.length_append, String.length_toList] at hrest
    omega
  · rw [if_neg hstands, if_neg hstands]
    exact .inl ⟨rfl, rfl⟩

/-- **What may be taken here** is taken on both sides or on neither. -/
theorem taking_mirrors {step : Cursor → Option Cursor} (h : Agrees step) :
    Mirrors abreast (taking step) (taking step) fun _ => abreast where
  lost _ hlost := hlost.elim
  runs {c c' d taken} hrun hd := by
    rcases h c d hd with ⟨hc, hd'⟩ | ⟨n, hn, hc, hd'⟩
    · rw [taking_of_none hc] at hrun
      cases hrun
      exact .inr (.inr ⟨d, taking_of_none hd', hd⟩)
    · rw [taking_of_some hc] at hrun
      cases hrun
      exact .inr (.inr ⟨_, taking_of_some hd', rest_advanceBy_abreast hd hn⟩)

theorem accept_mirrors {ch : Char} (hch : ch ≠ '\n') :
    Mirrors abreast (accept ch) (accept ch) fun _ => abreast :=
  taking_mirrors (accept?_agrees hch)

theorem acceptText_mirrors {word : String}
    (hword : word.toList.all (fun ch => ch != '\n' && ch != Cursor.pastEnd) = true) :
    Mirrors abreast (acceptText word) (acceptText word) fun _ => abreast :=
  taking_mirrors (acceptText?_agrees hword)

/-- Something was taken, or the readers are where they were after the gap. -/
def takenTrack (g : Gap) (taken : Bool) : Track := if taken then abreast else after g

/-- Inside brackets on both sides a character is also looked for where the left text may have ended. -/
theorem accept_mirrors_inside (ch : Char) :
    Mirrors (after .lines) (accept ch) (accept ch) (takenTrack .lines) where
  lost {c c' taken} hrun hlost := by
    have hnil : c.rest = [] := hlost.1.resolve_right fun h => by cases h.1
    rw [accept, taking_of_none (accept?_nil hnil ch)] at hrun
    cases hrun
    exact hlost
  runs {c c' d taken} hrun hmeets := by
    have hd : d.rest = c.rest ++ closing := hmeets.resolve_right fun h => by cases h.1.2.1
    -- the left text has ended inside brackets, which is why the left one is lost
    cases hc : c.rest with
    | nil =>
      rw [accept, taking_of_none (accept?_nil hc ch)] at hrun
      cases hrun
      exact .inl ⟨.inl hc, fun h => by cases h.1⟩
    | cons x t =>
      have hd' := hd
      rw [hc] at hd'
      have hleft := accept?_cons hc ch
      have hright := accept?_cons hd' ch
      by_cases hx : x = ch
      · rw [if_pos hx] at hleft hright
        rw [accept, taking_of_some hleft] at hrun
        cases hrun
        refine .inr (.inr ⟨_, taking_of_some hright, ?_⟩)
        refine rest_advanceBy_abreast (n := 1) hd ?_
        rw [hc]
        exact Nat.succ_le_succ (Nat.zero_le _)
      · rw [if_neg hx] at hleft hright
        rw [accept, taking_of_none hleft] at hrun
        cases hrun
        exact .inr (.inr ⟨_, taking_of_none hright, .inl hd⟩)

/-- A character that must stand past a gap, inside brackets. -/
theorem expect_mirrors (ch : Char) :
    Mirrors (after .lines) (expect .lines ch) (expect .lines ch) fun _ => abreast := by
  refine (gap_mirrors (by decide)).bind fun _ => (accept_mirrors_inside ch).bind fun taken => ?_
  cases taken with
  | true => exact .pure (.refl _)
  | false => exact .unexpected

theorem advance_mirrors {x : Char} {t : List Char} :
    Mirrors (here (x :: t)) advance advance fun _ => abreast where
  lost _ hlost := hlost.elim
  runs {c c' d _} hrun hmeets := by
    cases hrun
    refine .inr (.inr ⟨d.advance, rfl, ?_⟩)
    show d.advance.rest = c.advance.rest ++ closing
    rw [Cursor.rest_advance, Cursor.rest_advance, hmeets.1, hmeets.2]
    rfl

/-- **A name** ends before the line end. -/
theorem nameHere_mirrors (what : String) :
    Mirrors abreast (nameHere what) (nameHere what) fun _ => abreast := by
  refine .get fun c d hd => ?_
  rcases closing_fromLineEnd.name?_append hd with ⟨hc, -⟩ | ⟨word, n, hn, hc, hd'⟩
  · rw [hc]
    exact .unexpected
  · rw [hc, hd']
    refine ⟨fun _ hlost => hlost.elim, fun hrun _ => ?_⟩
    cases hrun
    exact .inr (.inr ⟨_, rfl, rest_advanceBy_abreast hd hn⟩)

/-- A literal has been read if its scanner has taken it. -/
theorem literal_eq_ok {read : Cursor → Except Error α × Cursor} {c c' : Cursor} {a : α} :
    literal read c = .ok (a, c') ↔ read c = (.ok a, c') := by
  show literal.liftExcept (read c).1 (read c).2 = .ok (a, c') ↔ _
  obtain ⟨result, next⟩ := read c
  cases result with
  | error e =>
    constructor
    · intro h
      cases h
    · intro h
      cases h
  | ok b =>
    constructor
    · intro h
      cases h
      rfl
    · intro h
      cases h
      rfl

/-- **A number** ends before the line end. -/
theorem number_mirrors :
    Mirrors abreast (literal Cursor.number) (literal Cursor.number) fun _ => abreast where
  lost _ hlost := hlost.elim
  runs {c c' d a} hrun hd := by
    obtain ⟨hsame, n, hn, hc, hd'⟩ := closing_fromLineEnd.number_append hd
    have hread := literal_eq_ok.mp hrun
    rw [hread] at hsame hc
    obtain rfl : c' = c.advanceBy n := hc
    have hright : Cursor.number d = (.ok a, d.advanceBy n) := Prod.ext hsame hd'
    exact .inr (.inr ⟨_, literal_eq_ok.mpr hright, rest_advanceBy_abreast hd hn⟩)

/-- **A string** that ends in the text ends there on both sides. -/
theorem string_mirrors :
    Mirrors abreast (literal Cursor.string) (literal Cursor.string) fun _ => abreast where
  lost _ hlost := hlost.elim
  runs {c c' d a} hrun hd := by
    have hread := literal_eq_ok.mp hrun
    unfold Cursor.string at hread
    split at hread
    · rename_i hquote
      cases hc : c.rest with
      | nil =>
        rw [hc] at hquote
        cases hquote
      | cons x t =>
        rw [hc] at hread hquote
        cases hbody : quotedBody t with
        | none =>
          rw [List.tail_cons, hbody] at hread
          cases hread
        | some found =>
          obtain ⟨body, n⟩ := found
          rw [List.tail_cons, hbody] at hread
          cases hread
          -- what follows the closing quote does not matter
          obtain ⟨hmore, hlength⟩ := Seam.quotedBody_append hbody closing
          refine .inr (.inr ⟨d.advanceBy (n + 1), literal_eq_ok.mpr ?_, ?_⟩)
          · unfold Cursor.string
            rw [hd, hc, List.cons_append, List.tail_cons, hmore]
            exact if_pos hquote
          · refine rest_advanceBy_abreast hd ?_
            rw [hc]
            exact Nat.succ_le_succ hlength
    · cases hread

end Scriptlet.Lockstep
