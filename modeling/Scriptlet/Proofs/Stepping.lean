/-
  Scriptlet.Proofs.Stepping — machines that do what readers do.

  `Counted.Counts` says of a reader and a machine at once all that is needed to see that the machine's
  runs end: it has an outcome, it is the reader's, the counters are back where they were, the marks are
  within bounds, and results that should have read something have.  Tokens, counters and loops have it.

  A loop over characters takes as many as `Counted.span` counts in the text ahead, and comes to its end
  within a budget of more than that text.  What it takes is the gap, the name, the number or the string
  that the reader cuts out of the text at once.

  Main results:
    * `Counted.characters_run` — a loop over characters ends, and where.
    * `Counted.gap_run`, `Counted.nameHere_run`, `Counted.number_run`, `Counted.string_run`,
      `Counted.scan_run` — the loops and what they are the loops of.
    * `Counted.descend_counts`, `Counted.nested_counts`, `Counted.unnested_counts` — counters.
    * `Counted.repeated_counts` — an unguarded loop ends, and the guard of the guarded one never holds.
-/
import Scriptlet.Proofs.Counting
import Scriptlet.Proofs.Reading

namespace Scriptlet

/-! ## §1. Places -/

namespace Cursor

theorem advanceBy_add (m n : Nat) (c : Cursor) :
    advanceBy (m + n) c = advanceBy n (advanceBy m c) := by
  induction m generalizing c with
  | zero => rw [Nat.zero_add, advanceBy]
  | succ m ih => rw [Nat.succ_add, advanceBy, advanceBy, ih]

end Cursor

namespace Reader

/-- The marks are above what they mark and within their bounds. -/
structure InBounds (r : Reader) : Prop where
  offset_le : r.offset ≤ r.furthest
  furthest_le : r.furthest ≤ r.text.length
  depth_le : r.depth ≤ r.deepest
  deepest_le : r.deepest ≤ maxNesting

/-- How a reader is left, by a result or a failure: the counters as they were, the marks within their
    bounds. -/
structure Leaves (before after : Reader) : Prop where
  text : after.text = before.text
  nesting : after.nesting = before.nesting
  depth : after.depth = before.depth
  inBounds : after.InBounds

/-- Before anything is read the marks stand at the beginning. -/
theorem start_inBounds (source : String) : (start source).InBounds :=
  ⟨Nat.le_refl 0, Nat.zero_le _, Nat.le_refl 0, Nat.zero_le _⟩

theorem Leaves.refl {r : Reader} (h : r.InBounds) : r.Leaves r := ⟨rfl, rfl, rfl, h⟩

/-- What is kept on both halves of the way is kept. -/
theorem Leaves.trans {r s t : Reader} (h₁ : r.Leaves s) (h₂ : s.Leaves t) : r.Leaves t :=
  ⟨h₂.text.trans h₁.text, h₂.nesting.trans h₁.nesting, h₂.depth.trans h₁.depth, h₂.inBounds⟩

/-- What has been read and what lies ahead are the whole text. -/
theorem InBounds.offset_add_ahead {r : Reader} (h : r.InBounds) :
    r.offset + r.cursor.rest.length = r.text.length := by
  have hoffset := h.offset_le
  have hfurthest := h.furthest_le
  show r.offset + (r.text.drop r.offset).length = r.text.length
  rw [List.length_drop]
  omega

/-- **One character further**: the offset moves as the cursor does. -/
theorem cursor_advance (r : Reader) : r.advance.cursor = r.cursor.advance := by
  unfold advance Cursor.advance cursor
  cases hnext : r.text[r.offset]? with
  | none =>
    -- at the end both stay where they are
    have hahead : r.text.drop r.offset = [] :=
      List.drop_eq_nil_of_le (List.getElem?_eq_none_iff.mp hnext)
    simp only [hahead]
  | some ch =>
    obtain ⟨hlt, hch⟩ := List.getElem?_eq_some_iff.mp hnext
    -- else what lies ahead is the character and the rest
    have hahead : r.text.drop r.offset = ch :: r.text.drop (r.offset + 1) := by
      rw [List.drop_eq_getElem_cons hlt, hch]
    simp only [hahead]
    by_cases hline : (ch == '\n') = true
    · simp only [if_pos hline]
    · simp only [if_neg hline]

/-- Any number of characters further. -/
theorem cursor_advanceBy (n : Nat) (r : Reader) :
    (advanceBy n r).cursor = Cursor.advanceBy n r.cursor := by
  induction n generalizing r with
  | zero => rfl
  | succ n ih => rw [advanceBy, ih, cursor_advance, Cursor.advanceBy]

/-- Moving on keeps the counters, and pushes the mark along. -/
theorem advance_leaves {r : Reader} (h : r.InBounds) :
    r.Leaves r.advance ∧ r.offset ≤ r.advance.offset := by
  unfold advance
  cases hnext : r.text[r.offset]? with
  | none => exact ⟨.refl h, Nat.le_refl _⟩
  | some ch =>
    obtain ⟨hlt, -⟩ := List.getElem?_eq_some_iff.mp hnext
    have hfurthest : max r.furthest (r.offset + 1) ≤ r.text.length := Nat.max_le.mpr ⟨h.furthest_le, hlt⟩
    exact ⟨⟨rfl, rfl, rfl, Nat.le_max_right _ _, hfurthest, h.depth_le, h.deepest_le⟩,
      Nat.le_succ _⟩

theorem advanceBy_leaves {r : Reader} (h : r.InBounds) (n : Nat) :
    r.Leaves (advanceBy n r) ∧ r.offset ≤ (advanceBy n r).offset := by
  induction n generalizing r with
  | zero => exact ⟨.refl h, Nat.le_refl _⟩
  | succ n ih =>
    obtain ⟨hstep, hle⟩ := advance_leaves h
    obtain ⟨hrest, hle'⟩ := ih hstep.inBounds
    exact ⟨hstep.trans hrest, Nat.le_trans hle hle'⟩

/-- At the end of the text there is nowhere to go. -/
theorem advance_of_ahead_nil {r : Reader} (h : r.cursor.rest = []) : r.advance = r := by
  have hnext : r.text[r.offset]? = none :=
    List.getElem?_eq_none_iff.mpr (List.drop_eq_nil_iff.mp h)
  unfold advance
  rw [hnext]

theorem advance_ahead {r : Reader} {ch : Char} {rest : List Char} (h : r.cursor.rest = ch :: rest) :
    r.advance.cursor.rest = rest := by
  rw [cursor_advance, Cursor.rest_advance, h]
  rfl

/-- Nothing lies past the end. -/
theorem advanceBy_min (n : Nat) (r : Reader) :
    advanceBy (min n r.cursor.rest.length) r = advanceBy n r := by
  induction n generalizing r with
  | zero => rw [Nat.zero_min]
  | succ n ih =>
    cases hrest : r.cursor.rest with
    | nil =>
      have hstays : advanceBy n r = r := by
        rw [← ih r, hrest, List.length_nil, Nat.min_zero, advanceBy]
      rw [advanceBy, advance_of_ahead_nil hrest, hstays, List.length_nil, Nat.min_zero, advanceBy]
    | cons ch rest =>
      rw [List.length_cons, Nat.add_min_add_right, advanceBy, advanceBy, ← ih r.advance,
        advance_ahead hrest]

/-- A place ahead is reached by as many steps as it is away. -/
theorem moveTo_advanceBy (n : Nat) (r : Reader) :
    r.moveTo (Cursor.advanceBy n r.cursor) = advanceBy n r := by
  have hcount : r.cursor.rest.length - (Cursor.advanceBy n r.cursor).rest.length =
      min n r.cursor.rest.length := by
    rw [Cursor.rest_advanceBy, List.length_drop]
    omega
  rw [moveTo, hcount, advanceBy_min]

/-- A place that lies ahead can be moved to. -/
theorem cursor_moveTo {r : Reader} {c : Cursor} {n : Nat} (h : c = Cursor.advanceBy n r.cursor) :
    (r.moveTo c).cursor = c := by
  rw [h, moveTo_advanceBy, cursor_advanceBy]

theorem advanceBy_add (m n : Nat) (r : Reader) :
    advanceBy (m + n) r = advanceBy n (advanceBy m r) := by
  induction m generalizing r with
  | zero => rw [Nat.zero_add, advanceBy]
  | succ m ih => rw [Nat.succ_add, advanceBy, advanceBy, ih]

/-- What is left of the same text says how far the reading is. -/
theorem Leaves.offset_lt {r s : Reader} (h : r.InBounds) (hl : r.Leaves s)
    (hless : s.cursor.rest.length < r.cursor.rest.length) : r.offset < s.offset := by
  have hr := h.offset_add_ahead
  have hs := hl.inBounds.offset_add_ahead
  rw [hl.text] at hs
  omega

/-- And how far the reading is says what is left. -/
theorem Leaves.ahead_lt {r s : Reader} (h : r.InBounds) (hl : r.Leaves s)
    (hless : r.offset < s.offset) : s.cursor.rest.length < r.cursor.rest.length := by
  have hr := h.offset_add_ahead
  have hs := hl.inBounds.offset_add_ahead
  rw [hl.text] at hs
  omega

end Reader

/-! ## §2. Tokens -/

namespace Parser

variable {α β : Type}

/-- Here the reader only goes forward, and results as marked have read something. -/
def StepsAt (marked : α → Bool) (p : Parser α) (c : Cursor) : Prop :=
  ∀ a c', p c = .ok (a, c') →
    (∃ n, c' = Cursor.advanceBy n c) ∧ (marked a = true → c'.rest.length < c.rest.length)

/-- Wherever it begins, the reader only goes forward, and results as marked have read something. -/
def Steps (marked : α → Bool) (p : Parser α) : Prop := ∀ c, StepsAt marked p c

namespace Steps

variable {p : Parser α} {marked : α → Bool} {wanted : β → Bool}

theorem pure {a : α} (h : marked a = false) : Steps marked (pure a : Parser α) := by
  intro c b c' hrun
  cases hrun
  exact ⟨⟨0, rfl⟩, fun hb => by rw [h] at hb; cases hb⟩

theorem refused (h : ∀ c, ∃ e, p c = .error e) : Steps marked p := by
  intro c a c' hrun
  obtain ⟨e, he⟩ := h c
  rw [he] at hrun
  cases hrun

/-- **One reader after the other**: the second must read something where it should and the first has
    not. -/
theorem bind {f : α → Parser β} (hp : Steps marked p)
    (hf : ∀ a, Steps (fun b => !marked a && wanted b) (f a)) : Steps wanted (p >>= f) := by
  intro c b c'' hrun
  obtain ⟨a, c', hfirst, hrest⟩ := bind_eq_ok.mp hrun
  -- the first takes `m` characters and the second `n`, so what lies ahead only gets less
  obtain ⟨⟨m, hm⟩, hmarked⟩ := hp c a c' hfirst
  obtain ⟨⟨n, hn⟩, hwanted⟩ := hf a c' b c'' hrest
  have hm' : c'.rest.length ≤ c.rest.length := by
    rw [hm, Cursor.rest_advanceBy, List.length_drop]
    omega
  have hn' : c''.rest.length ≤ c'.rest.length := by
    rw [hn, Cursor.rest_advanceBy, List.length_drop]
    omega
  -- both together take `m + n`; it is left to see that they take any
  refine ⟨⟨m + n, by rw [Cursor.advanceBy_add, ← hm, hn]⟩, fun hb => ?_⟩
  cases ha : marked a with
  | true =>
    -- the first has read something
    have hless := hmarked ha
    omega
  | false =>
    -- the first may have read nothing, so the second has to
    have hunread : (!marked a && wanted b) = true := by
      rw [ha, hb]
      rfl
    have hless := hwanted hunread
    omega

theorem get {f : Cursor → Parser β} (hf : ∀ c, Steps wanted (f c)) :
    Steps wanted (MonadState.get >>= f) := fun c => hf c c

/-- What may be taken here. -/
theorem taken {step : Cursor → Option Cursor}
    (h : ∀ c c', step c = some c' →
      (∃ n, c' = Cursor.advanceBy n c) ∧ c'.rest.length < c.rest.length) :
    Steps (fun taken => taken) (Parser.taking step) := by
  intro c taken c' hrun
  have htaken := taking_eq_ok hrun
  cases taken with
  | true =>
    obtain ⟨hn, hless⟩ := h c c' htaken
    exact ⟨hn, fun _ => hless⟩
  | false => exact ⟨⟨0, htaken⟩, fun hfalse => by cases hfalse⟩

/-- What may be taken here, and what follows in either case. -/
theorem taking {step : Cursor → Option Cursor} {f : Bool → Parser β}
    (h : ∀ c c', step c = some c' →
      (∃ n, c' = Cursor.advanceBy n c) ∧ c'.rest.length < c.rest.length)
    (hyes : Steps (fun _ => false) (f true)) (hno : Steps wanted (f false)) :
    Steps wanted (Parser.taking step >>= f) := by
  apply (taken h).bind
  intro taken
  cases taken with
  | true => exact hyes
  | false => exact hno

end Steps

/-- A character that is taken is a step forward. -/
theorem accept?_forward {ch : Char} (c c' : Cursor) (h : c.accept? ch = some c') :
    (∃ n, c' = Cursor.advanceBy n c) ∧ c'.rest.length < c.rest.length := by
  constructor
  · unfold Cursor.accept? at h
    split at h
    · cases h
      exact ⟨1, rfl⟩
    · cases h
  · rw [Cursor.rest_of_accept? h]
    exact Nat.lt_succ_self _

/-- So is a word that is not empty and has no end mark in it. -/
theorem acceptText?_forward {word : String} (hword : Cursor.pastEnd ∉ word.toList)
    (hfilled : word.toList ≠ []) (c c' : Cursor) (h : c.acceptText? word = some c') :
    (∃ n, c' = Cursor.advanceBy n c) ∧ c'.rest.length < c.rest.length := by
  have hpos := List.length_pos_iff.mpr hfilled
  constructor
  · unfold Cursor.acceptText? at h
    split at h
    · cases h
      exact ⟨word.length, rfl⟩
    · cases h
  · rw [Cursor.rest_of_acceptText? hword h, List.length_append]
    omega

/-- A keyword is a word that no longer word begins with. -/
theorem acceptText?_of_acceptKeyword? {word : String} {c c' : Cursor}
    (h : c.acceptKeyword? word = some c') : c.acceptText? word = some c' := by
  unfold Cursor.acceptKeyword? Cursor.standsKeyword at h
  unfold Cursor.acceptText?
  by_cases hstands : c.stands word = true
  · rw [if_pos hstands]
    split at h
    · exact h
    · cases h
  · simp [hstands] at h

theorem acceptKeyword?_forward {word : String} (hword : Cursor.pastEnd ∉ word.toList)
    (hfilled : word.toList ≠ []) (c c' : Cursor) (h : c.acceptKeyword? word = some c') :
    (∃ n, c' = Cursor.advanceBy n c) ∧ c'.rest.length < c.rest.length :=
  acceptText?_forward hword hfilled c c' (acceptText?_of_acceptKeyword? h)

theorem taking_of_none {step : Cursor → Option Cursor} {c : Cursor} (h : step c = none) :
    taking step c = .ok (false, c) := by
  have hget : ∀ f : Cursor → Parser Bool, (get >>= f) c = f c c := fun _ => rfl
  rw [taking, hget, h]
  rfl

theorem taking_of_some {step : Cursor → Option Cursor} {c c' : Cursor} (h : step c = some c') :
    taking step c = .ok (true, c') := by
  have hget : ∀ f : Cursor → Parser Bool, (get >>= f) c = f c c := fun _ => rfl
  rw [taking, hget, h]
  rfl

/-- A name has at least its first character. -/
theorem name?_forward {c c' : Cursor} {word : String} (h : c.name? = some (word, c')) :
    (∃ n, c' = Cursor.advanceBy n c) ∧ c'.rest.length < c.rest.length := by
  unfold Cursor.name? at h
  by_cases hstart : Text.isNameStart c.peek = true
  · rw [if_pos hstart] at h
    cases h
    -- the first character is one of those that the name is made of
    have hlength : 0 < (c.rest.takeWhile Text.isNameChar).length ∧ 0 < c.rest.length := by
      unfold Cursor.peek Cursor.peekAt at hstart
      cases hrest : c.rest with
      | nil =>
        rw [hrest] at hstart
        revert hstart
        decide
      | cons ch rest =>
        rw [hrest] at hstart
        have hch : Text.isNameChar ch = true := isNameChar_of_isNameStart hstart
        rw [List.takeWhile_cons_of_pos hch]
        exact ⟨Nat.succ_pos _, Nat.succ_pos _⟩
    refine ⟨⟨_, rfl⟩, ?_⟩
    rw [Cursor.rest_advanceBy, List.length_drop]
    omega
  · rw [if_neg hstart] at h
    cases h

/-- A name that is read is never empty. -/
theorem nameHere_steps (what : String) : Steps (fun _ => true) (nameHere what) := by
  intro c a c' hrun
  obtain ⟨d, d', hget, hrun⟩ := bind_eq_ok.mp hrun
  cases hget
  cases hname : c.name? with
  | none =>
    rw [hname] at hrun
    cases hrun
  | some found =>
    rw [hname] at hrun
    cases hrun
    obtain ⟨hn, hless⟩ := name?_forward hname
    exact ⟨hn, fun _ => hless⟩

theorem gap_steps (g : Gap) : Steps (fun _ => false) (gap g) := by
  intro c a c' hrun
  cases hrun
  exact ⟨⟨_, rfl⟩, fun h => by cases h⟩

theorem advance_steps : Steps (fun _ => false) advance := by
  intro c a c' hrun
  cases hrun
  exact ⟨⟨1, rfl⟩, fun h => by cases h⟩

/-- Where the text has not ended a character is read. -/
theorem advance_stepsAt {c : Cursor} (h : c.atEnd = false) : StepsAt (fun _ => true) advance c := by
  intro a c' hrun
  cases hrun
  refine ⟨⟨1, rfl⟩, fun _ => ?_⟩
  have hfilled : c.rest ≠ [] := by
    intro hrest
    simp [Cursor.atEnd, hrest] at h
  have hpos := List.length_pos_iff.mpr hfilled
  rw [Cursor.rest_advance, List.length_drop]
  omega

/-! Operators: one that is there has been read. -/

theorem wordOperator_steps {word : String} (hword : Cursor.pastEnd ∉ word.toList)
    (hfilled : word.toList ≠ []) (op : BinaryOp) : Steps Option.isSome (wordOperator word op) :=
  .taking (acceptText?_forward hword hfilled) (.pure rfl) (.pure rfl)

theorem productOperator_steps : Steps Option.isSome productOperator :=
  .taking accept?_forward (.pure rfl)
    (.taking accept?_forward (.pure rfl) (.taking accept?_forward (.pure rfl) (.pure rfl)))

theorem sumOperator_steps : Steps Option.isSome sumOperator := by
  apply Steps.taking accept?_forward
  · exact .pure rfl
  · apply Steps.get
    intro c
    split
    · exact .taking accept?_forward (.pure rfl) (.pure rfl)
    · exact .pure rfl

/-- The dots of a range may or may not have a `<` behind them. -/
theorem rangeOperator_steps : Steps Option.isSome rangeOperator := by
  apply Steps.taking (acceptText?_forward (by decide) (by decide))
  · exact .taking accept?_forward (.pure rfl) (.pure rfl)
  · exact .pure rfl

theorem comparisonOperator_steps : Steps Option.isSome comparisonOperator :=
  .taking (acceptText?_forward (by decide) (by decide)) (.pure rfl)
    (.taking (acceptText?_forward (by decide) (by decide)) (.pure rfl)
      (.taking (acceptText?_forward (by decide) (by decide)) (.pure rfl)
        (.taking (acceptText?_forward (by decide) (by decide)) (.pure rfl)
          (.taking accept?_forward (.pure rfl)
            (.taking accept?_forward (.pure rfl) (.pure rfl))))))

/-- A prefixed operator is one character. -/
theorem leadingOperator_steps : Steps Option.isSome leadingOperator := by
  have hminus : Steps Option.isSome
      (accept '-' >>= fun taken => if taken = true then pure (some UnaryOp.neg) else pure none) :=
    .taking accept?_forward (.pure rfl) (.pure rfl)
  apply Steps.get
  intro c
  split
  · exact .taking accept?_forward (.pure rfl) hminus
  · exact hminus

/-! Literals: a string has at least its first quote, a number at least one digit. -/

theorem string_forward {c : Cursor} (h : c.rest.head? = some '"') :
    ∃ n, 0 < n ∧ (Cursor.string c).2 = Cursor.advanceBy n c := by
  unfold Cursor.string
  rw [h, if_pos (by decide)]
  cases quotedBody c.rest.tail with
  | none =>
    have hfilled : c.rest ≠ [] := by
      intro hrest
      rw [hrest] at h
      cases h
    exact ⟨c.rest.length, List.length_pos_iff.mpr hfilled, rfl⟩
  | some found => exact ⟨found.2 + 1, Nat.succ_pos _, rfl⟩

theorem number_forward {c : Cursor} {ch : Char} (h : c.rest.head? = some ch)
    (hdigit : ch.isDigit = true) : ∃ n, 0 < n ∧ (Cursor.number c).2 = Cursor.advanceBy n c := by
  have hwhole : 0 < (c.rest.takeWhile Char.isDigit).length := by
    cases hrest : c.rest with
    | nil =>
      rw [hrest] at h
      cases h
    | cons first rest =>
      rw [hrest] at h
      cases h
      rw [List.takeWhile_cons_of_pos hdigit]
      exact Nat.succ_pos _
  unfold Cursor.number
  dsimp only
  -- which digits follow the point does not matter, only whether there are some
  generalize (if (c.rest.drop (c.rest.takeWhile Char.isDigit).length).head? == some '.' then
    (c.rest.drop (c.rest.takeWhile Char.isDigit).length).tail.takeWhile Char.isDigit else []) =
      fraction
  by_cases hfraction : fraction.isEmpty = true
  · rw [if_pos hfraction]
    exact ⟨_, hwhole, rfl⟩
  · rw [if_neg hfraction]
    exact ⟨_, by omega, rfl⟩

end Parser

/-! ## §3. Loops over characters -/

namespace Counted

variable {α β σ : Type}

/-- What follows begins where the first machine has ended. -/
theorem bind_ok {q : Counted α} {k : α → Counted β} {r r' : Reader} {a : α}
    (h : q r = some (.ok a, r')) : (q >>= k) r = k a r' := by
  show (q r).bind _ = _
  rw [h]
  rfl

/-- A failure ends the run. -/
theorem bind_error {q : Counted α} {k : α → Counted β} {r r' : Reader} {e : Error}
    (h : q r = some (.error e, r')) : (q >>= k) r = some (.error e, r') := by
  show (q r).bind _ = _
  rw [h]
  rfl

/-- What follows sees of a machine only how it ends. -/
theorem bind_apply_congr {q q' : Counted α} {r : Reader} (h : q' r = q r) (k : α → Counted β) :
    (q' >>= k) r = (q >>= k) r := by
  show (q' r).bind _ = (q r).bind _
  rw [h]

theorem get_bind {k : Reader → Counted β} {r : Reader} : (get >>= k) r = k r r := rfl

/-- A token is taken at once. -/
theorem token_ok {p : Parser α} {r : Reader} {a : α} {c : Cursor} (h : p r.cursor = .ok (a, c)) :
    token p r = some (.ok a, r.moveTo c) := by
  rw [token, get_bind, h]
  rfl

theorem token_error {p : Parser α} {r : Reader} {e : Error} (h : p r.cursor = .error e) :
    token p r = some (.error e, r) := by
  rw [token, get_bind, h]
  rfl

theorem look_bind {k : Cursor → Counted β} {r : Reader} : (look >>= k) r = k r.cursor r := rfl

/-- How many characters a loop takes from a text, and the state with which it ends. -/
def span (go : σ → Char → List Char → Option σ) : σ → List Char → Nat × σ
  | state, [] => (0, state)
  | state, ch :: rest =>
    match go state ch rest with
    | some next => ((span go next rest).1 + 1, (span go next rest).2)
    | none => (0, state)

section Characters

variable {go : σ → Char → List Char → Option σ} {state next : σ} {ch : Char} {rest : List Char}
variable {budget : Nat} {r : Reader}

/-- The character is taken and the loop goes on with the rest. -/
theorem span_again (h : go state ch rest = some next) :
    span go state (ch :: rest) = ((span go next rest).1 + 1, (span go next rest).2) := by
  rw [span, h]

theorem span_done (h : go state ch rest = none) : span go state (ch :: rest) = (0, state) := by
  rw [span, h]

/-- **A loop over characters ends**, after the characters that the text ahead has for it. -/
theorem characters_run (h : r.cursor.rest.length < budget) :
    characters budget go state r = some (.ok (span go state r.cursor.rest).2,
      Reader.advanceBy (span go state r.cursor.rest).1 r) := by
  induction budget generalizing r state with
  | zero => omega
  | succ budget ih =>
    cases hrest : r.cursor.rest with
    | nil =>
      have hstep : characters.step go state r = some (.ok (.done state), r) := by
        rw [characters.step, look_bind, hrest]
        rfl
      exact bind_ok hstep
    | cons ch rest =>
      cases hgo : go state ch rest with
      | none =>
        have hstep : characters.step go state r = some (.ok (.done state), r) := by
          rw [characters.step, look_bind, hrest]
          dsimp only
          rw [hgo]
          rfl
        rw [span_done hgo]
        exact bind_ok hstep
      | some next =>
        have hstep : characters.step go state r = some (.ok (.again next), r.advance) := by
          rw [characters.step, look_bind, hrest]
          dsimp only
          rw [hgo]
          rfl
        -- one character less lies ahead, and one round less is left
        have hahead : r.advance.cursor.rest = rest := Reader.advance_ahead hrest
        have hless : r.advance.cursor.rest.length < budget := by
          rw [hahead]
          rw [hrest, List.length_cons] at h
          omega
        have hloop := @ih next r.advance hless
        rw [hahead] at hloop
        rw [span_again hgo]
        exact (bind_ok hstep).trans hloop

end Characters

/-! Gaps -/

/-- The loop over a gap takes as many characters as the gap has. -/
theorem span_inGap (g : Gap) (inComment : Bool) (text : List Char) :
    (span (inGap g) inComment text).1 = g.length inComment text := by
  induction text generalizing inComment with
  | nil => cases inComment <;> rfl
  | cons ch rest ih =>
    cases inComment with
    -- inside a comment all is taken up to the line end, which ends the gap or belongs to it
    | true =>
      rw [Gap.length]
      by_cases hline : (ch == '\n') = true
      · by_cases hadmits : g.admits ch = true
        · have hgo : inGap g true ch rest = some false := by rw [inGap, if_pos hline, if_pos hadmits]
          rw [span_again hgo, ih, if_pos hline, if_pos hadmits]
        · have hgo : inGap g true ch rest = none := by rw [inGap, if_pos hline, if_neg hadmits]
          rw [span_done hgo, if_pos hline, if_neg hadmits]
      · have hgo : inGap g true ch rest = some true := by rw [inGap, if_neg hline]
        rw [span_again hgo, ih, if_neg hline]
    -- outside, a blank is taken, and so is what opens a comment
    | false =>
      rw [Gap.length]
      by_cases hadmits : g.admits ch = true
      · have hgo : inGap g false ch rest = some false := by rw [inGap, if_pos hadmits]
        rw [span_again hgo, ih, if_pos hadmits]
      · by_cases hopens : opensComment ch rest = true
        · have hgo : inGap g false ch rest = some true := by
            rw [inGap, if_neg hadmits, if_pos hopens]
          rw [span_again hgo, ih, if_neg hadmits, if_pos hopens]
        · have hgo : inGap g false ch rest = none := by rw [inGap, if_neg hadmits, if_neg hopens]
          rw [span_done hgo, if_neg hadmits, if_neg hopens]

section Loops

variable {budget : Nat} {r : Reader} (h : r.cursor.rest.length < budget)

include h

/-- The loop goes past the gap. -/
theorem gap_run (g : Gap) : gap budget g r = token (Parser.gap g) r := by
  have hskip : Parser.gap g r.cursor = .ok ((), r.cursor.skip g) := rfl
  rw [token_ok hskip, Cursor.skip, Reader.moveTo_advanceBy, ← span_inGap]
  exact bind_ok (characters_run h)

omit h

/-! Names and numbers -/

/-- A loop over a kind of characters takes the longest text of that kind. -/
theorem span_ofKind (kind : Char → Bool) (before text : List Char) :
    span (ofKind kind) before text =
      ((text.takeWhile kind).length, before ++ text.takeWhile kind) := by
  induction text generalizing before with
  | nil => simp [span]
  | cons ch rest ih =>
    by_cases hkind : kind ch = true
    · have hgo : ofKind kind before ch rest = some (before ++ [ch]) := if_pos hkind
      rw [span_again hgo, ih, List.takeWhile_cons_of_pos hkind, List.append_assoc]
      rfl
    · have hgo : ofKind kind before ch rest = none := if_neg hkind
      rw [span_done hgo, List.takeWhile_cons_of_neg hkind, List.append_nil]
      rfl

include h

/-- The loop takes the longest run of such characters. -/
theorem ofKind_run (kind : Char → Bool) : characters budget (ofKind kind) [] r =
    some (.ok (r.cursor.rest.takeWhile kind),
      Reader.advanceBy (r.cursor.rest.takeWhile kind).length r) := by
  rw [characters_run h, span_ofKind]
  rfl

/-- The loop takes the name. -/
theorem nameHere_run (what : String) :
    nameHere budget what r = token (Parser.nameHere what) r := by
  have hget : ∀ f : Cursor → Parser String, (get >>= f) r.cursor = f r.cursor r.cursor := fun _ => rfl
  rw [nameHere, look_bind]
  by_cases hstart : Text.isNameStart r.cursor.peek = true
  -- the word is cut out of the text at once, and there is at least its first character
  · have hname : Parser.nameHere what r.cursor =
        .ok (String.ofList (r.cursor.rest.takeWhile Text.isNameChar),
          Cursor.advanceBy (r.cursor.rest.takeWhile Text.isNameChar).length r.cursor) := by
      rw [Parser.nameHere, hget, Cursor.name?, if_pos hstart]
      rfl
    rw [if_pos hstart, token_ok hname, Reader.moveTo_advanceBy]
    exact bind_ok (ofKind_run h Text.isNameChar)
  -- where no name begins, both fail without moving
  · have hname : Parser.nameHere what r.cursor = .error (r.cursor.unexpected what) := by
      rw [Parser.nameHere, hget, Cursor.name?, if_neg hstart]
      rfl
    rw [if_neg hstart, token_error hname]
    exact token_error rfl

omit h

/-- A point and a digit ahead are a fraction that is not empty. -/
theorem fraction_isEmpty (text : List Char) :
    (text.getD 0 Cursor.pastEnd == '.' && (text.getD 1 Cursor.pastEnd).isDigit) =
      !(if text.head? == some '.' then text.tail.takeWhile Char.isDigit else []).isEmpty := by
  cases text with
  | nil => rfl
  | cons first rest =>
    by_cases hpoint : first = '.'
    · subst hpoint
      cases rest with
      | nil => rfl
      | cons next more =>
        show next.isDigit = !((next :: more).takeWhile Char.isDigit).isEmpty
        rw [List.takeWhile_cons]
        cases next.isDigit <;> rfl
    · simp [hpoint]

include h

/-- The loops take the number. -/
theorem number_run :
    number budget r = some ((Cursor.number r.cursor).1, r.moveTo (Cursor.number r.cursor).2) := by
  have hwhole := ofKind_run h Char.isDigit
  have hpoint := fraction_isEmpty (r.cursor.rest.drop (r.cursor.rest.takeWhile Char.isDigit).length)
  unfold Cursor.number
  generalize r.cursor.rest.takeWhile Char.isDigit = whole at hwhole hpoint
  have hafter : (Reader.advanceBy whole.length r).cursor.rest = r.cursor.rest.drop whole.length := by
    rw [Reader.cursor_advanceBy, Cursor.rest_advanceBy]
  rw [number, bind_ok hwhole, look_bind, Cursor.peek, Cursor.peekAt, Cursor.peekAt, hafter, hpoint]
  dsimp only
  generalize hfraction : (if (r.cursor.rest.drop whole.length).head? == some '.' then
    (r.cursor.rest.drop whole.length).tail.takeWhile Char.isDigit else []) = fraction
  cases hempty : fraction.isEmpty with
  | true =>
    -- the digits are all
    simp only [Bool.not_true, Bool.false_eq_true, if_false, if_true, Reader.moveTo_advanceBy]
    cases Number.Decimal.word? whole <;> rfl
  | false =>
    have hdigits : (r.cursor.rest.drop whole.length).tail.takeWhile Char.isDigit = fraction := by
      split at hfraction
      · exact hfraction
      · rw [← hfraction] at hempty
        cases hempty
    -- the second loop begins after the point
    have htail : (Reader.advanceBy whole.length r).advance.cursor.rest =
        (r.cursor.rest.drop whole.length).tail := by
      rw [Reader.cursor_advance, Cursor.rest_advance, hafter, List.drop_one]
    have hshort : (Reader.advanceBy whole.length r).advance.cursor.rest.length < budget := by
      rw [htail, List.length_tail, List.length_drop]
      omega
    have hrun := ofKind_run hshort Char.isDigit
    rw [htail, hdigits] at hrun
    show (characters budget (ofKind Char.isDigit) [] >>= fun fraction =>
      pure (.double (Number.Decimal.doubleOfDigits whole fraction)) : Counted Numeral)
        (Reader.advanceBy whole.length r).advance = _
    rw [bind_ok hrun]
    simp only [Bool.false_eq_true, if_false, Reader.moveTo_advanceBy, Reader.advanceBy_add]
    rfl

omit h

/-! Strings -/

/-- The loop stops at the closing quote, or at the end if there is none. -/
theorem span_inQuotes (body text : List Char) :
    (∃ more n, quotedBody text = some (more, n + 1) ∧
        span inQuotes (body, false) text = (n, (body ++ more, false)) ∧
        (text.drop n).head? = some '"') ∨
      quotedBody text = none ∧ (span inQuotes (body, false) text).1 = text.length := by
  fun_induction quotedBody text generalizing body with
  | case1 => exact .inr ⟨rfl, rfl⟩
  | case2 c rest hquote =>
    have hgo : inQuotes (body, false) c rest = none := if_pos hquote
    refine .inl ⟨[], 0, rfl, ?_, ?_⟩
    · rw [span_done hgo, List.append_nil]
    · rw [beq_iff_eq.mp hquote]
      rfl
  | case3 c hquote hpair =>
    -- a backslash at the very end
    have hgo : inQuotes (body, false) c [] = some (body, true) := by
      rw [inQuotes, if_neg hquote, if_pos hpair]
    exact .inr ⟨rfl, by rw [span_again hgo]; rfl⟩
  | case4 c hquote hpair e more ih =>
    have hgo : inQuotes (body, false) c (e :: more) = some (body, true) := by
      rw [inQuotes, if_neg hquote, if_pos hpair]
    have hpaired : inQuotes (body, true) e more = some (body ++ unescape e, false) := rfl
    rw [span_again hgo, span_again hpaired]
    rcases ih (body ++ unescape e) with ⟨found, n, hbody, hspan, hend⟩ | ⟨hbody, hspan⟩
    · rw [hbody, hspan]
      refine .inl ⟨unescape e ++ found, n + 2, rfl, ?_, hend⟩
      rw [List.append_assoc]
    · rw [hbody, hspan]
      exact .inr ⟨rfl, rfl⟩
  | case5 c rest hquote hpair ih =>
    have hgo : inQuotes (body, false) c rest = some (body ++ [c], false) := by
      rw [inQuotes, if_neg hquote, if_neg hpair]
    rw [span_again hgo]
    rcases ih (body ++ [c]) with ⟨found, n, hbody, hspan, hend⟩ | ⟨hbody, hspan⟩
    · rw [hbody, hspan]
      refine .inl ⟨c :: found, n + 1, rfl, ?_, hend⟩
      rw [List.append_assoc]
      rfl
    · rw [hbody, hspan]
      exact .inr ⟨rfl, rfl⟩

/-- The character stands here and is taken. -/
theorem accept_here {ch : Char} (hch : r.cursor.rest.head? = some ch) :
    accept ch r = some (.ok true, r.advance) := by
  have htaken : r.cursor.accept? ch = some r.cursor.advance := by
    cases hrest : r.cursor.rest with
    | nil =>
      rw [hrest] at hch
      cases hch
    | cons first rest =>
      rw [hrest] at hch
      cases hch
      simp [Cursor.accept?, Cursor.atEnd, Cursor.peek, Cursor.peekAt, hrest]
  have hread : Parser.accept ch r.cursor = .ok (true, r.cursor.advance) :=
    Parser.taking_of_some htaken
  have hmove : r.moveTo r.cursor.advance = r.advance := Reader.moveTo_advanceBy 1 r
  rw [accept, token_ok hread, hmove]

/-- At the end there is no character to be taken. -/
theorem accept_atEnd {ch : Char} (hend : r.cursor.rest = []) :
    accept ch r = some (.ok false, r) := by
  have hnone : r.cursor.accept? ch = none := by simp [Cursor.accept?, Cursor.atEnd, hend]
  have hread : Parser.accept ch r.cursor = .ok (false, r.cursor) := Parser.taking_of_none hnone
  have hmove : r.moveTo r.cursor = r := Reader.moveTo_advanceBy 0 r
  rw [accept, token_ok hread, hmove]

include h

/-- The loop takes the string. -/
theorem string_run (hquote : r.cursor.rest.head? = some '"') :
    string budget r = some ((Cursor.string r.cursor).1, r.moveTo (Cursor.string r.cursor).2) := by
  obtain ⟨text, hrest⟩ : ∃ text, r.cursor.rest = '"' :: text := by
    cases hrest : r.cursor.rest with
    | nil =>
      rw [hrest] at hquote
      cases hquote
    | cons first text =>
      rw [hrest] at hquote
      cases hquote
      exact ⟨text, rfl⟩
  have hahead : r.advance.cursor.rest = text := Reader.advance_ahead hrest
  have hless : r.advance.cursor.rest.length < budget := by
    rw [hahead]
    rw [hrest, List.length_cons] at h
    omega
  have hbody : characters budget inQuotes ([], false) r.advance =
      some (.ok (span inQuotes ([], false) text).2,
        Reader.advanceBy (span inQuotes ([], false) text).1 r.advance) :=
    hahead ▸ characters_run hless
  unfold Cursor.string
  rw [if_pos (beq_iff_eq.mpr hquote), hrest, List.tail_cons, string, look_bind]
  refine (bind_ok (accept_here hquote)).trans ((bind_ok hbody).trans ?_)
  -- where the loop has stopped there is the closing quote, or nothing is left
  rcases span_inQuotes [] text with ⟨more, n, hquoted, hspan, hclose⟩ | ⟨hquoted, hspan⟩
  · have hend : (Reader.advanceBy n r.advance).cursor.rest.head? = some '"' := by
      rw [Reader.cursor_advanceBy, Cursor.rest_advanceBy, hahead]
      exact hclose
    rw [hquoted, hspan]
    refine (bind_ok (accept_here hend)).trans ?_
    show some (Except.ok (String.ofList ([] ++ more)), _) =
      some (Except.ok (String.ofList more), r.moveTo (Cursor.advanceBy (n + 1 + 1) r.cursor))
    rw [Reader.moveTo_advanceBy, Nat.add_comm n 1, Reader.advanceBy_add, Reader.advanceBy_add]
    rfl
  · have hend : (Reader.advanceBy text.length r.advance).cursor.rest = [] := by
      rw [Reader.cursor_advanceBy, Cursor.rest_advanceBy, hahead, List.drop_length]
    rw [hquoted, hspan]
    refine (bind_ok (accept_atEnd hend)).trans ?_
    show some (Except.error (r.cursor.malformed "unterminated string literal"), _) =
      some (Except.error (r.cursor.malformed "unterminated string literal"),
        r.moveTo (Cursor.advanceBy (text.length + 1) r.cursor))
    rw [Reader.moveTo_advanceBy]
    rfl

omit h

/-! Looking ahead -/

/-- One character of the scan. -/
theorem scan_step {i nesting : Nat} {inString : Bool} {c : Char} {more : List Char}
    (hdrop : r.cursor.rest.drop i = c :: more) :
    (∃ answer, scan.step (i, nesting, inString) r = some (.ok (.done answer), r) ∧
        Parser.startsPair nesting inString (c :: more) = answer) ∨
      ∃ k nesting' inString',
        scan.step (i, nesting, inString) r =
          some (.ok (.again (i + (k + 1), nesting', inString')), r) ∧
        Parser.startsPair nesting inString (c :: more) =
          Parser.startsPair nesting' inString' (more.drop k) := by
  have hpeek : r.cursor.peekAt i = c := by
    rw [Cursor.peekAt, List.getD_eq_getElem?_getD, ← List.head?_drop, hdrop]
    rfl
  rw [scan.step, look_bind, hpeek, Parser.startsPair.eq_def]
  dsimp only
  -- the end mark stops the scan, wherever it stands
  by_cases hpast : (c == Cursor.pastEnd) = true
  · simp only [if_pos hpast]
    exact .inl ⟨false, rfl, rfl⟩
  simp only [if_neg hpast]
  cases inString with
  -- inside a string only quotes and backslashes count
  | true =>
    by_cases hpair : (c == '\\') = true
    · simp only [if_true, if_pos hpair]
      refine .inr ⟨1, nesting, true, rfl, ?_⟩
      cases more <;> rfl
    · simp only [if_true, if_neg hpair]
      exact .inr ⟨0, nesting, c != '"', rfl, rfl⟩
  | false =>
    simp only [Bool.false_eq_true, if_false]
    by_cases hquote : (c == '"') = true
    · simp only [if_pos hquote]
      exact .inr ⟨0, nesting, true, rfl, rfl⟩
    simp only [if_neg hquote]
    -- brackets go one level down and up
    by_cases hopen : (c == '(' || c == '[' || c == '{') = true
    · simp only [if_pos hopen]
      exact .inr ⟨0, nesting + 1, false, rfl, rfl⟩
    simp only [if_neg hopen]
    by_cases hclose : (c == ')' || c == '}') = true
    · simp only [if_pos hclose]
      exact .inr ⟨0, nesting - 1, false, rfl, rfl⟩
    simp only [if_neg hclose]
    -- outside all brackets commas and colons decide; a closing bracket ends the collection
    by_cases htop : (nesting == 0) = true
    · simp only [if_pos htop]
      by_cases hstop : (c == ']' || c == ',') = true
      · simp only [if_pos hstop]
        exact .inl ⟨false, rfl, rfl⟩
      simp only [if_neg hstop]
      by_cases hcolon : (c == ':') = true
      · simp only [if_pos hcolon]
        exact .inl ⟨true, rfl, rfl⟩
      · simp only [if_neg hcolon]
        exact .inr ⟨0, nesting, false, rfl, rfl⟩
    -- inside brackets they do not
    simp only [if_neg htop]
    by_cases hbracket : (c == ']') = true
    · simp only [if_pos hbracket]
      exact .inr ⟨0, nesting - 1, false, rfl, rfl⟩
    · simp only [if_neg hbracket]
      exact .inr ⟨0, nesting, false, rfl, rfl⟩

include h

/-- The loop finds what the scan of the text ahead finds, and reads nothing. -/
theorem scan_run :
    scan budget r = some (.ok (Parser.startsPair 0 false r.cursor.rest), r) := by
  -- on the rounds left in the budget, which are more than the characters not looked at yet
  have hrounds : ∀ rounds i nesting inString, r.cursor.rest.length - i < rounds →
      repeated scan.step rounds (i, nesting, inString) r =
        some (.ok (Parser.startsPair nesting inString (r.cursor.rest.drop i)), r) := by
    intro rounds
    induction rounds with
    | zero =>
      intro i nesting inString hlength
      omega
    | succ rounds ih =>
      intro i nesting inString hlength
      cases hdrop : r.cursor.rest.drop i with
      | nil =>
        have hpeek : r.cursor.peekAt i = Cursor.pastEnd := by
          rw [Cursor.peekAt, List.getD_eq_getElem?_getD, ← List.head?_drop, hdrop]
          rfl
        have hstep : scan.step (i, nesting, inString) r = some (.ok (.done false), r) := by
          rw [scan.step, look_bind, hpeek]
          rfl
        exact bind_ok hstep
      | cons c more =>
        have hmore : ∀ k, r.cursor.rest.drop (i + (k + 1)) = more.drop k := by
          intro k
          rw [← List.drop_drop, hdrop]
          rfl
        have hi : i < r.cursor.rest.length := by
          have hlength := congrArg List.length hdrop
          rw [List.length_drop, List.length_cons] at hlength
          omega
        rcases scan_step hdrop with ⟨answer, hstep, hanswer⟩ | ⟨k, nesting', inString', hstep, hnext⟩
        · rw [hanswer]
          exact bind_ok hstep
        · rw [hnext, ← hmore]
          exact (bind_ok hstep).trans (ih _ nesting' inString' (by omega))
  exact hrounds budget 0 0 false (by omega)

end Loops

/-! ## §4. Machines that do what readers do -/

/-- Here the machine has an outcome, which is the reader's: the same result and place, or the same
    error.  Counters and marks are left as they should be, and results as marked have read something. -/
def RunsAs (marked : α → Bool) (p : Parser α) (q : Counted α) (r : Reader) : Prop :=
  ∃ result after, q r = some (result, after) ∧
    p r.cursor = result.map (fun a => (a, after.cursor)) ∧ r.Leaves after ∧
    ∀ a, result = .ok a → r.offset ≤ after.offset ∧ (marked a = true → r.offset < after.offset)

namespace RunsAs

variable {p : Parser α} {q : Counted α} {marked : α → Bool} {wanted : β → Bool} {r : Reader}

/-- **One machine after the other**, as the readers go one after the other. -/
theorem bind {f : α → Parser β} {k : α → Counted β} (hq : RunsAs marked p q r)
    (hk : ∀ a after, r.Leaves after → RunsAs (fun b => !marked a && wanted b) (f a) (k a) after) :
    RunsAs wanted (p >>= f) (q >>= k) r := by
  obtain ⟨result, mid, hrun, hread, hleaves, hmarked⟩ := hq
  have hbind : (p >>= f) r.cursor = (p r.cursor).bind fun x => f x.1 x.2 := rfl
  cases result with
  -- the first fails: so does the whole, in the same state
  | error e =>
    refine ⟨.error e, mid, bind_error hrun, ?_, hleaves, fun a ha => by cases ha⟩
    rw [hbind, hread]
    rfl
  -- the first succeeds, and the second begins in the state it leaves
  | ok a =>
    obtain ⟨result, after, hrun', hread', hleaves', hwanted⟩ := hk a mid hleaves
    refine ⟨result, after, (bind_ok hrun).trans hrun', ?_, hleaves.trans hleaves', ?_⟩
    · rw [hbind, hread]
      exact hread'
    · intro b hb
      obtain ⟨hle, hlt⟩ := hmarked a rfl
      obtain ⟨hle', hlt'⟩ := hwanted b hb
      refine ⟨Nat.le_trans hle hle', fun hwant => ?_⟩
      -- one of the two has read something where it should
      cases ha : marked a with
      | true =>
        have hless := hlt ha
        omega
      | false =>
        have hunread : (!marked a && wanted b) = true := by
          rw [ha, hwant]
          rfl
        have hless := hlt' hunread
        omega

/-- It may be asked of fewer results that they have read something. -/
theorem weaken {marked' : α → Bool} (h : RunsAs marked p q r)
    (hm : ∀ a, marked' a = true → marked a = true) : RunsAs marked' p q r := by
  obtain ⟨result, after, hrun, hread, hleaves, hmarked⟩ := h
  refine ⟨result, after, hrun, hread, hleaves, fun a ha => ?_⟩
  obtain ⟨hle, hlt⟩ := hmarked a ha
  exact ⟨hle, fun hmark => hlt (hm a hmark)⟩

/-- A token is the reader itself, and the place it has come to is moved to. -/
theorem token (hr : r.InBounds) (h : Parser.StepsAt marked p r.cursor) :
    RunsAs marked p (token p) r := by
  cases hread : p r.cursor with
  | error e =>
    exact ⟨.error e, r, token_error hread, hread, .refl hr, fun a ha => by cases ha⟩
  | ok x =>
    obtain ⟨a, c⟩ := x
    obtain ⟨⟨n, hn⟩, hmarked⟩ := h a c hread
    -- the state moves on by as much as the text ahead has lost
    obtain ⟨hleaves, hle⟩ := Reader.advanceBy_leaves hr (r.cursor.rest.length - c.rest.length)
    have hplace : (r.moveTo c).cursor = c := Reader.cursor_moveTo hn
    refine ⟨.ok a, r.moveTo c, token_ok hread, ?_, hleaves, ?_⟩
    · rw [hplace]
      exact hread
    · intro b hb
      cases hb
      refine ⟨hle, fun hmark => ?_⟩
      apply Reader.Leaves.offset_lt hr hleaves
      have hless := hmarked hmark
      rw [← hplace] at hless
      exact hless

/-- A literal that lies ahead, and a machine that takes it. -/
theorem literal {read : Cursor → Except Error α × Cursor} (hr : r.InBounds)
    (hrun : q r = some ((read r.cursor).1, r.moveTo (read r.cursor).2))
    (h : ∃ n, 0 < n ∧ (read r.cursor).2 = Cursor.advanceBy n r.cursor)
    (hahead : r.cursor.atEnd = false) :
    RunsAs (fun _ => true) (Parser.literal read) q r := by
  obtain ⟨n, hpos, hn⟩ := h
  obtain ⟨hleaves, hle⟩ :=
    Reader.advanceBy_leaves hr (r.cursor.rest.length - (read r.cursor).2.rest.length)
  have hplace : (r.moveTo (read r.cursor).2).cursor = (read r.cursor).2 := Reader.cursor_moveTo hn
  -- at least one character has been read, as there is one
  have hless : (read r.cursor).2.rest.length < r.cursor.rest.length := by
    have hfilled : r.cursor.rest ≠ [] := by
      intro hrest
      simp [Cursor.atEnd, hrest] at hahead
    have hahead := List.length_pos_iff.mpr hfilled
    rw [hn, Cursor.rest_advanceBy, List.length_drop]
    omega
  rw [← hplace] at hless
  refine ⟨(read r.cursor).1, r.moveTo (read r.cursor).2, hrun, ?_, hleaves, ?_⟩
  · rw [hplace]
    show Parser.literal.liftExcept (read r.cursor).1 (read r.cursor).2 = _
    cases (read r.cursor).1 with
    | ok a => rfl
    | error e => rfl
  · intro a _
    exact ⟨hle, fun _ => hleaves.offset_lt hr hless⟩

end RunsAs

/-- The reader is in bounds, its text is within the budget, so many levels are left, and this is what
    separates words. -/
structure Fits (budget levels : Nat) (g : Gap) (r : Reader) : Prop where
  inBounds : r.InBounds
  short : r.text.length < budget
  depth : r.depth + levels = maxNesting
  gap : r.gap = g

/-- What fits before fits after. -/
theorem Fits.leaves {budget levels : Nat} {g : Gap} {r after : Reader} (h : Fits budget levels g r)
    (hl : r.Leaves after) : Fits budget levels g after where
  inBounds := hl.inBounds
  short := by
    rw [hl.text]
    exact h.short
  depth := by
    rw [hl.depth]
    exact h.depth
  gap := by
    rw [← h.gap, Reader.gap, Reader.gap, hl.nesting]

/-- A loop over what lies ahead is within the budget. -/
theorem Fits.ahead_lt {budget levels : Nat} {g : Gap} {r : Reader} (h : Fits budget levels g r) :
    r.cursor.rest.length < budget := by
  have hahead := h.inBounds.offset_add_ahead
  have hshort := h.short
  omega

/-- **Wherever it fits, the machine runs as the reader**, and results as marked have read something. -/
def Counts (budget levels : Nat) (g : Gap) (marked : α → Bool) (p : Parser α) (q : Counted α) : Prop :=
  ∀ r, Fits budget levels g r → RunsAs marked p q r

namespace Counts

variable {budget levels : Nat} {g : Gap} {p : Parser α} {q : Counted α}
variable {marked : α → Bool} {wanted : β → Bool}

/-- A result without reading may not be one that should have read. -/
theorem pure {a : α} (h : marked a = false) :
    Counts budget levels g marked (pure a : Parser α) (pure a) := by
  intro r hr
  refine ⟨.ok a, r, rfl, rfl, .refl hr.inBounds, ?_⟩
  intro b hb
  cases hb
  exact ⟨Nat.le_refl _, fun hmark => by rw [h] at hmark; cases hmark⟩

theorem throw {e : Error} : Counts budget levels g marked (throw e : Parser α) (throw e) := by
  intro r hr
  exact ⟨.error e, r, rfl, rfl, .refl hr.inBounds, fun b hb => by cases hb⟩

/-- One machine after the other, wherever they fit. -/
theorem bind {f : α → Parser β} {k : α → Counted β} (hq : Counts budget levels g marked p q)
    (hk : ∀ a, Counts budget levels g (fun b => !marked a && wanted b) (f a) (k a)) :
    Counts budget levels g wanted (p >>= f) (q >>= k) := by
  intro r hr
  apply (hq r hr).bind
  intro a after hleaves
  exact hk a after (hr.leaves hleaves)

theorem weaken {marked' : α → Bool} (h : Counts budget levels g marked p q)
    (hm : ∀ a, marked' a = true → marked a = true) : Counts budget levels g marked' p q :=
  fun r hr => (h r hr).weaken hm

/-- Whether something was read does not matter. -/
theorem any (h : Counts budget levels g marked p q) : Counts budget levels g (fun _ => false) p q :=
  h.weaken fun _ hfalse => by cases hfalse

/-- After a part that reads something, the rest need not. -/
theorem andThen {f : α → Parser β} {k : α → Counted β}
    (hq : Counts budget levels g (fun _ => true) p q)
    (hk : ∀ a, Counts budget levels g (fun _ => false) (f a) (k a)) :
    Counts budget levels g wanted (p >>= f) (q >>= k) := hq.bind hk

/-- A part that may have read nothing. -/
theorem first {f : α → Parser β} {k : α → Counted β} (hq : Counts budget levels g marked p q)
    (hk : ∀ a, Counts budget levels g wanted (f a) (k a)) :
    Counts budget levels g wanted (p >>= f) (q >>= k) := hq.any.bind hk

theorem map {f : α → β} (hq : Counts budget levels g (fun _ => true) p q) :
    Counts budget levels g (fun _ => true) (f <$> p) (f <$> q) :=
  andThen (f := fun a => Pure.pure (f a)) (k := fun a => Pure.pure (f a)) hq fun _ => .pure rfl

/-- A token runs as its reader wherever the reader only goes forward. -/
theorem token (h : Parser.Steps marked p) : Counts budget levels g marked p (token p) :=
  fun r hr => .token hr.inBounds (h r.cursor)

theorem refused (h : ∀ c, ∃ e, p c = .error e) : Counts budget levels g marked p (Counted.token p) :=
  .token (.refused h)

theorem look {f : Cursor → Parser β} {k : Cursor → Counted β}
    (hk : ∀ c, Counts budget levels g wanted (f c) (k c)) :
    Counts budget levels g wanted (MonadState.get >>= f) (look >>= k) := fun r hr => hk r.cursor r hr

/-- Two machines that run alike wherever they fit. -/
theorem congr {q' : Counted α} (h : Counts budget levels g marked p q)
    (heq : ∀ r, Fits budget levels g r → q' r = q r) : Counts budget levels g marked p q' := by
  intro r hr
  obtain ⟨result, after, hrun, hrest⟩ := h r hr
  exact ⟨result, after, (heq r hr).trans hrun, hrest⟩

/-- A gap may be empty, so what follows has to read. -/
theorem gap (g' : Gap) {f : Unit → Parser β} {k : Unit → Counted β}
    (hk : Counts budget levels g wanted (f ()) (k ())) :
    Counts budget levels g wanted (Parser.gap g' >>= f) (Counted.gap budget g' >>= k) := by
  have hgap : Counts budget levels g (fun _ => false) (Parser.gap g') (Counted.gap budget g') :=
    (token (Parser.gap_steps g')).congr fun r hr => gap_run hr.ahead_lt g'
  exact first hgap fun _ => hk

/-- What separates words here is what the counter of brackets says. -/
theorem blank {f : Unit → Parser β} {k : Unit → Counted β}
    (hk : Counts budget levels g wanted (f ()) (k ())) :
    Counts budget levels g wanted (Parser.gap g >>= f) (Counted.blank budget >>= k) := by
  refine (gap g hk).congr fun r hr => bind_apply_congr ?_ k
  rw [Counted.blank, get_bind, hr.gap]

/-- What may be taken here, and what follows in either case. -/
theorem taking {p : Parser Bool} {q : Counted Bool} {f : Bool → Parser β} {k : Bool → Counted β}
    (hq : Counts budget levels g (fun taken => taken) p q)
    (hyes : Counts budget levels g (fun _ => false) (f true) (k true))
    (hno : Counts budget levels g wanted (f false) (k false)) :
    Counts budget levels g wanted (p >>= f) (q >>= k) := by
  apply hq.bind
  intro taken
  cases taken with
  | true => exact hyes
  | false => exact hno

end Counts

section Steps

variable {budget levels : Nat} {g : Gap} {marked : α → Bool} {p : Parser α} {q : Counted α}

theorem accept_counts (ch : Char) :
    Counts budget levels g (fun taken => taken) (Parser.accept ch) (accept ch) :=
  .token (.taken Parser.accept?_forward)

theorem acceptText_counts {word : String} (hword : Cursor.pastEnd ∉ word.toList)
    (hfilled : word.toList ≠ []) :
    Counts budget levels g (fun taken => taken) (Parser.acceptText word)
      (token (Parser.acceptText word)) :=
  .token (.taken (Parser.acceptText?_forward hword hfilled))

theorem keyword_counts {word : String} (hword : Cursor.pastEnd ∉ word.toList)
    (hfilled : word.toList ≠ []) :
    Counts budget levels g (fun taken => taken) (Parser.acceptKeyword word) (keyword word) :=
  .token (.taken (Parser.acceptKeyword?_forward hword hfilled))

theorem unexpected_counts (expected : String) :
    Counts budget levels g marked (Parser.unexpected expected) (unexpected expected) :=
  .refused fun _ => ⟨_, rfl⟩

/-- A bracket or sign that must stand past the gap. -/
theorem expect_counts (ch : Char) :
    Counts budget levels g (fun _ => true) (Parser.expect g ch) (expect budget ch) := by
  apply Counts.blank
  apply (accept_counts ch).taking
  · exact .pure rfl
  · exact unexpected_counts _

theorem nameHere_counts (what : String) :
    Counts budget levels g (fun _ => true) (Parser.nameHere what) (nameHere budget what) :=
  (Counts.token (Parser.nameHere_steps what)).congr fun _ hr => nameHere_run hr.ahead_lt what

/-- A name past the gap. -/
theorem name_counts (what : String) :
    Counts budget levels g (fun _ => true) (Parser.name g what) (name budget what) := by
  apply Counts.blank
  exact nameHere_counts what

/-- What is found by looking ahead is the reader's answer. -/
theorem scan_counts (operand : Parser Expr) :
    Counts budget levels g (fun _ => false) (Parser.byScan operand) (scan budget) := by
  intro r hr
  refine ⟨.ok (Parser.startsPair 0 false r.cursor.rest), r, scan_run hr.ahead_lt, rfl,
    .refl hr.inBounds, fun answer _ => ⟨Nat.le_refl _, fun hfalse => by cases hfalse⟩⟩

/-! ## §5. Counters -/

/-- Counters that are changed for a run and changed back do not show. -/
theorem RunsAs.around {enter leave : Reader → Reader} {r : Reader} (h : RunsAs marked p q (enter r))
    (hcursor : (enter r).cursor = r.cursor) (hoffset : (enter r).offset = r.offset)
    (hleave : ∀ after, (enter r).Leaves after → r.Leaves (leave after) ∧
      (leave after).cursor = after.cursor ∧ (leave after).offset = after.offset) :
    RunsAs marked p (around enter leave q) r := by
  obtain ⟨result, after, hrun, hread, hleaves, hmarked⟩ := h
  obtain ⟨hleft, hplace, hsame⟩ := hleave after hleaves
  refine ⟨result, leave after, ?_, ?_, hleft, ?_⟩
  -- the machine runs with the counters changed, and they are changed back however it ends
  · show (q (enter r)).map _ = _
    rw [hrun]
    rfl
  · rw [hplace, ← hcursor]
    exact hread
  · intro a ha
    rw [hsame, ← hoffset]
    exact hmarked a ha

/-- One more is open, within bounds, if a level is left. -/
theorem Fits.enter {n : Nat} {r : Reader} (h : Fits budget (n + 1) g r) : Fits budget n g r.enter := by
  have hbounds := h.inBounds
  have hdeepest := hbounds.deepest_le
  have hdepth := h.depth
  refine ⟨⟨hbounds.offset_le, hbounds.furthest_le, Nat.le_max_right _ _, ?_⟩, h.short, ?_, h.gap⟩
  · show max r.deepest (r.depth + 1) ≤ maxNesting
    omega
  · show r.depth + 1 + n = maxNesting
    omega

/-- What one more open level leaves, closing it leaves. -/
theorem leaves_of_enter {r after : Reader} (h : r.enter.Leaves after) : r.Leaves after.leave := by
  have hbounds := h.inBounds
  have hdepth : after.depth = r.depth + 1 := h.depth
  have hdepth_le := hbounds.depth_le
  refine ⟨h.text, h.nesting, ?_, hbounds.offset_le, hbounds.furthest_le, ?_, hbounds.deepest_le⟩
  · show after.depth - 1 = r.depth
    omega
  · show after.depth - 1 ≤ after.deepest
    omega

/-- One level down, if one is left. -/
theorem descend_counts {inner : Nat → Parser α}
    (h : ∀ n, levels = n + 1 → Counts budget n g marked (inner n) q) :
    Counts budget levels g marked (Parser.descend levels inner) (descend q) := by
  intro r hr
  have hdepth := hr.depth
  have hopen : descend q r =
      (if maxNesting ≤ r.depth then token Parser.tooDeep else around .enter .leave q) r := rfl
  cases levels with
  -- no level is left: both refuse
  | zero =>
    have hdeep : maxNesting ≤ r.depth := by omega
    have hrefused : RunsAs marked Parser.tooDeep (token Parser.tooDeep) r :=
      Counts.refused (fun _ => ⟨_, rfl⟩) r hr
    obtain ⟨result, after, hrun, hrest⟩ := hrefused
    rw [if_pos hdeep] at hopen
    exact ⟨result, after, hopen.trans hrun, hrest⟩
  -- a level is left, and the machine runs one further down
  | succ n =>
    have hroom : ¬maxNesting ≤ r.depth := by omega
    have hinner : RunsAs marked (inner n) (around .enter .leave q) r :=
      (h n rfl r.enter hr.enter).around rfl rfl fun after hl => ⟨leaves_of_enter hl, rfl, rfl⟩
    obtain ⟨result, after, hrun, hrest⟩ := hinner
    rw [if_neg hroom] at hopen
    exact ⟨result, after, hopen.trans hrun, hrest⟩

/-- The counter of brackets says only what separates words. -/
theorem Fits.withNesting {g' : Gap} {r : Reader} {n : Nat} (h : Fits budget levels g r)
    (hgap : (r.withNesting n).gap = g') : Fits budget levels g' (r.withNesting n) :=
  ⟨⟨h.inBounds.offset_le, h.inBounds.furthest_le, h.inBounds.depth_le, h.inBounds.deepest_le⟩, h.short,
    h.depth, hgap⟩

theorem leaves_of_withNesting {r after : Reader} {m n : Nat} (h : (r.withNesting m).Leaves after)
    (hn : n = r.nesting) : r.Leaves (after.withNesting n) :=
  ⟨h.text, hn, h.depth,
    h.inBounds.offset_le, h.inBounds.furthest_le, h.inBounds.depth_le, h.inBounds.deepest_le⟩

/-- Inside a bracket line ends are gaps. -/
theorem nested_counts {inner : Nat → Parser α}
    (h : ∀ n, levels = n + 1 → Counts budget n .lines marked (inner n) q) :
    Counts budget levels g marked (Parser.descend levels inner) (nested q) := by
  intro r hr
  have hinside : Fits budget levels .lines (r.withNesting (r.nesting + 1)) :=
    hr.withNesting (if_neg (Nat.succ_ne_zero _))
  apply (descend_counts h _ hinside).around rfl rfl
  intro after hl
  refine ⟨leaves_of_withNesting hl ?_, rfl, rfl⟩
  have hnesting : after.nesting = r.nesting + 1 := hl.nesting
  omega

/-- Inside a block they are none, whatever is open outside. -/
theorem unnested_counts {inner : Nat → Parser α}
    (h : ∀ n, levels = n + 1 → Counts budget n .inline marked (inner n) q) :
    Counts budget levels g marked (Parser.descend levels inner) (unnested q) := by
  intro r hr
  have hinside : Fits budget levels .inline (r.withNesting 0) := hr.withNesting (if_pos rfl)
  have hopen : unnested q r = around (·.withNesting 0) (·.withNesting r.nesting) (descend q) r := rfl
  have hinner : RunsAs marked (Parser.descend levels inner)
      (around (·.withNesting 0) (·.withNesting r.nesting) (descend q)) r :=
    (descend_counts h _ hinside).around rfl rfl fun after hl =>
      ⟨leaves_of_withNesting hl rfl, rfl, rfl⟩
  obtain ⟨result, after, hrun, hrest⟩ := hinner
  exact ⟨result, after, hopen.trans hrun, hrest⟩

/-! ## §6. Loops -/

end Steps

/-- Another round follows. -/
def goesOn : Round σ β → Bool
  | .again _ => true
  | .done _ => false

/-- **An unguarded loop ends** if each round that asks for another has read something, and does what
    the guarded one does; if every round has read something, so has the loop. -/
theorem repeated_counts {budget levels : Nat} {g : Gap} {moves : Bool}
    {step : σ → Parser (Round σ β)} {step' : σ → Counted (Round σ β)}
    (h : ∀ state, Counts budget levels g (fun round => goesOn round || moves) (step state) (step' state))
    (state : σ) :
    Counts budget levels g (fun _ => moves) (Parser.iterate step state)
      (repeated step' budget state) := by
  -- on the rounds left in the budget, which are more than the characters ahead
  have hrounds : ∀ rounds state r, Fits budget levels g r → r.cursor.rest.length < rounds →
      RunsAs (fun _ => moves) (Parser.iterate step state) (repeated step' rounds state) r := by
    intro rounds
    induction rounds with
    | zero =>
      intro state r _ hlength
      omega
    | succ rounds ih =>
      intro state r hr hlength
      obtain ⟨result, mid, hrun, hread, hleaves, hmoves⟩ := h state r hr
      cases result with
      | error e =>
        refine ⟨.error e, mid, bind_error hrun, ?_, hleaves, fun b hb => by cases hb⟩
        rw [Parser.iterate, hread]
        rfl
      | ok round =>
        obtain ⟨hle, hlt⟩ := hmoves round rfl
        cases round with
        | done b =>
          refine ⟨.ok b, mid, bind_ok hrun, ?_, hleaves, ?_⟩
          · rw [Parser.iterate, hread]
            rfl
          · intro b' _
            exact ⟨hle, hlt⟩
        | again next =>
          have hless := hleaves.ahead_lt hr.inBounds (hlt rfl)
          obtain ⟨result, after, hrun', hread', hleaves', hmoves'⟩ :=
            ih next mid (hr.leaves hleaves) (by omega)
          refine ⟨result, after, (bind_ok hrun).trans hrun', ?_, hleaves.trans hleaves', ?_⟩
          · rw [Parser.iterate, hread]
            show (if mid.cursor.rest.length < r.cursor.rest.length then
              Parser.iterate step next mid.cursor else _) = _
            rw [if_pos hless]
            exact hread'
          · intro b hb
            have hmid := hlt rfl
            obtain ⟨hle', -⟩ := hmoves' b hb
            exact ⟨by omega, fun _ => by omega⟩
  intro r hr
  exact hrounds budget state r hr hr.ahead_lt

end Counted

end Scriptlet
