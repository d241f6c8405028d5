/-
  Scriptlet.Proofs.Literals — where number and string literals end and what they stand for.

  Both are given here apart from the scanners.  In a string the characters that a backslash takes along
  are counted by place, `pairedAt`; the literal ends at the first quote that no backslash has taken, and
  what stands before it is resolved by the rules of `Resolves`.  A number is a text of the class
  `NumberText`, digits or digits with a point between them, and the literal is the longest text of the
  class in front.

  Main results:
    * `quotedBody_some`, `quotedBody_none` — the end of a string, and strings without an end.
    * `string_literals_are_exact` — string literals.
    * `NumberText.length_le_of_dot` — the dots that belong to no number.
    * `number_literals_are_exact` — number literals.
-/
import Mathlib.Data.List.TakeWhile
import Scriptlet.Proofs.Numerals
import Scriptlet.Proofs.OperandText

namespace Scriptlet

open Number

/-! ## §1. Where a string ends -/

/-- Whether the character behind so many others is the second of a backslash pair, the pairs taken from
    the left: a backslash stands before it that is not itself the second of one. -/
def pairedAt (text : List Char) : Nat → Bool
  | 0 => false
  | k + 1 => text[k]? == some '\\' && !pairedAt text k

/-- A quote stands behind so many characters, and is not the second character of a pair. -/
def QuoteAt (text : List Char) (k : Nat) : Prop := text[k]? = some '"' ∧ pairedAt text k = false

instance (text : List Char) (k : Nat) : Decidable (QuoteAt text k) :=
  inferInstanceAs (Decidable (_ ∧ _))

/-- The first such quote. -/
def FirstQuoteAt (text : List Char) (k : Nat) : Prop := QuoteAt text k ∧ ∀ j < k, ¬ QuoteAt text j

instance (text : List Char) (k : Nat) : Decidable (FirstQuoteAt text k) :=
  inferInstanceAs (Decidable (_ ∧ _))

section Quotes

variable {c e : Char} {t : List Char} {k : Nat}

/-- A character that is no backslash takes none along. -/
theorem pairedAt_cons (h : c ≠ '\\') (k : Nat) : pairedAt (c :: t) (k + 1) = pairedAt t k := by
  induction k with
  | zero => simp [pairedAt, h]
  | succ k ih => rw [pairedAt, ih, List.getElem?_cons_succ, pairedAt]

/-- Behind a pair the count begins anew. -/
theorem pairedAt_pair (k : Nat) : pairedAt ('\\' :: e :: t) (k + 2) = pairedAt t k := by
  induction k with
  | zero => simp [pairedAt]
  | succ k ih => rw [pairedAt, ih, List.getElem?_cons_succ, List.getElem?_cons_succ, pairedAt]

theorem QuoteAt.lt_length (h : QuoteAt t k) : k < t.length :=
  (List.getElem?_eq_some_iff.mp h.1).1

theorem quoteAt_zero : QuoteAt (c :: t) 0 ↔ c = '"' := by
  simp [QuoteAt, pairedAt]

/-- A quote behind a plain character is one of the text after it. -/
theorem quoteAt_cons (hquote : c ≠ '"') (hslash : c ≠ '\\') :
    QuoteAt (c :: t) k ↔ ∃ j, k = j + 1 ∧ QuoteAt t j := by
  cases k with
  | zero => simp [quoteAt_zero, hquote]
  | succ k => simp [QuoteAt, pairedAt_cons hslash]

/-- A quote behind a pair is one of the text after it. -/
theorem quoteAt_pair : QuoteAt ('\\' :: e :: t) k ↔ ∃ j, k = j + 2 ∧ QuoteAt t j := by
  rcases k with _ | _ | k
  · simp [quoteAt_zero]
  · simp [QuoteAt, pairedAt]
  · simp [QuoteAt, pairedAt_pair]

/-- The first quote moves with the text that has it. -/
theorem FirstQuoteAt.shift {t' : List Char} {n : Nat}
    (hshift : ∀ k, QuoteAt t' k ↔ ∃ j, k = j + n ∧ QuoteAt t j) (h : FirstQuoteAt t k) :
    FirstQuoteAt t' (k + n) := by
  refine ⟨(hshift _).mpr ⟨k, rfl, h.1⟩, fun i hi hat => ?_⟩
  obtain ⟨j, rfl, hj⟩ := (hshift i).mp hat
  exact h.2 j (by omega) hj

theorem FirstQuoteAt.unique {j : Nat} (h : FirstQuoteAt t k) (h' : FirstQuoteAt t j) : k = j := by
  rcases Nat.lt_trichotomy k j with hlt | heq | hlt
  · exact absurd h.1 (h'.2 k hlt)
  · exact heq
  · exact absurd h'.1 (h.2 j hlt)

/-- Where quotes end the string, one of them is the first. -/
theorem exists_firstQuoteAt (h : ∃ k, QuoteAt t k) : ∃ k, FirstQuoteAt t k :=
  ⟨Nat.find h, Nat.find_spec h, fun _ => Nat.find_min h⟩

end Quotes

/-! ## §2. What stands between the quotes -/

/-- The pairs that stand for one character: the second character of the pair, and that character. -/
def escapes : List (Char × Char) :=
  [('n', '\n'), ('t', '\t'), ('r', '\r'), ('"', '"'), ('\\', '\\')]

/-- The second text is the first one with its pairs replaced, from the left; a pair that stands for no
    character is kept. -/
inductive Resolves : List Char → List Char → Prop where
  | nil : Resolves [] []
  | plain {c t v} : c ≠ '\\' → Resolves t v → Resolves (c :: t) (c :: v)
  | replaced {e d t v} : (e, d) ∈ escapes → Resolves t v → Resolves ('\\' :: e :: t) (d :: v)
  | kept {e t v} : (∀ d, (e, d) ∉ escapes) → Resolves t v → Resolves ('\\' :: e :: t) ('\\' :: e :: v)

theorem unescape_of_mem {e d : Char} (h : (e, d) ∈ escapes) : unescape e = [d] := by
  simp only [escapes, List.mem_cons, Prod.mk.injEq, List.not_mem_nil, or_false] at h
  rcases h with ⟨rfl, rfl⟩ | ⟨rfl, rfl⟩ | ⟨rfl, rfl⟩ | ⟨rfl, rfl⟩ | ⟨rfl, rfl⟩ <;> rfl

theorem unescape_of_notMem {e : Char} (h : ∀ d, (e, d) ∉ escapes) : unescape e = ['\\', e] := by
  have hne : ∀ p ∈ escapes, e ≠ p.1 := fun p hp heq => h p.2 (heq ▸ hp)
  simp only [escapes, List.forall_mem_cons] at hne
  simp [unescape, hne]

/-- No pair stands for two characters. -/
theorem escapes_functional {e d d' : Char} (h : (e, d) ∈ escapes) (h' : (e, d') ∈ escapes) : d = d' :=
  List.singleton_inj.mp ((unescape_of_mem h).symm.trans (unescape_of_mem h'))

namespace Resolves

variable {t v w : List Char}

theorem unique (h : Resolves t v) (h' : Resolves t w) : v = w := by
  -- the first character decides which rule applies, in both
  induction h generalizing w with
  | nil => cases h'; rfl
  | plain hc _ ih =>
    cases h' with
    | plain _ h' => rw [ih h']
    | replaced => exact absurd rfl hc
    | kept => exact absurd rfl hc
  | replaced hd _ ih =>
    cases h' with
    | plain hc => exact absurd rfl hc
    | replaced hd' h' => rw [escapes_functional hd hd', ih h']
    | kept hnone => exact absurd hd (hnone _)
  | kept hnone _ ih =>
    cases h' with
    | plain hc => exact absurd rfl hc
    | replaced hd => exact absurd hd (hnone _)
    | kept _ h' => rw [ih h']

/-- A pair in front is resolved as the scanner does it. -/
theorem pair (e : Char) (h : Resolves t v) : Resolves ('\\' :: e :: t) (unescape e ++ v) := by
  by_cases hknown : ∃ d, (e, d) ∈ escapes
  · obtain ⟨d, hd⟩ := hknown
    rw [unescape_of_mem hd]
    exact .replaced hd h
  · have hnone : ∀ d, (e, d) ∉ escapes := fun d hd => hknown ⟨d, hd⟩
    rw [unescape_of_notMem hnone]
    exact .kept hnone h

end Resolves

/-! ## §3. The scanner of strings -/

/-- **The end of a string**: the scan takes the text through the first quote that ends it, and resolves
    what stands before. -/
theorem quotedBody_some {t body : List Char} {n : Nat} (h : quotedBody t = some (body, n)) :
    ∃ k, n = k + 1 ∧ FirstQuoteAt t k ∧ Resolves (t.take k) body := by
  -- along the scan: what is left has its first quote, and each step puts a character or a pair before it
  fun_induction quotedBody t generalizing body n with
  | case1 => cases h
  | case2 c rest hquote =>
    cases h
    exact ⟨0, rfl, ⟨quoteAt_zero.mpr (beq_iff_eq.mp hquote), fun j hj => absurd hj (by omega)⟩, .nil⟩
  | case3 c hquote hslash => cases h
  | case4 c hquote hslash e rest ih =>
    obtain ⟨⟨inner, m⟩, hinner, hmap⟩ := Option.map_eq_some_iff.mp h
    obtain ⟨k, rfl, hfirst, hresolves⟩ := ih hinner
    cases hmap
    obtain rfl := beq_iff_eq.mp hslash
    exact ⟨k + 2, rfl, hfirst.shift fun _ => quoteAt_pair, hresolves.pair e⟩
  | case5 c rest hquote hslash ih =>
    obtain ⟨⟨inner, m⟩, hinner, hmap⟩ := Option.map_eq_some_iff.mp h
    obtain ⟨k, rfl, hfirst, hresolves⟩ := ih hinner
    cases hmap
    rw [beq_iff_eq] at hquote hslash
    exact ⟨k + 1, rfl, hfirst.shift fun _ => quoteAt_cons hquote hslash, .plain hslash hresolves⟩

/-- **A string without an end**: where the scan fails, a backslash has taken every quote. -/
theorem quotedBody_none {t : List Char} (h : quotedBody t = none) (k : Nat) : ¬ QuoteAt t k := by
  intro hat
  fun_induction quotedBody t generalizing k with
  | case1 => exact absurd hat.lt_length (by simp)
  | case2 c rest hquote => cases h
  | case3 c hquote hslash =>
    -- a backslash at the very end, with nothing to take along
    obtain rfl : k = 0 := by simpa using hat.lt_length
    exact hquote (beq_iff_eq.mpr (quoteAt_zero.mp hat))
  | case4 c hquote hslash e rest ih =>
    obtain rfl := beq_iff_eq.mp hslash
    obtain ⟨j, -, hj⟩ := quoteAt_pair.mp hat
    exact ih (Option.map_eq_none_iff.mp h) j hj
  | case5 c rest hquote hslash ih =>
    rw [beq_iff_eq] at hquote hslash
    obtain ⟨j, -, hj⟩ := (quoteAt_cons hquote hslash).mp hat
    exact ih (Option.map_eq_none_iff.mp h) j hj

namespace Cursor

variable {c : Cursor} {text : List Char}

/-- The literal, if a quote ends it. -/
theorem string_of_first (hquote : c.rest = '"' :: text) {k : Nat} (hfirst : FirstQuoteAt text k) :
    ∃ v, Resolves (text.take k) v ∧ c.string = (.ok (String.ofList v), c.advanceBy (k + 2)) := by
  cases hbody : quotedBody text with
  | none => exact absurd hfirst.1 (quotedBody_none hbody k)
  | some found =>
    obtain ⟨v, n⟩ := found
    obtain ⟨j, rfl, hfirst', hresolves⟩ := quotedBody_some hbody
    obtain rfl := hfirst.unique hfirst'
    refine ⟨v, hresolves, ?_⟩
    simp [Cursor.string, hquote, hbody]

/-- The error, if none does. -/
theorem string_of_no_quote (hquote : c.rest = '"' :: text) (hnone : ∀ k, ¬ QuoteAt text k) :
    c.string = (.error (.malformed c.line c.column "unterminated string literal"),
      c.advanceBy c.rest.length) := by
  cases hbody : quotedBody text with
  | none => simp [Cursor.string, hquote, hbody, malformed]
  | some found =>
    obtain ⟨k, -, hfirst, -⟩ := quotedBody_some hbody
    exact absurd hfirst.1 (hnone k)

/-- A string is read as the text before the first quote that ends it, resolved. -/
theorem string_ok_iff (hquote : c.rest = '"' :: text) {s : String} :
    c.string.1 = .ok s ↔ ∃ k, FirstQuoteAt text k ∧ Resolves (text.take k) s.toList := by
  constructor
  · intro hok
    -- the string has to end somewhere, and then it is what is resolved up to there
    by_cases hends : ∃ k, QuoteAt text k
    · obtain ⟨k, hfirst⟩ := exists_firstQuoteAt hends
      obtain ⟨v, hresolves, hstring⟩ := string_of_first hquote hfirst
      rw [hstring] at hok
      cases hok
      exact ⟨k, hfirst, by rwa [String.toList_ofList]⟩
    · rw [string_of_no_quote hquote fun k hat => hends ⟨k, hat⟩] at hok
      cases hok
  · rintro ⟨k, hfirst, hresolves⟩
    obtain ⟨v, hv, hstring⟩ := string_of_first hquote hfirst
    rw [hstring, hv.unique hresolves, String.ofList_toList]

end Cursor

/-- **String literals are exact.**  From a quote on, a string is read exactly when a later quote is not
    the second character of a backslash pair.  It is then what stands before the first such quote, its
    pairs resolved, and the cursor stands behind that quote.  If there is none, the error names the place
    of the opening quote.  In particular a string that is written with its quotes and backslashes escaped
    is read back, whatever follows. -/
theorem string_literals_are_exact {c : Cursor} {text : List Char} (hquote : c.rest = '"' :: text) :
    ((∃ s, c.string.1 = .ok s) ↔ ∃ k, QuoteAt text k) ∧
    (∀ s, c.string.1 = .ok s ↔ ∃ k, FirstQuoteAt text k ∧ Resolves (text.take k) s.toList) ∧
    (∀ k, FirstQuoteAt text k →
      c.string.2 = c.advanceBy (k + 2) ∧ c.string.2.rest = text.drop (k + 1)) ∧
    ((∀ k, ¬ QuoteAt text k) →
      c.string.1 = .error (.malformed c.line c.column "unterminated string literal")) ∧
    ∀ s rest, c.rest = quoted s ++ rest → c.string.1 = .ok s ∧ c.string.2.rest = rest := by
  refine ⟨⟨?_, ?_⟩, fun s => Cursor.string_ok_iff hquote, ?_, ?_, ?_⟩
  -- when a string is read
  · rintro ⟨s, hok⟩
    obtain ⟨k, hfirst, -⟩ := (Cursor.string_ok_iff hquote).mp hok
    exact ⟨k, hfirst.1⟩
  · intro hends
    obtain ⟨k, hfirst⟩ := exists_firstQuoteAt hends
    obtain ⟨v, -, hstring⟩ := Cursor.string_of_first hquote hfirst
    exact ⟨String.ofList v, by rw [hstring]⟩
  -- where the reader stands after it
  · intro k hfirst
    obtain ⟨v, -, hstring⟩ := Cursor.string_of_first hquote hfirst
    rw [hstring, Cursor.rest_advanceBy, hquote]
    exact ⟨rfl, rfl⟩
  · intro hnone
    rw [Cursor.string_of_no_quote hquote hnone]
  -- a string as it is written
  · intro s rest hwritten
    rw [Parser.string_quoted hwritten, Cursor.rest_advanceBy, hwritten, List.drop_left]
    exact ⟨rfl, rfl⟩

/-- A null character, a taken quote and a taken backslash before the quote that ends the string; and a
    string whose only later quote is taken, with a backslash at the very end. -/
theorem string_literals_are_exact_past_taken_quotes :
    (Cursor.start "\"\x00\\\"\\\\\" \"").string.1 = .ok "\x00\"\\" ∧
    (Cursor.start "\"\x00\\\"\\\\\" \"").string.2.rest = [' ', '"'] ∧
    (⟨"\"a\\\"\\".toList, 3, 7⟩ : Cursor).string.1 =
      .error (.malformed 3 7 "unterminated string literal") := by
  have hended : (Cursor.start "\"\x00\\\"\\\\\" \"").rest =
      '"' :: ['\x00', '\\', '"', '\\', '\\', '"', ' ', '"'] := rfl
  obtain ⟨-, hok, hbehind, -⟩ := string_literals_are_exact hended
  have hfirst : FirstQuoteAt ['\x00', '\\', '"', '\\', '\\', '"', ' ', '"'] 5 := by decide
  refine ⟨(hok _).mpr ⟨5, hfirst, ?_⟩, (hbehind 5 hfirst).2, ?_⟩
  · exact .plain (by decide) (.replaced (by decide) (.replaced (by decide) .nil))
  · have hopen : (⟨"\"a\\\"\\".toList, 3, 7⟩ : Cursor).rest = '"' :: ['a', '\\', '"', '\\'] := rfl
    refine (string_literals_are_exact hopen).2.2.2.1 fun k hat => ?_
    have hnone : ∀ k < 4, ¬ QuoteAt ['a', '\\', '"', '\\'] k := by decide
    exact hnone k hat.lt_length hat

/-! ## §4. Texts of numbers -/

/-- One or more digits. -/
def Digits (ds : List Char) : Prop := ds ≠ [] ∧ ∀ d ∈ ds, d.isDigit = true

/-- Digits, or digits with a point between them. -/
inductive NumberText : List Char → Prop where
  | whole {ds} : Digits ds → NumberText ds
  | point {ds fs} : Digits ds → Digits fs → NumberText (ds ++ '.' :: fs)

/-- The text stands in front of the other, is of the class, and no longer one is. -/
structure LongestFront (P : List Char → Prop) (t text : List Char) : Prop where
  front : t <+: text
  holds : P t
  longest : ∀ t', t' <+: text → P t' → t'.length ≤ t.length

/-- No digit stands in front. -/
def EndsDigits (t : List Char) : Prop := ∀ d u, t = d :: u → d.isDigit = false

section Texts

variable {ds fs before after : List Char}

theorem endsDigits_cons {d : Char} (h : d.isDigit = false) : EndsDigits (d :: after) := by
  intro x u heq
  cases heq
  exact h

theorem endsDigits_dropWhile (t : List Char) : EndsDigits (t.dropWhile Char.isDigit) := by
  intro d u heq
  have hhead := List.head?_dropWhile_not Char.isDigit t
  rw [heq] at hhead
  exact hhead

theorem Digits.dot_notMem (h : Digits ds) : '.' ∉ ds := fun hdot => absurd (h.2 _ hdot) (by decide)

/-- The digits in front of a text, where there is one. -/
theorem digits_takeWhile {d : Char} (h : d.isDigit = true) :
    Digits ((d :: after).takeWhile Char.isDigit) :=
  ⟨by rw [List.takeWhile_cons_of_pos h]; simp, fun _ hx => List.mem_takeWhile_imp hx⟩

theorem Digits.head (h : Digits ds) : ∀ d u, ds ++ after = d :: u → d.isDigit = true := by
  obtain ⟨x, xs, rfl⟩ := List.exists_cons_of_ne_nil h.1
  intro d u heq
  cases heq
  exact h.2 x List.mem_cons_self

theorem Digits.not_endsDigits (h : Digits ds) : ¬ EndsDigits (ds ++ after) := by
  intro hends
  obtain ⟨x, xs, rfl⟩ := List.exists_cons_of_ne_nil h.1
  have hx := hends x (xs ++ after) rfl
  rw [h.2 x List.mem_cons_self] at hx
  cases hx

/-- Digits in front of a text are among those that it begins with. -/
theorem Digits.length_le (h : Digits ds) (hfront : ds <+: fs ++ after) (hafter : EndsDigits after)
    (hfs : Digits fs) : ds.length ≤ fs.length := by
  obtain ⟨u, hu⟩ := hfront
  have htake := Parser.takeWhile_append hfs.2 hafter
  rw [← hu, List.takeWhile_append_of_pos h.2] at htake
  rw [← htake]
  simp

/-- The digits before a point are all that the text begins with. -/
theorem Digits.eq_of_point {ds' u : List Char} (h : Digits ds) (h' : Digits ds') (hafter : EndsDigits after)
    (heq : ds' ++ '.' :: u = ds ++ after) : ds' = ds ∧ after = '.' :: u := by
  -- either side is cut where its digits end
  have hsame : ds' = ds := by
    rw [← Parser.takeWhile_append h.2 hafter, ← heq]
    exact (Parser.takeWhile_append h'.2 (endsDigits_cons (by decide))).symm
  subst hsame
  exact ⟨rfl, (List.append_cancel_left heq).symm⟩

/-- Digits that go on with no digit and with no point before a digit are the longest number. -/
theorem longestFront_whole (hds : Digits ds) (hafter : EndsDigits after)
    (hpoint : ∀ u, after = '.' :: u → EndsDigits u) : LongestFront NumberText ds (ds ++ after) := by
  refine ⟨List.prefix_append _ _, .whole hds, fun t' hfront ht' => ?_⟩
  cases ht' with
  | whole hds' => exact hds'.length_le hfront hafter hds
  | @point ds' fs' hds' hfs' =>
    obtain ⟨u, hu⟩ := hfront
    rw [List.append_assoc, List.cons_append] at hu
    obtain ⟨-, hdot⟩ := hds.eq_of_point hds' hafter hu
    exact absurd (hpoint _ hdot) hfs'.not_endsDigits

/-- With a point and digits behind it, all of these are the longest number. -/
theorem longestFront_point (hds : Digits ds) (hfs : Digits fs) (hafter : EndsDigits after) :
    LongestFront NumberText (ds ++ '.' :: fs) (ds ++ '.' :: (fs ++ after)) := by
  -- the point ends the digits before it
  have hdot : EndsDigits ('.' :: (fs ++ after)) := endsDigits_cons (by decide)
  refine ⟨⟨after, by simp⟩, .point hds hfs, fun t' hfront ht' => ?_⟩
  rw [List.length_append, List.length_cons]
  cases ht' with
  -- digits alone end before the point
  | whole hds' =>
    have hle := hds'.length_le hfront hdot hds
    omega
  -- with a point, the digits on both sides of it are the same or fewer
  | @point ds' fs' hds' hfs' =>
    obtain ⟨u, hu⟩ := hfront
    rw [List.append_assoc, List.cons_append] at hu
    obtain ⟨rfl, hrest⟩ := hds.eq_of_point hds' hdot hu
    have hle := hfs'.length_le ⟨u, (List.cons.inj hrest).2.symm⟩ hafter hfs
    rw [List.length_append, List.length_cons]
    omega

/-- A text that begins with a digit begins with a number of one of the two kinds. -/
theorem number_ahead {d : Char} (text : List Char) (h : d.isDigit = true) :
    (∃ ds after, d :: text = ds ++ after ∧ Digits ds ∧ EndsDigits after ∧
      ∀ u, after = '.' :: u → EndsDigits u) ∨
    ∃ ds fs after, d :: text = ds ++ '.' :: (fs ++ after) ∧ Digits ds ∧ Digits fs ∧
      EndsDigits after := by
  have hsplit := (List.takeWhile_append_dropWhile (p := Char.isDigit) (l := d :: text)).symm
  have hafter := endsDigits_dropWhile (d :: text)
  -- a dot alone decides nothing: the character behind it does
  by_cases hpoint : ∃ x u, (d :: text).dropWhile Char.isDigit = '.' :: x :: u ∧ x.isDigit = true
  · obtain ⟨x, u, hdot, hx⟩ := hpoint
    rw [hdot, ← List.takeWhile_append_dropWhile (p := Char.isDigit) (l := x :: u)] at hsplit
    exact .inr ⟨_, _, _, hsplit, digits_takeWhile h, digits_takeWhile hx, endsDigits_dropWhile _⟩
  · refine .inl ⟨_, _, hsplit, digits_takeWhile h, hafter, ?_⟩
    rintro _ hdot x u rfl
    exact Bool.eq_false_iff.mpr fun hx => hpoint ⟨x, u, hdot, hx⟩

/-- **A dot that no digit follows** belongs to no number. -/
theorem NumberText.length_le_of_dot {t : List Char} (h : NumberText t)
    (hfront : t <+: before ++ '.' :: after) (hafter : EndsDigits after) :
    t.length ≤ before.length := by
  refine Nat.le_of_not_lt fun hlt => ?_
  -- otherwise the number has the dot, and digits behind it
  have hdot : before ++ ['.'] <+: t :=
    List.prefix_of_prefix_length_le ⟨after, by simp⟩ hfront (by simpa using Nat.succ_le_of_lt hlt)
  obtain ⟨more, ht⟩ := hdot
  rw [List.append_assoc, List.singleton_append] at ht
  cases h with
  | whole hds =>
    refine hds.dot_notMem ?_
    rw [← ht]
    simp
  | @point ds fs hds hfs =>
    obtain ⟨rfl, -, rfl⟩ :=
      (List.append_cons_inj_of_notMem hds.dot_notMem hfs.dot_notMem).mp ht.symm
    obtain ⟨u, hu⟩ := hfront
    have hbehind : fs ++ u = after := by simpa using hu
    exact hfs.not_endsDigits (hbehind ▸ hafter)

end Texts

theorem LongestFront.unique {P : List Char → Prop} {t t' text : List Char}
    (h : LongestFront P t text) (h' : LongestFront P t' text) : t = t' :=
  (List.prefix_of_prefix_length_le h.front h'.front (h'.longest t h.front h.holds)).eq_of_length_le
    (h.longest t' h'.front h'.holds)

/-! ## §5. The scanner of numbers -/

/-- What is read from the text of a number: without a point its value by place, if it is a word, and an
    error that holds the text if not; with a point the double that the text is converted to. -/
structure ReadAsNumber (t : List Char) (outcome : Except Error Numeral) : Prop where
  int : '.' ∉ t → (placeValue t : Int) ≤ Int64.maxValue.toInt →
    ∃ n : Int64, outcome = .ok (.int n) ∧ n.toInt = placeValue t
  invalid : '.' ∉ t → Int64.maxValue.toInt < placeValue t →
    outcome = .error (.invalidNumber (String.ofList t))
  double : '.' ∈ t → ∃ x, Decimal.double? t = some x ∧ outcome = .ok (.double x)

section Numbers

variable {ds fs after : List Char}

theorem readAsNumber_whole (h : Digits ds) :
    ReadAsNumber ds ((Decimal.word? ds).elim (.error (.invalidNumber (String.ofList ds)))
      fun n => .ok (.int n)) := by
  -- digits are a numeral without a sign
  have hword : Decimal.word? ds = Word.ofInt? (placeValue ds : Int) :=
    (SignedDigits.mk .none ds h.1 h.2).word?_chars
  refine ⟨fun _ hle => ?_, fun _ hlt => ?_, fun hdot => absurd hdot h.dot_notMem⟩
  -- a number of digits is not negative, so that only the upper end counts
  · have hlow : Int64.minValue.toInt ≤ (placeValue ds : Int) :=
      Int.le_trans (by decide) (Int.natCast_nonneg _)
    obtain ⟨n, hn, hsome⟩ := ofInt?_of_inWords ⟨hlow, hle⟩
    exact ⟨n, by rw [hword, hsome]; rfl, hn⟩
  · have hnone : Word.ofInt? (placeValue ds : Int) = none :=
      if_neg fun hin => absurd hin.2 (Int.not_le.mpr hlt)
    rw [hword, hnone]
    rfl

/-- A text with a point is no word, for infinity or for not-a-number. -/
theorem word_ne_of_dot {t : List Char} {word : String} (ht : '.' ∈ t) (hword : '.' ∉ word.toList) :
    (String.ofList (t.map Char.toLower) == word) = false := by
  refine beq_eq_false_iff_ne.mpr fun heq => hword ?_
  rw [← heq, String.toList_ofList]
  exact List.mem_map.mpr ⟨'.', ht, by decide⟩

theorem unsignedDouble?_point (hds : Digits ds) (hfs : Digits fs) :
    Decimal.unsignedDouble? false (ds ++ '.' :: fs) = some (Decimal.doubleOfDigits ds fs) := by
  have hwhole : (ds ++ '.' :: fs).takeWhile Char.isDigit = ds :=
    Parser.takeWhile_append hds.2 (endsDigits_cons (by decide))
  have hrest : (ds ++ '.' :: fs).dropWhile Char.isDigit = '.' :: fs := by
    rw [List.dropWhile_append_of_pos hds.2, List.dropWhile_cons_of_neg (by decide)]
  have hfraction : fs.takeWhile Char.isDigit = fs := List.takeWhile_eq_self_iff.mpr hfs.2
  have hend : fs.dropWhile Char.isDigit = [] := List.dropWhile_eq_nil_iff.mpr hfs.2
  have hfilled : ds.isEmpty = false := by simpa using hds.1
  unfold Decimal.unsignedDouble?
  simp [hwhole, hrest, hfraction, hend, hfilled, Decimal.exponent?, Decimal.doubleOfDigits]

theorem double?_point (hds : Digits ds) (hfs : Digits fs) :
    Decimal.double? (ds ++ '.' :: fs) = some (Decimal.doubleOfDigits ds fs) := by
  have hdot : '.' ∈ ds ++ '.' :: fs := by simp
  unfold Decimal.double?
  rw [Parser.splitSign_of_digit hds.head]
  dsimp only
  rw [word_ne_of_dot hdot (by decide), word_ne_of_dot hdot (by decide), word_ne_of_dot hdot (by decide)]
  exact unsignedDouble?_point hds hfs

theorem readAsNumber_point (hds : Digits ds) (hfs : Digits fs) :
    ReadAsNumber (ds ++ '.' :: fs) (.ok (.double (Decimal.doubleOfDigits ds fs))) := by
  have hdot : '.' ∈ ds ++ '.' :: fs := by simp
  exact ⟨fun hno => absurd hdot hno, fun hno => absurd hdot hno,
    fun _ => ⟨_, double?_point hds hfs, rfl⟩⟩

/-- The scanner at a number with a point. -/
theorem Cursor.number_point {c : Cursor} (h : c.rest = ds ++ '.' :: (fs ++ after)) (hds : Digits ds)
    (hfs : Digits fs) (hafter : EndsDigits after) :
    c.number = (.ok (.double (Decimal.doubleOfDigits ds fs)),
      c.advanceBy (ds ++ '.' :: fs).length) := by
  have hwhole : c.rest.takeWhile Char.isDigit = ds := by
    rw [h]
    exact Parser.takeWhile_append hds.2 (endsDigits_cons (by decide))
  have hrest : c.rest.drop ds.length = '.' :: (fs ++ after) := by rw [h, List.drop_left]
  have hfraction : (fs ++ after).takeWhile Char.isDigit = fs := Parser.takeWhile_append hfs.2 hafter
  have hfilled : fs.isEmpty = false := by simpa using hfs.1
  unfold Cursor.number
  simp [hwhole, hrest, hfraction, hfilled, Nat.add_assoc, Nat.add_comm 1]

/-- The scanner takes the longest number and reads it. -/
theorem Cursor.number_longest {c : Cursor} {d : Char} {text : List Char} (hrest : c.rest = d :: text)
    (hdigit : d.isDigit = true) :
    ∃ t, LongestFront NumberText t c.rest ∧ c.number.2 = c.advanceBy t.length ∧
      ReadAsNumber t c.number.1 := by
  rcases number_ahead text hdigit with
    ⟨ds, after, hsplit, hds, hafter, hpoint⟩ | ⟨ds, fs, after, hsplit, hds, hfs, hafter⟩
  · have hahead : c.rest = ds ++ after := hrest.trans hsplit
    rw [Parser.number_digits hahead hds.2 hafter fun x u hdot => hpoint _ hdot x u rfl, hahead]
    exact ⟨ds, longestFront_whole hds hafter hpoint, rfl, readAsNumber_whole hds⟩
  · have hahead : c.rest = ds ++ '.' :: (fs ++ after) := hrest.trans hsplit
    rw [Cursor.number_point hahead hds hfs hafter, hahead]
    exact ⟨_, longestFront_point hds hfs hafter, rfl, readAsNumber_point hds hfs⟩

end Numbers

/-- **Number literals are exact.**  From a digit on, the scanner takes the longest text in front that is
    digits, or digits with a point between them, and stands behind it; the dots of a range and the dot
    before the name of a member are not taken.  A text without a point is read as its value, or refused
    with this text where the value is above the greatest word; one with a point as a double. -/
theorem number_literals_are_exact {c : Cursor} {d : Char} {text : List Char} (hrest : c.rest = d :: text)
    (hdigit : d.isDigit = true) :
    (∃ t, LongestFront NumberText t c.rest) ∧
    ∀ t, LongestFront NumberText t c.rest →
      c.number.2 = c.advanceBy t.length ∧ c.rest = t ++ c.number.2.rest ∧
      (∀ before after, c.rest = before ++ '.' :: '.' :: after → t.length ≤ before.length) ∧
      (∀ before x after, c.rest = before ++ '.' :: x :: after → Text.isNameStart x = true →
        t.length ≤ before.length) ∧
      ReadAsNumber t c.number.1 := by
  obtain ⟨t, hlongest, hbehind, hread⟩ := Cursor.number_longest hrest hdigit
  refine ⟨⟨t, hlongest⟩, fun t' hlongest' => ?_⟩
  obtain rfl := hlongest.unique hlongest'
  refine ⟨hbehind, ?_, fun before after hrange => ?_, fun before x after hmember hname => ?_, hread⟩
  · rw [hbehind, Cursor.rest_advanceBy]
    exact (List.prefix_iff_eq_append.mp hlongest.front).symm
  · -- the first dot is not taken, and so neither is the second
    exact hlongest.holds.length_le_of_dot (hrange ▸ hlongest.front) (endsDigits_cons (by decide))
  · exact hlongest.holds.length_le_of_dot (hmember ▸ hlongest.front)
      (endsDigits_cons (Parser.isDigit_of_isNameStart hname))

/-- The greatest word with zeros in front, before a range; and one above it, before a member. -/
theorem number_literals_are_exact_at_the_limit :
    (Cursor.start "0009223372036854775807..5").number.1 = .ok (.int Int64.maxValue) ∧
    (Cursor.start "0009223372036854775807..5").number.2.rest = "..5".toList ∧
    (Cursor.start "9223372036854775808.length").number.1 =
      .error (.invalidNumber "9223372036854775808") ∧
    (Cursor.start "9223372036854775808.length").number.2.rest = ".length".toList := by
  have hranged : (Cursor.start "0009223372036854775807..5").rest =
      "0009223372036854775807".toList ++ '.' :: '.' :: ['5'] := by decide +kernel
  have hmember : (Cursor.start "9223372036854775808.length").rest =
      "9223372036854775808".toList ++ '.' :: 'l' :: "ength".toList := by decide +kernel
  have hgreatest : Digits "0009223372036854775807".toList :=
    ⟨by decide +kernel, List.all_eq_true.mp (by decide +kernel)⟩
  have habove : Digits "9223372036854775808".toList :=
    ⟨by decide +kernel, List.all_eq_true.mp (by decide +kernel)⟩
  have hdot {x : Char} {u : List Char} (hx : x.isDigit = false) :
      EndsDigits ('.' :: x :: u) ∧ ∀ v, '.' :: x :: u = '.' :: v → EndsDigits v :=
    ⟨endsDigits_cons (by decide), fun _ heq => (List.cons.inj heq).2 ▸ endsDigits_cons hx⟩
  -- the digits up to the dot are the longest number, so that what the theorem says is about them
  obtain ⟨-, hexact⟩ := number_literals_are_exact (d := '0') (hranged.trans rfl) (by decide)
  obtain ⟨-, hexact'⟩ := number_literals_are_exact (d := '9') (hmember.trans rfl) (by decide)
  obtain ⟨-, hrest, -, -, hread⟩ :=
    hexact _ (hranged ▸ longestFront_whole hgreatest (hdot (by decide)).1 (hdot (by decide)).2)
  obtain ⟨-, hrest', -, -, hread'⟩ :=
    hexact' _ (hmember ▸ longestFront_whole habove (hdot (by decide)).1 (hdot (by decide)).2)
  obtain ⟨n, hn, hvalue⟩ := hread.int hgreatest.dot_notMem (by decide +kernel)
  have hmax : n = Int64.maxValue := Int64.toInt_inj.mp (hvalue.trans (by decide +kernel))
  refine ⟨hmax ▸ hn, ?_, ?_, ?_⟩
  · exact (List.append_cancel_left (hranged.symm.trans hrest)).symm
  · exact (hread'.invalid habove.dot_notMem (by decide +kernel)).trans (by rw [String.ofList_toList])
  · exact (List.append_cancel_left (hmember.symm.trans hrest')).symm

end Scriptlet
