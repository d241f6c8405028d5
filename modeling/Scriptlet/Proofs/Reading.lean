/-
  Scriptlet.Proofs.Reading — two readers of expressions side by side.

  `Parser.Follows P p q Q` says of two readers: from a text with the property `P`, whatever `p` reads,
  `q` reads too, and the result and the text that is left have the property `Q`.  A `TextInvariant` is
  a property of the remaining text, at a depth of open brackets, that survives everything an
  expression is made of.  So whole expressions are followed part by part, given how the operands one
  level down and the collections are.

  Main results:
    * `Parser.exprOf_follows` — operators over a reader of operands.
    * `Parser.operandLevel_follows` — operands over the readers one level down.
-/
import Scriptlet.Source.ExprParser

namespace Scriptlet.Cursor

/-- A character that is taken stood at the front. -/
theorem rest_of_accept? {c c' : Cursor} {ch : Char} (h : c.accept? ch = some c') :
    c.rest = ch :: c'.rest := by
  unfold accept? at h
  split at h
  · rename_i hch
    cases h
    rw [rest_advance]
    cases hrest : c.rest with
    | nil => simp [atEnd, hrest] at hch
    | cons x t =>
      have hx : x = ch := by simpa [atEnd, peek, peekAt, hrest] using hch
      rw [hx, List.drop_one, List.tail_cons]
  · cases h

/-- A word is seen where it stands; past the end of the text only end marks are seen. -/
theorem eq_append_of_sees {word t : List Char} (hword : pastEnd ∉ word)
    (h : sees word t = true) : t = word ++ t.drop word.length := by
  induction word generalizing t with
  | nil => rfl
  | cons w word ih =>
    obtain ⟨hw, hrest⟩ : w ≠ pastEnd ∧ pastEnd ∉ word := by
      simpa [eq_comm] using hword
    cases t with
    | nil => simp [sees, hw] at h
    | cons x t =>
      simp only [sees, Bool.and_eq_true, beq_iff_eq] at h
      rw [List.cons_append, List.length_cons, List.drop_succ_cons, ← ih hrest h.2, h.1]

/-- So did a word that is taken, if no end mark is in it. -/
theorem rest_of_acceptText? {c c' : Cursor} {word : String}
    (hword : pastEnd ∉ word.toList) (h : c.acceptText? word = some c') :
    c.rest = word.toList ++ c'.rest := by
  unfold acceptText? at h
  split at h
  · rename_i hstands
    cases h
    rw [rest_advanceBy, ← String.length_toList]
    exact eq_append_of_sees hword hstands
  · cases h

/-- What is wrong with a number is its digits. -/
theorem number_error {c : Cursor} {e : Error} (h : c.number.1 = .error e) :
    e = .invalidNumber (String.ofList (c.rest.takeWhile Char.isDigit)) := by
  unfold number at h
  dsimp only at h
  -- which digits follow the point does not matter, only whether there are some
  generalize (if (c.rest.drop (c.rest.takeWhile Char.isDigit).length).head? == some '.' then
    (c.rest.drop (c.rest.takeWhile Char.isDigit).length).tail.takeWhile Char.isDigit else []) =
      fraction at h
  cases fraction with
  | nil =>
    cases hword : Number.Decimal.word? (c.rest.takeWhile Char.isDigit) with
    | some n =>
      rw [hword] at h
      cases h
    | none =>
      rw [hword] at h
      cases h
      rfl
  | cons digit rest => cases h

end Scriptlet.Cursor

namespace Scriptlet.Parser

variable {α β σ : Type}

/-! ## §1. Reading alike -/

/-- Whatever `p` reads from a text as asked, `q` reads too, and leaves a text as asked. -/
def Follows (P : List Char → Prop) (p q : Parser α) (Q : α → List Char → Prop) : Prop :=
  ∀ c, P c.rest → ∀ a c', p c = .ok (a, c') → q c = .ok (a, c') ∧ Q a c'.rest

/-- What two readers in a row read: the first reads something, and the second the rest. -/
theorem bind_eq_ok {p : Parser α} {f : α → Parser β} {c c'' : Cursor} {b : β} :
    (p >>= f) c = .ok (b, c'') ↔ ∃ a c', p c = .ok (a, c') ∧ f a c' = .ok (b, c'') := by
  show (p c).bind (fun r => f r.1 r.2) = .ok (b, c'') ↔ _
  cases hp : p c with
  | error e =>
    constructor
    · intro h
      cases h
    · rintro ⟨a, c', h, -⟩
      cases h
  | ok r =>
    constructor
    · intro h
      exact ⟨r.1, r.2, rfl, h⟩
    · rintro ⟨a, c', h, hf⟩
      cases h
      exact hf

/-- What may be taken has been taken, or the place is as it was. -/
theorem taking_eq_ok {step : Cursor → Option Cursor} {c c' : Cursor} {taken : Bool}
    (h : taking step c = .ok (taken, c')) :
    if taken = true then step c = some c' else c' = c := by
  obtain ⟨d, d', hget, hrun⟩ := bind_eq_ok.mp h
  cases hget
  cases hstep : step c with
  | none =>
    rw [hstep] at hrun
    cases hrun
    rfl
  | some next =>
    rw [hstep] at hrun
    cases hrun
    rfl

/-- What depends on a yes or no is a choice. -/
theorem bind_bool (p : Parser Bool) (f : Bool → Parser β) :
    (p >>= f) = p >>= fun taken => if taken = true then f true else f false := by
  congr 1
  funext taken
  cases taken <;> rfl

namespace Follows

variable {P R : List Char → Prop} {p q : Parser α} {Q : α → List Char → Prop}

/-- A stronger property of the text may be asked. -/
theorem weaken {P' : List Char → Prop} (h : Follows P p q Q) (hp : ∀ t, P' t → P t) :
    Follows P' p q Q :=
  fun c hc => h c (hp _ hc)

/-- What reads nothing at all keeps what is known of the text. -/
theorem pure {a : α} (h : ∀ t, P t → Q a t) : Follows P (pure a) (pure a) Q := by
  intro c hc b c' hrun
  cases hrun
  exact ⟨rfl, h _ hc⟩

/-- What reads nothing is followed by everything. -/
theorem refused (h : ∀ c, ∃ e, p c = .error e) : Follows P p q Q := by
  intro c _ a c' hrun
  obtain ⟨e, he⟩ := h c
  rw [he] at hrun
  cases hrun

theorem unexpected {what : String} : Follows P (unexpected what) q Q := .refused fun _ => ⟨_, rfl⟩

/-- Two readers in a row are followed if each is. -/
theorem bind {f g : α → Parser β} {S : β → List Char → Prop} (hp : Follows P p q Q)
    (hf : ∀ a, Follows (Q a) (f a) (g a) S) : Follows P (p >>= f) (q >>= g) S := by
  intro c hc b c'' hrun
  obtain ⟨a, c', hfirst, hrest⟩ := bind_eq_ok.mp hrun
  obtain ⟨hfirst', hq⟩ := hp c hc a c' hfirst
  obtain ⟨hrest', hr⟩ := hf a c' hq b c'' hrest
  exact ⟨bind_eq_ok.mpr ⟨a, c', hfirst', hrest'⟩, hr⟩

/-- Reading the cursor itself. -/
theorem get {f g : Cursor → Parser β} {S : β → List Char → Prop}
    (hf : ∀ c, P c.rest → Follows (· = c.rest) (f c) (g c) S) :
    Follows P (get >>= f) (get >>= g) S :=
  fun c hc => hf c hc c rfl

/-- What may be taken here, and what follows in either case. -/
theorem takingThen {step : Cursor → Option Cursor} {p' q' : Parser α}
    (h : ∀ c c', P c.rest → step c = some c' → R c'.rest)
    (hp : Follows R p q Q) (hp' : Follows P p' q' Q) :
    Follows P (taking step >>= fun taken => if taken = true then p else p')
      (taking step >>= fun taken => if taken = true then q else q') Q := by
  -- the answer tells which property the text has now
  have htaking : Follows P (taking step) (taking step)
      fun taken t => if taken = true then R t else P t := by
    intro c hc taken c' hrun
    refine ⟨hrun, ?_⟩
    have htaken := taking_eq_ok hrun
    cases taken with
    | true => exact h c c' hc htaken
    | false => exact htaken ▸ hc
  refine htaking.bind fun taken => ?_
  cases taken with
  | true => exact hp
  | false => exact hp'

/-- A character that may stand here, and what follows in either case. -/
theorem acceptThen {ch : Char} {p' q' : Parser α} (h : ∀ t, P (ch :: t) → R t)
    (hp : Follows R p q Q) (hp' : Follows P p' q' Q) :
    Follows P (accept ch >>= fun taken => if taken = true then p else p')
      (accept ch >>= fun taken => if taken = true then q else q') Q := by
  refine .takingThen (fun c c' hc haccept => ?_) hp hp'
  rw [Cursor.rest_of_accept? haccept] at hc
  exact h _ hc

/-- A word that may stand here, and what follows in either case. -/
theorem acceptTextThen {word : String} {p' q' : Parser α}
    (hword : Cursor.pastEnd ∉ word.toList) (h : ∀ t, P (word.toList ++ t) → R t)
    (hp : Follows R p q Q) (hp' : Follows P p' q' Q) :
    Follows P (acceptText word >>= fun taken => if taken = true then p else p')
      (acceptText word >>= fun taken => if taken = true then q else q') Q := by
  refine .takingThen (fun c c' hc haccept => ?_) hp hp'
  rw [Cursor.rest_of_acceptText? hword haccept] at hc
  exact h _ hc

end Follows

/-- **Repetition follows if each round does**, with a property that every round keeps up. -/
theorem Follows.iterate {step step' : σ → Parser (Round σ β)} {I : σ → List Char → Prop}
    {Q : β → List Char → Prop}
    (h : ∀ state, Follows (I state) (step state) (step' state) fun round t =>
      match round with
      | .again next => I next t
      | .done result => Q result t) (state : σ) :
    Follows (I state) (iterate step state) (iterate step' state) Q := by
  intro c hc
  -- on the text that is left, of which each further round has consumed some
  induction hn : c.rest.length using Nat.strongRecOn generalizing state c with
  | ind n ih =>
    intro b c' hrun
    rw [Parser.iterate] at hrun ⊢
    cases hstep : step state c with
    | error e =>
      rw [hstep] at hrun
      cases hrun
    | ok r =>
      obtain ⟨round, next⟩ := r
      obtain ⟨hstep', hround⟩ := h state c hc round next hstep
      rw [hstep] at hrun
      rw [hstep']
      cases round with
      | done result =>
        cases hrun
        exact ⟨rfl, hround⟩
      | again state' =>
        dsimp only at hrun ⊢
        split at hrun
        · rename_i hless
          rw [if_pos hless]
          exact ih next.rest.length (by omega) state' next hround rfl b c' hrun
        · cases hrun

/-! ## §2. Invariants of the remaining text -/

/-- The characters that bracket, quote or separate. -/
def isMark (c : Char) : Bool :=
  c == '"' || c == '(' || c == ')' || c == '[' || c == ']' || c == '{' || c == '}' || c == ',' ||
    c == ':' || c == Cursor.pastEnd

/-- The characters that neither are marks nor may begin a comment. -/
def isPlain (c : Char) : Bool := !isMark c && c != '#' && c != '/'

/-- A scan for pairs heeds only marks. -/
theorem startsPair_cons {n : Nat} {c : Char} {t : List Char} (h : isMark c = false) :
    startsPair n false (c :: t) = startsPair n false t := by
  simp only [isMark, Bool.or_eq_false_iff] at h
  rw [startsPair.eq_def]
  simp [h]

/-- Whether no comment begins at the front of the text. -/
def settled : List Char → Prop
  | [] => True
  | c :: t => opensComment c t = false

/-- A property of the text that is left to read, at a depth of open brackets, which survives all that
    an expression is made of. -/
structure TextInvariant where
  holds : Nat → List Char → Prop
  gap {n t} (g : Gap) : holds n t → holds n (t.drop (g.length false t))
  plain {n c t} : isPlain c = true → holds n (c :: t) → holds n t
  slash {n t} : settled ('/' :: t) → holds n ('/' :: t) → holds n t
  opening {n c t} : c = '(' ∨ c = '[' → holds n (c :: t) → holds (n + 1) t
  closing {n c t} : c = ')' ∨ c = ']' → holds (n + 1) (c :: t) → holds n t
  separator {n c t} : c = ',' ∨ c = ':' → holds (n + 1) (c :: t) → holds (n + 1) t
  string {n t body k} : quotedBody t = some (body, k) → holds n ('"' :: t) → holds n (t.drop k)

/-- The property that every text has. -/
def TextInvariant.none : TextInvariant where
  holds _ _ := True
  gap _ h := h
  plain _ h := h
  slash _ h := h
  opening _ h := h
  closing _ h := h
  separator _ h := h
  string _ h := h

/-- What the first reader reads at this depth, the second reads too, and the invariant is kept. -/
def Keeps (J : TextInvariant) (n : Nat) (p q : Parser α) : Prop :=
  Follows (J.holds n) p q fun _ => J.holds n

variable {J : TextInvariant} {n : Nat}

/-- Plain characters may be dropped. -/
theorem TextInvariant.drop_plain (J : TextInvariant) {w t : List Char}
    (hw : w.all isPlain = true) (h : J.holds n (w ++ t)) : J.holds n t := by
  induction w with
  | nil => exact h
  | cons c w ih =>
    rw [List.all_cons, Bool.and_eq_true] at hw
    exact ih hw.2 (J.plain hw.1 h)

/-- So may the longest front of characters of a plain kind. -/
theorem TextInvariant.drop_while (J : TextInvariant) {f : Char → Bool}
    (hf : ∀ c, f c = true → isPlain c = true) {t : List Char} (h : J.holds n t) :
    J.holds n (t.drop (t.takeWhile f).length) := by
  have hplain : (t.takeWhile f).all isPlain = true := List.all_eq_true.mpr fun c hc =>
    hf c (List.all_eq_true.mp List.all_takeWhile c hc)
  have htake := List.prefix_iff_eq_take.mp (List.takeWhile_prefix f (l := t))
  have hsplit := List.take_append_drop (t.takeWhile f).length t
  rw [← htake] at hsplit
  refine J.drop_plain hplain ?_
  rw [hsplit]
  exact h

/-- The characters that are not plain. -/
def unplain : List Char :=
  ['"', '(', ')', '[', ']', '{', '}', ',', ':', Cursor.pastEnd, '#', '/']

/-- A class without them holds plain characters only. -/
theorem isPlain_of_not {f : Char → Bool} (hf : unplain.all (fun c => !f c) = true) {c : Char}
    (h : f c = true) : isPlain c = true := by
  cases hplain : isPlain c with
  | true => rfl
  | false =>
    have hc : c ∈ unplain := by
      simp only [isPlain, isMark, Bool.and_eq_false_iff, Bool.not_eq_false', Bool.or_eq_true,
        beq_iff_eq, bne_eq_false_iff_eq, or_assoc] at hplain
      simpa only [unplain, List.mem_cons, List.not_mem_nil, or_false] using hplain
    have hnot := List.all_eq_true.mp hf c hc
    rw [h] at hnot
    cases hnot

/-- What begins a name may also stand inside one. -/
theorem isNameChar_of_isNameStart {ch : Char} (h : Text.isNameStart ch = true) :
    Text.isNameChar ch = true := by
  simp only [Text.isNameStart, Text.isNameChar, Bool.or_eq_true] at h ⊢
  exact h.imp_left Or.inl

/-- The characters of names are plain. -/
theorem isPlain_of_isNameChar {c : Char} (h : Text.isNameChar c = true) : isPlain c = true :=
  isPlain_of_not (by decide) h

/-- Digits are plain. -/
theorem isPlain_of_isDigit {c : Char} (h : c.isDigit = true) : isPlain c = true :=
  isPlain_of_not (by decide) h

/-! ## §3. Steps -/

/-- After a gap no gap follows. -/
theorem length_after_gap (g : Gap) (inComment : Bool) (t : List Char) :
    g.length false (t.drop (g.length inComment t)) = 0 := by
  fun_induction Gap.length g inComment t with
  | case1 => rfl
  | case2 c rest _ _ ih => exact ih
  | case3 c rest hline hadmits =>
    rw [List.drop_zero, Gap.length, if_neg hadmits, beq_iff_eq.mp hline]
    rfl
  | case4 c rest _ ih => exact ih
  | case5 c rest _ ih => exact ih
  | case6 c rest _ _ ih => exact ih
  | case7 c rest hadmits hopens => rw [List.drop_zero, Gap.length, if_neg hadmits, if_neg hopens]

/-- Where no gap is left, no comment begins. -/
theorem settled_of_length {g : Gap} {t : List Char} (h : g.length false t = 0) : settled t := by
  cases t with
  | nil => trivial
  | cons c rest =>
    cases hopens : opensComment c rest with
    | false => exact hopens
    | true =>
      rw [Gap.length, hopens, if_pos rfl] at h
      split at h <;> cases h

/-- After a gap the text is settled. -/
theorem gap_follows (g : Gap) :
    Follows (J.holds n) (gap g) (gap g) fun _ t => J.holds n t ∧ settled t := by
  intro c hc a c' hrun
  refine ⟨hrun, ?_⟩
  cases hrun
  show J.holds n (c.skip g).rest ∧ settled (c.skip g).rest
  rw [Cursor.skip, Cursor.rest_advanceBy]
  exact ⟨J.gap g hc, settled_of_length (length_after_gap g false c.rest)⟩

/-- What follows a gap may rely on a settled text. -/
theorem gapThen {g : Gap} {f h : Unit → Parser α} {Q : α → List Char → Prop}
    (hf : Follows (fun t => J.holds n t ∧ settled t) (f ()) (h ()) Q) :
    Follows (J.holds n) (gap g >>= f) (gap g >>= h) Q :=
  (gap_follows g).bind fun _ => hf

/-- A character that must stand after the gap. -/
theorem expect_follows {m : Nat} {g : Gap} {ch : Char}
    (h : ∀ t, J.holds n (ch :: t) → J.holds m t) :
    Follows (J.holds n) (expect g ch) (expect g ch) fun _ => J.holds m := by
  refine gapThen ?_
  exact .acceptThen (fun t ht => h t ht.1) (.pure fun _ ht => ht) .unexpected

/-- A name is made of plain characters. -/
theorem nameHere_follows {what : String} : Keeps J n (nameHere what) (nameHere what) := by
  refine .get fun c hc d hd word c' hrun => ⟨hrun, ?_⟩
  cases hname : c.name? with
  | none =>
    rw [hname] at hrun
    cases hrun
  | some found =>
    rw [hname] at hrun
    cases hrun
    -- a name that is found takes its characters off the text
    unfold Cursor.name? at hname
    split at hname
    · cases hname
      rw [Cursor.rest_advanceBy]
      exact J.drop_while (fun _ => isPlain_of_isNameChar) hc
    · cases hname

/-- A literal is followed if it leaves the invariant as it was. -/
theorem literal_follows {P : List Char → Prop} {read : Cursor → Except Error α × Cursor}
    (h : ∀ c a, P c.rest → (read c).1 = .ok a → J.holds n (read c).2.rest) :
    Follows P (literal read) (literal read) fun _ => J.holds n := by
  refine .get fun c hc d hd a c' hrun => ⟨hrun, ?_⟩
  obtain ⟨u, d', hset, hlift⟩ := bind_eq_ok.mp hrun
  cases hset
  -- a literal that is wrong reads nothing
  cases hread : (read c).1 with
  | error e =>
    rw [hread] at hlift
    cases hlift
  | ok a' =>
    rw [hread] at hlift
    cases hlift
    exact h c _ hc hread

/-- A string takes its quotes and all between them. -/
theorem string_follows : Keeps J n (literal Cursor.string) (literal Cursor.string) := by
  refine literal_follows fun c a hc hread => ?_
  cases hrest : c.rest with
  | nil => simp [Cursor.string, hrest] at hread
  | cons ch t =>
    unfold Cursor.string at hread ⊢
    -- a string is read only where a quote stands
    by_cases hquote : c.rest.head? == some '"'
    · rw [if_pos hquote] at hread ⊢
      have hch : ch = '"' := by simpa [hrest] using hquote
      subst hch
      -- it has to be closed somewhere
      cases hbody : quotedBody c.rest.tail with
      | none =>
        rw [hbody] at hread
        cases hread
      | some found =>
        obtain ⟨body, k⟩ := found
        rw [hrest] at hc hbody
        show J.holds n (c.advanceBy (k + 1)).rest
        rw [Cursor.rest_advanceBy, hrest, List.drop_succ_cons]
        exact J.string hbody hc
    · rw [if_neg hquote] at hread
      cases hread

/-- A number takes digits, and a point with more digits. -/
theorem number_follows : Keeps J n (literal Cursor.number) (literal Cursor.number) := by
  refine literal_follows fun c a hc _ => ?_
  have hafter := J.drop_while (fun _ => isPlain_of_isDigit) hc
  unfold Cursor.number
  dsimp only
  -- a point may follow the digits
  by_cases hpoint : (c.rest.drop (c.rest.takeWhile Char.isDigit).length).head? == some '.'
  · rw [if_pos hpoint]
    cases htail : c.rest.drop (c.rest.takeWhile Char.isDigit).length with
    | nil => simp [htail] at hpoint
    | cons ch t =>
      have hch : ch = '.' := by simpa [htail] using hpoint
      subst hch
      -- without digits behind it the point is left where it is
      split
      · rw [Cursor.rest_advanceBy]
        exact hafter
      · rw [Cursor.rest_advanceBy, ← List.drop_drop, ← List.drop_drop, htail]
        rw [htail] at hafter
        exact J.drop_while (fun _ => isPlain_of_isDigit) (J.plain (by decide) hafter)
  · rw [if_neg hpoint, List.isEmpty_nil, if_pos rfl, Cursor.rest_advanceBy]
    exact hafter

/-! ## §4. Operators -/

/-- The reader of an operator that stands after a gap. -/
def OperatorKeeps (J : TextInvariant) (n : Nat) (p : Parser α) : Prop :=
  Follows (fun t => J.holds n t ∧ settled t) p p fun _ => J.holds n

/-- Nothing is taken where nothing stands. -/
theorem OperatorKeeps.nothing {a : α} : OperatorKeeps J n (pure a) := .pure fun _ ht => ht.1

/-- One character of an operator, and what is read if it does not stand. -/
theorem OperatorKeeps.accept {ch : Char} {a : α} {p : Parser α} (hch : isPlain ch = true)
    (hp : OperatorKeeps J n p) :
    OperatorKeeps J n (accept ch >>= fun taken => if taken = true then pure a else p) :=
  .acceptThen (fun _ ht => J.plain hch ht.1) (.pure fun _ ht => ht) hp

/-- One operator spelled by a word, and what is read if it does not stand. -/
theorem OperatorKeeps.acceptText {word : String} {a : α} {p : Parser α}
    (hword : word.toList.all isPlain = true) (hp : OperatorKeeps J n p) :
    OperatorKeeps J n (acceptText word >>= fun taken => if taken = true then pure a else p) :=
  .acceptTextThen (fun hend => by cases List.all_eq_true.mp hword _ hend)
    (fun _ ht => J.drop_plain hword ht.1) (.pure fun _ ht => ht) hp

/-- The operators `*`, `/` and `%`; a slash needs a settled text. -/
theorem productOperator_follows : OperatorKeeps J n productOperator := by
  refine .accept (by decide) ?_
  -- a slash is an operator only where no comment begins
  refine .acceptThen (fun t ht => J.slash ht.2 ht.1) (.pure fun _ ht => ht) ?_
  exact OperatorKeeps.accept (by decide) .nothing

/-- The operators `+` and `-`; an arrow is none. -/
theorem sumOperator_follows : OperatorKeeps J n sumOperator := by
  refine .accept (by decide) ?_
  refine .get fun c hc => ?_
  split
  · exact (OperatorKeeps.accept (by decide) .nothing).weaken fun t ht => ht ▸ hc
  · exact .pure fun t ht => ht ▸ hc.1

/-- A word operator. -/
theorem wordOperator_follows {word : String} {op : BinaryOp}
    (hword : word.toList.all isPlain = true) : OperatorKeeps J n (wordOperator word op) := by
  rw [wordOperator, bind_bool]
  exact .acceptText hword .nothing

/-- The two range operators. -/
theorem rangeOperator_follows : OperatorKeeps J n rangeOperator := by
  refine .acceptTextThen (by decide) (fun t ht => J.drop_plain (by decide) ht.1) ?_
    OperatorKeeps.nothing
  rw [bind_bool]
  exact .acceptThen (fun t ht => J.plain (by decide) ht) (.pure fun _ ht => ht) (.pure fun _ ht => ht)

/-- The six comparisons. -/
theorem comparisonOperator_follows : OperatorKeeps J n comparisonOperator := by
  refine .acceptText (by decide) <| .acceptText (by decide) <| .acceptText (by decide) <|
    .acceptText (by decide) ?_
  exact OperatorKeeps.accept (by decide) <| OperatorKeeps.accept (by decide) .nothing

/-- The operators that stand before an operand. -/
theorem leadingOperator_follows : OperatorKeeps J n leadingOperator := by
  have hminus : OperatorKeeps J n (accept '-' >>= fun taken =>
      if taken = true then pure (some UnaryOp.neg) else pure none) :=
    .accept (by decide) .nothing
  refine .get fun c hc => ?_
  split
  · exact (hminus.accept (by decide)).weaken fun t ht => ht ▸ hc
  · exact hminus.weaken fun t ht => ht ▸ hc

variable {p q : Parser Expr}

/-- A chain of operands with operators between them. -/
theorem leftChain_follows {g : Gap} {operator : Parser (Option BinaryOp)}
    (hop : OperatorKeeps J n operator) (h : Keeps J n p q) :
    Keeps J n (leftChain g operator p) (leftChain g operator q) := by
  refine h.bind fun first => ?_
  refine .iterate (I := fun _ => J.holds n) (fun left => ?_) first
  refine gapThen (hop.bind fun op => ?_)
  cases op with
  | none => exact .pure fun _ ht => ht
  | some op => exact h.bind fun right => .pure fun _ ht => ht

/-- At most one operator between two operands. -/
theorem pair_follows {g : Gap} {join : Parser (Option (Expr → Expr → Expr))}
    (hjoin : OperatorKeeps J n join) (h : Keeps J n p q) :
    Keeps J n (pair g join p) (pair g join q) := by
  refine h.bind fun left => gapThen (hjoin.bind fun make => ?_)
  cases make with
  | none => exact .pure fun _ ht => ht
  | some make => exact h.bind fun right => .pure fun _ ht => ht

/-- **Operators over operands**: expressions are followed if their operands are. -/
theorem exprOf_follows {g : Gap} (h : Keeps J n p q) : Keeps J n (exprOf g p) (exprOf g q) := by
  have hproduct := leftChain_follows (g := g) productOperator_follows h
  have hsum := leftChain_follows (g := g) sumOperator_follows hproduct
  have hrange := pair_follows (g := g) rangeOperator_follows hsum
  have hcomparison := pair_follows (g := g) comparisonOperator_follows hrange
  have hconjunction : Keeps J n (leftChain g (wordOperator "&&" .and) _) _ :=
    leftChain_follows (wordOperator_follows (by decide)) hcomparison
  exact leftChain_follows (wordOperator_follows (by decide)) hconjunction

/-! ## §5. Brackets -/

/-- What a bracket encloses is read one level deeper, and its end closes the level. -/
theorem enclosed_follows {close : Char} (hclose : close = ')' ∨ close = ']')
    (h : Keeps J (n + 1) p q) :
    Follows (J.holds (n + 1)) (enclosed p close) (enclosed q close) fun _ => J.holds n := by
  refine (exprOf_follows h).bind fun inner => ?_
  exact (expect_follows fun t ht => J.closing hclose ht).bind fun _ => .pure fun _ ht => ht

/-- The arguments of a call, up to the closing bracket. -/
theorem arguments_follows (h : Keeps J (n + 1) p q) :
    Follows (J.holds (n + 1)) (arguments p) (arguments q) fun _ => J.holds n := by
  refine gapThen ?_
  refine .acceptThen (fun t ht => J.closing (.inl rfl) ht.1) (.pure fun _ ht => ht) ?_
  refine Follows.weaken ?_ (fun t ht => ht.1)
  refine .iterate (I := fun _ => J.holds (n + 1)) (fun before => ?_) []
  refine (exprOf_follows h).bind fun arg => gapThen ?_
  refine .acceptThen (fun t ht => J.closing (.inl rfl) ht.1) (.pure fun _ ht => ht) ?_
  refine Follows.weaken ?_ (fun t ht => ht.1)
  exact (expect_follows fun t ht => J.separator (.inl rfl) ht).bind fun _ => .pure fun _ ht => ht

/-- After an entry: a comma and more entries, or the end of the level. -/
theorem collectionGoesOn_follows :
    Follows (J.holds (n + 1)) collectionGoesOn collectionGoesOn fun goesOn =>
      if goesOn = true then J.holds (n + 1) else J.holds n := by
  refine gapThen ?_
  refine .acceptThen (fun t ht => J.closing (.inr rfl) ht.1) (.pure fun _ ht => ht) ?_
  refine Follows.weaken ?_ (fun t ht => ht.1)
  refine (expect_follows fun t ht => J.separator (.inl rfl) ht).bind fun _ => gapThen ?_
  rw [bind_bool]
  exact .acceptThen (fun t ht => J.closing (.inr rfl) ht.1) (.pure fun _ ht => ht)
    (.pure fun _ ht => ht.1)

/-- The entries of a collection, up to the closing bracket. -/
theorem entries_follows {entry entry' : Parser α} (h : Keeps J (n + 1) entry entry') :
    Follows (J.holds (n + 1)) (entries entry) (entries entry') fun _ => J.holds n := by
  refine .iterate (I := fun _ => J.holds (n + 1)) (fun before => ?_) []
  refine h.bind fun one => collectionGoesOn_follows.bind fun goesOn => ?_
  cases goesOn with
  | true => exact .pure fun _ ht => ht
  | false => exact .pure fun _ ht => ht

/-- A key, a colon and a value. -/
theorem keyAndValue_follows (h : Keeps J (n + 1) p q) :
    Keeps J (n + 1) (keyAndValue p) (keyAndValue q) := by
  refine (exprOf_follows h).bind fun key => ?_
  refine (expect_follows fun t ht => J.separator (.inr rfl) ht).bind fun _ => ?_
  exact (exprOf_follows h).bind fun value => .pure fun _ ht => ht

/-! ## §6. Operands -/

/-- The second reader one level down follows the first one, wherever that one exists. -/
def DeeperKeeps (J : TextInvariant) (deeper deeper' : Deeper) : Prop :=
  ∀ d, deeper = some d → ∃ d', deeper' = some d' ∧ ∀ n g, Keeps J n (d g) (d' g)

variable {deeper deeper' : Deeper}

/-- Going one level down. -/
theorem DeeperKeeps.within {P : List Char → Prop} {Q : α → List Char → Prop}
    {inner inner' : (Gap → Parser Expr) → Parser α} (hdeeper : DeeperKeeps J deeper deeper')
    (h : ∀ d d', deeper = some d → deeper' = some d' → (∀ n g, Keeps J n (d g) (d' g)) →
      Follows P (inner d) (inner' d') Q) :
    Follows P (within deeper inner) (within deeper' inner') Q := by
  cases hd : deeper with
  | none => exact .refused fun _ => ⟨_, rfl⟩
  | some d =>
    obtain ⟨d', hd', hkeeps⟩ := hdeeper d hd
    rw [hd']
    exact h d d' hd hd' hkeeps

/-- The arguments of a call, where there is a level for them. -/
theorem arguments_within (hdeeper : DeeperKeeps J deeper deeper') :
    Follows (J.holds (n + 1)) (within deeper fun d => arguments (d .lines))
      (within deeper' fun d => arguments (d .lines)) fun _ => J.holds n :=
  hdeeper.within fun _ _ _ _ hkeeps => arguments_follows (hkeeps (n + 1) .lines)

/-- A name, or a call of it. -/
theorem nameOrCall_follows (hdeeper : DeeperKeeps J deeper deeper') (word : String) :
    Keeps J n (nameOrCall deeper word) (nameOrCall deeper' word) := by
  unfold nameOrCall
  split
  · exact .pure fun _ ht => ht
  · exact .pure fun _ ht => ht
  · exact .pure fun _ ht => ht
  · refine .acceptThen (fun t ht => J.opening (.inl rfl) ht) ?_ (.pure fun _ ht => ht)
    exact (arguments_within hdeeper).bind fun args => .pure fun _ ht => ht

/-- A member, or a call of a method. -/
theorem memberOf_follows (hdeeper : DeeperKeeps J deeper deeper') (target : Expr)
    (optional : Bool) :
    Keeps J n (memberOf deeper target optional) (memberOf deeper' target optional) := by
  refine nameHere_follows.bind fun word => ?_
  refine .acceptThen (fun t ht => J.opening (.inl rfl) ht) ?_ (.pure fun _ ht => ht)
  exact (arguments_within hdeeper).bind fun args => .pure fun _ ht => ht

/-- Everything that may stand behind an operand. -/
theorem suffix_follows (hdeeper : DeeperKeeps J deeper deeper') (target : Expr) :
    Keeps J n (suffix deeper target) (suffix deeper' target) := by
  refine .acceptThen (fun t ht => J.opening (.inr rfl) ht) ?_ ?_
  · refine Follows.bind ?_ fun index => .pure fun _ ht => ht
    exact hdeeper.within fun _ _ _ _ hkeeps => enclosed_follows (.inr rfl) (hkeeps (n + 1) .lines)
  refine .acceptTextThen (by decide) (fun t ht => J.drop_plain (by decide) ht) ?_ ?_
  · exact (memberOf_follows hdeeper target true).bind fun next => .pure fun _ ht => ht
  refine .get fun c hc => ?_
  split
  · refine .acceptThen (R := J.holds n) (fun t ht => J.plain (c := '.') (by decide) (ht ▸ hc)) ?_
      (.pure fun t ht => ht ▸ hc)
    exact (memberOf_follows hdeeper target false).bind fun next => .pure fun _ ht => ht
  · exact .pure fun t ht => ht ▸ hc

/-- Going past a character that has been seen. -/
theorem advance_follows {c : Cursor} {ch : Char} (hmore : ¬c.atEnd = true)
    (hpeek : (c.peek == ch) = true) (hc : J.holds n c.rest) :
    Follows (· = c.rest) advance advance fun _ t => J.holds n (ch :: t) := by
  intro d hd a d' hrun
  refine ⟨hrun, ?_⟩
  cases hrun
  show J.holds n (ch :: d.advance.rest)
  rw [Cursor.rest_advance, hd]
  -- what is seen at the front is the first character, since the text has not ended
  cases hrest : c.rest with
  | nil => exact absurd (by rw [Cursor.atEnd, hrest]; rfl) hmore
  | cons x t =>
    have hx : x = ch := by simpa [Cursor.peek, Cursor.peekAt, hrest] using hpeek
    rw [hrest, hx] at hc
    exact hc

section Collections

variable {havePairs havePairs' : Lookahead}

/-- The second reader of collections follows the first, given the readers one level down. -/
def CollectionKeeps (J : TextInvariant) (havePairs havePairs' : Lookahead)
    (deeper deeper' : Deeper) : Prop :=
  ∀ d d', deeper = some d → deeper' = some d' → ∀ n,
    Follows (fun t => J.holds n ('[' :: t)) (collection havePairs (d .lines))
      (collection havePairs' (d' .lines)) fun _ => J.holds n

/-- The operands without operators and suffixes. -/
theorem primary_follows (hdeeper : DeeperKeeps J deeper deeper')
    (hcollection : CollectionKeeps J havePairs havePairs' deeper deeper') (g : Gap) :
    Keeps J n (primary havePairs deeper g) (primary havePairs' deeper' g) := by
  refine gapThen (.get fun c hc => ?_)
  have hkept : ∀ t, t = c.rest → J.holds n t := fun t ht => ht ▸ hc.1
  split
  · exact .unexpected
  rename_i hmore
  split
  · rename_i hpeek
    refine (advance_follows hmore hpeek hc.1).bind fun _ => ?_
    -- up to the closing parenthesis the text is one bracket deeper
    refine Follows.weaken ?_ fun t ht => J.opening (.inl rfl) ht
    exact hdeeper.within fun _ _ _ _ hkeeps => enclosed_follows (.inl rfl) (hkeeps (n + 1) .lines)
  split
  · exact (string_follows.weaken hkept).bind fun text => .pure fun _ ht => ht
  split
  · refine (number_follows.weaken hkept).bind fun numeral => ?_
    cases numeral with
    | int value => exact .pure fun _ ht => ht
    | double value => exact .pure fun _ ht => ht
  split
  · rename_i hpeek
    refine (advance_follows hmore hpeek hc.1).bind fun _ => ?_
    exact hdeeper.within fun d d' hd hd' _ => hcollection d d' hd hd' n
  · exact (nameHere_follows.weaken hkept).bind fun word => nameOrCall_follows hdeeper word

/-- **Operands over the level below**: operands are followed if those one level down and the
    collections made of them are. -/
theorem operandLevel_follows (hdeeper : DeeperKeeps J deeper deeper')
    (hcollection : CollectionKeeps J havePairs havePairs' deeper deeper') (g : Gap) :
    Keeps J n (operandLevel havePairs deeper g) (operandLevel havePairs' deeper' g) := by
  refine gapThen (leadingOperator_follows.bind fun op => ?_)
  cases op with
  | some op =>
    -- a leading operator: the operand one level down
    refine Follows.bind ?_ fun operand => .pure fun _ ht => ht
    exact hdeeper.within fun _ _ _ _ hkeeps => hkeeps n g
  | none =>
    -- otherwise a primary operand, and suffixes as long as there are any
    refine (primary_follows hdeeper hcollection g).bind fun first => ?_
    refine .iterate (I := fun _ => J.holds n) (fun target => ?_) first
    intro c hc round c' hrun
    obtain ⟨hrun', hround⟩ := suffix_follows hdeeper target c hc round c' hrun
    refine ⟨hrun', ?_⟩
    cases round with
    | again next => exact hround
    | done result => exact hround

/-- A collection is followed if its entries are, after the gap that follows the bracket. -/
theorem collection_follows {p q : Parser Expr}
    (h : ∀ t, J.holds n ('[' :: t) → Follows (· = t.drop (Gap.lines.length false t))
      (filled havePairs p) (filled havePairs' q) fun _ => J.holds n) :
    Follows (fun t => J.holds n ('[' :: t)) (collection havePairs p) (collection havePairs' q)
      fun _ => J.holds n := by
  intro c hc
  -- the bracket opens a level, and the gap behind it stays on that level
  have hopen : J.holds (n + 1) (c.rest.drop (Gap.lines.length false c.rest)) :=
    J.gap .lines (J.opening (.inr rfl) hc)
  have hgap : Follows (· = c.rest) (gap .lines) (gap .lines)
      fun _ t => t = c.rest.drop (Gap.lines.length false c.rest) := by
    intro d hd a d' hrun
    refine ⟨hrun, ?_⟩
    cases hrun
    show (d.skip .lines).rest = _
    rw [Cursor.skip, Cursor.rest_advanceBy, hd]
  refine (hgap.bind fun _ => ?_) c rfl
  -- nothing inside: the bracket closes at once
  refine .acceptThen (R := J.holds n) (fun t ht => J.closing (c := ']') (.inr rfl) (ht ▸ hopen))
    (.pure fun _ ht => ht) ?_
  -- a colon and nothing else: the empty dictionary
  refine .acceptThen (R := J.holds (n + 1))
    (fun t ht => J.separator (c := ':') (.inr rfl) (ht ▸ hopen)) ?_ (h c.rest hc)
  exact (expect_follows fun t ht => J.closing (.inr rfl) ht).bind fun _ => .pure fun _ ht => ht

end Collections

/-! ## §7. Whole texts -/

/-- How two lookaheads decide alike, for a family of invariants: in every collection that is not
    empty, whenever the readers of operands keep up the whole family. -/
def Lookahead.Alike {ι : Type} (J : ι → TextInvariant) (havePairs havePairs' : Lookahead) : Prop :=
  ∀ p q : Parser Expr, (∀ i n, Keeps (J i) n p q) → ∀ i n t, (J i).holds n ('[' :: t) →
    Follows (· = t.drop (Gap.lines.length false t)) (filled havePairs p) (filled havePairs' q)
      fun _ => (J i).holds n

variable {ι : Type} {J : ι → TextInvariant} {havePairs havePairs' : Lookahead}

/-- Operands with any number of levels left. -/
theorem operand_follows (h : Lookahead.Alike J havePairs havePairs') (levels : Nat) :
    ∀ i n g, Keeps (J i) n (operand havePairs levels g) (operand havePairs' levels g) := by
  -- on the levels left: the level below is followed for the whole family
  induction levels with
  | zero =>
    intro i n g
    exact operandLevel_follows (fun d hd => by cases hd) (fun d d' hd => by cases hd) g
  | succ levels ih =>
    intro i n g
    refine operandLevel_follows (fun d hd => ?_) (fun d d' hd hd' m => ?_) g
    · cases hd
      exact ⟨_, rfl, ih i⟩
    · cases hd
      cases hd'
      exact collection_follows (h _ _ (fun i n => ih i n .lines) i m)

/-- **Texts are read alike** if collections are decided alike. -/
theorem parseBy_follows (h : Lookahead.Alike J havePairs havePairs') {source : String} {e : Expr}
    (i : ι) (hsource : (J i).holds 0 source.toList) (hparse : Expr.parseBy havePairs source = .ok e) :
    Expr.parseBy havePairs' source = .ok e := by
  -- the whole text: an expression, a gap and the end
  have honly : Follows ((J i).holds 0) (onlyExpr havePairs) (onlyExpr havePairs')
      fun _ _ => True := by
    refine gapThen (Follows.weaken ?_ fun t ht => ht.1)
    refine (exprOf_follows (operand_follows h maxNesting i 0 .inline)).bind fun inner => gapThen ?_
    refine .get fun c _ => ?_
    split
    · exact .pure fun _ _ => trivial
    · exact .unexpected
  unfold Expr.parseBy at hparse ⊢
  cases hrun : onlyExpr havePairs (Cursor.start source) with
  | error err =>
    rw [hrun] at hparse
    cases hparse
  | ok r =>
    obtain ⟨inner, c⟩ := r
    rw [hrun] at hparse
    cases hparse
    rw [(honly _ hsource _ _ hrun).1]
    rfl

end Scriptlet.Parser
