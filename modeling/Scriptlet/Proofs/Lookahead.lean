/-
  Scriptlet.Proofs.Lookahead — whether a collection holds pairs.

  Whether `[` begins an array or a dictionary is decided by a scan for the first colon, comma or
  closing bracket outside nested brackets and strings.  The measure is the grammar itself: read the
  first entry, pass the gap after it, and see whether a colon stands there.

  Whatever the scan, a reader that decides by it accepts nothing that the grammar does not
  (`parse_of_scanning`).  A scan that passes over comments and over all that a string may hold decides
  as the grammar does (`parseBy_lexically_iff`).  The scan in use does neither: it takes marks inside
  comments for code and ends at an end mark inside a string.  So texts exist that the grammar reads and
  the scan refuses.

  Main results:
    * `scan_reads_as_grammar` — what is read by the scan in use, and by the lexical one.
    * `scan_misled_by_comment` — a text on which the scan in use goes wrong.
-/
import Scriptlet.Proofs.Reading

open Scriptlet.Parser

namespace Scriptlet

namespace Parser

/-! ## §1. Other ways to decide -/

/-- Decides by reading the first entry: pairs are what has a colon after it. -/
def byFirstEntry : Lookahead := fun operand => do
  let c ← get
  let _ ← exprOf .lines operand
  gap .lines
  let followed := (← get).peek == ':'
  set c
  return followed

/-- Where in a text a scan is. -/
inductive Zone where
  | code
  | string
  | comment
  deriving DecidableEq, Repr

/-- Whether a colon stands in the text before the first comma or closing bracket outside nested
    brackets, strings and comments. -/
def startsPairIn : (zone : Zone) → (nesting : Nat) → List Char → Bool
  | _, _, [] => false
  | .comment, nesting, c :: rest =>
    startsPairIn (if c == '\n' then .code else .comment) nesting rest
  | .string, nesting, c :: rest =>
    if c == '\\' then
      match rest with
      | [] => false
      | _ :: more => startsPairIn .string nesting more
    else startsPairIn (if c == '"' then .code else .string) nesting rest
  | .code, nesting, c :: rest =>
    if opensComment c rest then startsPairIn .comment nesting rest
    else if c == '"' then startsPairIn .string nesting rest
    else if c == '(' || c == '[' || c == '{' then startsPairIn .code (nesting + 1) rest
    else if c == ')' || c == '}' then startsPairIn .code (nesting - 1) rest
    else if nesting == 0 then
      if c == ']' || c == ',' then false
      else if c == ':' then true
      else startsPairIn .code nesting rest
    else if c == ']' then startsPairIn .code (nesting - 1) rest
    else startsPairIn .code nesting rest

/-- Decides as `byScan` does, but passes over comments and over every character of a string. -/
def byLexicalScan : Lookahead := byScanning (startsPairIn .code 0)

/-! ## §2. What stands after the first entry -/

/-- Entries begin with a first one, and the collection goes on or ends behind it. -/
theorem entries_first {α : Type} {entry : Parser α} {c c' : Cursor} {all : List α}
    (h : entries entry c = .ok (all, c')) :
    ∃ one next, entry c = .ok (one, next) ∧ ∃ r, collectionGoesOn next = .ok r := by
  unfold entries at h
  rw [iterate] at h
  cases hstep : entries.step entry [] c with
  | error e =>
    rw [hstep] at h
    cases h
  | ok r =>
    obtain ⟨one, next, hone, hrest⟩ := bind_eq_ok.mp hstep
    obtain ⟨goesOn, c'', hgoes, -⟩ := bind_eq_ok.mp hrest
    exact ⟨one, next, hone, _, hgoes⟩

/-- A character that must stand after the gap stood there. -/
theorem rest_of_expect {g : Gap} {ch : Char} {c c' : Cursor} {u : Unit}
    (h : expect g ch c = .ok (u, c')) : (c.skip g).rest = ch :: c'.rest := by
  obtain ⟨v, d, hgap, hrest⟩ := bind_eq_ok.mp h
  cases hgap
  obtain ⟨taken, d', haccept, hrest⟩ := bind_eq_ok.mp hrest
  have htaken := taking_eq_ok haccept
  cases taken with
  | true =>
    cases hrest
    exact Cursor.rest_of_accept? htaken
  | false => cases hrest

theorem skip_skip (c : Cursor) (g : Gap) : (c.skip g).skip g = c.skip g := by
  have hlength : g.length false (c.skip g).rest = 0 := by
    rw [Cursor.skip, Cursor.rest_advanceBy]
    exact length_after_gap g false c.rest
  rw [Cursor.skip, hlength, Cursor.advanceBy]

/-- After an entry the collection ends or a comma stands. -/
theorem rest_of_collectionGoesOn {c : Cursor} {r : Bool × Cursor}
    (h : collectionGoesOn c = .ok r) :
    ∃ t, (c.skip .lines).rest = ']' :: t ∨ (c.skip .lines).rest = ',' :: t := by
  obtain ⟨u, d, hgap, hrest⟩ := bind_eq_ok.mp h
  cases hgap
  -- either the closing bracket is taken here
  obtain ⟨taken, d, haccept, hrest⟩ := bind_eq_ok.mp hrest
  have htaken := taking_eq_ok haccept
  cases taken with
  | true => exact ⟨d.rest, .inl (Cursor.rest_of_accept? htaken)⟩
  | false =>
    cases htaken
    -- or a comma has to be
    obtain ⟨v, d, hexpect, -⟩ := bind_eq_ok.mp hrest
    have hcomma := rest_of_expect hexpect
    rw [skip_skip] at hcomma
    exact ⟨d.rest, .inr hcomma⟩

/-- Between a key and its value a colon stands. -/
theorem rest_of_keyAndValue {operand : Parser Expr} {c c' : Cursor} {one : Expr × Expr}
    (h : keyAndValue operand c = .ok (one, c')) :
    ∃ key next t, exprOf .lines operand c = .ok (key, next) ∧
      (next.skip .lines).rest = ':' :: t := by
  obtain ⟨key, next, hkey, hrest⟩ := bind_eq_ok.mp h
  obtain ⟨u, after, hcolon, -⟩ := bind_eq_ok.mp hrest
  exact ⟨key, next, after.rest, hkey, rest_of_expect hcolon⟩

/-- Deciding by the first entry leaves the place as it is. -/
theorem byFirstEntry_eq_ok {operand : Parser Expr} {c c' : Cursor} {pairs : Bool} :
    byFirstEntry operand c = .ok (pairs, c') ↔
      ∃ first next, exprOf .lines operand c = .ok (first, next) ∧
        pairs = ((next.skip .lines).peek == ':') ∧ c' = c := by
  constructor
  · intro h
    obtain ⟨d, d', hget, hrest⟩ := bind_eq_ok.mp h
    cases hget
    obtain ⟨first, next, hfirst, hrest⟩ := bind_eq_ok.mp hrest
    cases hrest
    exact ⟨first, next, hfirst, rfl, rfl⟩
  · rintro ⟨first, next, hfirst, rfl, rfl⟩
    exact bind_eq_ok.mpr ⟨_, _, rfl, bind_eq_ok.mpr ⟨first, next, hfirst, rfl⟩⟩

/-! ## §3. Whatever the scan, it reads nothing else -/

variable {p q : Parser Expr} {J : TextInvariant} {n : Nat}

/-- The contents of a collection are followed if its operands are, whatever its kind. -/
theorem contents_follows (h : Keeps J (n + 1) p q) (pairs : Bool) :
    Follows (J.holds (n + 1)) (contents p pairs) (contents q pairs) fun _ => J.holds n := by
  cases pairs with
  | true => exact (entries_follows (keyAndValue_follows h)).bind fun all => .pure fun _ ht => ht
  | false => exact (entries_follows (exprOf_follows h)).bind fun all => .pure fun _ ht => ht

/-- In a collection of either kind, what follows the first entry tells the kind. -/
theorem first_of_contents {pairs : Bool} {c : Cursor} {r : Expr × Cursor}
    (h : contents p pairs c = .ok r) :
    ∃ first next ch t, exprOf .lines p c = .ok (first, next) ∧ (next.skip .lines).rest = ch :: t ∧
      if pairs = true then ch = ':' else ch = ']' ∨ ch = ',' := by
  cases pairs with
  | true =>
    -- pairs: the first entry is a key with a colon behind it
    obtain ⟨all, d, hall, -⟩ := bind_eq_ok.mp h
    obtain ⟨one, next, hone, -⟩ := entries_first hall
    obtain ⟨key, next, t, hkey, hcolon⟩ := rest_of_keyAndValue hone
    exact ⟨key, next, ':', t, hkey, hcolon, rfl⟩
  | false =>
    -- no pairs: the first entry is an expression, and the collection goes on or ends
    obtain ⟨all, d, hall, -⟩ := bind_eq_ok.mp h
    obtain ⟨one, next, hone, r, hgoes⟩ := entries_first hall
    obtain ⟨t, hclose | hcomma⟩ := rest_of_collectionGoesOn hgoes
    · exact ⟨one, next, ']', t, hone, hclose, .inl rfl⟩
    · exact ⟨one, next, ',', t, hone, hcomma, .inr rfl⟩

/-- So whichever way the kind was decided, the first entry decides it the same way. -/
theorem byFirstEntry_of_contents {pairs : Bool} {c : Cursor} {r : Expr × Cursor}
    (hc : J.holds (n + 1) c.rest) (h : Keeps J (n + 1) p q) (hrun : contents p pairs c = .ok r) :
    byFirstEntry q c = .ok (pairs, c) := by
  obtain ⟨first, next, ch, t, hfirst, hrest, hch⟩ := first_of_contents hrun
  refine byFirstEntry_eq_ok.mpr ⟨first, next, (exprOf_follows h c hc _ _ hfirst).1, ?_, rfl⟩
  rw [Cursor.peek, Cursor.peekAt, hrest, List.getD_cons_zero]
  cases pairs with
  | true => rw [show ch = ':' from hch]; rfl
  | false => rcases hch with rfl | rfl <;> rfl

/-- Deciding by the first entry reads all that any scan lets be read. -/
theorem scanning_alike_firstEntry (scan : List Char → Bool) :
    Lookahead.Alike (fun _ : Unit => TextInvariant.none) (byScanning scan) byFirstEntry := by
  intro p q h i n t _ c _ e c' hrun
  obtain ⟨pairs, d, hscan, hcontents⟩ := bind_eq_ok.mp hrun
  cases hscan
  obtain ⟨hcontents', hkept⟩ := contents_follows (h i (n + 1)) _ c trivial e c' hcontents
  have hfirst := byFirstEntry_of_contents trivial (h i (n + 1)) hcontents
  exact ⟨bind_eq_ok.mpr ⟨_, c, hfirst, hcontents'⟩, hkept⟩

/-- **No scan reads what the grammar does not.** -/
theorem parse_of_scanning {scan : List Char → Bool} {source : String} {e : Expr}
    (h : Expr.parseBy (byScanning scan) source = .ok e) :
    Expr.parseBy byFirstEntry source = .ok e :=
  parseBy_follows (scanning_alike_firstEntry scan) () trivial h

/-! ## §4. The lexical scan reads all of it -/

theorem startsPairIn_comment {c : Char} {t : List Char} :
    startsPairIn .comment n (c :: t) =
      startsPairIn (if c == '\n' then .code else .comment) n t := by
  rw [startsPairIn]

theorem startsPairIn_quoted {c : Char} {t : List Char} :
    startsPairIn .string n (c :: t) =
      if c == '\\' then
        match t with
        | [] => false
        | _ :: more => startsPairIn .string n more
      else startsPairIn (if c == '"' then .code else .string) n t := by
  rw [startsPairIn.eq_def]

/-- The lexical scan passes over plain characters. -/
theorem startsPairIn_plain {c : Char} {t : List Char} (hc : isPlain c = true) :
    startsPairIn .code n (c :: t) = startsPairIn .code n t := by
  simp only [isPlain, isMark, Bool.and_eq_true, Bool.not_eq_true', Bool.or_eq_false_iff,
    bne_iff_ne, ne_eq] at hc
  rw [startsPairIn]
  simp [opensComment, hc]

/-- It passes over gaps, also from the middle of a comment. -/
theorem startsPairIn_gap (g : Gap) (inComment : Bool) (t : List Char) :
    startsPairIn .code n (t.drop (g.length inComment t)) =
      startsPairIn (if inComment = true then .comment else .code) n t := by
  fun_induction Gap.length g inComment t with
  | case1 => rfl
  | case2 c rest hline hadmits ih =>
    rw [List.drop_succ_cons, ih, if_pos rfl, startsPairIn_comment, if_pos hline]
    rfl
  | case3 c rest hline hadmits =>
    -- the line end after the comment is not part of the gap, and the scan passes it
    rw [List.drop_zero, if_pos rfl, startsPairIn_comment, if_pos hline, beq_iff_eq.mp hline]
    exact startsPairIn_plain (by decide)
  | case4 c rest hline ih =>
    rw [List.drop_succ_cons, ih, if_pos rfl, startsPairIn_comment, if_neg hline]
  | case5 c rest hadmits ih =>
    rw [List.drop_succ_cons, ih]
    exact (startsPairIn_plain (isPlain_of_not (f := g.admits) (by cases g <;> decide) hadmits)).symm
  | case6 c rest _ hopens ih =>
    rw [List.drop_succ_cons, ih, if_pos rfl, if_neg (by decide), startsPairIn, if_pos hopens]
  | case7 => rfl

/-- It passes over the body of a string up to the closing quote. -/
theorem startsPairIn_string {t body : List Char} {k : Nat} (h : quotedBody t = some (body, k)) :
    startsPairIn .string n t = startsPairIn .code n (t.drop k) := by
  -- along the body: its end, an escape with the character behind it, any other character
  fun_induction quotedBody t generalizing body k with
  | case1 => cases h
  | case2 c rest hquote =>
    cases h
    rw [startsPairIn_quoted, beq_iff_eq.mp hquote]
    rfl
  | case3 c hquote hslash => cases h
  | case4 c hquote hslash e more ih =>
    obtain ⟨⟨inner, m⟩, hinner, hk⟩ := Option.map_eq_some_iff.mp h
    cases hk
    rw [startsPairIn_quoted, if_pos hslash]
    exact ih hinner
  | case5 c rest hquote hslash ih =>
    obtain ⟨⟨inner, m⟩, hinner, hk⟩ := Option.map_eq_some_iff.mp h
    cases hk
    rw [startsPairIn_quoted, if_neg hslash, if_neg hquote]
    exact ih hinner

/-- That the lexical scan has this outcome is kept up by all that an expression is made of. -/
def TextInvariant.scanned (outcome : Bool) : TextInvariant where
  holds n t := startsPairIn .code n t = outcome
  gap g h := by rw [startsPairIn_gap g false]; exact h
  plain hc h := by rw [← h, startsPairIn_plain hc]
  slash hsettled h := by
    rw [← h, startsPairIn, if_neg (by rw [hsettled]; decide)]
    simp
  opening hc h := by rcases hc with rfl | rfl <;> exact h
  closing hc h := by rcases hc with rfl | rfl <;> exact h
  separator hc h := by rcases hc with rfl | rfl <;> exact h
  string hbody h := by rw [← startsPairIn_string hbody]; exact h

/-- The lexical scan decides as the first entry does: its outcome survives the whole entry, so that
    it is decided by what follows. -/
theorem firstEntry_alike_lexical :
    Lookahead.Alike TextInvariant.scanned byFirstEntry byLexicalScan := by
  intro p q h outcome n t ht c hc e c' hrun
  obtain ⟨pairs, d, hfirst, hcontents⟩ := bind_eq_ok.mp hrun
  obtain ⟨first, next, hread, -, hd⟩ := byFirstEntry_eq_ok.mp hfirst
  subst d
  have hopen : (TextInvariant.scanned outcome).holds (n + 1) c.rest := by
    rw [hc]
    exact TextInvariant.gap _ .lines (TextInvariant.opening _ (.inr rfl) ht)
  obtain ⟨hcontents', hkept⟩ := contents_follows (h outcome (n + 1)) pairs c hopen e c' hcontents
  refine ⟨bind_eq_ok.mpr ⟨pairs, c, ?_, hcontents'⟩, hkept⟩
  -- the outcome of the scan is the same after the first entry and the gap after it
  have hafter : startsPairIn .code 0 (next.skip .lines).rest = startsPairIn .code 0 c.rest := by
    have hnext := (exprOf_follows (h (startsPairIn .code 0 c.rest) 0) c rfl first next hread).2
    rw [Cursor.skip, Cursor.rest_advanceBy]
    exact TextInvariant.gap _ .lines hnext
  obtain ⟨first', next', ch, u, hread', hrest, hch⟩ := first_of_contents hcontents
  rw [hread] at hread'
  cases hread'
  show Except.ok (startsPairIn .code 0 c.rest, c) = Except.ok (pairs, c)
  rw [← hafter, hrest]
  cases pairs with
  | true => rw [show ch = ':' from hch]; rfl
  | false => rcases hch with rfl | rfl <;> rfl

/-- **The lexical scan reads exactly what the grammar does.** -/
theorem parseBy_lexically_iff {source : String} {e : Expr} :
    Expr.parseBy byLexicalScan source = .ok e ↔ Expr.parseBy byFirstEntry source = .ok e :=
  ⟨parse_of_scanning, parseBy_follows firstEntry_alike_lexical _ rfl⟩

/-! ## §5. The scan in use -/

/-- Whether the scan in use and the lexical one have the same outcome after every opening bracket. -/
def scansAgree : List Char → Bool
  | [] => true
  | c :: t =>
    let entries := t.drop (Gap.lines.length false t)
    (c != '[' || startsPair 0 false entries == startsPairIn .code 0 entries) && scansAgree t

/-- Where the scans agree on a text, they agree on every end of it. -/
theorem scansAgree_drop {t : List Char} (k : Nat) (h : scansAgree t = true) :
    scansAgree (t.drop k) = true := by
  induction k generalizing t with
  | zero => exact h
  | succ k ih =>
    cases t with
    | nil => rfl
    | cons c t =>
      rw [scansAgree, Bool.and_eq_true] at h
      exact ih h.2

/-- The scans agree on what is left of a text, since it is an end of that text. -/
def TextInvariant.agreeing : TextInvariant where
  holds _ t := scansAgree t = true
  gap _ h := scansAgree_drop _ h
  plain _ h := scansAgree_drop 1 h
  slash _ h := scansAgree_drop 1 h
  opening _ h := scansAgree_drop 1 h
  closing _ h := scansAgree_drop 1 h
  separator _ h := scansAgree_drop 1 h
  string {_ _ _ k} _ h := scansAgree_drop (k + 1) h

/-- Where the scans agree, the one in use decides as the lexical one. -/
theorem lexical_alike_scan :
    Lookahead.Alike (fun _ : Unit => TextInvariant.agreeing) byLexicalScan byScan := by
  intro p q h i n t ht c hc e c' hrun
  -- the invariant holds inside the bracket
  have hopen : TextInvariant.agreeing.holds (n + 1) c.rest := by
    rw [hc]
    exact scansAgree_drop _ (scansAgree_drop 1 ht)
  -- the scans agree behind this bracket
  have hsame : startsPair 0 false c.rest = startsPairIn .code 0 c.rest := by
    have hagree : scansAgree ('[' :: t) = true := ht
    rw [scansAgree, Bool.and_eq_true] at hagree
    rw [hc]
    simpa using hagree.1
  -- so the kind is decided alike, and the contents are followed
  obtain ⟨pairs, d, hscan, hcontents⟩ := bind_eq_ok.mp hrun
  cases hscan
  obtain ⟨hcontents', hkept⟩ := contents_follows (h i (n + 1)) _ c hopen e c' hcontents
  refine ⟨bind_eq_ok.mpr ⟨_, c, ?_, hcontents'⟩, hkept⟩
  show Except.ok (startsPair 0 false c.rest, c) = _
  rw [hsame]

end Parser

/-- **What the scan reads, the grammar reads**, for every text; where the scan agrees with the lexical
    one after every opening bracket, it reads exactly what the grammar reads; and the lexical one
    does so on every text. -/
theorem scan_reads_as_grammar (source : String) (e : Expr) :
    (Expr.parse source = .ok e → Expr.parseBy byFirstEntry source = .ok e) ∧
    (scansAgree source.toList = true →
      (Expr.parse source = .ok e ↔ Expr.parseBy byFirstEntry source = .ok e)) ∧
    (Expr.parseBy byLexicalScan source = .ok e ↔ Expr.parseBy byFirstEntry source = .ok e) := by
  refine ⟨parse_of_scanning, fun hagree => ⟨parse_of_scanning, fun h => ?_⟩, parseBy_lexically_iff⟩
  exact parseBy_follows lexical_alike_scan () hagree (parseBy_lexically_iff.mpr h)

/-- A comment and a colon inside a string that do not mislead the scan. -/
theorem scan_reads_as_grammar_nested :
    let source := "[\"a:]\": [f(x)[0], 2], # of pairs: two\n \"b\": [:]]"
    scansAgree source.toList = true ∧
      ∃ e, Expr.parse source = .ok e ∧ Expr.parseBy byFirstEntry source = .ok e := by
  intro source
  have hagree : scansAgree source.toList = true := by decide +kernel
  have hread : (Expr.parse source).toOption.isSome = true := by decide +kernel
  refine ⟨hagree, ?_⟩
  cases hparse : Expr.parse source with
  | error err =>
    rw [hparse] at hread
    cases hread
  | ok e => exact ⟨e, rfl, ((scan_reads_as_grammar source e).2.1 hagree).mp hparse⟩

/-- **A comment misleads the scan**: the grammar reads an array of one number, and the scan, which
    takes the colon in the comment for one between a key and its value, refuses the text. -/
theorem scan_misled_by_comment :
    Expr.parseBy byFirstEntry "[1 # a: b\n]" = .ok (.array [.int 1]) ∧
      ∀ e, Expr.parse "[1 # a: b\n]" ≠ .ok e := by
  constructor
  · with_unfolding_all rfl
  · intro e h
    have hread : (Expr.parse "[1 # a: b\n]").toOption.isSome = false := by decide +kernel
    rw [h] at hread
    cases hread

end Scriptlet
