/-
  Scriptlet.Proofs.Printing — the text of an expression.

  A printer beside the parser.  Expressions have ranks, from the tightest to the loosest: suffixes and
  what stands alone (0), prefixed operators (1), products, sums, ranges, comparisons, `&&` and `||`
  (2 to 7).  Every place in a text admits expressions up to some rank, and only what is looser stands in
  parentheses there.  Operators between two operands have blanks around them; the dots of a range
  have them or not, as asked.

  Main results:
    * `Expr.text_starts` — what a printed expression begins with.
    * `Expr.text_passes` — a scan for pairs passes over a printed expression.
-/
import Scriptlet.Number.Decimal
import Scriptlet.Proofs.Reading
import Scriptlet.Proofs.Syntax

open Scriptlet.Parser

namespace Scriptlet

/-! ## §1. Ranks -/

/-- What joins two operands: an operator, or the dots of a range. -/
inductive Infix where
  | operator (op : BinaryOp)
  | dots (inclusive : Bool)
  deriving DecidableEq, Repr

namespace Infix

/-- The joint as a script writes it. -/
def symbol : Infix → List Char
  | .operator op => op.symbol.toList
  | .dots true => ['.', '.']
  | .dots false => ['.', '.', '<']

/-- Its level among the joints, from the tightest. -/
def tier : Infix → Nat
  | .operator op =>
    match op with
    | .mul | .div | .mod => 0
    | .add | .sub => 1
    | .eq | .ne | .lt | .gt | .le | .ge => 3
    | .and => 4
    | .or => 5
  | .dots _ => 2

/-- The expression of two operands. -/
def make : Infix → Expr → Expr → Expr
  | .operator op, left, right => .binary op left right
  | .dots inclusive, first, last => .range first last inclusive

/-- The joint with the blanks around it; the dots of a range have none if they stand tight. -/
def written (tight : Bool) : Infix → List Char
  | .operator op => ' ' :: (Infix.operator op).symbol ++ [' ']
  | .dots inclusive =>
    if tight then (Infix.dots inclusive).symbol else ' ' :: (Infix.dots inclusive).symbol ++ [' ']

end Infix

/-- Whether the joints of the level associate, to the left; ranges and comparisons do not. -/
def chains (tier : Nat) : Bool := tier != 2 && tier != 3

/-- The rank that the left operand may have. -/
def Infix.leftRank (i : Infix) : Nat := if chains i.tier then i.tier + 2 else i.tier + 1

/-- The rank of an expression: how loosely it holds together. -/
def Expr.rank : Expr → Nat
  | .binary op _ _ => (Infix.operator op).tier + 2
  | .range _ _ inclusive => (Infix.dots inclusive).tier + 2
  | .unary _ _ => 1
  | _ => 0

/-! ## §2. The printer -/

/-- The text in parentheses, if it needs them. -/
def parenthesized (needed : Bool) (t : List Char) : List Char :=
  if needed then '(' :: t ++ [')'] else t

/-- Texts with commas between them. -/
def commaSeparated : List (List Char) → List Char
  | [] => []
  | [t] => t
  | t :: next :: rest => t ++ ',' :: ' ' :: commaSeparated (next :: rest)

/-- A string with a backslash before each quote and backslash. -/
def escaped : List Char → List Char
  | [] => []
  | c :: rest => if c == '\\' || c == '"' then '\\' :: c :: escaped rest else c :: escaped rest

/-- A string literal. -/
def quoted (s : String) : List Char := '"' :: escaped s.toList ++ ['"']

/-- The dot before a member. -/
def memberDot (optional : Bool) : List Char := if optional then ['?', '.'] else ['.']

mutual

/-- **The text of an expression**, with parentheses only where a part is looser than its place
    admits. -/
def Expr.text (tight : Bool) : Expr → List Char
  | .nil => "nil".toList
  | .bool b => (if b then "true" else "false").toList
  | .int n => (Number.Word.text n).toList
  | .double x => (Number.Decimal.fixed 6 (Number.readDouble x)).toList
  | .string s => quoted s
  | .var name => name.toList
  | .binary op left right =>
    let i := Infix.operator op
    parenthesized (i.leftRank < left.rank) (left.text tight) ++ i.written tight ++
      parenthesized (i.tier + 1 < right.rank) (right.text tight)
  | .range first last inclusive =>
    let i := Infix.dots inclusive
    parenthesized (i.leftRank < first.rank) (first.text tight) ++ i.written tight ++
      parenthesized (i.tier + 1 < last.rank) (last.text tight)
  | .unary op operand =>
    op.symbol.toList ++ parenthesized (1 < operand.rank) (operand.text tight)
  | .call name args => name.toList ++ '(' :: commaSeparated (Expr.listTexts tight args) ++ [')']
  | .array items => '[' :: commaSeparated (Expr.listTexts tight items) ++ [']']
  | .dict [] => ['[', ':', ']']
  | .dict (pair :: pairs) =>
    '[' :: commaSeparated (Expr.pairTexts tight (pair :: pairs)) ++ [']']
  | .index target i =>
    parenthesized (0 < target.rank) (target.text tight) ++ '[' :: i.text tight ++ [']']
  | .member target name optional =>
    parenthesized (0 < target.rank) (target.text tight) ++ memberDot optional ++ name.toList
  | .method target name args optional =>
    parenthesized (0 < target.rank) (target.text tight) ++ memberDot optional ++ name.toList ++
      '(' :: commaSeparated (Expr.listTexts tight args) ++ [')']

/-- The texts of expressions. -/
def Expr.listTexts (tight : Bool) : List Expr → List (List Char)
  | [] => []
  | e :: rest => e.text tight :: Expr.listTexts tight rest

/-- The texts of keys with their values. -/
def Expr.pairTexts (tight : Bool) : List (Expr × Expr) → List (List Char)
  | [] => []
  | (key, value) :: rest =>
    (key.text tight ++ ':' :: ' ' :: value.text tight) :: Expr.pairTexts tight rest

end

/-- The text of an expression where it may have a rank up to this one. -/
def Expr.textAt (tight : Bool) (most : Nat) (e : Expr) : List Char :=
  parenthesized (most < e.rank) (e.text tight)

mutual

/-- How deep brackets and prefixed operators are nested in the text of an expression. -/
def Expr.nesting : Expr → Nat
  | .binary op left right =>
    let i := Infix.operator op
    max (left.nesting + if i.leftRank < left.rank then 1 else 0)
      (right.nesting + if i.tier + 1 < right.rank then 1 else 0)
  | .range first last inclusive =>
    let i := Infix.dots inclusive
    max (first.nesting + if i.leftRank < first.rank then 1 else 0)
      (last.nesting + if i.tier + 1 < last.rank then 1 else 0)
  | .unary _ operand => operand.nesting + (if 1 < operand.rank then 1 else 0) + 1
  | .call _ args => Expr.listNesting args + 1
  | .array items => Expr.listNesting items + 1
  | .dict pairs => Expr.pairsNesting pairs + 1
  | .index target i => max (target.nesting + if 0 < target.rank then 1 else 0) (i.nesting + 1)
  | .member target _ _ => target.nesting + if 0 < target.rank then 1 else 0
  | .method target _ args _ =>
    max (target.nesting + if 0 < target.rank then 1 else 0) (Expr.listNesting args + 1)
  | _ => 0

/-- How deep the deepest of several expressions is nested. -/
def Expr.listNesting : List Expr → Nat
  | [] => 0
  | e :: rest => max e.nesting (Expr.listNesting rest)

/-- How deep the deepest of several keys and values is nested. -/
def Expr.pairsNesting : List (Expr × Expr) → Nat
  | [] => 0
  | (key, value) :: rest => max (max key.nesting value.nesting) (Expr.pairsNesting rest)

end

/-- How deep the text of an expression is nested where it may have a rank up to this one. -/
def Expr.nestingAt (most : Nat) (e : Expr) : Nat := e.nesting + if most < e.rank then 1 else 0

/-! ## §3. What can be printed -/

/-- Whether the word is one that a name is read as. -/
def isIdentifier (word : String) : Bool :=
  match word.toList with
  | [] => false
  | c :: rest => Text.isNameStart c && rest.all Text.isNameChar

/-- Whether the word stands for a literal. -/
def isReserved (word : String) : Bool := word == "nil" || word == "true" || word == "false"

/-- Whether what an expression holds besides its parts has a text that can be read back. -/
def Expr.hasLegibleHead : Expr → Bool
  | .int n => 0 ≤ n.toInt
  | .double _ => false
  | .string s => !s.toList.contains Cursor.pastEnd
  | .var name | .call name _ => isIdentifier name && !isReserved name
  | .member _ name _ | .method _ name _ _ => isIdentifier name
  | _ => true

/-- **Whether an expression has a text that can be read back**: no literal with a decimal point, no
    negative literal, no end mark in a string, and identifiers for names. -/
def Expr.isLegible (e : Expr) : Bool :=
  e.hasLegibleHead && e.parts.attach.all fun ⟨p, _⟩ => p.isLegible
termination_by sizeOf e
decreasing_by exact Expr.sizeOf_part ‹_›

/-- An expression can be read back if its own words can and each of its parts can. -/
theorem Expr.isLegible_iff {e : Expr} :
    e.isLegible = true ↔ e.hasLegibleHead = true ∧ ∀ p ∈ e.parts, p.isLegible = true := by
  rw [isLegible]
  simp

/-- An identifier has a first character, and each of its characters may stand in a name. -/
theorem identifier_chars {word : String} (h : isIdentifier word = true) :
    ∃ c rest, word.toList = c :: rest ∧ Text.isNameStart c = true ∧
      ∀ d ∈ c :: rest, Text.isNameChar d = true := by
  unfold isIdentifier at h
  cases hword : word.toList with
  | nil =>
    rw [hword] at h
    cases h
  | cons c rest =>
    rw [hword] at h
    simp only [Bool.and_eq_true, List.all_eq_true] at h
    refine ⟨c, rest, rfl, h.1, fun d hd => ?_⟩
    rcases List.mem_cons.mp hd with rfl | hd
    · exact Parser.isNameChar_of_isNameStart h.1
    · exact h.2 d hd

/-- An integer that is not negative is written with digits alone. -/
theorem word_text_digits {n : Int64} (h : 0 ≤ n.toInt) :
    (Number.Word.text n).toList = Nat.toDigits 10 n.toInt.toNat := by
  obtain ⟨k, hk⟩ := Int.eq_ofNat_of_zero_le h
  rw [Number.Word.text, hk]
  exact Nat.toList_repr

/-! ## §4. The text and its parts -/

@[simp]
theorem Expr.listTexts_eq_map (tight : Bool) (es : List Expr) :
    Expr.listTexts tight es = es.map (·.text tight) := by
  induction es with
  | nil => rfl
  | cons e es ih => rw [Expr.listTexts, ih, List.map_cons]

/-- The text of a key with its value. -/
def Expr.pairText (tight : Bool) (pair : Expr × Expr) : List Char :=
  pair.1.text tight ++ ':' :: ' ' :: pair.2.text tight

@[simp]
theorem Expr.pairTexts_eq_map (tight : Bool) (pairs : List (Expr × Expr)) :
    Expr.pairTexts tight pairs = pairs.map (Expr.pairText tight) := by
  induction pairs with
  | nil => rfl
  | cons pair pairs ih => rw [Expr.pairTexts, ih, List.map_cons, Expr.pairText]

/-- The operands stand to both sides of the joint, each in parentheses if it is too loose for its
    side. -/
theorem Expr.text_make (tight : Bool) (i : Infix) (left right : Expr) :
    (i.make left right).text tight =
      left.textAt tight i.leftRank ++ i.written tight ++ right.textAt tight (i.tier + 1) := by
  cases i <;> rw [Infix.make, Expr.text] <;> rfl

theorem Expr.rank_make (i : Infix) (left right : Expr) :
    (i.make left right).rank = i.tier + 2 := by
  cases i <;> rfl

/-- Parentheses around an operand are one level more. -/
theorem Expr.nesting_make (i : Infix) (left right : Expr) :
    (i.make left right).nesting =
      max (left.nestingAt i.leftRank) (right.nestingAt (i.tier + 1)) := by
  cases i <;> rw [Infix.make, Expr.nesting] <;> rfl

/-- No item of a list is nested deeper than the list. -/
theorem Expr.nesting_le_list {e : Expr} {es : List Expr} (h : e ∈ es) :
    e.nesting ≤ Expr.listNesting es := by
  induction es with
  | nil => cases h
  | cons first es ih =>
    rw [Expr.listNesting]
    rcases List.mem_cons.mp h with rfl | h
    · omega
    · have hrest := ih h
      omega

theorem Expr.nesting_le_pairs {pair : Expr × Expr} {pairs : List (Expr × Expr)}
    (h : pair ∈ pairs) :
    pair.1.nesting ≤ Expr.pairsNesting pairs ∧ pair.2.nesting ≤ Expr.pairsNesting pairs := by
  induction pairs with
  | nil => cases h
  | cons first pairs ih =>
    rw [Expr.pairsNesting]
    rcases List.mem_cons.mp h with rfl | h
    · omega
    · have hrest := ih h
      omega

theorem Infix.tier_le (i : Infix) : i.tier ≤ 5 := by
  cases i with
  | operator op => cases op <;> decide
  | dots inclusive => simp [tier]

theorem Expr.rank_le (e : Expr) : e.rank ≤ 7 := by
  cases e with
  | binary op left right => exact Nat.add_le_add_right (Infix.tier_le (.operator op)) 2
  | range first last inclusive => exact Nat.add_le_add_right (Infix.tier_le (.dots inclusive)) 2
  | _ => simp [rank]

/-- An expression is joined, prefixed, or of rank zero. -/
theorem Expr.shape (e : Expr) :
    (∃ i left right, e = Infix.make i left right) ∨ (∃ op operand, e = .unary op operand) ∨
      e.rank = 0 := by
  cases e with
  | binary op left right => exact .inl ⟨.operator op, left, right, rfl⟩
  | range first last inclusive => exact .inl ⟨.dots inclusive, first, last, rfl⟩
  | unary op operand => exact .inr (.inl ⟨op, operand, rfl⟩)
  | _ => exact .inr (.inr rfl)

theorem Expr.parts_make (i : Infix) (left right : Expr) :
    (i.make left right).parts = [left, right] := by
  cases i <;> rfl

/-! ## §5. What a text begins with -/

/-- The characters that an expression of rank zero may begin with. -/
def beginsAtom (c : Char) : Bool :=
  c.isDigit || Text.isNameStart c || c == '"' || c == '(' || c == '['

/-- The characters that an expression may begin with. -/
def beginsExpr (c : Char) : Bool := beginsAtom c || c == '-' || c == '!'

/-- A text that begins with a character of the class. -/
def Begins (f : Char → Bool) (t : List Char) : Prop := ∃ c rest, t = c :: rest ∧ f c = true

theorem Begins.append {f : Char → Bool} {t u : List Char} (h : Begins f t) : Begins f (t ++ u) := by
  obtain ⟨c, rest, rfl, hc⟩ := h
  exact ⟨c, rest ++ u, rfl, hc⟩

theorem Begins.expr {t : List Char} (h : Begins beginsAtom t) : Begins beginsExpr t := by
  obtain ⟨c, rest, rfl, hc⟩ := h
  exact ⟨c, rest, rfl, by simp [beginsExpr, hc]⟩

/-- The text does not begin with what is outside the class. -/
theorem Begins.head_ne {f : Char → Bool} {t : List Char} (h : Begins f t) {ch : Char}
    (hch : f ch = false) : t.head? ≠ some ch := by
  obtain ⟨c, rest, rfl, hc⟩ := h
  intro heq
  cases heq
  rw [hc] at hch
  cases hch

/-- A list begins as its first item does. -/
theorem Begins.commaSeparated {α : Type} {f : Char → Bool} {text : α → List Char} {a : α}
    {as : List α} (h : Begins f (text a)) : Begins f (commaSeparated ((a :: as).map text)) := by
  cases as with
  | nil => exact h
  | cons b as => exact h.append

theorem begins_identifier {word : String} (h : isIdentifier word = true) :
    Begins beginsAtom word.toList := by
  obtain ⟨c, rest, hword, hstart, -⟩ := identifier_chars h
  exact ⟨c, rest, hword, by simp [beginsAtom, hstart]⟩

theorem begins_digits (n : Nat) : Begins beginsAtom (Nat.toDigits 10 n) := by
  cases hdigits : Nat.toDigits 10 n with
  | nil => exact absurd hdigits Nat.toDigits_ne_nil
  | cons c rest =>
    have hc : c.isDigit = true :=
      Nat.isDigit_of_mem_toDigits (by decide) (by decide) (hdigits ▸ List.mem_cons_self)
    exact ⟨c, rest, rfl, by simp [beginsAtom, hc]⟩

/-- **Where a suffix may follow**, an expression begins like one that stands alone: the tightest
    part comes first, or it stands in parentheses. -/
theorem Expr.textAt_zero_starts {tight : Bool} {e : Expr} (h : e.isLegible = true) :
    Begins beginsAtom (e.textAt tight 0) := by
  induction e using Expr.parts_induction with
  | h e ih =>
    obtain ⟨hhead, hparts⟩ := Expr.isLegible_iff.mp h
    have hpart : ∀ p ∈ e.parts, Begins beginsAtom (p.textAt tight 0) :=
      fun p hp => ih p hp (hparts p hp)
    -- what is looser than a suffix stands in parentheses here
    by_cases hrank : 0 < e.rank
    · rw [Expr.textAt, decide_eq_true hrank]
      exact ⟨'(', _, rfl, by decide⟩
    rw [Expr.textAt, decide_eq_false hrank]
    show Begins beginsAtom (e.text tight)
    cases e with
    | binary op left right => exact absurd (by simp [Expr.rank]) hrank
    | range first last inclusive => exact absurd (by simp [Expr.rank]) hrank
    | unary op operand => exact absurd (by simp [Expr.rank]) hrank
    | nil => exact ⟨'n', _, rfl, by decide⟩
    | bool b => cases b <;> exact ⟨_, _, rfl, by decide⟩
    | int n =>
      rw [Expr.text, word_text_digits (by simpa [Expr.hasLegibleHead] using hhead)]
      exact begins_digits _
    | double x => cases hhead
    | string s => exact ⟨'"', _, rfl, by decide⟩
    | var name =>
      simp only [Expr.hasLegibleHead, Bool.and_eq_true] at hhead
      exact begins_identifier hhead.1
    | call name args =>
      simp only [Expr.hasLegibleHead, Bool.and_eq_true] at hhead
      rw [Expr.text, List.append_assoc]
      exact (begins_identifier hhead.1).append
    | array items => exact ⟨'[', _, rfl, by decide⟩
    | dict pairs => cases pairs <;> exact ⟨'[', _, rfl, by decide⟩
    | index target i =>
      rw [Expr.text, List.append_assoc]
      exact (hpart target (by simp [Expr.parts])).append
    | member target name optional =>
      rw [Expr.text, List.append_assoc]
      exact (hpart target (by simp [Expr.parts])).append
    | method target name args optional =>
      rw [Expr.text, List.append_assoc, List.append_assoc, List.append_assoc]
      exact (hpart target (by simp [Expr.parts])).append

/-- An opening parenthesis begins an expression too. -/
theorem Begins.textAt {tight : Bool} {most : Nat} {e : Expr} (h : Begins beginsExpr (e.text tight)) :
    Begins beginsExpr (e.textAt tight most) := by
  rw [Expr.textAt]
  cases decide (most < e.rank) with
  | true => exact ⟨'(', _, rfl, by decide⟩
  | false => exact h

/-- **What a printed expression begins with.** -/
theorem Expr.text_starts {tight : Bool} {e : Expr} (h : e.isLegible = true) :
    Begins beginsExpr (e.text tight) := by
  induction e using Expr.parts_induction with
  | h e ih =>
    obtain ⟨-, hparts⟩ := Expr.isLegible_iff.mp h
    rcases e.shape with ⟨i, left, right, rfl⟩ | ⟨op, operand, rfl⟩ | hrank
    · have hleft : left ∈ (i.make left right).parts := by simp [Expr.parts_make]
      -- a joint begins as its left operand does
      rw [Expr.text_make, List.append_assoc]
      exact (ih left hleft (hparts left hleft)).textAt.append
    -- a prefixed operator begins with its own sign
    · cases op <;> exact ⟨_, _, rfl, by decide⟩
    -- and what is of rank zero stands alone
    · have hatom : Begins beginsAtom (e.textAt tight 0) := Expr.textAt_zero_starts h
      rw [Expr.textAt, hrank] at hatom
      exact hatom.expr

/-! ## §6. A scan for pairs passes over a text -/

/-- Whether a scan for pairs, at this depth of brackets at least, comes out behind the text as it
    went in. -/
def Passes (least : Nat) (t : List Char) : Prop :=
  ∀ n rest, least ≤ n → startsPair n false (t ++ rest) = startsPair n false rest

namespace Passes

variable {least : Nat} {t u : List Char}

/-- The scan that has passed one text stands before the next as it stood before. -/
theorem append (ht : Passes least t) (hu : Passes least u) : Passes least (t ++ u) := by
  intro n rest hn
  rw [List.append_assoc, ht n _ hn, hu n rest hn]

theorem deeper (h : Passes 0 t) : Passes least t := fun n rest _ => h n rest (Nat.zero_le n)

/-- Text without marks. -/
theorem unmarked (h : t.all (fun c => !isMark c) = true) : Passes least t := by
  intro n rest _
  induction t with
  | nil => rfl
  | cons c t ih =>
    rw [List.all_cons, Bool.and_eq_true, Bool.not_eq_true'] at h
    rw [List.cons_append, startsPair_cons h.1]
    exact ih h.2

theorem plain (h : ∀ c ∈ t, isPlain c = true) : Passes least t := by
  refine unmarked (List.all_eq_true.mpr fun c hc => ?_)
  have hplain := h c hc
  simp only [isPlain, Bool.and_eq_true] at hplain
  exact hplain.1.1

/-- Inside brackets the scan does not heed commas and colons. -/
theorem separator {c : Char} (h : c = ',' ∨ c = ':') : Passes 1 [c] := by
  intro n rest hn
  obtain ⟨m, rfl⟩ : ∃ m, n = m + 1 := ⟨n - 1, by omega⟩
  rcases h with rfl | rfl <;> rw [List.singleton_append, startsPair.eq_def] <;> rfl

/-- Brackets are passed if their content is, one level further down. -/
theorem bracketed {opening closing : Char}
    (h : (opening, closing) = ('(', ')') ∨ (opening, closing) = ('[', ']')) (ht : Passes 1 t) :
    Passes 0 (opening :: t ++ [closing]) := by
  intro n rest _
  have hinner := ht (n + 1) (closing :: rest) (by omega)
  rcases h with h | h <;> cases h <;>
    rw [List.append_assoc, List.cons_append, startsPair.eq_def] <;>
    exact hinner.trans (by rw [startsPair.eq_def]; rfl)

theorem parenthesized {needed : Bool} (h : Passes 0 t) :
    Passes 0 (parenthesized needed t) := by
  cases needed with
  | true => exact bracketed (.inl rfl) h.deeper
  | false => exact h

/-- Commas and blanks between texts are passed inside brackets. -/
theorem commaSeparated {ts : List (List Char)} (h : ∀ t ∈ ts, Passes 1 t) :
    Passes 1 (commaSeparated ts) := by
  fun_induction Scriptlet.commaSeparated ts with
  | case1 => exact unmarked rfl
  | case2 t => exact h t List.mem_cons_self
  | case3 t next rest ih =>
    have hrest := ih fun t ht => h t (List.mem_cons_of_mem _ ht)
    have hcomma : Passes 1 [',', ' '] := (separator (.inl rfl)).append (unmarked (by decide))
    exact (h t List.mem_cons_self).append (hcomma.append hrest)

end Passes

/-- Inside a string the scan passes what it can, and comes out at the closing quote. -/
theorem startsPair_escaped {n : Nat} {body rest : List Char} (h : Cursor.pastEnd ∉ body) :
    startsPair n true (escaped body ++ '"' :: rest) = startsPair n false rest := by
  induction body with
  | nil => rw [escaped, List.nil_append, startsPair.eq_def]; rfl
  | cons c body ih =>
    obtain ⟨hc, hbody⟩ : Cursor.pastEnd ≠ c ∧ Cursor.pastEnd ∉ body := by simpa using h
    have hend : ¬(c == Cursor.pastEnd) = true := by simpa using Ne.symm hc
    rw [escaped]
    split
    -- an escaped character is skipped with its backslash
    · rw [List.cons_append, List.cons_append, startsPair.eq_def]
      exact ih hbody
    · rename_i hplain
      simp only [Bool.or_eq_true, not_or] at hplain
      rw [List.cons_append, startsPair.eq_def]
      simp only [if_neg hend, if_pos, if_neg hplain.1]
      rw [show (c != '"') = true by simpa using hplain.2]
      exact ih hbody

/-- A string literal is passed from quote to quote. -/
theorem passes_quoted {s : String} (h : s.toList.contains Cursor.pastEnd = false) :
    Passes 0 (quoted s) := by
  intro n rest _
  have hend : Cursor.pastEnd ∉ s.toList := by simpa using h
  rw [quoted, List.append_assoc, List.cons_append, startsPair.eq_def]
  exact startsPair_escaped hend

theorem passes_identifier {word : String} (h : isIdentifier word = true) :
    Passes 0 word.toList := by
  obtain ⟨c, rest, hword, -, hchars⟩ := identifier_chars h
  rw [hword]
  exact .plain fun d hd => isPlain_of_isNameChar (hchars d hd)

theorem passes_written (tight : Bool) (i : Infix) : Passes 0 (i.written tight) := by
  refine .unmarked ?_
  cases i with
  | operator op => cases tight <;> cases op <;> decide
  | dots inclusive => cases tight <;> cases inclusive <;> decide

/-- **A scan for pairs passes over a printed expression**: whatever might stop it is in brackets or
    in quotes. -/
theorem Expr.text_passes {tight : Bool} {e : Expr} (h : e.isLegible = true) :
    Passes 0 (e.text tight) := by
  induction e using Expr.parts_induction with
  | h e ih =>
    obtain ⟨hhead, hparts⟩ := Expr.isLegible_iff.mp h
    have hpart : ∀ p ∈ e.parts, Passes 0 (p.text tight) := fun p hp => ih p hp (hparts p hp)
    -- inside brackets the scan is one level down, where it passes commas and colons too
    have hlist : ∀ es : List Expr, (∀ p ∈ es, p ∈ e.parts) →
        Passes 1 (commaSeparated (Expr.listTexts tight es)) := by
      intro es hes
      rw [Expr.listTexts_eq_map]
      refine .commaSeparated fun t ht => ?_
      obtain ⟨p, hp, rfl⟩ := List.mem_map.mp ht
      exact (hpart p (hes p hp)).deeper
    cases e with
    | nil =>
      rw [Expr.text]
      exact .unmarked (by decide)
    | bool b =>
      rw [Expr.text]
      cases b <;> exact .unmarked (by decide)
    | int n =>
      rw [Expr.text, word_text_digits (by simpa [Expr.hasLegibleHead] using hhead)]
      exact .plain fun c hc =>
        isPlain_of_isDigit (Nat.isDigit_of_mem_toDigits (by decide) (by decide) hc)
    | double x => cases hhead
    | string s => exact passes_quoted (by simpa [Expr.hasLegibleHead] using hhead)
    | var name =>
      simp only [Expr.hasLegibleHead, Bool.and_eq_true] at hhead
      exact passes_identifier hhead.1
    | binary op left right =>
      -- operands with or without parentheses, and a joint that has no mark in it
      rw [Expr.text]
      exact ((hpart left (by simp [Expr.parts])).parenthesized.append (passes_written _ _)).append
        (hpart right (by simp [Expr.parts])).parenthesized
    | range first last inclusive =>
      rw [Expr.text]
      exact ((hpart first (by simp [Expr.parts])).parenthesized.append (passes_written _ _)).append
        (hpart last (by simp [Expr.parts])).parenthesized
    | unary op operand =>
      rw [Expr.text]
      refine Passes.append (.unmarked ?_) (hpart operand (by simp [Expr.parts])).parenthesized
      cases op <;> decide
    | call name args =>
      simp only [Expr.hasLegibleHead, Bool.and_eq_true] at hhead
      rw [Expr.text, List.append_assoc]
      exact (passes_identifier hhead.1).append (.bracketed (.inl rfl) (hlist args fun _ hp => hp))
    | array items => exact .bracketed (.inr rfl) (hlist items fun _ hp => hp)
    | dict pairs =>
      cases pairs with
      | nil => exact .bracketed (t := [':']) (.inr rfl) (.separator (.inr rfl))
      | cons first rest =>
        rw [Expr.text, Expr.pairTexts_eq_map]
        refine .bracketed (.inr rfl) (.commaSeparated fun t ht => ?_)
        obtain ⟨pair, hpair, rfl⟩ := List.mem_map.mp ht
        have hmem : ∀ p ∈ [pair.1, pair.2], p ∈ (Expr.dict (first :: rest)).parts :=
          fun p hp => List.mem_flatMap.mpr ⟨pair, hpair, hp⟩
        have hcolon : Passes 1 [':', ' '] :=
          (Passes.separator (.inr rfl)).append (.unmarked (by decide))
        exact (hpart pair.1 (hmem _ (by simp))).deeper.append
          (hcolon.append (hpart pair.2 (hmem _ (by simp))).deeper)
    | index target i =>
      rw [Expr.text, List.append_assoc]
      exact (hpart target (by simp [Expr.parts])).parenthesized.append
        (.bracketed (.inr rfl) (hpart i (by simp [Expr.parts])).deeper)
    | member target name optional =>
      -- the dots of the member and its name, and for a method the arguments in brackets
      rw [Expr.text, List.append_assoc]
      refine (hpart target (by simp [Expr.parts])).parenthesized.append ?_
      refine Passes.append (.unmarked ?_) (passes_identifier hhead)
      cases optional <;> decide
    | method target name args optional =>
      rw [Expr.text, List.append_assoc, List.append_assoc, List.append_assoc]
      refine (hpart target (by simp [Expr.parts])).parenthesized.append ?_
      refine Passes.append (.unmarked ?_) ((passes_identifier hhead).append ?_)
      · cases optional <;> decide
      · exact .bracketed (.inl rfl) (hlist args fun _ hp => List.mem_cons_of_mem _ hp)

end Scriptlet
