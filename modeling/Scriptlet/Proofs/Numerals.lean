/-
  Scriptlet.Proofs.Numerals — integers survive being written and read as text.

  A numeral is an optional sign and digits; its value is given by place, apart from how it is read.
  Reading accepts a numeral exactly when its value is a word, with any blanks around it.  The text of a
  word is the numeral of its value, also of the least word, whose opposite is no word.

  Main results:
    * `Text.trim_surrounded` — trimming takes the blanks at both ends and no more.
    * `Builtin.int_numeral` — what the conversion gives for a numeral between blanks.
    * `integers_survive_text` — writing and reading back, and the range in which reading succeeds.
-/
import Mathlib.Data.List.Basic
import Mathlib.Tactic.Ring
import Scriptlet.Eval.Stmt
import Scriptlet.Proofs.Arithmetic
import Scriptlet.Proofs.KnownText
import Scriptlet.Tool.Builtin

namespace Scriptlet

open Number

/-! ## §1. Numerals -/

/-- The sign in front of a numeral. -/
inductive Sign where
  | none
  | plus
  | minus

/-- The sign as it is written. -/
def Sign.chars : Sign → List Char
  | .none => []
  | .plus => ['+']
  | .minus => ['-']

/-- Whether the sign turns the number to its opposite. -/
def Sign.isMinus : Sign → Bool
  | .minus => true
  | _ => false

/-- The number with the sign in front. -/
def Sign.apply (sign : Sign) (n : Nat) : Int := if sign.isMinus then -(n : Int) else n

/-- An optional sign followed by one or more digits. -/
structure SignedDigits where
  sign : Sign
  digits : List Char
  filled : digits ≠ []
  decimal : ∀ c ∈ digits, c.isDigit = true

/-- The value of digits by their places. -/
def placeValue : List Char → Nat
  | [] => 0
  | d :: ds => (d.toNat - '0'.toNat) * 10 ^ ds.length + placeValue ds

namespace SignedDigits

/-- The characters of the numeral. -/
def chars (m : SignedDigits) : List Char := m.sign.chars ++ m.digits

/-- The integer that the numeral stands for. -/
def value (m : SignedDigits) : Int := m.sign.apply (placeValue m.digits)

/-- The numeral of an integer, with a sign only below zero. -/
def ofInt (n : Int) : SignedDigits where
  sign := if n < 0 then .minus else .none
  digits := Nat.toDigits 10 n.natAbs
  filled := by simp
  decimal _ hc := Parser.isDigit_toDigits hc

end SignedDigits

/-- Reading from the left, each digit moves those before it one place up. -/
theorem foldl_digits (ds : List Char) (n : Nat) :
    ds.foldl (fun n d => 10 * n + (d.toNat - '0'.toNat)) n = n * 10 ^ ds.length + placeValue ds := by
  induction ds generalizing n with
  | nil => simp [placeValue]
  | cons d ds ih =>
    rw [List.foldl_cons, ih, placeValue, List.length_cons, pow_succ]
    ring

/-- The value that reading computes is the one by place. -/
theorem digitsValue_eq (ds : List Char) : Decimal.digitsValue ds = placeValue ds := by
  rw [Decimal.digitsValue, foldl_digits, Nat.zero_mul, Nat.zero_add]

namespace SignedDigits

/-- Digits alone are read as their value. -/
theorem natural?_digits (m : SignedDigits) : Decimal.natural? m.digits = some (placeValue m.digits) := by
  have hall : m.digits.all Char.isDigit = true := List.all_eq_true.mpr m.decimal
  have hsome : m.digits.isEmpty = false := by simpa using m.filled
  rw [Decimal.natural?, hall, hsome, digitsValue_eq]
  rfl

/-- A sign and digits are read as the integer that they stand for. -/
theorem integer?_chars (m : SignedDigits) : Decimal.integer? m.chars = some m.value := by
  have hdigits := m.natural?_digits
  have hsplit : Decimal.splitSign m.chars = (m.sign.isMinus, m.digits) := by
    unfold chars
    cases m.sign with
    | none => exact Parser.splitSign_digits m.decimal
    | plus => rfl
    | minus => rfl
  rw [Decimal.integer?, hsplit]
  dsimp only
  rw [hdigits]
  rfl

/-- They are read as a word where a word holds that integer. -/
theorem word?_chars (m : SignedDigits) : Decimal.word? m.chars = Word.ofInt? m.value := by
  rw [Decimal.word?, m.integer?_chars, Option.bind_some]

/-- The numeral of an integer stands for it. -/
theorem value_ofInt (n : Int) : (ofInt n).value = n := by
  unfold value ofInt
  rw [← digitsValue_eq, Parser.digitsValue_toDigits]
  by_cases h : n < 0
  · rw [if_pos h]
    show -(n.natAbs : Int) = n
    omega
  · rw [if_neg h]
    show (n.natAbs : Int) = n
    omega

/-- The value of a word's numeral is that word again. -/
theorem ofInt?_value (n : Int64) : Word.ofInt? (ofInt n.toInt).value = some n := by
  rw [value_ofInt, Word.ofInt?, if_pos (InWords.toInt n), Int64.ofInt_toInt]

/-- The text of a word is the numeral of its value, the least word included. -/
theorem text_word (n : Int64) : (Word.text n).toList = (ofInt n.toInt).chars := by
  unfold Word.text chars ofInt
  rw [Int.toString_eq_repr, Int.repr_eq_if]
  by_cases h : 0 ≤ n.toInt
  · have hnat : n.toInt.toNat = n.toInt.natAbs := by omega
    rw [if_pos h, if_neg (by omega), Nat.toList_repr, hnat]
    rfl
  · have hnat : (-n.toInt).toNat = n.toInt.natAbs := by omega
    rw [if_neg h, if_pos (by omega), String.toList_append, Nat.toList_repr, hnat]
    rfl

end SignedDigits

/-! ## §2. Blanks around a numeral -/

theorem Text.isBlank_of_isDigit {c : Char} (h : c.isDigit = true) : isBlank c = false := by
  simp only [Char.isDigit, Bool.and_eq_true, decide_eq_true_eq, ge_iff_le, UInt32.le_iff_toNat_le] at h
  have hlow : 48 ≤ c.toNat := h.1
  have hhigh : c.toNat ≤ 57 := h.2
  simp [isBlank, CodeRange.covers, blankRanges]
  omega

/-- No character of a numeral is a blank. -/
theorem SignedDigits.isBlank_chars (m : SignedDigits) {c : Char} (h : c ∈ m.chars) :
    Text.isBlank c = false := by
  rcases List.mem_append.mp h with hsign | hdigit
  · cases hm : m.sign <;> rw [hm] at hsign
    · cases hsign
    · rw [List.mem_singleton.mp hsign]; decide +kernel
    · rw [List.mem_singleton.mp hsign]; decide +kernel
  · exact Text.isBlank_of_isDigit (m.decimal c hdigit)

/-- Dropping blanks goes over a run of them and stops at the text behind it. -/
theorem Text.dropWhile_blanks {before t : List Char} (hbefore : ∀ c ∈ before, isBlank c = true)
    (ht : ∀ c ∈ t.head?, isBlank c = false) : (before ++ t).dropWhile isBlank = t := by
  rw [List.dropWhile_append_of_pos hbefore]
  cases t with
  | nil => rfl
  | cons c t => rw [List.dropWhile_cons_of_neg (by simp [ht c rfl])]

/-- **Trimming** takes the blanks at both ends and leaves what has none at its own ends. -/
theorem Text.trim_surrounded {before t after : List Char} (hfilled : t ≠ [])
    (hbefore : ∀ c ∈ before, isBlank c = true) (hafter : ∀ c ∈ after, isBlank c = true)
    (ht : ∀ c ∈ t, isBlank c = false) : trim (before ++ t ++ after) = t := by
  have hhead : ∀ c ∈ (t ++ after).head?, isBlank c = false := by
    intro c hc
    rw [List.head?_append_of_ne_nil _ hfilled] at hc
    exact ht c (List.mem_of_mem_head? hc)
  have hlast : ∀ c ∈ t.reverse.head?, isBlank c = false := by
    intro c hc
    exact ht c (List.mem_reverse.mp (List.mem_of_mem_head? hc))
  unfold trim
  rw [List.append_assoc, dropWhile_blanks hbefore hhead, List.reverse_append,
    dropWhile_blanks (by simpa using hafter) hlast, List.reverse_reverse]

/-! ## §3. The conversions -/

namespace Builtin

theorem call_str (h : Heap) (v : Value) :
    toolbox.call "str" [v] h = (.ok (.string (h.text v)), h) := rfl

theorem call_int (h : Heap) (v : Value) : toolbox.call "int" [v] h = (toInt v, h) := by
  show ToolRun.ofAlloc (liftM (toInt v)) h = _
  cases hv : toInt v <;> rfl

/-- A numeral between blanks is read as its value, and refused where that is no word. -/
theorem int_numeral (m : SignedDigits) {before after : List Char}
    (hbefore : ∀ c ∈ before, Text.isBlank c = true) (hafter : ∀ c ∈ after, Text.isBlank c = true) :
    (∀ w, Word.ofInt? m.value = some w →
      toInt (.string (String.ofList (before ++ m.chars ++ after))) = .ok (.int w)) ∧
    (Word.ofInt? m.value = none →
      ∃ e, toInt (.string (String.ofList (before ++ m.chars ++ after))) = .error e) := by
  -- the numeral has no blank at its ends, so that trimming gives it back
  have hfilled : m.chars ≠ [] := List.append_ne_nil_of_right_ne_nil _ m.filled
  have htrim := Text.trim_surrounded hfilled hbefore hafter fun c hc => m.isBlank_chars hc
  unfold toInt
  simp only [String.toList_ofList, htrim, m.word?_chars]
  constructor
  · intro w hw
    rw [hw]
  · intro hnone
    rw [hnone]
    exact ⟨_, rfl⟩

/-- A sign with digits is read exactly when a word holds its value, and then as that value. -/
theorem toInt_signedDigits (m : SignedDigits) :
    ((∃ v, toInt (.string (String.ofList m.chars)) = .ok v) ↔ InWords m.value) ∧
    ∀ v, toInt (.string (String.ofList m.chars)) = .ok v →
      ∃ w : Int64, v = .int w ∧ w.toInt = m.value := by
  -- no blanks around it is a case of any blanks
  have hblank : ∀ c ∈ ([] : List Char), Text.isBlank c = true := by simp
  have hread := int_numeral m hblank hblank
  simp only [List.nil_append, List.append_nil] at hread
  by_cases hrange : InWords m.value
  · obtain ⟨w, hw, hword⟩ := ofInt?_of_inWords hrange
    -- a word holds the value: reading gives that word
    have hok := hread.1 w hword
    refine ⟨⟨fun _ => hrange, fun _ => ⟨_, hok⟩⟩, ?_⟩
    intro v hv
    rw [hok] at hv
    cases hv
    exact ⟨w, rfl, hw⟩
  · obtain ⟨e, herror⟩ := hread.2 (if_neg hrange)
    -- no word does: reading fails, so it gives nothing
    have hnone : ∀ v, toInt (.string (String.ofList m.chars)) ≠ .ok v := by
      intro v hv
      rw [herror] at hv
      cases hv
    exact ⟨⟨fun ⟨v, hv⟩ => absurd hv (hnone v), fun hin => absurd hin hrange⟩,
      fun v hv => absurd hv (hnone v)⟩

/-- The text of a word between blanks is read as that word. -/
theorem toInt_text (n : Int64) {before after : List Char}
    (hbefore : ∀ c ∈ before, Text.isBlank c = true) (hafter : ∀ c ∈ after, Text.isBlank c = true) :
    toInt (.string (String.ofList (before ++ (Word.text n).toList ++ after))) = .ok (.int n) := by
  rw [SignedDigits.text_word]
  exact (int_numeral (SignedDigits.ofInt n.toInt) hbefore hafter).1 n (SignedDigits.ofInt?_value n)

end Builtin

/-- The text is how the value is written, by the builtin, by the method and by a `print`. -/
structure Value.WrittenAs (h : Heap) (v : Value) (t : String) : Prop where
  str : Builtin.toolbox.call "str" [v] h = (.ok (.string t), h)
  method : h.callMethod v "toString" [] = .ok (.string t, h)
  printed : ∀ (evaluate : Eval.Evaluate) (execute : Eval.Execute) (rounds : Nat) (e : Expr) (s s' : State),
    evaluate e s = some (.ok v, s') → s'.heap = h →
      Eval.effect evaluate execute rounds (.print e) s =
        some (.ok .next, { s' with printed := s'.printed.push t })

/-- Every value is written by its text in all three ways. -/
theorem Value.writtenAs_text (h : Heap) (v : Value) : v.WrittenAs h (h.text v) where
  str := Builtin.call_str h v
  method := rfl
  printed evaluate execute rounds e s s' heval hheap := by
    subst hheap
    show (ExceptT.bind (evaluate e) _ : Eval Signal) s = _
    simp only [ExceptT.bind, ExceptT.mk, bind, StateT.bind, heval, Option.bind_some]
    rfl

/-- Spaces, tabs and line ends. -/
def Text.isSpacing (c : Char) : Bool := c = ' ' || c = '\t' || c = '\n'

theorem Text.isBlank_of_isSpacing {c : Char} (h : isSpacing c = true) : isBlank c = true := by
  simp only [isSpacing, Bool.or_eq_true, decide_eq_true_eq] at h
  rcases h with (rfl | rfl) | rfl <;> decide +kernel

/-- **Integers survive text.**  What is written for a word is read as that word, between spacing too;
    and a sign with digits is read exactly when its value is a word, and then as that value. -/
theorem integers_survive_text :
    (∀ (n : Int64) (h : Heap), ∃ t : String, (Value.int n).WrittenAs h t ∧
      ∀ (before after : List Char) (h' : Heap), before.all Text.isSpacing = true →
        after.all Text.isSpacing = true →
        Builtin.toolbox.call "int" [.string (String.ofList (before ++ t.toList ++ after))] h' =
          (.ok (.int n), h')) ∧
    (∀ (m : SignedDigits) (h : Heap),
      ((∃ v, Builtin.toolbox.call "int" [.string (String.ofList m.chars)] h = (.ok v, h)) ↔
        Int64.minValue.toInt ≤ m.value ∧ m.value ≤ Int64.maxValue.toInt) ∧
      ∀ v h', Builtin.toolbox.call "int" [.string (String.ofList m.chars)] h = (.ok v, h') →
        ∃ w : Int64, v = .int w ∧ w.toInt = m.value) := by
  constructor
  · intro n h
    -- what is written is the text of the word, which reads back between blanks
    refine ⟨h.text (.int n), Value.writtenAs_text h _, ?_⟩
    intro before after h' hbefore hafter
    rw [Builtin.call_int]
    exact congrArg (·, h') (Builtin.toInt_text n
      (fun c hc => Text.isBlank_of_isSpacing (List.all_eq_true.mp hbefore c hc))
      (fun c hc => Text.isBlank_of_isSpacing (List.all_eq_true.mp hafter c hc)))
  · intro m h
    -- reading by the builtin is the conversion, whatever the heap
    obtain ⟨hrange, hvalue⟩ := Builtin.toInt_signedDigits m
    simp only [Builtin.call_int, Prod.mk.injEq, and_true]
    exact ⟨hrange, fun v h' hv => hvalue v hv.1⟩

/-- The least word between blanks; with zeros in front, one below it is refused and the greatest is
    read. -/
theorem integers_survive_text_at_the_ends :
    (∃ t : String, (Value.int Int64.minValue).WrittenAs .empty t ∧
      Builtin.toolbox.call "int" [.string (String.ofList ([' ', '\t'] ++ t.toList ++ ['\n']))] .empty =
        (.ok (.int Int64.minValue), .empty)) ∧
    (∀ v, Builtin.toolbox.call "int" [.string "-0009223372036854775809"] .empty ≠ (.ok v, .empty)) ∧
    ∃ w : Int64, Builtin.toolbox.call "int" [.string "+0009223372036854775807"] .empty =
      (.ok (.int w), .empty) ∧ w.toInt = 9223372036854775807 := by
  obtain ⟨hwritten, hread⟩ := integers_survive_text
  let below : SignedDigits :=
    ⟨.minus, "0009223372036854775809".toList, by decide +kernel,
      List.all_eq_true.mp (by decide +kernel)⟩
  let highest : SignedDigits :=
    ⟨.plus, "0009223372036854775807".toList, by decide +kernel,
      List.all_eq_true.mp (by decide +kernel)⟩
  have hbelow : String.ofList below.chars = "-0009223372036854775809" := by decide +kernel
  have hhighest : String.ofList highest.chars = "+0009223372036854775807" := by decide +kernel
  rw [← hbelow, ← hhighest]
  refine ⟨?_, fun v hv => ?_, ?_⟩
  · obtain ⟨t, ht, hback⟩ := hwritten Int64.minValue .empty
    exact ⟨t, ht, hback _ _ .empty (by decide) (by decide)⟩
  · have hin := (hread below .empty).1.mp ⟨v, hv⟩
    exact absurd hin (by decide)
  · obtain ⟨v, hv⟩ := (hread highest .empty).1.mpr (by decide)
    obtain ⟨w, rfl, hw⟩ := (hread highest .empty).2 v .empty hv
    exact ⟨w, hv, hw.trans (by decide)⟩

end Scriptlet
