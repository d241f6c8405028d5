/-
  Scriptlet.Proofs.Arithmetic — what the operators compute on integers.

  Integers of the script are words, and the operators are those of mathematics: sum, difference and
  product, and a quotient cut toward zero with the remainder that belongs to it.  A result that no
  word holds is an overflow.  One remainder is refused although a word holds it: where the quotient
  of the least word by minus one overflows, the remainder, which is zero, does too.

  Main results:
    * `Truncated.iff_tdiv_tmod` — the laws of truncated division have one solution.
    * `BinaryOp.onInts_exact` — an operator gives the exact result, or overflow.
    * `integer_operators_are_exact` — all of it, for every pair of words.
-/
import Scriptlet.Value.Operator

namespace Scriptlet

open Number

/-! ## §1. Integers that words hold -/

/-- A word holds the integer. -/
abbrev InWords (n : Int) : Prop := Int64.minValue.toInt ≤ n ∧ n ≤ Int64.maxValue.toInt

theorem InWords.toInt (w : Int64) : InWords w.toInt := ⟨w.minValue_le_toInt, w.toInt_le⟩

/-- The outcome is the integer exactly where a word holds it, and an overflow exactly where none
    does. -/
structure ExactOutcome (symbol : String) (n : Int) (outcome : Except Error Value) : Prop where
  value : (∃ w : Int64, w.toInt = n ∧ outcome = .ok (.int w)) ↔ InWords n
  overflow : outcome = .error (.overflow symbol) ↔ ¬ InWords n

/-- A word is found for every integer that one holds. -/
theorem ofInt?_of_inWords {n : Int} (h : InWords n) :
    ∃ w : Int64, w.toInt = n ∧ Word.ofInt? n = some w := by
  refine ⟨Int64.ofInt n, ?_, if_pos h⟩
  obtain ⟨hlow, hhigh⟩ := h
  rw [Int64.toInt_minValue] at hlow
  rw [Int64.toInt_maxValue] at hhigh
  exact Int64.toInt_ofInt_of_le hlow (by omega)

/-- Where a word holds the integer, the result of an operator is that word. -/
theorem wordResult_of_inWords (symbol : String) {n : Int} (h : InWords n) :
    ∃ w : Int64, w.toInt = n ∧ wordResult symbol n = .ok (.int w) := by
  obtain ⟨w, hw, hword⟩ := ofInt?_of_inWords h
  refine ⟨w, hw, ?_⟩
  rw [wordResult, hword]

/-- Where none does, the result is an overflow of the operator. -/
theorem wordResult_of_not_inWords (symbol : String) {n : Int} (h : ¬ InWords n) :
    wordResult symbol n = .error (.overflow symbol) := by
  rw [wordResult, Word.ofInt?, if_neg h]

/-- An overflow is the only error that the range gives. -/
theorem wordResult_error {symbol : String} {n : Int} {e : Error}
    (h : wordResult symbol n = .error e) : e = .overflow symbol := by
  unfold wordResult at h
  split at h <;> cases h
  rfl

/-- The result of an operator is exact, whatever integer the operator comes to. -/
theorem wordResult_exact (symbol : String) (n : Int) :
    ExactOutcome symbol n (wordResult symbol n) := by
  by_cases h : InWords n
  · obtain ⟨w, hw, hresult⟩ := wordResult_of_inWords symbol h
    refine ⟨⟨fun _ => h, fun _ => ⟨w, hw, hresult⟩⟩, ?_⟩
    rw [hresult]
    exact ⟨fun hover => (by cases hover), fun hout => absurd h hout⟩
  · have hresult := wordResult_of_not_inWords symbol h
    refine ⟨⟨?_, fun hin => absurd hin h⟩, fun _ => h, fun _ => hresult⟩
    rintro ⟨w, -, hw⟩
    rw [hresult] at hw
    cases hw

/-! ## §2. Division that cuts toward zero -/

/-- A quotient cut toward zero and its remainder: the remainder is smaller than the divisor and has
    the sign of the dividend. -/
structure Truncated (a b quotient remainder : Int) : Prop where
  parts : a = b * quotient + remainder
  small : remainder.natAbs < b.natAbs
  nonneg : 0 ≤ a → 0 ≤ remainder
  nonpos : a ≤ 0 → remainder ≤ 0

/-- **The laws of truncated division have one solution.** -/
theorem Truncated.iff_tdiv_tmod {a b : Int} (hb : b ≠ 0) (q r : Int) :
    Truncated a b q r ↔ a.tdiv b = q ∧ a.tmod b = r := by
  constructor
  · intro h
    -- the sign of the dividend decides which half of the division theorem applies
    have hparts := h.parts
    have hsmall := h.small
    rcases Int.le_total 0 a with ha | ha
    · have hsign := h.nonneg ha
      exact (Int.tdiv_tmod_unique ha hb).mpr ⟨by omega, hsign, by omega⟩
    · have hsign := h.nonpos ha
      exact (Int.tdiv_tmod_unique' ha hb).mpr ⟨by omega, by omega, hsign⟩
  · rintro ⟨rfl, rfl⟩
    -- the other way: the quotient and the remainder of the library obey the laws
    refine ⟨(Int.mul_tdiv_add_tmod a b).symm, ?_, Int.tmod_nonneg b, ?_⟩
    · rw [Int.natAbs_tmod]
      exact Nat.mod_lt _ (Int.natAbs_pos.mpr hb)
    · intro ha
      exact ((Int.tdiv_tmod_unique' ha hb).mp ⟨rfl, rfl⟩).2.2

/-- The quotient of two words is a word, but for the least one divided by minus one. -/
theorem tdiv_inWords {a b : Int64} (hb : b.toInt ≠ 0) (h : ¬ (a = Int64.minValue ∧ b = -1)) :
    InWords (a.toInt.tdiv b.toInt) := by
  have ha := InWords.toInt a
  have hmin : Int64.minValue.toInt = -9223372036854775808 := by decide
  have hmax : Int64.maxValue.toInt = 9223372036854775807 := by decide
  rw [InWords, hmin, hmax] at ha ⊢
  by_cases hone : b.toInt = -1
  · -- the quotient is the opposite of the dividend
    have hleast : a.toInt ≠ Int64.minValue.toInt := by
      intro heq
      exact h ⟨Int64.toInt_inj.mp heq, Int64.toInt_inj.mp hone⟩
    rw [hone, Int.tdiv_neg, Int.tdiv_one]
    omega
  · by_cases hunit : b.toInt = 1
    · rw [hunit, Int.tdiv_one]
      exact ha
    · -- a divisor of two or more at least halves the dividend
      have hhalf : (a.toInt.tdiv b.toInt).natAbs ≤ a.toInt.natAbs / 2 := by
        rw [Int.natAbs_tdiv]
        exact Nat.div_le_div_left (by omega) (by decide)
      omega

/-- The quotient that no word holds. -/
theorem tdiv_not_inWords : ¬ InWords (Int64.minValue.toInt.tdiv (Int64.toInt (-1))) := by decide

/-! ## §3. Operators -/

namespace BinaryOp

/-- The operators that compute with numbers. -/
def ofNumbers : List BinaryOp := [.add, .sub, .mul, .div, .mod]

/-- What the operator is in mathematics. -/
inductive Computes : BinaryOp → Int → Int → Int → Prop
  | add {a b} : Computes .add a b (a + b)
  | sub {a b} : Computes .sub a b (a - b)
  | mul {a b} : Computes .mul a b (a * b)
  | div {a b q r} : Truncated a b q r → Computes .div a b q
  | mod {a b q r} : Truncated a b q r → Computes .mod a b r

theorem computes_add {a b n : Int} : Computes .add a b n ↔ n = a + b :=
  ⟨fun h => by cases h; rfl, fun h => h ▸ .add⟩

theorem computes_sub {a b n : Int} : Computes .sub a b n ↔ n = a - b :=
  ⟨fun h => by cases h; rfl, fun h => h ▸ .sub⟩

theorem computes_mul {a b n : Int} : Computes .mul a b n ↔ n = a * b :=
  ⟨fun h => by cases h; rfl, fun h => h ▸ .mul⟩

/-- A quotient that obeys the laws is that of the library. -/
theorem computes_div {a b n : Int} (hb : b ≠ 0) : Computes .div a b n ↔ n = a.tdiv b := by
  constructor
  · rintro (_ | _ | _ | h | _)
    exact ((Truncated.iff_tdiv_tmod hb _ _).mp h).1.symm
  · rintro rfl
    exact .div ((Truncated.iff_tdiv_tmod hb _ _).mpr ⟨rfl, rfl⟩)

/-- So is a remainder. -/
theorem computes_mod {a b n : Int} (hb : b ≠ 0) : Computes .mod a b n ↔ n = a.tmod b := by
  constructor
  · rintro (_ | _ | _ | _ | h)
    exact ((Truncated.iff_tdiv_tmod hb _ _).mp h).2.symm
  · rintro rfl
    exact .mod ((Truncated.iff_tdiv_tmod hb _ _).mpr ⟨rfl, rfl⟩)

/-- A division by another divisor than zero is a quotient put into a word. -/
theorem onInts_div {a b : Int64} (hb : b ≠ 0) :
    onInts .div a b = wordResult (symbol .div) (a.toInt.tdiv b.toInt) := by
  simp [onInts, hb]

/-- A remainder is that of mathematics where its quotient is a word. -/
theorem onInts_mod {a b : Int64} (hb : b ≠ 0) (h : InWords (a.toInt.tdiv b.toInt)) :
    onInts .mod a b = wordResult (symbol .mod) (a.toInt.tmod b.toInt) := by
  obtain ⟨w, -, hquotient⟩ := wordResult_of_inWords (symbol .mod) h
  simp [onInts, hb, hquotient, bind, Except.bind]

/-- A remainder whose quotient no word holds is an overflow. -/
theorem onInts_mod_overflow {a b : Int64} (hb : b ≠ 0) (h : ¬ InWords (a.toInt.tdiv b.toInt)) :
    onInts .mod a b = .error (.overflow (symbol .mod)) := by
  simp [onInts, hb, wordResult_of_not_inWords (symbol .mod) h, bind, Except.bind]

/-- The operator would have to divide by zero. -/
abbrev DividesByZero (op : BinaryOp) (b : Int64) : Prop := (op = .div ∨ op = .mod) ∧ b = 0

/-- The remainder would be of a quotient that no word holds. -/
abbrev LacksQuotient (op : BinaryOp) (a b : Int64) : Prop :=
  op = .mod ∧ a = Int64.minValue ∧ b = -1

/-- **An operator gives the exact result, or overflow.** -/
theorem onInts_exact {op : BinaryOp} (hop : op ∈ ofNumbers) {a b : Int64}
    (hzero : ¬ op.DividesByZero b) :
    ∃ n, (∀ m, op.Computes a.toInt b.toInt m ↔ m = n) ∧
      (¬ op.LacksQuotient a b → ExactOutcome op.symbol n (op.onInts a b)) := by
  -- only a division and a remainder ask that the divisor is not zero
  have hb : op = .div ∨ op = .mod → b.toInt ≠ 0 := fun hdivides heq =>
    hzero ⟨hdivides, Int64.toInt_inj.mp heq⟩
  have hword : b.toInt ≠ 0 → b ≠ 0 := fun hne heq => hne (heq ▸ rfl)
  cases op with
  | add => exact ⟨_, fun _ => computes_add, fun _ => wordResult_exact _ _⟩
  | sub => exact ⟨_, fun _ => computes_sub, fun _ => wordResult_exact _ _⟩
  | mul => exact ⟨_, fun _ => computes_mul, fun _ => wordResult_exact _ _⟩
  | div =>
    have hb := hb (.inl rfl)
    refine ⟨_, fun _ => computes_div hb, fun _ => ?_⟩
    rw [onInts_div (hword hb)]
    exact wordResult_exact _ _
  | mod =>
    have hb := hb (.inr rfl)
    refine ⟨_, fun _ => computes_mod hb, fun hquotient => ?_⟩
    -- the quotient is a word, since the one pair without it is excluded
    rw [onInts_mod (hword hb) (tdiv_inWords hb fun h => hquotient ⟨rfl, h⟩)]
    exact wordResult_exact _ _
  | _ => simp [ofNumbers] at hop

/-- Short of a divisor zero, an overflow is the only error of an operator. -/
theorem onInts_error {op : BinaryOp} (hop : op ∈ ofNumbers) {a b : Int64}
    (hzero : ¬ op.DividesByZero b) {e : Error} (h : op.onInts a b = .error e) :
    e = .overflow op.symbol := by
  cases op with
  | add | sub | mul => exact wordResult_error h
  | div =>
    rw [onInts_div fun hb => hzero ⟨.inl rfl, hb⟩] at h
    exact wordResult_error h
  | mod =>
    have hb : b ≠ 0 := fun hb => hzero ⟨.inr rfl, hb⟩
    -- a remainder overflows with its quotient, and gives a word otherwise
    by_cases hquotient : InWords (a.toInt.tdiv b.toInt)
    · rw [onInts_mod hb hquotient] at h
      exact wordResult_error h
    · rw [onInts_mod_overflow hb hquotient] at h
      cases h
      rfl
  | _ => simp [ofNumbers] at hop

/-- Dividing by zero, and nothing else, fails as a division or a remainder by zero. -/
theorem onInts_byZero_iff {op : BinaryOp} (hop : op ∈ ofNumbers) (a b : Int64) :
    (op.onInts a b = .error .divisionByZero ↔ op = .div ∧ b = 0) ∧
      (op.onInts a b = .error .moduloByZero ↔ op = .mod ∧ b = 0) := by
  by_cases hzero : op.DividesByZero b
  · obtain ⟨rfl | rfl, rfl⟩ := hzero <;> simp [onInts]
  · refine ⟨⟨fun h => ?_, fun h => absurd ⟨.inl h.1, h.2⟩ hzero⟩,
      ⟨fun h => ?_, fun h => absurd ⟨.inr h.1, h.2⟩ hzero⟩⟩
    · cases onInts_error hop hzero h
    · cases onInts_error hop hzero h

/-- On two integers an operator with numbers is the operator on integers. -/
theorem apply_ints {op : BinaryOp} (hop : op ∈ ofNumbers) (a b : Int64) :
    op.apply (.int a) (.int b) = op.onInts a b := by
  cases op with
  | add | sub | mul | div | mod => rfl
  | _ => simp [ofNumbers] at hop

end BinaryOp

/-- The least word has a remainder by minus one, zero, which a word holds; it is refused all the
    same, because the quotient overflows. -/
theorem remainder_without_quotient :
    BinaryOp.Computes .mod Int64.minValue.toInt (Int64.toInt (-1)) 0 ∧ InWords 0 ∧
      BinaryOp.apply .mod (.int Int64.minValue) (.int (-1)) = .error (.overflow "%") ∧
      ¬ ExactOutcome "%" 0 (BinaryOp.apply .mod (.int Int64.minValue) (.int (-1))) := by
  have hoverflow : BinaryOp.apply .mod (.int Int64.minValue) (.int (-1)) = .error (.overflow "%") :=
    rfl
  refine ⟨(BinaryOp.computes_mod (by decide)).mpr (by decide), by decide, hoverflow, fun h => ?_⟩
  exact h.overflow.mp hoverflow (by decide)

/-- **Operators on integers are exact.**  Only a division or a remainder fails by its divisor zero,
    and does so always.  Otherwise the operator has one result in mathematics, and the outcome is
    that integer exactly where a word holds it and an overflow exactly where none does; but a
    remainder whose quotient no word holds, which is that of the least word by minus one, is an
    overflow.  The opposite of an integer is exact without exception. -/
theorem integer_operators_are_exact (a b : Int64) :
    (∀ op ∈ BinaryOp.ofNumbers,
      (op.apply (.int a) (.int b) = .error .divisionByZero ↔ op = .div ∧ b = 0) ∧
      (op.apply (.int a) (.int b) = .error .moduloByZero ↔ op = .mod ∧ b = 0) ∧
      (¬ op.DividesByZero b →
        ∃ n, (∀ m, op.Computes a.toInt b.toInt m ↔ m = n) ∧
          (¬ op.LacksQuotient a b →
            ExactOutcome op.symbol n (op.apply (.int a) (.int b))) ∧
          (op.LacksQuotient a b →
            op.apply (.int a) (.int b) = .error (.overflow op.symbol)))) ∧
    ExactOutcome UnaryOp.neg.symbol (-a.toInt) (UnaryOp.neg.apply (.int a)) := by
  refine ⟨fun op hop => ?_, wordResult_exact _ _⟩
  rw [BinaryOp.apply_ints hop]
  obtain ⟨hdivision, hmodulo⟩ := BinaryOp.onInts_byZero_iff hop a b
  refine ⟨hdivision, hmodulo, fun hzero => ?_⟩
  obtain ⟨n, hcomputes, hexact⟩ := BinaryOp.onInts_exact (a := a) hop hzero
  refine ⟨n, hcomputes, hexact, ?_⟩
  -- the pair without a quotient is known in full
  rintro ⟨rfl, rfl, rfl⟩
  exact BinaryOp.onInts_mod_overflow (by decide) tdiv_not_inWords

/-- The extremes: a product just over the limit, a remainder with the sign of its dividend, and the
    least word divided by minus one, with its remainder and its opposite. -/
theorem integer_operators_are_exact_extremes :
    BinaryOp.apply .mul (.int 4294967296) (.int 2147483648) = .error (.overflow "*") ∧
    (∃ w : Int64, w.toInt = -1 ∧ BinaryOp.apply .mod (.int (-7)) (.int 2) = .ok (.int w)) ∧
    BinaryOp.apply .div (.int Int64.minValue) (.int (-1)) = .error (.overflow "/") ∧
    BinaryOp.apply .mod (.int Int64.minValue) (.int (-1)) = .error (.overflow "%") ∧
    UnaryOp.neg.apply (.int Int64.minValue) = .error (.overflow "-") := by
  obtain ⟨hproducts, -⟩ := integer_operators_are_exact 4294967296 2147483648
  obtain ⟨hremainders, -⟩ := integer_operators_are_exact (-7) 2
  obtain ⟨hleast, hopposite⟩ := integer_operators_are_exact Int64.minValue (-1)
  refine ⟨?_, ?_, ?_, ?_, hopposite.overflow.mpr (by decide)⟩
  · obtain ⟨n, hn, hexact, -⟩ := (hproducts .mul (by decide)).2.2 (by decide)
    obtain rfl := (hn _).mp .mul
    exact (hexact (by decide)).overflow.mpr (by decide)
  · obtain ⟨n, hn, hexact, -⟩ := (hremainders .mod (by decide)).2.2 (by decide)
    obtain rfl := (hn (-1)).mp ((BinaryOp.computes_mod (by decide)).mpr (by decide))
    exact (hexact (by decide)).value.mpr (by decide)
  · obtain ⟨n, hn, hexact, -⟩ := (hleast .div (by decide)).2.2 (by decide)
    obtain rfl := (hn _).mp ((BinaryOp.computes_div (by decide)).mpr rfl)
    exact (hexact (by decide)).overflow.mpr tdiv_not_inWords
  · obtain ⟨n, -, -, hlacks⟩ := (hleast .mod (by decide)).2.2 (by decide)
    exact hlacks ⟨rfl, rfl, rfl⟩

end Scriptlet
