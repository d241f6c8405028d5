/-
  Scriptlet.Proofs.Comparisons — the six comparisons are views of one strict order.

  Equality and order are computed apart and meet in the operators.  On two integers, two truth
  values or two strings they describe one strict total order; that of strings, taken from their UTF-8
  bytes, is the lexicographic order of the code points that indices and lengths count.

  Main results:
    * `lead_or_tail_lt` — a greater code point has a greater first byte, or the same and more behind.
    * `compareBytes_encoded` — encoded texts are ranked as their code points.
    * `Value.compare_ranked` — the order computed for two values of one tag is their rank.
    * `comparisons_coherent` — the six operators on two values of one tag, and strings by code points.
-/
import Scriptlet.Proofs.Stores

namespace Scriptlet

/-- An ordering that tells how two things stand in a strict order. -/
inductive Ranked {α : Type} (before : α → α → Prop) : Ordering → α → α → Prop where
  | before {a b : α} (h : before a b) : Ranked before .lt a b
  | same {a : α} : Ranked before .eq a a
  | after {a b : α} (h : before b a) : Ranked before .gt a b

namespace Text

/-! ## §1. The bytes of one code point -/

/-- The code points of a string. -/
def codePoints (s : String) : List Nat := s.toList.map Char.toNat

/-- How many bytes follow the first one of the code point. -/
def tailLength (v : Nat) : Nat :=
  if v ≤ 0x7f then 0 else if v ≤ 0x7ff then 1 else if v ≤ 0xffff then 2 else 3

/-- The bits that mark a first byte with so many bytes behind it. -/
def leadMark : Nat → Nat
  | 0 => 0
  | 1 => 0xc0
  | 2 => 0xe0
  | _ => 0xf0

/-- The first byte of the code point. -/
def leadByte (v : Nat) : Nat := v / Nat.pow 64 (tailLength v) + leadMark (tailLength v)

/-- The last bytes of the code point, six bits in each. -/
def tailBytes (v : Nat) : Nat → List UInt8
  | 0 => []
  | k + 1 => UInt8.ofNat (v / Nat.pow 64 k % 64 + 0x80) :: tailBytes v k

/-- Code points end below hexadecimal 110000. -/
theorem toNat_lt (c : Char) : c.toNat < 0x110000 := by
  have hvalid : c.toNat.isValidChar := c.valid
  unfold Nat.isValidChar at hvalid
  omega

/-- The four ranges of code points, by the number of bytes. -/
theorem ranges (v : Nat) :
    (v ≤ 0x7f ∧ tailLength v = 0 ∧ leadByte v = v) ∨
    (0x7f < v ∧ v ≤ 0x7ff ∧ tailLength v = 1 ∧ leadByte v = v / 64 + 0xc0) ∨
    (0x7ff < v ∧ v ≤ 0xffff ∧ tailLength v = 2 ∧ leadByte v = v / 4096 + 0xe0) ∨
    (0xffff < v ∧ tailLength v = 3 ∧ leadByte v = v / 262144 + 0xf0) := by
  unfold leadByte tailLength
  by_cases h1 : v ≤ 0x7f
  · simp [h1, leadMark]
  by_cases h2 : v ≤ 0x7ff
  · simp [h1, h2, leadMark]; omega
  by_cases h3 : v ≤ 0xffff
  · simp [h1, h2, h3, leadMark]; omega
  · simp [h1, h2, h3, leadMark]; omega

/-- The first byte of a code point is a byte. -/
theorem leadByte_lt {v : Nat} (h : v < 0x110000) : leadByte v < 256 := by
  have := ranges v
  omega

/-- The encoding of a character is its first byte with the last ones behind it. -/
theorem utf8EncodeChar_eq (c : Char) : String.utf8EncodeChar c =
    UInt8.ofNat (leadByte c.toNat) :: tailBytes c.toNat (tailLength c.toNat) := by
  have hlt := toNat_lt c
  have hval : c.val.toNat = c.toNat := rfl
  unfold String.utf8EncodeChar leadByte tailLength
  simp only [hval]
  -- the encoder also cuts the leading digit, which is small enough in each range
  split
  · simp [leadMark, tailBytes]
  split
  · rw [Nat.mod_eq_of_lt (by omega : c.toNat / 64 < 32)]
    simp [leadMark, tailBytes]
  split
  · rw [Nat.mod_eq_of_lt (by omega : c.toNat / 4096 < 16)]
    simp [leadMark, tailBytes]
  · rw [Nat.mod_eq_of_lt (by omega : c.toNat / 262144 < 8)]
    simp [leadMark, tailBytes]

/-- A greater code point has a greater first byte, or as many bytes and a greater rest. -/
theorem lead_or_tail_lt {v w : Nat} (h : v < w) :
    leadByte v < leadByte w ∨ leadByte v = leadByte w ∧ tailLength v = tailLength w ∧
      v % Nat.pow 64 (tailLength w) < w % Nat.pow 64 (tailLength w) := by
  have h1 : Nat.pow 64 1 = 64 := rfl
  have h2 : Nat.pow 64 2 = 4096 := rfl
  have h3 : Nat.pow 64 3 = 262144 := rfl
  -- across ranges the first bytes lie apart; within one they are the leading digit
  have hv := ranges v
  rcases ranges w with ⟨_, hk, hl⟩ | ⟨_, _, hk, hl⟩ | ⟨_, _, hk, hl⟩ | ⟨_, hk, hl⟩
  · omega
  · rw [hk, hl, h1]; omega
  · rw [hk, hl, h2]; omega
  · rw [hk, hl, h3]; omega

/-! ## §2. The bytes of a text -/

/-- The first byte decides, unless it is the same on both sides. -/
theorem compareBytes_ofNat_cons {a b : Nat} (ha : a < 256) (hb : b < 256)
    (x y : List UInt8) : compareBytes (UInt8.ofNat a :: x) (UInt8.ofNat b :: y) =
      if a < b then .lt else if b < a then .gt else compareBytes x y := by
  simp [compareBytes, UInt8.lt_iff_toNat_lt, Nat.mod_eq_of_lt ha, Nat.mod_eq_of_lt hb]

/-- What is the same in front does not change the order. -/
theorem compareBytes_append (a x y : List UInt8) :
    compareBytes (a ++ x) (a ++ y) = compareBytes x y := by
  induction a with
  | nil => rfl
  | cons b a ih => simp [compareBytes, ih]

/-- The order of bytes from the other side is the opposite one. -/
theorem compareBytes_swap (x y : List UInt8) : (compareBytes x y).swap = compareBytes y x := by
  fun_induction compareBytes x y with
  | case1 => rfl
  | case2 => rfl
  | case3 => rfl
  | case4 a as b bs h =>
    have hnot : ¬ b < a := UInt8.lt_asymm h
    simp [compareBytes, h, hnot]
  | case5 a as b bs h h' => simp [compareBytes, h']
  | case6 a as b bs h h' ih => simp [compareBytes, h, h', ih]

/-- The last bytes are ranked as the number that they write in base 64. -/
theorem compareBytes_tailBytes {v w k : Nat} (h : v % Nat.pow 64 k < w % Nat.pow 64 k)
    (x y : List UInt8) : compareBytes (tailBytes v k ++ x) (tailBytes w k ++ y) = .lt := by
  induction k with
  | zero =>
    have hone : Nat.pow 64 0 = 1 := rfl
    rw [hone] at h
    omega
  | succ k ih =>
    have hpow : Nat.pow 64 (k + 1) = Nat.pow 64 k * 64 := rfl
    rw [hpow, Nat.mod_mul, Nat.mod_mul] at h
    have hv : v % Nat.pow 64 k < Nat.pow 64 k := Nat.mod_lt _ (Nat.pow_pos (by decide))
    have hw : w % Nat.pow 64 k < Nat.pow 64 k := Nat.mod_lt _ (Nat.pow_pos (by decide))
    unfold tailBytes
    rw [List.cons_append, List.cons_append,
      compareBytes_ofNat_cons (by omega) (by omega)]
    by_cases hlt : v / Nat.pow 64 k % 64 < w / Nat.pow 64 k % 64
    · rw [if_pos (by omega)]
    -- the digits in front agree, for a smaller one would outweigh all that follow
    have hle : w / Nat.pow 64 k % 64 ≤ v / Nat.pow 64 k % 64 := by omega
    by_cases heq : w / Nat.pow 64 k % 64 = v / Nat.pow 64 k % 64
    · rw [if_neg (by omega), if_neg (by omega)]
      rw [heq] at h
      exact ih (by omega)
    · have hstep := Nat.mul_le_mul_left (Nat.pow 64 k)
        (by omega : w / Nat.pow 64 k % 64 + 1 ≤ v / Nat.pow 64 k % 64)
      rw [Nat.mul_add, Nat.mul_one] at hstep
      omega

/-- A text that goes on with a smaller code point comes first, whatever follows. -/
theorem compareBytes_of_lt {c d : Char} (h : c.toNat < d.toNat) (x y : List UInt8) :
    compareBytes (String.utf8EncodeChar c ++ x) (String.utf8EncodeChar d ++ y) = .lt := by
  rw [utf8EncodeChar_eq, utf8EncodeChar_eq, List.cons_append, List.cons_append,
    compareBytes_ofNat_cons (leadByte_lt (toNat_lt c)) (leadByte_lt (toNat_lt d))]
  rcases lead_or_tail_lt h with hlead | ⟨hlead, hlength, htail⟩
  · rw [if_pos hlead]
  · rw [if_neg (by omega), if_neg (by omega), hlength]
    exact compareBytes_tailBytes htail x y

/-- **Encoded texts are ranked as their code points**, by induction over both. -/
theorem compareBytes_encoded (cs ds : List Char) :
    Ranked (fun cs ds => List.Lex (· < ·) (cs.map Char.toNat) (ds.map Char.toNat))
      (compareBytes (cs.flatMap String.utf8EncodeChar) (ds.flatMap String.utf8EncodeChar)) cs ds := by
  induction cs generalizing ds with
  | nil =>
    cases ds with
    | nil => exact .same
    | cons d ds =>
      -- a character has at least one byte, so the empty text is a proper start
      rw [List.flatMap_cons, utf8EncodeChar_eq]
      exact .before .nil
  | cons c cs ih =>
    cases ds with
    | nil =>
      rw [List.flatMap_cons, utf8EncodeChar_eq]
      exact .after .nil
    | cons d ds =>
      rw [List.flatMap_cons, List.flatMap_cons]
      -- the first two code points decide, or they are the same and the rest does
      rcases Nat.lt_trichotomy c.toNat d.toNat with hlt | heq | hgt
      · rw [compareBytes_of_lt hlt]
        exact .before (.rel hlt)
      · obtain rfl : c = d := Char.toNat_inj.mp heq
        rw [compareBytes_append]
        have hrest := ih ds
        generalize compareBytes _ _ = order at hrest ⊢
        cases hrest with
        | before h => exact .before (.cons h)
        | same => exact .same
        | after h => exact .after (.cons h)
      · rw [← compareBytes_swap, compareBytes_of_lt hgt]
        exact .after (.rel hgt)

/-- The bytes of a string are those of its characters in order. -/
theorem utf8Bytes_eq (s : String) : utf8Bytes s = s.toList.flatMap String.utf8EncodeChar := by
  unfold utf8Bytes
  rw [String.toUTF8_eq_toByteArray, ← String.ofList_toList (s := s), String.toByteArray_ofList,
    String.toList_ofList]
  exact List.toList_data_toByteArray

/-- The order of strings by code points, a proper start of a string before it. -/
def Precedes (s t : String) : Prop := List.Lex (· < ·) (codePoints s) (codePoints t)

/-- The order computed for strings is their rank by code points. -/
theorem compareUtf8_ranked (s t : String) : Ranked Precedes (compareUtf8 s t) s t := by
  unfold compareUtf8
  rw [utf8Bytes_eq, utf8Bytes_eq]
  have h := compareBytes_encoded s.toList t.toList
  generalize compareBytes _ _ = order at h ⊢
  generalize hcs : s.toList = cs at h
  generalize hds : t.toList = ds at h
  cases h with
  | before h => exact .before (by unfold Precedes codePoints; rwa [hcs, hds])
  | same => obtain rfl : s = t := String.toList_inj.mp (hcs.trans hds.symm); exact .same
  | after h => exact .after (by unfold Precedes codePoints; rwa [hcs, hds])

theorem Precedes.irrefl (s : String) : ¬ Precedes s s :=
  List.lex_irrefl Nat.lt_irrefl _

theorem Precedes.trans {s t u : String} (h : Precedes s t) (h' : Precedes t u) : Precedes s u :=
  List.lex_trans Nat.lt_trans h h'

/-- A string is known by its code points. -/
theorem codePoints_injective {s t : String} (h : codePoints s = codePoints t) : s = t := by
  unfold codePoints at h
  exact String.toList_inj.mp (List.map_inj_right (fun _ _ => Char.toNat_inj.mp) |>.mp h)

end Text

/-! ## §3. Values of one tag -/

/-- Two integers, two truth values or two strings. -/
inductive Value.SameTag : Value → Value → Prop where
  | ints (a b : Int64) : SameTag (.int a) (.int b)
  | bools (a b : Bool) : SameTag (.bool a) (.bool b)
  | strings (s t : String) : SameTag (.string s) (.string t)

/-- The order of values of one tag: integers by size, `false` before `true`, strings by code
    points. -/
inductive Value.Before : Value → Value → Prop where
  | ints {a b : Int64} (h : a.toInt < b.toInt) : Before (.int a) (.int b)
  | bools : Before (.bool false) (.bool true)
  | strings {s t : String} (h : Text.Precedes s t) : Before (.string s) (.string t)

namespace Value

/-- Nothing comes before itself. -/
theorem Before.irrefl (v : Value) : ¬ v.Before v := by
  intro h
  cases h with
  | ints h => omega
  | strings h => exact Text.Precedes.irrefl _ h

/-- What comes before something comes before all that is behind it. -/
theorem Before.trans {u v w : Value} (h : u.Before v) (h' : v.Before w) : u.Before w := by
  cases h with
  | ints h => cases h' with | ints h' => exact .ints (by omega)
  | bools => cases h'
  | strings h => cases h' with | strings h' => exact .strings (h.trans h')

/-- **The order computed for two values of one tag is their rank.** -/
theorem compare_ranked {v w : Value} (h : v.SameTag w) :
    ∃ order, v.compare w = .ok (some order) ∧ Ranked Before order v w := by
  cases h with
  | ints a b =>
    refine ⟨Ord.compare a.toInt b.toInt, rfl, ?_⟩
    -- integers: by their size
    rcases Int.lt_trichotomy a.toInt b.toInt with hlt | heq | hgt
    · rw [Int.compare_eq_lt.mpr hlt]
      exact .before (.ints hlt)
    · obtain rfl : a = b := Int64.toInt_inj.mp heq
      rw [Int.compare_eq_eq.mpr rfl]
      exact .same
    · rw [Int.compare_eq_gt.mpr hgt]
      exact .after (.ints hgt)
  | bools a b =>
    refine ⟨Ord.compare a b, rfl, ?_⟩
    -- truth values: the four pairs
    cases a <;> cases b
    · exact .same
    · exact .before .bools
    · exact .after .bools
    · exact .same
  | strings s t =>
    refine ⟨Text.compareUtf8 s t, rfl, ?_⟩
    -- strings: the rank of the texts, carried over to the values
    have h := Text.compareUtf8_ranked s t
    generalize Text.compareUtf8 s t = order at h ⊢
    cases h with
    | before h => exact .before (.strings h)
    | same => exact .same
    | after h => exact .after (.strings h)

/-- Equality, which is computed apart from the order, is that of values. -/
theorem equal_iff_of_sameTag {v w : Value} (h : v.SameTag w) : v.equal w = true ↔ v = w := by
  cases h <;> simp [Value.equal]

theorem Before.sameTag {v w : Value} (h : v.Before w) : v.SameTag w := by
  cases h with
  | ints => exact .ints _ _
  | bools => exact .bools _ _
  | strings => exact .strings _ _

/-- The answers of the six comparisons on two values: which of the three relations holds, and that
    it is the only one. -/
structure Compared (v w : Value) (less equal greater : Bool) : Prop where
  lt : BinaryOp.lt.apply v w = .ok (.bool less)
  eq : BinaryOp.eq.apply v w = .ok (.bool equal)
  gt : BinaryOp.gt.apply v w = .ok (.bool greater)
  le : BinaryOp.le.apply v w = .ok (.bool (less || equal))
  ge : BinaryOp.ge.apply v w = .ok (.bool (greater || equal))
  ne : BinaryOp.ne.apply v w = .ok (.bool !equal)
  one : less.toNat + equal.toNat + greater.toNat = 1
  less_iff : less = true ↔ v.Before w
  equal_iff : equal = true ↔ v = w
  greater_iff : greater = true ↔ w.Before v

/-- The order and the equality of two values, where they agree, answer all six comparisons. -/
theorem compared_of_order {v w : Value} {order : Ordering} (hcompare : v.compare w = .ok (some order))
    (hequal : v.equal w = (order == .eq)) (hless : order = .lt ↔ v.Before w)
    (hsame : order = .eq ↔ v = w) (hgreater : order = .gt ↔ w.Before v) :
    Compared v w (order == .lt) (order == .eq) (order == .gt) := by
  -- four of the operators read their answer off the computed order
  have hanswer (op : BinaryOp) : (v.compare w).map (fun order => Value.bool (op.holds order)) =
      .ok (.bool (op.holds (some order))) := by
    rw [hcompare]
    rfl
  constructor
  case lt => exact (hanswer .lt).trans (by cases order <;> rfl)
  case gt => exact (hanswer .gt).trans (by cases order <;> rfl)
  case le => exact (hanswer .le).trans (by cases order <;> rfl)
  case ge => exact (hanswer .ge).trans (by cases order <;> rfl)
  case eq => rw [BinaryOp.apply, hequal]
  case ne => rw [BinaryOp.apply, hequal]
  case one => cases order <;> rfl
  case less_iff => rwa [beq_iff_eq]
  case equal_iff => rwa [beq_iff_eq]
  case greater_iff => rwa [beq_iff_eq]

/-- Two values of one tag have answers to all six comparisons. -/
theorem exists_compared {v w : Value} (h : v.SameTag w) :
    ∃ less equal greater, Compared v w less equal greater := by
  obtain ⟨order, hcompare, hranked⟩ := compare_ranked h
  have hequal := equal_iff_of_sameTag h
  refine ⟨_, _, _, compared_of_order hcompare ?_ ?_ ?_ ?_⟩ <;> cases hranked with
  | before hlt =>
    -- the order is strict, so that one relation excludes the others
    have hne : v ≠ w := fun heq => Before.irrefl w (heq ▸ hlt)
    have hasymm : ¬ w.Before v := fun hgt => Before.irrefl v (hlt.trans hgt)
    simp [hlt, hne, hasymm, Bool.eq_false_iff, hequal]
  | same => simp [Before.irrefl, hequal]
  | after hgt =>
    have hne : v ≠ w := fun heq => Before.irrefl v (heq ▸ hgt)
    have hasymm : ¬ v.Before w := fun hlt => Before.irrefl v (hlt.trans hgt)
    simp [hgt, hne, hasymm, Bool.eq_false_iff, hequal]

/-- The operator for "less" decides the order of values. -/
theorem lt_apply_iff {v w : Value} (h : v.SameTag w) :
    BinaryOp.lt.apply v w = .ok (.bool true) ↔ v.Before w := by
  obtain ⟨less, equal, greater, hcompared⟩ := exists_compared h
  rw [hcompared.lt, ← hcompared.less_iff]
  simp

end Value

/-! ## §4. What indices and lengths count -/

theorem Text.length_codePoints (s : String) : (codePoints s).length = s.length := by
  simp [codePoints, String.length_toList]

/-- The length of a string is the number of its code points. -/
theorem Heap.length?_string (h : Heap) (s : String) :
    h.length? (.string s) = some (Text.codePoints s).length := by
  rw [Text.length_codePoints]
  rfl

/-- An index into a string gives the string of the one code point that it means. -/
theorem Heap.index_string_iff (h : Heap) {s t : String} {i : Int64} :
    h.index (.string s) (.int i) = .ok (.string t) ↔
      ∃ k n : Nat, (Text.codePoints s)[k]? = some n ∧
        (i.toInt = k ∨ i.toInt = k - (Text.codePoints s).length) ∧ Text.codePoints t = [n] := by
  -- a string of one character has one code point
  have hone (c : Char) : Text.codePoints c.toString = [c.toNat] := by simp [Text.codePoints]
  rw [Text.length_codePoints]
  constructor
  · intro hindex
    unfold Heap.index at hindex
    -- an index that succeeds has found a character at a position
    split at hindex
    next c hc =>
      obtain ⟨k, hk, hget⟩ := Option.bind_eq_some_iff.mp hc
      obtain ⟨-, hi⟩ := position?_eq_some_iff.mp hk
      cases hindex
      exact ⟨k, c.toNat, by simp [Text.codePoints, hget], hi, hone c⟩
    next => cases hindex
  · rintro ⟨k, n, hget, hi, ht⟩
    -- the code point at the position is that of a character there
    obtain ⟨c, hc, rfl⟩ : ∃ c, s.toList[k]? = some c ∧ c.toNat = n := by
      simpa [Text.codePoints] using hget
    have hlt : k < s.length := by simpa [String.length_toList] using (List.getElem?_eq_some_iff.mp hc).1
    obtain rfl : t = c.toString := Text.codePoints_injective (ht.trans (hone c).symm)
    unfold Heap.index
    simp only [position?_eq_some_iff.mpr ⟨hlt, hi⟩, Option.bind_some, hc]

/-- **The comparisons are coherent**: on two integers, truth values or strings they are the six views
    of one strict total order, and for strings that order is the lexicographic one of the code
    points, which are what lengths and indices count. -/
theorem comparisons_coherent :
    (∀ v w : Value, v.SameTag w → ∃ less equal greater, Value.Compared v w less equal greater) ∧
    (∀ u v w : Value, u.SameTag v → v.SameTag w → BinaryOp.lt.apply u v = .ok (.bool true) →
      BinaryOp.lt.apply v w = .ok (.bool true) → BinaryOp.lt.apply u w = .ok (.bool true)) ∧
    (∀ s t : String, BinaryOp.lt.apply (.string s) (.string t) = .ok (.bool true) ↔
      List.Lex (· < ·) (Text.codePoints s) (Text.codePoints t)) ∧
    (∀ (h : Heap) (s : String), h.length? (.string s) = some (Text.codePoints s).length) ∧
    (∀ (h : Heap) (s t : String) (i : Int64), h.index (.string s) (.int i) = .ok (.string t) ↔
      ∃ k n : Nat, (Text.codePoints s)[k]? = some n ∧
        (i.toInt = k ∨ i.toInt = k - (Text.codePoints s).length) ∧ Text.codePoints t = [n]) := by
  refine ⟨fun v w h => Value.exists_compared h, ?_, ?_, Heap.length?_string,
    fun h s t i => h.index_string_iff⟩
  · intro u v w huv hvw hlt hlt'
    -- the order is transitive on the values that the operator compares
    have hbefore := ((Value.lt_apply_iff huv).mp hlt).trans ((Value.lt_apply_iff hvw).mp hlt')
    exact (Value.lt_apply_iff hbefore.sameTag).mpr hbefore
  · intro s t
    rw [Value.lt_apply_iff (.strings s t)]
    constructor
    · intro h
      cases h with
      | strings h => exact h
    · intro h
      exact .strings h

/-- One, three and four bytes; the last two come the other way round in units of sixteen bits. -/
theorem comparisons_coherent_across_lengths :
    (∃ less equal greater, Value.Compared (.string "\uff5e") (.string "😀") less equal greater) ∧
    BinaryOp.lt.apply (.string "z") (.string "\uff5e") = .ok (.bool true) ∧
    BinaryOp.lt.apply (.string "\uff5e") (.string "😀") = .ok (.bool true) ∧
    BinaryOp.lt.apply (.string "z") (.string "😀") = .ok (.bool true) := by
  obtain ⟨hcompared, htrans, hlex, -⟩ := comparisons_coherent
  have hlow := (hlex "z" "\uff5e").mpr (.rel (by decide))
  have hhigh := (hlex "\uff5e" "😀").mpr (.rel (by decide))
  exact ⟨hcompared _ _ (.strings _ _), hlow, hhigh,
    htrans _ _ _ (.strings _ _) (.strings _ _) hlow hhigh⟩

end Scriptlet
