/-
  Scriptlet.Proofs.Interchange — programs survive being written as trees and read again.

  Writing and reading are two families of functions with a case for each constructor of types,
  expressions, statements and parameters.  They agree case by case: on the name of the case, on
  whether it has no content, one content or named fields, on the form of each field, and on how a part
  that may be left out is marked.  Numbers go through text, integers through decimal and doubles
  through the digits of their bit pattern; so both texts have to determine the number.  That a bit
  pattern determines its double comes with the whole of the library, with no single module of it.

  Reading goes down as many levels as the tree has.  Each level of a program takes one or two levels of
  its tree, so there are always levels left.

  Main results:
    * `Ty.ofJsonWithin_toJson`, `Expr.ofJsonWithin_toJson`, `Stmt.ofJsonWithin_toJson` — types,
      expressions and statements, with any number of levels that suffices.
    * `programs_survive_interchange` — whole programs.
-/
import Mathlib
import Scriptlet.Interchange.Ast
import Scriptlet.Proofs.KnownText
import Scriptlet.Proofs.Numerals
import Scriptlet.Proofs.Syntax

namespace Scriptlet

/-! ## §1. Numbers and their texts -/

/-- What is finite is not infinite. -/
theorem isInf_of_isFinite {x : Float} (h : x.isFinite = true) : x.isInf = false := by
  have hunpacked : x.toModel.unpack.isFinite = true := h
  show x.toModel.unpack.isInf = false
  cases hx : x.toModel.unpack with
  | infinity s =>
    rw [hx] at hunpacked
    cases hunpacked
  | _ => rfl

namespace Json

theorem hexValue?_digitChar {d : Nat} (h : d < 16) : hexValue? d.digitChar = some d := by
  have hall : ∀ d : Fin 16, hexValue? d.val.digitChar = some d.val := by decide
  exact hall ⟨d, h⟩

/-- The digits that `hexNumber?` adds up. -/
theorem foldlM_toDigits (n : Nat) :
    (Nat.toDigits 16 n).foldlM (fun n c => (hexValue? c).map (16 * n + ·)) 0 = some n := by
  induction n using Nat.strongRecOn with
  | ind n ih =>
    by_cases h : n < 16
    · rw [Nat.toDigits_of_lt_base h]
      simp [hexValue?_digitChar h]
    · have hdigit := hexValue?_digitChar (Nat.mod_lt n (show 0 < 16 by decide))
      have hvalue : 16 * (n / 16) + n % 16 = n := by omega
      rw [Nat.toDigits_of_base_le (by decide) (by omega), List.foldlM_append, ih (n / 16) (by omega)]
      simp [hdigit, hvalue]

/-- Zeros before the digits do not count. -/
theorem foldlM_zeros (k : Nat) (digits : List Char) :
    (List.replicate k '0' ++ digits).foldlM (fun n c => (hexValue? c).map (16 * n + ·)) 0 =
      digits.foldlM (fun n c => (hexValue? c).map (16 * n + ·)) 0 := by
  induction k with
  | zero => rfl
  | succ k ih => exact ih

/-- A number is read back from its digits, with zeros in front up to any width. -/
theorem hexNumber?_hexDigits (width n : Nat) : hexNumber? (hexDigits width n) = some n := by
  have hdigits : (hexDigits width n).toList =
      List.replicate (width - (Nat.toDigits 16 n).length) '0' ++ Nat.toDigits 16 n := by
    rw [hexDigits, String.toList_ofList]
  have hfilled : (hexDigits width n).isEmpty = false := by
    rw [String.isEmpty_eq_false_iff, ne_eq, ← String.toList_eq_nil_iff, hdigits]
    simp
  unfold hexNumber?
  rw [hfilled, hdigits, foldlM_zeros, foldlM_toDigits]
  rfl

end Json

/-- The decimal text of a word, with its sign, is read as that word. -/
theorem word?_text (n : Int64) : Number.Decimal.word? (Number.Word.text n).toList = some n := by
  rw [SignedDigits.text_word, SignedDigits.word?_chars, SignedDigits.ofInt?_value]

/-- An integer goes through its decimal text. -/
theorem intOfJson?_text (n : Int64) : intOfJson? (.string (Number.Word.text n)) = some n :=
  word?_text n

/-- A finite double goes through its bit pattern. -/
theorem doubleOfJson?_bits {x : Float} (h : x.isFinite = true) :
    doubleOfJson? (doubleToJson x) = some x := by
  have hsize : x.toBits.toNat < UInt64.size := x.toBits.toNat_lt_size
  rw [doubleToJson, isInf_of_isFinite h, if_neg (by decide), doubleOfJson?]
  simp only [Json.string?, Option.bind_eq_bind, Option.bind_some, Json.hexNumber?_hexDigits]
  rw [if_pos hsize, UInt64.ofNat_toNat, Float.ofBits_toBits]

/-! ## §2. Types and operators -/

/-- What is written of each element is read back, so the list is. -/
theorem mapM_written {α : Type} {write : α → Json} {read : Json → Option α} {items : List α}
    (h : ∀ a ∈ items, read (write a) = some a) : (items.map write).mapM read = some items := by
  induction items with
  | nil => rfl
  | cons a items ih =>
    rw [List.map_cons, List.mapM_cons, h a List.mem_cons_self,
      ih fun b hb => h b (List.mem_cons_of_mem a hb)]
    rfl

namespace Json

@[simp]
theorem depth_tagged (name : String) (j : Json) : (tagged name j).depth = j.depth + 1 := by
  simp [tagged, depth, fieldDepths]

theorem depth_pos (j : Json) : 0 < j.depth := by
  cases j <;> simp [depth]

/-- No element has more levels than the elements together. -/
theorem depth_le_depths {j : Json} {items : List Json} (h : j ∈ items) :
    j.depth ≤ depths items := by
  induction items with
  | nil => cases h
  | cons first rest ih =>
    rw [depths]
    rcases List.mem_cons.mp h with rfl | h
    · omega
    · have hrest := ih h
      omega

end Json

/-- Some level is always left for the tree itself. -/
theorem Json.levels_succ {j : Json} {levels : Nat} (h : j.depth ≤ levels) :
    ∃ m, levels = m + 1 := by
  have hpos := j.depth_pos
  exact ⟨levels - 1, by omega⟩

@[simp]
theorem Ty.ofJsonWithin_tagged (m : Nat) (name : String) (j : Json) :
    Ty.ofJsonWithin (m + 1) (Json.tagged name j) = Ty.ofCase? (Ty.ofJsonWithin m) name j := rfl

/-- A type is read back with any number of levels that its tree does not exceed. -/
theorem Ty.ofJsonWithin_toJson (type : Ty) {levels : Nat} (h : type.toJson.depth ≤ levels) :
    Ty.ofJsonWithin levels type.toJson = some type := by
  induction type generalizing levels with
  -- one level goes to the tag, and the rest suffices for the content
  | array element ih =>
    obtain ⟨m, rfl⟩ := Json.levels_succ h
    simp only [Ty.toJson, Json.depth_tagged] at h
    have helement : Ty.ofJsonWithin m element.toJson = some element := ih (by omega)
    simp [Ty.toJson, Ty.ofCase?, helement]
  | optional content ih =>
    obtain ⟨m, rfl⟩ := Json.levels_succ h
    simp only [Ty.toJson, Json.depth_tagged] at h
    have hcontent : Ty.ofJsonWithin m content.toJson = some content := ih (by omega)
    simp [Ty.toJson, Ty.ofCase?, hcontent]
  | dict key value ihk ihv =>
    obtain ⟨m, rfl⟩ := Json.levels_succ h
    simp only [Ty.toJson, Json.depth_tagged, Json.depth, Json.fieldDepths] at h
    have hkey : Ty.ofJsonWithin m key.toJson = some key := ihk (by omega)
    have hvalue : Ty.ofJsonWithin m value.toJson = some value := ihv (by omega)
    simp [Ty.toJson, Ty.ofCase?, Json.field?, List.lookup, hkey, hvalue]
  | _ =>
    obtain ⟨m, rfl⟩ := Json.levels_succ h
    rfl

/-- A type is read back with the levels of its own tree. -/
theorem Ty.ofJson?_toJson (type : Ty) : Ty.ofJson? type.toJson = some type :=
  Ty.ofJsonWithin_toJson type (Nat.le_refl _)

/-- No two binary operators have one name. -/
theorem BinaryOp.ofJson?_caseName (op : BinaryOp) :
    BinaryOp.ofJson? (.string op.caseName) = some op := by
  cases op <;> rfl

/-- Nor have two unary ones. -/
theorem UnaryOp.ofJson?_caseName (op : UnaryOp) :
    UnaryOp.ofJson? (.string op.caseName) = some op := by
  cases op <;> rfl

/-! ## §3. Expressions -/

/-- Whether the expression itself is no literal that is infinite or not a number. -/
def Expr.hasFiniteHead : Expr → Bool
  | .double x => x.isFinite
  | _ => true

/-- Whether every literal with a decimal point in the expression is finite. -/
def Expr.isFinite (e : Expr) : Bool :=
  e.hasFiniteHead && e.parts.attach.all fun ⟨p, _⟩ => p.isFinite
termination_by sizeOf e
decreasing_by exact Expr.sizeOf_part ‹_›

/-- Finiteness, one level of the expression at a time. -/
theorem Expr.isFinite_iff {e : Expr} :
    e.isFinite = true ↔ e.hasFiniteHead = true ∧ ∀ p ∈ e.parts, p.isFinite = true := by
  rw [isFinite]
  simp

/-- A list of expressions is written element by element. -/
theorem Expr.listToJson_eq_map (es : List Expr) : Expr.listToJson es = es.map Expr.toJson := by
  induction es with
  | nil => rfl
  | cons e es ih => rw [Expr.listToJson, ih, List.map_cons]

/-- The tree of a key with its value. -/
def Expr.pairToJson (pair : Expr × Expr) : Json := .array [pair.1.toJson, pair.2.toJson]

/-- A list of pairs is written pair by pair. -/
theorem Expr.pairsToJson_eq_map (pairs : List (Expr × Expr)) :
    Expr.pairsToJson pairs = pairs.map Expr.pairToJson := by
  induction pairs with
  | nil => rfl
  | cons pair pairs ih => rw [Expr.pairsToJson, ih, List.map_cons, Expr.pairToJson]

@[simp]
theorem Expr.ofJsonWithin_tagged (m : Nat) (name : String) (j : Json) :
    Expr.ofJsonWithin (m + 1) (Json.tagged name j) = Expr.ofCase? (Expr.ofJsonWithin m) name j := rfl

/-- The tree of a part has fewer levels than that of the whole. -/
theorem Expr.depth_part {p e : Expr} (h : p ∈ e.parts) : p.toJson.depth < e.toJson.depth := by
  -- a part in a list lies in one of the trees of the list
  have hlist : ∀ es : List Expr, p ∈ es → p.toJson.depth ≤ Json.depths (Expr.listToJson es) := by
    intro es hp
    rw [Expr.listToJson_eq_map]
    exact Json.depth_le_depths (List.mem_map_of_mem hp)
  cases e with
  | nil | bool | int | double | string | var => cases h
  | call name args =>
    have hargs := hlist args h
    simp only [Expr.toJson, Json.depth_tagged, Json.depth, Json.fieldDepths]
    omega
  | array items =>
    have hitems := hlist items h
    simp only [Expr.toJson, Json.depth_tagged, Json.depth]
    omega
  | dict pairs =>
    -- a dictionary writes each pair as a tree of its own
    obtain ⟨pair, hpair, hp⟩ := List.mem_flatMap.mp h
    have hdepth := Json.depth_le_depths (List.mem_map_of_mem (f := Expr.pairToJson) hpair)
    rw [← Expr.pairsToJson_eq_map] at hdepth
    simp only [Expr.pairToJson, Json.depth, Json.depths] at hdepth
    simp only [Expr.toJson, Json.depth_tagged, Json.depth]
    simp only [List.mem_cons, List.not_mem_nil, or_false] at hp
    rcases hp with rfl | rfl <;> omega
  | method target name args optional =>
    simp only [Expr.toJson, Json.depth_tagged, Json.depth, Json.fieldDepths]
    rcases List.mem_cons.mp h with rfl | hp
    · omega
    · have hargs := hlist args hp
      omega
  | binary | unary | range | index | member =>
    simp only [Expr.parts, List.mem_cons, List.not_mem_nil, or_false] at h
    simp only [Expr.toJson, Json.depth_tagged, Json.depth, Json.fieldDepths]
    rcases h with rfl | rfl <;> omega

/-- A list of expressions is read back if its elements are. -/
theorem Expr.mapM_listToJson {read : Json → Option Expr} (es : List Expr)
    (h : ∀ e ∈ es, read e.toJson = some e) : (Expr.listToJson es).mapM read = some es := by
  rw [Expr.listToJson_eq_map]
  exact mapM_written h

/-- A list of pairs is read back if the parts of the dictionary are. -/
theorem Expr.mapM_pairsToJson {read : Json → Option Expr} {pairs : List (Expr × Expr)}
    (h : ∀ e ∈ (Expr.dict pairs).parts, read e.toJson = some e) :
    (Expr.pairsToJson pairs).mapM (exprPairOfJson? read) = some pairs := by
  rw [Expr.pairsToJson_eq_map]
  apply mapM_written
  intro pair hpair
  have hpart : ∀ e ∈ [pair.1, pair.2], read e.toJson = some e := fun e he =>
    h e (List.mem_flatMap.mpr ⟨pair, hpair, he⟩)
  simp [Expr.pairToJson, exprPairOfJson?, Json.pair?, hpart pair.1, hpart pair.2]

/-- Reading undoes writing at one level, if it does so for the parts. -/
theorem Expr.ofCase?_toJson {e : Expr} {m : Nat} (hhead : e.hasFiniteHead = true)
    (hparts : ∀ p ∈ e.parts, Expr.ofJsonWithin m p.toJson = some p) :
    Expr.ofJsonWithin (m + 1) e.toJson = some e := by
  cases e with
  -- leaves have no parts to read, but numbers go through their text
  | nil | bool | string | var => rfl
  | int n => simp [Expr.toJson, Expr.ofCase?, intOfJson?_text]
  | double x => simp [Expr.toJson, Expr.ofCase?, doubleOfJson?_bits hhead]
  | binary op left right =>
    have hleft := hparts left (by simp [Expr.parts])
    have hright := hparts right (by simp [Expr.parts])
    simp [Expr.toJson, Expr.ofCase?, Json.field?, List.lookup, BinaryOp.ofJson?_caseName, hleft,
      hright]
  | unary op operand =>
    have hoperand := hparts operand (by simp [Expr.parts])
    simp [Expr.toJson, Expr.ofCase?, Json.field?, List.lookup, UnaryOp.ofJson?_caseName, hoperand]
  | call name args =>
    -- a list of parts is read element by element
    have hargs := Expr.mapM_listToJson args hparts
    simp [Expr.toJson, Expr.ofCase?, Json.stringField?, Json.itemsField?, Json.field?, List.lookup,
      Json.string?, Json.items?, hargs]
  | array items =>
    have hitems := Expr.mapM_listToJson items hparts
    simp [Expr.toJson, Expr.ofCase?, Json.items?, hitems]
  | dict pairs =>
    have hpairs := Expr.mapM_pairsToJson hparts
    simp [Expr.toJson, Expr.ofCase?, Json.items?, hpairs]
  | range first last inclusive =>
    have hfirst := hparts first (by simp [Expr.parts])
    have hlast := hparts last (by simp [Expr.parts])
    simp [Expr.toJson, Expr.ofCase?, Json.boolField?, Json.field?, List.lookup, Json.bool?, hfirst,
      hlast]
  | index target place =>
    have htarget := hparts target (by simp [Expr.parts])
    have hplace := hparts place (by simp [Expr.parts])
    simp [Expr.toJson, Expr.ofCase?, Json.field?, List.lookup, htarget, hplace]
  | member target name optional =>
    have htarget := hparts target (by simp [Expr.parts])
    simp [Expr.toJson, Expr.ofCase?, Json.stringField?, Json.boolField?, Json.field?, List.lookup,
      Json.string?, Json.bool?, htarget]
  | method target name args optional =>
    have htarget := hparts target (by simp [Expr.parts])
    have hargs := Expr.mapM_listToJson args fun e he => hparts e (List.mem_cons_of_mem target he)
    simp [Expr.toJson, Expr.ofCase?, Json.stringField?, Json.boolField?, Json.itemsField?,
      Json.field?, List.lookup, Json.string?, Json.bool?, Json.items?, htarget, hargs]

/-- **An expression is read back** with any number of levels that its tree does not exceed. -/
theorem Expr.ofJsonWithin_toJson (e : Expr) (hfinite : e.isFinite = true) {levels : Nat}
    (h : e.toJson.depth ≤ levels) : Expr.ofJsonWithin levels e.toJson = some e := by
  induction e using Expr.parts_induction generalizing levels with
  | h e ih =>
    obtain ⟨hhead, hfiniteParts⟩ := Expr.isFinite_iff.mp hfinite
    obtain ⟨m, rfl⟩ := Json.levels_succ h
    apply Expr.ofCase?_toJson hhead
    intro p hp
    have hless := Expr.depth_part hp
    exact ih p hp (hfiniteParts p hp) (by omega)

/-- An expression is read back with the levels of its own tree. -/
theorem Expr.ofJson?_toJson {e : Expr} (h : e.isFinite = true) : Expr.ofJson? e.toJson = some e :=
  Expr.ofJsonWithin_toJson e h (Nat.le_refl _)

/-! ## §4. Statements -/

/-- The expressions that stand directly in a statement, the defaults of parameters included. -/
def Stmt.exprs : Stmt → List Expr
  | .declare _ _ value _ => [value]
  | .assign _ value => [value]
  | .storeIndex target index value => [target, index, value]
  | .storeMember target _ value => [target, value]
  | .print value => [value]
  | .expr value => [value]
  | .ifThen condition _ => [condition]
  | .ifElse condition _ _ => [condition]
  | .loop condition _ => [condition]
  | .forIn _ iterable _ => [iterable]
  | .brk => []
  | .cont => []
  | .func _ params _ _ => params.filterMap (·.default)
  | .ret value => [value]

/-- Whether every literal with a decimal point in the statements is finite. -/
def Block.isFinite (body : List Stmt) : Bool :=
  body.attach.all fun ⟨st, _⟩ =>
    st.exprs.all Expr.isFinite && st.blocks.attach.all fun ⟨inner, _⟩ => Block.isFinite inner
termination_by sizeOf body
decreasing_by exact Nat.lt_trans (Stmt.sizeOf_block ‹_›) (List.sizeOf_lt_of_mem ‹_›)

/-- Finiteness of a block, one level of its statements at a time. -/
theorem Block.isFinite_iff {body : List Stmt} :
    Block.isFinite body = true ↔ ∀ st ∈ body,
      (∀ e ∈ st.exprs, e.isFinite = true) ∧ ∀ inner ∈ st.blocks, Block.isFinite inner = true := by
  rw [Block.isFinite]
  simp

/-- A block is written statement by statement. -/
theorem Stmt.listToJson_eq_map (body : List Stmt) : Stmt.listToJson body = body.map Stmt.toJson := by
  induction body with
  | nil => rfl
  | cons st body ih => rw [Stmt.listToJson, ih, List.map_cons]

@[simp]
theorem Stmt.ofJsonWithin_tagged (m : Nat) (name : String) (j : Json) :
    Stmt.ofJsonWithin (m + 1) (Json.tagged name j) = Stmt.ofCase? (Stmt.ofJsonWithin m) name j := rfl

/-- The tree of a statement in a block has fewer levels than that of the statement with the block. -/
theorem Stmt.depth_block {s st : Stmt} {inner : List Stmt} (hinner : inner ∈ st.blocks)
    (hs : s ∈ inner) : s.toJson.depth < st.toJson.depth := by
  -- the statement lies in one of the trees of the block
  have hlist : s.toJson.depth ≤ Json.depths (Stmt.listToJson inner) := by
    rw [Stmt.listToJson_eq_map]
    exact Json.depth_le_depths (List.mem_map_of_mem hs)
  cases st with
  | ifElse condition body otherwise =>
    simp only [Stmt.toJson, Json.depth_tagged, Json.depth, Json.fieldDepths]
    simp only [Stmt.blocks, List.mem_cons, List.not_mem_nil, or_false] at hinner
    rcases hinner with rfl | rfl <;> omega
  | ifThen | loop | forIn | func =>
    obtain rfl := List.mem_singleton.mp hinner
    simp only [Stmt.toJson, Json.depth_tagged, Json.depth, Json.fieldDepths]
    omega
  | _ => cases hinner

/-- The tree of a type is not the mark of absence. -/
theorem Ty.toJson_ne_null (type : Ty) : type.toJson ≠ .null := by
  cases type <;> simp [Ty.toJson, Json.tagged]

/-- Nor is that of an expression. -/
theorem Expr.toJson_ne_null (e : Expr) : e.toJson ≠ .null := by
  cases e <;> simp [Expr.toJson, Json.tagged]

/-- What may be left out is read back, since no tree of a content is the mark of its absence. -/
theorem Json.optionalField?_written {α : Type} {j : Json} {name : String} {write : α → Json}
    {read : Json → Option α} {content : Option α}
    (hfield : j.field? name = some (optionToJson write content))
    (hread : ∀ a ∈ content, read (write a) = some a) (hnull : ∀ a, write a ≠ .null) :
    j.optionalField? name read = some content := by
  unfold Json.optionalField?
  rw [hfield]
  cases content with
  | none => rfl
  | some a =>
    have hwritten := hread a rfl
    have hsome := hnull a
    rw [optionToJson]
    -- only the mark of absence is treated apart, and no content is written as it
    generalize write a = w at hwritten hsome
    cases w with
    | null => exact absurd rfl hsome
    | _ => simp [hwritten]

/-- A parameter is read back. -/
theorem Param.ofJson?_toJson {p : Param} (h : ∀ e ∈ p.default, e.isFinite = true) :
    Param.ofJson? p.toJson = some p := by
  have hdefault : p.toJson.optionalField? "default" Expr.ofJson? = some p.default :=
    Json.optionalField?_written (by simp [Param.toJson, Json.field?, List.lookup])
      (fun e he => Expr.ofJson?_toJson (h e he)) Expr.toJson_ne_null
  simp only [Param.toJson] at hdefault
  simp [Param.ofJson?, Param.toJson, Json.stringField?, Json.field?, List.lookup, Json.string?,
    Ty.ofJson?_toJson, hdefault]

/-- Reading undoes writing at one level, if it does so for the statements of the blocks. -/
theorem Stmt.ofCase?_toJson {st : Stmt} {m : Nat} (hexprs : ∀ e ∈ st.exprs, e.isFinite = true)
    (hblocks : ∀ inner ∈ st.blocks, ∀ s ∈ inner, Stmt.ofJsonWithin m s.toJson = some s) :
    Stmt.ofJsonWithin (m + 1) st.toJson = some st := by
  -- expressions and blocks are read back whatever the statement is
  have hexpr : ∀ e ∈ st.exprs, Expr.ofJson? e.toJson = some e :=
    fun e he => Expr.ofJson?_toJson (hexprs e he)
  have hblock : ∀ inner ∈ st.blocks,
      (Stmt.listToJson inner).mapM (Stmt.ofJsonWithin m) = some inner := by
    intro inner hinner
    rw [Stmt.listToJson_eq_map]
    exact mapM_written (hblocks inner hinner)
  cases st with
  | brk | cont => rfl
  | declare name type value constant =>
    have hvalue := hexpr value (by simp [Stmt.exprs])
    -- the annotation of a declaration may be absent
    have htype : (Json.object [("name", .string name), ("ty", optionToJson Ty.toJson type),
        ("init", value.toJson), ("is_const", .bool constant)]).optionalField? "ty" Ty.ofJson? =
          some type :=
      Json.optionalField?_written (by simp [Json.field?, List.lookup])
        (fun t _ => Ty.ofJson?_toJson t) Ty.toJson_ne_null
    simp [Stmt.toJson, Stmt.ofCase?, Json.stringField?, Json.boolField?, Json.field?, List.lookup,
      Json.string?, Json.bool?, htype, hvalue]
  | assign name value =>
    have hvalue := hexpr value (by simp [Stmt.exprs])
    simp [Stmt.toJson, Stmt.ofCase?, Json.stringField?, Json.field?, List.lookup, Json.string?,
      hvalue]
  | storeIndex target index value =>
    have htarget := hexpr target (by simp [Stmt.exprs])
    have hindex := hexpr index (by simp [Stmt.exprs])
    have hvalue := hexpr value (by simp [Stmt.exprs])
    simp [Stmt.toJson, Stmt.ofCase?, Json.field?, List.lookup, htarget, hindex, hvalue]
  | storeMember target name value =>
    have htarget := hexpr target (by simp [Stmt.exprs])
    have hvalue := hexpr value (by simp [Stmt.exprs])
    simp [Stmt.toJson, Stmt.ofCase?, Json.stringField?, Json.field?, List.lookup, Json.string?,
      htarget, hvalue]
  | print value | expr value | ret value =>
    have hvalue := hexpr value (by simp [Stmt.exprs])
    simp [Stmt.toJson, Stmt.ofCase?, hvalue]
  | ifThen condition body =>
    have hcondition := hexpr condition (by simp [Stmt.exprs])
    have hbody := hblock body (by simp [Stmt.blocks])
    simp [Stmt.toJson, Stmt.ofCase?, Json.itemsField?, Json.optionalField?, Json.field?,
      List.lookup, Json.items?, hcondition, hbody]
  | ifElse condition body otherwise =>
    have hcondition := hexpr condition (by simp [Stmt.exprs])
    have hbody := hblock body (by simp [Stmt.blocks])
    have hotherwise := hblock otherwise (by simp [Stmt.blocks])
    simp [Stmt.toJson, Stmt.ofCase?, Json.itemsField?, Json.optionalField?, Json.field?,
      List.lookup, Json.items?, hcondition, hbody, hotherwise]
  | loop condition body =>
    have hcondition := hexpr condition (by simp [Stmt.exprs])
    have hbody := hblock body (by simp [Stmt.blocks])
    simp [Stmt.toJson, Stmt.ofCase?, Json.itemsField?, Json.field?, List.lookup, Json.items?,
      hcondition, hbody]
  | forIn item iterable body =>
    have hiterable := hexpr iterable (by simp [Stmt.exprs])
    have hbody := hblock body (by simp [Stmt.blocks])
    simp [Stmt.toJson, Stmt.ofCase?, Json.stringField?, Json.itemsField?, Json.field?, List.lookup,
      Json.string?, Json.items?, hiterable, hbody]
  | func name params returns body =>
    have hbody := hblock body (by simp [Stmt.blocks])
    -- a default stands in the statement, so that it is finite
    have hparams : (params.map Param.toJson).mapM Param.ofJson? = some params := by
      apply mapM_written
      intro p hp
      apply Param.ofJson?_toJson
      intro e he
      exact hexprs e (List.mem_filterMap.mpr ⟨p, hp, he⟩)
    simp [Stmt.toJson, Stmt.ofCase?, Func.ofFields?, Json.stringField?, Json.itemsField?,
      Json.field?, List.lookup, Json.string?, Json.items?, Ty.ofJson?_toJson, hparams, hbody]

/-- **Statements are read back** with any number of levels that their trees do not exceed. -/
theorem Stmt.ofJsonWithin_toJson (body : List Stmt) (hfinite : Block.isFinite body = true)
    {st : Stmt} (hst : st ∈ body) {levels : Nat} (h : st.toJson.depth ≤ levels) :
    Stmt.ofJsonWithin levels st.toJson = some st := by
  induction body using Block.inner_induction generalizing st levels with
  | h body ih =>
    obtain ⟨hexprs, hinner⟩ := Block.isFinite_iff.mp hfinite st hst
    obtain ⟨m, rfl⟩ := Json.levels_succ h
    apply Stmt.ofCase?_toJson hexprs
    intro inner hblock s hs
    have hless := Stmt.depth_block hblock hs
    exact ih st hst inner hblock (hinner inner hblock) hs (by omega)

/-! ## §5. Programs -/

/-- **Programs survive interchange**: what is written of a program whose literals are finite is read as
    that program. -/
theorem programs_survive_interchange (program : Program)
    (h : Block.isFinite program = true) :
    Program.ofJson? (Program.toJson program) = some program := by
  have hstatements : (Stmt.listToJson program).mapM Stmt.ofJson? = some program := by
    rw [Stmt.listToJson_eq_map]
    apply mapM_written
    intro st hst
    exact Stmt.ofJsonWithin_toJson program h hst (Nat.le_refl _)
  simp [Program.ofJson?, Program.toJson, Json.itemsField?, Json.field?, List.lookup, Json.items?,
    hstatements]

/-- A function with a default, a dictionary in a loop, an `else` without statements, the least integer
    and a negative zero. -/
theorem programs_survive_interchange_mixed :
    let program : Program :=
      [.func "f" [⟨"n", .optional .int, none⟩, ⟨"x", .double, some (.double (-0.0))⟩]
          (.dict .string .any)
          [.forIn "i" (.range (.int Int64.minValue) (.var "n") false)
            [.ifElse (.bool true)
              [.ret (.dict [(.string "k", .member (.var "i") "m" true)])] [],
              .ifThen .nil [.brk]]],
        .declare "y" none (.unary .neg (.double 1.5)) true]
    Block.isFinite program = true ∧ Program.ofJson? (Program.toJson program) = some program := by
  intro program
  have hfinite : Block.isFinite program = true := by
    decide +kernel
  exact ⟨hfinite, programs_survive_interchange program hfinite⟩

end Scriptlet
