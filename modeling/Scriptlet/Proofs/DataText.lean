/-
  Scriptlet.Proofs.DataText — the text of data is a literal that makes the data again.

  Data is what literals can write: `nil`, truth values, integers, strings, arrays and dictionaries.
  Three texts could fail to come back: the least integer, whose opposite is none; a string with a
  character that literals write differently; and the empty dictionary, which is written like the empty
  array.  A string by itself is written without quotes.  All other data has a literal, an expression
  without names, whose text is the text of the data and whose evaluation builds the same tree.

  Main results:
    * `Heap.Unfolds.tree_eq` — a value with a whole tree is written as this tree.
    * `Tree.text_expr` — the text of data is that of its literal.
    * `Tree.Data.made` — the literal makes the data.
    * `printed_data_reads_back` — from a value through its text to a value with the same tree.
-/
import Mathlib.Data.List.Forall2
import Scriptlet.Eval.Run
import Scriptlet.Proofs.Arithmetic
import Scriptlet.Proofs.Discipline
import Scriptlet.Proofs.Rendering
import Scriptlet.Proofs.RoundTrip

namespace Scriptlet

/-! ## §1. Values with whole trees -/

namespace Heap

variable {h : Heap} {v : Value} {t : Tree}

/-- No container in a value with a whole tree leads back to itself. -/
theorem Unfolds.acyclic (hv : h.Unfolds v t) : h.Acyclic v := by
  induction hv with
  | @leaf v t hleaf =>
    have hnone : v.container? = none := by
      cases v <;> first | rfl | cases hleaf
    rintro c (hc | ⟨hc, -, -⟩) <;> cases hnone.symm.trans hc
  | @just i v t _ ih =>
    -- an optional leads where its content leads
    rintro c (hc | ⟨hc, hw, hleads⟩)
    · exact ih c (.here hc)
    · exact ih c (.part hc hw hleads)
  | @container c t hfits _ ih =>
    have hpart : ∀ w ∈ h.contents c, h.Acyclic w := by
      intro w hw
      obtain ⟨i, hi, rfl⟩ := List.mem_iff_getElem.mp hw
      exact ih i _ _ (List.getElem?_eq_getElem hi)
        (List.getElem?_eq_getElem (hfits.length_eq.symm ▸ hi))
    rintro c' (hc | ⟨hc, hw, hleads⟩)
    · cases (container?_value c).symm.trans hc
      -- a part that led back would be a part of what it leads to
      exact fun w hw hback => hpart w hw c hback w hw hback
    · cases (container?_value c).symm.trans hc
      exact hpart _ hw c' hleads

/-- **A value with a whole tree is written as this tree.** -/
theorem Unfolds.tree_eq (hv : h.Unfolds v t) : h.tree v = t := hv.unique (unfolds_tree hv.acyclic)

/-- An array unfolds if its elements do, one by one. -/
theorem Unfolds.array {ref : ArrayRef} {items : List Tree}
    (hparts : List.Forall₂ h.Unfolds (h.items ref).toList items) :
    h.Unfolds (.array ref) (.array items) := by
  refine .container (c := .array ref) (hparts.length_eq.symm.trans Array.length_toList) ?_
  intro i w u hw hu
  obtain ⟨hi, rfl⟩ := List.getElem?_eq_some_iff.mp hw
  obtain ⟨hj, rfl⟩ := List.getElem?_eq_some_iff.mp hu
  exact hparts.get hi hj

/-- An entry of a dictionary and one of a tree with the same key. -/
def EntryUnfolds (h : Heap) (entry : String × Value) (e : String × Tree) : Prop :=
  entry.1 = e.1 ∧ h.Unfolds entry.2 e.2

/-- A dictionary unfolds if its entries do, one by one. -/
theorem Unfolds.dict {ref : DictRef} {entries : List (String × Tree)}
    (hparts : List.Forall₂ h.EntryUnfolds (h.table ref).entries entries) :
    h.Unfolds (.dict ref) (.dict entries) := by
  -- the keys are compared as a list, the values at each place
  have hkeys : ∀ {es : List (String × Value)} {es' : List (String × Tree)},
      List.Forall₂ h.EntryUnfolds es es' → es'.map Prod.fst = es.map Prod.fst := by
    intro es es' hes
    induction hes with
    | nil => rfl
    | cons hentry _ ih => rw [List.map_cons, List.map_cons, ih, hentry.1]
  refine .container (c := .dict ref) (hkeys hparts) ?_
  intro i w u hw hu
  -- both values are those of entries at the same place
  rw [Heap.contents, List.getElem?_map] at hw
  rw [Tree.children, List.getElem?_map] at hu
  obtain ⟨entry, hentry, rfl⟩ := Option.map_eq_some_iff.mp hw
  obtain ⟨e, he, rfl⟩ := Option.map_eq_some_iff.mp hu
  obtain ⟨hi, rfl⟩ := List.getElem?_eq_some_iff.mp hentry
  obtain ⟨hj, rfl⟩ := List.getElem?_eq_some_iff.mp he
  exact (hparts.get hi hj).2

end Heap

/-! ## §2. Data -/

/-- Whether the characters of a string stand for themselves in a literal: no quote, no backslash and no
    end mark. -/
def isVerbatim (s : String) : Bool :=
  s.toList.all fun c => c != '"' && c != '\\' && c != Cursor.pastEnd

namespace Tree

/-- **Data**, which has a literal. -/
inductive Data : Tree → Prop
  | nil : Data .nil
  | bool (b : Bool) : Data (.bool b)
  | int {n : Int64} : Int64.minValue < n → Data (.int n)
  | string {s : String} : isVerbatim s = true → Data (.string s)
  | array {items : List Tree} : (∀ t ∈ items, Data t) → Data (.array items)
  | dict {entries : List (String × Tree)} : entries ≠ [] → (entries.map Prod.fst).Nodup →
      (∀ e ∈ entries, isVerbatim e.1 = true) → (∀ e ∈ entries, Data e.2) → Data (.dict entries)

mutual

/-- How deep containers are nested in a tree, a minus sign counting as one. -/
def nesting : Tree → Nat
  | .int n => if n < 0 then 1 else 0
  | .just content => content.nesting
  | .array items => itemsNesting items + 1
  | .dict entries => entriesNesting entries + 1
  | _ => 0

/-- How deep the deepest of several trees is nested. -/
def itemsNesting : List Tree → Nat
  | [] => 0
  | t :: rest => max t.nesting (itemsNesting rest)

/-- How deep the deepest tree of several entries is nested. -/
def entriesNesting : List (String × Tree) → Nat
  | [] => 0
  | (_, t) :: rest => max t.nesting (entriesNesting rest)

end

mutual

/-- The literal of data; what is no data stands as `nil`. -/
def expr : Tree → Expr
  | .nil => .nil
  | .bool b => .bool b
  | .int n => if n < 0 then .unary .neg (.int (Int64.ofInt (-n.toInt))) else .int n
  | .string s => .string s
  | .array items => .array (itemExprs items)
  | .dict entries => .dict (entryExprs entries)
  | _ => .nil

/-- The literals of elements. -/
def itemExprs : List Tree → List Expr
  | [] => []
  | t :: rest => t.expr :: itemExprs rest

/-- The literals of entries, each with that of its key. -/
def entryExprs : List (String × Tree) → List (Expr × Expr)
  | [] => []
  | (key, t) :: rest => (.string key, t.expr) :: entryExprs rest

end

theorem itemExprs_eq_map (items : List Tree) : itemExprs items = items.map expr := by
  induction items with
  | nil => rfl
  | cons t rest ih => rw [itemExprs, ih, List.map_cons]

theorem entryExprs_eq_map (entries : List (String × Tree)) :
    entryExprs entries = entries.map fun e => (.string e.1, e.2.expr) := by
  induction entries with
  | nil => rfl
  | cons entry rest ih => rw [entryExprs, ih, List.map_cons]

/-! ## §3. The text of the literal -/

/-- The opposite of a negative word, but for the least one, is a word. -/
theorem toInt_opposite {n : Int64} (hleast : Int64.minValue < n) (hneg : n < 0) :
    (Int64.ofInt (-n.toInt)).toInt = -n.toInt := by
  rw [Int64.lt_iff_toInt_lt] at hleast hneg
  have hmin : Int64.minValue.toInt = -9223372036854775808 := by decide
  have hzero : (0 : Int64).toInt = 0 := by decide
  exact Int64.toInt_ofInt_of_le (by omega) (by omega)

/-- The text of a negative word is a minus sign and the text of its opposite. -/
theorem word_text_neg {n : Int64} (hleast : Int64.minValue < n) (hneg : n < 0) :
    (Number.Word.text n).toList = '-' :: (Number.Word.text (Int64.ofInt (-n.toInt))).toList := by
  rw [Number.Word.text, Number.Word.text, toInt_opposite hleast hneg]
  obtain ⟨m, hm⟩ := Int.eq_negSucc_of_lt_zero (Int64.lt_iff_toInt_lt.mp hneg)
  rw [hm]
  show ("-" ++ _ : String).toList = _
  rw [String.toList_append]
  rfl

/-- A literal writes characters that stand for themselves as they are. -/
theorem escaped_verbatim {cs : List Char}
    (hcs : cs.all (fun c => c != '"' && c != '\\' && c != Cursor.pastEnd) = true) :
    escaped cs = cs := by
  induction cs with
  | nil => rfl
  | cons c cs ih =>
    rw [List.all_cons, Bool.and_eq_true] at hcs
    have hc : (c == '\\' || c == '"') = false := by
      have hplain := hcs.1
      simp only [Bool.and_eq_true, bne_iff_ne] at hplain
      simp [hplain.1.1, hplain.1.2]
    rw [escaped, hc, ih hcs.2]
    rfl

/-- The literal of such a string is the string between quotes, which is also how it is printed. -/
theorem quoted_verbatim {s : String} (hs : isVerbatim s = true) :
    quoted s = ("\"" ++ s ++ "\"").toList := by
  rw [quoted, escaped_verbatim hs, String.toList_append, String.toList_append]
  rfl

/-- Printing and literals separate by the same commas. -/
theorem toList_commas (texts : List String) :
    (", ".intercalate texts).toList = commaSeparated (texts.map String.toList) := by
  rw [String.toList_intercalate]
  generalize texts.map String.toList = ts
  fun_induction commaSeparated ts with
  | case1 => rfl
  | case2 t => simp
  | case3 t next rest ih =>
    rw [List.intercalate_cons_cons, ih]
    simp

theorem toList_bracketed (texts : List String) :
    ("[" ++ ", ".intercalate texts ++ "]").toList =
      '[' :: commaSeparated (texts.map String.toList) ++ [']'] := by
  rw [String.toList_append, String.toList_append, toList_commas]
  rfl

variable {t : Tree} {tight : Bool}

/-- **The text of data is that of its literal.** -/
theorem text_expr (ht : t.Data) : t.expr.text tight = (t.text true).toList := by
  -- each constructor of data is written by one form of literal
  induction ht with
  | nil => rw [expr, Expr.text, text]
  | bool b => rw [expr, Expr.text, text]
  | @int n hleast =>
    -- a negative number is the one leaf whose literal has an operator
    by_cases hneg : n < 0
    · rw [expr, if_pos hneg, text, word_text_neg hleast hneg]
      rfl
    · rw [expr, if_neg hneg, Expr.text, text]
  | string hs =>
    rw [expr, Expr.text, text, quoted_verbatim hs]
    rfl
  | @array items _ ih =>
    -- the elements are written alike one by one
    have htexts : (itemExprs items).map (Expr.text tight) = (itemTexts items).map String.toList := by
      rw [itemExprs_eq_map, itemTexts_eq_map, List.map_map, List.map_map]
      exact List.map_congr_left ih
    rw [expr, Expr.text, text, toList_bracketed, ← htexts, Expr.listTexts_eq_map]
  | @dict entries hsome _ hkeys _ ih =>
    -- so are the entries, each key between quotes
    have htexts : (entryExprs entries).map (Expr.pairText tight) =
        (entryTexts entries).map String.toList := by
      rw [entryExprs_eq_map, entryTexts_eq_map, List.map_map, List.map_map]
      refine List.map_congr_left fun e he => ?_
      show (Expr.string e.1).text tight ++ ':' :: ' ' :: e.2.expr.text tight = _
      rw [Expr.text, quoted_verbatim (hkeys e he), ih e he]
      simp
    -- the empty dictionary is no data
    cases entries with
    | nil => exact absurd rfl hsome
    | cons entry rest =>
      rw [expr, text, toList_bracketed, ← htexts, entryExprs, Expr.text, Expr.pairTexts_eq_map]

/-- What has no parts is legible if its head is. -/
theorem isLegible_leaf {e : Expr} (hhead : e.hasLegibleHead = true) (hparts : e.parts = []) :
    e.isLegible = true := by
  refine Expr.isLegible_iff.mpr ⟨hhead, fun p hp => ?_⟩
  rw [hparts] at hp
  cases hp

/-- A literal of a number can be read back if the number is not negative. -/
theorem isLegible_int {n : Int64} (hn : 0 ≤ n.toInt) : (Expr.int n).isLegible = true :=
  isLegible_leaf (decide_eq_true hn) rfl

theorem isLegible_string {s : String} (hs : isVerbatim s = true) :
    (Expr.string s).isLegible = true := by
  refine isLegible_leaf ?_ rfl
  rw [Expr.hasLegibleHead, Bool.not_eq_true', ← Bool.not_eq_true, List.contains_iff_mem]
  intro hmem
  have hend := List.all_eq_true.mp hs _ hmem
  simp at hend

/-- The literal of data can be read back. -/
theorem isLegible_expr (ht : t.Data) : t.expr.isLegible = true := by
  induction ht with
  | nil => exact isLegible_leaf rfl rfl
  | bool b => exact isLegible_leaf rfl rfl
  | @int n hleast =>
    by_cases hneg : n < 0
    · rw [expr, if_pos hneg]
      -- behind the minus sign stands a number that is not negative
      refine Expr.isLegible_iff.mpr ⟨rfl, fun p hp => ?_⟩
      obtain rfl := List.mem_singleton.mp hp
      refine isLegible_int ?_
      have hn : n.toInt < 0 := Int64.lt_iff_toInt_lt.mp hneg
      rw [toInt_opposite hleast hneg]
      omega
    · rw [expr, if_neg hneg]
      exact isLegible_int (Int.not_lt.mp fun hn => hneg (Int64.lt_iff_toInt_lt.mpr hn))
  | string hs => exact isLegible_string hs
  | array _ ih =>
    rw [expr, itemExprs_eq_map]
    refine Expr.isLegible_iff.mpr ⟨rfl, fun p hp => ?_⟩
    obtain ⟨t, ht, rfl⟩ := List.mem_map.mp hp
    exact ih t ht
  | dict _ _ hkeys _ ih =>
    rw [expr, entryExprs_eq_map]
    refine Expr.isLegible_iff.mpr ⟨rfl, fun p hp => ?_⟩
    obtain ⟨pair, hpair, hp⟩ := List.mem_flatMap.mp hp
    obtain ⟨e, he, rfl⟩ := List.mem_map.mp hpair
    -- a part of an entry is its key or its value
    rcases List.mem_cons.mp hp with rfl | hp
    · exact isLegible_string (hkeys e he)
    · obtain rfl := List.mem_singleton.mp hp
      exact ih e he

/-- No element is nested deeper than the elements together. -/
theorem nesting_le_items {items : List Tree} (ht : t ∈ items) : t.nesting ≤ itemsNesting items := by
  induction items with
  | nil => cases ht
  | cons first rest ih =>
    rw [itemsNesting]
    rcases List.mem_cons.mp ht with rfl | ht
    · omega
    · have hrest := ih ht
      omega

/-- No value is nested deeper than the entries together. -/
theorem nesting_le_entries {entries : List (String × Tree)} {e : String × Tree} (he : e ∈ entries) :
    e.2.nesting ≤ entriesNesting entries := by
  induction entries with
  | nil => cases he
  | cons first rest ih =>
    rw [entriesNesting]
    rcases List.mem_cons.mp he with rfl | he
    · omega
    · have hrest := ih he
      omega

/-- The literals of elements are nested as deep as the elements. -/
theorem listNesting_itemExprs {items : List Tree}
    (hitems : ∀ t ∈ items, t.expr.nesting = t.nesting) :
    Expr.listNesting (itemExprs items) = itemsNesting items := by
  induction items with
  | nil => rfl
  | cons t rest ih =>
    rw [itemExprs, Expr.listNesting, itemsNesting, hitems t List.mem_cons_self,
      ih fun u hu => hitems u (List.mem_cons_of_mem t hu)]

/-- The literals of entries are nested as deep as the entries. -/
theorem pairsNesting_entryExprs {entries : List (String × Tree)}
    (hentries : ∀ e ∈ entries, e.2.expr.nesting = e.2.nesting) :
    Expr.pairsNesting (entryExprs entries) = entriesNesting entries := by
  induction entries with
  | nil => rfl
  | cons e rest ih =>
    have hkey : (Expr.string e.1).nesting = 0 := rfl
    rw [entryExprs, Expr.pairsNesting, entriesNesting, hkey, Nat.zero_max,
      hentries e List.mem_cons_self, ih fun u hu => hentries u (List.mem_cons_of_mem e hu)]

/-- The literal is nested as deep as the data. -/
theorem nesting_expr (ht : t.Data) : t.expr.nesting = t.nesting := by
  induction ht with
  | nil => rfl
  | bool b => rfl
  | int _ =>
    rw [expr, nesting]
    split <;> rfl
  | string _ => rfl
  | array _ ih => exact congrArg (· + 1) (listNesting_itemExprs ih)
  | dict _ _ _ _ ih => exact congrArg (· + 1) (pairsNesting_entryExprs ih)

end Tree

/-! ## §4. Making data -/

namespace Heap

/-- Everything that has been made is still as it was. -/
structure Extends (h h' : Heap) : Prop where
  arrays : h.arrays.size ≤ h'.arrays.size
  dicts : h.dicts.size ≤ h'.dicts.size
  items : ∀ ref : ArrayRef, ref.index < h.arrays.size → h'.items ref = h.items ref
  table : ∀ ref : DictRef, ref.index < h.dicts.size → h'.table ref = h.table ref

namespace Extends

variable {h h' h'' : Heap}

theorem refl (h : Heap) : h.Extends h where
  arrays := Nat.le_refl _
  dicts := Nat.le_refl _
  items _ _ := rfl
  table _ _ := rfl

theorem trans (h₁ : h.Extends h') (h₂ : h'.Extends h'') : h.Extends h'' where
  arrays := Nat.le_trans h₁.arrays h₂.arrays
  dicts := Nat.le_trans h₁.dicts h₂.dicts
  items ref href := (h₂.items ref (Nat.lt_of_lt_of_le href h₁.arrays)).trans (h₁.items ref href)
  table ref href := (h₂.table ref (Nat.lt_of_lt_of_le href h₁.dicts)).trans (h₁.table ref href)

/-- A new array changes nothing that has been made. -/
theorem newArray (h : Heap) (items : Array Value) : h.Extends (h.newArray items).2 where
  arrays := by simp [Heap.newArray]
  dicts := Nat.le_refl _
  items ref href := by rw [newArray_items, if_neg (Nat.ne_of_lt href)]
  table _ _ := rfl

/-- Nor does a new dictionary. -/
theorem newDict (h : Heap) (table : OrderedMap Value) : h.Extends (h.newDict table).2 where
  arrays := Nat.le_refl _
  dicts := by simp [Heap.newDict]
  items _ _ := rfl
  table ref href := by rw [newDict_table, if_neg (Nat.ne_of_lt href)]

/-- A new array holds what it was made of for good. -/
theorem items_new {items : Array Value} (hext : (h.newArray items).2.Extends h') :
    h'.items ⟨h.arrays.size⟩ = items := by
  rw [hext.items ⟨h.arrays.size⟩ (by simp [Heap.newArray]), newArray_items, if_pos rfl]

/-- A new dictionary holds what it was made of for good. -/
theorem table_new {table : OrderedMap Value} (hext : (h.newDict table).2.Extends h') :
    h'.table ⟨h.dicts.size⟩ = table := by
  rw [hext.table ⟨h.dicts.size⟩ (by simp [Heap.newDict]), newDict_table, if_pos rfl]

end Extends

end Heap

/-- **The expression makes the tree**: in every state it has a value and only adds to the heap, and the
    value unfolds to the tree there and on every heap that this one is extended to. -/
def Expr.Makes (host : Host) (fuel : Nat) (e : Expr) (t : Tree) : Prop :=
  ∀ s : State, ∃ w h, Expr.eval host fuel e s = some (.ok w, { s with heap := h }) ∧
    s.heap.Extends h ∧ ∀ h', h.Extends h' → h'.Unfolds w t

section Makes

variable {host : Host} {fuel : Nat}

/-- What evaluates to a value without parts, in every state, makes the tree of this value. -/
theorem Expr.Makes.leaf {e : Expr} {w : Value} {t : Tree}
    (heval : ∀ s, Expr.eval host fuel e s = some (.ok w, s)) (hleaf : w.leaf? = some t) :
    e.Makes host fuel t :=
  fun s => ⟨w, s.heap, heval s, .refl _, fun _ _ => .leaf hleaf⟩

/-- Elements are made one after the other. -/
theorem Eval.values_makes {items : List Tree} (hitems : ∀ t ∈ items, t.expr.Makes host fuel t)
    (s : State) : ∃ vs h,
      Eval.values (Expr.eval host fuel) (items.map Tree.expr) s =
        some (.ok vs, { s with heap := h }) ∧
      s.heap.Extends h ∧ ∀ h', h.Extends h' → List.Forall₂ h'.Unfolds vs items := by
  induction items generalizing s with
  | nil => exact ⟨[], s.heap, rfl, .refl _, fun _ _ => .nil⟩
  | cons t rest ih =>
    obtain ⟨w, h, heval, hext, hw⟩ := hitems t List.mem_cons_self s
    obtain ⟨vs, h', hvalues, hext', hvs⟩ :=
      ih (fun u hu => hitems u (List.mem_cons_of_mem t hu)) { s with heap := h }
    refine ⟨w :: vs, h', (Eval.bind_ok heval).trans (Eval.bind_ok hvalues), hext.trans hext', ?_⟩
    exact fun h'' hlater => .cons (hw h'' (hext'.trans hlater)) (hvs h'' hlater)

/-- Entries are made one after the other, and each goes last. -/
theorem Eval.entries_makes {entries : List (String × Tree)}
    (hentries : ∀ e ∈ entries, e.2.expr.Makes host (fuel + 1) e.2) (table : OrderedMap Value)
    (hkeys : (table.keys ++ entries.map Prod.fst).Nodup) (s : State) : ∃ added h,
      Eval.entries (Expr.eval host (fuel + 1)) table
          (entries.map fun e => (.string e.1, e.2.expr)) s =
        some (.ok ⟨table.entries ++ added⟩, { s with heap := h }) ∧
      s.heap.Extends h ∧ ∀ h', h.Extends h' → List.Forall₂ h'.EntryUnfolds added entries := by
  induction entries generalizing table s with
  | nil =>
    refine ⟨[], s.heap, ?_, .refl _, fun _ _ => .nil⟩
    rw [List.append_nil]
    rfl
  | cons e rest ih =>
    obtain ⟨w, h, heval, hext, hw⟩ := hentries e List.mem_cons_self s
    -- the key is new, so that its entry goes last
    have hnew : e.1 ∉ table.entries.map Prod.fst := by
      intro hmem
      exact (List.nodup_append.mp hkeys).2.2 e.1 hmem e.1 List.mem_cons_self rfl
    have hset : table.set e.1 w = ⟨table.entries ++ [(e.1, w)]⟩ :=
      congrArg OrderedMap.mk (OrderedMap.setEntry_new hnew w)
    have hkeys' : ((table.set e.1 w).keys ++ rest.map Prod.fst).Nodup := by
      rw [hset, OrderedMap.keys, List.map_append, List.append_assoc]
      exact hkeys
    obtain ⟨added, h', hrest, hext', hadded⟩ :=
      ih (fun u hu => hentries u (List.mem_cons_of_mem e hu)) (table.set e.1 w) hkeys'
        { s with heap := h }
    refine ⟨(e.1, w) :: added, h', ?_, hext.trans hext', ?_⟩
    -- this entry and then the rest
    · refine (Eval.bind_ok heval).trans (hrest.trans ?_)
      rw [hset, List.append_assoc]
      rfl
    -- what the value unfolds to stays so while the rest is made
    · exact fun h'' hlater => .cons ⟨rfl, hw h'' (hext'.trans hlater)⟩ (hadded h'' hlater)

/-- A minus sign before the opposite of a word makes the word. -/
theorem Expr.Makes.opposite {n : Int64} (hleast : Int64.minValue < n) (hneg : n < 0) :
    (Expr.unary .neg (.int (Int64.ofInt (-n.toInt)))).Makes host (fuel + 2) (.int n) := by
  obtain ⟨w, hw, hresult⟩ := wordResult_of_inWords UnaryOp.neg.symbol (InWords.toInt n)
  obtain rfl := Int64.toInt_inj.mp hw
  refine .leaf (w := .int w) (fun s => ?_) rfl
  have happly : UnaryOp.neg.apply (.int (Int64.ofInt (-w.toInt))) = .ok (.int w) := by
    rw [← hresult, UnaryOp.apply, Tree.toInt_opposite hleast hneg, Int.neg_neg]
  show (Eval.ofExcept (UnaryOp.neg.apply (.int (Int64.ofInt (-w.toInt))))) s = _
  rw [happly]
  rfl

/-- An array literal makes an array of what its elements make. -/
theorem Expr.Makes.array {items : List Tree} (hitems : ∀ t ∈ items, t.expr.Makes host fuel t) :
    (Tree.array items).expr.Makes host (fuel + 1) (.array items) := by
  intro s
  obtain ⟨vs, h, hvalues, hext, hvs⟩ := Eval.values_makes hitems s
  have hnew : h.Extends (h.newArray vs.toArray).2 := .newArray h vs.toArray
  refine ⟨.array ⟨h.arrays.size⟩, _, ?_, hext.trans hnew, fun h' hlater => .array ?_⟩
  · rw [Tree.expr, Tree.itemExprs_eq_map]
    exact (Eval.bind_ok hvalues).trans (Eval.ofAlloc_ok rfl)
  · rw [hlater.items_new]
    exact hvs h' (hnew.trans hlater)

/-- A dictionary literal with distinct keys makes a dictionary of what its values make. -/
theorem Expr.Makes.dict {entries : List (String × Tree)} (hdistinct : (entries.map Prod.fst).Nodup)
    (hentries : ∀ e ∈ entries, e.2.expr.Makes host (fuel + 1) e.2) :
    (Tree.dict entries).expr.Makes host (fuel + 2) (.dict entries) := by
  intro s
  obtain ⟨added, h, hadds, hext, hadded⟩ := Eval.entries_makes hentries .empty hdistinct s
  have hnew : h.Extends (h.newDict ⟨added⟩).2 := .newDict h ⟨added⟩
  refine ⟨.dict ⟨h.dicts.size⟩, _, ?_, hext.trans hnew, fun h' hlater => .dict ?_⟩
  · rw [Tree.expr, Tree.entryExprs_eq_map]
    exact (Eval.bind_ok hadds).trans (Eval.ofAlloc_ok rfl)
  · rw [hlater.table_new]
    exact hadded h' (hnew.trans hlater)

/-- **The literal makes the data**, given more fuel than the data is nested deep. -/
theorem Tree.Data.made {t : Tree} (ht : t.Data) (hfuel : t.nesting ≤ fuel) :
    t.expr.Makes host (fuel + 1) t := by
  induction ht generalizing fuel with
  | nil => exact .leaf (fun _ => rfl) rfl
  | bool b => exact .leaf (fun _ => rfl) rfl
  | string _ => exact .leaf (fun _ => rfl) rfl
  | @int n hleast =>
    -- the minus sign of a negative number takes one more level
    rw [Tree.nesting] at hfuel
    rw [Tree.expr]
    by_cases hneg : n < 0
    · rw [if_pos hneg] at hfuel ⊢
      obtain ⟨fuel, rfl⟩ := Nat.exists_eq_add_one.mpr hfuel
      exact .opposite hleast hneg
    · rw [if_neg hneg]
      exact .leaf (fun _ => rfl) rfl
  | @array items _ ih =>
    -- a container takes one level, and its parts fit into what is left
    obtain ⟨fuel, rfl⟩ := Nat.exists_eq_add_one.mpr (Nat.zero_lt_of_lt hfuel)
    have hitems : Tree.itemsNesting items ≤ fuel := Nat.le_of_succ_le_succ hfuel
    exact .array fun t ht => ih t ht (Nat.le_trans (Tree.nesting_le_items ht) hitems)
  | @dict entries _ hdistinct _ _ ih =>
    obtain ⟨fuel, rfl⟩ := Nat.exists_eq_add_one.mpr (Nat.zero_lt_of_lt hfuel)
    have hentries : Tree.entriesNesting entries ≤ fuel := Nat.le_of_succ_le_succ hfuel
    exact .dict hdistinct fun e he => ih e he (Nat.le_trans (Tree.nesting_le_entries he) hentries)

end Makes

/-! ## §5. From a value to its text and back -/

/-- By itself only a string is written otherwise than inside containers. -/
theorem Tree.Data.text_outside {t : Tree} (ht : t.Data) (hstring : ∀ s, t ≠ .string s) :
    t.text false = t.text true := by
  cases ht with
  | @string s _ => exact absurd rfl (hstring s)
  | _ => rw [Tree.text, Tree.text]

/-- **Printed data reads back.**  The text of a value that unfolds to data, if it is no string and not
    nested deeper than the parser goes, is that of an expression; and on every host and in every state,
    that of a fresh interpreter among them, the expression evaluates to a value that unfolds to the same
    data, with the entries of dictionaries in the same order, while nothing but the heap changes, to
    which new containers are added. -/
theorem printed_data_reads_back (h : Heap) (v : Value) (t : Tree) (hv : h.Unfolds v t) (ht : t.Data)
    (hdeep : t.nesting ≤ maxNesting) (hstring : ∀ s, t ≠ .string s) :
    ∃ e, Expr.parse (h.text v) = .ok e ∧ ∀ (host : Host) (fuel : Nat) (s : State), maxNesting < fuel →
      ∃ w h', Expr.eval host fuel e s = some (.ok w, { s with heap := h' }) ∧
        s.heap.Extends h' ∧ h'.Unfolds w t := by
  refine ⟨t.expr, ?_, fun host fuel s hfuel => ?_⟩
  -- the text of the value is the text of the literal, which is read as the literal
  · have hstart : (Cursor.start (h.text v)).rest = t.expr.text false := by
      rw [Tree.text_expr ht, ← ht.text_outside hstring, ← hv.tree_eq, h.text_tree]
      rfl
    obtain ⟨c, hrun, -⟩ := Parser.onlyExpr_reads (Tree.isLegible_expr ht)
      (Nat.le_trans (Nat.le_of_eq (Tree.nesting_expr ht)) hdeep) _ hstart
    rw [Expr.parse, Expr.parseBy, hrun]
    rfl
  -- there is fuel for every level of the data
  · obtain ⟨fuel, rfl⟩ := Nat.exists_eq_add_one.mpr (Nat.zero_lt_of_lt hfuel)
    have hlevels : t.nesting ≤ fuel := Nat.le_trans hdeep (Nat.le_of_lt_succ hfuel)
    have hmade : t.expr.Makes host (fuel + 1) t := ht.made hlevels
    obtain ⟨w, h', heval, hext, hw⟩ := hmade s
    exact ⟨w, h', heval, hext, hw h' (.refl h')⟩

/-- An array twice in another one, behind a dictionary with a bracket and a colon in a key and a
    comment mark and a line end in a string. -/
theorem printed_data_reads_back_shared :
    let h : Heap :=
      { arrays := #[#[.int (-7), .dict ⟨0⟩, .array ⟨1⟩, .array ⟨1⟩], #[.bool true, .nil]]
        dicts := #[⟨[("b]: [", .string "# ,\n"), ("a", .int 0)]⟩] }
    let inner : Tree := .array [.bool true, .nil]
    let t : Tree := .array
      [.int (-7), .dict [("b]: [", .string "# ,\n"), ("a", .int 0)], inner, inner]
    h.text (.array ⟨0⟩) = "[-7, [\"b]: [\": \"# ,\n\", \"a\": 0], [true, nil], [true, nil]]" ∧
    h.Unfolds (.array ⟨0⟩) t ∧ t.Data ∧ t.nesting = 2 ∧
    ∃ e, Expr.parse (h.text (.array ⟨0⟩)) = .ok e ∧
      ∃ w s, Expr.eval {} 49 e {} = some (.ok w, s) ∧ s.heap.Unfolds w t := by
  intro h inner t
  have hshared : h.Unfolds (.array ⟨1⟩) inner :=
    .array (.cons (.leaf rfl) (.cons (.leaf rfl) .nil))
  have hdict : h.Unfolds (.dict ⟨0⟩) (.dict [("b]: [", .string "# ,\n"), ("a", .int 0)]) :=
    .dict (.cons ⟨rfl, .leaf rfl⟩ (.cons ⟨rfl, .leaf rfl⟩ .nil))
  have hv : h.Unfolds (.array ⟨0⟩) t :=
    .array (.cons (.leaf rfl) (.cons hdict (.cons hshared (.cons hshared .nil))))
  have hinner : inner.Data := .array (by simp [Tree.Data.bool, Tree.Data.nil])
  have ht : t.Data := by
    refine .array fun u hu => ?_
    simp only [List.mem_cons, List.not_mem_nil, or_false] at hu
    rcases hu with rfl | rfl | rfl | rfl
    · exact .int (by decide)
    · refine .dict (by simp) (by decide) (by decide) fun e he => ?_
      simp only [List.mem_cons, List.not_mem_nil, or_false] at he
      rcases he with rfl | rfl
      · exact .string (by decide)
      · exact .int (by decide)
    · exact hinner
    · exact hinner
  obtain ⟨e, hparse, heval⟩ :=
    printed_data_reads_back h (.array ⟨0⟩) t hv ht (by decide) (by simp [t])
  obtain ⟨w, h', hrun, -, hw⟩ := heval {} 49 {} (by decide)
  exact ⟨by decide +kernel, hv, ht, by decide, e, hparse, w, _, hrun, hw⟩

end Scriptlet
