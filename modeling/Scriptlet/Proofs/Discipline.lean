/-
  Scriptlet.Proofs.Discipline — properties of values and errors that a run keeps up.

  A `Discipline` asks something of every value (given the objects that there are) and of every error,
  and comes with the laws that make it last: plain data has it, a new object has it, the content of an
  optional has it, and making more objects takes it from nobody.

  Main results:
    * `Discipline.Change.of_grows` — a heap that has grown and holds only good values is a change
        that the discipline allows; from it one rule per operation of the heap.
    * `Ty.coerce_obeys` — conversion to a declared type gives a good value, and never turns a
        present value into an absent one.
    * `Scopes.All.bind`, `Scopes.All.set` — a property of all bindings survives binding and
        assigning.
-/
import Scriptlet.Eval.State
import Scriptlet.Value.Access
import Scriptlet.Value.Operator

namespace Scriptlet

/-! ## §1. Properties of all values of a map -/

namespace OrderedMap

variable {α : Type} {P Q : α → Prop} {m : OrderedMap α}

/-- Every value of the map has the property. -/
def All (P : α → Prop) (m : OrderedMap α) : Prop := ∀ name a, m.get? name = some a → P a

theorem All.empty : (OrderedMap.empty : OrderedMap α).All P := by
  intro name a h
  rw [get?_empty] at h
  cases h

theorem All.imp (hm : m.All P) (h : ∀ a, P a → Q a) : m.All Q :=
  fun name a ha => h a (hm name a ha)

/-- A set adds one value and keeps or loses others. -/
theorem All.set (hm : m.All P) (name : String) {a : α} (ha : P a) : (m.set name a).All P := by
  intro other b hb
  rw [get?_set] at hb
  split at hb
  · cases hb
    exact ha
  · exact hm other b hb

end OrderedMap

/-! ## §2. Heaps that grow -/

namespace Heap

/-- The second heap has every object of the first. -/
structure Grows (h h' : Heap) : Prop where
  arrays : h.arrays.size ≤ h'.arrays.size
  dicts : h.dicts.size ≤ h'.dicts.size
  optionals : h.optionals ≤ h'.optionals

/-- The only new array is the one made. -/
theorem newArray_items (h : Heap) (items : Array Value) (ref : ArrayRef) :
    (h.newArray items).2.items ref =
      if ref.index = h.arrays.size then items else h.items ref := by
  unfold newArray Heap.items
  simp only [Array.getD_eq_getD_getElem?, Array.getElem?_push]
  split <;> rfl

/-- The only new dictionary is the one made. -/
theorem newDict_table (h : Heap) (table : OrderedMap Value) (ref : DictRef) :
    (h.newDict table).2.table ref =
      if ref.index = h.dicts.size then table else h.table ref := by
  unfold newDict Heap.table
  simp only [Array.getD_eq_getD_getElem?, Array.getElem?_push]
  split <;> rfl

/-- After a change at one place, every place reads as before or as changed. -/
theorem getD_modify_or {α : Type} (xs : Array α) (i j : Nat) (f : α → α) (d : α) :
    (xs.modify i f).getD j d = xs.getD j d ∨ (xs.modify i f).getD j d = f (xs.getD j d) := by
  simp only [Array.getD_eq_getD_getElem?, Array.getElem?_modify]
  split
  · cases xs[j]? with
    | none => exact Or.inl rfl
    | some x => exact Or.inr rfl
  · exact Or.inl rfl

/-- An element after a store was there before, or it is what was stored. -/
theorem mem_setItem_items {h : Heap} {ref other : ArrayRef} {i : Nat} {v w : Value}
    (hw : w ∈ (h.setItem ref i v).items other) : w ∈ h.items other ∨ w = v := by
  unfold setItem Heap.items at hw
  rcases getD_modify_or h.arrays ref.index other.index (·.setIfInBounds i v) #[] with he | he
  · rw [he] at hw
    exact Or.inl hw
  · rw [he] at hw
    exact Array.mem_or_eq_of_mem_setIfInBounds hw

/-- An element after an append was there before, or it is what was appended. -/
theorem mem_pushItem_items {h : Heap} {ref other : ArrayRef} {v w : Value}
    (hw : w ∈ (h.pushItem ref v).items other) : w ∈ h.items other ∨ w = v := by
  unfold pushItem Heap.items at hw
  rcases getD_modify_or h.arrays ref.index other.index (·.push v) #[] with he | he
  · rw [he] at hw
    exact Or.inl hw
  · rw [he] at hw
    exact Array.mem_push.mp hw

/-- After a set the values of a dictionary are those it had, and the new one. -/
theorem setKey_table_all {h : Heap} {P : Value → Prop} {ref other : DictRef} {v : Value}
    (ht : (h.table other).All P) (hv : P v) (key : String) :
    ((h.setKey ref key v).table other).All P := by
  unfold setKey
  show ((h.dicts.modify ref.index (·.set key v)).getD other.index .empty).All P
  rcases getD_modify_or h.dicts ref.index other.index (·.set key v) .empty with he | he
  · rw [he]
    exact ht
  · rw [he]
    exact OrderedMap.All.set ht key hv

end Heap

/-! ## §3. Disciplines -/

/-- Whether the value is data without objects. -/
def Value.isPlain : Value → Bool
  | .array _ | .dict _ | .nothing _ | .just _ _ => false
  | _ => true

/-- What is asked of every value and of every error of a run. -/
structure Discipline where
  /-- What is asked of a value, given the objects there are. -/
  value : Heap → Value → Prop
  /-- What is asked of an error. -/
  error : Error → Prop
  /-- More objects take the property from no value. -/
  grow : ∀ {h h' : Heap} {v : Value}, h.Grows h' → value h v → value h' v
  /-- Plain data has the property. -/
  plain : ∀ (h : Heap) {v : Value}, v.isPlain = true → value h v
  /-- An array that exists has the property. -/
  array : ∀ {h : Heap} {ref : ArrayRef}, ref.index < h.arrays.size → value h (.array ref)
  /-- A dictionary that exists has the property. -/
  dict : ∀ {h : Heap} {ref : DictRef}, ref.index < h.dicts.size → value h (.dict ref)
  /-- An empty optional that exists has the property. -/
  nothing : ∀ {h : Heap} {i : Identity}, i.number < h.optionals → value h (.nothing i)
  /-- An optional around something present has the property with its content. -/
  just : ∀ {h : Heap} {i : Identity} {v : Value}, i.number < h.optionals →
    v.isAbsent = false → value h v → value h (.just i v)
  /-- An optional that stands in for another, present where that one was, has it with its content. -/
  rewrap : ∀ {h h' : Heap} {i j : Identity} {v w : Value}, value h (.just i v) →
    (v.isAbsent = false → w.isAbsent = false) → j.number < h'.optionals → value h' w →
    value h' (.just j w)
  /-- The content of an optional has the property with it. -/
  content : ∀ {h : Heap} {i : Identity} {v : Value}, value h (.just i v) → value h v
  /-- Everything that gives up one statement only is allowed. -/
  recoverable : ∀ {e : Error}, e.severity = .recoverable → error e

namespace Discipline

/-- Nothing is asked. -/
def any : Discipline where
  value _ _ := True
  error _ := True
  grow _ _ := trivial
  plain _ _ _ := trivial
  array _ := trivial
  dict _ := trivial
  nothing _ := trivial
  just _ _ _ := trivial
  rewrap _ _ _ _ := trivial
  content _ := trivial
  recoverable _ := trivial

variable (D : Discipline)

/-- Good values of the first heap are good in the second. -/
def Keeps (h h' : Heap) : Prop := ∀ v, D.value h v → D.value h' v

/-- What is asked of a result that may be an error. -/
def Outcome {α : Type} (Q : Heap → α → Prop) (h : Heap) : Except Error α → Prop
  | .ok a => Q h a
  | .error e => D.error e

variable {D} in
/-- A good result is worked on; an allowed error stays one. -/
theorem Outcome.bind {α β : Type} {Q : Heap → α → Prop} {R : Heap → β → Prop} {h : Heap}
    {r : Except Error α} {f : α → Except Error β} (hr : D.Outcome Q h r)
    (hf : ∀ a, Q h a → D.Outcome R h (f a)) : D.Outcome R h (r >>= f) := by
  cases r with
  | ok a => exact hf a hr
  | error e => exact hr

end Discipline

/-- Every value in an array or a dictionary is good. -/
structure Heap.Sound (D : Discipline) (h : Heap) : Prop where
  items : ∀ ref, ∀ v ∈ h.items ref, D.value h v
  table : ∀ ref, (h.table ref).All (D.value h)

theorem Heap.Sound.empty {D : Discipline} : Heap.empty.Sound D where
  items _ _ hv := absurd hv (Array.not_mem_empty _)
  table _ := .empty

/-- A change of the heap that the discipline allows. -/
structure Discipline.Change (D : Discipline) (h h' : Heap) : Prop where
  keeps : D.Keeps h h'
  sound : h'.Sound D

namespace Discipline.Change

variable {D : Discipline} {h h' h'' : Heap}

theorem refl (hs : h.Sound D) : D.Change h h := ⟨fun _ hv => hv, hs⟩

theorem trans (h₁ : D.Change h h') (h₂ : D.Change h' h'') : D.Change h h'' :=
  ⟨fun v hv => h₂.keeps v (h₁.keeps v hv), h₂.sound⟩

/-- **A heap that has grown and holds only good values is a change that is allowed.** -/
theorem of_grows (hg : h.Grows h') (hi : ∀ ref, ∀ v ∈ h'.items ref, D.value h v)
    (ht : ∀ ref, (h'.table ref).All (D.value h)) : D.Change h h' where
  keeps _ hv := D.grow hg hv
  sound := {
    items := fun ref v hv => D.grow hg (hi ref v hv)
    table := fun ref => (ht ref).imp fun _ hv => D.grow hg hv }

/-- A new array of good values is allowed. -/
theorem newArray (hs : h.Sound D) {items : Array Value} (hi : ∀ v ∈ items, D.value h v) :
    D.Change h (h.newArray items).2 := by
  refine of_grows ⟨by simp [Heap.newArray], Nat.le_refl _, Nat.le_refl _⟩ ?_ hs.table
  intro ref v hv
  rw [Heap.newArray_items] at hv
  split at hv
  · exact hi v hv
  · exact hs.items ref v hv

/-- So is a new dictionary of good values. -/
theorem newDict (hs : h.Sound D) {table : OrderedMap Value} (ht : table.All (D.value h)) :
    D.Change h (h.newDict table).2 := by
  refine of_grows ⟨Nat.le_refl _, by simp [Heap.newDict], Nat.le_refl _⟩ hs.items ?_
  intro ref
  rw [Heap.newDict_table]
  split
  · exact ht
  · exact hs.table ref

/-- A new optional is no part of any array or dictionary yet. -/
theorem newNothing (hs : h.Sound D) : D.Change h h.newNothing.2 :=
  of_grows ⟨Nat.le_refl _, Nat.le_refl _, Nat.le_succ _⟩ hs.items hs.table

theorem newJust (hs : h.Sound D) (v : Value) : D.Change h (h.newJust v).2 :=
  of_grows ⟨Nat.le_refl _, Nat.le_refl _, Nat.le_succ _⟩ hs.items hs.table

/-- A good value in the place of another. -/
theorem setItem (hs : h.Sound D) (ref : ArrayRef) (i : Nat) {v : Value} (hv : D.value h v) :
    D.Change h (h.setItem ref i v) := by
  refine of_grows ⟨by simp [Heap.setItem], Nat.le_refl _, Nat.le_refl _⟩ ?_ hs.table
  intro other w hw
  rcases Heap.mem_setItem_items hw with hold | rfl
  · exact hs.items other w hold
  · exact hv

/-- A good value after the last one. -/
theorem pushItem (hs : h.Sound D) (ref : ArrayRef) {v : Value} (hv : D.value h v) :
    D.Change h (h.pushItem ref v) := by
  refine of_grows ⟨by simp [Heap.pushItem], Nat.le_refl _, Nat.le_refl _⟩ ?_ hs.table
  intro other w hw
  rcases Heap.mem_pushItem_items hw with hold | rfl
  · exact hs.items other w hold
  · exact hv

/-- A good value under a key. -/
theorem setKey (hs : h.Sound D) (ref : DictRef) (key : String) {v : Value} (hv : D.value h v) :
    D.Change h (h.setKey ref key v) := by
  refine of_grows ⟨Nat.le_refl _, by simp [Heap.setKey], Nat.le_refl _⟩ hs.items ?_
  intro other
  exact Heap.setKey_table_all (hs.table other) hv key

end Discipline.Change

/-! ## §4. Computations on the heap -/

namespace Alloc

variable {α β : Type} {x : Alloc α} {f : α → Alloc β} {h h' : Heap}

theorem bind_ok {a : α} (hx : x h = .ok (a, h')) : (x >>= f) h = f a h' := by
  show (x h).bind (fun p => f p.1 p.2) = f a h'
  rw [hx]
  rfl

/-- Two computations succeed together exactly if each does in its turn. -/
theorem bind_eq_ok {b : β} :
    (x >>= f) h = .ok (b, h') ↔ ∃ a h₁, x h = .ok (a, h₁) ∧ f a h₁ = .ok (b, h') := by
  show (x h).bind (fun p => f p.1 p.2) = .ok (b, h') ↔ _
  cases x h with
  | error e => simp [Except.bind]
  | ok p =>
    refine ⟨fun hrest => ⟨p.1, p.2, rfl, hrest⟩, ?_⟩
    rintro ⟨a, h₁, hx, hrest⟩
    cases hx
    exact hrest

/-- They fail together exactly if one of them does in its turn. -/
theorem bind_eq_error {e : Error} :
    (x >>= f) h = .error e ↔
      x h = .error e ∨ ∃ a h₁, x h = .ok (a, h₁) ∧ f a h₁ = .error e := by
  show (x h).bind (fun p => f p.1 p.2) = .error e ↔ _
  cases x h with
  | error e => simp [Except.bind]
  | ok p =>
    refine ⟨fun hrest => .inr ⟨p.1, p.2, rfl, hrest⟩, ?_⟩
    rintro (hx | ⟨a, h₁, hx, hrest⟩)
    · cases hx
    · cases hx
      exact hrest

end Alloc

/-- From this heap the computation makes an allowed change and ends with the given property, or it
    fails with an allowed error. -/
def Alloc.Obeys {α : Type} (D : Discipline) (h : Heap) (x : Alloc α) (Q : Heap → α → Prop) : Prop :=
  D.Outcome (fun h p => D.Change h p.2 ∧ Q p.2 p.1) h (x h)

namespace Alloc.Obeys

variable {α β : Type} {D : Discipline} {h : Heap} {x : Alloc α} {Q : Heap → α → Prop}

theorem pure (hs : h.Sound D) {a : α} (ha : Q h a) : Alloc.Obeys D h (pure a) Q :=
  ⟨.refl hs, ha⟩

/-- An error that gives up one statement is always allowed. -/
theorem throw {e : Error} (he : e.severity = .recoverable) : Alloc.Obeys D h (throw e) Q :=
  D.recoverable he

/-- What is made must be allowed as a change and have the property. -/
theorem make {new : Heap → Value × Heap} {Q : Heap → Value → Prop} (hc : D.Change h (new h).2)
    (hq : Q (new h).2 (new h).1) : Alloc.Obeys D h (Alloc.make new) Q :=
  ⟨hc, hq⟩

/-- A result that is known before, or its error; the heap stays. -/
theorem lift (hs : h.Sound D) {r : Except Error α} (hr : D.Outcome Q h r) :
    Alloc.Obeys D h (liftM r) Q := by
  cases r with
  | ok a => exact ⟨.refl hs, hr⟩
  | error e => exact hr

/-- Where the computation succeeds. -/
theorem ok (hx : Alloc.Obeys D h x Q) {a : α} {h' : Heap} (hr : x h = .ok (a, h')) :
    D.Change h h' ∧ Q h' a := by
  unfold Alloc.Obeys at hx
  rw [hr] at hx
  exact hx

/-- Where the computation fails. -/
theorem error (hx : Alloc.Obeys D h x Q) {e : Error} (hr : x h = .error e) : D.error e := by
  unfold Alloc.Obeys at hx
  rw [hr] at hx
  exact hx

/-- One computation after the other; the second may rely on what the first gives and on the change
    it makes. -/
theorem bind {f : α → Alloc β} {R : Heap → β → Prop} (hx : Alloc.Obeys D h x Q)
    (hf : ∀ h' a, D.Change h h' → Q h' a → Alloc.Obeys D h' (f a) R) :
    Alloc.Obeys D h (x >>= f) R := by
  show D.Outcome _ h (StateT.bind x f h)
  unfold StateT.bind
  cases hr : x h with
  -- the first has failed, and the second is not run
  | error e => exact hx.error hr
  | ok p =>
    obtain ⟨a, h'⟩ := p
    obtain ⟨hc, hq⟩ := hx.ok hr
    have hrest := hf h' a hc hq
    show D.Outcome _ h (f a h')
    -- the two changes follow one another
    cases hr' : f a h' with
    | error e => exact hrest.error hr'
    | ok p' =>
      obtain ⟨hc', hq'⟩ := hrest.ok hr'
      exact ⟨hc.trans hc', hq'⟩

theorem imp {R : Heap → α → Prop} (hx : Alloc.Obeys D h x Q) (hr : ∀ h' a, Q h' a → R h' a) :
    Alloc.Obeys D h x R := by
  show D.Outcome _ h (x h)
  cases hx' : x h with
  | error e => exact hx.error hx'
  | ok p =>
    obtain ⟨hc, hq⟩ := hx.ok hx'
    exact ⟨hc, hr _ _ hq⟩

end Alloc.Obeys

/-! ## §5. Conversion -/

/-- **Conversion gives a good value, and a present one of a present one.** -/
theorem Ty.coerce_obeys {D : Discipline} (type : Ty) (v : Value) {h : Heap} (hs : h.Sound D)
    (hv : D.value h v) :
    Alloc.Obeys D h (type.coerce v) fun h' w =>
      D.value h' w ∧ (v.isAbsent = false → w.isAbsent = false) := by
  fun_induction Ty.coerce type v generalizing h with
  | case1 v => exact .pure hs ⟨hv, id⟩
  | case2 content => exact .make (.newNothing hs) ⟨D.nothing (Nat.lt_succ_self _), nofun⟩
  | case3 content i => exact .pure hs ⟨hv, nofun⟩
  | case4 type i content ih =>
    refine (ih hs (D.content hv)).bind ?_
    rintro h' converted hc ⟨hw, hpresent⟩
    split
    · -- nothing was converted, and the optional itself is handed on
      exact .pure hc.sound ⟨hc.keeps _ hv, id⟩
    · have hnew := Discipline.Change.newJust hc.sound converted
      exact .make hnew ⟨D.rewrap hv hpresent (Nat.lt_succ_self _) (hnew.keeps _ hw), fun _ => rfl⟩
  | case5 type v hnil hnothing hjust ih =>
    -- what is left to be wrapped is neither `nil` nor an optional
    have hv' : v.isAbsent = false := by
      cases v with
      | nil => exact (hnil rfl).elim
      | nothing i => exact (hnothing i rfl).elim
      | _ => rfl
    refine (ih hs hv).bind ?_
    rintro h' converted hc ⟨hw, hpresent⟩
    have hnew := Discipline.Change.newJust hc.sound converted
    exact .make hnew
      ⟨D.just (Nat.lt_succ_self _) (hpresent hv') (hnew.keeps _ hw), fun _ => rfl⟩
  | case17 element ref => exact .pure hs ⟨hv, id⟩
  | case18 key value ref => exact .pure hs ⟨hv, id⟩
  | case19 => exact .throw rfl
  | _ => exact .pure hs ⟨D.plain h rfl, fun _ => rfl⟩

/-! ## §6. Operators and access -/

/-- The result is plain data or an error that gives up one statement. -/
def PlainResult : Except Error Value → Prop
  | .ok v => v.isPlain = true
  | .error e => e.severity = .recoverable

/-- Plain data is good on every heap. -/
theorem PlainResult.outcome {D : Discipline} {r : Except Error Value} (hr : PlainResult r)
    (h : Heap) : D.Outcome D.value h r := by
  cases r with
  | ok v => exact D.plain h hr
  | error e => exact D.recoverable hr

theorem wordResult_plain (symbol : String) (n : Int) : PlainResult (wordResult symbol n) := by
  unfold wordResult
  split <;> rfl

/-- Integers give integers and truth values, or a recoverable error where there is no result. -/
theorem BinaryOp.onInts_plain (op : BinaryOp) (a b : Int64) : PlainResult (op.onInts a b) := by
  unfold BinaryOp.onInts
  split
  · exact wordResult_plain _ _
  · exact wordResult_plain _ _
  · exact wordResult_plain _ _
  · split
    · rfl
    · exact wordResult_plain _ _
  · split
    · rfl
    · -- the quotient is only checked; the remainder is the result
      have hq := wordResult_plain BinaryOp.mod.symbol (a.toInt.tdiv b.toInt)
      cases hr : wordResult BinaryOp.mod.symbol (a.toInt.tdiv b.toInt) with
      | ok q => exact wordResult_plain _ _
      | error e =>
        rw [hr] at hq
        exact hq
  · rfl

theorem BinaryOp.onDoubles_plain (op : BinaryOp) (left right : Kind) (a b : Float) :
    PlainResult (op.onDoubles left right a b) := by
  unfold BinaryOp.onDoubles
  split
  · rfl
  · rfl
  · rfl
  · split <;> rfl
  · rfl

/-- Operands of other kinds are refused, recoverably. -/
theorem BinaryOp.arithmetic_plain (op : BinaryOp) (left right : Value) :
    PlainResult (op.arithmetic left right) := by
  unfold BinaryOp.arithmetic
  split
  · rfl
  · split
    · exact op.onInts_plain _ _
    · exact op.onDoubles_plain _ _ _ _
    · rfl

/-- A comparison gives a truth value, or is refused. -/
theorem Value.compare_plain (left right : Value) (f : Option Ordering → Bool) :
    PlainResult ((left.compare right).map fun order => .bool (f order)) := by
  unfold Value.compare
  split
  · rfl
  · rfl
  · split <;> rfl

/-- An operator gives plain data. -/
theorem BinaryOp.apply_plain (op : BinaryOp) (left right : Value) :
    PlainResult (op.apply left right) := by
  cases op <;> simp only [BinaryOp.apply]
  case eq | ne => rfl
  case lt | gt | le | ge => exact Value.compare_plain _ _ _
  case and | or => split <;> rfl
  all_goals exact BinaryOp.arithmetic_plain _ _ _

theorem UnaryOp.apply_plain (op : UnaryOp) (operand : Value) : PlainResult (op.apply operand) := by
  unfold UnaryOp.apply
  split
  · rfl
  · rfl
  · exact wordResult_plain _ _
  · rfl
  · rfl
  · rfl

/-- Where nothing is found, `nil` stands for it. -/
theorem Discipline.getD_nil (D : Discipline) {h : Heap} {r : Option Value}
    (hr : ∀ v, r = some v → D.value h v) : D.value h (r.getD .nil) := by
  cases r with
  | none => exact D.plain h rfl
  | some v => exact hr v rfl

namespace Heap

variable {D : Discipline} {h : Heap}

/-- What is read at an index is good. -/
theorem index_good (hs : h.Sound D) (target i : Value) (ht : D.value h target) :
    D.Outcome D.value h (h.index target i) := by
  fun_induction Heap.index h target i with
  | case1 ref i items =>
    refine D.getD_nil fun v hv => ?_
    obtain ⟨k, -, hk⟩ := Option.bind_eq_some_iff.mp hv
    exact hs.items ref v (Array.mem_of_getElem? hk)
  | case4 ref key => exact D.getD_nil (hs.table ref key)
  | case6 i content target ih => exact ih (D.content ht)
  | case2 => exact D.plain h rfl
  | case5 => exact D.plain h rfl
  | _ => exact D.recoverable rfl

/-- A value under a key is good where the dictionary is sound; what is missing is `nil`. -/
theorem keyMember_good (hs : h.Sound D) (target : Value) (name : String) :
    D.Outcome D.value h (h.keyMember target name) := by
  unfold keyMember
  split
  · exact D.getD_nil (hs.table _ name)
  · exact D.recoverable rfl

/-- A length is plain data, and other members are values under keys. -/
theorem member_good (hs : h.Sound D) (target : Value) (name : String) :
    D.Outcome D.value h (h.member target name) := by
  unfold member
  split
  · split
    · exact D.plain h rfl
    · exact keyMember_good hs target name
  · exact keyMember_good hs target name

/-- A store of a good value is an allowed change. -/
theorem storeIndex_good (hs : h.Sound D) {v : Value} (hv : D.value h v) (target i : Value) :
    D.Outcome D.Change h (h.storeIndex v target i) := by
  fun_induction Heap.storeIndex h v target i with
  | case1 ref i length k hk => exact .setItem hs ref k hv
  | case3 ref key => exact .setKey hs ref key hv
  | case5 i content target ih => exact ih
  | _ => exact D.recoverable rfl

theorem storeMember_good (hs : h.Sound D) {v : Value} (hv : D.value h v) (target : Value)
    (name : String) : D.Outcome D.Change h (h.storeMember target name v) := by
  unfold storeMember
  split
  · exact .setKey hs _ name hv
  · exact D.recoverable rfl

/-- An append of a good value is an allowed change. -/
theorem append_good (hs : h.Sound D) {v : Value} (hv : D.value h v) (target : Value) :
    D.Outcome D.Change h (h.append target v) := by
  unfold append
  split
  · exact .pushItem hs _ hv
  · exact D.recoverable rfl

/-- A method gives plain data; `append` also changes an array, with a good value. -/
theorem callMethod_obeys (hs : h.Sound D) (target : Value) (name : String) {args : List Value}
    (ha : ∀ v ∈ args, D.value h v) :
    Alloc.Obeys D h (fun h => h.callMethod target name args) D.value := by
  show D.Outcome _ h (h.callMethod target name args)
  unfold callMethod
  split
  -- `append` with one argument
  · rename_i item
    have happend := append_good hs (ha item (List.mem_singleton.mpr rfl)) target
    cases hr : h.append target item with
    | ok h' =>
      rw [hr] at happend
      exact ⟨happend, D.plain h' rfl⟩
    | error e =>
      rw [hr] at happend
      exact happend
  · exact D.recoverable rfl
  -- `toString` without arguments
  · exact ⟨.refl hs, D.plain h rfl⟩
  · exact D.recoverable rfl
  · exact D.recoverable rfl

end Heap

/-- The elements of a run of integers are plain data. -/
theorem Progression.toArray_obeys {D : Discipline} {h : Heap} (hs : h.Sound D) (p : Progression)
    (request : Nat) (undertaking : Undertaking) :
    Alloc.Obeys D h (p.toArray request undertaking) D.value := by
  have hitems : ∀ v ∈ p.toList.toArray, D.value h v := by
    intro v hv
    simp only [Progression.toList, List.mem_toArray, List.mem_map] at hv
    obtain ⟨k, -, rfl⟩ := hv
    exact D.plain h rfl
  unfold Progression.toArray
  split
  · exact .throw rfl
  · exact .make (.newArray hs hitems) (D.array (by simp [Heap.newArray]))

/-! ## §7. Properties of all bindings -/

namespace Scopes

variable {P Q : Binding → Prop} {s : Scopes}

/-- Every binding of every frame has the property. -/
structure All (P : Binding → Prop) (s : Scopes) : Prop where
  globals : s.globals.All P
  frames : ∀ f ∈ s.frames, f.bindings.All P

theorem All.empty : Scopes.empty.All P := ⟨.empty, nofun⟩

theorem All.imp (hs : s.All P) (h : ∀ b, P b → Q b) : s.All Q :=
  ⟨hs.globals.imp h, fun f hf => (hs.frames f hf).imp h⟩

/-- A new frame is empty. -/
theorem All.push (hs : s.All P) (kind : FrameKind) : (s.push kind).All P := by
  refine ⟨hs.globals, ?_⟩
  intro f hf
  rcases List.mem_cons.mp hf with rfl | hold
  · exact .empty
  · exact hs.frames f hold

theorem All.pop (hs : s.All P) : s.pop.All P :=
  ⟨hs.globals, fun f hf => hs.frames f (List.mem_of_mem_tail hf)⟩

/-- A name is bound in the innermost frame, or globally if there is none. -/
theorem All.bind (hs : s.All P) (name : String) {b : Binding} (hb : P b) :
    (s.bind name b).All P := by
  unfold Scopes.bind
  split
  · rename_i hnil
    exact ⟨hs.globals.set name hb, hs.frames⟩
  · rename_i f outer hframes
    have hold : ∀ g ∈ f :: outer, g.bindings.All P := hframes ▸ hs.frames
    refine ⟨hs.globals, ?_⟩
    intro g hg
    rcases List.mem_cons.mp hg with rfl | hrest
    · exact (hold f List.mem_cons_self).set name hb
    · exact hold g (List.mem_cons_of_mem f hrest)

/-- A visible binding of the frames is one of theirs. -/
theorem localBinding?_all {fs : List Frame} (hfs : ∀ f ∈ fs, f.bindings.All P) {name : String}
    {b : Binding} (hb : localBinding? name fs = some b) : P b := by
  induction fs with
  | nil => cases hb
  | cons f outer ih =>
    unfold localBinding? at hb
    split at hb
    · rename_i found hfound
      cases hb
      exact hfs f List.mem_cons_self name _ hfound
    · exact ih (fun g hg => hfs g (List.mem_cons_of_mem f hg)) hb
    · cases hb

/-- What a name stands for is a binding of some frame. -/
theorem All.get? (hs : s.All P) {name : String} {b : Binding} (hb : s.get? name = some b) :
    P b := by
  unfold Scopes.get? at hb
  split at hb
  · rename_i found hfound
    cases hb
    exact localBinding?_all hs.frames hfound
  · exact hs.globals name b hb

/-- Setting a name in the frames changes one binding of one frame. -/
theorem setLocal?_all {fs gs : List Frame} (hfs : ∀ f ∈ fs, f.bindings.All P) {name : String}
    {b : Binding} (hb : P b) (hset : setLocal? name b fs = some gs) :
    ∀ g ∈ gs, g.bindings.All P := by
  induction fs generalizing gs with
  | nil => cases hset
  | cons f outer ih =>
    have hf := hfs f List.mem_cons_self
    have houter : ∀ g ∈ outer, g.bindings.All P := fun g hg => hfs g (List.mem_cons_of_mem f hg)
    unfold setLocal? at hset
    split at hset
    -- the name is bound in the innermost frame
    · cases hset
      intro g hg
      rcases List.mem_cons.mp hg with rfl | hrest
      · exact hf.set name hb
      · exact houter g hrest
    · split at hset
      -- or further out, where the frames before stay as they are
      · obtain ⟨rest, hrest, rfl⟩ := Option.map_eq_some_iff.mp hset
        intro g hg
        rcases List.mem_cons.mp hg with rfl | hg'
        · exact hf
        · exact ih houter hrest g hg'
      · cases hset

/-- Setting a name keeps the property where the new binding has it. -/
theorem All.set (hs : s.All P) (name : String) {b : Binding} (hb : P b) : (s.set name b).All P := by
  unfold Scopes.set
  split
  · rename_i frames hset
    exact ⟨hs.globals, setLocal?_all hs.frames hb hset⟩
  · exact ⟨hs.globals.set name hb, hs.frames⟩

end Scopes

end Scriptlet
