/-
  Scriptlet.Proofs.Stores — what a store does to the shared heap, and what is read after it.

  A container may be reached by many values: by the reference, by copies of it, through optionals
  around it, and from inside itself.  Two indices may mean the same place: `-1` and `n - 1` do in an
  array of length `n`.  `Heap.Denotes` says without any computation which place, or `Slot`, an index
  means on a value, and `Heap.Stored` what it is for a heap to differ from another in one slot.  A
  store that succeeds makes that difference and no other, and every read then depends on the slot
  that its own index means.

  Main results:
    * `position?_eq_some_iff` — the positions that reading and storing compute are those denoted.
    * `Heap.storeIndex_eq_ok_iff` — when a store succeeds, and with which heap.
    * `Heap.Stored.index_hit`, `Heap.Stored.index_miss` — reading after a store, through any value.
    * `stores_read_back` — stores at an index and stores at a member.
-/
import Scriptlet.Proofs.InsertionOrder
import Scriptlet.Proofs.TypedStore

namespace Scriptlet

/-! ## §1. Slots -/

/-- A place of a container that holds one value. -/
inductive Slot where
  /-- An element of an array. -/
  | item (ref : ArrayRef) (k : Nat)
  /-- An entry of a dictionary, which need not be there yet. -/
  | key (ref : DictRef) (key : String)
  deriving DecidableEq

/-- What is left of a value without the optionals around it. -/
def Value.innermost : Value → Value
  | .just _ content => content.innermost
  | v => v

/-- The slot that an index means on a value: in an array of length `n` the element `k` is meant by
    `k` and by `k - n`, in a dictionary an entry by its key, and optionals around the container do
    not count. -/
inductive Heap.Denotes (h : Heap) : Value → Value → Slot → Prop
  | item {ref k} {i : Int64} : k < (h.items ref).size →
      (i.toInt = (k : Int) ∨ i.toInt = (k : Int) - (h.items ref).size) →
      Denotes h (.array ref) (.int i) (.item ref k)
  | key {ref key} : Denotes h (.dict ref) (.string key) (.key ref key)
  | just {identity content index slot} : Denotes h content index slot →
      Denotes h (.just identity content) index slot

/-- **The position of an index** is the one that it means. -/
theorem position?_eq_some_iff {i : Int64} {n k : Nat} :
    position? i n = some k ↔ k < n ∧ (i.toInt = k ∨ i.toInt = k - n) := by
  unfold position?
  by_cases hneg : i.toInt < 0
  · simp only [if_pos hneg, Option.ite_none_right_eq_some, Option.some.injEq]
    omega
  · simp only [if_neg hneg, Option.ite_none_right_eq_some, Option.some.injEq]
    omega

/-- An index has a position exactly from `-n` up to `n`. -/
theorem position?_isSome_iff {i : Int64} {n : Nat} :
    (∃ k, position? i n = some k) ↔ -(n : Int) ≤ i.toInt ∧ i.toInt < n := by
  unfold position?
  by_cases hneg : i.toInt < 0
  · simp only [if_pos hneg, Option.ite_none_right_eq_some, Option.some.injEq]
    exact ⟨fun ⟨_, h, _⟩ => by omega, fun _ => ⟨_, by omega, rfl⟩⟩
  · simp only [if_neg hneg, Option.ite_none_right_eq_some, Option.some.injEq]
    exact ⟨fun ⟨_, h, _⟩ => by omega, fun _ => ⟨_, by omega, rfl⟩⟩

namespace Heap

variable {h h' : Heap} {v : Value} {slot : Slot}

/-- On an array an index means an element by the position that is computed for it. -/
theorem denotes_array_iff {ref : ArrayRef} {index : Value} :
    h.Denotes (.array ref) index slot ↔
      ∃ i k, index = .int i ∧ slot = .item ref k ∧ position? i (h.items ref).size = some k := by
  constructor
  · rintro (⟨hk, hi⟩)
    exact ⟨_, _, rfl, rfl, position?_eq_some_iff.mpr ⟨hk, hi⟩⟩
  · rintro ⟨i, k, rfl, rfl, hk⟩
    obtain ⟨hlt, hi⟩ := position?_eq_some_iff.mp hk
    exact .item hlt hi

/-- On a dictionary an index means the entry of a key. -/
theorem denotes_dict_iff {ref : DictRef} {index : Value} :
    h.Denotes (.dict ref) index slot ↔ ∃ key, index = .string key ∧ slot = .key ref key := by
  constructor
  · rintro (_ | _)
    exact ⟨_, rfl, rfl⟩
  · rintro ⟨key, rfl, rfl⟩
    exact .key

/-- Optionals around a container do not count. -/
theorem denotes_just_iff {identity : Identity} {content index : Value} :
    h.Denotes (.just identity content) index slot ↔ h.Denotes content index slot := by
  constructor
  · intro hd
    cases hd with
    | just hd => exact hd
  · exact .just

/-- An index means a slot on arrays, from `-n` up to `n`, and on dictionaries, if it is a string. -/
theorem denotes_some_iff (target index : Value) :
    (∃ slot, h.Denotes target index slot) ↔
      (∃ ref i, target.innermost = .array ref ∧ index = .int i ∧
        -((h.items ref).size : Int) ≤ i.toInt ∧ i.toInt < (h.items ref).size) ∨
      (∃ ref key, target.innermost = .dict ref ∧ index = .string key) := by
  induction target with
  | array ref =>
    simp only [denotes_array_iff, Value.innermost]
    constructor
    · rintro ⟨slot, i, k, rfl, -, hk⟩
      exact .inl ⟨ref, i, rfl, rfl, position?_isSome_iff.mp ⟨k, hk⟩⟩
    · rintro (⟨_, i, hr, rfl, hi⟩ | ⟨_, _, hr, _⟩)
      · cases hr
        obtain ⟨k, hk⟩ := position?_isSome_iff.mpr hi
        exact ⟨_, i, k, rfl, rfl, hk⟩
      · cases hr
  | dict ref =>
    simp only [denotes_dict_iff, Value.innermost]
    constructor
    · rintro ⟨slot, key, rfl, -⟩
      exact .inr ⟨ref, key, rfl, rfl⟩
    · rintro (⟨_, _, hr, _⟩ | ⟨_, key, hr, rfl⟩)
      · cases hr
      · exact ⟨_, key, rfl, rfl⟩
  | just identity content ih => simpa only [denotes_just_iff, Value.innermost] using ih
  | _ =>
    -- no other value has slots
    constructor
    · rintro ⟨slot, hd⟩
      cases hd
    · rintro (⟨_, _, hr, _⟩ | ⟨_, _, hr, _⟩) <;> cases hr

/-! ## §2. One slot changed -/

/-- The heap with a value in a slot. -/
def write (h : Heap) (v : Value) : Slot → Heap
  | .item ref k => h.setItem ref k v
  | .key ref key => h.setKey ref key v

/-- The second heap is the first with this value in the slot: no object is made or lost, arrays keep
    their lengths and all other elements; a dictionary keeps the places and the values of all other
    entries, and a new key goes last. -/
structure Stored (h : Heap) (slot : Slot) (v : Value) (h' : Heap) : Prop where
  objects : h'.arrays.size = h.arrays.size ∧ h'.dicts.size = h.dicts.size ∧
    h'.optionals = h.optionals
  lengths : ∀ ref, (h'.items ref).size = (h.items ref).size
  items : ∀ ref (k : Nat), (h'.items ref)[k]? =
    if slot = .item ref k then some v else (h.items ref)[k]?
  values : ∀ ref key, (h'.table ref).get? key =
    if slot = .key ref key then some v else (h.table ref).get? key
  keys : ∀ ref key, slot = .key ref key → (h'.table ref).keys =
    if key ∈ (h.table ref).keys then (h.table ref).keys else (h.table ref).keys ++ [key]
  entries : ∀ ref key (i : Nat) a, slot ≠ .key ref key →
    ((h'.table ref).entries[i]? = some (key, a) ↔ (h.table ref).entries[i]? = some (key, a))
  elsewhere : ∀ ref, (∀ key, slot ≠ .key ref key) → h'.table ref = h.table ref

/-- An element that is set is set in its own array only. -/
theorem items_setItem (h : Heap) (ref other : ArrayRef) (k : Nat) (v : Value) :
    (h.setItem ref k v).items other =
      if ref = other then (h.items other).setIfInBounds k v else h.items other := by
  obtain ⟨i⟩ := ref
  obtain ⟨j⟩ := other
  unfold setItem Heap.items
  simp only [Array.getD_eq_getD_getElem?, Array.getElem?_modify, ArrayRef.mk.injEq]
  by_cases hij : i = j
  · subst hij
    simp only [if_true]
    -- an array that was never made is empty, and stays so
    cases h.arrays[i]? <;> simp
  · simp [hij]

/-- A key that is set is set in its own dictionary only. -/
theorem table_setKey (h : Heap) {ref : DictRef} (hlive : ref.index < h.dicts.size)
    (other : DictRef) (key : String) (v : Value) :
    (h.setKey ref key v).table other =
      if ref = other then (h.table other).set key v else h.table other := by
  obtain ⟨i⟩ := ref
  obtain ⟨j⟩ := other
  unfold setKey Heap.table
  simp only [Array.getD_eq_getD_getElem?, Array.getElem?_modify, DictRef.mk.injEq]
  by_cases hij : i = j
  · subst hij
    simp [Array.getElem?_eq_getElem hlive]
  · simp [hij]

/-- Setting an element of an array changes this slot. -/
theorem stored_setItem {ref : ArrayRef} {k : Nat} (hk : k < (h.items ref).size) (v : Value) :
    h.Stored (.item ref k) v (h.setItem ref k v) where
  objects := by simp [setItem]
  lengths other := by
    rw [items_setItem]
    split <;> simp
  items other j := by
    rw [items_setItem]
    -- in another array, at another element, or in the slot itself
    by_cases href : ref = other
    · subst href
      simp only [if_true, Array.getElem?_setIfInBounds, Slot.item.injEq, true_and]
      by_cases hj : k = j
      · subst hj
        simp [hk]
      · simp [hj]
    · simp [href]
  values other key := by simp [setItem, Heap.table]
  keys other key heq := by cases heq
  entries other key i a _ := Iff.rfl
  elsewhere other _ := rfl

/-- Setting a key of a dictionary changes this slot. -/
theorem stored_setKey {ref : DictRef} (hlive : ref.index < h.dicts.size) (key : String)
    (v : Value) : h.Stored (.key ref key) v (h.setKey ref key v) where
  objects := by simp [setKey]
  lengths other := rfl
  items other k := by simp [setKey, Heap.items]
  values other name := by
    rw [table_setKey h hlive]
    by_cases href : ref = other
    · subst href
      simp only [if_true, OrderedMap.get?_set, Slot.key.injEq, true_and, eq_comm]
    · simp [href]
  keys other name heq := by
    cases heq
    rw [table_setKey h hlive, if_pos rfl, OrderedMap.keys_set]
  entries other name i a hne := by
    -- an entry under another key stays where it is
    rw [table_setKey h hlive]
    split
    · rename_i href
      subst href
      refine OrderedMap.entries_set_iff _ key v i (fun hname => hne ?_) a
      rw [hname]
    · exact Iff.rfl
  elsewhere other hne := by
    rw [table_setKey h hlive, if_neg]
    rintro rfl
    exact hne key rfl

/-! ## §3. Stores -/

/-- **A store succeeds exactly where the index means a slot**, and writes there. -/
theorem storeIndex_eq_ok_iff (h : Heap) (v target index : Value) (h' : Heap) :
    h.storeIndex v target index = .ok h' ↔
      ∃ slot, h.Denotes target index slot ∧ h' = h.write v slot := by
  -- optionals are passed through down to the container
  induction target with
  | array ref =>
    cases index with
    | int i =>
      simp only [storeIndex, denotes_array_iff]
      -- an array: the index has to have a position
      cases hk : position? i (h.items ref).size with
      | none => simp [hk]
      | some k =>
        constructor
        · intro hstore
          cases hstore
          exact ⟨_, ⟨i, k, rfl, rfl, hk⟩, rfl⟩
        · rintro ⟨_, ⟨_, _, hi, rfl, hk'⟩, rfl⟩
          cases hi
          rw [hk] at hk'
          cases hk'
          rfl
    | _ => simp [storeIndex, denotes_array_iff]
  | dict ref =>
    cases index with
    | string key =>
      simp only [storeIndex, denotes_dict_iff, Except.ok.injEq]
      constructor
      · rintro rfl
        exact ⟨_, ⟨key, rfl, rfl⟩, rfl⟩
      · rintro ⟨_, ⟨_, hkey, rfl⟩, rfl⟩
        cases hkey
        rfl
    | _ => simp [storeIndex, denotes_dict_iff]
  | just identity content ih => simpa only [storeIndex, denotes_just_iff] using ih
  | _ =>
    constructor
    · intro hstore
      cases hstore
    · rintro ⟨slot, hd, -⟩
      cases hd

/-- The dictionary of a slot on a value that has been made has been made too. -/
theorem Denotes.stored_write {target index : Value} (hd : h.Denotes target index slot)
    (hmade : target.Made h) (v : Value) : h.Stored slot v (h.write v slot) := by
  induction hd with
  | item hk _ => exact stored_setItem hk v
  | key => exact stored_setKey hmade _ v
  | just _ ih => exact ih hmade.2

/-- A store at a member succeeds exactly on a dictionary, and writes the entry of that name. -/
theorem storeMember_eq_ok_iff (h : Heap) (target : Value) (name : String) (v : Value) (h' : Heap) :
    h.storeMember target name v = .ok h' ↔
      ∃ ref, target = .dict ref ∧ h' = h.write v (.key ref name) := by
  unfold storeMember
  split
  · rename_i ref
    simp [write, eq_comm]
  · rename_i hdict
    constructor
    · intro hstore
      cases hstore
    · rintro ⟨ref, rfl, -⟩
      exact (hdict ref rfl).elim

/-! ## §4. Reading after a store -/

namespace Stored

variable (hs : h.Stored slot v h')

include hs

/-- **Where the index means the slot, the stored value is read**, whatever value it is read from. -/
theorem index_hit {via index : Value} (hd : h.Denotes via index slot) :
    h'.index via index = .ok v := by
  induction via with
  | array ref =>
    obtain ⟨i, k, rfl, rfl, hk⟩ := denotes_array_iff.mp hd
    simp [Heap.index, hs.lengths ref, hk, hs.items ref k]
  | dict ref =>
    obtain ⟨key, rfl, rfl⟩ := denotes_dict_iff.mp hd
    simp [Heap.index, hs.values ref key]
  | just identity content ih => exact ih (denotes_just_iff.mp hd)
  | _ => cases hd

/-- **Where the index means no slot or another one, the same is read as before.** -/
theorem index_miss {via index : Value} (hd : ¬ h.Denotes via index slot) :
    h'.index via index = h.index via index := by
  induction via with
  | array ref =>
    cases index with
    | int i =>
      simp only [Heap.index, hs.lengths ref]
      cases hk : position? i (h.items ref).size with
      | none => rfl
      | some k =>
        -- the position of this index is not the slot that changed
        have hne : slot ≠ .item ref k := fun heq =>
          hd (denotes_array_iff.mpr ⟨i, k, rfl, heq, hk⟩)
        simp only [Option.bind_some, hs.items ref k, if_neg hne]
    | _ => rfl
  | dict ref =>
    cases index with
    | string key =>
      have hne : slot ≠ .key ref key := fun heq => hd (denotes_dict_iff.mpr ⟨key, rfl, heq⟩)
      simp only [Heap.index, hs.values ref key, if_neg hne]
    | _ => rfl
  | just identity content ih => exact ih fun hcontent => hd (.just hcontent)
  | _ => cases index <;> rfl

/-- The entry that was set is read as a member. -/
theorem keyMember_hit {ref : DictRef} {name : String} (hslot : slot = .key ref name) :
    h'.keyMember (.dict ref) name = .ok v := by
  simp [keyMember, hs.values ref name, hslot]

/-- Every other entry is read as before. -/
theorem keyMember_miss {via : Value} {name : String}
    (hslot : ∀ ref, via = .dict ref → slot ≠ .key ref name) :
    h'.keyMember via name = h.keyMember via name := by
  unfold keyMember
  split
  · rename_i ref
    rw [hs.values ref name, if_neg (hslot ref rfl)]
  · rfl

end Stored

/-- A member that is not `length` is the value under its name. -/
theorem member_eq_keyMember {name : String} (hname : name ≠ "length") (h : Heap) (target : Value) :
    h.member target name = h.keyMember target name := by
  simp [member, hname]

end Heap

/-- A change of the heap that is refused leaves the state as it was. -/
theorem Eval.changeHeap_refused {f : Heap → Except Error Heap} {s : State} {e : Error}
    (hf : f s.heap = .error e) : (Eval.changeHeap f).run s = some (.error e, s) := by
  show ((Eval.ofExcept (f s.heap) >>= fun heap => modify fun s => { s with heap } :
    Eval Unit)).run s = _
  rw [hf]
  rfl

/-- **Stores read back.**  A store at an index succeeds exactly on arrays, at an integer from `-n` up
    to `n`, and on dictionaries, at a string, with any optionals around them.  It then changes the
    slot that the index means and nothing else; every index that means this slot, on whatever value,
    reads what was stored, and every other one reads what it read before.  A store at a member
    succeeds exactly on a dictionary itself and changes the entry of that name in the same way; a
    name other than `length` is read alike as a member and as an index.  A store that fails leaves
    the state as it was. -/
theorem stores_read_back (h : Heap) (v target : Value) (hmade : target.Made h) :
    (∀ index,
      ((∃ h', h.storeIndex v target index = .ok h') ↔
        (∃ ref i, target.innermost = .array ref ∧ index = .int i ∧
          -((h.items ref).size : Int) ≤ i.toInt ∧ i.toInt < (h.items ref).size) ∨
        (∃ ref key, target.innermost = .dict ref ∧ index = .string key)) ∧
      (∀ h', h.storeIndex v target index = .ok h' →
        ∃ slot, h.Denotes target index slot ∧ h.Stored slot v h' ∧
          (∀ via i, h.Denotes via i slot → h'.index via i = .ok v) ∧
          (∀ via i, ¬ h.Denotes via i slot → h'.index via i = h.index via i)) ∧
      (∀ e s, s.heap = h → h.storeIndex v target index = .error e →
        (Eval.changeHeap fun h => h.storeIndex v target index).run s = some (.error e, s))) ∧
    (∀ name,
      ((∃ h', h.storeMember target name v = .ok h') ↔ ∃ ref, target = .dict ref) ∧
      (∀ h', h.storeMember target name v = .ok h' →
        ∃ ref, target = .dict ref ∧ h.Stored (.key ref name) v h' ∧
          (name ≠ "length" → h'.member (.dict ref) name = .ok v) ∧
          (∀ via other, other ≠ "length" → ¬ (via = .dict ref ∧ other = name) →
            h'.member via other = h.member via other) ∧
          (∀ other dict, other ≠ "length" →
            h'.member (.dict dict) other = h'.index (.dict dict) (.string other))) ∧
      (∀ e s, s.heap = h → h.storeMember target name v = .error e →
        (Eval.changeHeap fun h => h.storeMember target name v).run s = some (.error e, s))) := by
  constructor
  · intro index
    refine ⟨?_, ?_, ?_⟩
    -- when a store succeeds
    · rw [← Heap.denotes_some_iff]
      simp only [Heap.storeIndex_eq_ok_iff]
      exact ⟨fun ⟨_, slot, hd, _⟩ => ⟨slot, hd⟩, fun ⟨slot, hd⟩ => ⟨_, slot, hd, rfl⟩⟩
    · intro h' hstore
      -- what it changes, and what is read after it
      obtain ⟨slot, hd, rfl⟩ := (h.storeIndex_eq_ok_iff v target index h').mp hstore
      have hs := hd.stored_write hmade v
      exact ⟨slot, hd, hs, fun _ _ => hs.index_hit, fun _ _ => hs.index_miss⟩
    · rintro e s rfl hrefused
      exact Eval.changeHeap_refused hrefused
  · intro name
    refine ⟨?_, ?_, ?_⟩
    · simp only [Heap.storeMember_eq_ok_iff]
      exact ⟨fun ⟨_, ref, href, _⟩ => ⟨ref, href⟩, fun ⟨ref, href⟩ => ⟨_, ref, href, rfl⟩⟩
    · intro h' hstore
      obtain ⟨ref, rfl, rfl⟩ := (h.storeMember_eq_ok_iff target name v h').mp hstore
      have hs : h.Stored (.key ref name) v (h.write v (.key ref name)) :=
        Heap.stored_setKey hmade name v
      refine ⟨ref, rfl, hs, ?_, ?_, ?_⟩
      -- a member that was stored, another one, and members against indices
      · intro hname
        rw [Heap.member_eq_keyMember hname]
        exact hs.keyMember_hit rfl
      · intro via other hother hmiss
        rw [Heap.member_eq_keyMember hother, Heap.member_eq_keyMember hother]
        refine hs.keyMember_miss fun dict hvia hslot => hmiss ?_
        cases hslot
        exact ⟨hvia, rfl⟩
      · intro other dict hother
        rw [Heap.member_eq_keyMember hother]
        rfl
    · rintro e s rfl hrefused
      exact Eval.changeHeap_refused hrefused

/-- In an array that holds itself, a store at `-1` through two optionals is read at `2` and leaves
    `1` as it was; in a dictionary, a new member is read as an index. -/
theorem stores_read_back_shared :
    ∃ h : Heap, ∃ target dict : Value, (target.Made h ∧ dict.Made h) ∧
      (∃ h', h.storeIndex (.int 7) target (.int (-1)) = .ok h' ∧
        h'.index (.array ⟨0⟩) (.int 2) = .ok (.int 7) ∧
        h'.index (.array ⟨0⟩) (.int 1) = .ok (.int 5)) ∧
      (∃ h', h.storeMember dict "b" (.int 7) = .ok h' ∧
        h'.index dict (.string "b") = .ok (.int 7) ∧
        h'.member dict "a" = .ok (.int 1)) := by
  let h : Heap :=
    { arrays := #[#[.int 1, .int 5, .array ⟨0⟩]], dicts := #[.ofList [("a", .int 1)]],
      optionals := 2 }
  have htarget : Value.Made h (.just ⟨1⟩ (.just ⟨0⟩ (.array ⟨0⟩))) := by
    simp [Value.Made, h]
  have hdict : Value.Made h (.dict ⟨0⟩) := by simp [Value.Made, h]
  refine ⟨h, _, _, ⟨htarget, hdict⟩, ?_, ?_⟩
  · obtain ⟨hok, hstored, -⟩ := (stores_read_back h (.int 7) _ htarget).1 (.int (-1))
    obtain ⟨h', hstore⟩ := hok.mpr (.inl ⟨⟨0⟩, -1, rfl, rfl, by decide, by decide⟩)
    obtain ⟨slot, hd, -, hhit, hmiss⟩ := hstored h' hstore
    obtain rfl : slot = .item ⟨0⟩ 2 := by
      obtain ⟨i, k, hi, rfl, hk⟩ :=
        Heap.denotes_array_iff.mp (Heap.denotes_just_iff.mp (Heap.denotes_just_iff.mp hd))
      cases hi
      have h2 : position? (-1) (h.items ⟨0⟩).size = some 2 := by decide
      rw [h2] at hk
      cases hk
      rfl
    refine ⟨h', hstore, hhit _ _ (.item (by decide) (by decide)), ?_⟩
    rw [hmiss _ _ fun hd => ?_]
    · rfl
    · cases hd with
      | item _ hi => revert hi; decide
  · obtain ⟨hok, hstored, -⟩ := (stores_read_back h (.int 7) _ hdict).2 "b"
    obtain ⟨h', hstore⟩ := hok.mpr ⟨⟨0⟩, rfl⟩
    obtain ⟨ref, href, -, hhit, hmiss, hagree⟩ := hstored h' hstore
    cases href
    refine ⟨h', hstore, ?_, ?_⟩
    · rw [← hagree "b" ⟨0⟩ (by decide)]
      exact hhit (by decide)
    · rw [hmiss (.dict ⟨0⟩) "a" (by decide) fun hboth => absurd hboth.2 (by decide)]
      rfl

end Scriptlet
