/-
  Scriptlet.OrderedMap — maps from names to values that remember the order of first insertion.

  Setting a name that is present replaces its value in place; a new name goes last.  The map serves
  as the dictionary of the script language and, where only look-up matters, as the table of
  bindings, functions and tools.
-/
namespace Scriptlet

/-- A map from names, its entries in the order in which the names were first set. -/
structure OrderedMap (α : Type) where
  entries : List (String × α) := []
  deriving Repr

namespace OrderedMap

variable {α : Type}

/-- The map without entries. -/
def empty : OrderedMap α := ⟨[]⟩

instance : Inhabited (OrderedMap α) := ⟨empty⟩

/-- Number of entries. -/
def size (m : OrderedMap α) : Nat := m.entries.length

/-- Whether there is no entry. -/
def isEmpty (m : OrderedMap α) : Bool := m.entries.isEmpty

/-- The names in order. -/
def keys (m : OrderedMap α) : List String := m.entries.map Prod.fst

/-- The value under a name. -/
def get? (m : OrderedMap α) (key : String) : Option α := m.entries.lookup key

/-- Whether the name has an entry. -/
def contains (m : OrderedMap α) (key : String) : Bool := (m.get? key).isSome

/-- Replaces the value under the name in place, or puts a new entry last. -/
def setEntry (key : String) (value : α) : List (String × α) → List (String × α)
  | [] => [(key, value)]
  | (k, v) :: rest => if k = key then (k, value) :: rest else (k, v) :: setEntry key value rest

/-- The map with the name set to the value. -/
def set (m : OrderedMap α) (key : String) (value : α) : OrderedMap α :=
  ⟨setEntry key value m.entries⟩

/-- The map that arises from setting the pairs one after the other. -/
def ofList (pairs : List (String × α)) : OrderedMap α :=
  pairs.foldl (fun m p => m.set p.1 p.2) empty

/-! ## Reading after setting -/

@[simp]
theorem get?_empty (key : String) : (empty : OrderedMap α).get? key = none := rfl

theorem lookup_setEntry (key name : String) (value : α) (entries : List (String × α)) :
    (setEntry key value entries).lookup name =
      if name = key then some value else entries.lookup name := by
  induction entries with
  | nil =>
    by_cases h : name = key
    · simp [setEntry, h]
    · have hb : (name == key) = false := by simpa using h
      simp [setEntry, List.lookup_cons, hb, h]
  | cons entry rest ih =>
    obtain ⟨k, v⟩ := entry
    by_cases hn : name = k
    · subst hn
      by_cases hk : name = key <;> simp [setEntry, hk]
    · have hb : (name == k) = false := by simpa using hn
      by_cases hk : k = key
      · subst hk
        simp [setEntry, List.lookup_cons, hb, hn]
      · simp [setEntry, List.lookup_cons, hb, hk, ih]

/-- What was set is read back, and no other name is touched. -/
theorem get?_set (m : OrderedMap α) (key name : String) (value : α) :
    (m.set key value).get? name = if name = key then some value else m.get? name :=
  lookup_setEntry key name value m.entries

/-- A name has an entry if it is among the names. -/
theorem contains_iff (m : OrderedMap α) (key : String) :
    m.contains key = true ↔ key ∈ m.keys := by
  unfold contains get? keys
  simp only [List.lookup_isSome_iff, beq_iff_eq, List.mem_map]
  exact exists_congr fun entry => and_congr_right fun _ => eq_comm

/-- A new name goes last. -/
theorem setEntry_new {entries : List (String × α)} {key : String}
    (hnew : key ∉ entries.map Prod.fst) (a : α) :
    setEntry key a entries = entries ++ [(key, a)] := by
  induction entries with
  | nil => rfl
  | cons entry rest ih =>
    obtain ⟨k, b⟩ := entry
    have hne : k ≠ key := fun h => hnew (h ▸ List.mem_cons_self)
    have hrest : key ∉ rest.map Prod.fst := fun h => hnew (List.mem_cons_of_mem k h)
    rw [setEntry, if_neg hne, ih hrest]
    rfl

end OrderedMap

end Scriptlet
