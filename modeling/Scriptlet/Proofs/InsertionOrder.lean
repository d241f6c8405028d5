/-
  Scriptlet.Proofs.InsertionOrder — what a map holds after a sequence of sets.

  A map keeps its entries in a list, and `set` walks that list: a name that it finds gets a new value
  in its place, a name that it does not find gets a new entry at the end.  So the list never holds a
  name twice, and it is determined by the sets alone: each name stands where it was first set, with
  the value that was last set under it.

  Main results:
    * `OrderedMap.keys_set`, `OrderedMap.entries_set_iff` — one set: the names, and the other entries.
    * `OrderedMap.Records.set` — one set more on a map that records a sequence of sets.
    * `OrderedMap.Records.setAll` — any sequence of sets, and from the empty map
        `OrderedMap.records_ofList`.
-/
import Scriptlet.OrderedMap

namespace Scriptlet.OrderedMap

variable {α : Type}

/-! ## §1. One set -/

/-- The names after a set, entry by entry. -/
theorem setEntry_keys (key : String) (a : α) (entries : List (String × α)) :
    (setEntry key a entries).map Prod.fst =
      if key ∈ entries.map Prod.fst then entries.map Prod.fst
      else entries.map Prod.fst ++ [key] := by
  induction entries with
  | nil => simp [setEntry]
  | cons entry rest ih =>
    obtain ⟨k, b⟩ := entry
    by_cases hk : k = key
    · simp [setEntry, hk]
    · have hne : key ≠ k := fun h => hk h.symm
      simp only [setEntry, if_neg hk, List.map_cons, ih, List.mem_cons, hne, false_or]
      split <;> simp

/-- A name that is present keeps its place, and a new one goes last. -/
theorem keys_set (m : OrderedMap α) (key : String) (a : α) :
    (m.set key a).keys = if key ∈ m.keys then m.keys else m.keys ++ [key] :=
  setEntry_keys key a m.entries

/-- A set walks past every entry with another name. -/
theorem setEntry_getElem? (key : String) (a : α) (entries : List (String × α)) (i : Nat)
    {other : String} (hother : other ≠ key) (b : α) :
    (setEntry key a entries)[i]? = some (other, b) ↔ entries[i]? = some (other, b) := by
  have hne : key ≠ other := fun h => hother h.symm
  induction entries generalizing i with
  | nil => cases i <;> simp [setEntry, hne]
  | cons entry rest ih =>
    obtain ⟨k, c⟩ := entry
    by_cases hk : k = key
    · -- the entry that is replaced is none of the other names, before and after
      subst hk
      cases i <;> simp [setEntry, hne]
    · simp only [setEntry, if_neg hk]
      cases i with
      | zero => simp
      | succ i => simpa using ih i

/-- **A set changes neither the place nor the value of any other entry**, and makes none. -/
theorem entries_set_iff (m : OrderedMap α) (key : String) (a : α) (i : Nat) {other : String}
    (hother : other ≠ key) (b : α) :
    (m.set key a).entries[i]? = some (other, b) ↔ m.entries[i]? = some (other, b) :=
  setEntry_getElem? key a m.entries i hother b

/-- A set never makes a name occur twice. -/
theorem nodup_keys_set {m : OrderedMap α} (h : m.keys.Nodup) (key : String) (a : α) :
    (m.set key a).keys.Nodup := by
  rw [keys_set]
  split
  · exact h
  · rename_i hnew
    rw [List.nodup_append]
    refine ⟨h, by simp, ?_⟩
    intro k hk k' hk' heq
    rw [List.mem_singleton] at hk'
    exact hnew (hk' ▸ heq ▸ hk)

/-! ## §2. Sequences of sets -/

/-- The map is what a sequence of sets leaves: each name once, in the order of the first sets, with
    the value of the last set under it. -/
structure Records (m : OrderedMap α) (sets : List (String × α)) : Prop where
  /-- No name is there twice. -/
  distinct : m.keys.Nodup
  /-- The names stand in the order in which they were first set. -/
  order : m.keys = (sets.map Prod.fst).eraseDups
  /-- There are as many entries as names that were set. -/
  count : m.size = (sets.map Prod.fst).eraseDups.length
  /-- A name has the value that was last set under it, and none if it never was set. -/
  latest : ∀ key, m.get? key = sets.reverse.lookup key

theorem size_eq_length_keys (m : OrderedMap α) : m.size = m.keys.length := by
  simp [size, keys]

/-- The map without entries records that nothing was set. -/
theorem records_empty : (empty : OrderedMap α).Records [] where
  distinct := List.nodup_nil
  order := rfl
  count := rfl
  latest _ := rfl

/-- **One set more.** -/
theorem Records.set {m : OrderedMap α} {sets : List (String × α)} (h : m.Records sets)
    (key : String) (a : α) : (m.set key a).Records (sets ++ [(key, a)]) := by
  have hnames : (sets ++ [(key, a)]).map Prod.fst = sets.map Prod.fst ++ [key] := by simp
  -- the names of the sequence are those of the map, so both ask whether this one is new
  have horder : (m.set key a).keys = ((sets ++ [(key, a)]).map Prod.fst).eraseDups := by
    rw [keys_set, hnames, List.eraseDups_append, ← h.order]
    have hmem : key ∈ m.keys ↔ key ∈ sets.map Prod.fst := by rw [h.order, List.mem_eraseDups]
    by_cases hold : key ∈ sets.map Prod.fst
    · rw [if_pos (hmem.mpr hold), List.cons_removeAll]
      simp [hold]
    · rw [if_neg (fun hk => hold (hmem.mp hk)), List.cons_removeAll]
      simp [hold, List.eraseDups_cons]
  refine ⟨nodup_keys_set h.distinct key a, horder, ?_, ?_⟩
  · rw [size_eq_length_keys, horder]
  · intro name
    rw [get?_set, List.reverse_append, List.lookup_append, h.latest name]
    by_cases hname : name = key
    · simp [hname]
    · have hb : (name == key) = false := by simpa using hname
      simp [List.lookup_cons, hname, hb]

/-- Sets one after the other. -/
def setAll (m : OrderedMap α) (sets : List (String × α)) : OrderedMap α :=
  sets.foldl (fun m p => m.set p.1 p.2) m

/-- Two sequences of sets are one sequence. -/
theorem setAll_append (m : OrderedMap α) (first second : List (String × α)) :
    m.setAll (first ++ second) = (m.setAll first).setAll second :=
  List.foldl_append

/-- Sets behind a list are sets on the map of this list. -/
theorem ofList_append (first second : List (String × α)) :
    ofList (first ++ second) = (ofList first).setAll second :=
  setAll_append empty first second

/-- **Any sequence of sets more.** -/
theorem Records.setAll {m : OrderedMap α} {before : List (String × α)} (h : m.Records before)
    (sets : List (String × α)) : (m.setAll sets).Records (before ++ sets) := by
  induction sets generalizing m before with
  | nil => simpa [OrderedMap.setAll] using h
  | cons p rest ih =>
    have hrest := ih (h.set p.1 p.2)
    rw [List.append_assoc] at hrest
    exact hrest

/-- **Any sequence of sets**, from the map without entries. -/
theorem records_ofList (sets : List (String × α)) : (ofList sets).Records sets :=
  records_empty.setAll sets

end Scriptlet.OrderedMap
