/-
  Scriptlet.Value.Heap — the contents of arrays and dictionaries.

  References are handed out in order and never again, so two references are the same object exactly
  when they are equal.  A reference that was never handed out reads as an empty container, and
  writing through it changes nothing.
-/
import Scriptlet.OrderedMap
import Scriptlet.Value.Basic

namespace Scriptlet

/-- The contents of all arrays and dictionaries, and the count of optionals made so far. -/
structure Heap where
  arrays : Array (Array Value) := #[]
  dicts : Array (OrderedMap Value) := #[]
  optionals : Nat := 0
  deriving Inhabited

namespace Heap

/-- The heap before anything was made. -/
def empty : Heap := {}

/-! ## §1. Reading -/

/-- The elements of an array. -/
def items (h : Heap) (ref : ArrayRef) : Array Value := h.arrays.getD ref.index #[]

/-- The entries of a dictionary. -/
def table (h : Heap) (ref : DictRef) : OrderedMap Value := h.dicts.getD ref.index .empty

/-- The length of a string, array or dictionary. -/
def length? (h : Heap) : Value → Option Nat
  | .string s => some s.length
  | .array ref => some (h.items ref).size
  | .dict ref => some (h.table ref).size
  | _ => none

/-! ## §2. Making -/

/-- A new array. -/
def newArray (h : Heap) (items : Array Value) : Value × Heap :=
  (.array ⟨h.arrays.size⟩, { h with arrays := h.arrays.push items })

/-- A new dictionary. -/
def newDict (h : Heap) (table : OrderedMap Value) : Value × Heap :=
  (.dict ⟨h.dicts.size⟩, { h with dicts := h.dicts.push table })

/-- A new optional without content. -/
def newNothing (h : Heap) : Value × Heap :=
  (.nothing ⟨h.optionals⟩, { h with optionals := h.optionals + 1 })

/-- A new optional with content. -/
def newJust (h : Heap) (content : Value) : Value × Heap :=
  (.just ⟨h.optionals⟩ content, { h with optionals := h.optionals + 1 })

/-! ## §3. Changing -/

/-- Puts a value in place of an element. -/
def setItem (h : Heap) (ref : ArrayRef) (i : Nat) (v : Value) : Heap :=
  { h with arrays := h.arrays.modify ref.index (·.setIfInBounds i v) }

/-- Puts a value after the last element. -/
def pushItem (h : Heap) (ref : ArrayRef) (v : Value) : Heap :=
  { h with arrays := h.arrays.modify ref.index (·.push v) }

/-- Sets a key to a value. -/
def setKey (h : Heap) (ref : DictRef) (key : String) (v : Value) : Heap :=
  { h with dicts := h.dicts.modify ref.index (·.set key v) }

/-- Appends to an array. -/
def append (h : Heap) (target item : Value) : Except Error Heap :=
  match target with
  | .array ref => .ok (h.pushItem ref item)
  | v => .error (.unsupportedMember "append" v.kind)

end Heap

/-- A computation that may make objects or fail; one that fails has made none. -/
abbrev Alloc := StateT Heap (Except Error)

/-- Makes an object. -/
def Alloc.make (new : Heap → Value × Heap) : Alloc Value := modifyGet new

end Scriptlet
