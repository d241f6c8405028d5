/-
  Scriptlet.Value.Access — elements, keys, members and methods of values.

  An index below zero counts from the end.  Reading outside an array gives `nil`, outside a string it
  is an error; writing outside an array is an error.  Indexing reaches through optionals.
-/
import Scriptlet.Value.Render

namespace Scriptlet

/-- The position that an index means in a sequence of this length. -/
def position? (index : Int64) (length : Nat) : Option Nat :=
  let i := if index.toInt < 0 then index.toInt + length else index.toInt
  if 0 ≤ i ∧ i < length then some i.toNat else none

namespace Heap

/-! ## §1. Indices -/

/-- The value at an index. -/
def index (h : Heap) : Value → Value → Except Error Value
  | .array ref, .int i =>
    let items := h.items ref
    .ok (((position? i items.size).bind (items[·]?)).getD .nil)
  | .string s, .int i =>
    match (position? i s.length).bind (s.toList[·]?) with
    | some c => .ok (.string c.toString)
    | none => .error (.indexOutOfBounds i s.length)
  | .dict ref, .string key => .ok (((h.table ref).get? key).getD .nil)
  | .nothing _, _ => .ok .nil
  | .just _ content, i => h.index content i
  | .array _, i => .error (.wrongKind "int index" i.kind)
  | .string _, i => .error (.wrongKind "int index" i.kind)
  | .dict _, i => .error (.wrongKind "string key" i.kind)
  | v, _ => .error (.notIndexable v.kind)

/-- Stores a value at an index. -/
def storeIndex (h : Heap) (v : Value) : Value → Value → Except Error Heap
  | .array ref, .int i =>
    let length := (h.items ref).size
    match position? i length with
    | some k => .ok (h.setItem ref k v)
    | none => .error (.indexOutOfBounds i length)
  | .dict ref, .string key => .ok (h.setKey ref key v)
  | .nothing _, _ => .error (.notIndexable .nil)
  | .just _ content, i => h.storeIndex v content i
  | .array _, i => .error (.wrongKind "int index" i.kind)
  | .dict _, i => .error (.wrongKind "string key" i.kind)
  | target, _ => .error (.notIndexable target.kind)

/-! ## §2. Members and methods -/

/-- The member of a dictionary: the value under its name. -/
def keyMember (h : Heap) (target : Value) (name : String) : Except Error Value :=
  match target with
  | .dict ref => .ok (((h.table ref).get? name).getD .nil)
  | v => .error (.unsupportedMember name v.kind)

/-- A member: `length` of what has one, else the value under a key. -/
def member (h : Heap) (target : Value) (name : String) : Except Error Value :=
  if name == "length" then
    match h.length? target with
    | some n => .ok (.int (Int64.ofNat n))
    | none => h.keyMember target name
  else h.keyMember target name

/-- Stores a value under a key of a dictionary. -/
def storeMember (h : Heap) (target : Value) (name : String) (v : Value) : Except Error Heap :=
  match target with
  | .dict ref => .ok (h.setKey ref name v)
  | t => .error (.unsupportedMember name t.kind)

/-- Calls a method: `append(item)` on arrays, `toString()` on all values. -/
def callMethod (h : Heap) (target : Value) (name : String) (args : List Value) :
    Except Error (Value × Heap) :=
  match name, args with
  | "append", [item] => (h.append target item).map fun h => (.nil, h)
  | "append", _ => .error (.wrongArity name (.exactly 1) args.length)
  | "toString", [] => .ok (.string (h.text target), h)
  | "toString", _ => .error (.wrongArity name (.exactly 0) args.length)
  | _, _ => .error (.unsupportedMember name target.kind)

end Heap

end Scriptlet
