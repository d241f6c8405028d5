/-
  Scriptlet.Tool.Basic — functions that a host offers to scripts.

  A tool gets the values of its arguments and may read and change the heap; it sees nothing else of a
  run.  Tools are kept by name, and one registered later replaces one of the same name.
-/
import Scriptlet.Value.Heap

namespace Scriptlet

/-- What running a tool gives: a value or an error, and the heap afterwards. -/
abbrev ToolRun := Heap → Except Error Value × Heap

/-- A function that a host offers to scripts. -/
structure Tool where
  /-- The name by which scripts call it. -/
  name : String
  /-- What it does. -/
  description : String
  /-- The number of arguments that is checked before a call; without it, the tool checks itself. -/
  arity : Option Nat
  /-- What a call does. -/
  run : List Value → ToolRun

/-- A computation that leaves the heap alone when it fails, as the run of a tool. -/
def ToolRun.ofAlloc (x : Alloc Value) : ToolRun := fun h =>
  match x h with
  | .ok (v, after) => (.ok v, after)
  | .error e => (.error e, h)

/-- The tools by name. -/
abbrev Toolbox := OrderedMap Tool

namespace Toolbox

/-- Adds a tool, in place of one of the same name. -/
def register (tools : Toolbox) (tool : Tool) : Toolbox := OrderedMap.set tools tool.name tool

/-- The names in ascending order. -/
def names (tools : Toolbox) : List String := (OrderedMap.keys tools).mergeSort

/-- Calls a tool by name, after a check of the number of arguments. -/
def call (tools : Toolbox) (name : String) (args : List Value) : ToolRun := fun h =>
  match OrderedMap.get? tools name with
  | none => (.error (.undefinedFunction name), h)
  | some tool =>
    match tool.arity with
    | none => tool.run args h
    | some n =>
      if args.length = n then tool.run args h
      else (.error (.wrongArity name (.exactly n) args.length), h)

end Toolbox

end Scriptlet
