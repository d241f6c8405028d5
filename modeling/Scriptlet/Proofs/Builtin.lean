/-
  Scriptlet.Proofs.Builtin — the builtins obey every discipline.

  Five of the six builtins give plain data and leave the heap alone; `range` makes one new array, of
  plain data.  So a host that offers only the builtins, without modules, need not be asked anything.

  Main result:
    * `Host.Obeys.builtin` — such a host obeys every discipline on every heap.
-/
import Scriptlet.Proofs.Effect

namespace Scriptlet

/-! ## §1. Tools -/

/-- On this heap the tool makes an allowed change and gives a good value or an allowed error. -/
def ToolRun.Obeys (D : Discipline) (h : Heap) (run : ToolRun) : Prop :=
  D.Change h (run h).2 ∧ D.Outcome D.value (run h).2 (run h).1

/-- A tool that is an allocation obeys if the allocation does. -/
theorem ToolRun.ofAlloc_obeys {D : Discipline} {h : Heap} (hs : h.Sound D) {x : Alloc Value}
    (hx : Alloc.Obeys D h x D.value) : ToolRun.Obeys D h (ToolRun.ofAlloc x) := by
  unfold ToolRun.Obeys ToolRun.ofAlloc
  cases hr : x h with
  | ok p => exact hx.ok hr
  | error e => exact ⟨.refl hs, hx.error hr⟩

/-- A call of a registered tool obeys if the tool does; any other call is refused. -/
theorem Toolbox.call_obeys {D : Discipline} {h : Heap} (hs : h.Sound D) (tools : Toolbox)
    (name : String) (args : List Value)
    (ht : ∀ tool, OrderedMap.get? tools name = some tool → ToolRun.Obeys D h (tool.run args)) :
    ToolRun.Obeys D h (tools.call name args) := by
  -- a refusal leaves the heap alone, and its error is recoverable
  have hrefused : ∀ e : Error, e.severity = .recoverable →
      ToolRun.Obeys D h fun h => (.error e, h) := fun e he => ⟨.refl hs, D.recoverable he⟩
  unfold ToolRun.Obeys Toolbox.call
  cases hget : OrderedMap.get? tools name with
  | none => exact hrefused (.undefinedFunction name) rfl
  | some tool =>
    -- the arity is checked in front of the tool itself
    cases hn : tool.arity with
    | none =>
      simp only [hn]
      exact ht tool hget
    | some n =>
      simp only [hn]
      split
      · exact ht tool hget
      · exact hrefused (.wrongArity name (.exactly n) args.length) rfl

namespace Builtin

variable {D : Discipline} {h : Heap}

/-! ## §2. The builtins one by one -/

/-- A bound of a range that is refused is refused with a recoverable error. -/
theorem bound_outcome (v : Value) (h : Heap) : D.Outcome (fun _ _ => True) h (bound v) := by
  unfold bound
  split
  · trivial
  · exact D.recoverable rfl

/-- So are the bounds of a range as a whole, their number included. -/
theorem rangeBounds_outcome (args : List Value) (h : Heap) :
    D.Outcome (fun _ _ => True) h (rangeBounds args) := by
  unfold rangeBounds
  split
  · exact (bound_outcome _ h).bind fun _ _ => trivial
  · exact (bound_outcome _ h).bind fun _ _ => (bound_outcome _ h).bind fun _ _ => trivial
  · exact D.recoverable rfl

/-- The one builtin that allocates: its array holds integers only. -/
theorem range_obeys (hs : h.Sound D) (args : List Value) :
    ToolRun.Obeys D h (range.run args) := by
  refine ToolRun.ofAlloc_obeys hs ?_
  refine (Alloc.Obeys.lift hs (rangeBounds_outcome args h)).bind fun h' ends hc _ => ?_
  exact Progression.toArray_obeys hc.sound _ _ _

/-- A builtin that gives plain data obeys. -/
theorem unary_obeys (hs : h.Sound D) (name description : String)
    {run : Heap → Value → Except Error Value} (hrun : ∀ h v, PlainResult (run h v))
    (args : List Value) : ToolRun.Obeys D h ((unary name description run).run args) := by
  refine ToolRun.ofAlloc_obeys hs ?_
  cases args with
  | nil => exact .throw rfl
  | cons v rest =>
    -- arguments beyond the first are not looked at; calls are refused them before
    show Alloc.Obeys D h (liftM (run h v)) D.value
    exact .lift hs ((hrun h v).outcome h)

theorem string_plain (text : String) : PlainResult (.ok (.string text)) :=
  rfl

/-- The conversion to an integer gives plain data or a recoverable error. -/
theorem toInt_plain (v : Value) : PlainResult (toInt v) := by
  unfold toInt
  split
  case h_5 => split <;> rfl
  all_goals rfl

/-- So does the conversion to a floating-point number. -/
theorem toDouble_plain (v : Value) : PlainResult (toDouble v) := by
  unfold toDouble
  split
  case h_4 => split <;> rfl
  all_goals rfl

/-- A length is plain data, and asking for one where there is none is a recoverable error. -/
theorem length_plain (h : Heap) (v : Value) :
    PlainResult
      (match h.length? v with
        | some n => .ok (.int (Int64.ofNat n))
        | none => .error (.invalidArguments "len" (v.kind.name ++ " has no length"))) := by
  split <;> rfl

/-! ## §3. All builtins -/

/-- What is registered is one of the six. -/
theorem mem_of_toolbox {name : String} {tool : Tool}
    (ht : OrderedMap.get? toolbox name = some tool) :
    tool ∈ [range, len, type, str, int, float] := by
  simp only [toolbox, List.foldl_cons, List.foldl_nil, Toolbox.register, OrderedMap.get?_set,
    OrderedMap.get?_empty] at ht
  simp only [List.mem_cons, List.not_mem_nil, or_false]
  grind

/-- Every builtin obeys. -/
theorem registered_obeys (hs : h.Sound D) {name : String} {tool : Tool}
    (ht : OrderedMap.get? toolbox name = some tool) (args : List Value) :
    ToolRun.Obeys D h (tool.run args) := by
  have hmem := mem_of_toolbox ht
  simp only [List.mem_cons, List.not_mem_nil, or_false] at hmem
  rcases hmem with rfl | rfl | rfl | rfl | rfl | rfl
  · exact range_obeys hs args
  · exact unary_obeys hs _ _ length_plain args
  · exact unary_obeys hs _ _ (fun _ v => string_plain v.kind.name) args
  · exact unary_obeys hs _ _ (fun h v => string_plain (h.text v)) args
  · exact unary_obeys hs _ _ (fun _ v => toInt_plain v) args
  · exact unary_obeys hs _ _ (fun _ v => toDouble_plain v) args

/-- Every call of a builtin obeys, also one by a wrong name or with too many arguments. -/
theorem toolbox_obeys (hs : h.Sound D) (name : String) (args : List Value) :
    ToolRun.Obeys D h (toolbox.call name args) :=
  Toolbox.call_obeys hs toolbox name args fun _ ht => registered_obeys hs ht args

end Builtin

/-- **A host with the builtins alone obeys every discipline.** -/
theorem Host.Obeys.builtin (settings : Settings) (D : Discipline) (h : Heap) :
    Host.Obeys { settings } D h where
  exports _ _ hv := nomatch hv
  refusals _ _ he := nomatch he
  tools name args _ _ hs _ := Builtin.toolbox_obeys hs name args

end Scriptlet
