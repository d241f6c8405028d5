/-
  Scriptlet.Proofs.LoopHeads — calls in the head of a `for`.

  A name that is called is looked up among the functions of the script, then among the tools, then
  among the exports of modules.  The head of a `for` makes the choice again: it takes `range` for the
  builtin as soon as the script has no function of that name, without asking the tools.

  Both choices are stated here as functions to the definition that is run.  They differ for `range`
  alone, and there exactly where the host has put another tool in place of the builtin, or has taken
  it away; everywhere else a loop visits the elements of the array that the call evaluates to.
-/
import Scriptlet.Proofs.Ranges
import Scriptlet.Proofs.Simulation

namespace Scriptlet

/-! ## §1. The definition that a call runs -/

/-- What can stand behind a name that is called. -/
inductive Definition where
  /-- A function of the script or of a module. -/
  | function (f : Func)
  /-- A tool of the host. -/
  | tool (t : Tool)

/-- The definition that a call of a name runs: a function of the script, else a tool, else a module's
    function. -/
def Host.selects (host : Host) (functions : OrderedMap Func) (name : String) :
    Except Error Definition :=
  match functions.get? name with
  | some f => .ok (.function f)
  | none =>
    match OrderedMap.get? host.tools name with
    | some t => .ok (.tool t)
    | none =>
      match host.resolver name with
      | .ok (some (.function f)) => .ok (.function f)
      | .ok (some (.value _)) => .error (.moduleFailure name "exported value is not callable")
      | .ok none => .error (.undefinedFunction name)
      | .error e => .error e

/-- The definition that a call runs in the head of a `for`. -/
def Host.headSelects (host : Host) (functions : OrderedMap Func) (name : String) :
    Except Error Definition :=
  if Eval.countsUp functions name then .ok (.tool Builtin.range) else host.selects functions name

/-- A toolbox of one tool. -/
def Toolbox.only (name : String) (t : Tool) : Toolbox := OrderedMap.set .empty name t

/-- Calls a definition under a name. -/
def Definition.call (host : Host) (evaluate : Eval.Evaluate) (execute : Eval.Execute)
    (name : String) (args : List Expr) : Definition → Eval Value
  | .function f => Eval.callFunction host evaluate execute f args
  | .tool t => do
    Eval.callTool { host with tools := .only name t } name (← Eval.values evaluate args)

theorem Toolbox.get?_only (name : String) (t : Tool) :
    OrderedMap.get? (Toolbox.only name t) name = some t := by
  simp [Toolbox.only, OrderedMap.get?_set]

/-- Only what is registered under the name matters. -/
theorem Toolbox.call_eq_only {tools : Toolbox} {name : String} {t : Tool}
    (ht : OrderedMap.get? tools name = some t) :
    tools.call name = (Toolbox.only name t).call name := by
  funext args h
  unfold Toolbox.call
  rw [ht, Toolbox.get?_only]

theorem Eval.callTool_eq_only {host : Host} {name : String} {t : Tool}
    (ht : OrderedMap.get? host.tools name = some t) :
    Eval.callTool host name = Eval.callTool { host with tools := .only name t } name := by
  funext args
  unfold Eval.callTool
  rw [Toolbox.call_eq_only ht]

/-- **A call runs what is selected**, and fails where nothing is. -/
theorem Eval.call_eq_selected (host : Host) (evaluate : Evaluate) (execute : Execute)
    (name : String) (args : List Expr) (s : State) :
    Eval.call host evaluate execute name args s =
      (ofExcept (host.selects s.functions name) >>= fun d =>
        d.call host evaluate execute name args) s := by
  unfold Eval.call callee Host.selects
  simp only [bind_assoc]
  rw [get_ok]
  -- a function of the script comes first
  cases s.functions.get? name with
  | some f => rfl
  | none =>
    dsimp only
    -- then the tools of the host
    cases ht : OrderedMap.get? host.tools name with
    | some t =>
      have hcontains : OrderedMap.contains host.tools name = true := by
        simp [OrderedMap.contains, ht]
      rw [if_pos hcontains]
      show (values evaluate args >>= fun vs => callTool host name vs) s = _
      rw [callTool_eq_only ht]
      rfl
    | none =>
      have hcontains : ¬ OrderedMap.contains host.tools name = true := by
        simp [OrderedMap.contains, ht]
      rw [if_neg hcontains]
      -- and at last its modules
      cases host.resolver name with
      | error e => rfl
      | ok found =>
        cases found with
        | none => rfl
        | some symbol => cases symbol <;> rfl

/-- **The head of a `for` selects as calls do** unless it counts and the host has no builtin under
    the name. -/
theorem Host.headSelects_eq_iff (host : Host) (functions : OrderedMap Func) (name : String) :
    host.headSelects functions name = host.selects functions name ↔
      (Eval.countsUp functions name = true →
        OrderedMap.get? host.tools name = some Builtin.range) := by
  unfold headSelects
  by_cases hcounts : Eval.countsUp functions name = true
  · rw [if_pos hcounts]
    have hnone : functions.get? name = none := by
      simp only [Eval.countsUp, Bool.and_eq_true, Bool.not_eq_true'] at hcounts
      simpa [OrderedMap.contains] using hcounts.2
    unfold selects
    rw [hnone]
    dsimp only
    constructor
    · intro heq _
      cases ht : OrderedMap.get? host.tools name with
      | some t =>
        rw [ht] at heq
        cases heq
        rfl
      | none =>
        -- no export is a tool
        rw [ht] at heq
        dsimp only at heq
        split at heq <;> cases heq
    · intro hregistered
      rw [hregistered hcounts]
  · rw [if_neg hcounts]
    exact ⟨fun _ h => absurd h hcounts, fun _ => rfl⟩

/-! ## §2. What the loop visits -/

/-- The loop over `iterable` visits these values, from a state that differs from `t` at most in the
    array of them, which need not have been made. -/
def Expr.LoopVisits (host : Host) (fuel : Nat) (iterable : Expr) (s t : State)
    (items : List Value) : Prop :=
  ∃ u, (u = t ∨ t = { u with heap := (u.heap.newArray items.toArray).2 }) ∧
    ∀ execute name body,
      Eval.forIn (Expr.eval host fuel) execute name iterable body s =
        Eval.forEach execute name items body u

namespace Eval

variable {α β : Type} {s t : State}

/-- The builtin gives an array only where its arguments are bounds, and then it has made it. -/
theorem callTool_range_inv {host : Host} {name : String} {vs : List Value} {ref : ArrayRef}
    (h : callTool { host with tools := .only name Builtin.range } name vs s =
      some (.ok (.array ref), t)) :
    ∃ a b, Builtin.rangeBounds vs = .ok (a, b) ∧
      ref = ⟨s.heap.arrays.size⟩ ∧
      t = { s with heap := (s.heap.newArray (Progression.between a b false).toList.toArray).2 } := by
  have hcall := Toolbox.call_range (Toolbox.get?_only name Builtin.range) vs
  cases hbounds : Builtin.rangeBounds vs with
  | error e =>
    have hrun : (Toolbox.only name Builtin.range).call name vs =
        ToolRun.ofAlloc (fun _ => .error e) := by
      rw [hcall]
      show ToolRun.ofAlloc (liftM (Builtin.rangeBounds vs) >>= _) = _
      rw [hbounds]
      rfl
    rw [callTool_ofAlloc hrun, ofAlloc_error rfl] at h
    cases h
  | ok ends =>
    obtain ⟨a, b⟩ := ends
    have hrun : (Toolbox.only name Builtin.range).call name vs =
        ToolRun.ofAlloc (rangeCallArray a b) := by
      rw [hcall, Builtin.range_run hbounds]
    rw [callTool_ofAlloc hrun] at h
    -- an array has come of it, so the room was granted
    by_cases hroom : rangeCallRequest a b ≤ Progression.capacity
    · have hmade : rangeCallArray a b s.heap =
          .ok (s.heap.newArray (Progression.between a b false).toList.toArray) :=
        Progression.toArray_granted _ _ _ hroom
      rw [ofAlloc_ok hmade] at h
      cases h
      exact ⟨a, b, rfl, rfl, rfl⟩
    · have hrefused : rangeCallArray a b s.heap = .error (.outOfMemory (.rangeCall a b)) :=
        Progression.toArray_refused _ _ _ (Nat.lt_of_not_le hroom)
      rw [ofAlloc_error hrefused] at h
      cases h

end Eval

/-- A head that counts visits what the builtin would put into its array. -/
theorem Expr.loopVisits_counting {host : Host} {fuel : Nat} {name : String} {args : List Expr}
    {s t : State} {ref : ArrayRef} (hcounts : Eval.countsUp s.functions name = true)
    (hcall : (Definition.tool Builtin.range).call host (Expr.eval host fuel) (Block.exec host fuel)
      name args s = some (.ok (.array ref), t)) :
    (Expr.call name args).LoopVisits host (fuel + 1) s t (t.heap.items ref).toList := by
  obtain ⟨hname, hscript⟩ : name = "range" ∧ s.functions.contains name = false := by
    simpa [Eval.countsUp] using hcounts
  subst hname
  obtain ⟨vs, u, hvalues, htool⟩ := Eval.bind_ok_inv hcall
  obtain ⟨a, b, hbounds, rfl, rfl⟩ := Eval.callTool_range_inv htool
  -- the head has a unit of fuel more for the arguments than the call has
  have hvalues := Eval.values_mono (Nat.le_succ fuel) hvalues
  simp only [Heap.items_newArray]
  have hvisited := Eval.visited_range_call hscript hvalues hbounds
  exact ⟨u, .inr rfl, Eval.forIn_of_visited hvisited rfl⟩

/-- Any other head runs the definition that the call selects, whatever comes of it. -/
theorem Eval.visited_call_eq_selected {host : Host} {fuel : Nat} {name : String}
    {args : List Expr} {s : State} (hcounts : ¬ Eval.countsUp s.functions name = true) :
    Eval.visited (Expr.eval host (fuel + 1)) (.call name args) s =
      ((Eval.ofExcept (host.selects s.functions name) >>= fun d =>
        d.call host (Expr.eval host fuel) (Block.exec host fuel) name args) >>=
          Eval.sequenceOf) s := by
  have hcall := Eval.call_eq_selected host (Expr.eval host fuel) (Block.exec host fuel) name args s
  unfold Eval.visited
  dsimp only
  rw [Eval.get_ok, if_neg hcounts]
  exact Eval.bind_apply_congr hcall _

/-- Any other head evaluates the call, and visits the elements of its array. -/
theorem Expr.loopVisits_evaluated {host : Host} {fuel : Nat} {name : String} {args : List Expr}
    {s t : State} {ref : ArrayRef} (hcounts : ¬ Eval.countsUp s.functions name = true)
    (hcall : (Eval.ofExcept (host.selects s.functions name) >>= fun d =>
      d.call host (Expr.eval host fuel) (Block.exec host fuel) name args) s =
        some (.ok (.array ref), t)) :
    (Expr.call name args).LoopVisits host (fuel + 1) s t (t.heap.items ref).toList := by
  have hvisited : Eval.visited (Expr.eval host (fuel + 1)) (.call name args) s =
      some (.ok (.values (t.heap.items ref).toList), t) := by
    rw [Eval.visited_call_eq_selected hcounts, Eval.bind_ok hcall]
    rfl
  exact ⟨t, .inl rfl, Eval.forIn_of_visited hvisited rfl⟩

/-- **A loop visits what the selected definition gives**, where that is an array. -/
theorem Expr.loopVisits_headSelected {host : Host} {fuel : Nat} {name : String} {args : List Expr}
    {s t : State} {ref : ArrayRef}
    (hcall : (Eval.ofExcept (host.headSelects s.functions name) >>= fun d =>
      d.call host (Expr.eval host fuel) (Block.exec host fuel) name args) s =
        some (.ok (.array ref), t)) :
    (Expr.call name args).LoopVisits host (fuel + 1) s t (t.heap.items ref).toList := by
  unfold Host.headSelects at hcall
  by_cases hcounts : Eval.countsUp s.functions name = true
  · rw [if_pos hcounts] at hcall
    exact Expr.loopVisits_counting hcounts hcall
  · rw [if_neg hcounts] at hcall
    exact Expr.loopVisits_evaluated hcounts hcall

/-! ## §3. Heads and calls -/

/-- **Calls are resolved in one order, except where the head of a `for` counts.**  A call runs the
    definition that the script, the tools and the modules give for its name, in this order.  So does
    the head of a `for`, whatever comes of the call, unless the name is `range` and the script has no
    such function: then it runs the builtin, and it visits what that would put into its array.  The
    two choices are the same exactly where the tool of the name is then the builtin; and where they
    are, a loop over a call that evaluates to an array visits its elements in order. -/
theorem loop_heads_resolve_as_calls (host : Host) (fuel : Nat) (name : String) (args : List Expr)
    (s : State) :
    let run (choice : Except Error Definition) : Eval Value :=
      Eval.ofExcept choice >>= fun d =>
        d.call host (Expr.eval host fuel) (Block.exec host fuel) name args
    Expr.eval host (fuel + 1) (.call name args) s = run (host.selects s.functions name) s ∧
    (¬ Eval.countsUp s.functions name = true →
      Eval.visited (Expr.eval host (fuel + 1)) (.call name args) s =
        (run (host.selects s.functions name) >>= Eval.sequenceOf) s) ∧
    (∀ ref t, run (host.headSelects s.functions name) s = some (.ok (.array ref), t) →
      (Expr.call name args).LoopVisits host (fuel + 1) s t (t.heap.items ref).toList) ∧
    (host.headSelects s.functions name = host.selects s.functions name ↔
      (Eval.countsUp s.functions name = true →
        OrderedMap.get? host.tools name = some Builtin.range)) ∧
    ((Eval.countsUp s.functions name = true →
        OrderedMap.get? host.tools name = some Builtin.range) →
      ∀ ref t, Expr.eval host (fuel + 1) (.call name args) s = some (.ok (.array ref), t) →
        (Expr.call name args).LoopVisits host (fuel + 1) s t (t.heap.items ref).toList) := by
  intro run
  have hcall := Eval.call_eq_selected host (Expr.eval host fuel) (Block.exec host fuel) name args s
  have hagree := host.headSelects_eq_iff s.functions name
  refine ⟨hcall, Eval.visited_call_eq_selected, fun _ _ => Expr.loopVisits_headSelected, hagree, ?_⟩
  -- where the head and the call select alike, the loop visits what the call gives
  intro hregistered ref t heval
  apply Expr.loopVisits_headSelected
  rw [hagree.mpr hregistered, ← hcall]
  exact heval

/-- A `range` of the script stands before the builtin in the head of a loop as well, and the loop
    visits the elements of the array that it returns. -/
theorem loop_heads_resolve_as_calls_declared :
    let f : Func := ⟨"range", [⟨"n", .int, none⟩], .any, [.ret (.array [.var "n", .bool true])]⟩
    let s : State := { functions := OrderedMap.empty.set "range" f }
    let call : Expr := .call "range" [.int 3]
    Eval.countsUp s.functions "range" = false ∧
    ∃ ref t, Expr.eval {} 9 call s = some (.ok (.array ref), t) ∧
      (t.heap.items ref).toList = [.int 3, .bool true] ∧
      call.LoopVisits {} 9 s t [.int 3, .bool true] := by
  intro f s call
  have hcounts : Eval.countsUp s.functions "range" = false := by decide
  have hend : (Expr.eval {} 9 call s).map (fun p => (p.1.toOption, (p.2.heap.items ⟨0⟩).toList)) =
      some (some (.array ⟨0⟩), [.int 3, .bool true]) := by decide +kernel
  obtain ⟨⟨r, t⟩, heval, hresult⟩ := Option.map_eq_some_iff.mp hend
  obtain ⟨hvalue, hitems⟩ := Prod.mk.inj hresult
  cases r with
  | error e => cases hvalue
  | ok v =>
    cases hvalue
    have hvisits := (loop_heads_resolve_as_calls {} 8 "range" [.int 3] s).2.2.2.2
      (fun h => absurd (hcounts.symm.trans h) (by decide)) ⟨0⟩ t heval
    rw [hitems] at hvisits
    exact ⟨hcounts, ⟨0⟩, t, heval, hitems, hvisits⟩

/-- **A tool in place of the builtin is passed over in the head of a loop.**  The host has registered
    a `range` that returns its arguments; a call of it with `3` evaluates to an array of that one
    element, and the loop over the same call prints three others. -/
theorem replaced_range_is_passed_over :
    let echo : Tool :=
      ⟨"range", "its arguments", none, fun args =>
        ToolRun.ofAlloc (Alloc.make (·.newArray args.toArray))⟩
    let host : Host := { tools := Builtin.toolbox.register echo }
    let call : Expr := .call "range" [.int 3]
    host.selects .empty "range" = .ok (.tool echo) ∧
    host.headSelects .empty "range" = .ok (.tool Builtin.range) ∧
    (Expr.eval host 2 call {}).map (fun p => (p.1.toOption, p.2.heap.items ⟨0⟩)) =
      some (some (.array ⟨0⟩), #[.int 3]) ∧
    (Program.exec host 9 [.forIn "i" call [.print (.var "i")]] {}).map (·.2.printed) =
      some #["0", "1", "2"] := by
  intro echo host call
  refine ⟨rfl, rfl, ?_, ?_⟩
  · decide +kernel
  · decide +kernel

end Scriptlet
