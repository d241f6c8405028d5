/-
  Scriptlet.Proofs.Dictionaries — dictionaries and the sets that they have gone through.

  A dictionary comes about by sets and by nothing else: those of its literal, in which a key may be
  repeated, then those of stores at an index and at a member, through any value that refers to it, and
  those that a tool makes.  A tool may also put one dictionary in the place of another, but that one
  has come about by sets as well.  So what `OrderedMap.Records` says of sequences of sets holds of
  every dictionary of a run, and at every moment.  Where no tool replaces a dictionary,
  `Heap.ChangedBy` lists the sets of all dictionaries between two heaps, in order.

  Main results:
    * `Heap.Evolves.recorded` — every history of a heap keeps its dictionaries what sets leave.
    * `Heap.Evolves.changedBy` — under tools that only set, it is a sequence of sets.
    * `Eval.expression_dict` — the sets of a literal.
    * `dictionaries_record_their_sets` — sequences of sets, literals, stores and runs.
-/
import Scriptlet.Proofs.HeapHistory
import Scriptlet.Proofs.Stores

namespace Scriptlet

/-! ## §1. Sets between two heaps -/

/-- The sets of one dictionary, out of those of all. -/
def setsOn (ref : DictRef) (sets : List (DictRef × String × Value)) : List (String × Value) :=
  (sets.filter fun p => p.1 = ref).map Prod.snd

/-- The sets of one dictionary in two sequences, one after the other. -/
theorem setsOn_append (ref : DictRef) (first second : List (DictRef × String × Value)) :
    setsOn ref (first ++ second) = setsOn ref first ++ setsOn ref second := by
  simp [setsOn]

/-- The sets of one dictionary are all its own. -/
theorem setsOn_map (ref other : DictRef) (sets : List (String × Value)) :
    setsOn other (sets.map fun p => (ref, p)) = if ref = other then sets else [] := by
  unfold setsOn
  by_cases href : ref = other
  · simp [href, List.filter_map, Function.comp_def]
  · simp [href, List.filter_map, Function.comp_def]

namespace Heap

variable {host : Host} {h h' h'' : Heap} {sets : List (DictRef × String × Value)}

/-- From the first heap to the second the dictionaries have changed by these sets, each by its own and
    in this order; one that is new was empty before them. -/
def ChangedBy (h : Heap) (sets : List (DictRef × String × Value)) (h' : Heap) : Prop :=
  ∀ ref, h'.table ref = (h.table ref).setAll (setsOn ref sets)

/-- Every dictionary is what some sequence of sets leaves. -/
def Recorded (h : Heap) : Prop := ∀ ref, ∃ sets, (h.table ref).Records sets

namespace ChangedBy

/-- Heaps with the same dictionaries differ by no sets. -/
theorem of_dicts_eq (heq : h'.dicts = h.dicts) : h.ChangedBy [] h' := by
  intro ref
  unfold Heap.table
  rw [heq]
  rfl

/-- Sets one after the other. -/
theorem trans {more : List (DictRef × String × Value)} (h₁ : h.ChangedBy sets h')
    (h₂ : h'.ChangedBy more h'') : h.ChangedBy (sets ++ more) h'' := by
  intro ref
  rw [h₂ ref, h₁ ref, setsOn_append, OrderedMap.setAll_append]

/-- A new dictionary comes about by the sets that it was made of. -/
theorem newDict (h : Heap) (sets : List (String × Value)) :
    h.ChangedBy (sets.map fun p => (⟨h.dicts.size⟩, p)) (h.newDict (.ofList sets)).2 := by
  intro ref
  rw [newDict_table, setsOn_map]
  by_cases href : ref.index = h.dicts.size
  · -- before it was made, the new dictionary read as an empty one
    have hnew : h.table ref = .empty := by simp [Heap.table, href]
    have heq : (⟨h.dicts.size⟩ : DictRef) = ref := by rw [← href]
    rw [if_pos href, if_pos heq, hnew]
    rfl
  · have hne : (⟨h.dicts.size⟩ : DictRef) ≠ ref := fun heq => href (by rw [← heq])
    rw [if_neg href, if_neg hne]
    rfl

/-- A key that is set is one set, or none where there is no such dictionary. -/
theorem setKey (h : Heap) (ref : DictRef) (key : String) (v : Value) :
    ∃ sets, h.ChangedBy sets (h.setKey ref key v) := by
  by_cases hlive : ref.index < h.dicts.size
  · refine ⟨[(ref, key, v)], fun other => ?_⟩
    rw [table_setKey h hlive]
    have hsets := setsOn_map ref other [(key, v)]
    rw [List.map_singleton] at hsets
    rw [hsets]
    split <;> rfl
  · refine ⟨[], of_dicts_eq ?_⟩
    -- what has not been made cannot be changed
    apply Array.ext_getElem?
    intro i
    simp only [Heap.setKey, Array.getElem?_modify]
    split
    · rename_i heq
      rw [← heq, Array.getElem?_eq_none (by omega)]
      rfl
    · rfl

/-- A dictionary goes on recording. -/
theorem records (hc : h.ChangedBy sets h') {ref : DictRef} {before : List (String × Value)}
    (hr : (h.table ref).Records before) : (h'.table ref).Records (before ++ setsOn ref sets) := by
  rw [hc ref]
  exact hr.setAll _

/-- Sets keep every dictionary what some sequence of sets leaves. -/
theorem recorded (hc : h.ChangedBy sets h') (hr : h.Recorded) : h'.Recorded := by
  intro ref
  obtain ⟨before, hbefore⟩ := hr ref
  exact ⟨_, hc.records hbefore⟩

end ChangedBy

end Heap

/-! ## §2. Hosts -/

/-- The tool leaves no dictionary that sets from an empty one could not have made.  It is free to set
    keys, to make dictionaries and to put one in the place of another. -/
def Tool.KeepsRecorded (tool : Tool) : Prop :=
  ∀ args h, h.Recorded → (tool.run args h).2.Recorded

/-- So do the tools of the host that are not builtins. -/
def Host.KeepsRecorded (host : Host) : Prop :=
  ∀ name tool, OrderedMap.get? host.tools name = some tool →
    OrderedMap.get? Builtin.toolbox name = some tool ∨ tool.KeepsRecorded

/-- The tool changes dictionaries by sets, and in no other way. -/
def Tool.OnlySets (tool : Tool) : Prop :=
  ∀ args h, ∃ sets, Heap.ChangedBy h sets (tool.run args h).2

/-- So do the tools of the host that are not builtins. -/
def Host.OnlySets (host : Host) : Prop :=
  ∀ name tool, OrderedMap.get? host.tools name = some tool →
    OrderedMap.get? Builtin.toolbox name = some tool ∨ tool.OnlySets

/-- A host whose tools only set keeps dictionaries what sets leave. -/
theorem Host.OnlySets.keepsRecorded {host : Host} (hhost : host.OnlySets) :
    host.KeepsRecorded := by
  intro name tool ht
  rcases hhost name tool ht with hbuiltin | hsets
  · exact .inl hbuiltin
  · refine .inr fun args h hr => ?_
    obtain ⟨sets, hc⟩ := hsets args h
    exact hc.recorded hr

/-- A tool that is an allocation leaves the dictionaries alone if the allocation does. -/
theorem ToolRun.ofAlloc_dicts {x : Alloc Value} {h : Heap}
    (hx : ∀ v h', x h = .ok (v, h') → h'.dicts = h.dicts) :
    (ToolRun.ofAlloc x h).2.dicts = h.dicts := by
  unfold ToolRun.ofAlloc
  cases hrun : x h with
  | ok p => exact hx p.1 p.2 hrun
  | error e => rfl

/-- A builtin with one argument makes no dictionary and changes none. -/
theorem Builtin.unary_dicts (name description : String) (run : Heap → Value → Except Error Value)
    (args : List Value) (h : Heap) : ((unary name description run).run args h).2.dicts = h.dicts := by
  refine ToolRun.ofAlloc_dicts fun v h' hrun => ?_
  cases args with
  | nil => cases hrun
  | cons first rest =>
    -- the builtin reads the heap and gives it back
    have hrun : (liftM (run h first) : Alloc Value) h = .ok (v, h') := hrun
    cases hresult : run h first with
    | error e =>
      rw [hresult] at hrun
      cases hrun
    | ok w =>
      rw [hresult] at hrun
      cases hrun
      rfl

/-- Nor does `range`, which makes an array. -/
theorem Builtin.range_dicts (args : List Value) (h : Heap) :
    (range.run args h).2.dicts = h.dicts := by
  refine ToolRun.ofAlloc_dicts fun v h' hrun => ?_
  cases hbounds : rangeBounds args with
  | error e =>
    rw [hbounds] at hrun
    cases hrun
  | ok ends =>
    rw [hbounds] at hrun
    have hrun : rangeCallArray ends.1 ends.2 h = .ok (v, h') := hrun
    unfold rangeCallArray Progression.toArray at hrun
    -- a range that is too long is refused, any other is one new array
    split at hrun
    · cases hrun
    · cases hrun
      rfl

/-- The builtins make no dictionary and change none. -/
theorem Builtin.registered_dicts {name : String} {tool : Tool}
    (ht : OrderedMap.get? toolbox name = some tool) (args : List Value) (h : Heap) :
    (tool.run args h).2.dicts = h.dicts := by
  have hmem := mem_of_toolbox ht
  simp only [List.mem_cons, List.not_mem_nil, or_false] at hmem
  rcases hmem with rfl | rfl | rfl | rfl | rfl | rfl
  · exact range_dicts args h
  all_goals exact unary_dicts _ _ _ args h

/-- A call by name does to the heap what the tool does, or nothing. -/
theorem Toolbox.call_heap (tools : Toolbox) (name : String) (args : List Value) (h : Heap) :
    (tools.call name args h).2 = h ∨ ∃ tool, OrderedMap.get? tools name = some tool ∧
      (tools.call name args h).2 = (tool.run args h).2 := by
  unfold Toolbox.call
  cases hget : OrderedMap.get? tools name with
  | none => exact .inl rfl
  | some tool =>
    dsimp only
    split
    · exact .inr ⟨tool, rfl, rfl⟩
    · split
      · exact .inr ⟨tool, rfl, rfl⟩
      · exact .inl rfl

/-- A call keeps dictionaries what sets leave, whatever tool it finds. -/
theorem Host.KeepsRecorded.call {host : Host} (hhost : host.KeepsRecorded) (name : String)
    (args : List Value) {h : Heap} (hr : h.Recorded) :
    (host.tools.call name args h).2.Recorded := by
  rcases host.tools.call_heap name args h with hsame | ⟨tool, ht, hrun⟩
  · rw [hsame]
    exact hr
  · rw [hrun]
    rcases hhost name tool ht with hbuiltin | hkeeps
    · exact (Heap.ChangedBy.of_dicts_eq (Builtin.registered_dicts hbuiltin args h)).recorded hr
    · exact hkeeps args h hr

/-- A call changes dictionaries by sets if its tool does, and the builtins do not change them. -/
theorem Host.OnlySets.call {host : Host} (hhost : host.OnlySets) (name : String)
    (args : List Value) (h : Heap) : ∃ sets, h.ChangedBy sets (host.tools.call name args h).2 := by
  rcases host.tools.call_heap name args h with hsame | ⟨tool, ht, hrun⟩
  · rw [hsame]
    exact ⟨[], .of_dicts_eq rfl⟩
  · rw [hrun]
    rcases hhost name tool ht with hbuiltin | hsets
    · exact ⟨[], .of_dicts_eq (Builtin.registered_dicts hbuiltin args h)⟩
    · exact hsets args h

/-- **No history of a heap makes a dictionary otherwise than by sets.** -/
theorem Heap.Evolves.recorded {host : Host} (hhost : host.KeepsRecorded) {h h' : Heap}
    (he : Heap.Evolves host h h') (hr : h.Recorded) : h'.Recorded := by
  induction he with
  | trans _ _ ih₁ ih₂ => exact ih₂ (ih₁ hr)
  | dict sets => exact (ChangedBy.newDict _ sets).recorded hr
  | key ref key v =>
    obtain ⟨sets, hc⟩ := ChangedBy.setKey _ ref key v
    exact hc.recorded hr
  | tool name args => exact hhost.call name args hr
  | _ => exact (ChangedBy.of_dicts_eq rfl).recorded hr

/-- **Under tools that only set, every history of a heap is a sequence of sets.** -/
theorem Heap.Evolves.changedBy {host : Host} (hhost : host.OnlySets) {h h' : Heap}
    (he : Heap.Evolves host h h') : ∃ sets, h.ChangedBy sets h' := by
  induction he with
  | trans _ _ ih₁ ih₂ =>
    obtain ⟨sets, h₁⟩ := ih₁
    obtain ⟨more, h₂⟩ := ih₂
    exact ⟨sets ++ more, h₁.trans h₂⟩
  | dict sets => exact ⟨_, .newDict _ sets⟩
  | key ref key v => exact ChangedBy.setKey _ ref key v
  | tool name args => exact hhost.call name args _
  | _ => exact ⟨[], .of_dicts_eq rfl⟩

/-! ## §3. States -/

/-- The states that come about from one without bindings, in which there are the dictionaries of the
    modules' exports, by running programs, statements and expressions with any outcome. -/
inductive State.Produced : State → Prop
  | fresh {h} : h.Recorded → Produced { heap := h }
  | program {host fuel program errors s t} : Produced s → host.KeepsRecorded →
      Program.exec host fuel program s = some (errors, t) → Produced t
  | block {host fuel body signal s t} : Produced s → host.KeepsRecorded →
      Block.exec host fuel body s = some (signal, t) → Produced t
  | expression {host fuel e r s t} : Produced s → host.KeepsRecorded →
      Expr.eval host fuel e s = some (r, t) → Produced t

/-- Every state that comes about by runs has recorded dictionaries. -/
theorem State.Produced.recorded {s : State} (hs : s.Produced) : s.heap.Recorded := by
  induction hs with
  | fresh hh => exact hh
  | program _ hhost hrun ih =>
    obtain ⟨signal, u, hblock, -, hheap, -⟩ := Program.exec_block hrun
    rw [hheap]
    exact ((Block.exec_evolves _ _ _ _).2 signal u hblock).recorded hhost ih
  | block _ hhost hrun ih => exact ((Block.exec_evolves _ _ _ _).2 _ _ hrun).recorded hhost ih
  | expression _ hhost hrun ih => exact ((Expr.eval_evolves _ _ _ _).2 _ _ hrun).recorded hhost ih

/-! ## §4. Literals and stores -/

/-- The keys and values of the pairs of a literal, in order. -/
def Eval.pairs (evaluate : Eval.Evaluate) : List (Expr × Expr) → Eval (List (String × Value))
  | [] => pure []
  | (k, e) :: rest => do
    let name ← Eval.key (← evaluate k)
    let v ← evaluate e
    return (name, v) :: (← pairs evaluate rest)

/-- The entries of a literal are the sets of its pairs, on top of what the table holds. -/
theorem Eval.entries_eq_pairs (evaluate : Eval.Evaluate) (table : OrderedMap Value)
    (ps : List (Expr × Expr)) :
    Eval.entries evaluate table ps = table.setAll <$> Eval.pairs evaluate ps := by
  induction ps generalizing table with
  | nil => simp [Eval.entries, Eval.pairs, OrderedMap.setAll]
  | cons p rest ih =>
    obtain ⟨k, e⟩ := p
    simp only [Eval.entries, Eval.pairs, ih, map_bind, bind_pure_comp, Functor.map_map]
    rfl

/-- **A literal makes one new dictionary**, by the sets of its pairs in order. -/
theorem Eval.expression_dict (host : Host) (evaluate : Eval.Evaluate) (execute : Eval.Execute)
    (ps : List (Expr × Expr)) :
    Eval.expression host evaluate execute (.dict ps) =
      Eval.pairs evaluate ps >>= fun sets =>
        Eval.ofAlloc (Alloc.make (·.newDict (.ofList sets))) := by
  simp only [Eval.expression, Eval.entries_eq_pairs, bind_map_left]
  rfl

/-- On a dictionary an index means the entry of a key. -/
theorem Heap.Denotes.of_dict {h : Heap} {target index : Value} {slot : Slot} {ref : DictRef}
    (hd : h.Denotes target index slot) (hdict : target.innermost = .dict ref) :
    ∃ key, index = .string key ∧ slot = .key ref key := by
  induction hd with
  | item _ _ => cases hdict
  | key =>
    cases hdict
    exact ⟨_, rfl, rfl⟩
  | just _ ih => exact ih hdict

/-- A store at an index of a dictionary sets the key, in this dictionary only. -/
theorem Heap.storeIndex_sets {h h' : Heap} {v target index : Value} {ref : DictRef}
    (hdict : target.innermost = .dict ref) (hlive : ref.index < h.dicts.size)
    (hstore : h.storeIndex v target index = .ok h') :
    ∃ key, index = .string key ∧ ∀ other, h'.table other =
      if ref = other then (h.table other).set key v else h.table other := by
  obtain ⟨slot, hd, rfl⟩ := (h.storeIndex_eq_ok_iff v target index h').mp hstore
  obtain ⟨key, rfl, rfl⟩ := hd.of_dict hdict
  exact ⟨key, rfl, fun other => table_setKey h hlive other key v⟩

/-- So does a store at a member. -/
theorem Heap.storeMember_sets {h h' : Heap} {v : Value} {name : String} {ref : DictRef}
    (hlive : ref.index < h.dicts.size) (hstore : h.storeMember (.dict ref) name v = .ok h') :
    ∀ other, h'.table other =
      if ref = other then (h.table other).set name v else h.table other := by
  cases hstore
  exact fun other => table_setKey h hlive other name v

/-! ## §5. Dictionaries -/

/-- **Dictionaries record their sets.**  After any sequence of sets from an empty dictionary, each key
    is there once, in the order of the first sets, with the value that was last set; and one set
    changes neither the place nor the value of another key.  A literal makes a dictionary by the sets
    of its pairs in order; a store at an index or at a member is one set in one dictionary.

    So every dictionary of a state that comes about by runs is what some sequence of sets leaves, and
    so it is at every moment of a further run, an endless one included, also where a tool replaces
    whole dictionaries.  Where no tool does, dictionaries have changed by sets only up to then. -/
theorem dictionaries_record_their_sets :
    (∀ sets : List (String × Value), (OrderedMap.ofList sets).Records sets) ∧
    (∀ (m : OrderedMap Value) (key other : String) (v w : Value) (i : Nat), other ≠ key →
      ((m.set key v).entries[i]? = some (other, w) ↔ m.entries[i]? = some (other, w))) ∧
    (∀ (host : Host) (evaluate : Eval.Evaluate) (execute : Eval.Execute) (ps : List (Expr × Expr)),
      Eval.expression host evaluate execute (.dict ps) =
        Eval.pairs evaluate ps >>= fun sets =>
          Eval.ofAlloc (Alloc.make (·.newDict (.ofList sets)))) ∧
    (∀ (h h' : Heap) (v : Value) (ref : DictRef), ref.index < h.dicts.size →
      (∀ target index, target.innermost = .dict ref → h.storeIndex v target index = .ok h' →
        ∃ key, index = .string key ∧ ∀ other, h'.table other =
          if ref = other then (h.table other).set key v else h.table other) ∧
      (∀ name, h.storeMember (.dict ref) name v = .ok h' →
        ∀ other, h'.table other =
          if ref = other then (h.table other).set name v else h.table other)) ∧
    (∀ (s : State) (host : Host) (fuel : Nat), s.Produced → host.KeepsRecorded →
      s.heap.Recorded ∧
      (∀ body, (Record.exec host fuel body).outcome s = Block.exec host fuel body s ∧
        ∀ ev ∈ (Record.exec host fuel body).log s, ev.state.heap.Recorded ∧
          (host.OnlySets → ∃ sets, s.heap.ChangedBy sets ev.state.heap)) ∧
      (∀ e, (Record.eval host fuel e).run.outcome s = Expr.eval host fuel e s ∧
        ∀ ev ∈ (Record.eval host fuel e).run.log s, ev.state.heap.Recorded ∧
          (host.OnlySets → ∃ sets, s.heap.ChangedBy sets ev.state.heap))) := by
  refine ⟨OrderedMap.records_ofList, ?_, Eval.expression_dict, ?_, ?_⟩
  · exact fun m key other v w i hother => m.entries_set_iff key v i hother w
  · intro h h' v ref hlive
    exact ⟨fun target index hdict => Heap.storeIndex_sets hdict hlive,
      fun name => Heap.storeMember_sets hlive⟩
  · intro s host fuel hs hhost
    -- what holds of every history holds at every moment of the run
    have hmoment : ∀ h, Heap.Evolves host s.heap h →
        h.Recorded ∧ (host.OnlySets → ∃ sets, s.heap.ChangedBy sets h) :=
      fun h he => ⟨he.recorded hhost hs.recorded, fun hsets => he.changedBy hsets⟩
    -- the recorded run gives what the plain one gives, and its moments are histories
    obtain ⟨heval, hexec⟩ := Record.run_tells host .any fuel
    refine ⟨hs.recorded, fun body => ⟨?_, fun ev hev => ?_⟩, fun e => ⟨?_, fun ev hev => ?_⟩⟩
    · exact (hexec body s (.any host s)).outcome
    · exact hmoment _ ((Block.exec_evolves host fuel body s).1 ev hev)
    · exact (heval e s (.any host s)).outcome
    · exact hmoment _ ((Expr.eval_evolves host fuel e s).1 ev hev)

/-- A literal with a key in it twice, a store through an optional, a store of the dictionary in itself,
    a tool that sets a key, and one that replaces the dictionary. -/
theorem dictionaries_record_their_sets_shared :
    let stamp : Tool :=
      ⟨"stamp", "sets a key", some 0, fun _ h => (.ok .nil, h.setKey ⟨0⟩ "z" (.int 0))⟩
    let swap : Tool := ⟨"swap", "replaces the dictionaries", some 0,
      fun _ h => (.ok .nil, { h with dicts := #[.ofList [("y", .int 1), ("y", .int 2)]] })⟩
    let host : Host := { tools := Builtin.toolbox.register stamp }
    let swapping : Host := { tools := Builtin.toolbox.register swap }
    let body (name : String) : List Stmt :=
      [.declare "d" none
          (.dict [(.string "a", .int 1), (.string "b", .int 2), (.string "a", .int 3)]) false,
        .declare "o" (some (.optional .any)) (.var "d") false,
        .storeIndex (.var "o") (.string "b") (.int 4),
        .storeMember (.var "d") "c" (.var "d"), .expr (.call name [])]
    State.Produced {} ∧ host.OnlySets ∧ swapping.KeepsRecorded ∧
    ((Record.exec host 9 (body "stamp")).outcome {}).map (fun p => (p.2.heap.table ⟨0⟩).entries) =
      some [("a", .int 3), ("b", .int 4), ("c", .dict ⟨0⟩), ("z", .int 0)] ∧
    (∀ ev ∈ (Record.exec host 9 (body "stamp")).log {}, ev.state.heap.Recorded ∧
      ∃ sets, Heap.ChangedBy {} sets ev.state.heap) ∧
    ((Record.exec swapping 9 (body "swap")).outcome {}).map
      (fun p => (p.2.heap.table ⟨0⟩).entries) = some [("y", .int 2)] ∧
    ∀ ev ∈ (Record.exec swapping 9 (body "swap")).log {}, ev.state.heap.Recorded := by
  intro stamp swap host swapping body
  have hempty : OrderedMap.Records (.empty : OrderedMap Value) [] := OrderedMap.records_empty
  have hfresh : State.Produced {} := .fresh fun ref => ⟨[], hempty⟩
  have hhost : host.OnlySets := by
    intro name found ht
    have ht : (OrderedMap.set Builtin.toolbox "stamp" stamp).get? name = some found := ht
    rw [OrderedMap.get?_set] at ht
    split at ht
    · cases ht
      exact .inr fun _ h => Heap.ChangedBy.setKey h ⟨0⟩ "z" (.int 0)
    · exact .inl ht
  have hswapping : swapping.KeepsRecorded := by
    intro name found ht
    have ht : (OrderedMap.set Builtin.toolbox "swap" swap).get? name = some found := ht
    rw [OrderedMap.get?_set] at ht
    split at ht
    · -- the one dictionary that there is afterwards was made by two sets
      cases ht
      refine .inr fun _ h _ ref => ?_
      obtain ⟨_ | i⟩ := ref
      · exact ⟨_, OrderedMap.records_ofList _⟩
      · exact ⟨[], hempty⟩
    · exact .inl ht
  have hmoments := dictionaries_record_their_sets.2.2.2.2
  obtain ⟨-, hexec, -⟩ := hmoments {} host 9 hfresh hhost.keepsRecorded
  obtain ⟨-, hswap, -⟩ := hmoments {} swapping 9 hfresh hswapping
  refine ⟨hfresh, hhost, hswapping, by decide +kernel, fun ev hev => ?_, by decide +kernel,
    fun ev hev => ((hswap _).2 ev hev).1⟩
  obtain ⟨hrecorded, hsets⟩ := (hexec _).2 ev hev
  exact ⟨hrecorded, hsets hhost⟩

end Scriptlet
