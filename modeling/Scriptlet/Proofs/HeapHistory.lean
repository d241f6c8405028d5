/-
  Scriptlet.Proofs.HeapHistory — how the heap of a run comes about.

  `Heap.Evolves host h h'` says that the heap `h'` comes about from `h` by operations that a run is
  able to perform, one constructor for each.  Everything that a run does to its heap is such a history,
  at every moment of it, whether it ends or not; so what the operations keep up, every run keeps up.

  The walk begins with computations on the heap and goes on to steps of the evaluator, to recorded
  computations, and then to the functions of the evaluator one by one.

  Main results:
    * `Record.run_evolves` — the recorded evaluator, with any fuel.
    * `Block.exec_evolves`, `Expr.eval_evolves` — every moment and the end of every run.
-/
import Scriptlet.Proofs.InsertionOrder
import Scriptlet.Proofs.Retelling

namespace Scriptlet

/-! ## §1. Histories -/

/-- How a heap comes about from another one in runs under the host. -/
inductive Heap.Evolves (host : Host) : Heap → Heap → Prop
  /-- Nothing is done. -/
  | refl {h} : Evolves host h h
  /-- One thing after the other. -/
  | trans {h h' h''} : Evolves host h h' → Evolves host h' h'' → Evolves host h h''
  /-- An array is made. -/
  | array {h} (items : Array Value) : Evolves host h (h.newArray items).2
  /-- A dictionary is made by sets, one after the other, from an empty one. -/
  | dict {h} (sets : List (String × Value)) : Evolves host h (h.newDict (.ofList sets)).2
  /-- An optional is made. -/
  | optional {h} : Evolves host h { h with optionals := h.optionals + 1 }
  /-- A value is put in place of an element. -/
  | item {h} (ref : ArrayRef) (i : Nat) (v : Value) : Evolves host h (h.setItem ref i v)
  /-- A value is put after the last element. -/
  | push {h} (ref : ArrayRef) (v : Value) : Evolves host h (h.pushItem ref v)
  /-- A key is set to a value. -/
  | key {h} (ref : DictRef) (key : String) (v : Value) : Evolves host h (h.setKey ref key v)
  /-- A tool of the host does what it does. -/
  | tool {h} (name : String) (args : List Value) : Evolves host h (host.tools.call name args h).2

/-! ## §2. Computations on the heap -/

/-- Where the computation succeeds, the heap has evolved. -/
def Alloc.Evolves {α : Type} (host : Host) (x : Alloc α) : Prop :=
  ∀ h a h', x h = .ok (a, h') → Heap.Evolves host h h'

namespace Alloc.Evolves

variable {α β : Type} {host : Host} {x : Alloc α}

/-- What only gives a value leaves the heap as it is. -/
theorem pure (a : α) : Alloc.Evolves host (pure a) := by
  intro h b h' hrun
  cases hrun
  exact .refl

theorem throw (e : Error) : Alloc.Evolves host (throw e : Alloc α) := by
  intro h b h' hrun
  cases hrun

/-- Making a value is the history of the heap that it is made on. -/
theorem make {new : Heap → Value × Heap} (hnew : ∀ h, Heap.Evolves host h (new h).2) :
    Alloc.Evolves host (Alloc.make new) := by
  intro h v h' hrun
  have hmade : new h = (v, h') := Except.ok.inj hrun
  have hevolves := hnew h
  rw [hmade] at hevolves
  exact hevolves

/-- The histories of two computations follow one another. -/
theorem bind {f : α → Alloc β} (hx : x.Evolves host) (hf : ∀ a, (f a).Evolves host) :
    (x >>= f).Evolves host := by
  intro h b h'' hrun
  have hrun : (x h).bind (fun p => f p.1 p.2) = .ok (b, h'') := hrun
  cases hfirst : x h with
  | error e =>
    rw [hfirst] at hrun
    cases hrun
  | ok p =>
    rw [hfirst] at hrun
    exact (hx h p.1 p.2 hfirst).trans (hf p.1 p.2 b h'' hrun)

end Alloc.Evolves

variable {host : Host}

/-- Conversion makes optionals only. -/
theorem Ty.coerce_evolves (type : Ty) (v : Value) : (type.coerce v).Evolves host := by
  fun_induction Ty.coerce type v with
  | case2 content => exact .make fun _ => .optional
  | case4 type i content ih =>
    refine ih.bind fun converted => ?_
    split
    · exact .pure _
    · exact .make fun _ => .optional
  | case5 type v hnil hnothing hjust ih => exact ih.bind fun _ => .make fun _ => .optional
  | case19 => exact .throw _
  | _ => exact .pure _

/-- A declaration converts its value and does nothing else to the heap. -/
theorem Scopes.declare_evolves (s : Scopes) (name : String) (type : Ty) (v : Value)
    (constant : Bool) : (s.declare name type v constant).Evolves host := by
  unfold Scopes.declare
  split
  · exact (Alloc.Evolves.throw _).bind fun _ => (type.coerce_evolves v).bind fun _ => .pure _
  · exact (type.coerce_evolves v).bind fun _ => .pure _

/-- So does an assignment, to the type of its binding. -/
theorem Scopes.assign_evolves (s : Scopes) (name : String) (v : Value) :
    (s.assign name v).Evolves host := by
  unfold Scopes.assign
  split
  · exact .throw _
  · rename_i b _
    split
    · exact (Alloc.Evolves.throw _).bind fun _ => (b.type.coerce_evolves v).bind fun _ => .pure _
    · exact (b.type.coerce_evolves v).bind fun _ => .pure _

/-- A range that is stored is one new array. -/
theorem Progression.toArray_evolves (p : Progression) (request : Nat) (undertaking : Undertaking) :
    (p.toArray request undertaking).Evolves host := by
  unfold Progression.toArray
  split
  · exact (Alloc.Evolves.throw _).bind fun _ => .make fun _ => .array _
  · exact .make fun _ => .array _

namespace Heap

variable {h h' : Heap}

/-- A store to an index sets an element or a key. -/
theorem storeIndex_evolves {v target index : Value} (hstore : h.storeIndex v target index = .ok h') :
    h.Evolves host h' := by
  fun_induction Heap.storeIndex h v target index with
  | case1 ref i length k hk =>
    cases hstore
    exact .item ref k v
  | case3 ref key =>
    cases hstore
    exact .key ref key v
  | case5 i content target ih => exact ih hstore
  | _ => cases hstore

/-- A store to a member sets a key. -/
theorem storeMember_evolves {v target : Value} {name : String}
    (hstore : h.storeMember target name v = .ok h') : h.Evolves host h' := by
  unfold storeMember at hstore
  split at hstore
  · cases hstore
    exact .key _ name v
  · cases hstore

/-- Of the methods only `append` changes anything: it puts a value after the last element. -/
theorem callMethod_evolves (target : Value) (name : String) (args : List Value) :
    Alloc.Evolves host fun h => h.callMethod target name args := by
  intro h v h' hrun
  unfold callMethod append at hrun
  -- the methods one by one; a call that fails has no heap to speak of
  split at hrun
  · split at hrun
    · cases hrun
      exact .push _ _
    · cases hrun
  · cases hrun
  · cases hrun
    exact .refl
  · cases hrun
  · cases hrun

end Heap

/-! ## §3. Steps of the evaluator -/

/-- Whatever comes of the computation, the heap has evolved. -/
def Eval.Evolves {α : Type} (host : Host) (x : Eval α) : Prop :=
  ∀ s r t, x s = some (r, t) → Heap.Evolves host s.heap t.heap

namespace Eval.Evolves

variable {α β : Type} {x : Eval α}

theorem pure {a : α} : Evolves host (pure a) := by
  intro s r t h
  cases h
  exact .refl

theorem throw {e : Error} : Evolves host (throw e : Eval α) := by
  intro s r t h
  cases h
  exact .refl

theorem get : Evolves host (get : Eval State) := by
  intro s r t h
  cases h
  exact .refl

/-- A change of the state that leaves the heap alone. -/
theorem modify {f : State → State} (hf : ∀ s, (f s).heap = s.heap) : Evolves host (modify f) := by
  intro s r t h
  cases h
  show Heap.Evolves host s.heap (f s).heap
  rw [hf s]
  exact .refl

/-- What fails first has evolved too: nothing is undone. -/
theorem bind {f : α → Eval β} (hx : Evolves host x) (hf : ∀ a, Evolves host (f a)) :
    Evolves host (x >>= f) := by
  intro s r u h
  have h : (x s).bind (fun p => ExceptT.bindCont f p.1 p.2) = some (r, u) := h
  obtain ⟨⟨first, t⟩, hfirst, hrest⟩ := Option.bind_eq_some_iff.mp h
  cases first with
  | ok a => exact (hx s _ t hfirst).trans (hf a t r u hrest)
  | error e =>
    cases hrest
    exact hx s _ t hfirst

/-- What is worked out from values alone leaves the heap as it is. -/
theorem ofExcept (r : Except Error α) : Evolves host (Eval.ofExcept r) := by
  cases r with
  | ok a => exact .pure
  | error e => exact .throw

/-- A computation on the heap, as a step of the evaluator; where it fails the heap stays as it was.
    -/
theorem ofAlloc {x : Alloc α} (hx : x.Evolves host) : Evolves host (Eval.ofAlloc x) := by
  intro s r t h
  -- the step tries the computation and puts its heap in place of the old one
  have h : ((Eval.ofExcept (x s.heap) >>= fun p => do
    MonadState.modifyGet fun s => ((), { s with heap := p.2 })
    return p.1 : Eval α)) s = some (r, t) := h
  cases hrun : x s.heap with
  | error e =>
    rw [hrun] at h
    cases h
    exact .refl
  | ok p =>
    rw [hrun] at h
    cases h
    exact hx s.heap p.1 p.2 hrun

/-- The same for a change of the heap that gives no value. -/
theorem changeHeap {f : Heap → Except Error Heap}
    (hf : ∀ h h', f h = .ok h' → Heap.Evolves host h h') : Evolves host (Eval.changeHeap f) := by
  intro s r t h
  have h : ((Eval.ofExcept (f s.heap) >>= fun heap => MonadState.modifyGet fun s =>
    ((), { s with heap }) : Eval Unit)) s = some (r, t) := h
  cases hrun : f s.heap with
  | error e =>
    rw [hrun] at h
    cases h
    exact .refl
  | ok heap =>
    rw [hrun] at h
    cases h
    exact hf s.heap heap hrun

/-- A change of the bindings goes through the heap only where it converts. -/
theorem changeScopes {f : Scopes → Alloc Scopes} (hf : ∀ s, (f s).Evolves host) :
    Evolves host (Eval.changeScopes f) :=
  .bind .get fun s => .bind (.ofAlloc (hf s.scopes)) fun _ => .modify fun _ => rfl

theorem key (v : Value) : Evolves host (Eval.key v) := by
  unfold Eval.key
  split
  · exact .pure
  · exact .throw

/-- To look a name up changes nothing. -/
theorem variableValue (name : String) : Evolves host (Eval.variableValue host name) := by
  refine .bind .get fun s => ?_
  split
  · exact .pure
  · refine .bind (.ofExcept _) fun symbol => ?_
    split
    · exact .pure
    · exact .throw
    · exact .throw

theorem callee (name : String) : Evolves host (Eval.callee host name) := by
  refine .bind .get fun s => ?_
  split
  · exact .pure
  · split
    · exact .pure
    · refine .bind (.ofExcept _) fun symbol => ?_
      split
      · exact .pure
      · exact .throw
      · exact .throw

/-- The result of a call is converted, and that is all. -/
theorem callResult (f : Func) (signal : Signal) : Evolves host (Eval.callResult f signal) := by
  cases signal with
  | ret v => exact .ofAlloc (f.returns.coerce_evolves v)
  | next | brk | cont => exact .throw

/-- A tool may change the heap also where it fails. -/
theorem callTool (name : String) (args : List Value) :
    Evolves host (Eval.callTool host name args) := by
  intro s r t h
  -- the heap of the tool is put in place before its result is looked at
  have hheap : t.heap = (host.tools.call name args s.heap).2 := by
    have h : ((MonadState.modifyGet fun s' : State =>
        ((), { s' with heap := (host.tools.call name args s.heap).2 })) >>= fun _ =>
      Eval.ofExcept (host.tools.call name args s.heap).1 : Eval Value) s = some (r, t) := h
    cases hresult : (host.tools.call name args s.heap).1 with
    | ok v =>
      rw [hresult] at h
      cases h
      rfl
    | error e =>
      rw [hresult] at h
      cases h
      rfl
  rw [hheap]
  exact .tool name args

theorem sequenceOf (v : Value) : Evolves host (Eval.sequenceOf v) := by
  unfold Eval.sequenceOf
  split
  · exact .bind .get fun _ => .pure
  · exact .bind .get fun _ => .pure
  · exact .throw

/-- The variable of a loop is assigned to with conversion, or bound as it is. -/
theorem setItem (reuse : Bool) (name : String) (v : Value) :
    Evolves host (Eval.setItem reuse name v) := by
  unfold Eval.setItem
  split
  · exact .changeScopes fun s => s.assign_evolves name v
  · exact .modify fun _ => rfl

theorem define (f : Func) : Evolves host (Eval.define f) := by
  refine .bind .get fun s => ?_
  split
  · exact .bind .throw fun _ => .modify fun _ => rfl
  · exact .modify fun _ => rfl

theorem print (line : String) : Evolves host (liftM (Run.print line) : Eval Unit) :=
  .modify fun _ => rfl

end Eval.Evolves

/-! ## §4. Recorded computations -/

/-- Wherever the computation begins, the heap has evolved from there at every moment that is written
    down, and at the end if there is one. -/
def Recording.Evolves {α : Type} (host : Host) (x : Recording α) : Prop :=
  ∀ s, (∀ ev ∈ x.log s, Heap.Evolves host s.heap ev.state.heap) ∧
    ∀ a t, x.outcome s = some (a, t) → Heap.Evolves host s.heap t.heap

namespace Recording.Evolves

variable {α β : Type} {x : Recording α}

theorem pure (a : α) : Evolves host (pure a : Recording α) := by
  intro s
  constructor
  · intro ev hev
    cases hev
  · intro b t h
    cases h
    exact .refl

/-- A note is of the moment itself. -/
theorem note (occasion : Occasion) : Evolves host (Recording.note occasion) := by
  intro s
  constructor
  · intro ev hev
    cases List.mem_singleton.mp hev
    exact .refl
  · intro b t h
    cases h
    exact .refl

/-- A step of which every outcome has a heap that has evolved. -/
theorem step {x : Run α} (hx : ∀ s a t, x s = some (a, t) → Heap.Evolves host s.heap t.heap) :
    Evolves host (Recording.step x) := by
  intro s
  refine ⟨fun ev hev => ?_, fun a t h => hx s a t h⟩
  have hev : ev ∈ (x s).elim [] fun p => [⟨.step, p.2⟩] := hev
  cases hrun : x s with
  | none =>
    rw [hrun] at hev
    cases hev
  | some p =>
    rw [hrun] at hev
    cases List.mem_singleton.mp hev
    exact hx s p.1 p.2 hrun

/-- One computation after the other; the second may rely on what the first can give. -/
theorem bind_of {f : α → Recording β} (hx : x.Evolves host)
    (hf : ∀ s a t, x.outcome s = some (a, t) → (f a).Evolves host) : (x >>= f).Evolves host := by
  intro s
  obtain ⟨hmoments, hend⟩ := hx s
  have hlog : (x >>= f).log s = x.log s ++ (x.outcome s).elim [] fun p => (f p.1).log p.2 := rfl
  have houtcome : (x >>= f).outcome s = (x.outcome s).bind fun p => (f p.1).outcome p.2 := rfl
  cases hrun : x.outcome s with
  | none =>
    rw [hrun] at hlog houtcome
    constructor
    · intro ev hev
      rw [hlog] at hev
      exact hmoments ev (by simpa using hev)
    · intro b u h
      rw [houtcome] at h
      cases h
  | some p =>
    -- the second begins where the first has ended
    obtain ⟨a, t⟩ := p
    rw [hrun] at hlog houtcome
    have hfirst := hend a t hrun
    obtain ⟨hmoments', hend'⟩ := hf s a t hrun t
    constructor
    · intro ev hev
      rw [hlog] at hev
      rcases List.mem_append.mp hev with hev | hev
      · exact hmoments ev hev
      · exact hfirst.trans (hmoments' ev hev)
    · intro b u h
      rw [houtcome] at h
      exact hfirst.trans (hend' b u h)

/-- The same where what follows relies on nothing. -/
theorem bind {f : α → Recording β} (hx : x.Evolves host) (hf : ∀ a, (f a).Evolves host) :
    (x >>= f).Evolves host :=
  hx.bind_of fun _ a _ _ => hf a

/-- A change of the state that leaves the heap alone. -/
theorem modify {f : State → State} (hf : ∀ s, (f s).heap = s.heap) :
    Evolves host (Recording.step (modify f)) := by
  refine step fun s a t h => ?_
  cases h
  show Heap.Evolves host s.heap (f s).heap
  rw [hf s]
  exact .refl

/-- Frames have no part in the heap. -/
theorem inFrame (kind : FrameKind) (hx : x.Evolves host) :
    (Recording.inFrame kind x).Evolves host :=
  .bind (.modify fun _ => rfl) fun _ => .bind hx fun a => .bind (.modify fun _ => rfl) fun _ => .pure a

theorem inCall (hx : x.Evolves host) : (Recording.inCall x).Evolves host :=
  .bind (.modify fun _ => rfl) fun _ => .bind (.inFrame .call hx) fun a =>
    .bind (.modify fun _ => rfl) fun _ => .pure a

end Recording.Evolves

/-- The same for computations that may fail. -/
def Attempt.Evolves {α : Type} (host : Host) (x : Attempt α) : Prop := Recording.Evolves host x.run

namespace Attempt.Evolves

variable {α β : Type} {x : Attempt α}

theorem pure (a : α) : Evolves host (pure a : Attempt α) := Recording.Evolves.pure (Except.ok a)

theorem throw (e : Error) : Evolves host (throw e : Attempt α) :=
  Recording.Evolves.pure (Except.error e)

/-- A step that may fail is written down however it ends. -/
theorem step {x : Eval α} (hx : x.Evolves host) : Evolves host (Attempt.step x) :=
  Recording.Evolves.step hx

/-- The second computation may rely on what the first gives if it succeeds. -/
theorem bind_of {f : α → Attempt β} (hx : x.Evolves host)
    (hf : ∀ s a t, x.run.outcome s = some (.ok a, t) → (f a).Evolves host) :
    (x >>= f).Evolves host := by
  refine Recording.Evolves.bind_of hx fun s r t h => ?_
  cases r with
  | ok a => exact hf s a t h
  | error e => exact Recording.Evolves.pure (Except.error e)

theorem bind {f : α → Attempt β} (hx : x.Evolves host) (hf : ∀ a, (f a).Evolves host) :
    (x >>= f).Evolves host :=
  hx.bind_of fun _ a _ _ => hf a

theorem lift {x : Recording α} (hx : x.Evolves host) : Evolves host (liftM x : Attempt α) :=
  Recording.Evolves.bind hx fun a => Recording.Evolves.pure (Except.ok a)

theorem read {f : State → Attempt β} (hf : ∀ s, (f s).Evolves host) :
    Evolves host (MonadReader.read >>= f) := fun s => hf s s

theorem noted {x : Attempt Value} (hx : x.Evolves host) : (Attempt.noted x).Evolves host :=
  hx.bind fun v => .bind (.lift (.note (.value v))) fun _ => .pure v

theorem inFrame (kind : FrameKind) (hx : x.Evolves host) : (Attempt.inFrame kind x).Evolves host :=
  Recording.Evolves.inFrame kind hx

theorem inCall (hx : x.Evolves host) : (Attempt.inCall x).Evolves host :=
  Recording.Evolves.inCall hx

end Attempt.Evolves

/-- Where one computation after the other succeeds, both do. -/
theorem Attempt.bind_outcome_ok {α β : Type} {x : Attempt α} {f : α → Attempt β} {s u : State}
    {b : β} : (x >>= f).run.outcome s = some (.ok b, u) ↔
      ∃ a t, x.run.outcome s = some (.ok a, t) ∧ (f a).run.outcome t = some (.ok b, u) := by
  have houtcome : (x >>= f).run.outcome s =
      (x.run.outcome s).bind fun p => Recording.outcome (ExceptT.bindCont f p.1) p.2 := rfl
  rw [houtcome, Option.bind_eq_some_iff]
  constructor
  · rintro ⟨⟨r, t⟩, hfirst, hrest⟩
    cases r with
    | error e => cases hrest
    | ok a => exact ⟨a, t, hfirst, hrest⟩
  · rintro ⟨a, t, hfirst, hrest⟩
    exact ⟨(.ok a, t), hfirst, hrest⟩

/-! ## §5. Expressions -/

namespace Record

variable {evaluate : Evaluate} {execute : Execute}

/-- A note of the target of a `?.`, and what follows. -/
theorem noteLink_evolves {α : Type} (optional : Bool) (reached : Option Value)
    {f : Unit → Attempt α} (hf : (f ()).Evolves host) :
    (liftM (noteLink optional reached) >>= f).Evolves host := by
  have hnote : (noteLink optional reached).Evolves host := by
    cases reached with
    | none => exact .pure _
    | some target =>
      cases optional with
      | false => exact .pure _
      | true => exact .note _
  exact (Attempt.Evolves.lift hnote).bind fun _ => hf

/-- A dictionary that is built up from sets is made by these and more. -/
theorem entries_ofList (evaluate : Evaluate) (sets : List (String × Value))
    {pairs : List (Expr × Expr)} {s t : State} {table : OrderedMap Value}
    (h : (entries evaluate (.ofList sets) pairs).run.outcome s = some (.ok table, t)) :
    ∃ more, table = .ofList (sets ++ more) := by
  induction pairs generalizing sets s with
  | nil =>
    cases h
    exact ⟨[], by rw [List.append_nil]⟩
  | cons pair rest ih =>
    obtain ⟨k, e⟩ := pair
    obtain ⟨v, t₁, -, h⟩ := Attempt.bind_outcome_ok.mp h
    obtain ⟨name, t₂, -, h⟩ := Attempt.bind_outcome_ok.mp h
    obtain ⟨w, t₃, -, h⟩ := Attempt.bind_outcome_ok.mp h
    -- the set of this pair comes after those before it
    have h : (entries evaluate ((OrderedMap.ofList sets).setAll [(name, w)]) rest).run.outcome t₃ =
        some (.ok table, t) := h
    rw [← OrderedMap.ofList_append] at h
    obtain ⟨more, hmore⟩ := ih _ h
    exact ⟨(name, w) :: more, by rw [hmore, List.append_assoc]; rfl⟩

section Expressions

variable (he : ∀ e, (evaluate e).Evolves host)

include he

/-- The values of several expressions: one history after the other. -/
theorem values_evolves (es : List Expr) : (values evaluate es).Evolves host := by
  induction es with
  | nil => exact .pure _
  | cons e es ih => exact (he e).bind fun _ => ih.bind fun _ => .pure _

/-- The table of a new dictionary is no part of the heap yet. -/
theorem entries_evolves (table : OrderedMap Value) (pairs : List (Expr × Expr)) :
    (entries evaluate table pairs).Evolves host := by
  induction pairs generalizing table with
  | nil => exact .pure _
  | cons pair rest ih =>
    obtain ⟨k, e⟩ := pair
    refine (he k).bind fun v => ?_
    exact (Attempt.Evolves.step (.key v)).bind fun name => (he e).bind fun w => ih _

theorem rangeEnds_evolves (first last : Expr) : (rangeEnds evaluate first last).Evolves host := by
  refine (he first).bind fun a => (he last).bind fun b => ?_
  refine (Attempt.Evolves.step (.ofExcept _)).bind fun _ => ?_
  exact (Attempt.Evolves.step (.ofExcept _)).bind fun _ => .pure _

theorem argument_evolves (f : Func) (supplied : Nat) (p : Param) (args : List Value) :
    (argument evaluate f supplied p args).Evolves host := by
  unfold argument
  cases args with
  | cons v rest => exact .pure v
  | nil =>
    cases p.default with
    | some e => exact he e
    | none => exact .throw _

/-- Each parameter is evaluated and converted, one after the other. -/
theorem bindParams_evolves (f : Func) (supplied : Nat) (params : List Param) (args : List Value) :
    (bindParams evaluate f supplied params args).Evolves host := by
  induction params generalizing args with
  | nil => exact .pure _
  | cons p ps ih =>
    refine (argument_evolves he f supplied p args).bind fun v => ?_
    refine (Attempt.Evolves.step (.changeScopes fun s => ?_)).bind fun _ => ih args.tail
    exact s.declare_evolves p.name p.type v true

/-- **The links of a chain** are looked up on the heap and change nothing, except that a method may.
    -/
theorem chain_evolves (e : Expr) : (chain evaluate e).Evolves host := by
  fun_induction chain evaluate e with
  | case1 target index ih =>
    refine ih.bind fun link => ?_
    cases link with
    -- an earlier link has cut the chain off
    | none => exact .pure _
    | some target =>
      refine (he index).bind fun i => .read fun s => ?_
      exact (Attempt.Evolves.noted (.step (.ofExcept _))).bind fun _ => .pure _
  | case2 target name optional ih =>
    refine ih.bind fun link => noteLink_evolves optional link ?_
    cases link.bind (Eval.linkTarget optional) with
    | none => exact .pure _
    | some target =>
      exact .read fun s => (Attempt.Evolves.noted (.step (.ofExcept _))).bind fun _ => .pure _
  | case3 target name args optional ih =>
    refine ih.bind fun link => noteLink_evolves optional link ?_
    cases link.bind (Eval.linkTarget optional) with
    | none => exact .pure _
    | some target =>
      refine (values_evolves he args).bind fun vs => ?_
      refine (Attempt.Evolves.noted (.step (.ofAlloc ?_))).bind fun _ => .pure _
      exact Heap.callMethod_evolves target name vs
  | case4 e _ _ _ => exact (he e).bind fun _ => .pure _

variable (hx : ∀ body, (execute body).Evolves host)

include hx

/-- The body of a call, with its parameters before and the conversion of its result after. -/
theorem callBody_evolves (f : Func) (args : List Value) :
    (callBody evaluate execute f args).Evolves host := by
  refine (bindParams_evolves he f args.length f.params args).bind fun _ => ?_
  refine (Attempt.Evolves.lift (hx f.body)).bind fun signal => ?_
  exact .step (.callResult f signal)

/-- A call that is refused has no history. -/
theorem callFunction_evolves (f : Func) (args : List Expr) :
    (callFunction host evaluate execute f args).Evolves host := by
  have hcall : (do
      Attempt.step (Eval.ofExcept (host.admitsCall (← read).callDepth))
      let args ← values evaluate args
      Attempt.inCall (callBody evaluate execute f args) : Attempt Value).Evolves host := by
    refine .read fun s => (Attempt.Evolves.step (.ofExcept _)).bind fun _ => ?_
    exact (values_evolves he args).bind fun vs => .inCall (callBody_evolves he hx f vs)
  unfold callFunction
  split
  · exact hcall
  · exact (Attempt.Evolves.throw _).bind fun _ => hcall

theorem call_evolves (name : String) (args : List Expr) :
    (call host evaluate execute name args).Evolves host := by
  refine (Attempt.Evolves.step (.callee name)).bind fun c => ?_
  cases c with
  | function f => exact callFunction_evolves he hx f args
  | tool => exact (values_evolves he args).bind fun vs => .step (.callTool name vs)

/-- **The heap evolves in an expression if it does in its parts.** -/
theorem expression_evolves (e : Expr) : (expression host evaluate execute e).Evolves host := by
  cases e with
  -- literals
  | nil | bool | int | double | string => exact .pure _
  | var name => exact .step (.variableValue name)
  | binary op left right =>
    refine (he left).bind fun a => ?_
    split
    · exact .pure _
    · exact (he right).bind fun b => .step (.ofExcept _)
  | unary op operand => exact (he operand).bind fun a => .step (.ofExcept _)
  | call name args => exact call_evolves he hx name args
  | array items =>
    exact (values_evolves he items).bind fun vs => .step (.ofAlloc (.make fun _ => .array _))
  | dict pairs =>
    -- the new table is one that was set key by key
    refine (entries_evolves he .empty pairs).bind_of fun s table t h => ?_
    obtain ⟨sets, rfl⟩ := entries_ofList evaluate [] h
    exact .step (.ofAlloc (.make fun _ => .dict _))
  | range first last inclusive =>
    refine (rangeEnds_evolves he first last).bind fun ends => ?_
    exact .step (.ofAlloc (Progression.toArray_evolves _ _ _))
  | index | member | method => exact (chain_evolves he _).bind fun _ => .pure _

end Expressions

/-! ## §6. Loops -/

/-- A `while`, by induction on the rounds that are left. -/
theorem whileLoop_evolves {condition : Attempt Value} {body : Recording Signal}
    (hc : condition.Evolves host) (hb : body.Evolves host) (rounds : Nat) :
    (whileLoop condition body rounds).Evolves host := by
  induction rounds with
  | zero => exact .step fun s r t h => by cases h
  | succ rounds ih =>
    refine hc.bind fun v => ?_
    split
    · refine (Attempt.Evolves.lift hb).bind fun signal => ?_
      cases Eval.afterRound signal with
      | some result => exact .pure _
      | none => exact ih
    · exact .pure _

/-- A round for each value, by induction on the values. -/
theorem overValues_evolves {round : Value → Attempt Signal} (hr : ∀ v, (round v).Evolves host)
    (items : List Value) : (overValues round items).Evolves host := by
  induction items with
  | nil => exact .pure _
  | cons v rest ih =>
    refine (hr v).bind fun signal => ?_
    cases Eval.afterRound signal with
    | some result => exact .pure _
    | none => exact ih

theorem overInts_evolves {round : Value → Attempt Signal} (hr : ∀ v, (round v).Evolves host)
    (run : Progression) (k left : Nat) : (overInts round run k left).Evolves host := by
  induction left generalizing k with
  | zero => exact .pure _
  | succ left ih =>
    refine (hr (run.item k)).bind fun signal => ?_
    cases Eval.afterRound signal with
    | some result => exact .pure _
    | none => exact ih (k + 1)

theorem overSequence_evolves {round : Value → Attempt Signal} (hr : ∀ v, (round v).Evolves host)
    (items : Sequence) : (overSequence round items).Evolves host := by
  cases items with
  | ints run => exact overInts_evolves hr run 0 run.count
  | values items => exact overValues_evolves hr items

/-- What is visited is evaluated, or counted without any array. -/
theorem visited_evolves (he : ∀ e, (evaluate e).Evolves host) (iterable : Expr) :
    (visited evaluate iterable).Evolves host := by
  cases iterable with
  | range first last inclusive => exact (rangeEnds_evolves he first last).bind fun _ => .pure _
  | call name args =>
    refine .read fun s => ?_
    split
    · refine (values_evolves he args).bind fun vs => ?_
      exact (Attempt.Evolves.step (.ofExcept _)).bind fun _ => .pure _
    · exact (he _).bind fun v => .step (.sequenceOf v)
  | _ => exact (he _).bind fun v => .step (.sequenceOf v)

/-! ## §7. Statements and runs -/

section Statements

variable (he : ∀ e, (evaluate e).Evolves host) (hx : ∀ body, (execute body).Evolves host)

include he hx

/-- A `for`, with or without a frame for its variable. -/
theorem forIn_evolves (name : String) (iterable : Expr) (body : List Stmt) :
    (forIn evaluate execute name iterable body).Evolves host := by
  refine (visited_evolves he iterable).bind fun items => .read fun s => ?_
  have hround : ∀ reuse v, (forRound execute reuse name body v).Evolves host := fun reuse v =>
    (Attempt.Evolves.step (.setItem reuse name v)).bind fun _ =>
      .lift (.inFrame .block (hx body))
  dsimp only
  split
  · exact overSequence_evolves (hround _) items
  · exact .inFrame .block (overSequence_evolves (hround _) items)

/-- **What a statement does to the heap** it does through its expressions, a conversion or one
    store. -/
theorem effect_evolves (rounds : Nat) (st : Stmt) :
    (effect evaluate execute rounds st).Evolves host := by
  -- blocks inside the statement run in frames, which have no part in the heap
  have hinner : ∀ body, (innerBlock execute body).Evolves host := fun body => .inFrame .block (hx body)
  cases st with
  | declare name type value constant =>
    refine (he value).bind fun v => ?_
    refine (Attempt.Evolves.step (.changeScopes fun s => ?_)).bind fun _ => .pure _
    exact s.declare_evolves name _ v constant
  | assign name value =>
    refine (he value).bind fun v => ?_
    exact (Attempt.Evolves.step (.changeScopes fun s => s.assign_evolves name v)).bind fun _ => .pure _
  | storeIndex target index value =>
    refine (he target).bind fun t => (he index).bind fun i => (he value).bind fun v => ?_
    refine (Attempt.Evolves.step (.changeHeap fun h h' hstore => ?_)).bind fun _ => .pure _
    exact Heap.storeIndex_evolves hstore
  | storeMember target name value =>
    refine (he target).bind fun t => (he value).bind fun v => ?_
    refine (Attempt.Evolves.step (.changeHeap fun h h' hstore => ?_)).bind fun _ => .pure _
    exact Heap.storeMember_evolves hstore
  | print value =>
    refine (he value).bind fun v => .read fun s => ?_
    exact (Attempt.Evolves.step (.print _)).bind fun _ => .pure _
  | expr value => exact (he value).bind fun _ => .pure _
  | ifThen condition body =>
    refine (he condition).bind fun v => ?_
    split
    · exact .lift (hinner body)
    · exact .pure _
  | ifElse condition body otherwise =>
    refine (he condition).bind fun v => ?_
    split
    · exact .lift (hinner body)
    · exact .lift (hinner otherwise)
  | loop condition body => exact whileLoop_evolves (he condition) (hinner body) rounds
  | forIn name iterable body => exact forIn_evolves he hx name iterable body
  | brk | cont => exact .pure _
  | func name params returns body =>
    exact (Attempt.Evolves.step (.define _)).bind fun _ => .pure _
  | ret value => exact (he value).bind fun _ => .pure _

/-- To announce a statement leaves the heap alone. -/
theorem statement_evolves (rounds : Nat) (st : Stmt) :
    (statement host evaluate execute rounds st).Evolves host := by
  have hannounce : (announce host st).Evolves host := by
    refine (Recording.Evolves.note _).bind fun _ => .step fun s a t h => ?_
    unfold Eval.announce at h
    split at h <;> cases h <;> exact .refl
  exact (Attempt.Evolves.lift hannounce).bind fun _ => effect_evolves he hx rounds st

end Statements

/-- **A list of statements**: an error ends its statement, and the history goes on from there. -/
theorem block_evolves {stmt : Stmt → Attempt Signal} (hstmt : ∀ st, (stmt st).Evolves host)
    (body : List Stmt) : (block stmt body).Evolves host := by
  induction body with
  | nil => exact .pure _
  | cons st rest ih =>
    refine Recording.Evolves.bind (hstmt st) fun r => ?_
    cases r with
    | error e =>
      -- the report changes the diagnostics only
      refine Recording.Evolves.bind (.step fun s a t h => ?_) fun _ => ih
      cases h
      exact .refl
    | ok signal =>
      cases signal with
      | next => exact ih
      | brk | cont | ret => exact .pure _

/-- **The heap evolves in every run**: one induction on the fuel for expressions and statements
    together. -/
theorem run_evolves (host : Host) (fuel : Nat) :
    (∀ e, (eval host fuel e).Evolves host) ∧ ∀ body, (exec host fuel body).Evolves host := by
  induction fuel with
  | zero =>
    refine ⟨fun _ => .step fun s r t h => ?_, fun _ => .step fun s a t h => ?_⟩
    · cases h
    · cases h
  | succ fuel ih =>
    obtain ⟨he, hx⟩ := ih
    refine ⟨fun e => .noted (expression_evolves he hx e), fun body => ?_⟩
    exact block_evolves (fun st => statement_evolves he hx fuel st) body

end Record

/-- The run of a list of statements: every moment that is written down, and the end. -/
theorem Block.exec_evolves (host : Host) (fuel : Nat) (body : List Stmt) (s : State) :
    (∀ ev ∈ (Record.exec host fuel body).log s, Heap.Evolves host s.heap ev.state.heap) ∧
      ∀ signal t, Block.exec host fuel body s = some (signal, t) →
        Heap.Evolves host s.heap t.heap := by
  obtain ⟨hmoments, hend⟩ := (Record.run_evolves host fuel).2 body s
  have hsame := ((Record.run_tells host .any fuel).2 body s (.any host s)).outcome
  exact ⟨hmoments, fun signal t h => hend signal t (hsame.trans h)⟩

/-- The evaluation of an expression: every moment that is written down, and the end. -/
theorem Expr.eval_evolves (host : Host) (fuel : Nat) (e : Expr) (s : State) :
    (∀ ev ∈ (Record.eval host fuel e).run.log s, Heap.Evolves host s.heap ev.state.heap) ∧
      ∀ r t, Expr.eval host fuel e s = some (r, t) → Heap.Evolves host s.heap t.heap := by
  obtain ⟨hmoments, hend⟩ := (Record.run_evolves host fuel).1 e s
  have hsame := ((Record.run_tells host .any fuel).1 e s (.any host s)).outcome
  exact ⟨hmoments, fun r t h => hend r t (hsame.trans h)⟩

end Scriptlet
