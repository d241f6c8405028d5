/-
  Scriptlet.Proofs.Activations — the stack of scopes as activation records.

  The tables of all calls lie on one stack, with the globals at the bottom, and a name is found by
  trying the places from the top down to the table of the current call, and then the bottom.  The
  reading that a programmer has in mind is another one: there is one table of globals and a stack of
  activations, each of them the tables of its open blocks.  The frame of a call begins an activation;
  looking up, binding and assigning see the running activation and the globals; closing drops a block,
  and with the last block the activation.

  `Scopes` lies between the two: the globals apart, and all frames in one list.  Here all three are
  driven by the same operations, in any order: calls closed by blocks, blocks closed too often, frames
  opened and never closed, declarations that fail.

  Main results:
    * `ScopeStack.resolve_append` — how the place of a name depends on the table at the top.
    * `Scopes.stack_refined` — the scopes are the one stack, with its places and its boundary.
    * `Scopes.activations_refined` — they are activation records as well.
    * `scopes_are_activation_records` — so every sequence of operations has the same answers.
-/
import Mathlib.Data.List.Find
import Scriptlet.Proofs.Triple

namespace Scriptlet

/-! ## §1. Activation records -/

/-- What each name is bound to, if it is bound. -/
abbrev Table := String → Option Binding

namespace Table

/-- Binds no name. -/
def empty : Table := fun _ => none

/-- Binds one name anew and leaves the others. -/
def put (t : Table) (name : String) (b : Binding) : Table :=
  fun other => if other = name then some b else t other

/-- Whether the name is bound. -/
def binds (t : Table) (name : String) : Bool := (t name).isSome

end Table

/-- The globals and the activations, an activation being the tables of its open blocks. -/
structure Activations where
  globals : Table := .empty
  /-- The blocks of the running activation, innermost first; outside of all calls there may be none. -/
  current : List Table := []
  /-- The activations that wait for the running one to finish, the latest first. -/
  waiting : List (List Table) := []

namespace Activations

/-- Opens a block in the running activation. -/
def openBlock (a : Activations) : Activations := { a with current := .empty :: a.current }

/-- Starts an activation with one block, and lets the running one wait. -/
def openCall (a : Activations) : Activations :=
  { a with current := [.empty], waiting := a.current :: a.waiting }

/-- Drops the innermost block; with its last block an activation is finished and the one that waits
    for it goes on.  Where nothing is open but the globals, nothing happens. -/
def close (a : Activations) : Activations :=
  match a.current, a.waiting with
  | _ :: next :: outer, _ => { a with current := next :: outer }
  | _, caller :: callers => { a with current := caller, waiting := callers }
  | _, [] => { a with current := [] }

/-- The binding of a name: in the blocks of the running activation from the innermost outward, then
    among the globals. -/
def lookUp (a : Activations) (name : String) : Option Binding :=
  (a.current ++ [a.globals]).findSome? fun t => t name

/-- The table of the innermost block. -/
def innermost (a : Activations) : Table := a.current.headD a.globals

/-- Binds a name in the innermost block. -/
def put (a : Activations) (name : String) (b : Binding) : Activations :=
  match a.current with
  | [] => { a with globals := a.globals.put name b }
  | t :: outer => { a with current := t.put name b :: outer }

/-- Binds a name anew in the first of the tables that binds it. -/
def storeFirst (name : String) (b : Binding) : List Table → List Table
  | [] => []
  | t :: outer =>
    if t.binds name then t.put name b :: outer else t :: storeFirst name b outer

/-- Binds a name anew where it is found. -/
def store (a : Activations) (name : String) (b : Binding) : Activations :=
  if a.current.any fun t => t.binds name then { a with current := storeFirst name b a.current }
  else { a with globals := a.globals.put name b }

/-- Declares a name that the innermost block does not bind. -/
def declare (a : Activations) (name : String) (type : Ty) (value : Value) (constant : Bool)
    (h : Heap) : Except Error (Activations × Heap) :=
  if a.innermost.binds name then .error (.redeclared name)
  else (type.coerce value h).map fun made => (a.put name ⟨type, made.1, constant⟩, made.2)

/-- Assigns to a name that is found and no constant. -/
def assign (a : Activations) (name : String) (value : Value) (h : Heap) :
    Except Error (Activations × Heap) :=
  match a.lookUp name with
  | none => .error (.undefinedVariable name)
  | some b =>
    if b.constant then .error (.constantReassigned name)
    else (b.type.coerce value h).map fun made => (a.store name { b with value := made.1 }, made.2)

end Activations

/-! ## §2. One stack -/

/-- All tables on one stack, the globals at the bottom; with each stands what opened it. -/
abbrev ScopeStack := List Frame

namespace ScopeStack

/-- The globals alone, which no call has opened. -/
def empty : ScopeStack := [{ kind := .block }]

/-- Opens a table at the top. -/
def push (st : ScopeStack) (kind : FrameKind) : ScopeStack := st ++ [({ kind } : Frame)]

/-- Drops the table at the top; the globals stay. -/
def pop (st : ScopeStack) : ScopeStack := if 1 < st.length then st.dropLast else st

/-- The place of the latest call's table; outside of all calls, the bottom. -/
def boundary (st : ScopeStack) : Nat :=
  ((List.range st.length).reverse.find? fun i => st[i]?.any fun f => f.kind = .call).getD 0

/-- The visible places in the order in which they are tried: from the top down to the boundary, and
    then the bottom, unless it has been tried. -/
def places (st : ScopeStack) : List Nat :=
  (List.range' st.boundary (st.length - st.boundary)).reverse ++ if 0 < st.boundary then [0] else []

/-- Whether the table at a place binds the name. -/
def bindsAt (st : ScopeStack) (name : String) (i : Nat) : Bool :=
  st[i]?.any fun f => f.bindings.contains name

/-- The first visible place at which the name is bound. -/
def resolve (st : ScopeStack) (name : String) : Option Nat := st.places.find? (st.bindsAt name)

/-- The binding of the name at a place. -/
def bindingAt? (st : ScopeStack) (name : String) (i : Nat) : Option Binding :=
  st[i]?.bind fun f => f.bindings.get? name

/-- The visible binding of the name. -/
def get? (st : ScopeStack) (name : String) : Option Binding :=
  (st.resolve name).bind (st.bindingAt? name)

/-- Sets the name at a place. -/
def setAt (st : ScopeStack) (i : Nat) (name : String) (b : Binding) : ScopeStack :=
  st.modify i fun f => { f with bindings := f.bindings.set name b }

/-- The place at the top. -/
def top (st : ScopeStack) : Nat := st.length - 1

/-- Declares a name that the table at the top does not bind. -/
def declare (st : ScopeStack) (name : String) (type : Ty) (value : Value) (constant : Bool)
    (h : Heap) : Except Error (ScopeStack × Heap) :=
  if st.bindsAt name st.top then .error (.redeclared name)
  else (type.coerce value h).map fun made => (st.setAt st.top name ⟨type, made.1, constant⟩, made.2)

/-- Assigns at the place of the name, where it is bound and no constant. -/
def assign (st : ScopeStack) (name : String) (value : Value) (h : Heap) :
    Except Error (ScopeStack × Heap) :=
  match st.resolve name with
  | none => .error (.undefinedVariable name)
  | some i =>
    match st.bindingAt? name i with
    | none => .error (.undefinedVariable name)
    | some b =>
      if b.constant then .error (.constantReassigned name)
      else (b.type.coerce value h).map fun made =>
        (st.setAt i name { b with value := made.1 }, made.2)

end ScopeStack

/-! ## §3. Operations and their answers -/

/-- What can be asked of the scopes. -/
inductive ScopeOp where
  | openBlock
  | openCall
  | close
  | declare (name : String) (type : Ty) (value : Value) (constant : Bool)
  | assign (name : String) (value : Value)
  | rebind (name : String) (value : Value)
  | lookUp (name : String)
  | isBound (name : String)
  /-- Not asked of the scopes: objects are made or changed meanwhile. -/
  | objects (heap : Heap)

/-- What is answered. -/
inductive ScopeAnswer where
  | done
  | refused (e : Error)
  | binding (b : Option Binding)
  | truth (b : Bool)

/-- The answer to a change. -/
def ScopeAnswer.ofChange {α : Type} : Except Error α → ScopeAnswer
  | .ok _ => .done
  | .error e => .refused e

/-- The operation on the scopes of a state. -/
def ScopeOp.perform : ScopeOp → Run ScopeAnswer
  | .openBlock => do
    modify fun s => { s with scopes := s.scopes.push .block }
    return .done
  | .openCall => do
    modify fun s => { s with scopes := s.scopes.push .call }
    return .done
  | .close => do
    modify fun s => { s with scopes := s.scopes.pop }
    return .done
  | .declare name type value constant =>
    .ofChange <$> (Eval.changeScopes fun s => s.declare name type value constant).run
  | .assign name value => .ofChange <$> (Eval.changeScopes fun s => s.assign name value).run
  | .rebind name value => do
    modify fun s => { s with scopes := s.scopes.rebind name value }
    return .done
  | .lookUp name => return .binding ((← get).scopes.get? name)
  | .isBound name => return .truth ((← get).scopes.isBound name)
  | .objects heap => do
    modify fun s => { s with heap }
    return .done

/-- What can be asked, of another arrangement of the scopes. -/
structure ScopeModel (A : Type) where
  openBlock : A → A
  openCall : A → A
  close : A → A
  declare : A → String → Ty → Value → Bool → Heap → Except Error (A × Heap)
  assign : A → String → Value → Heap → Except Error (A × Heap)
  rebind : A → String → Value → A
  lookUp : A → String → Option Binding
  isBound : A → String → Bool

/-- Activation records. -/
def Activations.model : ScopeModel Activations where
  openBlock := openBlock
  openCall := openCall
  close := close
  declare := declare
  assign := assign
  rebind a name value := a.put name ⟨value.inferredType, value, false⟩
  lookUp := lookUp
  isBound a name := (a.lookUp name).isSome

/-- One stack. -/
def ScopeStack.model : ScopeModel ScopeStack where
  openBlock st := st.push .block
  openCall st := st.push .call
  close := pop
  declare := declare
  assign := assign
  rebind st name value := st.setAt st.top name ⟨value.inferredType, value, false⟩
  lookUp := get?
  isBound st name := (st.resolve name).isSome

namespace ScopeModel

variable {A : Type}

/-- A change as a whole, or none. -/
def attempt (change : A → Heap → Except Error (A × Heap)) : StateM (A × Heap) ScopeAnswer :=
  fun (a, h) =>
    match change a h with
    | .ok next => (.done, next)
    | .error e => (.refused e, (a, h))

/-- The operation on the other arrangement. -/
def consult (M : ScopeModel A) : ScopeOp → StateM (A × Heap) ScopeAnswer
  | .openBlock => fun (a, h) => (.done, (M.openBlock a, h))
  | .openCall => fun (a, h) => (.done, (M.openCall a, h))
  | .close => fun (a, h) => (.done, (M.close a, h))
  | .declare name type value constant => attempt fun a h => M.declare a name type value constant h
  | .assign name value => attempt fun a h => M.assign a name value h
  | .rebind name value => fun (a, h) => (.done, (M.rebind a name value, h))
  | .lookUp name => fun (a, h) => (.binding (M.lookUp a name), (a, h))
  | .isBound name => fun (a, h) => (.truth (M.isBound a name), (a, h))
  | .objects heap => fun (a, _) => (.done, (a, heap))

/-- Seen through the view, the scopes are the other arrangement: every operation on them is its
    operation. -/
structure Refined (M : ScopeModel A) (view : Scopes → A) : Prop where
  openBlock : ∀ s, view (s.push .block) = M.openBlock (view s)
  openCall : ∀ s, view (s.push .call) = M.openCall (view s)
  close : ∀ s, view s.pop = M.close (view s)
  declare : ∀ s name type value constant h, M.declare (view s) name type value constant h =
    (s.declare name type value constant h).map fun made => (view made.1, made.2)
  assign : ∀ s name value h, M.assign (view s) name value h =
    (s.assign name value h).map fun made => (view made.1, made.2)
  rebind : ∀ s name value, view (s.rebind name value) = M.rebind (view s) name value
  lookUp : ∀ s name, M.lookUp (view s) name = s.get? name
  isBound : ∀ s name, M.isBound (view s) name = s.isBound name

/-- A conversion fails on both sides alike, and its result is bound here where it is bound there. -/
theorem map_viewed (view : Scopes → A) {put : Value → A} {bind : Value → Scopes}
    (hput : ∀ v, view (bind v) = put v) (converted : Except Error (Value × Heap)) :
    converted.map (fun made => (put made.1, made.2)) =
      (converted.map fun made => (bind made.1, made.2)).map fun made => (view made.1, made.2) := by
  cases converted with
  | error e => rfl
  | ok made => exact congrArg (fun a => Except.ok (a, made.2)) (hput made.1).symm

end ScopeModel

/-! ## §4. The records that a stack of frames stands for -/

/-- The blocks of the innermost activation on a stack of frames, and the activations below it.  A
    call's frame is the last block of its activation. -/
def splitFrames : List Frame → List Table × List (List Table)
  | [] => ([], [])
  | ⟨.block, m⟩ :: outer => (m.get? :: (splitFrames outer).1, (splitFrames outer).2)
  | ⟨.call, m⟩ :: outer => ([m.get?], (splitFrames outer).1 :: (splitFrames outer).2)

/-- The activation records of the scopes. -/
def Scopes.activations (s : Scopes) : Activations where
  globals := s.globals.get?
  current := (splitFrames s.frames).1
  waiting := (splitFrames s.frames).2

/-- Setting an entry is binding its name. -/
theorem OrderedMap.get?_set_eq_put (m : OrderedMap Binding) (name : String) (b : Binding) :
    (m.set name b).get? = Table.put m.get? name b := by
  funext other
  exact m.get?_set name other b

/-- Only outside of all calls can an activation be without blocks, and then nothing waits for it. -/
theorem splitFrames_fst_eq_nil {frames : List Frame} (h : (splitFrames frames).1 = []) :
    frames = [] := by
  cases frames with
  | nil => rfl
  | cons f outer =>
    obtain ⟨kind, m⟩ := f
    cases kind <;> simp [splitFrames] at h

/-! ## §5. Looking up in the records -/

/-- A search through the frames up to the call's own is one through the running activation. -/
theorem localBinding?_eq_findSome? (name : String) (frames : List Frame) :
    Scopes.localBinding? name frames = (splitFrames frames).1.findSome? fun t => t name := by
  induction frames with
  | nil => rfl
  | cons f outer ih =>
    obtain ⟨kind, m⟩ := f
    cases hm : m.get? name with
    | some b => cases kind <;> simp [Scopes.localBinding?, splitFrames, hm]
    | none => cases kind <;> simp [Scopes.localBinding?, splitFrames, hm, ih]

/-- What is looked up in the records is the visible binding. -/
@[simp]
theorem Scopes.activations_lookUp (s : Scopes) (name : String) :
    s.activations.lookUp name = s.get? name := by
  unfold Scopes.get? Activations.lookUp
  rw [List.findSome?_append, localBinding?_eq_findSome?]
  show ((splitFrames s.frames).1.findSome? _).or (List.findSome? _ [s.globals.get?]) = _
  cases (splitFrames s.frames).1.findSome? fun t => t name with
  | some b => rfl
  | none => cases h : s.globals.get? name <;> simp [h]

/-- The innermost block is the current table. -/
@[simp]
theorem Scopes.activations_innermost (s : Scopes) : s.activations.innermost = s.current.get? := by
  obtain ⟨globals, frames⟩ := s
  cases frames with
  | nil => rfl
  | cons f outer =>
    obtain ⟨kind, m⟩ := f
    cases kind <;> rfl

/-! ## §6. Opening and closing activations -/

theorem Scopes.activations_openBlock (s : Scopes) :
    (s.push .block).activations = s.activations.openBlock := rfl

theorem Scopes.activations_openCall (s : Scopes) :
    (s.push .call).activations = s.activations.openCall := rfl

/-- **Closing a frame drops a block or finishes the activation.** -/
theorem Scopes.activations_close (s : Scopes) : s.pop.activations = s.activations.close := by
  obtain ⟨globals, frames⟩ := s
  cases frames with
  | nil => rfl
  | cons f outer =>
    obtain ⟨kind, m⟩ := f
    cases kind with
    | call => rfl
    | block =>
      cases hcurrent : (splitFrames outer).1 with
      | cons next rest =>
        simp [Scopes.pop, Scopes.activations, Activations.close, splitFrames, hcurrent]
      | nil =>
        -- the block was the last one, so it did not belong to a call
        have houter : outer = [] := splitFrames_fst_eq_nil hcurrent
        subst houter
        rfl

/-! ## §7. Binding and assigning in the records -/

/-- Binding in the current frame is binding in the innermost block. -/
theorem Scopes.activations_put (s : Scopes) (name : String) (b : Binding) :
    (s.bind name b).activations = s.activations.put name b := by
  obtain ⟨globals, frames⟩ := s
  cases frames with
  | nil =>
    simp only [Scopes.bind, Scopes.activations, OrderedMap.get?_set_eq_put]
    rfl
  | cons f outer =>
    obtain ⟨kind, m⟩ := f
    cases kind <;>
    · simp only [Scopes.bind, Scopes.activations, splitFrames, OrderedMap.get?_set_eq_put]
      rfl

/-- A name is set in the frames of the current call exactly if a block of the running activation binds
    it, and then in the innermost that does. -/
theorem setLocal?_eq_storeFirst (name : String) (b : Binding) (frames : List Frame) :
    (Scopes.setLocal? name b frames).map splitFrames =
      if (splitFrames frames).1.any fun t => t.binds name then
        some (Activations.storeFirst name b (splitFrames frames).1, (splitFrames frames).2)
      else none := by
  induction frames with
  | nil => rfl
  | cons f outer ih =>
    obtain ⟨kind, m⟩ := f
    have hbinds : m.contains name = Table.binds m.get? name := rfl
    by_cases hm : m.contains name = true
    · cases kind <;>
        simp [Scopes.setLocal?, splitFrames, Activations.storeFirst, hm, ← hbinds,
          OrderedMap.get?_set_eq_put]
    · cases kind with
      | call => simp [Scopes.setLocal?, splitFrames, hm, ← hbinds]
      | block =>
        -- the frame is passed over, and what is below it decides
        rw [Bool.not_eq_true] at hm
        simp only [Scopes.setLocal?, hm, Bool.false_eq_true, if_false, Option.map_map]
        have hpass : (splitFrames ∘ fun fs => (⟨.block, m⟩ : Frame) :: fs) =
            (fun split => (m.get? :: split.1, split.2)) ∘ splitFrames := rfl
        rw [hpass, ← Option.map_map, ih]
        simp only [splitFrames, List.any_cons, ← hbinds, hm, Bool.false_or, Activations.storeFirst,
          Bool.false_eq_true, if_false]
        split <;> rfl

/-- Setting a visible name is binding it anew where the records find it. -/
theorem Scopes.activations_store (s : Scopes) (name : String) (b : Binding) :
    (s.set name b).activations = s.activations.store name b := by
  have hlocal := setLocal?_eq_storeFirst name b s.frames
  unfold Scopes.set Activations.store
  by_cases hany : ((splitFrames s.frames).1.any fun t => t.binds name) = true
  · rw [if_pos hany] at hlocal
    obtain ⟨frames, hset, hsplit⟩ := Option.map_eq_some_iff.mp hlocal
    rw [hset, if_pos (show (s.activations.current.any fun t => t.binds name) = true from hany)]
    simp only [Scopes.activations, hsplit]
  · rw [if_neg hany, Option.map_eq_none_iff] at hlocal
    rw [hlocal, if_neg (show ¬(s.activations.current.any fun t => t.binds name) = true from hany)]
    simp only [Scopes.activations, OrderedMap.get?_set_eq_put]

/-- Declarations are refused, fail and succeed alike. -/
theorem Scopes.activations_declare (s : Scopes) (name : String) (type : Ty) (value : Value)
    (constant : Bool) (h : Heap) :
    s.activations.declare name type value constant h =
      (s.declare name type value constant h).map fun made => (made.1.activations, made.2) := by
  rw [Scopes.declare_run]
  unfold Activations.declare
  rw [Scopes.activations_innermost]
  show (if s.current.contains name = true then _ else _) = _
  -- refused, or the outcome of the conversion
  split
  · rfl
  · exact ScopeModel.map_viewed _ (fun v => s.activations_put name ⟨type, v, constant⟩) _

/-- So are assignments. -/
theorem Scopes.activations_assign (s : Scopes) (name : String) (value : Value) (h : Heap) :
    s.activations.assign name value h =
      (s.assign name value h).map fun made => (made.1.activations, made.2) := by
  rw [Scopes.assign_run]
  unfold Activations.assign
  rw [Scopes.activations_lookUp]
  -- not found, a constant, or the outcome of the conversion
  cases s.get? name with
  | none => rfl
  | some b =>
    dsimp only
    split
    · rfl
    · exact ScopeModel.map_viewed _ (fun v => s.activations_store name { b with value := v }) _

/-- **The scopes are activation records.** -/
theorem Scopes.activations_refined : Activations.model.Refined Scopes.activations where
  openBlock := activations_openBlock
  openCall := activations_openCall
  close := activations_close
  declare := activations_declare
  assign := activations_assign
  rebind s name _ := s.activations_put name _
  lookUp := activations_lookUp
  isBound s name := congrArg Option.isSome (s.activations_lookUp name)

/-! ## §8. The places on the stack -/

namespace ScopeStack

variable (st : ScopeStack) (f : Frame) (name : String)

/-- A call's table at the top is the boundary, and any other leaves it where it is. -/
theorem boundary_append :
    boundary (st ++ [f]) = if f.kind = .call then st.length else boundary st := by
  unfold boundary
  rw [List.length_append, List.length_singleton, List.range_succ, List.reverse_append,
    List.reverse_singleton, List.singleton_append, List.find?_cons]
  have htop : (st ++ [f])[st.length]? = some f := List.getElem?_concat_length
  have hbelow : ((List.range st.length).reverse.find? fun i =>
      (st ++ [f])[i]?.any fun f => f.kind = .call) =
      (List.range st.length).reverse.find? fun i => st[i]?.any fun f => f.kind = .call := by
    refine List.find?_congr fun i hi => ?_
    rw [List.getElem?_append_left (by simpa using hi)]
  rw [hbelow, htop]
  by_cases hcall : f.kind = .call <;> simp [hcall]

/-- The boundary is a place on the stack, or the end of an empty one. -/
theorem boundary_le : boundary st ≤ st.length := by
  unfold boundary
  cases h : (List.range st.length).reverse.find? fun i => st[i]?.any fun f => f.kind = .call with
  | none => exact Nat.zero_le _
  | some i =>
    have hmem := List.mem_of_find?_eq_some h
    rw [List.mem_reverse, List.mem_range] at hmem
    exact Nat.le_of_lt hmem

variable {st} (hst : st ≠ [])

include hst

/-- From a call's table at the top only the bottom is seen besides, from a block's table all that was
    seen before. -/
theorem places_append :
    places (st ++ [f]) = st.length :: if f.kind = .call then [0] else places st := by
  have hpos : 0 < st.length := List.length_pos_iff.mpr hst
  unfold places
  rw [boundary_append, List.length_append, List.length_singleton]
  by_cases hcall : f.kind = .call
  · simp only [if_pos hcall, if_pos hpos, Nat.add_sub_cancel_left]
    rfl
  · have hle := boundary_le st
    simp only [if_neg hcall, Nat.sub_add_comm hle, List.range'_1_concat, List.reverse_append,
      Nat.add_sub_cancel' hle]
    rfl

/-- A visible place is a place on the stack. -/
theorem lt_of_mem_places {i : Nat} (hi : i ∈ places st) : i < st.length := by
  have hpos : 0 < st.length := List.length_pos_iff.mpr hst
  have hle := boundary_le st
  unfold places at hi
  rw [List.mem_append, List.mem_reverse, List.mem_range'_1] at hi
  rcases hi with hi | hi
  · omega
  · split at hi
    · rw [List.mem_singleton.mp hi]
      exact hpos
    · cases hi

/-- **A name is found at the top if it is bound there**; below a call's table it can only be a global,
    and below a block's table it is found as if that table were not there. -/
theorem resolve_append : resolve (st ++ [f]) name =
    if f.bindings.contains name then some st.length
    else if f.kind = .call then if bindsAt st name 0 then some 0 else none
    else resolve st name := by
  have hpos : 0 < st.length := List.length_pos_iff.mpr hst
  -- the table at the top is tried first, and the tables below are what they were
  have htop : bindsAt (st ++ [f]) name st.length = f.bindings.contains name := by
    simp [bindsAt]
  have hbelow : ∀ i < st.length, bindsAt (st ++ [f]) name i = bindsAt st name i := by
    intro i hi
    unfold bindsAt
    rw [List.getElem?_append_left hi]
  unfold resolve
  rw [places_append f hst, List.find?_cons, htop]
  cases f.bindings.contains name with
  | true => rfl
  | false =>
    simp only [Bool.false_eq_true, if_false]
    -- below a call's table only the bottom is tried, below a block's table all that was tried
    -- before
    split
    · rw [List.find?_cons, hbelow 0 hpos]
      cases bindsAt st name 0 <;> rfl
    · exact List.find?_congr fun i hi => hbelow i (lt_of_mem_places hst hi)

/-- A name is found at a place on the stack. -/
theorem lt_of_resolve {i : Nat} (h : st.resolve name = some i) : i < st.length :=
  lt_of_mem_places hst (List.mem_of_find?_eq_some h)

omit hst

/-- A table binds a name if it holds a binding for it. -/
theorem bindsAt_eq_isSome (st : ScopeStack) (i : Nat) :
    st.bindsAt name i = (st.bindingAt? name i).isSome := by
  unfold bindsAt bindingAt?
  cases st[i]? <;> rfl

/-- Where a name is found, it is bound. -/
theorem resolve_isSome (st : ScopeStack) : (st.resolve name).isSome = (st.get? name).isSome := by
  unfold get?
  cases h : st.resolve name with
  | none => rfl
  | some i =>
    have hbinds : st.bindsAt name i = true := List.find?_some h
    rw [bindsAt_eq_isSome] at hbinds
    exact hbinds.symm

include hst

/-- What is found at the top, and what below it. -/
theorem get?_append : get? (st ++ [f]) name = (f.bindings.get? name).or
    (if f.kind = .call then st.bindingAt? name 0 else st.get? name) := by
  have hpos : 0 < st.length := List.length_pos_iff.mpr hst
  have hbelow : ∀ i < st.length, bindingAt? (st ++ [f]) name i = st.bindingAt? name i := by
    intro i hi
    unfold bindingAt?
    rw [List.getElem?_append_left hi]
  unfold get?
  rw [resolve_append f name hst]
  cases hf : f.bindings.get? name with
  | some b =>
    have hcontains : f.bindings.contains name = true := by simp [OrderedMap.contains, hf]
    rw [if_pos hcontains]
    simp [bindingAt?, hf]
  | none =>
    have hcontains : ¬f.bindings.contains name = true := by simp [OrderedMap.contains, hf]
    rw [if_neg hcontains, Option.none_or]
    split
    · -- below a call: the global, if there is one
      rw [bindsAt_eq_isSome]
      cases hglobal : st.bindingAt? name 0 with
      | some b => exact (hbelow 0 hpos).trans hglobal
      | none => rfl
    · cases hresolve : st.resolve name with
      | none => rfl
      | some i => exact hbelow i (lt_of_resolve name hst hresolve)

omit hst

/-- Setting below the top leaves the top. -/
theorem setAt_append {i : Nat} (hi : i < st.length) (b : Binding) :
    setAt (st ++ [f]) i name b = setAt st i name b ++ [f] := by
  unfold setAt
  apply List.ext_getElem?
  intro j
  rw [List.getElem?_modify]
  -- at a place below the top, or at the top and beyond
  by_cases hj : j < st.length
  · rw [List.getElem?_append_left hj, List.getElem?_append_left (by simpa using hj),
      List.getElem?_modify]
  · have hne : i ≠ j := by omega
    have hle : st.length ≤ j := Nat.le_of_not_lt hj
    rw [List.getElem?_append_right hle, List.getElem?_append_right (by simpa using hle),
      List.length_modify]
    simp [hne]

/-- Setting at the top changes only the table there. -/
theorem setAt_top (st : ScopeStack) (b : Binding) : setAt (st ++ [f]) st.length name b =
    st ++ [{ f with bindings := f.bindings.set name b }] := by
  unfold setAt
  apply List.ext_getElem?
  intro j
  rw [List.getElem?_modify]
  -- at a place below the top, at the top, or beyond
  by_cases hj : j < st.length
  · have hne : st.length ≠ j := by omega
    rw [List.getElem?_append_left hj, List.getElem?_append_left hj]
    simp [hne]
  · have hle : st.length ≤ j := Nat.le_of_not_lt hj
    rw [List.getElem?_append_right hle, List.getElem?_append_right hle]
    by_cases hj : st.length = j
    · simp [hj]
    · have hbeyond : j - st.length ≠ 0 := by omega
      obtain ⟨k, hk⟩ := Nat.exists_eq_succ_of_ne_zero hbeyond
      simp [hk]

end ScopeStack

namespace Scopes

/-- The globals and the frames on one stack. -/
def stack (s : Scopes) : ScopeStack := ⟨.block, s.globals⟩ :: s.frames.reverse

theorem stack_ne_nil (s : Scopes) : s.stack ≠ [] := List.cons_ne_nil _ _

/-- The innermost frame is at the top. -/
theorem stack_cons (globals : OrderedMap Binding) (f : Frame) (outer : List Frame) :
    stack ⟨globals, f :: outer⟩ = stack ⟨globals, outer⟩ ++ [f] := by
  unfold stack
  rw [List.reverse_cons, List.cons_append]

/-- **What is found by places on the stack is the visible binding.** -/
theorem stack_get? (s : Scopes) (name : String) : s.stack.get? name = s.get? name := by
  obtain ⟨globals, frames⟩ := s
  induction frames with
  | nil =>
    -- the globals alone are the bottom and the top
    show ScopeStack.get? [⟨.block, globals⟩] name = globals.get? name
    cases hg : globals.get? name <;>
      simp [ScopeStack.get?, ScopeStack.resolve, ScopeStack.places, ScopeStack.boundary,
        ScopeStack.bindsAt, ScopeStack.bindingAt?, OrderedMap.contains, hg]
  | cons f outer ih =>
    rw [stack_cons, ScopeStack.get?_append f name (stack_ne_nil _), ih]
    obtain ⟨kind, m⟩ := f
    -- bound at the top, or looked for below it as far as a call allows
    cases hm : m.get? name with
    | some b => simp [get?, localBinding?, hm]
    | none =>
      cases kind with
      | call => simp [get?, localBinding?, hm, stack, ScopeStack.bindingAt?]
      | block => simp [get?, localBinding?, hm]

/-- What is set at the place of a name is set where it is visible. -/
theorem stack_set (s : Scopes) {name : String} {i : Nat} (h : s.stack.resolve name = some i)
    (b : Binding) : (s.set name b).stack = s.stack.setAt i name b := by
  obtain ⟨globals, frames⟩ := s
  induction frames generalizing i with
  | nil =>
    have hi : i < 1 := ScopeStack.lt_of_resolve name (stack_ne_nil _) h
    obtain rfl : i = 0 := by omega
    rfl
  | cons f outer ih =>
    have hpos : 0 < (stack ⟨globals, outer⟩).length := Nat.succ_pos _
    rw [stack_cons, ScopeStack.resolve_append f name (stack_ne_nil _)] at h
    rw [stack_cons]
    by_cases hf : f.bindings.contains name = true
    · rw [if_pos hf] at h
      cases h
      rw [ScopeStack.setAt_top, ← stack_cons]
      simp [set, setLocal?, hf]
    · rw [if_neg hf] at h
      cases hkind : f.kind with
      | call =>
        -- only the globals are left to be set
        rw [if_pos hkind] at h
        split at h
        · cases h
          rw [ScopeStack.setAt_append f name hpos]
          have hset : set ⟨globals, f :: outer⟩ name b =
              ⟨globals.set name b, f :: outer⟩ := by
            simp [set, setLocal?, hf, hkind]
          rw [hset, stack_cons]
          rfl
        · cases h
      | block =>
        rw [if_neg (by simp [hkind])] at h
        rw [ScopeStack.setAt_append f name (ScopeStack.lt_of_resolve name (stack_ne_nil _) h), ← ih h]
        have hset : set ⟨globals, f :: outer⟩ name b =
            ⟨(set ⟨globals, outer⟩ name b).globals, f :: (set ⟨globals, outer⟩ name b).frames⟩ := by
          unfold set
          cases hlocal : setLocal? name b outer <;> simp [setLocal?, hf, hkind, hlocal]
        rw [hset, stack_cons]

/-- Closing a frame drops the table at the top, and no frame leaves the globals. -/
theorem stack_pop (s : Scopes) : s.pop.stack = s.stack.pop := by
  obtain ⟨globals, frames⟩ := s
  cases frames with
  | nil => rfl
  | cons f outer =>
    have hlong : 1 < (stack ⟨globals, outer⟩ ++ [f]).length := by simp [stack]
    rw [stack_cons, ScopeStack.pop, if_pos hlong, List.dropLast_concat]
    rfl

/-- A name is bound at the top if it is in the current table. -/
theorem stack_bindsAt_top (s : Scopes) (name : String) :
    s.stack.bindsAt name s.stack.top = s.current.contains name := by
  obtain ⟨globals, frames⟩ := s
  cases frames with
  | nil => rfl
  | cons f outer =>
    rw [stack_cons]
    simp [ScopeStack.bindsAt, ScopeStack.top, current]

/-- Binding in the current frame is setting at the top. -/
theorem stack_bind (s : Scopes) (name : String) (b : Binding) :
    (s.bind name b).stack = s.stack.setAt s.stack.top name b := by
  obtain ⟨globals, frames⟩ := s
  cases frames with
  | nil => rfl
  | cons f outer =>
    have htop : ScopeStack.top (stack ⟨globals, outer⟩ ++ [f]) = (stack ⟨globals, outer⟩).length := by
      simp [ScopeStack.top]
    rw [stack_cons, htop, ScopeStack.setAt_top, ← stack_cons]
    rfl

/-- Declarations are refused, fail and succeed alike. -/
theorem stack_declare (s : Scopes) (name : String) (type : Ty) (value : Value) (constant : Bool)
    (h : Heap) : s.stack.declare name type value constant h =
      (s.declare name type value constant h).map fun made => (made.1.stack, made.2) := by
  rw [declare_run]
  unfold ScopeStack.declare
  rw [stack_bindsAt_top]
  split
  · rfl
  · exact ScopeModel.map_viewed _ (fun v => s.stack_bind name ⟨type, v, constant⟩) _

/-- So are assignments, which set at the place of the name. -/
theorem stack_assign (s : Scopes) (name : String) (value : Value) (h : Heap) :
    s.stack.assign name value h =
      (s.assign name value h).map fun made => (made.1.stack, made.2) := by
  have hfound := s.stack_get? name
  have hsome := ScopeStack.resolve_isSome name s.stack
  rw [assign_run]
  unfold ScopeStack.assign
  cases hresolve : s.stack.resolve name with
  | none =>
    -- no place, no binding
    rw [hresolve, hfound] at hsome
    cases hget : s.get? name with
    | none => rfl
    | some b =>
      rw [hget] at hsome
      cases hsome
  | some i =>
    -- the binding at the place is the visible one
    have hbinding : s.stack.bindingAt? name i = s.get? name := by
      rw [← hfound, ScopeStack.get?, hresolve]
      rfl
    dsimp only
    rw [hbinding]
    cases s.get? name with
    | none => rfl
    | some b =>
      dsimp only
      split
      · rfl
      · exact ScopeModel.map_viewed _ (fun v => s.stack_set hresolve { b with value := v }) _

/-- **The scopes are the one stack.** -/
theorem stack_refined : ScopeStack.model.Refined Scopes.stack where
  openBlock s := stack_cons s.globals _ s.frames
  openCall s := stack_cons s.globals _ s.frames
  close := stack_pop
  declare := stack_declare
  assign := stack_assign
  rebind s name _ := s.stack_bind name _
  lookUp := stack_get?
  isBound s name := (ScopeStack.resolve_isSome name s.stack).trans
    (congrArg Option.isSome (s.stack_get? name))

end Scopes

/-! ## §9. Sequences of operations -/

section Sequences

variable {A : Type} {M : ScopeModel A} {view : Scopes → A}

/-- A change of the scopes and one of the other arrangement that does the same are answered alike. -/
theorem changeScopes_refines (f : Scopes → Alloc Scopes)
    (change : A → Heap → Except Error (A × Heap)) (s : State)
    (h : change (view s.scopes) s.heap =
      (f s.scopes s.heap).map fun made => (view made.1, made.2)) :
    ∃ t, (ScopeAnswer.ofChange <$> (Eval.changeScopes f).run : Run ScopeAnswer) s =
        some ((ScopeModel.attempt change (view s.scopes, s.heap)).1, t) ∧
      (view t.scopes, t.heap) = (ScopeModel.attempt change (view s.scopes, s.heap)).2 := by
  show ∃ t, ((Eval.changeScopes f).run s).bind (fun p => some (ScopeAnswer.ofChange p.1, p.2)) = _ ∧ _
  rw [Eval.changeScopes_run]
  unfold ScopeModel.attempt
  dsimp only
  rw [h]
  -- a change that fails leaves both as they were
  cases f s.scopes s.heap with
  | error e => exact ⟨s, rfl, rfl⟩
  | ok made => exact ⟨_, rfl, rfl⟩

/-- **One operation**: the scopes answer as the other arrangement does, and are seen as what it has
    become afterwards. -/
theorem ScopeOp.perform_refines (hM : M.Refined view) (op : ScopeOp) (s : State) :
    ∃ t, op.perform s = some ((M.consult op (view s.scopes, s.heap)).1, t) ∧
      (view t.scopes, t.heap) = (M.consult op (view s.scopes, s.heap)).2 := by
  cases op with
  | openBlock => exact ⟨_, rfl, congrArg (·, s.heap) (hM.openBlock s.scopes)⟩
  | openCall => exact ⟨_, rfl, congrArg (·, s.heap) (hM.openCall s.scopes)⟩
  | close => exact ⟨_, rfl, congrArg (·, s.heap) (hM.close s.scopes)⟩
  | declare name type value constant =>
    exact changeScopes_refines _ _ s (hM.declare s.scopes name type value constant s.heap)
  | assign name value => exact changeScopes_refines _ _ s (hM.assign s.scopes name value s.heap)
  | rebind name value => exact ⟨_, rfl, congrArg (·, s.heap) (hM.rebind s.scopes name value)⟩
  | lookUp name =>
    refine ⟨s, ?_, rfl⟩
    show some (ScopeAnswer.binding (s.scopes.get? name), s) = _
    rw [← hM.lookUp]
    rfl
  | isBound name =>
    refine ⟨s, ?_, rfl⟩
    show some (ScopeAnswer.truth (s.scopes.isBound name), s) = _
    rw [← hM.isBound]
    rfl
  | objects heap => exact ⟨_, rfl, rfl⟩

/-- **A sequence of operations**, by induction from one. -/
theorem ScopeOp.performAll_refines (hM : M.Refined view) (ops : List ScopeOp) (s : State) :
    ∃ t, ops.mapM ScopeOp.perform s =
        some ((ops.mapM M.consult (view s.scopes, s.heap)).1, t) ∧
      (view t.scopes, t.heap) = (ops.mapM M.consult (view s.scopes, s.heap)).2 := by
  induction ops generalizing s with
  | nil => exact ⟨s, rfl, rfl⟩
  | cons op ops ih =>
    -- the first operation, and the others from the state that it leaves
    obtain ⟨t, hop, hview⟩ := op.perform_refines hM s
    obtain ⟨u, hops, hlast⟩ := ih t
    rw [hview] at hops hlast
    refine ⟨u, ?_, ?_⟩
    · rw [List.mapM_cons, List.mapM_cons]
      show (op.perform s).bind (fun p => (ops.mapM ScopeOp.perform p.2).bind fun q =>
        some (p.1 :: q.1, q.2)) = _
      rw [hop, Option.bind_some, hops]
      rfl
    · rw [List.mapM_cons]
      exact hlast

end Sequences

/-- An operation that is refused changes nothing. -/
theorem ScopeOp.perform_refused {op : ScopeOp} {s t : State} {e : Error}
    (h : op.perform s = some (.refused e, t)) : t = s := by
  -- only changes are refused, and then they change nothing
  have hchange : ∀ f : Scopes → Alloc Scopes,
      (ScopeAnswer.ofChange <$> (Eval.changeScopes f).run : Run ScopeAnswer) s =
        some (.refused e, t) → t = s := by
    intro f hf
    have hrun : ((Eval.changeScopes f).run s).bind
        (fun p => some (ScopeAnswer.ofChange p.1, p.2)) = some (.refused e, t) := hf
    rw [Eval.changeScopes_run] at hrun
    cases hmade : f s.scopes s.heap with
    | ok made =>
      rw [hmade] at hrun
      cases hrun
    | error e' =>
      rw [hmade] at hrun
      cases hrun
      rfl
  cases op with
  | declare name type value constant => exact hchange _ h
  | assign name value => exact hchange _ h
  | _ => cases h

/-- **The stack of scopes is a stack of activation records.**  Whatever is asked of scopes that begin
    with the globals alone, in whatever order, is answered as activation records answer it, and so it
    is by one stack on which names are found by trying places; and an operation that is refused, on
    whatever scopes, leaves them as they were. -/
theorem scopes_are_activation_records (ops : List ScopeOp) (s : State) :
    (∃ t, ops.mapM ScopeOp.perform { s with scopes := .empty } =
        some ((ops.mapM Activations.model.consult ({}, s.heap)).1, t) ∧
      (t.scopes.activations, t.heap) = (ops.mapM Activations.model.consult ({}, s.heap)).2 ∧
      ops.mapM ScopeStack.model.consult (.empty, s.heap) =
        ((ops.mapM Activations.model.consult ({}, s.heap)).1, (t.scopes.stack, t.heap))) ∧
    ∀ op e t, ScopeOp.perform op s = some (.refused e, t) → t = s := by
  constructor
  · let start : State := { s with scopes := .empty }
    obtain ⟨t, hrecords, hview⟩ := ScopeOp.performAll_refines Scopes.activations_refined ops start
    obtain ⟨t', hstack, hview'⟩ := ScopeOp.performAll_refines Scopes.stack_refined ops start
    -- both runs are the same run of the scopes, so the two models have given the same answers
    obtain ⟨hanswers, rfl⟩ := Prod.mk.inj (Option.some.inj (hstack.symm.trans hrecords))
    exact ⟨t', hrecords, hview, Prod.ext hanswers hview'.symm⟩
  · intro op e t h
    exact ScopeOp.perform_refused h

/-- A call opened inside a block sees the constant behind the block's name; closing once too often
    leaves it; and assigning to a name that is not bound is refused. -/
theorem scopes_are_activation_records_unbalanced :
    let one : Binding := ⟨.int, .int 1, true⟩
    let ops : List ScopeOp :=
      [.declare "x" .int (.int 1) true, .openBlock, .declare "x" .string (.string "b") false,
        .openCall, .lookUp "x", .close, .close, .close, .lookUp "x"]
    (∃ t, ops.mapM ScopeOp.perform {} =
      some ([.done, .done, .done, .done, .binding (some one), .done, .done, .done,
        .binding (some one)], t)) ∧
    ∃ e t, ScopeOp.perform (.assign "y" .nil) {} = some (.refused e, t) ∧ t = {} := by
  intro one ops
  obtain ⟨⟨t, hrun, -⟩, hrefused⟩ := scopes_are_activation_records ops {}
  constructor
  · exact ⟨t, hrun⟩
  · exact ⟨.undefinedVariable "y", {}, rfl, hrefused (.assign "y" .nil) _ _ rfl⟩

end Scriptlet
