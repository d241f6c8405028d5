/-
  Scriptlet.Proofs.Isolation — a call does not depend on the frames of its caller.

  The frames of the caller stand in the same stack as those of the callee, and nothing keeps a
  look-up from reaching them but the frame of the call in between.  So the two runs that are compared
  have the same frames down to and including that frame, and any frames below it: this is a
  `Simulation`, because looking up, assigning and binding stop at the frame of the call.

  Main results:
    * `isolation` — the simulation between runs over different frames below a call.
    * `calls_ignore_their_caller` — a call comes to the same over any frames, or to nothing.
-/
import Scriptlet.Proofs.Simulation

namespace Scriptlet

/-! ## §1. Frames below a call -/

/-- Whether a call is among the frames. -/
def Scopes.sealed (frames : List Frame) : Prop := FrameKind.call ∈ frames.map (·.kind)

namespace Scopes

theorem sealed.outer {f : Frame} {outer : List Frame} (h : sealed (f :: outer))
    (hf : f.kind = .block) : sealed outer := by
  unfold sealed at h ⊢
  rw [List.map_cons, List.mem_cons, hf] at h
  rcases h with h | h
  · cases h
  · exact h

/-- Looking up does not go below a call. -/
theorem localBinding?_append {own : List Frame} (below : List Frame) (h : sealed own)
    (name : String) : localBinding? name (own ++ below) = localBinding? name own := by
  induction own with
  | nil => cases h
  | cons f outer ih =>
    rw [List.cons_append, localBinding?, localBinding?]
    split
    · rfl
    · rename_i hkind
      exact ih (h.outer hkind)
    · rfl

/-- Setting a name does not go below a call. -/
theorem setLocal?_append {own : List Frame} (below : List Frame) (h : sealed own) (name : String)
    (b : Binding) :
    setLocal? name b (own ++ below) = (setLocal? name b own).map (· ++ below) := by
  induction own with
  | nil => cases h
  | cons f outer ih =>
    rw [List.cons_append, setLocal?, setLocal?]
    -- bound in this frame, or further out up to the frame of the call
    by_cases hname : f.bindings.contains name
    · simp [hname]
    · rw [if_neg hname, if_neg hname]
      cases hkind : f.kind with
      | block =>
        dsimp only
        rw [ih (h.outer hkind)]
        cases setLocal? name b outer <;> rfl
      | call => rfl

theorem setLocal?_kinds {name : String} {b : Binding} {fs gs : List Frame}
    (h : setLocal? name b fs = some gs) : gs.map (·.kind) = fs.map (·.kind) := by
  induction fs generalizing gs with
  | nil => cases h
  | cons f outer ih =>
    rw [setLocal?] at h
    split at h
    · cases h
      rfl
    · split at h
      · obtain ⟨gs', hgs', rfl⟩ := Option.map_eq_some_iff.mp h
        simp [ih hgs']
      · cases h

end Scopes

/-! ## §2. The simulation -/

/-- The state with these frames over the globals. -/
def State.over (s : State) (frames : List Frame) : State :=
  { s with scopes := { s.scopes with frames } }

/-- The two states are one state over frames of their own, below common frames of these kinds with a
    call among them. -/
def State.Above (below below' : List Frame) (ks : List FrameKind) (s t : State) : Prop :=
  FrameKind.call ∈ ks ∧ ∃ (base : State) (own : List Frame), own.map (·.kind) = ks ∧
    s = base.over (own ++ below) ∧ t = base.over (own ++ below')

namespace State.Above

variable {below below' : List Frame} {ks : List FrameKind} {s t : State}

theorem view_eq (h : State.Above below below' ks s t) : t.view = s.view := by
  obtain ⟨hcall, base, own, rfl, rfl, rfl⟩ := h
  -- the own frames reach down to that of the call, and what is below is not seen
  have hsealed : Scopes.sealed own := hcall
  have hlookup : ∀ fs name, Scopes.get? { base.scopes with frames := own ++ fs } name =
      Scopes.get? { base.scopes with frames := own } name := by
    intro fs name
    unfold Scopes.get?
    rw [Scopes.localBinding?_append fs hsealed]
  have hcurrent : ∀ fs, Scopes.current { base.scopes with frames := own ++ fs } =
      Scopes.current { base.scopes with frames := own } := by
    intro fs
    cases own with
    | nil => cases hcall
    | cons f outer => rfl
  simp [State.view, State.over, funext (hlookup _), hcurrent]

/-- An update does the same to both, in the common frames or outside all frames. -/
theorem update (u : Update) (h : State.Above below below' ks s t) :
    State.Above below below' ks (u.apply s) (u.apply t) := by
  obtain ⟨hcall, base, own, hkinds, rfl, rfl⟩ := h
  refine ⟨hcall, ?_⟩
  cases u with
  | heap h => exact ⟨{ base with heap := h }, own, hkinds, rfl, rfl⟩
  | print line => exact ⟨{ base with printed := base.printed.push line }, own, hkinds, rfl, rfl⟩
  | report e => exact ⟨Update.apply (.report e) base, own, hkinds, rfl, rfl⟩
  | define f => exact ⟨Update.apply (.define f) base, own, hkinds, rfl, rfl⟩
  | bind name b =>
    cases own with
    | nil =>
      subst hkinds
      cases hcall
    | cons f outer =>
      exact ⟨base, { f with bindings := f.bindings.set name b } :: outer, hkinds, rfl, rfl⟩
  | set name b =>
    have hsealed : Scopes.sealed own := by
      unfold Scopes.sealed
      rw [hkinds]
      exact hcall
    have hset : ∀ fs, Scopes.setLocal? name b (own ++ fs) =
        (Scopes.setLocal? name b own).map (· ++ fs) :=
      fun fs => Scopes.setLocal?_append fs hsealed name b
    simp only [Update.apply, State.over, Scopes.set, hset]
    cases hown : Scopes.setLocal? name b own with
    | some own' => exact ⟨base, own', (Scopes.setLocal?_kinds hown).trans hkinds, rfl, rfl⟩
    | none =>
      -- the name is not bound in the call, so it is a global in both
      exact ⟨Update.apply (.set name b) (base.over []), own, hkinds, rfl, rfl⟩

theorem announced (host : Host) (st : Stmt) (h : State.Above below below' ks s t) :
    State.Above below below' ks (host.announced st s) (host.announced st t) := by
  obtain ⟨hcall, base, own, hkinds, rfl, rfl⟩ := h
  refine ⟨hcall, host.announced st base, own, hkinds, ?_, ?_⟩ <;>
    (unfold Host.announced; split <;> rfl)

/-- One more common frame, and whatever else both states change alike. -/
theorem push {f : State → State} {k : FrameKind}
    (hf : ∀ base frames, f (State.over base frames) = (f base).over (⟨k, .empty⟩ :: frames))
    (h : State.Above below below' ks s t) : State.Above below below' (k :: ks) (f s) (f t) := by
  obtain ⟨hcall, base, own, hkinds, rfl, rfl⟩ := h
  refine ⟨List.mem_cons_of_mem k hcall, f base, ⟨k, .empty⟩ :: own, ?_, hf _ _, hf _ _⟩
  rw [List.map_cons, hkinds]

/-- One common frame less. -/
theorem pop {f : State → State} {k : FrameKind} (hcall : FrameKind.call ∈ ks)
    (hf : ∀ base frames, f (State.over base frames) = (f base).over frames.tail)
    (h : State.Above below below' (k :: ks) s t) : State.Above below below' ks (f s) (f t) := by
  obtain ⟨-, base, own, hkinds, rfl, rfl⟩ := h
  cases own with
  | nil => cases hkinds
  | cons g outer =>
    rw [List.map_cons, List.cons.injEq] at hkinds
    exact ⟨hcall, f base, outer, hkinds.2, hf _ _, hf _ _⟩

end State.Above

/-- **Runs inside a call do not tell the frames below the call apart.** -/
def isolation (host : Host) (below below' : List Frame) : Simulation host host where
  rel := State.Above below below'
  tools := rfl
  resolver := rfl
  view h := h.view_eq
  admits h := by
    obtain ⟨-, base, own, -, rfl, rfl⟩ := h
    rfl
  update u h := h.update u
  announce st h := h.announced host st
  openFrame k h := h.push (f := fun s => s.openFrame k) fun _ _ => rfl
  closeFrame h h' := h'.pop h.1 fun _ _ => rfl
  openCall h := h.push (f := State.openCall) fun _ _ => rfl
  closeCall h h' := h'.pop h.1 fun _ _ => rfl

/-! ## §3. Calls over any frames -/

/-- A call with these argument values: its frame is opened, the parameters are bound there, the body
    is executed, and the frame is closed. -/
def Func.call (host : Host) (fuel : Nat) (f : Func) (args : List Value) : Eval Value :=
  Eval.inCall (Eval.callBody (Expr.eval host fuel) (Block.exec host fuel) f args)

/-- The states agree on all but the frames over the globals. -/
structure State.Agrees (s t : State) : Prop where
  globals : t.scopes.globals = s.scopes.globals
  heap : t.heap = s.heap
  functions : t.functions = s.functions
  callDepth : t.callDepth = s.callDepth
  printed : t.printed = s.printed
  diagnostics : t.diagnostics = s.diagnostics
  pending : t.pending = s.pending

theorem State.Agrees.symm {s t : State} (h : s.Agrees t) : t.Agrees s :=
  ⟨h.globals.symm, h.heap.symm, h.functions.symm, h.callDepth.symm, h.printed.symm,
    h.diagnostics.symm, h.pending.symm⟩

theorem State.Agrees.over_eq {s t : State} (h : s.Agrees t) : s.over t.scopes.frames = t := by
  obtain ⟨⟨globals, frames⟩, heap, functions, callDepth, printed, diagnostics, pending⟩ := t
  obtain ⟨rfl, rfl, rfl, rfl, rfl, rfl, rfl⟩ := h
  rfl

/-- What a call comes to over the frames of one caller, it comes to over those of any other, with at
    least the same fuel. -/
theorem Func.call_over {host : Host} {f : Func} {args : List Value} {s t s' : State} {n m : Nat}
    {r : Except Error Value} (h : s.Agrees t) (hle : n ≤ m)
    (hrun : f.call host n args s = some (r, s')) :
    ∃ t', f.call host m args t = some (r, t') ∧ s'.Agrees t' ∧
      s'.scopes.frames = s.scopes.frames ∧ t'.scopes.frames = t.scopes.frames := by
  let S := isolation host s.scopes.frames t.scopes.frames
  -- inside the call the two states have its frame in common
  have hopen : S.rel [.call] s.openCall t.openCall := by
    refine ⟨List.mem_singleton_self _, s.openCall, [⟨.call, .empty⟩], rfl, rfl, ?_⟩
    rw [← h.over_eq]
    rfl
  have hbody : Eval.Follows S [.call] s.openCall t.openCall
      (Eval.callBody (Expr.eval host n) (Block.exec host n) f args)
      (Eval.callBody (Expr.eval host m) (Block.exec host m) f args) :=
    Eval.callBody_follows (S.run_follows hle).1 (S.run_follows hle).2 f args _ _
  have hopened := hrun.symm.trans (Run.inCall_run _ s)
  obtain ⟨⟨b, v⟩, hcall, hclosed⟩ := Option.map_eq_some_iff.mp hopened.symm
  cases hclosed
  obtain ⟨w, hcall', -, base, own, hkinds, rfl, rfl⟩ := hbody hopen b v hcall
  refine ⟨(base.over (own ++ t.scopes.frames)).closeCall, ?_, ?_⟩
  · refine (Run.inCall_run _ t).trans ?_
    rw [hcall']
    rfl
  · -- the only common frame is that of the call, and it is gone
    obtain ⟨g, rfl, -⟩ := List.map_eq_singleton_iff.mp hkinds
    exact ⟨⟨rfl, rfl, rfl, rfl, rfl, rfl, rfl⟩, rfl, rfl⟩

/-- **A call does not see its caller.**  From states that agree on all but their frames, it comes to
    nothing in both, or to the same result or error in both, and to states that agree again on all
    but their frames, which are those from before; and this does not depend on the fuel. -/
theorem calls_ignore_their_caller (host : Host) (f : Func) (args : List Value) (s t : State)
    (h : s.Agrees t) :
    (∀ fuel,
      (f.call host fuel args s = none ∧ f.call host fuel args t = none) ∨
      ∃ r s' t', f.call host fuel args s = some (r, s') ∧ f.call host fuel args t = some (r, t') ∧
        s'.Agrees t' ∧ s'.scopes.frames = s.scopes.frames ∧
        t'.scopes.frames = t.scopes.frames) ∧
    (∀ n m r r' s' t', f.call host n args s = some (r, s') →
      f.call host m args t = some (r', t') → r' = r ∧ s'.Agrees t') := by
  refine ⟨fun fuel => ?_, fun n m r r' s' t' hs ht => ?_⟩
  · cases hs : f.call host fuel args s with
    | some p =>
      obtain ⟨t', ht, hrest⟩ := Func.call_over h (Nat.le_refl fuel) hs
      exact .inr ⟨p.1, p.2, t', rfl, ht, hrest⟩
    | none =>
      cases ht : f.call host fuel args t with
      | none => exact .inl ⟨rfl, rfl⟩
      | some p =>
        obtain ⟨s', hs', -⟩ := Func.call_over h.symm (Nat.le_refl fuel) ht
        rw [hs] at hs'
        cases hs'
  · -- more fuel does not change a run that has ended, so the shorter one is carried over
    rcases Nat.le_total n m with hle | hle
    · obtain ⟨u, hu, hagrees, -⟩ := Func.call_over h hle hs
      rw [ht] at hu
      cases hu
      exact ⟨rfl, hagrees⟩
    · obtain ⟨u, hu, hagrees, -⟩ := Func.call_over h.symm hle ht
      rw [hs] at hu
      cases hu
      exact ⟨rfl, hagrees.symm⟩

/-- A caller with locals of the names that the callee uses, and one without any frame: the callee
    assigns the global, loops with a variable of its own, and calls itself. -/
theorem calls_ignore_their_caller_locals :
    let f : Func := ⟨"f", [⟨"again", .bool, some (.var "b")⟩], .int,
      [.forIn "i" (.array [.int 1, .int 6]) [.assign "n" (.var "i")],
        .ifThen (.var "again") [.ret (.call "f" [.bool false])],
        .ret (.var "n")]⟩
    let base : State :=
      { scopes :=
          { globals :=
              (OrderedMap.empty.set "n" ⟨.int, .int 2, false⟩).set "b" ⟨.bool, .bool true, true⟩ }
        functions := OrderedMap.empty.set "f" f }
    let local' : Frame :=
      ⟨.block, (OrderedMap.empty.set "n" ⟨.int, .int 70, true⟩).set "i" ⟨.bool, .bool true, true⟩⟩
    ∃ r s' t', f.call {} 9 [] (base.over [local', ⟨.call, .empty⟩]) = some (r, s') ∧
      f.call {} 9 [] base = some (r, t') ∧ r.toOption = some (.int 6) ∧
      s'.scopes.frames ≠ t'.scopes.frames ∧ s'.Agrees t' := by
  intro f base local'
  have h : (base.over [local', ⟨.call, .empty⟩]).Agrees base := ⟨rfl, rfl, rfl, rfl, rfl, rfl, rfl⟩
  have hresult : (f.call {} 9 [] base).map (·.1.toOption) = some (some (.int 6)) := by
    decide +kernel
  obtain ⟨⟨r, t'⟩, ht, hr⟩ := Option.map_eq_some_iff.mp hresult
  rcases (calls_ignore_their_caller {} f [] _ _ h).1 9 with ⟨-, hnone⟩ |
    ⟨r', s', t'', hs, ht', hagrees, hframes, hframes'⟩
  · rw [ht] at hnone
    cases hnone
  · rw [ht] at ht'
    cases ht'
    refine ⟨r, s', t', hs, ht, hr, ?_, hagrees⟩
    rw [hframes, hframes']
    exact nofun

end Scriptlet
