/-
  Scriptlet.Proofs.Presence — an optional with content holds something that is there.

  A `?.` asks once whether its target is absent and then takes off one optional, without asking again
  what was in it.  So it relies on every optional with content holding something: neither `nil` nor an
  empty optional.  Conversion makes no other ones, also where it wraps twice or wraps anew what was
  wrapped before; and nothing else in a run makes optionals at all.

  Main results:
    * `optionals_hold_something` — bindings, objects, values and targets of `?.`, at every moment.
-/
import Scriptlet.Proofs.Retelling
import Scriptlet.Proofs.Scoping

namespace Scriptlet

/-! ## §1. Firm values -/

/-- No optional in the value has content that is absent. -/
def Value.Firm : Value → Prop
  | .just _ content => content.isAbsent = false ∧ content.Firm
  | _ => True

/-- Every value in an array or a dictionary is firm. -/
structure Heap.Firm (h : Heap) : Prop where
  items : ∀ ref, ∀ v ∈ h.items ref, v.Firm
  table : ∀ ref, (h.table ref).All Value.Firm

/-- Every value in an object or a binding is firm. -/
structure State.Firm (s : State) : Prop where
  heap : s.heap.Firm
  scopes : s.scopes.All fun b => b.value.Firm

/-- What a `?.` goes on with is there, if its target is firm. -/
theorem Value.Firm.linkTarget {target w : Value} (h : target.Firm)
    (hw : Eval.linkTarget true target = some w) : w.isAbsent = false := by
  cases target with
  | nil | nothing => cases hw
  | just i content =>
    cases hw
    exact h.1
  | _ =>
    cases hw
    rfl

/-- Every value is firm; of errors nothing is asked. -/
def Discipline.firm : Discipline where
  value _ v := v.Firm
  error _ := True
  grow _ hv := hv
  plain _ v hv := by
    cases v with
    | just i content => cases hv
    | _ => trivial
  array _ := trivial
  dict _ := trivial
  nothing _ := trivial
  just _ hpresent hv := ⟨hpresent, hv⟩
  rewrap hold hpresent _ hw := ⟨hpresent hold.1, hw⟩
  content hv := hv.2
  recoverable _ := trivial

/-- That every value is firm is what the discipline asks. -/
theorem Heap.Firm.sound {h : Heap} (hh : h.Firm) : h.Sound .firm := ⟨hh.items, hh.table⟩

theorem Heap.Sound.firm {h : Heap} (hh : h.Sound .firm) : h.Firm := ⟨hh.items, hh.table⟩

/-! ## §2. Hosts and states -/

/-- Where it is given firm values only, the tool gives and leaves firm values only. -/
def Tool.SuppliesFirm (tool : Tool) : Prop :=
  ∀ args h, h.Firm → (∀ v ∈ args, v.Firm) →
    (tool.run args h).2.Firm ∧ ∀ v, (tool.run args h).1 = .ok v → v.Firm

/-- So do the tools of the host that are not builtins, and its modules export firm values. -/
structure Host.SuppliesFirm (host : Host) : Prop where
  tools : ∀ name tool, OrderedMap.get? host.tools name = some tool →
    OrderedMap.get? Builtin.toolbox name = some tool ∨ tool.SuppliesFirm
  exports : ∀ name v, host.resolver name = .ok (some (.value v)) → v.Firm

/-- What is asked of a tool is what the discipline asks of it. -/
theorem Tool.SuppliesFirm.obeys {tool : Tool} (ht : tool.SuppliesFirm) {h : Heap}
    (hs : h.Sound .firm) {args : List Value} (ha : ∀ v ∈ args, v.Firm) :
    ToolRun.Obeys .firm h (tool.run args) := by
  obtain ⟨hheap, hresult⟩ := ht args h hs.firm ha
  refine ⟨⟨fun _ hv => hv, hheap.sound⟩, ?_⟩
  cases hr : (tool.run args h).1 with
  | ok v => exact hresult v hr
  | error e => trivial

/-- A host that supplies firm values only obeys the discipline. -/
theorem Host.SuppliesFirm.obeys {host : Host} (hhost : host.SuppliesFirm) (h : Heap) :
    host.Obeys .firm h where
  exports := hhost.exports
  refusals _ _ _ := trivial
  tools name args h' _ hs ha := by
    refine Toolbox.call_obeys hs host.tools name args fun tool ht => ?_
    rcases hhost.tools name tool ht with hbuiltin | hfirm
    · exact Builtin.registered_obeys hs hbuiltin args
    · exact hfirm.obeys hs ha

/-- A firm state is a sound one, under such a host. -/
theorem State.Firm.sound {s : State} (hs : s.Firm) {host : Host} (hhost : host.SuppliesFirm) :
    s.Sound host .firm :=
  ⟨hs.heap.sound, hs.scopes, hhost.obeys s.heap⟩

theorem State.Sound.firm {s : State} {host : Host} (hs : s.Sound host .firm) : s.Firm :=
  ⟨hs.heap.firm, hs.scopes⟩

/-- The states that come about from one without bindings, in which there are the objects of the
    modules' exports, by running programs, statements and expressions with any outcome. -/
inductive State.Arises : State → Prop
  | fresh {h} : h.Firm → Arises { heap := h }
  | program {host fuel program errors s t} : Arises s → host.SuppliesFirm →
      Program.exec host fuel program s = some (errors, t) → Arises t
  | block {host fuel body signal s t} : Arises s → host.SuppliesFirm →
      Block.exec host fuel body s = some (signal, t) → Arises t
  | expression {host fuel e r s t} : Arises s → host.SuppliesFirm →
      Expr.eval host fuel e s = some (r, t) → Arises t

/-- **Such a state is firm.** -/
theorem State.Arises.firm {s : State} (hs : s.Arises) : s.Firm := by
  induction hs with
  | fresh hh => exact ⟨hh, .empty⟩
  | program _ hhost hrun ih =>
    obtain ⟨signal, u, hblock, hscopes, hheap, -⟩ := Program.exec_block hrun
    have hu := ((Block.exec_effect (ih.sound hhost) hblock).1.sound (ih.sound hhost)).1.firm
    exact ⟨hheap ▸ hu.heap, hscopes ▸ hu.scopes⟩
  | block _ hhost hrun ih =>
    exact ((Block.exec_effect (ih.sound hhost) hrun).1.sound (ih.sound hhost)).1.firm
  | expression _ hhost hrun ih =>
    exact ((Expr.eval_effect (ih.sound hhost) hrun).1.sound (ih.sound hhost)).1.firm

/-! ## §3. Every moment of a run -/

/-- At that moment all bindings and objects are firm, and so is what is evaluated or met there; what
    a `?.` goes on with is present. -/
structure Event.Firm (ev : Event) : Prop where
  state : ev.state.Firm
  value : ∀ v, ev.value? = some v → v.Firm
  target : ∀ target, ev.target? = some target → target.Firm
  link : ∀ target w, ev.target? = some target → Eval.linkTarget true target = some w →
    w.isAbsent = false

theorem Event.Good.firm {host : Host} {ev : Event} (hev : ev.Good host .firm) : ev.Firm where
  state := hev.state.firm
  value := hev.value
  target := hev.target
  link target _ htarget hw := Value.Firm.linkTarget (hev.target target htarget) hw

/-- Every moment of a chronicle under the discipline is firm. -/
theorem Chronicle.firm {host : Host} {traced : List String} {log : List Event}
    (hlog : Chronicle host .firm traced log) : ∀ ev ∈ log, ev.Firm := by
  intro ev hev
  obtain ⟨before, after, heq⟩ := List.append_of_mem hev
  exact (hlog before ev after heq).1.firm

/-- **An optional with content holds something that is there.**  In a state that comes about by runs
    under hosts that supply nothing else, no value in a binding, an array, a dictionary or an optional
    is an optional around `nil` or an empty optional.  Neither is one at any moment of a further run,
    an endless one included, nor any value that is evaluated in it or returned from it; and each time
    that the target of a `?.` is not absent, neither is what the `?.` goes on with. -/
theorem optionals_hold_something (s : State) (hs : s.Arises) (host : Host)
    (hhost : host.SuppliesFirm) (fuel : Nat) :
    s.Firm ∧
    (∀ body, (Record.exec host fuel body).outcome s = Block.exec host fuel body s ∧
      (∀ ev ∈ (Record.exec host fuel body).log s, ev.Firm) ∧
      ∀ signal t, Block.exec host fuel body s = some (signal, t) → signal.All Value.Firm) ∧
    (∀ e, (Record.eval host fuel e).run.outcome s = Expr.eval host fuel e s ∧
      (∀ ev ∈ (Record.eval host fuel e).run.log s, ev.Firm) ∧
      ∀ v t, Expr.eval host fuel e s = some (.ok v, t) → v.Firm) := by
  have hsound := hs.firm.sound hhost
  obtain ⟨heval, hexec⟩ := Record.run_tells host .firm fuel
  refine ⟨hs.firm, fun body => ?_, fun e => ?_⟩
  · obtain ⟨houtcome, hlog, hresult⟩ := hexec body s hsound
    exact ⟨houtcome, hlog.firm, fun signal t h => (hresult signal t h).2⟩
  · obtain ⟨houtcome, hlog, hresult⟩ := heval e s hsound
    exact ⟨houtcome, hlog.firm, fun v t h => (hresult (.ok v) t h).2⟩

/-- A tool that gives an optional, put into an optional of optionals; an export that is one; and a
    `?.` on each.  The first target holds another optional, which holds something in its turn. -/
theorem optionals_hold_something_through_tools :
    let tool : Tool :=
      ⟨"wrapped", "an optional", some 0, fun _ h =>
        (.ok (h.newJust (.string "abc")).1, (h.newJust (.string "abc")).2)⟩
    let host : Host :=
      { tools := Builtin.toolbox.register tool
        resolver := fun name =>
          .ok (if name == "limit" then some (.value (.just ⟨0⟩ (.int 7))) else none) }
    let body : List Stmt :=
      [.declare "a" (some (.optional (.optional .any))) (.call "wrapped" []) false,
        .print (.member (.var "a") "length" true),
        .print (.method (.var "limit") "toString" [] true)]
    host.SuppliesFirm ∧
    ((Record.exec host 9 body).log {}).filterMap Event.target? =
      [.just ⟨2⟩ (.just ⟨1⟩ (.string "abc")), .just ⟨0⟩ (.int 7)] ∧
    (Record.exec host 9 body).outcome {} = Block.exec host 9 body {} ∧
    ∀ ev ∈ (Record.exec host 9 body).log {}, ev.Firm := by
  intro tool host body
  -- the optional of the tool has a string in it
  have htool : tool.SuppliesFirm := by
    intro args h hh _
    refine ⟨⟨hh.items, hh.table⟩, fun v hv => ?_⟩
    cases hv
    exact ⟨rfl, trivial⟩
  -- all other tools are builtins, and the one export has a number in it
  have hhost : host.SuppliesFirm := by
    constructor
    · intro name found ht
      have ht : (OrderedMap.set Builtin.toolbox "wrapped" tool).get? name = some found := ht
      rw [OrderedMap.get?_set] at ht
      split at ht
      · cases ht
        exact .inr htool
      · exact .inl ht
    · intro name v hv
      have hv := Except.ok.inj hv
      split at hv
      · cases hv
        exact ⟨rfl, trivial⟩
      · cases hv
  have hfresh : State.Arises {} := .fresh Heap.Sound.empty.firm
  obtain ⟨-, hexec, -⟩ := optionals_hold_something {} hfresh host hhost 9
  obtain ⟨houtcome, hfirm, -⟩ := hexec body
  exact ⟨hhost, by decide +kernel, houtcome, hfirm⟩

end Scriptlet
