/-
  Scriptlet.Proofs.Severity — how bad an error is follows from where it comes from.

  Readers fail only with errors that are fatal, and runs only with errors that give up a statement,
  if the tools and modules of the host do so as well; of the builtins, which read numbers themselves,
  this need not be asked.  A text that is no program leaves nothing behind but one line.

  Main results:
    * `severity_matches_origin` — readers, runs, and texts that cannot be read.
-/
import Scriptlet.Proofs.Reports
import Scriptlet.Proofs.SourceErrors
import Scriptlet.Session

namespace Scriptlet

/-- Of values nothing is asked; errors give up one statement only. -/
def Discipline.recovering : Discipline :=
  { Discipline.any with
    error := fun e => e.severity = .recoverable
    recoverable := id }

/-- The tool fails with errors that give up one statement only. -/
def Tool.Recovers (tool : Tool) : Prop :=
  ∀ args h e, (tool.run args h).1 = .error e → e.severity = .recoverable

/-- So do the tools of the host that are not builtins, and its modules. -/
structure Host.Recovers (host : Host) : Prop where
  tools : ∀ name tool, OrderedMap.get? host.tools name = some tool →
    OrderedMap.get? Builtin.toolbox name = some tool ∨ tool.Recovers
  modules : ∀ name e, host.resolver name = .error e → e.severity = .recoverable

theorem Heap.Sound.recovering (h : Heap) : h.Sound .recovering :=
  ⟨fun _ _ _ => trivial, fun _ _ _ _ => trivial⟩

theorem ToolRun.Obeys.recovering {h : Heap} {run : ToolRun}
    (hrun : ∀ e, (run h).1 = .error e → e.severity = .recoverable) :
    ToolRun.Obeys .recovering h run := by
  refine ⟨⟨fun _ _ => trivial, .recovering _⟩, ?_⟩
  cases hr : (run h).1 with
  | ok v => trivial
  | error e => exact hrun e hr

/-- Nothing but a recoverable error comes from such a host. -/
theorem Host.Recovers.obeys {host : Host} (hhost : host.Recovers) (h : Heap) :
    host.Obeys .recovering h where
  exports _ _ _ := trivial
  refusals := hhost.modules
  tools name args h' _ hs _ := by
    refine Toolbox.call_obeys hs host.tools name args fun tool ht => ?_
    rcases hhost.tools name tool ht with hbuiltin | hrecovers
    · exact Builtin.registered_obeys hs hbuiltin args
    · exact .recovering fun e => hrecovers args h' e

theorem State.Sound.recovering {host : Host} (hhost : host.Recovers) (s : State) :
    s.Sound host .recovering where
  heap := .recovering s.heap
  scopes := ⟨fun _ _ _ => trivial, fun _ _ _ _ _ => trivial⟩
  host := hhost.obeys s.heap

/-- Reading a text that is no program adds one line to the diagnostics and does nothing else; lines
    of earlier runs that are still to be delivered are delivered first. -/
theorem Session.run_unreadable (s : Session) {source : String} {e : Error}
    (h : Program.parse source = .error e) :
    s.run source =
      some (.error e, { s.deliver with diag := s.deliver.diag.writeLine ("Error: " ++ e.message) }) := by
  unfold Session.run
  rw [h]
  show some (Except.error e, Session.deliver { s with state :=
    { s.state with diagnostics := s.state.diagnostics.push (.error e) } }) = _
  unfold Session.deliver Sink.writeLines
  simp only [Array.toList_push, List.map_append, List.foldl_append, List.map_cons, List.map_nil,
    List.foldl_cons, List.foldl_nil, Diagnostic.text]

/-- **How bad an error is follows from where it comes from.**  The errors of reading are fatal.  The
    errors that a run reports or an evaluation fails with give up a statement only, where tools that
    are no builtins and modules keep to that.  And a text that is no program changes nothing of a
    session but its diagnostics, which gain exactly one line. -/
theorem severity_matches_origin :
    (∀ source e, Program.parse source = .error e → e.severity = .fatal) ∧
    (∀ source e, Expr.parse source = .error e → e.severity = .fatal) ∧
    (∀ (host : Host) (fuel : Nat) (s : State), host.Recovers →
      (∀ program errors t, Program.exec host fuel program s = some (errors, t) →
        ∃ reported, errors = s.pending.toList ++ reported ∧
          ∀ e ∈ reported, e.severity = .recoverable) ∧
      (∀ expr r t, Expr.eval host fuel expr s = some (r, t) →
        (∀ e, r = .error e → e.severity = .recoverable) ∧
        ∃ reported, t.pending.toList = s.pending.toList ++ reported ∧
          ∀ e ∈ reported, e.severity = .recoverable)) ∧
    (∀ (s : Session) source e, Program.parse source = .error e →
      s.run source = some (.error e,
        { s.deliver with diag := s.deliver.diag.writeLine ("Error: " ++ e.message) }) ∧
      '\n' ∉ e.message.toList) := by
  refine ⟨fun _ _ h => (Program.parse_error h).fatal, fun _ _ h => (Expr.parse_error h).fatal,
    ?_, fun s _ _ h => ⟨s.run_unreadable h, (Program.parse_error h).oneLine⟩⟩
  intro host fuel s hhost
  -- the host recovers, so that errors which are not recoverable are never allowed
  have hs := State.Sound.recovering hhost s
  constructor
  · intro program errors t h
    -- a program hands over what was pending and what it reports
    obtain ⟨signal, u, reported, -, -, herrors, hallowed, -⟩ := Program.exec_reports hs h
    exact ⟨_, herrors, hallowed⟩
  · intro expr r t h
    -- an expression has an error of its own, besides those that it reports
    obtain ⟨heffect, houtcome⟩ := Expr.eval_effect hs h
    obtain ⟨reported, hreported⟩ := heffect.reports
    refine ⟨?_, reported, ?_, hreported.allowed⟩
    · rintro e rfl
      exact houtcome
    · rw [hreported.pending]
      simp

/-- A host with a tool of its own, which always fails; a run in which it fails and a builtin cannot
    read a number; and a text that ends a line too early. -/
theorem severity_matches_origin_with_tool :
    let refusal : Error := .invalidArguments "boom" "never"
    let tool : Tool := ⟨"boom", "fails", none, fun _ h => (.error refusal, h)⟩
    let host : Host := { tools := Builtin.toolbox.register tool }
    let program : Program := [.expr (.call "boom" []), .print (.call "int" [.string "x"])]
    host.Recovers ∧
    (∃ errors t, Program.exec host 9 program {} = some (errors, t) ∧ errors.length = 2 ∧
      ∃ reported, errors = reported ∧ ∀ e ∈ reported, e.severity = .recoverable) ∧
    (∃ e, Program.parse "let\n" = .error e ∧ e.severity = .fatal ∧
      Session.run {} "let\n" =
        some (.error e, { diag := Sink.empty.writeLine ("Error: " ++ e.message) })) := by
  intro refusal tool host program
  obtain ⟨hfatal, -, hruns, hunread⟩ := severity_matches_origin
  have hhost : host.Recovers := by
    refine ⟨fun name found ht => ?_, nofun⟩
    have ht : (OrderedMap.set Builtin.toolbox "boom" tool).get? name = some found := ht
    rw [OrderedMap.get?_set] at ht
    split at ht
    · right
      cases ht
      rintro args h e he
      cases he
      rfl
    · exact Or.inl ht
  refine ⟨hhost, ?_, ?_⟩
  · have hend : (Program.exec host 9 program {}).map (·.1.length) = some 2 := by decide +kernel
    obtain ⟨⟨errors, t⟩, hexec, hlength⟩ := Option.map_eq_some_iff.mp hend
    exact ⟨errors, t, hexec, hlength, (hruns host 9 {} hhost).1 program errors t hexec⟩
  · have hnone : (Program.parse "let\n").toOption.isNone = true := by decide +kernel
    cases hparse : Program.parse "let\n" with
    | ok program =>
      rw [hparse] at hnone
      cases hnone
    | error e => exact ⟨e, rfl, hfatal _ e hparse, (hunread {} _ e hparse).1⟩

end Scriptlet
