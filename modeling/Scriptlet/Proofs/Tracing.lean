/-
  Scriptlet.Proofs.Tracing — the trace of statements only observes.

  Two runs from one state, one with the trace on and one with it off.  The lines of the trace stand
  among those of errors on one list, so the two lists differ; but they are the only thing that does.
  What the trace adds is one line for each statement that is begun, with its kind, before the
  statement does anything.

  Main results:
    * `trace_only_observes` — the two runs, and the lines of the trace.
-/
import Scriptlet.Proofs.Reports
import Scriptlet.Proofs.Retelling
import Scriptlet.Proofs.Simulation

namespace Scriptlet

/-- The same host with the trace on or off. -/
def Host.withTrace (host : Host) (on : Bool) : Host :=
  { host with settings := { host.settings with trace := on } }

/-! ## §1. The same state but for the lines of the trace -/

/-- The lines that are not of the trace. -/
def untraced (lines : List Diagnostic) : List Diagnostic := lines.filter (·.traced?.isNone)

/-- The second state is the first with other diagnostics: after the lines `earlier`, which both have,
    it lacks those of the trace. -/
def State.Shadows (earlier : List Diagnostic) (s t : State) : Prop :=
  ∃ shown lines, t = { s with diagnostics := shown } ∧
    s.diagnostics.toList = earlier ++ lines ∧ shown.toList = earlier ++ untraced lines

namespace State.Shadows

variable {earlier : List Diagnostic} {s t : State}

theorem refl (s : State) : s.Shadows s.diagnostics.toList s :=
  ⟨s.diagnostics, [], rfl, (List.append_nil _).symm, (List.append_nil _).symm⟩

/-- What neither reads nor changes diagnostics is done to both. -/
theorem map {f : State → State} (hf : ∀ (s : State) (shown : Array Diagnostic),
      f { s with diagnostics := shown } = { f s with diagnostics := shown })
    (hs : (f s).diagnostics = s.diagnostics) (h : s.Shadows earlier t) :
    (f s).Shadows earlier (f t) := by
  obtain ⟨shown, lines, rfl, hlines, hshown⟩ := h
  exact ⟨shown, lines, hf s shown, by rw [hs, hlines], hshown⟩

/-- An error is shown by both. -/
theorem report (e : Error) (h : s.Shadows earlier t) :
    ((Update.report e).apply s).Shadows earlier ((Update.report e).apply t) := by
  obtain ⟨shown, lines, rfl, hlines, hshown⟩ := h
  refine ⟨shown.push (.error e), lines ++ [.error e], rfl, ?_, ?_⟩
  · show (s.diagnostics.push (.error e)).toList = _
    rw [Array.toList_push, hlines, List.append_assoc]
  · rw [Array.toList_push, hshown, List.append_assoc]
    unfold untraced
    rw [List.filter_append]
    rfl

/-- A statement is announced by the first alone. -/
theorem announced {host : Host} (st : Stmt) (h : s.Shadows earlier t) :
    ((host.withTrace true).announced st s).Shadows earlier
      ((host.withTrace false).announced st t) := by
  obtain ⟨shown, lines, rfl, hlines, hshown⟩ := h
  refine ⟨shown, lines ++ [.trace st.kind], rfl, ?_, ?_⟩
  · show (s.diagnostics.push (.trace st.kind)).toList = _
    rw [Array.toList_push, hlines, List.append_assoc]
  · -- the new line is of the trace, so nothing is left of it
    rw [hshown]
    unfold untraced
    rw [List.filter_append]
    show _ = earlier ++ (_ ++ [])
    rw [List.append_nil]

theorem update (u : Update) (h : s.Shadows earlier t) :
    (u.apply s).Shadows earlier (u.apply t) := by
  cases u with
  | report e => exact h.report e
  | _ => exact h.map (fun _ _ => rfl) rfl

end State.Shadows

/-- The run without the trace goes along with the one with it. -/
def Simulation.untraced (host : Host) (earlier : List Diagnostic) :
    Simulation (host.withTrace true) (host.withTrace false) where
  rel _ s t := s.Shadows earlier t
  tools := rfl
  resolver := rfl
  view := by
    rintro _ s _ ⟨shown, lines, rfl, -, -⟩
    rfl
  admits := by
    rintro _ s _ ⟨shown, lines, rfl, -, -⟩
    rfl
  update u h := h.update u
  announce st h := h.announced st
  openFrame k h := h.map (f := (·.openFrame k)) (fun _ _ => rfl) rfl
  closeFrame _ h := h.map (f := State.closeFrame) (fun _ _ => rfl) rfl
  openCall h := h.map (f := State.openCall) (fun _ _ => rfl) rfl
  closeCall _ h := h.map (f := State.closeCall) (fun _ _ => rfl) rfl

/-! ## §2. Two runs -/

/-- Two runs that end alike, but for the lines of the trace, which the second lacks; or neither ends. -/
inductive EndAlike {α : Type} (earlier : List Diagnostic) :
    Option (α × State) → Option (α × State) → Prop
  | endless : EndAlike earlier none none
  | ended {s t : State} (a : α) : s.Shadows earlier t → EndAlike earlier (some (a, s)) (some (a, t))

/-- Two runs end alike if each can be followed in the other. -/
theorem EndAlike.of_follows {α : Type} {host : Host} {s : State} {x y : Run α}
    (hxy : Run.Follows (.untraced host s.diagnostics.toList) [] s s x y)
    (hyx : Run.Follows (Simulation.untraced host s.diagnostics.toList).symm [] s s y x) :
    EndAlike s.diagnostics.toList (x s) (y s) := by
  have hs : s.Shadows s.diagnostics.toList s := .refl s
  cases hx : x s with
  | some p =>
    obtain ⟨t, hy, hshadows⟩ := hxy hs p.1 p.2 hx
    rw [hy]
    exact .ended p.1 hshadows
  | none =>
    cases hy : y s with
    | none => exact .endless
    | some p =>
      -- the first would follow where the second ends
      obtain ⟨t, hx', -⟩ := hyx hs p.1 p.2 hy
      rw [hx] at hx'
      cases hx'

variable (host : Host) (fuel : Nat) (s : State)

theorem Block.exec_endAlike (body : List Stmt) :
    EndAlike s.diagnostics.toList (Block.exec (host.withTrace true) fuel body s)
      (Block.exec (host.withTrace false) fuel body s) :=
  .of_follows ((Simulation.run_follows _ (Nat.le_refl fuel)).2 [] body s s)
    ((Simulation.run_follows _ (Nat.le_refl fuel)).2 [] body s s)

theorem Expr.eval_endAlike (e : Expr) :
    EndAlike s.diagnostics.toList (Expr.eval (host.withTrace true) fuel e s)
      (Expr.eval (host.withTrace false) fuel e s) :=
  .of_follows ((Simulation.run_follows _ (Nat.le_refl fuel)).1 [] e s s)
    ((Simulation.run_follows _ (Nat.le_refl fuel)).1 [] e s s)

/-- A program that ends hands over the same errors. -/
theorem Program.exec_endAlike (program : Program) :
    EndAlike s.diagnostics.toList (Program.exec (host.withTrace true) fuel program s)
      (Program.exec (host.withTrace false) fuel program s) := by
  rw [Program.exec_run, Program.exec_run]
  have hblock := Block.exec_endAlike host fuel s program
  generalize Block.exec (host.withTrace true) fuel program s = traced at hblock ⊢
  generalize Block.exec (host.withTrace false) fuel program s = plain at hblock ⊢
  cases hblock with
  | endless => exact .endless
  | @ended u v signal h =>
    have hreport : (u.withReport signal.stray?).Shadows s.diagnostics.toList
        (v.withReport signal.stray?) := by
      cases signal.stray? with
      | none => exact h
      | some e => exact h.report e
    -- the two differ in their diagnostics only, so the same errors are pending
    have herrors : (v.withReport signal.stray?).pending = (u.withReport signal.stray?).pending := by
      obtain ⟨shown, lines, heq, -, -⟩ := hreport
      rw [heq]
    show EndAlike _ (some (_, _)) (some (_, _))
    rw [herrors]
    exact .ended _ (hreport.map (f := fun s => { s with pending := #[] }) (fun _ _ => rfl) rfl)

/-! ## §3. The lines of the trace -/

/-- After the lines of the first state, the second has those of the trace for the statements of the
    record, in order, and none for anything else. -/
def State.TracesTo (s : State) (log : List Event) (t : State) : Prop :=
  ∃ lines, t.diagnostics.toList = s.diagnostics.toList ++ lines ∧
    lines.filterMap Diagnostic.traced? = kindsBegun log

/-- A run that ends has added lines to those that there were. -/
theorem EndAlike.extends {α : Type} {earlier : List Diagnostic} {a : α} {t : State}
    {y : Option (α × State)} (h : EndAlike earlier (some (a, t)) y) :
    ∃ lines, t.diagnostics.toList = earlier ++ lines := by
  cases h with
  | ended _ hshadows =>
    obtain ⟨shown, lines, -, hlines, -⟩ := hshadows
    exact ⟨lines, hlines⟩

theorem State.TracesTo.of_traced {s t : State} {log : List Event}
    (hlines : ∃ lines, t.diagnostics.toList = s.diagnostics.toList ++ lines)
    (htraced : t.traced = s.traced ++ kindsBegun log) : s.TracesTo log t := by
  obtain ⟨lines, hlines⟩ := hlines
  refine ⟨lines, hlines, ?_⟩
  -- the lines that there were before are those of the first state
  unfold State.traced at htraced
  rw [hlines, List.filterMap_append] at htraced
  exact List.append_cancel_left htraced

theorem State.traced_withReport (s : State) (under : Option Error) :
    (s.withReport under).traced = s.traced := by
  cases under with
  | none => rfl
  | some e => exact Diagnostic.filterMap_traced?_push_error s.diagnostics e

/-- **The trace only observes.**  With the trace on and with it off, a run from one state ends alike,
    or neither ends: with the same signal, the same errors for a program, the same value or error for
    an expression, and in the same state, but that the lines of the trace are missing among the
    diagnostics.  The run with the trace is the recorded one; at every moment of it, and at its end,
    there is one line for each statement begun so far, in their order and with their kinds. -/
theorem trace_only_observes (program : Program) :
    let on := host.withTrace true
    let off := host.withTrace false
    let run := Record.exec on fuel program
    EndAlike s.diagnostics.toList (Block.exec on fuel program s) (Block.exec off fuel program s) ∧
    EndAlike s.diagnostics.toList (Program.exec on fuel program s)
      (Program.exec off fuel program s) ∧
    (∀ e, EndAlike s.diagnostics.toList (Expr.eval on fuel e s) (Expr.eval off fuel e s)) ∧
    run.outcome s = Block.exec on fuel program s ∧
    (∀ before ev after, run.log s = before ++ ev :: after →
      ev.state.traced = s.traced ++ kindsBegun before) ∧
    (∀ signal t, Block.exec on fuel program s = some (signal, t) → s.TracesTo (run.log s) t) ∧
    (∀ errors t, Program.exec on fuel program s = some (errors, t) →
      s.TracesTo (run.log s) t) := by
  intro on off run
  have hblock := Block.exec_endAlike host fuel s program
  have hprogram := Program.exec_endAlike host fuel s program
  obtain ⟨houtcome, hlog, hresult⟩ := (Record.run_tells on .any fuel).2 program s (.any on s)
  refine ⟨hblock, hprogram, Expr.eval_endAlike host fuel s, houtcome,
    fun before ev after h => (hlog before ev after h).2, ?_, ?_⟩
  · intro signal t h
    rw [h] at hblock
    exact .of_traced hblock.extends (hresult signal t h).1.traced
  · intro errors t h
    rw [h] at hprogram
    refine .of_traced hprogram.extends ?_
    rw [Program.exec_run] at h
    obtain ⟨⟨signal, u⟩, hu, hrest⟩ := Option.map_eq_some_iff.mp h
    cases hrest
    -- a signal that is left over is reported as an error
    show (u.withReport signal.stray?).traced = _
    rw [u.traced_withReport]
    exact (hresult signal u hu).1.traced

/-- A loop that calls a function in which a statement fails: eight statements are begun, and two
    errors are reported. -/
theorem trace_only_observes_in_calls :
    let program : Program :=
      [.func "f" [] .int [.print (.var "x"), .ret (.int 1)],
        .forIn "i" (.range (.int 1) (.int 2) true) [.expr (.call "f" [])]]
    let missing : Diagnostic := .error (.undefinedVariable "x")
    let round : List Diagnostic := [.trace "expression", .trace "print", missing, .trace "return"]
    ∃ errors t u,
      Program.exec (Host.withTrace {} true) 12 program {} = some (errors, t) ∧
      Program.exec (Host.withTrace {} false) 12 program {} = some (errors, u) ∧
      t.diagnostics.toList = [.trace "function_decl", .trace "for_in"] ++ round ++ round ∧
      u.diagnostics.toList = [missing, missing] ∧
      State.Shadows [] t u ∧
      State.TracesTo {} ((Record.exec (Host.withTrace {} true) 12 program).log {}) t := by
  intro program missing round
  obtain ⟨-, hprogram, -, -, -, -, htraces⟩ := trace_only_observes {} 12 {} program
  have hon : (Program.exec (Host.withTrace {} true) 12 program {}).map (·.2.diagnostics.toList) =
      some ([.trace "function_decl", .trace "for_in"] ++ round ++ round) := by decide +kernel
  have hoff : (Program.exec (Host.withTrace {} false) 12 program {}).map
      (·.2.diagnostics.toList) = some [missing, missing] := by decide +kernel
  generalize hruns : Program.exec (Host.withTrace {} false) 12 program {} = plain at hprogram hoff
  obtain ⟨⟨errors, t⟩, ht, htlines⟩ := Option.map_eq_some_iff.mp hon
  rw [ht] at hprogram
  cases hprogram with
  | @ended _ u _ hshadows =>
    exact ⟨errors, t, u, ht, rfl, htlines, Option.some.inj hoff, hshadows, htraces errors t ht⟩

end Scriptlet
