/-
  Scriptlet.Proofs.Reports — the errors that a run adds to those that are pending.

  Errors are reported one after the other, each in a single step that makes it pending and shows it.
  So what a run adds to the pending errors and what it shows are the same list, if nothing else is
  shown.

  Main results:
    * `Effect.reports` — what steps of any kind add.
    * `Program.exec_reports` — what a program adds and hands over.
-/
import Scriptlet.Proofs.Evaluation
import Scriptlet.Proofs.Regime

namespace Scriptlet

variable {host : Host} {D : Discipline} {s t : State}

/-- From the first state to the second these errors have been reported, and shown in the same order
    if there is no trace. -/
structure State.Reports (host : Host) (D : Discipline) (s : State) (reported : List Error)
    (t : State) : Prop where
  allowed : ∀ e ∈ reported, D.error e
  pending : t.pending = s.pending ++ reported.toArray
  shown : host.settings.trace = false →
    t.diagnostics = s.diagnostics ++ (reported.map Diagnostic.error).toArray

namespace State.Reports

theorem none (hpending : t.pending = s.pending)
    (hshown : host.settings.trace = false → t.diagnostics = s.diagnostics) :
    State.Reports host D s [] t where
  allowed _ he := absurd he List.not_mem_nil
  pending := by simpa using hpending
  shown htrace := by simpa using hshown htrace

/-- What is reported later comes after what was reported before. -/
theorem trans {u : State} {first second : List Error} (h₁ : State.Reports host D s first t)
    (h₂ : State.Reports host D t second u) : State.Reports host D s (first ++ second) u where
  allowed e he := by
    rcases List.mem_append.mp he with he | he
    · exact h₁.allowed e he
    · exact h₂.allowed e he
  pending := by
    rw [h₂.pending, h₁.pending]
    simp
  shown htrace := by
    rw [h₂.shown htrace, h₁.shown htrace]
    simp

theorem one {e : Error} (he : D.error e) :
    State.Reports host D s [e]
      { s with diagnostics := s.diagnostics.push (.error e), pending := s.pending.push e } where
  allowed e' he' := List.mem_singleton.mp he' ▸ he
  pending := by simp
  shown _ := by simp

end State.Reports

/-- **Every effect reports some errors**, one after the other. -/
theorem Effect.reports {k : Licence} (he : Effect host D k s t) :
    ∃ reported, State.Reports host D s reported t := by
  induction he with
  | trans _ _ ih₁ ih₂ =>
    obtain ⟨first, h₁⟩ := ih₁
    obtain ⟨second, h₂⟩ := ih₂
    exact ⟨first ++ second, h₁.trans h₂⟩
  -- calls, blocks and loops close a frame, which reports nothing
  | call names _ _ ih =>
    obtain ⟨reported, h⟩ := ih
    exact ⟨reported, h.allowed, h.pending, h.shown⟩
  | block names _ _ ih =>
    obtain ⟨reported, h⟩ := ih
    exact ⟨reported, h.allowed, h.pending, h.shown⟩
  | loop item _ _ ih =>
    obtain ⟨reported, h⟩ := ih
    exact ⟨reported, h.allowed, h.pending, h.shown⟩
  -- a line of the trace is shown only where the trace is on
  | @trace k s kind _ htrace =>
    refine ⟨[], .none rfl fun hoff => ?_⟩
    rw [htrace] at hoff
    cases hoff
  | report _ he => exact ⟨_, .one he⟩
  | _ => exact ⟨[], .none rfl fun _ => rfl⟩

/-! ## §2. Programs -/

/-- The state after a report, if there is something to report. -/
def State.withReport (s : State) : Option Error → State
  | none => s
  | some e => { s with diagnostics := s.diagnostics.push (.error e), pending := s.pending.push e }

/-- A program executes its statements, reports a signal that is left over and hands over all that is
    pending. -/
theorem Program.exec_run (host : Host) (fuel : Nat) (program : Program) (s : State) :
    Program.exec host fuel program s =
      (Block.exec host fuel program s).map fun p =>
        ((p.2.withReport p.1.stray?).pending.toList,
          { p.2.withReport p.1.stray? with pending := #[] }) := by
  show (Block.exec host fuel program s).bind _ = _
  cases Block.exec host fuel program s with
  | none => rfl
  | some p =>
    obtain ⟨signal, t⟩ := p
    cases signal <;> rfl

theorem State.withReport_pending (s : State) (under : Option Error) :
    (s.withReport under).pending = errorsWith s.pending under := by
  cases under <;> rfl

/-- A signal that is left over is reported after all else. -/
theorem State.Reports.stray (s : State) (signal : Signal) :
    State.Reports host D s signal.stray?.toList (s.withReport signal.stray?) := by
  cases signal with
  | next => exact .none rfl fun _ => rfl
  | brk => exact .one (D.recoverable rfl)
  | cont => exact .one (D.recoverable rfl)
  | ret v => exact .one (D.recoverable rfl)

/-- **A program hands over the errors that were pending and those that it has reported**: the ones
    of its statements and then, if a signal is left over, the one that it stands for. -/
theorem Program.exec_reports {fuel : Nat} {program : Program} {errors : List Error}
    (hs : s.Sound host D) (h : Program.exec host fuel program s = some (errors, t)) :
    ∃ signal u reported, Block.exec host fuel program s = some (signal, u) ∧
      State.Reports host D s reported u ∧
      errors = s.pending.toList ++ (reported ++ signal.stray?.toList) ∧
      (∀ e ∈ reported ++ signal.stray?.toList, D.error e) ∧
      t.pending = #[] ∧
      (host.settings.trace = false → t.diagnostics =
        s.diagnostics ++ ((reported ++ signal.stray?.toList).map Diagnostic.error).toArray) := by
  rw [Program.exec_run] at h
  obtain ⟨⟨signal, u⟩, hblock, hrest⟩ := Option.map_eq_some_iff.mp h
  cases hrest
  -- the errors of the statements, and then the one that the signal stands for
  obtain ⟨reported, hu⟩ := (Block.exec_effect hs hblock).1.reports
  have hall := hu.trans (.stray u signal)
  refine ⟨signal, u, reported, hblock, hu, ?_, hall.allowed, rfl, hall.shown⟩
  show (u.withReport signal.stray?).pending.toList = _
  rw [hall.pending]
  simp

end Scriptlet
