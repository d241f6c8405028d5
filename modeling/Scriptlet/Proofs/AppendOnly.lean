/-
  Scriptlet.Proofs.AppendOnly — a run only adds to what the state records.

  Functions are declared wherever a statement may stand, in loops, in branches and in the bodies of
  functions that run while an argument is evaluated, and the same declaration may be reached many
  times.  Lines and errors are added just as widely.  Every such addition is one step of an `Effect`,
  so what holds of the steps holds of all runs that end, with errors or without.

  Main results:
    * `Effect.extends` — steps of any kind.
    * `Session.perform_extends` — from lines of the state to the text of the sinks.
    * `effects_append_only` — statements, expressions, programs and sessions.
-/
import Scriptlet.Proofs.Diagnostics
import Scriptlet.Proofs.Scoping

namespace Scriptlet

variable {host : Host} {D : Discipline} {s t : State}

/-! ## §1. States -/

/-- Every function is still there, and all that was printed and shown comes first. -/
structure State.Extends (s t : State) : Prop where
  functions : ∀ name f, s.functions.get? name = some f → t.functions.get? name = some f
  printed : s.printed.toList <+: t.printed.toList
  diagnostics : s.diagnostics.toList <+: t.diagnostics.toList

namespace State.Extends

theorem refl (s : State) : s.Extends s :=
  ⟨fun _ _ h => h, List.prefix_refl _, List.prefix_refl _⟩

theorem trans {u : State} (h₁ : s.Extends t) (h₂ : t.Extends u) : s.Extends u where
  functions name f h := h₂.functions name f (h₁.functions name f h)
  printed := h₁.printed.trans h₂.printed
  diagnostics := h₁.diagnostics.trans h₂.diagnostics

/-- One diagnostic more, whatever happens to the pending errors. -/
theorem diagnose (s : State) (d : Diagnostic) (pending : Array Error) :
    s.Extends { s with diagnostics := s.diagnostics.push d, pending } where
  functions _ _ h := h
  printed := List.prefix_refl _
  diagnostics := by simp

/-- One line more. -/
theorem print (s : State) (line : String) :
    s.Extends { s with printed := s.printed.push line } where
  functions _ _ h := h
  printed := by simp
  diagnostics := List.prefix_refl _

/-- A function under a new name hides no other. -/
theorem define {f : Func} (hnew : s.functions.contains f.name = false) :
    s.Extends { s with functions := s.functions.set f.name f } where
  functions name g h := by
    show (s.functions.set f.name f).get? name = some g
    rw [OrderedMap.get?_set]
    by_cases hname : name = f.name
    · rw [OrderedMap.contains, ← hname, h] at hnew
      cases hnew
    · rw [if_neg hname, h]
  printed := List.prefix_refl _
  diagnostics := List.prefix_refl _

/-- What is reported of a statement, if anything, is one diagnostic more. -/
theorem withReport (s : State) (under : Option Error) : s.Extends (s.withReport under) := by
  cases under with
  | none => exact .refl s
  | some e => exact .diagnose s (.error e) _

end State.Extends

/-- **Every effect only adds.** -/
theorem Effect.extends {k : Licence} (he : Effect host D k s t) : s.Extends t := by
  induction he with
  | trans _ _ ih₁ ih₂ => exact ih₁.trans ih₂
  | call names _ _ ih => exact ⟨ih.functions, ih.printed, ih.diagnostics⟩
  | block names _ _ ih => exact ⟨ih.functions, ih.printed, ih.diagnostics⟩
  | loop item _ _ ih => exact ⟨ih.functions, ih.printed, ih.diagnostics⟩
  | print line _ => exact .print _ line
  | trace kind _ _ => exact .diagnose _ (.trace kind) _
  | report _ _ => exact .diagnose _ (.error _) _
  | define f _ hnew => exact .define hnew
  | _ => exact ⟨fun _ _ h => h, List.prefix_refl _, List.prefix_refl _⟩

/-- The errors that were pending come first. -/
theorem Effect.pending_leads {k : Licence} (he : Effect host D k s t) :
    s.pending.toList <+: t.pending.toList := by
  obtain ⟨reported, hreported⟩ := he.reports
  rw [hreported.pending]
  simp

/-- Statements, however they end. -/
theorem Block.exec_extends {fuel : Nat} {body : List Stmt} {signal : Signal}
    (h : Block.exec host fuel body s = some (signal, t)) :
    s.Extends t ∧ s.pending.toList <+: t.pending.toList := by
  have he := (Block.exec_effect (.any host s) h).1
  exact ⟨he.extends, he.pending_leads⟩

/-- An expression, with a value or an error. -/
theorem Expr.eval_extends {fuel : Nat} {e : Expr} {r : Except Error Value}
    (h : Expr.eval host fuel e s = some (r, t)) :
    s.Extends t ∧ s.pending.toList <+: t.pending.toList := by
  have he := (Expr.eval_effect (.any host s) h).1
  exact ⟨he.extends, he.pending_leads⟩

/-- A program only adds, and the errors that it hands over begin with those that were pending. -/
theorem Program.exec_extends {fuel : Nat} {program : Program} {errors : List Error}
    (h : Program.exec host fuel program s = some (errors, t)) :
    s.Extends t ∧ s.pending.toList <+: errors ∧ t.pending = #[] := by
  obtain ⟨_, _, _, _, _, herrors, -, hempty, -⟩ := Program.exec_reports (.any host s) h
  rw [Program.exec_run] at h
  obtain ⟨⟨signal, u⟩, hblock, hrest⟩ := Option.map_eq_some_iff.mp h
  cases hrest
  have hall := (Block.exec_extends hblock).1.trans (.withReport u signal.stray?)
  refine ⟨⟨hall.functions, hall.printed, hall.diagnostics⟩, ?_, hempty⟩
  rw [herrors]
  exact List.prefix_append _ _

/-! ## §2. Sessions -/

/-- Every function is still there, and each sink holds what it held, with the lines that were still
    to be delivered, and then more. -/
structure Session.Extends (s t : Session) : Prop where
  functions : ∀ name f, s.function? name = some f → t.function? name = some f
  out : ∃ more, t.out = s.deliver.out.append more
  diag : ∃ more, t.diag = s.deliver.diag.append more

namespace Session

variable {α : Type} {s t : Session}

/-- A longer list of lines writes the shorter one first. -/
theorem writeLines_extend (sink : Sink) {first all : List String} (h : first <+: all) :
    ∃ more, sink.writeLines all = (sink.writeLines first).append more := by
  obtain ⟨rest, rfl⟩ := h
  rw [Sink.writeLines_append, Sink.writeLines_eq_append (sink.writeLines first)]
  exact ⟨_, rfl⟩

/-- **What a computation adds to the lines of the state is delivered behind the rest.** -/
theorem perform_extends {x : Run α} {a : α}
    (hx : ∀ a u, x s.state = some (a, u) → s.state.Extends u)
    (h : s.perform x = some (a, t)) : s.Extends t := by
  obtain ⟨⟨a', u⟩, hrun, hdeliver⟩ := Option.bind_eq_some_iff.mp h
  cases hdeliver
  have hu := hx a u hrun
  exact ⟨hu.functions, writeLines_extend s.out hu.printed,
    writeLines_extend s.diag (hu.diagnostics.map Diagnostic.text)⟩

/-- Delivery leaves the pending errors alone. -/
theorem perform_pending {x : Run α} {a : α} {P : α → Array Error → Prop}
    (hx : ∀ a u, x s.state = some (a, u) → P a u.pending)
    (h : s.perform x = some (a, t)) : P a t.state.pending := by
  obtain ⟨⟨a', u⟩, hrun, hdeliver⟩ := Option.bind_eq_some_iff.mp h
  cases hdeliver
  exact hx a u hrun

/-- A computation that only adds to the state and to the pending errors. -/
theorem perform_adds {x : Run α} {a : α}
    (hx : ∀ a u, x s.state = some (a, u) →
      s.state.Extends u ∧ s.state.pending.toList <+: u.pending.toList)
    (h : s.perform x = some (a, t)) :
    s.Extends t ∧ s.state.pending.toList <+: t.state.pending.toList :=
  ⟨perform_extends (fun a u hrun => (hx a u hrun).1) h,
    perform_pending (P := fun _ pending => s.state.pending.toList <+: pending.toList)
      (fun a u hrun => (hx a u hrun).2) h⟩

/-- A program in a session. -/
theorem execute_extends {program : Program} {errors : List Error}
    (h : s.execute program = some (errors, t)) :
    s.Extends t ∧ s.state.pending.toList <+: errors ∧ t.state.pending = #[] :=
  ⟨perform_extends (fun _ _ hrun => (Program.exec_extends hrun).1) h,
    perform_pending (P := fun errors pending => s.state.pending.toList <+: errors ∧ pending = #[])
      (fun _ _ hrun => (Program.exec_extends hrun).2) h⟩

/-- A text in a session; one that is no program only adds the diagnostic of its error. -/
theorem run_extends {source : String} {r : Except Error (List Error)}
    (h : s.run source = some (r, t)) :
    s.Extends t ∧ ∀ errors, r = .ok errors → s.state.pending.toList <+: errors := by
  unfold Session.run at h
  cases hparse : Program.parse source with
  | error e =>
    rw [hparse] at h
    refine ⟨perform_extends (fun r u hrun => ?_) h, ?_⟩
    · cases hrun
      exact .diagnose s.state (.error e) s.state.pending
    · intro errors hr
      cases h
      cases hr
  | ok program =>
    rw [hparse] at h
    -- the errors of the program are passed on as they are
    have hexec : ∀ r u, (do return .ok (← program.exec s.host fuel) : Run (Except Error _)) s.state =
        some (r, u) → ∃ errors, r = .ok errors ∧
          program.exec s.host fuel s.state = some (errors, u) := by
      intro r u hrun
      obtain ⟨⟨errors, u'⟩, hexec, hpure⟩ := Option.bind_eq_some_iff.mp hrun
      cases hpure
      exact ⟨errors, rfl, hexec⟩
    refine ⟨perform_extends (fun r u hrun => ?_) h, ?_⟩
    · obtain ⟨errors, -, hexec⟩ := hexec r u hrun
      exact (Program.exec_extends hexec).1
    · refine perform_pending
        (P := fun r _ => ∀ errors, r = .ok errors → s.state.pending.toList <+: errors) ?_ h
      rintro r u hrun errors rfl
      obtain ⟨errors', hr, hexec⟩ := hexec _ u hrun
      cases hr
      exact (Program.exec_extends hexec).2.1

/-- A text as a block in a session. -/
theorem block_extends {source : String} {r : Except Error Signal}
    (h : s.block source = some (r, t)) :
    s.Extends t ∧ s.state.pending.toList <+: t.state.pending.toList := by
  unfold Session.block at h
  refine perform_adds (fun r u hrun => ?_) h
  -- a text that is no program leaves everything as it is
  cases hparse : Program.parse source with
  | error e =>
    rw [hparse] at hrun
    cases hrun
    exact ⟨.refl _, List.prefix_refl _⟩
  | ok body =>
    rw [hparse] at hrun
    obtain ⟨⟨signal, u'⟩, hexec, hpure⟩ := Option.bind_eq_some_iff.mp hrun
    cases hpure
    exact Block.exec_extends hexec

/-- A text as an expression in a session. -/
theorem eval_extends {source : String} {r : Except Error Value}
    (h : s.eval source = some (r, t)) :
    s.Extends t ∧ s.state.pending.toList <+: t.state.pending.toList := by
  unfold Session.eval at h
  refine perform_adds (fun r u hrun => ?_) h
  cases hparse : Expr.parse source with
  | error e =>
    rw [hparse] at hrun
    cases hrun
    exact ⟨.refl _, List.prefix_refl _⟩
  | ok e =>
    rw [hparse] at hrun
    exact Expr.eval_extends hrun

end Session

/-! ## §3. Everything only adds -/

/-- A declaration registers its function under a new name, and changes nothing under a name that has
    one. -/
theorem Eval.effect_func (evaluate : Evaluate) (execute : Execute) (rounds : Nat) (f : Func)
    (s : State) :
    (Eval.effect evaluate execute rounds (.func f.name f.params f.returns f.body)).run s =
      if s.functions.contains f.name then some (.error (.functionRedefined f.name), s)
      else some (.ok .next, { s with functions := s.functions.set f.name f }) := by
  show ExceptT.run ((if s.functions.contains f.name = true then throw (.functionRedefined f.name)
    else modify fun s => { s with functions := s.functions.set f.name f } : Eval Unit) >>=
      fun _ => pure Signal.next) s = _
  split <;> rfl

/-- **Effects only add.**  When statements, an expression or a program have been run to the end,
    with errors or without, every function is still what it was, and what was printed, shown and
    pending comes first; a program hands over what was pending with what it adds.  A declaration
    under a name that has a function fails and changes nothing.  The same holds of the texts in the
    sinks of a session. -/
theorem effects_append_only :
    (∀ (host : Host) (fuel : Nat) (s : State),
      (∀ body signal t, Block.exec host fuel body s = some (signal, t) →
        s.Extends t ∧ s.pending.toList <+: t.pending.toList) ∧
      (∀ e r t, Expr.eval host fuel e s = some (r, t) →
        s.Extends t ∧ s.pending.toList <+: t.pending.toList) ∧
      (∀ program errors t, Program.exec host fuel program s = some (errors, t) →
        s.Extends t ∧ s.pending.toList <+: errors ∧ t.pending = #[])) ∧
    (∀ evaluate execute rounds (f : Func) (s : State),
      (Eval.effect evaluate execute rounds (.func f.name f.params f.returns f.body)).run s =
        if s.functions.contains f.name then some (.error (.functionRedefined f.name), s)
        else some (.ok .next, { s with functions := s.functions.set f.name f })) ∧
    (∀ s : Session,
      (∀ program errors t, s.execute program = some (errors, t) →
        s.Extends t ∧ s.state.pending.toList <+: errors ∧ t.state.pending = #[]) ∧
      (∀ source r t, s.run source = some (r, t) →
        s.Extends t ∧ ∀ errors, r = .ok errors → s.state.pending.toList <+: errors) ∧
      (∀ source r t, s.block source = some (r, t) →
        s.Extends t ∧ s.state.pending.toList <+: t.state.pending.toList) ∧
      (∀ source r t, s.eval source = some (r, t) →
        s.Extends t ∧ s.state.pending.toList <+: t.state.pending.toList)) := by
  refine ⟨fun host fuel s => ⟨?_, ?_, ?_⟩, Eval.effect_func, fun s => ⟨?_, ?_, ?_, ?_⟩⟩
  · exact fun body signal t h => Block.exec_extends h
  · exact fun e r t h => Expr.eval_extends h
  · exact fun program errors t h => Program.exec_extends h
  · exact fun program errors t h => Session.execute_extends h
  · exact fun source r t h => Session.run_extends h
  · exact fun source r t h => Session.block_extends h
  · exact fun source r t h => Session.eval_extends h

/-- A function is declared again by each round of a loop and by the body of another function, in a
    session with an error pending and a line to deliver: it stays what it was. -/
theorem effects_append_only_redeclared :
    let f : Func := { name := "f", params := [], returns := .int, body := [.ret (.int 1)] }
    let redeclare : Stmt := .func "f" [] .int []
    let program : Program :=
      [.func "g" [] .int [redeclare, .print (.int 2), .ret (.int 3)],
        .forIn "i" (.range (.int 0) (.int 2) false) [redeclare],
        .print (.call "g" []), .print (.call "f" [])]
    let s : Session :=
      { state := { functions := .ofList [("f", f)], printed := #["0"], pending := #[.divisionByZero] },
        out := .buffer "x" }
    ∃ t, s.execute program = some ([.divisionByZero, .functionRedefined "f", .functionRedefined "f",
        .functionRedefined "f"], t) ∧
      t.out = .buffer "x0\n2\n3\n1\n" ∧ s.Extends t ∧ t.function? "f" = some f := by
  intro f redeclare program s
  have hend : (s.execute program).map (fun p => (p.1, p.2.out)) =
      some ([.divisionByZero, .functionRedefined "f", .functionRedefined "f",
        .functionRedefined "f"], .buffer "x0\n2\n3\n1\n") := by
    decide +kernel
  obtain ⟨⟨errors, t⟩, hexecute, hp⟩ := Option.map_eq_some_iff.mp hend
  obtain ⟨rfl, hout⟩ := Prod.mk.inj hp
  obtain ⟨hextends, -⟩ := (effects_append_only.2.2 s).1 program _ t hexecute
  exact ⟨t, hexecute, hout, hextends, hextends.functions "f" f rfl⟩

end Scriptlet
