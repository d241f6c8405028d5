/-
  Scriptlet.Proofs.Diagnostics — errors, diagnostics and the exit code agree.

  Which statements of a run fail, at any depth, is asked with a watch: the errors that a program
  reports are the failures of its statements, each once and in the order in which they fail, and a
  signal left over at its end.  The lines of the diagnostics are the messages of the same errors in
  the same order, and the exit code of the command counts them.

  Main results:
    * `Block.failsWith_reported` — what is reported is what fails.
    * `errors_and_diagnostics_agree` — sessions and the command.
-/
import Scriptlet.Command
import Scriptlet.Proofs.Repetition
import Scriptlet.Proofs.Reports

namespace Scriptlet

/-! ## §1. The failures of a run -/

/-- Asks whether the statement that fails when so many errors have been added to the first `n` fails
    with the error at that place. -/
def Watch.failing (host : Host) (n : Nat) (failures : List Error) : Watch where
  host := host
  failed := fun e s => decide (failures[s.pending.size - n]? = some e)

/-- Asks whether no statement fails when `k` errors have been added to the first `n`. -/
def Watch.sparing (host : Host) (n k : Nat) : Watch where
  host := host
  failed := fun _ s => decide (s.pending.size - n ≠ k)

/-- The statements that fail in the run, at any depth, fail with these errors in this order. -/
structure Block.FailsWith (host : Host) (fuel : Nat) (body : List Stmt) (s : State)
    (failures : List Error) : Prop where
  /-- Each statement that fails does so with the error at its place. -/
  each : ((Watch.failing host s.pending.size failures).exec fuel body s).isSome = true
  /-- At every place a statement fails. -/
  every : ∀ k < failures.length, (Watch.sparing host s.pending.size k).exec fuel body s = none

theorem getElem?_of_leading {α : Type} {l first second : List α} {a : α}
    (h : l ++ [a] <+: first ++ second) (hl : first.length ≤ l.length) :
    second[l.length - first.length]? = some a := by
  obtain ⟨rest, h⟩ := h
  calc second[l.length - first.length]?
      = (first ++ second)[l.length]? := (List.getElem?_append_right hl).symm
    _ = (l ++ ([a] ++ rest))[l.length]? := by rw [← h, List.append_assoc]
    _ = some a := by
      rw [List.getElem?_append_right (Nat.le_refl _), Nat.sub_self]
      rfl

/-- Nothing but the errors of failing statements is added, up to the errors at the end. -/
def Regime.failing (host : Host) (before : Array Error) (failures : List Error) :
    Regime (.plain host) (.failing host before.size failures) where
  toConduct := .any _
  within _ pending := before.size ≤ pending.size
  keeps pending := pending.toList <+: before.toList ++ failures
  stops := True
  alike := .refl host
  admits _ _ := rfl
  opens h _ := h
  closes h := h
  opened _ hno := by cases hno
  openedToo _ _ := rfl
  failed _ hno := by cases hno
  failedToo {s e} hsize hkeeps _ := by
    rw [Array.toList_push] at hkeeps
    exact decide_eq_true (getElem?_of_leading hkeeps hsize)
  reports h _ _ := by
    rw [Array.size_push]
    omega
  earlier {pending e} h := by
    rw [Array.toList_push] at h
    exact (List.prefix_append _ _).trans h
  endless _ := trivial
  givesUpToo h := h

/-- Where no statement fails after `k` errors, no more than these are added. -/
def Regime.sparing (host : Host) (n k : Nat) : Regime (.sparing host n k) (.plain host) where
  toConduct := .any _
  within _ pending := n ≤ pending.size ∧ pending.size ≤ n + k
  keeps _ := True
  stops := True
  alike := .refl host
  admits _ _ := rfl
  opens h _ := h
  closes h := h
  opened _ _ := trivial
  openedToo _ _ := rfl
  failed _ _ := trivial
  failedToo _ _ _ := rfl
  reports {s e} hsize _ hfailed := by
    have hfailed : s.pending.size - n ≠ k := @of_decide_eq_true _ _ hfailed
    rw [Array.size_push]
    omega
  earlier _ := trivial
  endless _ := trivial
  givesUpToo h := h

/-- **What is reported is what fails**, each failure once and in order. -/
theorem Block.failsWith_reported {host : Host} {fuel : Nat} {body : List Stmt} {s t : State}
    {signal : Signal} {reported : List Error} (h : Block.exec host fuel body s = some (signal, t))
    (hreported : t.pending = s.pending ++ reported.toArray) :
    Block.FailsWith host fuel body s reported := by
  rw [← Watch.exec_plain] at h
  constructor
  · let R := Regime.failing host s.pending reported
    have hs : R.Holds s := ⟨fun _ _ _ => trivial, Nat.le_refl _⟩
    have hkeeps : t.pending.toList <+: s.pending.toList ++ reported := by
      rw [hreported]
      simp
    rw [(Watch.exec_repeats (R := R) trivial hs h).2 hkeeps]
    rfl
  · intro k hk
    let R := Regime.sparing host s.pending.size k
    have hs : R.Holds s := ⟨fun _ _ _ => trivial, Nat.le_refl _, Nat.le_add_right _ _⟩
    cases hspared : (Watch.sparing host s.pending.size k).exec fuel body s with
    | none => rfl
    | some p =>
      -- the run would be the one without questions, and would have added too much
      obtain ⟨signal', t'⟩ := p
      obtain ⟨ht', hsame⟩ := Watch.exec_repeats (R := R) trivial hs hspared
      rw [h] at hsame
      cases hsame trivial
      have hmost : t.pending.size ≤ s.pending.size + k := ht'.within.2
      have hsize : t.pending.size = s.pending.size + reported.length := by
        rw [hreported]
        simp
      omega

/-! ## §2. Lines -/

/-- Adds text. -/
def Sink.append : Sink → String → Sink
  | .stream, _ => .stream
  | .buffer held, text => .buffer (held ++ text)

/-- Lines are written as one text, each with its end. -/
theorem Sink.writeLines_eq_append (sink : Sink) (lines : List String) :
    sink.writeLines lines = sink.append (String.join (lines.map (· ++ "\n"))) := by
  induction lines generalizing sink with
  | nil =>
    cases sink with
    | stream => rfl
    | buffer held =>
      show Sink.buffer held = .buffer (held ++ "")
      rw [String.append_empty]
  | cons line rest ih =>
    show (sink.writeLine line).writeLines rest = _
    rw [ih, List.map_cons, String.join_cons]
    cases sink with
    | stream => rfl
    | buffer held =>
      show Sink.buffer (held ++ line ++ "\n" ++ _) = .buffer (held ++ (line ++ "\n" ++ _))
      simp only [String.append_assoc]

theorem Sink.writeLines_append (sink : Sink) (first second : List String) :
    sink.writeLines (first ++ second) = (sink.writeLines first).writeLines second :=
  List.foldl_append

/-- The lines that show these errors. -/
def errorLines (errors : List Error) : String :=
  String.join (errors.map fun e => "Error: " ++ e.message ++ "\n")

/-! ## §3. Sessions -/

/-- The errors that a program hands over and the text that it shows. -/
theorem Session.executeWithin_reports {s t : Session} {fuel : Nat} {program : Program}
    {errors : List Error} (htrace : s.host.settings.trace = false)
    (h : s.executeWithin fuel program = some (errors, t)) :
    ∃ failures signal u,
      Block.exec s.host fuel program s.state = some (signal, u) ∧
      Block.FailsWith s.host fuel program s.state failures ∧
      errors = s.state.pending.toList ++ (failures ++ signal.stray?.toList) ∧
      t.state.pending = #[] ∧
      t.diag = s.deliver.diag.append (errorLines (failures ++ signal.stray?.toList)) := by
  -- the session delivers what the program has left in the state
  obtain ⟨⟨errors', state⟩, hexec, hdeliver⟩ := Option.bind_eq_some_iff.mp h
  cases hdeliver
  -- the program reports what fails in it
  obtain ⟨signal, u, reported, hblock, hreports, herrors, -, hpending, hshown⟩ :=
    Program.exec_reports (.any s.host s.state) hexec
  refine ⟨reported, signal, u, hblock, Block.failsWith_reported hblock hreports.pending, herrors,
    hpending, ?_⟩
  -- the diagnostics of before come first, and then those of the errors
  show s.diag.writeLines (state.diagnostics.toList.map Diagnostic.text) =
    (s.diag.writeLines (s.state.diagnostics.toList.map Diagnostic.text)).append _
  rw [hshown htrace, Array.toList_append, List.map_append, Sink.writeLines_append,
    Sink.writeLines_eq_append (Sink.writeLines s.diag _), errorLines]
  simp only [List.map_map]
  rfl

/-! ## §4. The command -/

namespace Command

/-- The command is to run this program: its first argument is a file that can be read and holds it. -/
def IsScript (read : String → Except ReadFailure String) (args : List String) (program : Program) :
    Prop :=
  ∃ path rest source, args = path :: rest ∧ read path = .ok source ∧
    Program.parse source = .ok program

variable {settings : Settings} {read : String → Except ReadFailure String} {args : List String}
variable {fuel : Nat} {program : Program} {outcome : Outcome}

/-- The session in which the command runs its script. -/
def session (settings : Settings) : Session := { host := { settings } }

theorem runWithin_of_isScript (h : IsScript read args program) :
    runWithin fuel settings read args = runProgram fuel settings program := by
  obtain ⟨path, rest, source, rfl, hread, hparse⟩ := h
  simp only [runWithin, hread, hparse]

/-- Without a script the settings and the fuel do not matter, because nothing is run. -/
theorem runWithin_of_no_script (h : ¬ ∃ program, IsScript read args program) :
    ∃ reason, ∀ fuel settings, runWithin fuel settings read args = some (refusal reason) := by
  cases args with
  -- no argument, no file, no program
  | nil => exact ⟨usage, fun _ _ => rfl⟩
  | cons path rest =>
    cases hread : read path with
    | error failure =>
      refine ⟨"reading file '" ++ path ++ "': " ++ failure.message, fun fuel settings => ?_⟩
      simp only [runWithin, hread]
    | ok source =>
      cases hparse : Program.parse source with
      | error e =>
        refine ⟨"parsing '" ++ path ++ "': " ++ e.message, fun fuel settings => ?_⟩
        simp only [runWithin, hread, hparse]
      | ok program => exact absurd ⟨program, path, rest, source, rfl, hread, hparse⟩ h

/-- What the command leaves behind of a script that ends. -/
theorem runProgram_outcome (htrace : settings.trace = false)
    (h : runProgram fuel settings program = some outcome) :
    ∃ errors t stdout, (session settings).executeWithin fuel program = some (errors, t) ∧
      outcome = completion stdout (errorLines errors) errors.length := by
  -- the outcome is made of what the session hands over
  obtain ⟨⟨errors, t⟩, hexecute, hrest⟩ := Option.bind_eq_some_iff.mp h
  obtain ⟨failures, signal, u, -, -, herrors, -, hdiag⟩ :=
    Session.executeWithin_reports (s := session settings) htrace hexecute
  have herrors : errors = failures ++ signal.stray?.toList := herrors
  -- a new session holds no diagnostics, so that only those of the errors are there
  have hdiagnostics : t.diag.take.1 = errorLines errors := by
    rw [hdiag, herrors]
    show "" ++ errorLines _ = _
    exact String.empty_append
  refine ⟨errors, t, t.out.take.1, hexecute, ?_⟩
  rw [← hdiagnostics]
  exact (Option.some.inj hrest).symm

theorem isScript_unique {program' : Program} (h : IsScript read args program)
    (h' : IsScript read args program') : program' = program := by
  obtain ⟨path, rest, source, rfl, hread, hparse⟩ := h
  obtain ⟨path', rest', source', hargs, hread', hparse'⟩ := h'
  cases hargs
  rw [hread] at hread'
  cases hread'
  rw [hparse] at hparse'
  cases hparse'
  rfl

/-- The exit code and the last line of a script follow from the errors that it reports. -/
theorem run_script_outcome (htrace : settings.trace = false) (hscript : IsScript read args program)
    (hrun : runWithin fuel settings read args = some outcome) :
    ∃ errors t, (session settings).executeWithin fuel program = some (errors, t) ∧
      outcome.exitCode = (if errors = [] then 0 else 1) ∧
      outcome.stderr = errorLines errors ++
        if errors = [] then "" else toString errors.length ++ " statement(s) failed\n" := by
  rw [runWithin_of_isScript hscript] at hrun
  obtain ⟨errors, t, stdout, hexecute, rfl⟩ := runProgram_outcome htrace hrun
  refine ⟨errors, t, hexecute, ?_⟩
  cases errors with
  | nil => exact ⟨rfl, String.append_empty.symm⟩
  | cons e rest => exact ⟨rfl, String.append_assoc⟩

/-- How the exit code and the texts tell what the command has done within the fuel. -/
structure Tells (fuel : Nat) (settings : Settings) (read : String → Except ReadFailure String)
    (args : List String) (outcome : Outcome) : Prop where
  /-- 0: there is a script, and it reports no error. -/
  clean : outcome.exitCode = 0 ↔ ∃ program t, IsScript read args program ∧
    (session settings).executeWithin fuel program = some ([], t)
  /-- 1: there is a script, and it reports errors. -/
  failing : outcome.exitCode = 1 ↔ ∃ program errors t, IsScript read args program ∧
    (session settings).executeWithin fuel program = some (errors, t) ∧ errors ≠ []
  /-- 2: there is no script. -/
  refused : outcome.exitCode = 2 ↔ ¬ ∃ program, IsScript read args program
  /-- The errors are shown in order, and counted if there are some. -/
  shown : ∀ program errors t, IsScript read args program →
    (session settings).executeWithin fuel program = some (errors, t) →
    outcome.stderr = errorLines errors ++
      if errors = [] then "" else toString errors.length ++ " statement(s) failed\n"
  /-- Without a script nothing is printed, and what surrounds a run does not matter. -/
  untouched : outcome.exitCode = 2 → outcome.stdout = "" ∧
    ∀ fuel' settings', runWithin fuel' settings' read args = some outcome

theorem tells_of_isScript (htrace : settings.trace = false) (hscript : IsScript read args program)
    (hrun : runWithin fuel settings read args = some outcome) :
    Tells fuel settings read args outcome := by
  obtain ⟨errors, t, hexecute, hcode, hstderr⟩ := run_script_outcome htrace hscript hrun
  -- there is one script, and it has one outcome
  have honly : ∀ program' errors' t', IsScript read args program' →
      (session settings).executeWithin fuel program' = some (errors', t') → errors' = errors := by
    intro program' errors' t' hscript' hexecute'
    rw [isScript_unique hscript hscript', hexecute] at hexecute'
    cases hexecute'
    rfl
  have hnever : outcome.exitCode ≠ 2 := by
    rw [hcode]
    split <;> decide
  constructor
  case clean =>
    constructor
    · intro h
      by_cases hnil : errors = []
      · exact ⟨program, t, hscript, hnil ▸ hexecute⟩
      · rw [hcode, if_neg hnil] at h
        cases h
    · rintro ⟨program', t', hscript', hexecute'⟩
      rw [hcode, if_pos (honly program' [] t' hscript' hexecute').symm]
  case failing =>
    constructor
    · intro h
      by_cases hnil : errors = []
      · rw [hcode, if_pos hnil] at h
        cases h
      · exact ⟨program, errors, t, hscript, hexecute, hnil⟩
    · rintro ⟨program', errors', t', hscript', hexecute', hne⟩
      rw [hcode, if_neg (honly program' errors' t' hscript' hexecute' ▸ hne)]
  case refused => exact ⟨fun h => absurd h hnever, fun h => absurd ⟨program, hscript⟩ h⟩
  case shown =>
    intro program' errors' t' hscript' hexecute'
    rw [honly program' errors' t' hscript' hexecute']
    exact hstderr
  case untouched => exact fun h => absurd h hnever

theorem tells_of_no_script (hscript : ¬ ∃ program, IsScript read args program)
    (hrun : runWithin fuel settings read args = some outcome) :
    Tells fuel settings read args outcome := by
  obtain ⟨reason, hrefused⟩ := runWithin_of_no_script hscript
  rw [hrefused fuel settings] at hrun
  cases hrun
  constructor
  case clean => exact ⟨fun h => (by cases h), fun ⟨p, _, h, _⟩ => absurd ⟨p, h⟩ hscript⟩
  case failing => exact ⟨fun h => (by cases h), fun ⟨p, _, _, h, _⟩ => absurd ⟨p, h⟩ hscript⟩
  case refused => exact ⟨fun _ => hscript, fun _ => rfl⟩
  case shown => exact fun p _ _ h => absurd ⟨p, h⟩ hscript
  case untouched => exact fun _ => ⟨rfl, hrefused⟩

end Command

/-- **Errors, diagnostics and the exit code agree**, where the trace is off, with any fuel that
    suffices.

    A session that executes a program hands over the errors that were pending and then those that
    are reported: the failures of statements, wherever they stand, in the order in which they fail,
    and a signal that is left over.  None is pending afterwards, and the text that is shown is that of
    the reported errors in the same order.

    The command exits with 0 if there is a script and it reports nothing, with 1 if it reports
    something, which is shown and counted, and with 2 if there is no script, and then nothing runs. -/
theorem errors_and_diagnostics_agree :
    (∀ (s t : Session) (fuel : Nat) (program : Program) (errors : List Error),
      s.host.settings.trace = false → s.executeWithin fuel program = some (errors, t) →
      ∃ failures signal u,
        Block.exec s.host fuel program s.state = some (signal, u) ∧
        Block.FailsWith s.host fuel program s.state failures ∧
        errors = s.state.pending.toList ++ (failures ++ signal.stray?.toList) ∧
        t.state.pending = #[] ∧
        t.diag = s.deliver.diag.append (errorLines (failures ++ signal.stray?.toList))) ∧
    (∀ (fuel : Nat) (settings : Settings) (read : String → Except ReadFailure String)
      (args : List String) (outcome : Command.Outcome),
      settings.trace = false → Command.runWithin fuel settings read args = some outcome →
      Command.Tells fuel settings read args outcome) := by
  refine ⟨fun s t fuel program errors => Session.executeWithin_reports, ?_⟩
  intro fuel settings read args outcome htrace hrun
  by_cases hscript : ∃ program, Command.IsScript read args program
  · obtain ⟨program, hscript⟩ := hscript
    exact Command.tells_of_isScript htrace hscript hrun
  · exact Command.tells_of_no_script hscript hrun

/-- A function that fails inside its own call, in the condition of a loop, then a stray `break`, in a
    session with an error pending; the same from a file; and a file that cannot be parsed. -/
theorem errors_and_diagnostics_agree_in_calls :
    let s : Session := { state := { pending := #[.divisionByZero] } }
    let program : Program :=
      [.func "f" [⟨"a", .bool, none⟩] .int
          [.expr (.var "y"), .ifThen (.var "a") [.ret (.call "f" [.bool false])]],
        .loop (.call "f" [.bool true]) [.brk], .brk]
    let read : String → Except ReadFailure String := fun path =>
      .ok (if path = "f" then
        "func f(a: Bool) -> Int \x7b\n y\n if a \x7b\n return f(false)\n \x7d\n\x7d\n" ++
          "while f(true) \x7b\n\x7d\nbreak\n"
      else "let")
    let errors : List Error := [.undefinedVariable "y", .undefinedVariable "y", .missingReturn "f",
      .missingReturn "f", .outsideLoop .brk]
    (∃ t failures signal, s.executeWithin 20 program = some (.divisionByZero :: errors, t) ∧
      Block.FailsWith s.host 20 program s.state failures ∧
      failures ++ Option.toList (Signal.stray? signal) = errors ∧
      t.diag = s.deliver.diag.append (errorLines errors)) ∧
    (∃ outcome, Command.run {} read ["f"] = some outcome ∧ outcome.exitCode = 1 ∧
      ∃ program errors t, Command.IsScript read ["f"] program ∧
        (Command.session {}).execute program = some (errors, t) ∧ errors ≠ []) ∧
    (∃ outcome, Command.run {} read ["g"] = some outcome ∧ outcome.exitCode = 2 ∧
      outcome.stdout = "") := by
  intro s program read errors
  obtain ⟨hsession, hcommand⟩ := errors_and_diagnostics_agree
  refine ⟨?_, ?_, ?_⟩
  · have hend : (s.executeWithin 20 program).map Prod.fst = some (.divisionByZero :: errors) := by
      decide +kernel
    obtain ⟨⟨all, t⟩, hexecute, rfl⟩ := Option.map_eq_some_iff.mp hend
    obtain ⟨failures, signal, u, -, hfails, herrors, -, hdiag⟩ :=
      hsession s t 20 program _ rfl hexecute
    have herrors : errors = failures ++ signal.stray?.toList := (List.cons.inj herrors).2
    rw [← herrors] at hdiag
    exact ⟨t, failures, signal, hexecute, hfails, herrors.symm, hdiag⟩
  · have hend : (Command.run {} read ["f"]).map (·.exitCode) = some 1 := by decide +kernel
    obtain ⟨outcome, hrun, hcode⟩ := Option.map_eq_some_iff.mp hend
    exact ⟨outcome, hrun, hcode, (hcommand _ {} read ["f"] outcome rfl hrun).failing.mp hcode⟩
  · have hend : (Command.run {} read ["g"]).map (·.exitCode) = some 2 := by decide +kernel
    obtain ⟨outcome, hrun, hcode⟩ := Option.map_eq_some_iff.mp hend
    exact ⟨outcome, hrun, hcode, ((hcommand _ {} read ["g"] outcome rfl hrun).untouched hcode).1⟩

end Scriptlet
