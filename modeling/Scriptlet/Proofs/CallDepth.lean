/-
  Scriptlet.Proofs.CallDepth — a limit on the depth of calls bounds it, and is not noticed otherwise.

  A call beyond the limit fails with an error of its own.  No error is ever taken back: it gives up
  the statement that it comes from, and the block reports it.  So a run that has reported no such
  error has not met the limit, and is a run under every larger limit, and without one.

  Main results:
    * `depth_limit_is_transparent` — the number of open calls in every run, and the runs under larger
        limits.
-/
import Scriptlet.Proofs.Repetition
import Scriptlet.Proofs.Reports

namespace Scriptlet

/-- The same host with another limit on the depth of calls. -/
def Host.withLimit (host : Host) (limit : Option Nat) : Host :=
  { host with settings := { host.settings with maxCallDepth := limit } }

theorem Host.withLimit_admitsCall (host : Host) {limit depth : Nat} :
    (host.withLimit (some limit)).admitsCall depth =
      if limit ≤ depth then .error (.callDepthExceeded limit) else .ok () := rfl

/-! ## §1. The number of open calls -/

/-- Asks at each call whether no more than so many are open, and goes on where the fuel ends. -/
def Watch.depth (host : Host) (bound : Nat) : Watch where
  host := host
  opened := fun s => decide (s.callDepth ≤ bound)
  givesUp := true

/-- Under a limit, a run with no more than so many calls open never has more, and every run that
    nobody stops is the one that is asked at each call. -/
def Regime.bounded (w : Watch) (host : Host) {limit bound : Nat} (hbound : limit ≤ bound)
    (hhost : w.host = host.withLimit (some limit))
    (hopened : ∀ s : State, s.callDepth ≤ bound → w.opened s = true)
    (hfailed : ∀ e s, w.failed e s = true) :
    Regime w (Watch.depth (host.withLimit (some limit)) bound) where
  toConduct := .any w
  within depth _ := depth ≤ bound
  keeps _ := True
  stops := w.givesUp = false
  alike := by
    rw [hhost]
    exact .refl _
  admits _ _ := by rw [hhost]; rfl
  opens {depth _} _ hadmits := by
    rw [hhost, Host.withLimit_admitsCall] at hadmits
    split at hadmits
    · cases hadmits
    · omega
  closes h := by omega
  opened {s} hs hno := by
    rw [hopened s hs] at hno
    cases hno
  openedToo hs _ := decide_eq_true hs
  failed {s e} _ hno := by
    rw [hfailed e s] at hno
    cases hno
  failedToo _ _ _ := rfl
  reports h _ _ := h
  earlier _ := trivial
  endless := id
  givesUpToo _ := rfl

/-- In a run of the statements, an endless one included, there are never more than so many calls open:
    asked at each call, the run always goes on, and where it ends by itself it ends the same way. -/
def Block.StaysWithin (host : Host) (bound : Nat) (body : List Stmt) (s : State) : Prop :=
  ∀ fuel, ((Watch.depth host bound).exec fuel body s).isSome = true ∧
    ∀ signal t, Block.exec host fuel body s = some (signal, t) →
      (Watch.depth host bound).exec fuel body s = some (signal, t)

/-- **No run exceeds the limit**, or what was open at the beginning if that is more. -/
theorem Block.staysWithin_limit (host : Host) (limit : Nat) (body : List Stmt) (s : State) :
    Block.StaysWithin (host.withLimit (some limit)) (max limit s.callDepth) body s := by
  have hbound : limit ≤ max limit s.callDepth := Nat.le_max_left _ _
  have hdepth : s.callDepth ≤ max limit s.callDepth := Nat.le_max_right _ _
  intro fuel
  constructor
  · -- a run that gives up has no other way to be without an outcome than a no
    let R := Regime.bounded (Watch.depth (host.withLimit (some limit)) (max limit s.callDepth))
      host hbound rfl (fun _ hs => decide_eq_true hs) fun _ _ => rfl
    have hs : R.Holds s := ⟨fun _ _ _ => trivial, hdepth⟩
    exact Watch.exec_isSome (R := R) trivial hs nofun
  · intro signal t hrun
    let R := Regime.bounded (.plain (host.withLimit (some limit))) host hbound rfl
      (fun _ _ => rfl) fun _ _ => rfl
    have hs : R.Holds s := ⟨fun _ _ _ => trivial, hdepth⟩
    rw [← Watch.exec_plain] at hrun
    exact (Watch.exec_repeats (R := R) trivial hs hrun).2 trivial

/-! ## §2. Larger limits -/

theorem mem_drop_push {α : Type} {a b : α} {xs : Array α} {n : Nat} (h : a ∈ xs.toList.drop n) :
    a ∈ (xs.push b).toList.drop n := by
  rw [Array.toList_push, List.drop_append]
  exact List.mem_append_left _ h

/-- A limit that has not been met is as good as a larger one.  Of the errors before the run, `n` in
    number, nothing is asked. -/
def Regime.larger (host : Host) (limit n : Nat) (limit' : Option Nat)
    (hlimit : ∀ l, limit' = some l → limit ≤ l) :
    Regime (.plain (host.withLimit (some limit))) (.plain (host.withLimit limit')) where
  toConduct := .any _
  within _ pending := n ≤ pending.size
  keeps pending := ∀ l, .callDepthExceeded l ∉ pending.toList.drop n
  stops := True
  alike := ⟨rfl, rfl, rfl⟩
  admits {depth pending} hpending hkeeps := by
    -- a refusal would be under way as an error, after the first `n`
    have hfree : ¬ limit ≤ depth := by
      intro hmet
      rw [show (Watch.plain (host.withLimit (some limit))).host = host.withLimit (some limit)
        from rfl, Host.withLimit_admitsCall, if_pos hmet] at hkeeps
      refine hkeeps limit ?_
      show Error.callDepthExceeded limit ∈ (pending.push (.callDepthExceeded limit)).toList.drop n
      rw [Array.toList_push, List.drop_append_of_le_length (by simpa using hpending)]
      exact List.mem_append_right _ List.mem_cons_self
    show (host.withLimit limit').admitsCall depth = (host.withLimit (some limit)).admitsCall depth
    rw [Host.withLimit_admitsCall, if_neg hfree]
    cases limit' with
    | none => rfl
    | some l =>
      have hle := hlimit l rfl
      rw [Host.withLimit_admitsCall, if_neg (by omega)]
  opens h _ := h
  closes h := h
  opened _ hno := by cases hno
  openedToo _ _ := rfl
  failed _ hno := by cases hno
  failedToo _ _ _ := rfl
  reports h _ _ := by
    rw [Array.size_push]
    omega
  earlier h l hl := h l (mem_drop_push hl)
  endless _ := trivial
  givesUpToo h := h

/-- **A limit on the depth of calls bounds it, and is not noticed otherwise.**  In no run, however
    long, are more calls open than the limit, or than at the beginning if that is more.  And if a
    program ends and no call beyond the limit is among the errors that it has reported, it ends the
    same way under every larger limit, and without one: with the same errors, and in the same state
    with all its lines, diagnostics, bindings, objects and functions. -/
theorem depth_limit_is_transparent (host : Host) (limit : Nat) (program : Program) (s : State) :
    Block.StaysWithin (host.withLimit (some limit)) (max limit s.callDepth) program s ∧
    ∀ fuel errors t,
      Program.exec (host.withLimit (some limit)) fuel program s = some (errors, t) →
      (∀ l, Error.callDepthExceeded l ∉ errors.drop s.pending.size) →
      ∀ limit' : Option Nat, (∀ l, limit' = some l → limit ≤ l) →
        Program.exec (host.withLimit limit') fuel program s = some (errors, t) := by
  refine ⟨Block.staysWithin_limit host limit program s, ?_⟩
  intro fuel errors t h herrors limit' hlimit
  rw [Program.exec_run] at h ⊢
  obtain ⟨⟨signal, u⟩, hblock, hrest⟩ := Option.map_eq_some_iff.mp h
  let R := Regime.larger host limit s.pending.size limit' hlimit
  have hkeeps : R.keeps u.pending := by
    -- the errors of the statements are among those handed over
    cases hrest
    rw [State.withReport_pending] at herrors
    exact R.keeps_pending herrors
  have hs : R.Holds s := ⟨fun _ _ _ => trivial, Nat.le_refl _⟩
  rw [← Watch.exec_plain] at hblock ⊢
  rw [(Watch.exec_repeats (R := R) trivial hs hblock).2 hkeeps]
  exact congrArg some hrest

/-- Three calls inside each other under a limit of three, the last with an error, and an old error
    pending about the limit: the run without a limit hands over the same errors and the same state. -/
theorem depth_limit_is_transparent_at_limit :
    let program : Program :=
      [.func "f" [⟨"a", .bool, none⟩, ⟨"b", .bool, some (.bool false)⟩] .int
          [.ifThen (.var "a") [.ret (.call "f" [.var "b"])], .expr (.var "y"), .ret (.int 1)],
        .print (.call "f" [.bool true, .bool true])]
    let s : State := { pending := #[.callDepthExceeded 7] }
    ∃ errors t,
      Program.exec (Host.withLimit {} (some 3)) 12 program s = some (errors, t) ∧
      (errors = [.callDepthExceeded 7, .undefinedVariable "y"] ∧ t.printed.toList = ["1"]) ∧
      Block.StaysWithin (Host.withLimit {} (some 3)) 3 program s ∧
      Program.exec (Host.withLimit {} none) 12 program s = some (errors, t) := by
  intro program s
  have hend : (Program.exec (Host.withLimit {} (some 3)) 12 program s).map
      (fun p => (p.1, p.2.printed.toList)) =
        some ([.callDepthExceeded 7, .undefinedVariable "y"], ["1"]) := by decide +kernel
  obtain ⟨⟨errors, t⟩, h, hresult⟩ := Option.map_eq_some_iff.mp hend
  obtain ⟨rfl, hprinted⟩ := Prod.mk.inj hresult
  -- the error about the limit is an old one
  have hnew : ∀ l, Error.callDepthExceeded l ∉
      [Error.callDepthExceeded 7, .undefinedVariable "y"].drop s.pending.size := by
    intro l hl
    cases List.mem_singleton.mp hl
  obtain ⟨hwithin, hsame⟩ := depth_limit_is_transparent {} 3 program s
  exact ⟨_, t, h, ⟨rfl, hprinted⟩, hwithin, hsame 12 _ t h hnew none nofun⟩

end Scriptlet
