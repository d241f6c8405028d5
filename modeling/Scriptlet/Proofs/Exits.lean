/-
  Scriptlet.Proofs.Exits — jumps and returns as exceptions.

  The evaluator hands signals from each statement to the block, the branch or the loop around it, and
  each of them has to pass on what it does not take itself.  Here the same statements are executed
  with a jump or a return as an exception: the monad leaves everything in between, a loop catches the
  two jumps, and nothing but a call or the end of the program catches a return.

  Main results:
    * `Exits.exec_signal` — both ways to execute statements are the same.
-/
import Scriptlet.Proofs.Regime

namespace Scriptlet

/-! ## §1. Exits -/

/-- What leaves statements before their end. -/
inductive Exit where
  /-- A `break` or a `continue`. -/
  | jump (j : Jump)
  /-- A `return` with its value. -/
  | ret (v : Value)

/-- The signal that hands on the exit. -/
def Exit.signal : Exit → Signal
  | .jump j => j.signal
  | .ret v => .ret v

/-- The signal for what has ended, or has been left. -/
def Exit.outcome : Except Exit Unit → Signal
  | .ok _ => .next
  | .error exit => exit.signal

/-- A computation that an exit may leave. -/
abbrev Exiting (m : Type → Type) := ExceptT Exit m

namespace Exits

variable {α : Type} {m : Type → Type} [Monad m]

/-- What a computation leaves to be done, as a signal. -/
def signal (x : Exiting m Unit) : m Signal := Exit.outcome <$> x.run

/-- What a loop makes of a round: it catches the jumps, and a `break` is the last round. -/
def caught : Except Exit Unit → Except Exit Bool
  | .ok _ => .ok true
  | .error (.jump .cont) => .ok true
  | .error (.jump .brk) => .ok false
  | .error (.ret v) => .error (.ret v)

/-- Runs a round of a loop and tells whether there may be another. -/
def round (body : Exiting m Unit) : Exiting m Bool := ExceptT.mk (caught <$> body.run)

/-- A round, and then the others unless a `break` has ended the loop. -/
def roundThen (body others : Exiting m Unit) : Exiting m Unit := do
  if ← round body then others

/-- Executes a block in a frame of its own, which is also closed when the block is left. -/
def innerBlock (execute : List Stmt → Exiting Run Unit) (body : List Stmt) : Exiting Run Unit :=
  ExceptT.mk (Run.inFrame .block (execute body).run)

/-- A computation that cannot fail, among those that may. -/
def unfailing (x : Exiting Run α) : Exiting Eval α := ExceptT.mk (liftM x.run)

/-- Rounds while the condition holds, at most so many. -/
def whileLoop (condition : Eval Value) (body : Exiting Run Unit) : Nat → Exiting Eval Unit
  | 0 => liftM (Eval.outOfFuel : Eval Unit)
  | rounds + 1 => do
    if (← liftM condition).isTrue then
      roundThen (unfailing body) (whileLoop condition body rounds)

/-- A round for each value. -/
def overValues (body : Value → Exiting Eval Unit) : List Value → Exiting Eval Unit
  | [] => pure ()
  | v :: rest => roundThen (body v) (overValues body rest)

/-- A round for each value of a sequence. -/
def overSequence (body : Value → Exiting Eval Unit) : Sequence → Exiting Eval Unit
  | .ints run => overValues body ((List.range' 0 run.count).map run.item)
  | .values items => overValues body items

/-- One round of a `for`. -/
def forRound (execute : List Stmt → Exiting Run Unit) (reuse : Bool) (name : String)
    (body : List Stmt) (v : Value) : Exiting Eval Unit := do
  liftM (Eval.setItem reuse name v)
  unfailing (innerBlock execute body)

/-- A `for`. -/
def forIn (evaluate : Eval.Evaluate) (execute : List Stmt → Exiting Run Unit) (name : String)
    (iterable : Expr) (body : List Stmt) : Exiting Eval Unit := do
  let sequence ← liftM (Eval.visited evaluate iterable)
  let reuse := (← liftM (get : Eval State)).scopes.isBound name
  let rounds := overSequence (forRound execute reuse name body) sequence
  if reuse then rounds else ExceptT.mk (Eval.inFrame .block rounds.run)

/-- What a statement does.  Those that neither jump nor execute a block do what they do in the
    evaluator. -/
def effect (evaluate : Eval.Evaluate) (execute : List Stmt → Exiting Run Unit) (rounds : Nat) :
    Stmt → Exiting Eval Unit
  | .ifThen condition body => do
    if (← liftM (evaluate condition)).isTrue then unfailing (innerBlock execute body)
  | .ifElse condition body otherwise => do
    if (← liftM (evaluate condition)).isTrue then unfailing (innerBlock execute body)
    else unfailing (innerBlock execute otherwise)
  | .loop condition body => whileLoop (evaluate condition) (innerBlock execute body) rounds
  | .forIn name iterable body => forIn evaluate execute name iterable body
  | .brk => throw (.jump .brk)
  | .cont => throw (.jump .cont)
  | .ret value => do throw (.ret (← liftM (evaluate value)))
  | st => do let _ ← liftM (Eval.effect evaluate (fun _ => Run.outOfFuel) rounds st)

/-- Executes a statement, after announcing it. -/
def statement (host : Host) (evaluate : Eval.Evaluate) (execute : List Stmt → Exiting Run Unit)
    (rounds : Nat) (st : Stmt) : Exiting Eval Unit := do
  liftM (liftM (Eval.announce host st) : Eval Unit)
  effect evaluate execute rounds st

/-- What a block makes of a statement: an error is for the block, an exit leaves it too. -/
def sorted : Except Error (Except Exit α) → Except Exit (Except Error α)
  | .ok (.ok a) => .ok (.ok a)
  | .ok (.error exit) => .error exit
  | .error e => .ok (.error e)

/-- Tries a statement. -/
def attempt (x : Exiting Eval α) : Exiting Run (Except Error α) :=
  ExceptT.mk (sorted <$> x.run.run)

/-- Executes statements; errors are reported. -/
def block (stmt : Stmt → Exiting Eval Unit) : List Stmt → Exiting Run Unit
  | [] => pure ()
  | st :: rest => do
    match ← attempt (stmt st) with
    | .ok _ => block stmt rest
    | .error e =>
      liftM (Run.report e)
      block stmt rest

/-- Executes statements in the current frame. -/
def exec (host : Host) : Nat → List Stmt → Exiting Run Unit
  | 0, _ => liftM (Run.outOfFuel : Run Unit)
  | fuel + 1, body => block (statement host (Expr.eval host fuel) (exec host fuel) fuel) body

/-! ## §2. The same as with signals -/

section Signals

variable [LawfulMonad m]

theorem signal_pure : signal (pure () : Exiting m Unit) = pure .next := by
  simp [signal, Exit.outcome]

theorem signal_throw (exit : Exit) : signal (throw exit : Exiting m Unit) = pure exit.signal := by
  simp [signal, Exit.outcome]

/-- What a computation does first may end well, or be left; what follows is done in the first case
    only. -/
theorem signal_bind (x : Exiting m α) (f : α → Exiting m Unit) :
    signal (x >>= f) = x.run >>= fun r => signal (ExceptT.mk (ExceptT.bindCont f r)) := by
  unfold signal
  rw [ExceptT.run_bind, map_bind]
  refine bind_congr fun r => ?_
  cases r <;> rfl

/-- A computation that no exit can leave is followed by the rest in any case. -/
theorem signal_lift_bind (x : m α) (f : α → Exiting m Unit) :
    signal (liftM x >>= f) = x >>= fun a => signal (f a) := by
  rw [signal_bind, ExceptT.run_liftM, bind_map_left]
  rfl

/-- A loop does after a round what its signal asks. -/
theorem signal_roundThen (body others : Exiting m Unit) :
    signal (roundThen body others) = signal body >>= fun given =>
      (Eval.afterRound given).elim (signal others) pure := by
  unfold roundThen round
  rw [signal_bind, ExceptT.run_mk, bind_map_left, signal.eq_1 body, bind_map_left]
  refine bind_congr fun r => ?_
  rcases r with ((_ | _) | v) | _
  · exact signal_pure
  · rfl
  · exact signal_throw (.ret v)
  · rfl

end Signals

/-- Whether a computation may fail says nothing about how it is left. -/
theorem signal_unfailing (x : Exiting Run Unit) :
    signal (unfailing x) = (liftM (signal x) : Eval Signal) := by
  unfold signal unfailing
  simp

/-- The frame of a block is closed on both ways out. -/
theorem signal_innerBlock {execute : List Stmt → Exiting Run Unit} (body : List Stmt) :
    signal (innerBlock execute body) =
      Eval.innerBlock (fun inner => signal (execute inner)) body := by
  unfold signal innerBlock Eval.innerBlock Run.inFrame
  simp

/-- A `while` stops where the signal of a round stops it. -/
theorem signal_whileLoop (condition : Eval Value) (body : Exiting Run Unit) (rounds : Nat) :
    signal (whileLoop condition body rounds) = Eval.whileLoop condition (signal body) rounds := by
  induction rounds with
  | zero => rfl
  | succ rounds ih =>
    unfold whileLoop Eval.whileLoop
    rw [signal_lift_bind]
    refine bind_congr fun v => ?_
    split
    · rw [signal_roundThen, signal_unfailing]
      refine bind_congr fun given => ?_
      cases Eval.afterRound given with
      | none => exact ih
      | some last => rfl
    · exact signal_pure

/-- So does a loop over values. -/
theorem signal_overValues (body : Value → Exiting Eval Unit) (items : List Value) :
    signal (overValues body items) = Eval.overValues (fun v => signal (body v)) items := by
  induction items with
  | nil => exact signal_pure
  | cons v rest ih =>
    unfold overValues Eval.overValues
    rw [signal_roundThen]
    refine bind_congr fun given => ?_
    cases Eval.afterRound given with
    | none => exact ih
    | some last => rfl

/-- And a loop over integers, which makes each of them when its round comes. -/
theorem signal_overInts (body : Value → Exiting Eval Unit) (run : Progression) (k left : Nat) :
    signal (overValues body ((List.range' k left).map run.item)) =
      Eval.overInts (fun v => signal (body v)) run k left := by
  induction left generalizing k with
  | zero => exact signal_pure
  | succ left ih =>
    unfold Eval.overInts
    rw [List.range'_succ, List.map_cons, overValues, signal_roundThen]
    refine bind_congr fun given => ?_
    cases Eval.afterRound given with
    | none => exact ih (k + 1)
    | some last => rfl

theorem signal_overSequence (body : Value → Exiting Eval Unit) (sequence : Sequence) :
    signal (overSequence body sequence) =
      Eval.overSequence (fun v => signal (body v)) sequence := by
  cases sequence with
  | ints run => exact signal_overInts body run 0 run.count
  | values items => exact signal_overValues body items

/-- A round binds the variable, which no exit can leave, and executes the body. -/
theorem signal_forRound (execute : List Stmt → Exiting Run Unit) (reuse : Bool) (name : String)
    (body : List Stmt) (v : Value) :
    signal (forRound execute reuse name body v) =
      Eval.forRound (fun inner => signal (execute inner)) reuse name body v := by
  unfold forRound Eval.forRound
  rw [signal_lift_bind]
  refine bind_congr fun _ => ?_
  rw [signal_unfailing, signal_innerBlock]

/-- What is done with the result of a computation can wait until its frame is closed. -/
theorem inFrame_map {β : Type} (kind : FrameKind) (f : α → β) (x : Eval α) :
    Eval.inFrame kind (f <$> x) = f <$> Eval.inFrame kind x := by
  apply ExceptT.ext
  unfold Eval.inFrame Run.inFrame
  simp only [ExceptT.run_map, ExceptT.run_mk, bind_map_left, map_bind, map_pure]

/-- A `for` looks once whether its variable exists.  Its rounds are the same either way, and the
    frame they may have is closed on both ways out. -/
theorem signal_forIn (evaluate : Eval.Evaluate) (execute : List Stmt → Exiting Run Unit)
    (name : String) (iterable : Expr) (body : List Stmt) :
    signal (forIn evaluate execute name iterable body) =
      Eval.forIn evaluate (fun inner => signal (execute inner)) name iterable body := by
  unfold forIn Eval.forIn
  rw [signal_lift_bind]
  refine bind_congr fun sequence => ?_
  rw [signal_lift_bind]
  refine bind_congr fun s => ?_
  have hround : (fun v => signal (forRound execute (s.scopes.isBound name) name body v)) =
      Eval.forRound (fun inner => signal (execute inner)) (s.scopes.isBound name) name body :=
    funext fun v => signal_forRound execute _ name body v
  -- with the variable at hand the rounds stand as they are, else in a frame
  dsimp only
  split
  · rw [signal_overSequence, hround]
  · rw [← hround, ← signal_overSequence]
    exact (inFrame_map .block Exit.outcome _).symm

/-- **One statement**: the only ones that hand on a signal are jumps, returns, branches and loops;
    every other one goes on with the next. -/
theorem signal_effect (evaluate : Eval.Evaluate) (execute : List Stmt → Exiting Run Unit)
    (rounds : Nat) (st : Stmt) :
    signal (effect evaluate execute rounds st) =
      Eval.effect evaluate (fun inner => signal (execute inner)) rounds st := by
  cases st with
  | ifThen condition body =>
    unfold effect Eval.effect
    rw [signal_lift_bind]
    refine bind_congr fun v => ?_
    split
    · rw [signal_unfailing, signal_innerBlock]
    · exact signal_pure
  | ifElse condition body otherwise =>
    unfold effect Eval.effect
    rw [signal_lift_bind]
    refine bind_congr fun v => ?_
    split <;> rw [signal_unfailing, signal_innerBlock]
  | loop condition body =>
    unfold effect Eval.effect
    rw [signal_whileLoop, signal_innerBlock]
  | forIn name iterable body => exact signal_forIn evaluate execute name iterable body
  | brk => exact signal_throw _
  | cont => exact signal_throw _
  | ret value =>
    unfold effect Eval.effect
    rw [signal_lift_bind]
    exact bind_congr fun v => signal_throw _
  | _ =>
    -- the signal that is dropped is always that nothing is left to be done
    unfold effect Eval.effect
    rw [signal_lift_bind]
    simp [signal_pure]

/-- To announce a statement is nothing that an exit can leave. -/
theorem signal_statement (host : Host) (evaluate : Eval.Evaluate)
    (execute : List Stmt → Exiting Run Unit) (rounds : Nat) (st : Stmt) :
    signal (statement host evaluate execute rounds st) =
      Eval.statement host evaluate (fun inner => signal (execute inner)) rounds st := by
  unfold statement Eval.statement
  rw [signal_lift_bind]
  exact bind_congr fun _ => signal_effect evaluate execute rounds st

/-- **A list of statements** is left by the first exit, and by no error. -/
theorem signal_block (stmt : Stmt → Exiting Eval Unit) (body : List Stmt) :
    signal (block stmt body) = Eval.block (fun st => signal (stmt st)) body := by
  induction body with
  | nil => exact signal_pure
  | cons st rest ih =>
    unfold block Eval.block attempt
    rw [signal_bind, ExceptT.run_mk, bind_map_left, signal.eq_1 (stmt st), ExceptT.run_map,
      bind_map_left]
    refine bind_congr fun r => ?_
    -- an error, an exit, or the end of the statement
    rcases r with e | (_ | _)
    · show signal (liftM (Run.report e) >>= fun _ => block stmt rest) = _
      rw [signal_lift_bind, ih]
      rfl
    · rename_i exit
      rcases exit with (_ | _) | _ <;> rfl
    · exact ih

/-- **Signals are exits**: to hand a signal on from statement to statement is the same as to leave
    everything up to the loop, the call or the end of the program that takes it. -/
theorem exec_signal (host : Host) (fuel : Nat) (body : List Stmt) :
    signal (exec host fuel body) = Block.exec host fuel body := by
  induction fuel generalizing body with
  | zero => rfl
  | succ fuel ih =>
    unfold exec Block.exec
    rw [signal_block]
    simp only [signal_statement, ih]

end Exits

end Scriptlet
