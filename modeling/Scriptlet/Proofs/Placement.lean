/-
  Scriptlet.Proofs.Placement — jumps and returns that stand where something takes them.

  Statements are placed well if every `break` and `continue` lies in a loop of the same function, or
  of the top level, and every `return` lies in a function.  This can be read off the text, but calls
  meet functions that were declared on the way, and those of modules; what has to be kept up is that
  all of them are placed well.

  Main results:
    * `Exits.exec_exits` — statements placed well are left only by exits that their place allows.
    * `placed_jumps_are_taken` — then no jump and no return is ever left over.
-/
import Scriptlet.Proofs.Exits
import Scriptlet.Proofs.Repetition
import Scriptlet.Proofs.Reports

namespace Scriptlet

/-! ## §1. Statements placed well -/

mutual

/-- Whether every jump in the statement lies in a loop and every return in a function, given whether
    the statement itself does. -/
def Stmt.placed (inLoop inFunction : Bool) : Stmt → Bool
  | .brk | .cont => inLoop
  | .ret _ => inFunction
  | .ifThen _ body => Block.placed inLoop inFunction body
  | .ifElse _ body otherwise =>
    Block.placed inLoop inFunction body && Block.placed inLoop inFunction otherwise
  | .loop _ body => Block.placed true inFunction body
  | .forIn _ _ body => Block.placed true inFunction body
  | .func _ _ _ body => Block.placed false true body
  | _ => true

/-- Whether every statement is placed well. -/
def Block.placed (inLoop inFunction : Bool) : List Stmt → Bool
  | [] => true
  | st :: rest => st.placed inLoop inFunction && Block.placed inLoop inFunction rest

end

/-- Whether the body of the function is placed well: a loop around its declaration does not count. -/
def Func.placed (f : Func) : Bool := Block.placed false true f.body

/-- What holds of all statements holds of each. -/
theorem Block.placed_mem {inLoop inFunction : Bool} {body : List Stmt}
    (h : Block.placed inLoop inFunction body = true) {st : Stmt} (hst : st ∈ body) :
    st.placed inLoop inFunction = true := by
  induction body with
  | nil => cases hst
  | cons first rest ih =>
    rw [Block.placed, Bool.and_eq_true] at h
    rcases List.mem_cons.mp hst with rfl | hst
    · exact h.1
    · exact ih h.2 hst

/-- The blocks of a statement placed well are placed well, each for its own place. -/
theorem Stmt.placed_block {inLoop inFunction : Bool} {st : Stmt}
    (h : st.placed inLoop inFunction = true) {body : List Stmt} (hbody : body ∈ st.blocks) :
    ∃ inLoop inFunction, Block.placed inLoop inFunction body = true := by
  cases st with
  | ifElse condition body otherwise =>
    rw [Stmt.placed, Bool.and_eq_true] at h
    simp only [Stmt.blocks, List.mem_cons, List.not_mem_nil, or_false] at hbody
    rcases hbody with rfl | rfl
    · exact ⟨_, _, h.1⟩
    · exact ⟨_, _, h.2⟩
  | ifThen | loop | forIn | func =>
    obtain rfl := List.mem_singleton.mp hbody
    exact ⟨_, _, h⟩
  | _ => cases hbody

/-! ## §2. Exits that a place allows -/

/-- Whether something around the place takes the exit. -/
def Exit.fits (inLoop inFunction : Bool) : Exit → Bool
  | .jump _ => inLoop
  | .ret _ => inFunction

namespace Exits

open MonadAttach (CanReturn)

variable {α β : Type} {m : Type → Type} [MonadAttach m] {P Q : Exit → Prop}

/-- A computation is left, if at all, by exits as asked. -/
def Only (P : Exit → Prop) (x : Exiting m α) : Prop :=
  ∀ exit, CanReturn x.run (.error exit) → P exit

theorem Only.mono {x : Exiting m α} (hx : Only P x) (h : ∀ exit, P exit → Q exit) : Only Q x :=
  fun exit hexit => h exit (hx exit hexit)

section Rules

variable [Monad m] [LawfulMonad m] [LawfulMonadAttach m] {x : Exiting m α}

theorem only_pure (a : α) : Only P (pure a : Exiting m α) := by
  intro exit hexit
  rw [ExceptT.run_pure] at hexit
  cases LawfulMonadAttach.eq_of_canReturn_pure hexit

theorem only_throw {exit : Exit} (h : P exit) : Only P (throw exit : Exiting m α) := by
  intro exit' hexit
  rw [ExceptT.run_throw] at hexit
  cases LawfulMonadAttach.eq_of_canReturn_pure hexit
  exact h

/-- A computation that knows no exits is left by none. -/
theorem only_lift (y : m α) : Only P (liftM y : Exiting m α) := by
  intro exit hexit
  have hexit : CanReturn (Except.ok <$> y) (Except.error exit) := by
    simpa using hexit
  obtain ⟨a, -, ha⟩ := LawfulMonadAttach.canReturn_map_imp' hexit
  cases ha

/-- What is left early is left by the first part or by the second. -/
theorem Only.bind {f : α → Exiting m β} (hx : Only P x) (hf : ∀ a, Only P (f a)) :
    Only P (x >>= f) := by
  intro exit hexit
  rw [ExceptT.run_bind] at hexit
  obtain ⟨r, hr, hrest⟩ := LawfulMonadAttach.canReturn_bind_imp' hexit
  cases r with
  | ok a => exact hf a exit hrest
  | error first =>
    cases LawfulMonadAttach.eq_of_canReturn_pure hrest
    exact hx exit hr

/-- The returns among the exits. -/
def returns (P : Exit → Prop) : Exit → Prop
  | .jump _ => False
  | .ret v => P (.ret v)

/-- A round of a loop is left by returns only. -/
theorem Only.round {body : Exiting m Unit} (h : Only P body) : Only (returns P) (round body) := by
  intro exit hexit
  obtain ⟨r, hr, hcaught⟩ := LawfulMonadAttach.canReturn_map_imp' hexit
  rcases r with ((_ | _) | v) | _
  · cases hcaught
  · cases hcaught
  · -- a return is the one exit that is not caught
    cases hcaught
    exact h _ hr
  · cases hcaught

/-- So are a round and the rounds after it. -/
theorem Only.roundThen {body others : Exiting m Unit} (hbody : Only P body)
    (hothers : Only (returns P) others) : Only (returns P) (roundThen body others) := by
  refine hbody.round.bind fun again => ?_
  split
  · exact hothers
  · exact only_pure ()

/-- What follows is asked only about what the first part can give. -/
theorem bind_congr_canReturn {y : m α} {f g : α → m β} (h : ∀ a, CanReturn y a → f a = g a) :
    y >>= f = y >>= g := by
  have hy : Subtype.val <$> MonadAttach.attach y = y := WeaklyLawfulMonadAttach.map_attach
  calc
    y >>= f = (Subtype.val <$> MonadAttach.attach y) >>= f := by rw [hy]
    _ = (Subtype.val <$> MonadAttach.attach y) >>= g := by
      rw [bind_map_left, bind_map_left]
      exact bind_congr fun a => h a a.property
    _ = y >>= g := by rw [hy]

/-- What is left to be done is that of an exit as asked, or nothing. -/
theorem Only.signal {body : Exiting m Unit} (h : Only P body) {given : Signal}
    (hgiven : CanReturn (signal body) given) :
    given = .next ∨ ∃ exit, P exit ∧ given = exit.signal := by
  obtain ⟨r, hr, rfl⟩ := LawfulMonadAttach.canReturn_map_imp' hgiven
  cases r with
  | ok _ => exact .inl rfl
  | error exit => exact .inr ⟨exit, h exit hr, rfl⟩

end Rules

theorem canReturn_of_inFrame {kind : FrameKind} {x : Run α} {a : α}
    (h : CanReturn (Run.inFrame kind x) a) : CanReturn x a := by
  obtain ⟨s, t, hrun⟩ := h
  have hrun : Run.inFrame kind x s = some (a, t) := hrun
  rw [Run.inFrame_run] at hrun
  obtain ⟨⟨b, u⟩, hbody, hclosed⟩ := Option.map_eq_some_iff.mp hrun
  cases hclosed
  exact ⟨_, _, hbody⟩

/-- The frame of a block changes nothing about how it is left. -/
theorem Only.innerBlock {execute : List Stmt → Exiting Run Unit} {body : List Stmt}
    (h : Only P (execute body)) : Only P (innerBlock execute body) :=
  fun exit hexit => h exit (canReturn_of_inFrame hexit)

theorem Only.inFrame {kind : FrameKind} {x : Exiting Eval α} (h : Only P x) :
    Only P (ExceptT.mk (Eval.inFrame kind x.run)) := by
  intro exit hexit
  have hexit : CanReturn (Run.inFrame kind x.run.run) (.ok (.error exit)) := hexit
  exact h exit (canReturn_of_inFrame hexit)

theorem Only.unfailing {x : Exiting Run α} (h : Only P x) : Only P (unfailing x) := by
  rintro exit ⟨s, t, hrun⟩
  have hrun : (x.run s).bind (fun p => some (Except.ok p.1, p.2)) =
      some (.ok (.error exit), t) := hrun
  obtain ⟨⟨r, u⟩, hbody, hok⟩ := Option.bind_eq_some_iff.mp hrun
  cases hok
  exact h exit ⟨_, _, hbody⟩

/-- To try a statement stops its errors, but no exit. -/
theorem Only.attempt {x : Exiting Eval α} (h : Only P x) : Only P (attempt x) := by
  intro exit hexit
  obtain ⟨r, hr, hsorted⟩ := LawfulMonadAttach.canReturn_map_imp' hexit
  -- an error stays with the block, so that only an exit of the statement leaves it
  rcases r with _ | (_ | _)
  · cases hsorted
  · cases hsorted
    exact h exit hr
  · cases hsorted

/-! ## §3. Statements -/

variable {evaluate : Eval.Evaluate} {execute : List Stmt → Exiting Run Unit}

/-- **A `while` is left by returns only**: it takes the jumps of its body. -/
theorem Only.whileLoop {condition : Eval Value} {body : Exiting Run Unit} (h : Only P body)
    (rounds : Nat) : Only (returns P) (whileLoop condition body rounds) := by
  induction rounds with
  | zero => exact only_lift _
  | succ rounds ih =>
    refine (only_lift condition).bind fun v => ?_
    split
    · exact h.unfailing.roundThen ih
    · exact only_pure ()

/-- So is a loop over values. -/
theorem Only.overValues {body : Value → Exiting Eval Unit} (h : ∀ v, Only P (body v))
    (items : List Value) : Only (returns P) (overValues body items) := by
  induction items with
  | nil => exact only_pure ()
  | cons v rest ih => exact (h v).roundThen ih

/-- And a `for`, with or without a frame for its variable. -/
theorem Only.forIn {body : List Stmt} (h : Only P (execute body)) (name : String)
    (iterable : Expr) : Only (returns P) (forIn evaluate execute name iterable body) := by
  refine (only_lift _).bind fun sequence => (only_lift _).bind fun s => ?_
  -- the round sets the variable, which no exit leaves, and then executes the body
  have hround : ∀ v, Only P (forRound execute (s.scopes.isBound name) name body v) :=
    fun v => (only_lift _).bind fun _ => h.innerBlock.unfailing
  have hrounds : Only (returns P)
      (overSequence (forRound execute (s.scopes.isBound name) name body) sequence) := by
    cases sequence with
    | ints run => exact .overValues hround _
    | values items => exact .overValues hround items
  dsimp only
  split
  · exact hrounds
  · exact hrounds.inFrame

/-- What blocks placed well are left by. -/
def ExecutesPlaced (execute : List Stmt → Exiting Run Unit) : Prop :=
  ∀ inLoop inFunction body, Block.placed inLoop inFunction body = true →
    Only (Exit.fits inLoop inFunction · = true) (execute body)

/-- A loop takes the jumps of its body, so that it is left by what its own place allows. -/
theorem returns_fits {inLoop inFunction : Bool} {exit : Exit}
    (h : returns (Exit.fits true inFunction · = true) exit) :
    exit.fits inLoop inFunction = true := by
  cases exit with
  | jump j => exact h.elim
  | ret v => exact h

/-- **One statement** is left by exits that its place allows. -/
theorem effect_exits (hx : ExecutesPlaced execute) {inLoop inFunction : Bool} {st : Stmt}
    (h : st.placed inLoop inFunction = true) (rounds : Nat) :
    Only (Exit.fits inLoop inFunction · = true) (effect evaluate execute rounds st) := by
  cases st with
  | ifThen condition body =>
    refine (only_lift _).bind fun v => ?_
    split
    · exact (hx _ _ _ h).innerBlock.unfailing
    · exact only_pure ()
  | ifElse condition body otherwise =>
    rw [Stmt.placed, Bool.and_eq_true] at h
    refine (only_lift _).bind fun v => ?_
    split
    · exact (hx _ _ _ h.1).innerBlock.unfailing
    · exact (hx _ _ _ h.2).innerBlock.unfailing
  -- a loop is left by the returns of its body, and these its own place allows too
  | loop condition body => exact ((hx _ _ _ h).innerBlock.whileLoop rounds).mono fun _ => returns_fits
  | forIn name iterable body => exact ((hx _ _ _ h).forIn name iterable).mono fun _ => returns_fits
  -- the exits themselves are allowed as they are placed
  | brk => exact only_throw h
  | cont => exact only_throw h
  | ret value => exact (only_lift _).bind fun v => only_throw h
  | _ => exact (only_lift _).bind fun _ => only_pure ()

/-- A list of statements is left as its statements are. -/
theorem block_exits {stmt : Stmt → Exiting Eval Unit} {body : List Stmt}
    (h : ∀ st ∈ body, Only P (stmt st)) : Only P (block stmt body) := by
  induction body with
  | nil => exact only_pure ()
  | cons st rest ih =>
    have hrest := ih fun later hlater => h later (List.mem_cons_of_mem _ hlater)
    refine (h st List.mem_cons_self).attempt.bind fun r => ?_
    cases r with
    | ok _ => exact hrest
    | error e => exact (only_lift _).bind fun _ => hrest

/-- Statements placed well are left only by exits that something around their place takes. -/
theorem exec_exits (host : Host) (fuel : Nat) : ExecutesPlaced (exec host fuel) := by
  induction fuel with
  | zero => exact fun _ _ _ _ => only_lift _
  | succ fuel ih =>
    intro inLoop inFunction body h
    refine block_exits fun st hst => (only_lift _).bind fun _ => ?_
    exact effect_exits ih (Block.placed_mem h hst) fuel

end Exits

/-- The signals of statements placed well. -/
theorem Block.exec_fits {host : Host} {fuel : Nat} {inLoop inFunction : Bool} {body : List Stmt}
    (h : Block.placed inLoop inFunction body = true) {s t : State} {given : Signal}
    (hrun : Block.exec host fuel body s = some (given, t)) :
    given = .next ∨ ∃ exit : Exit, exit.fits inLoop inFunction = true ∧ given = exit.signal := by
  rw [← Exits.exec_signal] at hrun
  exact (Exits.exec_exits host fuel inLoop inFunction body h).signal ⟨s, t, hrun⟩

/-- Nothing is left to be done at the top level. -/
theorem Block.exec_next {host : Host} {fuel : Nat} {body : List Stmt}
    (h : Block.placed false false body = true) {s t : State} {given : Signal}
    (hrun : Block.exec host fuel body s = some (given, t)) : given = .next := by
  rcases Block.exec_fits h hrun with hnext | ⟨exit, hfits, -⟩
  · exact hnext
  · cases exit <;> cases hfits

/-- The body of a function returns or ends. -/
theorem Func.exec_returns {host : Host} {fuel : Nat} {f : Func} (h : f.placed = true)
    {s t : State} {given : Signal} (hrun : Block.exec host fuel f.body s = some (given, t)) :
    given = .next ∨ ∃ v, given = .ret v := by
  rcases Block.exec_fits h hrun with hnext | ⟨exit, hfits, hgiven⟩
  · exact .inl hnext
  · cases exit with
    | jump j => cases hfits
    | ret v => exact .inr ⟨v, hgiven⟩

/-! ## §4. Runs -/

/-- The tool does not fail with a jump or a return left over. -/
def Tool.Orderly (tool : Tool) : Prop := ∀ args h, Scriptlet.Orderly (tool.run args h).1

/-- The errors of a computation on the heap are those of the tool. -/
theorem ToolRun.ofAlloc_orderly {x : Alloc Value} {h : Heap} (hx : Orderly (x h)) :
    Orderly (ToolRun.ofAlloc x h).1 := by
  unfold ToolRun.ofAlloc
  cases hr : x h with
  | ok p => trivial
  | error e => exact hx.error hr

/-- A tool of one argument fails by its arguments, or as its function does. -/
theorem Builtin.unary_orderly {name description : String}
    {run : Heap → Value → Except Error Value} (hrun : ∀ h v, Orderly (run h v)) :
    (Builtin.unary name description run).Orderly := by
  intro args h
  refine ToolRun.ofAlloc_orderly ?_
  cases args with
  | nil => trivial
  | cons v _ => exact (hrun h v).bind fun _ => trivial

theorem Builtin.range_orderly : Builtin.range.Orderly := by
  intro args h
  refine ToolRun.ofAlloc_orderly ?_
  refine Orderly.bind (r := Builtin.rangeBounds args >>= fun bounds => pure (bounds, h)) ?_ ?_
  · exact (Builtin.rangeBounds_orderly args).bind fun _ => trivial
  · intro p
    unfold rangeCallArray Progression.toArray
    dsimp only
    split <;> trivial

/-- **No builtin fails with a jump or a return left over.** -/
theorem Builtin.registered_orderly {name : String} {tool : Tool}
    (ht : OrderedMap.get? Builtin.toolbox name = some tool) : tool.Orderly := by
  have hmem := Builtin.mem_of_toolbox ht
  simp only [List.mem_cons, List.not_mem_nil, or_false] at hmem
  -- `range`, then the tools of one argument; conversions may be refused, with errors of data
  rcases hmem with rfl | rfl | rfl | rfl | rfl | rfl
  · exact Builtin.range_orderly
  · refine Builtin.unary_orderly fun h v => ?_
    split <;> trivial
  · exact Builtin.unary_orderly fun _ _ => trivial
  · exact Builtin.unary_orderly fun _ _ => trivial
  · refine Builtin.unary_orderly fun h v => ?_
    unfold Builtin.toInt
    split
    case h_5 => split <;> trivial
    all_goals trivial
  · refine Builtin.unary_orderly fun h v => ?_
    unfold Builtin.toDouble
    split
    case h_4 => split <;> trivial
    all_goals trivial

/-- What modules export is placed well, and neither they nor the tools that are not builtins fail with
    a jump or a return left over. -/
structure Host.Placed (host : Host) : Prop where
  exports : ∀ name f, host.resolver name = .ok (some (.function f)) → f.placed = true
  modules : ∀ name, Orderly (host.resolver name)
  tools : ∀ name tool, OrderedMap.get? host.tools name = some tool →
    OrderedMap.get? Builtin.toolbox name = some tool ∨ tool.Orderly

/-- A call of a tool fails by the number of arguments, or as the tool does. -/
theorem Host.Placed.call_orderly {host : Host} (h : host.Placed) (name : String)
    (args : List Value) (heap : Heap) : Orderly (host.tools.call name args heap).1 := by
  have hrun : ∀ tool, OrderedMap.get? host.tools name = some tool →
      Orderly (tool.run args heap).1 := by
    intro tool ht
    rcases h.tools name tool ht with hbuiltin | horderly
    · exact Builtin.registered_orderly hbuiltin args heap
    · exact horderly args heap
  unfold Toolbox.call
  split
  · trivial
  · rename_i tool ht
    split
    · exact hrun tool ht
    · split
      · exact hrun tool ht
      · trivial

/-- A run executes only what is placed well, and reports no jump and no return that is left over. -/
def Regime.placed (host : Host) (hhost : host.Placed) (before : List Error) :
    Regime (.plain host) (.plain host) where
  code body := ∃ inLoop inFunction, Block.placed inLoop inFunction body = true
  callable f := f.placed = true
  allows e := e.isStray = false
  exported h := hhost.exports _ _ h
  body h := ⟨false, true, h⟩
  inner := fun ⟨_, _, h⟩ hst hblock => Stmt.placed_block (Block.placed_mem h hst) hblock
  declared := fun ⟨_, _, h⟩ hst => Block.placed_mem h hst
  orderly := id
  refusals h := (hhost.modules _).error h
  failures h := (hhost.call_orderly _ _ _).error h
  jumps {f fuel s t j} hf hrun := by
    rw [Watch.exec_plain] at hrun
    rcases Func.exec_returns hf hrun with hnext | ⟨v, hret⟩
    · cases j <;> cases hnext
    · cases j <;> cases hret
  within _ pending := ∃ reported, pending.toList = before ++ reported ∧
    ∀ e ∈ reported, e.isStray = false
  keeps _ := True
  stops := True
  alike := .refl host
  admits _ _ := rfl
  opens h _ := h
  closes h := h
  opened _ _ := trivial
  openedToo _ _ := rfl
  failed _ _ := trivial
  failedToo _ _ _ := rfl
  reports {s e} h he _ := by
    obtain ⟨reported, hpending, hreported⟩ := h
    refine ⟨reported ++ [e], ?_, fun e' he' => ?_⟩
    · rw [Array.toList_push, hpending, List.append_assoc]
    · rcases List.mem_append.mp he' with hold | hnew
      · exact hreported e' hold
      · rw [List.mem_singleton.mp hnew]
        exact he
  earlier _ := trivial
  endless _ := trivial
  givesUpToo h := h

/-- Whether the statement is a loop. -/
def Stmt.isLoop : Stmt → Bool
  | .loop _ _ | .forIn _ _ _ => true
  | _ => false

/-- Binds the parameters and executes the body; a return that leaves the body is caught here, and
    nothing else is. -/
def Exits.callBody (evaluate : Eval.Evaluate) (execute : List Stmt → Exiting Run Unit) (f : Func)
    (args : List Value) : Eval Value := do
  Eval.bindParams evaluate f args.length f.params args
  match ← liftM (execute f.body).run with
  | .error (.ret v) => Eval.ofAlloc (f.returns.coerce v)
  | _ => throw (.missingReturn f.name)

/-- A loop hands on nothing but returns, wherever it stands. -/
theorem Exits.statement_isLoop (host : Host) (fuel : Nat) {st : Stmt} (hst : st.isLoop = true) :
    Exits.Only (Exits.returns fun _ => True)
      (Exits.statement host (Expr.eval host fuel) (Exits.exec host fuel) fuel st) := by
  refine (Exits.only_lift _).bind fun _ => ?_
  have hany : ∀ body, Exits.Only (fun _ => True) (Exits.exec host fuel body) :=
    fun _ _ _ => trivial
  cases st with
  | loop condition body => exact (hany body).innerBlock.whileLoop fuel
  | forIn name iterable body => exact (hany body).forIn name iterable
  | _ => cases hst

/-- The call of a function placed well has nothing to catch but the return of its body. -/
theorem Func.callBody_catches {host : Host} (fuel : Nat) {f : Func} (hf : f.placed = true)
    (args : List Value) :
    Eval.callBody (Expr.eval host fuel) (Block.exec host fuel) f args =
      Exits.callBody (Expr.eval host fuel) (Exits.exec host fuel) f args := by
  unfold Eval.callBody Exits.callBody
  refine bind_congr fun _ => ?_
  have hexits := (Exits.exec_exits host fuel false true f.body hf).unfailing
  rw [← Exits.exec_signal, ← Exits.signal_unfailing, Exits.signal, bind_map_left]
  -- the two differ only in what they make of a jump, which the body cannot leave over
  refine Exits.bind_congr_canReturn fun r hr => ?_
  rcases r with (_ | v) | _
  · cases hexits _ hr
  · rfl
  · rfl

/-- A program placed well keeps its functions so, and reports no jump and no return. -/
theorem Program.exec_placed {host : Host} (hhost : host.Placed) {fuel : Nat} {program : Program}
    (hprogram : Block.placed false false program = true) {s t : State} {errors : List Error}
    (hs : s.functions.All (·.placed = true))
    (h : Program.exec host fuel program s = some (errors, t)) :
    t.functions.All (·.placed = true) ∧
      ∃ reported, errors = s.pending.toList ++ reported ∧ ∀ e ∈ reported, e.isStray = false := by
  rw [Program.exec_run] at h
  obtain ⟨⟨given, u⟩, hblock, hrest⟩ := Option.map_eq_some_iff.mp h
  -- nothing is left to be done at the end, so nothing is reported there
  cases Block.exec_next hprogram hblock
  cases hrest
  -- what the run itself reports is under the regime
  let R := Regime.placed host hhost s.pending.toList
  have hstart : R.Holds s := ⟨hs, [], (List.append_nil _).symm, fun _ he => by cases he⟩
  rw [← Watch.exec_plain] at hblock
  have hend : R.Holds u := (Watch.exec_repeats (R := R) ⟨false, false, hprogram⟩ hstart hblock).1
  exact ⟨hend.functions, hend.within⟩

/-- **Jumps and returns that are placed well are taken where they should be.**  Let a program, the
    functions that are declared and those that modules export be placed well.  Then a run of the
    program that ends has reported no jump and no return as left over, and the functions declared
    by then are placed well again.  A loop, wherever it stands, ends or returns, but never breaks
    or continues what is around it.  And a return is an exit to the nearest call: executing
    statements is the same as with exits that leave everything on their way, the call of a function
    that is placed well catches the return of its body and has nothing else to catch, and no exit
    at all leaves the program. -/
theorem placed_jumps_are_taken (host : Host) (hhost : host.Placed) (program : Program)
    (hprogram : Block.placed false false program = true) (s : State)
    (hs : s.functions.All (·.placed = true)) :
    (∀ fuel errors t, Program.exec host fuel program s = some (errors, t) →
      t.functions.All (·.placed = true) ∧
        ∃ reported, errors = s.pending.toList ++ reported ∧ ∀ e ∈ reported, e.isStray = false) ∧
    (∀ fuel st, st.isLoop = true → ∀ u t given,
      (Eval.statement host (Expr.eval host fuel) (Block.exec host fuel) fuel st).run u =
        some (.ok given, t) → given = .next ∨ ∃ v, given = .ret v) ∧
    (∀ fuel body, Block.exec host fuel body = Exits.signal (Exits.exec host fuel body)) ∧
    (∀ fuel f args, f.placed = true →
      Eval.callBody (Expr.eval host fuel) (Block.exec host fuel) f args =
        Exits.callBody (Expr.eval host fuel) (Exits.exec host fuel) f args) ∧
    ∀ fuel u t r, (Exits.exec host fuel program).run u = some (r, t) → r = .ok () := by
  refine ⟨fun fuel errors t => Program.exec_placed hhost hprogram hs, ?_, ?_, ?_, ?_⟩
  -- a loop, which only a return can leave
  · intro fuel st hst u t given hrun
    have hsignal := Exits.signal_statement host (Expr.eval host fuel) (Exits.exec host fuel) fuel st
    simp only [Exits.exec_signal] at hsignal
    rw [← hsignal] at hrun
    rcases (Exits.statement_isLoop host fuel hst).signal ⟨u, t, hrun⟩ with hnext | ⟨exit, hret, hgiven⟩
    · exact .inl hnext
    · cases exit with
      | jump j => exact hret.elim
      | ret v => exact .inr ⟨v, hgiven⟩
  · exact fun fuel body => (Exits.exec_signal host fuel body).symm
  · exact fun fuel f args hf => Func.callBody_catches fuel hf args
  -- the program: at its place no exit is allowed
  · intro fuel u t r hrun
    cases r with
    | ok _ => rfl
    | error exit =>
      have hfits := Exits.exec_exits host fuel false false program hprogram exit ⟨u, t, hrun⟩
      cases exit <;> cases hfits

/-- A function declared in a loop, with a `continue`, a `break` and a `return` in loops of its own.  The
    second declaration of it is refused, and the old report of a return stays the only one. -/
theorem placed_jumps_are_taken_in_loops :
    let program : Program :=
      [.forIn "i" (.range (.int 0) (.int 9) false)
        [.ifThen (.binary .eq (.var "i") (.int 1)) [.cont],
          .ifThen (.binary .eq (.var "i") (.int 3)) [.brk],
          .func "find" [⟨"limit", .int, none⟩] .int
            [.loop (.bool true)
              [.forIn "k" (.range (.int 0) (.var "limit") true)
                [.ifElse (.binary .lt (.var "k") (.int 2)) [.cont] [.ret (.var "k")]],
                .brk],
              .ret (.call "one" [])],
          .print (.call "find" [.var "i"])]]
    let s : State :=
      { functions := OrderedMap.empty.set "one" ⟨"one", [], .int, [.ret (.int 1)]⟩
        pending := #[.outsideFunction] }
    ∃ t, Program.exec {} 12 program s =
        some ([.outsideFunction, .functionRedefined "find"], t) ∧
      t.printed.toList = ["1", "2"] ∧ t.functions.All (·.placed = true) ∧
      ∃ reported, [.outsideFunction, .functionRedefined "find"] = s.pending.toList ++ reported ∧
        ∀ e ∈ reported, e.isStray = false := by
  intro program s
  have hend : (Program.exec {} 12 program s).map (fun p => (p.1, p.2.printed.toList)) =
      some ([.outsideFunction, .functionRedefined "find"], ["1", "2"]) := by decide +kernel
  obtain ⟨⟨errors, t⟩, h, hresult⟩ := Option.map_eq_some_iff.mp hend
  obtain ⟨rfl, hprinted⟩ := Prod.mk.inj hresult
  have hhost : Host.Placed {} := ⟨fun _ _ h => (by cases h), fun _ => trivial, fun _ _ => .inl⟩
  have hs : s.functions.All (·.placed = true) := OrderedMap.All.empty.set "one" (by decide)
  obtain ⟨hrun, -⟩ := placed_jumps_are_taken {} hhost program (by decide) s hs
  obtain ⟨hfunctions, hreported⟩ := hrun 12 _ t h
  exact ⟨t, h, hprinted, hfunctions, hreported⟩

end Scriptlet
