/-
  Scriptlet.Proofs.Chains — a `?.` on an absent target ends the whole chain.

  The links of a chain are indices, members and methods.  They are followed from the innermost one
  outward, and once a `?.` has found nothing to its left, no link that follows does anything: the
  arguments and indices that stand in them are not evaluated, and the value of the chain is `nil`.
  What stands before the `?.` may itself be a chain, even one that has ended in this way.

  Main results:
    * `Eval.chain_of_eval` — the base of a chain has the value that it has by itself.
    * `Record.chain_linked_ended` — behind the end nothing happens, link after link.
    * `absent_targets_end_chains` — the value, the state and the record of such a chain.
-/
import Scriptlet.Proofs.LoopHeads
import Scriptlet.Proofs.Retelling

namespace Scriptlet

/-! ## §1. Links -/

/-- A link of a chain. -/
inductive Link where
  | index (i : Expr)
  | member (name : String) (optional : Bool)
  | method (name : String) (args : List Expr) (optional : Bool)

namespace Link

/-- The link behind its target. -/
def on (target : Expr) : Link → Expr
  | .index i => .index target i
  | .member name optional => .member target name optional
  | .method name args optional => .method target name args optional

/-- Whether the link is written with `?.`. -/
def isOptional : Link → Bool
  | .index _ => false
  | .member _ optional => optional
  | .method _ _ optional => optional

end Link

/-- The expression with links behind it, one after the other. -/
def Expr.linked (e : Expr) : List Link → Expr
  | [] => e
  | link :: links => (link.on e).linked links

/-- A chain ends with one of its links. -/
theorem Expr.linked_cons (e : Expr) (first : Link) (links : List Link) :
    ∃ target last, e.linked (first :: links) = Link.on target last := by
  induction links generalizing e first with
  | nil => exact ⟨e, first, rfl⟩
  | cons link links ih => exact ih (first.on e) link

/-! ## §2. The base of a chain -/

namespace Eval

variable {host : Host} {s t : State}

theorem expression_on (host : Host) (evaluate : Evaluate) (execute : Execute) (target : Expr)
    (link : Link) :
    expression host evaluate execute (link.on target) =
      (do return (← chain evaluate (link.on target)).getD .nil) := by
  cases link <;> rfl

/-- What is no link itself is the base of the chain, and is evaluated as it is. -/
theorem chain_base {e : Expr} (he : ∀ target link, e ≠ Link.on target link) (evaluate : Evaluate) :
    chain evaluate e = (do return some (← evaluate e)) := by
  cases e with
  | index target i => exact absurd rfl (he target (.index i))
  | member target name optional => exact absurd rfl (he target (.member name optional))
  | method target name args optional => exact absurd rfl (he target (.method name args optional))
  | _ => rfl

/-- **The base of a chain has the value that it has by itself**, or it has ended with `nil`; and also
    with more fuel. -/
theorem chain_of_eval {fuel fuel' : Nat} (hle : fuel ≤ fuel') {e : Expr} {v : Value}
    (h : Expr.eval host fuel e s = some (.ok v, t)) :
    ∃ r, chain (Expr.eval host fuel') e s = some (.ok r, t) ∧ r.getD .nil = v := by
  -- a link is evaluated as a chain, with one level of fuel less
  by_cases hlink : ∃ target link, e = Link.on target link
  · obtain ⟨target, link, rfl⟩ := hlink
    cases fuel with
    | zero => cases h
    | succ n =>
      have h : expression host (Expr.eval host n) (Block.exec host n) (link.on target) s =
        some (.ok v, t) := h
      rw [expression_on] at h
      obtain ⟨r, u, hchain, hreturn⟩ := bind_ok_inv h
      cases hreturn
      -- more fuel does not change what has been found
      have hmore := ((Simulation.ofEq (Eq.refl host)).run_follows (Nat.le_of_succ_le hle)).1
      have hfollows : Eval.Follows (.ofEq (Eq.refl host)) [] s s (chain (Expr.eval host n) _)
          (chain (Expr.eval host fuel') _) := chain_follows hmore (link.on target) s s
      obtain ⟨u', hchain', rfl⟩ := hfollows rfl _ _ hchain
      exact ⟨r, hchain', rfl⟩
  -- what is no link is the base of a chain
  · have hmore := ((Simulation.ofEq (Eq.refl host)).run_follows hle).1
    obtain ⟨t', h', rfl⟩ := hmore [] e s s rfl _ _ h
    have h' : Expr.eval host fuel' e s = some (.ok v, t') := h'
    refine ⟨some v, ?_, rfl⟩
    rw [chain_base (fun target link heq => hlink ⟨target, link, heq⟩), bind_ok h']
    rfl

end Eval

/-! ## §3. Behind the end of a chain -/

theorem Attempt.run_bind_ok {α β : Type} {x : Attempt α} {f : α → Attempt β} {s t : State} {a : α}
    {log : List Event} (h : x.run s = (some (.ok a, t), log)) :
    (x >>= f).run s = (((f a).run t).1, log ++ ((f a).run t).2) := by
  have houtcome : x.run.outcome s = some (.ok a, t) := congrArg Prod.fst h
  have hlog : x.run.log s = log := congrArg Prod.snd h
  show ((x.run.outcome s).bind fun p => Recording.outcome (ExceptT.bindCont f p.1) p.2,
    x.run.log s ++ (x.run.outcome s).elim [] fun p => Recording.log (ExceptT.bindCont f p.1) p.2) = _
  rw [houtcome, hlog]
  rfl

namespace Record

variable {evaluate : Evaluate} {s t : State} {e : Expr} {log : List Event}

/-- A link behind the end does nothing. -/
theorem chain_on_ended (h : (chain evaluate e).run s = (some (.ok none, t), log)) (link : Link) :
    (chain evaluate (link.on e)).run s = (some (.ok none, t), log) := by
  cases link with
  | index i =>
    rw [Link.on, chain, Attempt.run_bind_ok h]
    exact congrArg _ (List.append_nil log)
  | member name optional =>
    rw [Link.on, chain, Attempt.run_bind_ok h]
    exact congrArg _ (List.append_nil log)
  | method name args optional =>
    rw [Link.on, chain, Attempt.run_bind_ok h]
    exact congrArg _ (List.append_nil log)

/-- **Behind the end nothing happens**, however many links there are. -/
theorem chain_linked_ended (h : (chain evaluate e).run s = (some (.ok none, t), log))
    (links : List Link) : (chain evaluate (e.linked links)).run s = (some (.ok none, t), log) := by
  induction links generalizing e with
  | nil => exact h
  | cons link links ih => exact ih (chain_on_ended h link)

/-- What is written down for a `?.` behind a chain that has come to this. -/
def linkNote (r : Option Value) (t : State) : List Event := r.elim [] fun v => [⟨.link v, t⟩]

/-- A `?.` on an absent target, or behind the end, ends the chain. -/
theorem chain_on_absent {r : Option Value}
    (h : (chain evaluate e).run s = (some (.ok r, t), log)) (hr : (r.getD .nil).isAbsent = true)
    {link : Link} (hlink : link.isOptional = true) :
    (chain evaluate (link.on e)).run s = (some (.ok none, t), log ++ linkNote r t) := by
  -- an absent value gives an optional link no target
  have hnone : r.bind (Eval.linkTarget true) = none := by
    cases r with
    | none => rfl
    | some v =>
      show (if v.isAbsent = true then none else some v.unwrap) = none
      rw [if_pos (show v.isAbsent = true from hr)]
  cases link with
  | index i => cases hlink
  | member name optional =>
    cases hlink
    rw [Link.on, chain, Attempt.run_bind_ok h]
    simp only [hnone]
    cases r <;> rfl
  | method name args optional =>
    cases hlink
    rw [Link.on, chain, Attempt.run_bind_ok h]
    simp only [hnone]
    cases r <;> rfl

/-- A chain that has ended has the value `nil`. -/
theorem eval_ended {host : Host} {fuel : Nat} {target : Expr} {link : Link}
    (h : (chain (eval host fuel) (link.on target)).run s = (some (.ok none, t), log)) :
    (eval host (fuel + 1) (link.on target)).run s =
      (some (.ok .nil, t), log ++ [⟨.value .nil, t⟩]) := by
  have hexpression : expression host (eval host fuel) (exec host fuel) (link.on target) =
      (do return (← chain (eval host fuel) (link.on target)).getD .nil) := by
    cases link <;> rfl
  have hvalue : (expression host (eval host fuel) (exec host fuel) (link.on target)).run s =
      (some (.ok .nil, t), log) := by
    rw [hexpression, Attempt.run_bind_ok h]
    exact congrArg _ (List.append_nil log)
  rw [eval, Attempt.noted, Attempt.run_bind_ok hvalue]
  rfl

/-- **What happens where a `?.` finds nothing**: the base is evaluated, and nothing more. -/
theorem eval_linked_absent {host : Host} {fuel fuel' : Nat} (hle : fuel ≤ fuel') {v : Value}
    (he : Expr.eval host fuel e s = some (.ok v, t)) (hv : v.isAbsent = true) :
    ∃ log, ∀ first : Link, first.isOptional = true → ∀ links,
      (eval host (fuel' + 1) (e.linked (first :: links))).run s = (some (.ok .nil, t), log) := by
  -- the base is evaluated once, and its steps are recorded
  obtain ⟨r, hchain, hr⟩ := Eval.chain_of_eval hle he
  have hbase : (chain (eval host fuel') e).run s =
      (some (.ok r, t), (chain (eval host fuel') e).run.log s) :=
    Prod.ext ((chain_tells (run_tells host .any fuel').1 e s (.any host s)).outcome.trans hchain) rfl
  refine ⟨(chain (eval host fuel') e).run.log s ++ linkNote r t ++ [⟨.value .nil, t⟩],
    fun first hfirst links => ?_⟩
  -- behind the absent value the other links do nothing
  have hended := chain_linked_ended (chain_on_absent hbase (hr ▸ hv) hfirst) links
  obtain ⟨target, last, hlast⟩ := e.linked_cons first links
  rw [Expr.linked] at hlast
  rw [Expr.linked, hlast]
  rw [hlast] at hended
  exact eval_ended hended

end Record

/-! ## §4. Absent targets -/

/-- **A `?.` on an absent target ends the whole chain.**  The chain has the value `nil` and leaves the
    state that its base has left, whatever links follow and whatever stands in them.  And nothing else
    has happened: the record of the run is that of a chain of one member, in which no argument and no
    index stands. -/
theorem absent_targets_end_chains (host : Host) (fuel : Nat) (e : Expr) (s t : State) (v : Value)
    (he : Expr.eval host fuel e s = some (.ok v, t)) (hv : v.isAbsent = true) (first : Link)
    (hfirst : first.isOptional = true) (links : List Link) (fuel' : Nat) (hfuel : fuel < fuel') :
    Expr.eval host fuel' (e.linked (first :: links)) s = some (.ok .nil, t) ∧
    (Record.eval host fuel' (e.linked (first :: links))).run.outcome s = some (.ok .nil, t) ∧
    ∀ name, (Record.eval host fuel' (e.linked (first :: links))).run.log s =
      (Record.eval host fuel' (.member e name true)).run.log s := by
  obtain ⟨n, rfl⟩ : ∃ n, fuel' = n + 1 := ⟨fuel' - 1, by omega⟩
  obtain ⟨log, hlog⟩ := Record.eval_linked_absent (Nat.le_of_lt_succ hfuel) he hv
  -- the outcome is that of the plain evaluator
  have hrun := hlog first hfirst links
  have houtcome : (Record.eval host (n + 1) (e.linked (first :: links))).run.outcome s =
      some (.ok .nil, t) := congrArg Prod.fst hrun
  refine ⟨?_, houtcome, fun name => ?_⟩
  · rw [← houtcome]
    exact ((Record.run_tells host .any (n + 1)).1 _ s (.any host s)).outcome.symm
  -- the record is the same for every continuation, also for that by one member
  · exact (congrArg Prod.snd hrun).trans
      (congrArg Prod.snd (hlog (.member name true) rfl [])).symm

/-- A function that counts its calls and returns an empty optional: it is called once, though it
    stands in the chain again, beside an argument that would fail and one that would never end. -/
theorem absent_targets_end_chains_once :
    let counting : Func :=
      ⟨"f", [], .optional .int, [.assign "n" (.binary .add (.var "n") (.int 1)), .ret .nil]⟩
    let endless : Func := ⟨"g", [], .int, [.ret (.call "g" [])]⟩
    let s : State :=
      { scopes := { globals := OrderedMap.empty.set "n" ⟨.int, .int 0, false⟩ }
        functions := (OrderedMap.empty.set "f" counting).set "g" endless }
    let links : List Link :=
      [.method "m" [.var "unknown", .call "g" []] true, .index (.call "f" []), .member "x" false,
        .method "append" [.call "f" []] true]
    ∃ t, Expr.eval {} 9 ((Expr.call "f" []).linked links) s = some (.ok .nil, t) ∧
      t.scopes.globals.get? "n" = some ⟨.int, .int 1, false⟩ := by
  intro counting endless s links
  obtain ⟨v, t, he, hv, hn⟩ : ∃ v t, Expr.eval {} 8 (.call "f" []) s = some (.ok v, t) ∧
      v.isAbsent = true ∧ t.scopes.globals.get? "n" = some ⟨.int, .int 1, false⟩ :=
    ⟨_, _, rfl, rfl, rfl⟩
  exact ⟨t, (absent_targets_end_chains {} 8 _ s t v he hv _ rfl _ 9 (by decide)).1, hn⟩

end Scriptlet
