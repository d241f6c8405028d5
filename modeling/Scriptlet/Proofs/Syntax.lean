/-
  Scriptlet.Proofs.Syntax — the parts of expressions and statements, and induction over them.

  Expressions hold lists of expressions and statements hold lists of statements, so the recursors that
  come with the two types speak of lists and pairs as well.  Most proofs only need that a property of
  all parts passes to the whole.

  Main results:
    * `Expr.parts_induction` — from the parts of an expression to the expression.
    * `Block.inner_induction` — from the blocks inside a list of statements to the list.
-/
import Scriptlet.Ast.Stmt

namespace Scriptlet

/-! ## §1. Expressions -/

/-- The expressions that stand directly in an expression. -/
def Expr.parts : Expr → List Expr
  | .binary _ left right => [left, right]
  | .unary _ operand => [operand]
  | .call _ args => args
  | .array items => items
  | .dict pairs => pairs.flatMap fun (key, value) => [key, value]
  | .range first last _ => [first, last]
  | .index target i => [target, i]
  | .member target _ _ => [target]
  | .method target _ args _ => target :: args
  | _ => []

/-- A part of an expression is smaller than the expression. -/
theorem Expr.sizeOf_part {p e : Expr} (h : p ∈ e.parts) : sizeOf p < sizeOf e := by
  cases e with
  | nil | bool | int | double | string | var => cases h
  | binary op left right =>
    simp only [parts, List.mem_cons, List.not_mem_nil, or_false] at h
    rcases h with rfl | rfl
    all_goals
      simp only [Expr.binary.sizeOf_spec]
      omega
  | range first last inclusive =>
    simp only [parts, List.mem_cons, List.not_mem_nil, or_false] at h
    rcases h with rfl | rfl
    all_goals
      simp only [Expr.range.sizeOf_spec]
      omega
  | index target i =>
    simp only [parts, List.mem_cons, List.not_mem_nil, or_false] at h
    rcases h with rfl | rfl
    all_goals
      simp only [Expr.index.sizeOf_spec]
      omega
  | unary op operand =>
    obtain rfl := List.mem_singleton.mp h
    simp only [Expr.unary.sizeOf_spec]
    omega
  | member target name optional =>
    obtain rfl := List.mem_singleton.mp h
    simp only [Expr.member.sizeOf_spec]
    omega
  | call name args =>
    -- an element of a list is smaller than the list
    have hsize := List.sizeOf_lt_of_mem (show p ∈ args from h)
    simp
    omega
  | array items =>
    have hsize := List.sizeOf_lt_of_mem (show p ∈ items from h)
    simp
    omega
  | dict pairs =>
    -- a key or a value is smaller than its pair, and the pair than the list of pairs
    obtain ⟨⟨key, value⟩, hpair, hp⟩ := List.mem_flatMap.mp h
    have hsize := List.sizeOf_lt_of_mem hpair
    simp only [List.mem_cons, List.not_mem_nil, or_false] at hp
    rcases hp with rfl | rfl
    all_goals
      simp at hsize ⊢
      omega
  | method target name args optional =>
    rcases List.mem_cons.mp h with rfl | hp
    · simp
      omega
    · have hsize := List.sizeOf_lt_of_mem hp
      simp
      omega

/-- What passes from the parts of every expression to the expression holds of all. -/
theorem Expr.parts_induction {P : Expr → Prop} (h : ∀ e, (∀ p ∈ e.parts, P p) → P e) (e : Expr) :
    P e :=
  h e fun p _ => parts_induction h p
termination_by sizeOf e
decreasing_by exact Expr.sizeOf_part ‹_›

/-! ## §2. Statements -/

/-- The lists of statements that stand directly in a statement. -/
def Stmt.blocks : Stmt → List (List Stmt)
  | .ifThen _ body => [body]
  | .ifElse _ body otherwise => [body, otherwise]
  | .loop _ body => [body]
  | .forIn _ _ body => [body]
  | .func _ _ _ body => [body]
  | _ => []

/-- A block inside a statement is smaller than the statement. -/
theorem Stmt.sizeOf_block {st : Stmt} {body : List Stmt} (h : body ∈ st.blocks) :
    sizeOf body < sizeOf st := by
  cases st with
  | ifElse condition body otherwise =>
    simp only [blocks, List.mem_cons, List.not_mem_nil, or_false] at h
    rcases h with rfl | rfl
    all_goals
      simp only [Stmt.ifElse.sizeOf_spec]
      omega
  | ifThen | loop | forIn | func =>
    obtain rfl := List.mem_singleton.mp h
    simp only [Stmt.ifThen.sizeOf_spec, Stmt.loop.sizeOf_spec, Stmt.forIn.sizeOf_spec,
      Stmt.func.sizeOf_spec]
    omega
  | _ => cases h

/-- What passes from the inner blocks of every list of statements to the list holds of all. -/
theorem Block.inner_induction {P : List Stmt → Prop}
    (h : ∀ body, (∀ st ∈ body, ∀ inner ∈ st.blocks, P inner) → P body) (body : List Stmt) :
    P body :=
  h body fun st _ inner _ => inner_induction h inner
termination_by sizeOf body
decreasing_by exact Nat.lt_trans (Stmt.sizeOf_block ‹_›) (List.sizeOf_lt_of_mem ‹_›)

end Scriptlet
