/-
  Scriptlet.Proofs.Ranges — ranges that are visited and ranges that are built.

  A `for` counts through a range and never has its elements at once.  Anywhere else a range becomes
  an array, after room for it has been asked for.  So the extent of a range is taken in three ways: by
  counting words up to the end, on integers that do not overflow, and as a difference of words that
  stops at the largest one.  They come to the same for all words, also at both ends of their range.

  Main results:
    * `Progression.between_isRange` — what a loop visits is what counting word by word visits.
    * `rangeRequest_asks` and `rangeCallRequest_asks` — the room asked for is the extent, or too much.
    * `visited_and_built_ranges_agree` — a range in the head of a `for`, and the same range as a value.
-/
import Scriptlet.Eval.Run

namespace Scriptlet

/-! ## §1. Counting words -/

/-- The words visited by counting up to a bound.  Below the bound one is added; the bound itself is
    visited if it belongs to the range, and nothing is added to it; beyond it nothing is visited. -/
inductive Counts (bound : Int64) (inclusive : Bool) : Int64 → List Int64 → Prop
  | before {n rest} : n < bound → Counts bound inclusive (n + 1) rest →
      Counts bound inclusive n (n :: rest)
  | included : inclusive = true → Counts bound inclusive bound [bound]
  | excluded : inclusive = false → Counts bound inclusive bound []
  | beyond {n} : bound < n → Counts bound inclusive n []

/-- Below another word, adding one does not wrap around. -/
theorem toInt_succ {n bound : Int64} (h : n < bound) : (n + 1).toInt = n.toInt + 1 := by
  have hlt : n.toInt < bound.toInt := Int64.lt_iff_toInt_lt.mp h
  have hbound := bound.toInt_lt
  have hn := n.le_toInt
  rw [Int64.toInt_add]
  show (n.toInt + 1).bmod _ = n.toInt + 1
  apply Int.bmod_eq_of_le <;> omega

/-- Between two words, an integer is a word. -/
theorem toInt_ofInt_between {a b : Int64} {n : Int} (ha : a.toInt ≤ n) (hb : n ≤ b.toInt) :
    (Int64.ofInt n).toInt = n := by
  have hlow := a.le_toInt
  have hhigh := b.toInt_lt
  exact Int64.toInt_ofInt_of_le (by omega) (by omega)

/-! ## §2. The elements of a range -/

/-- The values are the integers of the range: as many as its ends say, without wrap-around; the one
    at `k` is `k` more than the first; and they are those visited by counting words. -/
structure IsRange (first last : Int64) (inclusive : Bool) (items : List Value) : Prop where
  length : (items.length : Int) = max 0 (last.toInt - first.toInt + if inclusive then 1 else 0)
  item : ∀ k, k < items.length →
    ∃ w : Int64, items[k]? = some (.int w) ∧ w.toInt = first.toInt + k
  counted : ∃ words, Counts last inclusive first words ∧ items = words.map .int

namespace Progression

variable {first last : Int64} {inclusive : Bool}

theorem toList_length (p : Progression) : p.toList.length = p.count := by
  simp [toList]

theorem between_count (first last : Int64) (inclusive : Bool) :
    ((between first last inclusive).count : Int) =
      max 0 (last.toInt - first.toInt + if inclusive then 1 else 0) := by
  show (((last.toInt - first.toInt + if inclusive then 1 else 0).toNat : Nat) : Int) = _
  omega

theorem toList_getElem? {p : Progression} {k : Nat} (hk : k < p.count) :
    p.toList[k]? = some (p.item k) := by
  simp [toList, hk]

/-- No element lies beyond the end, so none of them wraps around. -/
theorem between_item {k : Nat} (hk : k < (between first last inclusive).count) :
    ∃ w : Int64, (between first last inclusive).item k = .int w ∧ w.toInt = first.toInt + k := by
  refine ⟨Int64.ofInt (first.toInt + k), rfl, ?_⟩
  have hcount := between_count first last inclusive
  have hend : first.toInt + k ≤ last.toInt := by
    split at hcount <;> omega
  exact toInt_ofInt_between (a := first) (by omega) hend

/-- The first element, and then the range from the next word on. -/
theorem between_toList_of_lt (h : first < last) (inclusive : Bool) :
    (between first last inclusive).toList =
      .int first :: (between (first + 1) last inclusive).toList := by
  have hlt : first.toInt < last.toInt := Int64.lt_iff_toInt_lt.mp h
  have hsucc := toInt_succ h
  -- one element less from the next number on
  have hcount : (between first last inclusive).count =
      (between (first + 1) last inclusive).count + 1 := by
    have h₁ := between_count first last inclusive
    have h₂ := between_count (first + 1) last inclusive
    have hextra : 0 ≤ if inclusive then (1 : Int) else 0 := by split <;> decide
    rw [hsucc] at h₂
    omega
  -- the first element is the first number
  have hfirst : (between first last inclusive).item 0 = .int first := by
    show Value.int (Int64.ofInt (first.toInt + 0)) = .int first
    rw [Int.add_zero, Int64.ofInt_toInt]
  -- the others are those from the next number on
  have hrest : ∀ k, (between first last inclusive).item (k + 1) =
      (between (first + 1) last inclusive).item k := by
    intro k
    show Value.int (Int64.ofInt (first.toInt + (k + 1 : Nat))) =
      .int (Int64.ofInt ((first + 1).toInt + k))
    rw [hsucc, show first.toInt + (k + 1 : Nat) = first.toInt + 1 + k by omega]
  unfold toList
  rw [hcount, List.range_succ_eq_map, List.map_cons, List.map_map, hfirst]
  exact congrArg (Value.int first :: ·) (List.map_congr_left fun k _ => hrest k)

/-- Counting up visits the elements of the range: one step of counting is one element less. -/
theorem between_counts (n : Nat) (first last : Int64) (inclusive : Bool)
    (hn : (between first last inclusive).count = n) :
    ∃ words, Counts last inclusive first words ∧
      (between first last inclusive).toList = words.map .int := by
  induction n generalizing first with
  | zero =>
    have hcount := between_count first last inclusive
    have hnil : (between first last inclusive).toList = [] :=
      List.length_eq_zero_iff.mp ((toList_length _).trans hn)
    refine ⟨[], ?_, hnil⟩
    rw [hn] at hcount
    by_cases hbeyond : last < first
    · exact .beyond hbeyond
    · -- nothing is visited at the bound itself, so it does not belong to the range
      have hle : first.toInt ≤ last.toInt := by
        rw [Int64.lt_iff_toInt_lt] at hbeyond
        omega
      cases inclusive with
      | true => simp only [if_true] at hcount; omega
      | false =>
        simp only [Bool.false_eq_true, if_false] at hcount
        obtain rfl : first = last := Int64.toInt_inj.mp (by omega)
        exact .excluded rfl
  | succ n ih =>
    have hcount := between_count first last inclusive
    rw [hn] at hcount
    by_cases hbelow : first < last
    · have hlength := congrArg List.length (between_toList_of_lt hbelow inclusive)
      rw [List.length_cons, toList_length, toList_length, hn] at hlength
      obtain ⟨words, hwords, hlist⟩ := ih (first + 1) (by omega)
      refine ⟨first :: words, .before hbelow hwords, ?_⟩
      rw [between_toList_of_lt hbelow, hlist, List.map_cons]
    · -- there is an element though nothing lies below the bound: it is the bound
      have hge : last.toInt ≤ first.toInt := by
        rw [Int64.lt_iff_toInt_lt] at hbelow
        omega
      cases inclusive with
      | false => simp only [Bool.false_eq_true, if_false] at hcount; omega
      | true =>
        simp only [if_true] at hcount
        obtain rfl : first = last := Int64.toInt_inj.mp (by omega)
        obtain rfl : n = 0 := by omega
        refine ⟨[first], .included rfl, ?_⟩
        show (List.range _).map _ = _
        rw [hn]
        show [Value.int (Int64.ofInt (first.toInt + 0))] = [.int first]
        rw [Int.add_zero, Int64.ofInt_toInt]

/-- **What a loop visits is the range.** -/
theorem between_isRange (first last : Int64) (inclusive : Bool) :
    IsRange first last inclusive (between first last inclusive).toList where
  length := by
    rw [toList_length]
    exact between_count first last inclusive
  item k hk := by
    rw [toList_length] at hk
    obtain ⟨w, hitem, hw⟩ := between_item hk
    exact ⟨w, by rw [toList_getElem? hk, hitem], hw⟩
  counted := between_counts _ first last inclusive rfl

end Progression

/-! ## §3. The room that is asked for -/

/-- The room asked for is the count, where that is a word, and else at least the largest word. -/
structure Asks (count request : Nat) : Prop where
  all : (count : Int) ≤ Int64.maxValue.toInt → request = count
  large : Int64.maxValue.toInt < count → Int64.maxValue.toInt ≤ request

theorem rangeRequest_asks (first last : Int64) (inclusive : Bool) :
    Asks (Progression.between first last inclusive).count (rangeRequest first last inclusive) := by
  have hsizes : Int64.maxValue.toInt ≤ (UInt64.size - 1 : Nat) := by decide
  show Asks _ (min (Progression.between first last inclusive).count (UInt64.size - 1))
  constructor <;> intro h <;> omega

theorem rangeCallRequest_asks (first last : Int64) :
    Asks (Progression.between first last false).count (rangeCallRequest first last) := by
  have hcount := Progression.between_count first last false
  simp only [Bool.false_eq_true, if_false] at hcount
  -- the difference as a word: cut off at both ends
  have hclamp : (Number.Word.clamp (last.toInt - first.toInt)).toInt =
      max Int64.minValue.toInt (min (last.toInt - first.toInt) Int64.maxValue.toInt) := by
    have hwords : Int64.minValue.toInt ≤ Int64.maxValue.toInt := by decide
    exact toInt_ofInt_between (a := Int64.minValue) (b := Int64.maxValue) (by omega) (by omega)
  have hmin : Int64.minValue.toInt ≤ 0 := by decide
  have hmax : 0 ≤ Int64.maxValue.toInt := by decide
  have hrequest : (rangeCallRequest first last : Int) =
      max 0 (min (last.toInt - first.toInt) Int64.maxValue.toInt) := by
    show ((Number.Word.clamp (last.toInt - first.toInt)).toInt.toNat : Int) = _
    rw [hclamp]
    omega
  constructor <;> intro h <;> omega

/-- No array has as many elements as the largest word says. -/
theorem Progression.capacity_lt : (Progression.capacity : Int) < Int64.maxValue.toInt := by
  decide

/-- So a range that is longer than any word says is never granted its room. -/
theorem Asks.refused {count request : Nat} (h : Asks count request)
    (hcount : Int64.maxValue.toInt < count) : Progression.capacity < request := by
  have hlarge := h.large hcount
  have hcapacity := Progression.capacity_lt
  omega

namespace Progression

variable (p : Progression) {request : Nat} (undertaking : Undertaking) (h : Heap)

theorem toArray_granted (hroom : request ≤ capacity) :
    p.toArray request undertaking h = .ok (h.newArray p.toList.toArray) := by
  unfold toArray
  rw [if_neg (by omega)]
  rfl

theorem toArray_refused (hroom : capacity < request) :
    p.toArray request undertaking h = .error (.outOfMemory undertaking) := by
  unfold toArray
  rw [if_pos hroom]
  rfl

end Progression

/-! ## §4. Running parts of the evaluator -/

namespace Eval

variable {α β : Type} {s t u : State} {evaluate : Evaluate}

theorem rangeEnds_ok {e₁ e₂ : Expr} {a b : Int64} (h₁ : evaluate e₁ s = some (.ok (.int a), t))
    (h₂ : evaluate e₂ t = some (.ok (.int b), u)) :
    rangeEnds evaluate e₁ e₂ s = some (.ok (a, b), u) := by
  unfold rangeEnds
  rw [bind_ok h₁, bind_ok h₂]
  rfl

theorem values_pair {e₁ e₂ : Expr} {v w : Value} (h₁ : evaluate e₁ s = some (.ok v, t))
    (h₂ : evaluate e₂ t = some (.ok w, u)) :
    values evaluate [e₁, e₂] s = some (.ok [v, w], u) := by
  unfold values
  rw [bind_ok h₁]
  unfold values
  have hrest : (do let w ← evaluate e₂; let ws ← values evaluate []; return w :: ws : Eval _) t =
      some (.ok [w], u) := by
    rw [bind_ok h₂]
    rfl
  rw [bind_ok hrest]
  rfl

/-! ## §5. What a loop visits -/

/-- A round for each of the integers is a round for each value of their list. -/
theorem overInts_eq_overValues (round : Value → Eval Signal) (run : Progression) (k left : Nat) :
    overInts round run k left = overValues round ((List.range' k left).map run.item) := by
  induction left generalizing k with
  | zero => rfl
  | succ left ih =>
    rw [List.range'_succ, List.map_cons]
    unfold overInts overValues
    refine bind_congr fun signal => ?_
    cases afterRound signal with
    | none => exact ih (k + 1)
    | some last => rfl

theorem overSequence_eq_overValues (round : Value → Eval Signal) (sequence : Sequence) :
    overSequence round sequence = overValues round sequence.toList := by
  cases sequence with
  | values items => rfl
  | ints run =>
    show overInts round run 0 run.count = overValues round ((List.range run.count).map run.item)
    rw [overInts_eq_overValues, List.range_eq_range']

/-- A `for` that visits these values, in this order. -/
def forEach (execute : Execute) (name : String) (items : List Value) (body : List Stmt) :
    Eval Signal := do
  let reuse := (← get).scopes.isBound name
  let rounds := overValues (forRound execute reuse name body) items
  if reuse then rounds else inFrame .block rounds

/-- A `for` finds out what it visits, and then visits that. -/
theorem forIn_eq_forEach (evaluate : Evaluate) (execute : Execute) (name : String)
    (iterable : Expr) (body : List Stmt) :
    forIn evaluate execute name iterable body =
      visited evaluate iterable >>= fun sequence => forEach execute name sequence.toList body := by
  unfold forIn forEach
  refine bind_congr fun sequence => bind_congr fun s => ?_
  dsimp only
  rw [overSequence_eq_overValues]

theorem forIn_of_visited {iterable : Expr} {sequence : Sequence} {items : List Value}
    (h : visited evaluate iterable s = some (.ok sequence, u)) (hitems : sequence.toList = items)
    (execute : Execute) (name : String) (body : List Stmt) :
    forIn evaluate execute name iterable body s = forEach execute name items body u := by
  rw [forIn_eq_forEach, bind_ok h, hitems]

end Eval

/-! ## §6. Ranges in the head of a `for`, and as values -/

/-- A range stands for the same integers in the head of a `for` and as a value.  The state `u` is the
    one in which its ends are known.  A loop visits the integers from there, and makes nothing; the
    value is an array of exactly those, or it is refused before anything is made. -/
structure Expr.IsRangeFrom (host : Host) (fuel : Nat) (iterable : Expr) (first last : Int64)
    (inclusive : Bool) (request : Nat) (undertaking : Undertaking) (s u : State)
    (items : List Value) : Prop where
  isRange : IsRange first last inclusive items
  visited : ∃ sequence, sequence.toList = items ∧
    Eval.visited (Expr.eval host fuel) iterable s = some (.ok sequence, u)
  loops : ∀ execute name body,
    Eval.forIn (Expr.eval host fuel) execute name iterable body s =
      Eval.forEach execute name items body u
  built : request ≤ Progression.capacity → ∃ ref t,
    Expr.eval host (fuel + 1) iterable s = some (.ok (.array ref), t) ∧
      (t.heap.items ref).toList = items
  refused : Progression.capacity < request →
    Expr.eval host (fuel + 1) iterable s = some (.error (.outOfMemory undertaking), u)
  asks : Asks items.length request

/-- The array that was just made holds what it was made of. -/
theorem Heap.items_newArray (h : Heap) (items : List Value) :
    (((h.newArray items.toArray).2).items ⟨h.arrays.size⟩).toList = items := by
  simp [Heap.newArray, Heap.items]

/-- Such a range, if a loop counts through it and its value is the array made of it. -/
theorem Expr.IsRangeFrom.of_run {host : Host} {fuel : Nat} {iterable : Expr} {first last : Int64}
    {inclusive : Bool} {request : Nat} {undertaking : Undertaking} {s u : State}
    (hvisited : Eval.visited (Expr.eval host fuel) iterable s =
      some (.ok (.ints (.between first last inclusive)), u))
    (hvalue : Expr.eval host (fuel + 1) iterable s =
      Eval.ofAlloc ((Progression.between first last inclusive).toArray request undertaking) u)
    (hasks : Asks (Progression.between first last inclusive).count request) :
    iterable.IsRangeFrom host fuel first last inclusive request undertaking s u
      (Progression.between first last inclusive).toList where
  isRange := Progression.between_isRange first last inclusive
  visited := ⟨_, rfl, hvisited⟩
  loops := Eval.forIn_of_visited hvisited rfl
  -- if the request fits, the array is made; otherwise it is refused
  built hroom := by
    rw [hvalue, Eval.ofAlloc_ok (Progression.toArray_granted _ _ _ hroom)]
    exact ⟨_, _, rfl, u.heap.items_newArray _⟩
  refused hroom := by
    rw [hvalue]
    exact Eval.ofAlloc_error (Progression.toArray_refused _ _ _ hroom)
  asks := by
    rw [Progression.toList_length]
    exact hasks

/-- A range expression. -/
theorem Expr.range_isRangeFrom {host : Host} {fuel : Nat} {e₁ e₂ : Expr} {a b : Int64}
    {s t u : State} (h₁ : Expr.eval host fuel e₁ s = some (.ok (.int a), t))
    (h₂ : Expr.eval host fuel e₂ t = some (.ok (.int b), u)) (inclusive : Bool) :
    (Expr.range e₁ e₂ inclusive).IsRangeFrom host fuel a b inclusive (rangeRequest a b inclusive)
      (.rangeExpression a b) s u (Progression.between a b inclusive).toList := by
  have hends := Eval.rangeEnds_ok h₁ h₂
  refine .of_run ?_ ?_ (rangeRequest_asks a b inclusive)
  -- the loop visits the numbers without making an array
  · unfold Eval.visited
    dsimp only
    rw [Eval.bind_ok hends]
    rfl
  -- the expression makes the array
  · unfold Expr.eval Eval.expression
    dsimp only
    rw [Eval.bind_ok hends]
    rfl

/-- A tool that computes on the heap does so in a run. -/
theorem Eval.callTool_ofAlloc {host : Host} {name : String} {args : List Value} {x : Alloc Value}
    (hcall : host.tools.call name args = ToolRun.ofAlloc x) :
    Eval.callTool host name args = Eval.ofAlloc x := by
  funext s
  unfold Eval.callTool
  rw [Eval.get_ok, hcall]
  unfold ToolRun.ofAlloc
  cases hx : x s.heap with
  | ok p => exact (Eval.ofAlloc_ok hx).symm
  | error e => exact (Eval.ofAlloc_error hx).symm

/-- The builtin gives the array of a range, or the error of making it. -/
theorem Builtin.range_run {vs : List Value} {a b : Int64}
    (hbounds : Builtin.rangeBounds vs = .ok (a, b)) :
    Builtin.range.run vs = ToolRun.ofAlloc (rangeCallArray a b) := by
  show ToolRun.ofAlloc (liftM (Builtin.rangeBounds vs) >>= fun ends => rangeCallArray ends.1 ends.2)
    = _
  rw [hbounds]
  rfl

/-- A tool that is the builtin is called without a check of its own of the number of arguments. -/
theorem Toolbox.call_range {tools : Toolbox} {name : String}
    (ht : OrderedMap.get? tools name = some Builtin.range) (vs : List Value) :
    tools.call name vs = Builtin.range.run vs := by
  unfold Toolbox.call
  rw [ht]
  rfl

/-- In the head of a `for`, a `range` that the script has not declared is counted through. -/
theorem Eval.visited_range_call {evaluate : Eval.Evaluate} {args : List Expr} {vs : List Value}
    {a b : Int64} {s u : State} (hscript : s.functions.contains "range" = false)
    (hvalues : Eval.values evaluate args s = some (.ok vs, u))
    (hbounds : Builtin.rangeBounds vs = .ok (a, b)) :
    Eval.visited evaluate (.call "range" args) s =
      some (.ok (.ints (.between a b false)), u) := by
  -- no function of the script stands in the way
  have hcounts : Eval.countsUp s.functions "range" = true := by
    unfold Eval.countsUp
    rw [hscript]
    rfl
  unfold Eval.visited
  dsimp only
  rw [Eval.get_ok, if_pos hcounts, Eval.bind_ok hvalues, hbounds]
  rfl

/-- A call of `range` where neither the script nor the host has put something else in its place. -/
theorem Expr.call_isRangeFrom {host : Host} {fuel : Nat} {args : List Expr} {vs : List Value}
    {a b : Int64} {s u : State} (hscript : s.functions.contains "range" = false)
    (htool : OrderedMap.get? host.tools "range" = some Builtin.range)
    (hvalues : Eval.values (Expr.eval host fuel) args s = some (.ok vs, u))
    (hbounds : Builtin.rangeBounds vs = .ok (a, b)) :
    (Expr.call "range" args).IsRangeFrom host fuel a b false (rangeCallRequest a b)
      (.rangeCall a b) s u (Progression.between a b false).toList := by
  have hcallee : Eval.callee host "range" s = some (.ok .tool, s) := by
    have hnone : s.functions.get? "range" = none := by
      simpa [OrderedMap.contains] using hscript
    unfold Eval.callee
    rw [Eval.get_ok, hnone]
    simp only [OrderedMap.contains, htool]
    rfl
  have htools : host.tools.call "range" vs = ToolRun.ofAlloc (rangeCallArray a b) := by
    rw [Toolbox.call_range htool, Builtin.range_run hbounds]
  refine .of_run (Eval.visited_range_call hscript hvalues hbounds) ?_ (rangeCallRequest_asks a b)
  -- outside the head of a loop the tool is called
  show Eval.call host (Expr.eval host fuel) (Block.exec host fuel) "range" args s = _
  unfold Eval.call
  rw [Eval.bind_ok hcallee]
  dsimp only
  rw [Eval.bind_ok hvalues, Eval.callTool_ofAlloc htools]
  rfl

/-- **Ranges that are visited and ranges that are built agree**, for all words as ends.  With ends that
    evaluate to `a` and `b`, the loop over a range expression, with or without its end, and the one
    over a call of the builtin visit the integers from `a` on, as many as the ends say; as a value
    each of them is an array of exactly those integers, or is refused before anything is made.  The
    room that is asked for is their number, where that is a word; where it is not, the range is
    always refused. -/
theorem visited_and_built_ranges_agree (host : Host) (fuel : Nat) (e₁ e₂ : Expr) (a b : Int64)
    (s t u : State) (h₁ : Expr.eval host fuel e₁ s = some (.ok (.int a), t))
    (h₂ : Expr.eval host fuel e₂ t = some (.ok (.int b), u)) :
    (∀ inclusive, ∃ items,
      (Expr.range e₁ e₂ inclusive).IsRangeFrom host fuel a b inclusive
        (rangeRequest a b inclusive) (.rangeExpression a b) s u items ∧
      (Int64.maxValue.toInt < items.length →
        Expr.eval host (fuel + 1) (.range e₁ e₂ inclusive) s =
          some (.error (.outOfMemory (.rangeExpression a b)), u))) ∧
    (s.functions.contains "range" = false →
      OrderedMap.get? host.tools "range" = some Builtin.range →
      ∃ items,
        (Expr.call "range" [e₁, e₂]).IsRangeFrom host fuel a b false
          (rangeCallRequest a b) (.rangeCall a b) s u items ∧
        (Int64.maxValue.toInt < items.length →
          Expr.eval host (fuel + 1) (.call "range" [e₁, e₂]) s =
            some (.error (.outOfMemory (.rangeCall a b)), u))) := by
  constructor
  · intro inclusive
    -- an expression with dots
    have hrange := Expr.range_isRangeFrom h₁ h₂ inclusive
    exact ⟨_, hrange, fun hlong => hrange.refused (hrange.asks.refused hlong)⟩
  · intro hscript htool
    -- a call of the builtin
    have hrange := Expr.call_isRangeFrom hscript htool (Eval.values_pair h₁ h₂) rfl
    exact ⟨_, hrange, fun hlong => hrange.refused (hrange.asks.refused hlong)⟩

/-- All words, with both ends: a loop visits more of them than a size can say, and as a value they
    are refused, also by the builtin; and the range of the largest word alone, which is an array. -/
theorem visited_and_built_ranges_agree_at_bounds :
    let least : Expr := .int Int64.minValue
    let most : Expr := .int Int64.maxValue
    (∃ sequence : Sequence, sequence.toList.length = UInt64.size ∧
      Eval.visited (Expr.eval {} 1) (.range least most true) {} = some (.ok sequence, {})) ∧
    Expr.eval {} 2 (.range least most true) {} =
      some (.error (.outOfMemory (.rangeExpression Int64.minValue Int64.maxValue)), {}) ∧
    Expr.eval {} 2 (.call "range" [least, most]) {} =
      some (.error (.outOfMemory (.rangeCall Int64.minValue Int64.maxValue)), {}) ∧
    ∃ ref t, Expr.eval {} 2 (.range most most true) {} = some (.ok (.array ref), t) ∧
      (t.heap.items ref).toList.length = 1 := by
  intro least most
  have hall := visited_and_built_ranges_agree {} 1 least most _ _ {} {} {} rfl rfl
  have hlast := visited_and_built_ranges_agree {} 1 most most _ _ {} {} {} rfl rfl
  obtain ⟨items, hrange, hrefused⟩ := hall.1 true
  have hlength : items.length = UInt64.size := by
    have hcount := hrange.isRange.length
    have hextent : max 0 (Int64.maxValue.toInt - Int64.minValue.toInt + if true then 1 else 0) =
        (UInt64.size : Int) := by decide
    omega
  refine ⟨?_, hrefused ?_, ?_, ?_⟩
  · obtain ⟨sequence, rfl, hvisited⟩ := hrange.visited
    exact ⟨sequence, hlength, hvisited⟩
  · rw [hlength]
    decide
  · obtain ⟨words, hwords, hrefused'⟩ := hall.2 rfl rfl
    refine hrefused' ?_
    rw [hwords.isRange.length]
    decide
  · obtain ⟨one, hone, -⟩ := hlast.1 true
    have hcount : one.length = 1 := by
      have hcount := hone.isRange.length
      have hextent : max 0 (Int64.maxValue.toInt - Int64.maxValue.toInt + if true then 1 else 0) =
          (1 : Int) := by decide
      omega
    have hroom : rangeRequest Int64.maxValue Int64.maxValue true ≤ Progression.capacity := by
      decide
    obtain ⟨ref, t, hbuilt, hitems⟩ := hone.built hroom
    exact ⟨ref, t, hbuilt, by rw [hitems, hcount]⟩

end Scriptlet
