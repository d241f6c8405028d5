/-
  Scriptlet.Proofs.Bracketing — an expression reads the same inside brackets.

  Brackets make line ends insignificant, and yet they are neutral: a text that is an expression by itself
  is the same expression between the brackets of a `print`, unless it is nested too deep for one more
  level.  The two readings go in lockstep through the whole grammar of expressions.  Where the text has
  line ends or comments after the expression, the reading inside brackets goes through them, but finds
  only the closing bracket behind them.  The lookahead into collections may run past the end of the
  text; what it sees there decides nothing.

  Main results:
    * `exprOf_mirrors`, `operand_mirrors` — expressions and operands.
    * `bracketing_is_neutral` — whole texts.
-/
import Scriptlet.Proofs.Lockstep
import Scriptlet.Proofs.Composition

open Scriptlet.Parser

namespace Scriptlet.Lockstep

open Track

variable {α β ι : Type} {g : Gap}

/-! ## §1. Operators -/

section Choices

variable {p q p' q' : Parser α} {U : α → Track}

/-- A choice by something that both sides read alike. -/
theorem Mirrors.branch {r : Parser Bool} (hr : Mirrors abreast r r fun _ => abreast)
    (hp : Mirrors abreast p q U) (hp' : Mirrors abreast p' q' U) :
    Mirrors abreast (r >>= fun taken => if taken = true then p else p')
      (r >>= fun taken => if taken = true then q else q') U := by
  refine hr.bind fun taken => ?_
  cases taken with
  | true => exact hp
  | false => exact hp'

/-- A character that may stand here, and what follows in either case. -/
theorem Mirrors.acceptThen {ch : Char} (hch : ch ≠ '\n') (hp : Mirrors abreast p q U)
    (hp' : Mirrors abreast p' q' U) :
    Mirrors abreast (accept ch >>= fun taken => if taken = true then p else p')
      (accept ch >>= fun taken => if taken = true then q else q') U :=
  .branch (accept_mirrors hch) hp hp'

/-- A word that may stand here, and what follows in either case. -/
theorem Mirrors.acceptTextThen {word : String}
    (hword : word.toList.all (fun ch => ch != '\n' && ch != Cursor.pastEnd) = true)
    (hp : Mirrors abreast p q U) (hp' : Mirrors abreast p' q' U) :
    Mirrors abreast (acceptText word >>= fun taken => if taken = true then p else p')
      (acceptText word >>= fun taken => if taken = true then q else q') U :=
  .branch (acceptText_mirrors hword) hp hp'

/-- What follows depends on the character after the next. -/
theorem Mirrors.peekThen {ch : Char} (hch : ch ∉ ['\n', ')', Cursor.pastEnd])
    (hp : Mirrors abreast p q U) (hp' : Mirrors abreast p' q' U) :
    Mirrors abreast (MonadState.get >>= fun c => if (c.peekAt 1 != ch) = true then p else p')
      (MonadState.get >>= fun c => if (c.peekAt 1 != ch) = true then q else q') U := by
  refine .get fun c d hd => ?_
  have hsame : (d.peekAt 1 != ch) = (c.peekAt 1 != ch) := by
    -- the character is none of those with which the two sides end
    have hne : ∀ x ∈ ['\n', ')', Cursor.pastEnd], (x != ch) = true :=
      fun x hx => bne_iff_ne.mpr fun heq => hch (heq ▸ hx)
    have hend := hne Cursor.pastEnd (by decide)
    unfold Cursor.peekAt
    rw [hd]
    -- the two sides differ only where the left one has ended
    cases c.rest with
    | nil => exact (hne ')' (by decide)).trans hend.symm
    | cons x t =>
      cases t with
      | nil => exact (hne '\n' (by decide)).trans hend.symm
      | cons y t => rfl
  rw [hsame]
  split
  · exact hp.weaken (here_within _)
  · exact hp'.weaken (here_within _)

end Choices

/-- The track after an operator was looked for. -/
def jointTrack (g : Gap) : Option ι → Track
  | some _ => abreast
  | none => after g

/-- The text is at an end on either side: of the text, of the line, or before the closing bracket. -/
def AtEnd (t : List Char) : Prop := ∀ c, t.head? = some c → c = '\n' ∨ c = ')'

/-- Where the left side stops, it is at an end. -/
theorem Stops.atEnd {t : List Char} (h : Stops g t) : AtEnd t := by
  intro c hc
  rcases h with rfl | ⟨-, hhead⟩
  · cases hc
  · exact .inl (Option.some.inj (hc.symm.trans hhead))

/-- An operator that is not found where the text is at an end. -/
theorem operator_mirrors {op : Parser (Option ι)} (habreast : Mirrors abreast op op fun _ => abreast)
    (hnone : ∀ t, AtEnd t → Reads op t none t) : Mirrors (after g) op op (jointTrack g) := by
  -- an operator that is found leaves both sides abreast
  have hjoint : ∀ found : Option ι, abreast.Within (jointTrack g found) := by
    intro found
    cases found with
    | some i => exact .refl _
    | none => exact abreast_within g
  refine ⟨fun {c c' a} hrun hlost => ?_, fun {c c' d a} hrun hmeets => ?_⟩
  -- at the end of the left side nothing is found, and nothing is lost
  · obtain ⟨e, hop, hrest⟩ := hnone c.rest hlost.1.atEnd c rfl
    cases hop.symm.trans hrun
    rw [hrest]
    exact hlost
  -- either both sides are abreast, or both are at an end
  · rcases hmeets with hd | ⟨hstops, hd⟩
    · exact (habreast.strengthen hjoint).runs hrun hd
    · obtain ⟨e, hop, hrest⟩ := hnone c.rest hstops.1.atEnd c rfl
      cases hop.symm.trans hrun
      -- the right side is before the closing bracket, where no operator stands either
      have hclose : AtEnd d.rest := by
        rw [hd]
        intro x hx
        exact .inr (Option.some.inj hx).symm
      obtain ⟨d', hop', hrest'⟩ := hnone d.rest hclose d rfl
      refine .inr (.inr ⟨d', hop', .inr ⟨?_, hrest'.trans hd⟩⟩)
      rw [hrest]
      exact hstops

/-- No operator begins at an end. -/
theorem AtEnd.noJoint {t : List Char} (h : AtEnd t) (k : Nat) : NoJoint k t := by
  intro c hc
  rcases h c hc with rfl | rfl
  · exact fun heq => by cases heq
  · exact fun heq => by cases heq

/-- A word operator, where both sides are abreast. -/
theorem wordOperator_abreast {word : String} {op : BinaryOp}
    (hword : word.toList.all (fun ch => ch != '\n' && ch != Cursor.pastEnd) = true) :
    Mirrors abreast (wordOperator word op) (wordOperator word op) fun _ => abreast :=
  (acceptText_mirrors hword).bind fun _ => .pure (.refl _)

/-- The operators that may be repeated. -/
theorem chainOperator_mirrors {k : Nat} (hk : k ≤ 5) (hchains : chains k = true) :
    Mirrors (after g) (chainOperator k) (chainOperator k) (jointTrack g) := by
  refine operator_mirrors ?_ fun t ht => chainOperator_none hk hchains (ht.noJoint k)
  have hpairs : k ≠ 2 ∧ k ≠ 3 := by
    simpa only [chains, Bool.and_eq_true, bne_iff_ne] using hchains
  obtain rfl | rfl | rfl | rfl : k = 0 ∨ k = 1 ∨ k = 4 ∨ k = 5 := by omega
  · exact .acceptThen (by decide) (.pure (.refl _)) <| .acceptThen (by decide) (.pure (.refl _)) <|
      .acceptThen (by decide) (.pure (.refl _)) (.pure (.refl _))
  · exact .acceptThen (by decide) (.pure (.refl _)) <| .peekThen (by decide)
      (.acceptThen (by decide) (.pure (.refl _)) (.pure (.refl _))) (.pure (.refl _))
  · exact wordOperator_abreast (by decide)
  · exact wordOperator_abreast (by decide)

/-- The operators that stand at most once. -/
theorem pairOperator_mirrors {k : Nat} (hpairs : chains k = false) :
    Mirrors (after g) (pairOperator k) (pairOperator k) (jointTrack g) := by
  refine operator_mirrors ?_ fun t ht => pairOperator_none hpairs (ht.noJoint k)
  obtain rfl | rfl : k = 2 ∨ k = 3 := by
    simpa only [chains, Bool.and_eq_false_iff, bne_eq_false_iff_eq] using hpairs
  · exact .acceptTextThen (by decide) ((accept_mirrors (by decide)).bind fun _ => .pure (.refl _))
      (.pure (.refl _))
  · exact .acceptTextThen (by decide) (.pure (.refl _)) <|
      .acceptTextThen (by decide) (.pure (.refl _)) <|
      .acceptTextThen (by decide) (.pure (.refl _)) <|
      .acceptTextThen (by decide) (.pure (.refl _)) <|
      .acceptThen (by decide) (.pure (.refl _)) <| .acceptThen (by decide) (.pure (.refl _))
      (.pure (.refl _))

/-- The operators before an operand. -/
theorem leadingOperator_mirrors :
    Mirrors (after g) leadingOperator leadingOperator (jointTrack g) := by
  have hminus : Mirrors abreast
      (accept '-' >>= fun taken => if taken = true then pure (some UnaryOp.neg) else pure none)
      (accept '-' >>= fun taken => if taken = true then pure (some UnaryOp.neg) else pure none)
      fun _ => abreast := .acceptThen (by decide) (.pure (.refl _)) (.pure (.refl _))
  -- where the sides are abreast they see the same operator
  refine operator_mirrors ?_ fun t ht => ?_
  · exact .peekThen (by decide) (.acceptThen (by decide) (.pure (.refl _)) hminus) hminus
  -- an end begins with no operator
  · have hhead : ∀ ch, ch ≠ '\n' → ch ≠ ')' → t.head? ≠ some ch := by
      intro ch hline hclose hhead
      rcases ht ch hhead with rfl | rfl
      · exact hline rfl
      · exact hclose rfl
    have hminus : Reads (accept '-' >>= fun taken =>
        if taken = true then pure (some UnaryOp.neg) else pure none) t none t :=
      .passing (hhead '-' (by decide) (by decide)) .pure
    refine .get fun c hc => ?_
    split
    · exact .passing (hhead '!' (by decide) (by decide)) hminus
    · exact hminus

/-! ## §2. Operators over operands -/

/-- From where the readers are abreast, the right one consumes text if the left one does. -/
theorem after_shorter {t t' u u' : List Char} (hu : u = t ++ closing) (h' : (after g).meets t' u')
    (hless : t'.length < t.length) : u'.length < u.length := by
  have hlength : ∀ w : List Char, (w ++ closing).length = w.length + 2 := fun w => List.length_append
  rcases h' with rfl | ⟨-, rfl⟩
  · rw [hu, hlength, hlength]
    omega
  · rw [hu, hlength, List.length_singleton]
    omega

/-- Where no expression goes on, a chain ends. -/
theorem leftChain_step_stops {k : Nat} (hk : k ≤ 5) (hchains : chains k = true) {t : List Char}
    (ht : Stops g t) (left : Expr) (p : Parser Expr) :
    Reads (leftChain.step g (chainOperator k) p left) t (.done left) t := by
  refine Reads.gap.bind ?_
  rw [past_of_stops ht]
  exact (chainOperator_none hk hchains (ht.atEnd.noJoint k)).bind .pure

section Joined

variable {p q : Parser Expr} (hg : g ≠ .separators)
  (h : Mirrors (after g) p q fun _ => after g)

include hg h

/-- A chain of operands: each operator leaves both sides abreast, and the last gap need not. -/
theorem leftChain_mirrors {k : Nat} (hk : k ≤ 5) (hchains : chains k = true) :
    Mirrors (after g) (leftChain g (chainOperator k) p) (leftChain .lines (chainOperator k) q)
      fun _ => after g := by
  refine h.bind fun first => .iterate (fun left => ?_) ?_ first
  · refine (gap_mirrors hg).bind fun _ => (chainOperator_mirrors hk hchains).bind fun op => ?_
    cases op with
    | none => exact .pure (.refl _)
    | some op => exact (h.weaken (abreast_within g)).bind fun right => .pure (.refl _)
  · intro left next c c' d d' hround hmeets hmeets' hless
    rcases hmeets with hd | ⟨hstops, -⟩
    · exact after_shorter hd hmeets' hless
    · obtain ⟨e, hdone, -⟩ := leftChain_step_stops hk hchains hstops.1 left p c rfl
      cases hdone.symm.trans hround

/-- At most one operator between two operands. -/
theorem pair_mirrors {k : Nat} (hpairs : chains k = false) :
    Mirrors (after g) (pair g (pairOperator k) p) (pair .lines (pairOperator k) q)
      fun _ => after g := by
  refine h.bind fun left => (gap_mirrors hg).bind fun _ => (pairOperator_mirrors hpairs).bind ?_
  intro make
  cases make with
  | none => exact .pure (.refl _)
  | some make => exact (h.weaken (abreast_within g)).bind fun right => .pure (.refl _)

/-- **Operators over operands**: expressions are mirrored if their operands are. -/
theorem exprOf_mirrors : Mirrors (after g) (exprOf g p) (exprOf .lines q) fun _ => after g := by
  have hreader : ∀ k, k ≤ 6 → Mirrors (after g) (reader g p k) (reader .lines q k) fun _ => after g := by
    intro k hk
    induction k with
    | zero => exact h
    | succ k ih =>
      rw [reader, reader, joined, joined]
      cases hchains : chains k with
      | true => exact leftChain_mirrors hg (ih (by omega)) (by omega) hchains
      | false => exact pair_mirrors hg (ih (by omega)) hchains
  exact hreader 6 (Nat.le_refl 6)

end Joined

/-! ## §3. Brackets -/

/-- Inside brackets of the text itself the right side consumes what the left side does. -/
theorem iterate_inside {σ : Type} {step step' : σ → Parser (Round σ β)} {V : β → Track}
    (hstep : ∀ state, Mirrors (after .lines) (step state) (step' state)
      (Mirrors.roundTrack (after .lines) V)) (state : σ) :
    Mirrors (after .lines) (iterate step state) (iterate step' state) V := by
  refine .iterate hstep (fun _ hmeets hmeets' hless => ?_) state
  exact after_shorter (hmeets.resolve_right fun hover => by cases hover.1.2.1) hmeets' hless

/-- After an entry another one may follow; otherwise the closing bracket has been taken. -/
theorem collectionGoesOn_mirrors :
    Mirrors (after .lines) collectionGoesOn collectionGoesOn fun more => takenTrack .lines !more := by
  refine (gap_mirrors (by decide)).bind fun _ => (accept_mirrors_inside ']').bind fun taken => ?_
  cases taken with
  | true => exact .pure (.refl _)
  | false =>
    refine (expect_mirrors ',').bind fun _ => ?_
    refine ((gap_mirrors (by decide)).weaken (abreast_within .lines)).bind fun _ => ?_
    refine (accept_mirrors_inside ']').bind fun taken => ?_
    cases taken with
    | true => exact .pure (.refl _)
    | false => exact .pure (.refl _)

/-- The entries of a collection, through the closing bracket. -/
theorem entries_mirrors {entry entry' : Parser α}
    (h : Mirrors (after .lines) entry entry' fun _ => after .lines) :
    Mirrors (after .lines) (entries entry) (entries entry') fun _ => abreast := by
  refine iterate_inside (fun before => ?_) []
  refine h.bind fun one => collectionGoesOn_mirrors.bind fun goesOn => ?_
  cases goesOn with
  | true => exact .pure (.refl _)
  | false => exact .pure (.refl _)

/-- What stands behind the end of the text does not matter to a scan for pairs. -/
theorem startsPair_append_closing (n : Nat) (inString : Bool) (t : List Char) :
    startsPair n inString (t ++ closing) = startsPair n inString t := by
  fun_induction startsPair n inString t with
  | case1 n inString =>
    cases inString with
    | true => rfl
    | false => cases n <;> rfl
  | case3 n c hend hslash =>
    -- the line end makes a pair with a backslash at the end of the text
    obtain rfl := beq_iff_eq.mp hslash
    rfl
  | case4 n c hend hslash e more ih =>
    rw [List.cons_append, List.cons_append, startsPair.eq_def]
    simp [hend, hslash, ih]
  | _ =>
    rw [List.cons_append, startsPair.eq_def]
    simp_all

/-- **The lookahead** decides alike, also where it runs past the end of the text. -/
theorem byScan_mirrors (p q : Parser Expr) :
    Mirrors (after .lines) (byScan p) (byScan q) fun _ => after .lines where
  lost hrun hlost := by
    cases hrun
    exact hlost
  runs {c c' d pairs} hrun hmeets := by
    have hd : d.rest = c.rest ++ closing := hmeets.resolve_right fun hover => by cases hover.1.2.1
    cases hrun
    refine .inr (.inr ⟨d, ?_, .inl hd⟩)
    show Except.ok (startsPair 0 false d.rest, d) = _
    rw [hd, startsPair_append_closing]

section Inside

variable {p q : Parser Expr} (h : Mirrors (after .lines) p q fun _ => after .lines)

include h

/-- What a bracket encloses, through the closing bracket. -/
theorem enclosed_mirrors (close : Char) :
    Mirrors (after .lines) (enclosed p close) (enclosed q close) fun _ => abreast :=
  (exprOf_mirrors (by decide) h).bind fun _ => (expect_mirrors close).bind fun _ => .pure (.refl _)

/-- The arguments of a call, through the closing bracket. -/
theorem arguments_mirrors :
    Mirrors (after .lines) (arguments p) (arguments q) fun _ => abreast := by
  refine (gap_mirrors (by decide)).bind fun _ => (accept_mirrors_inside ')').bind fun taken => ?_
  cases taken with
  | true => exact .pure (.refl _)
  | false =>
    refine iterate_inside (fun before => ?_) []
    refine (exprOf_mirrors (by decide) h).bind fun arg => (gap_mirrors (by decide)).bind fun _ => ?_
    refine (accept_mirrors_inside ')').bind fun taken => ?_
    cases taken with
    | true => exact .pure (.refl _)
    | false => exact (expect_mirrors ',').bind fun _ => .pure (abreast_within .lines)

/-- A key, a colon and a value. -/
theorem keyAndValue_mirrors :
    Mirrors (after .lines) (keyAndValue p) (keyAndValue q) fun _ => after .lines := by
  have hexpr := exprOf_mirrors (g := .lines) (by decide) h
  refine hexpr.bind fun key => (expect_mirrors ':').bind fun _ => ?_
  exact (hexpr.weaken (abreast_within .lines)).bind fun value => .pure (.refl _)

/-- The contents of a collection of either kind. -/
theorem contents_mirrors (pairs : Bool) :
    Mirrors (after .lines) (contents p pairs) (contents q pairs) fun _ => abreast := by
  cases pairs with
  | true => exact (entries_mirrors (keyAndValue_mirrors h)).bind fun _ => .pure (.refl _)
  | false => exact (entries_mirrors (exprOf_mirrors (by decide) h)).bind fun _ => .pure (.refl _)

/-- A collection, behind its opening bracket. -/
theorem collection_mirrors :
    Mirrors (after .lines) (collection byScan p) (collection byScan q) fun _ => abreast := by
  refine (gap_mirrors (by decide)).bind fun _ => (accept_mirrors_inside ']').bind fun taken => ?_
  cases taken with
  | true => exact .pure (.refl _)
  | false =>
    refine (accept_mirrors_inside ':').bind fun taken => ?_
    cases taken with
    | true =>
      exact ((expect_mirrors ']').weaken (abreast_within .lines)).bind fun _ => .pure (.refl _)
    | false => exact (byScan_mirrors p q).bind fun pairs => contents_mirrors h pairs

end Inside

/-! ## §4. Operands -/

/-- What reads nothing where no expression goes on is mirrored after a gap as where the readers are
    abreast. -/
theorem Mirrors.of_stops {p q : Parser α} {U : α → Track}
    (hstops : ∀ c : Cursor, Stops g c.rest → ∃ e, p c = .error e) (h : Mirrors abreast p q U) :
    Mirrors (after g) p q U where
  lost {c _ _} hrun hlost := by
    obtain ⟨e, he⟩ := hstops c hlost.1
    cases he.symm.trans hrun
  runs {c _ _ _} hrun hmeets := by
    rcases hmeets with hd | ⟨hstops', -⟩
    · exact h.runs hrun hd
    · obtain ⟨e, he⟩ := hstops c hstops'.1
      cases he.symm.trans hrun

section Operands

variable {deeper deeper' : Deeper}

/-- The readers one level down, where both sides have them. -/
def DeeperMirrors (deeper deeper' : Deeper) : Prop :=
  ∀ d d', deeper = some d → deeper' = some d' → ∀ g : Gap, g ≠ .separators →
    Mirrors (after g) (d g) (d' .lines) fun _ => abreast

variable (hdeeper : DeeperMirrors deeper deeper')

include hdeeper

/-- Going one level down into brackets. -/
theorem DeeperMirrors.inside {inner : Parser Expr → Parser α}
    (h : ∀ p q, (Mirrors (after .lines) p q fun _ => after .lines) →
      Mirrors (after .lines) (inner p) (inner q) fun _ => abreast) :
    Mirrors abreast (within deeper fun d => inner (d .lines))
      (within deeper' fun d => inner (d .lines)) fun _ => abreast := by
  refine .within fun d d' hd hd' => (h _ _ ?_).weaken (abreast_within .lines)
  exact (hdeeper d d' hd hd' .lines (by decide)).strengthen fun _ => abreast_within .lines

/-- A name, or a call of it. -/
theorem nameOrCall_mirrors (word : String) :
    Mirrors abreast (nameOrCall deeper word) (nameOrCall deeper' word) fun _ => abreast := by
  unfold nameOrCall
  split
  · exact .pure (.refl _)
  · exact .pure (.refl _)
  · exact .pure (.refl _)
  · refine .acceptThen (by decide) ?_ (.pure (.refl _))
    exact (hdeeper.inside fun _ _ => arguments_mirrors).bind fun args => .pure (.refl _)

/-- A member, or a call of a method. -/
theorem memberOf_mirrors (target : Expr) (optional : Bool) :
    Mirrors abreast (memberOf deeper target optional) (memberOf deeper' target optional)
      fun _ => abreast := by
  refine (nameHere_mirrors _).bind fun word => .acceptThen (by decide) ?_ (.pure (.refl _))
  exact (hdeeper.inside fun _ _ => arguments_mirrors).bind fun args => .pure (.refl _)

/-- Everything that may stand behind an operand. -/
theorem suffix_mirrors (target : Expr) :
    Mirrors abreast (suffix deeper target) (suffix deeper' target)
      (Mirrors.roundTrack abreast fun _ => abreast) := by
  refine .acceptThen (by decide) ?_ (.acceptTextThen (by decide) ?_ (.peekThen (by decide)
    (.acceptThen (by decide) ?_ (.pure (.refl _))) (.pure (.refl _))))
  · exact (hdeeper.inside fun _ _ h => enclosed_mirrors h ']').bind fun index => .pure (.refl _)
  · exact (memberOf_mirrors hdeeper target true).bind fun next => .pure (.refl _)
  · exact (memberOf_mirrors hdeeper target false).bind fun next => .pure (.refl _)

/-- The operands without operators and suffixes; where the left side stops it reads none. -/
theorem primary_mirrors (hg : g ≠ .separators) :
    Mirrors (after g) (primary byScan deeper g) (primary byScan deeper' .lines) fun _ => abreast := by
  refine (gap_mirrors hg).bind fun _ => .of_stops (fun c hstops => ?_) (.get fun c d hd => ?_)
  -- at the end of the text or of the line no operand begins
  · obtain ⟨rest, line, column⟩ := c
    rcases hstops with hnil | ⟨-, hhead⟩
    · obtain rfl : rest = [] := hnil
      exact ⟨_, rfl⟩
    · cases rest with
      | nil => cases hhead
      | cons x t =>
        obtain rfl : x = '\n' := Option.some.inj hhead
        exact ⟨_, rfl⟩
  -- otherwise both sides see the same character, which decides what is read
  · cases hc : c.rest with
    | nil =>
      have hend : c.atEnd = true := by rw [Cursor.atEnd, hc]; rfl
      rw [if_pos hend]
      exact .unexpected
    | cons x t =>
      rw [hc] at hd
      have hmore : ¬c.atEnd = true ∧ ¬d.atEnd = true := by simp [Cursor.atEnd, hc, hd]
      have hpeek : c.peek = x ∧ d.peek = x := by simp [Cursor.peek, Cursor.peekAt, hc, hd]
      rw [if_neg hmore.1, if_neg hmore.2, hpeek.1, hpeek.2]
      -- a bracket, a string, a number, a collection or a name
      split
      · exact advance_mirrors.bind fun _ => hdeeper.inside fun _ _ h => enclosed_mirrors h ')'
      split
      · exact (string_mirrors.weaken (here_within _)).bind fun text => .pure (.refl _)
      split
      · refine (number_mirrors.weaken (here_within _)).bind fun numeral => ?_
        cases numeral with
        | int value => exact .pure (.refl _)
        | double value => exact .pure (.refl _)
      split
      · exact advance_mirrors.bind fun _ => hdeeper.inside fun _ _ => collection_mirrors
      · exact ((nameHere_mirrors _).weaken (here_within _)).bind fun word =>
          nameOrCall_mirrors hdeeper word

/-- An operand with all that stands behind it. -/
theorem suffixed_mirrors (hg : g ≠ .separators) :
    Mirrors (after g) (suffixed byScan deeper g) (suffixed byScan deeper' .lines)
      fun _ => abreast := by
  refine (primary_mirrors hdeeper hg).bind fun first => ?_
  refine .iterate (suffix_mirrors hdeeper) (fun _ hd hd' hless => ?_) first
  exact after_shorter (g := .lines) hd (.inl hd') hless

/-- **Operands over the level below.** -/
theorem operandLevel_mirrors (hg : g ≠ .separators) :
    Mirrors (after g) (operandLevel byScan deeper g) (operandLevel byScan deeper' .lines)
      fun _ => abreast := by
  refine (gap_mirrors hg).bind fun _ => leadingOperator_mirrors.bind fun op => ?_
  cases op with
  | none => exact suffixed_mirrors hdeeper hg
  | some op =>
    refine Mirrors.bind ?_ fun operand => .pure (.refl _)
    exact .within fun d d' hd hd' => (hdeeper d d' hd hd' g hg).weaken (abreast_within g)

end Operands

/-- **Operands**, whatever levels are left on either side. -/
theorem operand_mirrors (n m : Nat) (hg : g ≠ .separators) :
    Mirrors (after g) (operand byScan n g) (operand byScan m .lines) fun _ => abreast := by
  induction n generalizing m g with
  | zero =>
    cases m <;> exact operandLevel_mirrors (fun _ _ hd => by cases hd) hg
  | succ n ih =>
    cases m with
    | zero => exact operandLevel_mirrors (fun _ _ _ hd' => by cases hd') hg
    | succ m =>
      refine operandLevel_mirrors (fun d d' hd hd' => ?_) hg
      cases hd
      cases hd'
      exact fun g hg => ih m hg

/-! ## §5. Whole texts -/

/-- Inside brackets a gap before an expression is not heeded. -/
theorem exprOf_skip (m : Nat) (c : Cursor) :
    exprOf .lines (operand byScan m .lines) (c.skip .lines) =
      exprOf .lines (operand byScan m .lines) c := by
  -- a gap leaves nothing for a second one
  have hskip : (c.skip .lines).skip .lines = c.skip .lines := by
    have hnone : Gap.lines.length false (c.skip .lines).rest = 0 := by
      rw [rest_skip]
      exact length_after_gap .lines false c.rest
    rw [Cursor.skip, hnone]
    rfl
  have hgap : gap .lines (c.skip .lines) = gap .lines c :=
    congrArg (fun next => Except.ok ((), next)) hskip
  -- the first operand begins with the gap, and all else with the first operand
  rw [exprOf_eq_reader]
  cases m with
  | zero => exact reader_alike (bind_alike hgap) 6
  | succ m => exact reader_alike (bind_alike hgap) 6

/-- A text that is an expression is one up to a gap and the end. -/
theorem onlyExpr_eq_ok {c c' : Cursor} {e : Expr} (h : onlyExpr byScan c = .ok (e, c')) :
    ∃ next, exprOf .inline (operand byScan maxNesting .inline) (c.skip .lines) = .ok (e, next) ∧
      past .lines next.rest = [] := by
  obtain ⟨_, c₁, hgap, hrest⟩ := bind_eq_ok.mp h
  cases hgap
  obtain ⟨e', c₂, hexpr, hrest⟩ := bind_eq_ok.mp hrest
  obtain ⟨_, c₃, hgap, hrest⟩ := bind_eq_ok.mp hrest
  obtain ⟨c₄, c₅, hget, hrest⟩ := bind_eq_ok.mp hrest
  cases hget
  -- only the end of the text is accepted
  split at hrest
  · rename_i hend
    cases hrest
    refine ⟨c₂, hexpr, ?_⟩
    rw [← gap_eq_ok hgap]
    exact List.isEmpty_iff.mp hend
  · cases hrest

/-- After the gap before it the text is at the same place on both sides. -/
theorem skip_meets {s : String} {d : Cursor} (hd : d.rest = s.toList ++ closing) :
    (after .inline).meets ((Cursor.start s).skip .lines).rest (d.skip .lines).rest := by
  rw [rest_skip, rest_skip, hd, past_append_closing]
  show (after .inline).meets (past .lines s.toList) _
  split
  · rename_i hnil
    rw [hnil]
    exact .inr ⟨⟨.inl rfl, rfl, rfl⟩, rfl⟩
  · exact .inl rfl

/-- The expression of a text is read inside brackets, through the closing one, or the nesting is too
    deep there. -/
theorem enclosed_of_parse {s : String} {e : Expr} (h : Expr.parse s = .ok e) (m : Nat) {d : Cursor}
    (hd : d.rest = s.toList ++ closing) :
    TooDeep (enclosed (operand byScan m .lines) ')' d) ∨
      ∃ d', enclosed (operand byScan m .lines) ')' d = .ok (e, d') ∧ d'.rest = [] := by
  cases hrun : onlyExpr byScan (Cursor.start s) with
  | error _ =>
    rw [Expr.parse, Expr.parseBy, hrun] at h
    cases h
  | ok r =>
    rw [Expr.parse, Expr.parseBy, hrun] at h
    cases h
    obtain ⟨next, hexpr, hover⟩ := onlyExpr_eq_ok hrun
    have hmirrors := exprOf_mirrors (g := .inline) (by decide)
      ((operand_mirrors maxNesting m (by decide)).strengthen fun _ => abreast_within .inline)
    rcases hmirrors.runs hexpr (skip_meets hd) with hlost | ⟨line, column, hdeep⟩ | ⟨d', hq, hmeets⟩
    · exact absurd ⟨rfl, hover⟩ hlost.2
    · rw [exprOf_skip] at hdeep
      exact .inl ⟨line, column, bind_of_error hdeep⟩
    · -- whatever gaps the left side has left, the right side comes to the closing bracket
      have hclose : past .lines d'.rest = [')'] := by
        rcases hmeets with hd' | ⟨-, hd'⟩
        · rw [hd', past_append_closing, if_pos hover]
        · rw [hd']
          rfl
      rw [exprOf_skip] at hq
      obtain ⟨d'', hexpect, hrest⟩ := Reads.expect hclose d' rfl
      exact .inr ⟨d'', bind_eq_ok.mpr ⟨_, d', hq, bind_eq_ok.mpr ⟨(), d'', hexpect, rfl⟩⟩, hrest⟩

end Scriptlet.Lockstep

namespace Scriptlet

open Lockstep

/-- A statement that begins with `print` and a bracket. -/
theorem statement_print (levels : Nat) (body : Parser (List Stmt)) (t : List Char)
    (line column : Nat) :
    statement (levels + 1) body ⟨'p' :: 'r' :: 'i' :: 'n' :: 't' :: '(' :: t, line, column⟩ =
      (enclosed (operand byScan levels .lines) ')' >>= fun e => pure (.print e))
        ⟨t, line, column + 6⟩ := rfl

section Sequences

variable {stmt : Parser Stmt} {c : Cursor} (hmore : c.atEnd = false)
  (hskip : c.skip .separators = c)

include hmore hskip

/-- A text whose first statement is refused is refused the same way. -/
theorem statements_of_error {err : Error} (h : stmt c = .error err) :
    statements false stmt c = .error err := by
  have hstep : statements.step false stmt [] c = .error err := by
    rw [Seam.statementsStep_of_more (by rw [hskip, hmore]; exact Bool.false_ne_true), hskip]
    exact bind_of_error h
  rw [statements, iterate, hstep]

/-- A text whose first statement goes to its end holds only that one. -/
theorem statements_of_lone {s : Stmt} {c' : Cursor} (h : stmt c = .ok (s, c'))
    (hend : c'.rest = []) : statements false stmt c = .ok ([s], c') := by
  obtain ⟨rest, line, column⟩ := c'
  cases hend
  have hstep : statements.step false stmt [] c = .ok (.again [s], ⟨[], line, column⟩) := by
    rw [Seam.statementsStep_of_more (by rw [hskip, hmore]; exact Bool.false_ne_true), hskip]
    exact bind_eq_ok.mpr ⟨s, _, h, rfl⟩
  have hshorter : 0 < c.rest.length :=
    List.length_pos_iff.mpr fun hnil => by simp [Cursor.atEnd, hnil] at hmore
  rw [statements, iterate, hstep]
  show (if 0 < c.rest.length then _ else _) = _
  rw [if_pos hshorter, iterate, Seam.statementsStep_of_end rfl]
  rfl

end Sequences

/-- **Bracketing is neutral.**  A text that is an expression is the same expression inside the
    brackets of a `print`, where line ends do not count; the brackets can only cost the level that
    they stand for. -/
theorem bracketing_is_neutral (s : String) (e : Expr) (h : Expr.parse s = .ok e) :
    (∃ line column, Program.parse ("print(" ++ s ++ "\n)") =
        .error (.malformed line column "nesting too deep")) ∨
      Program.parse ("print(" ++ s ++ "\n)") = .ok [.print e] := by
  have hstart : Cursor.start ("print(" ++ s ++ "\n)") =
      ⟨'p' :: 'r' :: 'i' :: 'n' :: 't' :: '(' :: (s.toList ++ closing), 1, 1⟩ := by
    simp [Cursor.start, String.toList_append, closing]
  have hstmt : statement maxNesting (block maxNesting)
      ⟨'p' :: 'r' :: 'i' :: 'n' :: 't' :: '(' :: (s.toList ++ closing), 1, 1⟩ =
      (enclosed (operand byScan (maxNesting - 1) .lines) ')' >>= fun e => pure (.print e))
        ⟨s.toList ++ closing, 1, 7⟩ := statement_print _ _ _ _ _
  rw [Program.parse, hstart]
  -- the expression inside the brackets is too deep, or it is read
  rcases enclosed_of_parse h (maxNesting - 1) (d := ⟨s.toList ++ closing, 1, 7⟩) rfl with
    ⟨line, column, hdeep⟩ | ⟨d', hread, hend⟩
  · refine .inl ⟨line, column, ?_⟩
    rw [statements_of_error rfl rfl (hstmt.trans (bind_of_error hdeep))]
    rfl
  · refine .inr ?_
    have hread := hstmt.trans (bind_eq_ok.mpr ⟨e, d', hread, rfl⟩)
    rw [statements_of_lone rfl rfl hread hend]
    rfl

/-- An expression over two lines, with comments in it and behind it and a colon inside a string. -/
theorem bracketing_is_neutral_across_lines :
    ∃ e, Expr.parse "xs[0] + f(1 # one\n, [\"a: b\"]) # last\n\n" = .ok e ∧
      Program.parse ("print(" ++ "xs[0] + f(1 # one\n, [\"a: b\"]) # last\n\n" ++ "\n)") =
        .ok [.print e] := by
  generalize hsource : "xs[0] + f(1 # one\n, [\"a: b\"]) # last\n\n" = source
  have hread : (Expr.parse source).toOption.isSome = true := by
    rw [← hsource]
    decide +kernel
  have hprinted : (Program.parse ("print(" ++ source ++ "\n)")).toOption.isSome = true := by
    rw [← hsource]
    decide +kernel
  cases hparse : Expr.parse source with
  | error err =>
    rw [hparse] at hread
    cases hread
  | ok e =>
    rcases bracketing_is_neutral source e hparse with ⟨line, column, hdeep⟩ | hprint
    · rw [hdeep] at hprinted
      cases hprinted
    · exact ⟨e, rfl, hprint⟩

/-- The level that the brackets stand for may be the one that is missing. -/
example :
    (Expr.parse (String.ofList (List.replicate maxNesting '-') ++ "x")).toOption.isSome = true ∧
      (Program.parse ("print(" ++ (String.ofList (List.replicate maxNesting '-') ++ "x") ++
        "\n)")).toOption.isNone = true := by
  decide +kernel

end Scriptlet
