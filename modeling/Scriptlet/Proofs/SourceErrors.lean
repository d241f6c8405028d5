/-
  Scriptlet.Proofs.SourceErrors — the errors of readers.

  A reader fails only with errors that say that the text is no program.  Their messages quote the
  text, a name, a number or the character that stands in the way, but never a line end, which is
  called by its name; so each message is one line.

  Some errors name a place.  It is not always the place that the reader has come to, but it is one
  where it has been: a reader that begins in a region of places which moving on does not leave stays in
  that region, goes back only to places in it, and raises its errors there.

  Main results:
    * `Parser.onlyExpr_stays` and `Parser.program_stays` — where readers go and raise their errors.
    * `Expr.parse_error` and `Program.parse_error` — expressions and programs.
-/
import Scriptlet.Source.StmtParser
import Scriptlet.Proofs.Reading

namespace Scriptlet

/-! ## §1. Texts of one line -/

/-- The text has no line end in it. -/
abbrev OneLine (text : String) : Prop := '\n' ∉ text.toList

namespace OneLine

/-- Two texts of one line make one line. -/
theorem append {first second : String} (h₁ : OneLine first) (h₂ : OneLine second) :
    OneLine (first ++ second) := by
  unfold OneLine
  rw [String.toList_append, List.mem_append]
  exact fun h => h.elim h₁ h₂

theorem quoted {text : String} (h : OneLine text) : OneLine ("'" ++ text ++ "'") :=
  (append (by decide) h).append (by decide)

/-- A number is written with digits. -/
theorem nat (n : Nat) : OneLine (toString n) := by
  unfold OneLine
  rw [Nat.toString_eq_ofList_toDigits, String.toList_ofList]
  intro h
  have hdigit := Nat.isDigit_of_mem_toDigits (by decide) (by decide) h
  revert hdigit
  decide

/-- Characters of a class that the line end is not in. -/
theorem ofClass {f : Char → Bool} (h : f '\n' = false) (text : List Char) :
    OneLine (String.ofList (text.takeWhile f)) := by
  unfold OneLine
  rw [String.toList_ofList]
  intro hmem
  have hclass := List.all_eq_true.mp List.all_takeWhile '\n' hmem
  rw [h] at hclass
  cases hclass

end OneLine

/-! ## §2. Errors of the text -/

/-- The error says that the text is no program, in one line. -/
structure Error.OfSource (e : Error) : Prop where
  fatal : e.severity = .fatal
  oneLine : OneLine e.message

namespace Error.OfSource

/-- The message of an error with a place: line, column and reason. -/
theorem malformed (c : Cursor) {reason : String} (h : OneLine reason) :
    (c.malformed reason).OfSource := by
  refine ⟨rfl, ?_⟩
  show OneLine ("Syntax error at line " ++ toString c.line ++ ", column " ++ toString c.column ++
    ": " ++ reason)
  exact ((((OneLine.append (by decide) (.nat c.line)).append (by decide)).append
    (.nat c.column)).append (by decide)).append h

/-- A line end that stands in the way is called by its name, and no other character is one. -/
theorem unexpected (c : Cursor) {expected : String} (h : OneLine expected) :
    (c.unexpected expected).OfSource := by
  unfold Cursor.unexpected
  split
  · exact ⟨rfl, OneLine.append (by decide) h⟩
  -- the character that stands in the way is quoted, unless it is a line end
  · refine malformed c (((OneLine.append (by decide) h).append (by decide)).append ?_)
    split
    · decide
    · rename_i hpeek
      refine .quoted ?_
      show '\n' ∉ (String.singleton c.peek).toList
      rw [String.toList_singleton, List.mem_singleton]
      intro heq
      rw [← heq] at hpeek
      exact hpeek rfl

/-- The number that is refused is quoted, and there are only digits in it. -/
theorem invalidNumber (text : List Char) :
    (Error.invalidNumber (String.ofList (text.takeWhile Char.isDigit))).OfSource :=
  ⟨rfl, OneLine.append (by decide) (.ofClass (by decide) text)⟩

theorem unknownType {name : String} (h : OneLine name) : (Error.unknownType name).OfSource :=
  ⟨rfl, OneLine.append (by decide) h⟩

end Error.OfSource

/-! ## §3. Regions -/

/-- A set of places that a cursor does not leave by moving on. -/
structure Region where
  holds : Cursor → Prop
  advance {c : Cursor} : holds c → holds c.advance

namespace Region

/-- All places. -/
def all : Region := ⟨fun _ => True, fun h => h⟩

variable {R : Region} {c c' : Cursor}

/-- Moving on by any number of characters is moving on one by one. -/
theorem advanceBy (h : R.holds c) (n : Nat) : R.holds (c.advanceBy n) := by
  induction n generalizing c with
  | zero => exact h
  | succ n ih => exact ih (R.advance h)

theorem skip (h : R.holds c) (g : Gap) : R.holds (c.skip g) := advanceBy h _

/-- A character that is taken is left behind, and so are words and names. -/
theorem accept? {ch : Char} (h : R.holds c) (hc : c.accept? ch = some c') : R.holds c' := by
  unfold Cursor.accept? at hc
  split at hc
  · cases hc
    exact R.advance h
  · cases hc

theorem acceptText? {word : String} (h : R.holds c) (hc : c.acceptText? word = some c') :
    R.holds c' := by
  unfold Cursor.acceptText? at hc
  split at hc
  · cases hc
    exact advanceBy h word.length
  · cases hc

theorem acceptKeyword? {word : String} (h : R.holds c) (hc : c.acceptKeyword? word = some c') :
    R.holds c' := by
  unfold Cursor.acceptKeyword? at hc
  split at hc
  · cases hc
    exact advanceBy h word.length
  · cases hc

/-- So is the head of a `print`. -/
theorem printCall? (h : R.holds c) (hc : Parser.printCall? c = some c') : R.holds c' := by
  obtain ⟨c₁, hkeyword, hbracket⟩ := Option.bind_eq_some_iff.mp hc
  exact accept? (skip (acceptKeyword? h hkeyword) .inline) hbracket

theorem name? {word : String} (h : R.holds c) (hc : c.name? = some (word, c')) : R.holds c' := by
  unfold Cursor.name? at hc
  split at hc
  · cases hc
    exact advanceBy h _
  · cases hc

/-- A number is left behind whether it is in range or not. -/
theorem number (h : R.holds c) : R.holds c.number.2 := by
  unfold Cursor.number
  dsimp only
  -- with or without digits behind a point
  split
  · split <;> exact advanceBy h _
  · exact advanceBy h _

/-- So is a string, also one that does not end. -/
theorem string (h : R.holds c) : R.holds c.string.2 := by
  unfold Cursor.string
  split
  · split <;> exact advanceBy h _
  · exact h

end Region

/-- The error is one of the text, and if it names a place, one in the region. -/
structure Error.RaisedIn (R : Region) (e : Error) : Prop where
  ofSource : e.OfSource
  placed : ∀ line column reason, e = .malformed line column reason →
    ∃ c, R.holds c ∧ c.line = line ∧ c.column = column

namespace Error.RaisedIn

variable {R : Region} {c : Cursor}

/-- The place that is named is where the cursor stands. -/
theorem malformed (hc : R.holds c) {reason : String} (h : OneLine reason) :
    (c.malformed reason).RaisedIn R := by
  refine ⟨.malformed c h, fun line column reason heq => ⟨c, hc, ?_⟩⟩
  cases heq
  exact ⟨rfl, rfl⟩

/-- At the end of the text there is no place to name. -/
theorem unexpected (hc : R.holds c) {expected : String} (h : OneLine expected) :
    (c.unexpected expected).RaisedIn R := by
  refine ⟨.unexpected c h, fun line column reason heq => ⟨c, hc, ?_⟩⟩
  unfold Cursor.unexpected at heq
  split at heq
  · cases heq
  · cases heq
    exact ⟨rfl, rfl⟩

/-- A number out of range is an error without a place. -/
theorem invalidNumber (text : List Char) :
    (Error.invalidNumber (String.ofList (text.takeWhile Char.isDigit))).RaisedIn R := by
  refine ⟨.invalidNumber text, fun line column reason heq => ?_⟩
  cases heq

theorem unknownType {name : String} (h : OneLine name) : (Error.unknownType name).RaisedIn R := by
  refine ⟨.unknownType h, fun line column reason heq => ?_⟩
  cases heq

end Error.RaisedIn

/-! ## §4. Readers -/

/-- The outcome is a result as asked, or an error of the text. -/
def ReadOutcome {α : Type} (Q : α → Prop) : Except Error (α × Cursor) → Prop
  | .ok (a, _) => Q a
  | .error e => e.OfSource

/-- The outcome is a result as asked, at a place in the region, or an error raised in the region. -/
def Region.Outcome {α : Type} (R : Region) (Q : α → Prop) : Except Error (α × Cursor) → Prop
  | .ok (a, c) => Q a ∧ R.holds c
  | .error e => e.RaisedIn R

namespace Parser

variable {α β σ : Type}

/-- Wherever it begins, the reader gives results as asked, and fails with errors of the text. -/
def Gives (p : Parser α) (Q : α → Prop) : Prop := ∀ c, ReadOutcome Q (p c)

/-- Wherever it begins, the reader fails with errors of the text. -/
abbrev Blames (p : Parser α) : Prop := p.Gives fun _ => True

/-- Wherever it begins in the region, the reader does not leave it: it gives results as asked there, and
    raises its errors there. -/
def GivesIn (p : Parser α) (R : Region) (Q : α → Prop) : Prop :=
  ∀ c, R.holds c → R.Outcome Q (p c)

/-- Wherever it begins in the region, the reader does not leave it. -/
abbrev StaysIn (p : Parser α) (R : Region) : Prop := p.GivesIn R fun _ => True

variable {R : Region}

namespace GivesIn

variable {p : Parser α} {Q : α → Prop} {S : β → Prop}

theorem pure {a : α} (h : Q a) : GivesIn (pure a : Parser α) R Q := fun _ hc => ⟨h, hc⟩

theorem throw {e : Error} (h : e.RaisedIn R) : GivesIn (throw e : Parser α) R Q := fun _ _ => h

/-- The second reader begins where the first has come to, which is in the region. -/
theorem bind {f : α → Parser β} (hp : p.GivesIn R Q) (hf : ∀ a, Q a → (f a).GivesIn R S) :
    (p >>= f).GivesIn R S := by
  intro c hc
  have hfirst := hp c hc
  show R.Outcome S ((p c).bind fun r => f r.1 r.2)
  cases hr : p c with
  | error e =>
    rw [hr] at hfirst
    exact hfirst
  | ok r =>
    rw [hr] at hfirst
    exact hf r.1 hfirst.1 r.2 hfirst.2

theorem map {f : α → β} (hp : p.StaysIn R) : (f <$> p).StaysIn R :=
  bind (f := fun a => Pure.pure (f a)) hp fun _ _ => GivesIn.pure trivial

/-- What follows knows that it begins in the region. -/
theorem get {f : Cursor → Parser β} (hf : ∀ c, R.holds c → (f c).GivesIn R S) :
    (MonadState.get >>= f).GivesIn R S := fun c hc => hf c hc c hc

/-- A gap is skipped without leaving the region. -/
theorem gap {g : Gap} {f : Unit → Parser β} (hf : (f ()).GivesIn R S) :
    (Parser.gap g >>= f).GivesIn R S := fun c hc => hf (c.skip g) (Region.skip hc g)

theorem advance {f : Unit → Parser β} (hf : (f ()).GivesIn R S) :
    (Parser.advance >>= f).GivesIn R S := fun c hc => hf c.advance (R.advance hc)

/-- Back at a place in the region. -/
theorem back {d : Cursor} (hd : R.holds d) {f : PUnit → Parser β} (hf : (f ⟨⟩).GivesIn R S) :
    ((set d : Parser PUnit) >>= f).GivesIn R S := fun _ _ => hf d hd

/-- What goes on after something that may stand here. -/
theorem taking {step : Cursor → Option Cursor} {f : Bool → Parser β}
    (hstep : ∀ {c c'}, R.holds c → step c = some c' → R.holds c')
    (hyes : (f true).GivesIn R S) (hno : (f false).GivesIn R S) :
    (Parser.taking step >>= f).GivesIn R S := by
  have htaking : (Parser.taking step).StaysIn R := by
    refine .get fun c hc => ?_
    cases hc' : step c with
    | some c' => exact .back (hstep hc hc') (.pure trivial)
    | none => exact .pure trivial
  refine htaking.bind fun taken _ => ?_
  cases taken with
  | true => exact hyes
  | false => exact hno

theorem accept {ch : Char} {f : Bool → Parser β} (hyes : (f true).GivesIn R S)
    (hno : (f false).GivesIn R S) : (Parser.accept ch >>= f).GivesIn R S :=
  .taking Region.accept? hyes hno

theorem acceptText {word : String} {f : Bool → Parser β} (hyes : (f true).GivesIn R S)
    (hno : (f false).GivesIn R S) : (Parser.acceptText word >>= f).GivesIn R S :=
  .taking Region.acceptText? hyes hno

theorem acceptKeyword {word : String} {f : Bool → Parser β} (hyes : (f true).GivesIn R S)
    (hno : (f false).GivesIn R S) : (Parser.acceptKeyword word >>= f).GivesIn R S :=
  .taking Region.acceptKeyword? hyes hno

end GivesIn

theorem fail_stays {reason : String} {Q : α → Prop} (h : OneLine reason) :
    (fail reason : Parser α).GivesIn R Q :=
  .get fun _ hc => .throw (.malformed hc h)

theorem unexpected_stays {expected : String} {Q : α → Prop} (h : OneLine expected) :
    (unexpected expected : Parser α).GivesIn R Q :=
  .get fun _ hc => .throw (.unexpected hc h)

/-- Nothing goes on after a failure. -/
theorem unexpected_bind_stays {expected : String} {f : α → Parser β} (h : OneLine expected) :
    (unexpected expected >>= f).StaysIn R :=
  .bind (unexpected_stays (Q := fun _ => False) h) fun _ hf => hf.elim

theorem tooDeep_stays : (tooDeep : Parser α).StaysIn R := fail_stays (by decide)

theorem expect_stays (g : Gap) {ch : Char} (h : OneLine ch.toString) : (expect g ch).StaysIn R := by
  refine .gap (.accept (.pure trivial) ?_)
  exact unexpected_stays (.quoted h)

/-- A name that has been read is one line, so it can be quoted. -/
theorem nameHere_gives {what : String} (h : OneLine what) : (nameHere what).GivesIn R OneLine := by
  refine .get fun c hc => ?_
  cases hname : c.name? with
  | none => exact unexpected_stays h
  | some found =>
    have hword : OneLine found.1 := by
      unfold Cursor.name? at hname
      split at hname
      · cases hname
        exact .ofClass (by decide) c.rest
      · cases hname
    exact .back (Region.name? hc hname) (.pure hword)

theorem name_gives (g : Gap) {what : String} (h : OneLine what) : (name g what).GivesIn R OneLine :=
  .gap (nameHere_gives h)

/-- **Repetition** fails with the errors of its rounds, or because a round has read nothing. -/
theorem iterate_stays {step : σ → Parser (Round σ β)} (h : ∀ state, (step state).StaysIn R)
    (state : σ) : StaysIn (iterate step state) R := by
  intro c hc
  fun_induction iterate step state c with
  | case1 state c e hstep =>
    -- each round begins in the region; the last one ends the loop there, and an error is its own
    have hround := h state c hc
    rw [hstep] at hround
    exact hround
  | case2 state c result next hstep =>
    have hround := h state c hc
    rw [hstep] at hround
    exact ⟨trivial, hround.2⟩
  | case3 state c state' next hstep hless ih =>
    have hround := h state c hc
    rw [hstep] at hround
    exact ih hround.2
  | case4 state c state' next hstep hless =>
    have hround := h state c hc
    rw [hstep] at hround
    -- the place of a round that has read nothing is where the round has come to
    exact .malformed hround.2 (by decide)

/-- At most levels the reader goes one further down; on the last one it refuses. -/
theorem within_stays {deeper : Option σ} {inner : σ → Parser α}
    (h : ∀ d, deeper = some d → (inner d).StaysIn R) : (within deeper inner).StaysIn R := by
  cases deeper with
  | none => exact tooDeep_stays
  | some d => exact h d rfl

theorem descend_stays (levels : Nat) {inner : Nat → Parser α} (h : ∀ n, (inner n).StaysIn R) :
    (descend levels inner).StaysIn R := by
  cases levels with
  | zero => exact tooDeep_stays
  | succ n => exact h n

/-- A literal moves on and raises its own errors. -/
theorem literal_stays {read : Cursor → Except Error α × Cursor}
    (hmove : ∀ {c}, R.holds c → R.holds (read c).2)
    (h : ∀ c e, R.holds c → (read c).1 = .error e → e.RaisedIn R) : (literal read).StaysIn R := by
  refine .get fun c hc => ?_
  have hafter := hmove hc
  cases hr : read c with
  | mk result c' =>
    rw [hr] at hafter
    cases result with
    | ok a => exact .back hafter (.pure trivial)
    | error e => exact .back hafter (.throw (h c e hc (congrArg Prod.fst hr)))

/-- A number is refused for its size only. -/
theorem number_stays : (literal Cursor.number).StaysIn R := by
  refine literal_stays Region.number fun c e _ he => ?_
  rw [Cursor.number_error he]
  exact .invalidNumber c.rest

/-- A string that does not end is refused where it begins. -/
theorem string_stays : (literal Cursor.string).StaysIn R := by
  refine literal_stays Region.string fun c e hc he => ?_
  unfold Cursor.string at he
  split at he
  · split at he
    · cases he
    · cases he
      exact .malformed hc (by decide)
  · cases he
    exact .malformed hc (by decide)

/-! ## §5. Types -/

/-- **Types**: brackets go one level down, and names that are no type are quoted. -/
theorem tyLevel_stays {deeper : Option (Parser Ty)} (h : ∀ d, deeper = some d → d.StaysIn R) (g : Gap) :
    (tyLevel deeper g).StaysIn R := by
  -- any number of question marks may follow
  have hquestion : ∀ type, StaysIn (iterate tyLevel.question type) R := by
    refine iterate_stays fun type => ?_
    exact .accept (.pure trivial) (.pure trivial)
  refine .gap (.accept ?_ ?_)
  -- brackets: an array, or after a colon a dictionary
  · refine .bind (within_stays fun inner hinner => ?_) fun type _ => hquestion type
    refine .bind (h inner hinner) fun first _ => .gap (.accept ?_ ?_)
    · refine .bind (h inner hinner) fun value _ => ?_
      exact .bind (expect_stays .lines (by decide)) fun _ _ => .pure trivial
    · exact .bind (expect_stays .lines (by decide)) fun _ _ => .pure trivial
  · refine .bind (Q := fun _ => True) ?_ fun type _ => hquestion type
    refine .bind (name_gives g (by decide)) fun word hword => ?_
    cases Ty.ofName? word with
    | some type => exact .pure trivial
    | none => exact .throw (.unknownType hword)

theorem ty_stays (n : Nat) (g : Gap) : (ty n g).StaysIn R := by
  induction n generalizing g with
  | zero => exact tyLevel_stays (fun _ hd => by cases hd) g
  | succ n ih =>
    refine tyLevel_stays (fun d hd => ?_) g
    cases hd
    exact ih .lines

/-! ## §6. Expressions -/

/-- Operators and operands in turn, to the left. -/
theorem leftChain_stays (g : Gap) {operator : Parser (Option BinaryOp)} {next : Parser Expr}
    (ho : operator.StaysIn R) (hn : next.StaysIn R) : (leftChain g operator next).StaysIn R := by
  refine .bind hn fun first _ => iterate_stays (fun left => ?_) first
  refine .gap (.bind ho fun op _ => ?_)
  cases op with
  | none => exact .pure trivial
  | some op => exact .bind hn fun _ _ => .pure trivial

/-- At most one operator between two operands. -/
theorem pair_stays (g : Gap) {join : Parser (Option (Expr → Expr → Expr))} {next : Parser Expr}
    (hj : join.StaysIn R) (hn : next.StaysIn R) : (pair g join next).StaysIn R := by
  refine .bind hn fun left _ => .gap (.bind hj fun make _ => ?_)
  cases make with
  | none => exact .pure trivial
  | some make => exact .bind hn fun _ _ => .pure trivial

theorem wordOperator_stays (word : String) (op : BinaryOp) : (wordOperator word op).StaysIn R :=
  .acceptText (.pure trivial) (.pure trivial)

theorem productOperator_stays : productOperator.StaysIn R :=
  .accept (.pure trivial) (.accept (.pure trivial) (.accept (.pure trivial) (.pure trivial)))

theorem sumOperator_stays : sumOperator.StaysIn R := by
  refine .accept (.pure trivial) (.get fun c hc => ?_)
  split
  · exact .accept (.pure trivial) (.pure trivial)
  · exact .pure trivial

theorem rangeOperator_stays : rangeOperator.StaysIn R :=
  .acceptText (.accept (.pure trivial) (.pure trivial)) (.pure trivial)

theorem comparisonOperator_stays : comparisonOperator.StaysIn R := by
  refine .acceptText (.pure trivial) (.acceptText (.pure trivial) ?_)
  refine .acceptText (.pure trivial) (.acceptText (.pure trivial) ?_)
  exact .accept (.pure trivial) (.accept (.pure trivial) (.pure trivial))

/-- **The levels of joints**, from products to `||`, over whatever the operands are. -/
theorem exprOf_stays (g : Gap) {operand : Parser Expr} (h : operand.StaysIn R) :
    (exprOf g operand).StaysIn R := by
  have hsum := leftChain_stays g sumOperator_stays (leftChain_stays g productOperator_stays h)
  have hcomparison := pair_stays g comparisonOperator_stays
    (pair_stays g rangeOperator_stays hsum)
  exact leftChain_stays g (wordOperator_stays _ _)
    (leftChain_stays g (wordOperator_stays _ _) hcomparison)

section Brackets

variable {operand : Parser Expr} (h : operand.StaysIn R)

include h

/-- An expression and the bracket that closes it. -/
theorem enclosed_stays {close : Char} (hclose : OneLine close.toString) :
    (enclosed operand close).StaysIn R := by
  refine .bind (exprOf_stays .lines h) fun inner _ => ?_
  exact .bind (expect_stays .lines hclose) fun _ _ => .pure trivial

theorem arguments_stays : (arguments operand).StaysIn R := by
  refine .gap (.accept (.pure trivial) (iterate_stays (fun before => ?_) []))
  refine .bind (exprOf_stays .lines h) fun arg _ => .gap (.accept (.pure trivial) ?_)
  exact .bind (expect_stays .lines (by decide)) fun _ _ => .pure trivial

theorem keyAndValue_stays : (keyAndValue operand).StaysIn R := by
  refine .bind (exprOf_stays .lines h) fun key _ => ?_
  refine .bind (expect_stays .lines (by decide)) fun _ _ => ?_
  exact .bind (exprOf_stays .lines h) fun _ _ => .pure trivial

end Brackets

theorem collectionGoesOn_stays : collectionGoesOn.StaysIn R := by
  refine .gap (.accept (.pure trivial) ?_)
  refine .bind (expect_stays .lines (by decide)) fun _ _ => .gap ?_
  exact .accept (.pure trivial) (.pure trivial)

theorem entries_stays {entry : Parser α} (h : entry.StaysIn R) : (entries entry).StaysIn R := by
  refine iterate_stays (fun before => .bind h fun a _ => ?_) []
  refine .bind collectionGoesOn_stays fun more _ => ?_
  cases more with
  | true => exact .pure trivial
  | false => exact .pure trivial

/-- A collection is read as items or as pairs, as the lookahead says. -/
theorem collection_stays {havePairs : Lookahead} (hpairs : ∀ p : Parser Expr, p.StaysIn R →
    (havePairs p).StaysIn R) {operand : Parser Expr} (h : operand.StaysIn R) :
    (collection havePairs operand).StaysIn R := by
  refine .gap (.accept (.pure trivial) (.accept ?_ ?_))
  · exact .bind (expect_stays .lines (by decide)) fun _ _ => .pure trivial
  · refine .bind (hpairs operand h) fun pairs _ => ?_
    cases pairs with
    | true => exact .bind (entries_stays (keyAndValue_stays h)) fun _ _ => .pure trivial
    | false => exact .bind (entries_stays (exprOf_stays .lines h)) fun _ _ => .pure trivial

section Operands

variable {havePairs : Lookahead} (hpairs : ∀ p : Parser Expr, p.StaysIn R → (havePairs p).StaysIn R)
variable {deeper : Deeper} (h : ∀ d, deeper = some d → ∀ g, (d g).StaysIn R)

include h

theorem arguments_within_stays :
    (within deeper fun d => arguments (d .lines)).StaysIn R :=
  within_stays fun d hd => arguments_stays (h d hd .lines)

theorem nameOrCall_stays (word : String) : (nameOrCall deeper word).StaysIn R := by
  unfold nameOrCall
  split
  · exact .pure trivial
  · exact .pure trivial
  · exact .pure trivial
  · refine .accept ?_ (.pure trivial)
    exact .bind (arguments_within_stays h) fun _ _ => .pure trivial

/-- After a dot a name must stand, and it may be called. -/
theorem memberOf_stays (target : Expr) (optional : Bool) :
    (memberOf deeper target optional).StaysIn R := by
  refine .bind (nameHere_gives (by decide)) fun word _ => .accept ?_ (.pure trivial)
  exact .bind (arguments_within_stays h) fun _ _ => .pure trivial

/-- The suffixes of an operand: an index, a member or a method. -/
theorem suffix_stays (target : Expr) : (suffix deeper target).StaysIn R := by
  refine .accept ?_ (.acceptText ?_ (.get fun c hc => ?_))
  · refine .bind (within_stays fun d hd => ?_) fun _ _ => .pure trivial
    exact enclosed_stays (h d hd .lines) (by decide)
  · exact .bind (memberOf_stays h target true) fun _ _ => .pure trivial
  · split
    · refine .accept ?_ (.pure trivial)
      exact .bind (memberOf_stays h target false) fun _ _ => .pure trivial
    · exact .pure trivial

include hpairs

/-- **What stands alone**: a bracket, a literal, a collection, a name or a call. -/
theorem primary_stays (g : Gap) : (primary havePairs deeper g).StaysIn R := by
  refine .gap (.get fun c hc => ?_)
  -- the end of the text
  split
  · exact unexpected_stays (by decide)
  -- an opening parenthesis
  split
  · refine .advance (within_stays fun d hd => ?_)
    exact enclosed_stays (h d hd .lines) (by decide)
  split
  · exact .bind string_stays fun _ _ => .pure trivial
  -- digits
  split
  · refine .bind number_stays fun numeral _ => ?_
    cases numeral with
    | int n => exact .pure trivial
    | double x => exact .pure trivial
  split
  · refine .advance (within_stays fun d hd => ?_)
    exact collection_stays hpairs (h d hd .lines)
  -- all that is left are names
  · exact .bind (nameHere_gives (by decide)) fun word _ => nameOrCall_stays h word

/-- A prefixed operator goes one level down, as brackets do. -/
theorem operandLevel_stays (g : Gap) : (operandLevel havePairs deeper g).StaysIn R := by
  have hleading : leadingOperator.StaysIn R := by
    refine .get fun c hc => ?_
    split
    · exact .accept (.pure trivial) (.accept (.pure trivial) (.pure trivial))
    · exact .accept (.pure trivial) (.pure trivial)
  refine .gap (.bind hleading fun op _ => ?_)
  cases op with
  | some op => exact .bind (within_stays fun d hd => h d hd g) fun _ _ => .pure trivial
  | none =>
    exact .bind (primary_stays hpairs h g) fun first _ => iterate_stays (suffix_stays h) first

end Operands

/-- By induction on the levels that are left. -/
theorem operand_stays {havePairs : Lookahead} (hpairs : ∀ p : Parser Expr, p.StaysIn R →
    (havePairs p).StaysIn R) (n : Nat) (g : Gap) : (operand havePairs n g).StaysIn R := by
  induction n generalizing g with
  | zero => exact operandLevel_stays hpairs (fun _ hd => by cases hd) g
  | succ n ih =>
    refine operandLevel_stays hpairs (fun d hd => ?_) g
    cases hd
    exact ih

theorem byScan_stays (p : Parser Expr) (_ : p.StaysIn R) : (byScan p).StaysIn R :=
  .get fun _ _ => .pure trivial

theorem expr_stays (levels : Nat) (g : Gap) : (expr levels g).StaysIn R :=
  exprOf_stays g (operand_stays byScan_stays levels g)

/-- **An expression and nothing else.** -/
theorem onlyExpr_stays : (onlyExpr byScan).StaysIn R := by
  refine .gap (.bind (expr_stays maxNesting .inline) fun e _ => .gap (.get fun c hc => ?_))
  split
  · exact .pure trivial
  · exact unexpected_stays (by decide)

/-! ## §7. Statements -/

theorem terminator_stays : terminator.StaysIn R := by
  refine .gap (.get fun c hc => ?_)
  split
  · exact .pure trivial
  · exact unexpected_stays (by decide)

/-- A declaration, in which the type may be left out but not the value. -/
theorem declaration_stays (levels : Nat) (constant : Bool) :
    (declaration levels constant).StaysIn R := by
  have hvalue : ∀ name type,
      (expect .inline '=' >>= fun _ => expr levels .inline >>= fun value =>
        (pure (.declare name type value constant) : Parser Stmt)).StaysIn R := by
    intro name type
    refine .bind (expect_stays .inline (by decide)) fun _ _ => ?_
    exact .bind (expr_stays levels .inline) fun _ _ => .pure trivial
  refine .bind (name_gives .inline (by decide)) fun name _ => .gap (.accept ?_ ?_)
  · exact .bind (.map (ty_stays levels .inline)) fun type _ => hvalue name type
  · exact hvalue name none

theorem returned_stays (levels : Nat) : (returned levels).StaysIn R := by
  refine .gap (.get fun c hc => ?_)
  split
  · exact .pure trivial
  · exact .bind (expr_stays levels .inline) fun _ _ => .pure trivial

/-- An expression, or what is stored under it. -/
theorem storeOrExpr_stays (levels : Nat) : (storeOrExpr levels).StaysIn R := by
  refine .bind (expr_stays levels .inline) fun target _ => .gap (.get fun c hc => ?_)
  split
  · refine .advance (.bind (expr_stays levels .inline) fun value _ => ?_)
    -- the target is refused where the sign of assignment stands
    cases storeTo? target value with
    | some stmt => exact .pure trivial
    | none => exact .throw (.malformed hc (by decide))
  · exact .pure trivial

/-- A parameter that needs a default is named in the error. -/
theorem param_stays (levels : Nat) (before : List Param) : (param levels before).StaysIn R := by
  -- whether the default is missing can be told when the parameter has been read
  have hmade : ∀ name type default, OneLine name →
      (if (default.isNone && before.any fun p => p.default.isSome) = true then
        fail ("parameter '" ++ name ++ "' without a default follows a defaulted parameter")
      else pure ({ name, type, default } : Param) : Parser Param).StaysIn R := by
    intro name type default hname
    split
    · exact fail_stays (((OneLine.append (by decide) hname)).append (by decide))
    · exact .pure trivial
  refine .bind (name_gives .lines (by decide)) fun name hname => ?_
  refine .bind (expect_stays .lines (by decide)) fun _ _ => ?_
  refine .bind (ty_stays levels .lines) fun type _ => .gap (.accept ?_ ?_)
  · exact .bind (.map (expr_stays levels .lines)) fun default _ => hmade name type default hname
  · exact hmade name type none hname

theorem params_stays (levels : Nat) : (params levels).StaysIn R := by
  refine .gap (.accept (.pure trivial) (iterate_stays (fun before => ?_) []))
  refine .bind (param_stays levels before) fun p _ => .gap (.accept (.pure trivial) ?_)
  exact .bind (expect_stays .lines (by decide)) fun _ _ => .pure trivial

section Blocks

variable (levels : Nat) {block : Parser (List Stmt)} (h : block.StaysIn R)

include h

theorem afterIf_stays : (afterIf block).StaysIn R := by
  refine .get fun before hbefore => .gap (.acceptKeyword (.gap (.acceptKeyword ?_ ?_)) ?_)
  · exact .pure trivial
  · exact .bind h fun _ _ => .pure trivial
  · -- without an `else` the reader goes back to where the block ended
    exact .back hbefore (.pure trivial)

/-- An `if`, and what follows after `else`. -/
theorem conditional_stays : (conditional levels block).StaysIn R := by
  refine iterate_stays (fun before => ?_) []
  refine .bind (expr_stays levels .inline) fun condition _ => ?_
  refine .bind h fun body _ => .bind (afterIf_stays h) fun next _ => ?_
  cases next with
  | elseIf => exact .pure trivial
  | otherwise other => exact .pure trivial
  | nothing => exact .pure trivial

theorem whileLoop_stays : (whileLoop levels block).StaysIn R := by
  refine .bind (expr_stays levels .inline) fun condition _ => ?_
  exact .bind h fun _ _ => .pure trivial

theorem forLoop_stays : (forLoop levels block).StaysIn R := by
  refine .bind (name_gives .inline (by decide)) fun item _ => .gap (.acceptKeyword ?_ ?_)
  · refine .bind (expr_stays levels .inline) fun iterable _ => ?_
    exact .bind h fun _ _ => .pure trivial
  · exact unexpected_bind_stays (by decide)

/-- The head of a function, and its body. -/
theorem function_stays : (function levels block).StaysIn R := by
  refine .bind (name_gives .inline (by decide)) fun name _ => ?_
  refine .bind (expect_stays .inline (by decide)) fun _ _ => ?_
  refine .bind (descend_stays levels params_stays) fun params _ => .gap (.acceptText ?_ ?_)
  · refine .bind (ty_stays levels .inline) fun returns _ => ?_
    exact .bind h fun _ _ => .pure trivial
  · exact unexpected_bind_stays (by decide)

/-- **One statement**, over the blocks inside it. -/
theorem statement_stays : (statement levels block).StaysIn R := by
  have hfunction := function_stays levels h
  refine .gap (.acceptKeyword hfunction (.acceptKeyword hfunction ?_))
  refine .acceptKeyword (returned_stays levels) (.acceptKeyword (declaration_stays levels false) ?_)
  refine .acceptKeyword (declaration_stays levels false) ?_
  refine .acceptKeyword (declaration_stays levels true) ?_
  refine .acceptKeyword (conditional_stays levels h) (.acceptKeyword (whileLoop_stays levels h) ?_)
  refine .acceptKeyword (forLoop_stays levels h) (.acceptKeyword (.pure trivial) ?_)
  refine .acceptKeyword (.pure trivial) (.taking Region.printCall? ?_ (storeOrExpr_stays levels))
  refine .bind (descend_stays levels fun n => ?_) fun _ _ => .pure trivial
  exact enclosed_stays (operand_stays byScan_stays n .lines) (by decide)

end Blocks

/-- Statements up to the end of the text, or to the bracket that closes the block. -/
theorem statements_stays (inBlock : Bool) {stmt : Parser Stmt} (h : stmt.StaysIn R) :
    (statements inBlock stmt).StaysIn R := by
  refine iterate_stays (fun before => ?_) []
  unfold statements.step
  refine .gap (.get fun c hc => ?_)
  split
  · split
    · exact unexpected_stays (by decide)
    · exact .pure trivial
  split
  · exact .pure trivial
  · exact .bind h fun s _ => .bind terminator_stays fun _ _ => .pure trivial

/-- By induction on the levels that are left. -/
theorem block_stays (n : Nat) : (block n).StaysIn R := by
  have hopen : openBrace.StaysIn R :=
    .gap (.accept (.pure trivial) (unexpected_stays (by decide)))
  induction n with
  | zero => exact .bind hopen fun _ _ => tooDeep_stays
  | succ n ih =>
    refine .bind hopen fun _ _ => .bind (statements_stays true (statement_stays n ih)) ?_
    intro body _
    exact .advance (.pure trivial)

/-- What can be said of every region can be said without one. -/
theorem GivesIn.gives {p : Parser α} {Q : α → Prop} (h : p.GivesIn .all Q) : p.Gives Q := by
  intro c
  have hread := h c trivial
  cases hr : p c with
  | ok r =>
    rw [hr] at hread
    exact hread.1
  | error e =>
    rw [hr] at hread
    exact hread.ofSource

theorem error_of_map_fst {r : Except Error (α × Cursor)} {e : Error}
    (h : r.map Prod.fst = .error e) : r = .error e := by
  cases r with
  | ok r => cases h
  | error e' =>
    cases h
    rfl

theorem Gives.error_of_map {p : Parser α} (h : p.Blames) {c : Cursor} {e : Error}
    (hp : (p c).map Prod.fst = .error e) : e.OfSource := by
  have hread := h c
  rw [error_of_map_fst hp] at hread
  exact hread

/-- An error of the reader is an error of what is read from the result. -/
theorem GivesIn.error_of_map {p : Parser α} (h : p.StaysIn R) {c : Cursor} (hc : R.holds c) {e : Error}
    (hp : (p c).map Prod.fst = .error e) : e.RaisedIn R := by
  have hread := h c hc
  rw [error_of_map_fst hp] at hread
  exact hread

/-- **A whole program.** -/
theorem program_stays :
    (statements false (statement maxNesting (block maxNesting))).StaysIn R :=
  statements_stays false (statement_stays maxNesting (block_stays maxNesting))

end Parser

/-- **A text that is no expression is to blame for it.** -/
theorem Expr.parse_error {source : String} {e : Error} (h : Expr.parse source = .error e) :
    e.OfSource :=
  (Parser.GivesIn.gives Parser.onlyExpr_stays).error_of_map h

/-- **A text that is no program is to blame for it.** -/
theorem Program.parse_error {source : String} {e : Error} (h : Program.parse source = .error e) :
    e.OfSource :=
  (Parser.GivesIn.gives Parser.program_stays).error_of_map h

end Scriptlet
