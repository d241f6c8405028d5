/-
  Scriptlet.Proofs.Positions — lines and columns are true.

  A cursor does not know how far it has come: it keeps the text ahead, and counts lines and columns as
  it moves.  Counted from the text instead, the line of a place is one more than the line ends before
  it, and its column one more than the characters since the last of these.  Both counts agree at every
  place that a cursor can come to, whatever is done with it and in whatever order, as long as it goes
  back only to places that were saved from it.  The readers do nothing else, so a place that an error
  names is a place in the text.

  Main results:
    * `Cursor.StandsAt.advance` — one character further.
    * `Cursor.Op.run_within` — one operation.
    * `source_positions_are_true` — every sequence of operations, and every error that names a place.
-/
import Scriptlet.Proofs.SourceErrors

namespace Scriptlet

/-! ## §1. Places counted from the text -/

/-- The line of the place behind so many characters: one more than the line ends before it. -/
def lineAt (text : List Char) (offset : Nat) : Nat := (text.take offset).count '\n' + 1

/-- The column of the place behind so many characters: one more than the characters since the last line
    end before it. -/
def columnAt (text : List Char) (offset : Nat) : Nat :=
  ((text.take offset).reverse.takeWhile (· != '\n')).length + 1

section Ahead

variable {text rest : List Char} {ch : Char} {offset : Nat}

/-- One character more has been passed. -/
theorem take_succ_of_drop (h : text.drop offset = ch :: rest) :
    text.take (offset + 1) = text.take offset ++ [ch] := by
  have hhead : text[offset]? = some ch := by
    rw [← List.head?_drop, h]
    rfl
  rw [List.take_add_one, hhead]
  rfl

theorem lineAt_succ (h : text.drop offset = ch :: rest) :
    lineAt text (offset + 1) = lineAt text offset + if ch == '\n' then 1 else 0 := by
  unfold lineAt
  rw [take_succ_of_drop h, List.count_append, List.count_singleton]
  omega

theorem columnAt_succ (h : text.drop offset = ch :: rest) :
    columnAt text (offset + 1) = if ch == '\n' then 1 else columnAt text offset + 1 := by
  unfold columnAt
  rw [take_succ_of_drop h, List.reverse_append, List.reverse_singleton, List.singleton_append]
  by_cases hline : ch = '\n'
  · simp [hline]
  · simp [hline]

end Ahead

/-! ## §2. Cursors in a text -/

/-- The cursor stands in the text behind so many characters: it sees the text from there on, and its
    line and column are those of this place. -/
structure Cursor.StandsAt (text : List Char) (offset : Nat) (c : Cursor) : Prop where
  offset_le : offset ≤ text.length
  rest : c.rest = text.drop offset
  line : c.line = lineAt text offset
  column : c.column = columnAt text offset

namespace Cursor

variable {text : List Char}

theorem standsAt_start (source : String) : (start source).StandsAt source.toList 0 :=
  ⟨Nat.zero_le _, rfl, rfl, rfl⟩

/-- **One character further**, or still at the end. -/
theorem StandsAt.advance {c : Cursor} {offset : Nat} (h : c.StandsAt text offset) :
    ∃ offset', c.advance.StandsAt text offset' := by
  cases hrest : c.rest with
  | nil =>
    -- at the end the cursor does not move
    have hstays : c.advance = c := by
      unfold Cursor.advance
      rw [hrest]
    rw [hstays]
    exact ⟨offset, h⟩
  | cons ch rest =>
    have hahead : text.drop offset = ch :: rest := h.rest.symm.trans hrest
    have hlength : (text.drop offset).length = rest.length + 1 := by rw [hahead, List.length_cons]
    rw [List.length_drop] at hlength
    refine ⟨offset + 1, by omega, ?_, ?_, ?_⟩
    · rw [rest_advance, h.rest, List.drop_drop, Nat.add_comm]
    · rw [lineAt_succ hahead, ← h.line]
      unfold Cursor.advance
      rw [hrest]
      by_cases hline : (ch == '\n') = true <;> simp [hline]
    · rw [columnAt_succ hahead, ← h.column]
      unfold Cursor.advance
      rw [hrest]
      by_cases hline : (ch == '\n') = true <;> simp [hline]

end Cursor

/-- The places in a text. -/
def Region.ofText (text : List Char) : Region where
  holds c := ∃ offset, c.StandsAt text offset
  advance := fun ⟨_, h⟩ => h.advance

/-! ## §3. Sequences of operations -/

namespace Cursor

/-- What can be done with a cursor; looking ahead is left out, for it moves nothing. -/
inductive Op where
  /-- Takes the next character. -/
  | advance
  /-- Takes the character if it stands here. -/
  | accept (ch : Char)
  /-- Takes the word if it stands here. -/
  | acceptText (word : String)
  /-- Takes the keyword if it stands here. -/
  | acceptKeyword (word : String)
  /-- Goes past a gap. -/
  | skip (gap : Gap)
  /-- Takes a name, if one begins here. -/
  | name
  /-- Takes a number literal. -/
  | number
  /-- Takes a string literal. -/
  | string
  /-- Saves the place. -/
  | save
  /-- Goes back to a saved place, by its number. -/
  | back (k : Nat)
  deriving Repr

/-- A cursor on its way through a text, with the places that were saved from it. -/
structure Tour where
  here : Cursor
  saved : List Cursor := []

/-- One operation. -/
def Op.run (op : Op) (t : Tour) : Tour :=
  match op with
  | .advance => { t with here := t.here.advance }
  | .accept ch => { t with here := (t.here.accept? ch).getD t.here }
  | .acceptText word => { t with here := (t.here.acceptText? word).getD t.here }
  | .acceptKeyword word => { t with here := (t.here.acceptKeyword? word).getD t.here }
  | .skip gap => { t with here := t.here.skip gap }
  | .name => { t with here := (t.here.name?.map Prod.snd).getD t.here }
  | .number => { t with here := t.here.number.2 }
  | .string => { t with here := t.here.string.2 }
  | .save => { t with saved := t.saved ++ [t.here] }
  | .back k => { t with here := t.saved.getD k t.here }

/-- One operation after the other, from the beginning of a text. -/
def Tour.through (source : String) (ops : List Op) : Tour :=
  ops.foldl (fun t op => op.run t) { here := start source }

/-- The cursor and all the saved places are in the region. -/
structure Tour.Within (R : Region) (t : Tour) : Prop where
  here : R.holds t.here
  saved : ∀ c ∈ t.saved, R.holds c

section Within

variable {R : Region} {t : Tour}

/-- What was taken, or nothing, leaves the cursor in the region. -/
theorem Tour.Within.taken (h : t.Within R) {step : Option Cursor}
    (hstep : ∀ c, step = some c → R.holds c) : R.holds (step.getD t.here) := by
  cases step with
  | some c => exact hstep c rfl
  | none => exact h.here

/-- **One operation** does not leave a region. -/
theorem Op.run_within (h : t.Within R) (op : Op) : (op.run t).Within R := by
  -- an operation that moves stays in the region
  cases op with
  | advance => exact ⟨R.advance h.here, h.saved⟩
  | accept ch => exact ⟨h.taken fun _ => Region.accept? h.here, h.saved⟩
  | acceptText word => exact ⟨h.taken fun _ => Region.acceptText? h.here, h.saved⟩
  | acceptKeyword word => exact ⟨h.taken fun _ => Region.acceptKeyword? h.here, h.saved⟩
  | skip gap => exact ⟨Region.skip h.here gap, h.saved⟩
  | name =>
    refine ⟨h.taken fun c hc => ?_, h.saved⟩
    obtain ⟨⟨word, c'⟩, hname, rfl⟩ := Option.map_eq_some_iff.mp hc
    exact Region.name? h.here hname
  | number => exact ⟨Region.number h.here, h.saved⟩
  | string => exact ⟨Region.string h.here, h.saved⟩
  -- a place that is kept is one where the reader was
  | save =>
    refine ⟨h.here, fun c hc => ?_⟩
    rcases List.mem_append.mp hc with hc | hc
    · exact h.saved c hc
    · rw [List.mem_singleton.mp hc]
      exact h.here
  | back k =>
    refine ⟨?_, h.saved⟩
    -- going back is going to such a place, or nowhere
    show R.holds (t.saved.getD k t.here)
    rw [List.getD_eq_getElem?_getD]
    exact h.taken fun c hc => h.saved c (List.mem_of_getElem? hc)

/-- No sequence of operations leaves a region. -/
theorem Tour.Within.foldl (h : t.Within R) (ops : List Op) :
    (ops.foldl (fun t op => op.run t) t).Within R := by
  induction ops generalizing t with
  | nil => exact h
  | cons op ops ih => exact ih (op.run_within h)

end Within

end Cursor

/-! ## §4. Every place is true -/

/-- An error that names a place in the text. -/
theorem Error.RaisedIn.position {text : List Char} {line column : Nat} {reason : String}
    (h : (Error.malformed line column reason).RaisedIn (.ofText text)) :
    ∃ offset, offset ≤ text.length ∧ line = lineAt text offset ∧ column = columnAt text offset := by
  obtain ⟨c, ⟨offset, hc⟩, hline, hcolumn⟩ := h.placed line column reason rfl
  exact ⟨offset, hc.offset_le, hline ▸ hc.line, hcolumn ▸ hc.column⟩

/-- **Source positions are true.**  After every sequence of operations on a cursor it stands in the
    text, behind so many characters of it, and its line and column are those of this place.  And if a
    text is refused, as a program or as an expression, with an error that names a line and a column,
    these are the line and the column of a place in the text. -/
theorem source_positions_are_true (source : String) :
    (∀ ops : List Cursor.Op, ∃ offset,
      (Cursor.Tour.through source ops).here.StandsAt source.toList offset) ∧
    (∀ line column reason,
      Program.parse source = .error (.malformed line column reason) ∨
        Expr.parse source = .error (.malformed line column reason) →
      ∃ offset, offset ≤ source.length ∧ line = lineAt source.toList offset ∧
        column = columnAt source.toList offset) := by
  -- the reader begins in the region of the text
  have hstart : (Region.ofText source.toList).holds (Cursor.start source) :=
    ⟨0, Cursor.standsAt_start source⟩
  constructor
  · intro ops
    have hfirst : Cursor.Tour.Within (.ofText source.toList) { here := Cursor.start source } :=
      ⟨hstart, fun _ hnone => by cases hnone⟩
    exact (hfirst.foldl ops).here
  · intro line column reason hrefused
    rw [← String.length_toList]
    -- an error of either reader is at a place of the text
    rcases hrefused with hprogram | hexpr
    · exact (Parser.program_stays.error_of_map hstart hprogram).position
    · exact (Parser.onlyExpr_stays.error_of_map hstart hexpr).position

/-- A string over two lines and a comment before a target that cannot be assigned: the error names the
    place of the sign of assignment, where the reader has not stopped. -/
theorem source_positions_are_true_across_lines :
    let source := "a = \"x\ny\" # b\nb + 1 = 2"
    Program.parse source = .error (.malformed 3 7 "invalid assignment target") ∧
      ∃ offset, offset ≤ source.length ∧ 3 = lineAt source.toList offset ∧
        7 = columnAt source.toList offset := by
  intro source
  have hrefused :
      (((Program.parse source).map fun _ => none).tryCatch fun e => .ok (some e)).toOption =
        some (some (Error.malformed 3 7 "invalid assignment target")) := by
    decide +kernel
  cases hparse : Program.parse source with
  | ok program =>
    rw [hparse] at hrefused
    cases hrefused
  | error e =>
    rw [hparse] at hrefused
    cases hrefused
    exact ⟨rfl, (source_positions_are_true source).2 3 7 _ (.inl hparse)⟩

/-- Backtracking: past the first line end and back. -/
example :
    let t := Cursor.Tour.through "ab\ncd" [.save, .name, .skip .lines, .save, .back 0, .accept 'a']
    t.here = ⟨['b', '\n', 'c', 'd'], 1, 2⟩ ∧ t.saved.map Cursor.line = [1, 2] := by
  decide

end Scriptlet
