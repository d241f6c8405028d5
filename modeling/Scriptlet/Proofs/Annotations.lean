/-
  Scriptlet.Proofs.Annotations — types as scripts write them.

  A type is written by its name, in brackets, or with question marks behind it, and read by another
  recursion: the reader learns only behind the first component of a bracket whether it reads an array
  or a dictionary, and it gathers question marks in a loop once the type before them is complete.  So
  what is read is stated with that loop still to come: whatever the loop makes of a type and the text
  behind it, the reader makes of the written type and that text.

  `any` is the one type without a spelling: its text is a word that names no type.  Hence no annotation
  of an accepted program mentions it, wherever the annotation stands.

  Main results:
    * `Parser.ty_opens` — a written type, with the loop over question marks still to come.
    * `Ty.text_injective` — no two types are written alike.
    * `Parser.ty_written` — what is read with so many levels left.
    * `annotations_read_back` — annotations of declarations, and those of whole programs.
-/
import Scriptlet.Proofs.Declarations

namespace Scriptlet

/-! ## §1. Types that can be written -/

namespace Ty

/-- Whether `any` occurs in the type. -/
def mentionsAny : Ty → Bool
  | .array element => element.mentionsAny
  | .dict key value => key.mentionsAny || value.mentionsAny
  | .optional content => content.mentionsAny
  | .any => true
  | _ => false

/-- How many brackets of the type's text lie around each other. -/
def brackets : Ty → Nat
  | .array element => element.brackets + 1
  | .dict key value => max key.brackets value.brackets + 1
  | .optional content => content.brackets
  | _ => 0

/-- The type can be written where so many brackets may be opened. -/
structure Written (levels : Nat) (type : Ty) : Prop where
  named : type.mentionsAny = false
  shallow : type.brackets ≤ levels

/-- More brackets may always be allowed. -/
theorem Written.mono {m n : Nat} {type : Ty} (h : type.Written m) (hmn : m ≤ n) : type.Written n :=
  ⟨h.named, Nat.le_trans h.shallow hmn⟩

/-- A dictionary opens one bracket around its two parts. -/
theorem written_dict {n : Nat} {key value : Ty} (hkey : key.Written n) (hvalue : value.Written n) :
    (Ty.dict key value).Written (n + 1) := by
  refine ⟨?_, Nat.succ_le_succ (Nat.max_le.mpr ⟨hkey.shallow, hvalue.shallow⟩)⟩
  show (key.mentionsAny || value.mentionsAny) = false
  rw [hkey.named, hvalue.named]
  rfl

/-- A type with a name of its own can be written anywhere. -/
theorem written_of_ofName? {word : String} {type : Ty} (h : ofName? word = some type) (n : Nat) :
    type.Written n := by
  unfold ofName? at h
  split at h <;> cases h <;> exact ⟨rfl, Nat.zero_le n⟩

variable (u : List Char)

theorem text_array_append (element : Ty) :
    (Ty.array element).text.toList ++ u = '[' :: (element.text.toList ++ ']' :: u) := by
  simp [text]

theorem text_dict_append (key value : Ty) : (Ty.dict key value).text.toList ++ u =
    '[' :: (key.text.toList ++ ':' :: ' ' :: (value.text.toList ++ ']' :: u)) := by
  simp [text]

theorem text_optional_append (content : Ty) :
    (Ty.optional content).text.toList ++ u = content.text.toList ++ '?' :: u := by
  simp [text]

end Ty

/-! ## §2. Reading a written type -/

namespace Parser

variable {g : Gap} {u v : List Char} {b : Ty}

/-- A word that names a type, whatever the loop behind it makes of this type. -/
theorem tyLevel_named {deeper : Option (Parser Ty)} {word : String} {type : Ty}
    (hword : isIdentifier word = true) (hname : Ty.ofName? word = some type)
    (hu : ∀ c w, u = c :: w → Text.isNameChar c = false)
    (hloop : Reads (iterate tyLevel.question type) u b v) :
    Reads (tyLevel deeper g) (word.toList ++ u) b v := by
  -- the word stands right behind the gap
  have hbegins : Begins beginsAtom (word.toList ++ u) := (begins_identifier hword).append
  have hpast : past g (word.toList ++ u) = word.toList ++ u := past_begins hbegins.expr
  -- the word is taken as a name, and the name as its type
  have hnamed : Reads (tyLevel.named g) (word.toList ++ u) type u := by
    have hread : Reads (name g "a type name") (word.toList ++ u) word u := by
      refine Reads.gap.bind ?_
      rw [hpast]
      exact nameHere_reads hword hu
    refine hread.bind ?_
    rw [hname]
    exact .pure
  unfold tyLevel
  refine Reads.gap.bind ?_
  rw [hpast, bind_bool]
  -- a word begins with no bracket, so that the reader takes the branch of names
  exact .passing ((begins_name hword).append.head_ne (by decide)) (hnamed.bind hloop)

/-- A type in brackets, whatever the loop behind it makes of this type. -/
theorem tyLevel_bracketed {inner : Parser Ty} {type : Ty} {t : List Char}
    (hinner : Reads (tyLevel.bracketed inner) t type u)
    (hloop : Reads (iterate tyLevel.question type) u b v) :
    Reads (tyLevel (some inner) g) ('[' :: t) b v := by
  have hpast : past g ('[' :: t) = '[' :: t := past_cons (f := (· == '[')) (by decide) (by decide)
  unfold tyLevel
  refine Reads.gap.bind ?_
  rw [hpast, bind_bool]
  exact .accepting (hinner.bind hloop)

/-- The loop ends where no question mark stands. -/
theorem question_none {type : Ty} (hu : u.head? ≠ some '?') :
    Reads (iterate tyLevel.question type) u type u :=
  .iterate_done (.passing hu .pure)

/-- A question mark makes the type before it optional, and the loop goes on. -/
theorem question_some {type : Ty} (h : Reads (iterate tyLevel.question (.optional type)) u b v) :
    Reads (iterate tyLevel.question type) ('?' :: u) b v :=
  .iterate_again (.accepting .pure) (Nat.lt_succ_self u.length) h

theorem skipsBlank_ty (n : Nat) : SkipsBlank (ty n g) := by
  cases n <;> exact SkipsBlank.gap

/-- A type with a name of its own is read by that name. -/
theorem ty_named {type : Ty} (hword : isIdentifier type.text = true)
    (hname : Ty.ofName? type.text = some type) (n : Nat)
    (hu : ∀ c w, u = c :: w → Text.isNameChar c = false)
    (hloop : Reads (iterate tyLevel.question type) u b v) :
    Reads (ty n g) (type.text.toList ++ u) b v := by
  cases n <;> exact tyLevel_named hword hname hu hloop

/-- A mark goes on no word. -/
theorem mark_ends {c : Char} {t : List Char} (h : Text.isNameChar c = false) :
    ∀ d w, c :: t = d :: w → Text.isNameChar d = false := by
  intro d w heq
  cases heq
  exact h

/-- **A written type is read**, whatever the loop behind it makes of this type. -/
theorem ty_opens {type : Ty} {n : Nat} (h : type.Written n)
    (hu : ∀ c w, u = c :: w → Text.isNameChar c = false)
    (hloop : Reads (iterate tyLevel.question type) u b v) :
    Reads (ty n g) (type.text.toList ++ u) b v := by
  -- on the type: components are read with levels to spare, question marks from the innermost outward
  induction type generalizing n g u b v with
  | int => exact ty_named (by decide) rfl n hu hloop
  | float => exact ty_named (by decide) rfl n hu hloop
  | double => exact ty_named (by decide) rfl n hu hloop
  | bool => exact ty_named (by decide) rfl n hu hloop
  | string => exact ty_named (by decide) rfl n hu hloop
  | any => cases h.named
  | optional content ih =>
    rw [Ty.text_optional_append]
    exact ih ⟨h.named, h.shallow⟩ (mark_ends (by decide)) (question_some hloop)
  | array element ih =>
    have hlevels : element.brackets + 1 ≤ n := h.shallow
    obtain ⟨m, rfl⟩ : ∃ m, n = m + 1 := ⟨n - 1, by omega⟩
    have helement : Reads (ty m .lines) (element.text.toList ++ ']' :: u) element (']' :: u) :=
      ih ⟨h.named, by omega⟩ (mark_ends (by decide)) (question_none (by simp))
    have hinner : Reads (tyLevel.bracketed (ty m .lines)) (element.text.toList ++ ']' :: u)
        (.array element) u := by
      refine helement.bind (Reads.gap.bind ?_)
      rw [past_closing (by decide)]
      -- no colon behind the first component: an array
      refine .passingOther (by decide) ?_
      exact (Reads.expect (past_closing (by decide))).bind .pure
    rw [Ty.text_array_append]
    exact tyLevel_bracketed hinner hloop
  | dict key value ihkey ihvalue =>
    have hlevels : max key.brackets value.brackets + 1 ≤ n := h.shallow
    obtain ⟨m, rfl⟩ : ∃ m, n = m + 1 := ⟨n - 1, by omega⟩
    obtain ⟨hnokey, hnovalue⟩ : key.mentionsAny = false ∧ value.mentionsAny = false :=
      Bool.or_eq_false_iff.mp h.named
    have hkey : Reads (ty m .lines)
        (key.text.toList ++ ':' :: ' ' :: (value.text.toList ++ ']' :: u)) key
        (':' :: ' ' :: (value.text.toList ++ ']' :: u)) :=
      ihkey ⟨hnokey, by omega⟩ (mark_ends (by decide)) (question_none (by simp))
    have hvalue : Reads (ty m .lines) (value.text.toList ++ ']' :: u) value (']' :: u) :=
      ihvalue ⟨hnovalue, by omega⟩ (mark_ends (by decide)) (question_none (by simp))
    have hinner : Reads (tyLevel.bracketed (ty m .lines))
        (key.text.toList ++ ':' :: ' ' :: (value.text.toList ++ ']' :: u)) (.dict key value) u := by
      refine hkey.bind (Reads.gap.bind ?_)
      rw [past_closing (by decide)]
      refine .accepting (((skipsBlank_ty m).reads hvalue).bind ?_)
      exact (Reads.expect (past_closing (by decide))).bind .pure
    rw [Ty.text_dict_append]
    exact tyLevel_bracketed hinner hloop

/-- A written type is read up to what cannot belong to it. -/
theorem ty_reads {type : Ty} {n : Nat} (h : type.Written n)
    (hu : ∀ c w, u = c :: w → Text.isNameChar c = false) (hmark : u.head? ≠ some '?') :
    Reads (ty n g) (type.text.toList ++ u) type u :=
  ty_opens h hu (question_none hmark)

end Parser

/-- **No two types are written alike**, but for those with `any` in them. -/
theorem Ty.text_injective {type type' : Ty} (h : type.mentionsAny = false)
    (h' : type'.mentionsAny = false) (htext : type.text = type'.text) : type = type' := by
  -- with levels enough for both, one text cannot be read as two types
  have hread : Parser.Reads (Parser.ty (max type.brackets type'.brackets) .inline)
      (type.text.toList ++ []) type [] :=
    Parser.ty_reads ⟨h, Nat.le_max_left _ _⟩ (fun _ _ hnil => by cases hnil) (by simp)
  have hread' : Parser.Reads (Parser.ty (max type.brackets type'.brackets) .inline)
      (type'.text.toList ++ []) type' [] :=
    Parser.ty_reads ⟨h', Nat.le_max_right _ _⟩ (fun _ _ hnil => by cases hnil) (by simp)
  rw [← htext] at hread'
  obtain ⟨c, hrun, -⟩ := hread ⟨type.text.toList ++ [], 1, 1⟩ rfl
  obtain ⟨c', hrun', -⟩ := hread' ⟨type.text.toList ++ [], 1, 1⟩ rfl
  rw [hrun] at hrun'
  exact congrArg Prod.fst (Except.ok.inj hrun')

/-! ## §3. A declaration with an annotation -/

namespace Parser

variable {t u : List Char}

/-- A statement that begins with `let`. -/
theorem statement_let {levels : Nat} {p : Parser (List Stmt)} {s : Stmt}
    (h : Reads (declaration levels false) (' ' :: t) s u) :
    Reads (statement levels p) ('l' :: 'e' :: 't' :: ' ' :: t) s u := by
  unfold statement
  refine Reads.gap.bind ?_
  refine .noKeyword ['f', 'u', 'n', 'c'] rfl rfl ?_
  refine .noKeyword ['f', 'n'] rfl rfl ?_
  refine .noKeyword ['r', 'e', 't', 'u', 'r', 'n'] rfl rfl ?_
  exact .keyword ['l', 'e', 't'] rfl rfl h

/-- The value `nil` at the end of a text. -/
theorem expr_nil (levels : Nat) : Reads (expr levels .inline) [' ', 'n', 'i', 'l'] .nil [] := by
  have hlegible : Expr.isLegible .nil = true := Expr.isLegible_iff.mpr ⟨rfl, fun _ hp => by cases hp⟩
  have hback : ReadsBack false .nil := .of_isLegible hlegible
  obtain ⟨u, hread, -, hlength⟩ := hback.level 6 (by omega) levels .inline [] (Nat.zero_le _) .nothing
  obtain rfl : u = [] := List.length_eq_zero_iff.mp (Nat.le_zero.mp hlength)
  exact skipsBlank_exprOf.reads hread

/-- A declaration behind its keyword, with any type that can be written. -/
theorem declaration_annotated {type : Ty} {levels : Nat} (h : type.Written levels) :
    Reads (declaration levels false)
      (' ' :: 'x' :: ':' :: ' ' :: (type.text.toList ++ [' ', '=', ' ', 'n', 'i', 'l']))
      (.declare "x" (some type) .nil false) [] := by
  -- the name, up to the colon
  have hname : Reads (nameHere "a variable name")
      ("x".toList ++ ':' :: ' ' :: (type.text.toList ++ [' ', '=', ' ', 'n', 'i', 'l'])) "x"
      (':' :: ' ' :: (type.text.toList ++ [' ', '=', ' ', 'n', 'i', 'l'])) :=
    nameHere_reads (by decide) (mark_ends (by decide))
  -- the type, up to the blank before the equals sign
  have htype : Reads (ty levels .inline)
      (' ' :: (type.text.toList ++ [' ', '=', ' ', 'n', 'i', 'l'])) type
      [' ', '=', ' ', 'n', 'i', 'l'] :=
    (skipsBlank_ty levels).reads (ty_reads h (mark_ends (by decide)) (by simp))
  have hannotated : Reads (some <$> ty levels .inline)
      (' ' :: (type.text.toList ++ [' ', '=', ' ', 'n', 'i', 'l'])) (some type)
      [' ', '=', ' ', 'n', 'i', 'l'] :=
    htype.bind (f := fun type => pure (some type)) .pure
  -- the rest is the equals sign and the value
  unfold declaration
  refine (Reads.gap.bind hname).bind (Reads.gap.bind (.accepting (hannotated.bind ?_)))
  exact (Reads.expect rfl).bind ((expr_nil levels).bind .pure)

end Parser

/-- **A declaration with a written type is read as one**, with exactly this type. -/
theorem Program.parse_annotated {type : Ty} (h : type.Written maxNesting) :
    Program.parse ("let x: " ++ type.text ++ " = nil") =
      .ok [.declare "x" (some type) .nil false] := by
  have hsource : ("let x: " ++ type.text ++ " = nil").toList = 'l' :: 'e' :: 't' :: ' ' :: 'x' ::
      ':' :: ' ' :: (type.text.toList ++ [' ', '=', ' ', 'n', 'i', 'l']) := by
    simp
  have hin : false = true ↔ ([] : List Char) ≠ [] := by simp
  obtain ⟨c, hrun, -⟩ := Parser.statements_one rfl (by decide) (.inl rfl) hin (Nat.zero_le _)
    (Parser.statement_let (Parser.declaration_annotated h))
    (Cursor.start ("let x: " ++ type.text ++ " = nil")) hsource
  show (Parser.statements false _ _).map Prod.fst = _
  rw [hrun]
  rfl

/-! ## §4. The annotations of a program -/

/-- The types that stand in the statement itself. -/
def Stmt.annotations : Stmt → List Ty
  | .declare _ type _ _ => type.toList
  | .func _ params returns _ => returns :: params.map Param.type
  | _ => []

namespace Parser

/-- A bracket around types that can be written takes one more level. -/
theorem bracketed_written {inner : Parser Ty} {n : Nat} (h : inner.Yields (Ty.Written n)) :
    (tyLevel.bracketed inner).Yields (Ty.Written (n + 1)) := by
  refine .bind h fun first hfirst => .after fun _ => .taking ?_ ?_
  · refine .bind h fun value hvalue => .after fun _ => ?_
    exact .pure (Ty.written_dict hfirst hvalue)
  · exact .after fun _ => .pure ⟨hfirst.named, Nat.succ_le_succ hfirst.shallow⟩

/-- A name stands for a type that can be written anywhere. -/
theorem named_written (g : Gap) (n : Nat) : (tyLevel.named g).Yields (Ty.Written n) := by
  refine .after fun word => ?_
  cases hname : Ty.ofName? word with
  | some type => exact .pure (Ty.written_of_ofName? hname n)
  | none => exact .throw _

/-- Question marks open no brackets. -/
theorem question_written {n : Nat} {type : Ty} (h : type.Written n) :
    Yields (iterate tyLevel.question type) (Ty.Written n) := by
  -- a question mark opens no bracket
  refine iterate_yields (I := Ty.Written n) (fun content hcontent => ?_) h
  exact .taking (.pure ⟨hcontent.named, hcontent.shallow⟩) (.pure hcontent)

/-- **What is read with so many levels left** mentions no `any` and opens at most so many brackets. -/
theorem ty_written (n : Nat) (g : Gap) : (ty n g).Yields (Ty.Written n) := by
  induction n generalizing g with
  | zero =>
    refine .after fun _ => .taking ?_ ?_
    · exact .bind (P := Ty.Written 0) (.after fun _ => .throw _) fun base hbase =>
        question_written hbase
    · exact .bind (named_written g 0) fun base hbase => question_written hbase
  | succ n ih =>
    refine .after fun _ => .taking ?_ ?_
    · exact .bind (bracketed_written (ih .lines)) fun base hbase => question_written hbase
    · exact .bind (named_written g (n + 1)) fun base hbase => question_written hbase

/-- The annotation of a declaration is one that can be written with the levels left. -/
theorem declaration_written (levels : Nat) (constant : Bool) : (declaration levels constant).Yields
    fun s => ∀ type ∈ s.annotations, type.Written levels := by
  have hmade : ∀ name type, (∀ T ∈ Option.toList type, T.Written levels) →
      (expect .inline '=' >>= fun _ => expr levels .inline >>= fun value =>
        (pure (.declare name type value constant) : Parser Stmt)).Yields
          fun s => ∀ type ∈ s.annotations, type.Written levels :=
    fun name type htype => .after fun _ => .after fun value => .pure htype
  refine .after fun name => .after fun _ => .taking ?_ ?_
  · refine .bind (P := fun type => ∀ T ∈ Option.toList type, T.Written levels) ?_
      fun type htype => hmade name type htype
    exact .bind (f := fun type => pure (some type)) (ty_written levels .inline) fun type htype =>
      .pure (List.forall_mem_singleton.mpr htype)
  · exact hmade name none (fun _ hnone => by cases hnone)

/-- So is the type of a parameter. -/
theorem param_written (levels : Nat) (before : List Param) :
    (param levels before).Yields fun p => p.type.Written levels := by
  refine .after fun name => .after fun _ => .bind (ty_written levels .lines) fun type htype => ?_
  have hmade : ∀ default,
      (if (default.isNone && before.any fun p => p.default.isSome) = true then
        fail ("parameter '" ++ name ++ "' without a default follows a defaulted parameter")
      else pure ({ name, type, default } : Param) : Parser Param).Yields fun p =>
        p.type.Written levels := by
    intro default
    split
    · exact .after fun _ => .throw _
    · exact .pure htype
  exact .after fun _ => .taking (.after fun default => hmade default) (hmade none)

/-- So are the types of all parameters. -/
theorem params_written (levels : Nat) :
    (params levels).Yields fun ps => ∀ p ∈ ps, p.type.Written levels := by
  refine .after fun _ => .taking (.pure fun _ hnone => by cases hnone) ?_
  refine iterate_yields (I := fun before => ∀ p ∈ before, p.type.Written levels)
    (fun before hbefore => ?_) (fun _ hnone => by cases hnone)
  refine .bind (param_written levels before) fun p hp => .after fun _ => ?_
  have hall : ∀ q ∈ p :: before, q.type.Written levels := List.forall_mem_cons.mpr ⟨hp, hbefore⟩
  exact .taking (.pure fun q hq => hall q (List.mem_reverse.mp hq)) (.after fun _ => .pure hall)

/-- All types of a function can be written with the levels left. -/
theorem function_written (levels : Nat) (block : Parser (List Stmt)) :
    (function levels block).Yields fun s => ∀ type ∈ s.annotations, type.Written levels := by
  -- the parameters are read one level down
  have hparams : (descend levels params).Yields fun ps => ∀ p ∈ ps, p.type.Written levels := by
    cases levels with
    | zero => exact .after fun _ => .throw _
    | succ n =>
      intro c ps c' hrun p hp
      exact (params_written n c ps c' hrun p hp).mono (Nat.le_succ n)
  refine .after fun name => .after fun _ => .bind hparams fun params hparams => ?_
  -- the result and the body, which both branches read
  have hmade : (ty levels .inline >>= fun returns => block >>= fun body =>
      (pure (.func name params returns body) : Parser Stmt)).Yields
        fun s => ∀ type ∈ s.annotations, type.Written levels := by
    refine .bind (ty_written levels .inline) fun returns hreturns => .after fun body => ?_
    exact .pure (List.forall_mem_cons.mpr ⟨hreturns, List.forall_mem_map.mpr hparams⟩)
  exact .after fun _ => .taking hmade (.after fun _ => hmade)

/-- Every statement, wherever it is read, has types that can be written. -/
theorem ensures_written : Ensures fun s => ∀ type ∈ s.annotations, type.Written maxNesting where
  declaration constant hlevels c s c' hrun type htype :=
    (declaration_written _ constant c s c' hrun type htype).mono hlevels
  function block hlevels c s c' hrun type htype :=
    (function_written _ block c s c' hrun type htype).mono hlevels
  other {s} hs type htype := by
    cases s with
    | declare | func => cases hs
    | _ => cases htype

end Parser

/-- **Annotations read back.**  A declaration with the text of a type is read as one with exactly this
    type if and only if the type does not mention `any` and opens no more than `maxNesting` brackets;
    types that do not mention `any` are written alike only if they are the same; and in every program
    that is read, no annotation, at any depth, mentions `any` or opens more brackets. -/
theorem annotations_read_back :
    (∀ type : Ty, Program.parse ("let x: " ++ type.text ++ " = nil") =
        .ok [.declare "x" (some type) .nil false] ↔
      type.mentionsAny = false ∧ type.brackets ≤ maxNesting) ∧
    (∀ type type' : Ty, type.mentionsAny = false → type'.mentionsAny = false →
      type.text = type'.text → type = type') ∧
    (∀ source program, Program.parse source = .ok program → ∀ s : Stmt, s.StandsIn program →
      ∀ type ∈ s.annotations, type.mentionsAny = false ∧ type.brackets ≤ maxNesting) := by
  have hprogram : ∀ source program, Program.parse source = .ok program →
      ∀ s : Stmt, s.StandsIn program →
      ∀ type ∈ s.annotations, type.mentionsAny = false ∧ type.brackets ≤ maxNesting := by
    intro source program hparse s hs type htype
    have hwritten := Program.parse_every Parser.ensures_written hparse s hs type htype
    exact ⟨hwritten.named, hwritten.shallow⟩
  refine ⟨fun type => ⟨fun hparse => ?_, fun h => ?_⟩, ?_, hprogram⟩
  · -- what a program is annotated with can be written
    exact hprogram _ _ hparse _ (.here List.mem_cons_self) type List.mem_cons_self
  · exact Program.parse_annotated ⟨h.1, h.2⟩
  · exact fun type type' h h' htext => Ty.text_injective h h' htext

/-- Question marks at three levels of one type, two types that differ in the place of one, and an
    annotation inside a function. -/
theorem annotations_read_back_nested :
    let type : Ty := .optional (.dict (.array .string) (.optional (.optional (.array (.optional .int)))))
    let inner : Stmt := .declare "y" (some (.optional .bool)) .nil false
    type.text = "[[String]: [Int?]??]?" ∧ type.mentionsAny = false ∧ type.brackets ≤ maxNesting ∧
      Program.parse ("let x: " ++ type.text ++ " = nil") =
        .ok [.declare "x" (some type) .nil false] ∧
      (Ty.array (.optional .int)).text ≠ (Ty.optional (.array .int)).text ∧
      Program.parse "func f(a: Int?) -> [Int] \x7b let y: Bool? = nil \x7d" =
        .ok [.func "f" [⟨"a", .optional .int, none⟩] (.array .int) [inner]] ∧
      ∀ type ∈ inner.annotations, type.mentionsAny = false ∧ type.brackets ≤ maxNesting := by
  intro type inner
  obtain ⟨hread, hinjective, hprogram⟩ := annotations_read_back
  have hparse : Program.parse "func f(a: Int?) -> [Int] \x7b let y: Bool? = nil \x7d" =
      .ok [.func "f" [⟨"a", .optional .int, none⟩] (.array .int) [inner]] := by
    with_unfolding_all rfl
  refine ⟨by decide, rfl, by decide, (hread type).mpr ⟨rfl, by decide⟩, fun htext => ?_, hparse, ?_⟩
  · cases hinjective (.array (.optional .int)) (.optional (.array .int)) rfl rfl htext
  · exact hprogram _ _ hparse inner (.inside List.mem_cons_self List.mem_cons_self
      (.here List.mem_cons_self))

end Scriptlet
