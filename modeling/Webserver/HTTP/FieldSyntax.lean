import Webserver.HTTP.Acceptance

/-! # Header fields of the standard

Header fields as the HTTP standard lets them be written: optional white space
after the colon and before every line end, tabs for spaces, and values folded
over several lines. The automaton takes the white space of such a field for part
of its value or refuses it, so a head is read as the standard defines it exactly
when it is written with one space wherever the standard leaves a choice.
-/

namespace Webserver.HTTP.Grammar

open Foundation Schema HTTPParser Incremental

variable {env : Externals}

/-! ## Written fields -/

/-- Visible ASCII. -/
def VisibleByte (input : UInt8) : Prop := 33 ≤ input.toNat ∧ input.toNat ≤ 126

instance : DecidablePred VisibleByte := fun _ => inferInstanceAs (Decidable (_ ∧ _))

theorem VisibleByte.field {input : UInt8} (visible : VisibleByte input) : FieldByte input := by
  intro control
  unfold CtlByte at control
  unfold VisibleByte at visible
  omega

theorem VisibleByte.not_blank {input : UInt8} (visible : VisibleByte input) :
    ¬ BlankByte input := by
  intro blank
  rcases blank with rfl | rfl <;> revert visible <;> decide

/-- A fold: white space, a line end and the blanks that open the next line, for
one space of the value; then white space of the value itself. -/
structure Fold where
  before : Text BlankByte
  blank : Text1 BlankByte
  inner : Text BlankByte

/-- White space inside a value, with the folds in it. -/
structure Gap where
  inner : Text BlankByte
  folds : List Fold

/-- A value: words of visible bytes with gaps between them, and the optional
white space after it. -/
structure WrittenValue where
  first : Text1 VisibleByte
  pieces : List (Gap × Text1 VisibleByte)
  behind : Text BlankByte

/-- A header field as it is written. An empty value has nothing but optional
white space between the colon and the line end. -/
structure WrittenField where
  name : Text1 TokenByte
  afterColon : Text BlankByte
  value : Option WrittenValue

def Fold.bytes (fold : Fold) : Bytes :=
  fold.before.bytes ++ (CRLF ++ (fold.blank.bytes ++ fold.inner.bytes))

namespace Gap

def bytes (gap : Gap) : Bytes := gap.inner.bytes ++ gap.folds.flatMap Fold.bytes

/-- The white space of the value that a list of folds stands for. -/
def foldsMeaning (folds : List Fold) : Bytes :=
  folds.flatMap (fun fold => SP :: fold.inner.bytes)

/-- The white space of the value that a gap stands for. -/
def meaning (gap : Gap) : Bytes := gap.inner.bytes ++ foldsMeaning gap.folds

end Gap

namespace WrittenValue

def bytes (value : WrittenValue) : Bytes :=
  value.first.bytes ++
    (value.pieces.flatMap (fun piece => piece.1.bytes ++ piece.2.bytes) ++ value.behind.bytes)

/-- The value without the optional white space and with a space for every fold. -/
def meaning (value : WrittenValue) : Bytes :=
  value.first.bytes ++ value.pieces.flatMap (fun piece => piece.1.meaning ++ piece.2.bytes)

end WrittenValue

namespace WrittenField

def bytes (field : WrittenField) : Bytes :=
  field.name.bytes ++ byte ':' ::
    (field.afterColon.bytes ++ (field.value.elim [] WrittenValue.bytes ++ CRLF))

/-- The field as the standard defines it. -/
def header (field : WrittenField) : HTTPHeader :=
  (field.name.bytes, field.value.elim [] WrittenValue.meaning)

end WrittenField

/-- A request line, written fields and the empty line. -/
def writtenHead (line : RequestLine) (fields : List WrittenField) : Bytes :=
  line.bytes ++ (fields.flatMap WrittenField.bytes ++ CRLF)

/-- The head is accepted, and the fields are collected as the standard defines
them. -/
def ReadsAsWritten (env : Externals) (line : RequestLine) (fields : List WrittenField) : Prop :=
  ∃ data, (run (parseStep env) {} (writtenHead line fields) = .more ⟨data, .body⟩ ∨
      run (parseStep env) {} (writtenHead line fields) = .done .good ⟨data, .body⟩ []) ∧
    data.headers = fields.map WrittenField.header

/-! ## The white space that is read as meant -/

/-- A gap without tabs, in which the white space before the first line end is what
the folds stand for. -/
def Gap.Spaced (gap : Gap) : Prop :=
  HT ∉ gap.meaning ∧
    ∀ first ∈ gap.folds.head?, first.before.bytes = Gap.foldsMeaning gap.folds

/-- Nothing follows the value on its last line. -/
def WrittenValue.Spaced (value : WrittenValue) : Prop :=
  (∀ piece ∈ value.pieces, piece.1.Spaced) ∧ value.behind.bytes = []

/-- One space follows the colon. -/
def WrittenField.Spaced (field : WrittenField) : Prop :=
  field.afterColon.bytes = [SP] ∧ ∀ value ∈ field.value, value.Spaced

/-! ## How a field is read -/

/-- The white space of a gap that the automaton keeps: that up to the first line
end. -/
def Gap.kept (gap : Gap) : Bytes :=
  gap.inner.bytes ++ gap.folds.head?.elim [] (fun fold => fold.before.bytes)

def WrittenValue.kept (value : WrittenValue) : Bytes :=
  value.first.bytes ++
    (value.pieces.flatMap (fun piece => piece.1.kept ++ piece.2.bytes) ++ value.behind.bytes)

/-- A value without tabs in what is kept. -/
def WrittenValue.Readable (value : WrittenValue) : Prop :=
  (∀ piece ∈ value.pieces, HT ∉ piece.1.kept) ∧ HT ∉ value.behind.bytes

section Values

variable (base : Data) (front : List HTTPHeader) (name value : Bytes)

/-- The parser in a state of a header value, with the value read so far. -/
def inValue (state : ParserState) : HTTPParser := holding base (front ++ [(name, value)]) state

/-- Spaces in a value are kept; a tab is refused. -/
theorem decided_blank (blank : Text BlankByte) :
    Decided .bad (run (parseStep env) (inValue base front name value .headerValue) blank.bytes)
      (HT ∉ blank.bytes) (inValue base front name (value ++ blank.bytes) .headerValue) := by
  have spaces {part : Bytes} (blanks : ∀ input ∈ part, BlankByte input) (tabless : HT ∉ part) :
      run (parseStep env) (inValue base front name value .headerValue) part =
        .more (inValue base front name (value ++ part) .headerValue) := by
    have fields : ∀ input ∈ part, FieldByte input := by
      intro input member
      rcases blanks input member with rfl | rfl
      · decide
      · exact (tabless member).elim
    exact run_text base front (name, value) ⟨part, fields⟩
  refine ⟨spaces blank.members, ?_⟩
  intro tabbed
  obtain ⟨before, after, split, tabless⟩ := List.eq_append_cons_of_mem (not_not.mp tabbed)
  have blanks : ∀ input ∈ before, BlankByte input :=
    fun input member => blank.members input (by simp [split, member])
  have refused : parseStep env (inValue base front name (value ++ before) .headerValue) HT =
      .done .bad (inValue base front name (value ++ before) .headerValue) := by
    rw [inValue, holding, parseStep_headerValue, if_neg (by decide), if_pos (by decide)]
  rw [split, run_append_of_more _ (spaces blanks tabless), run_cons_done _ refused]
  exact ⟨_, _, rfl⟩

/-- White space at the start of a continuation line is skipped. -/
theorem run_skip (blank : Text BlankByte) :
    run (parseStep env) (inValue base front name value .headerLws) blank.bytes =
      .more (inValue base front name value .headerLws) := by
  refine run_accumulate BlankByte (fun _ => inValue base front name value .headerLws) ?_ []
    blank.members
  intro read symbol member
  have notCR : symbol ≠ CR := by rcases member with rfl | rfl <;> decide
  rw [inValue, holding, parseStep_headerLws, if_neg notCR, if_pos member]

/-- The line end of a fold and what it opens the next line with. -/
theorem run_lineFold (fold : Fold) {state : ParserState}
    (ends : state = .headerLws ∨ state = .headerValue) :
    run (parseStep env) (inValue base front name value state)
        (CRLF ++ (fold.blank.bytes ++ fold.inner.bytes)) =
      .more (inValue base front name value .headerLws) := by
  rw [inValue, run_append_of_more _ (run_lineEnd base _ ends),
    run_append_of_more _ (run_blank base front (name, value) fold.blank)]
  exact run_skip base front name value fold.inner

/-- Further folds of a gap are skipped as a whole. -/
theorem run_laterFolds (folds : List Fold) :
    run (parseStep env) (inValue base front name value .headerLws) (folds.flatMap Fold.bytes) =
      .more (inValue base front name value .headerLws) := by
  induction folds with
  | nil => rfl
  | cons fold folds ih =>
      rw [List.flatMap_cons, Fold.bytes, List.append_assoc,
        run_append_of_more _ (run_skip base front name value fold.before),
        run_append_of_more _ (run_lineFold base front name value fold (Or.inl rfl)), ih]

/-- A gap: the white space up to the first line end is kept. -/
theorem decided_gap (gap : Gap) :
    ∃ state, (state = .headerLws ∨ state = .headerValue) ∧
      Decided .bad (run (parseStep env) (inValue base front name value .headerValue) gap.bytes)
        (HT ∉ gap.kept) (inValue base front name (value ++ gap.kept) state) := by
  have inner := @decided_blank env base front name value gap.inner
  rw [Gap.bytes, Gap.kept]
  cases gap.folds with
  | nil => exact ⟨.headerValue, Or.inr rfl, by simpa using inner⟩
  | cons fold folds =>
      refine ⟨.headerLws, Or.inl rfl, ?_⟩
      have before := @decided_blank env base front name (value ++ gap.inner.bytes) fold.before
      have rest : run (parseStep env)
          (inValue base front name (value ++ gap.inner.bytes ++ fold.before.bytes) .headerValue)
          (CRLF ++ (fold.blank.bytes ++ fold.inner.bytes) ++ folds.flatMap Fold.bytes) =
          .more (inValue base front name (value ++ gap.inner.bytes ++ fold.before.bytes)
            .headerLws) := by
        rw [run_append_of_more _ (run_lineFold base front name _ fold (Or.inr rfl)),
          run_laterFolds]
      have whole := inner.append (before.append (Decided.of_more rest))
      simpa [Fold.bytes, List.mem_append, not_or] using whole

/-- A word goes on with the value, or begins its text on a continuation line. -/
theorem run_word (word : Text1 VisibleByte) {state : ParserState}
    (inside : state = .headerLws ∨ state = .headerValue) :
    run (parseStep env) (inValue base front name value state) word.bytes =
      .more (inValue base front name (value ++ word.bytes) .headerValue) := by
  have fields : ∀ input ∈ word.bytes, FieldByte input :=
    fun input member => (word.members input member).field
  rcases inside with rfl | rfl
  · obtain ⟨first, rest, shape, visible, -⟩ := word.exists_cons
    have turn : parseStep env (inValue base front name value .headerLws) first =
        .more (inValue base front name (value ++ [first]) .headerValue) := by
      rw [inValue, holding, parseStep_headerLws, if_neg visible.field.ne.1,
        if_neg visible.not_blank, if_neg visible.field]
      simp [inValue, holding]
    have later := @run_text env base front (name, value ++ [first])
      ⟨rest, fun input member => fields input (by simp [shape, member])⟩
    rw [shape, run_cons_more rest turn]
    simpa [inValue] using later
  · exact run_text base front (name, value) ⟨word.bytes, fields⟩

theorem decided_pieces (pieces : List (Gap × Text1 VisibleByte)) :
    Decided .bad (run (parseStep env) (inValue base front name value .headerValue)
        (pieces.flatMap (fun piece => piece.1.bytes ++ piece.2.bytes)))
      (∀ piece ∈ pieces, HT ∉ piece.1.kept)
      (inValue base front name
        (value ++ pieces.flatMap (fun piece => piece.1.kept ++ piece.2.bytes)) .headerValue) := by
  induction pieces generalizing value with
  | nil => exact ⟨fun _ => by simp, fun never => (never (by simp)).elim⟩
  | cons piece pieces ih =>
      obtain ⟨state, inside, gap⟩ := @decided_gap env base front name value piece.1
      have word := @run_word env base front name (value ++ piece.1.kept) piece.2 state inside
      have whole := gap.append ((Decided.of_more word).append (ih _))
      simpa [List.append_assoc] using whole

/-- A value with the white space after it. -/
theorem decided_value (written : WrittenValue) :
    Decided .bad (run (parseStep env) (inValue base front name value .headerValue) written.bytes)
      written.Readable (inValue base front name (value ++ written.kept) .headerValue) := by
  have word := @run_word env base front name value written.first .headerValue (Or.inr rfl)
  have pieces := @decided_pieces env base front name (value ++ written.first.bytes) written.pieces
  have behind := @decided_blank env base front name
    (value ++ written.first.bytes ++
      written.pieces.flatMap (fun piece => piece.1.kept ++ piece.2.bytes)) written.behind
  have whole := (Decided.of_more word).append (pieces.append behind)
  simpa [WrittenValue.bytes, WrittenValue.kept, WrittenValue.Readable] using whole

/-- The white space after a colon: the first space is dropped, further ones are
taken for part of the value, and anything else in front of the value is refused. -/
theorem decided_afterColon (blank : Text BlankByte) {later : Bytes} {further : Prop}
    {last : HTTPParser} (nonempty : later ≠ []) (opens : ∀ next ∈ later.head?, next ≠ SP)
    (rest : Decided .bad (run (parseStep env)
      (inValue base front name (value ++ blank.bytes.tail) .headerValue) later) further last) :
    Decided .bad (run (parseStep env) (inValue base front name value .spaceBeforeHeaderValue)
        (blank.bytes ++ later))
      (blank.bytes.head? = some SP ∧ HT ∉ blank.bytes ∧ further) last := by
  have refused {input : UInt8} (other : input ≠ SP) :
      parseStep env (inValue base front name value .spaceBeforeHeaderValue) input =
        .done .bad (inValue base front name value .spaceBeforeHeaderValue) := if_neg other
  obtain ⟨bytes, members⟩ := blank
  cases bytes with
  | nil =>
      cases later with
      | nil => exact (nonempty rfl).elim
      | cons next later =>
          refine ⟨fun spaced => by simp at spaced, fun _ => ?_⟩
          have stop := refused (opens next (by simp))
          exact ⟨_, later, run_cons_done later stop⟩
  | cons first bytes =>
      by_cases space : first = SP
      · subst space
        have turn : parseStep env (inValue base front name value .spaceBeforeHeaderValue) SP =
            .more (inValue base front name value .headerValue) := rfl
        have tab : ¬ HT = SP := by decide
        have blanks := @decided_blank env base front name value
          ⟨bytes, fun input member => members input (List.mem_cons_of_mem SP member)⟩
        have whole := blanks.append rest
        change Decided _ (run _ _ (SP :: (bytes ++ later))) _ _
        rw [run_cons_more _ turn]
        simpa [tab] using whole
      · refine ⟨fun spaced => (space (by simpa using spaced.1)).elim, fun _ => ?_⟩
        exact ⟨_, bytes ++ later, run_cons_done _ (refused space)⟩

end Values

/-- A field the automaton reads: a space follows the colon, and nothing that is kept
is a tab. -/
def WrittenField.Readable (field : WrittenField) : Prop :=
  field.afterColon.bytes.head? = some SP ∧ HT ∉ field.afterColon.bytes ∧
    ∀ value ∈ field.value, value.Readable

/-- The field as the automaton collects it. -/
def WrittenField.collected (field : WrittenField) : HTTPHeader :=
  (field.name.bytes, field.afterColon.bytes.tail ++ field.value.elim [] WrittenValue.kept)

theorem decided_field (base : Data) (front : List HTTPHeader) (field : WrittenField) :
    Decided .bad (run (parseStep env) (holding base front .headerLineStart) field.bytes)
      field.Readable (holding base (front ++ [field.collected]) .headerLineStart) := by
  obtain ⟨name, blank, value⟩ := field
  have colon : run (parseStep env) (holding base front .headerLineStart)
      (name.bytes ++ [byte ':']) = .more (inValue base front name.bytes []
        .spaceBeforeHeaderValue) := by
    rw [run_append_of_more _ (run_name base front name)]
    rfl
  have split : WrittenField.bytes ⟨name, blank, value⟩ = name.bytes ++ [byte ':'] ++
      (blank.bytes ++ (value.elim [] WrittenValue.bytes ++ CRLF)) := by
    simp [WrittenField.bytes]
  have lineEnd (text : Bytes) : run (parseStep env) (inValue base front name.bytes text
      .headerValue) CRLF = .more (holding base (front ++ [(name.bytes, text)]) .headerLineStart) :=
    run_lineEnd base _ (Or.inr rfl)
  rw [split]
  cases value with
  | none =>
      have rest := decided_afterColon base front name.bytes [] blank (List.cons_ne_nil CR [LF])
        (by simp; decide) (Decided.of_more (lineEnd blank.bytes.tail))
      have whole := (Decided.of_more colon).append rest
      simpa [WrittenField.Readable, WrittenField.collected, CRLF] using whole
  | some written =>
      have value := @decided_value env base front name.bytes blank.bytes.tail written
      have rest := value.append (Decided.of_more (lineEnd _))
      have visible : ∀ next ∈ (written.bytes ++ CRLF).head?, next ≠ SP := by
        obtain ⟨first, tail, shape, visible, -⟩ := written.first.exists_cons
        intro next present
        rw [WrittenValue.bytes, shape] at present
        cases present
        rintro rfl
        exact absurd visible (by decide)
      have whole := (Decided.of_more colon).append
        (decided_afterColon base front name.bytes [] blank (by simp [CRLF]) visible rest)
      simpa [WrittenField.Readable, WrittenField.collected] using whole

theorem decided_fields (base : Data) (front : List HTTPHeader) (fields : List WrittenField) :
    Decided .bad (run (parseStep env) (holding base front .headerLineStart)
        (fields.flatMap WrittenField.bytes))
      (∀ field ∈ fields, field.Readable)
      (holding base (front ++ fields.map WrittenField.collected) .headerLineStart) := by
  induction fields generalizing front with
  | nil => exact ⟨fun _ => by simp, fun never => (never (by simp)).elim⟩
  | cons field fields ih =>
      have whole := (@decided_field env base front field).append (ih _)
      simpa using whole

/-! ## What is read is what is meant -/

/-- White space in front of texts that begin with none is the same if the whole is. -/
theorem blank_append_inj {blank other text otherText : Bytes}
    (blanks : ∀ input ∈ blank, BlankByte input) (others : ∀ input ∈ other, BlankByte input)
    (opens : ∀ next ∈ text.head?, ¬ BlankByte next)
    (otherOpens : ∀ next ∈ otherText.head?, ¬ BlankByte next)
    (same : blank ++ text = other ++ otherText) : blank = other ∧ text = otherText := by
  have taken {front rest : Bytes} (members : ∀ input ∈ front, BlankByte input)
      (ended : ∀ next ∈ rest.head?, ¬ BlankByte next) :
      (front ++ rest).takeWhile (fun input => decide (BlankByte input)) = front := by
    rw [List.takeWhile_append_of_pos (by simpa using members)]
    cases rest with
    | nil => exact List.append_nil front
    | cons next rest =>
        rw [List.takeWhile_cons_of_neg (by simpa using ended next (by simp)), List.append_nil]
  have equal : blank = other := by rw [← taken blanks opens, same, taken others otherOpens]
  subst equal
  exact ⟨rfl, List.append_cancel_left same⟩

namespace Gap

theorem foldsMeaning_blank (folds : List Fold) :
    ∀ input ∈ foldsMeaning folds, BlankByte input := by
  intro input member
  obtain ⟨fold, -, inside⟩ := List.mem_flatMap.mp member
  rcases List.mem_cons.mp inside with rfl | inner
  · exact Or.inl rfl
  · exact fold.inner.members input inner

theorem meaning_blank (gap : Gap) : ∀ input ∈ gap.meaning, BlankByte input := by
  intro input member
  rcases List.mem_append.mp member with inner | folded
  · exact gap.inner.members input inner
  · exact foldsMeaning_blank gap.folds input folded

theorem kept_blank (gap : Gap) : ∀ input ∈ gap.kept, BlankByte input := by
  intro input member
  rcases List.mem_append.mp member with inner | before
  · exact gap.inner.members input inner
  · cases shape : gap.folds with
    | nil => simp [shape] at before
    | cons fold folds =>
        rw [shape] at before
        exact fold.before.members input before

/-- A gap is read as meant exactly when it is spaced. -/
theorem spaced_iff (gap : Gap) : HT ∉ gap.kept ∧ gap.kept = gap.meaning ↔ gap.Spaced := by
  have same : gap.kept = gap.meaning ↔
      ∀ first ∈ gap.folds.head?, first.before.bytes = foldsMeaning gap.folds := by
    rw [kept, meaning, List.append_cancel_left_eq]
    cases gap.folds with
    | nil => simp [foldsMeaning]
    | cons fold folds => simp
  rw [Spaced, ← same]
  constructor
  · intro read
    exact ⟨read.2 ▸ read.1, read.2⟩
  · intro spaced
    exact ⟨spaced.2.symm ▸ spaced.1, spaced.2⟩

end Gap

theorem Text1.head_not_blank (word : Text1 VisibleByte) (rest : Bytes) :
    ∀ next ∈ (word.bytes ++ rest).head?, ¬ BlankByte next := by
  obtain ⟨first, tail, shape, visible, -⟩ := word.exists_cons
  intro next present
  rw [shape] at present
  cases present
  exact visible.not_blank

/-- Gap by gap, what is kept of a value is what it means. -/
theorem pieces_eq_iff (pieces : List (Gap × Text1 VisibleByte)) (behind : Text BlankByte) :
    pieces.flatMap (fun piece => piece.1.kept ++ piece.2.bytes) ++ behind.bytes =
        pieces.flatMap (fun piece => piece.1.meaning ++ piece.2.bytes) ↔
      (∀ piece ∈ pieces, piece.1.kept = piece.1.meaning) ∧ behind.bytes = [] := by
  induction pieces with
  | nil => simp
  | cons piece pieces ih =>
      simp only [List.flatMap_cons, List.append_assoc, List.forall_mem_cons, and_assoc, ← ih]
      constructor
      · intro same
        obtain ⟨gap, rest⟩ := blank_append_inj piece.1.kept_blank piece.1.meaning_blank
          (piece.2.head_not_blank _) (piece.2.head_not_blank _) same
        exact ⟨gap, List.append_cancel_left rest⟩
      · intro parts
        rw [parts.1, parts.2]

theorem WrittenValue.spaced_iff (value : WrittenValue) :
    value.Readable ∧ value.kept = value.meaning ↔ value.Spaced := by
  rw [kept, meaning, List.append_cancel_left_eq, pieces_eq_iff, Readable, Spaced]
  constructor
  · intro read
    obtain ⟨⟨tabless, -⟩, same, nothing⟩ := read
    refine ⟨?_, nothing⟩
    intro piece member
    exact piece.1.spaced_iff.mp ⟨tabless piece member, same piece member⟩
  · intro spaced
    obtain ⟨gaps, nothing⟩ := spaced
    refine ⟨⟨?_, by simp [nothing]⟩, ?_, nothing⟩
    · intro piece member
      exact (piece.1.spaced_iff.mpr (gaps piece member)).1
    · intro piece member
      exact (piece.1.spaced_iff.mpr (gaps piece member)).2

theorem WrittenField.spaced_iff (field : WrittenField) :
    field.Readable ∧ field.collected = field.header ↔ field.Spaced := by
  obtain ⟨name, ⟨blank, blanks⟩, value⟩ := field
  rw [Readable, collected, header, Spaced, Prod.mk.injEq]
  constructor
  · intro read
    obtain ⟨⟨space, tabless, readable⟩, -, same⟩ := read
    obtain ⟨rest, rfl⟩ := List.head?_eq_some_iff.mp space
    have later : ∀ input ∈ rest, BlankByte input :=
      fun input member => blanks input (List.mem_cons_of_mem SP member)
    cases value with
    | none =>
        have none : rest = [] := by simpa using same
        exact ⟨congrArg (List.cons SP) none, by simp⟩
    | some written =>
        obtain ⟨none, kept⟩ := blank_append_inj later (by simp)
          (written.first.head_not_blank _) (written.first.head_not_blank _)
          (same.trans (List.nil_append _).symm)
        refine ⟨congrArg (List.cons SP) none, ?_⟩
        intro other present
        cases present
        exact written.spaced_iff.mp ⟨readable written rfl, kept⟩
  · intro spaced
    obtain ⟨one, values⟩ := spaced
    change blank = [SP] at one
    subst one
    have tabless : HT ∉ [SP] := by decide
    refine ⟨⟨rfl, tabless, ?_⟩, rfl, ?_⟩
    · intro written present
      exact (written.spaced_iff.mpr (values written present)).1
    · cases value with
      | none => rfl
      | some written => exact (written.spaced_iff.mpr (values written rfl)).2

/-! ## Whole heads -/

theorem findContentLength_ok_iff (headers : List HTTPHeader) :
    (∃ length, findContentLength env 0 headers = .ok length) ↔
      ∀ value, firstContentLength env headers = some value → ∃ length, stoi value = .ok length := by
  rw [findContentLength_eq]
  cases firstContentLength env headers with
  | none => simp
  | some value => simp

/-- The empty line after some headers is accepted unless their length throws. -/
theorem accepts_endOfHead_iff (line : RequestLine) (headers expected : List HTTPHeader) :
    (∃ data, (run (parseStep env) (holding (Head.data ⟨line, []⟩) headers .headerLineStart) CRLF =
          .more ⟨data, .body⟩ ∨
        run (parseStep env) (holding (Head.data ⟨line, []⟩) headers .headerLineStart) CRLF =
          .done .good ⟨data, .body⟩ []) ∧ data.headers = expected) ↔
      headers = expected ∧ ∃ length, findContentLength env 0 headers = .ok length := by
  have feed : run (parseStep env) (holding (Head.data ⟨line, []⟩) headers .headerLineStart) CRLF =
      run (parseStep env) (holding (Head.data ⟨line, []⟩) headers .expectingNewline3) [LF] := rfl
  rw [feed]
  cases declared : findContentLength env 0 headers with
  | error exception =>
      have thrown : parseStep env (holding (Head.data ⟨line, []⟩) headers .expectingNewline3) LF =
          .done (.thrown exception) (holding (Head.data ⟨line, []⟩) headers .body) := by
        have same : findContentLength env (Head.data ⟨line, []⟩).contentLength headers =
            .error exception := declared
        simp [parseStep, holding, same]
      rw [run_cons_done [] thrown]
      simp
  | ok length =>
      have same : findContentLength env (Head.data ⟨line, []⟩).contentLength headers =
          .ok length := declared
      by_cases none : length = 0
      · have ended : parseStep env (holding (Head.data ⟨line, []⟩) headers .expectingNewline3) LF =
            .done .good (holding { Head.data ⟨line, []⟩ with contentLength := length } headers
              .body) := by
          simp [parseStep, holding, same, none]
        rw [run_cons_done [] ended]
        simp [holding]
      · have waits : parseStep env (holding (Head.data ⟨line, []⟩) headers .expectingNewline3) LF =
            .more (holding { Head.data ⟨line, []⟩ with contentLength := length } headers
              .body) := by
          simp [parseStep, holding, same, none]
        rw [run_cons_more [] waits]
        simp [holding]

/-- **Fields as written.** A request line with any fields the standard allows and an
empty line are read as the standard defines them exactly when every field is
written with single spaces and the first `Content-Length` among them, if any, is a
number. -/
theorem readsAsWritten_iff (line : RequestLine) (fields : List WrittenField) :
    ReadsAsWritten env line fields ↔
      (∀ field ∈ fields, field.Spaced) ∧
        ∀ value, firstContentLength env (fields.map WrittenField.header) = some value →
          ∃ length, stoi value = .ok length := by
  have decided := @decided_fields env (Head.data ⟨line, []⟩) [] fields
  have start : holding (Head.data ⟨line, []⟩) [] .headerLineStart =
      ⟨Head.data ⟨line, []⟩, .headerLineStart⟩ := by
    simp [holding, Head.data, Head.headers]
  have spaced : (∀ field ∈ fields, field.Spaced) ↔ (∀ field ∈ fields, field.Readable) ∧
      fields.map WrittenField.collected = fields.map WrittenField.header := by
    rw [List.map_inj_left]
    constructor
    · intro all
      exact ⟨fun field member => (field.spaced_iff.mpr (all field member)).1,
        fun field member => (field.spaced_iff.mpr (all field member)).2⟩
    · intro read field member
      exact field.spaced_iff.mp ⟨read.1 field member, read.2 field member⟩
  rw [start, List.nil_append] at decided
  rw [spaced, ← findContentLength_ok_iff, ReadsAsWritten, writtenHead,
    run_append_of_more _ (run_line line)]
  by_cases readable : ∀ field ∈ fields, field.Readable
  · rw [run_append_of_more _ (decided.goes readable), accepts_endOfHead_iff]
    constructor
    · intro accepted
      exact ⟨⟨readable, accepted.1⟩, accepted.1 ▸ accepted.2⟩
    · intro read
      exact ⟨read.1.2, read.1.2.symm ▸ read.2⟩
  · obtain ⟨last, rest, refused⟩ := decided.stops readable
    rw [run_append_of_done _ refused]
    refine iff_of_false ?_ (fun read => readable read.1.1)
    simp

/-- A value directly behind its colon is refused. -/
theorem not_readsAsWritten : ¬ ∀ (env : Externals) (line : RequestLine)
    (fields : List WrittenField), ReadsAsWritten env line fields := by
  intro always
  let target : Target :=
    ⟨⟨⟨ascii "GET", by decide +kernel⟩, by decide⟩, ⟨ascii "/", by decide +kernel⟩⟩
  let one : Text1 DigitByte := .single (byte '1') (by decide)
  let word : Text1 VisibleByte := .single (byte 'b') (by decide)
  let field : WrittenField :=
    ⟨.single (byte 'a') (by decide), .nil, some ⟨word, [], .nil⟩⟩
  let refusing : HTTPParser := ⟨{
    headers := [(ascii "a", [])], method := ascii "GET", uri := ascii "/",
    httpVersionMajor := 1, httpVersionMinor := 1 }, .spaceBeforeHeaderValue⟩
  have written : writtenHead ⟨target, one, one⟩ [field] =
      ascii "GET / HTTP/1.1\r\na:b\r\n\r\n" := by decide
  have refused : run (parseStep .sample) {} (ascii "GET / HTTP/1.1\r\na:b\r\n\r\n") =
      .done .bad refusing (ascii "\r\n\r\n") := by decide +kernel
  obtain ⟨data, accepted, -⟩ := always .sample ⟨target, one, one⟩ [field]
  rw [written, refused] at accepted
  simp at accepted

end Webserver.HTTP.Grammar
