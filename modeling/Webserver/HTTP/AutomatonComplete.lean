import Webserver.HTTP.Automaton

/-! # The automaton reads every text of the grammar

Each part of a request is read into the state its description names, part by
part. Together with the soundness of the steps this characterises the runs from
a fresh parser that have not ended yet (`run_eq_more_iff`).
-/

namespace Webserver.HTTP.Grammar

open Foundation Schema HTTPParser Incremental

variable {env : Externals}

/-! ## The request line -/

theorem run_method (method : Text1 TokenByte) :
    run (parseStep env) {} method.bytes = .more ⟨{ method := method.bytes }, .method⟩ := by
  obtain ⟨first, rest, shape, token, members⟩ := method.exists_cons
  have turn : parseStep env {} first = .more ⟨{ method := [first] }, .method⟩ := by
    rw [parseStep_methodStart, if_pos token]
    rfl
  rw [shape, run_cons_more rest turn]
  refine run_accumulate TokenByte
    (fun read => (⟨{ method := read }, .method⟩ : HTTPParser)) ?_ [first] members
  intro read symbol token
  rw [parseStep_method, if_neg token.ne.1, if_pos token]

theorem run_targetOpen (target : Target) :
    run (parseStep env) {} target.openBytes = .more ⟨target.data, .uri⟩ := by
  rw [Target.openBytes, run_append_of_more _ (run_method target.method)]
  have space : parseStep env ⟨{ method := target.method.bytes }, .method⟩ SP =
      .more ⟨{ method := target.method.bytes }, .uri⟩ := by
    rw [parseStep_method, if_pos rfl]
  rw [run_cons_more _ space]
  refine run_accumulate UriByte
    (fun read => (⟨{ method := target.method.bytes, uri := read }, .uri⟩ : HTTPParser)) ?_ []
    target.uri.members
  intro read symbol member
  rw [parseStep_uri, if_neg member.2, if_neg member.1]

theorem run_target (target : Target) :
    run (parseStep env) {} target.bytes = .more ⟨target.data, .httpVersionH⟩ := by
  rw [Target.bytes, run_append_of_more _ (run_targetOpen target)]
  have space : parseStep env ⟨target.data, .uri⟩ SP = .more ⟨target.data, .httpVersionH⟩ := by
    rw [parseStep_uri, if_pos rfl]
  rw [run_cons_more _ space, run_nil]

/-- The collected data with a major version read from some digits. -/
def withMajor (base : Data) (digits : Bytes) : Data :=
  { base with httpVersionMajor := toInt32 (decimal digits) }

/-- The collected data with a minor version read from some digits. -/
def withMinor (base : Data) (digits : Bytes) : Data :=
  { base with httpVersionMinor := toInt32 (decimal digits) }

theorem run_major (target : Target) (major : Text1 DigitByte) :
    run (parseStep env) {} (target.bytes ++ (ascii "HTTP/" ++ major.bytes)) =
      .more ⟨withMajor target.data major.bytes, .httpVersionMajor⟩ := by
  have literal : run (parseStep env) ⟨target.data, .httpVersionH⟩ (ascii "HTTP/") =
      .more ⟨target.data, .httpVersionMajorStart⟩ := rfl
  obtain ⟨first, rest, shape, digit, members⟩ := major.exists_cons
  rw [run_append_of_more _ (run_target target), run_append_of_more _ literal, shape]
  have turn : parseStep env ⟨target.data, .httpVersionMajorStart⟩ first =
      .more ⟨withMajor target.data [first], .httpVersionMajor⟩ := by
    rw [parseStep_versionMajorStart, if_pos digit]
    simp [withMajor, Target.data, toInt32_decimal_single digit]
  rw [run_cons_more rest turn]
  refine run_accumulate DigitByte
    (fun read => (⟨withMajor target.data read, .httpVersionMajor⟩ : HTTPParser)) ?_ [first] members
  intro read symbol digit
  rw [parseStep_versionMajor, if_neg (ne_of_digitByte digit).1, if_pos digit]
  simp [withMajor, toInt32_decimal_concat _ digit]

theorem run_lineOpen (line : RequestLine) :
    run (parseStep env) {} line.openBytes = .more ⟨Head.data ⟨line, []⟩, .httpVersionMinor⟩ := by
  obtain ⟨first, rest, shape, digit, members⟩ := line.minor.exists_cons
  have collected : Head.data ⟨line, []⟩ =
      withMinor (withMajor line.toTarget.data line.major.bytes) line.minor.bytes := by
    simp [Head.data, Head.headers, withMinor, withMajor, Target.data]
  have regroup : line.openBytes =
      line.toTarget.bytes ++ (ascii "HTTP/" ++ line.major.bytes) ++
        byte '.' :: (first :: rest) := by
    simp [RequestLine.openBytes, shape]
  have fresh : (withMajor line.toTarget.data line.major.bytes).httpVersionMinor = 0 := rfl
  rw [regroup, run_append_of_more _ (run_major line.toTarget line.major), collected, shape]
  generalize withMajor line.toTarget.data line.major.bytes = base at fresh ⊢
  have dot : parseStep env ⟨base, .httpVersionMajor⟩ (byte '.') =
      .more ⟨base, .httpVersionMinorStart⟩ := by
    rw [parseStep_versionMajor, if_pos rfl]
  have turn : parseStep env ⟨base, .httpVersionMinorStart⟩ first =
      .more ⟨withMinor base [first], .httpVersionMinor⟩ := by
    rw [parseStep_versionMinorStart, if_pos digit]
    simp [withMinor, fresh, toInt32_decimal_single digit]
  rw [run_cons_more _ dot, run_cons_more rest turn]
  refine run_accumulate DigitByte
    (fun read => (⟨withMinor base read, .httpVersionMinor⟩ : HTTPParser)) ?_ [first] members
  intro read symbol digit
  rw [parseStep_versionMinor, if_neg (ne_of_digitByte digit).2, if_pos digit]
  simp [withMinor, toInt32_decimal_concat _ digit]

theorem run_line (line : RequestLine) :
    run (parseStep env) {} line.bytes = .more ⟨Head.data ⟨line, []⟩, .headerLineStart⟩ := by
  rw [RequestLine.bytes, run_append_of_more _ (run_lineOpen line)]
  rfl

/-! ## The header fields -/

/-- The parser with some headers collected after a request line. -/
def holding (base : Data) (headers : List HTTPHeader) (state : ParserState) : HTTPParser :=
  ⟨{ base with headers }, state⟩

variable (base : Data) (front : List HTTPHeader) (header : HTTPHeader)

theorem run_name (name : Text1 TokenByte) :
    run (parseStep env) (holding base front .headerLineStart) name.bytes =
      .more (holding base (front ++ [(name.bytes, [])]) .headerName) := by
  obtain ⟨first, rest, shape, token, members⟩ := name.exists_cons
  have notBlank := token.not_blank
  have turn : parseStep env (holding base front .headerLineStart) first =
      .more (holding base (front ++ [([first], [])]) .headerName) := by
    rw [holding, parseStep_headerLineStart, if_neg token.ne.2.2.1, if_neg (by simp [notBlank]),
      if_pos token]
    rfl
  rw [shape, run_cons_more rest turn]
  refine run_accumulate TokenByte
    (fun read => holding base (front ++ [(read, [])]) .headerName) ?_ [first] members
  intro read symbol token
  rw [holding, parseStep_headerName, if_neg token.ne.2.2.2, if_pos token]
  simp [holding]

theorem run_text (text : Text FieldByte) :
    run (parseStep env) (holding base (front ++ [header]) .headerValue) text.bytes =
      .more (holding base (front ++ [(header.1, header.2 ++ text.bytes)]) .headerValue) := by
  have turns : ∀ read symbol, FieldByte symbol →
      parseStep env (holding base (front ++ [(header.1, header.2 ++ read)]) .headerValue) symbol =
        .more (holding base (front ++ [(header.1, header.2 ++ (read ++ [symbol]))])
          .headerValue) := by
    intro read symbol member
    rw [holding, parseStep_headerValue, if_neg member.ne.1, if_neg member]
    simp [holding]
  simpa using run_accumulate FieldByte _ turns [] text.members

theorem run_blank (blank : Text1 BlankByte) :
    run (parseStep env) (holding base (front ++ [header]) .headerLineStart) blank.bytes =
      .more (holding base (front ++ [header]) .headerLws) := by
  have notCR {input : UInt8} (member : BlankByte input) : input ≠ CR := by
    rcases member with rfl | rfl <;> decide
  obtain ⟨first, rest, shape, member, members⟩ := blank.exists_cons
  have turn : parseStep env (holding base (front ++ [header]) .headerLineStart) first =
      .more (holding base (front ++ [header]) .headerLws) := by
    rw [holding, parseStep_headerLineStart, if_neg (notCR member), if_pos (by simp [member])]
    rfl
  rw [shape, run_cons_more rest turn]
  refine run_accumulate BlankByte
    (fun _ => holding base (front ++ [header]) .headerLws) ?_ [first] members
  intro read symbol member
  rw [holding, parseStep_headerLws, if_neg (notCR member), if_pos member]

/-- A continuation line up to its line end: the state tells whether its text has
begun. -/
theorem run_continuationOpen (line : Continuation) :
    run (parseStep env) (holding base (front ++ [header]) .headerLineStart)
        (line.blank.bytes ++ line.text.bytes) =
      .more (holding base (front ++ [(header.1, header.2 ++ line.text.bytes)])
        (if line.text.bytes = [] then .headerLws else .headerValue)) := by
  rw [run_append_of_more _ (run_blank base front header line.blank)]
  cases shape : line.text.bytes with
  | nil => simp
  | cons first rest =>
      have member : FieldByte first := line.text.members first (by simp [shape])
      have members : ∀ input ∈ rest, FieldByte input := fun input later =>
        line.text.members input (by simp [shape, later])
      have notBlank : ¬ BlankByte first := by
        rintro (space | tab)
        · exact line.noSpace (by rw [shape, List.head?_cons, space])
        · exact member.ne.2 tab
      have turn : parseStep env (holding base (front ++ [header]) .headerLws) first =
          .more (holding base (front ++ [(header.1, header.2 ++ [first])]) .headerValue) := by
        rw [holding, parseStep_headerLws, if_neg member.ne.1, if_neg notBlank, if_neg member]
        simp [holding]
      rw [run_cons_more rest turn, run_text base front _ ⟨rest, members⟩]
      simp

theorem run_lineEnd (headers : List HTTPHeader) {state : ParserState}
    (ends : state = .headerLws ∨ state = .headerValue) :
    run (parseStep env) (holding base headers state) CRLF =
      .more (holding base headers .headerLineStart) := by
  rcases ends with rfl | rfl <;> rfl

theorem run_continuation (line : Continuation) :
    run (parseStep env) (holding base (front ++ [header]) .headerLineStart) line.bytes =
      .more (holding base (front ++ [(header.1, header.2 ++ line.text.bytes)])
        .headerLineStart) := by
  rw [Continuation.bytes, ← List.append_assoc,
    run_append_of_more _ (run_continuationOpen base front header line)]
  apply run_lineEnd
  split
  · exact Or.inl rfl
  · exact Or.inr rfl

theorem run_continuations (lines : List Continuation) :
    run (parseStep env) (holding base (front ++ [header]) .headerLineStart)
        (lines.flatMap Continuation.bytes) =
      .more (holding base (front ++ [(header.1,
        header.2 ++ lines.flatMap (fun line => line.text.bytes))]) .headerLineStart) := by
  induction lines generalizing header with
  | nil => simp
  | cons line lines ih =>
      rw [List.flatMap_cons, run_append_of_more _ (run_continuation base front header line), ih]
      simp

/-- A header line up to its line end. -/
theorem run_firstOpen (name : Text1 TokenByte) (text : Text FieldByte) :
    run (parseStep env) (holding base front .headerLineStart)
        (OpenLine.first name text).bytes =
      .more (holding base (front ++ [(name.bytes, text.bytes)]) .headerValue) := by
  have separator (headers : List HTTPHeader) : run (parseStep env)
      (holding base headers .headerName) (byte ':' :: SP :: text.bytes) =
      run (parseStep env) (holding base headers .headerValue) text.bytes := rfl
  rw [OpenLine.bytes, run_append_of_more _ (run_name base front name), separator,
    run_text base front (name.bytes, []) text, List.nil_append]

theorem run_field (field : HeaderField) :
    run (parseStep env) (holding base front .headerLineStart) field.bytes =
      .more (holding base (front ++ [field.header]) .headerLineStart) := by
  have regroup : field.bytes = (OpenLine.first field.name field.value).bytes ++ (CRLF ++
      field.continuations.flatMap Continuation.bytes) := by
    simp [HeaderField.bytes, OpenLine.bytes]
  rw [regroup, run_append_of_more _ (run_firstOpen base front field.name field.value),
    run_append_of_more _ (run_lineEnd base _ (Or.inr rfl)),
    run_continuations base front _ field.continuations]
  rfl

theorem run_fields (fields : List HeaderField) :
    run (parseStep env) (holding base front .headerLineStart)
        (fields.flatMap HeaderField.bytes) =
      .more (holding base (front ++ fields.map HeaderField.header) .headerLineStart) := by
  induction fields generalizing front with
  | nil => simp
  | cons field fields ih =>
      rw [List.flatMap_cons, run_append_of_more _ (run_field base front field), ih]
      simp

theorem run_headOpen (head : Head) :
    run (parseStep env) {} head.openBytes = .more ⟨head.data, .headerLineStart⟩ := by
  have start : (⟨Head.data ⟨head.line, []⟩, .headerLineStart⟩ : HTTPParser) =
      holding (Head.data ⟨head.line, []⟩) [] .headerLineStart := by
    simp [holding, Head.data, Head.headers]
  rw [Head.openBytes, run_append_of_more _ (run_line head.line), start, run_fields]
  simp [holding, Head.data, Head.headers]

/-! ## The end of the head and the body -/

theorem holding_data (head : Head) (state : ParserState) :
    holding head.data head.headers state = ⟨head.data, state⟩ := rfl

/-- A head followed by an unfinished line. -/
theorem run_openLine (head : Head) (line : OpenLine) :
    ∃ state, (state = .headerLws ∨ state = .headerValue) ∧ (line.Begun → state = .headerValue) ∧
      run (parseStep env) {} (head.openBytes ++ line.bytes) =
        .more ⟨head.dataWith line.close.header, state⟩ := by
  cases line with
  | first name text =>
      refine ⟨.headerValue, Or.inr rfl, fun _ => rfl, ?_⟩
      rw [run_append_of_more _ (run_headOpen head), ← holding_data, run_firstOpen]
      simp [holding, Head.dataWith, OpenLine.close, HeaderField.header, HeaderField.fullValue]
  | continuation field line =>
      refine ⟨if line.text.bytes = [] then .headerLws else .headerValue, ?_, ?_, ?_⟩
      · split
        · exact Or.inl rfl
        · exact Or.inr rfl
      · intro begun
        exact if_neg begun
      · rw [run_append_of_more _ (run_headOpen head), ← holding_data, OpenLine.bytes,
          run_append_of_more _ (run_field _ _ field), run_continuationOpen]
        simp [holding, Head.dataWith, OpenLine.close, HeaderField.header, HeaderField.fullValue]

theorem run_headCR (head : Head) :
    run (parseStep env) {} (head.openBytes ++ [CR]) = .more ⟨head.data, .expectingNewline3⟩ := by
  rw [run_append_of_more _ (run_headOpen head)]
  rfl

/-- What the line feed that ends a head does. -/
theorem parseStep_endOfHead (head : Head) :
    parseStep env ⟨head.data, .expectingNewline3⟩ LF =
      match findContentLength env 0 head.headers with
      | .error exception => .done (.thrown exception) ⟨head.data, .body⟩
      | .ok length =>
          if length = 0 then .done .good ⟨{ head.data with contentLength := length }, .body⟩
          else .more ⟨{ head.data with contentLength := length }, .body⟩ := rfl

theorem Head.bytes_eq (head : Head) : head.bytes = head.openBytes ++ [CR] ++ [LF] := by
  simp [Head.bytes, CRLF]

/-- A head that announces a body. -/
theorem run_head {head : Head} {length : Int}
    (declared : findContentLength env 0 head.headers = .ok length) (nonzero : length ≠ 0) :
    run (parseStep env) {} head.bytes =
      .more ⟨{ head.data with contentLength := length }, .body⟩ := by
  rw [head.bytes_eq, run_concat_of_more _ (run_headCR head), parseStep_endOfHead, declared]
  simp only [nonzero, ↓reduceIte]

/-- A head without a body is a whole message. -/
theorem run_head_empty {head : Head} (rest : Bytes)
    (declared : findContentLength env 0 head.headers = .ok 0) :
    run (parseStep env) {} (head.bytes ++ rest) = .done .good ⟨head.data, .body⟩ rest := by
  have decided : run (parseStep env) {} head.bytes = .done .good ⟨head.data, .body⟩ [] := by
    rw [head.bytes_eq, run_concat_of_more _ (run_headCR head), parseStep_endOfHead, declared]
    rfl
  rw [run_append_of_done rest decided, List.nil_append]

/-- A head whose length is refused by `std::stoi` throws at its last byte. -/
theorem run_head_thrown {head : Head} {exception : StdException} (rest : Bytes)
    (declared : findContentLength env 0 head.headers = .error exception) :
    run (parseStep env) {} (head.bytes ++ rest) =
      .done (.thrown exception) ⟨head.data, .body⟩ rest := by
  have decided : run (parseStep env) {} head.bytes =
      .done (.thrown exception) ⟨head.data, .body⟩ [] := by
    rw [head.bytes_eq, run_concat_of_more _ (run_headCR head), parseStep_endOfHead, declared]
  rw [run_append_of_done rest decided, List.nil_append]

/-- A byte of the body before the last one. -/
theorem parseStep_body_short (base : Data) (input : UInt8)
    (short : base.content.length + 1 ≠ toSizeT base.contentLength) :
    parseStep env ⟨base, .body⟩ input =
      .more ⟨{ base with content := base.content ++ [input] }, .body⟩ := by
  simp [parseStep, short]

/-- The last byte of the body. -/
theorem parseStep_body_full (base : Data) (input : UInt8)
    (full : base.content.length + 1 = toSizeT base.contentLength) :
    parseStep env ⟨base, .body⟩ input =
      .done .good ⟨{ base with content := base.content ++ [input] }, .body⟩ := by
  simp [parseStep, full]

/-- Part of a body. -/
theorem run_body_short (base : Data) (part : Bytes)
    (short : base.content.length + part.length < toSizeT base.contentLength) :
    run (parseStep env) ⟨base, .body⟩ part =
      .more ⟨{ base with content := base.content ++ part }, .body⟩ := by
  induction part generalizing base with
  | nil => simp
  | cons input part ih =>
      rw [List.length_cons] at short
      rw [run_cons_more part (parseStep_body_short base input (by omega)), ih]
      · simp
      · simp only [List.length_append, List.length_singleton]
        omega

/-- The whole of what is due of a body. -/
theorem run_body_full (base : Data) (part rest : Bytes) (nonempty : part ≠ [])
    (full : base.content.length + part.length = toSizeT base.contentLength) :
    run (parseStep env) ⟨base, .body⟩ (part ++ rest) =
      .done .good ⟨{ base with content := base.content ++ part }, .body⟩ rest := by
  rcases List.eq_nil_or_concat part with rfl | ⟨front, last, rfl⟩
  · exact (nonempty rfl).elim
  · rw [List.concat_eq_append] at full ⊢
    rw [List.length_append, List.length_singleton] at full
    rw [List.append_assoc, run_append_of_more _ (run_body_short base front (by omega)),
      List.singleton_append, run_cons_done rest (parseStep_body_full _ last (by
        simp only [List.length_append]
        omega))]
    simp

/-! ## Runs that have not ended -/

/-- **Completeness of the description.** Every text that belongs to a state is
read into it by a fresh parser. -/
theorem Reads.run_eq {parser : HTTPParser} {read : Bytes} (reads : Reads env parser read) :
    run (parseStep env) {} read = .more parser := by
  obtain ⟨data, state⟩ := parser
  cases state with
  | methodStart =>
      obtain ⟨rfl, rfl⟩ := reads
      rfl
  | method =>
      obtain ⟨method, rfl, rfl⟩ := reads
      exact run_method method
  | uri =>
      obtain ⟨target, rfl, rfl⟩ := reads
      exact run_targetOpen target
  | httpVersionH =>
      obtain ⟨target, rfl, rfl⟩ := reads
      exact run_target target
  | httpVersionT1 | httpVersionT2 | httpVersionP | httpVersionSlash | httpVersionMajorStart =>
      obtain ⟨target, rfl, rfl⟩ := reads
      rw [run_append_of_more _ (run_target target)]
      rfl
  | httpVersionMajor =>
      obtain ⟨target, major, rfl, rfl⟩ := reads
      exact run_major target major
  | httpVersionMinorStart =>
      obtain ⟨target, major, rfl, rfl⟩ := reads
      rw [← List.append_assoc, ← List.append_assoc, List.append_assoc target.bytes,
        run_append_of_more _ (run_major target major)]
      rfl
  | httpVersionMinor =>
      obtain ⟨line, rfl, rfl⟩ := reads
      exact run_lineOpen line
  | expectingNewline1 =>
      obtain ⟨line, rfl, rfl⟩ := reads
      rw [run_append_of_more _ (run_lineOpen line)]
      rfl
  | headerLineStart =>
      obtain ⟨head, rfl, rfl⟩ := reads
      exact run_headOpen head
  | headerLws =>
      obtain ⟨head, field, blank, rfl, rfl⟩ := reads
      rw [run_append_of_more _ (run_headOpen head), ← holding_data,
        run_append_of_more _ (run_field _ _ field), run_blank]
      rfl
  | headerName =>
      obtain ⟨head, name, rfl, rfl⟩ := reads
      rw [run_append_of_more _ (run_headOpen head), ← holding_data, run_name]
      rfl
  | spaceBeforeHeaderValue =>
      obtain ⟨head, name, rfl, rfl⟩ := reads
      rw [run_append_of_more _ (run_headOpen head), ← holding_data,
        run_append_of_more _ (run_name _ _ name)]
      rfl
  | headerValue =>
      obtain ⟨head, line, begun, rfl, rfl⟩ := reads
      obtain ⟨state, -, ended, running⟩ := @run_openLine env head line
      rw [running, ended begun]
  | expectingNewline2 =>
      obtain ⟨head, line, rfl, rfl⟩ := reads
      obtain ⟨state, either, -, running⟩ := @run_openLine env head line
      rw [← List.append_assoc, run_append_of_more _ running]
      rcases either with rfl | rfl <;> rfl
  | expectingNewline3 =>
      obtain ⟨head, rfl, rfl⟩ := reads
      exact run_headCR head
  | body =>
      obtain ⟨head, content, length, declared, nonzero, short, rfl, rfl⟩ := reads
      rw [run_append_of_more _ (run_head declared nonzero), run_body_short]
      · rfl
      · simpa [Head.data] using short

/-- **The running parser.** A fresh parser that has read some bytes without a
verdict is in the state the grammar assigns to them, and in no other. -/
theorem run_eq_more_iff {parser : HTTPParser} {read : Bytes} :
    run (parseStep env) {} read = .more parser ↔ Reads env parser read := by
  constructor
  · intro running
    have start : Reads env {} [] := ⟨rfl, rfl⟩
    exact run_more_induct (motive := Reads env) start (fun reads turn => reads.step turn) running
  · exact Reads.run_eq

end Webserver.HTTP.Grammar
