import Webserver.HTTP.AutomatonComplete

/-! # What `parse_impl` accepts

The verdicts of the automaton on a fresh parser in terms of the grammar: `good`
falls exactly at the end of a message, and an exception exactly at the end of a
head whose `Content-Length` is refused by `std::stoi`.
-/

namespace Webserver.HTTP.Grammar

open Foundation Schema HTTPParser Incremental

variable {env : Externals}

/-- The value of the first header the code takes for `Content-Length`. -/
def firstContentLength (env : Externals) (headers : List HTTPHeader) : Option Bytes :=
  (headers.find? (fun header => env.lexcmpi header.1 Header.contentLength = 0)).map Prod.snd

theorem findContentLength_eq (headers : List HTTPHeader) :
    findContentLength env 0 headers =
      match firstContentLength env headers with
      | none => .ok 0
      | some value => stoi value := by
  induction headers with
  | nil => rfl
  | cons header headers ih =>
      by_cases named : env.lexcmpi header.1 Header.contentLength = 0
      · simp [findContentLength, firstContentLength, named]
      · simpa [findContentLength, firstContentLength, named] using ih

/-! ## Which steps decide -/

/-- Where a verdict falls: a refused byte leaves the parser alone; the line feed
that ends a head and the last byte of a body end the message; the conversion at
the end of a head may throw. -/
theorem parseStep_done_cases {parser last : HTTPParser} {input : UInt8} {verdict : Verdict}
    (turn : parseStep env parser input = .done verdict last) :
    (verdict = .bad ∧ last = parser) ∨
    (parser.state = .expectingNewline3 ∧ input = LF ∧ verdict = .good ∧
      findContentLength env parser.data.contentLength parser.data.headers = .ok 0 ∧
      last = ⟨{ parser.data with contentLength := 0 }, .body⟩) ∨
    (parser.state = .expectingNewline3 ∧ input = LF ∧ last = ⟨parser.data, .body⟩ ∧
      ∃ exception, verdict = .thrown exception ∧
        findContentLength env parser.data.contentLength parser.data.headers =
          .error exception) ∨
    (parser.state = .body ∧ verdict = .good ∧
      parser.data.content.length + 1 = toSizeT parser.data.contentLength ∧
      last = ⟨{ parser.data with content := parser.data.content ++ [input] }, .body⟩) := by
  obtain ⟨data, state⟩ := parser
  cases state with
  | expectingNewline3 =>
      simp only [parseStep] at turn
      split_ifs at turn with newline
      · cases declared : findContentLength env data.contentLength data.headers with
        | error exception =>
            rw [declared] at turn
            cases turn
            exact Or.inr (Or.inr (Or.inl ⟨rfl, newline, rfl, exception, rfl, rfl⟩))
        | ok length =>
            by_cases none : length = 0
            · subst none
              simp only [declared, ↓reduceIte] at turn
              cases turn
              exact Or.inr (Or.inl ⟨rfl, newline, rfl, rfl, rfl⟩)
            · simp only [declared, none, ↓reduceIte] at turn
              cases turn
      · cases turn
        exact Or.inl ⟨rfl, rfl⟩
  | body =>
      simp only [parseStep, List.length_append, List.length_singleton] at turn
      split_ifs at turn with full
      · cases turn
        exact Or.inr (Or.inr (Or.inr ⟨rfl, rfl, full, rfl⟩))
  | _ =>
      left
      simp only [parseStep] at turn
      split_ifs at turn
      all_goals
        cases turn
        exact ⟨rfl, rfl⟩

/-! ## Verdicts on a fresh parser -/

/-- A head and as many bytes as the comparison with `size()` waits for. -/
theorem run_good_iff {input rest : Bytes} {parser : HTTPParser} :
    run (parseStep env) {} input = .done .good parser rest ↔
      ∃ (head : Head) (content : Bytes) (length : Int),
        findContentLength env 0 head.headers = .ok length ∧ content.length = toSizeT length ∧
        input = head.bytes ++ (content ++ rest) ∧
        parser = ⟨{ head.data with content, contentLength := length }, .body⟩ := by
  constructor
  · intro decided
    obtain ⟨front, symbol, ⟨data, state⟩, rfl, running, turn⟩ := run_eq_done_iff.mp decided
    have reads := run_eq_more_iff.mp running
    rcases parseStep_done_cases turn with ⟨refused, -⟩ | ⟨rfl, rfl, -, declared, rfl⟩ |
      ⟨-, -, -, exception, thrown, -⟩ | ⟨rfl, -, full, rfl⟩
    · cases refused
    · obtain ⟨head, rfl, rfl⟩ := reads
      exact ⟨head, [], 0, declared, rfl, by simp [Head.bytes, CRLF], rfl⟩
    · cases thrown
    · obtain ⟨head, content, length, declared, -, -, rfl, rfl⟩ := reads
      refine ⟨head, content ++ [symbol], length, declared, ?_, by simp, rfl⟩
      rw [List.length_append, List.length_singleton]
      exact full
  · rintro ⟨head, content, length, declared, full, rfl, rfl⟩
    by_cases none : length = 0
    · subst none
      obtain rfl : content = [] := List.eq_nil_of_length_eq_zero full
      exact run_head_empty rest declared
    · have fits := fitsInt_of_findContentLength declared
      have nonempty : content ≠ [] := by
        rintro rfl
        exact none ((toSizeT_eq_zero_iff fits).mp full.symm)
      rw [run_append_of_more _ (run_head declared none), run_body_full _ _ _ nonempty]
      · rfl
      · simpa [Head.data] using full

theorem run_thrown_iff {input rest : Bytes} {parser : HTTPParser} {exception : StdException} :
    run (parseStep env) {} input = .done (.thrown exception) parser rest ↔
      ∃ head : Head, findContentLength env 0 head.headers = .error exception ∧
        input = head.bytes ++ rest ∧ parser = ⟨head.data, .body⟩ := by
  constructor
  · intro decided
    obtain ⟨front, symbol, ⟨data, state⟩, rfl, running, turn⟩ := run_eq_done_iff.mp decided
    have reads := run_eq_more_iff.mp running
    rcases parseStep_done_cases turn with ⟨refused, -⟩ | ⟨-, -, good, -⟩ |
      ⟨rfl, rfl, rfl, found, thrown, declared⟩ | ⟨-, good, -⟩
    · cases refused
    · cases good
    · cases thrown
      obtain ⟨head, rfl, rfl⟩ := reads
      exact ⟨head, declared, by simp [Head.bytes, CRLF], rfl⟩
    · cases good
  · rintro ⟨head, declared, rfl, rfl⟩
    exact run_head_thrown rest declared

/-! ## Case folding -/

/-- What the code relies on of the string functions, on header names. -/
structure CaseFolding (env : Externals) : Prop where
  utflower_token : ∀ name : Bytes, (∀ input ∈ name, TokenByte input) →
    env.utflower name = name.map lower
  lexcmpi_token : ∀ left right : Bytes, (∀ input ∈ left, TokenByte input) →
    (∀ input ∈ right, TokenByte input) →
    (env.lexcmpi left right = 0 ↔ env.utflower left = env.utflower right)

theorem caseFolding_sample : CaseFolding Externals.sample where
  utflower_token _ _ := rfl
  lexcmpi_token left right _ _ := by
    by_cases same : left.map lower = right.map lower <;> simp [Externals.sample, same]

theorem CaseFolding.lexcmpi_contentLength (folding : CaseFolding env) {name : Bytes}
    (token : ∀ input ∈ name, TokenByte input) :
    env.lexcmpi name Header.contentLength = 0 ↔
      name.map lower = Header.contentLength.map lower := by
  have literal : ∀ input ∈ Header.contentLength, TokenByte input := by decide +kernel
  rw [folding.lexcmpi_token _ _ token literal, folding.utflower_token _ token,
    folding.utflower_token _ literal]

/-- With case folding, the loop over the headers finds the declared length. -/
theorem CaseFolding.findContentLength_eq (folding : CaseFolding env) (head : Head) :
    findContentLength env 0 head.headers = declaredLength head.headers := by
  rw [Grammar.findContentLength_eq, firstContentLength, declaredLength]
  have same : (fun header => decide (env.lexcmpi header.1 Header.contentLength = 0)) ∘
        HeaderField.header =
      (fun header => decide (header.1.map lower = Header.contentLength.map lower)) ∘
        HeaderField.header := by
    funext field
    exact decide_eq_decide.mpr (folding.lexcmpi_contentLength field.name.members)
  rw [Head.headers, List.find?_map, List.find?_map, same]
  cases head.fields.find? _ <;> rfl

/-- The range a pointer pair can denote: no object is longer than `PTRDIFF_MAX`. -/
structure CharRange where
  bytes : Bytes
  fits : bytes.length < 2 ^ 63

/-- **The accepted prefixes.** On a constructed or reset parser, `parse_impl`
returns `good` after exactly the bytes of a message, with exactly what the
message says in its data. -/
theorem parseImpl_good_iff (folding : CaseFolding env) (used : HTTPParser) (buffer : CharRange)
    (parser : HTTPParser) (rest : Bytes) :
    parseImpl env used.reset buffer.bytes = .done .good parser rest ↔
      ∃ message : Message, buffer.bytes = message.bytes ++ rest ∧
        parser = ⟨message.data, .body⟩ := by
  obtain ⟨input, fitsRange⟩ := buffer
  refine run_good_iff.trans ⟨?_, ?_⟩
  · rintro ⟨head, content, length, declared, full, rfl, rfl⟩
    have fits := fitsInt_of_findContentLength declared
    -- a negative length would need more bytes than the range can hold
    have nonneg : 0 ≤ length := by
      apply nonneg_of_toSizeT_lt fits
      simp only [List.length_append] at fitsRange
      omega
    have same : length = content.length := by
      rw [full, toSizeT_of_nonneg nonneg fits]
    subst same
    rw [folding.findContentLength_eq] at declared
    exact ⟨⟨head, content, declared⟩, by simp [Message.bytes], rfl⟩
  · rintro ⟨message, rfl, rfl⟩
    have declared := message.framed
    rw [← folding.findContentLength_eq] at declared
    have fits := fitsInt_of_findContentLength declared
    have full := toSizeT_of_nonneg (Int.natCast_nonneg _) fits
    exact ⟨message.head, message.body, message.body.length, declared, by omega,
      by simp [Message.bytes], rfl⟩

theorem parseImpl_good_iff_get : ∃ message : Message,
    ascii "GET / HTTP/1.0\r\nContent-Length: 2\r\n\r\nhi" = message.bytes ++ [] ∧
    (⟨{ headers := [(ascii "Content-Length", ascii "2")], method := ascii "GET",
        uri := ascii "/", content := ascii "hi", httpVersionMajor := 1, contentLength := 2 },
      .body⟩ : HTTPParser) = ⟨message.data, .body⟩ :=
  (parseImpl_good_iff caseFolding_sample {}
    ⟨ascii "GET / HTTP/1.0\r\nContent-Length: 2\r\n\r\nhi", by decide⟩ _ []).mp (by decide +kernel)

end Webserver.HTTP.Grammar
