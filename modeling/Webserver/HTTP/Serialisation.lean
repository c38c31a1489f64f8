import Webserver.Foundation.Lines
import Webserver.HTTP.Acceptance
import Webserver.HTTP.Response

/-! # Reading a response back

The bytes of a response against the automaton that reads requests. The header
lines `to_buffers` writes are header fields of the request grammar without
continuation lines, so the automaton collects them as they were, ends at the
empty line and leaves the content unread. The first line tells the status.
-/

namespace Webserver.HTTP.HTTPResponse

open Foundation Foundation.Lines Schema HTTPParser Grammar Incremental

variable {env : Externals}

/-! ## The status line -/

/-- The line of a status without its line end. -/
def statusLine (status : StatusCode) : Bytes :=
  (statusStrToBuffer status).take ((statusStrToBuffer status).length - 2)

theorem statusStrToBuffer_eq (status : StatusCode) :
    statusStrToBuffer status = statusLine status ++ CRLF := by
  cases status <;> decide +kernel

theorem cr_not_mem_statusLine (status : StatusCode) : CR ∉ statusLine status := by
  cases status <;> decide +kernel

/-- The line of a status gives its number. -/
theorem decimal_statusStrToBuffer {status : StatusCode} (defined : status ≠ .undefined) :
    decimal (((statusStrToBuffer status).drop 9).take 3) = status.number := by
  cases status with
  | undefined => exact (defined rfl).elim
  | _ => decide +kernel

theorem number_injective {status other : StatusCode} (same : status.number = other.number) :
    status = other := by
  cases status <;> cases other <;> first | rfl | cases same

/-- No two status codes have the same line. -/
theorem statusLine_injective {status other : StatusCode} (defined : status ≠ .undefined)
    (otherDefined : other ≠ .undefined) (same : statusLine status = statusLine other) :
    status = other := by
  apply number_injective
  rw [← decimal_statusStrToBuffer defined, ← decimal_statusStrToBuffer otherDefined,
    statusStrToBuffer_eq, statusStrToBuffer_eq other, same]

/-! ## The header lines -/

/-- The names and values of the header map, in its iteration order. -/
def headerPairs (response : HTTPResponse) : List HTTPHeader :=
  response.headers.entries.map (fun header => (header.1, header.2))

/-- The head of a response after its status line. -/
def headerBytes (response : HTTPResponse) : Bytes :=
  response.headerPairs.flatMap (fun header =>
    header.1 ++ Magic.nameValueSeparator ++ header.2 ++ Magic.crlf) ++ Magic.crlf

theorem stream_eq (response : HTTPResponse) :
    response.stream = statusLine response.status ++
      (CRLF ++ (response.headerBytes ++ response.content)) := by
  have lines : (response.headers.entries.flatMap (fun header =>
      [header.1, Magic.nameValueSeparator, header.2, Magic.crlf])).flatten =
      response.headerPairs.flatMap (fun header =>
        header.1 ++ Magic.nameValueSeparator ++ header.2 ++ Magic.crlf) := by
    rw [headerPairs]
    induction response.headers.entries with
    | nil => rfl
    | cons header headers ih => simp [ih]
  rw [stream, toBuffers, statusStrToBuffer_eq, List.flatten_append, List.flatten_append, lines,
    headerBytes]
  simp

/-- A response the property is about: it has a status of its own, its header
names are tokens, its values have no control bytes, and no header is taken for
`Content-Length`. -/
structure Plain (env : Externals) (response : HTTPResponse) : Prop where
  status : response.status ≠ .undefined
  names : ∀ header ∈ response.headerPairs, header.1 ≠ [] ∧ ∀ input ∈ header.1, TokenByte input
  values : ∀ header ∈ response.headerPairs, ∀ input ∈ header.2, FieldByte input
  unframed : ∀ header ∈ response.headerPairs, env.lexcmpi header.1 Header.contentLength ≠ 0

/-- The header lines are fields of the request grammar. -/
theorem Plain.exists_fields {response : HTTPResponse} (plain : Plain env response) :
    ∃ fields : List HeaderField, fields.map HeaderField.header = response.headerPairs ∧
      response.headerBytes = fields.flatMap HeaderField.bytes ++ CRLF := by
  obtain ⟨-, names, values, -⟩ := plain
  rw [headerBytes]
  generalize response.headerPairs = headers at names values ⊢
  induction headers with
  | nil => exact ⟨[], rfl, rfl⟩
  | cons header headers ih =>
      obtain ⟨fields, collected, written⟩ := ih
        (fun other member => names other (List.mem_cons_of_mem header member))
        (fun other member => values other (List.mem_cons_of_mem header member))
      obtain ⟨nonempty, token⟩ := names header List.mem_cons_self
      let field : HeaderField :=
        ⟨⟨⟨header.1, token⟩, nonempty⟩, ⟨header.2, values header List.mem_cons_self⟩, []⟩
      refine ⟨field :: fields, ?_, ?_⟩
      · rw [List.map_cons, collected]
        simp [field, HeaderField.header, HeaderField.fullValue]
      · rw [List.flatMap_cons, List.append_assoc, written]
        simp [field, HeaderField.bytes, Magic.nameValueSeparator, Magic.crlf]

theorem Plain.findContentLength_eq {response : HTTPResponse} (plain : Plain env response) :
    findContentLength env 0 response.headerPairs = .ok 0 := by
  have unframed := plain.unframed
  generalize response.headerPairs = headers at unframed ⊢
  induction headers with
  | nil => rfl
  | cons header headers ih =>
      rw [findContentLength, if_neg (unframed header List.mem_cons_self)]
      exact ih (fun other member => unframed other (List.mem_cons_of_mem header member))

/-- The automaton reads the head of a response and leaves what follows it. -/
theorem Plain.run_headerBytes {response : HTTPResponse} (plain : Plain env response) (base : Data)
    (rest : Bytes) :
    run (parseStep env) ⟨{ base with headers := [], contentLength := 0 }, .headerLineStart⟩
        (response.headerBytes ++ rest) =
      .done .good ⟨{ base with headers := response.headerPairs, contentLength := 0 }, .body⟩
        rest := by
  obtain ⟨fields, collected, written⟩ := plain.exists_fields
  have read := @run_fields env { base with contentLength := 0 } [] fields
  rw [List.nil_append, collected] at read
  have empty : parseStep env (holding { base with contentLength := 0 } response.headerPairs
      .expectingNewline3) LF = .done .good
        ⟨{ base with headers := response.headerPairs, contentLength := 0 }, .body⟩ := by
    simp [holding, parseStep, plain.findContentLength_eq]
  rw [written, List.append_assoc]
  refine (run_append_of_more (CRLF ++ rest) read).trans ?_
  exact run_cons_done rest empty

/-- The bytes of a response determine it. -/
theorem Plain.eq_of_stream_eq {response other : HTTPResponse} (plain : Plain env response)
    (otherPlain : Plain env other) (same : response.stream = other.stream) : response = other := by
  have cut := cutLine_append (single_of_not_mem (cr_not_mem_statusLine response.status))
    (response.headerBytes ++ response.content)
  rw [← stream_eq, same, stream_eq,
    cutLine_append (single_of_not_mem (cr_not_mem_statusLine other.status))] at cut
  obtain ⟨line, head⟩ := Prod.mk.inj (Option.some.inj cut)
  have read := plain.run_headerBytes {} response.content
  rw [← head, otherPlain.run_headerBytes {} other.content] at read
  obtain ⟨-, parsers, content⟩ := Progress.done.inj read
  have pairs : other.headerPairs = response.headerPairs :=
    congrArg (fun parser : HTTPParser => parser.data.headers) parsers
  have entries : other.headers.entries = response.headers.entries := by
    refine List.map_injective_iff.mpr ?_ pairs
    rintro ⟨name, value⟩ ⟨otherName, otherValue⟩ equal
    cases equal
    rfl
  have status := statusLine_injective otherPlain.status plain.status line
  obtain ⟨status', headers, content'⟩ := response
  obtain ⟨otherStatus, otherHeaders, otherContent⟩ := other
  cases status
  cases content
  cases AList.ext entries
  rfl

/-- **A response reads back.** The first line is that of the status and of no
other; from the state at the start of a header line, with no headers collected,
the automaton collects the pairs of the header map in iteration order, ends at
the empty line and leaves the content; and no other response is sent as these
bytes. -/
theorem stream_unambiguous {response : HTTPResponse} (plain : Plain env response) (base : Data) :
    ∃ line head, cutLine response.stream = some (line, head) ∧
      statusStrToBuffer response.status = line ++ CRLF ∧
      (∀ status, status ≠ .undefined → statusStrToBuffer status = line ++ CRLF →
        status = response.status) ∧
      parseImpl env ⟨{ base with headers := [], contentLength := 0 }, .headerLineStart⟩ head =
        .done .good ⟨{ base with headers := response.headerPairs, contentLength := 0 }, .body⟩
          response.content ∧
      ∀ other, Plain env other → other.stream = response.stream → other = response := by
  refine ⟨statusLine response.status, response.headerBytes ++ response.content, ?_,
    statusStrToBuffer_eq _, ?_, plain.run_headerBytes base response.content, ?_⟩
  · rw [stream_eq]
    exact cutLine_append (single_of_not_mem (cr_not_mem_statusLine response.status)) _
  · intro status defined same
    rw [statusStrToBuffer_eq] at same
    exact statusLine_injective defined plain.status (List.append_cancel_right same)
  · intro other otherPlain same
    exact otherPlain.eq_of_stream_eq plain same

/-- A response whose content looks like a head. -/
theorem stream_unambiguous_notFound :
    let response : HTTPResponse :=
      { status := .notFound
        headers := UnorderedMap.assign ∅ (ascii "Server") (ascii " x: y")
        content := ascii "a: b\r\n\r\n" }
    ∃ line head, cutLine response.stream = some (line, head) ∧
      statusStrToBuffer response.status = line ++ CRLF ∧
      (∀ status, status ≠ .undefined → statusStrToBuffer status = line ++ CRLF →
        status = response.status) ∧
      parseImpl .sample ⟨{ headers := [], contentLength := 0 }, .headerLineStart⟩ head =
        .done .good ⟨{ headers := response.headerPairs, contentLength := 0 }, .body⟩
          response.content ∧
      ∀ other, Plain .sample other → other.stream = response.stream → other = response := by
  intro response
  have plain : Plain .sample response :=
    ⟨by decide, by decide +kernel, by decide +kernel, by decide +kernel⟩
  exact stream_unambiguous plain {}

end Webserver.HTTP.HTTPResponse
