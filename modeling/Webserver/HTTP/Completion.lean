import Webserver.Foundation.Numerals
import Webserver.HTTP.Filling

/-! # Completing what is indeterminate

A call that answers `indeterminate` has received the beginning of a message. Some
continuation makes the message valid unless the automaton has already passed
something it checks only at the end of the head, or never: a first
`Content-Length` that is no length, or an empty line without a `Host` before it.
-/

namespace Webserver.HTTP.Grammar

open Foundation Schema HTTPParser Incremental

variable {env : Externals}

/-- Some continuation makes a call return `good`, with a content that a vector of
`char` can hold. -/
def Completable (isHttp : Bool) (origin : env.IPAddress) (read : Bytes) : Prop :=
  ∃ continuation after rest,
    (HTTPParser.parse {} (requestOf isHttp origin) (read ++ continuation)).result = .ok .good ∧
    parseImpl env {} (read ++ continuation) = .done .good after rest ∧
    after.data.content.length < 2 ^ 63

/-- One of the headers is named `Host`. -/
def HasHost (headers : List HTTPHeader) : Prop :=
  ∃ header ∈ headers, header.1.map lower = ascii "host"

/-- The first `Content-Length`, if there is one, is a length. -/
def LengthAccepted (env : Externals) (headers : List HTTPHeader) : Prop :=
  ∀ value, firstContentLength env headers = some value → DenotesLength value

/-- Nothing received rules out a message: the first `Content-Length` of the headers
that a later line has closed is a length, that of a header still open begins one,
and a `Host` precedes the empty line. -/
structure Promising (env : Externals) (read : Bytes) : Prop where
  closed : ∀ (head : Head) (next : UInt8), head.openBytes ++ [next] <+: read →
    ¬ BlankByte next → LengthAccepted env head.headers
  growing : ∀ (head : Head) (line : OpenLine), head.openBytes ++ line.bytes <+: read →
    firstContentLength env head.headers = none →
      env.lexcmpi line.close.header.1 Header.contentLength = 0 →
        BeginsLength line.close.header.2
  host : ∀ head : Head, head.openBytes ++ [CR] <+: read → HasHost head.headers

/-! ## What later bytes leave of the headers -/

/-- The states of a run that has closed some headers and collected further ones. -/
def Beyond (further : List HTTPHeader) : ParserState → Prop
  | .headerLineStart | .headerLws | .headerName | .spaceBeforeHeaderValue | .headerValue
  | .expectingNewline2 => further ≠ []
  | .expectingNewline3 | .body => True
  | _ => False

/-- Some headers are closed. -/
def Closed (front : List HTTPHeader) (parser : HTTPParser) : Prop :=
  ∃ further, parser.data.headers = front ++ further ∧ Beyond further parser.state

/-- All headers are collected. -/
def Ended (headers : List HTTPHeader) (parser : HTTPParser) : Prop :=
  parser.data.headers = headers ∧
    (parser.state = .expectingNewline3 ∨ parser.state = .body)

/-- A header may still grow. -/
def Open (front : List HTTPHeader) (header : HTTPHeader) (parser : HTTPParser) : Prop :=
  parser.data.headers = front ++ [header] ∧
    parser.state ∈ [ParserState.headerLineStart, .headerLws, .headerValue, .expectingNewline2]

/-- A header has its name and the beginning of its value. -/
def Started (front : List HTTPHeader) (header : HTTPHeader) (parser : HTTPParser) : Prop :=
  ∃ more, Open front (header.1, header.2 ++ more) parser ∨
    Closed (front ++ [(header.1, header.2 ++ more)]) parser

theorem onBack_append (change : HTTPHeader → HTTPHeader) (front : List HTTPHeader)
    {further : List HTTPHeader} (nonempty : further ≠ []) :
    ∃ changed, changed ≠ [] ∧ onBack change (front ++ further) = front ++ changed := by
  obtain ⟨init, last, rfl⟩ := (List.eq_nil_or_concat' further).resolve_left nonempty
  refine ⟨init ++ [change last], by simp, ?_⟩
  rw [← List.append_assoc, onBack_concat, List.append_assoc]

theorem Ended.closed {front further : List HTTPHeader} {parser : HTTPParser}
    (ended : Ended (front ++ further) parser) : Closed front parser := by
  obtain ⟨data, state⟩ := parser
  obtain ⟨shape, rfl | rfl⟩ := ended
  · exact ⟨further, shape, trivial⟩
  · exact ⟨further, shape, trivial⟩

/-- Behind the empty line no header is added. -/
theorem Ended.step {headers : List HTTPHeader} {parser next : HTTPParser} {input : UInt8}
    (ended : Ended headers parser) (turn : parseStep env parser input = .more next) :
    Ended headers next := by
  obtain ⟨data, state⟩ := parser
  obtain ⟨shape, rfl | rfl⟩ := ended
  · obtain ⟨-, length, -, -, rfl⟩ := turn_of_expectingNewline3 turn
    exact ⟨shape, Or.inr rfl⟩
  · obtain ⟨-, rfl⟩ := turn_of_body turn
    exact ⟨shape, Or.inr rfl⟩

/-- No byte reaches behind a header that is closed. -/
theorem Closed.step {front : List HTTPHeader} {parser next : HTTPParser} {input : UInt8}
    (closed : Closed front parser) (turn : parseStep env parser input = .more next) :
    Closed front next := by
  obtain ⟨data, state⟩ := parser
  obtain ⟨further, shape, beyond⟩ := closed
  change data.headers = front ++ further at shape
  have changed (change : HTTPHeader → HTTPHeader) (nonempty : further ≠ []) :
      ∃ later, later ≠ [] ∧ onBack change data.headers = front ++ later :=
    shape ▸ onBack_append change front nonempty
  cases state with
  | headerLineStart =>
      rw [parseStep_headerLineStart] at turn
      split_ifs at turn with ended blank token
      · cases turn
        exact ⟨further, shape, trivial⟩
      · cases turn
        exact ⟨further, shape, beyond⟩
      · cases turn
        exact ⟨further ++ [([input], [])], by simp [shape], by simp [Beyond]⟩
  | headerLws =>
      rw [parseStep_headerLws] at turn
      split_ifs at turn with ended blank control
      · cases turn
        exact ⟨further, shape, beyond⟩
      · cases turn
        exact ⟨further, shape, beyond⟩
      · cases turn
        obtain ⟨later, nonempty, same⟩ := changed _ beyond
        exact ⟨later, same, nonempty⟩
  | headerName =>
      rw [parseStep_headerName] at turn
      split_ifs at turn with colon token
      · cases turn
        exact ⟨further, shape, beyond⟩
      · cases turn
        obtain ⟨later, nonempty, same⟩ := changed _ beyond
        exact ⟨later, same, nonempty⟩
  | spaceBeforeHeaderValue =>
      obtain ⟨-, rfl⟩ := turn_of_expected turn
      exact ⟨further, shape, beyond⟩
  | headerValue =>
      rw [parseStep_headerValue] at turn
      split_ifs at turn with ended control
      · cases turn
        exact ⟨further, shape, beyond⟩
      · cases turn
        obtain ⟨later, nonempty, same⟩ := changed _ beyond
        exact ⟨later, same, nonempty⟩
  | expectingNewline2 =>
      obtain ⟨-, rfl⟩ := turn_of_expected turn
      exact ⟨further, shape, beyond⟩
  | expectingNewline3 => exact Ended.closed (Ended.step ⟨shape, Or.inl rfl⟩ turn)
  | body => exact Ended.closed (Ended.step ⟨shape, Or.inr rfl⟩ turn)
  | _ => exact beyond.elim

/-- A byte goes on with an open header or closes it. -/
theorem Open.step {front : List HTTPHeader} {header : HTTPHeader} {parser next : HTTPParser}
    {input : UInt8} (opened : Open front header parser)
    (turn : parseStep env parser input = .more next) : Started front header next := by
  obtain ⟨data, state⟩ := parser
  obtain ⟨shape, place⟩ := opened
  change data.headers = front ++ [header] at shape
  have grown : Open front (header.1, header.2 ++ [input])
      ⟨{ data with headers := onBack (fun last => (last.1, last.2 ++ [input])) data.headers },
        .headerValue⟩ := by
    refine ⟨?_, by simp⟩
    rw [shape, onBack_concat]
  have kept (state : ParserState) (inside : state ∈
      [ParserState.headerLineStart, .headerLws, .headerValue, .expectingNewline2]) :
      Started front header ⟨data, state⟩ :=
    ⟨[], Or.inl ⟨by simpa using shape, inside⟩⟩
  simp only [List.mem_cons, List.not_mem_nil, or_false] at place
  rcases place with rfl | rfl | rfl | rfl
  · rw [parseStep_headerLineStart] at turn
    split_ifs at turn with ended blank token
    · cases turn
      exact ⟨[], Or.inr ⟨[], by simpa using shape, trivial⟩⟩
    · cases turn
      exact kept _ (by simp)
    · cases turn
      exact ⟨[], Or.inr ⟨[([input], [])], by simp [shape], List.cons_ne_nil _ _⟩⟩
  · rw [parseStep_headerLws] at turn
    split_ifs at turn with ended blank control
    · cases turn
      exact kept _ (by simp)
    · cases turn
      exact kept _ (by simp)
    · cases turn
      exact ⟨[input], Or.inl grown⟩
  · rw [parseStep_headerValue] at turn
    split_ifs at turn with ended control
    · cases turn
      exact kept _ (by simp)
    · cases turn
      exact ⟨[input], Or.inl grown⟩
  · obtain ⟨-, rfl⟩ := turn_of_expected turn
    exact kept _ (by simp)

theorem Started.step {front : List HTTPHeader} {header : HTTPHeader} {parser next : HTTPParser}
    {input : UInt8} (started : Started front header parser)
    (turn : parseStep env parser input = .more next) : Started front header next := by
  obtain ⟨more, opened | closed⟩ := started
  · obtain ⟨further, later⟩ := opened.step turn
    refine ⟨more ++ further, ?_⟩
    simpa [List.append_assoc] using later
  · exact ⟨more, Or.inr (closed.step turn)⟩

/-- What every byte preserves holds of the headers of an accepted message. -/
theorem headers_of_good {motive : HTTPParser → Prop} {parser last : HTTPParser}
    {input rest : Bytes} (start : motive parser)
    (preserved : ∀ {middle next symbol}, motive middle →
      parseStep env middle symbol = .more next → motive next)
    (good : run (parseStep env) parser input = .done .good last rest) :
    ∃ before, motive before ∧ last.data.headers = before.data.headers ∧
      (before.state = .expectingNewline3 ∨ before.state = .body) := by
  obtain ⟨front, symbol, before, -, running, turn⟩ := run_eq_done_iff.mp good
  have held : motive before := run_more_induct (motive := fun parser _ => motive parser) start
    (fun holds turn => preserved holds turn) running
  refine ⟨before, held, ?_⟩
  rcases parseStep_done_cases turn with ⟨refused, -⟩ | ⟨ended, -, -, -, rfl⟩ |
    ⟨-, -, -, exception, thrown, -⟩ | ⟨inBody, -, -, rfl⟩
  · cases refused
  · exact ⟨rfl, Or.inl ended⟩
  · cases thrown
  · exact ⟨rfl, Or.inr inBody⟩

theorem Closed.headers {front : List HTTPHeader} {parser last : HTTPParser} {input rest : Bytes}
    (closed : Closed front parser)
    (good : run (parseStep env) parser input = .done .good last rest) :
    front <+: last.data.headers := by
  obtain ⟨before, ⟨further, shape, -⟩, same, -⟩ :=
    headers_of_good closed (fun closed turn => closed.step turn) good
  exact ⟨further, by rw [same, shape]⟩

theorem Started.headers {front : List HTTPHeader} {header : HTTPHeader} {parser last : HTTPParser}
    {input rest : Bytes} (started : Started front header parser)
    (good : run (parseStep env) parser input = .done .good last rest) :
    ∃ more, front ++ [(header.1, header.2 ++ more)] <+: last.data.headers := by
  obtain ⟨before, ⟨more, opened | ⟨further, shape, -⟩⟩, same, ended⟩ :=
    headers_of_good started (fun started turn => started.step turn) good
  · -- an open header is in none of the two last states
    obtain ⟨-, place⟩ := opened
    rcases ended with ended | ended <;> simp [ended] at place
  · exact ⟨more, further, by rw [same, shape]⟩

theorem firstContentLength_append (front further : List HTTPHeader) :
    firstContentLength env (front ++ further) =
      (firstContentLength env front).or (firstContentLength env further) := by
  simp only [firstContentLength, List.find?_append, Option.map_or]

theorem LengthAccepted.of_prefix {front headers : List HTTPHeader} (begins : front <+: headers)
    (accepted : LengthAccepted env headers) : LengthAccepted env front := by
  obtain ⟨further, rfl⟩ := begins
  intro value found
  exact accepted value (by rw [firstContentLength_append, found, Option.some_or])

/-- The length of a message whose content fits is not negative. -/
theorem lengthAccepted_of_good {input rest : Bytes} {last : HTTPParser}
    (good : run (parseStep env) {} input = .done .good last rest)
    (fits : last.data.content.length < 2 ^ 63) : LengthAccepted env last.data.headers := by
  obtain ⟨head, content, length, declared, full, -, rfl⟩ := run_good_iff.mp good
  have nonneg := nonneg_of_toSizeT_lt (fitsInt_of_findContentLength declared) (full ▸ fits)
  intro value found
  rw [findContentLength_eq, show firstContentLength env head.headers = some value from found]
    at declared
  exact ⟨length, declared, nonneg⟩

/-- A byte that opens no continuation line closes the headers before it. -/
theorem run_closing (head : Head) {next : UInt8} (notBlank : ¬ BlankByte next) :
    (∃ parser, run (parseStep env) {} (head.openBytes ++ [next]) = .more parser ∧
      Closed head.headers parser) ∨
    ∃ parser, run (parseStep env) {} (head.openBytes ++ [next]) = .done .bad parser [] := by
  rw [run_append_of_more _ (run_headOpen head)]
  have turn := @parseStep_headerLineStart env head.data next
  split_ifs at turn with ended blank token
  · exact Or.inl ⟨_, run_cons_more [] turn, [], by simp [Head.data], trivial⟩
  · exact (notBlank blank.2).elim
  · exact Or.inl ⟨_, run_cons_more [] turn, [([next], [])], rfl, List.cons_ne_nil _ _⟩
  · exact Or.inr ⟨_, run_cons_done [] turn⟩

/-- **Nothing is ruled out.** The beginning of a message rules out no message. -/
theorem Completable.promising (folding : CaseFolding env) {isHttp : Bool}
    {origin : env.IPAddress} {read : Bytes} (completable : Completable isHttp origin read) :
    Promising env read := by
  obtain ⟨continuation, last, rest, result, good, fits⟩ := completable
  have accepted := lengthAccepted_of_good good fits
  have fresh : parseImpl env {} [] = .more {} := rfl
  have onward {front : Bytes} {parser : HTTPParser} (begins : front <+: read)
      (running : run (parseStep env) {} front = .more parser) :
      ∃ later, run (parseStep env) parser later = .done .good last rest := by
    obtain ⟨between, rfl⟩ := begins
    refine ⟨between ++ continuation, ?_⟩
    rw [← run_append_of_more _ running, ← List.append_assoc]
    exact good
  constructor
  · intro head next begins notBlank
    rcases @run_closing env head next notBlank with ⟨parser, running, closed⟩ |
      ⟨parser, refused⟩
    · obtain ⟨later, decided⟩ := onward begins running
      exact accepted.of_prefix (closed.headers decided)
    · obtain ⟨between, rfl⟩ := begins
      have bad := run_append_of_done (between ++ continuation) refused
      rw [← List.append_assoc] at bad
      cases good.symm.trans bad
  · intro head line begins none named
    obtain ⟨state, ends, -, running⟩ := @run_openLine env head line
    obtain ⟨later, decided⟩ := onward begins running
    have started : Started head.headers line.close.header
        ⟨head.dataWith line.close.header, state⟩ := by
      refine ⟨[], Or.inl ⟨by simp [Head.dataWith], ?_⟩⟩
      rcases ends with rfl | rfl <;> simp
    obtain ⟨more, within⟩ := started.headers decided
    have denotes := accepted.of_prefix within (line.close.header.2 ++ more) (by
      rw [firstContentLength_append, none, Option.none_or]
      simp [firstContentLength, named])
    exact beginsLength_of_append denotes
  · intro head begins
    obtain ⟨later, decided⟩ := onward begins (run_headCR head)
    have ended : Ended head.headers ⟨head.data, .expectingNewline3⟩ := ⟨rfl, Or.inl rfl⟩
    obtain ⟨before, ⟨same, -⟩, collected, -⟩ :=
      headers_of_good ended (fun ended turn => ended.step turn) decided
    have host := (folding.parse_good_iff fresh good _).mp result
    change HasHost last.data.headers at host
    rwa [collected, same] at host

/-! ## Longer heads -/

/-- The fields of a head and one more. -/
def Head.snoc (head : Head) (field : HeaderField) : Head :=
  { head with fields := head.fields ++ [field] }

theorem Head.snoc_headers (head : Head) (field : HeaderField) :
    (head.snoc field).headers = head.headers ++ [field.header] := by
  simp [Head.snoc, Head.headers]

theorem Head.snoc_openBytes (head : Head) (field : HeaderField) :
    (head.snoc field).openBytes = head.openBytes ++ field.bytes := by
  simp [Head.snoc, Head.openBytes]

theorem LengthAccepted.exists_length {headers : List HTTPHeader}
    (accepted : LengthAccepted env headers) :
    ∃ length, findContentLength env 0 headers = .ok length ∧ 0 ≤ length := by
  rw [findContentLength_eq]
  cases found : firstContentLength env headers with
  | none => exact ⟨0, rfl, Int.le_refl 0⟩
  | some value => exact accepted value found

/-- A header line that names a host. -/
def hostField : HeaderField :=
  ⟨⟨⟨ascii "Host", by decide +kernel⟩, by decide⟩, .nil, []⟩

/-- The value of a length that has not begun yet. -/
def zeroText : Text FieldByte := Text.nil.snoc (byte '0') (by decide)

/-- A continuation line of a space and a zero. -/
def zeroLine : Continuation :=
  ⟨.single SP (Or.inl rfl), zeroText, by decide⟩

def oneDigit : Text1 DigitByte := .single (byte '1') (by decide)

/-- A field with its last line end taken back. -/
theorem HeaderField.exists_open (field : HeaderField) :
    ∃ line : OpenLine, line.close = field := by
  obtain ⟨name, value, continuations⟩ := field
  rcases List.eq_nil_or_concat' continuations with rfl | ⟨init, last, rfl⟩
  · exact ⟨.first name value, rfl⟩
  · exact ⟨.continuation ⟨name, value, init⟩ last, rfl⟩

theorem OpenLine.exists_name (line : OpenLine) :
    ∃ name : Text1 TokenByte, name.bytes <+: line.bytes := by
  cases line with
  | first name text => exact ⟨name, List.prefix_append _ _⟩
  | continuation field line =>
      exact ⟨field.name, by simp [bytes, HeaderField.bytes]⟩

/-- The name of a further header closes those before it. -/
theorem Promising.accepted {read : Bytes} (promising : Promising env read) {head : Head}
    {name : Text1 TokenByte} (begun : head.openBytes ++ name.bytes <+: read) :
    LengthAccepted env head.headers := by
  obtain ⟨first, rest, shape, token, -⟩ := name.exists_cons
  refine promising.closed head first (List.IsPrefix.trans ⟨rest, ?_⟩ begun) token.not_blank
  simp [shape]

/-! ## Completing what has begun -/

section Completions

variable (folding : CaseFolding env) (isHttp : Bool) (origin : env.IPAddress) {read : Bytes}

include folding

/-- The beginning of a message with a `Host` goes on with the rest of the body. -/
theorem completable_of_message {head : Head} (content : Bytes) {length : Int}
    (declared : findContentLength env 0 head.headers = .ok length)
    (due : (content.length : Int) ≤ length) (host : HasHost head.headers)
    (begins : read <+: head.bytes ++ content) : Completable isHttp origin read := by
  obtain ⟨between, begins⟩ := begins
  let body := content ++ List.replicate (length.toNat - content.length) 0
  have full : (body.length : Int) = length := by
    simp only [body, List.length_append, List.length_replicate]
    omega
  have fits := fitsInt_of_findContentLength declared
  have exact := toSizeT_of_nonneg (full ▸ Int.natCast_nonneg _) fits
  have whole : read ++ (between ++ List.replicate (length.toNat - content.length) 0) =
      head.bytes ++ (body ++ []) := by
    rw [← List.append_assoc, begins, List.append_nil, List.append_assoc]
  have good := run_good_iff.mpr ⟨head, body, length, declared, by omega, whole, rfl⟩
  have fresh : parseImpl env {} [] = .more {} := rfl
  refine ⟨_, _, [], (folding.parse_good_iff fresh good _).mpr host, good, ?_⟩
  obtain ⟨-, upper⟩ := fits
  change body.length < 2 ^ 63
  omega

/-- A head whose length is accepted goes on with a `Host`, the empty line and a body. -/
theorem completable_of_head {head : Head} (accepted : LengthAccepted env head.headers)
    (begins : read <+: head.openBytes) : Completable isHttp origin read := by
  have other : ¬ env.lexcmpi hostField.header.1 Header.contentLength = 0 := by
    change ¬ env.lexcmpi hostField.name.bytes _ = 0
    rw [folding.lexcmpi_contentLength hostField.name.members]
    decide +kernel
  have same : firstContentLength env (head.snoc hostField).headers =
      firstContentLength env head.headers := by
    rw [head.snoc_headers, firstContentLength_append]
    simp [firstContentLength, other]
  obtain ⟨length, declared, nonneg⟩ := accepted.exists_length
  rw [findContentLength_eq, ← same, ← findContentLength_eq] at declared
  refine completable_of_message folding isHttp origin [] declared nonneg ?_ ?_
  · exact ⟨hostField.header, by simp [head.snoc_headers], by decide +kernel⟩
  · refine begins.trans ⟨hostField.bytes ++ CRLF, ?_⟩
    simp [Head.bytes, head.snoc_openBytes]

/-- A head whose last field is not closed goes on with a continuation line if the
value of that field is still to become a length. -/
theorem completable_of_field (head : Head) (field : HeaderField)
    (accepted : LengthAccepted env head.headers)
    (growing : firstContentLength env head.headers = none →
      env.lexcmpi field.header.1 Header.contentLength = 0 → BeginsLength field.header.2)
    (begins : read <+: head.openBytes ++ field.bytes) : Completable isHttp origin read := by
  cases earlier : firstContentLength env head.headers with
  | some first =>
      refine completable_of_head folding isHttp origin ?_ (head.snoc_openBytes field ▸ begins)
      intro value found
      rw [head.snoc_headers, firstContentLength_append, earlier, Option.some_or] at found
      exact accepted value (earlier.trans found)
  | none =>
      have last (other : HeaderField) (value : Bytes)
          (found : firstContentLength env (head.snoc other).headers = some value) :
          env.lexcmpi other.header.1 Header.contentLength = 0 ∧ other.header.2 = value := by
        rw [head.snoc_headers, firstContentLength_append, earlier, Option.none_or] at found
        simpa [firstContentLength, List.find?_singleton] using found
      by_cases ready : DenotesLength field.header.2
      · refine completable_of_head folding isHttp origin ?_ (head.snoc_openBytes field ▸ begins)
        intro value found
        exact (last field value found).2 ▸ ready
      · let longer : HeaderField :=
          { field with continuations := field.continuations ++ [zeroLine] }
        have grown : longer.header = (field.header.1, field.header.2 ++ [byte '0']) := by
          simp [longer, HeaderField.header, HeaderField.fullValue, zeroLine, zeroText]
        have goesOn : longer.bytes = field.bytes ++ zeroLine.bytes := by
          simp [longer, HeaderField.bytes]
        have lengthens : LengthAccepted env (head.snoc longer).headers := by
          intro value found
          obtain ⟨named, rfl⟩ := last longer value found
          rw [grown] at named ⊢
          exact ((growing earlier named).resolve_left ready).denotesLength
        refine completable_of_head folding isHttp origin lengthens ?_
        rw [head.snoc_openBytes, goesOn, ← List.append_assoc]
        exact begins.trans (List.prefix_append _ _)

/-- A request line goes on with an empty head. -/
theorem completable_of_line (line : RequestLine) (begins : read <+: line.bytes) :
    Completable isHttp origin read := by
  have none : LengthAccepted env (Head.headers ⟨line, []⟩) := fun value found => nomatch found
  refine completable_of_head folding isHttp origin none ?_
  simpa [Head.openBytes] using begins

theorem completable_of_target (target : Target)
    (begins : read <+: target.bytes ++ ascii "HTTP/") : Completable isHttp origin read := by
  refine completable_of_line folding isHttp origin ⟨target, oneDigit, oneDigit⟩ (begins.trans ?_)
  refine ⟨oneDigit.bytes ++ byte '.' :: oneDigit.bytes ++ CRLF, ?_⟩
  simp [RequestLine.bytes, RequestLine.openBytes]

/-- A line that is not closed behind a head. -/
theorem Promising.completable_of_openLine (promising : Promising env read) (head : Head)
    (line : OpenLine) {field : HeaderField} (within : head.openBytes ++ line.bytes <+: read)
    (same : field.header = line.close.header) (begins : read <+: head.openBytes ++ field.bytes) :
    Completable isHttp origin read := by
  obtain ⟨name, opens⟩ := line.exists_name
  have accepted := promising.accepted
    (((List.prefix_append_right_inj head.openBytes).mpr opens).trans within)
  have growing := promising.growing head line within
  rw [← same] at growing
  exact completable_of_field folding isHttp origin head field accepted growing begins

/-- A name that is complete or still grows goes on with a value. -/
theorem Promising.completable_of_name (promising : Promising env read) (head : Head)
    (name : Text1 TokenByte) (begun : head.openBytes ++ name.bytes <+: read)
    (begins : read <+: head.openBytes ++ (name.bytes ++ [byte ':'])) :
    Completable isHttp origin read := by
  have zero : DenotesLength zeroText.bytes := ⟨0, by decide, Int.le_refl 0⟩
  have growing : BeginsLength (HeaderField.header ⟨name, zeroText, []⟩).2 := Or.inl zero
  refine completable_of_field folding isHttp origin head ⟨name, zeroText, []⟩
    (promising.accepted begun) (fun _ _ => growing) (begins.trans ?_)
  exact ⟨SP :: zeroText.bytes ++ CRLF, by simp [HeaderField.bytes]⟩

/-- **Something completes it.** -/
theorem Promising.completable {parser : HTTPParser} (promising : Promising env read)
    (running : run (parseStep env) {} read = .more parser) : Completable isHttp origin read := by
  have reads := run_eq_more_iff.mp running
  obtain ⟨data, state⟩ := parser
  cases state with
  | methodStart =>
      obtain ⟨rfl, -⟩ := reads
      exact completable_of_target folding isHttp origin
        ⟨.single (byte 'A') (by decide), .nil⟩ (List.nil_prefix)
  | method =>
      obtain ⟨method, rfl, -⟩ := reads
      refine completable_of_target folding isHttp origin ⟨method, .nil⟩ ?_
      exact ⟨SP :: SP :: ascii "HTTP/", by simp [Target.bytes, Target.openBytes]⟩
  | uri =>
      obtain ⟨target, rfl, -⟩ := reads
      refine completable_of_target folding isHttp origin target ?_
      exact ⟨SP :: ascii "HTTP/", by simp [Target.bytes]⟩
  | httpVersionH =>
      obtain ⟨target, rfl, -⟩ := reads
      exact completable_of_target folding isHttp origin target (List.prefix_append _ _)
  | httpVersionT1 | httpVersionT2 | httpVersionP | httpVersionSlash | httpVersionMajorStart =>
      obtain ⟨target, rfl, -⟩ := reads
      refine completable_of_target folding isHttp origin target ?_
      exact (List.prefix_append_right_inj _).mpr (by decide)
  | httpVersionMajor =>
      obtain ⟨target, major, rfl, -⟩ := reads
      refine completable_of_line folding isHttp origin ⟨target, major, oneDigit⟩ ?_
      exact ⟨byte '.' :: oneDigit.bytes ++ CRLF, by simp [RequestLine.bytes, RequestLine.openBytes]⟩
  | httpVersionMinorStart =>
      obtain ⟨target, major, rfl, -⟩ := reads
      refine completable_of_line folding isHttp origin ⟨target, major, oneDigit⟩ ?_
      exact ⟨oneDigit.bytes ++ CRLF, by simp [RequestLine.bytes, RequestLine.openBytes]⟩
  | httpVersionMinor =>
      obtain ⟨line, rfl, -⟩ := reads
      exact completable_of_line folding isHttp origin line (List.prefix_append _ _)
  | expectingNewline1 =>
      obtain ⟨line, rfl, -⟩ := reads
      exact completable_of_line folding isHttp origin line ⟨[LF], by simp [RequestLine.bytes, CRLF]⟩
  | headerLineStart =>
      obtain ⟨⟨line, fields⟩, rfl, -⟩ := reads
      rcases List.eq_nil_or_concat' fields with rfl | ⟨init, last, rfl⟩
      · exact completable_of_line folding isHttp origin line (by simp [Head.openBytes])
      · obtain ⟨openLine, rfl⟩ := HeaderField.exists_open last
        have split := Head.snoc_openBytes ⟨line, init⟩ openLine.close
        change Head.openBytes ⟨line, init ++ [openLine.close]⟩ = _ at split
        rw [split] at promising ⊢
        refine promising.completable_of_openLine folding isHttp origin _ openLine ?_ rfl
          List.prefix_rfl
        rw [openLine.close_bytes, ← List.append_assoc]
        exact List.prefix_append _ _
  | headerLws =>
      obtain ⟨head, field, blank, rfl, -⟩ := reads
      obtain ⟨line, rfl⟩ := HeaderField.exists_open field
      let longer : HeaderField := { line.close with
        continuations := line.close.continuations ++ [⟨blank, .nil, by simp⟩] }
      have same : longer.header = line.close.header := by
        simp [longer, HeaderField.header, HeaderField.fullValue]
      refine promising.completable_of_openLine folding isHttp origin head line ?_ same ?_
      · refine ⟨CRLF ++ blank.bytes, ?_⟩
        simp [line.close_bytes]
      · refine ⟨CRLF, ?_⟩
        simp [longer, HeaderField.bytes, Continuation.bytes]
  | headerName =>
      obtain ⟨head, name, rfl, -⟩ := reads
      exact promising.completable_of_name folding isHttp origin head name List.prefix_rfl
        ⟨[byte ':'], by simp⟩
  | spaceBeforeHeaderValue =>
      obtain ⟨head, name, rfl, -⟩ := reads
      exact promising.completable_of_name folding isHttp origin head name ⟨[byte ':'], by simp⟩
        List.prefix_rfl
  | headerValue =>
      obtain ⟨head, line, -, rfl, -⟩ := reads
      refine promising.completable_of_openLine folding isHttp origin head line List.prefix_rfl rfl
        ?_
      exact ⟨CRLF, by rw [line.close_bytes, List.append_assoc]⟩
  | expectingNewline2 =>
      obtain ⟨head, line, rfl, -⟩ := reads
      have within : head.openBytes ++ line.bytes <+: head.openBytes ++ (line.bytes ++ [CR]) :=
        ⟨[CR], by simp⟩
      refine promising.completable_of_openLine folding isHttp origin head line within rfl ?_
      exact ⟨[LF], by simp [line.close_bytes, CRLF]⟩
  | expectingNewline3 =>
      obtain ⟨head, rfl, -⟩ := reads
      have accepted := promising.closed head CR List.prefix_rfl (by decide)
      obtain ⟨length, declared, nonneg⟩ := accepted.exists_length
      refine completable_of_message folding isHttp origin [] declared nonneg
        (promising.host head List.prefix_rfl) ⟨[LF], by simp [Head.bytes, CRLF]⟩
  | body =>
      obtain ⟨head, content, length, declared, -, short, rfl, -⟩ := reads
      have ended : head.openBytes ++ [CR] <+: head.bytes ++ content :=
        ⟨LF :: content, by simp [Head.bytes, CRLF]⟩
      have accepted := promising.closed head CR ended (by decide)
      obtain ⟨same, found, nonneg⟩ := accepted.exists_length
      rw [declared] at found
      cases found
      have exact := toSizeT_of_nonneg nonneg (fitsInt_of_findContentLength declared)
      exact completable_of_message folding isHttp origin content declared (by omega)
        (promising.host head ended) List.prefix_rfl

end Completions

/-- **Part of a valid message.** What a fresh parser answers `indeterminate` is the
beginning of a message that it would call good exactly when it is promising. -/
theorem completable_iff (folding : CaseFolding env) (isHttp : Bool) (origin : env.IPAddress)
    {read : Bytes}
    (indeterminate : (HTTPParser.parse {} (requestOf isHttp origin) read).result =
      .ok .indeterminate) :
    Completable isHttp origin read ↔ Promising env read := by
  constructor
  · intro completable
    exact completable.promising folding
  · intro promising
    exact promising.completable folding isHttp origin
      ((parse_indeterminate_iff (requestOf isHttp origin)).mp indeterminate)

/-- A message up to the sign of its length. -/
theorem completable_iff_sign :
    let read := ascii "A / HTTP/1.0\r\nContent-Length: -"
    (HTTPParser.parse {} (requestOf true [] : HTTPRequest .sample) read).result =
        .ok .indeterminate ∧
      (@Completable .sample true [] read ↔ Promising .sample read) := by
  intro read
  have indeterminate : (HTTPParser.parse {} (requestOf true [] : HTTPRequest .sample) read).result =
      .ok .indeterminate := by decide +kernel
  exact ⟨indeterminate, completable_iff caseFolding_sample true [] indeterminate⟩

/-- An empty line that has begun without a `Host` before it. -/
theorem not_completable : ¬ ∀ (env : Externals), CaseFolding env →
    ∀ (isHttp : Bool) (origin : env.IPAddress) (read : Bytes),
      (HTTPParser.parse {} (requestOf isHttp origin) read).result = .ok .indeterminate →
      Completable isHttp origin read := by
  intro always
  let target : Target := ⟨.single (byte 'A') (by decide), ⟨ascii "/", by decide +kernel⟩⟩
  let head : Head := ⟨⟨target, oneDigit, oneDigit⟩, []⟩
  have indeterminate : (HTTPParser.parse {} (requestOf true [] : HTTPRequest .sample)
      (head.openBytes ++ [CR])).result = .ok .indeterminate := by decide +kernel
  have completable := always .sample caseFolding_sample true [] _ indeterminate
  obtain ⟨header, member, -⟩ :=
    (completable.promising caseFolding_sample).host head List.prefix_rfl
  cases member

end Webserver.HTTP.Grammar
