import Mathlib.Tactic.SplitIfs
import Webserver.HTTP.Grammar

/-! # What the automaton has read

For each state of the automaton, `Reads` says in the terms of the grammar which
bytes lead to it from a fresh parser and what is collected by then. The two
directions are proved separately: every step from a state keeps the description
(`Reads.step`), and every described text is read into the described state
(`Reads.run_eq`).
-/

namespace Webserver.HTTP.Grammar

open Foundation Schema HTTPParser Incremental

variable {env : Externals}

/-! ## The branches in terms of the byte classes -/

theorem parseStep_methodStart (data : Data) (input : UInt8) :
    parseStep env ⟨data, .methodStart⟩ input =
      if TokenByte input then .more ⟨{ data with method := data.method ++ [input] }, .method⟩
      else .done .bad ⟨data, .methodStart⟩ := by
  simp only [parseStep, refused_eq]
  by_cases token : TokenByte input <;> simp [token]

theorem parseStep_method (data : Data) (input : UInt8) :
    parseStep env ⟨data, .method⟩ input =
      if input = SP then .more ⟨data, .uri⟩
      else if TokenByte input then
        .more ⟨{ data with method := data.method ++ [input] }, .method⟩
      else .done .bad ⟨data, .method⟩ := by
  simp only [parseStep, refused_eq]
  by_cases token : TokenByte input <;> simp [token]

theorem parseStep_uri (data : Data) (input : UInt8) :
    parseStep env ⟨data, .uri⟩ input =
      if input = SP then .more ⟨data, .httpVersionH⟩
      else if CtlByte input then .done .bad ⟨data, .uri⟩
      else .more ⟨{ data with uri := data.uri ++ [input] }, .uri⟩ := by
  simp only [parseStep, isCtl_promote, decide_eq_true_eq]

theorem parseStep_versionMajorStart (data : Data) (input : UInt8) :
    parseStep env ⟨data, .httpVersionMajorStart⟩ input =
      if DigitByte input then
        .more ⟨{ data with
          httpVersionMajor := toInt32 (data.httpVersionMajor * 10 + (promote input - 48)) },
          .httpVersionMajor⟩
      else .done .bad ⟨data, .httpVersionMajorStart⟩ := by
  simp only [parseStep, isDigit_promote, decide_eq_true_eq]

theorem parseStep_versionMajor (data : Data) (input : UInt8) :
    parseStep env ⟨data, .httpVersionMajor⟩ input =
      if input = byte '.' then .more ⟨data, .httpVersionMinorStart⟩
      else if DigitByte input then
        .more ⟨{ data with
          httpVersionMajor := toInt32 (data.httpVersionMajor * 10 + (promote input - 48)) },
          .httpVersionMajor⟩
      else .done .bad ⟨data, .httpVersionMajor⟩ := by
  simp only [parseStep, isDigit_promote, decide_eq_true_eq]

theorem parseStep_versionMinorStart (data : Data) (input : UInt8) :
    parseStep env ⟨data, .httpVersionMinorStart⟩ input =
      if DigitByte input then
        .more ⟨{ data with
          httpVersionMinor := toInt32 (data.httpVersionMinor * 10 + (promote input - 48)) },
          .httpVersionMinor⟩
      else .done .bad ⟨data, .httpVersionMinorStart⟩ := by
  simp only [parseStep, isDigit_promote, decide_eq_true_eq]

theorem parseStep_versionMinor (data : Data) (input : UInt8) :
    parseStep env ⟨data, .httpVersionMinor⟩ input =
      if input = CR then .more ⟨data, .expectingNewline1⟩
      else if DigitByte input then
        .more ⟨{ data with
          httpVersionMinor := toInt32 (data.httpVersionMinor * 10 + (promote input - 48)) },
          .httpVersionMinor⟩
      else .done .bad ⟨data, .httpVersionMinor⟩ := by
  simp only [parseStep, isDigit_promote, decide_eq_true_eq]

theorem parseStep_headerLineStart (data : Data) (input : UInt8) :
    parseStep env ⟨data, .headerLineStart⟩ input =
      if input = CR then .more ⟨data, .expectingNewline3⟩
      else if data.headers ≠ [] ∧ BlankByte input then .more ⟨data, .headerLws⟩
      else if TokenByte input then
        .more ⟨{ data with headers := data.headers ++ [([input], [])] }, .headerName⟩
      else .done .bad ⟨data, .headerLineStart⟩ := by
  simp only [parseStep, refused_eq]
  by_cases token : TokenByte input <;> simp [token, BlankByte]

theorem parseStep_headerLws (data : Data) (input : UInt8) :
    parseStep env ⟨data, .headerLws⟩ input =
      if input = CR then .more ⟨data, .expectingNewline2⟩
      else if BlankByte input then .more ⟨data, .headerLws⟩
      else if CtlByte input then .done .bad ⟨data, .headerLws⟩
      else .more ⟨{ data with
        headers := onBack (fun last => (last.1, last.2 ++ [input])) data.headers },
        .headerValue⟩ := by
  simp only [parseStep, isCtl_promote, decide_eq_true_eq]
  by_cases blank : BlankByte input
  · have either : input = SP ∨ input = HT := blank
    simp [blank, either]
  · have neither : ¬ (input = SP ∨ input = HT) := blank
    simp [blank, neither]

theorem parseStep_headerName (data : Data) (input : UInt8) :
    parseStep env ⟨data, .headerName⟩ input =
      if input = byte ':' then .more ⟨data, .spaceBeforeHeaderValue⟩
      else if TokenByte input then
        .more ⟨{ data with
          headers := onBack (fun last => (last.1 ++ [input], last.2)) data.headers },
          .headerName⟩
      else .done .bad ⟨data, .headerName⟩ := by
  simp only [parseStep, refused_eq]
  by_cases token : TokenByte input <;> simp [token]

theorem parseStep_headerValue (data : Data) (input : UInt8) :
    parseStep env ⟨data, .headerValue⟩ input =
      if input = CR then .more ⟨data, .expectingNewline2⟩
      else if CtlByte input then .done .bad ⟨data, .headerValue⟩
      else .more ⟨{ data with
        headers := onBack (fun last => (last.1, last.2 ++ [input])) data.headers },
        .headerValue⟩ := by
  simp only [parseStep, isCtl_promote, decide_eq_true_eq]

/-! ## The description of a state -/

/-- A header line or continuation line whose line end is still to come. -/
inductive OpenLine where
  | first (name : Text1 TokenByte) (text : Text FieldByte)
  | continuation (field : HeaderField) (line : Continuation)

namespace OpenLine

def bytes : OpenLine → Bytes
  | .first name text => name.bytes ++ byte ':' :: SP :: text.bytes
  | .continuation field line => field.bytes ++ (line.blank.bytes ++ line.text.bytes)

/-- The header field a line end makes of the line. -/
def close : OpenLine → HeaderField
  | .first name text => ⟨name, text, []⟩
  | .continuation field line => { field with continuations := field.continuations ++ [line] }

/-- The text of the line has begun; a value may stay empty. -/
def Begun : OpenLine → Prop
  | .first _ _ => True
  | .continuation _ line => line.text.bytes ≠ []

theorem close_bytes (line : OpenLine) : line.close.bytes = line.bytes ++ CRLF := by
  cases line with
  | first name text => simp [close, bytes, HeaderField.bytes]
  | continuation field line =>
      simp [close, bytes, HeaderField.bytes, Continuation.bytes]

/-- A byte appended to a line whose text has begun. -/
theorem exists_snoc (line : OpenLine) {input : UInt8} (begun : line.Begun)
    (member : FieldByte input) :
    ∃ longer : OpenLine, longer.Begun ∧ longer.bytes = line.bytes ++ [input] ∧
      longer.close.header = (line.close.header.1, line.close.header.2 ++ [input]) := by
  cases line with
  | first name text =>
      refine ⟨.first name (text.snoc input member), trivial, ?_, ?_⟩
      · simp [bytes]
      · simp [close, HeaderField.header, HeaderField.fullValue]
  | continuation field line =>
      have opens : (line.text.snoc input member).bytes.head? ≠ some SP := by
        rw [Text.snoc_bytes, List.head?_append_of_ne_nil _ begun]
        exact line.noSpace
      refine ⟨.continuation field ⟨line.blank, line.text.snoc input member, opens⟩, ?_, ?_, ?_⟩
      · simp [Begun]
      · simp [bytes]
      · simp [close, HeaderField.header, HeaderField.fullValue]

end OpenLine

/-- What the automaton has collected of the first two parts of a request line. -/
def Target.data (target : Target) : Data :=
  { method := target.method.bytes, uri := target.uri.bytes }

/-- A head that goes on with one more, unfinished, header. -/
def Head.dataWith (head : Head) (header : HTTPHeader) : Data :=
  { head.data with headers := head.headers ++ [header] }

/-- The bytes and the collected data that belong to a state of the automaton. -/
def Reads (env : Externals) : HTTPParser → Bytes → Prop
  | ⟨data, .methodStart⟩, read => read = [] ∧ data = {}
  | ⟨data, .method⟩, read => ∃ method : Text1 TokenByte,
      read = method.bytes ∧ data = { method := method.bytes }
  | ⟨data, .uri⟩, read => ∃ target : Target,
      read = target.openBytes ∧ data = target.data
  | ⟨data, .httpVersionH⟩, read => ∃ target : Target,
      read = target.bytes ∧ data = target.data
  | ⟨data, .httpVersionT1⟩, read => ∃ target : Target,
      read = target.bytes ++ ascii "H" ∧ data = target.data
  | ⟨data, .httpVersionT2⟩, read => ∃ target : Target,
      read = target.bytes ++ ascii "HT" ∧ data = target.data
  | ⟨data, .httpVersionP⟩, read => ∃ target : Target,
      read = target.bytes ++ ascii "HTT" ∧ data = target.data
  | ⟨data, .httpVersionSlash⟩, read => ∃ target : Target,
      read = target.bytes ++ ascii "HTTP" ∧ data = target.data
  | ⟨data, .httpVersionMajorStart⟩, read => ∃ target : Target,
      read = target.bytes ++ ascii "HTTP/" ∧ data = target.data
  | ⟨data, .httpVersionMajor⟩, read => ∃ (target : Target) (major : Text1 DigitByte),
      read = target.bytes ++ (ascii "HTTP/" ++ major.bytes) ∧
      data = { target.data with httpVersionMajor := toInt32 (decimal major.bytes) }
  | ⟨data, .httpVersionMinorStart⟩, read => ∃ (target : Target) (major : Text1 DigitByte),
      read = target.bytes ++ (ascii "HTTP/" ++ (major.bytes ++ [byte '.'])) ∧
      data = { target.data with httpVersionMajor := toInt32 (decimal major.bytes) }
  | ⟨data, .httpVersionMinor⟩, read => ∃ line : RequestLine,
      read = line.openBytes ∧ data = Head.data ⟨line, []⟩
  | ⟨data, .expectingNewline1⟩, read => ∃ line : RequestLine,
      read = line.openBytes ++ [CR] ∧ data = Head.data ⟨line, []⟩
  | ⟨data, .headerLineStart⟩, read => ∃ head : Head,
      read = head.openBytes ∧ data = head.data
  | ⟨data, .headerLws⟩, read => ∃ (head : Head) (field : HeaderField) (blank : Text1 BlankByte),
      read = head.openBytes ++ (field.bytes ++ blank.bytes) ∧ data = head.dataWith field.header
  | ⟨data, .headerName⟩, read => ∃ (head : Head) (name : Text1 TokenByte),
      read = head.openBytes ++ name.bytes ∧ data = head.dataWith (name.bytes, [])
  | ⟨data, .spaceBeforeHeaderValue⟩, read => ∃ (head : Head) (name : Text1 TokenByte),
      read = head.openBytes ++ (name.bytes ++ [byte ':']) ∧ data = head.dataWith (name.bytes, [])
  | ⟨data, .headerValue⟩, read => ∃ (head : Head) (line : OpenLine), line.Begun ∧
      read = head.openBytes ++ line.bytes ∧ data = head.dataWith line.close.header
  | ⟨data, .expectingNewline2⟩, read => ∃ (head : Head) (line : OpenLine),
      read = head.openBytes ++ (line.bytes ++ [CR]) ∧ data = head.dataWith line.close.header
  | ⟨data, .expectingNewline3⟩, read => ∃ head : Head,
      read = head.openBytes ++ [CR] ∧ data = head.data
  | ⟨data, .body⟩, read => ∃ (head : Head) (content : Bytes) (length : Int),
      findContentLength env 0 head.headers = .ok length ∧ length ≠ 0 ∧
      content.length < toSizeT length ∧ read = head.bytes ++ content ∧
      data = { head.data with content, contentLength := length }

/-! ## Steps keep the description -/

theorem fitsInt_of_findContentLength {headers : List HTTPHeader} {length : Int}
    (declared : findContentLength env 0 headers = .ok length) : FitsInt length := by
  induction headers with
  | nil =>
      cases declared
      decide
  | cons header headers ih =>
      simp only [findContentLength] at declared
      split_ifs at declared
      · exact fitsInt_of_stoi declared
      · exact ih declared

section Steps

variable {data : Data} {next : HTTPParser} {read : Bytes} {input : UInt8}

/-- The states that expect one fixed byte leave the collected data alone. -/
theorem turn_of_expected {expected : UInt8} {state target : ParserState}
    (turn : (if input = expected then .more ⟨data, target⟩ else .done .bad ⟨data, state⟩) =
      (.more next : Turn HTTPParser Verdict)) :
    input = expected ∧ next = ⟨data, target⟩ := by
  split_ifs at turn with same
  · cases turn
    exact ⟨same, rfl⟩

/-- The line feed behind a head goes on to a body of the declared length. -/
theorem turn_of_expectingNewline3
    (turn : parseStep env ⟨data, .expectingNewline3⟩ input = .more next) :
    input = LF ∧ ∃ length, findContentLength env data.contentLength data.headers = .ok length ∧
      length ≠ 0 ∧ next = ⟨{ data with contentLength := length }, .body⟩ := by
  simp only [parseStep] at turn
  split_ifs at turn with newline
  cases declared : findContentLength env data.contentLength data.headers with
  | error exception =>
      rw [declared] at turn
      cases turn
  | ok length =>
      rw [declared] at turn
      simp only at turn
      split_ifs at turn with none
      cases turn
      exact ⟨newline, length, rfl, none, rfl⟩

/-- A byte of a body that is not its last. -/
theorem turn_of_body (turn : parseStep env ⟨data, .body⟩ input = .more next) :
    (data.content ++ [input]).length ≠ toSizeT data.contentLength ∧
      next = ⟨{ data with content := data.content ++ [input] }, .body⟩ := by
  simp only [parseStep] at turn
  split_ifs at turn with full
  cases turn
  exact ⟨full, rfl⟩

theorem Reads.step_methodStart (reads : Reads env ⟨data, .methodStart⟩ read)
    (turn : parseStep env ⟨data, .methodStart⟩ input = .more next) :
    Reads env next (read ++ [input]) := by
  obtain ⟨rfl, rfl⟩ := reads
  rw [parseStep_methodStart] at turn
  split_ifs at turn with token
  · cases turn
    exact ⟨Text1.single input token, rfl, rfl⟩

theorem Reads.step_method (reads : Reads env ⟨data, .method⟩ read)
    (turn : parseStep env ⟨data, .method⟩ input = .more next) :
    Reads env next (read ++ [input]) := by
  obtain ⟨method, rfl, rfl⟩ := reads
  rw [parseStep_method] at turn
  split_ifs at turn with space token
  · cases turn
    exact ⟨⟨method, Text.nil⟩, by simp [Target.openBytes, space], rfl⟩
  · cases turn
    exact ⟨method.snoc input token, rfl, rfl⟩

theorem Reads.step_uri (reads : Reads env ⟨data, .uri⟩ read)
    (turn : parseStep env ⟨data, .uri⟩ input = .more next) :
    Reads env next (read ++ [input]) := by
  obtain ⟨target, rfl, rfl⟩ := reads
  rw [parseStep_uri] at turn
  split_ifs at turn with space control
  · cases turn
    exact ⟨target, by rw [space, Target.bytes], rfl⟩
  · cases turn
    have member : UriByte input := ⟨control, space⟩
    exact ⟨⟨target.method, target.uri.snoc input member⟩, by simp [Target.openBytes], rfl⟩

theorem Reads.step_versionMajorStart (reads : Reads env ⟨data, .httpVersionMajorStart⟩ read)
    (turn : parseStep env ⟨data, .httpVersionMajorStart⟩ input = .more next) :
    Reads env next (read ++ [input]) := by
  obtain ⟨target, rfl, rfl⟩ := reads
  rw [parseStep_versionMajorStart] at turn
  split_ifs at turn with digit
  · cases turn
    refine ⟨target, Text1.single input digit, by simp, ?_⟩
    rw [Text1.single_bytes]
    simp [Target.data, toInt32_decimal_single digit]

theorem Reads.step_versionMajor (reads : Reads env ⟨data, .httpVersionMajor⟩ read)
    (turn : parseStep env ⟨data, .httpVersionMajor⟩ input = .more next) :
    Reads env next (read ++ [input]) := by
  obtain ⟨target, major, rfl, rfl⟩ := reads
  rw [parseStep_versionMajor] at turn
  split_ifs at turn with dot digit
  · cases turn
    exact ⟨target, major, by simp [dot], rfl⟩
  · cases turn
    refine ⟨target, major.snoc input digit, by simp, ?_⟩
    rw [Text1.snoc_bytes, ← toInt32_decimal_concat _ digit]

theorem Reads.step_versionMinorStart (reads : Reads env ⟨data, .httpVersionMinorStart⟩ read)
    (turn : parseStep env ⟨data, .httpVersionMinorStart⟩ input = .more next) :
    Reads env next (read ++ [input]) := by
  obtain ⟨target, major, rfl, rfl⟩ := reads
  rw [parseStep_versionMinorStart] at turn
  split_ifs at turn with digit
  · cases turn
    refine ⟨⟨target, major, Text1.single input digit⟩, by simp [RequestLine.openBytes], ?_⟩
    simp [Target.data, Head.data, Head.headers, toInt32_decimal_single digit]

theorem Reads.step_versionMinor (reads : Reads env ⟨data, .httpVersionMinor⟩ read)
    (turn : parseStep env ⟨data, .httpVersionMinor⟩ input = .more next) :
    Reads env next (read ++ [input]) := by
  obtain ⟨line, rfl, rfl⟩ := reads
  rw [parseStep_versionMinor] at turn
  split_ifs at turn with newline digit
  · cases turn
    exact ⟨line, by rw [newline], rfl⟩
  · cases turn
    refine ⟨{ line with minor := line.minor.snoc input digit },
      by simp [RequestLine.openBytes], ?_⟩
    simp [Head.data, Head.headers, toInt32_decimal_concat _ digit]

theorem Reads.step_headerLineStart (reads : Reads env ⟨data, .headerLineStart⟩ read)
    (turn : parseStep env ⟨data, .headerLineStart⟩ input = .more next) :
    Reads env next (read ++ [input]) := by
  obtain ⟨head, rfl, rfl⟩ := reads
  rw [parseStep_headerLineStart] at turn
  split_ifs at turn with newline continues token
  · cases turn
    exact ⟨head, by rw [newline], rfl⟩
  · cases turn
    obtain ⟨line, fields⟩ := head
    obtain ⟨someHeader, blank⟩ := continues
    rcases List.eq_nil_or_concat fields with rfl | ⟨front, last, rfl⟩
    · exact (someHeader rfl).elim
    · refine ⟨⟨line, front⟩, last, Text1.single input blank, ?_, ?_⟩
      · simp [Head.openBytes]
      · simp [Head.dataWith, Head.data, Head.headers]
  · cases turn
    exact ⟨head, Text1.single input token, rfl, rfl⟩

theorem Reads.step_headerName (reads : Reads env ⟨data, .headerName⟩ read)
    (turn : parseStep env ⟨data, .headerName⟩ input = .more next) :
    Reads env next (read ++ [input]) := by
  obtain ⟨head, name, rfl, rfl⟩ := reads
  rw [parseStep_headerName] at turn
  split_ifs at turn with colon token
  · cases turn
    exact ⟨head, name, by simp [colon], rfl⟩
  · cases turn
    exact ⟨head, name.snoc input token, by simp, by simp [Head.dataWith]⟩

theorem Reads.step_headerLws (reads : Reads env ⟨data, .headerLws⟩ read)
    (turn : parseStep env ⟨data, .headerLws⟩ input = .more next) :
    Reads env next (read ++ [input]) := by
  obtain ⟨head, field, blank, rfl, rfl⟩ := reads
  rw [parseStep_headerLws] at turn
  split_ifs at turn with newline stays control
  · cases turn
    -- the line ends before its text has begun
    refine ⟨head, .continuation field ⟨blank, Text.nil, by simp⟩, ?_, ?_⟩
    · simp [OpenLine.bytes, newline]
    · simp [OpenLine.close, HeaderField.header, HeaderField.fullValue]
  · cases turn
    exact ⟨head, field, blank.snoc input stays, by simp, rfl⟩
  · cases turn
    have member : FieldByte input := control
    have opens : (Text.nil.snoc input member).bytes.head? ≠ some SP := by
      have notSpace : input ≠ SP := fun space => stays (Or.inl space)
      simpa using notSpace
    refine ⟨head, .continuation field ⟨blank, Text.nil.snoc input member, opens⟩, ?_, ?_, ?_⟩
    · simp [OpenLine.Begun]
    · simp [OpenLine.bytes]
    · simp [Head.dataWith, OpenLine.close, HeaderField.header, HeaderField.fullValue]

theorem Reads.step_headerValue (reads : Reads env ⟨data, .headerValue⟩ read)
    (turn : parseStep env ⟨data, .headerValue⟩ input = .more next) :
    Reads env next (read ++ [input]) := by
  obtain ⟨head, line, begun, rfl, rfl⟩ := reads
  rw [parseStep_headerValue] at turn
  split_ifs at turn with newline control
  · cases turn
    exact ⟨head, line, by simp [newline], rfl⟩
  · cases turn
    obtain ⟨longer, stillBegun, bytesEq, headerEq⟩ := line.exists_snoc begun control
    refine ⟨head, longer, stillBegun, by simp [bytesEq], ?_⟩
    simp [Head.dataWith, headerEq]

theorem Reads.step_expectingNewline2 (reads : Reads env ⟨data, .expectingNewline2⟩ read)
    (turn : parseStep env ⟨data, .expectingNewline2⟩ input = .more next) :
    Reads env next (read ++ [input]) := by
  obtain ⟨head, line, rfl, rfl⟩ := reads
  obtain ⟨rfl, rfl⟩ := turn_of_expected turn
  refine ⟨{ head with fields := head.fields ++ [line.close] }, ?_, ?_⟩
  · simp [Head.openBytes, line.close_bytes, CRLF]
  · simp [Head.dataWith, Head.data, Head.headers]

theorem Reads.step_expectingNewline3 (reads : Reads env ⟨data, .expectingNewline3⟩ read)
    (turn : parseStep env ⟨data, .expectingNewline3⟩ input = .more next) :
    Reads env next (read ++ [input]) := by
  obtain ⟨head, rfl, rfl⟩ := reads
  obtain ⟨rfl, length, declared, nonzero, rfl⟩ := turn_of_expectingNewline3 turn
  have fits := fitsInt_of_findContentLength declared
  refine ⟨head, [], length, declared, nonzero, ?_, ?_, rfl⟩
  · exact Nat.pos_of_ne_zero fun zero => nonzero ((toSizeT_eq_zero_iff fits).mp zero)
  · simp [Head.bytes, CRLF]

theorem Reads.step_body (reads : Reads env ⟨data, .body⟩ read)
    (turn : parseStep env ⟨data, .body⟩ input = .more next) :
    Reads env next (read ++ [input]) := by
  obtain ⟨head, content, length, declared, nonzero, short, rfl, rfl⟩ := reads
  obtain ⟨notFull, rfl⟩ := turn_of_body turn
  refine ⟨head, content ++ [input], length, declared, nonzero, ?_, by simp, rfl⟩
  simp only [List.length_append, List.length_singleton] at notFull ⊢
  omega

/-- **Soundness of a step.** A byte that does not decide leads to the state
described by the bytes read so far. -/
theorem Reads.step {parser : HTTPParser} (reads : Reads env parser read)
    (turn : parseStep env parser input = .more next) : Reads env next (read ++ [input]) := by
  obtain ⟨data, state⟩ := parser
  cases state with
  | methodStart => exact reads.step_methodStart turn
  | method => exact reads.step_method turn
  | uri => exact reads.step_uri turn
  | httpVersionMajorStart => exact reads.step_versionMajorStart turn
  | httpVersionMajor => exact reads.step_versionMajor turn
  | httpVersionMinorStart => exact reads.step_versionMinorStart turn
  | httpVersionMinor => exact reads.step_versionMinor turn
  | headerLineStart => exact reads.step_headerLineStart turn
  | headerLws => exact reads.step_headerLws turn
  | headerName => exact reads.step_headerName turn
  | headerValue => exact reads.step_headerValue turn
  | expectingNewline2 => exact reads.step_expectingNewline2 turn
  | expectingNewline3 => exact reads.step_expectingNewline3 turn
  | body => exact reads.step_body turn
  | httpVersionH | httpVersionT1 | httpVersionT2 | httpVersionP | httpVersionSlash =>
      obtain ⟨target, rfl, rfl⟩ := reads
      obtain ⟨rfl, rfl⟩ := turn_of_expected turn
      exact ⟨target, by simp [ascii], rfl⟩
  | expectingNewline1 =>
      obtain ⟨line, rfl, rfl⟩ := reads
      obtain ⟨rfl, rfl⟩ := turn_of_expected turn
      exact ⟨⟨line, []⟩, by simp [Head.openBytes, RequestLine.bytes, CRLF], rfl⟩
  | spaceBeforeHeaderValue =>
      obtain ⟨head, name, rfl, rfl⟩ := reads
      obtain ⟨rfl, rfl⟩ := turn_of_expected turn
      refine ⟨head, .first name Text.nil, trivial, ?_, rfl⟩
      simp [OpenLine.bytes]

end Steps

end Webserver.HTTP.Grammar
