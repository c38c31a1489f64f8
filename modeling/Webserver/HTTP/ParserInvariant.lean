import Webserver.Foundation.Transition
import Webserver.HTTP.ParserCalls

/-! # The representation invariant of the parser

What the data of a parser is like in each state, in every parser that calls of
`Parse` and `Reset` lead to and at every byte inside a call. The branches that
append to the last header rely on it: they are in states in which a header has
been collected, so `back()` is never taken of an empty vector.
-/

namespace Webserver.HTTP.Grammar

open Foundation Schema HTTPParser Incremental

variable {env : Externals}

/-! ## Parsers in use -/

/-- A call of a public method. -/
inductive ParserCall (env : Externals) where
  | parse (request : HTTPRequest env) (buffer : Bytes)
  | reset

/-- The parser a call leaves. -/
def ParserCall.after (parser : HTTPParser) : ParserCall env → HTTPParser
  | .parse request buffer => (parser.parse request buffer).parser
  | .reset => parser.reset

/-- Calls in any order on a constructed parser. -/
def parserSystem (env : Externals) : System HTTPParser (ParserCall env) :=
  .ofStep (· = {}) (fun parser call => some (call.after parser))

/-! ## The invariant -/

/-- The vector that the branch of the current state takes `back()` of, if it does. -/
def backOf (parser : HTTPParser) (input : UInt8) : Option (List HTTPHeader) :=
  let headers := parser.data.headers
  let c := promote input
  match parser.state with
  | .headerLineStart =>
      if input = CR then none
      else if !headers.isEmpty && (input = SP || input = HT) then none
      else if !isChar c || isCtl c || isTspecial c then none
      else some (headers ++ [([], [])])
  | .headerLws =>
      if input = CR then none
      else if input = SP || input = HT then none
      else if isCtl c then none
      else some headers
  | .headerName =>
      if input = byte ':' then none
      else if !isChar c || isCtl c || isTspecial c then none
      else some headers
  | .headerValue =>
      if input = CR then none
      else if isCtl c then none
      else some headers
  | _ => none

/-- What is appended to the last header: a byte of its name or of its value. -/
def pushed (state : ParserState) (input : UInt8) (header : HTTPHeader) : HTTPHeader :=
  match state with
  | .headerLineStart | .headerName => (header.1 ++ [input], header.2)
  | _ => (header.1, header.2 ++ [input])

/-- A step changes the headers where it takes `back()`, and only there. -/
theorem headers_of_step {parser next : HTTPParser} {input : UInt8}
    (turn : parseStep env parser input = .more next) :
    next.data.headers =
      (backOf parser input).elim parser.data.headers (onBack (pushed parser.state input)) := by
  obtain ⟨data, state⟩ := parser
  cases state with
  | headerLineStart =>
      simp only [parseStep] at turn
      split_ifs at turn with ended blank refused
      · cases turn
        simp only [backOf, if_pos ended]
        rfl
      · cases turn
        simp only [backOf, if_neg ended, if_pos blank]
        rfl
      · cases turn
        simp only [backOf, if_neg ended, if_neg blank, if_neg refused, Option.elim_some, pushed,
          onBack_concat]
        rfl
  | headerLws =>
      simp only [parseStep] at turn
      split_ifs at turn with ended blank control
      · cases turn
        simp only [backOf, if_pos ended]
        rfl
      · cases turn
        simp only [backOf, if_neg ended, if_pos blank]
        rfl
      · cases turn
        simp only [backOf, if_neg ended, if_neg blank, if_neg control]
        rfl
  | headerName | headerValue =>
      simp only [parseStep] at turn
      split_ifs at turn with ended refused
      · cases turn
        simp only [backOf, if_pos ended]
        rfl
      · cases turn
        simp only [backOf, if_neg ended, if_neg refused]
        rfl
  | expectingNewline3 =>
      obtain ⟨-, length, -, -, rfl⟩ := turn_of_expectingNewline3 turn
      rfl
  | _ =>
      simp only [parseStep] at turn
      split_ifs at turn
      all_goals
        cases turn
        rfl

/-- The states in which a header is being read. -/
def InHeader : ParserState → Prop
  | .headerLws | .headerName | .spaceBeforeHeaderValue | .headerValue | .expectingNewline2 => True
  | _ => False

/-- A header with a token for a name and a value without control bytes. -/
structure WellFormed (header : HTTPHeader) : Prop where
  named : header.1 ≠ []
  name : ∀ input ∈ header.1, TokenByte input
  value : ∀ input ∈ header.2, ¬ CtlByte input

/-- The representation invariant. -/
structure RepInvariant (parser : HTTPParser) : Prop where
  collected : InHeader parser.state → parser.data.headers ≠ []
  headers : ∀ header ∈ parser.data.headers, WellFormed header
  uri : ∀ input ∈ parser.data.uri, ¬ CtlByte input ∧ input ≠ SP
  started : parser.data.method = [] ↔ parser.state = .methodStart
  method : ∀ input ∈ parser.data.method, TokenByte input
  content : parser.state ≠ .body → parser.data.content = []
  contentLength : parser.state ≠ .body → parser.data.contentLength = 0

/-- With the invariant no branch takes `back()` of an empty vector. -/
theorem RepInvariant.backOf_ne_nil {parser : HTTPParser} (holds : RepInvariant parser)
    (input : UInt8) : ∀ vector ∈ backOf parser input, vector ≠ [] := by
  intro vector taken
  obtain ⟨data, state⟩ := parser
  have collected := holds.collected
  cases state with
  | headerLineStart =>
      simp only [backOf] at taken
      split_ifs at taken <;> cases taken
      exact List.append_ne_nil_of_right_ne_nil _ (List.cons_ne_nil _ _)
  | headerLws | headerName | headerValue =>
      simp only [backOf] at taken
      split_ifs at taken <;> cases taken
      exact collected trivial
  | _ => cases taken

/-! ## The invariant from what has been read -/

theorem HeaderField.wellFormed (field : HeaderField) : WellFormed field.header where
  named := field.name.nonempty
  name := field.name.members
  value := by
    intro input member
    rcases List.mem_append.mp member with first | continued
    · exact field.value.members input first
    · obtain ⟨line, -, inside⟩ := List.mem_flatMap.mp continued
      exact line.text.members input inside

theorem Head.wellFormed (head : Head) : ∀ header ∈ head.headers, WellFormed header := by
  intro header member
  obtain ⟨field, -, rfl⟩ := List.mem_map.mp member
  exact field.wellFormed

/-- Headers collected after the first two parts of a request line. -/
theorem repInvariant_of_target (target : Target) {data : Data} {state : ParserState}
    (method : data.method = target.method.bytes) (uri : data.uri = target.uri.bytes)
    (wellFormed : ∀ header ∈ data.headers, WellFormed header)
    (collected : InHeader state → data.headers ≠ []) (notStart : state ≠ .methodStart)
    (noBody : state ≠ .body → data.content = [] ∧ data.contentLength = 0) :
    RepInvariant ⟨data, state⟩ where
  collected := collected
  headers := wellFormed
  uri := by
    intro input member
    exact target.uri.members input (uri ▸ member)
  started := by
    refine iff_of_false ?_ notStart
    rw [method]
    exact target.method.nonempty
  method := by
    intro input member
    exact target.method.members input (method ▸ member)
  content other := (noBody other).1
  contentLength other := (noBody other).2

/-- **The invariant of a running parser.** -/
theorem Reads.repInvariant {parser : HTTPParser} {read : Bytes} (reads : Reads env parser read) :
    RepInvariant parser := by
  obtain ⟨data, state⟩ := parser
  have noHeader {header : HTTPHeader} (member : header ∈ []) : WellFormed header := nomatch member
  have dataWith (head : Head) {header : HTTPHeader} (last : WellFormed header) :
      ∀ other ∈ (head.dataWith header).headers, WellFormed other := by
    intro other member
    rcases List.mem_append.mp member with earlier | same
    · exact head.wellFormed other earlier
    · rw [List.mem_singleton] at same
      exact same ▸ last
  have nonempty (head : Head) (header : HTTPHeader) : (head.dataWith header).headers ≠ [] :=
    List.append_ne_nil_of_right_ne_nil _ (List.cons_ne_nil _ _)
  cases state with
  | methodStart =>
      obtain ⟨-, rfl⟩ := reads
      exact ⟨fun inside => inside.elim, fun _ => noHeader, fun _ => nofun, iff_of_true rfl rfl,
        fun _ => nofun, fun _ => rfl, fun _ => rfl⟩
  | method =>
      obtain ⟨method, -, rfl⟩ := reads
      exact repInvariant_of_target ⟨method, .nil⟩ rfl rfl (fun _ => noHeader) False.elim nofun
        fun _ => ⟨rfl, rfl⟩
  | uri | httpVersionH | httpVersionT1 | httpVersionT2 | httpVersionP | httpVersionSlash
  | httpVersionMajorStart =>
      obtain ⟨target, -, rfl⟩ := reads
      exact repInvariant_of_target target rfl rfl (fun _ => noHeader) False.elim nofun
        fun _ => ⟨rfl, rfl⟩
  | httpVersionMajor | httpVersionMinorStart =>
      obtain ⟨target, major, -, rfl⟩ := reads
      exact repInvariant_of_target target rfl rfl (fun _ => noHeader) False.elim nofun
        fun _ => ⟨rfl, rfl⟩
  | httpVersionMinor | expectingNewline1 =>
      obtain ⟨line, -, rfl⟩ := reads
      exact repInvariant_of_target line.toTarget rfl rfl (fun _ => noHeader) False.elim nofun
        fun _ => ⟨rfl, rfl⟩
  | headerLineStart | expectingNewline3 =>
      obtain ⟨head, -, rfl⟩ := reads
      exact repInvariant_of_target head.line.toTarget rfl rfl head.wellFormed False.elim nofun
        fun _ => ⟨rfl, rfl⟩
  | headerLws =>
      obtain ⟨head, field, -, -, rfl⟩ := reads
      exact repInvariant_of_target head.line.toTarget rfl rfl (dataWith head field.wellFormed)
        (fun _ => nonempty head _) nofun fun _ => ⟨rfl, rfl⟩
  | headerName | spaceBeforeHeaderValue =>
      obtain ⟨head, name, -, rfl⟩ := reads
      exact repInvariant_of_target head.line.toTarget rfl rfl
        (dataWith head ⟨name.nonempty, name.members, fun _ => nofun⟩)
        (fun _ => nonempty head _) nofun fun _ => ⟨rfl, rfl⟩
  | headerValue =>
      obtain ⟨head, line, -, -, rfl⟩ := reads
      exact repInvariant_of_target head.line.toTarget rfl rfl (dataWith head line.close.wellFormed)
        (fun _ => nonempty head _) nofun fun _ => ⟨rfl, rfl⟩
  | expectingNewline2 =>
      obtain ⟨head, line, -, rfl⟩ := reads
      exact repInvariant_of_target head.line.toTarget rfl rfl (dataWith head line.close.wellFormed)
        (fun _ => nonempty head _) nofun fun _ => ⟨rfl, rfl⟩
  | body =>
      obtain ⟨head, content, length, -, -, -, -, rfl⟩ := reads
      exact repInvariant_of_target head.line.toTarget rfl rfl head.wellFormed False.elim nofun
        fun other => (other rfl).elim

/-! ## Reachable parsers -/

theorem Received.repInvariant {parser : HTTPParser} {received : Bytes}
    (reached : Received env parser received) : RepInvariant parser := by
  rcases reached.shape with running | ⟨head, rest, content, -, -, rfl⟩
  · exact (run_eq_more_iff.mp running).repInvariant
  · exact repInvariant_of_target head.line.toTarget rfl rfl head.wellFormed False.elim nofun
      fun other => (other rfl).elim

/-- A call that ends in the middle of a message has received its first bytes. -/
theorem Received.append {parser middle : HTTPParser} {received part : Bytes}
    (reached : Received env parser received)
    (running : run (parseStep env) parser part = .more middle) :
    Received env middle (received ++ part) := by
  have exit := parse_of_more ({} : HTTPRequest env) running
  have pending := Received.pending {} part reached (Or.inl (by rw [exit]))
  rwa [exit] at pending

theorem exists_received {parser : HTTPParser}
    (reachable : (parserSystem env).Reachable parser) : ∃ received, Received env parser received := by
  apply reachable.invariant (motive := fun parser => ∃ received, Received env parser received)
  · intro parser initial
    exact ⟨[], initial ▸ .fresh⟩
  · intro before call after _ known moved
    obtain ⟨received, reached⟩ := known
    cases moved
    cases call with
    | parse request buffer => exact ⟨_, reached.next request buffer⟩
    | reset => exact ⟨[], .fresh⟩

/-- **The representation invariant.** It holds of every parser that calls lead to
and after every part of a buffer inside a further call. There no byte makes the
automaton take `back()` of an empty vector, and a byte changes the headers at their
back, where it takes that, and not otherwise. -/
theorem reachable_repInvariant {parser : HTTPParser}
    (reachable : (parserSystem env).Reachable parser) :
    RepInvariant parser ∧ ∀ part middle, run (parseStep env) parser part = .more middle →
      RepInvariant middle ∧ ∀ input, (∀ vector ∈ backOf middle input, vector ≠ []) ∧
        ∀ next, parseStep env middle input = .more next → next.data.headers =
          (backOf middle input).elim middle.data.headers
            (onBack (pushed middle.state input)) := by
  obtain ⟨received, reached⟩ := exists_received reachable
  refine ⟨reached.repInvariant, ?_⟩
  intro part middle running
  have holds := (reached.append running).repInvariant
  exact ⟨holds, fun input => ⟨holds.backOf_ne_nil input, fun next => headers_of_step⟩⟩

/-- A refused message, and one suspended in a continuation line. -/
def suspendedCalls : List (ParserCall .sample) :=
  [.parse {} (ascii "GET\r"), .parse {} (ascii "GET / HTTP/1.0\r\nHost:"),
    .parse {} (ascii " a\r\n\t")]

theorem reachable_repInvariant_suspended : ∃ parser,
    (parserSystem .sample).Run {} suspendedCalls parser ∧ parser.state = .headerLws ∧
      (RepInvariant parser ∧ ∀ part middle, run (parseStep .sample) parser part = .more middle →
        RepInvariant middle ∧ ∀ input, (∀ vector ∈ backOf middle input, vector ≠ []) ∧
          ∀ next, parseStep .sample middle input = .more next → next.data.headers =
            (backOf middle input).elim middle.data.headers
              (onBack (pushed middle.state input))) := by
  have suspended : (suspendedCalls.foldlM (fun parser call => some (call.after parser))
      ({} : HTTPParser)).map HTTPParser.state = some .headerLws := by decide +kernel
  obtain ⟨parser, executed, inside⟩ := Option.map_eq_some_iff.mp suspended
  have run : (parserSystem .sample).Run {} suspendedCalls parser := .of_foldlM executed
  exact ⟨parser, run, inside, reachable_repInvariant (run.reachable rfl)⟩

end Webserver.HTTP.Grammar
