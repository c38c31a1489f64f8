import Webserver.HTTP.Acceptance
import Webserver.HTTP.Chunking

/-! # Runs of calls

The parsers that calls of `Parse` lead to, each with the bytes received since it
was last reset. An exception leaves the parser in the body state with a declared
length of zero, from which no later byte decides; otherwise the parser is the
one the grammar assigns to the received bytes. How a call ends, and how long a
body is waited for, follow from the `Content-Length` of the head received.
-/

namespace Webserver.HTTP.Grammar

open Foundation Schema HTTPParser Incremental

variable {env : Externals}

/-- Parsers reached by calls, with the bytes received since the last reset. -/
inductive Received (env : Externals) : HTTPParser → Bytes → Prop where
  | fresh : Received env {} []
  | pending {parser : HTTPParser} {received : Bytes} (request : HTTPRequest env)
      (buffer : Bytes) : Received env parser received →
      ((parser.parse request buffer).result = .ok .indeterminate ∨
        ∃ exception, (parser.parse request buffer).result = .error exception) →
      Received env (parser.parse request buffer).parser (received ++ buffer)
  | settled {parser : HTTPParser} {received : Bytes} (request : HTTPRequest env)
      (buffer : Bytes) : Received env parser received →
      ((parser.parse request buffer).result = .ok .good ∨
        (parser.parse request buffer).result = .ok .bad) →
      Received env (parser.parse request buffer).parser []

/-- The bytes received since the last reset, after a call. -/
def receivedAfter (received buffer : Bytes) (exit : ParseExit env) : Bytes :=
  if exit.result = .ok .good ∨ exit.result = .ok .bad then [] else received ++ buffer

/-- Every call leads from a reached parser to a reached one. -/
theorem Received.next {parser : HTTPParser} {received : Bytes}
    (reached : Received env parser received) (request : HTTPRequest env) (buffer : Bytes) :
    Received env (parser.parse request buffer).parser
      (receivedAfter received buffer (parser.parse request buffer)) := by
  rw [receivedAfter]
  by_cases decided : (parser.parse request buffer).result = .ok .good ∨
      (parser.parse request buffer).result = .ok .bad
  · rw [if_pos decided]
    exact .settled request buffer reached decided
  · rw [if_neg decided]
    refine .pending request buffer reached ?_
    cases outcome : (parser.parse request buffer).result with
    | error exception => exact Or.inr ⟨exception, rfl⟩
    | ok result =>
        rw [outcome] at decided
        cases result with
        | good => exact (decided (Or.inl rfl)).elim
        | bad => exact (decided (Or.inr rfl)).elim
        | indeterminate => exact Or.inl rfl

/-- A head whose first `Content-Length` value `std::stoi` refuses. -/
def Refused (env : Externals) (head : Head) : Prop :=
  ∃ value exception, firstContentLength env head.headers = some value ∧
    stoi value = .error exception

theorem refused_iff {head : Head} :
    Refused env head ↔ ∃ exception, findContentLength env 0 head.headers = .error exception := by
  rw [findContentLength_eq]
  constructor
  · rintro ⟨value, exception, found, refused⟩
    exact ⟨exception, by rw [found]; exact refused⟩
  · rintro ⟨exception, refused⟩
    cases found : firstContentLength env head.headers with
    | none =>
        rw [found] at refused
        cases refused
    | some value =>
        rw [found] at refused
        exact ⟨value, exception, found, refused⟩

/-! ## The state after an exception -/

/-- The body state with a declared length of zero. -/
def Stalled (parser : HTTPParser) : Prop :=
  parser.state = .body ∧ parser.data.contentLength = 0

/-- From there every byte is taken for content. -/
theorem run_body_stalled (base : Data) (zero : base.contentLength = 0) (buffer : Bytes) :
    run (parseStep env) ⟨base, .body⟩ buffer =
      .more ⟨{ base with content := base.content ++ buffer }, .body⟩ := by
  have turns : ∀ read symbol, True →
      parseStep env ⟨{ base with content := base.content ++ read }, .body⟩ symbol =
        .more ⟨{ base with content := base.content ++ (read ++ [symbol]) }, .body⟩ := by
    intro read symbol _
    rw [← List.append_assoc]
    apply parseStep_body_short
    change _ ≠ toSizeT base.contentLength
    rw [zero]
    exact Nat.succ_ne_zero _
  simpa using run_accumulate (fun _ => True) _ turns [] (fun _ _ => trivial)

theorem Stalled.run {parser : HTTPParser} (buffer : Bytes) (stalled : Stalled parser) :
    ∃ last, Foundation.run (parseStep env) parser buffer = .more last ∧ Stalled last := by
  obtain ⟨data, state⟩ := parser
  obtain ⟨rfl, zero⟩ := stalled
  exact ⟨_, run_body_stalled data zero buffer, rfl, zero⟩

/-- The two shapes of a reached parser: the one the received bytes lead to, or,
after an exception, the head it was raised on with some content. -/
theorem Received.shape {parser : HTTPParser} {received : Bytes}
    (reached : Received env parser received) :
    run (parseStep env) {} received = .more parser ∨
      ∃ head rest content, Refused env head ∧ received = head.bytes ++ rest ∧
        parser = ⟨{ head.data with content }, .body⟩ := by
  induction reached with
  | fresh => exact Or.inl rfl
  | @pending parser received request buffer _ outcome ih =>
      rcases ih with running | ⟨head, rest, content, refused, rfl, rfl⟩
      · cases progress : run (parseStep env) parser buffer with
        | more after =>
            left
            rw [run_append_of_more _ running, parse_of_more request progress, progress]
        | done verdict after rest =>
            right
            rw [parse_of_done request progress] at outcome ⊢
            have overall := run_append_of_more buffer running
            rw [progress] at overall
            cases verdict with
            | good =>
                rw [conclude_good] at outcome
                simp only at outcome
                split at outcome <;> simp at outcome
            | bad => simp [conclude] at outcome
            | thrown exception =>
                obtain ⟨head, refused, split, rfl⟩ := run_thrown_iff.mp overall
                exact ⟨head, rest, [], refused_iff.mpr ⟨exception, refused⟩, split, rfl⟩
      · right
        have progress := @run_body_stalled env { head.data with content } rfl buffer
        rw [parse_of_more request progress]
        exact ⟨head, rest ++ buffer, content ++ buffer, refused, List.append_assoc _ _ _, rfl⟩
  | settled request buffer _ outcome _ =>
      left
      rw [parse_parser_of_settled request outcome, run_nil]

theorem Received.cases {parser : HTTPParser} {received : Bytes}
    (reached : Received env parser received) :
    run (parseStep env) {} received = .more parser ∨
      (Stalled parser ∧ ∃ head rest, Refused env head ∧ received = head.bytes ++ rest) := by
  rcases reached.shape with running | ⟨head, rest, content, refused, split, rfl⟩
  · exact Or.inl running
  · exact Or.inr ⟨⟨rfl, rfl⟩, head, rest, refused, split⟩

/-! ## How a call ends -/

/-- `zeroout` overwrites every byte of its memory with zero. -/
structure Zeroing (env : Externals) : Prop where
  zeroout_eq : ∀ buffer : Bytes, env.zeroout buffer = List.replicate buffer.length 0

theorem zeroing_sample : Zeroing Externals.sample where
  zeroout_eq _ := rfl

/-- The exit of a call as the class comment has it: a result, a zeroed buffer,
and a parser like a constructed one after `good` or `bad`. -/
structure CleanExit (buffer : Bytes) (exit : ParseExit env) : Prop where
  returns : ∃ result, exit.result = .ok result
  cleared : exit.buffer = List.replicate buffer.length 0
  renewed : exit.result = .ok .good ∨ exit.result = .ok .bad → exit.parser = {}

/-- Only an exception of the automaton spoils the exit of a call. -/
theorem parse_cleanExit_iff (zeroing : Zeroing env) {parser : HTTPParser}
    (request : HTTPRequest env) (buffer : Bytes) :
    CleanExit buffer (parser.parse request buffer) ↔
      ¬ ∃ exception after rest,
        run (parseStep env) parser buffer = .done (.thrown exception) after rest := by
  have renewed := @parse_parser_of_settled env request parser buffer
  have cleared := zeroing.zeroout_eq buffer
  cases progress : run (parseStep env) parser buffer with
  | more after =>
      rw [parse_of_more request progress] at renewed ⊢
      refine iff_of_true ⟨⟨_, rfl⟩, cleared, renewed⟩ ?_
      rintro ⟨exception, last, rest, thrown⟩
      cases thrown
  | done verdict after rest =>
      rw [parse_of_done request progress] at renewed ⊢
      cases verdict with
      | good =>
          rw [conclude_good] at renewed ⊢
          refine iff_of_true ⟨⟨_, rfl⟩, cleared, renewed⟩ ?_
          rintro ⟨exception, last, rest, thrown⟩
          cases thrown
      | bad =>
          refine iff_of_true ⟨⟨_, rfl⟩, cleared, renewed⟩ ?_
          rintro ⟨exception, last, rest, thrown⟩
          cases thrown
      | thrown exception =>
          refine iff_of_false ?_ (fun quiet => quiet ⟨exception, after, rest, rfl⟩)
          intro clean
          obtain ⟨result, returned⟩ := clean.returns
          cases returned

/-- A buffer that completes a refused head, after the bytes already received. -/
def CompletesRefused (env : Externals) (received buffer : Bytes) : Prop :=
  ∃ head part rest, Refused env head ∧ part ≠ [] ∧ buffer = part ++ rest ∧
    head.bytes = received ++ part

/-- No bytes follow a refused head up to another one. -/
theorem Refused.eq_nil_of_bytes {head longer : Head} {rest : Bytes} (refused : Refused env head)
    (again : Refused env longer) (extended : longer.bytes = head.bytes ++ rest) : rest = [] := by
  obtain ⟨exception, declared⟩ := refused_iff.mp refused
  obtain ⟨later, declaredLater⟩ := refused_iff.mp again
  have whole := run_head_thrown [] declaredLater
  rw [List.append_nil, extended, run_head_thrown rest declared] at whole
  exact (Progress.done.inj whole).2.2

theorem Received.thrown_iff {parser : HTTPParser} {received : Bytes}
    (reached : Received env parser received) (buffer : Bytes) :
    (∃ exception after rest,
      run (parseStep env) parser buffer = .done (.thrown exception) after rest) ↔
        CompletesRefused env received buffer := by
  rcases reached.cases with running | ⟨stalled, first, extra, refusedFirst, rfl⟩
  · constructor
    · rintro ⟨exception, after, rest, thrown⟩
      rw [← run_append_of_more buffer running, run_thrown_iff] at thrown
      obtain ⟨head, declared, split, -⟩ := thrown
      have refused := refused_iff.mpr ⟨exception, declared⟩
      rcases List.append_eq_append_iff.mp split with ⟨part, whole, rfl⟩ | ⟨extra, rfl, -⟩
      · refine ⟨head, part, rest, refused, ?_, rfl, whole⟩
        rintro rfl
        rw [List.append_nil] at whole
        rw [← whole, ← List.append_nil head.bytes, run_head_thrown [] declared] at running
        cases running
      · rw [run_head_thrown extra declared] at running
        cases running
    · rintro ⟨head, part, rest, refused, -, rfl, whole⟩
      obtain ⟨exception, declared⟩ := refused_iff.mp refused
      refine ⟨exception, ⟨head.data, .body⟩, rest, ?_⟩
      rw [← run_append_of_more _ running, ← List.append_assoc, ← whole,
        run_head_thrown rest declared]
  · apply iff_of_false
    · rintro ⟨exception, after, rest, thrown⟩
      obtain ⟨last, still, -⟩ := @Stalled.run env _ buffer stalled
      rw [still] at thrown
      cases thrown
    · rintro ⟨head, part, rest, refused, nonempty, -, whole⟩
      rw [List.append_assoc] at whole
      have none := refusedFirst.eq_nil_of_bytes refused whole
      exact nonempty (List.append_eq_nil_iff.mp none).2

/-- **How a call ends.** From every reached parser, a call ends as documented
exactly when its buffer does not complete a head whose first `Content-Length`
value `std::stoi` refuses. -/
theorem Received.cleanExit_iff (zeroing : Zeroing env) {parser : HTTPParser} {received : Bytes}
    (reached : Received env parser received) (request : HTTPRequest env) (buffer : Bytes) :
    CleanExit buffer (parser.parse request buffer) ↔ ¬ CompletesRefused env received buffer := by
  rw [parse_cleanExit_iff zeroing, reached.thrown_iff]

/-- The bytes up to the line end of a header that `std::stoi` refuses, and the
call on the empty line after them. -/
theorem cleanExit_iff_split :
    let received := ascii "A / HTTP/1.0\r\nContent-Length: x\r\n"
    let parser := (HTTPParser.parse {} ({} : HTTPRequest .sample) received).parser
    CleanExit CRLF (parser.parse ({} : HTTPRequest .sample) CRLF) ↔
      ¬ CompletesRefused .sample received CRLF := by
  intro received parser
  have reached : Received .sample parser received :=
    .pending {} received .fresh (Or.inl (by decide +kernel))
  exact reached.cleanExit_iff zeroing_sample {} CRLF

/-- A head with a length that is no number lets an exception out. -/
theorem parse_not_cleanExit : ¬ ∀ env : Externals, Zeroing env → ∀ (parser : HTTPParser)
    (received : Bytes) (request : HTTPRequest env) (buffer : Bytes), Received env parser received →
      CleanExit buffer (parser.parse request buffer) := by
  intro always
  have clean := always .sample zeroing_sample {} [] {}
    (ascii "A / HTTP/1.0\r\nContent-Length: x\r\n\r\n") .fresh
  obtain ⟨result, returned⟩ := clean.returns
  have thrown : ((HTTPParser.parse {} ({} : HTTPRequest .sample)
      (ascii "A / HTTP/1.0\r\nContent-Length: x\r\n\r\n")).result) =
        .error .invalidArgument := by
    decide +kernel
  rw [thrown] at returned
  cases returned

/-! ## How long a body is waited for -/

/-- A wait for the rest of a body that ends with `good` after exactly the bytes
that are due. -/
structure BoundedWait (env : Externals) (parser : HTTPParser) : Prop where
  positive : 0 < parser.data.contentLength
  isInt : parser.data.contentLength ≤ 2 ^ 31 - 1
  due : (parser.data.content.length : Int) < parser.data.contentLength
  early : ∀ part : Bytes,
    (parser.data.content.length + part.length : Int) < parser.data.contentLength →
      ∃ later, parseImpl env parser part = .more later
  complete : ∀ part rest : Bytes,
    (parser.data.content.length + part.length : Int) = parser.data.contentLength →
      ∃ last, parseImpl env parser (part ++ rest) = .done .good last rest

/-- A body state with a positive declared length and a shorter content. -/
theorem BoundedWait.of_due {base : Data} (fits : FitsInt base.contentLength)
    (positive : 0 < base.contentLength) (due : (base.content.length : Int) < base.contentLength) :
    BoundedWait env ⟨base, .body⟩ where
  positive := positive
  isInt := by
    have upper := fits.2
    change base.contentLength ≤ _
    omega
  due := due
  early part short := by
    have exact := toSizeT_of_nonneg positive.le fits
    change (base.content.length + part.length : Int) < base.contentLength at short
    exact ⟨_, run_body_short base part (by omega)⟩
  complete part rest full := by
    have exact := toSizeT_of_nonneg positive.le fits
    change (base.content.length + part.length : Int) = base.contentLength at full
    have nonempty : part ≠ [] := by
      rintro rfl
      rw [List.length_nil] at full
      omega
    exact ⟨_, run_body_full base part rest nonempty (by omega)⟩

/-- Every head among some bytes declares, if anything, a length `std::stoi`
accepts and that is not negative. -/
def LengthsAccepted (env : Externals) (received : Bytes) : Prop :=
  ∀ head : Head, head.bytes <+: received → ∀ value,
    firstContentLength env head.headers = some value → ∃ length, stoi value = .ok length ∧ 0 ≤ length

/-- A running body state keeps the declared length. -/
theorem body_of_run_more {base : Data} {part : Bytes} {parser : HTTPParser}
    (running : run (parseStep env) ⟨base, .body⟩ part = .more parser) :
    parser.state = .body ∧ parser.data.contentLength = base.contentLength := by
  refine run_more_induct (motive := fun parser _ =>
    parser.state = .body ∧ parser.data.contentLength = base.contentLength) ⟨rfl, rfl⟩ ?_ running
  rintro ⟨data, state⟩ next read input ⟨rfl, same⟩ turn
  by_cases full : data.content.length + 1 = toSizeT data.contentLength
  · rw [parseStep_body_full data input full] at turn
    cases turn
  · rw [parseStep_body_short data input full] at turn
    cases turn
    exact ⟨rfl, same⟩

/-- **The wait for a body.** In every reached parser a body state waits for
exactly the declared number of bytes, exactly when the heads received since the
last reset declare lengths that `std::stoi` accepts and that are not negative. -/
theorem Received.boundedWait_iff {parser : HTTPParser} {received : Bytes}
    (reached : Received env parser received) :
    (parser.state = .body → BoundedWait env parser) ↔ LengthsAccepted env received := by
  rcases reached.cases with running | ⟨⟨inBody, zero⟩, first, extra, refused, rfl⟩
  · constructor
    · rintro bounded head ⟨content, rfl⟩ value found
      cases declared : findContentLength env 0 head.headers with
      | error exception =>
          rw [run_head_thrown content declared] at running
          cases running
      | ok length =>
          by_cases none : length = 0
          · subst none
            rw [run_head_empty content declared] at running
            cases running
          · rw [run_append_of_more _ (run_head declared none)] at running
            obtain ⟨inBody, same⟩ := body_of_run_more running
            have positive := (bounded inBody).positive
            rw [same] at positive
            rw [findContentLength_eq, found] at declared
            exact ⟨length, declared, positive.le⟩
    · intro accepted inBody
      have reads := run_eq_more_iff.mp running
      obtain ⟨data, state⟩ := parser
      subst inBody
      obtain ⟨head, content, length, declared, nonzero, short, rfl, rfl⟩ := reads
      have fits := fitsInt_of_findContentLength declared
      have nonneg : 0 ≤ length := by
        cases found : firstContentLength env head.headers with
        | none =>
            rw [findContentLength_eq, found] at declared
            cases declared
            exact Int.le_refl 0
        | some value =>
            obtain ⟨number, converted, nonneg⟩ := accepted head (List.prefix_append _ _) value found
            rw [findContentLength_eq, found] at declared
            have same : Except.ok number = Except.ok length := converted.symm.trans declared
            cases same
            exact nonneg
      have same := toSizeT_of_nonneg nonneg fits
      apply BoundedWait.of_due fits
      · change 0 < length
        omega
      · change (content.length : Int) < length
        omega
  · apply iff_of_false
    · intro bounded
      have positive := (bounded inBody).positive
      omega
    · intro accepted
      obtain ⟨value, exception, found, thrown⟩ := refused
      obtain ⟨length, converted, -⟩ := accepted first (List.prefix_append _ _) value found
      rw [thrown] at converted
      cases converted

theorem boundedWait_iff_post :
    let received := ascii "POST / HTTP/1.0\r\nContent-Length: 2\r\n\r\nh"
    let parser := (HTTPParser.parse {} ({} : HTTPRequest .sample) received).parser
    (parser.state = .body → BoundedWait .sample parser) ↔ LengthsAccepted .sample received := by
  intro received parser
  have reached : Received .sample parser received :=
    .pending {} received .fresh (Or.inl (by decide +kernel))
  exact reached.boundedWait_iff

/-- A negative length is accepted, and its body is waited for without end. -/
theorem not_boundedWait_negative : ¬ ∀ (env : Externals) (parser : HTTPParser) (received : Bytes),
    Received env parser received → parser.state = .body → BoundedWait env parser := by
  intro always
  let received := ascii "A / HTTP/1.0\r\nContent-Length: -1\r\n\r\n"
  let parser := (HTTPParser.parse {} ({} : HTTPRequest .sample) received).parser
  have reached : Received .sample parser received :=
    .pending {} received .fresh (Or.inl (by decide +kernel))
  have inBody : parser.state = .body := by decide +kernel
  have negative : parser.data.contentLength = -1 := by decide +kernel
  have positive := (always .sample parser received reached inBody).positive
  omega

end Webserver.HTTP.Grammar
