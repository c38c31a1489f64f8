import Webserver.HTTP.ParserCalls

/-! # The version accumulators

`parse_impl` reads the two numbers of the HTTP version digit by digit into
`int`s, without a limit on the number of digits. The values the accumulating
expressions take fit in an `int`, and the numbers stored are those that were
sent, exactly as long as no number that has begun to arrive reaches 2^31.
-/

namespace Webserver.HTTP.Grammar

open Foundation Schema HTTPParser Incremental

variable {env : Externals}

/-- The two numbers of a version. -/
inductive VersionPart where
  | major
  | minor

namespace VersionPart

/-- Where a number is stored. -/
def stored : VersionPart → Data → Int
  | major, data => data.httpVersionMajor
  | minor, data => data.httpVersionMinor

/-- The state before the first digit. -/
def start : VersionPart → ParserState
  | major => .httpVersionMajorStart
  | minor => .httpVersionMinorStart

/-- The state after a digit. -/
def reading : VersionPart → ParserState
  | major => .httpVersionMajor
  | minor => .httpVersionMinor

/-- The bytes of a message in front of the digits. -/
def Front : VersionPart → Bytes → Prop
  | major, front => ∃ target : Target, front = target.bytes ++ ascii "HTTP/"
  | minor, front => ∃ (target : Target) (major : Text1 DigitByte),
      front = target.bytes ++ (ascii "HTTP/" ++ (major.bytes ++ [byte '.']))

theorem stored_major (data : Data) : major.stored data = data.httpVersionMajor := rfl

theorem stored_minor (data : Data) : minor.stored data = data.httpVersionMinor := rfl

end VersionPart

/-- The value of the accumulating expression, where a step evaluates one. -/
def evaluated (parser : HTTPParser) (input : UInt8) : Option Int :=
  let c := promote input
  match parser.state with
  | .httpVersionMajorStart | .httpVersionMajor =>
      if isDigit c then some (parser.data.httpVersionMajor * 10 + (c - 48)) else none
  | .httpVersionMinorStart | .httpVersionMinor =>
      if isDigit c then some (parser.data.httpVersionMinor * 10 + (c - 48)) else none
  | _ => none

/-- The values evaluated while a buffer is read. -/
def evaluations (env : Externals) (parser : HTTPParser) (buffer : Bytes) : List Int :=
  trace evaluated (parseStep env) parser buffer

/-- Some digits of a number are read, or it is about to begin. -/
def VersionPart.InDigits (part : VersionPart) (state : ParserState) : Prop :=
  state = part.start ∨ state = part.reading

theorem evaluated_eq_some_iff {parser : HTTPParser} {input : UInt8} {value : Int} :
    evaluated parser input = some value ↔
      ∃ part : VersionPart, part.InDigits parser.state ∧ DigitByte input ∧
        part.stored parser.data * 10 + (promote input - 48) = value := by
  obtain ⟨data, state⟩ := parser
  constructor
  · intro found
    simp only [evaluated, isDigit_promote, decide_eq_true_eq] at found
    split at found
    · split_ifs at found with digit
      exact ⟨.major, Or.inl rfl, digit, Option.some.inj found⟩
    · split_ifs at found with digit
      exact ⟨.major, Or.inr rfl, digit, Option.some.inj found⟩
    · split_ifs at found with digit
      exact ⟨.minor, Or.inl rfl, digit, Option.some.inj found⟩
    · split_ifs at found with digit
      exact ⟨.minor, Or.inr rfl, digit, Option.some.inj found⟩
    · cases found
  · intro found
    obtain ⟨part, inDigits, digit, rfl⟩ := found
    cases part with
    | major => rcases inDigits with same | same <;> cases same <;> simp [evaluated, isDigit_promote,
        digit, VersionPart.stored]
    | minor => rcases inDigits with same | same <;> cases same <;> simp [evaluated, isDigit_promote,
        digit, VersionPart.stored]

/-! ## One run over some bytes -/

theorem toInt32_decimal_nil : toInt32 (decimal []) = 0 := by decide +kernel

/-- After a front and some digits the number is the one the digits denote. -/
theorem run_digits {part : VersionPart} {front : Bytes} (opened : part.Front front)
    (digits : Text DigitByte) :
    ∃ middle, run (parseStep env) {} (front ++ digits.bytes) = .more middle ∧
      part.InDigits middle.state ∧ part.stored middle.data = toInt32 (decimal digits.bytes) := by
  obtain ⟨bytes, members⟩ := digits
  cases part with
  | major =>
      obtain ⟨target, rfl⟩ := opened
      by_cases none : bytes = []
      · subst none
        refine ⟨⟨target.data, .httpVersionMajorStart⟩, ?_, Or.inl rfl, ?_⟩
        · exact Reads.run_eq ⟨target, by simp, rfl⟩
        · rw [VersionPart.stored_major, toInt32_decimal_nil]
          rfl
      · refine ⟨⟨{ target.data with httpVersionMajor := toInt32 (decimal bytes) },
          .httpVersionMajor⟩, ?_, Or.inr rfl, ?_⟩
        · exact Reads.run_eq ⟨target, ⟨⟨bytes, members⟩, none⟩, by simp, rfl⟩
        · rw [VersionPart.stored_major]
  | minor =>
      obtain ⟨target, major, rfl⟩ := opened
      by_cases none : bytes = []
      · subst none
        refine ⟨⟨{ target.data with httpVersionMajor := toInt32 (decimal major.bytes) },
          .httpVersionMinorStart⟩, ?_, Or.inl rfl, ?_⟩
        · exact Reads.run_eq ⟨target, major, by simp, rfl⟩
        · rw [VersionPart.stored_minor, toInt32_decimal_nil]
          rfl
      · refine ⟨⟨Head.data ⟨⟨target, major, ⟨⟨bytes, members⟩, none⟩⟩, []⟩,
          .httpVersionMinor⟩, ?_, Or.inr rfl, ?_⟩
        · exact Reads.run_eq ⟨_, by simp [RequestLine.openBytes], rfl⟩
        · rw [VersionPart.stored_minor, Head.data]

/-- In the states of a number the bytes read are a front and its digits. -/
theorem Reads.exists_digits {part : VersionPart} {parser : HTTPParser} {read : Bytes}
    (reads : Reads env parser read) (inDigits : part.InDigits parser.state) :
    ∃ (front : Bytes) (digits : Text DigitByte), part.Front front ∧ read = front ++ digits.bytes ∧
      part.stored parser.data = toInt32 (decimal digits.bytes) := by
  obtain ⟨data, state⟩ := parser
  cases part with
  | major =>
      rw [VersionPart.stored_major]
      rcases inDigits with same | same
      · cases same
        obtain ⟨target, rfl, rfl⟩ := reads
        refine ⟨_, Text.nil, ⟨target, rfl⟩, by simp, ?_⟩
        rw [Text.nil_bytes, toInt32_decimal_nil]
        rfl
      · cases same
        obtain ⟨target, major, rfl, rfl⟩ := reads
        exact ⟨_, major.toText, ⟨target, rfl⟩, by simp, rfl⟩
  | minor =>
      rw [VersionPart.stored_minor]
      rcases inDigits with same | same
      · cases same
        obtain ⟨target, major, rfl, rfl⟩ := reads
        refine ⟨_, Text.nil, ⟨target, major, rfl⟩, by simp, ?_⟩
        rw [Text.nil_bytes, toInt32_decimal_nil]
        rfl
      · cases same
        obtain ⟨line, rfl, rfl⟩ := reads
        exact ⟨_, line.minor.toText, ⟨line.toTarget, line.major, rfl⟩,
          by simp [RequestLine.openBytes], by rw [Head.data]⟩

/-- No number of a version that has begun to arrive reaches 2^31. -/
def VersionsFit (read : Bytes) : Prop :=
  ∀ (part : VersionPart) (front : Bytes) (digits : Text DigitByte), part.Front front →
    front ++ digits.bytes <+: read → decimal digits.bytes < 2 ^ 31

/-- **The accumulators of one run.** Every value evaluated fits in an `int` exactly
when no number that has begun to arrive reaches 2^31. -/
theorem evaluations_fit_iff (read : Bytes) :
    (∀ value ∈ evaluations env {} read, FitsInt value) ↔ VersionsFit read := by
  constructor
  · intro fit part front digits opened arrived
    obtain ⟨bytes, members⟩ := digits
    change decimal bytes < 2 ^ 31
    change front ++ bytes <+: read at arrived
    induction bytes using List.reverseRecOn with
    | nil => decide
    | append_singleton bytes last ih =>
        have digit : DigitByte last := members last (by simp)
        let digits : Text DigitByte := ⟨bytes, fun input member => members input (by simp [member])⟩
        rw [← List.append_assoc] at arrived
        have small := ih digits.members ((List.prefix_append _ _).trans arrived)
        obtain ⟨middle, running, inDigits, held⟩ := @run_digits env part front opened digits
        obtain ⟨rest, split⟩ := arrived
        rw [← fitsInt_round_iff small digit]
        apply fit
        refine mem_trace_iff.mpr ⟨front ++ bytes, last, rest, middle, ?_, running, ?_⟩
        · rw [← split, List.append_assoc, List.append_assoc, List.singleton_append,
            List.append_assoc]
        · exact evaluated_eq_some_iff.mpr ⟨part, inDigits, digit, by rw [held]⟩
  · intro fits value member
    obtain ⟨read, last, rest, middle, rfl, running, found⟩ := mem_trace_iff.mp member
    obtain ⟨part, inDigits, digit, rfl⟩ := evaluated_eq_some_iff.mp found
    obtain ⟨front, digits, opened, rfl, held⟩ :=
      (run_eq_more_iff.mp running).exists_digits inDigits
    have small := fits part front digits opened (List.prefix_append _ _)
    have longer := fits part front (digits.snoc last digit) opened ⟨rest, by simp⟩
    rw [held]
    exact (fitsInt_round_iff small digit).mpr longer

/-! ## The numbers stored -/

namespace VersionPart

/-- The states in which a number is not read yet, or still is. -/
def unread (part : VersionPart) : List ParserState :=
  let upToMajor : List ParserState := [.methodStart, .method, .uri, .httpVersionH, .httpVersionT1,
    .httpVersionT2, .httpVersionP, .httpVersionSlash, .httpVersionMajorStart, .httpVersionMajor]
  match part with
  | major => upToMajor
  | minor => upToMajor ++ [.httpVersionMinorStart, .httpVersionMinor]

/-- A number that is read stays as it is. -/
theorem step_read {part : VersionPart} {parser next : HTTPParser} {input : UInt8}
    (read : parser.state ∉ part.unread) (turn : parseStep env parser input = .more next) :
    next.state ∉ part.unread ∧ part.stored next.data = part.stored parser.data := by
  obtain ⟨data, state⟩ := parser
  change state ∉ part.unread at read
  cases state with
  | expectingNewline3 =>
      obtain ⟨-, length, -, -, rfl⟩ := turn_of_expectingNewline3 turn
      refine ⟨?_, ?_⟩
      · dsimp only
        cases part <;> decide
      · cases part <;> rfl
  | httpVersionMinorStart | httpVersionMinor =>
      cases part with
      | minor => exact absurd read (by decide)
      | major =>
          simp only [parseStep] at turn
          split_ifs at turn
          all_goals
            cases turn
            refine ⟨?_, rfl⟩
            dsimp only
            decide
  | methodStart | method | uri | httpVersionH | httpVersionT1 | httpVersionT2 | httpVersionP
  | httpVersionSlash | httpVersionMajorStart | httpVersionMajor =>
      cases part <;> exact absurd read (by decide)
  | _ =>
      simp only [parseStep] at turn
      split_ifs at turn
      all_goals
        cases turn
        refine ⟨?_, ?_⟩
        · dsimp only
          cases part <;> decide
        · cases part <;> rfl

/-- A byte that is no digit ends a number without changing it. -/
theorem step_ended {part : VersionPart} {parser next : HTTPParser} {input : UInt8}
    (inDigits : part.InDigits parser.state) (ended : ¬ DigitByte input)
    (turn : parseStep env parser input = .more next) :
    next.state ∉ part.unread ∧ part.stored next.data = part.stored parser.data := by
  obtain ⟨data, state⟩ := parser
  cases part with
  | major =>
      rcases inDigits with same | same
      · cases same
        have refused := (parseStep_versionMajorStart data input).symm.trans turn
        rw [if_neg ended] at refused
        cases refused
      · cases same
        have moved := (parseStep_versionMajor data input).symm.trans turn
        rw [if_neg ended] at moved
        split_ifs at moved
        cases moved
        refine ⟨?_, rfl⟩
        dsimp only
        decide
  | minor =>
      rcases inDigits with same | same
      · cases same
        have refused := (parseStep_versionMinorStart data input).symm.trans turn
        rw [if_neg ended] at refused
        cases refused
      · cases same
        have moved := (parseStep_versionMinor data input).symm.trans turn
        rw [if_neg ended] at moved
        split_ifs at moved
        cases moved
        refine ⟨?_, rfl⟩
        dsimp only
        decide

end VersionPart

/-- The digits of a number end here, or have not ended yet. -/
def EndsDigits (rest : Bytes) : Prop := ∀ next ∈ rest.head?, ¬ DigitByte next

/-- A running parser holds the `int` that the digits read of a number become. -/
theorem stored_of_run {part : VersionPart} {front rest : Bytes} {digits : Text DigitByte}
    {last : HTTPParser} (opened : part.Front front) (ended : EndsDigits rest)
    (running : run (parseStep env) {} (front ++ (digits.bytes ++ rest)) = .more last) :
    part.stored last.data = toInt32 (decimal digits.bytes) := by
  obtain ⟨middle, upTo, inDigits, held⟩ := @run_digits env part front opened digits
  rw [← List.append_assoc, run_append_of_more rest upTo] at running
  rw [← held]
  cases rest with
  | nil =>
      cases running
      rfl
  | cons input rest =>
      cases turn : parseStep env middle input with
      | done verdict next =>
          rw [run_cons_done rest turn] at running
          cases running
      | more next =>
          rw [run_cons_more rest turn] at running
          obtain ⟨read, same⟩ := VersionPart.step_ended inDigits (ended input (by simp)) turn
          rw [← same]
          refine (run_more_induct (motive := fun parser _ => parser.state ∉ part.unread ∧
            part.stored parser.data = part.stored next.data) ⟨read, rfl⟩ ?_ running).2
          intro parser after _ symbol kept turned
          obtain ⟨still, unchanged⟩ := VersionPart.step_read kept.1 turned
          exact ⟨still, unchanged.trans kept.2⟩

/-- What a head that throws leaves of a number is what it says. -/
theorem Refused.stored {head : Head} (refused : Refused env head) {part : VersionPart}
    {front rest more : Bytes} {digits : Text DigitByte} (opened : part.Front front)
    (ended : EndsDigits rest) (split : head.bytes ++ more = front ++ (digits.bytes ++ rest)) :
    part.stored head.data = toInt32 (decimal digits.bytes) := by
  obtain ⟨exception, declared⟩ := refused_iff.mp refused
  obtain ⟨middle, upTo, inDigits, -⟩ := @run_digits env part front opened digits
  have undecided : ¬ head.bytes <+: front ++ digits.bytes := by
    intro longer
    obtain ⟨further, same⟩ := longer
    rw [← same, run_head_thrown further declared] at upTo
    cases upTo
  have within : front ++ digits.bytes <+: head.openBytes ++ [CR] := by
    have whole : front ++ digits.bytes <+: head.bytes ++ more :=
      ⟨rest, by rw [split, List.append_assoc]⟩
    have shorter : front ++ digits.bytes <+: head.bytes :=
      (List.prefix_or_prefix_of_prefix whole (List.prefix_append _ _)).resolve_right undecided
    rw [head.bytes_eq, List.prefix_concat_iff, ← head.bytes_eq] at shorter
    rcases shorter with same | inside
    · exact (undecided (same ▸ List.prefix_rfl)).elim
    · exact inside
  obtain ⟨remaining, same⟩ := within
  have running := @run_headCR env head
  rw [← same, List.append_assoc] at running
  have opensRest : rest = remaining ++ LF :: more := by
    rw [head.bytes_eq, ← same] at split
    simpa using split.symm
  refine stored_of_run opened ?_ running
  cases remaining with
  | nil => simp [EndsDigits]
  | cons input remaining =>
      intro next first
      apply ended next
      rw [opensRest]
      exact first

/-- The numbers of a version that have begun to arrive are stored as they were
sent, once their last digit is read or while they are being read. -/
def StoresDecimal (read : Bytes) (parser : HTTPParser) : Prop :=
  ∀ (part : VersionPart) (front rest : Bytes) (digits : Text DigitByte), part.Front front →
    EndsDigits rest → read = front ++ (digits.bytes ++ rest) →
    part.stored parser.data = decimal digits.bytes

/-- In every reached parser, after any part of a further buffer, the numbers
stored are those sent as long as those sent fit. -/
theorem Received.storesDecimal {parser middle : HTTPParser} {received part : Bytes}
    (reached : Received env parser received)
    (running : run (parseStep env) parser part = .more middle)
    (fits : VersionsFit (received ++ part)) : StoresDecimal (received ++ part) middle := by
  intro number front rest digits opened ended split
  have small : decimal digits.bytes < 2 ^ 31 := by
    refine fits number front digits opened ⟨rest, ?_⟩
    rw [split, List.append_assoc]
  have exact : toInt32 (decimal digits.bytes) = decimal digits.bytes := by
    apply toInt32_of_fits
    unfold FitsInt
    omega
  rw [← exact]
  rcases reached.shape with upTo | ⟨head, more, content, refused, rfl, rfl⟩
  · rw [← run_append_of_more part upTo, split] at running
    exact stored_of_run opened ended running
  · rw [run_body_stalled _ rfl] at running
    cases running
    rw [List.append_assoc] at split
    have held := refused.stored opened ended split
    cases number <;> exact held

/-! ## Calls of `Parse` -/

/-- A call: the parser it is made on, the bytes received since that was last
reset, and the buffer. -/
structure Call where
  parser : HTTPParser
  received : Bytes
  buffer : Bytes

/-- Successive calls on the parser the one before has left, each with a request
to fill and a buffer. -/
def callsFrom (parser : HTTPParser) (received : Bytes) :
    List (HTTPRequest env × Bytes) → List Call
  | [] => []
  | (request, buffer) :: pieces =>
      let exit := parser.parse request buffer
      ⟨parser, received, buffer⟩ ::
        callsFrom exit.parser (receivedAfter received buffer exit) pieces

theorem received_of_mem_callsFrom {parser : HTTPParser} {received : Bytes}
    (reached : Received env parser received) {pieces : List (HTTPRequest env × Bytes)} {call : Call}
    (member : call ∈ callsFrom parser received pieces) :
    Received env call.parser call.received := by
  induction pieces generalizing parser received with
  | nil => cases member
  | cons piece pieces ih =>
      rcases List.mem_cons.mp member with rfl | later
      · exact reached
      · exact ih (reached.next piece.1 piece.2) later

/-- What is evaluated on the bytes received since the last reset is evaluated in
the calls they came in. -/
theorem Received.evaluations_append {parser : HTTPParser} {received : Bytes}
    (reached : Received env parser received) (buffer : Bytes) :
    evaluations env {} (received ++ buffer) =
      evaluations env {} received ++ evaluations env parser buffer := by
  rcases reached.shape with running | ⟨head, more, content, refused, rfl, rfl⟩
  · exact trace_append_of_more buffer running
  · obtain ⟨exception, declared⟩ := refused_iff.mp refused
    have thrown := run_head_thrown [] declared
    rw [List.append_nil] at thrown
    have quiet : evaluations env ⟨{ head.data with content }, .body⟩ buffer = [] := by
      apply List.eq_nil_iff_forall_not_mem.mpr
      intro value member
      obtain ⟨front, input, rest, middle, -, running, found⟩ := mem_trace_iff.mp member
      rw [run_body_stalled _ rfl] at running
      cases running
      cases found
    rw [quiet, List.append_nil, List.append_assoc]
    exact (trace_append_of_done _ thrown).trans (trace_append_of_done _ thrown).symm

/-- The version arithmetic of a call: every value evaluated is an `int`, and
after any part of the buffer the numbers stored are those received. -/
structure Call.VersionsSound (env : Externals) (call : Call) : Prop where
  fits : ∀ value ∈ evaluations env call.parser call.buffer, FitsInt value
  stores : ∀ part rest middle, call.buffer = part ++ rest →
    run (parseStep env) call.parser part = .more middle →
    StoresDecimal (call.received ++ part) middle

/-- If the values evaluated in all calls fit, no number received is too large. -/
theorem versionsFit_of_calls {parser : HTTPParser} {received : Bytes}
    (reached : Received env parser received) {pieces : List (HTTPRequest env × Bytes)}
    (earlier : ∀ value ∈ evaluations env {} received, FitsInt value)
    (fit : ∀ call ∈ callsFrom parser received pieces,
      ∀ value ∈ evaluations env call.parser call.buffer, FitsInt value) :
    ∀ call ∈ callsFrom parser received pieces, VersionsFit (call.received ++ call.buffer) := by
  induction pieces generalizing parser received with
  | nil => simp [callsFrom]
  | cons piece pieces ih =>
      obtain ⟨request, buffer⟩ := piece
      have whole : ∀ value ∈ evaluations env {} (received ++ buffer), FitsInt value := by
        intro value member
        rw [reached.evaluations_append] at member
        rcases List.mem_append.mp member with before | here
        · exact earlier value before
        · exact fit ⟨parser, received, buffer⟩ List.mem_cons_self value here
      have after : ∀ value ∈ evaluations env {} (receivedAfter received buffer
          (parser.parse request buffer)), FitsInt value := by
        rw [receivedAfter]
        split
        · intro value member
          cases member
        · exact whole
      intro call member
      rcases List.mem_cons.mp member with rfl | later
      · exact (evaluations_fit_iff _).mp whole
      · exact ih (reached.next request buffer) after
          (fun other present => fit other (List.mem_cons_of_mem _ present)) call later

/-- **The version arithmetic.** In every sequence of calls, the values evaluated
are `int`s and the numbers stored are those received, in every call, exactly when
in no call a number of the version reaches 2^31 among the bytes received since
the last reset. -/
theorem versionsSound_iff (pieces : List (HTTPRequest env × Bytes)) :
    (∀ call ∈ callsFrom {} [] pieces, call.VersionsSound env) ↔
      ∀ call ∈ callsFrom {} [] pieces, VersionsFit (call.received ++ call.buffer) := by
  constructor
  · intro sound
    refine versionsFit_of_calls .fresh ?_ (fun call member => (sound call member).fits)
    intro value member
    cases member
  · intro fits call member
    have reached := received_of_mem_callsFrom .fresh member
    have whole := fits call member
    refine ⟨?_, ?_⟩
    · intro value evaluated
      apply (evaluations_fit_iff _).mpr whole
      rw [reached.evaluations_append]
      exact List.mem_append_right _ evaluated
    · intro part rest middle split running
      refine reached.storesDecimal running ?_
      intro number front digits opened arrived
      refine whole number front digits opened (arrived.trans ⟨rest, ?_⟩)
      rw [split, List.append_assoc]

/-- Ten digits are enough. -/
theorem not_versionsSound : ¬ ∀ (env : Externals) (pieces : List (HTTPRequest env × Bytes)),
    ∀ call ∈ callsFrom {} [] pieces, call.VersionsSound env := by
  intro always
  let digits : Text DigitByte := ⟨ascii "2147483648", by decide +kernel⟩
  let target : Target :=
    ⟨⟨⟨ascii "A", by decide +kernel⟩, by decide⟩, ⟨ascii "/", by decide +kernel⟩⟩
  have sound := always .sample [({}, ascii "A / HTTP/2147483648")]
    ⟨{}, [], ascii "A / HTTP/2147483648"⟩ List.mem_cons_self
  have fits := (evaluations_fit_iff _).mp sound.fits
  have small := fits .major (target.bytes ++ ascii "HTTP/") digits ⟨target, rfl⟩ ⟨[], by decide⟩
  revert small
  decide

end Webserver.HTTP.Grammar
