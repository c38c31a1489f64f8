import Webserver.HTTP.Parser

/-! # Chunked calls

One call of `Parse` in terms of the run of the automaton, and successive calls
on the pieces of a message. The state between the calls is the parser alone:
every call gets a new request, and no call looks at an earlier buffer.
-/

namespace Webserver.HTTP.HTTPParser

open Foundation Schema Incremental

variable {env : Externals}

/-- The request `do_read` prepares before each call. -/
def requestOf (isHttp : Bool) (origin : env.IPAddress) : HTTPRequest env := { isHttp, origin }

/-! ## One call -/

section Call

variable {parser after : HTTPParser} {buffer rest : Bytes} {verdict : Verdict}
  (request : HTTPRequest env)

theorem parse_of_more (running : run (parseStep env) parser buffer = .more after) :
    parser.parse request buffer = ⟨.ok .indeterminate, request, after, env.zeroout buffer⟩ := by
  rw [parse, parseImpl, running]

theorem parse_of_done (decided : run (parseStep env) parser buffer = .done verdict after rest) :
    parser.parse request buffer = conclude request buffer after verdict := by
  rw [parse, parseImpl, decided]

theorem assembleUri_result (fragment : Bytes) :
    (request.assembleUri fragment).2 = .ok () ∨
      (request.assembleUri fragment).2 = .error .outOfRange := by
  unfold HTTPRequest.assembleUri
  cases request.headers.lookup (env.utflower Header.host) with
  | none => exact Or.inr rfl
  | some host => exact Or.inl rfl

/-- The only exception of `fill_request` is the one for a missing `Host`. -/
theorem fillRequest_result (parser : HTTPParser) :
    (parser.fillRequest request).2 = .ok () ∨
      (parser.fillRequest request).2 = .error .outOfRange :=
  assembleUri_result _ _

/-- A good verdict of the automaton ends the call with `good` or `bad`. -/
theorem conclude_good (buffer : Bytes) (after : HTTPParser) :
    conclude request buffer after .good =
      ⟨.ok (if (after.fillRequest request).2 = .ok () then .good else .bad),
        (after.fillRequest request).1, {}, env.zeroout buffer⟩ := by
  rcases shape : after.fillRequest request with ⟨filled, outcome⟩
  rcases fillRequest_result request after with fine | missing
  · rw [shape] at fine
    simp only at fine
    simp only [conclude, shape, fine, ↓reduceIte, reset]
  · rw [shape] at missing
    simp only at missing
    simp [conclude, shape, missing, reset]

/-- A verdict never leaves a call indeterminate. -/
theorem conclude_ne_indeterminate (buffer : Bytes) (after : HTTPParser) (verdict : Verdict) :
    (conclude request buffer after verdict).result ≠ .ok .indeterminate := by
  cases verdict with
  | good =>
      rw [conclude_good]
      split <;> simp
  | bad => simp [conclude]
  | thrown exception => simp [conclude]

/-- What a verdict leaves does not depend on the buffer, but for the buffer. -/
theorem conclude_congr (left right : Bytes) (after : HTTPParser) (verdict : Verdict) :
    (conclude request left after verdict).result = (conclude request right after verdict).result ∧
    (conclude request left after verdict).request =
      (conclude request right after verdict).request ∧
    (conclude request left after verdict).parser =
      (conclude request right after verdict).parser := by
  cases verdict with
  | good => simp [conclude_good]
  | bad => exact ⟨rfl, rfl, rfl⟩
  | thrown exception => exact ⟨rfl, rfl, rfl⟩

/-- A call is indeterminate exactly when the automaton is still running. -/
theorem parse_indeterminate_iff {parser : HTTPParser} {buffer : Bytes} :
    (parser.parse request buffer).result = .ok .indeterminate ↔
      run (parseStep env) parser buffer = .more (parser.parse request buffer).parser := by
  cases progress : run (parseStep env) parser buffer with
  | more after =>
      rw [parse_of_more request progress]
      simp
  | done verdict after rest =>
      rw [parse_of_done request progress]
      simp [conclude_ne_indeterminate]

/-- After `good` or `bad` the parser is like a constructed one. -/
theorem parse_parser_of_settled {parser : HTTPParser} {buffer : Bytes}
    (settled : (parser.parse request buffer).result = .ok .good ∨
      (parser.parse request buffer).result = .ok .bad) :
    (parser.parse request buffer).parser = {} := by
  cases progress : run (parseStep env) parser buffer with
  | more after =>
      rw [parse_of_more request progress] at settled
      simp at settled
  | done verdict after rest =>
      rw [parse_of_done request progress] at settled ⊢
      cases verdict with
      | good => rw [conclude_good]
      | bad => rfl
      | thrown exception => simp [conclude] at settled

end Call

/-! ## Successive calls -/

/-- The calls on successive chunks, each with a request prepared alike, up to
the first one that is not indeterminate. -/
def parseChunks (request : HTTPRequest env) (parser : HTTPParser) : List Bytes → List (ParseExit env)
  | [] => []
  | chunk :: chunks =>
      let exit := parser.parse request chunk
      match exit.result with
      | .ok .indeterminate => exit :: parseChunks request exit.parser chunks
      | _ => [exit]

/-- The parser after some calls. -/
def parserAfter (parser : HTTPParser) (exits : List (ParseExit env)) : HTTPParser :=
  match exits.getLast? with
  | none => parser
  | some exit => exit.parser

variable (request : HTTPRequest env)

/-- Chunks that decide nothing are all read, each call indeterminate. -/
theorem parseChunks_of_more {parser middle : HTTPParser} {before : List Bytes}
    (running : run (parseStep env) parser before.flatten = .more middle) (later : List Bytes) :
    ∃ exits, parseChunks request parser (before ++ later) =
        exits ++ parseChunks request middle later ∧
      exits.length = before.length ∧ (∀ exit ∈ exits, exit.result = .ok .indeterminate) ∧
      parserAfter parser exits = middle := by
  induction before generalizing parser with
  | nil =>
      cases running
      exact ⟨[], rfl, rfl, by simp, rfl⟩
  | cons chunk before ih =>
      rw [List.flatten_cons] at running
      obtain ⟨next, first, rest⟩ := run_more_of_append running
      obtain ⟨exits, split, count, all, final⟩ := ih rest
      have exit := parse_of_more request first
      refine ⟨parser.parse request chunk :: exits, ?_, by simp [count], ?_, ?_⟩
      · rw [List.cons_append, parseChunks, exit]
        simp only [split, List.cons_append]
      · intro other member
        rcases List.mem_cons.mp member with rfl | tail
        · rw [exit]
        · exact all other tail
      · cases exits with
        | nil =>
            rw [← final, exit]
            rfl
        | cons second exits => simpa [parserAfter, List.getLast?_cons] using final

theorem parseChunks_of_done {parser after : HTTPParser} {chunk rest : Bytes} {verdict : Verdict}
    (decided : run (parseStep env) parser chunk = .done verdict after rest) (later : List Bytes) :
    parseChunks request parser (chunk :: later) = [parser.parse request chunk] := by
  have settled : (parser.parse request chunk).result ≠ .ok .indeterminate := by
    rw [parse_of_done request decided]
    exact conclude_ne_indeterminate request chunk after verdict
  rw [parseChunks]
  split
  · next same => exact (settled same).elim
  · rfl

/-- **Chunking does not change the verdict.** The calls on the pieces of a byte
string, against one call on the whole of it: all indeterminate with the same
parser left, or the first other outcome is the same, with the same request, in
the chunk that holds the deciding byte. -/
theorem parse_chunks (isHttp : Bool) (origin : env.IPAddress) (chunks : List Bytes) :
    let request := requestOf isHttp origin
    let whole := HTTPParser.parse {} request chunks.flatten
    let exits := parseChunks request {} chunks
    (whole.result = .ok .indeterminate →
      exits.length = chunks.length ∧ (∀ exit ∈ exits, exit.result = .ok .indeterminate) ∧
        parserAfter {} exits = whole.parser) ∧
    (whole.result ≠ .ok .indeterminate →
      ∃ before front decider back after earlier exit,
        chunks = before ++ (front ++ decider :: back) :: after ∧
        exits = earlier ++ [exit] ∧ earlier.length = before.length ∧
        (∀ call ∈ earlier, call.result = .ok .indeterminate) ∧
        exit.result = whole.result ∧ exit.request = whole.request ∧
        exit.parser = whole.parser ∧
        (HTTPParser.parse {} request (before.flatten ++ front)).result = .ok .indeterminate ∧
        (HTTPParser.parse {} request (before.flatten ++ front ++ [decider])).result =
          whole.result) := by
  intro request whole exits
  constructor
  · intro indeterminate
    have running := (parse_indeterminate_iff request).mp indeterminate
    obtain ⟨calls, split, count, all, final⟩ := parseChunks_of_more request running []
    have same : exits = calls := by simpa [exits, parseChunks] using split
    rw [same]
    exact ⟨count, all, final⟩
  · intro settled
    cases progress : run (parseStep env) {} chunks.flatten with
    | more last =>
        have wholeEq : whole = _ := parse_of_more request progress
        exact (settled (by rw [wholeEq])).elim
    | done verdict last rest =>
        have wholeEq : whole = _ := parse_of_done request progress
        obtain ⟨before, chunk, after, middle, remaining, shape, quiet, here, -⟩ :=
          run_flatten_done progress
        obtain ⟨front, decider, reached, rfl, running, turn⟩ := run_eq_done_iff.mp here
        obtain ⟨earlier, split, count, all, -⟩ :=
          parseChunks_of_more request quiet ((front ++ decider :: remaining) :: after)
        rw [parseChunks_of_done request here] at split
        have untilDecider : run (parseStep env) {} (before.flatten ++ front) = .more reached := by
          rw [run_append_of_more _ quiet, running]
        have atDecider : run (parseStep env) {} (before.flatten ++ front ++ [decider]) =
            .done verdict last [] := by
          rw [run_append_of_more _ untilDecider, run_cons_done [] turn]
        obtain ⟨resultEq, requestEq, parserEq⟩ := conclude_congr request
          (front ++ decider :: remaining) chunks.flatten last verdict
        refine ⟨before, front, decider, remaining, after, earlier,
          middle.parse request (front ++ decider :: remaining), shape, ?_, count, all, ?_, ?_, ?_,
          ?_, ?_⟩
        · rw [← split, ← shape]
        · rw [wholeEq, parse_of_done request here, resultEq]
        · rw [wholeEq, parse_of_done request here, requestEq]
        · rw [wholeEq, parse_of_done request here, parserEq]
        · rw [parse_of_more request untilDecider]
        · rw [wholeEq, parse_of_done request atDecider]
          exact (conclude_congr request _ _ last verdict).1

end Webserver.HTTP.HTTPParser
