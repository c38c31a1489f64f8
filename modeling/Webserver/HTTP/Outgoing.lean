import Webserver.HTTP.Switching

/-! # What a connection sends

The writes of a connection are those completed and the one outstanding. A client
reads responses until one switches the protocol, and hands what follows that one to
the reader of the other protocol.
-/

namespace Webserver.HTTP

open Foundation Schema Grammar

variable {env : Externals}

/-! ## Completed and outstanding writes -/

def AsyncOp.write? : AsyncOp → Option Write
  | .write started => some started
  | .handshake | .read => none

/-- The write whose completion an event is. -/
def Event.write? : Event env → Option Write
  | .write completed _ _ => some completed
  | .handshake _ | .read _ _ => none

namespace World

/-- The writes outstanding. -/
def pending (world : World env) : List Write := world.outstanding.filterMap AsyncOp.write?

/-- What a handler does to an idle connection: the writes it starts are outstanding
then. -/
def Starts (before after : World env) : Prop := after.writes = before.writes ++ after.pending

section Handlers

variable {world : World env}

theorem asyncWrite_starts {other : World env} (quiet : other.outstanding = [])
    (same : other.writes = world.writes) (next : Continuation) :
    Starts world (other.asyncWrite next) := by
  simp [Starts, pending, asyncWrite, quiet, same, AsyncOp.write?]

theorem doRead_starts (idle : Idle world) : Starts world world.doRead := by
  simp [Starts, pending, doRead, idle.quiet, AsyncOp.write?]

theorem starts_of_quiet {after : World env} (quiet : after.outstanding = [])
    (same : after.writes = world.writes) : Starts world after := by
  rw [Starts, pending, quiet, same]
  exact (List.append_nil _).symm

theorem serve_starts (idle : Idle world) (handler : HTTPRequestHandler env) :
    Starts world (world.serve handler) := by
  unfold serve
  cases world.conn.request.isWSHandshake with
  | error exception => exact starts_of_quiet idle.quiet rfl
  | ok handshake =>
      cases handshake with
      | true =>
          unfold processWsHandshake
          apply asyncWrite_starts
          · exact idle.quiet
          · rfl
      | false =>
          have quiet : (world.call handler).outstanding = [] := idle.quiet
          simp only [handleRequest]
          cases (handler world.conn.request world.conn.response).exit with
          | returned => exact asyncWrite_starts quiet rfl .readNext
          | threwException => exact asyncWrite_starts quiet rfl .readNext
          | threwOther => exact starts_of_quiet quiet rfl

theorem onRead_starts (idle : Idle world) (bytes : Bytes) (handler : HTTPRequestHandler env) :
    Starts world (world.onRead bytes handler) := by
  have received : Idle (world.receive bytes (world.parseExit bytes)) :=
    ⟨idle.quiet, idle.unopened, idle.running, idle.inside⟩
  simp only [onRead]
  cases (world.parseExit bytes).result with
  | error exception => exact starts_of_quiet received.quiet rfl
  | ok result =>
      cases result with
      | indeterminate => exact doRead_starts received
      | good =>
          have settled : Idle ((world.receive bytes (world.parseExit bytes)).settle .good
            handler) := ⟨idle.quiet, idle.unopened, idle.running, idle.inside⟩
          exact serve_starts settled handler
      | bad =>
          unfold replyBad doWrite
          apply asyncWrite_starts
          · exact idle.quiet
          · rfl

theorem onWrite_starts (idle : Idle world) (next : Continuation) (error : Option ErrorCode)
    (id : env.Pauuid) : Starts world (world.onWrite next error id) := by
  cases next with
  | createWsConnection =>
      rw [onWrite_createWsConnection]
      unfold createWsConnection
      cases env.makePauuid (world.conn.request.getCookie (ascii "SID")).value with
      | error exception => exact starts_of_quiet idle.quiet rfl
      | ok sid => exact starts_of_quiet idle.quiet rfl
  | readNext =>
      rcases error with _ | _ | _
      · exact doRead_starts idle
      · exact starts_of_quiet idle.quiet rfl
      · exact starts_of_quiet idle.quiet rfl

end Handlers

/-- An event completes the only operation outstanding. -/
theorem HalfDuplex.pending_eq {world : World env} {op : AsyncOp} (duplex : HalfDuplex world)
    (member : op ∈ world.outstanding) : world.pending = op.write?.toList := by
  have quiet := (duplex.complete member).quiet
  obtain ⟨front, back, same⟩ := List.append_of_mem member
  have single := duplex.single
  rw [same, List.length_append, List.length_cons] at single
  have empty : front = [] ∧ back = [] := by
    constructor <;> apply List.eq_nil_of_length_eq_zero <;> omega
  rw [pending, same, empty.1, empty.2]
  cases op <;> rfl

/-- The writes before a step are completed by it but for those that it starts. -/
theorem step_writes {before after : World env} {event : Event env} (duplex : HalfDuplex before)
    (moved : before.step? event = some after) :
    before.pending = event.write?.toList ∧ after.writes = before.writes ++ after.pending := by
  cases step_cases moved with
  | secured member => exact ⟨duplex.pending_eq member, doRead_starts (duplex.complete member)⟩
  | unsecured code member =>
      exact ⟨duplex.pending_eq member, starts_of_quiet (duplex.complete member).quiet rfl⟩
  | readFailed code handler member =>
      refine ⟨duplex.pending_eq member, ?_⟩
      cases code with
      | operationAborted => exact starts_of_quiet (duplex.complete member).quiet rfl
      | other => exact starts_of_quiet (duplex.complete member).quiet rfl
  | received bytes handler member sized =>
      exact ⟨duplex.pending_eq member, onRead_starts (duplex.complete member) bytes handler⟩
  | written write error id member =>
      exact ⟨duplex.pending_eq member,
        onWrite_starts (duplex.complete member) write.next error id⟩

/-- A connection keeps its kind and its peer. -/
theorem step_conn {before after : World env} {event : Event env}
    (moved : before.step? event = some after) :
    after.conn.isHttp = before.conn.isHttp ∧ after.conn.remoteIp = before.conn.remoteIp := by
  cases step_cases moved with
  | secured member => exact ⟨rfl, rfl⟩
  | unsecured code member => exact ⟨rfl, rfl⟩
  | readFailed code handler member => cases code <;> exact ⟨rfl, rfl⟩
  | received bytes handler member sized =>
      simp only [onRead]
      cases ((before.complete .read).parseExit bytes).result with
      | error exception => exact ⟨rfl, rfl⟩
      | ok result =>
          cases result with
          | indeterminate => exact ⟨rfl, rfl⟩
          | bad => exact ⟨rfl, rfl⟩
          | good =>
              simp only [serve]
              cases HTTPRequest.isWSHandshake _ with
              | error exception => exact ⟨rfl, rfl⟩
              | ok handshake =>
                  cases handshake with
                  | true => exact ⟨rfl, rfl⟩
                  | false =>
                      simp only [handleRequest]
                      cases Handled.exit _ <;> exact ⟨rfl, rfl⟩
  | written write error id member =>
      obtain ⟨next, response⟩ := write
      cases next with
      | readNext => rcases error with _ | _ | _ <;> exact ⟨rfl, rfl⟩
      | createWsConnection =>
          simp only [onWrite_createWsConnection, createWsConnection]
          cases env.makePauuid _ <;> exact ⟨rfl, rfl⟩

end World

/-! ## The client's reader -/

/-- A response after which the other protocol is spoken. -/
def switches (message : WireMessage) : Bool := statusOf message.start == 101

namespace Verdict

/-- A response that a handler has left can be told from what follows it, and does not
itself switch the protocol. -/
def Proper (verdict : Verdict env) : Prop :=
  verdict.Served → verdict.left.Framed ∧ verdict.left.status ≠ .websocketHandshake

theorem switches_answer (verdict : Verdict env) :
    switches verdict.answer =
      decide (verdict.reply.response.status = .websocketHandshake) := by
  have read : statusOf verdict.answer.start =
      statusOf (HTTPResponse.statusLine verdict.reply.response.status) := rfl
  rw [switches, read]
  cases verdict.reply.response.status <;> decide +kernel

theorem Opens.switches {verdict : Verdict env} (opens : verdict.Opens) :
    HTTP.switches verdict.answer = true := by
  rw [switches_answer, opens.reply_eq]
  exact decide_eq_true rfl

theorem Proper.stays {verdict : Verdict env} (proper : verdict.Proper)
    (plain : ¬ verdict.Opens) : HTTP.switches verdict.answer = false := by
  rw [switches_answer, decide_eq_false_iff_not]
  by_cases good : verdict.result = .good
  · have served : verdict.Served := ⟨good, fun opens => plain ⟨good, opens⟩⟩
    rw [served.reply_eq]
    exact (proper served).2
  · rw [reply_of_not_good good]
    decide

end Verdict

/-- Responses that answer verdicts, each with its header map iterated in some order. -/
def SentFor (verdicts : List (Verdict env)) (sent : List HTTPResponse) : Prop :=
  List.Forall₂ HTTPResponse.Reordered sent (verdicts.map fun verdict => verdict.reply.response)

namespace SentFor

variable {verdicts : List (Verdict env)} {sent : List HTTPResponse}

theorem own (verdicts : List (Verdict env)) :
    SentFor verdicts (verdicts.map fun verdict => verdict.reply.response) :=
  List.forall₂_same.mpr fun response _ => .refl response

/-- What a client reads are the answers, with their fields in some order. -/
theorem meant (sentFor : SentFor verdicts sent) :
    List.Forall₂ WireMessage.Reordered (sent.map fun response => response.wire.meant)
      (verdicts.map Verdict.answer) := by
  rw [SentFor, List.forall₂_map_right_iff] at sentFor
  rw [List.forall₂_map_left_iff, List.forall₂_map_right_iff]
  exact sentFor.imp fun response verdict same => same.meant

theorem exists_verdict (sentFor : SentFor verdicts sent) : ∀ response ∈ sent,
    ∃ verdict ∈ verdicts, response.Reordered verdict.reply.response := by
  intro response member
  obtain ⟨other, inside, same⟩ := WireMessage.exists_of_forall₂ sentFor response member
  obtain ⟨verdict, present, rfl⟩ := List.mem_map.mp inside
  exact ⟨verdict, present, same⟩

theorem exists_concat {opening : Verdict env} (sentFor : SentFor (verdicts ++ [opening]) sent) :
    ∃ front last, sent = front ++ [last] ∧ SentFor verdicts front ∧
      last.Reordered opening.reply.response := by
  rw [SentFor, List.map_append, List.map_singleton] at sentFor
  have front := List.forall₂_take_append _ _ _ sentFor
  obtain ⟨last, rest, same, none, shape⟩ :=
    List.forall₂_cons_right_iff.mp (List.forall₂_drop_append _ _ _ sentFor)
  cases none
  refine ⟨_, last, ?_, front, same⟩
  rw [← shape, List.take_append_drop]

end SentFor

section Reading

variable {ω : Type*} {later : Bytes → Option (ω × Bytes)} {verdicts : List (Verdict env)}
  {sent : List HTTPResponse}
  (visible : ∀ text, ∀ input ∈ env.base64SHA1 text, VisibleByte input)
  (proper : ∀ verdict ∈ verdicts, verdict.Proper)

include visible proper

theorem readResponse_sent (sentFor : SentFor verdicts sent) : ∀ response ∈ sent, ∀ rest,
    readResponse (response.stream ++ rest) = some (response.wire.meant, rest) := by
  intro response member rest
  obtain ⟨verdict, present, same⟩ := sentFor.exists_verdict response member
  have framed := verdict.reply_framed visible fun served => (proper verdict present served).1
  exact (framed.reordered same).readResponse_stream rest

omit visible in
theorem stays_sent (sentFor : SentFor verdicts sent)
    (plain : ∀ verdict ∈ verdicts, ¬ verdict.Opens) :
    ∀ response ∈ sent, switches response.wire.meant = false := by
  intro response member
  obtain ⟨verdict, present, same⟩ := sentFor.exists_verdict response member
  rw [switches, same.meant.start]
  exact (proper verdict present).stays (plain verdict present)

/-- Answers of which none opens a handshake read back. -/
theorem decodeChanging_plain (plain : ∀ verdict ∈ verdicts, ¬ verdict.Opens)
    (sentFor : SentFor verdicts sent) :
    decodeChanging readResponse switches later (sent.flatMap HTTPResponse.stream) =
      some (sent.map (fun response => response.wire.meant), []) := by
  apply decodeChanging_flatMap
  · exact fun response => HTTPResponse.stream_eq_wire response ▸ WireMessage.bytes_ne_nil _
  · exact readResponse_sent visible proper sentFor
  · exact stays_sent proper sentFor plain

/-- Answers of which the last opens a handshake read back, and what follows them is
read by the other protocol. -/
theorem decodeChanging_opened {opening : Verdict env} (opened : OpenedBy opening verdicts)
    (sentFor : SentFor verdicts sent) {rest : Bytes} {others : List ω}
    (read : decodeStream later rest = some others) :
    decodeChanging readResponse switches later (sent.flatMap HTTPResponse.stream ++ rest) =
      some (sent.map (fun response => response.wire.meant), others) := by
  obtain ⟨earlier, rfl, plain, opens⟩ := opened
  obtain ⟨front, last, rfl, before, same⟩ := sentFor.exists_concat
  apply decodeChanging_change
  · exact fun response => HTTPResponse.stream_eq_wire response ▸ WireMessage.bytes_ne_nil _
  · exact readResponse_sent visible proper sentFor
  · exact stays_sent (fun verdict member => proper verdict (List.mem_append_left _ member))
      before plain
  · rw [switches, same.meant.start]
    exact opens.switches
  · exact read

/-- The first answers read back, wherever they end. -/
theorem decodeChanging_initial {told : List (Verdict env)} (initial : told <+: verdicts)
    (opens : (∀ verdict ∈ verdicts, ¬ verdict.Opens) ∨ ∃ opening, OpenedBy opening verdicts)
    (sentFor : SentFor told sent) :
    decodeChanging readResponse switches later (sent.flatMap HTTPResponse.stream) =
      some (sent.map (fun response => response.wire.meant), []) := by
  rcases opens with plain | ⟨opening, front, rfl, plain, opens⟩
  · exact decodeChanging_plain visible
      (fun verdict member => proper verdict (initial.subset member))
      (fun verdict member => plain verdict (initial.subset member)) sentFor
  · rcases List.prefix_concat_iff.mp initial with rfl | shorter
    · have read := decodeChanging_opened visible proper ⟨front, rfl, plain, opens⟩ sentFor
        (rfl : decodeStream later [] = some [])
      rwa [List.append_nil] at read
    · exact decodeChanging_plain visible
        (fun verdict member => proper verdict (List.mem_append_left _ (shorter.subset member)))
        (fun verdict member => plain verdict (shorter.subset member)) sentFor

end Reading

end Webserver.HTTP
