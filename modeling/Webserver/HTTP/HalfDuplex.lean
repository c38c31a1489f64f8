import Webserver.HTTP.Connection

/-! # The connection is half-duplex

At most one operation of a connection is outstanding, a write sees the response
it was started with, and the writes answer the verdicts one by one. Completing
the outstanding operation leaves the connection idle; every continuation of the
handlers leads from an idle connection back to the invariant.
-/

namespace Webserver.HTTP.World

open Foundation Schema HTTPParser

variable {env : Externals}

/-- The invariant of the connection between two handlers. -/
structure HalfDuplex (world : World env) : Prop where
  single : world.outstanding.length ≤ 1
  writing : ∀ write, .write write ∈ world.outstanding →
    world.conn.requestParser = {} ∧ world.conn.response = write.response
  answered : world.escaped = false → world.writes = world.verdicts.map Verdict.reply
  ended : world.sessions ≠ [] ∨ world.closed = true ∨ world.escaped = true →
    world.outstanding = []

/-- The connection inside a handler, before the next operation is started. -/
structure Idle (world : World env) : Prop where
  quiet : world.outstanding = []
  unopened : world.sessions = []
  running : world.closed = false
  inside : world.escaped = false

theorem Idle.not_ended {world : World env} (idle : Idle world) :
    ¬ (world.sessions ≠ [] ∨ world.closed = true ∨ world.escaped = true) := by
  simp [idle.unopened, idle.running, idle.inside]

theorem HalfDuplex.complete {world : World env} {op : AsyncOp} (duplex : HalfDuplex world)
    (member : op ∈ world.outstanding) : Idle (world.complete op) := by
  have going : ¬ (world.sessions ≠ [] ∨ world.closed = true ∨ world.escaped = true) :=
    fun ended => List.ne_nil_of_mem member (duplex.ended ended)
  have removed := List.length_erase_of_mem member
  have single := duplex.single
  have quiet : world.outstanding.erase op = [] := by
    apply List.eq_nil_of_length_eq_zero
    omega
  simp only [ne_eq, not_or, not_not, Bool.not_eq_true] at going
  exact ⟨quiet, going.1, going.2.1, going.2.2⟩

/-! ## The continuations of the handlers -/

section Continuations

variable {world : World env}

/-- Without an outstanding operation only the answers are left to show. -/
theorem halfDuplex_of_quiet (quiet : world.outstanding = [])
    (answered : world.escaped = false → world.writes = world.verdicts.map Verdict.reply) :
    HalfDuplex world where
  single := by
    rw [quiet]
    exact Nat.zero_le 1
  writing write member := by
    rw [quiet] at member
    cases member
  answered := answered
  ended _ := quiet

theorem escape_halfDuplex (idle : Idle world) : HalfDuplex world.escape := by
  have quiet : world.escape.outstanding = [] := idle.quiet
  apply halfDuplex_of_quiet quiet
  intro returned
  cases returned

theorem doRead_halfDuplex (idle : Idle world)
    (answered : world.writes = world.verdicts.map Verdict.reply) : HalfDuplex world.doRead where
  single := by simp [doRead, idle.quiet]
  writing write member := by simp [doRead, idle.quiet] at member
  answered _ := answered
  ended ended := (idle.not_ended ended).elim

theorem onError_halfDuplex (idle : Idle world)
    (answered : world.writes = world.verdicts.map Verdict.reply) (code : ErrorCode) :
    HalfDuplex (world.onError code) := by
  cases code with
  | operationAborted => exact halfDuplex_of_quiet idle.quiet (fun _ => answered)
  | other => exact halfDuplex_of_quiet idle.quiet (fun _ => answered)

theorem createWsConnection_halfDuplex (idle : Idle world)
    (answered : world.writes = world.verdicts.map Verdict.reply) (id : env.Pauuid) :
    HalfDuplex (world.createWsConnection id) := by
  unfold createWsConnection
  cases env.makePauuid (world.conn.request.getCookie (ascii "SID")).value with
  | error exception => exact escape_halfDuplex idle
  | ok sid => exact halfDuplex_of_quiet idle.quiet (fun _ => answered)

/-- A write started with the parser reset, when it answers the last verdict. -/
theorem asyncWrite_halfDuplex (next : Continuation) (idle : Idle world)
    (reset : world.conn.requestParser = {})
    (answers : world.writes ++ [⟨next, world.conn.response⟩] =
      world.verdicts.map Verdict.reply) :
    HalfDuplex (world.asyncWrite next) where
  single := by simp [asyncWrite, idle.quiet]
  writing write member := by
    have same : write = ⟨next, world.conn.response⟩ := by
      simpa [asyncWrite, idle.quiet] using member
    rw [same]
    exact ⟨reset, rfl⟩
  answered _ := answers
  ended ended := (idle.not_ended ended).elim

theorem processWsHandshake_halfDuplex (idle : Idle world)
    (reset : world.conn.requestParser = {})
    (answers : world.writes ++ [⟨.createWsConnection,
      (generateWsHandshakeHeaders world.conn.request world.conn.response).2⟩] =
        world.verdicts.map Verdict.reply) :
    HalfDuplex world.processWsHandshake := by
  exact asyncWrite_halfDuplex .createWsConnection
    ⟨idle.quiet, idle.unopened, idle.running, idle.inside⟩ reset answers

theorem handleRequest_halfDuplex (handler : HTTPRequestHandler env) (idle : Idle world)
    (reset : world.conn.requestParser = {})
    (answers : world.writes ++
      [⟨.readNext, (handler world.conn.request world.conn.response).response⟩] =
        world.verdicts.map Verdict.reply) :
    HalfDuplex (world.handleRequest handler) := by
  have called : Idle (world.call handler) :=
    ⟨idle.quiet, idle.unopened, idle.running, idle.inside⟩
  unfold handleRequest
  cases (handler world.conn.request world.conn.response).exit with
  | returned => exact asyncWrite_halfDuplex .readNext called reset answers
  | threwException => exact asyncWrite_halfDuplex .readNext called reset answers
  | threwOther => exact escape_halfDuplex called

/-- The branch for `good`: the verdict just recorded is answered. -/
theorem serve_halfDuplex (handler : HTTPRequestHandler env) (idle : Idle world)
    (reset : world.conn.requestParser = {}) (fresh : world.conn.response = {})
    (answers : world.writes ++ [Verdict.reply ⟨.good, world.conn.request, handler⟩] =
      world.verdicts.map Verdict.reply) :
    HalfDuplex (world.serve handler) := by
  unfold serve
  cases upgrade : world.conn.request.isWSHandshake with
  | error exception => exact escape_halfDuplex idle
  | ok handshake =>
      rw [Verdict.reply, upgrade] at answers
      cases handshake with
      | true =>
          apply processWsHandshake_halfDuplex idle reset
          rw [fresh]
          exact answers
      | false =>
          apply handleRequest_halfDuplex handler idle reset
          rw [fresh]
          exact answers

/-- The handler of a read, with the verdict it records, if any, answered. -/
theorem onRead_halfDuplex (idle : Idle world)
    (answered : world.writes = world.verdicts.map Verdict.reply) (bytes : Bytes)
    (handler : HTTPRequestHandler env) : HalfDuplex (world.onRead bytes handler) := by
  have reset := @parse_parser_of_settled env (requestOf world.conn.isHttp world.conn.remoteIp)
    world.conn.requestParser bytes
  have received : Idle (world.receive bytes (world.parseExit bytes)) :=
    ⟨idle.quiet, idle.unopened, idle.running, idle.inside⟩
  have settled : Idle ((world.receive bytes (world.parseExit bytes)).settle .good handler) :=
    ⟨idle.quiet, idle.unopened, idle.running, idle.inside⟩
  have answers : ∀ result, world.writes ++
      [Verdict.reply ⟨result, (world.parseExit bytes).request, handler⟩] =
        ((world.receive bytes (world.parseExit bytes)).settle result handler).verdicts.map
          Verdict.reply := by
    intro result
    simp only [settle, receive, answered, List.map_append, List.map_cons, List.map_nil]
  simp only [onRead]
  cases outcome : (world.parseExit bytes).result with
  | error exception => exact escape_halfDuplex received
  | ok result =>
      cases result with
      | indeterminate => exact doRead_halfDuplex received answered
      | bad =>
          have fresh := reset (Or.inr outcome)
          exact asyncWrite_halfDuplex .readNext
            ⟨idle.quiet, idle.unopened, idle.running, idle.inside⟩ fresh (answers .bad)
      | good =>
          have fresh := reset (Or.inl outcome)
          exact serve_halfDuplex handler settled fresh rfl (answers .good)

end Continuations

/-! ## Reachable states -/

theorem start_halfDuplex (isHttp : Bool) (remoteIp : env.IPAddress) :
    HalfDuplex (start isHttp remoteIp) := by
  have fresh : Idle ({ conn := { isHttp, remoteIp } } : World env) := ⟨rfl, rfl, rfl, rfl⟩
  cases isHttp with
  | true => exact doRead_halfDuplex fresh rfl
  | false =>
      refine ⟨Nat.le_refl 1, ?_, fun _ => rfl, fun ended => (fresh.not_ended ended).elim⟩
      intro write member
      simp [start] at member

/-- Every completion keeps the invariant. -/
theorem HalfDuplex.step {before after : World env} {event : Event env}
    (duplex : HalfDuplex before) (moved : before.step? event = some after) :
    HalfDuplex after := by
  cases step_cases moved with
  | secured member =>
      have idle := duplex.complete member
      exact doRead_halfDuplex idle (duplex.answered idle.inside)
  | unsecured code member =>
      have idle := duplex.complete member
      exact halfDuplex_of_quiet idle.quiet duplex.answered
  | readFailed code handler member =>
      have idle := duplex.complete member
      exact onError_halfDuplex idle (duplex.answered idle.inside) code
  | received bytes handler member sized =>
      have idle := duplex.complete member
      exact onRead_halfDuplex idle (duplex.answered idle.inside) bytes handler
  | written write error id member =>
      have idle := duplex.complete member
      have answered := duplex.answered idle.inside
      unfold onWrite
      cases write.next with
      | createWsConnection => exact createWsConnection_halfDuplex idle answered id
      | readNext =>
          cases error with
          | none => exact doRead_halfDuplex idle answered
          | some code => exact onError_halfDuplex idle answered code

theorem halfDuplex_of_reachable {world : World env} (reachable : (httpSystem env).Reachable world) :
    HalfDuplex world := by
  apply reachable.invariant
  · rintro state ⟨isHttp, remoteIp, rfl⟩
    exact start_halfDuplex isHttp remoteIp
  · intro before after event _ duplex moved
    exact duplex.step moved

/-- Without an outstanding operation no event is possible. -/
theorem step_ne_of_quiet {before after : World env} {event : Event env}
    (quiet : before.outstanding = []) : before.step? event ≠ some after := by
  have none : ∀ op, op ∉ before.outstanding := by
    intro op
    rw [quiet]
    exact List.not_mem_nil
  intro moved
  cases step_cases moved with
  | secured member => exact none _ member
  | unsecured code member => exact none _ member
  | readFailed code handler member => exact none _ member
  | received bytes handler member sized => exact none _ member
  | written write error id member => exact none _ member

theorem run_of_quiet {before after : World env} {events : List (Event env)}
    (quiet : before.outstanding = []) (run : (httpSystem env).Run before events after) :
    events = [] ∧ after = before := by
  cases run with
  | nil => exact ⟨rfl, rfl⟩
  | cons moved _ => exact (step_ne_of_quiet quiet moved).elim

/-- **Half duplex.** In every reachable state of a connection that no exception
has left: at most one operation is outstanding; a write finds the parser reset
and the response as it was when it was started; the writes started answer the
verdicts in order; and once a session has been created, nothing is outstanding
then or in any later state. -/
theorem reachable_halfDuplex {world : World env} (reachable : (httpSystem env).Reachable world)
    (returned : world.escaped = false) :
    world.outstanding.length ≤ 1 ∧
    (∀ write, .write write ∈ world.outstanding →
      world.conn.requestParser = {} ∧ world.conn.response = write.response) ∧
    world.writes = world.verdicts.map Verdict.reply ∧
    (world.sessions ≠ [] → ∀ events later,
      (httpSystem env).Run world events later → later.outstanding = []) := by
  have duplex := halfDuplex_of_reachable reachable
  refine ⟨duplex.single, duplex.writing, duplex.answered returned, ?_⟩
  intro opened events later run
  have quiet := duplex.ended (Or.inl opened)
  rw [(run_of_quiet quiet run).2]
  exact quiet

/-- A request has been read and its reply is being written. -/
theorem reachable_halfDuplex_get :
    let world : World .sample := ((start true []).complete .read).onRead
      (ascii "GET / HTTP/1.0\r\nHost: a\r\n\r\n") (fun request response => ⟨request, response, .returned⟩)
    world.outstanding.length ≤ 1 ∧
    (∀ write, .write write ∈ world.outstanding →
      world.conn.requestParser = {} ∧ world.conn.response = write.response) ∧
    world.writes = world.verdicts.map Verdict.reply ∧
    (world.sessions ≠ [] → ∀ events later,
      (httpSystem .sample).Run world events later → later.outstanding = []) := by
  intro world
  have started : (httpSystem .sample).Reachable (start true []) := .initial ⟨true, [], rfl⟩
  have reachable : (httpSystem .sample).Reachable world :=
    started.step (step_read (List.mem_singleton_self _) (by decide) _)
  exact reachable_halfDuplex reachable (by decide +kernel)

end Webserver.HTTP.World
