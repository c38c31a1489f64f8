import Webserver.HTTP.Answers
import Webserver.HTTP.Handshake

/-! # The switch of protocols

A connection serves requests until one of them opens a handshake. That request is the
last one: its answer is written, and with the completion of the write the connection
has created a session from it, or has ended without one.
-/

namespace Webserver.HTTP

open Foundation

variable {env : Externals}

/-- The last verdict, and no other, leads to an opening handshake. -/
def OpenedBy (opening : Verdict env) (verdicts : List (Verdict env)) : Prop :=
  ∃ front, verdicts = front ++ [opening] ∧ (∀ verdict ∈ front, ¬ verdict.Opens) ∧ opening.Opens

theorem OpenedBy.opens {opening : Verdict env} {verdicts : List (Verdict env)}
    (opened : OpenedBy opening verdicts) : opening.Opens := by
  obtain ⟨front, -, -, opens⟩ := opened
  exact opens

/-- What a session has been made from. -/
structure WSSession.From (session : WSSession env) (request : HTTPRequest env) : Prop where
  uri : session.uri = request.uri
  sid : env.makePauuid (request.getCookie (ascii "SID")).value = .ok session.sid

namespace World

/-- The stages of a connection between two handlers. -/
inductive Stage (world : World env) : Prop where
  /-- No request has opened a handshake. -/
  | serving : world.sessions = [] → (∀ verdict ∈ world.verdicts, ¬ verdict.Opens) →
      (∀ write, .write write ∈ world.outstanding → write.next = .readNext) → Stage world
  /-- The answer to the opening handshake is being written. -/
  | switching (opening : Verdict env) : world.sessions = [] →
      OpenedBy opening world.verdicts → world.outstanding = [.write opening.reply] →
      world.conn.request.cookies = opening.request.cookies →
      world.conn.request.uri = opening.request.uri → Stage world
  /-- The session cookie of the opening handshake was no identifier. -/
  | refused (opening : Verdict env) : world.sessions = [] →
      OpenedBy opening world.verdicts → world.outstanding = [] → Stage world
  /-- The session has been created. -/
  | switched (opening : Verdict env) (session : WSSession env) : world.sessions = [session] →
      OpenedBy opening world.verdicts → world.outstanding = [] → world.escaped = false →
      session.From opening.request → Stage world

/-- A connection that has something outstanding is serving or switching. -/
theorem Stage.pending {world : World env} {op : AsyncOp} (stage : Stage world)
    (member : op ∈ world.outstanding) :
    world.sessions = [] ∧
      ((∀ verdict ∈ world.verdicts, ¬ verdict.Opens) ∧
          (∀ write, op = .write write → write.next = .readNext) ∨
        ∃ opening, OpenedBy opening world.verdicts ∧ op = .write opening.reply ∧
          world.conn.request.cookies = opening.request.cookies ∧
          world.conn.request.uri = opening.request.uri) := by
  cases stage with
  | serving unopened plain reading =>
      refine ⟨unopened, Or.inl ⟨plain, ?_⟩⟩
      intro write same
      exact reading write (same ▸ member)
  | switching opening unopened opened writing cookies uri =>
      rw [writing] at member
      exact ⟨unopened, Or.inr ⟨opening, opened, List.mem_singleton.mp member, cookies, uri⟩⟩
  | refused opening unopened opened quiet =>
      rw [quiet] at member
      cases member
  | switched opening session created opened quiet inside source =>
      rw [quiet] at member
      cases member

section Handlers

variable {world : World env}

theorem doRead_stage (idle : Idle world) (plain : ∀ verdict ∈ world.verdicts, ¬ verdict.Opens) :
    Stage world.doRead := by
  refine .serving idle.unopened plain ?_
  intro write member
  simp [doRead, idle.quiet] at member

/-- Nothing is outstanding, and no request has opened a handshake. -/
theorem stage_of_quiet (quiet : world.outstanding = []) (unopened : world.sessions = [])
    (plain : ∀ verdict ∈ world.verdicts, ¬ verdict.Opens) : Stage world := by
  refine .serving unopened plain ?_
  intro write member
  rw [quiet] at member
  cases member

theorem doWrite_stage (idle : Idle world) (plain : ∀ verdict ∈ world.verdicts, ¬ verdict.Opens) :
    Stage world.doWrite := by
  refine .serving idle.unopened plain ?_
  intro write member
  have only : write = ⟨.readNext, world.conn.response⟩ := by
    simpa [doWrite, asyncWrite, idle.quiet] using member
  rw [only]

/-- The branch for `good`, with the verdict just recorded. -/
theorem serve_stage (handler : HTTPRequestHandler env) {front : List (Verdict env)}
    (idle : Idle world) (fresh : world.conn.response = {})
    (recorded : world.verdicts = front ++ [⟨.good, world.conn.request, handler⟩])
    (plain : ∀ verdict ∈ front, ¬ verdict.Opens) : Stage (world.serve handler) := by
  have others (unlike : world.conn.request.isWSHandshake ≠ .ok true) :
      ∀ verdict ∈ world.verdicts, ¬ verdict.Opens := by
    intro verdict member
    rw [recorded] at member
    rcases List.mem_append.mp member with old | new
    · exact plain verdict old
    · rw [List.mem_singleton.mp new]
      exact fun opens => unlike opens.2
  unfold serve
  cases upgrade : world.conn.request.isWSHandshake with
  | error exception => exact stage_of_quiet idle.quiet idle.unopened (others (by simp [upgrade]))
  | ok handshake =>
      cases handshake with
      | true =>
          let opening : Verdict env := ⟨.good, world.conn.request, handler⟩
          have opens : opening.Opens := ⟨rfl, upgrade⟩
          refine .switching opening idle.unopened ⟨front, recorded, plain, opens⟩ ?_ rfl rfl
          rw [opens.reply_eq]
          simp only [processWsHandshake, asyncWrite, idle.quiet, fresh, opening]
          rfl
      | false =>
          have plain := others (by simp [upgrade])
          have called : Idle (world.call handler) :=
            ⟨idle.quiet, idle.unopened, idle.running, idle.inside⟩
          simp only [handleRequest]
          cases (handler world.conn.request world.conn.response).exit with
          | returned => exact doWrite_stage called plain
          | threwException => exact doWrite_stage called plain
          | threwOther => exact stage_of_quiet called.quiet called.unopened plain

theorem onRead_stage (idle : Idle world) (plain : ∀ verdict ∈ world.verdicts, ¬ verdict.Opens)
    (bytes : Bytes) (handler : HTTPRequestHandler env) : Stage (world.onRead bytes handler) := by
  have received : Idle (world.receive bytes (world.parseExit bytes)) :=
    ⟨idle.quiet, idle.unopened, idle.running, idle.inside⟩
  simp only [onRead]
  cases (world.parseExit bytes).result with
  | error exception => exact stage_of_quiet received.quiet received.unopened plain
  | ok result =>
      cases result with
      | indeterminate => exact doRead_stage received plain
      | good =>
          exact serve_stage handler ⟨idle.quiet, idle.unopened, idle.running, idle.inside⟩ rfl rfl
            plain
      | bad =>
          refine doWrite_stage ⟨idle.quiet, idle.unopened, idle.running, idle.inside⟩ ?_
          intro verdict member
          rcases List.mem_append.mp member with old | new
          · exact plain verdict old
          · rw [List.mem_singleton.mp new]
            exact fun opens => by simpa using opens.1

/-- The write of the answer to an opening handshake has completed. -/
theorem createWsConnection_stage {opening : Verdict env} (idle : Idle world)
    (opened : OpenedBy opening world.verdicts)
    (cookies : world.conn.request.cookies = opening.request.cookies)
    (uri : world.conn.request.uri = opening.request.uri) (id : env.Pauuid) :
    Stage (world.createWsConnection id) := by
  have cookie : world.conn.request.getCookie (ascii "SID") =
      opening.request.getCookie (ascii "SID") := by
    rw [HTTPRequest.getCookie, HTTPRequest.getCookie, cookies]
  cases converted : env.makePauuid (world.conn.request.getCookie (ascii "SID")).value with
  | error exception =>
      rw [createWsConnection_of_error converted]
      exact .refused opening idle.unopened opened idle.quiet
  | ok sid =>
      rw [createWsConnection_of_ok converted]
      refine .switched opening ⟨id, sid, world.conn.request.uri⟩ ?_ opened idle.quiet idle.inside
        ⟨uri, ?_⟩
      · simp only [idle.unopened, List.nil_append]
      · rw [← cookie]
        exact converted

end Handlers

/-- Every completion leads from one stage to another. -/
theorem Stage.step {before after : World env} {event : Event env} (duplex : HalfDuplex before)
    (stage : Stage before) (moved : before.step? event = some after) : Stage after := by
  cases step_cases moved with
  | secured member =>
      obtain ⟨-, ⟨plain, -⟩ | ⟨opening, -, other, -⟩⟩ := stage.pending member
      · exact doRead_stage (duplex.complete member) plain
      · cases other
  | unsecured code member =>
      have idle := duplex.complete member
      obtain ⟨-, ⟨plain, -⟩ | ⟨opening, -, other, -⟩⟩ := stage.pending member
      · exact stage_of_quiet idle.quiet idle.unopened plain
      · cases other
  | readFailed code handler member =>
      have idle := duplex.complete member
      obtain ⟨-, ⟨plain, -⟩ | ⟨opening, -, other, -⟩⟩ := stage.pending member
      · cases code with
        | operationAborted => exact stage_of_quiet idle.quiet idle.unopened plain
        | other => exact stage_of_quiet idle.quiet idle.unopened plain
      · cases other
  | received bytes handler member sized =>
      obtain ⟨-, ⟨plain, -⟩ | ⟨opening, -, other, -⟩⟩ := stage.pending member
      · exact onRead_stage (duplex.complete member) plain bytes handler
      · cases other
  | written write error id member =>
      have idle := duplex.complete member
      obtain ⟨-, ⟨plain, reading⟩ | ⟨opening, opened, same, cookies, uri⟩⟩ := stage.pending member
      · rw [reading write rfl]
        rcases error with _ | _ | _
        · exact doRead_stage idle plain
        · exact stage_of_quiet idle.quiet idle.unopened plain
        · exact stage_of_quiet idle.quiet idle.unopened plain
      · cases same
        rw [opened.opens.reply_eq] at idle ⊢
        rw [onWrite_createWsConnection]
        exact createWsConnection_stage idle opened cookies uri id

/-- Something can happen to a connection only before it has created a session. -/
theorem Stage.unopened {before after : World env} {event : Event env} (stage : Stage before)
    (moved : before.step? event = some after) : before.sessions = [] := by
  cases step_cases moved with
  | secured member => exact (stage.pending member).1
  | unsecured code member => exact (stage.pending member).1
  | readFailed code handler member => exact (stage.pending member).1
  | received bytes handler member sized => exact (stage.pending member).1
  | written write error id member => exact (stage.pending member).1

theorem stage_of_reachable {world : World env} (reachable : (httpSystem env).Reachable world) :
    Stage world := by
  apply reachable.invariant
  · rintro state ⟨isHttp, remoteIp, rfl⟩
    cases isHttp with
    | true => exact doRead_stage ⟨rfl, rfl, rfl, rfl⟩ nofun
    | false =>
        refine .serving rfl nofun ?_
        intro write member
        simp [start] at member
  · intro before event after earlier stage moved
    exact stage.step (halfDuplex_of_reachable earlier) moved

end World

end Webserver.HTTP
