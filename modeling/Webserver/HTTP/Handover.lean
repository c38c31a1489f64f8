import Webserver.HTTP.HalfDuplex

/-! # Handing a connection over to a WebSocket session

When the write of a handshake response completes, the connection creates a
session, registers it and starts it. The completion handler does not look at the
error of the write. At most one such write completes in a run: nothing is
outstanding after it.
-/

namespace Webserver.HTTP

open Foundation System

variable {env : Externals}

/-- The session a call is about. -/
def ServerCall.id : ServerCall env → env.Pauuid
  | .wsAddSession id => id
  | .onopen id _ _ => id

/-- The write of a handshake response has completed. -/
def Event.Handover (event : Event env) : Prop :=
  ∃ response error id, event = .write ⟨.createWsConnection, response⟩ error id

/-- The write of a handshake response has failed. -/
def Event.HandoverFailed (event : Event env) : Prop :=
  ∃ response code id, event = .write ⟨.createWsConnection, response⟩ (some code) id

namespace World

/-- The `SID` cookie of the request is no identifier, so that creating a session
for it throws. -/
def Unidentified (world : World env) : Prop :=
  ∃ exception,
    env.makePauuid (world.conn.request.getCookie (ascii "SID")).value = .error exception

/-- The sessions made known are those whose handshake response has been written. -/
structure Justified (events : List (Event env)) (last : World env) : Prop where
  written : ∀ call ∈ last.announced, ∃ response,
    .write ⟨.createWsConnection, response⟩ none call.id ∈ events
  failed : ∀ event ∈ events, event.HandoverFailed → last.announced = []

theorem justified_of_quiet {events : List (Event env)} {last : World env}
    (quiet : last.announced = []) : Justified events last where
  written call member := by
    rw [quiet] at member
    cases member
  failed _ _ _ := quiet

theorem justified_cons_iff {event : Event env} {events : List (Event env)} {last : World env}
    (other : ¬ event.Handover) : Justified (event :: events) last ↔ Justified events last := by
  constructor
  · intro justified
    constructor
    · intro call member
      obtain ⟨response, present⟩ := justified.written call member
      rcases List.mem_cons.mp present with rfl | later
      · exact (other ⟨response, none, call.id, rfl⟩).elim
      · exact ⟨response, later⟩
    · intro later member failed
      exact justified.failed later (List.mem_cons_of_mem _ member) failed
  · intro justified
    constructor
    · intro call member
      obtain ⟨response, present⟩ := justified.written call member
      exact ⟨response, List.mem_cons_of_mem _ present⟩
    · intro later member failed
      rcases List.mem_cons.mp member with rfl | present
      · obtain ⟨response, code, id, rfl⟩ := failed
        exact (other ⟨response, some code, id, rfl⟩).elim
      · exact justified.failed later present failed

theorem serve_announced (handler : HTTPRequestHandler env) (world : World env) :
    (world.serve handler).announced = world.announced := by
  unfold serve
  cases world.conn.request.isWSHandshake with
  | error exception => rfl
  | ok handshake =>
      cases handshake with
      | true => rfl
      | false =>
          simp only [handleRequest]
          cases (handler world.conn.request world.conn.response).exit <;> rfl

/-- Only the completion of a handshake write makes a session known. -/
theorem step_announced {before after : World env} {event : Event env}
    (moved : before.step? event = some after) (other : ¬ event.Handover) :
    after.announced = before.announced := by
  cases step_cases moved with
  | secured member => rfl
  | unsecured code member => rfl
  | readFailed code handler member =>
      cases code with
      | operationAborted => rfl
      | other => rfl
  | received bytes handler member sized =>
      simp only [onRead]
      cases ((before.complete .read).parseExit bytes).result with
      | error exception => rfl
      | ok result =>
          cases result with
          | good => exact serve_announced handler _
          | bad => rfl
          | indeterminate => rfl
  | written write error id member =>
      obtain ⟨next, response⟩ := write
      cases next with
      | createWsConnection => exact (other ⟨response, error, id, rfl⟩).elim
      | readNext =>
          rcases error with _ | _ | _
          · rfl
          · rfl
          · rfl

/-- What the completion of a handshake write does. -/
theorem step_handover {before after : World env} {response : HTTPResponse}
    {error : Option ErrorCode} {id : env.Pauuid} (duplex : HalfDuplex before)
    (moved : before.step? (.write ⟨.createWsConnection, response⟩ error id) = some after) :
    after.outstanding = [] ∧
      ((before.Unidentified ∧ after.announced = before.announced) ∨
        ¬ before.Unidentified ∧ ∃ sid, after.announced =
          before.announced ++ [.wsAddSession id, .onopen id sid before.conn.request.uri]) := by
  cases step_cases moved with
  | written _ _ _ member =>
      have quiet := (duplex.complete member).quiet
      simp only [onWrite, createWsConnection]
      have same : (before.complete (.write ⟨.createWsConnection, response⟩)).conn =
          before.conn := rfl
      rw [same]
      unfold Unidentified
      cases converted : env.makePauuid (before.conn.request.getCookie (ascii "SID")).value with
      | error exception => exact ⟨quiet, Or.inl ⟨⟨exception, rfl⟩, rfl⟩⟩
      | ok sid => exact ⟨quiet, Or.inr ⟨by simp, sid, rfl⟩⟩

/-- The run of one handover. -/
theorem justified_handover_iff {before after : World env} {response : HTTPResponse}
    {error : Option ErrorCode} {id : env.Pauuid} (quiet : before.announced = [])
    (announced : (before.Unidentified ∧ after.announced = before.announced) ∨
      ¬ before.Unidentified ∧ ∃ sid, after.announced =
        before.announced ++ [.wsAddSession id, .onopen id sid before.conn.request.uri]) :
    Justified [.write ⟨.createWsConnection, response⟩ error id] after ↔
      (Event.HandoverFailed (.write ⟨.createWsConnection, response⟩ error id) →
        before.Unidentified) := by
  rcases announced with ⟨unidentified, same⟩ | ⟨identified, sid, calls⟩
  · exact iff_of_true (justified_of_quiet (same.trans quiet)) (fun _ => unidentified)
  · cases error with
    | none =>
        refine iff_of_true ⟨?_, ?_⟩ ?_
        · intro call member
          refine ⟨response, ?_⟩
          rw [calls, quiet] at member
          have named : call.id = id := by
            rcases List.mem_cons.mp member with rfl | member
            · rfl
            · rw [List.mem_singleton.mp member]
              rfl
          rw [named]
          exact List.mem_singleton_self _
        · intro event member failed
          rw [List.mem_singleton.mp member] at failed
          obtain ⟨other, code, otherId, same⟩ := failed
          cases same
        · rintro ⟨other, code, otherId, same⟩
          cases same
    | some code =>
        have failed : Event.HandoverFailed
            (.write ⟨.createWsConnection, response⟩ (some code) id) := ⟨response, code, id, rfl⟩
        refine iff_of_false ?_ (fun condition => identified (condition failed))
        intro justified
        have none := justified.failed _ (List.mem_singleton_self _) failed
        rw [calls, quiet] at none
        cases none

/-- A run from a state that has announced nothing makes known what it should,
exactly when each failed handshake write finds a `SID` that is no identifier. -/
theorem run_justified_iff {source last : World env} {events : List (Event env)}
    (run : (httpSystem env).Run source events last) (duplex : HalfDuplex source)
    (quiet : source.announced = []) :
    Justified events last ↔ ((httpSystem env).restrict fun before event _ =>
      event.HandoverFailed → before.Unidentified).Run source events last := by
  induction run with
  | nil state => exact iff_of_true (justified_of_quiet quiet) (.nil state)
  | @cons source middle last event events moved rest ih =>
      have enabled : source.step? event = some middle := moved
      by_cases handover : event.Handover
      · obtain ⟨response, error, id, rfl⟩ := handover
        obtain ⟨ended, announced⟩ := step_handover duplex enabled
        -- nothing is outstanding, so the run ends here
        obtain ⟨rfl, rfl⟩ := run_of_quiet ended rest
        rw [httpSystem_deterministic.restrict_run_cons_iff moved, and_iff_left (Run.nil _)]
        exact justified_handover_iff quiet announced
      · have same := (step_announced enabled handover).trans quiet
        rw [justified_cons_iff handover, ih (duplex.step enabled) same,
          httpSystem_deterministic.restrict_run_cons_iff moved]
        refine (and_iff_right ?_).symm
        rintro ⟨response, code, id, rfl⟩
        exact (handover ⟨response, some code, id, rfl⟩).elim

/-- **Sessions and handshakes.** In every run of a connection the sessions made
known are those whose handshake response has been written without error, and a
failed write makes none known, exactly when each failed write of a handshake
response finds a `SID` cookie that is no identifier. -/
theorem run_announced_iff {isHttp : Bool} {remoteIp : env.IPAddress} {last : World env}
    {events : List (Event env)}
    (run : (httpSystem env).Run (start isHttp remoteIp) events last) :
    Justified events last ↔ ((httpSystem env).restrict fun before event _ =>
      event.HandoverFailed → before.Unidentified).Run (start isHttp remoteIp) events last := by
  apply run_justified_iff run (start_halfDuplex isHttp remoteIp)
  cases isHttp with
  | true => rfl
  | false => rfl

/-- A handshake whose response cannot be written. -/
def failedHandshake : List (Event .sample) :=
  let bytes := ascii ("GET / HTTP/1.1\r\nHost: a\r\nUpgrade: websocket\r\n" ++
    "Connection: Upgrade\r\nSec-WebSocket-Key: k\r\nSec-WebSocket-Version: 13\r\n\r\n")
  let request := ((start true [] : World .sample).parseExit bytes).request
  [.read (.ok bytes) (fun request response => ⟨request, response, .returned⟩),
    .write ⟨.createWsConnection, (generateWsHandshakeHeaders request {}).2⟩ (some .other)
      (ascii "1")]

/-- It registers and starts a session. -/
theorem exists_failedHandshake : ∃ last,
    (httpSystem .sample).Run (start true []) failedHandshake last ∧ last.announced.length = 2 := by
  have announced : (failedHandshake.foldlM step? (start true [])).map
      (fun last => last.announced.length) = some 2 := by decide +kernel
  obtain ⟨last, executed, two⟩ := Option.map_eq_some_iff.mp announced
  exact ⟨last, .of_foldlM executed, two⟩

theorem run_announced_iff_failed : ∃ last,
    (httpSystem .sample).Run (start true []) failedHandshake last ∧
      (Justified failedHandshake last ↔ ((httpSystem .sample).restrict fun before event _ =>
        event.HandoverFailed → before.Unidentified).Run (start true []) failedHandshake last) := by
  obtain ⟨last, run, -⟩ := exists_failedHandshake
  exact ⟨last, run, run_announced_iff run⟩

/-- A session is registered and started though its handshake response was not
written. -/
theorem not_justified_failed : ¬ ∀ (env : Externals) (isHttp : Bool) (remoteIp : env.IPAddress)
    (events : List (Event env)) (last : World env),
    (httpSystem env).Run (start isHttp remoteIp) events last → Justified events last := by
  intro always
  obtain ⟨last, run, two⟩ := exists_failedHandshake
  have justified := always .sample true [] failedHandshake last run
  have none : last.announced = [] :=
    justified.failed _ (List.mem_cons_of_mem _ (List.mem_singleton_self _)) ⟨_, _, _, rfl⟩
  rw [none] at two
  cases two

end World

end Webserver.HTTP
