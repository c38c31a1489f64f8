import Webserver.HTTP.Authority
import Webserver.HTTP.KeepAlive

/-! # The opening handshake

The path from a parsed request to a WebSocket session. The conversions of the
version and of the session cookie are made outside every `try` block, so the path
is free of exceptions exactly when the texts that are reached convert.
-/

namespace Webserver.HTTP

open Foundation Schema HTTPParser Grammar Incremental

variable {env : Externals}

namespace HTTPRequest

/-- The request has a version and everything in front of its conversion. -/
def ReachesVersion (request : HTTPRequest env) (version : Bytes) : Prop :=
  request.isWSUpgrade ∧
    (env.scheme request.uri = URI.wsProto ∨ env.scheme request.uri = URI.wssProto) ∧
    (∃ key, request.headers.lookup Header.WS.secWebsocketKey = some key ∧ key ≠ []) ∧
    request.headers.lookup Header.WS.secWebsocketVersion = some version

theorem isWSHandshake_of_reaches {request : HTTPRequest env} {version : Bytes}
    (reaches : request.ReachesVersion version) :
    request.isWSHandshake = (stoi version).map (fun number => decide (13 ≤ number)) := by
  obtain ⟨upgrade, scheme, ⟨key, found, nonempty⟩, present⟩ := reaches
  have ws : (env.scheme request.uri == URI.wsProto || env.scheme request.uri == URI.wssProto) =
      true := by simpa using scheme
  have filled : key.isEmpty = false := by simpa using nonempty
  simp only [isWSHandshake, upgrade, ws, found, present, filled, Bool.not_true, Bool.or_self,
    Bool.false_eq_true, ↓reduceIte]

theorem isWSHandshake_of_not_reaches {request : HTTPRequest env}
    (never : ∀ version, ¬ request.ReachesVersion version) : request.isWSHandshake = .ok false := by
  rw [isWSHandshake]
  split_ifs with earlier
  · rfl
  · have opened : request.isWSUpgrade ∧
        (env.scheme request.uri = URI.wsProto ∨ env.scheme request.uri = URI.wssProto) := by
      simpa [or_iff_not_imp_left] using earlier
    split
    · next key version found present =>
      split_ifs with none
      · rfl
      · have nonempty : key ≠ [] := by simpa using none
        exact (never version ⟨opened.1, opened.2, ⟨key, found, nonempty⟩, present⟩).elim
    · rfl

end HTTPRequest

/-! ## Exceptions -/

namespace World

/-- The handshake path of a read that delivers a request: `isWSHandshake`
returns, and when it returns true, the reply is started and the completion of
that write, whatever its outcome, creates the session under the generated
identifier, registers and starts it, all without an exception. -/
structure HandshakeReturns (world : World env) (bytes : Bytes) (id : env.Pauuid) : Prop where
  answers : ∃ answer, (world.parseExit bytes).request.isWSHandshake = .ok answer
  starts : (world.parseExit bytes).request.isWSHandshake = .ok true →
    ∀ (handler : HTTPRequestHandler env) (error : Option ErrorCode),
      let served := world.onRead bytes handler
      let created := served.onWrite .createWsConnection error id
      served.escaped = world.escaped ∧ created.escaped = world.escaped ∧
        ∃ sid, created.sessions = world.sessions ++ [⟨id, sid, served.conn.request.uri⟩] ∧
          created.announced = world.announced ++
            [.wsAddSession id, .onopen id sid served.conn.request.uri]

/-- Every conversion that the handshake path reaches succeeds: that of the version,
and, from version 13 on, that of the text of the session cookie. -/
def Converts (request : HTTPRequest env) : Prop :=
  ∀ version, request.ReachesVersion version → ∃ number, stoi version = .ok number ∧
    (13 ≤ number → ∃ sid, env.makePauuid (request.getCookie (ascii "SID")).value = .ok sid)

/-- The reply to a handshake changes neither the cookies nor the URI. -/
theorem onRead_handshake {world : World env} {bytes : Bytes}
    (good : (world.parseExit bytes).result = .ok .good)
    (opens : (world.parseExit bytes).request.isWSHandshake = .ok true)
    (handler : HTTPRequestHandler env) :
    let served := world.onRead bytes handler
    served.escaped = world.escaped ∧ served.sessions = world.sessions ∧
      served.announced = world.announced ∧ served.handed = world.handed ∧
      (∃ response, served.writes = world.writes ++ [⟨.createWsConnection, response⟩]) ∧
      served.conn.request.cookies = (world.parseExit bytes).request.cookies ∧
      served.conn.request.uri = (world.parseExit bytes).request.uri := by
  intro served
  have request : ((world.receive bytes (world.parseExit bytes)).settle .good
      handler).conn.request.isWSHandshake = .ok true := opens
  have reply : served = ((world.receive bytes (world.parseExit bytes)).settle .good
      handler).processWsHandshake := by
    simp only [served, onRead, good, serve, request]
  rw [reply]
  exact ⟨rfl, rfl, rfl, rfl, ⟨_, rfl⟩, rfl, rfl⟩

theorem onWrite_createWsConnection (world : World env) (error : Option ErrorCode)
    (id : env.Pauuid) :
    world.onWrite .createWsConnection error id = world.createWsConnection id := by
  cases error <;> rfl

/-- The session is created when the value of the session cookie converts. -/
theorem createWsConnection_of_ok {world : World env} {sid : env.Pauuid}
    (converted : env.makePauuid (world.conn.request.getCookie (ascii "SID")).value = .ok sid)
    (id : env.Pauuid) :
    world.createWsConnection id = { world with
      sessions := world.sessions ++ [⟨id, sid, world.conn.request.uri⟩]
      announced := world.announced ++
        [.wsAddSession id, .onopen id sid world.conn.request.uri] } := by
  simp only [createWsConnection, converted]

/-- Otherwise nothing is registered. -/
theorem createWsConnection_of_error {world : World env} {exception : StdException}
    (refused : env.makePauuid (world.conn.request.getCookie (ascii "SID")).value =
      .error exception) (id : env.Pauuid) : world.createWsConnection id = world.escape := by
  simp only [createWsConnection, refused]

/-- What the completion of the reply makes of a delivered handshake is decided by
the text of the session cookie. -/
theorem HandshakeReturns.starts_iff {world : World env} {bytes : Bytes} (id : env.Pauuid)
    (good : (world.parseExit bytes).result = .ok .good)
    (opens : (world.parseExit bytes).request.isWSHandshake = .ok true)
    (handler : HTTPRequestHandler env) (error : Option ErrorCode) :
    let served := world.onRead bytes handler
    let created := served.onWrite .createWsConnection error id
    (served.escaped = world.escaped ∧ created.escaped = world.escaped ∧
      ∃ sid, created.sessions = world.sessions ++ [⟨id, sid, served.conn.request.uri⟩] ∧
        created.announced = world.announced ++
          [.wsAddSession id, .onopen id sid served.conn.request.uri]) ↔
    ∃ sid, env.makePauuid ((world.parseExit bytes).request.getCookie (ascii "SID")).value =
      .ok sid := by
  intro served created
  obtain ⟨quiet, sessions, announced, -, -, cookies, -⟩ := onRead_handshake good opens handler
  have cookie : served.conn.request.getCookie (ascii "SID") =
      (world.parseExit bytes).request.getCookie (ascii "SID") := by
    rw [HTTPRequest.getCookie, HTTPRequest.getCookie, cookies]
  have afterwards : created = served.createWsConnection id :=
    onWrite_createWsConnection served error id
  rw [afterwards, ← cookie]
  cases converted : env.makePauuid (served.conn.request.getCookie (ascii "SID")).value with
  | ok sid =>
      rw [createWsConnection_of_ok converted]
      refine iff_of_true ⟨quiet, quiet, sid, ?_, ?_⟩ ⟨sid, rfl⟩
      · rw [← sessions]
      · rw [← announced]
  | error exception =>
      rw [createWsConnection_of_error converted]
      refine iff_of_false ?_ (by simp)
      intro started
      obtain ⟨-, -, sid, created, -⟩ := started
      have longer := congrArg List.length created
      rw [List.length_append, ← sessions] at longer
      exact absurd longer (Nat.succ_ne_self _).symm

/-- **The handshake path without exceptions.** For every read that delivers a
request, the path returns exactly when the conversions it reaches succeed. -/
theorem handshakeReturns_iff {world : World env} {bytes : Bytes} (id : env.Pauuid)
    (good : (world.parseExit bytes).result = .ok .good) :
    HandshakeReturns world bytes id ↔ Converts (world.parseExit bytes).request := by
  constructor
  · intro returns version reaches
    have answer := HTTPRequest.isWSHandshake_of_reaches reaches
    obtain ⟨told, answered⟩ := returns.answers
    rw [answer] at answered
    cases converted : stoi version with
    | error exception =>
        rw [converted] at answered
        cases answered
    | ok number =>
        refine ⟨number, rfl, ?_⟩
        intro recent
        have opens : (world.parseExit bytes).request.isWSHandshake = .ok true := by
          rw [answer, converted]
          exact congrArg Except.ok (decide_eq_true recent)
        let handler : HTTPRequestHandler env := fun request response =>
          ⟨request, response, .returned⟩
        exact (HandshakeReturns.starts_iff id good opens handler none).mp
          (returns.starts opens handler none)
  · intro converts
    by_cases reached : ∃ version, (world.parseExit bytes).request.ReachesVersion version
    · obtain ⟨version, reaches⟩ := reached
      have answer := HTTPRequest.isWSHandshake_of_reaches reaches
      obtain ⟨number, converted, identified⟩ := converts version reaches
      rw [converted] at answer
      refine ⟨⟨_, answer⟩, ?_⟩
      intro opens handler error
      have recent : 13 ≤ number := of_decide_eq_true (Except.ok.inj (answer.symm.trans opens))
      exact (HandshakeReturns.starts_iff id good opens handler error).mpr (identified recent)
    · have answer := HTTPRequest.isWSHandshake_of_not_reaches
        (fun version reaches => reached ⟨version, reaches⟩)
      refine ⟨⟨false, answer⟩, ?_⟩
      intro opens
      rw [answer] at opens
      cases opens

/-- A handshake without a session cookie. -/
theorem handshakeReturns_iff_noCookie :
    let world : World .sample := start true []
    let bytes := ascii "GET / HTTP/1.1\r\nHost: a\r\nUpgrade: websocket\r\nConnection: Upgrade\r\n" ++
      ascii "Sec-WebSocket-Key: k\r\nSec-WebSocket-Version: 13\r\n\r\n"
    HandshakeReturns world bytes (ascii "id") ↔ Converts (world.parseExit bytes).request := by
  intro world bytes
  have good : (world.parseExit bytes).result = .ok .good := by decide +kernel
  exact handshakeReturns_iff (ascii "id") good

/-- A version that is no number. -/
theorem not_handshakeReturns : ¬ ∀ (env : Externals) (world : World env) (bytes : Bytes)
    (id : env.Pauuid), (world.parseExit bytes).result = .ok .good →
      HandshakeReturns world bytes id := by
  intro always
  let world : World .sample := start true []
  let bytes :=
    ascii "GET / HTTP/1.1\r\nHost: a\r\nUpgrade: websocket\r\nConnection: Upgrade\r\n" ++
      ascii "Sec-WebSocket-Key: k\r\nSec-WebSocket-Version: x\r\n\r\n"
  have good : (world.parseExit bytes).result = .ok .good := by decide +kernel
  have thrown : (world.parseExit bytes).request.isWSHandshake = .error .invalidArgument := by
    decide +kernel
  obtain ⟨answer, answered⟩ := (always .sample world bytes (ascii "id") good).answers
  rw [thrown] at answered
  cases answered

end World

end Webserver.HTTP
