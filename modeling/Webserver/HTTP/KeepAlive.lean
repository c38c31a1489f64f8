import Webserver.HTTP.HalfDuplex

/-! # Requests on a reused connection

What a connection hands to `HandleRequest` depends on nothing but the bytes since
the last verdict and the constants of the connection. From this follow the
isolation of the requests of one connection from each other, and which requests
a sequence of reads delivers: all of them when every message ends with a read.
Bytes that follow the end of a message in its last read are never looked at.
-/

namespace Webserver.HTTP.World

open Foundation Schema HTTPParser Incremental

variable {env : Externals}

/-! ## What a read hands over -/

/-- The arguments of the call of `HandleRequest`, if any, after a call of `Parse`. -/
def handedOf (exit : ParseExit env) : List (HTTPRequest env × HTTPResponse) :=
  match exit.result, exit.request.isWSHandshake with
  | .ok .good, .ok false => [(exit.request, {})]
  | _, _ => []

theorem handleRequest_handed (handler : HTTPRequestHandler env) (world : World env) :
    (world.handleRequest handler).handed =
      world.handed ++ [(world.conn.request, world.conn.response)] := by
  unfold handleRequest
  cases (handler world.conn.request world.conn.response).exit <;> rfl

/-- A read calls `HandleRequest` with the request `Parse` filled and a new response. -/
theorem onRead_handed (bytes : Bytes) (handler : HTTPRequestHandler env) (world : World env) :
    (world.onRead bytes handler).handed = world.handed ++ handedOf (world.parseExit bytes) := by
  unfold handedOf
  simp only [onRead]
  cases outcome : (world.parseExit bytes).result with
  | error exception => exact (List.append_nil _).symm
  | ok result =>
      cases result with
      | indeterminate => exact (List.append_nil _).symm
      | bad => exact (List.append_nil _).symm
      | good =>
          have same : ((world.receive bytes (world.parseExit bytes)).settle .good
              handler).conn.request = (world.parseExit bytes).request := rfl
          unfold serve
          rw [same]
          cases (world.parseExit bytes).request.isWSHandshake with
          | error exception => exact (List.append_nil _).symm
          | ok handshake =>
              cases handshake with
              | true => exact (List.append_nil _).symm
              | false => exact handleRequest_handed handler _

/-! ## The parser of a connection -/

/-- The parser has read the bytes since the last verdict, and nothing else. -/
def Synchronized (world : World env) : Prop :=
  world.escaped = false → run (parseStep env) {} world.since = .more world.conn.requestParser

theorem synchronized_of_reset {world : World env} (since : world.since = [])
    (parser : world.conn.requestParser = {}) : Synchronized world := by
  intro _
  rw [since, parser, run_nil]

theorem serve_synchronized {world : World env} (handler : HTTPRequestHandler env)
    (since : world.since = []) (parser : world.conn.requestParser = {}) :
    Synchronized (world.serve handler) := by
  unfold serve
  cases world.conn.request.isWSHandshake with
  | error exception => exact synchronized_of_reset since parser
  | ok handshake =>
      cases handshake with
      | true => exact synchronized_of_reset since parser
      | false =>
          simp only [handleRequest]
          cases (handler world.conn.request world.conn.response).exit with
          | returned => exact synchronized_of_reset since parser
          | threwException => exact synchronized_of_reset since parser
          | threwOther => exact synchronized_of_reset since parser

theorem onRead_synchronized {world : World env} (synchronized : Synchronized world)
    (inside : world.escaped = false) (bytes : Bytes) (handler : HTTPRequestHandler env) :
    Synchronized (world.onRead bytes handler) := by
  have reset := @parse_parser_of_settled env (requestOf world.conn.isHttp world.conn.remoteIp)
    world.conn.requestParser bytes
  simp only [onRead]
  cases outcome : (world.parseExit bytes).result with
  | error exception =>
      intro returned
      cases returned
  | ok result =>
      cases result with
      | indeterminate =>
          intro _
          have running := (parse_indeterminate_iff _).mp outcome
          exact (run_append_of_more bytes (synchronized inside)).trans running
      | bad => exact synchronized_of_reset rfl (reset (Or.inr outcome))
      | good => exact serve_synchronized handler rfl (reset (Or.inl outcome))

theorem Synchronized.step {before after : World env} {event : Event env}
    (duplex : HalfDuplex before) (synchronized : Synchronized before)
    (moved : before.step? event = some after) : Synchronized after := by
  cases step_cases moved with
  | secured member => exact synchronized
  | unsecured code member => exact synchronized
  | readFailed code handler member =>
      cases code with
      | operationAborted => exact synchronized
      | other => exact synchronized
  | received bytes handler member sized =>
      have kept : Synchronized (before.complete .read) := synchronized
      exact onRead_synchronized kept (duplex.complete member).inside bytes handler
  | written write error id member =>
      unfold onWrite
      cases write.next with
      | createWsConnection =>
          simp only [createWsConnection]
          cases env.makePauuid _ with
          | error exception =>
              intro returned
              cases returned
          | ok sid => exact synchronized
      | readNext =>
          rcases error with _ | _ | _
          · exact synchronized
          · exact synchronized
          · exact synchronized

theorem synchronized_of_reachable {world : World env}
    (reachable : (httpSystem env).Reachable world) : Synchronized world := by
  apply reachable.invariant
  · rintro state ⟨isHttp, remoteIp, rfl⟩
    cases isHttp with
    | true => exact synchronized_of_reset rfl rfl
    | false => exact synchronized_of_reset rfl rfl
  · intro before after event earlier synchronized moved
    exact synchronized.step (halfDuplex_of_reachable earlier) moved

/-- One call of `Parse` on all the bytes since the last verdict gives what the
calls on the successive reads give. -/
theorem Synchronized.parseExit {world : World env} (synchronized : Synchronized world)
    (inside : world.escaped = false) (bytes : Bytes) :
    let whole := HTTPParser.parse {} (requestOf world.conn.isHttp world.conn.remoteIp)
      (world.since ++ bytes)
    (world.parseExit bytes).result = whole.result ∧
      (world.parseExit bytes).request = whole.request := by
  intro whole
  have overall := run_append_of_more bytes (synchronized inside)
  have same : whole = HTTPParser.parse {} _ (world.since ++ bytes) := rfl
  unfold World.parseExit
  cases progress : run (parseStep env) world.conn.requestParser bytes with
  | more after =>
      rw [same, parse_of_more _ progress, parse_of_more _ (overall.trans progress)]
      exact ⟨rfl, rfl⟩
  | done verdict after rest =>
      rw [same, parse_of_done _ progress, parse_of_done _ (overall.trans progress)]
      have congr := conclude_congr (requestOf world.conn.isHttp world.conn.remoteIp) bytes
        (world.since ++ bytes) after verdict
      exact ⟨congr.1, congr.2.1⟩

/-! ## Isolation -/

/-- A read hands over what one call of `Parse` on the bytes since the last
verdict makes of them, whatever happened before. -/
theorem handed_of_read {before after : World env} {bytes : Bytes}
    {handler : HTTPRequestHandler env} (reachable : (httpSystem env).Reachable before)
    (moved : (httpSystem env).step before (.read (.ok bytes) handler) after) :
    after.handed = before.handed ++ handedOf (HTTPParser.parse {}
      (requestOf before.conn.isHttp before.conn.remoteIp) (before.since ++ bytes)) := by
  cases step_cases moved with
  | received _ _ reading sized =>
      have inside := ((halfDuplex_of_reachable reachable).complete reading).inside
      obtain ⟨result, request⟩ := (synchronized_of_reachable reachable).parseExit inside bytes
      have same : (before.complete .read).parseExit bytes = before.parseExit bytes := rfl
      rw [onRead_handed, same]
      unfold handedOf
      rw [result, request]
      rfl

theorem handedOf_length_le (exit : ParseExit env) : (handedOf exit).length ≤ 1 := by
  unfold handedOf
  split <;> simp

theorem response_of_mem_handedOf {exit : ParseExit env} {call : HTTPRequest env × HTTPResponse}
    (member : call ∈ handedOf exit) : call.2 = {} := by
  unfold handedOf at member
  split at member
  · rw [List.mem_singleton.mp member]
  · cases member

/-- **Isolation of requests.** Two runs with any histories that have received the
same bytes since the last verdict hand over the same request, with a new
response, when the next read completes it. -/
theorem handed_isolated {first second last₁ last₂ : World env} {bytes₁ bytes₂ : Bytes}
    {handler₁ handler₂ : HTTPRequestHandler env}
    (reachable₁ : (httpSystem env).Reachable first)
    (reachable₂ : (httpSystem env).Reachable second)
    (isHttp : first.conn.isHttp = second.conn.isHttp)
    (remoteIp : first.conn.remoteIp = second.conn.remoteIp)
    (received : first.since ++ bytes₁ = second.since ++ bytes₂)
    (moved₁ : (httpSystem env).step first (.read (.ok bytes₁) handler₁) last₁)
    (moved₂ : (httpSystem env).step second (.read (.ok bytes₂) handler₂) last₂) :
    ∃ calls, last₁.handed = first.handed ++ calls ∧ last₂.handed = second.handed ++ calls ∧
      calls.length ≤ 1 ∧ ∀ call ∈ calls, call.2 = {} := by
  have one := handed_of_read reachable₁ moved₁
  have two := handed_of_read reachable₂ moved₂
  rw [isHttp, remoteIp, received] at one
  refine ⟨_, one, two, handedOf_length_le _, ?_⟩
  intro call member
  exact response_of_mem_handedOf member

/-- A request in two reads, and the same request in one. -/
theorem handed_isolated_get :
    let bytes := ascii "GET / HTTP/1.0\r\nHost: a\r\n\r\n"
    let handler : HTTPRequestHandler .sample := fun request response => ⟨request, response, .returned⟩
    let first := ((start true []).complete .read).onRead (bytes.take 5) handler
    let second : World .sample := start true []
    ∃ calls,
      ((first.complete .read).onRead (bytes.drop 5) handler).handed = first.handed ++ calls ∧
      ((second.complete .read).onRead bytes handler).handed = second.handed ++ calls ∧
      calls.length ≤ 1 ∧ ∀ call ∈ calls, call.2 = {} := by
  intro bytes handler first second
  have started : (httpSystem .sample).Reachable second := .initial ⟨true, [], rfl⟩
  have halfway : (httpSystem .sample).Reachable first :=
    started.step (step_read (List.mem_singleton_self _) (by decide) handler)
  exact handed_isolated halfway started (by decide +kernel) rfl (by decide +kernel)
    (step_read (by decide +kernel) (by decide) handler)
    (step_read (List.mem_singleton_self _) (by decide) handler)

end Webserver.HTTP.World
