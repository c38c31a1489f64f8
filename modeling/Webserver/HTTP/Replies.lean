import Webserver.HTTP.HalfDuplex

/-! # Replies of the connection itself

The replies a connection is responsible for: the one to a bad request, and the
one it sends after a call of `HandleRequest` has thrown. The first is a stock
reply with its length; the second is whatever the call has left in `response_`.
-/

namespace Webserver.HTTP

open Foundation Schema HTTPParser

variable {env : Externals}

/-- A `Content-Length` header tells the size of the content. -/
def HTTPResponse.SelfDelimiting (response : HTTPResponse) : Prop :=
  ∃ name : Bytes, name.map lower = ascii "content-length" ∧
    response.headers.lookup name = some (toDecimal response.content.length)

/-- Every stock reply tells its size. -/
theorem HTTPResponse.stockReply_selfDelimiting (status : StatusCode) :
    (stockReply status).SelfDelimiting := by
  refine ⟨ascii "Content-Length", by decide +kernel, ?_⟩
  have other : ascii "Content-Length" ≠ ascii "Content-Type" := by decide +kernel
  simp only [stockReply, UnorderedMap.assign]
  rw [AList.lookup_insert_ne other, AList.lookup_insert]

namespace Verdict

/-- A call of `HandleRequest` that ended in an exception its caller catches. -/
def Thrown (verdict : Verdict env) : Prop :=
  verdict.result = .good ∧ verdict.request.isWSHandshake = .ok false ∧
    (verdict.handler verdict.request {}).exit = .threwException

/-- The connection itself is responsible for the reply. -/
def Own (verdict : Verdict env) : Prop := verdict.result = .bad ∨ verdict.Thrown

/-- What a call of `HandleRequest` leaves in `response_`. -/
def left (verdict : Verdict env) : HTTPResponse :=
  (verdict.handler verdict.request {}).response

theorem reply_of_bad {verdict : Verdict env} (bad : verdict.result = .bad) :
    verdict.reply = ⟨.readNext, HTTPResponse.stockReply .badRequest⟩ := by
  rw [reply, bad]

theorem Thrown.reply_eq {verdict : Verdict env} (thrown : verdict.Thrown) :
    verdict.reply = ⟨.readNext, verdict.left⟩ := by
  obtain ⟨good, plain, -⟩ := thrown
  rw [reply, good, plain]
  rfl

end Verdict

namespace World

/-- Every verdict has been answered, but perhaps the last one: an exception has
left the handler there, and the reply was not the connection's own. -/
def Answering (world : World env) : Prop :=
  world.writes = world.verdicts.map Verdict.reply ∨
    ∃ front last, world.verdicts = front ++ [last] ∧
      world.writes = front.map Verdict.reply ∧ ¬ last.Own

section Handlers

variable {world : World env} (handler : HTTPRequestHandler env)

/-- The branch for `good`, with the verdict just recorded. -/
theorem serve_answering {front : List (Verdict env)} (fresh : world.conn.response = {})
    (recorded : world.verdicts = front ++ [⟨.good, world.conn.request, handler⟩])
    (answered : world.writes = front.map Verdict.reply) : Answering (world.serve handler) := by
  unfold serve
  cases upgrade : world.conn.request.isWSHandshake with
  | error exception =>
      refine Or.inr ⟨front, _, recorded, answered, ?_⟩
      rintro (bad | ⟨-, plain, -⟩)
      · cases bad
      · rw [upgrade] at plain
        cases plain
  | ok handshake =>
      cases handshake with
      | true =>
          have reply : Verdict.reply ⟨.good, world.conn.request, handler⟩ =
              ⟨.createWsConnection, (generateWsHandshakeHeaders world.conn.request
                world.conn.response).2⟩ := by
            rw [Verdict.reply, upgrade, fresh]
          have written : world.writes ++ [⟨.createWsConnection, (generateWsHandshakeHeaders
              world.conn.request world.conn.response).2⟩] =
                world.verdicts.map Verdict.reply := by
            rw [recorded, answered, List.map_append, List.map_singleton, reply]
          exact Or.inl written
      | false =>
          have reply : Verdict.reply ⟨.good, world.conn.request, handler⟩ =
              ⟨.readNext, (handler world.conn.request world.conn.response).response⟩ := by
            rw [Verdict.reply, upgrade, fresh]
          have written : world.writes ++ [⟨.readNext,
              (handler world.conn.request world.conn.response).response⟩] =
                world.verdicts.map Verdict.reply := by
            rw [recorded, answered, List.map_append, List.map_singleton, reply]
          simp only [handleRequest]
          cases ended : (handler world.conn.request world.conn.response).exit with
          | returned => exact Or.inl written
          | threwException => exact Or.inl written
          | threwOther =>
              refine Or.inr ⟨front, _, recorded, answered, ?_⟩
              rintro (bad | ⟨-, -, thrown⟩)
              · cases bad
              · rw [← fresh, ended] at thrown
                cases thrown

theorem serve_verdicts : (world.serve handler).verdicts = world.verdicts := by
  unfold serve
  cases world.conn.request.isWSHandshake with
  | error exception => rfl
  | ok handshake =>
      cases handshake with
      | true => rfl
      | false =>
          simp only [handleRequest]
          cases (handler world.conn.request world.conn.response).exit <;> rfl

theorem onRead_verdicts {bytes : Bytes} (good : (world.parseExit bytes).result = .ok .good) :
    (world.onRead bytes handler).verdicts =
      world.verdicts ++ [⟨.good, (world.parseExit bytes).request, handler⟩] := by
  simp only [onRead, good]
  exact serve_verdicts handler

theorem onRead_answering (answered : world.writes = world.verdicts.map Verdict.reply)
    (bytes : Bytes) : Answering (world.onRead bytes handler) := by
  simp only [onRead]
  cases outcome : (world.parseExit bytes).result with
  | error exception => exact Or.inl answered
  | ok result =>
      cases result with
      | indeterminate => exact Or.inl answered
      | bad =>
          left
          change world.writes ++ [_] = (world.verdicts ++ [_]).map Verdict.reply
          rw [answered, List.map_append, List.map_singleton, Verdict.reply_of_bad rfl]
      | good => exact serve_answering handler rfl rfl answered

end Handlers

theorem Answering.step {before after : World env} {event : Event env}
    (duplex : HalfDuplex before) (answering : Answering before)
    (moved : before.step? event = some after) : Answering after := by
  cases step_cases moved with
  | secured member => exact answering
  | unsecured code member => exact answering
  | readFailed code handler member =>
      cases code with
      | operationAborted => exact answering
      | other => exact answering
  | received bytes handler member sized =>
      have answered : (before.complete .read).writes =
          (before.complete .read).verdicts.map Verdict.reply :=
        duplex.answered (duplex.complete member).inside
      exact onRead_answering handler answered bytes
  | written write error id member =>
      unfold onWrite
      cases write.next with
      | createWsConnection =>
          simp only [createWsConnection]
          cases env.makePauuid _ with
          | error exception => exact answering
          | ok sid => exact answering
      | readNext =>
          rcases error with _ | _ | _
          · exact answering
          · exact answering
          · exact answering

theorem answering_of_reachable {world : World env} (reachable : (httpSystem env).Reachable world) :
    Answering world := by
  apply reachable.invariant
  · rintro state ⟨isHttp, remoteIp, rfl⟩
    cases isHttp with
    | true => exact Or.inl rfl
    | false => exact Or.inl rfl
  · intro before after event earlier answering moved
    exact answering.step (halfDuplex_of_reachable earlier) moved

/-- A verdict whose reply is the connection's own has been answered. -/
theorem Answering.write_of_own {world : World env} (answering : Answering world) {index : Nat}
    {verdict : Verdict env} (settled : world.verdicts[index]? = some verdict)
    (own : verdict.Own) : world.writes[index]? = some verdict.reply := by
  rcases answering with answered | ⟨front, last, verdicts, answered, notOwn⟩
  · rw [answered, List.getElem?_map, settled, Option.map_some]
  · rw [verdicts, List.getElem?_append] at settled
    split_ifs at settled with inside
    · rw [answered, List.getElem?_map, settled, Option.map_some]
    · rw [List.mem_singleton.mp (List.mem_of_getElem? settled)] at own
      exact (notOwn own).elim

/-- **Own replies.** In every reachable state each reply the connection itself is
responsible for, before it goes back to reading, tells its size, exactly when
every call of `HandleRequest` that has thrown left a response that does. -/
theorem reachable_selfDelimiting_iff {world : World env}
    (reachable : (httpSystem env).Reachable world) :
    (∀ (index : Nat) (verdict : Verdict env), world.verdicts[index]? = some verdict →
      verdict.Own → ∃ write : Write, world.writes[index]? = some write ∧
        write.next = .readNext ∧ write.response.SelfDelimiting) ↔
      ∀ verdict ∈ world.verdicts, verdict.Thrown → verdict.left.SelfDelimiting := by
  have answering := answering_of_reachable reachable
  constructor
  · intro delimited verdict member thrown
    obtain ⟨index, settled⟩ := List.mem_iff_getElem?.mp member
    obtain ⟨write, written, -, sized⟩ := delimited index verdict settled (Or.inr thrown)
    rw [answering.write_of_own settled (Or.inr thrown), thrown.reply_eq] at written
    cases written
    exact sized
  · intro sized index verdict settled own
    refine ⟨verdict.reply, answering.write_of_own settled own, ?_⟩
    rcases own with bad | thrown
    · rw [Verdict.reply_of_bad bad]
      exact ⟨rfl, HTTPResponse.stockReply_selfDelimiting _⟩
    · rw [thrown.reply_eq]
      exact ⟨rfl, sized verdict (List.mem_of_getElem? settled) thrown⟩

/-- A request is being answered after a handler that threw at once. -/
theorem reachable_selfDelimiting_iff_get :
    let world : World .sample := ((start true []).complete .read).onRead
      (ascii "GET / HTTP/1.0\r\nHost: a\r\n\r\n")
      (fun request response => ⟨request, response, .threwException⟩)
    (∀ (index : Nat) (verdict : Verdict .sample), world.verdicts[index]? = some verdict →
      verdict.Own → ∃ write : Write, world.writes[index]? = some write ∧
        write.next = .readNext ∧ write.response.SelfDelimiting) ↔
      ∀ verdict ∈ world.verdicts, verdict.Thrown → verdict.left.SelfDelimiting := by
  intro world
  have started : (httpSystem .sample).Reachable (start true []) := .initial ⟨true, [], rfl⟩
  exact reachable_selfDelimiting_iff
    (started.step (step_read (List.mem_singleton_self _) (by decide) _))

/-- A call that throws before it has changed the response is answered without a
length. -/
theorem not_selfDelimiting_thrown : ¬ ∀ (env : Externals) (world : World env),
    (httpSystem env).Reachable world →
      ∀ (index : Nat) (verdict : Verdict env), world.verdicts[index]? = some verdict →
        verdict.Own → ∃ write : Write, world.writes[index]? = some write ∧
          write.next = .readNext ∧ write.response.SelfDelimiting := by
  intro always
  let handler : HTTPRequestHandler .sample :=
    fun request response => ⟨request, response, .threwException⟩
  let world : World .sample := ((start true []).complete .read).onRead
    (ascii "GET / HTTP/1.0\r\nHost: a\r\n\r\n") handler
  have started : (httpSystem .sample).Reachable (start true []) := .initial ⟨true, [], rfl⟩
  have reachable : (httpSystem .sample).Reachable world :=
    started.step (step_read (List.mem_singleton_self _) (by decide) _)
  let exit : ParseExit .sample :=
    (start true []).parseExit (ascii "GET / HTTP/1.0\r\nHost: a\r\n\r\n")
  have good : exit.result = .ok .good := by decide +kernel
  have settled : world.verdicts = [⟨.good, exit.request, handler⟩] := onRead_verdicts handler good
  have thrown : Verdict.Thrown ⟨.good, exit.request, handler⟩ := by
    refine ⟨rfl, ?_, rfl⟩
    decide +kernel
  have first : world.verdicts[0]? = some ⟨.good, exit.request, handler⟩ := by rw [settled]; rfl
  obtain ⟨write, written, -, name, -, sized⟩ :=
    always .sample world reachable 0 _ first (Or.inr thrown)
  have reply := (answering_of_reachable reachable).write_of_own first (Or.inr thrown)
  rw [written, thrown.reply_eq, Option.some.injEq] at reply
  rw [reply] at sized
  cases sized

end World

end Webserver.HTTP
