import Webserver.HTTP.FieldSyntax
import Webserver.HTTP.Wire

/-! # The answers of a connection

What a connection sends, as a client reads it: one response for every verdict, in
order. A bad request is answered with its stock reply and an opening handshake with
the response of RFC 6455, whatever the handler of requests does; the answers to other
requests are as good as the handler makes them. The fields of a response stand in the
order in which its header map is iterated, which the client sees and nothing promises.
-/

namespace Webserver.Foundation.UnorderedMap

variable {κ ν : Type*} [DecidableEq κ] [Inhabited ν]

/-- What reading through an index gives. -/
theorem index_fst (map : UnorderedMap κ ν) (key : κ) :
    (index map key).1 = (map.lookup key).getD default := by
  unfold index
  cases map.lookup key <;> rfl

/-- Reading through an index changes no other entry. -/
theorem index_lookup_of_ne (map : UnorderedMap κ ν) {key wanted : κ} (different : wanted ≠ key) :
    (index map key).2.lookup wanted = map.lookup wanted := by
  unfold index
  cases map.lookup key with
  | none => exact AList.lookup_insert_ne different
  | some value => rfl

end Webserver.Foundation.UnorderedMap

namespace Webserver.HTTP

open Foundation Schema Grammar

variable {env : Externals}

theorem field_of_digitByte {input : UInt8} (digit : DigitByte input) : FieldByte input := by
  intro control
  unfold CtlByte at control
  unfold DigitByte at digit
  omega

/-! ## Replies of the connection itself -/

namespace HTTPResponse

theorem stockReply_headerPairs (status : StatusCode) :
    (stockReply status).headerPairs =
      [(ascii "Content-Type", ascii "text/html"),
        (ascii "Content-Length", toDecimal (stockReplyStr status).length)] := rfl

/-- **Stock replies.** A stock reply can be told from what follows it exactly when
responses of its status have a body at all. -/
theorem stockReply_framed_iff (status : StatusCode) :
    Framed (stockReply status) ↔ bodiless status.number = false := by
  constructor
  · intro framed
    by_contra bodyless
    have empty : stockReplyStr status = [] := framed.empty (Bool.of_not_eq_false bodyless)
    cases status with
    | websocketHandshake | noContent | notModified => exact absurd empty (by decide +kernel)
    | _ => exact bodyless (by decide)
  · intro embodied
    have digits := toDecimal_digit (stockReplyStr status).length
    refine ⟨?_, ?_, ?_, ?_⟩
    · have tokens : ∀ name ∈ [ascii "Content-Type", ascii "Content-Length"], name ≠ [] ∧
          ∀ input ∈ name, TokenByte input := by
        decide +kernel
      rw [stockReply_headerPairs]
      intro header member
      rcases List.mem_pair.mp member with rfl | rfl
      · exact tokens _ List.mem_cons_self
      · exact tokens _ (List.mem_cons_of_mem _ List.mem_cons_self)
    · rw [stockReply_headerPairs]
      intro header member
      rcases List.mem_pair.mp member with rfl | rfl
      · decide +kernel
      · exact fun input inside => field_of_digitByte (digits input inside)
    · intro bodyless
      change bodiless status.number = true at bodyless
      rw [embodied] at bodyless
      cases bodyless
    · intro _
      refine ⟨ascii "Content-Length", by decide +kernel, rfl, ?_⟩
      rw [stockReply_headerPairs]
      intro header member named
      rcases List.mem_pair.mp member with rfl | rfl
      · exact absurd named (by decide +kernel)
      · rfl

end HTTPResponse

/-- The key of an opening handshake; an absent one counts as empty. -/
def handshakeKey (request : HTTPRequest env) : Bytes :=
  (request.headers.lookup Header.WS.secWebsocketKey).getD []

/-- The header fields that answer an opening handshake, in the order in which the model
keeps them. -/
def handshakeFields (request : HTTPRequest env) : List HTTPHeader :=
  (if (request.headers.lookup (ascii "sec-websocket-protocol")).getD [] =
      ascii "chat, superchat" then [(ascii "Sec-WebSocket-Protocol", ascii "chat")] else []) ++
    [(ascii "Sec-WebSocket-Accept", env.base64SHA1 (handshakeKey request ++ Magic.wsToken)),
      (ascii "Connection", ascii "Upgrade"), (ascii "Upgrade", ascii "websocket")]

theorem generateWsHandshakeHeaders_headerPairs (request : HTTPRequest env) :
    (generateWsHandshakeHeaders request {}).2.headerPairs = handshakeFields request := by
  have key := UnorderedMap.index_fst request.headers (ascii "sec-websocket-key")
  have subprotocol := UnorderedMap.index_fst
    (UnorderedMap.index request.headers (ascii "sec-websocket-key")).2
    (ascii "sec-websocket-protocol")
  have different : ascii "sec-websocket-protocol" ≠ ascii "sec-websocket-key" := by decide +kernel
  rw [UnorderedMap.index_lookup_of_ne _ different] at subprotocol
  simp only [generateWsHandshakeHeaders, key, subprotocol, handshakeFields]
  split_ifs with chat other other
  · rfl
  · exact absurd chat other
  · exact absurd other chat
  · rfl

/-- Only the hash depends on the request. -/
theorem mem_handshakeFields {request : HTTPRequest env} {header : HTTPHeader}
    (member : header ∈ handshakeFields request) :
    header = (ascii "Sec-WebSocket-Accept",
        env.base64SHA1 (handshakeKey request ++ Magic.wsToken)) ∨
      header ∈ [(ascii "Sec-WebSocket-Protocol", ascii "chat"),
        (ascii "Connection", ascii "Upgrade"), (ascii "Upgrade", ascii "websocket")] := by
  rcases List.mem_append.mp member with offered | always
  · split_ifs at offered with chat
    · right
      rw [List.mem_singleton.mp offered]
      exact List.mem_cons_self
    · cases offered
  · rcases List.mem_cons.mp always with hash | fixed
    · exact Or.inl hash
    · exact Or.inr (List.mem_cons_of_mem _ fixed)

/-- The answer to an opening handshake can be told from the frames that follow it. -/
theorem handshakeReply_framed (request : HTTPRequest env)
    (visible : ∀ text, ∀ input ∈ env.base64SHA1 text, VisibleByte input) :
    HTTPResponse.Framed (generateWsHandshakeHeaders request {}).2 := by
  have fixed : ∀ header ∈ [(ascii "Sec-WebSocket-Protocol", ascii "chat"),
      (ascii "Connection", ascii "Upgrade"), (ascii "Upgrade", ascii "websocket")],
      (header.1 ≠ [] ∧ ∀ input ∈ header.1, TokenByte input) ∧
        ∀ input ∈ header.2, FieldByte input := by
    decide +kernel
  have accept : ascii "Sec-WebSocket-Accept" ≠ [] ∧
      ∀ input ∈ ascii "Sec-WebSocket-Accept", TokenByte input := by
    decide +kernel
  refine ⟨?_, ?_, fun _ => rfl, ?_⟩
  · rw [generateWsHandshakeHeaders_headerPairs]
    intro header member
    rcases mem_handshakeFields member with rfl | other
    · exact accept
    · exact (fixed header other).1
  · rw [generateWsHandshakeHeaders_headerPairs]
    intro header member
    rcases mem_handshakeFields member with rfl | other
    · exact fun input inside => (visible _ input inside).field
    · exact (fixed header other).2
  · intro embodied
    have bodyless : bodiless StatusCode.websocketHandshake.number = true := by decide
    exact absurd (bodyless.symm.trans embodied) (by decide)

theorem isBlank_of_visible {input : UInt8} (visible : VisibleByte input) :
    isBlank input = false := by
  apply Bool.eq_false_iff.mpr
  intro blank
  rcases Bool.or_eq_true_iff.mp blank with space | tab
  · exact visible.not_blank (Or.inl (eq_of_beq space))
  · exact visible.not_blank (Or.inr (eq_of_beq tab))

/-- Its fields are read as they were written. -/
theorem trimBlanks_handshakeFields (request : HTTPRequest env)
    (visible : ∀ text, ∀ input ∈ env.base64SHA1 text, VisibleByte input) :
    (handshakeFields request).map (fun field => (field.1, trimBlanks field.2)) =
      handshakeFields request := by
  have fixed : ∀ header ∈ [(ascii "Sec-WebSocket-Protocol", ascii "chat"),
      (ascii "Connection", ascii "Upgrade"), (ascii "Upgrade", ascii "websocket")],
      trimBlanks header.2 = header.2 := by
    decide +kernel
  refine (List.map_congr_left ?_).trans (List.map_id _)
  intro header member
  rcases mem_handshakeFields member with rfl | other
  · have solid : trimBlanks (env.base64SHA1 (handshakeKey request ++ Magic.wsToken)) =
        env.base64SHA1 (handshakeKey request ++ Magic.wsToken) := by
      apply trimBlanks_eq_self
      exact fun input inside => isBlank_of_visible (visible _ input inside)
    simp only [solid, id_eq]
  · simp only [fixed header other, id_eq]

namespace Verdict

/-- What a client reads in answer to a verdict. -/
def answer (verdict : Verdict env) : WireMessage := verdict.reply.response.wire.meant

/-- The verdict leads to an opening handshake. -/
def Opens (verdict : Verdict env) : Prop :=
  verdict.result = .good ∧ verdict.request.isWSHandshake = .ok true

/-- The answer is what the handler of requests has left. -/
def Served (verdict : Verdict env) : Prop :=
  verdict.result = .good ∧ verdict.request.isWSHandshake ≠ .ok true

theorem Opens.reply_eq {verdict : Verdict env} (opens : verdict.Opens) :
    verdict.reply = ⟨.createWsConnection, (generateWsHandshakeHeaders verdict.request {}).2⟩ := by
  rw [reply, opens.1, opens.2]

theorem Served.reply_eq {verdict : Verdict env} (served : verdict.Served) :
    verdict.reply = ⟨.readNext, verdict.left⟩ := by
  obtain ⟨good, plain⟩ := served
  rw [reply, good]
  cases outcome : verdict.request.isWSHandshake with
  | error exception => rfl
  | ok handshake =>
      cases handshake with
      | true => exact (plain outcome).elim
      | false => rfl

theorem reply_of_not_good {verdict : Verdict env} (bad : verdict.result ≠ .good) :
    verdict.reply = ⟨.readNext, HTTPResponse.stockReply .badRequest⟩ := by
  rw [reply]
  cases outcome : verdict.result with
  | good => exact (bad outcome).elim
  | _ => rfl

/-- Every answer can be told from what follows when those of the handler can. -/
theorem reply_framed (verdict : Verdict env)
    (visible : ∀ text, ∀ input ∈ env.base64SHA1 text, VisibleByte input)
    (handled : verdict.Served → verdict.left.Framed) : verdict.reply.response.Framed := by
  by_cases good : verdict.result = .good
  · by_cases opens : verdict.request.isWSHandshake = .ok true
    · rw [Opens.reply_eq ⟨good, opens⟩]
      exact handshakeReply_framed verdict.request visible
    · rw [Served.reply_eq ⟨good, opens⟩]
      exact handled ⟨good, opens⟩
  · rw [reply_of_not_good good]
    exact (HTTPResponse.stockReply_framed_iff _).mpr rfl

end Verdict

namespace World

variable {world : World env}

/-- The verdicts answered are the first ones. -/
theorem Answering.exists_answered (answering : Answering world) :
    ∃ answered, answered <+: world.verdicts ∧ world.writes = answered.map Verdict.reply := by
  rcases answering with all | ⟨front, last, verdicts, writes, -⟩
  · exact ⟨world.verdicts, List.prefix_refl _, all⟩
  · exact ⟨front, ⟨[last], verdicts.symm⟩, writes⟩

/-- **The answers as a client reads them.** In every reachable state, when each
response left by a call of the handler can be told from what follows it, the client
reads from any number of writes exactly one response for each of the first verdicts,
in order, whatever the iteration order of each header map is; a verdict that is not
good is answered with the stock reply to a bad request, and an opening handshake with
status 101, the accept value that RFC 6455 asks for and no body. -/
theorem reachable_answers (reachable : (httpSystem env).Reachable world)
    (visible : ∀ text, ∀ input ∈ env.base64SHA1 text, VisibleByte input)
    (handled : ∀ verdict ∈ world.verdicts, verdict.Served → verdict.left.Framed) :
    ∃ answered, answered <+: world.verdicts ∧ answered.length = world.writes.length ∧
      (world.escaped = false → answered = world.verdicts) ∧
      (∀ count, decodeStream readResponse
          ((world.writes.take count).flatMap fun write => write.response.stream) =
        some ((answered.take count).map Verdict.answer)) ∧
      (∀ count sent, List.Forall₂ HTTPResponse.Reordered sent
            ((world.writes.take count).map Write.response) →
          ∃ messages, decodeStream readResponse (sent.flatMap HTTPResponse.stream) =
              some messages ∧
            List.Forall₂ WireMessage.Reordered messages
              ((answered.take count).map Verdict.answer)) ∧
      ∀ verdict ∈ answered,
        (verdict.result ≠ .good →
          verdict.answer = (HTTPResponse.stockReply .badRequest).wire.meant) ∧
        (verdict.Opens → verdict.answer =
          ⟨ascii "HTTP/1.1 101 Switching Protocols", handshakeFields verdict.request, []⟩) := by
  obtain ⟨answered, initial, writes⟩ := (answering_of_reachable reachable).exists_answered
  have length : answered.length = world.writes.length := by rw [writes, List.length_map]
  have sent (count : Nat) : (world.writes.take count).map Write.response =
      (answered.take count).map fun verdict => verdict.reply.response := by
    rw [writes, ← List.map_take, List.map_map]
    rfl
  have framed (count : Nat) : ∀ response ∈ (answered.take count).map
      (fun verdict => verdict.reply.response), HTTPResponse.Framed response := by
    intro response member
    obtain ⟨verdict, inside, rfl⟩ := List.mem_map.mp member
    have settled := initial.subset (List.mem_of_mem_take inside)
    exact verdict.reply_framed visible (handled verdict settled)
  have told (count : Nat) : ((answered.take count).map fun verdict => verdict.reply.response).map
      (fun response => response.wire.meant) = (answered.take count).map Verdict.answer := by
    rw [List.map_map]
    rfl
  refine ⟨answered, initial, length, ?_, ?_, ?_, ?_⟩
  · intro running
    have all := (halfDuplex_of_reachable reachable).answered running
    have same := congrArg List.length all
    rw [List.length_map, ← length] at same
    exact initial.eq_of_length same
  · intro count
    have bytes : (world.writes.take count).flatMap (fun write => write.response.stream) =
        ((world.writes.take count).map Write.response).flatMap HTTPResponse.stream := by
      rw [List.flatMap_map]
    rw [bytes, sent, HTTPResponse.decodeStream_framed _ (framed count), told]
  · intro count responses reordered
    rw [sent] at reordered
    rw [← told]
    exact HTTPResponse.decodeStream_reordered (framed count) reordered
  · intro verdict member
    refine ⟨?_, ?_⟩
    · intro bad
      rw [Verdict.answer, Verdict.reply_of_not_good bad]
    · intro opens
      have fields := trimBlanks_handshakeFields verdict.request visible
      have status : HTTPResponse.statusLine .websocketHandshake =
          ascii "HTTP/1.1 101 Switching Protocols" := by decide +kernel
      rw [Verdict.answer, opens.reply_eq, HTTPResponse.wire, WireMessage.meant,
        generateWsHandshakeHeaders_headerPairs, fields, ← status]
      rfl

/-- The key and the accept value of the example in RFC 6455. -/
def sampleHash : Externals :=
  { Externals.sample with
    base64SHA1 := fun text =>
      if text = ascii "dGhlIHNhbXBsZSBub25jZQ==" ++ Magic.wsToken then
        ascii "s3pPLMBiTxaQ9kYGzzhZRbK+xOo="
      else [] }

/-- The example of an opening handshake. -/
def sampleHandshake : Bytes :=
  ascii "GET /chat HTTP/1.1\r\nHost: a\r\nUpgrade: websocket\r\nConnection: Upgrade\r\n" ++
    ascii "Sec-WebSocket-Key: dGhlIHNhbXBsZSBub25jZQ==\r\nSec-WebSocket-Version: 13\r\n\r\n"

theorem reachable_answers_handshake :
    let world : World sampleHash := ((start true []).complete .read).onRead sampleHandshake
      (fun request _ => ⟨request, HTTPResponse.stockReply .ok, .returned⟩)
    world.writes.length = 1 ∧
    ∃ answered, answered <+: world.verdicts ∧ answered.length = world.writes.length ∧
      (world.escaped = false → answered = world.verdicts) ∧
      (∀ count, decodeStream readResponse
          ((world.writes.take count).flatMap fun write => write.response.stream) =
        some ((answered.take count).map Verdict.answer)) ∧
      (∀ count sent, List.Forall₂ HTTPResponse.Reordered sent
            ((world.writes.take count).map Write.response) →
          ∃ messages, decodeStream readResponse (sent.flatMap HTTPResponse.stream) =
              some messages ∧
            List.Forall₂ WireMessage.Reordered messages
              ((answered.take count).map Verdict.answer)) ∧
      ∀ verdict ∈ answered,
        (verdict.result ≠ .good →
          verdict.answer = (HTTPResponse.stockReply .badRequest).wire.meant) ∧
        (verdict.Opens → verdict.answer =
          ⟨ascii "HTTP/1.1 101 Switching Protocols", handshakeFields verdict.request, []⟩) := by
  intro world
  have started : (httpSystem sampleHash).Reachable (start true []) := .initial ⟨true, [], rfl⟩
  have reachable : (httpSystem sampleHash).Reachable world :=
    started.step (step_read (List.mem_singleton_self _) (by decide +kernel) _)
  let exit := (start true [] : World sampleHash).parseExit sampleHandshake
  have good : exit.result = .ok .good := by decide +kernel
  have settled : world.verdicts = [⟨.good, exit.request,
      fun request _ => ⟨request, HTTPResponse.stockReply .ok, .returned⟩⟩] :=
    onRead_verdicts _ good
  refine ⟨by decide +kernel, reachable_answers reachable ?_ ?_⟩
  · intro text input member
    simp only [sampleHash] at member
    split_ifs at member
    · revert input
      decide +kernel
    · cases member
  · intro verdict member _
    rw [settled] at member
    rw [List.mem_singleton.mp member]
    exact (HTTPResponse.stockReply_framed_iff .ok).mpr rfl

end World

end Webserver.HTTP
