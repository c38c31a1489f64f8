import Webserver.Server.Service

/-! # The conversation with a client

All that a client ever reads: the answers to its requests and, after the one that
switches the protocol, the frames of its session.
-/

namespace Webserver.Server

open Foundation System HTTP

variable {env : Externals}

/-- A client reads responses up to the one that switches the protocol, and then frames. -/
def readConversation (input : Bytes) : Option (List WireMessage × List WS.Frame) :=
  decodeChanging readResponse switches WS.readFrame input

namespace Client

variable {client : Client env} {labels : List (env.Pauuid × Bool)}

/-- The writes that have succeeded answer the first verdicts. -/
theorem Linked.told (linked : client.Linked labels) (whole : client.failed = false) :
    ∃ told, told <+: client.world.verdicts ∧ client.delivered = told.map Verdict.reply := by
  obtain ⟨answered, initial, writes⟩ :=
    (HTTP.World.answering_of_reachable linked.reachable).exists_answered
  have sent : client.delivered <+: answered.map Verdict.reply := by
    rw [← writes, linked.sent whole]
    exact List.prefix_append _ _
  obtain ⟨told, inside, same⟩ := List.prefix_map_iff.mp sent
  exact ⟨told, inside.trans initial, same⟩

/-- Of a client that has a session they answer all, and the last verdict opens the
handshake. -/
theorem Linked.told_all (linked : client.Linked labels) (whole : client.failed = false)
    {handle : Nat} (refers : client.session = some handle) :
    client.delivered = client.world.verdicts.map Verdict.reply ∧
      ∃ opening, OpenedBy opening client.world.verdicts := by
  obtain ⟨session, created, -⟩ := linked.opened handle refers
  cases HTTP.World.stage_of_reachable linked.reachable with
  | serving unopened => rw [created] at unopened; cases unopened
  | switching opening unopened => rw [created] at unopened; cases unopened
  | refused opening unopened => rw [created] at unopened; cases unopened
  | switched opening other only opened quiet inside source =>
      refine ⟨?_, opening, opened⟩
      have sent := linked.sent whole
      rw [HTTP.World.pending, quiet, List.filterMap_nil, List.append_nil] at sent
      rw [← sent]
      exact (HTTP.World.halfDuplex_of_reachable linked.reachable).answered inside

/-- Of a client that has no session the last verdict may, and no other does. -/
theorem Linked.opens (linked : client.Linked labels) :
    (∀ verdict ∈ client.world.verdicts, ¬ verdict.Opens) ∨
      ∃ opening, OpenedBy opening client.world.verdicts := by
  cases HTTP.World.stage_of_reachable linked.reachable with
  | serving unopened plain => exact Or.inl plain
  | switching opening unopened opened => exact Or.inr ⟨opening, opened⟩
  | refused opening unopened opened => exact Or.inr ⟨opening, opened⟩
  | switched opening session only opened => exact Or.inr ⟨opening, opened⟩

end Client

namespace Service

/-- The bytes of the writes of its session that have succeeded. -/
def sessionBytes (service : Service env) (client : Client env) : Bytes :=
  ((client.session.bind (service.server.conns[·]?)).map fun conn =>
    conn.world.delivered.flatten).getD []

/-- The bytes of all writes to a client that have succeeded. -/
def received (service : Service env) (client : Client env) : Bytes :=
  client.delivered.flatMap (fun write => write.response.stream) ++ service.sessionBytes client

/-- What is read whatever the order of the header fields is read in their own order. -/
theorem read_of_sent {service : Service env} {client : Client env} {told : List (Verdict env)}
    {frames : List WS.Frame} (same : client.delivered = told.map Verdict.reply)
    (read : ∀ sent, SentFor told sent →
      readConversation (sent.flatMap HTTPResponse.stream ++ service.sessionBytes client) =
        some (sent.map (fun response => response.wire.meant), frames)) :
    readConversation (service.received client) = some (told.map Verdict.answer, frames) ∧
      ∀ sent, List.Forall₂ HTTPResponse.Reordered sent (client.delivered.map Write.response) →
        ∃ messages,
          readConversation (sent.flatMap HTTPResponse.stream ++ service.sessionBytes client) =
            some (messages, frames) ∧
          List.Forall₂ WireMessage.Reordered messages (told.map Verdict.answer) := by
  constructor
  · have own := read _ (.own told)
    rw [List.map_map, List.flatMap_map] at own
    rw [received, same, List.flatMap_map]
    exact own
  · intro sent reordered
    rw [same, List.map_map] at reordered
    exact ⟨_, read sent reordered, SentFor.meant reordered⟩

variable [DecidableEq env.Pauuid]

/-- What the callers are told is what the registry tells them. -/
theorem emits_server {answers : List (Directory.Answer env.Pauuid Bytes)} {last : Service env}
    (emits : (serviceSystem env).Emits answer {} answers last) :
    (serverSystem env.Pauuid).Emits WebServer.answer {} answers last.server := by
  apply emits.refine Service.server (.initial rfl)
  intro before event after _ moved
  cases step_cases moved with
  | listened event listener accepted => exact Or.inl ⟨rfl, rfl⟩
  | handled position client event world found stepped none => exact Or.inl ⟨rfl, rfl⟩
  | registered position client event world session others server found stepped new added =>
      exact Or.inr ⟨.addSession session.id client.secure, added, rfl⟩
  | called event server other stepped => exact Or.inr ⟨event, stepped, rfl⟩

open Directory in
/-- **The conversation with a client.** In every run of the service, a client to which
no write of its HTTP connection has failed reads the answers to its first requests, one
for each, in order; after the answer that opens its session it reads frames of messages
that `WSPush` has accepted for the id of the session, each once and in the order of
their acceptance, none of them passed over until a write has failed, and all of them
when then no write is outstanding. No other bytes reach it. All this is so whatever the
iteration order of each header map is. -/
theorem emits_conversation {answers : List (Answer env.Pauuid Bytes)} {last : Service env}
    (emits : (serviceSystem env).Emits answer {} answers last) {client : Client env}
    (member : client ∈ last.clients) (whole : client.failed = false)
    (visible : ∀ text, ∀ input ∈ env.base64SHA1 text, Grammar.VisibleByte input)
    (proper : ∀ verdict ∈ client.world.verdicts, verdict.Proper)
    (fits : ∀ id, ∀ text ∈ accepted id answers, text.length < 2 ^ 63) :
    ∃ told received, told <+: client.world.verdicts ∧
      told.length = client.delivered.length ∧
      readConversation (last.received client) =
        some (told.map Verdict.answer, received.map WS.textFrameRead) ∧
      (∀ sent, List.Forall₂ HTTPResponse.Reordered sent (client.delivered.map Write.response) →
        ∃ messages,
          readConversation (sent.flatMap HTTPResponse.stream ++ last.sessionBytes client) =
            some (messages, received.map WS.textFrameRead) ∧
          List.Forall₂ WireMessage.Reordered messages (told.map Verdict.answer)) ∧
      (client.session = none → received = []) ∧
      ∀ handle conn, client.session = some handle → last.server.conns[handle]? = some conn →
        told = client.world.verdicts ∧ received.Sublist (accepted conn.id answers) ∧
        (conn.world.failed = false → received <+: accepted conn.id answers ∧
          (conn.world.outstanding = [] → received = accepted conn.id answers)) := by
  have linked := linked_of_reachable (emits.reachable rfl)
  have one := linked.clients client member
  cases refers : client.session with
  | none =>
      obtain ⟨told, initial, same⟩ := one.told whole
      have nothing : last.sessionBytes client = [] := by
        rw [sessionBytes, refers]
        rfl
      have inOrder : ∀ sent, SentFor told sent →
          readConversation (sent.flatMap HTTPResponse.stream ++ last.sessionBytes client) =
            some (sent.map (fun response => response.wire.meant), []) := by
        intro sent sentFor
        rw [nothing, List.append_nil]
        exact decodeChanging_initial visible proper initial one.opens sentFor
      obtain ⟨read, orders⟩ := read_of_sent same inOrder
      refine ⟨told, [], initial, ?_, read, orders, fun _ => rfl, by simp⟩
      rw [same, List.length_map]
  | some handle =>
      obtain ⟨same, opening, opened⟩ := one.told_all whole refers
      have inside := linked.handles.lt member refers
      rw [WebServer.labels, List.length_map] at inside
      obtain ⟨conn, found⟩ : ∃ conn, last.server.conns[handle]? = some conn :=
        ⟨_, List.getElem?_eq_getElem inside⟩
      obtain ⟨received, delivered, among, complete⟩ :=
        WebServer.delivered_accepted (emits_server emits) (List.mem_of_getElem? found)
      have frames := WebServer.decodeStream_delivered delivered fun text present =>
        fits conn.id text (among.subset present)
      have bytes : last.sessionBytes client = conn.world.delivered.flatten := by
        rw [sessionBytes, refers, Option.bind_some, found]
        rfl
      have inOrder : ∀ sent, SentFor client.world.verdicts sent →
          readConversation (sent.flatMap HTTPResponse.stream ++ last.sessionBytes client) =
            some (sent.map (fun response => response.wire.meant),
              received.map WS.textFrameRead) := by
        intro sent sentFor
        rw [bytes]
        exact decodeChanging_opened visible proper opened sentFor frames
      obtain ⟨read, orders⟩ := read_of_sent same inOrder
      refine ⟨client.world.verdicts, received, List.prefix_refl _, ?_, read, orders, by simp, ?_⟩
      · rw [same, List.length_map]
      · intro other another refers' found'
        obtain rfl := Option.some.inj refers'
        rw [found] at found'
        obtain rfl := Option.some.inj found'
        exact ⟨rfl, among, complete⟩

open Directory in
theorem emits_conversation_opens : ∃ answers, ∃ last : Service HTTP.World.sampleHash,
    (serviceSystem HTTP.World.sampleHash).Emits answer {} answers last ∧
    accepted (ascii "1") answers = [ascii "a"] ∧ ∃ client ∈ last.clients,
    ∃ told received, told <+: client.world.verdicts ∧
      told.length = client.delivered.length ∧
      readConversation (last.received client) =
        some (told.map Verdict.answer, received.map WS.textFrameRead) ∧
      (∀ sent, List.Forall₂ HTTPResponse.Reordered sent (client.delivered.map Write.response) →
        ∃ messages,
          readConversation (sent.flatMap HTTPResponse.stream ++ last.sessionBytes client) =
            some (messages, received.map WS.textFrameRead) ∧
          List.Forall₂ WireMessage.Reordered messages (told.map Verdict.answer)) ∧
      (client.session = none → received = []) ∧
      ∀ handle conn, client.session = some handle → last.server.conns[handle]? = some conn →
        told = client.world.verdicts ∧ received.Sublist (accepted conn.id answers) ∧
        (conn.world.failed = false → received <+: accepted conn.id answers ∧
          (conn.world.outstanding = [] → received = accepted conn.id answers)) := by
  have replayed : (replay step? answer {} sessionOpens).map (fun (answers, last) =>
      (answers, last.clients.map fun client =>
        (client.failed, client.world.verdicts.map fun verdict => verdict.request.isWSHandshake))) =
      some ([.pushed (ascii "1") (ascii "a") true], [(false, [.ok true])]) := by
    decide +kernel
  obtain ⟨⟨answers, last⟩, executed, both⟩ := Option.map_eq_some_iff.mp replayed
  obtain ⟨rfl, clients⟩ := Prod.mk.inj both
  have emits : (serviceSystem HTTP.World.sampleHash).Emits answer {}
      [.pushed (ascii "1") (ascii "a") true] last := Emits.of_replay executed
  obtain ⟨client, only, same⟩ := List.map_eq_singleton_iff.mp clients
  obtain ⟨whole, verdicts⟩ := Prod.mk.inj same
  obtain ⟨opening, single, opens⟩ := List.map_eq_singleton_iff.mp verdicts
  have member : client ∈ last.clients := only ▸ List.mem_singleton_self client
  refine ⟨_, last, emits, by decide +kernel, client, member,
    emits_conversation emits member whole ?_ ?_ ?_⟩
  · intro text input inside
    simp only [HTTP.World.sampleHash] at inside
    split_ifs at inside
    · revert input
      decide +kernel
    · cases inside
  · intro verdict present served
    rw [single] at present
    rw [List.mem_singleton.mp present] at served
    exact (served.2 opens).elim
  · intro id text present
    have named : text = ascii "a" := by
      simp only [accepted, List.filterMap_cons, List.filterMap_nil] at present
      split_ifs at present
      · exact List.mem_singleton.mp present
      · cases present
    rw [named]
    decide +kernel

end Service

end Webserver.Server
