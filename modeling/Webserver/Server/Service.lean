import Webserver.HTTP.Outgoing
import Webserver.Server.Accept
import Webserver.Server.Directory

/-! # The service

The acceptors, the HTTP connections they start and the registry of WebSocket sessions
as one system. The parts meet in two places: the handler of an accept starts an HTTP
connection with the address of its peer, and the handler of the write that answers an
opening handshake gives the socket to a new session and registers it. Everything else
happens to one part only, in any order. Each handler is one step, also that of an
accept, in which the two acceptors use the same `params_`.
-/

namespace Webserver.Server

open Foundation System HTTP

variable {env : Externals}

/-- A client, with the kind of its socket, its HTTP connection, the writes of it that
have succeeded, whether one has failed, and the position of its session. -/
structure Client (env : Externals) where
  transport : Transport
  world : HTTP.World env
  delivered : List Write := []
  failed : Bool := false
  session : Option Nat := none

namespace Client

/-- The client of a connection that the handler of an accept has started. -/
def start? : Transport × Option env.IPAddress × Option UInt16 → Option (Client env)
  | (transport, some remoteIp, _) =>
      some { transport, world := .start (transport = .http) remoteIp }
  | (_, none, _) => none

/-- The socket is a TLS stream. -/
def secure (client : Client env) : Bool := client.transport = .https

/-- What the completion of a write adds to the history of a client. -/
def account (client : Client env) : Event env → Client env
  | .write completed none _ => { client with delivered := client.delivered ++ [completed] }
  | .write _ (some _) _ => { client with failed := true }
  | .handshake _ | .read _ _ => client

end Client

structure Service (env : Externals) where
  listener : Listener env.IPAddress := .start
  clients : List (Client env) := []
  server : WebServer env.Pauuid := {}

/-- What happens at the acceptors, to the HTTP connection of a client, or in the
registry and its sessions. -/
inductive ServiceEvent (env : Externals) where
  | listener (event : ListenerEvent env.IPAddress)
  | http (position : Nat) (event : Event env)
  | server (event : ServerEvent env.Pauuid)

namespace Service

/-- The connections that an event has started at the acceptors get their clients. -/
def listen (service : Service env) (listener : Listener env.IPAddress) : Service env :=
  { service with
    listener
    clients := service.clients ++
      (listener.connections.drop service.listener.connections.length).filterMap Client.start? }

variable [DecidableEq env.Pauuid]

/-- A handler of an HTTP connection has run; the session it has created, if any, is
registered. -/
def handle (service : Service env) (position : Nat) (client : Client env) (event : Event env)
    (world : HTTP.World env) : Option (Service env) :=
  let next := { client.account event with world }
  match world.sessions.drop client.world.sessions.length with
  | [] => some { service with clients := service.clients.set position next }
  | session :: _ =>
      (service.server.step? (.addSession session.id client.secure)).map fun server =>
        { service with
          server
          clients := service.clients.set position
            { next with session := some service.server.conns.length } }

/-- A call of the server, or something that happens to a session. -/
def call (service : Service env) (event : ServerEvent env.Pauuid) : Option (Service env) :=
  (service.server.step? event).map fun server => { service with server }

/-- No session is registered but by a handler. -/
def step? (service : Service env) : ServiceEvent env → Option (Service env)
  | .listener event => (service.listener.step? event).map service.listen
  | .http position event =>
      service.clients[position]?.bind fun client =>
        (client.world.step? event).bind fun world => service.handle position client event world
  | .server (.addSession _ _) => none
  | .server event => service.call event

/-- What a call is told. -/
def answer (service : Service env) :
    ServiceEvent env → List (Directory.Answer env.Pauuid Bytes)
  | .server event => service.server.answer event
  | .listener _ | .http _ _ => []

end Service

/-- A started service under any interleaving of accepts, handlers, calls and
destructions. -/
def serviceSystem (env : Externals) [DecidableEq env.Pauuid] :
    System (Service env) (ServiceEvent env) :=
  System.ofStep (· = {}) Service.step?

/-! ## Steps of the parts -/

namespace Listener

variable {IPAddress : Type*} {before after : Listener IPAddress}

/-- The branch for an accepted socket starts a connection when it returns. -/
theorem onAccepted_connections (transport : Transport) (accepted : Accepted IPAddress)
    (listener : Listener IPAddress) :
    let (returned, handled) := listener.onAccepted transport accepted
    returned = false ∧ handled.connections = listener.connections ∨
      returned = true ∧ ∃ address port,
        accepted.address = some address ∧ accepted.port = some port ∧
        handled.connections = listener.connections ++ [(transport, some address, some port)] := by
  obtain ⟨address, port, bridge, noDelay⟩ := accepted
  simp only [onAccepted]
  cases address with
  | none => exact Or.inl ⟨rfl, rfl⟩
  | some address =>
      cases port with
      | none => exact Or.inl ⟨rfl, rfl⟩
      | some port =>
          cases bridge with
          | false => exact Or.inl ⟨rfl, rfl⟩
          | true =>
              simp only [startConnection, Bool.true_eq_false, if_false]
              by_cases refused : transport = .https ∧ noDelay = false
              · rw [if_pos refused]
                exact Or.inl ⟨rfl, rfl⟩
              · rw [if_neg refused]
                exact Or.inr ⟨rfl, address, port, rfl, rfl, rfl⟩

/-- A connection is started for a socket whose peer has told its address and port, and
with these. -/
theorem step_connections {event : ListenerEvent IPAddress}
    (moved : before.step? event = some after) :
    after.connections = before.connections ∨
      ∃ transport accepted address port, event = .accepted transport (.ok accepted) ∧
        (before.acceptor transport).isOpen = true ∧
        accepted.address = some address ∧ accepted.port = some port ∧
        after.connections = before.connections ++ [(transport, some address, some port)] := by
  have completed (transport : Transport) :
      (before.complete transport).connections = before.connections := by
    cases transport <;> rfl
  have accepting (transport : Transport) (listener : Listener IPAddress) :
      (listener.doAccept transport).connections = listener.connections := by
    cases transport <;> rfl
  cases event with
  | stop =>
      cases moved
      exact Or.inl rfl
  | accepted transport result =>
      simp only [step?] at moved
      split_ifs at moved
      cases moved
      have isOpen : ((before.complete transport).acceptor transport).isOpen =
          (before.acceptor transport).isOpen := by
        rw [acceptor_complete, if_pos rfl]
      unfold onAccept
      split_ifs with closed
      · exact Or.inl (completed transport)
      · cases result with
        | error code => exact Or.inl ((accepting transport _).trans (completed transport))
        | ok accepted =>
            rw [isOpen, Bool.not_eq_false] at closed
            have started := onAccepted_connections transport accepted (before.complete transport)
            dsimp only
            generalize (before.complete transport).onAccepted transport accepted = ended
              at started ⊢
            obtain ⟨returned, handled⟩ := ended
            rw [completed] at started
            rcases started with ⟨rfl, same⟩ | ⟨rfl, address, port, told, named, new⟩
            · exact Or.inl same
            · exact Or.inr ⟨transport, accepted, address, port, rfl, closed, told, named,
                (accepting transport _).trans new⟩

end Listener

namespace WebServer

variable {Id : Type*} [DecidableEq Id] {before after : WebServer Id}

/-- The id and the kind of every connection made. -/
def labels (server : WebServer Id) : List (Id × Bool) :=
  server.conns.map fun conn => (conn.id, conn.secure)

omit [DecidableEq Id] in
theorem length_labels (server : WebServer Id) : server.labels.length = server.conns.length :=
  List.length_map _

omit [DecidableEq Id] in
theorem labels_set {handle : Nat} {conn next : Connection Id}
    (found : before.conns[handle]? = some conn) (same : next.id = conn.id)
    (kind : next.secure = conn.secure) (conns : after.conns = before.conns.set handle next) :
    after.labels = before.labels := by
  rw [labels, conns]
  exact Pool.map_set _ found (by rw [same, kind])

theorem labels_forwardEither (registered : Registered before) (id : Id) (argument : Argument) :
    (before.forwardEither id argument).2.labels = before.labels := by
  have routed := registered.routed id argument
  generalize before.forwardEither id argument = result at routed ⊢
  cases routed with
  | reached handle conn entry found alive =>
      let next : Connection Id := { conn with world := argument.forward conn.world }
      have id : next.id = conn.id := rfl
      exact labels_set found id rfl rfl
  | dead handle conn entry found dead => rw [labels, forget_conns]; rfl
  | unknown none => rfl

/-- Only a new session adds a label. -/
theorem step_labels {event : ServerEvent Id} (registered : Registered before)
    (moved : before.step? event = some after) :
    after.labels = before.labels ++
      match event with
      | .addSession id secure => [(id, secure)]
      | _ => [] := by
  cases step_cases moved with
  | added id secure fresh => rw [labels, wsAddSession_conns, List.map_append]; rfl
  | pushed id text => exact (labels_forwardEither registered id _).trans (List.append_nil _).symm
  | closed id statusCode =>
      exact (labels_forwardEither registered id _).trans (List.append_nil _).symm
  | touched handle event conn next found happened =>
      obtain ⟨same, kind, -⟩ := connection_step happened
      exact (labels_set found same kind rfl).trans (List.append_nil _).symm

theorem step_labels_eq {event : ServerEvent Id} (registered : Registered before)
    (unlike : ∀ id secure, event ≠ .addSession id secure)
    (moved : before.step? event = some after) : after.labels = before.labels := by
  rw [step_labels registered moved]
  cases event with
  | addSession id secure => exact (unlike id secure rfl).elim
  | _ => exact List.append_nil _

end WebServer

namespace Client

/-- The kind of the socket and the address a client was accepted with. -/
def peer (client : Client env) : Transport × Option env.IPAddress :=
  (client.transport, some client.world.conn.remoteIp)

@[simp] theorem account_transport (client : Client env) (event : Event env) :
    (client.account event).transport = client.transport := by
  rcases event with _ | _ | ⟨write, _ | code, id⟩ <;> rfl

@[simp] theorem account_session (client : Client env) (event : Event env) :
    (client.account event).session = client.session := by
  rcases event with _ | _ | ⟨write, _ | code, id⟩ <;> rfl

/-- What holds of a client, given the labels of the connections in the registry. -/
structure Linked (client : Client env) (labels : List (env.Pauuid × Bool)) : Prop where
  reachable : (httpSystem env).Reachable client.world
  kind : client.world.conn.isHttp = !client.secure
  sent : client.failed = false → client.world.writes = client.delivered ++ client.world.pending
  unopened : client.session = none → client.world.sessions = []
  opened : ∀ handle, client.session = some handle → ∃ session,
    client.world.sessions = [session] ∧ labels[handle]? = some (session.id, client.secure)

variable {client : Client env} {labels : List (env.Pauuid × Bool)}

theorem Linked.append (linked : client.Linked labels) (later : List (env.Pauuid × Bool)) :
    client.Linked (labels ++ later) := by
  refine ⟨linked.reachable, linked.kind, linked.sent, linked.unopened, ?_⟩
  intro handle refers
  obtain ⟨session, created, label⟩ := linked.opened handle refers
  refine ⟨session, created, ?_⟩
  have inside := (List.getElem?_eq_some_iff.mp label).1
  rw [List.getElem?_append_left inside]
  exact label

/-- A new client. -/
theorem linked_start (transport : Transport) (remoteIp : env.IPAddress) :
    Linked ({ transport, world := .start (transport = .http) remoteIp } : Client env) labels := by
  refine ⟨.initial ⟨_, remoteIp, rfl⟩, ?_, ?_, ?_, nofun⟩
  · cases transport <;> rfl
  · intro _
    cases transport <;> rfl
  · intro _
    cases transport <;> rfl

section Steps

variable {event : Event env} {world : HTTP.World env}

/-- A client whose HTTP connection takes a step has no session. -/
theorem Linked.session_none (linked : client.Linked labels)
    (moved : client.world.step? event = some world) :
    client.session = none ∧ client.world.sessions = [] := by
  have none := (HTTP.World.stage_of_reachable linked.reachable).unopened moved
  refine ⟨?_, none⟩
  rw [Option.eq_none_iff_forall_ne_some]
  intro handle refers
  obtain ⟨session, created, -⟩ := linked.opened handle refers
  rw [none] at created
  cases created

/-- The writes that a step completes join those that have succeeded before. -/
theorem Linked.account (linked : client.Linked labels)
    (moved : client.world.step? event = some world)
    (whole : (client.account event).failed = false) :
    world.writes = (client.account event).delivered ++ world.pending := by
  have duplex := HTTP.World.halfDuplex_of_reachable linked.reachable
  obtain ⟨pending, writes⟩ := HTTP.World.step_writes duplex moved
  rw [writes]
  rcases event with error | ⟨outcome, handler⟩ | ⟨write, _ | code, id⟩
  · rw [linked.sent whole, pending]
    simp [Client.account, Event.write?]
  · rw [linked.sent whole, pending]
    simp [Client.account, Event.write?]
  · rw [linked.sent whole, pending]
    simp [Client.account, Event.write?]
  · cases whole

theorem Linked.kept (linked : client.Linked labels)
    (moved : client.world.step? event = some world) :
    (httpSystem env).Reachable world ∧ world.conn.isHttp = !client.secure :=
  ⟨linked.reachable.step moved, (HTTP.World.step_conn moved).1.trans linked.kind⟩

/-- A step that creates no session. -/
theorem Linked.handled (linked : client.Linked labels)
    (moved : client.world.step? event = some world)
    (same : world.sessions.drop client.world.sessions.length = []) :
    Linked { client.account event with world } labels := by
  obtain ⟨free, none⟩ := linked.session_none moved
  obtain ⟨reachable, kind⟩ := linked.kept moved
  rw [none] at same
  refine ⟨reachable, ?_, linked.account moved, fun _ => same, ?_⟩
  · simpa [secure] using kind
  · intro handle refers
    rw [account_session, free] at refers
    cases refers

/-- A step that creates a session, whose connection comes next. -/
theorem Linked.registered (linked : client.Linked labels)
    (moved : client.world.step? event = some world) {session : WSSession env}
    {others : List (WSSession env)}
    (new : world.sessions.drop client.world.sessions.length = session :: others) :
    Linked { client.account event with world, session := some labels.length }
      (labels ++ [(session.id, client.secure)]) := by
  obtain ⟨free, none⟩ := linked.session_none moved
  obtain ⟨reachable, kind⟩ := linked.kept moved
  rw [none] at new
  have created : world.sessions = session :: others := new
  have single : others = [] := by
    cases HTTP.World.stage_of_reachable reachable with
    | serving unopened => rw [created] at unopened; cases unopened
    | switching opening unopened => rw [created] at unopened; cases unopened
    | refused opening unopened => rw [created] at unopened; cases unopened
    | switched opening other only =>
        rw [created] at only
        exact (List.cons.inj only).2
  subst single
  refine ⟨reachable, ?_, linked.account moved, nofun, ?_⟩
  · simpa [secure] using kind
  · intro handle refers
    obtain rfl := Option.some.inj refers
    refine ⟨session, created, ?_⟩
    rw [List.getElem?_concat_length]
    simp [secure]

end Steps

end Client

namespace Service

variable [DecidableEq env.Pauuid] {before after service : Service env}

/-- What each kind of event does, with what enables it. -/
inductive Happens (before : Service env) : ServiceEvent env → Service env → Prop where
  | listened (event : ListenerEvent env.IPAddress) (listener : Listener env.IPAddress) :
      before.listener.step? event = some listener →
      Happens before (.listener event) (before.listen listener)
  | handled (position : Nat) (client : Client env) (event : Event env) (world : HTTP.World env) :
      before.clients[position]? = some client → client.world.step? event = some world →
      world.sessions.drop client.world.sessions.length = [] →
      Happens before (.http position event)
        { before with clients := before.clients.set position { client.account event with world } }
  | registered (position : Nat) (client : Client env) (event : Event env)
      (world : HTTP.World env) (session : WSSession env) (others : List (WSSession env))
      (server : WebServer env.Pauuid) :
      before.clients[position]? = some client → client.world.step? event = some world →
      world.sessions.drop client.world.sessions.length = session :: others →
      before.server.step? (.addSession session.id client.secure) = some server →
      Happens before (.http position event)
        { before with
          server
          clients := before.clients.set position
            { client.account event with world, session := some before.server.conns.length } }
  | called (event : ServerEvent env.Pauuid) (server : WebServer env.Pauuid) :
      (∀ id secure, event ≠ .addSession id secure) → before.server.step? event = some server →
      Happens before (.server event) { before with server }

/-- Every step is one of these. -/
theorem step_cases {event : ServiceEvent env} (moved : before.step? event = some after) :
    Happens before event after := by
  cases event with
  | listener event =>
      obtain ⟨listener, accepted, rfl⟩ := Option.map_eq_some_iff.mp moved
      exact .listened event listener accepted
  | http position event =>
      obtain ⟨client, found, handled⟩ := Option.bind_eq_some_iff.mp moved
      obtain ⟨world, stepped, rest⟩ := Option.bind_eq_some_iff.mp handled
      unfold handle at rest
      cases new : world.sessions.drop client.world.sessions.length with
      | nil =>
          rw [new] at rest
          cases rest
          exact .handled position client event world found stepped new
      | cons session others =>
          rw [new] at rest
          obtain ⟨server, added, rfl⟩ := Option.map_eq_some_iff.mp rest
          exact .registered position client event world session others server found stepped new
            added
  | server event =>
      have called (other : ∀ id secure, event ≠ .addSession id secure)
          (made : before.call event = some after) : Happens before (.server event) after := by
        obtain ⟨server, stepped, rfl⟩ := Option.map_eq_some_iff.mp made
        exact .called event server other stepped
      cases event with
      | addSession id secure => cases moved
      | push id text => exact called (by simp) moved
      | close id statusCode => exact called (by simp) moved
      | connection handle event => exact called (by simp) moved

/-- The invariant that ties the parts together. -/
structure Linked (service : Service env) : Prop where
  listener : (listenerSystem env.IPAddress).Reachable service.listener
  server : (serverSystem env.Pauuid).Reachable service.server
  clients : ∀ client ∈ service.clients, client.Linked service.server.labels
  peers : service.clients.map Client.peer =
    service.listener.connections.map fun (transport, remoteIp, _) => (transport, remoteIp)
  handles : Pool.Refers Client.session service.clients service.server.labels.length

theorem Linked.listened (linked : Linked before) {event : ListenerEvent env.IPAddress}
    {listener : Listener env.IPAddress} (moved : before.listener.step? event = some listener) :
    Linked (before.listen listener) := by
  have reachable := linked.listener.step moved
  have started : listener.connections = before.listener.connections ∨
      ∃ transport address port, listener.connections =
        before.listener.connections ++ [(transport, some address, some port)] := by
    rcases Listener.step_connections moved with
      same | ⟨transport, _, address, port, _, _, _, _, new⟩
    · exact Or.inl same
    · exact Or.inr ⟨transport, address, port, new⟩
  rcases started with same | ⟨transport, address, port, new⟩
  · have clients : (before.listen listener).clients = before.clients := by
      simp [listen, same]
    refine ⟨reachable, linked.server, ?_, ?_, ?_⟩
    · rw [clients]
      exact linked.clients
    · rw [clients]
      exact linked.peers.trans (congrArg (List.map _) same.symm)
    · rw [clients]
      exact linked.handles
  · let client : Client env := { transport, world := .start (transport = .http) address }
    have clients : (before.listen listener).clients = before.clients ++ [client] := by
      simp [listen, new, Client.start?, client]
    refine ⟨reachable, linked.server, ?_, ?_, ?_⟩
    · rw [clients]
      intro other member
      rcases List.mem_append.mp member with old | added
      · exact linked.clients other old
      · rw [List.mem_singleton.mp added]
        exact Client.linked_start transport address
    · have peer : client.peer = (transport, some address) := by
        cases transport <;> rfl
      have connections : (before.listen listener).listener.connections =
          before.listener.connections ++ [(transport, some address, some port)] := new
      rw [clients, connections, List.map_append, List.map_append, linked.peers,
        List.map_singleton, peer]
      rfl
    · rw [clients]
      exact linked.handles.append (by simp [client])

omit [DecidableEq env.Pauuid] in
/-- A client whose HTTP connection has taken a step keeps its peer. -/
theorem peers_set {position : Nat} {client next : Client env}
    (found : before.clients[position]? = some client) (event : Event env)
    (moved : client.world.step? event = some next.world)
    (transport : next.transport = client.transport) :
    (before.clients.set position next).map Client.peer = before.clients.map Client.peer := by
  have remoteIp := (HTTP.World.step_conn moved).2
  exact Pool.map_set Client.peer found (by rw [Client.peer, Client.peer, transport, remoteIp])

theorem Linked.step {event : ServiceEvent env} (linked : Linked before)
    (moved : before.step? event = some after) : Linked after := by
  have registered := WebServer.registered_of_reachable linked.server
  cases step_cases moved with
  | listened event listener accepted => exact linked.listened accepted
  | handled position client event world found stepped none =>
      have one := linked.clients client (List.mem_of_getElem? found)
      refine ⟨linked.listener, linked.server, ?_, ?_, ?_⟩
      · intro other member
        rcases List.mem_or_eq_of_mem_set member with old | rfl
        · exact linked.clients other old
        · exact one.handled stepped none
      · refine (peers_set found event ?_ ?_).trans linked.peers
        · exact stepped
        · exact client.account_transport event
      · exact linked.handles.replace found (client.account_session event)
  | registered position client event world session others server found stepped new added =>
      have one := linked.clients client (List.mem_of_getElem? found)
      have labels : server.labels = before.server.labels ++ [(session.id, client.secure)] :=
        WebServer.step_labels registered added
      have length := before.server.length_labels.symm
      refine ⟨linked.listener, linked.server.step added, ?_, ?_, ?_⟩
      · intro other member
        rw [labels]
        rcases List.mem_or_eq_of_mem_set member with old | rfl
        · exact (linked.clients other old).append _
        · rw [length]
          exact one.registered stepped new
      · refine (peers_set found event ?_ ?_).trans linked.peers
        · exact stepped
        · exact client.account_transport event
      · rw [labels, List.length_append, length]
        exact linked.handles.extend found (one.session_none stepped).1 rfl
  | called event server other stepped =>
      have labels := WebServer.step_labels_eq registered other stepped
      refine ⟨linked.listener, linked.server.step stepped, ?_, linked.peers, ?_⟩
      · intro client member
        rw [labels]
        exact linked.clients client member
      · rw [labels]
        exact linked.handles

theorem linked_of_reachable (reachable : (serviceSystem env).Reachable service) :
    Linked service := by
  apply reachable.invariant
  · rintro start rfl
    refine ⟨.initial rfl, .initial rfl, ?_, rfl, List.Perm.refl _⟩
    intro client member
    cases member
  · intro before event after _ linked moved
    exact linked.step moved

/-- **The parts of the service.** In every reachable state the acceptors, the HTTP
connections and the registry are in states they reach on their own; the clients are
those whose sockets the handlers of the acceptors have taken, each served under its
own address; and every connection of the registry is the session of exactly one
client, with the kind of its socket, made from the last request of the client, which
is the only one that opens a handshake. The HTTP connection of such a client does
nothing any more: the socket is the session's alone. -/
theorem reachable_parts (reachable : (serviceSystem env).Reachable service) :
    (listenerSystem env.IPAddress).Reachable service.listener ∧
    (serverSystem env.Pauuid).Reachable service.server ∧
    (∀ client ∈ service.clients, (httpSystem env).Reachable client.world) ∧
    service.clients.map Client.peer =
      service.listener.connections.map (fun (transport, remoteIp, _) => (transport, remoteIp)) ∧
    ∀ handle conn, service.server.conns[handle]? = some conn →
      (∃! position : Nat, ∃ client, service.clients[position]? = some client ∧
        client.session = some handle) ∧
      ∀ (position : Nat) client, service.clients[position]? = some client →
        client.session = some handle →
        conn.secure = client.secure ∧
        (∃ session opening, client.world.sessions = [session] ∧ session.id = conn.id ∧
          OpenedBy opening client.world.verdicts ∧ session.From opening.request) ∧
        ∀ event, service.step? (.http position event) = none := by
  have linked := linked_of_reachable reachable
  refine ⟨linked.listener, linked.server,
    fun client member => (linked.clients client member).reachable, linked.peers, ?_⟩
  intro handle conn found
  have label : service.server.labels[handle]? = some (conn.id, conn.secure) := by
    rw [WebServer.labels, List.getElem?_map, found, Option.map_some]
  refine ⟨linked.handles.existsUnique (List.getElem?_eq_some_iff.mp label).1, ?_⟩
  intro position client there refers
  have one := linked.clients client (List.mem_of_getElem? there)
  obtain ⟨session, created, same⟩ := one.opened handle refers
  rw [label, Option.some.injEq, Prod.mk.injEq] at same
  have stage := HTTP.World.stage_of_reachable one.reachable
  refine ⟨same.2, ?_, ?_⟩
  · cases stage with
    | serving unopened => rw [created] at unopened; cases unopened
    | switching opening unopened => rw [created] at unopened; cases unopened
    | refused opening unopened => rw [created] at unopened; cases unopened
    | switched opening other only opened quiet inside source =>
        rw [created] at only
        obtain ⟨rfl, -⟩ := List.cons.inj only
        exact ⟨session, opening, created, same.1.symm, opened, source⟩
  · intro event
    rw [Option.eq_none_iff_forall_ne_some]
    intro after moved
    obtain ⟨other, atPosition, handled⟩ := Option.bind_eq_some_iff.mp moved
    obtain ⟨world, stepped, -⟩ := Option.bind_eq_some_iff.mp handled
    rw [there] at atPosition
    obtain rfl := Option.some.inj atPosition
    rw [(one.session_none stepped).1] at refers
    cases refers

instance : DecidableEq HTTP.World.sampleHash.Pauuid := inferInstanceAs (DecidableEq Bytes)

/-- A client is accepted, its opening handshake is answered, and a message is pushed to
its session and written. -/
def sessionOpens : List (ServiceEvent HTTP.World.sampleHash) :=
  let request := ((HTTP.World.start true [] : HTTP.World HTTP.World.sampleHash).parseExit
    HTTP.World.sampleHandshake).request
  [.listener (.accepted .http (.ok ⟨some [], some 4000, true, true⟩)),
    .http 0 (.read (.ok HTTP.World.sampleHandshake)
      fun request response => ⟨request, response, .returned⟩),
    .http 0 (.write ⟨.createWsConnection, (generateWsHandshakeHeaders request {}).2⟩ none
      (ascii "1")),
    .server (.connection 0 .start), .server (.push (ascii "1") (ascii "a")),
    .server (.connection 0 (.written ⟨⟨0, WS.textFrame (ascii "a")⟩, false⟩ none))]

theorem reachable_parts_opens : ∃ service : Service HTTP.World.sampleHash,
    (serviceSystem HTTP.World.sampleHash).Run {} sessionOpens service ∧
    service.clients.map Client.session = [some 0] ∧
    (listenerSystem HTTP.World.sampleHash.IPAddress).Reachable service.listener ∧
    (serverSystem HTTP.World.sampleHash.Pauuid).Reachable service.server ∧
    (∀ client ∈ service.clients, (httpSystem HTTP.World.sampleHash).Reachable client.world) ∧
    service.clients.map Client.peer =
      service.listener.connections.map (fun (transport, remoteIp, _) => (transport, remoteIp)) ∧
    ∀ handle conn, service.server.conns[handle]? = some conn →
      (∃! position : Nat, ∃ client, service.clients[position]? = some client ∧
        client.session = some handle) ∧
      ∀ (position : Nat) client, service.clients[position]? = some client →
        client.session = some handle →
        conn.secure = client.secure ∧
        (∃ session opening, client.world.sessions = [session] ∧ session.id = conn.id ∧
          OpenedBy opening client.world.verdicts ∧ session.From opening.request) ∧
        ∀ event, service.step? (.http position event) = none := by
  have sessions : (sessionOpens.foldlM step? {}).map
      (fun service => service.clients.map Client.session) = some [some 0] := by
    decide +kernel
  obtain ⟨service, executed, opened⟩ := Option.map_eq_some_iff.mp sessions
  have run : (serviceSystem HTTP.World.sampleHash).Run {} sessionOpens service :=
    .of_foldlM executed
  exact ⟨service, run, opened, reachable_parts (run.reachable rfl)⟩

end Service

end Webserver.Server
