import Webserver.Server.Conversation

/-! # Isolation

What a client sees depends on what happens to it and on the calls that name its
session, and on nothing that happens to other clients or at the acceptors. One client
on its own is a system; in every run of the service each client goes through a run of
it.
-/

namespace Webserver.Server

open Foundation System HTTP

variable {env : Externals}

/-- What happens to one client: a completion on its HTTP connection, a call that names
its session, or something that happens to its session. -/
inductive OwnEvent (env : Externals) where
  | http (event : Event env)
  | push (text : Bytes)
  | close (statusCode : UInt32)
  | session (event : ConnectionEvent)

/-- One client on its own, with its session in place of the position of it. -/
structure Solo (env : Externals) where
  client : Client env
  session : Option (Connection env.Pauuid) := none

namespace Solo

def start (transport : Transport) (remoteIp : env.IPAddress) : Solo env :=
  { client := { transport, world := .start (transport = .http) remoteIp } }

/-- A call that names the session reaches it while it lives. -/
def forward (argument : Argument) (solo : Solo env) : Solo env :=
  { solo with
    session := solo.session.map fun conn =>
      if conn.alive then { conn with world := argument.forward conn.world } else conn }

/-- A session that a handler has created is new. -/
def step? (solo : Solo env) : OwnEvent env → Option (Solo env)
  | .http event =>
      (solo.client.world.step? event).map fun world =>
        { client := { solo.client.account event with world }
          session := solo.session.or <| world.sessions.head?.map fun session =>
            { id := session.id, secure := solo.client.secure } }
  | .push text => some (solo.forward (.message text))
  | .close statusCode => some (solo.forward (.statusCode statusCode))
  | .session event =>
      solo.session.bind fun conn =>
        (conn.step? event).map fun next => { solo with session := some next }

/-- Calls find no session before there is one. -/
theorem forward_of_none {solo : Solo env} (none : solo.session = none) (argument : Argument) :
    solo.forward argument = solo := by
  obtain ⟨client, session⟩ := solo
  obtain rfl : session = .none := none
  rfl

end Solo

/-- One client under anything that happens to it. -/
def soloSystem (env : Externals) : System (Solo env) (OwnEvent env) :=
  System.ofStep (fun solo => ∃ transport remoteIp, solo = .start transport remoteIp) Solo.step?

theorem Client.account_free (client : Client env) (event : Event env) :
    ({ client with session := none } : Client env).account event =
      { client.account event with session := none } := by
  rcases event with _ | _ | ⟨write, _ | code, id⟩ <;> rfl

namespace Service

/-- A client as it stands in the service. -/
def view (service : Service env) (client : Client env) : Solo env where
  client := { client with session := none }
  session := client.session.bind (service.server.conns[·]?)

/-- The id names the session of the client, if it has one, and no other. -/
def Owns (service : Service env) (client : Client env) (id : env.Pauuid) : Prop :=
  ∀ handle : Nat, service.server.labels[handle]?.map Prod.fst = some id ↔
    client.session = some handle

variable [DecidableEq env.Pauuid]

/-- What happens to the client at a position and to the session of an id. -/
def own (position : Nat) (id : env.Pauuid) (service : Service env) :
    ServiceEvent env → List (OwnEvent env)
  | .http other event => if other = position then [.http event] else []
  | .server (.push named text) => if named = id then [.push text] else []
  | .server (.close named statusCode) => if named = id then [.close statusCode] else []
  | .server (.connection handle event) =>
      if service.server.labels[handle]?.map Prod.fst = some id then [.session event] else []
  | .server (.addSession _ _) | .listener _ => []

end Service

namespace WebServer

variable {Id : Type*} [DecidableEq Id] {server : WebServer Id}

/-- A call changes the connection of the id it names while that lives, and no other. -/
theorem forwardEither_getElem? (registered : Registered server) (id : Id) (argument : Argument)
    {handle : Nat} {conn : Connection Id} (found : server.conns[handle]? = some conn) :
    (server.forwardEither id argument).2.conns[handle]? =
      some (if conn.id = id ∧ conn.alive then
        { conn with world := argument.forward conn.world } else conn) := by
  have routed := registered.routed id argument
  generalize server.forwardEither id argument = result at routed ⊢
  have unreached (dead : conn.id = id → conn.alive = false) :
      (if conn.id = id ∧ conn.alive then
        { conn with world := argument.forward conn.world } else conn) = conn := by
    rw [if_neg]
    rintro ⟨named, alive⟩
    rw [dead named] at alive
    cases alive
  cases routed with
  | reached position other entry there alive =>
      have named := registered.id_of_entry entry there
      change (server.conns.set position { other with
        world := argument.forward other.world })[handle]? = _
      rw [Pool.getElem?_set _ there]
      by_cases same : position = handle
      · subst same
        rw [found] at there
        obtain rfl := Option.some.inj there
        rw [if_pos rfl, if_pos ⟨named, alive⟩]
      · rw [if_neg same, found, if_neg]
        rintro ⟨rfl, -⟩
        exact same (registered.handle_eq there found named)
  | dead position other entry there dead =>
      rw [unreached, forget_conns]
      · exact found
      · intro named
        have same := registered.handle_eq there found
          ((registered.id_of_entry entry there).trans named.symm)
        subst same
        rw [found] at there
        rw [Option.some.inj there]
        exact dead
  | unknown none =>
      rw [unreached]
      · exact found
      · intro named
        apply Bool.eq_false_iff.mpr
        intro alive
        have entry := registered.present handle conn found alive
        rw [named, none] at entry
        cases entry

end WebServer

namespace Service

variable [DecidableEq env.Pauuid] {before after : Service env} {client next : Client env}
  {position : Nat} {id : env.Pauuid}

omit [DecidableEq env.Pauuid] in
theorem view_of_none (free : client.session = none) :
    before.view client = ⟨{ client with session := none }, none⟩ := by
  rw [view, free]
  rfl

omit [DecidableEq env.Pauuid] in
theorem view_of_some {handle : Nat} (refers : client.session = some handle) :
    before.view client = ⟨{ client with session := none }, before.server.conns[handle]?⟩ := by
  rw [view, refers]
  rfl

omit [DecidableEq env.Pauuid] in
/-- The connection of a client whose session has the id. -/
theorem Owns.found (owns : before.Owns client id) {handle : Nat}
    (refers : client.session = some handle) :
    ∃ conn, before.server.conns[handle]? = some conn ∧ conn.id = id := by
  have label := (owns handle).mpr refers
  rw [WebServer.labels, List.getElem?_map, Option.map_map] at label
  exact Option.map_eq_some_iff.mp label

omit [DecidableEq env.Pauuid] in
/-- One event of a client on its own. -/
theorem solo_step {solo target : Solo env} {event : OwnEvent env}
    (moved : solo.step? event = some target) : (soloSystem env).Run solo [event] target :=
  .cons moved (.nil target)

/-- A call is a call for the client whose session it names, and nothing for others. -/
theorem view_forwardEither (linked : Linked before) (owns : before.Owns client id)
    (named : env.Pauuid) (argument : Argument) :
    view { before with server := (before.server.forwardEither named argument).2 } client =
      if named = id then (before.view client).forward argument else before.view client := by
  have registered := WebServer.registered_of_reachable linked.server
  cases refers : client.session with
  | none =>
      rw [view_of_none refers, view_of_none refers, Solo.forward_of_none rfl, ite_self]
  | some handle =>
      obtain ⟨conn, found, same⟩ := owns.found refers
      rw [view_of_some refers, view_of_some refers, found,
        WebServer.forwardEither_getElem? registered named argument found, same]
      by_cases here : named = id
      · subst here
        cases alive : conn.alive with
        | true => simp [Solo.forward, alive, same]
        | false => simp [Solo.forward, alive]
      · simp [here, Ne.symm here]

omit [DecidableEq env.Pauuid] in
theorem conn_of_none {session : Option Nat} (free : session = none) :
    session.bind (after.server.conns[·]?) = none := by
  rw [free]
  rfl

omit [DecidableEq env.Pauuid] in
/-- A handler of the HTTP connection of a client, as a step of the client on its own. -/
theorem solo_http {event : Event env} {world : HTTP.World env} (free : client.session = none)
    (stepped : client.world.step? event = some world) {session : Option Nat}
    {conn : Option (Connection env.Pauuid)}
    (at_ : session.bind (after.server.conns[·]?) = conn)
    (made : world.sessions.head?.map (fun session =>
      ({ id := session.id, secure := client.secure } : Connection env.Pauuid)) = conn) :
    (soloSystem env).Run (before.view client) [.http event]
      (after.view { client.account event with world, session }) := by
  apply solo_step
  rw [view_of_none free]
  simp only [Solo.step?, stepped, Option.map_some, Client.account_free, view, at_, Option.none_or]
  rw [← made]
  rfl

/-- What happens to a connection happens to the client whose session it is. -/
theorem touch_follows (owns : before.Owns client id) {handle : Nat} {event : ConnectionEvent}
    {conn moved : Connection env.Pauuid} (found : before.server.conns[handle]? = some conn)
    (happened : conn.step? event = some moved) :
    (soloSystem env).Run (before.view client)
      (before.own position id (.server (.connection handle event)))
      (view { before with server := before.server.touch handle event conn moved } client) := by
  have conns (wanted : Nat) : (before.server.touch handle event conn moved).conns[wanted]? =
      if handle = wanted then some moved else before.server.conns[wanted]? :=
    Pool.getElem?_set moved found wanted
  have label : before.server.labels[handle]?.map Prod.fst = some conn.id := by
    rw [WebServer.labels, List.getElem?_map, found]
    rfl
  rw [own, label]
  by_cases here : some conn.id = some id
  · have refers := (owns handle).mp (label.trans here)
    rw [if_pos here, view_of_some refers, view_of_some refers, conns, if_pos rfl, found]
    apply solo_step
    simp only [Solo.step?, Option.bind_some, happened, Option.map_some]
  · rw [if_neg here]
    cases refers : client.session with
    | none =>
        rw [view_of_none refers, view_of_none refers]
        exact .nil _
    | some other =>
        have different : handle ≠ other := by
          rintro rfl
          exact here (label.symm.trans ((owns handle).mpr refers))
        rw [view_of_some refers, view_of_some refers, conns, if_neg different]
        exact .nil _

omit [DecidableEq env.Pauuid] in
/-- Whose session has the id is a matter of the labels. -/
theorem Owns.congr (owns : after.Owns next id) (labels : after.server.labels = before.server.labels)
    (session : next.session = client.session) : before.Owns client id := by
  intro handle
  rw [← labels, ← session]
  exact owns handle

omit [DecidableEq env.Pauuid] in
/-- The label a position has already is not that of the newest connection. -/
theorem earlier_label {label : env.Pauuid × Bool}
    (labels : after.server.labels = before.server.labels ++ [label]) {handle : Nat}
    (below : handle < before.server.labels.length) :
    after.server.labels[handle]? = before.server.labels[handle]? := by
  rw [labels, List.getElem?_append_left below]

omit [DecidableEq env.Pauuid] in
theorem label_below {handle : Nat}
    (label : before.server.labels[handle]?.map Prod.fst = some id) :
    handle < before.server.labels.length := by
  obtain ⟨entry, there, -⟩ := Option.map_eq_some_iff.mp label
  exact (List.getElem?_eq_some_iff.mp there).1

omit [DecidableEq env.Pauuid] in
/-- The session of a client has its id before another one is registered. -/
theorem Owns.earlier (owns : after.Owns client id) {label : env.Pauuid × Bool}
    (labels : after.server.labels = before.server.labels ++ [label])
    (below : ∀ handle, client.session = some handle → handle < before.server.labels.length) :
    before.Owns client id := by
  intro handle
  constructor
  · intro label
    apply (owns handle).mp
    rw [earlier_label labels (label_below label)]
    exact label
  · intro refers
    have label := (owns handle).mpr refers
    rwa [earlier_label labels (below handle refers)] at label

omit [DecidableEq env.Pauuid] in
/-- The id is of no session before that of the client is registered. -/
theorem Owns.newest (owns : after.Owns next id) {label : env.Pauuid × Bool}
    (labels : after.server.labels = before.server.labels ++ [label])
    (last : next.session = some before.server.labels.length) (free : client.session = none) :
    before.Owns client id := by
  intro handle
  rw [free]
  refine iff_of_false ?_ (by simp)
  intro label
  have below := label_below label
  rw [← earlier_label labels below] at label
  have same := (owns handle).mp label
  rw [last] at same
  exact Nat.ne_of_gt below (Option.some.inj same)

omit [DecidableEq env.Pauuid] in
/-- A client with a session or none does not see another one registered. -/
theorem view_earlier {server : WebServer env.Pauuid} {clients : List (Client env)}
    {conn : Connection env.Pauuid} (conns : server.conns = before.server.conns ++ [conn])
    (below : ∀ handle, client.session = some handle → handle < before.server.conns.length) :
    view { before with server, clients } client = before.view client := by
  cases refers : client.session with
  | none => rw [view_of_none refers, view_of_none refers]
  | some handle =>
      rw [view_of_some refers, view_of_some refers]
      simp only [conns, List.getElem?_append_left (below handle refers)]

/-- A step as one client sees it, with the id of its session. -/
structure Seen (position : Nat) (id : env.Pauuid) (event : ServiceEvent env)
    (before after : Service env) (client next : Client env) : Prop where
  owns : before.Owns client id
  peer : client.peer = next.peer
  run : (soloSystem env).Run (before.view client) (before.own position id event) (after.view next)

/-- A handler of its HTTP connection that registers nothing. -/
theorem Linked.handled_seen (linked : Linked before) {event : Event env} {world : HTTP.World env}
    {clients : List (Client env)} (member : client ∈ before.clients)
    (stepped : client.world.step? event = some world)
    (none : world.sessions.drop client.world.sessions.length = [])
    (owns : Owns { before with clients } { client.account event with world } id) :
    Seen position id (.http position event) before { before with clients } client
      { client.account event with world } := by
  obtain ⟨free, empty⟩ := (linked.clients client member).session_none stepped
  have unopened : world.sessions = [] := by
    rw [empty] at none
    exact none
  have kept := client.account_session event
  refine ⟨owns.congr rfl kept, ?_, ?_⟩
  · have remoteIp := (HTTP.World.step_conn stepped).2
    simp [Client.peer, remoteIp]
  · rw [own, if_pos rfl]
    refine solo_http free stepped (conn_of_none (kept.trans free)) ?_
    rw [unopened]
    rfl

/-- The handler of its HTTP connection that registers its session. -/
theorem Linked.registered_seen (linked : Linked before) {event : Event env}
    {world : HTTP.World env} {session : WSSession env} {others : List (WSSession env)}
    {server : WebServer env.Pauuid} {clients : List (Client env)}
    (member : client ∈ before.clients) (stepped : client.world.step? event = some world)
    (new : world.sessions.drop client.world.sessions.length = session :: others)
    (labels : server.labels = before.server.labels ++ [(session.id, client.secure)])
    (conns : server.conns =
      before.server.conns ++ [{ id := session.id, secure := client.secure }])
    (owns : Owns { before with server, clients }
      { client.account event with world, session := some before.server.conns.length } id) :
    Seen position id (.http position event) before { before with server, clients } client
      { client.account event with world, session := some before.server.conns.length } := by
  obtain ⟨free, empty⟩ := (linked.clients client member).session_none stepped
  have length := before.server.length_labels
  refine ⟨owns.newest labels (by rw [length]) free, ?_, ?_⟩
  · have remoteIp := (HTTP.World.step_conn stepped).2
    simp [Client.peer, remoteIp]
  · rw [own, if_pos rfl]
    rw [empty] at new
    have created : world.sessions = session :: others := new
    refine solo_http free stepped ?_ (by rw [created])
    change server.conns[before.server.conns.length]? = _
    rw [conns, List.getElem?_concat_length]
    rfl

/-- A call of the server or something that happens to a session. -/
theorem Linked.called_seen (linked : Linked before) {event : ServerEvent env.Pauuid}
    {server : WebServer env.Pauuid} (unlike : ∀ id secure, event ≠ .addSession id secure)
    (stepped : before.server.step? event = some server)
    (owns : Owns { before with server } client id) :
    Seen position id (.server event) before { before with server } client client := by
  have registered := WebServer.registered_of_reachable linked.server
  have same : before.Owns client id :=
    owns.congr (WebServer.step_labels_eq registered unlike stepped) rfl
  -- a call is seen by the client whose session it names
  have called {named : env.Pauuid} {argument : Argument} {own : OwnEvent env}
      (forwards : (before.view client).step? own =
        some ((before.view client).forward argument)) :
      (soloSystem env).Run (before.view client) (if named = id then [own] else [])
        (view { before with server := (before.server.forwardEither named argument).2 } client) := by
    rw [view_forwardEither linked same named argument]
    by_cases here : named = id
    · rw [if_pos here, if_pos here]
      exact solo_step forwards
    · rw [if_neg here, if_neg here]
      exact .nil _
  refine ⟨same, rfl, ?_⟩
  cases WebServer.step_cases stepped with
  | added id secure fresh => exact (unlike id secure rfl).elim
  | pushed named text => exact called rfl
  | closed named statusCode => exact called rfl
  | touched handle event conn next at_ happened => exact touch_follows same at_ happened

/-- **One step, seen by one client.** -/
theorem Linked.seen (linked : Linked before) {event : ServiceEvent env}
    (moved : before.step? event = some after) (found : before.clients[position]? = some client)
    (there : after.clients[position]? = some next) (owns : after.Owns next id) :
    Seen position id event before after client next := by
  have inside := (List.getElem?_eq_some_iff.mp found).1
  have member := List.mem_of_getElem? found
  cases step_cases moved with
  | listened event listener accepted =>
      have same : (before.listen listener).clients[position]? = before.clients[position]? :=
        List.getElem?_append_left inside
      rw [same, found] at there
      obtain rfl := Option.some.inj there
      exact ⟨owns, rfl, .nil _⟩
  | handled other one event world at_ stepped none =>
      rw [Pool.getElem?_set _ at_] at there
      by_cases here : other = position
      · subst here
        rw [found] at at_
        obtain rfl := Option.some.inj at_
        rw [if_pos rfl] at there
        obtain rfl := Option.some.inj there
        exact linked.handled_seen member stepped none owns
      · rw [if_neg here, found] at there
        obtain rfl := Option.some.inj there
        refine ⟨owns, rfl, ?_⟩
        rw [own, if_neg here]
        exact .nil _
  | registered other one event world session others server at_ stepped new added =>
      have registered := WebServer.registered_of_reachable linked.server
      have labels : server.labels = before.server.labels ++ [(session.id, one.secure)] :=
        WebServer.step_labels registered added
      have conns : server.conns =
          before.server.conns ++ [{ id := session.id, secure := one.secure }] := by
        cases WebServer.step_cases added with
        | added => exact WebServer.wsAddSession_conns _ _ _
      rw [Pool.getElem?_set _ at_] at there
      by_cases here : other = position
      · subst here
        rw [found] at at_
        obtain rfl := Option.some.inj at_
        rw [if_pos rfl] at there
        obtain rfl := Option.some.inj there
        exact linked.registered_seen member stepped new labels conns owns
      · rw [if_neg here, found] at there
        obtain rfl := Option.some.inj there
        have below (handle : Nat) (refers : client.session = some handle) :
            handle < before.server.labels.length := linked.handles.lt member refers
        refine ⟨owns.earlier labels below, rfl, ?_⟩
        rw [before.server.length_labels] at below
        rw [own, if_neg here, view_earlier conns below]
        exact .nil _
  | called event server unlike stepped =>
      rw [found] at there
      obtain rfl := Option.some.inj there
      exact linked.called_seen unlike stepped owns

/-- No connection has the id. -/
def Unknown (service : Service env) (id : env.Pauuid) : Prop :=
  ∀ handle : Nat, service.server.labels[handle]?.map Prod.fst ≠ some id

/-- While a client is not there and its id is of no session, all it could be told of are
calls, and these find no session. -/
theorem Linked.absent (linked : Linked before) {event : ServiceEvent env}
    (moved : before.step? event = some after) (missing : after.clients[position]? = none)
    (unknown : after.Unknown id) {solo : Solo env} (free : solo.session = none) :
    before.clients[position]? = none ∧ before.Unknown id ∧
      (soloSystem env).Run solo (before.own position id event) solo := by
  have registered := WebServer.registered_of_reachable linked.server
  have refuses (argument : Argument) : solo.forward argument = solo :=
    Solo.forward_of_none free argument
  cases step_cases moved with
  | listened event listener accepted =>
      refine ⟨?_, unknown, .nil _⟩
      rw [List.getElem?_eq_none_iff] at missing ⊢
      simp only [listen, List.length_append] at missing
      omega
  | handled other one event world at_ stepped none =>
      rw [List.getElem?_eq_none_iff, List.length_set] at missing
      have different : other ≠ position :=
        Nat.ne_of_lt (Nat.lt_of_lt_of_le (List.getElem?_eq_some_iff.mp at_).1 missing)
      rw [own, if_neg different]
      exact ⟨List.getElem?_eq_none_iff.mpr missing, unknown, .nil _⟩
  | registered other one event world session others server at_ stepped new added =>
      rw [List.getElem?_eq_none_iff, List.length_set] at missing
      have different : other ≠ position :=
        Nat.ne_of_lt (Nat.lt_of_lt_of_le (List.getElem?_eq_some_iff.mp at_).1 missing)
      have labels : server.labels = before.server.labels ++ [(session.id, one.secure)] :=
        WebServer.step_labels registered added
      rw [own, if_neg different]
      refine ⟨List.getElem?_eq_none_iff.mpr missing, ?_, .nil _⟩
      intro handle label
      apply unknown handle
      rw [earlier_label labels (label_below label)]
      exact label
  | called event server unlike stepped =>
      have labels := WebServer.step_labels_eq registered unlike stepped
      have still : before.Unknown id := by
        intro handle
        rw [← labels]
        exact unknown handle
      refine ⟨missing, still, ?_⟩
      cases event with
      | addSession id secure => exact (unlike id secure rfl).elim
      | push named text =>
          rw [own]
          split_ifs
          · exact solo_step (congrArg some (refuses (.message text)))
          · exact .nil _
      | close named statusCode =>
          rw [own]
          split_ifs
          · exact solo_step (congrArg some (refuses (.statusCode statusCode)))
          · exact .nil _
      | connection handle event =>
          rw [own, if_neg (still handle)]
          exact .nil _

/-- A client arrives with an accept, which is no event of its own. -/
theorem step_arrives {event : ServiceEvent env}
    (moved : before.step? event = some after) (missing : before.clients[position]? = none)
    (there : after.clients[position]? = some client) (owns : after.Owns client id) :
    before.Unknown id ∧ before.own position id event = [] ∧
      after.view client = .start client.transport client.world.conn.remoteIp := by
  have inside := (List.getElem?_eq_some_iff.mp there).1
  have beyond := List.getElem?_eq_none_iff.mp missing
  cases step_cases moved with
  | handled other one event world at_ stepped none =>
      rw [List.length_set] at inside
      omega
  | registered other one event world session others server at_ stepped new added =>
      rw [List.length_set] at inside
      omega
  | called event server unlike stepped => exact absurd inside (Nat.not_lt.mpr beyond)
  | listened event listener accepted =>
      rcases Listener.step_connections accepted with
        same | ⟨transport, _, address, port, _, _, _, _, new⟩
      · simp only [listen, same, List.drop_length, List.filterMap_nil, List.append_nil] at inside
        omega
      · have clients : (before.listen listener).clients = before.clients ++
            [{ transport, world := .start (transport = .http) address }] := by
          simp [listen, new, Client.start?]
        rw [clients, Pool.getElem?_add, missing] at there
        obtain ⟨-, rfl⟩ := there.resolve_left (by simp)
        refine ⟨?_, rfl, ?_⟩
        · intro handle label
          cases (owns handle).mp label
        · cases transport <;> rfl

/-- **A client in the service is a client on its own.** -/
theorem emits_solo {trace : List (OwnEvent env)} {last : Service env}
    (emits : (serviceSystem env).Emits (own position id) {} trace last)
    (found : last.clients[position]? = some client) (owns : last.Owns client id) :
    (soloSystem env).Run (.start client.transport client.world.conn.remoteIp) trace
      (last.view client) := by
  have both : (∀ solo : Solo env, solo.session = none → last.clients[position]? = none →
        last.Unknown id → (soloSystem env).Run solo trace solo) ∧
      ∀ client, last.clients[position]? = some client → last.Owns client id →
        (soloSystem env).Run (.start client.transport client.world.conn.remoteIp) trace
          (last.view client) := by
    apply emits.invariant rfl
    · refine ⟨fun solo _ _ _ => .nil solo, ?_⟩
      intro client there
      have none : ({} : Service env).clients[position]? = none := List.getElem?_nil
      rw [none] at there
      cases there
    · intro seen before event after earlier holds moved
      have linked := linked_of_reachable earlier
      refine ⟨?_, ?_⟩
      · intro solo free missing unknown
        obtain ⟨before, still, run⟩ := linked.absent moved missing unknown free
        exact (holds.1 solo free before still).append run
      · intro client there owns
        cases was : before.clients[position]? with
        | none =>
            obtain ⟨unknown, nothing, new⟩ := step_arrives moved was there owns
            rw [nothing, List.append_nil, new]
            exact holds.1 _ rfl was unknown
        | some earlier =>
            obtain ⟨before, peer, run⟩ := linked.seen moved was there owns
            have rest := (holds.2 earlier was before).append run
            rw [Client.peer, Client.peer, Prod.mk.injEq, Option.some.injEq] at peer
            rwa [peer.1, peer.2] at rest
  exact both.2 client found owns

/-- **Isolation.** Two clients, of one run or of different ones, that have been accepted
alike and to which and to whose sessions the same has happened are in the same state and
have got the same bytes, whatever has happened to other clients, to other sessions and
at the acceptors. -/
theorem emits_isolated {trace : List (OwnEvent env)} {first second : Service env}
    {left right : Nat} {one other : Client env} {id another : env.Pauuid}
    (leftEmits : (serviceSystem env).Emits (own left id) {} trace first)
    (rightEmits : (serviceSystem env).Emits (own right another) {} trace second)
    (atLeft : first.clients[left]? = some one) (atRight : second.clients[right]? = some other)
    (leftOwns : first.Owns one id) (rightOwns : second.Owns other another)
    (alike : one.peer = other.peer) :
    first.view one = second.view other ∧ first.received one = second.received other := by
  have toLeft := emits_solo leftEmits atLeft leftOwns
  have toRight := emits_solo rightEmits atRight rightOwns
  rw [Client.peer, Client.peer, Prod.mk.injEq, Option.some.injEq] at alike
  rw [alike.1, alike.2] at toLeft
  have deterministic : (soloSystem env).Deterministic := ofStep_deterministic _ _
  have same := deterministic.run_eq toLeft toRight
  refine ⟨same, ?_⟩
  have delivered := congrArg (fun solo => solo.client.delivered) same
  have session := congrArg Solo.session same
  simp only [view] at delivered session
  rw [received, received, sessionBytes, sessionBytes, delivered, session]

/-- What happens to the client that opens a session and gets a message. -/
def ownOpens : List (OwnEvent HTTP.World.sampleHash) :=
  let request := ((HTTP.World.start true [] : HTTP.World HTTP.World.sampleHash).parseExit
    HTTP.World.sampleHandshake).request
  [.http (.read (.ok HTTP.World.sampleHandshake)
      fun request response => ⟨request, response, .returned⟩),
    .http (.write ⟨.createWsConnection, (generateWsHandshakeHeaders request {}).2⟩ none
      (ascii "1")),
    .session .start, .push (ascii "a"),
    .session (.written ⟨⟨0, WS.textFrame (ascii "a")⟩, false⟩ none)]

/-- The same beside another client, whose read fails, and a call for a session that is
not there. -/
def opensBeside : List (ServiceEvent HTTP.World.sampleHash) :=
  let request := ((HTTP.World.start true [] : HTTP.World HTTP.World.sampleHash).parseExit
    HTTP.World.sampleHandshake).request
  [.listener (.accepted .https (.ok ⟨some [1], some 4001, true, true⟩)),
    .listener (.accepted .http (.ok ⟨some [], some 4002, true, true⟩)),
    .http 1 (.read (.ok HTTP.World.sampleHandshake)
      fun request response => ⟨request, response, .returned⟩),
    .http 0 (.handshake (some .other)),
    .http 1 (.write ⟨.createWsConnection, (generateWsHandshakeHeaders request {}).2⟩ none
      (ascii "1")),
    .server (.push (ascii "2") (ascii "b")), .server (.connection 0 .start),
    .server (.push (ascii "1") (ascii "a")), .listener .stop,
    .server (.connection 0 (.written ⟨⟨0, WS.textFrame (ascii "a")⟩, false⟩ none))]

omit [DecidableEq env.Pauuid] in
/-- A client with the only session, under its id. -/
theorem owns_only {kind : Bool} (refers : client.session = some 0)
    (labels : before.server.labels = [(id, kind)]) : before.Owns client id := by
  intro handle
  rw [refers, labels]
  cases handle with
  | zero => exact iff_of_true rfl rfl
  | succ handle => simp

/-- The peers and the sessions of the clients, and the labels of the registry. -/
def outline (service : Service env) : List ((Transport × Option env.IPAddress) × Option Nat) ×
    List (env.Pauuid × Bool) :=
  (service.clients.map fun client => (client.peer, client.session), service.server.labels)

omit [DecidableEq env.Pauuid] in
/-- The client at a position of an outline. -/
theorem exists_client (position : Nat)
    {clients : List ((Transport × Option env.IPAddress) × Option Nat)}
    {labels : List (env.Pauuid × Bool)} (drawn : before.outline = (clients, labels))
    {peer : Transport × Option env.IPAddress} {session : Option Nat}
    (at_ : clients[position]? = some (peer, session)) :
    ∃ client, before.clients[position]? = some client ∧ client.peer = peer ∧
      client.session = session := by
  obtain ⟨rfl, -⟩ := Prod.mk.inj drawn
  rw [List.getElem?_map] at at_
  obtain ⟨client, found, same⟩ := Option.map_eq_some_iff.mp at_
  exact ⟨client, found, (Prod.mk.inj same).1, (Prod.mk.inj same).2⟩

set_option maxRecDepth 8000 in
theorem emits_isolated_opens : ∃ first second : Service HTTP.World.sampleHash, ∃ one other,
    (serviceSystem HTTP.World.sampleHash).Emits (own 0 (ascii "1")) {} ownOpens first ∧
    (serviceSystem HTTP.World.sampleHash).Emits (own 1 (ascii "1")) {} ownOpens second ∧
    first.clients[0]? = some one ∧ second.clients[1]? = some other ∧
    first.view one = second.view other ∧ first.received one = second.received other := by
  have leftTrace : (replay step? (own 0 (ascii "1")) {} sessionOpens).map Prod.fst =
      some ownOpens := rfl
  have rightTrace : (replay step? (own 1 (ascii "1")) {} opensBeside).map Prod.fst =
      some ownOpens := rfl
  have leftOutline : (replay step? (own 0 (ascii "1")) {} sessionOpens).map
      (fun ended => outline ended.2) =
        some ([((.http, some []), some 0)], [(ascii "1", false)]) := rfl
  have rightOutline : (replay step? (own 1 (ascii "1")) {} opensBeside).map
      (fun ended => outline ended.2) =
        some ([((.https, some [1]), none), ((.http, some []), some 0)],
          [(ascii "1", false)]) := rfl
  obtain ⟨⟨trace, first⟩, leftRun, rfl⟩ := Option.map_eq_some_iff.mp leftTrace
  obtain ⟨⟨trace, second⟩, rightRun, same⟩ := Option.map_eq_some_iff.mp rightTrace
  obtain rfl : trace = ownOpens := same
  rw [leftRun] at leftOutline
  rw [rightRun] at rightOutline
  have leftDrawn := Option.some.inj leftOutline
  have rightDrawn := Option.some.inj rightOutline
  obtain ⟨one, atLeft, onePeer, oneRefers⟩ := exists_client 0 leftDrawn rfl
  obtain ⟨other, atRight, otherPeer, otherRefers⟩ := exists_client 1 rightDrawn rfl
  have leftEmits : (serviceSystem HTTP.World.sampleHash).Emits (own 0 (ascii "1")) {} ownOpens
      first := Emits.of_replay leftRun
  have rightEmits : (serviceSystem HTTP.World.sampleHash).Emits (own 1 (ascii "1")) {} ownOpens
      second := Emits.of_replay rightRun
  exact ⟨first, second, one, other, leftEmits, rightEmits, atLeft, atRight,
    emits_isolated leftEmits rightEmits atLeft atRight
      (owns_only oneRefers (Prod.mk.inj leftDrawn).2)
      (owns_only otherRefers (Prod.mk.inj rightDrawn).2) (onePeer.trans otherPeer.symm)⟩

end Service

end Webserver.Server
