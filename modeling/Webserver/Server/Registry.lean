import Webserver.Foundation.Pool
import Webserver.Foundation.UnorderedMap
import Webserver.WS.Push

/-! # The registry of WebSocket sessions

The two maps of weak references that `WSPush` and `WSClose` look connections up
in, with the connections themselves. A weak reference is the position of its
connection among all connections ever made. Every operation on the maps holds
their mutex, so it is one step; handlers and destructions come in between.
-/

namespace Webserver.Server

open Foundation

/-- A `WSConnection` with the id it was made for, its kind of socket, and whether
it has been started, is waiting for a frame and has not been destroyed. -/
structure Connection (Id : Type*) where
  id : Id
  secure : Bool
  world : WS.World := {}
  started : Bool := false
  reading : Bool := false
  alive : Bool := true
  deriving DecidableEq

/-- What happens to one connection: `Start`, the handler of its read or of a write,
or its destruction. -/
inductive ConnectionEvent where
  | start
  | read (error : Option ErrorCode)
  | written (write : WS.PendingWrite) (error : Option ErrorCode)
  | destroy
  deriving DecidableEq

/-- The argument `ws_forward` passes on: a message or a closure code. -/
inductive Argument where
  | message (text : Bytes)
  | statusCode (code : UInt32)
  deriving DecidableEq

/-- `Forward`. The closure code is not looked at. -/
def Argument.forward (world : WS.World) : Argument → WS.World
  | .message text => world.write text WS.Schema.oneFragmentText
  | .statusCode _ => world.stop

namespace Connection

variable {Id : Type*}

/-- The caller of `Start` or a handler holds a shared reference. -/
def Owned (conn : Connection Id) : Prop :=
  conn.started = false ∨ conn.reading = true ∨ conn.world.outstanding ≠ []

instance (conn : Connection Id) : Decidable conn.Owned :=
  inferInstanceAs (Decidable (conn.started = false ∨ conn.reading = true ∨
    conn.world.outstanding ≠ []))

def step? (conn : Connection Id) : ConnectionEvent → Option (Connection Id)
  | .start =>
      if conn.started = false then
        some { conn with started := true, reading := true, world := conn.world.start }
      else none
  | .read error =>
      if conn.reading = true then
        some { conn with reading := false, world := conn.world.handleRead error }
      else none
  | .written write error =>
      (conn.world.step? (.written write error)).map (fun world => { conn with world })
  | .destroy =>
      if conn.alive = true ∧ ¬ conn.Owned then
        some { conn with alive := false, world := conn.world.destroy }
      else none

end Connection

/-- The connections made so far, the two maps, and the ids of the destroyed
connections that no call has named since. -/
structure WebServer (Id : Type*) where
  conns : List (Connection Id) := []
  wsConns : UnorderedMap Id Nat := ∅
  wsSecureConns : UnorderedMap Id Nat := ∅
  unclaimed : List Id := []

section Functions

variable {Id : Type*} [DecidableEq Id]

/-- Locking a weak reference. -/
def lock (conns : List (Connection Id)) (handle : Nat) : Option (Connection Id) :=
  conns[handle]?.filter (·.alive)

/-- `ws_forward` on one of the maps: its result, the map and the connections after
it. -/
def wsForward (id : Id) (map : UnorderedMap Id Nat) (argument : Argument)
    (conns : List (Connection Id)) : Bool × UnorderedMap Id Nat × List (Connection Id) :=
  match map.lookup id with
  | none => (false, map, conns)
  | some handle =>
      match lock conns handle with
      | some conn =>
          (true, map, conns.set handle { conn with world := argument.forward conn.world })
      | none => (false, map.erase id, conns)

namespace WebServer

/-- The body of `WSPush` and `WSClose`: the second map is tried when the first has
refused. -/
def forwardEither (server : WebServer Id) (id : Id) (argument : Argument) :
    Bool × WebServer Id :=
  let claimed := { server with unclaimed := server.unclaimed.filter (· ≠ id) }
  let (plain, wsConns, conns) := wsForward id server.wsConns argument server.conns
  if plain then (true, { claimed with wsConns, conns })
  else
    let (ok, wsSecureConns, conns) := wsForward id server.wsSecureConns argument conns
    (ok, { claimed with wsConns, wsSecureConns, conns })

def wsPush (server : WebServer Id) (id : Id) (text : Bytes) : Bool × WebServer Id :=
  server.forwardEither id (.message text)

def wsClose (server : WebServer Id) (id : Id) (statusCode : UInt32) : Bool × WebServer Id :=
  server.forwardEither id (.statusCode statusCode)

/-- `WSAddSession` on a new connection, for a plain or a secure socket. -/
def wsAddSession (server : WebServer Id) (id : Id) (secure : Bool) : WebServer Id :=
  let conn : Connection Id := { id, secure }
  let made := { server with conns := server.conns ++ [conn] }
  let handle := server.conns.length
  if secure then
    { made with wsSecureConns := UnorderedMap.emplace server.wsSecureConns id handle }
  else { made with wsConns := UnorderedMap.emplace server.wsConns id handle }

end WebServer

end Functions

/-- A session is added under a fresh id, a call of the server, or something that
happens to the connection at a position. -/
inductive ServerEvent (Id : Type*) where
  | addSession (id : Id) (secure : Bool)
  | push (id : Id) (text : Bytes)
  | close (id : Id) (statusCode : UInt32)
  | connection (handle : Nat) (event : ConnectionEvent)
  deriving DecidableEq

namespace WebServer

variable {Id : Type*} [DecidableEq Id]

/-- What happens to the connection at a position; its id is recorded when it is
destroyed. -/
def touch (server : WebServer Id) (handle : Nat) (event : ConnectionEvent)
    (before after : Connection Id) : WebServer Id :=
  { server with
    conns := server.conns.set handle after
    unclaimed := if event = .destroy then server.unclaimed ++ [before.id] else server.unclaimed }

def step? (server : WebServer Id) : ServerEvent Id → Option (WebServer Id)
  | .addSession id secure =>
      if ∀ conn ∈ server.conns, conn.id ≠ id then some (server.wsAddSession id secure) else none
  | .push id text => some (server.wsPush id text).2
  | .close id statusCode => some (server.wsClose id statusCode).2
  | .connection handle event =>
      server.conns[handle]?.bind fun conn =>
        (conn.step? event).map (server.touch handle event conn)

end WebServer

/-- A server under any interleaving of calls, handlers and destructions. -/
def serverSystem (Id : Type*) [DecidableEq Id] : System (WebServer Id) (ServerEvent Id) :=
  System.ofStep (· = {}) WebServer.step?

end Webserver.Server
