import Mathlib.Tactic.SplitIfs
import Webserver.Foundation.Transition
import Webserver.HTTP.Chunking
import Webserver.HTTP.Response

/-! # The HTTP connection

The connection object with its completion handlers, as a labelled transition
system: a step is the completion of one outstanding asynchronous operation with
any outcome, followed by the whole of its handler (the strand lets no other
handler of the connection run in between). The history components of a state
record what happened and are read by no handler.
-/

namespace Webserver.HTTP

open Foundation Schema HTTPParser

variable {env : Externals}

/-- How a call of `HandleRequest` ends. -/
inductive HandlerExit where
  | returned
  | threwException
  | threwOther
  deriving DecidableEq, Repr

/-- What a call of `HandleRequest` makes of its arguments, and how it ends. -/
structure Handled (env : Externals) where
  request : HTTPRequest env
  response : HTTPResponse
  exit : HandlerExit

/-- The behaviour of `HandleRequest` in one call. -/
abbrev HTTPRequestHandler (env : Externals) := HTTPRequest env → HTTPResponse → Handled env

/-- The handler that a write ends in. -/
inductive Continuation where
  | readNext
  | createWsConnection
  deriving DecidableEq, Repr

/-- A write, with the contents `response_` had when it was started. -/
structure Write where
  next : Continuation
  response : HTTPResponse
  deriving DecidableEq

inductive AsyncOp where
  | handshake
  | read
  | write (write : Write)
  deriving DecidableEq

/-- What a new `WSConnection` is constructed from. -/
structure WSSession (env : Externals) where
  id : env.Pauuid
  sid : env.Pauuid
  uri : env.Uri

/-- A call that makes a new session known: `WSAddSession` and, from `Start`,
`ws_onopen`. -/
inductive ServerCall (env : Externals) where
  | wsAddSession (id : env.Pauuid)
  | onopen (id sid : env.Pauuid) (uri : env.Uri)

structure HTTPConnection (env : Externals) where
  isHttp : Bool
  remoteIp : env.IPAddress
  request : HTTPRequest env := {}
  response : HTTPResponse := {}
  requestParser : HTTPParser := {}

/-- `_generate_ws_handshake_headers` on `request_` and `response_`. Reading a
request header through an index inserts it; the reply headers are inserted
without overwriting. -/
def generateWsHandshakeHeaders (request : HTTPRequest env) (response : HTTPResponse) :
    HTTPRequest env × HTTPResponse :=
  let (key, headers) := UnorderedMap.index request.headers (ascii "sec-websocket-key")
  let (subprotocol, headers) := UnorderedMap.index headers (ascii "sec-websocket-protocol")
  let hash := env.base64SHA1 (key ++ Magic.wsToken)
  let reply := UnorderedMap.emplace response.headers (ascii "Upgrade") (ascii "websocket")
  let reply := UnorderedMap.emplace reply (ascii "Connection") (ascii "Upgrade")
  let reply := UnorderedMap.emplace reply (ascii "Sec-WebSocket-Accept") hash
  let reply :=
    if subprotocol = ascii "chat, superchat" then
      UnorderedMap.assign reply (ascii "Sec-WebSocket-Protocol") (ascii "chat")
    else reply
  ({ request with headers }, { response with status := .websocketHandshake, headers := reply })

/-- A verdict of `Parse` on a connection, with the behaviour of the handler then. -/
structure Verdict (env : Externals) where
  result : Result
  request : HTTPRequest env
  handler : HTTPRequestHandler env

/-- The write that answers a verdict. -/
def Verdict.reply (verdict : Verdict env) : Write :=
  match verdict.result, verdict.request.isWSHandshake with
  | .good, .ok true =>
      ⟨.createWsConnection, (generateWsHandshakeHeaders verdict.request {}).2⟩
  | .good, _ => ⟨.readNext, (verdict.handler verdict.request {}).response⟩
  | _, _ => ⟨.readNext, HTTPResponse.stockReply .badRequest⟩

/-- A connection, its outstanding operations, and the history of the connection:
the sessions created and the calls that announced them, the bytes since the last
verdict, the verdicts, the arguments `HandleRequest` was called with and the
writes started. -/
structure World (env : Externals) where
  conn : HTTPConnection env
  outstanding : List AsyncOp := []
  closed : Bool := false
  sessions : List (WSSession env) := []
  announced : List (ServerCall env) := []
  escaped : Bool := false
  since : Bytes := []
  verdicts : List (Verdict env) := []
  handed : List (HTTPRequest env × HTTPResponse) := []
  writes : List Write := []

namespace World

def doRead (world : World env) : World env :=
  { world with outstanding := world.outstanding ++ [.read] }

/-- `async_write` of the buffers of `response_`. -/
def asyncWrite (next : Continuation) (world : World env) : World env :=
  { world with
    outstanding := world.outstanding ++ [.write ⟨next, world.conn.response⟩]
    writes := world.writes ++ [⟨next, world.conn.response⟩] }

def doWrite (world : World env) : World env := world.asyncWrite .readNext

/-- `process_ws_handshake`. The operations `_cancel` cancels stay outstanding
until their handlers run with an error. -/
def processWsHandshake (world : World env) : World env :=
  let (request, response) := generateWsHandshakeHeaders world.conn.request world.conn.response
  { world with conn := { world.conn with request, response } }.asyncWrite .createWsConnection

/-- An exception leaves the handler. -/
def escape (world : World env) : World env := { world with escaped := true }

/-- `_create_ws_connection`, whatever the outcome of the write; `SID` need not
be an identifier. The session is registered before it is started. -/
def createWsConnection (id : env.Pauuid) (world : World env) : World env :=
  match env.makePauuid (world.conn.request.getCookie (ascii "SID")).value with
  | .error _ => world.escape
  | .ok sid =>
      { world with
        sessions := world.sessions ++ [⟨id, sid, world.conn.request.uri⟩]
        announced := world.announced ++
          [.wsAddSession id, .onopen id sid world.conn.request.uri] }

/-- `stop`: the socket is closed. -/
def stop (world : World env) : World env := { world with closed := true }

/-- The error branch of the read and write handlers. -/
def onError (world : World env) : ErrorCode → World env
  | .operationAborted => world
  | .other => world.stop

/-- The members after the call of `HandleRequest`. -/
def call (handler : HTTPRequestHandler env) (world : World env) : World env :=
  let handled := handler world.conn.request world.conn.response
  { world with
    conn := { world.conn with request := handled.request, response := handled.response }
    handed := world.handed ++ [(world.conn.request, world.conn.response)] }

/-- `HandleRequest` in its `try` block, and the reply. -/
def handleRequest (handler : HTTPRequestHandler env) (world : World env) : World env :=
  match (handler world.conn.request world.conn.response).exit with
  | .returned | .threwException => (world.call handler).doWrite
  | .threwOther => (world.call handler).escape

/-- The members after the call of `Parse` on some bytes: `request_` was assigned
a new request and `response_` a new response before it. -/
def receive (bytes : Bytes) (exit : ParseExit env) (world : World env) : World env :=
  { world with
    conn := { world.conn with
      request := exit.request, response := {}, requestParser := exit.parser }
    since := world.since ++ bytes }

/-- A verdict is recorded. -/
def settle (result : Result) (handler : HTTPRequestHandler env) (world : World env) : World env :=
  { world with
    since := []
    verdicts := world.verdicts ++ [⟨result, world.conn.request, handler⟩] }

/-- The branch for `bad`: the stock reply. -/
def replyBad (world : World env) : World env :=
  { world with
    conn := { world.conn with response := HTTPResponse.stockReply .badRequest } }.doWrite

/-- The branch for `good`. `isWSHandshake` stands outside the `try` block. -/
def serve (handler : HTTPRequestHandler env) (world : World env) : World env :=
  match world.conn.request.isWSHandshake with
  | .error _ => world.escape
  | .ok true => world.processWsHandshake
  | .ok false => world.handleRequest handler

/-- The call of `Parse` in the handler of a read. -/
def parseExit (bytes : Bytes) (world : World env) : ParseExit env :=
  world.conn.requestParser.parse (requestOf world.conn.isHttp world.conn.remoteIp) bytes

/-- The handler of a read that brought some bytes. -/
def onRead (bytes : Bytes) (handler : HTTPRequestHandler env) (world : World env) : World env :=
  let exit := world.parseExit bytes
  let received := world.receive bytes exit
  match exit.result with
  | .error _ => received.escape
  | .ok .good => (received.settle .good handler).serve handler
  | .ok .bad => (received.settle .bad handler).replyBad
  | .ok .indeterminate => received.doRead

/-- The handler of a write that succeeded or failed. -/
def onWrite (next : Continuation) (error : Option ErrorCode) (id : env.Pauuid)
    (world : World env) : World env :=
  match next, error with
  | .createWsConnection, _ => world.createWsConnection id
  | .readNext, none => world.doRead
  | .readNext, some code => world.onError code

/-- A completed operation is no longer outstanding. -/
def complete (op : AsyncOp) (world : World env) : World env :=
  { world with outstanding := world.outstanding.erase op }

/-- `Start` on a new connection. -/
def start (isHttp : Bool) (remoteIp : env.IPAddress) : World env :=
  let world : World env := { conn := { isHttp, remoteIp } }
  if isHttp then world.doRead else { world with outstanding := [.handshake] }

end World

/-- The completion of an operation, with its outcome and what the code called
from the handler brings in. -/
inductive Event (env : Externals) where
  | handshake (error : Option ErrorCode)
  | read (outcome : Except ErrorCode Bytes) (handler : HTTPRequestHandler env)
  | write (write : Write) (error : Option ErrorCode) (id : env.Pauuid)

def maxBufferLength : Nat := 8192

namespace World

/-- One completion and its handler, when the operation is outstanding. -/
def step? (world : World env) : Event env → Option (World env)
  | .handshake error =>
      if .handshake ∈ world.outstanding then
        let completed := world.complete .handshake
        some (if error.isNone then completed.doRead else completed)
      else none
  | .read (.error code) _ =>
      if .read ∈ world.outstanding then some ((world.complete .read).onError code) else none
  | .read (.ok bytes) handler =>
      if .read ∈ world.outstanding ∧ bytes.length ≤ maxBufferLength then
        some ((world.complete .read).onRead bytes handler)
      else none
  | .write write error id =>
      if .write write ∈ world.outstanding then
        some ((world.complete (.write write)).onWrite write.next error id)
      else none

/-- What each kind of completion does, with the operation it completes. -/
inductive Completes (before : World env) : Event env → World env → Prop where
  | secured : .handshake ∈ before.outstanding →
      Completes before (.handshake none) (before.complete .handshake).doRead
  | unsecured (code : ErrorCode) : .handshake ∈ before.outstanding →
      Completes before (.handshake (some code)) (before.complete .handshake)
  | readFailed (code : ErrorCode) (handler : HTTPRequestHandler env) :
      .read ∈ before.outstanding →
      Completes before (.read (.error code) handler) ((before.complete .read).onError code)
  | received (bytes : Bytes) (handler : HTTPRequestHandler env) :
      .read ∈ before.outstanding → bytes.length ≤ maxBufferLength →
      Completes before (.read (.ok bytes) handler)
        ((before.complete .read).onRead bytes handler)
  | written (write : Write) (error : Option ErrorCode) (id : env.Pauuid) :
      .write write ∈ before.outstanding →
      Completes before (.write write error id)
        ((before.complete (.write write)).onWrite write.next error id)

/-- Every step is one of these completions. -/
theorem step_cases {before after : World env} {event : Event env}
    (moved : before.step? event = some after) : Completes before event after := by
  cases event with
  | handshake error =>
      simp only [step?] at moved
      cases error with
      | none =>
          split_ifs at moved with member
          · cases moved
            exact .secured member
          · contradiction
      | some code =>
          split_ifs at moved with member
          · contradiction
          · cases moved
            exact .unsecured code member
  | read outcome handler =>
      cases outcome with
      | error code =>
          simp only [step?] at moved
          split_ifs at moved with member
          cases moved
          exact .readFailed code handler member
      | ok bytes =>
          simp only [step?] at moved
          split_ifs at moved with enabled
          cases moved
          exact .received bytes handler enabled.1 enabled.2
  | write write error id =>
      simp only [step?] at moved
      split_ifs at moved with member
      cases moved
      exact .written write error id member

theorem step_read {world : World env} {bytes : Bytes} (reading : .read ∈ world.outstanding)
    (sized : bytes.length ≤ maxBufferLength) (handler : HTTPRequestHandler env) :
    world.step? (.read (.ok bytes) handler) =
      some ((world.complete .read).onRead bytes handler) :=
  if_pos ⟨reading, sized⟩

end World

/-- A connection from `Start` on. -/
def httpSystem (env : Externals) : System (World env) (Event env) :=
  System.ofStep (fun world => ∃ isHttp remoteIp, world = World.start isHttp remoteIp) World.step?

theorem httpSystem_deterministic : (httpSystem env).Deterministic :=
  System.ofStep_deterministic _ _

end Webserver.HTTP
