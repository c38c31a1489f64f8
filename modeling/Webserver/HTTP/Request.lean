import Webserver.Foundation.UnorderedMap
import Webserver.HTTP.Cookie
import Webserver.HTTP.Protocol

/-! # Requests

The request record and its helpers. What they use of other libraries (string
comparison and lower-casing, URIs, addresses, identifiers, hashing, clearing of
memory) is a parameter of the development.
-/

namespace Webserver.HTTP

open Foundation Schema

/-- Code the server calls that belongs to other libraries. Every member is taken
to return, except that making an identifier of a text may throw. -/
structure Externals where
  Uri : Type
  IPAddress : Type
  Pauuid : Type
  lexcmpi : Bytes → Bytes → Int
  utflower : Bytes → Bytes
  makeUri : Bytes → Uri
  emptyUri : Uri
  scheme : Uri → Bytes
  emptyAddress : IPAddress
  makePauuid : Bytes → Except StdException Pauuid
  base64SHA1 : Bytes → Bytes
  zeroout : Bytes → Bytes

/-- An instance for runs on concrete inputs: ASCII case folding, a URI kept as
its text, any text an identifier, memory overwritten with zeros. -/
def Externals.sample : Externals where
  Uri := Bytes
  IPAddress := Bytes
  Pauuid := Bytes
  lexcmpi left right := if left.map lower = right.map lower then 0 else 1
  utflower text := text.map lower
  makeUri text := text
  emptyUri := []
  scheme uri := uri.takeWhile (· != byte ':')
  emptyAddress := []
  makePauuid text := .ok text
  base64SHA1 text := text
  zeroout buffer := List.replicate buffer.length 0

variable {env : Externals}

structure HTTPRequest (env : Externals) where
  method : Bytes := []
  httpVersionMajor : Int := 0
  httpVersionMinor : Int := 0
  isHttp : Bool := true
  headers : UnorderedMap Bytes Bytes := ∅
  cookies : UnorderedMap Bytes Cookie := ∅
  content : Bytes := []
  origin : env.IPAddress := env.emptyAddress
  uri : env.Uri := env.emptyUri

namespace HTTPRequest

def getCookie (request : HTTPRequest env) (name : Bytes) : Cookie :=
  (request.cookies.lookup name).getD {}

def isWSUpgrade (request : HTTPRequest env) : Bool :=
  match request.headers.lookup Header.WS.upgrade, request.headers.lookup Header.WS.connection with
  | some upgrade, some connection =>
      env.lexcmpi upgrade Header.WS.Value.websocket == 0 &&
        (env.lexcmpi connection Header.WS.Value.upgrade == 0 ||
          env.lexcmpi connection Header.WS.Value.keepAliveUpgrade == 0)
  | _, _ => false

def isWSHandshake (request : HTTPRequest env) : Except StdException Bool :=
  if !request.isWSUpgrade ||
      !(env.scheme request.uri == URI.wsProto || env.scheme request.uri == URI.wssProto) then
    .ok false
  else
    match request.headers.lookup Header.WS.secWebsocketKey,
      request.headers.lookup Header.WS.secWebsocketVersion with
    | some key, some version =>
        if key.isEmpty then .ok false
        else (stoi version).map (fun number => decide (13 ≤ number))
    | _, _ => .ok false

/-- The request and, when there is no `Host` header, the exception that leaves
its URI as it was. -/
def assembleUri (request : HTTPRequest env) (uriPathFragment : Bytes) :
    HTTPRequest env × Except StdException Unit :=
  let scheme :=
    if request.isWSUpgrade then (if request.isHttp then URI.wsProto else URI.wssProto)
    else (if request.isHttp then URI.httpProto else URI.httpsProto)
  match request.headers.lookup (env.utflower Header.host) with
  | none => (request, .error .outOfRange)
  | some host =>
      ({ request with
          uri := env.makeUri (scheme ++ URI.protoUrlPostfix ++ host ++ uriPathFragment) }, .ok ())

end HTTPRequest

end Webserver.HTTP
