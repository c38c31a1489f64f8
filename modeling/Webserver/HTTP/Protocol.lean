import Webserver.Foundation.Bytes

/-! # Constants of the HTTP protocol

The byte strings, header names, status codes, status lines and stock replies of
the `Schema` namespace, and the states of the request automaton.
-/

namespace Webserver

open Foundation

namespace HTTP.Schema

namespace Header

def cookie : Bytes := ascii "cookie"
def setCookie : Bytes := ascii "set-cookie"
def contentLength : Bytes := ascii "Content-Length"
def host : Bytes := ascii "Host"

namespace WS

def upgrade : Bytes := ascii "upgrade"
def connection : Bytes := ascii "connection"
def secWebsocketKey : Bytes := ascii "sec-websocket-key"
def secWebsocketVersion : Bytes := ascii "sec-websocket-version"

namespace Value

def websocket : Bytes := ascii "websocket"
def upgrade : Bytes := ascii "Upgrade"
def keepAliveUpgrade : Bytes := ascii "keep-alive, Upgrade"

end Value

end WS

end Header

namespace URI

def httpProto : Bytes := ascii "http"
def httpsProto : Bytes := ascii "https"
def wsProto : Bytes := ascii "ws"
def wssProto : Bytes := ascii "wss"
def protoUrlPostfix : Bytes := ascii "://"

end URI

inductive StatusCode where
  | undefined
  | websocketHandshake
  | ok
  | created
  | accepted
  | noContent
  | multipleChoices
  | movedPermanently
  | movedTemporarily
  | notModified
  | badRequest
  | unauthorized
  | forbidden
  | notFound
  | internalServerError
  | notImplemented
  | badGateway
  | serviceUnavailable
  deriving DecidableEq, Repr

/-- The values of the enumeration. -/
def StatusCode.number : StatusCode → Nat
  | .undefined => 0
  | .websocketHandshake => 101
  | .ok => 200
  | .created => 201
  | .accepted => 202
  | .noContent => 204
  | .multipleChoices => 300
  | .movedPermanently => 301
  | .movedTemporarily => 302
  | .notModified => 304
  | .badRequest => 400
  | .unauthorized => 401
  | .forbidden => 403
  | .notFound => 404
  | .internalServerError => 500
  | .notImplemented => 501
  | .badGateway => 502
  | .serviceUnavailable => 503

/-- The states of the request automaton. -/
inductive ParserState where
  | methodStart
  | method
  | uri
  | httpVersionH
  | httpVersionT1
  | httpVersionT2
  | httpVersionP
  | httpVersionSlash
  | httpVersionMajorStart
  | httpVersionMajor
  | httpVersionMinorStart
  | httpVersionMinor
  | expectingNewline1
  | headerLineStart
  | headerLws
  | headerName
  | spaceBeforeHeaderValue
  | headerValue
  | expectingNewline2
  | expectingNewline3
  | body
  deriving DecidableEq, Repr

namespace StatusString

def websocketHandshake : Bytes := ascii "HTTP/1.1 101 Switching Protocols\r\n"
def ok : Bytes := ascii "HTTP/1.0 200 OK\r\n"
def created : Bytes := ascii "HTTP/1.0 201 Created\r\n"
def accepted : Bytes := ascii "HTTP/1.0 202 Accepted\r\n"
def noContent : Bytes := ascii "HTTP/1.0 204 No Content\r\n"
def multipleChoices : Bytes := ascii "HTTP/1.0 300 Multiple Choices\r\n"
def movedPermanently : Bytes := ascii "HTTP/1.0 301 Moved Permanently\r\n"
def movedTemporarily : Bytes := ascii "HTTP/1.0 302 Moved Temporarily\r\n"
def notModified : Bytes := ascii "HTTP/1.0 304 Not Modified\r\n"
def badRequest : Bytes := ascii "HTTP/1.0 400 Bad Request\r\n"
def unauthorized : Bytes := ascii "HTTP/1.0 401 Unauthorized\r\n"
def forbidden : Bytes := ascii "HTTP/1.0 403 Forbidden\r\n"
def notFound : Bytes := ascii "HTTP/1.0 404 Not Found\r\n"
def internalServerError : Bytes := ascii "HTTP/1.0 500 Internal Server Error\r\n"
def notImplemented : Bytes := ascii "HTTP/1.0 501 Not Implemented\r\n"
def badGateway : Bytes := ascii "HTTP/1.0 502 Bad Gateway\r\n"
def serviceUnavailable : Bytes := ascii "HTTP/1.0 503 Service Unavailable\r\n"

end StatusString

namespace Magic

def nameValueSeparator : Bytes := [byte ':', SP]
def crlf : Bytes := CRLF
def wsToken : Bytes := ascii "258EAFA5-E914-47DA-95CA-C5AB0DC85B11"

end Magic

namespace StockReply

/-- The stock pages other than the empty one share their markup. -/
private def page (title heading : String) : Bytes :=
  ascii "<html><head><title>" ++ ascii title ++ ascii "</title></head><body><h1>" ++
    ascii heading ++ ascii "</h1></body></html>"

def ok : Bytes := ascii ""
def created : Bytes := page "Created" "201 Created"
def accepted : Bytes := page "Accepted" "202 Accepted"
def noContent : Bytes := page "No Content" "204 Content"
def multipleChoices : Bytes := page "Multiple Choices" "300 Multiple Choices"
def movedPermanently : Bytes := page "Moved Permanently" "301 Moved Permanently"
def movedTemporarily : Bytes := page "Moved Temporarily" "302 Moved Temporarily"
def notModified : Bytes := page "Not Modified" "304 Not Modified"
def badRequest : Bytes := page "Bad Request" "400 Bad Request"
def unauthorized : Bytes := page "Unauthorized" "401 Unauthorized"
def forbidden : Bytes := page "Forbidden" "403 Forbidden"
def notFound : Bytes := page "Not Found" "404 Not Found"
def internalServerError : Bytes := page "Internal Server Error" "500 Internal Server Error"
def notImplemented : Bytes := page "Not Implemented" "501 Not Implemented"
def badGateway : Bytes := page "Bad Gateway" "502 Bad Gateway"
def serviceUnavailable : Bytes := page "Service Unavailable" "503 Service Unavailable"

end StockReply

end HTTP.Schema

end Webserver
