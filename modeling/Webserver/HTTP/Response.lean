import Webserver.Foundation.UnorderedMap
import Webserver.HTTP.Cookie
import Webserver.HTTP.Protocol

/-! # Responses

The response record, its serialisation and the stock replies.
-/

namespace Webserver.HTTP

open Foundation Schema

structure HTTPResponse where
  status : StatusCode := .undefined
  headers : UnorderedMap Bytes Bytes := ∅
  content : Bytes := []
  deriving DecidableEq

namespace HTTPResponse

/-- Insertion into the header map, which leaves a present entry alone. -/
def setCookie (formatDateTime : ℚ → Bytes) (response : HTTPResponse) (cookie : Cookie) :
    HTTPResponse :=
  { response with
    headers := UnorderedMap.emplace response.headers Header.setCookie
      (cookie.toString formatDateTime) }

def statusStrToBuffer : StatusCode → Bytes
  | .websocketHandshake => StatusString.websocketHandshake
  | .ok => StatusString.ok
  | .created => StatusString.created
  | .accepted => StatusString.accepted
  | .noContent => StatusString.noContent
  | .multipleChoices => StatusString.multipleChoices
  | .movedPermanently => StatusString.movedPermanently
  | .movedTemporarily => StatusString.movedTemporarily
  | .notModified => StatusString.notModified
  | .badRequest => StatusString.badRequest
  | .unauthorized => StatusString.unauthorized
  | .forbidden => StatusString.forbidden
  | .notFound => StatusString.notFound
  | .internalServerError => StatusString.internalServerError
  | .notImplemented => StatusString.notImplemented
  | .badGateway => StatusString.badGateway
  | .serviceUnavailable => StatusString.serviceUnavailable
  | .undefined => StatusString.internalServerError

/-- The gathered buffers, in the iteration order of the header map, which is that of its
entries here and may be any other. -/
def toBuffers (response : HTTPResponse) : List Bytes :=
  [statusStrToBuffer response.status] ++
    response.headers.entries.flatMap (fun header =>
      [header.1, Magic.nameValueSeparator, header.2, Magic.crlf]) ++
    [Magic.crlf, response.content]

/-- The bytes a response is sent as. -/
def stream (response : HTTPResponse) : Bytes := response.toBuffers.flatten

def stockReplyStr : StatusCode → Bytes
  | .ok => StockReply.ok
  | .created => StockReply.created
  | .accepted => StockReply.accepted
  | .noContent => StockReply.noContent
  | .multipleChoices => StockReply.multipleChoices
  | .movedPermanently => StockReply.movedPermanently
  | .movedTemporarily => StockReply.movedTemporarily
  | .notModified => StockReply.notModified
  | .badRequest => StockReply.badRequest
  | .unauthorized => StockReply.unauthorized
  | .forbidden => StockReply.forbidden
  | .notFound => StockReply.notFound
  | .internalServerError => StockReply.internalServerError
  | .notImplemented => StockReply.notImplemented
  | .badGateway => StockReply.badGateway
  | .serviceUnavailable => StockReply.serviceUnavailable
  | .undefined | .websocketHandshake => StockReply.internalServerError

/-- `std::to_string` of a length. -/
def toDecimal (length : Nat) : Bytes := (Nat.toDigits 10 length).map byte

def stockReply (status : StatusCode) : HTTPResponse :=
  let content := stockReplyStr status
  let headers := UnorderedMap.assign ∅ (ascii "Content-Length") (toDecimal content.length)
  { status, content,
    headers := UnorderedMap.assign headers (ascii "Content-Type") (ascii "text/html") }

end HTTPResponse

end Webserver.HTTP
