import Webserver.Foundation.Incremental
import Webserver.HTTP.Request

/-! # The request parser

The automaton that reads a request byte by byte, the construction of the request
from what it collected, and one call of `Parse`. The automaton keeps its state
between calls, so a message may arrive in pieces.
-/

namespace Webserver.HTTP

open Foundation Schema

abbrev HTTPHeader := Bytes × Bytes

variable {env : Externals}

namespace HTTPParser

def isChar (c : Int) : Bool := decide (0 ≤ c ∧ c ≤ 127)

def isCtl (c : Int) : Bool := decide ((0 ≤ c ∧ c ≤ 31) ∨ c = 127)

/-- The characters `( ) < > @ , ; : \ " / [ ] ? =`, the braces, space and tab. -/
def tspecials : List Int :=
  [40, 41, 60, 62, 64, 44, 59, 58, 92, 34, 47, 91, 93, 63, 61, 123, 125, 32, 9]

def isTspecial (c : Int) : Bool := decide (c ∈ tspecials)

def isDigit (c : Int) : Bool := decide (48 ≤ c ∧ c ≤ 57)

/-- `struct HTTPParser::Data`. -/
structure Data where
  headers : List HTTPHeader := []
  method : Bytes := []
  uri : Bytes := []
  content : Bytes := []
  httpVersionMajor : Int := 0
  httpVersionMinor : Int := 0
  contentLength : Int := 0
  deriving DecidableEq

inductive Result where
  | good
  | bad
  | indeterminate
  deriving DecidableEq, Repr

end HTTPParser

open HTTPParser in
structure HTTPParser where
  data : Data := {}
  state : ParserState := .methodStart
  deriving DecidableEq

namespace HTTPParser

/-- A change to `headers.back()`. -/
def onBack (change : HTTPHeader → HTTPHeader) : List HTTPHeader → List HTTPHeader
  | [] => []
  | [last] => [change last]
  | first :: second :: rest => first :: onBack change (second :: rest)

@[simp] theorem onBack_concat (change : HTTPHeader → HTTPHeader) (front : List HTTPHeader)
    (last : HTTPHeader) : onBack change (front ++ [last]) = front ++ [change last] := by
  induction front with
  | nil => rfl
  | cons first front ih =>
      cases front with
      | nil => rfl
      | cons second front =>
          change first :: onBack change ((second :: front) ++ [last]) = _
          rw [ih]
          rfl

def reset (_ : HTTPParser) : HTTPParser := {}

/-- The loop over the headers at the end of the head: the value of the first
one named `Content-Length`, or the present length when there is none. -/
def findContentLength (env : Externals) (present : Int) :
    List HTTPHeader → Except StdException Int
  | [] => .ok present
  | header :: headers =>
      if env.lexcmpi header.1 Header.contentLength = 0 then stoi header.2
      else findContentLength env present headers

/-- How `parse_impl` ends when it does not run out of input. -/
inductive Verdict where
  | good
  | bad
  | thrown (exception : StdException)
  deriving DecidableEq, Repr

/-- One round of the loop of `parse_impl`: the branch of the current state. -/
def parseStep (env : Externals) (parser : HTTPParser) (input : UInt8) : Turn HTTPParser Verdict :=
  let data := parser.data
  let c := promote input
  let bad : Turn HTTPParser Verdict := .done .bad parser
  let goto (state : ParserState) : Turn HTTPParser Verdict := .more { parser with state }
  let expect (character : Char) (state : ParserState) : Turn HTTPParser Verdict :=
    if input = byte character then goto state else bad
  match parser.state with
  | .methodStart =>
      if !isChar c || isCtl c || isTspecial c then bad
      else .more ⟨{ data with method := data.method ++ [input] }, .method⟩
  | .method =>
      if input = SP then goto .uri
      else if !isChar c || isCtl c || isTspecial c then bad
      else .more { parser with data := { data with method := data.method ++ [input] } }
  | .uri =>
      if input = SP then goto .httpVersionH
      else if isCtl c then bad
      else .more { parser with data := { data with uri := data.uri ++ [input] } }
  | .httpVersionH => expect 'H' .httpVersionT1
  | .httpVersionT1 => expect 'T' .httpVersionT2
  | .httpVersionT2 => expect 'T' .httpVersionP
  | .httpVersionP => expect 'P' .httpVersionSlash
  | .httpVersionSlash => expect '/' .httpVersionMajorStart
  | .httpVersionMajorStart =>
      if isDigit c then
        .more ⟨{ data with httpVersionMajor := toInt32 (data.httpVersionMajor * 10 + (c - 48)) },
          .httpVersionMajor⟩
      else bad
  | .httpVersionMajor =>
      if input = byte '.' then goto .httpVersionMinorStart
      else if isDigit c then
        .more { parser with
          data := { data with
            httpVersionMajor := toInt32 (data.httpVersionMajor * 10 + (c - 48)) } }
      else bad
  | .httpVersionMinorStart =>
      if isDigit c then
        .more ⟨{ data with httpVersionMinor := toInt32 (data.httpVersionMinor * 10 + (c - 48)) },
          .httpVersionMinor⟩
      else bad
  | .httpVersionMinor =>
      if input = CR then goto .expectingNewline1
      else if isDigit c then
        .more { parser with
          data := { data with
            httpVersionMinor := toInt32 (data.httpVersionMinor * 10 + (c - 48)) } }
      else bad
  | .expectingNewline1 => if input = LF then goto .headerLineStart else bad
  | .headerLineStart =>
      if input = CR then goto .expectingNewline3
      else if !data.headers.isEmpty && (input = SP || input = HT) then goto .headerLws
      else if !isChar c || isCtl c || isTspecial c then bad
      else .more ⟨{ data with headers := data.headers ++ [([input], [])] }, .headerName⟩
  | .headerLws =>
      if input = CR then goto .expectingNewline2
      else if input = SP || input = HT then .more parser
      else if isCtl c then bad
      else
        .more ⟨{ data with
          headers := onBack (fun last => (last.1, last.2 ++ [input])) data.headers }, .headerValue⟩
  | .headerName =>
      if input = byte ':' then goto .spaceBeforeHeaderValue
      else if !isChar c || isCtl c || isTspecial c then bad
      else
        .more { parser with
          data := { data with
            headers := onBack (fun last => (last.1 ++ [input], last.2)) data.headers } }
  | .spaceBeforeHeaderValue => if input = SP then goto .headerValue else bad
  | .headerValue =>
      if input = CR then goto .expectingNewline2
      else if isCtl c then bad
      else
        .more { parser with
          data := { data with
            headers := onBack (fun last => (last.1, last.2 ++ [input])) data.headers } }
  | .expectingNewline2 => if input = LF then goto .headerLineStart else bad
  | .expectingNewline3 =>
      if input = LF then
        -- the state is assigned before the conversion that may throw
        match findContentLength env data.contentLength data.headers with
        | .error exception => .done (.thrown exception) ⟨data, .body⟩
        | .ok length =>
            let received : HTTPParser := ⟨{ data with contentLength := length }, .body⟩
            if length = 0 then .done .good received else .more received
      else bad
  | .body =>
      let content := data.content ++ [input]
      let received : HTTPParser := { parser with data := { data with content } }
      -- `size()` is unsigned, so the length is converted before the comparison
      if content.length = toSizeT data.contentLength then .done .good received
      else .more received

/-- `parse_impl` over the bytes of a buffer; the loop ending without a verdict
is `indeterminate`. -/
def parseImpl (env : Externals) (parser : HTTPParser) (buffer : Bytes) :
    Progress HTTPParser Verdict UInt8 :=
  run (parseStep env) parser buffer

/-- The loop that inserts the collected headers under their lower-case names. -/
def insertHeaders (env : Externals) (headers : List HTTPHeader) : UnorderedMap Bytes Bytes :=
  headers.foldl (fun inserted header =>
    UnorderedMap.emplace inserted (env.utflower header.1) header.2) ∅

/-- The loop that inserts the parsed cookies under their names. -/
def insertCookies (present : UnorderedMap Bytes Cookie) (parsed : List Cookie) :
    UnorderedMap Bytes Cookie :=
  parsed.foldl (fun inserted cookie => UnorderedMap.emplace inserted cookie.name cookie) present

/-- `fill_request`, with the exception that may end it. -/
def fillRequest (parser : HTTPParser) (request : HTTPRequest env) :
    HTTPRequest env × Except StdException Unit :=
  let data := parser.data
  let request := { request with
    headers := insertHeaders env data.headers
    method := data.method
    httpVersionMajor := data.httpVersionMajor
    httpVersionMinor := data.httpVersionMinor }
  let request :=
    match request.headers.lookup Header.cookie with
    | none => request
    | some cookies =>
        { request with
          cookies := insertCookies request.cookies (Cookie.fromString cookies)
          headers := request.headers.erase Header.cookie }
  let request :=
    if (request.headers.lookup (env.utflower Header.contentLength)).isSome ∧
        data.content.length = toSizeT data.contentLength then
      { request with content := data.content }
    else request
  request.assembleUri data.uri

/-- What a call of `Parse` leaves: its result or the exception that escapes,
the request, the parser and the bytes of the buffer. -/
structure ParseExit (env : Externals) where
  result : Except StdException Result
  request : HTTPRequest env
  parser : HTTPParser
  buffer : Bytes

/-- `Parse` after a verdict of the automaton. An exception of `parse_impl` leaves
before the parser is reset and the buffer cleared; a missing `Host` turns `good`
into `bad`. -/
def conclude (request : HTTPRequest env) (buffer : Bytes) (after : HTTPParser) :
    Verdict → ParseExit env
  | .good =>
      match after.fillRequest request with
      | (filled, .ok ()) => ⟨.ok .good, filled, after.reset, env.zeroout buffer⟩
      | (filled, .error .outOfRange) => ⟨.ok .bad, filled, after.reset, env.zeroout buffer⟩
      | (filled, .error exception) => ⟨.error exception, filled, after, buffer⟩
  | .bad => ⟨.ok .bad, request, after.reset, env.zeroout buffer⟩
  | .thrown exception => ⟨.error exception, request, after, buffer⟩

def parse (parser : HTTPParser) (request : HTTPRequest env) (buffer : Bytes) : ParseExit env :=
  match parseImpl env parser buffer with
  | .more after => ⟨.ok .indeterminate, request, after, env.zeroout buffer⟩
  | .done verdict after _ => conclude request buffer after verdict

end HTTPParser

end Webserver.HTTP
