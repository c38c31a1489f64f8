import Webserver.HTTP.Acceptance
import Webserver.HTTP.Chunking

/-! # The delivered request

What `fill_request` makes of a collected message. The headers are inserted under
their lower-case names and the first of each name stays; the `Cookie` header is
taken out and parsed; the body is delivered with the length that framed it.
-/

namespace Webserver.HTTP.Grammar

open Foundation Schema HTTPParser Incremental

variable {env : Externals}

/-- The value of the first header with a name, in any case; the key is lower-case. -/
def firstNamed (headers : List HTTPHeader) (key : Bytes) : Option Bytes :=
  (headers.find? (fun header => decide (header.1.map lower = key))).map Prod.snd

theorem firstNamed_isSome {headers : List HTTPHeader} {key : Bytes} :
    (firstNamed headers key).isSome ↔ ∃ header ∈ headers, header.1.map lower = key := by
  simp [firstNamed]

/-- The cookies a message carries: those of its first `Cookie` header. -/
def sentCookies (headers : List HTTPHeader) : List Cookie :=
  match firstNamed headers Header.cookie with
  | none => []
  | some cookies => Cookie.fromString cookies

/-! ## The parts of `fill_request` -/

section Fill

variable (parser : HTTPParser) (request : HTTPRequest env)

/-- `assemble_uri` writes nothing but the URI. -/
theorem assembleUri_frame (fragment : Bytes) :
    (request.assembleUri fragment).1.headers = request.headers ∧
      (request.assembleUri fragment).1.cookies = request.cookies ∧
      (request.assembleUri fragment).1.content = request.content ∧
      (request.assembleUri fragment).1.method = request.method ∧
      (request.assembleUri fragment).1.httpVersionMajor = request.httpVersionMajor ∧
      (request.assembleUri fragment).1.httpVersionMinor = request.httpVersionMinor := by
  unfold HTTPRequest.assembleUri
  cases request.headers.lookup (env.utflower Header.host) with
  | none => exact ⟨rfl, rfl, rfl, rfl, rfl, rfl⟩
  | some host => exact ⟨rfl, rfl, rfl, rfl, rfl, rfl⟩

theorem assembleUri_ok_iff (fragment : Bytes) :
    (request.assembleUri fragment).2 = .ok () ↔
      (request.headers.lookup (env.utflower Header.host)).isSome := by
  unfold HTTPRequest.assembleUri
  cases request.headers.lookup (env.utflower Header.host) with
  | none => simp
  | some host => simp

/-- The delivered headers: those collected, without the cookies. -/
def deliveredHeaders (env : Externals) (parser : HTTPParser) : UnorderedMap Bytes Bytes :=
  (insertHeaders env parser.data.headers).erase Header.cookie

/-- The request that `assemble_uri` is called on. -/
def beforeUri (parser : HTTPParser) (request : HTTPRequest env) : HTTPRequest env :=
  { request with
    headers := deliveredHeaders env parser
    method := parser.data.method
    httpVersionMajor := parser.data.httpVersionMajor
    httpVersionMinor := parser.data.httpVersionMinor
    cookies :=
      match (insertHeaders env parser.data.headers).lookup Header.cookie with
      | none => request.cookies
      | some cookies => insertCookies request.cookies (Cookie.fromString cookies)
    content :=
      if ((deliveredHeaders env parser).lookup (env.utflower Header.contentLength)).isSome ∧
          parser.data.content.length = toSizeT parser.data.contentLength then
        parser.data.content
      else request.content }

/-- Erasing the cookie header and skipping the erasure leave the same headers. -/
theorem fillRequest_eq :
    parser.fillRequest request = (beforeUri parser request).assembleUri parser.data.uri := by
  simp only [fillRequest, beforeUri, deliveredHeaders]
  cases found : (insertHeaders env parser.data.headers).lookup Header.cookie with
  | none =>
      simp only [UnorderedMap.erase_of_lookup_eq_none found]
      split_ifs <;> rfl
  | some cookies =>
      dsimp only
      split_ifs with framed
      · simp [framed]
      · simp [framed]

end Fill

/-! ## The maps of the request -/

/-- On the headers of a head, insertion under lower-case names keeps the first. -/
theorem CaseFolding.insertHeaders_lookup (folding : CaseFolding env) (head : Head) (key : Bytes) :
    (insertHeaders env head.headers).lookup key = firstNamed head.headers key := by
  unfold insertHeaders firstNamed
  rw [UnorderedMap.lookup_foldl_emplace, AList.lookup_empty, Option.none_or]
  have same : (fun header : HTTPHeader => decide (env.utflower header.1 = key)) ∘
        HeaderField.header =
      (fun header : HTTPHeader => decide (header.1.map lower = key)) ∘ HeaderField.header := by
    funext field
    have folded := folding.utflower_token _ field.name.members
    exact congrArg (fun name => decide (name = key)) folded
  rw [Head.headers, List.find?_map, List.find?_map, same]

theorem CaseFolding.deliveredHeaders_lookup (folding : CaseFolding env) {head : Head}
    {parser : HTTPParser} (collected : parser.data.headers = head.headers) {key : Bytes}
    (other : key ≠ Header.cookie) :
    (deliveredHeaders env parser).lookup key = firstNamed head.headers key := by
  rw [deliveredHeaders, AList.lookup_erase_ne other, collected, folding.insertHeaders_lookup]

/-- Insertion under the names of cookies keeps the first of each name. -/
theorem insertCookies_lookup (cookies : List Cookie) (name : Bytes) :
    (insertCookies ∅ cookies).lookup name =
      cookies.find? (fun cookie => decide (cookie.name = name)) := by
  unfold insertCookies
  rw [UnorderedMap.lookup_foldl_emplace, AList.lookup_empty, Option.none_or, Option.map_id']

theorem CaseFolding.utflower_host (folding : CaseFolding env) :
    env.utflower Header.host = ascii "host" := by
  have literal : ∀ input ∈ Header.host, TokenByte input := by decide +kernel
  rw [folding.utflower_token _ literal]
  decide +kernel

theorem CaseFolding.utflower_contentLength (folding : CaseFolding env) :
    env.utflower Header.contentLength = ascii "content-length" := by
  have literal : ∀ input ∈ Header.contentLength, TokenByte input := by decide +kernel
  rw [folding.utflower_token _ literal]
  decide +kernel

/-- On a collected head, `fill_request` fails only for want of a `Host`. -/
theorem CaseFolding.fillRequest_ok_iff (folding : CaseFolding env) {head : Head}
    {parser : HTTPParser} (collected : parser.data.headers = head.headers)
    (request : HTTPRequest env) :
    (parser.fillRequest request).2 = .ok () ↔
      ∃ header ∈ parser.data.headers, header.1.map lower = ascii "host" := by
  have other : ascii "host" ≠ Header.cookie := by decide +kernel
  have delivered : (beforeUri parser request).headers.lookup (ascii "host") =
      firstNamed head.headers (ascii "host") := folding.deliveredHeaders_lookup collected other
  rw [fillRequest_eq, assembleUri_ok_iff, folding.utflower_host, delivered, firstNamed_isSome,
    collected]

/-! ## The delivered request -/

/-- A request says what a message with this head and body says. -/
structure Delivers (head : Head) (body : Bytes) (request : HTTPRequest env) : Prop where
  method : request.method = head.line.method.bytes
  version : request.httpVersionMajor = toInt32 (decimal head.line.major.bytes) ∧
    request.httpVersionMinor = toInt32 (decimal head.line.minor.bytes)
  headers : ∀ key, key ≠ Header.cookie →
    request.headers.lookup key = firstNamed head.headers key
  noCookie : request.headers.lookup Header.cookie = none
  cookies : ∀ name, request.cookies.lookup name =
    (sentCookies head.headers).find? (fun cookie => decide (cookie.name = name))
  content : request.content = body
  framed : ∀ value, request.headers.lookup (ascii "content-length") = some value →
    ∃ length, stoi value = .ok length ∧ body.length = toSizeT length

/-- The value the delivered `content-length` holds is the one the loop over the
headers converted. -/
theorem CaseFolding.firstContentLength_eq (folding : CaseFolding env) (head : Head) :
    firstContentLength env head.headers = firstNamed head.headers (ascii "content-length") := by
  have same : (fun header => decide (env.lexcmpi header.1 Header.contentLength = 0)) ∘
        HeaderField.header =
      (fun header => decide (header.1.map lower = ascii "content-length")) ∘
        HeaderField.header := by
    have folded : Header.contentLength.map lower = ascii "content-length" := by decide +kernel
    funext field
    rw [← folded]
    exact decide_eq_decide.mpr (folding.lexcmpi_contentLength field.name.members)
  rw [firstContentLength, firstNamed, Head.headers, List.find?_map, List.find?_map, same]

/-- Without a `Content-Length` the body is empty; otherwise its value framed it. -/
theorem CaseFolding.body_cases (folding : CaseFolding env) {head : Head} {body : Bytes}
    {length : Int} (declared : findContentLength env 0 head.headers = .ok length)
    (full : body.length = toSizeT length) :
    (firstNamed head.headers (ascii "content-length") = none ∧ body = []) ∨
      ∃ value, firstNamed head.headers (ascii "content-length") = some value ∧
        stoi value = .ok length := by
  rw [Grammar.findContentLength_eq, folding.firstContentLength_eq] at declared
  cases found : firstNamed head.headers (ascii "content-length") with
  | none =>
      rw [found] at declared
      cases declared
      exact Or.inl ⟨rfl, List.eq_nil_of_length_eq_zero full⟩
  | some value =>
      rw [found] at declared
      exact Or.inr ⟨value, rfl, declared⟩

/-- What is filled in from a collected message. -/
theorem CaseFolding.beforeUri_delivers (folding : CaseFolding env) {head : Head} {body : Bytes}
    {length : Int} (declared : findContentLength env 0 head.headers = .ok length)
    (full : body.length = toSizeT length) (isHttp : Bool) (origin : env.IPAddress) :
    Delivers head body (beforeUri
      ⟨{ head.data with content := body, contentLength := length }, .body⟩
      (requestOf isHttp origin)) := by
  have other : ascii "content-length" ≠ Header.cookie := by decide +kernel
  have headers : ∀ key, key ≠ Header.cookie → (deliveredHeaders env
      ⟨{ head.data with content := body, contentLength := length }, .body⟩).lookup key =
        firstNamed head.headers key :=
    fun key differs => folding.deliveredHeaders_lookup rfl differs
  refine ⟨rfl, ⟨rfl, rfl⟩, headers, AList.lookup_erase _ _, ?_, ?_, ?_⟩
  · intro name
    have cookies := folding.insertHeaders_lookup head Header.cookie
    change AList.lookup name (match (insertHeaders env head.headers).lookup Header.cookie with
      | none => ∅
      | some cookies => insertCookies ∅ (Cookie.fromString cookies)) = _
    rw [cookies, sentCookies]
    cases firstNamed head.headers Header.cookie with
    | none => rfl
    | some cookies => exact insertCookies_lookup _ name
  · change (if ((deliveredHeaders env _).lookup (env.utflower Header.contentLength)).isSome ∧
      body.length = toSizeT length then body else []) = body
    rw [folding.utflower_contentLength, headers _ other]
    rcases folding.body_cases declared full with ⟨absent, rfl⟩ | ⟨value, found, -⟩
    · rw [ite_self]
    · rw [found, if_pos ⟨rfl, full⟩]
  · intro value present
    have sent := (headers _ other).symm.trans present
    rcases folding.body_cases declared full with ⟨absent, -⟩ | ⟨framing, found, converted⟩
    · rw [absent] at sent
      cases sent
    · rw [found] at sent
      cases sent
      exact ⟨length, converted, full⟩

/-- `assemble_uri` keeps what the request says of the message. -/
theorem Delivers.assembleUri {head : Head} {body : Bytes} {request : HTTPRequest env}
    (delivers : Delivers head body request) (fragment : Bytes) :
    Delivers head body (request.assembleUri fragment).1 := by
  obtain ⟨headers, cookies, content, method, major, minor⟩ := assembleUri_frame request fragment
  constructor
  · rw [method]
    exact delivers.method
  · rw [major, minor]
    exact delivers.version
  · rw [headers]
    exact delivers.headers
  · rw [headers]
    exact delivers.noCookie
  · rw [cookies]
    exact delivers.cookies
  · rw [content]
    exact delivers.content
  · rw [headers]
    exact delivers.framed

section Accepted

variable {received buffer rest : Bytes} {parser after : HTTPParser}
  (running : parseImpl env {} received = .more parser)
  (accepted : parseImpl env parser buffer = .done .good after rest)

include running accepted

/-- A call on an accepted message is good when the message has a `Host`. -/
theorem CaseFolding.parse_good_iff (folding : CaseFolding env) (request : HTTPRequest env) :
    (parser.parse request buffer).result = .ok .good ↔
      ∃ header ∈ after.data.headers, header.1.map lower = ascii "host" := by
  obtain ⟨head, body, length, -, -, -, rfl⟩ :=
    run_good_iff.mp ((run_append_of_more buffer running).trans accepted)
  have filled := parse_of_done request accepted
  rw [conclude_good] at filled
  rw [filled]
  refine Iff.trans ?_ (@CaseFolding.fillRequest_ok_iff env folding head _ rfl request)
  dsimp only
  split
  · next fine => exact iff_of_true rfl fine
  · next missing => exact iff_of_false (by simp) missing

/-- The request of such a call says what the message says. -/
theorem CaseFolding.request_delivers (folding : CaseFolding env) (isHttp : Bool)
    (origin : env.IPAddress) :
    ∃ head body, received ++ buffer = head.bytes ++ (body ++ rest) ∧
      after.data.headers = head.headers ∧
      Delivers head body (parser.parse (requestOf isHttp origin) buffer).request := by
  obtain ⟨head, body, length, declared, full, split, rfl⟩ :=
    run_good_iff.mp ((run_append_of_more buffer running).trans accepted)
  have filled := parse_of_done (requestOf isHttp origin) accepted
  rw [conclude_good, fillRequest_eq] at filled
  refine ⟨head, body, split, rfl, ?_⟩
  rw [filled]
  exact (folding.beforeUri_delivers declared full isHttp origin).assembleUri head.data.uri

end Accepted

/-- **The delivered request.** When the automaton accepts a message whose first
bytes earlier calls have received, `Parse` returns `good` if the message has a
`Host` header and `bad` otherwise, and what it delivers with `good` is what the
head and the body of the message say. -/
theorem parse_delivers (folding : CaseFolding env) (isHttp : Bool) (origin : env.IPAddress)
    {received buffer rest : Bytes} {parser after : HTTPParser}
    (running : parseImpl env {} received = .more parser)
    (accepted : parseImpl env parser buffer = .done .good after rest) :
    let exit := parser.parse (requestOf isHttp origin) buffer
    ∃ head body, received ++ buffer = head.bytes ++ (body ++ rest) ∧
      after.data.headers = head.headers ∧
      (exit.result = .ok .good ∨ exit.result = .ok .bad) ∧
      (exit.result = .ok .good ↔ ∃ header ∈ head.headers, header.1.map lower = ascii "host") ∧
      (exit.result = .ok .good → Delivers head body exit.request) := by
  intro exit
  obtain ⟨head, body, split, collected, delivers⟩ :=
    folding.request_delivers running accepted isHttp origin
  have hosted := folding.parse_good_iff running accepted (requestOf isHttp origin)
  rw [collected] at hosted
  refine ⟨head, body, split, collected, ?_, hosted, fun _ => delivers⟩
  rw [show exit = _ from parse_of_done (requestOf isHttp origin) accepted, conclude_good]
  dsimp only
  split
  · exact Or.inl rfl
  · exact Or.inr rfl

/-- Repeated headers and cookies, and a body, received in two calls. -/
theorem parse_delivers_post :
    let received := ascii "POST /p HTTP/1.1\r\nHost: a\r\nCookie: n=1; n=2\r\n"
    let buffer := ascii "content-length: 2\r\nContent-Length: 7\r\n\r\nhi"
    let headers := [(ascii "Host", ascii "a"), (ascii "Cookie", ascii "n=1; n=2"),
      (ascii "content-length", ascii "2"), (ascii "Content-Length", ascii "7")]
    ∃ parser, parseImpl .sample {} received = .more parser ∧
      let exit : ParseExit .sample := parser.parse (requestOf true []) buffer
      ∃ head body, received ++ buffer = head.bytes ++ (body ++ []) ∧ headers = head.headers ∧
        (exit.result = .ok .good ∨ exit.result = .ok .bad) ∧
        (exit.result = .ok .good ↔ ∃ header ∈ head.headers, header.1.map lower = ascii "host") ∧
        (exit.result = .ok .good → Delivers head body exit.request) := by
  intro received buffer headers
  let parser : HTTPParser := ⟨{
    headers := [(ascii "Host", ascii "a"), (ascii "Cookie", ascii "n=1; n=2")]
    method := ascii "POST", uri := ascii "/p", httpVersionMajor := 1, httpVersionMinor := 1 },
    .headerLineStart⟩
  have running : parseImpl .sample {} received = .more parser := by decide +kernel
  have accepted : parseImpl .sample parser buffer = .done .good
      ⟨{ headers, method := ascii "POST", uri := ascii "/p", content := ascii "hi",
          httpVersionMajor := 1, httpVersionMinor := 1, contentLength := 2 }, .body⟩ [] := by
    decide +kernel
  exact ⟨parser, running, parse_delivers caseFolding_sample true [] running accepted⟩

end Webserver.HTTP.Grammar
