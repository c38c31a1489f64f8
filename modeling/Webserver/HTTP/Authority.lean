import Webserver.HTTP.Filling

/-! # The authority of the assembled URI

`assemble_uri` joins the scheme, the `Host` value and the request target, and the
target is whatever the automaton takes for one: any bytes but spaces and control
bytes. The authority of the joined text is the `Host` value exactly when the
target is empty or starts with a byte that ends an authority.
-/

namespace Webserver.HTTP

open Foundation Schema

variable {env : Externals}

namespace HTTPRequest

/-- The scheme `assemble_uri` chooses. -/
def uriScheme (request : HTTPRequest env) : Bytes :=
  if request.isWSUpgrade then (if request.isHttp then URI.wsProto else URI.wssProto)
  else (if request.isHttp then URI.httpProto else URI.httpsProto)

/-- The text `assemble_uri` builds. -/
def uriText (request : HTTPRequest env) (host uriPathFragment : Bytes) : Bytes :=
  request.uriScheme ++ URI.protoUrlPostfix ++ host ++ uriPathFragment

theorem assembleUri_of_host {request : HTTPRequest env} {host : Bytes}
    (found : request.headers.lookup (env.utflower Header.host) = some host)
    (uriPathFragment : Bytes) :
    request.assembleUri uriPathFragment =
      ({ request with uri := env.makeUri (request.uriText host uriPathFragment) }, .ok ()) := by
  simp only [assembleUri, found]
  rfl

/-- A scheme is one of four words without a colon. -/
theorem colon_not_mem_uriScheme (request : HTTPRequest env) : byte ':' ∉ request.uriScheme := by
  rw [uriScheme]
  split_ifs <;> decide

end HTTPRequest

namespace Grammar

open HTTPParser Incremental

/-! ## Generic URIs -/

/-- The bytes that end an authority. -/
def EndsAuthority (input : UInt8) : Prop := input = byte '/' ∨ input = byte '?' ∨ input = byte '#'

instance : DecidablePred EndsAuthority := fun _ => inferInstanceAs (Decidable (_ ∨ _ ∨ _))

/-- What follows the first `://` of a text. -/
def afterScheme : Bytes → Option Bytes
  | [] => none
  | input :: text =>
      if URI.protoUrlPostfix <+: input :: text then some (text.drop 2) else afterScheme text

/-- The authority of a URI: what stands between the first `://` and the next
slash, question mark or hash, or the end. -/
def authority (text : Bytes) : Option Bytes :=
  (afterScheme text).map (List.takeWhile (fun input => !decide (EndsAuthority input)))

theorem afterScheme_append {scheme : Bytes} (plain : byte ':' ∉ scheme) (text : Bytes) :
    afterScheme (scheme ++ URI.protoUrlPostfix ++ text) = some text := by
  induction scheme with
  | nil =>
      change (if URI.protoUrlPostfix <+: URI.protoUrlPostfix ++ text then _ else _) = _
      rw [if_pos (List.prefix_append _ _)]
      rfl
  | cons input scheme ih =>
      have later := ih (fun present => plain (List.mem_cons_of_mem input present))
      rw [List.cons_append, List.cons_append, afterScheme, if_neg, later]
      intro opens
      have colon : URI.protoUrlPostfix = byte ':' :: [byte '/', byte '/'] := by decide
      rw [colon, List.cons_prefix_cons] at opens
      exact plain (opens.1 ▸ List.mem_cons_self)

theorem authority_append {scheme : Bytes} (plain : byte ':' ∉ scheme) {host : Bytes}
    (inside : ∀ input ∈ host, ¬ EndsAuthority input) (target : Bytes) :
    authority (scheme ++ URI.protoUrlPostfix ++ host ++ target) =
      some (host ++ target.takeWhile (fun input => !decide (EndsAuthority input))) := by
  have all : ∀ input ∈ host, (!decide (EndsAuthority input)) = true := by
    intro input member
    simpa using inside input member
  rw [authority, List.append_assoc, afterScheme_append plain, Option.map_some,
    List.takeWhile_append_of_pos all]

/-- A target that leaves the authority alone. -/
def OpensPath (target : Bytes) : Prop := ∀ first ∈ target.head?, EndsAuthority first

theorem takeWhile_eq_nil_iff_opensPath (target : Bytes) :
    target.takeWhile (fun input => !decide (EndsAuthority input)) = [] ↔ OpensPath target := by
  cases target with
  | nil => simp [OpensPath]
  | cons first target => by_cases ends : EndsAuthority first <;> simp [OpensPath, ends]

/-! ## The URI of an accepted message -/

/-- The characters of a host and port: letters, digits, `-`, `.`, `:`, `[` and `]`. -/
def HostByte (input : UInt8) : Prop :=
  DigitByte input ∨ (65 ≤ input.toNat ∧ input.toNat ≤ 90) ∨ (97 ≤ input.toNat ∧ input.toNat ≤ 122) ∨
    input = byte '-' ∨ input = byte '.' ∨ input = byte ':' ∨ input = byte '[' ∨ input = byte ']'

theorem HostByte.inside {input : UInt8} (member : HostByte input) : ¬ EndsAuthority input := by
  intro ends
  rcases ends with rfl | rfl | rfl <;> revert member <;> simp only [HostByte] <;> decide

/-- An accepted message with a `Host` is delivered with the URI of the joined
text. -/
theorem uri_of_accepted (folding : CaseFolding env) (isHttp : Bool) (origin : env.IPAddress)
    {received buffer rest : Bytes} {parser after : HTTPParser}
    (running : parseImpl env {} received = .more parser)
    (accepted : parseImpl env parser buffer = .done .good after rest) {host : Bytes}
    (sent : firstNamed after.data.headers (ascii "host") = some host) :
    (parser.parse (requestOf isHttp origin) buffer).request.uri =
      env.makeUri ((beforeUri after (requestOf isHttp origin)).uriText host after.data.uri) := by
  have whole : run (parseStep env) {} (received ++ buffer) = .done .good after rest :=
    (run_append_of_more buffer running).trans accepted
  obtain ⟨head, body, length, declared, full, -, rfl⟩ := run_good_iff.mp whole
  have other : ascii "host" ≠ Header.cookie := by decide +kernel
  have found : (beforeUri ⟨{ head.data with content := body, contentLength := length }, .body⟩
      (requestOf isHttp origin)).headers.lookup (env.utflower Header.host) = some host := by
    rw [folding.utflower_host]
    exact (folding.deliveredHeaders_lookup rfl other).trans sent
  have filled := parse_of_done (requestOf isHttp origin) accepted
  rw [conclude_good, fillRequest_eq, HTTPRequest.assembleUri_of_host found] at filled
  exact congrArg (fun exit => exit.request.uri) filled

/-- **The authority of the request URI.** For every accepted message with a
`Host` of host characters, the URI delivered is that of a text whose authority is
the `Host` value exactly when the target is empty or starts with a slash, a
question mark or a hash. -/
theorem authority_eq_host_iff (folding : CaseFolding env) (isHttp : Bool) (origin : env.IPAddress)
    {received buffer rest : Bytes} {parser after : HTTPParser}
    (running : parseImpl env {} received = .more parser)
    (accepted : parseImpl env parser buffer = .done .good after rest) {host : Bytes}
    (sent : firstNamed after.data.headers (ascii "host") = some host)
    (plain : ∀ input ∈ host, HostByte input) :
    let text := (beforeUri after (requestOf isHttp origin)).uriText host after.data.uri
    (parser.parse (requestOf isHttp origin) buffer).request.uri = env.makeUri text ∧
      (authority text = some host ↔ OpensPath after.data.uri) := by
  intro text
  refine ⟨uri_of_accepted folding isHttp origin running accepted sent, ?_⟩
  have joined := authority_append (HTTPRequest.colon_not_mem_uriScheme
    (beforeUri after (requestOf isHttp origin))) (fun input member => (plain input member).inside)
    after.data.uri
  rw [show authority text = _ from joined, Option.some.injEq, List.append_right_eq_self,
    takeWhile_eq_nil_iff_opensPath]

/-- A host with a port, and a target that starts with a slash. -/
theorem authority_eq_host_iff_port :
    let buffer := ascii "GET /p HTTP/1.0\r\nHost: a.b:80\r\n\r\n"
    let after : HTTPParser := ⟨{
      headers := [(ascii "Host", ascii "a.b:80")], method := ascii "GET", uri := ascii "/p",
      httpVersionMajor := 1 }, .body⟩
    let text := (beforeUri after (requestOf true [] : HTTPRequest .sample)).uriText
      (ascii "a.b:80") after.data.uri
    (HTTPParser.parse {} (requestOf true [] : HTTPRequest .sample) buffer).request.uri = text ∧
      (authority text = some (ascii "a.b:80") ↔ OpensPath after.data.uri) := by
  intro buffer after
  have running : parseImpl .sample {} [] = .more {} := rfl
  have accepted : parseImpl .sample {} buffer = .done .good after [] := by decide +kernel
  exact authority_eq_host_iff caseFolding_sample true [] running accepted (by decide +kernel)
    (by simp only [HostByte]; decide +kernel)

/-- A target that extends the host. -/
theorem not_authority_eq_host : ¬ ∀ (env : Externals), CaseFolding env →
    ∀ (isHttp : Bool) (origin : env.IPAddress) (buffer rest host : Bytes) (after : HTTPParser),
      parseImpl env {} buffer = .done .good after rest →
      firstNamed after.data.headers (ascii "host") = some host →
      (∀ input ∈ host, HostByte input) →
      authority ((beforeUri after (requestOf isHttp origin)).uriText host after.data.uri) =
        some host := by
  intro always
  let after : HTTPParser := ⟨{
    headers := [(ascii "Host", ascii "good")], method := ascii "GET", uri := ascii ".evil/",
    httpVersionMajor := 1 }, .body⟩
  have accepted : parseImpl .sample {} (ascii "GET .evil/ HTTP/1.0\r\nHost: good\r\n\r\n") =
      .done .good after [] := by decide +kernel
  have same := always .sample caseFolding_sample true [] _ _ (ascii "good") after accepted
    (by decide +kernel) (by simp only [HostByte]; decide +kernel)
  revert same
  decide +kernel

end Grammar

end Webserver.HTTP
