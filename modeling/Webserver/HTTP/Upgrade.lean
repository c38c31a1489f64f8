import Webserver.HTTP.Handshake

/-! # Handshakes of the standard

A message has the form of an opening handshake when its `Connection` value is a
list of tokens one of which is `upgrade`. The code compares the whole value with
two texts, so a handshake is recognised exactly when its `Connection` value is
one of them, ignoring case.
-/

namespace Webserver.HTTP

open Foundation Schema HTTPParser Grammar Incremental

variable {env : Externals}

namespace Grammar

/-- What the code relies on of string comparison, on ASCII texts. -/
structure TextFolding (env : Externals) : Prop extends CaseFolding env where
  lexcmpi_ascii : ∀ left right : Bytes, (∀ input ∈ left, input.toNat ≤ 127) →
    (∀ input ∈ right, input.toNat ≤ 127) →
    (env.lexcmpi left right = 0 ↔ left.map lower = right.map lower)

/-- What the code relies on of URIs: the scheme is the text before `://`. -/
structure SchemeFirst (env : Externals) : Prop where
  scheme_makeUri : ∀ scheme rest : Bytes, byte ':' ∉ scheme →
    env.scheme (env.makeUri (scheme ++ URI.protoUrlPostfix ++ rest)) = scheme

theorem textFolding_sample : TextFolding Externals.sample where
  toCaseFolding := caseFolding_sample
  lexcmpi_ascii left right _ _ := by
    by_cases same : left.map lower = right.map lower <;> simp [Externals.sample, same]

theorem schemeFirst_sample : SchemeFirst Externals.sample where
  scheme_makeUri scheme rest plain := by
    have colon : URI.protoUrlPostfix = byte ':' :: [byte '/', byte '/'] := by decide
    have all : ∀ input ∈ scheme, (input != byte ':') = true := by
      intro input member
      apply bne_iff_ne.mpr
      rintro rfl
      exact plain member
    change List.takeWhile (fun input => input != byte ':')
      (scheme ++ URI.protoUrlPostfix ++ rest) = scheme
    rw [colon, List.append_assoc, List.takeWhile_append_of_pos all, List.cons_append,
      List.takeWhile_cons_of_neg (by simp), List.append_nil]

/-- An element of a list in a header value. -/
structure ListElement where
  before : Text BlankByte
  token : Text1 TokenByte
  behind : Text BlankByte

def ListElement.bytes (element : ListElement) : Bytes :=
  element.before.bytes ++ (element.token.bytes ++ element.behind.bytes)

/-- A comma-separated list. -/
def listBytes (elements : List ListElement) : Bytes :=
  [byte ','].intercalate (elements.map ListElement.bytes)

theorem ListElement.ascii (element : ListElement) : ∀ input ∈ element.bytes, input.toNat ≤ 127 := by
  have blank {input : UInt8} (member : BlankByte input) : input.toNat ≤ 127 := by
    rcases member with rfl | rfl <;> decide
  intro input member
  rcases List.mem_append.mp member with before | member
  · exact blank (element.before.members input before)
  · rcases List.mem_append.mp member with token | behind
    · exact (element.token.members input token).1
    · exact blank (element.behind.members input behind)

theorem listBytes_ascii (elements : List ListElement) :
    ∀ input ∈ listBytes elements, input.toNat ≤ 127 := by
  induction elements with
  | nil => simp [listBytes]
  | cons element elements ih =>
      cases elements with
      | nil => simpa [listBytes] using element.ascii
      | cons second elements =>
          have split : listBytes (element :: second :: elements) =
              element.bytes ++ byte ',' :: listBytes (second :: elements) := by simp [listBytes]
          intro input member
          rw [split] at member
          rcases List.mem_append.mp member with here | member
          · exact element.ascii input here
          · rcases List.mem_cons.mp member with rfl | later
            · decide
            · exact ih input later

/-- A collected message has the form of an opening handshake. -/
structure Opening (data : Data) : Prop where
  method : data.method = ascii "GET"
  version : 1 < data.httpVersionMajor ∨ (data.httpVersionMajor = 1 ∧ 1 ≤ data.httpVersionMinor)
  upgrade : ∃ value, firstNamed data.headers Header.WS.upgrade = some value ∧
    value.map lower = ascii "websocket"
  connection : ∃ elements, firstNamed data.headers Header.WS.connection =
    some (listBytes elements) ∧ ∃ element ∈ elements, element.token.bytes.map lower = ascii "upgrade"
  key : ∃ value, firstNamed data.headers Header.WS.secWebsocketKey = some value ∧ value ≠ []
  wsVersion : firstNamed data.headers Header.WS.secWebsocketVersion = some (ascii "13")

/-- The `Connection` values the code knows. -/
def KnownConnection (value : Bytes) : Prop :=
  value.map lower = ascii "upgrade" ∨ value.map lower = ascii "keep-alive, upgrade"

/-- A text that lower-cases to ASCII is ASCII. -/
theorem ascii_of_map_lower {text lowered : Bytes} (same : text.map lower = lowered)
    (small : ∀ input ∈ lowered, input.toNat ≤ 127) : ∀ input ∈ text, input.toNat ≤ 127 := by
  intro input member
  have bound := small (lower input) (same ▸ List.mem_map_of_mem member)
  rw [lower] at bound
  split at bound
  · omega
  · exact bound

theorem TextFolding.isWSUpgrade_iff (folding : TextFolding env) {request : HTTPRequest env}
    {upgrade connection : Bytes} (upgraded : request.headers.lookup Header.WS.upgrade = some upgrade)
    (connected : request.headers.lookup Header.WS.connection = some connection)
    (websocket : upgrade.map lower = ascii "websocket")
    (small : ∀ input ∈ connection, input.toNat ≤ 127) :
    request.isWSUpgrade ↔ KnownConnection connection := by
  have literal : Header.WS.Value.websocket.map lower = ascii "websocket" ∧
      Header.WS.Value.upgrade.map lower = ascii "upgrade" ∧
      Header.WS.Value.keepAliveUpgrade.map lower = ascii "keep-alive, upgrade" := by
    decide +kernel
  obtain ⟨first, second, third⟩ := literal
  have plain : env.lexcmpi connection Header.WS.Value.upgrade = 0 ↔
      connection.map lower = ascii "upgrade" := by
    rw [folding.lexcmpi_ascii _ _ small (by decide +kernel), second]
  have kept : env.lexcmpi connection Header.WS.Value.keepAliveUpgrade = 0 ↔
      connection.map lower = ascii "keep-alive, upgrade" := by
    rw [folding.lexcmpi_ascii _ _ small (by decide +kernel), third]
  have same : env.lexcmpi upgrade Header.WS.Value.websocket = 0 := by
    have upgrading := ascii_of_map_lower websocket (by decide +kernel)
    rw [folding.lexcmpi_ascii _ _ upgrading (by decide +kernel), first]
    exact websocket
  simp only [HTTPRequest.isWSUpgrade, upgraded, connected, same, beq_self_eq_true, Bool.true_and,
    Bool.or_eq_true, beq_iff_eq, plain, kept, KnownConnection]

/-- The handshake of a delivered opening is decided by its `Connection` value. -/
theorem TextFolding.isWSHandshake_iff (folding : TextFolding env) (schemes : SchemeFirst env)
    (isHttp : Bool) (origin : env.IPAddress) {received buffer rest : Bytes}
    {parser after : HTTPParser} (running : parseImpl env {} received = .more parser)
    (accepted : parseImpl env parser buffer = .done .good after rest)
    (good : (parser.parse (requestOf isHttp origin) buffer).result = .ok .good)
    (opening : Opening after.data) :
    (parser.parse (requestOf isHttp origin) buffer).request.isWSHandshake = .ok true ↔
      ∃ connection, firstNamed after.data.headers Header.WS.connection = some connection ∧
        KnownConnection connection := by
  have others : Header.WS.upgrade ≠ Header.cookie ∧ Header.WS.connection ≠ Header.cookie ∧
      Header.WS.secWebsocketKey ≠ Header.cookie ∧
      Header.WS.secWebsocketVersion ≠ Header.cookie := by
    decide +kernel
  obtain ⟨notUpgrade, notConnection, notKey, notVersion⟩ := others
  obtain ⟨head, body, -, collected, delivered⟩ :=
    folding.request_delivers running accepted isHttp origin
  have headers := delivered.headers
  rw [← collected] at headers
  have hosted := (folding.parse_good_iff running accepted _).mp good
  have before (key : Bytes) (other : key ≠ Header.cookie) :
      (beforeUri after (requestOf isHttp origin)).headers.lookup key =
        firstNamed after.data.headers key := by
    rw [collected]
    exact folding.deliveredHeaders_lookup collected other
  obtain ⟨host, sent⟩ := Option.isSome_iff_exists.mp (firstNamed_isSome.mpr hosted)
  have uri := uri_of_accepted folding.toCaseFolding isHttp origin running accepted sent
  obtain ⟨upgrade, upgraded, websocket⟩ := opening.upgrade
  obtain ⟨elements, connected, -⟩ := opening.connection
  obtain ⟨key, keyed, nonempty⟩ := opening.key
  have small := listBytes_ascii elements
  have recognised := folding.isWSUpgrade_iff ((headers _ notUpgrade).trans upgraded)
    ((headers _ notConnection).trans connected) websocket small
  have chosen := folding.isWSUpgrade_iff ((before _ notUpgrade).trans upgraded)
    ((before _ notConnection).trans connected) websocket small
  constructor
  · intro opens
    refine ⟨listBytes elements, connected, ?_⟩
    by_contra unknown
    rw [HTTPRequest.isWSHandshake_of_not_reaches
      (fun version reaches => unknown (recognised.mp reaches.1))] at opens
    cases opens
  · intro carried
    obtain ⟨connection, found, known⟩ := carried
    rw [connected, Option.some.injEq] at found
    subst found
    have scheme : env.scheme (parser.parse (requestOf isHttp origin) buffer).request.uri =
        (beforeUri after (requestOf isHttp origin)).uriScheme := by
      rw [uri, HTTPRequest.uriText, List.append_assoc]
      exact schemes.scheme_makeUri _ _ (HTTPRequest.colon_not_mem_uriScheme _)
    have ws : (beforeUri after (requestOf isHttp origin)).uriScheme = URI.wsProto ∨
        (beforeUri after (requestOf isHttp origin)).uriScheme = URI.wssProto := by
      rw [HTTPRequest.uriScheme, if_pos (chosen.mpr known)]
      split
      · exact Or.inl rfl
      · exact Or.inr rfl
    rw [← scheme] at ws
    rw [HTTPRequest.isWSHandshake_of_reaches ⟨recognised.mpr known, ws,
      ⟨key, (headers _ notKey).trans keyed, nonempty⟩,
      (headers _ notVersion).trans opening.wsVersion⟩]
    decide

end Grammar

namespace World

/-- A read is taken for an opening handshake: `isWSHandshake` says so, nothing is
passed to the handler, and the write started creates a session when it is done. -/
structure Recognises (world : World env) (bytes : Bytes) : Prop where
  opens : (world.parseExit bytes).request.isWSHandshake = .ok true
  answers : ∀ handler : HTTPRequestHandler env,
    (world.onRead bytes handler).handed = world.handed ∧
      ∃ response, (world.onRead bytes handler).writes =
        world.writes ++ [⟨.createWsConnection, response⟩]

/-- **Recognised handshakes.** A delivered message with the form of an opening
handshake is taken for one exactly when its `Connection` value is `upgrade` or
`keep-alive, upgrade`, ignoring case. -/
theorem recognises_iff (folding : TextFolding env) (schemes : SchemeFirst env)
    {world : World env} {received bytes rest : Bytes} {after : HTTPParser}
    (running : parseImpl env {} received = .more world.conn.requestParser)
    (accepted : parseImpl env world.conn.requestParser bytes = .done .good after rest)
    (good : (world.parseExit bytes).result = .ok .good) (opening : Opening after.data) :
    Recognises world bytes ↔
      ∃ connection, firstNamed after.data.headers Header.WS.connection = some connection ∧
        KnownConnection connection := by
  have decided := folding.isWSHandshake_iff schemes world.conn.isHttp world.conn.remoteIp running
    accepted good opening
  rw [← decided]
  constructor
  · intro recognises
    exact recognises.opens
  · intro opens
    refine ⟨opens, ?_⟩
    intro handler
    obtain ⟨-, -, -, handed, writes, -, -⟩ := onRead_handshake good opens handler
    exact ⟨handed, writes⟩

/-- An opening handshake with a `Connection` value. -/
def openingBytes (connection : Bytes) : Bytes :=
  ascii "GET / HTTP/1.1\r\nHost: a\r\nUpgrade: WebSocket\r\nConnection: " ++ connection ++
    ascii "\r\nSec-WebSocket-Key: k\r\nSec-WebSocket-Version: 13\r\n\r\n"

/-- What is collected of it. -/
def openingData (connection : Bytes) : Data where
  headers := [(ascii "Host", ascii "a"), (ascii "Upgrade", ascii "WebSocket"),
    (ascii "Connection", connection), (ascii "Sec-WebSocket-Key", ascii "k"),
    (ascii "Sec-WebSocket-Version", ascii "13")]
  method := ascii "GET"
  uri := ascii "/"
  httpVersionMajor := 1
  httpVersionMinor := 1

theorem opening_openingData {elements : List ListElement} {element : ListElement}
    (member : element ∈ elements) (upgrade : element.token.bytes.map lower = ascii "upgrade") :
    Opening (openingData (listBytes elements)) where
  method := rfl
  version := Or.inr ⟨rfl, le_rfl⟩
  upgrade := ⟨ascii "WebSocket", rfl, by decide⟩
  connection := ⟨elements, rfl, element, member, upgrade⟩
  key := ⟨ascii "k", rfl, by decide⟩
  wsVersion := rfl

/-- A token of a list, with the white space before it. -/
def elementOf (before : Text BlankByte) (token : Text1 TokenByte) : ListElement :=
  ⟨before, token, Text.nil⟩

/-- It has a `Host`, so once accepted it is delivered. -/
theorem good_openingBytes {connection : Bytes}
    (accepted : parseImpl .sample {} (openingBytes connection) =
      .done .good ⟨openingData connection, .body⟩ []) :
    ((start true [] : World .sample).parseExit (openingBytes connection)).result = .ok .good := by
  have fresh : parseImpl .sample {} [] = .more {} := rfl
  exact (caseFolding_sample.parse_good_iff fresh accepted _).mpr
    ⟨(ascii "Host", ascii "a"), List.mem_cons_self, by decide +kernel⟩

theorem recognises_iff_keepAlive :
    let connection := ascii "Keep-Alive, Upgrade"
    Recognises (start true [] : World .sample) (openingBytes connection) ↔
      ∃ value, firstNamed (openingData connection).headers Header.WS.connection = some value ∧
        KnownConnection value := by
  intro connection
  let keepAlive := elementOf Text.nil ⟨⟨ascii "Keep-Alive", by decide +kernel⟩, by decide⟩
  let upgrade :=
    elementOf ⟨[SP], by decide +kernel⟩ ⟨⟨ascii "Upgrade", by decide +kernel⟩, by decide⟩
  have running : parseImpl .sample {} [] = .more {} := rfl
  have accepted : parseImpl .sample {} (openingBytes connection) =
      .done .good ⟨openingData connection, .body⟩ [] := by decide +kernel
  have opening : Opening (openingData (listBytes [keepAlive, upgrade])) :=
    @opening_openingData _ upgrade (by simp) (by decide)
  have same : listBytes [keepAlive, upgrade] = connection := by decide +kernel
  rw [same] at opening
  exact recognises_iff textFolding_sample schemeFirst_sample running accepted
    (good_openingBytes accepted) opening

/-- Without the space after the comma the same list is not recognised. -/
theorem not_recognises : ¬ ∀ (env : Externals), TextFolding env → SchemeFirst env →
    ∀ (world : World env) (received bytes rest : Bytes) (after : HTTPParser),
      parseImpl env {} received = .more world.conn.requestParser →
      parseImpl env world.conn.requestParser bytes = .done .good after rest →
      (world.parseExit bytes).result = .ok .good → Opening after.data →
      Recognises world bytes := by
  intro always
  let keepAlive := elementOf Text.nil ⟨⟨ascii "keep-alive", by decide +kernel⟩, by decide⟩
  let upgrade := elementOf Text.nil ⟨⟨ascii "Upgrade", by decide +kernel⟩, by decide⟩
  let connection := ascii "keep-alive,Upgrade"
  have accepted : parseImpl .sample {} (openingBytes connection) =
      .done .good ⟨openingData connection, .body⟩ [] := by decide +kernel
  have opening : Opening (openingData (listBytes [keepAlive, upgrade])) :=
    @opening_openingData _ upgrade (by simp) (by decide)
  have same : listBytes [keepAlive, upgrade] = connection := by decide +kernel
  rw [same] at opening
  have fresh : parseImpl .sample {} [] = .more {} := rfl
  have good := good_openingBytes accepted
  have opens := (always .sample textFolding_sample schemeFirst_sample (start true []) []
    (openingBytes connection) [] ⟨openingData connection, .body⟩ fresh accepted good opening).opens
  obtain ⟨value, found, known⟩ := (textFolding_sample.isWSHandshake_iff schemeFirst_sample true []
    fresh accepted good opening).mp opens
  have sent : firstNamed (openingData connection).headers Header.WS.connection =
      some connection := rfl
  rw [sent, Option.some.injEq] at found
  subst found
  revert known
  simp only [KnownConnection]
  decide

end World

end Webserver.HTTP
