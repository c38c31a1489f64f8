import Webserver.HTTP.Answers
import Webserver.HTTP.CookieText
import Webserver.HTTP.SessionCookie
import Webserver.HTTP.SetCookie

/-! # The cookies a client keeps

A client keeps the cookies of the responses it reads and sends them back with its
requests. Under each name a request then carries what the last cookie set under it
says: its value, or nothing once its point in time has passed.
-/

namespace Webserver.HTTP

open Foundation Grammar HTTPParser Incremental Schema

/-! ## The client -/

/-- A pair that a client keeps and sends back. -/
def Keepable (pair : CookiePair) : Prop :=
  pair.1 ≠ [] ∧ (∀ input ∈ pair.1, Cookie.isNameChar input) ∧ ∀ input ∈ pair.2, CookieOctet input

instance : DecidablePred Keepable := fun _ => inferInstanceAs (Decidable (_ ∧ _ ∧ _))

theorem Keepable.pairOfSegment {pair : CookiePair} (keepable : Keepable pair) :
    Cookie.pairOfSegment (Cookie.writePair pair) = some pair := by
  obtain ⟨nonempty, named, -⟩ := keepable
  have separate : byte '=' ∉ pair.1 := fun present => (Cookie.isNameChar_ne (named _ present)).1 rfl
  have ended : pair.1.getLast?.any Cookie.isNameChar := by
    rw [List.getLast?_eq_getLast_of_ne_nil nonempty, Option.any_some]
    exact named _ (List.getLast_mem nonempty)
  rw [Cookie.pairOfSegment_writePair separate, if_pos ended,
    List.rtakeWhile_eq_self_iff.mpr named]

theorem Keepable.bounded {pair : CookiePair} (keepable : Keepable pair) : Cookie.Bounded pair := by
  obtain ⟨-, named, valued⟩ := keepable
  refine ⟨?_, ?_⟩
  · exact fun present => (Cookie.isNameChar_ne (named _ present)).2 rfl
  · exact fun present => absurd (valued _ present) (by decide)

/-- The cookies a client keeps, one of each name. -/
structure CookieJar where
  held : UnorderedMap Bytes Bytes
  keepable : ∀ name value, held.lookup name = some value → Keepable (name, value)

namespace CookieJar

def empty : CookieJar where
  held := ∅
  keepable name value found := by
    rw [AList.lookup_empty] at found
    cases found

/-- A client drops a cookie whose point in time has passed. Any other it can keep
takes the place of the one of its name. -/
def store (past : Bytes → Bool) (jar : CookieJar) (text : CookieText) : CookieJar :=
  if text.expires.any past then
    { held := jar.held.erase text.name
      keepable := by
        intro name value found
        by_cases same : name = text.name
        · rw [same, AList.lookup_erase] at found
          cases found
        · rw [AList.lookup_erase_ne same] at found
          exact jar.keepable name value found }
  else if keepable : Keepable (text.name, text.value) then
    { held := UnorderedMap.assign jar.held text.name text.value
      keepable := by
        intro name value found
        by_cases same : name = text.name
        · rw [same, UnorderedMap.assign, AList.lookup_insert] at found
          rw [same, ← Option.some.inj found]
          exact keepable
        · rw [UnorderedMap.assign, AList.lookup_insert_ne same] at found
          exact jar.keepable name value found }
  else jar

def isSetCookie (name : Bytes) : Bool := name.map lower == ascii "set-cookie"

theorem isSetCookie_setCookie : isSetCookie Header.setCookie = true := by decide +kernel

/-- A client looks at the cookies of a response. -/
def visit (past : Bytes → Bool) (jar : CookieJar) (response : WireMessage) : CookieJar :=
  ((response.fields.filter fun field => isSetCookie field.1).map fun field =>
    CookieText.decode field.2).foldl (store past) jar

/-- The value of the `Cookie` field of a request, if it has one. -/
def header (jar : CookieJar) : Option Bytes :=
  match UnorderedMap.pairs jar.held with
  | [] => none
  | pairs => some (Cookie.writePairs pairs)

theorem lookup_store_past {past : Bytes → Bool} {text : CookieText}
    (gone : text.expires.any past = true) (jar : CookieJar) (name : Bytes) :
    (jar.store past text).held.lookup name =
      if text.name = name then none else jar.held.lookup name := by
  rw [store, if_pos gone]
  by_cases same : text.name = name
  · rw [if_pos same, ← same, AList.lookup_erase]
  · rw [if_neg same, AList.lookup_erase_ne (Ne.symm same)]

theorem lookup_store {past : Bytes → Bool} {text : CookieText}
    (lasting : text.expires.any past = false) (keepable : Keepable (text.name, text.value))
    (jar : CookieJar) (name : Bytes) :
    (jar.store past text).held.lookup name =
      if text.name = name then some text.value else jar.held.lookup name := by
  rw [store, if_neg (Bool.not_eq_true _ ▸ lasting), dif_pos keepable]
  by_cases same : text.name = name
  · rw [if_pos same, ← same]
    exact AList.lookup_insert _
  · rw [if_neg same]
    exact AList.lookup_insert_ne (Ne.symm same)

/-! ## The way back -/

/-- The cookies sent back are read as they are kept. -/
theorem find?_fromString_header (jar : CookieJar) (name : Bytes) :
    (jar.header.elim [] Cookie.fromString).find? (fun cookie => decide (cookie.name = name)) =
      (jar.held.lookup name).map fun value => Cookie.ofPair (name, value) := by
  have keepable : ∀ pair ∈ UnorderedMap.pairs jar.held, Keepable pair :=
    fun pair member => jar.keepable _ _ (UnorderedMap.mem_pairs_iff.mp member)
  have read : jar.header.elim [] Cookie.fromString =
      (UnorderedMap.pairs jar.held).map Cookie.ofPair := by
    cases held : UnorderedMap.pairs jar.held with
    | nil => rw [header, held]; rfl
    | cons first rest =>
        rw [held] at keepable
        have whole : (first :: rest).filterMap
            (fun pair => Cookie.pairOfSegment (Cookie.writePair pair)) = first :: rest := by
          rw [List.filterMap_congr fun pair member => (keepable pair member).pairOfSegment]
          exact List.filterMap_some
        rw [header, held]
        change Cookie.fromString (Cookie.writePairs (first :: rest)) = _
        rw [Cookie.fromString_writePairs fun pair member => (keepable pair member).bounded, whole]
  rw [read, List.find?_map]
  have same : (fun cookie : Cookie => decide (cookie.name = name)) ∘ Cookie.ofPair =
      fun pair => decide (pair.1 = name) := rfl
  rw [same, UnorderedMap.find?_pairs, Option.map_map]
  rfl

end CookieJar

/-! ## The text of a cookie in a header field -/

/-- A text that a header field may end with. -/
def Solid (text : Bytes) : Prop :=
  (∀ input ∈ text, FieldByte input) ∧ ∀ input ∈ text.getLast?, isBlank input = false

instance : DecidablePred Solid := fun _ => inferInstanceAs (Decidable (_ ∧ _))

theorem Solid.append {front back : Bytes} (field : ∀ input ∈ front, FieldByte input)
    (solid : Solid back) (nonempty : back ≠ []) : Solid (front ++ back) := by
  refine ⟨List.forall_mem_append.mpr ⟨field, solid.1⟩, ?_⟩
  rw [List.getLast?_append_of_ne_nil front nonempty]
  exact solid.2

/-- Texts with separators between them. -/
theorem Solid.join {front : Bytes} {parts : List Bytes} (solid : Solid front)
    (each : ∀ part ∈ parts, part ≠ [] ∧ Solid part) :
    Solid (front ++ parts.flatMap fun part => byte ';' :: SP :: part) := by
  induction parts generalizing front with
  | nil =>
      rw [List.flatMap_nil, List.append_nil]
      exact solid
  | cons part parts ih =>
      obtain ⟨nonempty, ended⟩ := each part List.mem_cons_self
      have separator : ∀ input ∈ [byte ';', SP], FieldByte input := by decide +kernel
      have longer : Solid ((front ++ [byte ';', SP]) ++ part) :=
        .append (List.forall_mem_append.mpr ⟨solid.1, separator⟩) ended nonempty
      have rest := ih longer fun other member => each other (List.mem_cons_of_mem part member)
      simpa using rest

theorem solid_of_visible {text : Bytes} (visible : ∀ input ∈ text, VisibleByte input) :
    Solid text := by
  refine ⟨fun input member => (visible input member).field, ?_⟩
  intro input last
  exact isBlank_of_visible (visible input (List.mem_of_getLast? last))

theorem visible_of_isNameChar {input : UInt8} (named : Cookie.isNameChar input) :
    VisibleByte input := by
  have underscore : (byte '_').toNat = 95 := rfl
  have dash : (byte '-').toNat = 45 := rfl
  have dot : (byte '.').toNat = 46 := rfl
  simp only [Cookie.isNameChar, Bool.or_eq_true, Bool.and_eq_true, decide_eq_true_eq, beq_iff_eq,
    UInt8.le_iff_toNat_le, ← UInt8.toNat_inj, underscore, dash, dot, UInt8.reduceToNat] at named
  unfold VisibleByte
  omega

theorem visible_of_cookieOctet {input : UInt8} (octet : CookieOctet input) :
    VisibleByte input := by
  unfold CookieOctet at octet
  unfold VisibleByte
  omega

namespace Cookie

variable {formatDateTime : ℚ → Bytes} {cookie : Cookie}

/-- A cookie that reaches a client in full. -/
structure Sendable (formatDateTime : ℚ → Bytes) (cookie : Cookie) : Prop where
  keepable : Keepable (cookie.name, cookie.value)
  valued : cookie.value ≠ []
  path : Solid cookie.path ∧ byte ';' ∉ cookie.path
  domain : Solid cookie.domain ∧ byte ';' ∉ cookie.domain
  expires : cookie.expires ≠ -1 →
    Solid (formatDateTime cookie.expires) ∧ byte ';' ∉ formatDateTime cookie.expires

theorem Sendable.separable (sendable : cookie.Sendable formatDateTime) :
    cookie.Separable formatDateTime where
  named := sendable.keepable.1
  valued := sendable.valued
  name := by
    refine ⟨?_, sendable.keepable.bounded.1⟩
    exact fun present => (isNameChar_ne (sendable.keepable.2.1 _ present)).1 rfl
  value := sendable.keepable.bounded.2
  path := sendable.path.2
  domain := sendable.domain.2
  expires present := (sendable.expires present).2

/-- A client reads what the cookie says. -/
theorem Separable.decode_eq (separable : cookie.Separable formatDateTime) :
    CookieText.decode (cookie.toString formatDateTime) = cookie.inText formatDateTime := by
  obtain ⟨first, others⟩ := separable.findable
  rw [toString_eq separable.named separable.valued, CookieText.decode, parts_join first others,
    ofParts_attributes]

theorem forall_mem_optional {motive : TextPart → Prop} {present : Prop} [Decidable present]
    {key : Bytes} {value : Option Bytes} (holds : present → motive (key, value)) :
    ∀ part ∈ optional present key value, motive part := by
  intro part member
  unfold optional at member
  split at member
  · next shown => exact List.mem_singleton.mp member ▸ holds shown
  · cases member

theorem solid_partText {key : Bytes} {value : Option Bytes} (keyed : key ≠ [] ∧ Solid key)
    (valued : ∀ text ∈ value, Solid text) :
    partText (key, value) ≠ [] ∧ Solid (partText (key, value)) := by
  obtain ⟨named, solid⟩ := keyed
  refine ⟨fun empty => named (List.append_eq_nil_iff.mp empty).1, ?_⟩
  cases value with
  | none =>
      rw [partText, Option.elim_none, List.append_nil]
      exact solid
  | some text =>
      have sign : Solid [byte '='] := by decide +kernel
      have signed : Solid (byte '=' :: text) := by
        cases text with
        | nil => exact sign
        | cons input text => exact .append sign.1 (valued _ rfl) (by simp)
      exact .append solid.1 signed (by simp)

theorem Sendable.solid_parts (sendable : cookie.Sendable formatDateTime) :
    Solid (partText (cookie.name, some cookie.value)) ∧
      ∀ part ∈ cookie.attributes formatDateTime, partText part ≠ [] ∧ Solid (partText part) := by
  obtain ⟨named, chars, octets⟩ := sendable.keepable
  have name : Solid cookie.name :=
    solid_of_visible fun input member => visible_of_isNameChar (chars input member)
  have value : Solid cookie.value :=
    solid_of_visible fun input member => visible_of_cookieOctet (octets input member)
  have only {text : Bytes} (solid : Solid text) : ∀ shown ∈ some text, Solid shown :=
    fun shown same => Option.mem_some.mp same ▸ solid
  have none_ : ∀ shown ∈ (none : Option Bytes), Solid shown := by simp
  refine ⟨(solid_partText ⟨named, name⟩ (only value)).2, ?_⟩
  simp only [attributes, List.forall_mem_append]
  refine ⟨?_, ?_, ?_, ?_, ?_⟩
  · exact forall_mem_optional fun _ =>
      solid_partText (by decide +kernel) (only sendable.path.1)
  · exact forall_mem_optional fun _ =>
      solid_partText (by decide +kernel) (only sendable.domain.1)
  · exact forall_mem_optional fun _ => solid_partText (by decide +kernel) none_
  · exact forall_mem_optional fun _ => solid_partText (by decide +kernel) none_
  · exact forall_mem_optional fun present =>
      solid_partText (by decide +kernel) (only (sendable.expires present).1)

/-- A header field carries the text of a cookie unchanged. -/
theorem Sendable.text (sendable : cookie.Sendable formatDateTime) :
    (∀ input ∈ cookie.toString formatDateTime, FieldByte input) ∧
      trimBlanks (cookie.toString formatDateTime) = cookie.toString formatDateTime := by
  obtain ⟨first, others⟩ := sendable.solid_parts
  obtain ⟨named, chars, -⟩ := sendable.keepable
  have text : cookie.toString formatDateTime = _ := toString_eq named sendable.valued
  have parts : ((cookie.attributes formatDateTime).flatMap fun part =>
      byte ';' :: SP :: partText part) =
        ((cookie.attributes formatDateTime).map partText).flatMap fun part =>
          byte ';' :: SP :: part := by
    rw [List.flatMap_map]
  have joined : Solid (cookie.toString formatDateTime) := by
    rw [text, parts]
    apply first.join
    intro part member
    obtain ⟨other, inside, rfl⟩ := List.mem_map.mp member
    exact others other inside
  refine ⟨joined.1, trimBlanks_of_ends ?_ joined.2⟩
  intro input front
  rw [text, partText, List.append_assoc, List.head?_append_of_ne_nil _ named] at front
  exact isBlank_of_visible (visible_of_isNameChar (chars input (List.mem_of_head? front)))

end Cookie

/-! ## The server -/

/-- A response on which cookies are set one after the other. -/
structure Reply where
  base : HTTPResponse
  cookies : List Cookie

namespace Reply

variable (formatDateTime : ℚ → Bytes)

def response (reply : Reply) : HTTPResponse :=
  reply.cookies.foldl (HTTPResponse.setCookie formatDateTime) reply.base

/-- The response can be told from what follows it, has no cookie of its own, and the
first cookie set on it reaches the client in full. -/
structure Proper (reply : Reply) : Prop where
  framed : HTTPResponse.Framed reply.base
  unset : ∀ header ∈ reply.base.headerPairs, CookieJar.isSetCookie header.1 = false
  sendable : ∀ cookie ∈ reply.cookies.head?, cookie.Sendable formatDateTime

variable {formatDateTime} {reply : Reply}

/-- Of the cookies set on a response the first is sent. -/
theorem response_eq (reply : Reply) :
    reply.response formatDateTime =
      reply.cookies.head?.elim reply.base (HTTPResponse.setCookie formatDateTime reply.base) := by
  cases listed : reply.cookies with
  | nil => rw [response, listed]; rfl
  | cons first rest =>
      have present : Header.setCookie ∈
          (HTTPResponse.setCookie formatDateTime reply.base first).headers := by
        rw [HTTPResponse.setCookie, UnorderedMap.emplace]
        split
        · assumption
        · exact AList.mem_insert _ |>.mpr (Or.inl rfl)
      rw [response, listed, List.foldl_cons]
      change List.foldl _ _ rest = HTTPResponse.setCookie formatDateTime reply.base first
      clear listed
      induction rest with
      | nil => rfl
      | cons cookie rest ih => rw [List.foldl_cons, HTTPResponse.setCookie_of_mem present, ih]

theorem Proper.not_mem (proper : reply.Proper formatDateTime) :
    Header.setCookie ∉ reply.base.headers := by
  intro present
  obtain ⟨text, found⟩ := Option.isSome_iff_exists.mp (AList.lookup_isSome.mpr present)
  have member : (Header.setCookie, text) ∈ reply.base.headerPairs :=
    UnorderedMap.mem_pairs_iff.mpr found
  exact Bool.false_ne_true ((proper.unset _ member).symm.trans CookieJar.isSetCookie_setCookie)

theorem Proper.headerPairs_setCookie (proper : reply.Proper formatDateTime) (cookie : Cookie) :
    (HTTPResponse.setCookie formatDateTime reply.base cookie).headerPairs =
      (Header.setCookie, cookie.toString formatDateTime) :: reply.base.headerPairs := by
  rw [HTTPResponse.headerPairs, HTTPResponse.setCookie, UnorderedMap.emplace,
    if_neg proper.not_mem, AList.entries_insert_of_notMem proper.not_mem]
  rfl

theorem Proper.framed_setCookie (proper : reply.Proper formatDateTime) {cookie : Cookie}
    (sendable : cookie.Sendable formatDateTime) :
    HTTPResponse.Framed (HTTPResponse.setCookie formatDateTime reply.base cookie) where
  names := by
    rw [proper.headerPairs_setCookie]
    have token : Header.setCookie ≠ [] ∧ ∀ input ∈ Header.setCookie, TokenByte input := by
      decide +kernel
    exact List.forall_mem_cons.mpr ⟨token, proper.framed.names⟩
  values := by
    rw [proper.headerPairs_setCookie]
    exact List.forall_mem_cons.mpr ⟨sendable.text.1, proper.framed.values⟩
  empty := proper.framed.empty
  sized bodied := by
    obtain ⟨name, named, found, only⟩ := proper.framed.sized bodied
    have other : isContentLength Header.setCookie = false := by decide +kernel
    refine ⟨name, named, ?_, ?_⟩
    · rw [HTTPResponse.setCookie, UnorderedMap.lookup_emplace, found, Option.some_or]
    · rw [proper.headerPairs_setCookie]
      refine List.forall_mem_cons.mpr ⟨fun length => ?_, only⟩
      rw [other] at length
      cases length

theorem Proper.framed_response (proper : reply.Proper formatDateTime) :
    HTTPResponse.Framed (reply.response formatDateTime) := by
  rw [response_eq]
  cases first : reply.cookies.head? with
  | none => exact proper.framed
  | some cookie => exact proper.framed_setCookie (proper.sendable cookie first)

/-! ## Both together -/

variable {past : Bytes → Bool}

/-- A client takes the first cookie of a response. -/
theorem Proper.visit_response (proper : reply.Proper formatDateTime) (jar : CookieJar) :
    jar.visit past (reply.response formatDateTime).wire.meant =
      reply.cookies.head?.elim jar fun cookie =>
        jar.store past (cookie.inText formatDateTime) := by
  have none_ : ((reply.base.headerPairs.map fun field => (field.1, trimBlanks field.2)).filter
      fun field => CookieJar.isSetCookie field.1) = [] := by
    rw [List.filter_eq_nil_iff]
    intro field member
    obtain ⟨header, inside, rfl⟩ := List.mem_map.mp member
    rw [proper.unset header inside]
    exact Bool.false_ne_true
  rw [response_eq]
  cases first : reply.cookies.head? with
  | none =>
      change List.foldl _ jar (((reply.base.headerPairs.map _).filter _).map _) = jar
      rw [none_]
      rfl
  | some cookie =>
      have sendable := proper.sendable cookie first
      have only : ((HTTPResponse.setCookie formatDateTime reply.base cookie).headerPairs.map
          fun field => (field.1, trimBlanks field.2)).filter
            (fun field => CookieJar.isSetCookie field.1) =
          [(Header.setCookie, cookie.toString formatDateTime)] := by
        rw [proper.headerPairs_setCookie, List.map_cons, sendable.text.2]
        refine (List.filter_cons_of_pos ?_).trans (congrArg _ none_)
        exact CookieJar.isSetCookie_setCookie
      change List.foldl _ jar
        ((((HTTPResponse.setCookie formatDateTime reply.base cookie).headerPairs.map _).filter
          _).map _) = _
      rw [only]
      exact congrArg (jar.store past) sendable.separable.decode_eq

/-- A cookie that a client drops: it has a point in time, which the client takes for past. -/
def Lapsed (formatDateTime : ℚ → Bytes) (past : Bytes → Bool) (cookie : Cookie) : Prop :=
  cookie.expires ≠ -1 ∧ past (formatDateTime cookie.expires) = true

instance : DecidablePred (Lapsed formatDateTime past) :=
  fun _ => inferInstanceAs (Decidable (_ ∧ _))

/-- What the last cookie set under a name says. -/
def lastSet (formatDateTime : ℚ → Bytes) (past : Bytes → Bool) (cookies : List Cookie)
    (name : Bytes) : Option Bytes :=
  (cookies.reverse.find? fun cookie => decide (cookie.name = name)).bind fun cookie =>
    if Lapsed formatDateTime past cookie then none else some cookie.value

theorem lastSet_concat (cookies : List Cookie) (cookie : Cookie) (name : Bytes) :
    lastSet formatDateTime past (cookies ++ [cookie]) name =
      if cookie.name = name then
        if Lapsed formatDateTime past cookie then none else some cookie.value
      else lastSet formatDateTime past cookies name := by
  rw [lastSet, List.reverse_append, List.reverse_singleton, List.singleton_append,
    List.find?_cons]
  by_cases same : cookie.name = name
  · simp only [same, decide_true, if_true, Option.bind_some]
  · simp only [same, decide_false, if_false, lastSet]

/-- An invalidation cookie makes a client drop the one of its name, when the client
takes the first point in time for past. -/
theorem lastSet_getInvalidationCookie (gone : past (formatDateTime 0) = true)
    {cookies : List Cookie} {name : Bytes}
    (last : cookies.reverse.find? (fun cookie => decide (cookie.name = name)) =
      some (Cookie.getInvalidationCookie name)) :
    lastSet formatDateTime past cookies name = none := by
  have lapsed : Lapsed formatDateTime past (Cookie.getInvalidationCookie name) :=
    ⟨(by decide : (0 : ℚ) ≠ -1), gone⟩
  rw [lastSet, last, Option.bind_some, if_pos lapsed]

theorem lookup_store_inText {cookie : Cookie} (sendable : cookie.Sendable formatDateTime)
    (jar : CookieJar) (name : Bytes) :
    (jar.store past (cookie.inText formatDateTime)).held.lookup name =
      if cookie.name = name then
        if Lapsed formatDateTime past cookie then none else some cookie.value
      else jar.held.lookup name := by
  have told : (cookie.inText formatDateTime).expires =
      if cookie.expires ≠ -1 then some (formatDateTime cookie.expires) else none := rfl
  by_cases lapsed : Lapsed formatDateTime past cookie
  · have gone : (cookie.inText formatDateTime).expires.any past = true := by
      rw [told, if_pos lapsed.1]
      exact lapsed.2
    rw [CookieJar.lookup_store_past gone, if_pos lapsed]
    rfl
  · have lasting : (cookie.inText formatDateTime).expires.any past = false := by
      rw [told]
      split
      · next present => exact Bool.eq_false_iff.mpr fun gone => lapsed ⟨present, gone⟩
      · rfl
    rw [CookieJar.lookup_store lasting sendable.keepable, if_neg lapsed]
    rfl

/-- What a client keeps after it has read some responses. -/
theorem lookup_visits {replies : List Reply}
    (proper : ∀ reply ∈ replies, reply.Proper formatDateTime) (name : Bytes) :
    ((replies.map fun reply => (reply.response formatDateTime).wire.meant).foldl
        (CookieJar.visit past) .empty).held.lookup name =
      lastSet formatDateTime past (replies.filterMap fun reply => reply.cookies.head?) name := by
  induction replies using List.reverseRecOn with
  | nil => rfl
  | append_singleton replies reply ih =>
      obtain ⟨before, here⟩ := List.forall_mem_append.mp proper
      have last := here reply (List.mem_singleton_self _)
      rw [List.map_append, List.foldl_append, List.filterMap_append, List.map_singleton,
        List.foldl_cons, List.foldl_nil, last.visit_response]
      cases first : reply.cookies.head? with
      | none => simpa [first] using ih before
      | some cookie =>
          have only : [reply].filterMap (fun reply => reply.cookies.head?) = [cookie] := by
            simp [first]
          rw [only, lastSet_concat, ← ih before]
          exact lookup_store_inText (last.sendable cookie first) _ name

variable {env : Externals}

/-- **Cookies come back.** A client that has read any responses keeps the cookies of
all of them. When it sends back what it keeps, `getCookie` finds under every name what
the last of the sent cookies under that name says: its value, or nothing when the
client takes its point in time for past, as it does with an invalidation cookie when
the first point in time is past. -/
theorem getCookie_of_replies (past : Bytes → Bool) (folding : CaseFolding env)
    {replies : List Reply}
    (proper : ∀ reply ∈ replies, reply.Proper formatDateTime) :
    ∃ responses, decodeStream readResponse
        (replies.flatMap fun reply => (reply.response formatDateTime).stream) = some responses ∧
      ∀ (isHttp : Bool) (origin : env.IPAddress) (received buffer rest : Bytes)
        (parser after : HTTPParser),
        parseImpl env {} received = .more parser →
        parseImpl env parser buffer = .done .good after rest →
        firstNamed after.data.headers Header.cookie =
          (responses.foldl (CookieJar.visit past) .empty).header →
        ∀ name, (parser.parse (requestOf isHttp origin) buffer).request.getCookie name =
            (lastSet formatDateTime past (replies.filterMap fun reply => reply.cookies.head?)
              name).elim {} (fun value => { name, value }) ∧
          (past (formatDateTime 0) = true →
            (replies.filterMap fun reply => reply.cookies.head?).reverse.find?
                (fun cookie => decide (cookie.name = name)) =
              some (Cookie.getInvalidationCookie name) →
            (parser.parse (requestOf isHttp origin) buffer).request.getCookie name = {}) := by
  have framed : ∀ response ∈ replies.map fun reply => reply.response formatDateTime,
      HTTPResponse.Framed response := by
    intro response member
    obtain ⟨reply, inside, rfl⟩ := List.mem_map.mp member
    exact (proper reply inside).framed_response
  have read := HTTPResponse.decodeStream_framed _ framed
  rw [List.flatMap_map, List.map_map] at read
  refine ⟨_, read, ?_⟩
  intro isHttp origin received buffer rest parser after running accepted sent name
  let jar := (replies.map fun reply => (reply.response formatDateTime).wire.meant).foldl
    (CookieJar.visit past) .empty
  have kept : jar.held.lookup name = lastSet formatDateTime past
      (replies.filterMap fun reply => reply.cookies.head?) name := lookup_visits proper name
  obtain ⟨head, body, -, collected, delivered⟩ :=
    folding.request_delivers running accepted isHttp origin
  have carried : sentCookies head.headers = jar.header.elim [] Cookie.fromString := by
    have same : firstNamed head.headers Header.cookie = jar.header := by
      rw [← collected]
      exact sent
    rw [sentCookies, same]
    cases jar.header <;> rfl
  have found : (parser.parse (requestOf isHttp origin) buffer).request.getCookie name =
      (lastSet formatDateTime past (replies.filterMap fun reply => reply.cookies.head?)
        name).elim {} fun value => { name, value } := by
    rw [HTTPRequest.getCookie, delivered.cookies, carried, jar.find?_fromString_header, kept]
    cases lastSet formatDateTime past _ name <;> rfl
  refine ⟨found, ?_⟩
  intro gone last
  rw [found, lastSet_getInvalidationCookie gone last]
  rfl

/-- The first point in time, as the date library writes it. -/
def epoch : Bytes := ascii "Thu, 01 Jan 1970 00:00:00 GMT"

/-- A session cookie that is set and dropped again, and another cookie. -/
def sampleReplies : List Reply :=
  let base := HTTPResponse.stockReply .ok
  [⟨base, [{ name := ascii "SID", value := ascii "1", httpOnly := true }]⟩,
    ⟨base, [{ name := ascii "lang", value := ascii "de", path := ascii "/" },
      { name := ascii "lang", value := ascii "en" }]⟩,
    ⟨base, [Cookie.getInvalidationCookie (ascii "SID")]⟩]

theorem proper_sampleReplies : ∀ reply ∈ sampleReplies, reply.Proper fun _ => epoch := by
  have framed : HTTPResponse.Framed (HTTPResponse.stockReply .ok) :=
    (HTTPResponse.stockReply_framed_iff .ok).mpr rfl
  have unset : ∀ header ∈ (HTTPResponse.stockReply .ok).headerPairs,
      CookieJar.isSetCookie header.1 = false := by decide +kernel
  have date : Solid epoch ∧ byte ';' ∉ epoch := by decide +kernel
  have sendable : ∀ reply ∈ sampleReplies, ∀ cookie ∈ reply.cookies.head?,
      Keepable (cookie.name, cookie.value) ∧ cookie.value ≠ [] ∧
        (Solid cookie.path ∧ byte ';' ∉ cookie.path) ∧
        Solid cookie.domain ∧ byte ';' ∉ cookie.domain := by
    decide +kernel
  intro reply member
  have base : reply.base = HTTPResponse.stockReply .ok := by
    revert reply
    decide +kernel
  refine ⟨base ▸ framed, base ▸ unset, ?_⟩
  intro cookie first
  obtain ⟨keepable, valued, path, domain⟩ := sendable reply member cookie first
  exact ⟨keepable, valued, path, domain, fun _ => date⟩

theorem getCookie_of_replies_session :
    let buffer := ascii "GET / HTTP/1.0\r\nHost: a\r\nCookie: lang=de\r\n\r\n"
    let request := (HTTPParser.parse {} (requestOf true [] : HTTPRequest .sample) buffer).request
    request.getCookie (ascii "lang") = { name := ascii "lang", value := ascii "de" } ∧
      request.getCookie (ascii "SID") = {} := by
  intro buffer request
  let after : HTTPParser := ⟨{
    headers := [(ascii "Host", ascii "a"), (ascii "Cookie", ascii "lang=de")]
    method := ascii "GET", uri := ascii "/", httpVersionMajor := 1 }, .body⟩
  obtain ⟨responses, read, back⟩ :=
    getCookie_of_replies (· == epoch) caseFolding_sample proper_sampleReplies
  have kept : (decodeStream readResponse
      (sampleReplies.flatMap fun reply => (reply.response fun _ => epoch).stream)).map
        (fun responses => (responses.foldl (CookieJar.visit (· == epoch)) .empty).header) =
      some (some (ascii "lang=de")) := by
    decide +kernel
  rw [read] at kept
  have sent : firstNamed after.data.headers Header.cookie =
      (responses.foldl (CookieJar.visit (· == epoch)) .empty).header :=
    (by decide +kernel : _ = some (ascii "lang=de")).trans (Option.some.inj kept).symm
  have found := back true [] [] buffer [] {} after rfl (by decide +kernel) sent
  refine ⟨(found _).1.trans ?_, (found _).2 ?_ ?_⟩
  · decide +kernel
  · exact beq_self_eq_true epoch
  · decide +kernel

end Reply

end Webserver.HTTP
