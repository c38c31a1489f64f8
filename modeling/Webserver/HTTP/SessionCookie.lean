import Webserver.HTTP.CookieSegments
import Webserver.HTTP.Filling

/-! # Cookies under the names that were sent

The names a client may send are tokens, and a token may contain characters that
the expression of `Cookie::fromString` does not take for part of a name. The
search is not anchored, so it then reports the end of a name, or finds a pair
inside a value. Both happen without harm exactly when what is cut out was sent
as a pair too.
-/

namespace Webserver.HTTP.Grammar

open Foundation Schema HTTPParser Incremental

variable {env : Externals}

/-- The bytes a cookie value may consist of: visible ASCII other than the double
quote, the comma, the semicolon and the backslash. -/
def CookieOctet (input : UInt8) : Prop :=
  input.toNat = 0x21 ∨ (0x23 ≤ input.toNat ∧ input.toNat ≤ 0x2B) ∨
    (0x2D ≤ input.toNat ∧ input.toNat ≤ 0x3A) ∨ (0x3C ≤ input.toNat ∧ input.toNat ≤ 0x5B) ∨
    (0x5D ≤ input.toNat ∧ input.toNat ≤ 0x7E)

instance : DecidablePred CookieOctet := fun _ =>
  inferInstanceAs (Decidable (_ ∨ _ ∨ _ ∨ _ ∨ _))

/-- A cookie as a client sends it. -/
structure SentCookie where
  name : Text1 TokenByte
  value : Text CookieOctet

namespace SentCookie

def pair (cookie : SentCookie) : CookiePair := (cookie.name.bytes, cookie.value.bytes)

theorem bounded (cookie : SentCookie) : Cookie.Bounded cookie.pair := by
  refine ⟨?_, ?_⟩
  · intro present
    exact absurd (cookie.name.members _ present) (by decide)
  · intro present
    exact absurd (cookie.value.members _ present) (by decide)

theorem separator_not_mem (cookie : SentCookie) : byte '=' ∉ cookie.pair.1 := by
  intro present
  exact absurd (cookie.name.members _ present) (by decide)

/-- What is read of a sent cookie. -/
theorem pairOfSegment_writePair (cookie : SentCookie) :
    Cookie.pairOfSegment (Cookie.writePair cookie.pair) =
      if cookie.name.bytes.getLast?.any Cookie.isNameChar then
        some (cookie.name.bytes.rtakeWhile Cookie.isNameChar, cookie.value.bytes)
      else Cookie.pairOfSegment cookie.value.bytes :=
  Cookie.pairOfSegment_writePair cookie.separator_not_mem

end SentCookie

/-- The pairs of a list of sent cookies. -/
def pairsOf (sent : List SentCookie) : List CookiePair := sent.map SentCookie.pair

/-- Every cookie read from a sent list has the name and the value of a sent one. -/
def ReportsSent (sent : List SentCookie) : Prop :=
  ∀ cookie ∈ Cookie.fromString (Cookie.writePairs (pairsOf sent)),
    (cookie.name, cookie.value) ∈ pairsOf sent

/-- After `Parse` has returned `good` on a message whose `Cookie` header is the
sent list, a cookie is found under the name of the session cookie only if one of
that name was sent. -/
def FindsSent (env : Externals) (sent : List SentCookie) : Prop :=
  ∀ (isHttp : Bool) (origin : env.IPAddress) (received buffer rest : Bytes)
    (parser after : HTTPParser),
    parseImpl env {} received = .more parser →
    parseImpl env parser buffer = .done .good after rest →
    let exit := parser.parse (requestOf isHttp origin) buffer
    exit.result = .ok .good →
    firstNamed after.data.headers Header.cookie = some (Cookie.writePairs (pairsOf sent)) →
    exit.request.getCookie (ascii "SID") ≠ {} →
    ∃ cookie ∈ sent, cookie.name.bytes = ascii "SID"

/-- Whatever is cut out of a sent pair was sent as a pair: the name characters
at the end of a name with its value, and, where a name ends with another
character, the first pair inside the value. -/
structure CutsSent (sent : List SentCookie) : Prop where
  names : ∀ cookie ∈ sent, cookie.name.bytes.getLast?.any Cookie.isNameChar →
    (cookie.name.bytes.rtakeWhile Cookie.isNameChar, cookie.value.bytes) ∈ pairsOf sent
  values : ∀ cookie ∈ sent, ¬ cookie.name.bytes.getLast?.any Cookie.isNameChar →
    ∀ front rest, Cookie.DividesAt front rest cookie.value.bytes →
      (front.rtakeWhile Cookie.isNameChar, rest) ∈ pairsOf sent

/-- The cookies read from a sent list are the pairs of its segments. -/
theorem mem_fromString_sent {sent : List SentCookie} {cookie : Cookie} :
    cookie ∈ Cookie.fromString (Cookie.writePairs (pairsOf sent)) ↔
      ∃ source ∈ sent, ∃ pair,
        Cookie.pairOfSegment (Cookie.writePair source.pair) = some pair ∧
          Cookie.ofPair pair = cookie := by
  have bounded : ∀ pair ∈ pairsOf sent, Cookie.Bounded pair := by
    intro pair member
    obtain ⟨source, -, rfl⟩ := List.mem_map.mp member
    exact source.bounded
  rw [Cookie.fromString_writePairs bounded, pairsOf, List.filterMap_map]
  simp only [List.mem_map, List.mem_filterMap, Function.comp_apply]
  constructor
  · intro found
    obtain ⟨pair, ⟨source, member, cut⟩, same⟩ := found
    exact ⟨source, member, pair, cut, same⟩
  · intro found
    obtain ⟨source, member, pair, cut, same⟩ := found
    exact ⟨pair, ⟨source, member, cut⟩, same⟩

theorem reportsSent_iff (sent : List SentCookie) : ReportsSent sent ↔ CutsSent sent := by
  constructor
  · intro reports
    have cutSent : ∀ source ∈ sent, ∀ pair,
        Cookie.pairOfSegment (Cookie.writePair source.pair) = some pair → pair ∈ pairsOf sent :=
      fun source member pair cut =>
        reports (Cookie.ofPair pair) (mem_fromString_sent.mpr ⟨source, member, pair, cut, rfl⟩)
    refine ⟨?_, ?_⟩
    · intro source member named
      apply cutSent source member
      rw [source.pairOfSegment_writePair, if_pos named]
    · intro source member unnamed front rest divides
      apply cutSent source member
      rw [source.pairOfSegment_writePair, if_neg unnamed]
      exact (Cookie.pairOfSegment_eq_some_iff _ _).mpr ⟨front, divides, rfl⟩
  · intro cuts cookie read
    obtain ⟨source, member, pair, cut, rfl⟩ := mem_fromString_sent.mp read
    rw [source.pairOfSegment_writePair] at cut
    by_cases named : source.name.bytes.getLast?.any Cookie.isNameChar
    · rw [if_pos named] at cut
      cases cut
      exact cuts.names source member named
    · rw [if_neg named, Cookie.pairOfSegment_eq_some_iff] at cut
      obtain ⟨front, divides, run⟩ := cut
      have cutOut := cuts.values source member named front pair.2 divides
      rw [run] at cutOut
      exact cutOut

theorem ReportsSent.findsSent {sent : List SentCookie} (reports : ReportsSent sent)
    (folding : CaseFolding env) : FindsSent env sent := by
  intro isHttp origin received buffer rest parser after running accepted exit good carried found
  obtain ⟨head, body, -, collected, delivered⟩ :=
    folding.request_delivers running accepted isHttp origin
  have cookies := delivered.cookies (ascii "SID")
  rw [collected] at carried
  rw [sentCookies, carried] at cookies
  cases held : exit.request.cookies.lookup (ascii "SID") with
  | none =>
      rw [HTTPRequest.getCookie, held] at found
      exact (found rfl).elim
  | some cookie =>
      have first := cookies.symm.trans held
      have named : cookie.name = ascii "SID" := by simpa using List.find?_some first
      have sentPair := reports cookie (List.mem_of_find?_eq_some first)
      obtain ⟨source, member, same⟩ := List.mem_map.mp sentPair
      exact ⟨source, member, (congrArg Prod.fst same).trans named⟩

/-- **Reported cookies.** The cookies read from a sent list have the names and
values of sent ones, and a session cookie is found only if one was sent, exactly
when what is cut out of the sent pairs was sent as pairs too. -/
theorem reports_and_finds_iff (folding : CaseFolding env) (sent : List SentCookie) :
    ReportsSent sent ∧ FindsSent env sent ↔ CutsSent sent := by
  rw [← reportsSent_iff]
  exact ⟨And.left, fun reports => ⟨reports, reports.findsSent folding⟩⟩

/-- A session cookie whose name has a prefix outside the class. -/
def SentCookie.prefixed : SentCookie where
  name := ⟨⟨ascii "a!SID", by decide +kernel⟩, by decide⟩
  value := ⟨ascii "x", by decide +kernel⟩

theorem reports_and_finds_iff_prefixed :
    ReportsSent [.prefixed] ∧ FindsSent .sample [.prefixed] ↔ CutsSent [.prefixed] :=
  reports_and_finds_iff caseFolding_sample _

/-- A cookie is reported under the end of its name. -/
theorem not_reportsSent : ¬ ∀ sent : List SentCookie, ReportsSent sent := by
  intro always
  have cut := ((reportsSent_iff [.prefixed]).mp (always [.prefixed])).names .prefixed (by simp)
    (by decide)
  revert cut
  decide

end Webserver.HTTP.Grammar
