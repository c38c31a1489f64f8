import Webserver.Foundation.Lines
import Webserver.HTTP.Response

/-! # Cookies of a response

`setCookie` inserts into a map with unique keys, always under the same key. Of
the cookies set on a fresh response the first is the one that is sent, so the
head of the response holds all of them exactly when their texts are the same
one line.
-/

namespace Webserver.HTTP.HTTPResponse

open Foundation Foundation.Lines Schema

variable (formatDateTime : ℚ → Bytes)

/-- A fresh response after setting cookies on it in order. -/
def setCookies (cookies : List Cookie) : HTTPResponse :=
  cookies.foldl (setCookie formatDateTime) {}

/-- The header lines of a byte stream: those after the status line. -/
def headerLines (stream : Bytes) : List Bytes := (headLines stream).tail

/-- The header line of a cookie. -/
def cookieLine (cookie : Cookie) : Bytes :=
  ascii "set-cookie: " ++ cookie.toString formatDateTime

/-- Every cookie set on a fresh response has its header line in what is sent. -/
def SendsAll (cookies : List Cookie) : Prop :=
  ∀ cookie ∈ cookies,
    cookieLine formatDateTime cookie ∈ headerLines (setCookies formatDateTime cookies).stream

/-- The cookies all have one text, and it fits on a line. -/
structure OneText (cookies : List Cookie) : Prop where
  same : ∀ cookie ∈ cookies, ∀ other ∈ cookies,
    other.toString formatDateTime = cookie.toString formatDateTime
  single : ∀ cookie ∈ cookies, ¬ CRLF <:+: cookie.toString formatDateTime

variable {formatDateTime}

/-- A cookie set on a response that has one already is dropped. -/
theorem setCookie_of_mem {response : HTTPResponse} (present : Header.setCookie ∈ response.headers)
    (cookie : Cookie) : setCookie formatDateTime response cookie = response := by
  rw [setCookie, UnorderedMap.emplace, if_pos present]

/-- The header map after some cookies holds the first. -/
theorem setCookies_cons (first : Cookie) (cookies : List Cookie) :
    setCookies formatDateTime (first :: cookies) = setCookie formatDateTime {} first := by
  have present : Header.setCookie ∈ (setCookie formatDateTime {} first).headers := by
    rw [setCookie, UnorderedMap.emplace, if_neg (AList.notMem_empty _)]
    exact AList.mem_insert _ |>.mpr (Or.inl rfl)
  rw [setCookies, List.foldl_cons]
  induction cookies with
  | nil => rfl
  | cons cookie cookies ih => rw [List.foldl_cons, setCookie_of_mem present, ih]

/-- The text of a cookie fits on a line exactly when its header line does. -/
theorem single_cookieLine_iff (cookie : Cookie) :
    ¬ CRLF <:+: cookieLine formatDateTime cookie ↔ ¬ CRLF <:+: cookie.toString formatDateTime := by
  constructor
  · intro single inside
    exact single (inside.trans (List.suffix_append _ _).isInfix)
  · exact single_append (by decide)

/-- The status line of a fresh response, the line of the first cookie and the
empty line. -/
theorem stream_setCookies_cons (first : Cookie) (cookies : List Cookie) :
    (setCookies formatDateTime (first :: cookies)).stream =
      ascii "HTTP/1.0 500 Internal Server Error" ++
        (CRLF ++ (cookieLine formatDateTime first ++ (CRLF ++ (CRLF ++ [])))) := by
  have status : StatusString.internalServerError =
      ascii "HTTP/1.0 500 Internal Server Error" ++ CRLF := by decide
  have separated : ascii "set-cookie: " = Header.setCookie ++ Magic.nameValueSeparator := by decide
  have entries : (setCookie formatDateTime {} first).headers.entries =
      [⟨Header.setCookie, first.toString formatDateTime⟩] := by
    rw [setCookie, UnorderedMap.emplace, if_neg (AList.notMem_empty _),
      AList.entries_insert_of_notMem (AList.notMem_empty _), AList.empty_entries]
  rw [setCookies_cons, stream, toBuffers, entries, cookieLine, separated]
  simp [setCookie, statusStrToBuffer, status, Magic.crlf]

/-- The only header line is that of the first cookie. -/
theorem headerLines_setCookies_cons {first : Cookie} (cookies : List Cookie)
    (single : ¬ CRLF <:+: cookieLine formatDateTime first) :
    headerLines (setCookies formatDateTime (first :: cookies)).stream =
      [cookieLine formatDateTime first] := by
  have status : ¬ CRLF <:+: ascii "HTTP/1.0 500 Internal Server Error" :=
    single_of_not_mem (by decide)
  have nonempty : ascii "HTTP/1.0 500 Internal Server Error" ≠ [] := by decide
  have named : cookieLine formatDateTime first ≠ [] := by simp [cookieLine, ascii]
  rw [stream_setCookies_cons, headerLines, headLines_append status nonempty,
    headLines_append single named, headLines_crlf, List.tail_cons]

/-- Of cookies that are all sent, each has the text of the first, which fits on a
line. -/
theorem SendsAll.text_eq {first : Cookie} {cookies : List Cookie}
    (sends : SendsAll formatDateTime (first :: cookies)) :
    ¬ CRLF <:+: first.toString formatDateTime ∧ ∀ cookie ∈ first :: cookies,
      cookie.toString formatDateTime = first.toString formatDateTime := by
  have own := List.mem_of_mem_tail (sends first List.mem_cons_self)
  have single := single_of_mem_headLines own
  refine ⟨(single_cookieLine_iff first).mp single, ?_⟩
  intro cookie member
  have sent := sends cookie member
  rw [headerLines_setCookies_cons cookies single, List.mem_singleton] at sent
  exact List.append_cancel_left sent

/-- **The cookies that are sent.** All cookies set on a fresh response are sent
exactly when they have one text, which fits on a line. -/
theorem sendsAll_iff (cookies : List Cookie) :
    SendsAll formatDateTime cookies ↔ OneText formatDateTime cookies := by
  cases cookies with
  | nil =>
      refine iff_of_true ?_ ⟨?_, ?_⟩
      · intro cookie member
        cases member
      · intro cookie member
        cases member
      · intro cookie member
        cases member
  | cons first cookies =>
      constructor
      · intro sends
        obtain ⟨single, text⟩ := sends.text_eq
        refine ⟨?_, ?_⟩
        · intro cookie member other present
          rw [text cookie member, text other present]
        · intro cookie member
          rw [text cookie member]
          exact single
      · intro one cookie member
        have single := (single_cookieLine_iff first).mpr (one.single first List.mem_cons_self)
        rw [headerLines_setCookies_cons cookies single, List.mem_singleton, cookieLine, cookieLine,
          one.same first List.mem_cons_self cookie member]

/-- Two cookies of different names and no attributes: the second is not sent. -/
theorem not_sendsAll : ¬ ∀ (formatDateTime : ℚ → Bytes) (cookies : List Cookie),
    (∀ cookie ∈ cookies, cookie.name ≠ [] ∧ cookie.value ≠ []) →
    (cookies.map Cookie.name).Nodup → SendsAll formatDateTime cookies := by
  intro always
  let a : Cookie := { name := ascii "a", value := ascii "1" }
  let b : Cookie := { name := ascii "b", value := ascii "2" }
  have sends := always (fun _ => []) [a, b] (by decide) (by decide)
  have same := sends.text_eq.2 b (by simp)
  revert same
  decide

end Webserver.HTTP.HTTPResponse
