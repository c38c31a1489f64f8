import Mathlib.Data.Rat.Init
import Webserver.Foundation.Bytes
import Webserver.Foundation.Regex

/-! # Cookies

Parsing of the `Cookie` header of a request, and the text of a `set-cookie`
header. For parsing, the expression `([\w-_.]+)=([^;]*)` is searched again and
again in what follows the last match.
-/

namespace Webserver.HTTP

open Foundation

/-- A cookie with its attributes; `expires` is a finite `double`, -1 when unset. -/
structure Cookie where
  name : Bytes := []
  value : Bytes := []
  path : Bytes := []
  domain : Bytes := []
  httpOnly : Bool := false
  secure : Bool := false
  expires : ℚ := -1
  deriving DecidableEq

namespace Cookie

/-- The class `[\w-_.]`. -/
def isNameChar (input : UInt8) : Bool :=
  (48 ≤ input && input ≤ 57) || (65 ≤ input && input ≤ 90) || (97 ≤ input && input ≤ 122) ||
    input == byte '_' || input == byte '-' || input == byte '.'

/-- The class `[^;]`. -/
def isValueChar (input : UInt8) : Bool := input != byte ';'

/-- The expression matched at the front of the input: name, value and suffix. -/
def matchAt (input : Bytes) : Option (Bytes × Bytes × Bytes) :=
  Regex.greedyPlus isNameChar (fun name rest =>
    match rest with
    | [] => none
    | separator :: rest =>
        if separator = byte '=' then
          Regex.greedyStar isValueChar (fun value suffix => some (name, value, suffix)) [] rest
        else none) input

/-- A match consumes at least the separator, so the suffix gets shorter. -/
theorem suffix_length_lt_of_search {input name value suffix : Bytes}
    (found : Regex.search matchAt input = some (name, value, suffix)) :
    suffix.length < input.length := by
  obtain ⟨skipped, start, rfl, matched⟩ := Regex.search_eq_some found
  obtain ⟨taken, rest, nonempty, rfl, -, afterName⟩ := Regex.greedyPlus_eq_some matched
  cases rest with
  | nil => cases afterName
  | cons separator rest =>
      have isSeparator : separator = byte '=' := by
        by_contra other
        simp only [other, ↓reduceIte] at afterName
        cases afterName
      simp only [isSeparator, ↓reduceIte] at afterName
      obtain ⟨taking, final, rfl, -, last⟩ := Regex.greedyStar_eq_some afterName
      cases last
      simp only [List.length_append, List.length_cons]
      omega

def fromString (input : Bytes) : List Cookie :=
  match _found : Regex.search matchAt input with
  | none => []
  | some (name, value, suffix) => { name, value } :: fromString suffix
termination_by input.length
decreasing_by exact suffix_length_lt_of_search _found

/-- The text of a cookie with its attributes; how a point in time is written is
that of the date library. -/
def toString (formatDateTime : ℚ → Bytes) (cookie : Cookie) : Bytes :=
  if cookie.name = [] ∨ cookie.value = [] then []
  else
    cookie.name ++ ascii "=" ++ cookie.value ++
      (if cookie.path = [] then [] else ascii "; Path=" ++ cookie.path) ++
      (if cookie.domain = [] then [] else ascii "; Domain=" ++ cookie.domain) ++
      (if cookie.httpOnly then ascii "; HttpOnly" else []) ++
      (if cookie.secure then ascii "; Secure" else []) ++
      (if cookie.expires ≠ -1 then ascii "; Expires=" ++ formatDateTime cookie.expires else [])

/-- The cookie that makes a client drop the one of a name. -/
def getInvalidationCookie (name : Bytes) : Cookie :=
  { name, value := ascii "#DELETED#", expires := 0 }

end Cookie

end Webserver.HTTP
