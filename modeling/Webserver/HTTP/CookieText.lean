import Webserver.Foundation.Separated
import Webserver.HTTP.Cookie

/-! # Reading a cookie's text back

The text `Cookie::toString` writes, cut at every semicolon with a space and each
part at its first equality sign. When no written text holds a semicolon and the
name no equality sign, this gives the name, the value and every attribute back,
and absent attributes as absent.
-/

namespace Webserver.HTTP

open Foundation Foundation.Separated

/-- A part of a cookie's text: its key and, behind an equality sign, a value. -/
abbrev TextPart := Bytes × Option Bytes

/-- What the text of a cookie says; an attribute that is empty is absent. -/
structure CookieText where
  name : Bytes := []
  value : Bytes := []
  path : Bytes := []
  domain : Bytes := []
  httpOnly : Bool := false
  secure : Bool := false
  expires : Option Bytes := none
  deriving DecidableEq

namespace CookieText

def parts (text : Bytes) : List TextPart :=
  (splitAtPair (byte ';') SP text).map (cutAtFirst (byte '='))

/-- The first part is the name with the value, the others are looked up by key. -/
def ofParts : List TextPart → CookieText
  | [] => {}
  | (name, value) :: attributes =>
      { name
        value := value.getD []
        path := (attributes.lookup (ascii "Path")).join.getD []
        domain := (attributes.lookup (ascii "Domain")).join.getD []
        httpOnly := (attributes.lookup (ascii "HttpOnly")).isSome
        secure := (attributes.lookup (ascii "Secure")).isSome
        expires := (attributes.lookup (ascii "Expires")).join }

def decode (text : Bytes) : CookieText := ofParts (parts text)

end CookieText

namespace Cookie

variable (formatDateTime : ℚ → Bytes)

/-- What a cookie says in text, with its point in time as it is written. -/
def inText (cookie : Cookie) : CookieText where
  name := cookie.name
  value := cookie.value
  path := cookie.path
  domain := cookie.domain
  httpOnly := cookie.httpOnly
  secure := cookie.secure
  expires := if cookie.expires ≠ -1 then some (formatDateTime cookie.expires) else none

/-- A part that is written under a condition. -/
def optional (present : Prop) [Decidable present] (key : Bytes) (value : Option Bytes) :
    List TextPart :=
  if present then [(key, value)] else []

/-- The attributes that are written, in order. -/
def attributes (cookie : Cookie) : List TextPart :=
  optional (cookie.path ≠ []) (ascii "Path") (some cookie.path) ++
    (optional (cookie.domain ≠ []) (ascii "Domain") (some cookie.domain) ++
      (optional cookie.httpOnly (ascii "HttpOnly") none ++
        (optional cookie.secure (ascii "Secure") none ++
          optional (cookie.expires ≠ -1) (ascii "Expires")
            (some (formatDateTime cookie.expires)))))

/-- The texts of a cookie keep apart: none of them holds a semicolon, and the name
no equality sign. -/
structure Separable (cookie : Cookie) : Prop where
  named : cookie.name ≠ []
  valued : cookie.value ≠ []
  name : byte '=' ∉ cookie.name ∧ byte ';' ∉ cookie.name
  value : byte ';' ∉ cookie.value
  path : byte ';' ∉ cookie.path
  domain : byte ';' ∉ cookie.domain
  expires : cookie.expires ≠ -1 → byte ';' ∉ formatDateTime cookie.expires

/-! ## The parts that are written -/

/-- The text of a part. -/
def partText (part : TextPart) : Bytes :=
  part.1 ++ part.2.elim [] (fun value => byte '=' :: value)

/-- A part that is found again. -/
def Findable (part : TextPart) : Prop :=
  byte '=' ∉ part.1 ∧ byte ';' ∉ part.1 ∧ ∀ value ∈ part.2, byte ';' ∉ value

theorem Findable.free {part : TextPart} (findable : Findable part) :
    byte ';' ∉ partText part := by
  obtain ⟨key, value⟩ := part
  obtain ⟨-, keyFree, valueFree⟩ := findable
  have other : byte ';' ≠ byte '=' := by decide
  cases value with
  | none => simpa [partText] using keyFree
  | some value =>
      have valueFree := valueFree value rfl
      simp [partText, other, keyFree, valueFree]

theorem Findable.cutAtFirst_eq {part : TextPart} (findable : Findable part) :
    cutAtFirst (byte '=') (partText part) = part := by
  obtain ⟨key, value⟩ := part
  cases value with
  | none =>
      rw [partText, Option.elim_none, List.append_nil]
      exact cutAtFirst_of_not_mem findable.1
  | some value => exact cutAtFirst_append findable.1 value

/-- Findable parts with separators between them are read back. -/
theorem parts_join {part : TextPart} {others : List TextPart} (findable : Findable part)
    (allFindable : ∀ other ∈ others, Findable other) :
    CookieText.parts (partText part ++
      others.flatMap (fun other => byte ';' :: SP :: partText other)) = part :: others := by
  have texts : others.flatMap (fun other => byte ';' :: SP :: partText other) =
      (others.map partText).flatMap (fun text => byte ';' :: SP :: text) := by
    rw [List.flatMap_map]
  have free : ∀ text ∈ others.map partText, byte ';' ∉ text := by
    intro text member
    obtain ⟨other, present, rfl⟩ := List.mem_map.mp member
    exact (allFindable other present).free
  have cut : others.map (cutAtFirst (byte '=') ∘ partText) = others := by
    refine (List.map_congr_left ?_).trans (List.map_id others)
    intro other present
    exact (allFindable other present).cutAtFirst_eq
  rw [CookieText.parts, texts, splitAtPair_join findable.free _ free, List.map_cons,
    findable.cutAtFirst_eq, List.map_map, cut]

variable {formatDateTime}

section Optional

variable (present : Prop) [Decidable present] (key : Bytes) (value : Option Bytes)

theorem flatMap_optional (write : TextPart → Bytes) :
    (optional present key value).flatMap write = if present then write (key, value) else [] := by
  unfold optional
  split
  · exact List.flatMap_singleton write (key, value)
  · rfl

theorem lookup_optional_self :
    (optional present key value).lookup key = if present then some value else none := by
  unfold optional
  split
  · exact List.lookup_cons_self
  · rfl

theorem lookup_optional_of_ne {other : Bytes} (different : other ≠ key) :
    (optional present key value).lookup other = none := by
  unfold optional
  split
  · rw [List.lookup_cons, beq_eq_false_iff_ne.mpr different]
    rfl
  · rfl

theorem findable_of_mem_optional (keyFree : byte '=' ∉ key ∧ byte ';' ∉ key)
    (valueFree : present → ∀ text ∈ value, byte ';' ∉ text) :
    ∀ part ∈ optional present key value, Findable part := by
  intro part member
  unfold optional at member
  split at member
  · next holds =>
    rw [List.mem_singleton] at member
    subst member
    exact ⟨keyFree.1, keyFree.2, valueFree holds⟩
  · cases member

end Optional

/-- The text is the pair of name and value and the attributes that are present. -/
theorem toString_eq {cookie : Cookie} (named : cookie.name ≠ []) (valued : cookie.value ≠ []) :
    cookie.toString formatDateTime = partText (cookie.name, some cookie.value) ++
      (cookie.attributes formatDateTime).flatMap
        (fun part => byte ';' :: SP :: partText part) := by
  have path : ascii "; Path=" = byte ';' :: SP :: (ascii "Path" ++ [byte '=']) := rfl
  have domain : ascii "; Domain=" = byte ';' :: SP :: (ascii "Domain" ++ [byte '=']) := rfl
  have expires : ascii "; Expires=" = byte ';' :: SP :: (ascii "Expires" ++ [byte '=']) := rfl
  have httpOnly : ascii "; HttpOnly" = byte ';' :: SP :: ascii "HttpOnly" := rfl
  have secure : ascii "; Secure" = byte ';' :: SP :: ascii "Secure" := rfl
  have equals : ascii "=" = [byte '='] := rfl
  rw [toString, if_neg (not_or.mpr ⟨named, valued⟩)]
  simp only [attributes, List.flatMap_append, flatMap_optional, partText, Option.elim_some,
    Option.elim_none, path, domain, expires, httpOnly, secure, equals, ite_not,
    List.append_assoc, List.cons_append, List.nil_append, List.append_nil]

theorem Separable.findable {cookie : Cookie} (separable : cookie.Separable formatDateTime) :
    Findable (cookie.name, some cookie.value) ∧
      ∀ part ∈ cookie.attributes formatDateTime, Findable part := by
  have only {text : Bytes} (free : byte ';' ∉ text) : ∀ value ∈ some text, byte ';' ∉ value := by
    intro value same
    cases same
    exact free
  refine ⟨⟨separable.name.1, separable.name.2, only separable.value⟩, ?_⟩
  simp only [attributes, List.forall_mem_append]
  refine ⟨?_, ?_, ?_, ?_, ?_⟩
  · exact findable_of_mem_optional _ _ _ (by decide) fun _ => only separable.path
  · exact findable_of_mem_optional _ _ _ (by decide) fun _ => only separable.domain
  · exact findable_of_mem_optional _ _ _ (by decide) fun _ value never => nomatch never
  · exact findable_of_mem_optional _ _ _ (by decide) fun _ value never => nomatch never
  · exact findable_of_mem_optional _ _ _ (by decide) fun present => only (separable.expires present)

/-- Looking every key up among the attributes. -/
theorem ofParts_attributes (cookie : Cookie) :
    CookieText.ofParts ((cookie.name, some cookie.value) :: cookie.attributes formatDateTime) =
      cookie.inText formatDateTime := by
  have held (text : Bytes) :
      (if text ≠ [] then some (some text) else none).join.getD [] = text := by
    split
    · rfl
    · next empty =>
      rw [not_not.mp empty]
      rfl
  have flag (set : Bool) : (if set then some (none : Option Bytes) else none).isSome = set := by
    cases set <;> rfl
  have expires : (if cookie.expires ≠ -1 then some (some (formatDateTime cookie.expires))
      else none).join = (cookie.inText formatDateTime).expires := by
    rw [inText]
    split <;> rfl
  simp (disch := decide) only [CookieText.ofParts, attributes, List.lookup_append,
    lookup_optional_self, lookup_optional_of_ne, Option.or_none, Option.none_or, held, flag,
    expires, Option.getD_some]
  rfl

/-- **Reading a cookie's text back.** Cutting the text of a separable cookie gives
the name, the value and every attribute that is present, and no two such cookies
that differ in what they say have one text. -/
theorem decode_toString {cookie : Cookie} (separable : cookie.Separable formatDateTime) :
    CookieText.parts (cookie.toString formatDateTime) =
        (cookie.name, some cookie.value) :: cookie.attributes formatDateTime ∧
      CookieText.decode (cookie.toString formatDateTime) = cookie.inText formatDateTime ∧
      ∀ other : Cookie, other.Separable formatDateTime →
        other.toString formatDateTime = cookie.toString formatDateTime →
          other.inText formatDateTime = cookie.inText formatDateTime := by
  have parts {written : Cookie} (apart : written.Separable formatDateTime) :
      CookieText.parts (written.toString formatDateTime) =
        (written.name, some written.value) :: written.attributes formatDateTime := by
    rw [toString_eq apart.named apart.valued]
    exact parts_join apart.findable.1 apart.findable.2
  have decoded {written : Cookie} (apart : written.Separable formatDateTime) :
      CookieText.decode (written.toString formatDateTime) = written.inText formatDateTime := by
    rw [CookieText.decode, parts apart, ofParts_attributes]
  refine ⟨parts separable, decoded separable, ?_⟩
  intro other apart same
  rw [← decoded apart, same, decoded separable]

/-- A value that looks like attributes, and every attribute present. -/
theorem decode_toString_full :
    let gmt : ℚ → Bytes := fun _ => ascii "Tue, 10 Apr 2018 12:00:00 GMT"
    let cookie : Cookie := {
      name := ascii "a", value := ascii "Path=x Secure", path := ascii "/", domain := ascii ".b"
      httpOnly := true, secure := true, expires := 43200 }
    CookieText.parts (cookie.toString gmt) =
        (cookie.name, some cookie.value) :: cookie.attributes gmt ∧
      CookieText.decode (cookie.toString gmt) = cookie.inText gmt ∧
      ∀ other : Cookie, other.Separable gmt → other.toString gmt = cookie.toString gmt →
        other.inText gmt = cookie.inText gmt := by
  intro gmt cookie
  refine decode_toString ⟨?_, ?_, ?_, ?_, ?_, ?_, fun _ => ?_⟩
  all_goals decide +kernel

end Cookie

end Webserver.HTTP
