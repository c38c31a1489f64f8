import Webserver.Foundation.Messages
import Webserver.HTTP.Replies
import Webserver.HTTP.Serialisation

/-! # What a client reads

A client that keeps the connection open takes one response after the other off the
stream: a status line, header fields, and a body of the length that the status and
the header tell. Responses that tell their length are read back one by one.
-/

namespace Webserver.HTTP

open Foundation Schema

/-! ## The reader -/

/-- The status code in a status line. -/
def statusOf (start : Bytes) : Nat := decimal ((start.drop 9).take 3)

/-- A status whose responses have no body. -/
def bodiless (status : Nat) : Bool := status / 100 == 1 || status == 204 || status == 304

def isContentLength (name : Bytes) : Bool := name.map lower == ascii "content-length"

/-- The length told by the only field for it. -/
def contentLengthOf (fields : List HTTPHeader) : Option Nat :=
  match fields.filter fun field => isContentLength field.1 with
  | [(_, value)] =>
      if !value.isEmpty && value.all fun digit => decide (DigitByte digit) then
        some (decimal value)
      else none
  | _ => none

def responseLength (start : Bytes) (fields : List HTTPHeader) : Option Nat :=
  if bodiless (statusOf start) then some 0 else contentLengthOf fields

/-- One response off the front of some bytes. -/
def readResponse (input : Bytes) : Option (WireMessage × Bytes) :=
  WireMessage.read responseLength input

namespace HTTPResponse

/-- A response as a message. -/
def wire (response : HTTPResponse) : WireMessage where
  start := statusLine response.status
  fields := response.headerPairs
  body := response.content

/-- Responses that a client can tell from what follows them: the names of the header
are tokens, its values have no control bytes, and a response with a body has exactly
one field that tells the length of it. -/
structure Framed (response : HTTPResponse) : Prop where
  names : ∀ header ∈ response.headerPairs, header.1 ≠ [] ∧
    ∀ input ∈ header.1, Grammar.TokenByte input
  values : ∀ header ∈ response.headerPairs, ∀ input ∈ header.2, Grammar.FieldByte input
  empty : bodiless response.status.number = true → response.content = []
  sized : bodiless response.status.number = false → ∃ name,
    isContentLength name = true ∧
      response.headers.lookup name = some (toDecimal response.content.length) ∧
      ∀ header ∈ response.headerPairs, isContentLength header.1 = true → header.1 = name

/-- The same response with its header map iterated in another order. -/
structure Reordered (response other : HTTPResponse) : Prop where
  status : response.status = other.status
  headers : response.headers.entries.Perm other.headers.entries
  content : response.content = other.content

/-! ## Lengths -/

theorem byte_digit {character : Char} (isDigit : character.isDigit = true) :
    DigitByte (byte character) ∧ (byte character).toNat = character.toNat := by
  have bounds := Char.isDigit_iff_toNat.mp isDigit
  have zero : '0'.toNat = 48 := rfl
  have nine : '9'.toNat = 57 := rfl
  rw [zero, nine] at bounds
  have same : (byte character).toNat = character.toNat := by
    rw [byte, UInt8.toNat_ofNat']
    omega
  exact ⟨by unfold DigitByte; omega, same⟩

theorem toDecimal_digit (length : Nat) : ∀ digit ∈ toDecimal length, DigitByte digit := by
  intro digit member
  obtain ⟨character, inside, rfl⟩ := List.mem_map.mp member
  exact (byte_digit (Nat.isDigit_of_mem_toDigits (by decide) (by decide) inside)).1

theorem decimalFrom_map_byte {characters : List Char}
    (digits : ∀ character ∈ characters, character.isDigit = true) (accumulated : Nat) :
    decimalFrom accumulated (characters.map byte) =
      Nat.ofDigitChars 10 characters accumulated := by
  induction characters generalizing accumulated with
  | nil => rfl
  | cons character characters ih =>
      have here := (byte_digit (digits character List.mem_cons_self)).2
      have zero : '0'.toNat = 48 := rfl
      rw [Nat.ofDigitChars_cons, zero,
        ← ih fun later member => digits later (List.mem_cons_of_mem character member)]
      simp only [decimalFrom, List.map_cons, List.foldl_cons, here, Nat.mul_comm]

theorem decimal_toDecimal (length : Nat) : decimal (toDecimal length) = length := by
  rw [toDecimal, decimal, decimalFrom_map_byte, Nat.ofDigitChars_ten_toDigits]
  exact fun character member => Nat.isDigit_of_mem_toDigits (by decide) (by decide) member

theorem toDecimal_ne_nil (length : Nat) : toDecimal length ≠ [] := by
  simp [toDecimal, Nat.toDigits_ne_nil]

theorem trimBlanks_toDecimal (length : Nat) :
    trimBlanks (toDecimal length) = toDecimal length := by
  apply trimBlanks_eq_self
  intro digit member
  have bounds := toDecimal_digit length digit member
  apply Bool.eq_false_iff.mpr
  intro blank
  rcases Bool.or_eq_true_iff.mp blank with space | tab
  · rw [eq_of_beq space] at bounds
    exact absurd bounds (by decide)
  · rw [eq_of_beq tab] at bounds
    exact absurd bounds (by decide)

/-! ## Reading back -/

theorem stream_eq_wire (response : HTTPResponse) : response.stream = response.wire.bytes := by
  rw [stream_eq, headerBytes, WireMessage.bytes, wire]
  have lines : response.headerPairs.flatMap (fun header =>
      header.1 ++ Magic.nameValueSeparator ++ header.2 ++ Magic.crlf) =
        response.headerPairs.flatMap fun field => WireMessage.fieldLine field ++ CRLF := rfl
  rw [lines, List.append_assoc]
  rfl

theorem bodiless_statusLine (status : StatusCode) :
    bodiless (statusOf (statusLine status)) = bodiless status.number := by
  cases status <;> decide +kernel

theorem Framed.writable {response : HTTPResponse} (framed : Framed response) :
    response.wire.Writable where
  start := by
    refine ⟨?_, cr_not_mem_statusLine response.status⟩
    change statusLine response.status ≠ []
    cases response.status <;> decide +kernel
  names header member := by
    obtain ⟨nonempty, token⟩ := framed.names header member
    exact ⟨nonempty, fun inside => (token CR inside).ne.2.2.1 rfl,
      fun inside => (token (byte ':') inside).ne.2.2.2 rfl⟩
  values header member inside := (framed.values header member CR inside).ne.1 rfl

/-- The one field that tells the length. -/
theorem filter_headerPairs {response : HTTPResponse} {name value : Bytes}
    (named : isContentLength name = true) (found : response.headers.lookup name = some value)
    (only : ∀ header ∈ response.headerPairs, isContentLength header.1 = true → header.1 = name) :
    response.headerPairs.filter (fun header => isContentLength header.1) = [(name, value)] := by
  have present : (⟨name, value⟩ : (_ : Bytes) × Bytes) ∈ response.headers.entries :=
    AList.mem_lookup_iff.mp found
  have injective : Function.Injective
      (fun header : (_ : Bytes) × Bytes => (header.1, header.2)) := by
    rintro ⟨key, text⟩ ⟨other, another⟩ same
    cases same
    rfl
  have unique : response.headerPairs.Nodup :=
    (List.NodupKeys.nodup response.headers.nodupKeys).map injective
  have member : (name, value) ∈ response.headerPairs := List.mem_map_of_mem present
  have same : ∀ header ∈ response.headerPairs,
      isContentLength header.1 = decide (header = (name, value)) := by
    intro header inside
    obtain ⟨entry, there, rfl⟩ := List.mem_map.mp inside
    apply Bool.eq_iff_iff.mpr
    rw [decide_eq_true_iff]
    constructor
    · intro length
      have key := only _ inside length
      obtain ⟨key', text⟩ := entry
      obtain rfl : key' = name := key
      have text' := AList.mem_lookup_iff.mpr there
      rw [found] at text'
      rw [Option.some.inj text']
    · intro equal
      rw [equal]
      exact named
  rw [List.filter_congr same, List.filter_eq, List.count_eq_one_of_mem unique member]
  rfl

theorem Framed.responseLength_eq {response : HTTPResponse} (framed : Framed response) :
    responseLength response.wire.start response.wire.meant.fields =
      some response.wire.body.length := by
  have status := bodiless_statusLine response.status
  change responseLength (statusLine response.status) _ = some response.content.length
  rw [responseLength, status]
  cases bodyless : bodiless response.status.number with
  | true =>
      rw [if_pos rfl, framed.empty bodyless]
      rfl
  | false =>
      obtain ⟨name, named, found, only⟩ := framed.sized bodyless
      have told : response.wire.meant.fields.filter (fun field => isContentLength field.1) =
          [(name, toDecimal response.content.length)] := by
        change (response.headerPairs.map _).filter _ = _
        rw [List.filter_map]
        refine (congrArg (List.map _) (filter_headerPairs named found only)).trans ?_
        rw [List.map_singleton, trimBlanks_toDecimal]
      have digits : (toDecimal response.content.length).all fun digit =>
          decide (DigitByte digit) := by
        rw [List.all_eq_true]
        exact fun digit member => decide_eq_true (toDecimal_digit _ digit member)
      rw [if_neg Bool.false_ne_true, contentLengthOf, told]
      simp only [decimal_toDecimal, digits, toDecimal_ne_nil, List.isEmpty_eq_false_iff.mpr,
        ne_eq, not_false_eq_true, Bool.not_false, Bool.and_self, if_true]

/-- **A framed response reads back** in front of anything that follows it. -/
theorem Framed.readResponse_stream {response : HTTPResponse} (framed : Framed response)
    (rest : Bytes) :
    readResponse (response.stream ++ rest) = some (response.wire.meant, rest) := by
  rw [stream_eq_wire]
  exact WireMessage.read_bytes framed.writable framed.responseLength_eq rest

/-- Framed responses sent one after the other read back one by one. -/
theorem decodeStream_framed (responses : List HTTPResponse)
    (framed : ∀ response ∈ responses, Framed response) :
    decodeStream readResponse (responses.flatMap stream) =
      some (responses.map fun response => response.wire.meant) := by
  let encode (response : {response : HTTPResponse // Framed response}) := response.val.stream
  have undone : decodeStream readResponse ((responses.attachWith _ framed).flatMap encode) =
      some ((responses.attachWith _ framed).map fun response => response.val.wire.meant) := by
    apply decodeStream_flatMap
    · intro response
      simp only [encode, stream_eq_wire]
      exact WireMessage.bytes_ne_nil _
    · intro response rest
      exact response.property.readResponse_stream rest
  have same : (responses.attachWith _ framed).map Subtype.val = responses := by simp
  rw [← same, List.flatMap_map, List.map_map]
  exact undone

/-! ## Orders of iteration -/

section Order

variable {response other : HTTPResponse}

theorem Reordered.refl (response : HTTPResponse) : Reordered response response :=
  ⟨rfl, List.Perm.refl _, rfl⟩

theorem Reordered.headerPairs (reordered : Reordered response other) :
    response.headerPairs.Perm other.headerPairs :=
  reordered.headers.map _

/-- The order of the header map does not matter for where a response ends. -/
theorem Framed.reordered (framed : Framed other) (reordered : Reordered response other) :
    Framed response := by
  have inside {header : HTTPHeader} (member : header ∈ response.headerPairs) :
      header ∈ other.headerPairs :=
    reordered.headerPairs.mem_iff.mp member
  refine ⟨fun header member => framed.names header (inside member),
    fun header member => framed.values header (inside member), ?_, ?_⟩
  · rw [reordered.status, reordered.content]
    exact framed.empty
  · rw [reordered.status, reordered.content]
    intro embodied
    obtain ⟨name, named, found, only⟩ := framed.sized embodied
    refine ⟨name, named, ?_, fun header member => only header (inside member)⟩
    rw [AList.perm_lookup reordered.headers]
    exact found

/-- What a client reads differs in the order of the fields only. -/
theorem Reordered.meant (reordered : Reordered response other) :
    response.wire.meant.Reordered other.wire.meant where
  start := congrArg statusLine reordered.status
  fields := reordered.headerPairs.map _
  body := reordered.content

/-- Framed responses read back whatever the order of each header map is. -/
theorem decodeStream_reordered {responses others : List HTTPResponse}
    (framed : ∀ other ∈ others, Framed other)
    (reordered : List.Forall₂ Reordered responses others) :
    ∃ messages, decodeStream readResponse (responses.flatMap stream) = some messages ∧
      List.Forall₂ WireMessage.Reordered messages
        (others.map fun other => other.wire.meant) := by
  refine ⟨responses.map fun response => response.wire.meant, ?_, ?_⟩
  · apply decodeStream_framed
    intro response member
    obtain ⟨other, present, same⟩ := WireMessage.exists_of_forall₂ reordered response member
    exact (framed other present).reordered same
  · rw [List.forall₂_map_left_iff, List.forall₂_map_right_iff]
    exact reordered.imp fun response other same => same.meant

end Order

end HTTPResponse

end Webserver.HTTP
