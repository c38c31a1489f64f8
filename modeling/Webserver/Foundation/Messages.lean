import Webserver.Foundation.Codec
import Webserver.Foundation.Lines

/-! # Messages with a head of lines

A start line, field lines up to an empty line, and a body whose length the head
tells. What is written as such a message is read back in front of any rest, each
value without the white space around it.
-/

namespace Webserver.Foundation

open Lines

def isBlank (input : UInt8) : Bool := input == SP || input == HT

/-- A field value without the white space around it. -/
def trimBlanks (text : Bytes) : Bytes :=
  ((text.dropWhile isBlank).reverse.dropWhile isBlank).reverse

theorem trimBlanks_eq_self {text : Bytes} (solid : ∀ input ∈ text, isBlank input = false) :
    trimBlanks text = text := by
  have kept {part : Bytes} (inside : ∀ input ∈ part, isBlank input = false) :
      part.dropWhile isBlank = part := by
    cases part with
    | nil => rfl
    | cons first part =>
        exact List.dropWhile_cons_of_neg (by simp [inside first List.mem_cons_self])
  rw [trimBlanks, kept solid, kept fun input member => solid input (List.mem_reverse.mp member),
    List.reverse_reverse]

theorem trimBlanks_of_ends {text : Bytes} (first : ∀ input ∈ text.head?, isBlank input = false)
    (last : ∀ input ∈ text.getLast?, isBlank input = false) : trimBlanks text = text := by
  have kept {part : Bytes} (front : ∀ input ∈ part.head?, isBlank input = false) :
      part.dropWhile isBlank = part := by
    cases part with
    | nil => rfl
    | cons input part => exact List.dropWhile_cons_of_neg (by simp [front input rfl])
  rw [trimBlanks, kept first, kept (List.head?_reverse ▸ last), List.reverse_reverse]

structure WireMessage where
  start : Bytes
  fields : List (Bytes × Bytes)
  body : Bytes
  deriving DecidableEq

namespace WireMessage

/-- The same message with its fields in another order. -/
structure Reordered (message other : WireMessage) : Prop where
  start : message.start = other.start
  fields : message.fields.Perm other.fields
  body : message.body = other.body

/-- Each member of a list has its counterpart in a related one. -/
theorem exists_of_forall₂ {α β : Type*} {relation : α → β → Prop} {values : List α}
    {others : List β} (related : List.Forall₂ relation values others) :
    ∀ value ∈ values, ∃ other ∈ others, relation value other := by
  intro value member
  induction related with
  | nil => cases member
  | cons first later ih =>
      rcases List.mem_cons.mp member with rfl | inside
      · exact ⟨_, List.mem_cons_self, first⟩
      · obtain ⟨other, present, same⟩ := ih inside
        exact ⟨other, List.mem_cons_of_mem _ present, same⟩

/-! ## The reader -/

/-- The lines in front of the first empty one, at most `fuel` of them, and what
follows it. -/
def cutHead : Nat → Bytes → Option (List Bytes × Bytes)
  | 0, _ => none
  | fuel + 1, input =>
      match cutLine input with
      | none => none
      | some ([], rest) => some ([], rest)
      | some (line, rest) => (cutHead fuel rest).map fun (lines, rest) => (line :: lines, rest)

/-- A field line is cut at its first colon. -/
def readField (line : Bytes) : Option (Bytes × Bytes) :=
  match line.takeWhile (· != byte ':'), line.dropWhile (· != byte ':') with
  | [], _ => none
  | _, [] => none
  | name, _ :: value => some (name, trimBlanks value)

/-- One message off the front of some bytes, when the head tells the length of its
body. -/
def read (bodyLength : Bytes → List (Bytes × Bytes) → Option Nat) (input : Bytes) :
    Option (WireMessage × Bytes) := do
  let (lines, rest) ← cutHead (input.length + 1) input
  let start ← lines.head?
  let fields ← lines.tail.mapM readField
  let length ← bodyLength start fields
  let (body, rest) ← takeExact length rest
  some (⟨start, fields, body⟩, rest)

/-! ## The writer -/

def fieldLine (field : Bytes × Bytes) : Bytes := field.1 ++ ascii ": " ++ field.2

/-- The bytes of a message. -/
def bytes (message : WireMessage) : Bytes :=
  message.start ++ (CRLF ++ (message.fields.flatMap (fun field => fieldLine field ++ CRLF) ++
    (CRLF ++ message.body)))

/-- The message that a reader is meant to get. -/
def meant (message : WireMessage) : WireMessage :=
  { message with fields := message.fields.map fun field => (field.1, trimBlanks field.2) }

/-- Nothing in the head is taken for a line end or a colon. -/
structure Writable (message : WireMessage) : Prop where
  start : message.start ≠ [] ∧ CR ∉ message.start
  names : ∀ field ∈ message.fields, field.1 ≠ [] ∧ CR ∉ field.1 ∧ byte ':' ∉ field.1
  values : ∀ field ∈ message.fields, CR ∉ field.2

/-! ## Round trip -/

theorem cutHead_append {lines : List Bytes} (whole : ∀ line ∈ lines, line ≠ [] ∧ CR ∉ line)
    {fuel : Nat} (enough : lines.length < fuel) (rest : Bytes) :
    cutHead fuel (lines.flatMap (· ++ CRLF) ++ (CRLF ++ rest)) = some (lines, rest) := by
  induction lines generalizing fuel with
  | nil =>
      cases fuel with
      | zero => cases enough
      | succ fuel => rfl
  | cons line lines ih =>
      cases fuel with
      | zero => cases enough
      | succ fuel =>
          obtain ⟨nonempty, single⟩ := whole line List.mem_cons_self
          have later := ih (fun other member => whole other (List.mem_cons_of_mem line member))
            (Nat.lt_of_succ_lt_succ enough)
          have cut := cutLine_append (single_of_not_mem single)
            (lines.flatMap (· ++ CRLF) ++ (CRLF ++ rest))
          rw [List.flatMap_cons, List.append_assoc, List.append_assoc, cutHead, cut]
          obtain ⟨first, line, rfl⟩ := List.exists_cons_of_ne_nil nonempty
          simp only [later, Option.map_some]

theorem readField_fieldLine {field : Bytes × Bytes} (nonempty : field.1 ≠ [])
    (name : byte ':' ∉ field.1) :
    readField (fieldLine field) = some (field.1, trimBlanks field.2) := by
  obtain ⟨key, value⟩ := field
  have before : ∀ input ∈ key, (input != byte ':') = true := by
    intro input member
    apply bne_iff_ne.mpr
    rintro rfl
    exact name member
  have line : fieldLine (key, value) = key ++ byte ':' :: SP :: value := by
    rw [fieldLine, List.append_assoc]
    rfl
  have front : (fieldLine (key, value)).takeWhile (· != byte ':') = key := by
    rw [line, List.takeWhile_append_of_pos before, List.takeWhile_cons_of_neg (by simp),
      List.append_nil]
  have back : (fieldLine (key, value)).dropWhile (· != byte ':') = byte ':' :: SP :: value := by
    rw [line, List.dropWhile_append_of_pos before, List.dropWhile_cons_of_neg (by simp)]
  have trimmed : trimBlanks (SP :: value) = trimBlanks value := rfl
  rw [readField, front, back]
  obtain ⟨first, key, rfl⟩ := List.exists_cons_of_ne_nil nonempty
  exact congrArg (fun text => some (first :: key, text)) trimmed

theorem mapM_readField {fields : List (Bytes × Bytes)}
    (names : ∀ field ∈ fields, field.1 ≠ [] ∧ byte ':' ∉ field.1) :
    (fields.map fieldLine).mapM readField =
      some (fields.map fun field => (field.1, trimBlanks field.2)) := by
  induction fields with
  | nil => rfl
  | cons field fields ih =>
      obtain ⟨nonempty, name⟩ := names field List.mem_cons_self
      have later := ih fun other member => names other (List.mem_cons_of_mem field member)
      rw [List.map_cons, List.mapM_cons, readField_fieldLine nonempty name, later]
      rfl

/-- **A written message reads back**, in front of any rest, when its head tells the
length of its body. -/
theorem read_bytes {bodyLength : Bytes → List (Bytes × Bytes) → Option Nat}
    {message : WireMessage} (writable : Writable message)
    (sized : bodyLength message.start message.meant.fields = some message.body.length)
    (rest : Bytes) : read bodyLength (message.bytes ++ rest) = some (message.meant, rest) := by
  obtain ⟨start, names, values⟩ := writable
  have whole : ∀ line ∈ message.start :: message.fields.map fieldLine, line ≠ [] ∧ CR ∉ line := by
    intro line member
    rcases List.mem_cons.mp member with rfl | inside
    · exact start
    · obtain ⟨field, present, rfl⟩ := List.mem_map.mp inside
      obtain ⟨nonempty, name, -⟩ := names field present
      refine ⟨by simp [fieldLine, nonempty], ?_⟩
      simp only [fieldLine, List.mem_append, not_or]
      exact ⟨⟨name, by decide⟩, values field present⟩
  have shape : message.bytes ++ rest =
      (message.start :: message.fields.map fieldLine).flatMap (· ++ CRLF) ++
        (CRLF ++ (message.body ++ rest)) := by
    simp only [bytes, List.flatMap_cons, List.flatMap_map, List.append_assoc]
  have enough : (message.start :: message.fields.map fieldLine).length <
      (message.bytes ++ rest).length + 1 := by
    have bound : (message.start :: message.fields.map fieldLine).length ≤
        ((message.start :: message.fields.map fieldLine).flatMap (· ++ CRLF)).length :=
      length_le_length_flatMap (fun line => by simp [CRLF]) _
    rw [shape, List.length_append]
    omega
  have head := cutHead_append whole enough (message.body ++ rest)
  rw [← shape] at head
  have fields := mapM_readField fun field present =>
    ⟨(names field present).1, (names field present).2.2⟩
  rw [read, head]
  simp only [Option.bind_eq_bind, Option.bind_some, List.head?_cons, List.tail_cons, fields]
  have told : bodyLength message.start
      (message.fields.map fun field => (field.1, trimBlanks field.2)) =
        some message.body.length := sized
  rw [told, Option.bind_some, takeExact_append]
  rfl

theorem bytes_ne_nil (message : WireMessage) : message.bytes ≠ [] := by
  simp [bytes, CRLF]

end WireMessage

end Webserver.Foundation
