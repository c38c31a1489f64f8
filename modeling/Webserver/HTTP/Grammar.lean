import Webserver.HTTP.Parser

/-! # The grammar of a request

The requests the automaton is meant to accept, as data: a request line, header
fields with their continuation lines, an empty line and a body. Every text
carries the proof that its bytes are of the right class, so each value denotes
one well-formed message (`Head.bytes`) and one record of what it says
(`Head.data`).
-/

namespace Webserver.HTTP.Grammar

open Foundation Schema HTTPParser

/-- Control bytes: 0 to 31 and 127. -/
def CtlByte (input : UInt8) : Prop := input.toNat ≤ 31 ∨ input.toNat = 127

/-- Token bytes: 0 to 127 without the control bytes and the separators. -/
def TokenByte (input : UInt8) : Prop :=
  input.toNat ≤ 127 ∧ ¬ CtlByte input ∧ (input.toNat : Int) ∉ tspecials

/-- Bytes of a header value. -/
def FieldByte (input : UInt8) : Prop := ¬ CtlByte input

/-- Bytes of a request target. -/
def UriByte (input : UInt8) : Prop := ¬ CtlByte input ∧ input ≠ SP

/-- Linear white space that opens a continuation line. -/
def BlankByte (input : UInt8) : Prop := input = SP ∨ input = HT

instance : DecidablePred CtlByte := fun _ => inferInstanceAs (Decidable (_ ∨ _))
instance : DecidablePred TokenByte := fun _ => inferInstanceAs (Decidable (_ ∧ _))
instance : DecidablePred FieldByte := fun _ => inferInstanceAs (Decidable (¬ _))
instance : DecidablePred UriByte := fun _ => inferInstanceAs (Decidable (_ ∧ _))
instance : DecidablePred BlankByte := fun _ => inferInstanceAs (Decidable (_ ∨ _))

theorem isCtl_promote (input : UInt8) : isCtl (promote input) = decide (CtlByte input) := by
  have bound := input.toNat_lt
  unfold isCtl promote CtlByte
  apply decide_eq_decide.mpr
  split <;> omega

/-- The test the automaton makes of a byte that should belong to a token. -/
theorem refused_eq (input : UInt8) :
    (!isChar (promote input) || isCtl (promote input) || isTspecial (promote input)) =
      !decide (TokenByte input) := by
  have bound := input.toNat_lt
  rw [isCtl_promote]
  unfold isChar isTspecial TokenByte promote
  by_cases small : input.toNat < 128
  · have nonneg : (0 : Int) ≤ input.toNat ∧ (input.toNat : Int) ≤ 127 := by omega
    have le : input.toNat ≤ 127 := by omega
    simp only [small, ↓reduceIte, nonneg, and_self, decide_true, Bool.not_true, Bool.false_or,
      le, true_and, Bool.decide_and, decide_not, Bool.not_and, Bool.not_not]
  · have negative :
        ¬ ((0 : Int) ≤ (input.toNat : Int) - 256 ∧ (input.toNat : Int) - 256 ≤ 127) := by
      omega
    have large : ¬ input.toNat ≤ 127 := by omega
    simp only [small, ↓reduceIte, negative, decide_false, Bool.not_false, Bool.true_or, large,
      false_and]

theorem isDigit_promote (input : UInt8) : isDigit (promote input) = decide (DigitByte input) := by
  have bound := input.toNat_lt
  unfold isDigit promote DigitByte
  apply decide_eq_decide.mpr
  split <;> omega

theorem TokenByte.ne {input : UInt8} (token : TokenByte input) :
    input ≠ SP ∧ input ≠ HT ∧ input ≠ CR ∧ input ≠ byte ':' := by
  refine ⟨?_, ?_, ?_, ?_⟩ <;> rintro rfl <;> exact absurd token (by decide)

theorem TokenByte.not_blank {input : UInt8} (token : TokenByte input) : ¬ BlankByte input := by
  intro blank
  rcases blank with space | tab
  · exact token.ne.1 space
  · exact token.ne.2.1 tab

theorem ne_of_digitByte {input : UInt8} (digit : DigitByte input) :
    input ≠ byte '.' ∧ input ≠ CR := by
  refine ⟨?_, ?_⟩ <;> rintro rfl <;> exact absurd digit (by decide)

theorem FieldByte.ne {input : UInt8} (field : FieldByte input) : input ≠ CR ∧ input ≠ HT := by
  refine ⟨?_, ?_⟩ <;> rintro rfl <;> exact absurd field (by decide)

/-- A text whose bytes belong to a class. -/
structure Text (inClass : UInt8 → Prop) where
  bytes : Bytes
  members : ∀ input ∈ bytes, inClass input

/-- A nonempty text whose bytes belong to a class. -/
structure Text1 (inClass : UInt8 → Prop) extends Text inClass where
  nonempty : bytes ≠ []

variable {inClass : UInt8 → Prop}

def Text.nil : Text inClass := ⟨[], by simp⟩

def Text.snoc (text : Text inClass) (input : UInt8) (member : inClass input) : Text inClass where
  bytes := text.bytes ++ [input]
  members := by
    intro other present
    rcases List.mem_append.mp present with earlier | last
    · exact text.members other earlier
    · rw [List.mem_singleton.mp last]
      exact member

def Text1.single (input : UInt8) (member : inClass input) : Text1 inClass where
  toText := Text.nil.snoc input member
  nonempty := by simp [Text.snoc]

def Text1.snoc (text : Text1 inClass) (input : UInt8) (member : inClass input) : Text1 inClass where
  toText := text.toText.snoc input member
  nonempty := by simp [Text.snoc]

@[simp] theorem Text.nil_bytes : (Text.nil : Text inClass).bytes = [] := rfl

@[simp] theorem Text.snoc_bytes (text : Text inClass) (input : UInt8) (member : inClass input) :
    (text.snoc input member).bytes = text.bytes ++ [input] := rfl

@[simp] theorem Text1.single_bytes (input : UInt8) (member : inClass input) :
    (Text1.single input member).bytes = [input] := rfl

@[simp] theorem Text1.snoc_bytes (text : Text1 inClass) (input : UInt8) (member : inClass input) :
    (text.snoc input member).bytes = text.bytes ++ [input] := rfl

/-- A nonempty text is its first byte and the rest. -/
theorem Text1.exists_cons (text : Text1 inClass) :
    ∃ first rest, text.bytes = first :: rest ∧ inClass first ∧ ∀ input ∈ rest, inClass input := by
  cases shape : text.bytes with
  | nil => exact (text.nonempty shape).elim
  | cons first rest =>
      refine ⟨first, rest, rfl, text.members first (by simp [shape]), ?_⟩
      intro input member
      exact text.members input (by simp [shape, member])

/-- The first two parts of a request line, each closed by a space. -/
structure Target where
  method : Text1 TokenByte
  uri : Text UriByte

def Target.openBytes (target : Target) : Bytes :=
  target.method.bytes ++ SP :: target.uri.bytes

def Target.bytes (target : Target) : Bytes := target.openBytes ++ [SP]

structure RequestLine extends Target where
  major : Text1 DigitByte
  minor : Text1 DigitByte

/-- A request line up to its line end. -/
def RequestLine.openBytes (line : RequestLine) : Bytes :=
  line.toTarget.bytes ++ (ascii "HTTP/" ++ (line.major.bytes ++ byte '.' :: line.minor.bytes))

def RequestLine.bytes (line : RequestLine) : Bytes := line.openBytes ++ CRLF

/-- A continuation line: blanks, then a text that does not start with a space. -/
structure Continuation where
  blank : Text1 BlankByte
  text : Text FieldByte
  noSpace : text.bytes.head? ≠ some SP

def Continuation.bytes (line : Continuation) : Bytes :=
  line.blank.bytes ++ (line.text.bytes ++ CRLF)

/-- A header line and the continuation lines of its value. -/
structure HeaderField where
  name : Text1 TokenByte
  value : Text FieldByte
  continuations : List Continuation

namespace HeaderField

def bytes (field : HeaderField) : Bytes :=
  field.name.bytes ++ byte ':' :: SP :: (field.value.bytes ++
    (CRLF ++ field.continuations.flatMap Continuation.bytes))

/-- The whole value: the text of the continuation lines is appended as it is. -/
def fullValue (field : HeaderField) : Bytes :=
  field.value.bytes ++ field.continuations.flatMap (fun line => line.text.bytes)

def header (field : HeaderField) : HTTPHeader := (field.name.bytes, field.fullValue)

end HeaderField

/-- Everything before the body. -/
structure Head where
  line : RequestLine
  fields : List HeaderField

namespace Head

/-- A head up to its empty line. -/
def openBytes (head : Head) : Bytes :=
  head.line.bytes ++ head.fields.flatMap HeaderField.bytes

def bytes (head : Head) : Bytes := head.openBytes ++ CRLF

def headers (head : Head) : List HTTPHeader := head.fields.map HeaderField.header

/-- What a head says, in the form the automaton collects it. -/
def data (head : Head) : Data where
  headers := head.headers
  method := head.line.method.bytes
  uri := head.line.uri.bytes
  httpVersionMajor := toInt32 (decimal head.line.major.bytes)
  httpVersionMinor := toInt32 (decimal head.line.minor.bytes)

end Head

/-- The value of the first field named `Content-Length`, whatever its case. -/
def declaredLength (headers : List HTTPHeader) : Except StdException Int :=
  match headers.find? (fun header =>
    header.1.map lower = Header.contentLength.map lower) with
  | none => .ok 0
  | some header => stoi header.2

/-- A head and a body of exactly the declared length. -/
structure Message where
  head : Head
  body : Bytes
  framed : declaredLength head.headers = .ok body.length

namespace Message

def bytes (message : Message) : Bytes := message.head.bytes ++ message.body

/-- What a message says: its head, its body and the length of that. -/
def data (message : Message) : Data :=
  { message.head.data with content := message.body, contentLength := message.body.length }

end Message

end Webserver.HTTP.Grammar
