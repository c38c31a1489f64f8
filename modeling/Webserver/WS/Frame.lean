import Webserver.Foundation.Bytes
import Webserver.Foundation.Codec

/-! # WebSocket frames

`fill_text_frame` as the server computes it, and a reader of frames after
section 5.2 of RFC 6455, whose diagram heads the source file. The reader is
strict: a length in a longer form than it needs, or with the top bit set, is
refused. Frames written one after the other are read back one by one.
-/

namespace Webserver.WS

open Foundation

namespace Schema

/-- `WSFinRsvOpcode`: the first byte of a frame. -/
def oneFragmentText : UInt8 := 129

end Schema

/-! ## The writer -/

/-- The loop that appends the low bytes of a length, the highest first. -/
def pushLength (longLength : Nat) : Nat → Bytes → Bytes
  | 0, result => result
  | c + 1, result =>
      pushLength longLength c (result ++ [UInt8.ofNat ((longLength >>> (8 * c)) % 256)])

/-- `fill_text_frame`. -/
def fillTextFrame (message : Bytes) (opcode : UInt8) (result : Bytes) : Bytes :=
  let length := message.length
  let result := result ++ [opcode]
  let result :=
    if length ≥ 126 then
      let numBytes := if length > 0xffff then 8 else 2
      let result := result ++ [if length > 0xffff then 127 else 126]
      let longLength := length % 2 ^ 64
      pushLength longLength numBytes result
    else result ++ [UInt8.ofNat length]
  result ++ message

/-! ## The reader -/

/-- The three forms of a payload length. -/
inductive LengthForm where
  | bits7
  | bits16
  | bits64
  deriving DecidableEq, Repr

/-- The form RFC 6455 prescribes for a length: the shortest one. -/
def LengthForm.of (length : Nat) : LengthForm :=
  if length < 126 then .bits7 else if length < 65536 then .bits16 else .bits64

structure Frame where
  first : UInt8
  form : LengthForm
  maskingKey : Option Bytes
  payload : Bytes
  deriving DecidableEq

/-- The payload length, given the low seven bits of the second byte. -/
def readLength (low : Nat) (input : Bytes) : Option (LengthForm × Nat × Bytes) :=
  if low < 126 then some (.bits7, low, input)
  else if low = 126 then do
    let (digits, rest) ← takeExact 2 input
    let length := readBigEndian digits
    if 126 ≤ length then some (.bits16, length, rest) else none
  else do
    let (digits, rest) ← takeExact 8 input
    let length := readBigEndian digits
    if 65536 ≤ length ∧ length < 2 ^ 63 then some (.bits64, length, rest) else none

/-- The payload of a masked frame. -/
def unmask (key payload : Bytes) : Bytes :=
  payload.mapIdx (fun index octet => octet ^^^ key.getD (index % 4) 0)

/-- One frame off the front of some bytes. -/
def readFrame : Bytes → Option (Frame × Bytes)
  | first :: second :: input => do
      let (form, length, input) ← readLength (second.toNat % 128) input
      if 128 ≤ second.toNat then
        let (key, input) ← takeExact 4 input
        let (payload, rest) ← takeExact length input
        some (⟨first, form, some key, unmask key payload⟩, rest)
      else
        let (payload, rest) ← takeExact length input
        some (⟨first, form, none, payload⟩, rest)
  | _ => none

/-! ## Round trip -/

/-- A message with the first byte of its frame. No string is longer. -/
structure TextMessage where
  opcode : UInt8
  message : Bytes
  fits : message.length < 2 ^ 63

namespace TextMessage

/-- The length field of a frame: the second byte and the bytes that extend it. -/
def lengthField (length : Nat) : Bytes :=
  if length < 126 then [UInt8.ofNat length]
  else if length < 65536 then 126 :: bigEndian 2 length
  else 127 :: bigEndian 8 length

def bytes (text : TextMessage) : Bytes :=
  text.opcode :: (lengthField text.message.length ++ text.message)

/-- The frame a message is meant to be sent in. -/
def frame (text : TextMessage) : Frame :=
  ⟨text.opcode, .of text.message.length, none, text.message⟩

end TextMessage

theorem pushLength_eq (longLength count : Nat) (result : Bytes) :
    pushLength longLength count result = result ++ bigEndian count longLength := by
  induction count generalizing result with
  | zero => rw [pushLength, bigEndian, List.append_nil]
  | succ c ih =>
      have digit : UInt8.ofNat ((longLength >>> (8 * c)) % 256) =
          UInt8.ofNat (longLength / 256 ^ c) := by
        rw [Nat.shiftRight_eq_div_pow, Nat.pow_mul]
        apply UInt8.toNat_inj.mp
        simp
      rw [pushLength, ih, bigEndian, digit, List.append_assoc, List.singleton_append]

/-- What `fill_text_frame` appends. -/
theorem fillTextFrame_eq (text : TextMessage) (result : Bytes) :
    fillTextFrame text.message text.opcode result = result ++ text.bytes := by
  have small : text.message.length % 2 ^ 64 = text.message.length := by
    have fits := text.fits
    omega
  unfold fillTextFrame TextMessage.bytes TextMessage.lengthField
  simp only [small]
  by_cases short : text.message.length < 126
  · have direct : ¬ text.message.length ≥ 126 := by omega
    simp [short, direct]
  · have extended : text.message.length ≥ 126 := by omega
    by_cases medium : text.message.length < 65536
    · have two : ¬ text.message.length > 0xffff := by omega
      simp [short, extended, medium, two, pushLength_eq]
    · have eight : text.message.length > 0xffff := by omega
      simp [short, extended, medium, eight, pushLength_eq]

/-- Extension bytes in front of any rest are taken as they are. -/
theorem takeExact_bigEndian (width number : Nat) (rest : Bytes) :
    takeExact width (bigEndian width number ++ rest) = some (bigEndian width number, rest) := by
  have exact := takeExact_append (bigEndian width number) rest
  rwa [bigEndian_length] at exact

/-- The second byte of a frame has the top bit clear and announces the length,
in the shortest form. -/
theorem readLength_lengthField {length : Nat} (fits : length < 2 ^ 63) (rest : Bytes) :
    ∃ second digits, TextMessage.lengthField length = second :: digits ∧ second.toNat < 128 ∧
      readLength (second.toNat % 128) (digits ++ rest) = some (.of length, length, rest) := by
  unfold TextMessage.lengthField LengthForm.of
  by_cases short : length < 126
  · have same : (UInt8.ofNat length).toNat = length := by
      rw [UInt8.toNat_ofNat']
      omega
    refine ⟨UInt8.ofNat length, [], by rw [if_pos short], by omega, ?_⟩
    rw [same, Nat.mod_eq_of_lt (by omega), readLength, if_pos short, if_pos short]
    rfl
  · by_cases medium : length < 65536
    · have value : readBigEndian (bigEndian 2 length) = length :=
        readBigEndian_bigEndian (by omega)
      have minimal : 126 ≤ length := by omega
      refine ⟨126, bigEndian 2 length, by rw [if_neg short, if_pos medium], by decide, ?_⟩
      simp [readLength, takeExact_bigEndian, value, minimal, short, medium]
    · have value : readBigEndian (bigEndian 8 length) = length :=
        readBigEndian_bigEndian (by omega)
      refine ⟨127, bigEndian 8 length, by rw [if_neg short, if_neg medium], by decide, ?_⟩
      simp [readLength, takeExact_bigEndian, value, short, medium]
      omega

/-- A frame in front of any rest is read back as it was meant. -/
theorem readFrame_bytes (text : TextMessage) (rest : Bytes) :
    readFrame (text.bytes ++ rest) = some (text.frame, rest) := by
  obtain ⟨second, digits, field, unmasked, length⟩ :=
    readLength_lengthField text.fits (text.message ++ rest)
  have clear : ¬ 128 ≤ second.toNat := by omega
  have shape : text.bytes ++ rest =
      text.opcode :: second :: (digits ++ (text.message ++ rest)) := by
    simp [TextMessage.bytes, field]
  rw [shape]
  simp [readFrame, length, clear, takeExact_append, TextMessage.frame]

/-- Frames appended one after the other are their bytes in order. -/
theorem foldl_fillTextFrame (texts : List TextMessage) (result : Bytes) :
    texts.foldl (fun result text => fillTextFrame text.message text.opcode result) result =
      result ++ texts.flatMap TextMessage.bytes := by
  induction texts generalizing result with
  | nil => simp
  | cons text texts ih =>
      rw [List.foldl_cons, fillTextFrame_eq, ih, List.flatMap_cons, List.append_assoc]

/-- **The frame stream.** The frames written for a list of messages are read back
as that list, with nothing left over: each unmasked, with its length in the
shortest form, in big-endian order and, in the long form, with the top bit
clear. -/
theorem decodeStream_fillTextFrame (texts : List TextMessage) :
    decodeStream readFrame
        (texts.foldl (fun result text => fillTextFrame text.message text.opcode result) []) =
      some (texts.map TextMessage.frame) ∧
    ∀ text ∈ texts, ∃ field : Bytes,
      fillTextFrame text.message text.opcode [] = text.opcode :: (field ++ text.message) ∧
      (text.message.length < 126 → field = [UInt8.ofNat text.message.length]) ∧
      (126 ≤ text.message.length → text.message.length ≤ 65535 →
        field = 126 :: bigEndian 2 text.message.length) ∧
      (65535 < text.message.length → field = 127 :: bigEndian 8 text.message.length ∧
        ∃ top digits, bigEndian 8 text.message.length = top :: digits ∧ top.toNat < 128) := by
  constructor
  · rw [foldl_fillTextFrame, List.nil_append]
    have nonempty : ∀ text : TextMessage, text.bytes ≠ [] := by
      intro text
      simp [TextMessage.bytes]
    exact decodeStream_flatMap nonempty readFrame_bytes texts
  · intro text _
    have fits := text.fits
    refine ⟨TextMessage.lengthField text.message.length, ?_, ?_, ?_, ?_⟩
    · rw [fillTextFrame_eq, List.nil_append, TextMessage.bytes]
    · intro short
      rw [TextMessage.lengthField, if_pos short]
    · intro long medium
      rw [TextMessage.lengthField, if_neg (by omega), if_pos (by omega)]
    · intro large
      rw [TextMessage.lengthField, if_neg (by omega), if_neg (by omega)]
      refine ⟨rfl, _, _, rfl, ?_⟩
      have top : text.message.length / 256 ^ 7 < 128 :=
        Nat.div_lt_of_lt_mul (lt_of_lt_of_le fits (by norm_num))
      rw [UInt8.toNat_ofNat', Nat.mod_eq_of_lt (lt_trans top (by decide))]
      exact top

end Webserver.WS
