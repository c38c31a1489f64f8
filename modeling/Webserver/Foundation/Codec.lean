import Mathlib.Tactic.Ring
import Mathlib.Data.List.Basic

/-! # Prefix codecs

Reading values one after the other from a list of symbols. A decoder takes a
value off the front and returns the rest; when it undoes an encoder in front of
any rest, the concatenated encodings of a list decode to the list. Fixed-width
big-endian numbers are one such code.
-/

namespace Webserver.Foundation

variable {α β : Type*}

/-- The first `count` symbols and the rest, when there are that many. -/
def takeExact (count : Nat) (input : List β) : Option (List β × List β) :=
  if count ≤ input.length then some (input.take count, input.drop count) else none

theorem takeExact_append (front rest : List β) :
    takeExact front.length (front ++ rest) = some (front, rest) := by
  simp [takeExact]

/-- Decode values until nothing is left, at most `fuel` of them. -/
def decodeAll (decode : List β → Option (α × List β)) : Nat → List β → Option (List α)
  | _, [] => some []
  | 0, _ :: _ => none
  | fuel + 1, symbol :: input =>
      match decode (symbol :: input) with
      | none => none
      | some (value, rest) => (decodeAll decode fuel rest).map (value :: ·)

/-- Decode a whole list of symbols; every value takes at least one of them. -/
def decodeStream (decode : List β → Option (α × List β)) (input : List β) : Option (List α) :=
  decodeAll decode input.length input

section RoundTrip

variable {γ : Type*} {decode : List β → Option (α × List β)} {encode : γ → List β} {meant : γ → α}

theorem decodeAll_flatMap (nonempty : ∀ value, encode value ≠ [])
    (undoes : ∀ value rest, decode (encode value ++ rest) = some (meant value, rest))
    (values : List γ) {fuel : Nat} (enough : values.length ≤ fuel) :
    decodeAll decode fuel (values.flatMap encode) = some (values.map meant) := by
  induction values generalizing fuel with
  | nil => cases fuel <;> rfl
  | cons value values ih =>
      cases fuel with
      | zero => simp at enough
      | succ fuel =>
          rw [List.flatMap_cons]
          have undo := undoes value (values.flatMap encode)
          cases shape : encode value ++ values.flatMap encode with
          | nil => exact (nonempty value (List.append_eq_nil_iff.mp shape).1).elim
          | cons symbol input =>
              rw [shape] at undo
              rw [decodeAll, undo]
              simp only [ih (Nat.le_of_succ_le_succ enough), Option.map_some, List.map_cons]

theorem length_le_length_flatMap (nonempty : ∀ value, encode value ≠ []) (values : List γ) :
    values.length ≤ (values.flatMap encode).length := by
  induction values with
  | nil => exact Nat.le_refl 0
  | cons value values ih =>
      have positive := List.length_pos_of_ne_nil (nonempty value)
      rw [List.flatMap_cons, List.length_append, List.length_cons]
      omega

/-- **Self-delimitation.** Concatenated encodings decode to the encoded list. -/
theorem decodeStream_flatMap (nonempty : ∀ value, encode value ≠ [])
    (undoes : ∀ value rest, decode (encode value ++ rest) = some (meant value, rest))
    (values : List γ) :
    decodeStream decode (values.flatMap encode) = some (values.map meant) :=
  decodeAll_flatMap nonempty undoes values (length_le_length_flatMap nonempty values)

end RoundTrip

/-! ## Changing the code -/

/-- Decode values up to the first one after which the code changes, at most `fuel` of
them, and return what follows it. -/
def decodeUntil (decode : List β → Option (α × List β)) (changes : α → Bool) :
    Nat → List β → Option (List α × List β)
  | _, [] => some ([], [])
  | 0, _ :: _ => none
  | fuel + 1, symbol :: input =>
      match decode (symbol :: input) with
      | none => none
      | some (value, rest) =>
          if changes value then some ([value], rest)
          else (decodeUntil decode changes fuel rest).map fun (values, rest) =>
            (value :: values, rest)

/-- Decode a list of symbols with one decoder up to a value after which another one
reads the rest. -/
def decodeChanging {ω : Type*} (decode : List β → Option (α × List β)) (changes : α → Bool)
    (later : List β → Option (ω × List β)) (input : List β) : Option (List α × List ω) :=
  (decodeUntil decode changes input.length input).bind fun (values, rest) =>
    (decodeStream later rest).map fun others => (values, others)

section Changing

variable {γ ω : Type*} {decode : List β → Option (α × List β)} {changes : α → Bool}
  {later : List β → Option (ω × List β)} {encode : γ → List β} {meant : γ → α}

theorem decodeUntil_succ {fuel : Nat} {input rest : List β} {value : α} (some_ : input ≠ [])
    (first : decode input = some (value, rest)) :
    decodeUntil decode changes (fuel + 1) input =
      if changes value then some ([value], rest)
      else (decodeUntil decode changes fuel rest).map fun (values, rest) =>
        (value :: values, rest) := by
  obtain ⟨symbol, input, rfl⟩ := List.exists_cons_of_ne_nil some_
  rw [decodeUntil, first]

theorem decodeUntil_flatMap (nonempty : ∀ value, encode value ≠ []) {values : List γ}
    (undoes : ∀ value ∈ values, ∀ rest, decode (encode value ++ rest) = some (meant value, rest))
    (stays : ∀ value ∈ values, changes (meant value) = false) {fuel : Nat}
    (enough : values.length ≤ fuel) :
    decodeUntil decode changes fuel (values.flatMap encode) = some (values.map meant, []) := by
  induction values generalizing fuel with
  | nil => cases fuel <;> rfl
  | cons value values ih =>
      cases fuel with
      | zero => simp at enough
      | succ fuel =>
          have further := ih (fun other member => undoes other (List.mem_cons_of_mem value member))
            (fun other member => stays other (List.mem_cons_of_mem value member))
            (Nat.le_of_succ_le_succ enough)
          have front := List.append_ne_nil_of_left_ne_nil (nonempty value) (values.flatMap encode)
          rw [List.flatMap_cons, decodeUntil_succ front (undoes value List.mem_cons_self _),
            stays value List.mem_cons_self, if_neg Bool.false_ne_true, further]
          rfl

theorem decodeUntil_change (nonempty : ∀ value, encode value ≠ []) {values : List γ} {last : γ}
    (undoes : ∀ value ∈ values ++ [last], ∀ rest,
      decode (encode value ++ rest) = some (meant value, rest))
    (stays : ∀ value ∈ values, changes (meant value) = false)
    (change : changes (meant last) = true) (rest : List β) {fuel : Nat}
    (enough : values.length < fuel) :
    decodeUntil decode changes fuel (values.flatMap encode ++ (encode last ++ rest)) =
      some (values.map meant ++ [meant last], rest) := by
  have front (value : γ) (rest : List β) : encode value ++ rest ≠ [] :=
    List.append_ne_nil_of_left_ne_nil (nonempty value) rest
  induction values generalizing fuel with
  | nil =>
      cases fuel with
      | zero => cases enough
      | succ fuel =>
          have undo := undoes last (List.mem_singleton_self last) rest
          rw [List.flatMap_nil, List.nil_append, decodeUntil_succ (front last _) undo, change,
            if_pos rfl]
          rfl
  | cons value values ih =>
      cases fuel with
      | zero => cases enough
      | succ fuel =>
          have further := ih (fun other member => undoes other (List.mem_cons_of_mem value member))
            (fun other member => stays other (List.mem_cons_of_mem value member))
            (Nat.lt_of_succ_lt_succ enough)
          have undo := undoes value List.mem_cons_self
            (values.flatMap encode ++ (encode last ++ rest))
          rw [List.flatMap_cons, List.append_assoc, decodeUntil_succ (front value _) undo,
            stays value List.mem_cons_self, if_neg Bool.false_ne_true, further]
          rfl

/-- Values after none of which the code changes are all there is. -/
theorem decodeChanging_flatMap (nonempty : ∀ value, encode value ≠ []) {values : List γ}
    (undoes : ∀ value ∈ values, ∀ rest, decode (encode value ++ rest) = some (meant value, rest))
    (stays : ∀ value ∈ values, changes (meant value) = false) :
    decodeChanging decode changes later (values.flatMap encode) = some (values.map meant, []) := by
  have read := decodeUntil_flatMap nonempty undoes stays
    (length_le_length_flatMap nonempty values)
  rw [decodeChanging, read]
  rfl

/-- **Change of code.** What follows the value after which the code changes is read
with the other code. -/
theorem decodeChanging_change (nonempty : ∀ value, encode value ≠ []) {values : List γ} {last : γ}
    (undoes : ∀ value ∈ values ++ [last], ∀ rest,
      decode (encode value ++ rest) = some (meant value, rest))
    (stays : ∀ value ∈ values, changes (meant value) = false)
    (change : changes (meant last) = true) {rest : List β} {others : List ω}
    (read : decodeStream later rest = some others) :
    decodeChanging decode changes later ((values ++ [last]).flatMap encode ++ rest) =
      some ((values ++ [last]).map meant, others) := by
  have shape : (values ++ [last]).flatMap encode ++ rest =
      values.flatMap encode ++ (encode last ++ rest) := by
    rw [List.flatMap_append, List.flatMap_singleton, List.append_assoc]
  have enough : values.length < (values.flatMap encode ++ (encode last ++ rest)).length := by
    have bound := length_le_length_flatMap nonempty values
    have positive := List.length_pos_of_ne_nil (nonempty last)
    rw [List.length_append, List.length_append]
    omega
  rw [shape, decodeChanging, decodeUntil_change nonempty undoes stays change rest enough]
  simp only [Option.bind_some, read, Option.map_some, List.map_append, List.map_singleton]

end Changing

/-! ## Big-endian numbers -/

/-- The last `width` base-256 digits of a number, the most significant first. -/
def bigEndian : Nat → Nat → List UInt8
  | 0, _ => []
  | width + 1, number => UInt8.ofNat (number / 256 ^ width) :: bigEndian width number

def readBigEndian (digits : List UInt8) : Nat :=
  digits.foldl (fun number digit => number * 256 + digit.toNat) 0

@[simp] theorem bigEndian_length (width number : Nat) :
    (bigEndian width number).length = width := by
  induction width with
  | zero => rfl
  | succ width ih => rw [bigEndian, List.length_cons, ih]

theorem foldl_bigEndian (width number start : Nat) :
    (bigEndian width number).foldl (fun value digit => value * 256 + digit.toNat) start =
      start * 256 ^ width + number % 256 ^ width := by
  induction width generalizing start with
  | zero => simp [bigEndian, Nat.mod_one]
  | succ width ih =>
      have digit : (UInt8.ofNat (number / 256 ^ width)).toNat = number / 256 ^ width % 256 := by
        simp
      rw [bigEndian, List.foldl_cons, ih, digit, Nat.pow_succ, Nat.mod_mul]
      ring

theorem readBigEndian_bigEndian {width number : Nat} (fits : number < 256 ^ width) :
    readBigEndian (bigEndian width number) = number := by
  rw [readBigEndian, foldl_bigEndian, Nat.zero_mul, Nat.zero_add, Nat.mod_eq_of_lt fits]

end Webserver.Foundation
