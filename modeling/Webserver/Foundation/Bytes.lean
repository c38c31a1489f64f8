import Mathlib.Data.List.Basic
import Mathlib.Algebra.Order.Group.Unbundled.Int
import Mathlib.Tactic.Ring

/-! # Byte strings and machine integers

Byte strings, the integer conversions of a platform with a signed `char`, a
32-bit `int` and a 64-bit `size_t`, the failures the libraries report, and
`std::stoi`. Signed overflow is undefined
in C++; here it wraps, as the usual compilers make it.
-/

namespace Webserver.Foundation

/-- The contents of a `std::string` or a byte buffer. -/
abbrev Bytes := List UInt8

/-- A character constant as a byte. -/
def byte (character : Char) : UInt8 := UInt8.ofNat character.toNat

/-- A string constant as its bytes. -/
def ascii (text : String) : Bytes := text.toList.map byte

abbrev SP : UInt8 := 32
abbrev HT : UInt8 := 9
abbrev CR : UInt8 := 13
abbrev LF : UInt8 := 10

def CRLF : Bytes := [CR, LF]

/-- A `char` promoted to `int`. -/
def promote (input : UInt8) : Int :=
  if input.toNat < 128 then input.toNat else (input.toNat : Int) - 256

/-- ASCII lower-casing. -/
def lower (input : UInt8) : UInt8 :=
  if 65 ≤ input.toNat ∧ input.toNat ≤ 90 then input + 32 else input

/-- The value an `int` holds after storing an integer. -/
@[irreducible] def toInt32 (value : Int) : Int := value.bmod (2 ^ 32)

/-- An `int` converted to `size_t`. -/
def toSizeT (value : Int) : Nat := (value % 2 ^ 64).toNat

/-- The bounds of `int`. -/
def FitsInt (value : Int) : Prop := -2 ^ 31 ≤ value ∧ value < 2 ^ 31

instance (value : Int) : Decidable (FitsInt value) := inferInstanceAs (Decidable (_ ∧ _))

theorem toSizeT_of_nonneg {value : Int} (nonneg : 0 ≤ value) (fits : FitsInt value) :
    (toSizeT value : Int) = value := by
  obtain ⟨-, upper⟩ := fits
  unfold toSizeT
  omega

/-- A negative `int` becomes a length no object reaches. -/
theorem le_toSizeT_of_neg {value : Int} (negative : value < 0) (fits : FitsInt value) :
    2 ^ 63 ≤ toSizeT value := by
  obtain ⟨lower, -⟩ := fits
  unfold toSizeT
  omega

/-- A length that an object reaches comes from no negative `int`. -/
theorem nonneg_of_toSizeT_lt {value : Int} (fits : FitsInt value)
    (small : toSizeT value < 2 ^ 63) : 0 ≤ value := by
  by_contra negative
  have large := le_toSizeT_of_neg (Int.not_le.mp negative) fits
  omega

theorem toSizeT_eq_zero_iff {value : Int} (fits : FitsInt value) :
    toSizeT value = 0 ↔ value = 0 := by
  obtain ⟨lower, upper⟩ := fits
  unfold toSizeT
  omega

/-- An `int` holds a value within its bounds. -/
theorem toInt32_of_fits {value : Int} (fits : FitsInt value) : toInt32 value = value := by
  obtain ⟨lower, upper⟩ := fits
  unfold toInt32
  exact Int.bmod_eq_of_le (by omega) (by omega)

/-- A decimal digit. -/
def DigitByte (input : UInt8) : Prop := 48 ≤ input.toNat ∧ input.toNat ≤ 57

instance : DecidablePred DigitByte := fun _ => inferInstanceAs (Decidable (_ ∧ _))

/-- The number a digit string denotes, read on from an accumulated one. -/
def decimalFrom (accumulated : Nat) (digits : Bytes) : Nat :=
  digits.foldl (fun value digit => value * 10 + (digit.toNat - 48)) accumulated

/-- The number a digit string denotes. -/
def decimal (digits : Bytes) : Nat := decimalFrom 0 digits

theorem decimal_concat (digits : Bytes) (digit : UInt8) :
    decimal (digits ++ [digit]) = decimal digits * 10 + (digit.toNat - 48) := by
  simp only [decimal, decimalFrom, List.foldl_append, List.foldl_cons, List.foldl_nil]

theorem promote_sub_zero {digit : UInt8} (isDigit : DigitByte digit) :
    promote digit - 48 = ((digit.toNat - 48 : Nat) : Int) := by
  obtain ⟨lower, upper⟩ := isDigit
  unfold promote
  split <;> omega

/-- One round of an `int` accumulator over decimal digits. -/
theorem toInt32_decimal_concat (digits : Bytes) {digit : UInt8} (isDigit : DigitByte digit) :
    toInt32 (toInt32 (decimal digits) * 10 + (promote digit - 48)) =
      toInt32 (decimal (digits ++ [digit])) := by
  rw [promote_sub_zero isDigit, decimal_concat]
  unfold toInt32
  push_cast
  rw [← Int.bmod_add_bmod, ← Int.bmod_mul_bmod, Int.bmod_bmod]
  simp

theorem toInt32_decimal_single {digit : UInt8} (isDigit : DigitByte digit) :
    toInt32 (promote digit - 48) = toInt32 (decimal [digit]) := by
  have round := toInt32_decimal_concat [] isDigit
  have none : toInt32 (decimal []) = 0 := by decide +kernel
  rwa [none, zero_mul, zero_add] at round

/-- What the accumulator evaluates in a round fits as long as the number read
with the new digit does. -/
theorem fitsInt_round_iff {digits : Bytes} (small : decimal digits < 2 ^ 31) {digit : UInt8}
    (isDigit : DigitByte digit) :
    FitsInt (toInt32 (decimal digits) * 10 + (promote digit - 48)) ↔
      decimal (digits ++ [digit]) < 2 ^ 31 := by
  have held : toInt32 (decimal digits) = decimal digits := by
    apply toInt32_of_fits
    unfold FitsInt
    omega
  rw [held, promote_sub_zero isDigit, decimal_concat]
  unfold FitsInt
  omega

/-- The exceptions of the standard library the code meets. -/
inductive StdException where
  | invalidArgument
  | outOfRange
  | badLexicalCast
  deriving DecidableEq, Repr

/-- The error codes of asynchronous operations that the handlers tell apart. -/
inductive ErrorCode where
  | operationAborted
  | other
  deriving DecidableEq, Repr

/-- `std::isspace` in the default locale. -/
def isSpace (input : UInt8) : Bool := input == SP || (HT ≤ input && input ≤ CR)

/-- `std::stoi` refuses a number that is no `int`. -/
def intOrThrow (value : Int) : Except StdException Int :=
  if FitsInt value then .ok value else .error .outOfRange

/-- The part of `std::stoi` after the sign: the longest run of digits, the rest
ignored. -/
def stoiUnsigned (negative : Bool) (input : Bytes) : Except StdException Int :=
  match input.takeWhile (fun digit => decide (DigitByte digit)) with
  | [] => .error .invalidArgument
  | digits => intOrThrow (if negative then -(decimal digits : Int) else decimal digits)

/-- `std::stoi`: leading white space, an optional sign, digits. -/
def stoi (text : Bytes) : Except StdException Int :=
  match text.dropWhile isSpace with
  | [] => .error .invalidArgument
  | sign :: input =>
      if sign = byte '-' then stoiUnsigned true input
      else if sign = byte '+' then stoiUnsigned false input
      else stoiUnsigned false (sign :: input)

theorem fitsInt_of_intOrThrow {number value : Int} (accepted : intOrThrow number = .ok value) :
    FitsInt value := by
  unfold intOrThrow at accepted
  by_cases fits : FitsInt number
  · rw [if_pos fits, Except.ok.injEq] at accepted
    exact accepted ▸ fits
  · rw [if_neg fits] at accepted
    cases accepted

theorem fitsInt_of_stoiUnsigned {negative : Bool} {input : Bytes} {value : Int}
    (accepted : stoiUnsigned negative input = .ok value) : FitsInt value := by
  unfold stoiUnsigned at accepted
  split at accepted
  · cases accepted
  · exact fitsInt_of_intOrThrow accepted

/-- What `std::stoi` returns is an `int`. -/
theorem fitsInt_of_stoi {text : Bytes} {value : Int} (accepted : stoi text = .ok value) :
    FitsInt value := by
  unfold stoi at accepted
  split at accepted
  · cases accepted
  · split at accepted
    · exact fitsInt_of_stoiUnsigned accepted
    · split at accepted <;> exact fitsInt_of_stoiUnsigned accepted

example : stoi (ascii "  -17x") = .ok (-17) := by decide

end Webserver.Foundation
