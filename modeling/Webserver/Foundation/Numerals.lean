import Mathlib.Data.List.Induction
import Webserver.Foundation.Bytes

/-! # Texts that grow into numbers

What `std::stoi` makes of a text against what it makes of a longer one. A text
begins one with a number that is not negative when it has such a number already
or when it ends before its first digit.
-/

namespace Webserver.Foundation

/-- White space and at most a sign. -/
def BeforeDigits (text : Bytes) : Prop := text.dropWhile isSpace ∈ [[], ascii "+", ascii "-"]

instance : DecidablePred BeforeDigits := fun _ => inferInstanceAs (Decidable (_ ∈ _))

/-- A text that `std::stoi` converts to a number that is not negative. -/
def DenotesLength (text : Bytes) : Prop := ∃ number, stoi text = .ok number ∧ 0 ≤ number

/-- A text that begins one that `std::stoi` converts to such a number. -/
def BeginsLength (text : Bytes) : Prop := DenotesLength text ∨ BeforeDigits text

theorem decimal_le_append (digits more : Bytes) : decimal digits ≤ decimal (digits ++ more) := by
  induction more using List.reverseRecOn with
  | nil => rw [List.append_nil]
  | append_singleton more digit ih =>
      rw [← List.append_assoc, decimal_concat]
      omega

/-- Fewer digits of a number that is an `int` and not negative are such a number. -/
theorem intOrThrow_of_le {negative : Bool} {few many : Nat} {number : Int} (le : few ≤ many)
    (accepted : intOrThrow (if negative then -(many : Int) else many) = .ok number)
    (nonneg : 0 ≤ number) :
    ∃ less, intOrThrow (if negative then -(few : Int) else few) = .ok less ∧ 0 ≤ less := by
  have fits {value : Int} (bounds : FitsInt value) : intOrThrow value = .ok value := if_pos bounds
  by_cases bounded : FitsInt (if negative then -(many : Int) else many)
  · rw [fits bounded, Except.ok.injEq] at accepted
    cases negative with
    | false =>
        refine ⟨few, fits ?_, Int.natCast_nonneg few⟩
        simp only [Bool.false_eq_true, ↓reduceIte, FitsInt] at bounded ⊢
        omega
    | true =>
        -- only zero has a sign and is not negative
        have none : few = 0 := by
          simp only [↓reduceIte] at accepted
          omega
        exact ⟨0, by rw [none]; decide, Int.le_refl 0⟩
  · rw [intOrThrow, if_neg bounded] at accepted
    cases accepted

theorem stoiUnsigned_of_append {negative : Bool} {input more : Bytes} {number : Int}
    (accepted : stoiUnsigned negative (input ++ more) = .ok number) (nonneg : 0 ≤ number) :
    (∃ less, stoiUnsigned negative input = .ok less ∧ 0 ≤ less) ∨ input = [] := by
  by_cases whole : (input.takeWhile (fun digit => decide (DigitByte digit))).length = input.length
  · cases input with
    | nil => exact Or.inr rfl
    | cons digit rest =>
        have taken := (List.takeWhile_sublist _).eq_of_length whole
        left
        unfold stoiUnsigned at accepted ⊢
        rw [List.takeWhile_append, if_pos whole] at accepted
        rw [taken]
        exact intOrThrow_of_le (decimal_le_append _ _) accepted nonneg
  · left
    unfold stoiUnsigned at accepted ⊢
    rw [List.takeWhile_append, if_neg whole] at accepted
    exact ⟨number, accepted, nonneg⟩

/-- A text that grows into a length begins one. -/
theorem beginsLength_of_append {text more : Bytes} (whole : DenotesLength (text ++ more)) :
    BeginsLength text := by
  obtain ⟨number, accepted, nonneg⟩ := whole
  unfold BeginsLength DenotesLength BeforeDigits
  unfold stoi at accepted ⊢
  rw [List.dropWhile_append] at accepted
  cases shape : text.dropWhile isSpace with
  | nil => exact Or.inr List.mem_cons_self
  | cons sign input =>
      simp only [shape, List.isEmpty_cons, Bool.false_eq_true, ↓reduceIte,
        List.cons_append] at accepted
      by_cases minus : sign = byte '-'
      · simp only [minus, ↓reduceIte] at accepted ⊢
        refine (stoiUnsigned_of_append accepted nonneg).imp_right ?_
        rintro rfl
        decide
      · by_cases plus : sign = byte '+'
        · simp only [plus, ↓reduceIte, if_neg (show byte '+' ≠ byte '-' by decide)] at accepted ⊢
          refine (stoiUnsigned_of_append accepted nonneg).imp_right ?_
          rintro rfl
          decide
        · simp only [minus, plus, ↓reduceIte] at accepted ⊢
          rw [← List.cons_append] at accepted
          exact (stoiUnsigned_of_append accepted nonneg).imp_right (fun empty => nomatch empty)

/-- In front of its digits a text goes on with a zero. -/
theorem BeforeDigits.denotesLength {text : Bytes} (begun : BeforeDigits text) :
    DenotesLength (text ++ [byte '0']) := by
  refine ⟨0, ?_, Int.le_refl 0⟩
  unfold BeforeDigits at begun
  unfold stoi
  rw [List.dropWhile_append]
  simp only [List.mem_cons, List.not_mem_nil, or_false] at begun
  rcases begun with none | plus | minus
  · rw [none]
    decide
  · rw [plus]
    decide
  · rw [minus]
    decide

example : BeginsLength (ascii "-") := Or.inr (by decide)

end Webserver.Foundation
