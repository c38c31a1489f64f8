import Mathlib.Data.List.Basic

/-! # Separated texts

Texts that are parts with a separator of two symbols between them, and parts that
are a key and, after a separator of one symbol, a value. Parts in which the first
symbol of the separator does not occur are found again by splitting at every
separator, and a key without the separator by cutting at the first one.
-/

namespace Webserver.Foundation.Separated

variable {α : Type*} [DecidableEq α]

/-- The parts between the occurrences of two symbols in a row. -/
def splitAtPair (first second : α) : List α → List (List α)
  | [] => [[]]
  | [symbol] => [[symbol]]
  | symbol :: next :: rest =>
      if symbol = first ∧ next = second then [] :: splitAtPair first second rest
      else (splitAtPair first second (next :: rest)).modifyHead (symbol :: ·)

/-- What precedes the first separator, and what follows it if there is one. -/
def cutAtFirst (separator : α) : List α → List α × Option (List α)
  | [] => ([], none)
  | symbol :: rest =>
      if symbol = separator then ([], some rest)
      else (symbol :: (cutAtFirst separator rest).1, (cutAtFirst separator rest).2)

/-- A symbol that begins no separator goes to the first part. -/
theorem splitAtPair_cons_of_ne {first second symbol : α} (other : symbol ≠ first)
    (rest : List α) :
    splitAtPair first second (symbol :: rest) =
      (splitAtPair first second rest).modifyHead (symbol :: ·) := by
  cases rest with
  | nil => rfl
  | cons next rest => rw [splitAtPair, if_neg (fun both => other both.1)]

section Split

variable {first second : α} {part : List α} (free : first ∉ part)

include free

/-- A part is split off at the separator behind it. -/
theorem splitAtPair_append (rest : List α) :
    splitAtPair first second (part ++ first :: second :: rest) =
      part :: splitAtPair first second rest := by
  induction part with
  | nil => rw [List.nil_append, splitAtPair, if_pos ⟨rfl, rfl⟩]
  | cons symbol part ih =>
      obtain ⟨other, later⟩ := List.ne_and_not_mem_of_not_mem_cons free
      rw [List.cons_append, splitAtPair_cons_of_ne (Ne.symm other), ih later, List.modifyHead_cons]

/-- A text without separators is one part. -/
theorem splitAtPair_of_not_mem : splitAtPair first second part = [part] := by
  induction part with
  | nil => rfl
  | cons symbol part ih =>
      obtain ⟨other, later⟩ := List.ne_and_not_mem_of_not_mem_cons free
      rw [splitAtPair_cons_of_ne (Ne.symm other), ih later, List.modifyHead_cons]

/-- Parts with separators between them are found again. -/
theorem splitAtPair_join (parts : List (List α)) (others : ∀ other ∈ parts, first ∉ other) :
    splitAtPair first second (part ++ parts.flatMap (fun other => first :: second :: other)) =
      part :: parts := by
  induction parts generalizing part with
  | nil => rw [List.flatMap_nil, List.append_nil, splitAtPair_of_not_mem free]
  | cons next parts ih =>
      obtain ⟨nextFree, further⟩ := List.forall_mem_cons.mp others
      rw [List.flatMap_cons, List.cons_append, List.cons_append, splitAtPair_append free,
        ih nextFree further]

end Split

section Cut

variable {separator : α} {key : List α} (free : separator ∉ key)

include free

theorem cutAtFirst_append (value : List α) :
    cutAtFirst separator (key ++ separator :: value) = (key, some value) := by
  induction key with
  | nil => rw [List.nil_append, cutAtFirst, if_pos rfl]
  | cons symbol key ih =>
      obtain ⟨other, later⟩ := List.ne_and_not_mem_of_not_mem_cons free
      rw [List.cons_append, cutAtFirst, if_neg (Ne.symm other), ih later]

theorem cutAtFirst_of_not_mem : cutAtFirst separator key = (key, none) := by
  induction key with
  | nil => rfl
  | cons symbol key ih =>
      obtain ⟨other, later⟩ := List.ne_and_not_mem_of_not_mem_cons free
      rw [cutAtFirst, if_neg (Ne.symm other), ih later]

end Cut

end Webserver.Foundation.Separated
