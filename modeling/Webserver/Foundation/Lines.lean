import Webserver.Foundation.Bytes

/-! # Lines of a byte stream

The line in front of the first CRLF of a stream, and the lines of a stream up to
its first empty line.
-/

namespace Webserver.Foundation.Lines

/-- The bytes in front of the first CRLF and those after it. -/
def cutLine : Bytes → Option (Bytes × Bytes)
  | [] => none
  | [_] => none
  | first :: second :: rest =>
      if first = CR ∧ second = LF then some ([], rest)
      else (cutLine (second :: rest)).map (fun cut => (first :: cut.1, cut.2))

theorem cutLine_append {line : Bytes} (single : ¬ CRLF <:+: line) (rest : Bytes) :
    cutLine (line ++ (CRLF ++ rest)) = some (line, rest) := by
  induction line with
  | nil => rfl
  | cons first line ih =>
      have later := ih (fun inside => single (inside.trans (List.infix_cons List.infix_rfl)))
      cases line with
      | nil =>
          rw [List.nil_append] at later
          change (if first = CR ∧ CR = LF then some ([], LF :: rest) else
            (cutLine (CRLF ++ rest)).map _) = _
          rw [if_neg (fun ended => absurd ended.2 (by decide)), later]
          rfl
      | cons second line =>
          change (if first = CR ∧ second = LF then some ([], line ++ (CRLF ++ rest)) else
            (cutLine (second :: line ++ (CRLF ++ rest))).map _) = _
          rw [if_neg, later]
          · rfl
          · intro ended
            obtain ⟨rfl, rfl⟩ := ended
            exact single ⟨[], line, rfl⟩

theorem cutLine_eq_some {stream line rest : Bytes} (cut : cutLine stream = some (line, rest)) :
    stream = line ++ (CRLF ++ rest) ∧ ¬ CRLF <:+: line := by
  induction stream generalizing line with
  | nil => cases cut
  | cons first stream ih =>
      cases stream with
      | nil => cases cut
      | cons second stream =>
          rw [cutLine] at cut
          by_cases ended : first = CR ∧ second = LF
          · rw [if_pos ended] at cut
            obtain ⟨rfl, rfl⟩ := ended
            cases cut
            exact ⟨rfl, by decide⟩
          · rw [if_neg ended] at cut
            obtain ⟨⟨shorter, remaining⟩, later, same⟩ := Option.map_eq_some_iff.mp cut
            cases same
            obtain ⟨split, single⟩ := ih later
            refine ⟨by rw [split, List.cons_append], ?_⟩
            intro inside
            rcases List.infix_cons_iff.mp inside with front | further
            · cases shorter with
              | nil => simp [CRLF] at front
              | cons other shorter =>
                  rw [List.cons_append, List.cons.injEq] at split
                  rw [CRLF, List.cons_prefix_cons, List.cons_prefix_cons] at front
                  exact ended ⟨front.1.symm, split.1.trans front.2.1.symm⟩
            · exact single further

theorem single_of_not_mem {line : Bytes} (without : CR ∉ line) : ¬ CRLF <:+: line :=
  fun inside => without (inside.subset List.mem_cons_self)

/-- Bytes other than CR in front of a line add no line end. -/
theorem single_append {front line : Bytes} (without : CR ∉ front) (single : ¬ CRLF <:+: line) :
    ¬ CRLF <:+: front ++ line := by
  induction front with
  | nil => exact single
  | cons first front ih =>
      intro inside
      rcases List.infix_cons_iff.mp inside with here | later
      · rw [CRLF, List.cons_prefix_cons] at here
        exact without (here.1 ▸ List.mem_cons_self)
      · exact ih (fun present => without (List.mem_cons_of_mem first present)) later

/-- The lines of a stream up to its first empty line. -/
def headLines (stream : Bytes) : List Bytes :=
  match _cut : cutLine stream with
  | none => []
  | some ([], _) => []
  | some (line, rest) => line :: headLines rest
termination_by stream.length
decreasing_by
  rw [(cutLine_eq_some _cut).1]
  simp only [List.length_append]
  have ends : CRLF.length = 2 := rfl
  omega

theorem headLines_append {line : Bytes} (single : ¬ CRLF <:+: line) (nonempty : line ≠ [])
    (rest : Bytes) : headLines (line ++ (CRLF ++ rest)) = line :: headLines rest := by
  rw [headLines]
  split
  · next cut => rw [cutLine_append single] at cut; cases cut
  · next cut =>
    rw [cutLine_append single] at cut
    cases cut
    exact (nonempty rfl).elim
  · next cut =>
    rw [cutLine_append single] at cut
    cases cut
    rfl

/-- An empty line ends the head. -/
theorem headLines_crlf (rest : Bytes) : headLines (CRLF ++ rest) = [] := by
  rw [headLines]
  split
  · rfl
  · rfl
  · next nonempty cut =>
    cases cut
    exact (nonempty rfl).elim

theorem single_of_mem_headLines {stream line : Bytes} (member : line ∈ headLines stream) :
    ¬ CRLF <:+: line := by
  induction size : stream.length using Nat.strong_induction_on generalizing stream with
  | _ size ih =>
    subst size
    rw [headLines] at member
    split at member
    · cases member
    · cases member
    · next cut =>
      obtain ⟨split, single⟩ := cutLine_eq_some cut
      rcases List.mem_cons.mp member with rfl | later
      · exact single
      · refine ih _ ?_ later rfl
        rw [split]
        simp only [List.length_append]
        have ends : CRLF.length = 2 := rfl
        omega

end Webserver.Foundation.Lines
