import Mathlib.Data.List.Basic

/-! # Leftmost greedy matching

Repetition of a character class as a backtracking matcher performs it: the
longest run is tried first, then shorter ones, each with the rest of the
expression as a continuation. A search tries the start positions from the left.
-/

namespace Webserver.Foundation.Regex

variable {α β : Type*}

/-- Zero or more symbols of a class, greedily, then the continuation. -/
def greedyStar (symbolClass : α → Bool) (next : List α → List α → Option β)
    (taken : List α) : List α → Option β
  | [] => next taken []
  | symbol :: input =>
      if symbolClass symbol then
        match greedyStar symbolClass next (taken ++ [symbol]) input with
        | some found => some found
        | none => next taken (symbol :: input)
      else next taken (symbol :: input)

/-- One or more symbols of a class, greedily, then the continuation. -/
def greedyPlus (symbolClass : α → Bool) (next : List α → List α → Option β) :
    List α → Option β
  | [] => none
  | symbol :: input =>
      if symbolClass symbol then greedyStar symbolClass next [symbol] input else none

/-- The leftmost start position at which the expression matches. -/
def search (matchAt : List α → Option β) : List α → Option β
  | [] => matchAt []
  | symbol :: input =>
      match matchAt (symbol :: input) with
      | some found => some found
      | none => search matchAt input

/-- The empty run of a class, where the continuation matches. -/
theorem exists_run_of_next {symbolClass : α → Bool} {next : List α → List α → Option β}
    {taken input : List α} {found : β} (here : next taken input = some found) :
    ∃ taking rest, input = taking ++ rest ∧ (∀ symbol ∈ taking, symbolClass symbol) ∧
      next (taken ++ taking) rest = some found := by
  refine ⟨[], input, rfl, by simp, ?_⟩
  rw [List.append_nil]
  exact here

/-- A greedy repetition hands its continuation some run of the class. -/
theorem greedyStar_eq_some {symbolClass : α → Bool} {next : List α → List α → Option β}
    {taken input : List α} {found : β}
    (matched : greedyStar symbolClass next taken input = some found) :
    ∃ taking rest, input = taking ++ rest ∧ (∀ symbol ∈ taking, symbolClass symbol) ∧
      next (taken ++ taking) rest = some found := by
  induction input generalizing taken with
  | nil => exact exists_run_of_next matched
  | cons symbol input ih =>
      by_cases member : symbolClass symbol
      · simp only [greedyStar, member, ↓reduceIte] at matched
        split at matched
        · next longer earlier =>
          cases matched
          obtain ⟨taking, rest, split, members, final⟩ := ih earlier
          refine ⟨symbol :: taking, rest, by rw [split, List.cons_append], ?_, by simpa using final⟩
          intro other present
          rcases List.mem_cons.mp present with rfl | later
          · exact member
          · exact members other later
        · exact exists_run_of_next matched
      · simp only [greedyStar, member, Bool.false_eq_true, ↓reduceIte] at matched
        exact exists_run_of_next matched

theorem greedyPlus_eq_some {symbolClass : α → Bool} {next : List α → List α → Option β}
    {input : List α} {found : β} (matched : greedyPlus symbolClass next input = some found) :
    ∃ taking rest, taking ≠ [] ∧ input = taking ++ rest ∧
      (∀ symbol ∈ taking, symbolClass symbol) ∧ next taking rest = some found := by
  cases input with
  | nil => cases matched
  | cons symbol input =>
      by_cases member : symbolClass symbol
      · simp only [greedyPlus, member, ↓reduceIte] at matched
        obtain ⟨taking, rest, split, members, final⟩ := greedyStar_eq_some matched
        refine ⟨symbol :: taking, rest, by simp, by rw [split, List.cons_append], ?_, final⟩
        intro other present
        rcases List.mem_cons.mp present with rfl | later
        · exact member
        · exact members other later
      · simp only [greedyPlus, member, Bool.false_eq_true, ↓reduceIte] at matched
        cases matched

/-- A successful search matches at some suffix. -/
theorem search_eq_some {matchAt : List α → Option β} {input : List α} {found : β}
    (matched : search matchAt input = some found) :
    ∃ skipped rest, input = skipped ++ rest ∧ matchAt rest = some found := by
  induction input with
  | nil => exact ⟨[], [], rfl, matched⟩
  | cons symbol input ih =>
      simp only [search] at matched
      split at matched
      · next earlier here =>
        cases matched
        exact ⟨[], symbol :: input, rfl, here⟩
      · obtain ⟨skipped, rest, split, later⟩ := ih matched
        exact ⟨symbol :: skipped, rest, by rw [split, List.cons_append], later⟩

/-! ## Which run is taken -/

/-- A repetition takes the whole run when the continuation matches after it, or
matches after no shorter one either. -/
theorem greedyStar_append {symbolClass : α → Bool} {next : List α → List α → Option β}
    (taken : List α) {taking rest : List α} (members : ∀ symbol ∈ taking, symbolClass symbol)
    (stops : ∀ symbol ∈ rest.head?, ¬ symbolClass symbol)
    (longest : (next (taken ++ taking) rest).isSome ∨
      ∀ shorter symbol input, symbolClass symbol → next shorter (symbol :: input) = none) :
    greedyStar symbolClass next taken (taking ++ rest) = next (taken ++ taking) rest := by
  induction taking generalizing taken with
  | nil =>
      rw [List.nil_append, List.append_nil]
      cases rest with
      | nil => rfl
      | cons symbol rest => exact if_neg (stops symbol (by simp))
  | cons symbol taking ih =>
      have member := members symbol List.mem_cons_self
      have later : ∀ other ∈ taking, symbolClass other :=
        fun other present => members other (List.mem_cons_of_mem symbol present)
      rw [List.append_cons] at longest ⊢
      have whole := ih (taken ++ [symbol]) later longest
      simp only [List.cons_append, greedyStar, member, ↓reduceIte, whole]
      cases last : next (taken ++ [symbol] ++ taking) rest with
      | some found => rfl
      | none =>
          rcases longest with found | blocked
          · rw [last] at found
            cases found
          · exact blocked taken symbol _ member

theorem greedyPlus_append {symbolClass : α → Bool} {next : List α → List α → Option β}
    {taking rest : List α} (nonempty : taking ≠ []) (members : ∀ symbol ∈ taking, symbolClass symbol)
    (stops : ∀ symbol ∈ rest.head?, ¬ symbolClass symbol)
    (blocked : ∀ shorter symbol input, symbolClass symbol → next shorter (symbol :: input) = none) :
    greedyPlus symbolClass next (taking ++ rest) = next taking rest := by
  cases taking with
  | nil => exact (nonempty rfl).elim
  | cons symbol taking =>
      have member := members symbol List.mem_cons_self
      have later : ∀ other ∈ taking, symbolClass other :=
        fun other present => members other (List.mem_cons_of_mem symbol present)
      simp only [List.cons_append, greedyPlus, member, ↓reduceIte]
      exact greedyStar_append [symbol] later stops (Or.inr blocked)

theorem greedyPlus_cons_of_not {symbolClass : α → Bool} {next : List α → List α → Option β}
    {symbol : α} (outside : ¬ symbolClass symbol) (input : List α) :
    greedyPlus symbolClass next (symbol :: input) = none := if_neg outside

theorem search_cons_of_none {matchAt : List α → Option β} {symbol : α} {input : List α}
    (fails : matchAt (symbol :: input) = none) :
    search matchAt (symbol :: input) = search matchAt input := by
  rw [search, fails]

theorem search_of_some {matchAt : List α → Option β} {input : List α} {found : β}
    (here : matchAt input = some found) : search matchAt input = some found := by
  cases input with
  | nil => exact here
  | cons symbol input => rw [search, here]

/-- Where a run of the class cannot be followed by the continuation, no start
inside the run matches. -/
theorem search_append_of_none {symbolClass : α → Bool} {next : List α → List α → Option β}
    {taking rest : List α} (members : ∀ symbol ∈ taking, symbolClass symbol)
    (stops : ∀ symbol ∈ rest.head?, ¬ symbolClass symbol)
    (blocked : ∀ shorter symbol input, symbolClass symbol → next shorter (symbol :: input) = none)
    (fails : ∀ run, run ≠ [] → run <:+ taking → next run rest = none) :
    search (greedyPlus symbolClass next) (taking ++ rest) =
      search (greedyPlus symbolClass next) rest := by
  induction taking with
  | nil => rfl
  | cons symbol taking ih =>
      have later : ∀ other ∈ taking, symbolClass other :=
        fun other present => members other (List.mem_cons_of_mem symbol present)
      have here := greedyPlus_append (List.cons_ne_nil symbol taking) members stops blocked
      rw [fails _ (List.cons_ne_nil symbol taking) List.suffix_rfl, List.cons_append] at here
      rw [List.cons_append, search_cons_of_none here]
      exact ih later (fun run nonempty inside =>
        fails run nonempty (inside.trans (List.suffix_cons symbol taking)))

end Webserver.Foundation.Regex
