import Mathlib.Data.List.Induction

/-! # Incremental consumers

A consumer reads its input one symbol at a time. Each symbol either leaves it
running in a next state or stops it with a verdict; the symbols after the
deciding one are not looked at. The results here are independent of what the
symbols, states and verdicts are: how a run splits over a concatenation, over a
list of chunks, and where its verdict falls.
-/

namespace Webserver.Foundation

variable {σ ν α : Type*}

/-- What one symbol does to a consumer. -/
inductive Turn (σ ν : Type*) where
  | more (state : σ)
  | done (verdict : ν) (state : σ)
  deriving DecidableEq, Repr

/-- How far a run got: still running, or stopped with the unread rest. -/
inductive Progress (σ ν α : Type*) where
  | more (state : σ)
  | done (verdict : ν) (state : σ) (rest : List α)
  deriving DecidableEq, Repr

/-- Read symbols until one of them decides or none is left. -/
def run (step : σ → α → Turn σ ν) (state : σ) : List α → Progress σ ν α
  | [] => .more state
  | symbol :: input =>
      match step state symbol with
      | .more next => run step next input
      | .done verdict next => .done verdict next input

namespace Incremental

variable {step : σ → α → Turn σ ν}

@[simp] theorem run_nil (state : σ) : run step state [] = .more state := rfl

theorem run_cons_more {state next : σ} {symbol : α} (input : List α)
    (turn : step state symbol = .more next) :
    run step state (symbol :: input) = run step next input := by
  rw [run, turn]

theorem run_cons_done {state next : σ} {symbol : α} {verdict : ν} (input : List α)
    (turn : step state symbol = .done verdict next) :
    run step state (symbol :: input) = .done verdict next input := by
  rw [run, turn]

/-- A run that is still going after some input goes on with what follows. -/
theorem run_append_of_more {state next : σ} {input : List α} (later : List α)
    (running : run step state input = .more next) :
    run step state (input ++ later) = run step next later := by
  induction input generalizing state with
  | nil =>
      rw [run_nil, Progress.more.injEq] at running
      rw [List.nil_append, running]
  | cons symbol input ih =>
      cases turn : step state symbol with
      | more middle =>
          rw [run_cons_more input turn] at running
          rw [List.cons_append, run_cons_more _ turn]
          exact ih running
      | done verdict middle =>
          rw [run_cons_done input turn] at running
          cases running

/-- A verdict does not depend on what follows it. -/
theorem run_append_of_done {state next : σ} {verdict : ν} {input rest : List α}
    (later : List α) (decided : run step state input = .done verdict next rest) :
    run step state (input ++ later) = .done verdict next (rest ++ later) := by
  induction input generalizing state with
  | nil => cases decided
  | cons symbol input ih =>
      cases turn : step state symbol with
      | more middle =>
          rw [run_cons_more input turn] at decided
          rw [List.cons_append, run_cons_more _ turn]
          exact ih decided
      | done found middle =>
          rw [run_cons_done input turn] at decided
          cases decided
          rw [List.cons_append, run_cons_done _ turn]

/-- A run still going over a concatenation was still going over its front. -/
theorem run_more_of_append {state last : σ} {input later : List α}
    (running : run step state (input ++ later) = .more last) :
    ∃ middle, run step state input = .more middle ∧ run step middle later = .more last := by
  cases front : run step state input with
  | more middle =>
      rw [run_append_of_more later front] at running
      exact ⟨middle, rfl, running⟩
  | done verdict middle rest =>
      rw [run_append_of_done later front] at running
      cases running

/-- One more symbol after a run that is still going. -/
theorem run_concat_of_more {state middle : σ} {input : List α} (symbol : α)
    (running : run step state input = .more middle) :
    run step state (input ++ [symbol]) =
      match step middle symbol with
      | .more next => .more next
      | .done verdict next => .done verdict next [] := by
  rw [run_append_of_more [symbol] running]
  cases turn : step middle symbol with
  | more next => rw [run_cons_more [] turn, run_nil]
  | done verdict next => rw [run_cons_done [] turn]

/-- **Where a verdict falls.** A run stops with a verdict exactly when it is
still going before some symbol and that symbol decides. -/
theorem run_eq_done_iff {state last : σ} {verdict : ν} {input rest : List α} :
    run step state input = .done verdict last rest ↔
      ∃ front symbol middle, input = front ++ symbol :: rest ∧
        run step state front = .more middle ∧ step middle symbol = .done verdict last := by
  constructor
  · intro decided
    induction input generalizing state with
    | nil => cases decided
    | cons symbol input ih =>
        cases turn : step state symbol with
        | more next =>
            rw [run_cons_more input turn] at decided
            obtain ⟨front, decider, middle, split, running, decides⟩ := ih decided
            refine ⟨symbol :: front, decider, middle, ?_, ?_, decides⟩
            · rw [split, List.cons_append]
            · rw [run_cons_more front turn, running]
        | done found next =>
            rw [run_cons_done input turn] at decided
            cases decided
            exact ⟨[], symbol, state, rfl, rfl, turn⟩
  · rintro ⟨front, symbol, middle, rfl, running, decides⟩
    rw [run_append_of_more _ running, run_cons_done rest decides]

/-- A verdict over a list of chunks falls in one of them, and the chunks before
it are read without one. -/
theorem run_flatten_done {state last : σ} {verdict : ν} {chunks : List (List α)} {rest : List α}
    (decided : run step state chunks.flatten = .done verdict last rest) :
    ∃ before chunk after middle remaining, chunks = before ++ chunk :: after ∧
      run step state before.flatten = .more middle ∧
      run step middle chunk = .done verdict last remaining ∧
      rest = remaining ++ after.flatten := by
  induction chunks generalizing state with
  | nil => cases decided
  | cons chunk chunks ih =>
      rw [List.flatten_cons] at decided
      cases front : run step state chunk with
      | more middle =>
          rw [run_append_of_more _ front] at decided
          obtain ⟨before, decider, after, later, remaining, rfl, earlier, here, split⟩ := ih decided
          refine ⟨chunk :: before, decider, after, later, remaining, rfl, ?_, here, split⟩
          rw [List.flatten_cons, run_append_of_more _ front, earlier]
      | done found final remaining =>
          rw [run_append_of_done _ front] at decided
          cases decided
          exact ⟨[], chunk, chunks, state, remaining, rfl, rfl, front, rfl⟩

/-- A property of the state and of what was read so far, kept by every symbol
that does not decide, holds as long as the run goes on. -/
theorem run_more_induct {motive : σ → List α → Prop} {state last : σ} {input : List α}
    (initial : motive state [])
    (preserved : ∀ {middle next read symbol}, motive middle read →
      step middle symbol = .more next → motive next (read ++ [symbol]))
    (running : run step state input = .more last) : motive last input := by
  induction input using List.reverseRecOn generalizing last with
  | nil => cases running; exact initial
  | append_singleton input symbol ih =>
      obtain ⟨middle, front, final⟩ := run_more_of_append running
      cases turn : step middle symbol with
      | more next =>
          rw [run_cons_more [] turn] at final
          cases final
          exact preserved (ih front) turn
      | done verdict next =>
          rw [run_cons_done [] turn] at final
          cases final

/-- A consumer that only accumulates symbols of a class reads any run of them. -/
theorem run_accumulate (accepted : α → Prop) (accumulate : List α → σ)
    (turns : ∀ read symbol, accepted symbol →
      step (accumulate read) symbol = .more (accumulate (read ++ [symbol])))
    (read : List α) {input : List α} (members : ∀ symbol ∈ input, accepted symbol) :
    run step (accumulate read) input = .more (accumulate (read ++ input)) := by
  induction input generalizing read with
  | nil => rw [run_nil, List.append_nil]
  | cons symbol input ih =>
      rw [run_cons_more input (turns read symbol (members symbol (by simp))),
        ih (read ++ [symbol]) (fun other member => members other (by simp [member])),
        List.append_assoc, List.singleton_append]

/-! ## Runs decided by a condition -/

/-- A run that goes on to a state when a condition holds and stops with a verdict
otherwise. -/
structure Decided (verdict : ν) (progress : Progress σ ν α) (condition : Prop) (next : σ) :
    Prop where
  goes : condition → progress = .more next
  stops : ¬ condition → ∃ last rest, progress = .done verdict last rest

theorem Decided.of_more {verdict : ν} {progress : Progress σ ν α} {next : σ}
    (running : progress = .more next) : Decided verdict progress True next :=
  ⟨fun _ => running, fun never => (never trivial).elim⟩

/-- Two inputs after one another are decided by both conditions. -/
theorem Decided.append {verdict : ν} {state next last : σ} {input later : List α}
    {condition further : Prop} (first : Decided verdict (run step state input) condition next)
    (second : Decided verdict (run step next later) further last) :
    Decided verdict (run step state (input ++ later)) (condition ∧ further) last := by
  by_cases holds : condition
  · have running := first.goes holds
    rw [run_append_of_more later running]
    exact ⟨fun both => second.goes both.2,
      fun fails => second.stops (fun more => fails ⟨holds, more⟩)⟩
  · obtain ⟨final, rest, stopped⟩ := first.stops holds
    rw [run_append_of_done later stopped]
    exact ⟨fun both => (holds both.1).elim, fun _ => ⟨final, rest ++ later, rfl⟩⟩

/-! ## What is observed along a run -/

variable {ω : Type*}

/-- What a step reveals, collected along a run up to its verdict. -/
def trace (observe : σ → α → Option ω) (step : σ → α → Turn σ ν) (state : σ) : List α → List ω
  | [] => []
  | symbol :: input =>
      (observe state symbol).toList ++
        match step state symbol with
        | .more next => trace observe step next input
        | .done _ _ => []

variable {observe : σ → α → Option ω}

theorem trace_cons_more {state next : σ} {symbol : α} (input : List α)
    (turn : step state symbol = .more next) :
    trace observe step state (symbol :: input) =
      (observe state symbol).toList ++ trace observe step next input := by
  rw [trace, turn]

theorem trace_cons_done {state next : σ} {symbol : α} {verdict : ν} (input : List α)
    (turn : step state symbol = .done verdict next) :
    trace observe step state (symbol :: input) = (observe state symbol).toList := by
  rw [trace, turn]
  exact List.append_nil _

/-- Something is observed exactly at a symbol up to which the run is going. -/
theorem mem_trace_iff {state : σ} {input : List α} {seen : ω} :
    seen ∈ trace observe step state input ↔
      ∃ front symbol rest middle, input = front ++ symbol :: rest ∧
        run step state front = .more middle ∧ observe middle symbol = some seen := by
  induction input generalizing state with
  | nil => simp [trace]
  | cons symbol input ih =>
      constructor
      · intro member
        cases turn : step state symbol with
        | more next =>
            rw [trace_cons_more input turn, List.mem_append, Option.mem_toList] at member
            rcases member with here | later
            · exact ⟨[], symbol, input, state, rfl, rfl, here⟩
            · obtain ⟨front, other, rest, middle, split, running, found⟩ := ih.mp later
              refine ⟨symbol :: front, other, rest, middle, ?_, ?_, found⟩
              · rw [split, List.cons_append]
              · rw [run_cons_more front turn, running]
        | done verdict next =>
            rw [trace_cons_done input turn, Option.mem_toList] at member
            exact ⟨[], symbol, input, state, rfl, rfl, member⟩
      · intro found
        obtain ⟨front, other, rest, middle, split, running, seenThere⟩ := found
        cases front with
        | nil =>
            cases split
            cases running
            exact List.mem_append_left _ (Option.mem_toList.mpr seenThere)
        | cons first front =>
            rw [List.cons_append, List.cons.injEq] at split
            obtain ⟨rfl, split⟩ := split
            cases turn : step state symbol with
            | more next =>
                rw [run_cons_more front turn] at running
                rw [trace_cons_more input turn]
                refine List.mem_append_right _ (ih.mpr ?_)
                exact ⟨front, other, rest, middle, split, running, seenThere⟩
            | done verdict next =>
                rw [run_cons_done front turn] at running
                cases running

theorem trace_append_of_more {state next : σ} {input : List α} (later : List α)
    (running : run step state input = .more next) :
    trace observe step state (input ++ later) =
      trace observe step state input ++ trace observe step next later := by
  induction input generalizing state with
  | nil =>
      cases running
      rfl
  | cons symbol input ih =>
      cases turn : step state symbol with
      | more middle =>
          rw [run_cons_more input turn] at running
          rw [List.cons_append, trace_cons_more _ turn, trace_cons_more _ turn, ih running,
            List.append_assoc]
      | done verdict middle =>
          rw [run_cons_done input turn] at running
          cases running

theorem trace_append_of_done {state last : σ} {verdict : ν} {input rest : List α} (later : List α)
    (decided : run step state input = .done verdict last rest) :
    trace observe step state (input ++ later) = trace observe step state input := by
  induction input generalizing state with
  | nil => cases decided
  | cons symbol input ih =>
      cases turn : step state symbol with
      | more middle =>
          rw [run_cons_more input turn] at decided
          rw [List.cons_append, trace_cons_more _ turn, trace_cons_more _ turn, ih decided]
      | done found middle =>
          rw [List.cons_append, trace_cons_done _ turn, trace_cons_done _ turn]

end Incremental

end Webserver.Foundation
