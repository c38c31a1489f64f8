import Mathlib.Logic.Basic
import Mathlib.Data.List.Induction
import Mathlib.Tactic.SplitIfs

/-! # Labelled transition systems

A system has initial states and labelled steps. A run is a finite sequence of
steps with its labels in order. Safety results are proved once per step and
lifted to every run and every reachable state by the rules here.
-/

namespace Webserver.Foundation

/-- Initial states and labelled steps over states `σ` and events `ε`. -/
structure System (σ ε : Type*) where
  initial : σ → Prop
  step : σ → ε → σ → Prop

namespace System

variable {σ ε : Type*} (sys : System σ ε)

/-- The system of an executable step function that refuses disabled events. -/
def ofStep (start : σ → Prop) (step? : σ → ε → Option σ) : System σ ε where
  initial := start
  step before event after := step? before event = some after

/-- The same system with the steps that satisfy a condition only. -/
def restrict (condition : σ → ε → σ → Prop) : System σ ε where
  initial := sys.initial
  step before event after := sys.step before event after ∧ condition before event after

/-- Finite runs, with the events in the order in which they happen. -/
inductive Run : σ → List ε → σ → Prop where
  | nil (state : σ) : Run state [] state
  | cons {source middle target : σ} {event : ε} {events : List ε} :
      sys.step source event middle → Run middle events target →
      Run source (event :: events) target

/-- The states some run leads to from an initial state. -/
inductive Reachable : σ → Prop where
  | initial {state : σ} : sys.initial state → Reachable state
  | step {before after : σ} {event : ε} :
      Reachable before → sys.step before event after → Reachable after

variable {sys}

namespace Run

/-- What every step keeps, every run keeps. -/
theorem preserves {motive : σ → Prop} {source target : σ} {events : List ε}
    (kept : ∀ {before event after}, motive before → sys.step before event after → motive after)
    (run : sys.Run source events target) (start : motive source) : motive target := by
  induction run with
  | nil state => exact start
  | cons moved _ ih => exact ih (kept start moved)

theorem append {source middle target : σ} {events later : List ε}
    (run : sys.Run source events middle) (rest : sys.Run middle later target) :
    sys.Run source (events ++ later) target := by
  induction run with
  | nil state => exact rest
  | cons moved _ ih => exact .cons moved (ih rest)

end Run

/-- Events an executable step function accepts one after the other. -/
theorem Run.of_foldlM {start : σ → Prop} {step? : σ → ε → Option σ} {source target : σ}
    {events : List ε} (executed : events.foldlM step? source = some target) :
    (ofStep start step?).Run source events target := by
  induction events generalizing source with
  | nil =>
      cases executed
      exact .nil _
  | cons event events ih =>
      rw [List.foldlM_cons] at executed
      obtain ⟨middle, moved, rest⟩ := Option.bind_eq_some_iff.mp executed
      exact .cons moved (ih rest)

/-- Events accepted one after the other that satisfy a condition. -/
theorem Run.restrict_of_foldlM {start : σ → Prop} {step? : σ → ε → Option σ}
    {condition : σ → ε → Prop} [∀ state event, Decidable (condition state event)]
    {source target : σ} {events : List ε}
    (executed : events.foldlM (fun state event =>
      if condition state event then step? state event else none) source = some target) :
    ((ofStep start step?).restrict fun before event _ => condition before event).Run
      source events target := by
  induction events generalizing source with
  | nil =>
      cases executed
      exact .nil _
  | cons event events ih =>
      rw [List.foldlM_cons] at executed
      obtain ⟨middle, moved, rest⟩ := Option.bind_eq_some_iff.mp executed
      split_ifs at moved with holds
      exact .cons ⟨moved, holds⟩ (ih rest)

/-- An event leads to at most one state. -/
def Deterministic (sys : System σ ε) : Prop :=
  ∀ {source event left right}, sys.step source event left → sys.step source event right →
    left = right

theorem ofStep_deterministic (start : σ → Prop) (step? : σ → ε → Option σ) :
    (ofStep start step?).Deterministic := by
  intro source event left right toLeft toRight
  have both : some left = some right := Eq.trans (Eq.symm toLeft) toRight
  exact Option.some.inj both

/-- The events of a run determine the state it leads to. -/
theorem Deterministic.run_eq (deterministic : sys.Deterministic) {source left right : σ}
    {events : List ε} (toLeft : sys.Run source events left)
    (toRight : sys.Run source events right) : left = right := by
  induction toLeft with
  | nil state =>
      cases toRight
      rfl
  | cons moved _ ih =>
      cases toRight with
      | cons first later =>
          rw [deterministic first moved] at later
          exact ih later

/-- A run of a deterministic system under a condition goes on through the state
its first event leads to. -/
theorem Deterministic.restrict_run_cons_iff (deterministic : sys.Deterministic)
    {condition : σ → ε → σ → Prop} {source middle target : σ} {event : ε} {events : List ε}
    (moved : sys.step source event middle) :
    (sys.restrict condition).Run source (event :: events) target ↔
      condition source event middle ∧ (sys.restrict condition).Run middle events target := by
  constructor
  · intro run
    cases run with
    | cons first later =>
        rw [deterministic moved first.1]
        exact ⟨first.2, later⟩
  · rintro ⟨holds, later⟩
    exact .cons ⟨moved, holds⟩ later

/-- Under an invariant that the first condition keeps, runs under it are runs under
any condition it implies step by step. -/
theorem Run.restrict_of {motive : σ → Prop} {condition implied : σ → ε → σ → Prop}
    {source target : σ} {events : List ε}
    (implies : ∀ {before event after}, motive before → sys.step before event after →
      condition before event after → implied before event after ∧ motive after)
    (run : (sys.restrict condition).Run source events target) (start : motive source) :
    (sys.restrict implied).Run source events target := by
  induction run with
  | nil state => exact .nil state
  | cons moved _ ih =>
      obtain ⟨holds, kept⟩ := implies start moved.1 moved.2
      exact .cons ⟨moved.1, holds⟩ (ih kept)

/-- What is reached under a condition is reached. -/
theorem Reachable.of_restrict {condition : σ → ε → σ → Prop} {state : σ}
    (reachable : (sys.restrict condition).Reachable state) : sys.Reachable state := by
  induction reachable with
  | initial initial => exact .initial initial
  | step _ moved ih => exact .step ih moved.1

theorem Reachable.run {source target : σ} {events : List ε}
    (reachable : sys.Reachable source) (run : sys.Run source events target) :
    sys.Reachable target :=
  run.preserves (motive := sys.Reachable) (fun earlier moved => .step earlier moved) reachable

/-- Every state a run from an initial state leads to is reachable. -/
theorem Run.reachable {source target : σ} {events : List ε}
    (run : sys.Run source events target) (start : sys.initial source) :
    sys.Reachable target :=
  Reachable.run (.initial start) run

/-- **The invariant rule.** What holds initially and is kept by every step from
a reachable state holds in every reachable state. -/
theorem Reachable.invariant {motive : σ → Prop} {state : σ}
    (reachable : sys.Reachable state)
    (start : ∀ {state}, sys.initial state → motive state)
    (kept : ∀ {before event after}, sys.Reachable before → motive before →
      sys.step before event after → motive after) : motive state := by
  induction reachable with
  | initial initial => exact start initial
  | step earlier moved ih => exact kept earlier ih moved

/-- **The simulation rule.** When a relation to the states of an abstract system
holds initially and every step is matched by a step or by none, every reachable
state is related to a reachable one. -/
theorem Reachable.simulate {τ δ : Type*} {abstract : System τ δ} {related : σ → τ → Prop}
    {state : σ} (reachable : sys.Reachable state)
    (start : ∀ {state}, sys.initial state →
      ∃ image, abstract.initial image ∧ related state image)
    (simulated : ∀ {before event after image}, abstract.Reachable image →
      related before image → sys.step before event after →
      related after image ∨ ∃ label next, abstract.step image label next ∧ related after next) :
    ∃ image, abstract.Reachable image ∧ related state image := by
  induction reachable with
  | initial initial =>
      obtain ⟨image, first, holds⟩ := start initial
      exact ⟨image, .initial first, holds⟩
  | step _ moved ih =>
      obtain ⟨image, earlier, holds⟩ := ih
      rcases simulated earlier holds moved with same | ⟨label, next, step, kept⟩
      · exact ⟨image, earlier, same⟩
      · exact ⟨next, .step earlier step, kept⟩

/-- **The refinement rule.** When an abstraction maps every step to a step or to
none, it maps every reachable state to a reachable state. -/
theorem Reachable.refine {τ δ : Type*} {abstract : System τ δ} (abstraction : σ → τ) {state : σ}
    (reachable : sys.Reachable state)
    (start : ∀ {state}, sys.initial state → abstract.initial (abstraction state))
    (simulated : ∀ {before event after}, sys.step before event after →
      abstraction after = abstraction before ∨
        ∃ label, abstract.step (abstraction before) label (abstraction after)) :
    abstract.Reachable (abstraction state) := by
  have matched : ∃ image, abstract.Reachable image ∧ abstraction state = image := by
    apply reachable.simulate
    · intro state initial
      exact ⟨_, start initial, rfl⟩
    · rintro before event after image _ rfl moved
      rcases simulated moved with same | ⟨label, step⟩
      · exact .inl same
      · exact .inr ⟨label, _, step, rfl⟩
  obtain ⟨image, related, rfl⟩ := matched
  exact related

end System

end Webserver.Foundation
