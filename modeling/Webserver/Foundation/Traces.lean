import Webserver.Foundation.Transition

/-! # Traces

The trace of a run is what its steps show to an observer. An invariant may speak of
the trace so far, and an abstraction that keeps what is observed keeps the traces.
-/

namespace Webserver.Foundation.System

variable {σ ε ο : Type*} {sys : System σ ε} {observe : σ → ε → List ο}
  {source middle target : σ} {trace later : List ο}

/-- A run with its trace. -/
inductive Emits (sys : System σ ε) (observe : σ → ε → List ο) : σ → List ο → σ → Prop where
  | nil (state : σ) : Emits sys observe state [] state
  | cons {source middle target : σ} {event : ε} {trace : List ο} :
      sys.step source event middle → Emits sys observe middle trace target →
      Emits sys observe source (observe source event ++ trace) target

namespace Emits

theorem exists_run (emits : sys.Emits observe source trace target) :
    ∃ events, sys.Run source events target := by
  induction emits with
  | nil state => exact ⟨[], .nil state⟩
  | cons moved _ ih =>
      obtain ⟨events, run⟩ := ih
      exact ⟨_ :: events, .cons moved run⟩

theorem reachable (emits : sys.Emits observe source trace target) (start : sys.initial source) :
    sys.Reachable target := by
  obtain ⟨events, run⟩ := emits.exists_run
  exact run.reachable start

/-- **The trace rule.** What relates the initial state to the empty trace, and is kept
when a step shows something, relates every state to the trace that led to it. -/
theorem invariant {motive : List ο → σ → Prop} (emits : sys.Emits observe source trace target)
    (initial : sys.initial source) (start : motive [] source)
    (kept : ∀ {seen before event after}, sys.Reachable before → motive seen before →
      sys.step before event after → motive (seen ++ observe before event) after) :
    motive trace target := by
  have extended : ∀ seen, sys.Reachable source → motive seen source →
      motive (seen ++ trace) target := by
    clear start initial
    induction emits with
    | nil state =>
        intro seen _ holds
        rwa [List.append_nil]
    | cons moved _ ih =>
        intro seen reachable holds
        rw [← List.append_assoc]
        exact ih _ (reachable.step moved) (kept reachable holds moved)
  exact extended [] (.initial initial) start

/-- **Trace simulation.** When states are related, and every step is followed by a step
of an abstract system that shows the same, or shows nothing and is followed by none, a
trace of the system is one of the abstract system. -/
theorem simulate {τ δ : Type*} {abstract : System τ δ} {see : τ → δ → List ο}
    {related : σ → τ → Prop} {start : τ} (emits : sys.Emits observe source trace target)
    (reachable : sys.Reachable source) (begins : related source start)
    (followed : ∀ {before event after state}, sys.Reachable before → related before state →
      sys.step before event after → ∃ next, related after next ∧
        (next = state ∧ observe before event = [] ∨
          ∃ label, abstract.step state label next ∧ see state label = observe before event)) :
    ∃ last, abstract.Emits see start trace last ∧ related target last := by
  induction emits generalizing start with
  | nil state => exact ⟨start, .nil start, begins⟩
  | cons moved _ ih =>
      obtain ⟨next, kept, matched⟩ := followed reachable begins moved
      obtain ⟨last, rest, ends⟩ := ih (reachable.step moved) kept
      refine ⟨last, ?_, ends⟩
      rcases matched with ⟨rfl, nothing⟩ | ⟨label, step, shown⟩
      · rw [nothing, List.nil_append]
        exact rest
      · rw [← shown]
        exact .cons step rest

/-- **Trace inclusion.** The same for an abstraction, which maps every state to one
related to it. -/
theorem refine {τ δ : Type*} {abstract : System τ δ} {see : τ → δ → List ο} (abstraction : σ → τ)
    (emits : sys.Emits observe source trace target) (reachable : sys.Reachable source)
    (simulated : ∀ {before event after}, sys.Reachable before → sys.step before event after →
      abstraction after = abstraction before ∧ observe before event = [] ∨
        ∃ label, abstract.step (abstraction before) label (abstraction after) ∧
          see (abstraction before) label = observe before event) :
    abstract.Emits see (abstraction source) trace (abstraction target) := by
  let related (state : σ) (image : τ) : Prop := image = abstraction state
  have begins : related source (abstraction source) := rfl
  have followed : ∀ {before event after image}, sys.Reachable before → related before image →
      sys.step before event after → ∃ next, related after next ∧
        (next = image ∧ observe before event = [] ∨
          ∃ label, abstract.step image label next ∧ see image label = observe before event) := by
    rintro before event after _ earlier rfl moved
    exact ⟨_, rfl, simulated earlier moved⟩
  obtain ⟨last, rest, rfl⟩ := emits.simulate reachable begins followed
  exact rest

end Emits

/-- The trace of events that an executable step function accepts one after the other,
with the state they lead to. -/
def replay (step? : σ → ε → Option σ) (observe : σ → ε → List ο) : σ → List ε →
    Option (List ο × σ)
  | state, [] => some ([], state)
  | state, event :: events =>
      (step? state event).bind fun next =>
        (replay step? observe next events).map fun (trace, last) =>
          (observe state event ++ trace, last)

theorem Emits.of_replay {start : σ → Prop} {step? : σ → ε → Option σ} {events : List ε}
    (executed : replay step? observe source events = some (trace, target)) :
    (ofStep start step?).Emits observe source trace target := by
  induction events generalizing source trace with
  | nil =>
      cases executed
      exact .nil _
  | cons event events ih =>
      obtain ⟨next, moved, rest⟩ := Option.bind_eq_some_iff.mp executed
      obtain ⟨⟨later, last⟩, followed, same⟩ := Option.map_eq_some_iff.mp rest
      cases same
      exact .cons moved (ih followed)

end Webserver.Foundation.System
