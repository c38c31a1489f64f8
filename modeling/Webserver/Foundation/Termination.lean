import Webserver.Foundation.Transition

/-! # Runs that end

A measure that every step decreases bounds the length of a run. When, besides, some
step is possible in every state that is not final, a run that cannot be continued
has come to a final state, and there is such a run from every state.
-/

namespace Webserver.Foundation.System

variable {σ ε : Type*} {sys : System σ ε} {measure : σ → Nat} {source target : σ}
  {events : List ε}

/-- What every step decreases under an invariant, a run decreases by its length. -/
theorem Run.length_le {invariant : σ → Prop}
    (kept : ∀ {before event after}, invariant before → sys.step before event after →
      invariant after ∧ measure after < measure before)
    (run : sys.Run source events target) (start : invariant source) :
    events.length + measure target ≤ measure source ∧ invariant target := by
  induction run with
  | nil state => exact ⟨Nat.le_of_eq (Nat.zero_add _), start⟩
  | cons moved _ ih =>
      obtain ⟨holds, less⟩ := kept start moved
      obtain ⟨bound, ended⟩ := ih holds
      refine ⟨?_, ended⟩
      rw [List.length_cons]
      omega

/-- No step is possible. -/
def Stuck (sys : System σ ε) (state : σ) : Prop := ∀ event after, ¬ sys.step state event after

/-- **The completion rule.** Under an invariant, when every step decreases the measure and
every state in which no step is possible is final, some run leads to a final state. -/
theorem exists_run_of_progress {invariant final : σ → Prop}
    (kept : ∀ {before event after}, invariant before → sys.step before event after →
      invariant after ∧ measure after < measure before)
    (progress : ∀ {state}, invariant state → sys.Stuck state → final state)
    (start : invariant source) :
    ∃ events target, sys.Run source events target ∧ invariant target ∧ final target := by
  induction bound : measure source using Nat.strongRecOn generalizing source with
  | ind size ih =>
      by_cases stuck : sys.Stuck source
      · exact ⟨[], source, .nil source, start, progress start stuck⟩
      · simp only [Stuck, not_forall, not_not] at stuck
        obtain ⟨event, after, moved⟩ := stuck
        obtain ⟨holds, less⟩ := kept start moved
        obtain ⟨events, target, run, ends⟩ := ih _ (bound ▸ less) holds rfl
        exact ⟨event :: events, target, .cons moved run, ends⟩

end Webserver.Foundation.System
