import Webserver.Foundation.Pool
import Webserver.Foundation.Termination

/-! # Components that share a resource

Any number of components of one system. A component comes to hold the shared resource
only while no other holds it, and a new one joins only while it is free; a step after
which the component does not hold it never waits for it. Each component
then does what it does alone, and no two hold the resource. When a component that holds
the resource can go on, and so can every other that is busy, the components together
never wait for each other for good.
-/

namespace Webserver.Foundation

/-- A component joins, or the one at a position takes a step. -/
inductive SharedEvent (ε : Type*) where
  | join
  | component (index : Nat) (event : ε)

/-- A step of a component that is there already. -/
def SharedEvent.Inner {ε : Type*} (inner : ε → Prop) : SharedEvent ε → Prop
  | .join => False
  | .component _ event => inner event

namespace System

variable {σ ε : Type*} {sys : System σ ε} {holds : σ → Prop}

inductive Shares (sys : System σ ε) (holds : σ → Prop) :
    List σ → SharedEvent ε → List σ → Prop where
  | joined {pool : List σ} {new : σ} : sys.initial new → (∀ other ∈ pool, ¬ holds other) →
      Shares sys holds pool .join (pool ++ [new])
  | stepped {front back : List σ} {before after : σ} {event : ε} :
      sys.step before event after →
      (holds after → holds before ∨ ∀ other ∈ front ++ back, ¬ holds other) →
      Shares sys holds (front ++ before :: back) (.component front.length event)
        (front ++ after :: back)

/-- Components of a system that share a resource; in the beginning there are none. -/
def sharing (sys : System σ ε) (holds : σ → Prop) : System (List σ) (SharedEvent ε) where
  initial := (· = [])
  step := Shares sys holds

variable {pool after : List σ}

/-- Every component is in a state that it reaches alone. -/
theorem component_reachable (reachable : (sharing sys holds).Reachable pool) :
    ∀ component ∈ pool, sys.Reachable component := by
  refine reachable.invariant (motive := fun pool => ∀ component ∈ pool, sys.Reachable component)
    ?_ ?_
  · rintro start rfl component member
    cases member
  · intro before event after _ alone moved
    cases moved with
    | joined initial free =>
        intro component member
        rcases List.mem_append.mp member with old | new
        · exact alone component old
        · rw [List.mem_singleton.mp new]
          exact .initial initial
    | stepped moved enabled =>
        exact Pool.forall_replace alone ((alone _ (Pool.mem_split _ _ _)).step moved)

/-- **Mutual exclusion.** No two components hold the resource. -/
theorem exclusive_of_reachable (reachable : (sharing sys holds).Reachable pool) :
    pool.Pairwise fun one other => ¬ (holds one ∧ holds other) := by
  refine reachable.invariant
    (motive := fun pool => pool.Pairwise fun one other => ¬ (holds one ∧ holds other)) ?_ ?_
  · rintro start rfl
    exact .nil
  · intro before event after _ exclusive moved
    cases moved with
    | joined initial unheld =>
        rw [List.pairwise_append]
        refine ⟨exclusive, List.pairwise_singleton _ _, ?_⟩
        intro one member other new both
        exact unheld one member both.1
    | @stepped front back component next event moved enabled =>
        refine Pool.pairwise_replace exclusive ?_ ?_
        · intro other member apart both
          rcases enabled both.2 with held | free
          · exact apart ⟨both.1, held⟩
          · exact free other (List.mem_append_left _ member) both.1
        · intro other member apart both
          rcases enabled both.1 with held | free
          · exact apart ⟨held, both.2⟩
          · exact free other (List.mem_append_right _ member) both.2

/-- **Progress.** When every busy component can take an inner step alone, and one that
holds the resource is busy, some component can take one beside the others. -/
theorem exists_inner_step {inner : ε → Prop} {busy : σ → Prop}
    (holding : ∀ component ∈ pool, holds component → busy component)
    (alone : ∀ component ∈ pool, busy component →
      ∃ event next, inner event ∧ sys.step component event next)
    {component : σ} (member : component ∈ pool) (isBusy : busy component) :
    ∃ event after, ((sharing sys holds).restrict fun _ event _ => event.Inner inner).step
      pool event after := by
  -- a component that holds the resource already is not kept waiting by another
  have moves {chosen : σ} (chosenMember : chosen ∈ pool) (chosenBusy : busy chosen)
      (enabled : holds chosen ∨ ∀ other ∈ pool, ¬ holds other) :
      ∃ event after, ((sharing sys holds).restrict fun _ event _ => event.Inner inner).step
        pool event after := by
    obtain ⟨event, next, isInner, moved⟩ := alone chosen chosenMember chosenBusy
    obtain ⟨front, back, rfl⟩ := List.append_of_mem chosenMember
    refine ⟨.component front.length event, front ++ next :: back, .stepped moved ?_, isInner⟩
    intro _
    rcases enabled with held | free
    · exact Or.inl held
    · exact Or.inr fun other inside => free other (Pool.mem_of_removed inside)
  by_cases held : ∃ holder ∈ pool, holds holder
  · obtain ⟨holder, inside, holdsIt⟩ := held
    exact moves inside (holding holder inside holdsIt) (Or.inl holdsIt)
  · refine moves member isBusy (Or.inr ?_)
    intro other inside holdsIt
    exact held ⟨other, inside, holdsIt⟩

/-- What inner steps keep and decrease in each component, they keep and decrease in all
together. -/
theorem inner_step {inner : ε → Prop} {invariant : σ → Prop} {measure : σ → Nat}
    (kept : ∀ {before event after}, invariant before → inner event → sys.step before event after →
      invariant after ∧ measure after < measure before)
    (all : ∀ component ∈ pool, invariant component) {event : SharedEvent ε}
    (moved : ((sharing sys holds).restrict fun _ event _ => event.Inner inner).step
      pool event after) :
    (∀ component ∈ after, invariant component) ∧
      (after.map measure).sum < (pool.map measure).sum := by
  obtain ⟨moved, isInner⟩ := moved
  cases moved with
  | joined => exact isInner.elim
  | stepped moved enabled =>
      obtain ⟨holds, less⟩ := kept (all _ (Pool.mem_split _ _ _)) isInner moved
      refine ⟨Pool.forall_replace all holds, ?_⟩
      simp only [List.map_append, List.map_cons, List.sum_append, List.sum_cons]
      omega

end System

end Webserver.Foundation
