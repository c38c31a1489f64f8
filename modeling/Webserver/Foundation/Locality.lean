import Webserver.Foundation.Mailboxes
import Webserver.Foundation.Sharing

/-! # Locality

Components that share a resource, each of which is a mailbox for its callers, are
together a directory. A component is known by its place in the order in which they
have joined.
-/

namespace Webserver.Foundation

/-- What the callers of the components see. -/
def SharedEvent.shown {σ ε ο : Type*} (observe : Nat → σ → ε → List ο) (pool : List σ) :
    SharedEvent ε → List ο
  | .join => []
  | .component index event =>
      pool[index]?.toList.flatMap fun component => observe index component event

/-- Every component has its mailbox. -/
def Housed {σ β : Type*} (related : σ → Mailbox β → Prop) (pool : List σ)
    (directory : Directory Nat β) : Prop :=
  ∀ index : Nat, Option.Rel related pool[index]? (directory index)

namespace Housed

variable {σ β : Type*} {related : σ → Mailbox β → Prop} {pool front back : List σ}
  {directory : Directory Nat β} {component next : σ}

theorem free (housed : Housed related pool directory) : directory pool.length = none := by
  have last := housed pool.length
  rw [List.getElem?_eq_none (Nat.le_refl _)] at last
  generalize directory pool.length = mailbox at last ⊢
  cases last
  rfl

theorem found (housed : Housed related pool directory) {index : Nat}
    (there : pool[index]? = some component) :
    ∃ mailbox, directory index = some mailbox ∧ related component mailbox := by
  have here := housed index
  rw [there] at here
  generalize directory index = mailbox at here ⊢
  cases here with
  | some holds => exact ⟨_, rfl, holds⟩

theorem join (housed : Housed related pool directory) {mailbox : Mailbox β}
    (new : related component mailbox) :
    Housed related (pool ++ [component]) (directory.put pool.length mailbox) := by
  intro index
  by_cases last : index = pool.length
  · subst last
    rw [List.getElem?_concat_length, Directory.put_self]
    exact .some new
  · rw [Directory.put_of_ne last]
    have same : (pool ++ [component])[index]? = pool[index]? := by
      rcases Nat.lt_or_gt_of_ne last with before | after
      · exact List.getElem?_append_left before
      · rw [List.getElem?_eq_none (Nat.le_of_lt after), List.getElem?_eq_none]
        rw [List.length_append, List.length_singleton]
        exact after
    rw [same]
    exact housed index

theorem replace (housed : Housed related (front ++ component :: back) directory)
    {mailbox : Mailbox β} (holds : related next mailbox) :
    Housed related (front ++ next :: back) (directory.put front.length mailbox) := by
  intro index
  rw [← Pool.set_split front back component next,
    Pool.getElem?_set next (Pool.getElem?_split front back component)]
  by_cases here : index = front.length
  · subst here
    rw [if_pos rfl, Directory.put_self]
    exact .some holds
  · rw [if_neg (Ne.symm here), Directory.put_of_ne here]
    exact housed index

end Housed

namespace System

variable {σ ε α β : Type*} {sys : System σ ε} {holds : σ → Prop}
  {related : σ → Mailbox β → Prop} {encode : α → β}
  {answer : Nat → σ → ε → List (Directory.Answer Nat α)}

/-- What one component does while no other holds the resource. -/
theorem Emits.beside {ο : Type*} {observe : Nat → σ → ε → List ο} {front back : List σ}
    {before after : σ} {trace : List ο}
    (emits : sys.Emits (observe front.length) before trace after)
    (free : ∀ other ∈ front ++ back, ¬ holds other) :
    (sharing sys holds).Emits (SharedEvent.shown observe) (front ++ before :: back) trace
      (front ++ after :: back) := by
  induction emits with
  | nil state => exact .nil _
  | @cons source middle target event trace moved _ ih =>
      have shows : SharedEvent.shown observe (front ++ source :: back)
          (.component front.length event) = observe front.length source event := by
        rw [SharedEvent.shown, Pool.getElem?_split]
        exact List.append_nil _
      rw [← shows]
      exact .cons (.stepped moved fun _ => Or.inr free) ih

/-- **Locality.** When every component alone is a mailbox for its callers, the answers
that the callers of all components get are those of a directory. -/
theorem Emits.locality {answers : List (Directory.Answer Nat α)} {last : List σ}
    (emits : (sharing sys holds).Emits (SharedEvent.shown answer) [] answers last)
    (new : ∀ {component}, sys.initial component → related component {})
    (follows : ∀ {index before event after mailbox} {directory : Directory Nat β},
      sys.Reachable before → related before mailbox → directory index = some mailbox →
      sys.step before event after →
      ∃ next, related after next ∧
        directory.Follows encode index next (answer index before event)) :
    ∃ directory, (Directory.system Nat encode).Emits Directory.answer .empty answers directory ∧
      Housed related last directory := by
  have begins : Housed related [] (Directory.empty : Directory Nat β) := fun _ => .none
  refine emits.simulate (.initial rfl) begins ?_
  intro before event after directory earlier housed moved
  cases moved with
  | joined initial free =>
      refine ⟨directory.put before.length {}, housed.join (new initial),
        Or.inr ⟨.add before.length, ?_, rfl⟩⟩
      change Directory.step? encode directory (.add before.length) = _
      rw [Directory.step?, housed.free]
      rfl
  | @stepped front back component next event moved enabled =>
      have there : (front ++ component :: back)[front.length]? = some component :=
        Pool.getElem?_split front back component
      obtain ⟨mailbox, found, fits⟩ := housed.found there
      have alone := component_reachable earlier component (Pool.mem_split front back component)
      obtain ⟨after, kept, followed⟩ := follows alone fits found moved
      have shows : SharedEvent.shown answer (front ++ component :: back)
          (.component front.length event) = answer front.length component event := by
        rw [SharedEvent.shown, there]
        exact List.append_nil _
      rw [shows]
      exact ⟨_, housed.replace kept, followed⟩

end System

end Webserver.Foundation
