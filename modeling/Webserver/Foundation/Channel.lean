import Webserver.Foundation.Transition

/-! # Channels

A channel hands its items over in the order in which they were sent, each once. It
may break, and then loses the items that are waiting.
-/

namespace Webserver.Foundation

variable {α : Type*}

/-- The items sent, those still waiting, and those that have arrived. -/
structure Channel (α : Type*) where
  sent : List α := []
  waiting : List α := []
  arrived : List α := []
  broken : Bool := false

namespace Channel

/-- An item is sent, the first of those waiting arrives, or all of them are lost. -/
inductive Label (α : Type*) where
  | send (item : α)
  | arrive
  | lose

def step? (channel : Channel α) : Label α → Option (Channel α)
  | .send item =>
      some { channel with
        sent := channel.sent ++ [item]
        waiting := channel.waiting ++ [item] }
  | .arrive =>
      match channel.waiting with
      | [] => none
      | item :: rest =>
          some { channel with waiting := rest, arrived := channel.arrived ++ [item] }
  | .lose => some { channel with waiting := [], broken := true }

def system (α : Type*) : System (Channel α) (Label α) := System.ofStep (· = {}) step?

/-- Only sending adds to what was sent. -/
theorem step_sent {before after : Channel α} {label : Label α}
    (moved : before.step? label = some after) (other : ∀ item, label ≠ .send item) :
    after.sent = before.sent := by
  cases label with
  | send item => exact (other item rfl).elim
  | arrive =>
      simp only [step?] at moved
      split at moved
      · cases moved
      · cases moved
        rfl
  | lose =>
      cases moved
      rfl

/-- The items that have arrived and those waiting are among the items sent, in
order; they are all of them until the channel has broken. -/
structure Ordered (channel : Channel α) : Prop where
  sublist : (channel.arrived ++ channel.waiting).Sublist channel.sent
  intact : channel.broken = false → channel.arrived ++ channel.waiting = channel.sent

theorem Ordered.step {before after : Channel α} {label : Label α} (ordered : Ordered before)
    (moved : before.step? label = some after) : Ordered after := by
  obtain ⟨sublist, intact⟩ := ordered
  cases label with
  | send item =>
      cases moved
      constructor
      · rw [← List.append_assoc]
        exact sublist.append (List.Sublist.refl _)
      · intro whole
        rw [← List.append_assoc, intact whole]
  | arrive =>
      simp only [step?] at moved
      cases waiting : before.waiting with
      | nil =>
          rw [waiting] at moved
          cases moved
      | cons item rest =>
          rw [waiting] at moved sublist intact
          cases moved
          have same : before.arrived ++ [item] ++ rest = before.arrived ++ item :: rest :=
            List.append_assoc before.arrived [item] rest
          constructor
          · rw [same]
            exact sublist
          · intro whole
            rw [same]
            exact intact whole
  | lose =>
      cases moved
      constructor
      · rw [List.append_nil]
        exact (List.sublist_append_left _ _).trans sublist
      · intro whole
        cases whole

theorem ordered_of_reachable {channel : Channel α} (reachable : (system α).Reachable channel) :
    Ordered channel := by
  apply reachable.invariant
  · rintro start rfl
    exact ⟨List.Sublist.refl _, fun _ => rfl⟩
  · intro before after label _ ordered moved
    exact ordered.step moved

namespace Ordered

variable {channel : Channel α}

/-- What has arrived was sent, in this order. -/
theorem arrived_sublist (ordered : Ordered channel) : channel.arrived.Sublist channel.sent :=
  (List.sublist_append_left _ _).trans ordered.sublist

/-- Until the channel has broken, no item is passed over. -/
theorem arrived_prefix (ordered : Ordered channel) (whole : channel.broken = false) :
    channel.arrived <+: channel.sent :=
  ⟨channel.waiting, ordered.intact whole⟩

/-- Items that were sent encoded have arrived in order; when the channel is whole and
nothing is waiting, they all have. -/
theorem exists_received {β : Type*} {encode : β → α} {items : List β} (ordered : Ordered channel)
    (sent : channel.sent = items.map encode) :
    ∃ received, channel.arrived = received.map encode ∧ received.Sublist items ∧
      (channel.broken = false → received <+: items ∧
        (channel.waiting = [] → received = items)) := by
  cases broken : channel.broken with
  | true =>
      have sublist : channel.arrived.Sublist (items.map encode) := sent ▸ ordered.arrived_sublist
      obtain ⟨received, inside, arrived⟩ := List.sublist_map_iff.mp sublist
      exact ⟨received, arrived, inside, nofun⟩
  | false =>
      have initial : channel.arrived <+: items.map encode := sent ▸ ordered.arrived_prefix broken
      obtain ⟨received, inside, arrived⟩ := List.prefix_map_iff.mp initial
      refine ⟨received, arrived, inside.sublist, fun _ => ⟨inside, ?_⟩⟩
      intro none
      have whole : channel.arrived ++ channel.waiting = items.map encode :=
        sent ▸ ordered.intact broken
      rw [none, List.append_nil, arrived] at whole
      have length := congrArg List.length whole
      rw [List.length_map, List.length_map] at length
      exact inside.eq_of_length length

end Ordered

end Channel

end Webserver.Foundation
