import Webserver.Foundation.Channel
import Webserver.Foundation.Termination
import Webserver.WS.Connection

/-! # Frames in sequence

A connection is a channel to its client: frames leave the queue in the order in
which they were pushed, each at most once, and none is passed over until a write has
failed. When every write succeeds and no frame is pushed, the queue of an open connection
runs empty after one write for each of its frames; once the socket is closed at most the
write that was outstanding then succeeds.
-/

namespace Webserver.WS.World

open Foundation System

variable {world before after last : World}

/-- The channel that a connection is for its client. -/
def channel (world : World) : Channel Bytes where
  sent := world.produced
  waiting := world.conn.sendQ.map Node.frame
  arrived := world.delivered
  broken := world.failed

/-- What an event means for the channel. -/
def channelLabel : Event → Option (Channel.Label Bytes)
  | .write message opcode => some (.send (fillTextFrame message opcode []))
  | .written _ none => some .arrive
  | .written _ (some _) => some .lose
  | .stop => none

/-- A write that succeeds moves the front of the queue to the delivered frames. -/
theorem Feeding.succeeded {write : PendingWrite} (feeding : Feeding world)
    (member : write ∈ world.outstanding) :
    ∃ rest, world.conn.sendQ = write.node :: rest ∧
      ((world.complete write none).handleWrite none).conn = { world.conn with sendQ := rest } ∧
      ((world.complete write none).handleWrite none).history =
        (world.produced, world.delivered ++ [write.node.frame], world.failed) := by
  obtain ⟨-, rest, queue⟩ := feeding.of_mem member
  obtain ⟨conn, -, history⟩ := handleWrite_success (world.complete write none)
  have tail : (world.complete write none).conn.sendQ.tail = rest := congrArg List.tail queue
  rw [tail] at conn
  exact ⟨rest, queue, conn, history⟩

/-- Every step is one of the channel, or leaves it as it is. -/
theorem channel_step {event : Event} (feeding : Feeding before)
    (moved : before.step? event = some after) :
    (channelLabel event).elim (some before.channel) before.channel.step? =
      some after.channel := by
  cases event with
  | write message opcode =>
      cases moved
      have pushed := write_pushed message opcode before
      have history := pushed.history
      simp only [World.history, Prod.mk.injEq] at history
      obtain ⟨produced, delivered, failed⟩ := history
      simp only [channelLabel, Option.elim_some, channel, Channel.step?, produced, delivered,
        failed, pushed.sendQ, List.map_append]
      rfl
  | written write error =>
      simp only [step?] at moved
      split_ifs at moved with member
      cases moved
      cases error with
      | none =>
          obtain ⟨rest, queue, conn, history⟩ := feeding.succeeded member
          simp only [World.history, Prod.mk.injEq] at history
          obtain ⟨produced, delivered, failed⟩ := history
          simp only [channelLabel, Option.elim_some, channel, Channel.step?, produced, delivered,
            failed, conn, queue, List.map_cons]
      | some code =>
          obtain ⟨conn, -, history⟩ := handleWrite_error code (before.complete write (some code))
          simp only [World.history, Prod.mk.injEq] at history
          obtain ⟨produced, delivered, failed⟩ := history
          simp only [channelLabel, Option.elim_some, channel, Channel.step?, produced, delivered,
            failed, conn]
          rfl
  | stop =>
      cases moved
      have history := stop_history before
      simp only [World.history, Prod.mk.injEq] at history
      obtain ⟨produced, delivered, failed⟩ := history
      simp only [channelLabel, Option.elim_none, channel, produced, delivered, failed, stop_sendQ]

/-- A connection is a channel for its frames. -/
theorem channel_reachable (reachable : wsSystem.Reachable world) :
    (Channel.system Bytes).Reachable world.channel := by
  refine reachable.invariant (motive := fun world =>
    (Channel.system Bytes).Reachable world.channel) ?_ ?_
  · rintro start rfl
    exact .initial rfl
  · intro before event after earlier refined moved
    have step := channel_step (feeding_of_reachable earlier).1 moved
    cases label : channelLabel event with
    | none =>
        rw [label] at step
        rw [← Option.some.inj step]
        exact refined
    | some sent =>
        rw [label] at step
        exact .step refined step

theorem ordered_of_reachable (reachable : wsSystem.Reachable world) :
    Channel.Ordered world.channel :=
  Channel.ordered_of_reachable (channel_reachable reachable)

/-! ## Running empty -/

/-- The writes outstanding on an open connection were started on an open socket. -/
def Unclosed (world : World) : Prop :=
  world.conn.closed = false → ∀ write ∈ world.outstanding, write.onClosed = false

theorem onClosed_of_launched {conn : WSConnection} {write : PendingWrite}
    (member : write ∈ launched conn) : write.onClosed = conn.closed := by
  obtain ⟨front, -, rfl⟩ := List.mem_map.mp member
  rfl

/-- The write that follows a successful one is the only one outstanding. -/
theorem Feeding.restarted {write : PendingWrite} (feeding : Feeding world)
    (member : write ∈ world.outstanding) :
    ((world.complete write none).handleWrite none).outstanding =
      launched ((world.complete write none).handleWrite none).conn := by
  obtain ⟨conn, started, -⟩ := handleWrite_success (world.complete write none)
  have quiet : (world.complete write none).outstanding = [] := by
    rw [(complete_frame write none world).2.1, (feeding.of_mem member).1, List.erase_cons_head]
  rw [started, quiet, List.nil_append, conn]

theorem Unclosed.step {event : Event} (unclosed : Unclosed before) (feeding : Feeding before)
    (moved : before.step? event = some after) : Unclosed after := by
  intro stillOpen
  cases event with
  | write message opcode =>
      cases moved
      have pushed := write_pushed message opcode before
      have wasOpen : before.conn.closed = false := by
        apply Bool.eq_false_iff.mpr
        intro closed
        rw [pushed.closed closed] at stillOpen
        cases stillOpen
      rw [pushed.outstanding]
      intro write member
      rcases List.mem_append.mp member with old | new
      · exact unclosed wasOpen write old
      · split_ifs at new
        · exact (onClosed_of_launched new).trans stillOpen
        · cases new
  | written write error =>
      simp only [step?] at moved
      split_ifs at moved with member
      cases moved
      cases error with
      | none =>
          rw [feeding.restarted member]
          intro write member
          exact (onClosed_of_launched member).trans stillOpen
      | some code =>
          rw [(handleWrite_error code _).1] at stillOpen
          cases stillOpen
  | stop =>
      cases moved
      rw [stop_closed] at stillOpen
      cases stillOpen

theorem unclosed_of_reachable (reachable : wsSystem.Reachable world) : Unclosed world := by
  apply reachable.invariant
  · rintro start rfl
    intro _ write member
    cases member
  · intro before after event earlier unclosed moved
    exact unclosed.step (feeding_of_reachable earlier).1 moved

/-- Writes complete without error, which none started on a closed socket does, and
nothing else happens. -/
def flushing : System World Event :=
  wsSystem.restrict fun _ event _ => ∃ write, event = .written write none ∧ write.onClosed = false

theorem flushing_step {event : Event} (feeding : Feeding before)
    (moved : flushing.step before event after) :
    ∃ node rest, before.conn.sendQ = node :: rest ∧
      after.conn = { before.conn with sendQ := rest } ∧
      after.history = (before.produced, before.delivered ++ [node.frame], before.failed) ∧
      after.outstanding = launched after.conn := by
  obtain ⟨moved, write, rfl, -⟩ := moved
  change before.step? (.written write none) = some after at moved
  simp only [step?] at moved
  split_ifs at moved with member
  cases moved
  obtain ⟨rest, queue, conn, history⟩ := feeding.succeeded member
  exact ⟨write.node, rest, queue, conn, history, feeding.restarted member⟩

/-- A write started on a closed socket is not followed by another. -/
theorem flushing_stuck (closed : world.conn.closed = true)
    (started : world.outstanding = launched world.conn) : flushing.Stuck world := by
  rintro event after ⟨moved, write, rfl, live⟩
  change world.step? (.written write none) = some after at moved
  simp only [step?] at moved
  split_ifs at moved with member
  rw [started] at member
  rw [onClosed_of_launched member, closed] at live
  cases live

/-- A queue that is not empty has its front written. -/
theorem Feeding.sendQ_of_stuck (feeding : Feeding world) (unclosed : Unclosed world)
    (opened : world.conn.closed = false) (stuck : flushing.Stuck world) :
    world.conn.sendQ = [] := by
  unfold Feeding at feeding
  cases writes : world.outstanding with
  | nil =>
      rw [writes] at feeding
      exact (List.take_eq_nil_iff.mp feeding.symm).resolve_left (by decide)
  | cons write others =>
      have member : write ∈ world.outstanding := by
        rw [writes]
        exact List.mem_cons_self
      exact (stuck (.written write none) _
        ⟨if_pos member, write, rfl, unclosed opened write member⟩).elim

/-- **A queue runs empty.** From every reachable state, as long as nothing happens but
writes that succeed, the frames of the queue are delivered in order, one by each. On an
open connection this ends after as many writes as the queue has frames, with all of them
delivered, and with every frame ever pushed when no write had failed before. On a closed
one it ends after the write outstanding. -/
theorem reachable_flushed (reachable : wsSystem.Reachable world) :
    (∀ events last, flushing.Run world events last →
      events.length + last.conn.sendQ.length = world.conn.sendQ.length ∧
      last.delivered ++ last.conn.sendQ.map Node.frame =
        world.delivered ++ world.conn.sendQ.map Node.frame ∧
      (world.conn.closed = true → events.length ≤ 1) ∧
      (world.conn.closed = false → flushing.Stuck last → last.conn.sendQ = [] ∧
        (world.failed = false → last.delivered = world.produced))) ∧
    (world.conn.closed = false →
      ∃ events last, flushing.Run world events last ∧ last.conn.sendQ = []) := by
  have feeding : ∀ {world}, wsSystem.Reachable world → Feeding world := fun reachable =>
    (feeding_of_reachable reachable).1
  constructor
  · intro events last run
    induction run with
    | nil state =>
        refine ⟨Nat.zero_add _, rfl, fun _ => Nat.zero_le 1, ?_⟩
        intro opened stuck
        have empty := (feeding reachable).sendQ_of_stuck (unclosed_of_reachable reachable)
          opened stuck
        refine ⟨empty, ?_⟩
        intro whole
        have all : state.delivered ++ state.conn.sendQ.map Node.frame = state.produced :=
          (World.ordered_of_reachable reachable).intact whole
        rwa [empty, List.map_nil, List.append_nil] at all
    | cons moved later ih =>
        obtain ⟨node, rest, queue, conn, history, started⟩ :=
          flushing_step (feeding reachable) moved
        obtain ⟨length, frames, -, ends⟩ := ih (reachable.step moved.1)
        simp only [World.history, Prod.mk.injEq] at history
        obtain ⟨produced, delivered, failed⟩ := history
        refine ⟨?_, ?_, ?_, ?_⟩
        · rw [conn] at length
          rw [queue, List.length_cons, List.length_cons, ← length]
          omega
        · rw [frames, conn, delivered, queue, List.append_assoc]
          rfl
        · intro closed
          have still := flushing_stuck (by rw [conn]; exact closed) started
          cases later with
          | nil state => exact Nat.le_refl 1
          | cons next _ => exact (still _ _ next).elim
        · rw [produced, failed, conn] at ends
          exact ends
  · intro opened
    have shorter : ∀ {before event after},
        wsSystem.Reachable before ∧ before.conn.closed = false →
        flushing.step before event after →
          (wsSystem.Reachable after ∧ after.conn.closed = false) ∧
            after.conn.sendQ.length < before.conn.sendQ.length := by
      rintro before event after ⟨reachable, opened⟩ moved
      obtain ⟨node, rest, queue, conn, -⟩ := flushing_step (feeding reachable) moved
      rw [conn, queue]
      exact ⟨⟨reachable.step moved.1, opened⟩, Nat.lt_succ_self _⟩
    obtain ⟨events, last, run, -, empty⟩ := exists_run_of_progress shorter
      (fun both stuck => (feeding both.1).sendQ_of_stuck (unclosed_of_reachable both.1)
        both.2 stuck) ⟨reachable, opened⟩
    exact ⟨events, last, run, empty⟩

/-- Two messages, on an open connection and on one that has been stopped. -/
theorem reachable_flushed_two :
    (∃ world, wsSystem.Run {} [.write (ascii "a") 129, .write (ascii "b") 129] world ∧
      world.conn.sendQ.length = 2 ∧
      ∃ events last, flushing.Run world events last ∧ last.conn.sendQ = []) ∧
    ∃ world, wsSystem.Run {} [.write (ascii "a") 129, .write (ascii "b") 129, .stop] world ∧
      world.conn.sendQ.length = 2 ∧
      ∀ events last, flushing.Run world events last → events.length ≤ 1 := by
  let world : World := (write (ascii "a") 129 {}).write (ascii "b") 129
  have pushed : wsSystem.Run {} [.write (ascii "a") 129, .write (ascii "b") 129] world :=
    .cons rfl (.cons rfl (.nil _))
  have stopped : wsSystem.Run {} [.write (ascii "a") 129, .write (ascii "b") 129, .stop]
      world.stop := .cons rfl (.cons rfl (.cons rfl (.nil _)))
  constructor
  · refine ⟨world, pushed, by decide +kernel, ?_⟩
    exact (reachable_flushed (pushed.reachable rfl)).2 (by decide +kernel)
  · refine ⟨world.stop, stopped, by decide +kernel, ?_⟩
    intro events last run
    exact ((reachable_flushed (stopped.reachable rfl)).1 events last run).2.2.1 (stop_closed _)

end Webserver.WS.World
