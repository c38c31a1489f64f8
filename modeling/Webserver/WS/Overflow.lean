import Webserver.WS.Connection

/-! # Overflow of the send queue

The check of `write` runs after the push and only stops the connection. Until it
does, the queue holds at most 100 frames. A push that comes after it, before the
handler of the outstanding write has emptied the queue, makes the queue longer
still.
-/

namespace Webserver.WS

open Foundation System

namespace World

/-- No frame is pushed onto a queue whose overflow has closed the connection. -/
def Room (before : World) : Event → Prop
  | .write _ _ => ¬ (before.conn.closed = true ∧ before.conn.sendQ.length > 100)
  | _ => True

/-- The queue of an open connection is within the limit, and no queue is longer
than the push that exceeds it makes it. -/
structure Guarded (world : World) : Prop where
  limit : world.conn.closed = false → world.conn.sendQ.length ≤ 100
  bounded : world.conn.sendQ.length ≤ 101

/-- A push that exceeds the limit leaves the connection closed. -/
theorem write_limit (message : Bytes) (opcode : UInt8) (world : World) :
    (world.write message opcode).conn.closed = false →
      (world.write message opcode).conn.sendQ.length ≤ 100 := by
  simp only [write]
  generalize fillTextFrame message opcode [] = frame
  generalize enqueue frame _ = pushed
  rw [(startSingle_frame pushed.checkOverflow).1]
  unfold checkOverflow
  by_cases overflow : pushed.conn.sendQ.length > 100
  · rw [if_pos overflow, stop_closed]
    intro stillOpen
    cases stillOpen
  · rw [if_neg overflow]
    intro _
    omega

theorem Guarded.room_iff {world : World} (guarded : Guarded world) (message : Bytes)
    (opcode : UInt8) : Room world (.write message opcode) ↔ world.conn.sendQ.length ≤ 100 := by
  unfold Room
  constructor
  · intro room
    cases closed : world.conn.closed with
    | false => exact guarded.limit closed
    | true =>
        apply Nat.not_lt.mp
        intro long
        exact room ⟨closed, long⟩
  · rintro short ⟨-, long⟩
    omega

/-- What a step other than a push leaves of the queue. -/
theorem Guarded.written {world : World} (guarded : Guarded world) (write : PendingWrite)
    (error : Option ErrorCode) :
    Guarded ((world.complete write error).handleWrite error) := by
  have conn := (complete_frame write error world).1
  cases error with
  | none =>
      have after := (handleWrite_success (world.complete write none)).1
      have shorter : world.conn.sendQ.tail.length ≤ world.conn.sendQ.length := by simp
      constructor
      · rw [after, conn]
        intro stillOpen
        exact Nat.le_trans shorter (guarded.limit stillOpen)
      · rw [after, conn]
        exact Nat.le_trans shorter guarded.bounded
  | some code =>
      have after := (handleWrite_error code (world.complete write (some code))).1
      constructor
      · rw [after]
        intro stillOpen
        cases stillOpen
      · rw [after]
        exact Nat.zero_le 101

theorem Guarded.stop {world : World} (guarded : Guarded world) : Guarded world.stop := by
  constructor
  · rw [stop_closed]
    intro stillOpen
    cases stillOpen
  · rw [stop_sendQ]
    exact guarded.bounded

/-- From a guarded state, a step finds room exactly when it leaves the queue
bounded; the state after it is then guarded. -/
theorem Guarded.step {before after : World} {event : Event} (guarded : Guarded before)
    (moved : before.step? event = some after) :
    (Room before event ↔ after.conn.sendQ.length ≤ 101) ∧
      (after.conn.sendQ.length ≤ 101 → Guarded after) := by
  cases event with
  | write message opcode =>
      cases moved
      have pushed := write_pushed message opcode before
      have longer : (before.write message opcode).conn.sendQ.length =
          before.conn.sendQ.length + 1 := by
        rw [pushed.sendQ, List.length_append, List.length_singleton]
      refine ⟨?_, fun bounded => ⟨write_limit message opcode before, bounded⟩⟩
      rw [guarded.room_iff, longer]
      omega
  | written write error =>
      simp only [step?] at moved
      split_ifs at moved with member
      cases moved
      have after := guarded.written write error
      exact ⟨iff_of_true trivial after.bounded, fun _ => after⟩
  | stop =>
      cases moved
      exact ⟨iff_of_true trivial guarded.stop.bounded, fun _ => guarded.stop⟩

/-- **The overflow guard.** The runs in which every state holds at most 101
frames are exactly those in which no frame is pushed onto an overflowed queue of
a connection already closed. -/
theorem run_sendQ_bounded_iff (events : List Event) (last : World) :
    (wsSystem.restrict fun before event _ => Room before event).Run {} events last ↔
      (wsSystem.restrict fun _ _ after => after.conn.sendQ.length ≤ 101).Run {} events last := by
  have start : Guarded {} := ⟨fun _ => Nat.zero_le 100, Nat.zero_le 101⟩
  constructor
  · intro run
    refine run.restrict_of (motive := Guarded) ?_ start
    intro before event after guarded moved room
    obtain ⟨exact, kept⟩ := guarded.step moved
    exact ⟨exact.mp room, kept (exact.mp room)⟩
  · intro run
    refine run.restrict_of (motive := Guarded) ?_ start
    intro before event after guarded moved bounded
    obtain ⟨exact, kept⟩ := guarded.step moved
    exact ⟨exact.mpr bounded, kept bounded⟩

/-- A push after the one that overflowed. -/
theorem not_sendQ_bounded : ¬ ∀ world, wsSystem.Reachable world →
    world.conn.sendQ.length ≤ 101 := by
  intro always
  have long : ((List.replicate 102 (Event.write [] 129)).foldlM step? {}).map
      (fun last => last.conn.sendQ.length) = some 102 := by decide +kernel
  obtain ⟨last, executed, length⟩ := Option.map_eq_some_iff.mp long
  have run : wsSystem.Run {} (List.replicate 102 (.write [] 129)) last := .of_foldlM executed
  have bounded := always last (run.reachable rfl)
  omega

end World

end Webserver.WS
