import Webserver.WS.Connection

/-! # Pushing over a connection

Calls of `WSPush` that reach one connection, interleaved with its completed
writes and with calls of `stop`. The mutex of the session maps is held over a
whole call, so that the frames enter the queue in the order in which the calls
took it. The system refines that of the connection alone, with two
restrictions: one call pushes at a time, and a write started on a closed socket
does not succeed.
-/

namespace Webserver.WS

open Foundation

/-- `ws_conns_mx_`: free, held by a call before its `write`, or held after it. -/
inductive PushMutex where
  | free
  | entered (message : Bytes)
  | leaving
  deriving DecidableEq

/-- The message of a call that holds the mutex and has not written yet. -/
def PushMutex.pending : PushMutex → List Bytes
  | .free => []
  | .entered message => [message]
  | .leaving => []

/-- A connection, the mutex, and the messages of the calls that took it, in order. -/
structure PushWorld where
  world : World := {}
  mutex : PushMutex := .free
  took : List Bytes := []
  deriving DecidableEq

/-- A call of `WSPush` takes the mutex, forwards its message to the connection
and releases the mutex. -/
inductive PushEvent where
  | lock (message : Bytes)
  | forward
  | unlock
  | written (write : PendingWrite) (error : Option ErrorCode)
  | stop
  deriving DecidableEq

/-- The frame `write` makes of a message with its default opcode. -/
def textFrame (message : Bytes) : Bytes := fillTextFrame message Schema.oneFragmentText []

def PushWorld.step? (state : PushWorld) : PushEvent → Option PushWorld
  | .lock message =>
      if state.mutex = .free then
        some { state with mutex := .entered message, took := state.took ++ [message] }
      else none
  | .forward =>
      match state.mutex with
      | .entered message =>
          some { state with
            world := state.world.write message Schema.oneFragmentText
            mutex := .leaving }
      | _ => none
  | .unlock => if state.mutex = .leaving then some { state with mutex := .free } else none
  | .written write error =>
      if error = none ∧ write.onClosed = true then none
      else (state.world.step? (.written write error)).map (fun world => { state with world })
  | .stop => some { state with world := state.world.stop }

def wsPushSystem : System PushWorld PushEvent := System.ofStep (· = {}) PushWorld.step?

namespace PushWorld

/-- What each kind of event does, with what enables it. -/
inductive Pushes (before : PushWorld) : PushEvent → PushWorld → Prop where
  | lock (message : Bytes) : before.mutex = .free →
      Pushes before (.lock message)
        { before with mutex := .entered message, took := before.took ++ [message] }
  | forward (message : Bytes) : before.mutex = .entered message →
      Pushes before .forward
        { before with
          world := before.world.write message Schema.oneFragmentText
          mutex := .leaving }
  | unlock : before.mutex = .leaving →
      Pushes before .unlock { before with mutex := .free }
  | written (write : PendingWrite) (error : Option ErrorCode) :
      write ∈ before.world.outstanding → (error = none → write.onClosed ≠ true) →
      Pushes before (.written write error)
        { before with world := (before.world.complete write error).handleWrite error }
  | stop : Pushes before .stop { before with world := before.world.stop }

/-- Every step is one of these. -/
theorem step_cases {before after : PushWorld} {event : PushEvent}
    (moved : before.step? event = some after) : Pushes before event after := by
  cases event with
  | lock message =>
      simp only [step?] at moved
      split_ifs at moved with free
      cases moved
      exact .lock message free
  | forward =>
      simp only [step?] at moved
      split at moved
      · next message entered =>
          cases moved
          exact .forward message entered
      · cases moved
  | unlock =>
      simp only [step?] at moved
      split_ifs at moved with leaving
      cases moved
      exact .unlock leaving
  | written write error =>
      simp only [step?, World.step?] at moved
      split_ifs at moved with refused member
      · cases moved
        apply Pushes.written write error member
        intro succeeded late
        exact refused ⟨succeeded, late⟩
      · cases moved
  | stop =>
      cases moved
      exact .stop

/-- Every step is a step of the connection, or leaves it alone. -/
theorem step_refines {before after : PushWorld} {event : PushEvent}
    (moved : before.step? event = some after) :
    after.world = before.world ∨
      ∃ label, wsSystem.step before.world label after.world := by
  cases step_cases moved with
  | lock message free => exact Or.inl rfl
  | forward message entered => exact Or.inr ⟨.write message Schema.oneFragmentText, rfl⟩
  | unlock leaving => exact Or.inl rfl
  | written write error member enabled =>
      exact Or.inr ⟨.written write error, if_pos member⟩
  | stop => exact Or.inr ⟨.stop, rfl⟩

theorem feeding_of_reachable {state : PushWorld} (reachable : wsPushSystem.Reachable state) :
    state.world.Feeding := by
  have refined : wsSystem.Reachable state.world := by
    apply reachable.refine PushWorld.world
    · rintro start rfl
      rfl
    · intro before after event moved
      exact step_refines moved
  exact (World.feeding_of_reachable refined).1

/-! ## Delivered frames -/

/-- Delivered frames and queue make up the frames pushed until a write fails.
After that the socket is closed and no outstanding write can succeed. -/
structure Delivering (world : World) : Prop where
  intact : world.failed = false →
    world.delivered ++ world.conn.sendQ.map Node.frame = world.produced
  cut : world.failed = true → world.conn.closed = true ∧ world.delivered <+: world.produced ∧
    ∀ write ∈ world.outstanding, write.onClosed = true

theorem Delivering.isPrefix {world : World} (delivering : Delivering world) :
    world.delivered <+: world.produced := by
  cases broken : world.failed with
  | true => exact (delivering.cut broken).2.1
  | false =>
      rw [← delivering.intact broken]
      exact List.prefix_append _ _

theorem Delivering.write {world : World} (delivering : Delivering world) (message : Bytes)
    (opcode : UInt8) : Delivering (world.write message opcode) := by
  have pushed := World.write_pushed message opcode world
  generalize world.write message opcode = after at pushed
  generalize fillTextFrame message opcode [] = frame at pushed
  have history := pushed.history
  simp only [World.history, Prod.mk.injEq] at history
  obtain ⟨produced, delivered, failed⟩ := history
  constructor
  · rw [failed, delivered, produced, pushed.sendQ]
    intro whole
    rw [List.map_append, ← List.append_assoc, delivering.intact whole]
    rfl
  · rw [failed, delivered, produced, pushed.outstanding]
    intro broken
    obtain ⟨closed, front, late⟩ := delivering.cut broken
    have stays := pushed.closed closed
    refine ⟨stays, front.trans (List.prefix_append _ _), ?_⟩
    intro write member
    rcases List.mem_append.mp member with old | new
    · exact late write old
    · split_ifs at new
      · obtain ⟨front, -, rfl⟩ := List.mem_map.mp new
        exact stays
      · cases new

/-- A write that succeeds delivers the front element. -/
theorem Delivering.success {world : World} {write : PendingWrite}
    (delivering : Delivering world) (feeding : world.Feeding)
    (member : write ∈ world.outstanding) (live : write.onClosed ≠ true) :
    Delivering ((world.complete write none).handleWrite none) := by
  obtain ⟨-, rest, queue⟩ := feeding.of_mem member
  obtain ⟨after, -, history⟩ := World.handleWrite_success (world.complete write none)
  simp only [World.history, Prod.mk.injEq] at history
  obtain ⟨produced, delivered, failed⟩ := history
  have whole : world.failed = false := by
    apply Bool.eq_false_iff.mpr
    intro broken
    exact live ((delivering.cut broken).2.2 write member)
  constructor
  · intro _
    have parts := delivering.intact whole
    rw [queue, List.map_cons] at parts
    rw [produced, delivered, after]
    change (world.delivered ++ [write.node.frame]) ++ world.conn.sendQ.tail.map Node.frame =
      world.produced
    rw [queue, List.append_assoc]
    exact parts
  · intro broken
    rw [failed] at broken
    have same : world.failed = true := broken
    rw [whole] at same
    cases same

/-- A write that fails empties the queue and closes the socket. -/
theorem Delivering.failure {world : World} {write : PendingWrite}
    (delivering : Delivering world) (feeding : world.Feeding)
    (member : write ∈ world.outstanding) (code : ErrorCode) :
    Delivering ((world.complete write (some code)).handleWrite (some code)) := by
  have only := (feeding.of_mem member).1
  obtain ⟨after, outstanding, history⟩ :=
    World.handleWrite_error code (world.complete write (some code))
  simp only [World.history, Prod.mk.injEq] at history
  obtain ⟨produced, delivered, failed⟩ := history
  constructor
  · intro whole
    rw [failed] at whole
    cases whole
  · intro _
    rw [after, produced, delivered, outstanding]
    refine ⟨rfl, delivering.isPrefix, ?_⟩
    intro other inside
    have none : (world.complete write (some code)).outstanding = [] := by
      change world.outstanding.erase write = []
      rw [only, List.erase_cons_head]
    rw [none] at inside
    cases inside

theorem Delivering.stop {world : World} (delivering : Delivering world) :
    Delivering world.stop := by
  have history := World.stop_history world
  simp only [World.history, Prod.mk.injEq] at history
  obtain ⟨produced, delivered, failed⟩ := history
  constructor
  · rw [failed, delivered, produced, World.stop_sendQ]
    exact delivering.intact
  · rw [failed, delivered, produced, World.stop_outstanding]
    intro broken
    obtain ⟨-, front, late⟩ := delivering.cut broken
    exact ⟨World.stop_closed world, front, late⟩

/-- The frames are produced in the order in which the calls took the mutex. -/
def Ordered (state : PushWorld) : Prop :=
  state.took.map textFrame = state.world.produced ++ state.mutex.pending.map textFrame

theorem delivering_step {before after : PushWorld} {event : PushEvent}
    (feeding : before.world.Feeding) (delivering : Delivering before.world)
    (moved : before.step? event = some after) : Delivering after.world := by
  cases step_cases moved with
  | lock message free => exact delivering
  | forward message entered => exact delivering.write _ _
  | unlock leaving => exact delivering
  | written write error member enabled =>
      cases error with
      | some code => exact delivering.failure feeding member code
      | none => exact delivering.success feeding member (enabled rfl)
  | stop => exact delivering.stop

theorem ordered_step {before after : PushWorld} {event : PushEvent} (ordered : Ordered before)
    (moved : before.step? event = some after) : Ordered after := by
  unfold Ordered at ordered ⊢
  cases step_cases moved with
  | lock message free =>
      rw [free] at ordered
      rw [List.map_append, ordered]
      simp [PushMutex.pending]
  | forward message entered =>
      have pushed := World.write_pushed message Schema.oneFragmentText before.world
      have produced := congrArg Prod.fst pushed.history
      rw [entered] at ordered
      rw [ordered]
      simp only [World.history] at produced
      rw [produced]
      simp [PushMutex.pending, textFrame]
  | unlock leaving =>
      rw [leaving] at ordered
      exact ordered
  | written write error member enabled =>
      rw [World.written_produced]
      exact ordered
  | stop =>
      have produced : before.world.stop.produced = before.world.produced :=
        congrArg Prod.fst (World.stop_history before.world)
      rw [produced]
      exact ordered

theorem ordered_of_reachable {state : PushWorld} (reachable : wsPushSystem.Reachable state) :
    Ordered state := by
  apply reachable.invariant
  · rintro start rfl
    rfl
  · intro before after event _ ordered moved
    exact ordered_step ordered moved

theorem delivering_of_reachable {state : PushWorld} (reachable : wsPushSystem.Reachable state) :
    Delivering state.world := by
  apply reachable.invariant (motive := fun state => Delivering state.world)
  · rintro start rfl
    constructor
    · intro _
      rfl
    · intro broken
      cases broken
  · intro before after event earlier delivering moved
    exact delivering_step (feeding_of_reachable earlier) delivering moved

/-- **Delivery of pushed messages.** In every reachable state the frames whose
write succeeded are a prefix of the frames produced, and these are the frames of
the calls in the order in which they took the mutex, but for a call that has
taken it and not written yet. As long as no write has failed, the delivered
frames followed by the queue are all the frames produced. -/
theorem reachable_delivered {state : PushWorld} (reachable : wsPushSystem.Reachable state) :
    state.world.delivered <+: state.world.produced ∧
    state.took.map textFrame = state.world.produced ++ state.mutex.pending.map textFrame ∧
    (state.world.failed = false →
      state.world.delivered ++ state.world.conn.sendQ.map Node.frame = state.world.produced) := by
  have delivering := delivering_of_reachable reachable
  exact ⟨delivering.isPrefix, ordered_of_reachable reachable, delivering.intact⟩

/-- Two messages, the connection stopped while the first is being written, the
second refused by the closed socket. -/
theorem reachable_delivered_two :
    let first : PendingWrite := ⟨⟨0, textFrame (ascii "a")⟩, false⟩
    let second : PendingWrite := ⟨⟨1, textFrame (ascii "b")⟩, true⟩
    let events : List PushEvent := [.lock (ascii "a"), .forward, .unlock, .lock (ascii "b"),
      .forward, .stop, .written first none, .written second (some .other), .unlock]
    ∃ state, wsPushSystem.Run {} events state ∧
      state.world.delivered <+: state.world.produced ∧
      state.took.map textFrame =
        state.world.produced ++ state.mutex.pending.map textFrame ∧
      (state.world.failed = false →
        state.world.delivered ++ state.world.conn.sendQ.map Node.frame =
          state.world.produced) := by
  intro first second events
  obtain ⟨state, executed⟩ : ∃ state, events.foldlM step? {} = some state :=
    Option.isSome_iff_exists.mp (by decide +kernel)
  have run : wsPushSystem.Run {} events state := .of_foldlM executed
  exact ⟨state, run, reachable_delivered (run.reachable rfl)⟩

end PushWorld

end Webserver.WS
