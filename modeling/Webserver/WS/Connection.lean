import Webserver.Foundation.Transition
import Webserver.WS.Frame

/-! # The WebSocket connection

The send queue of a connection and the functions that work on it, as a labelled
transition system. A step is one call of `write`, the handler of one completed
write, or one call of `stop`; the part of each that the mutex of the queue guards
is one step, so calls from any number of threads interleave in any order.
-/

namespace Webserver.WS

open Foundation

/-- An element of `send_q_`. Its number among all elements ever pushed tells it
from other elements with the same bytes. -/
structure Node where
  number : Nat
  frame : Bytes
  deriving DecidableEq

/-- A call of a callback, all taken to be installed, or of a socket function. A
callback gets the `id_` of the connection, and its `session_id_` and `uri_` where
it takes them. -/
inductive Effect where
  | onopen
  | onmessageout (frame : Bytes)
  | onerror (error : ErrorCode)
  | onclose
  | cancel
  | shutdown
  | close
  deriving DecidableEq

structure WSConnection where
  closed : Bool := false
  sendQ : List Node := []
  deriving DecidableEq

/-- An asynchronous write that has not been handled yet: the element its buffer
belongs to, and whether the socket was closed when it was started. -/
structure PendingWrite where
  node : Node
  onClosed : Bool
  deriving DecidableEq

/-- A connection and its outstanding writes, with the calls it has made and the
frames pushed, the frames whose write has succeeded, and whether a write has
failed. -/
structure World where
  conn : WSConnection := {}
  outstanding : List PendingWrite := []
  effects : List Effect := []
  produced : List Bytes := []
  delivered : List Bytes := []
  failed : Bool := false
  deriving DecidableEq

namespace World

/-- `stop`: only the call that finds `closed_` false closes. -/
def stop (world : World) : World :=
  if world.conn.closed then world
  else
    { world with
      conn := { world.conn with closed := true }
      effects := world.effects ++ [.onclose, .cancel, .shutdown, .close] }

/-- `async_write` of the front element of the queue. -/
def asyncWrite (world : World) : World :=
  match world.conn.sendQ with
  | [] => world
  | front :: _ =>
      { world with outstanding := world.outstanding ++ [⟨front, world.conn.closed⟩] }

/-- The push onto the queue. -/
def enqueue (frame : Bytes) (world : World) : World :=
  { world with
    conn := { world.conn with
      sendQ := world.conn.sendQ ++ [⟨world.produced.length, frame⟩] }
    produced := world.produced ++ [frame] }

/-- The overflow check of `write`. -/
def checkOverflow (world : World) : World :=
  if world.conn.sendQ.length > 100 then world.stop else world

/-- The write that `write` starts for an element that found the queue empty. -/
def startSingle (world : World) : World :=
  if world.conn.sendQ.length = 1 then world.asyncWrite else world

/-- `write`. -/
def write (message : Bytes) (opcode : UInt8) (world : World) : World :=
  let result := fillTextFrame message opcode []
  let reported : World := { world with effects := world.effects ++ [.onmessageout result] }
  (reported.enqueue result).checkOverflow.startSingle

/-- The report of a failed write; a cancelled one is not reported. -/
def reportError (code : ErrorCode) (world : World) : World :=
  if code ≠ .operationAborted then { world with effects := world.effects ++ [.onerror code] }
  else world

def setQueue (sendQ : List Node) (world : World) : World :=
  { world with conn := { world.conn with sendQ } }

/-- `handle_write`. -/
def handleWrite (error : Option ErrorCode) (world : World) : World :=
  match error with
  | some code => ((world.reportError code).setQueue []).stop
  | none =>
      let erased := world.setQueue world.conn.sendQ.tail
      if erased.conn.sendQ.length > 0 then erased.asyncWrite else erased

/-- `Start`, which also starts the read. -/
def start (world : World) : World := { world with effects := world.effects ++ [.onopen] }

/-- `handle_read`: whatever has come, the connection stops. -/
def handleRead (error : Option ErrorCode) (world : World) : World :=
  match error with
  | some code => (world.reportError code).stop
  | none => world.stop

/-- The destructor. -/
def destroy (world : World) : World := if world.conn.closed then world else world.stop

/-- A completed write is no longer outstanding, and counts as delivered or as
failed. -/
def complete (write : PendingWrite) (error : Option ErrorCode) (world : World) : World :=
  let completed : World := { world with outstanding := world.outstanding.erase write }
  match error with
  | some _ => { completed with failed := true }
  | none => { completed with delivered := world.delivered ++ [write.node.frame] }

end World

inductive Event where
  | write (message : Bytes) (opcode : UInt8)
  | written (write : PendingWrite) (error : Option ErrorCode)
  | stop
  deriving DecidableEq

def World.step? (world : World) : Event → Option World
  | .write message opcode => some (world.write message opcode)
  | .written write error =>
      if write ∈ world.outstanding then some ((world.complete write error).handleWrite error)
      else none
  | .stop => some world.stop

/-- A new connection under any interleaving of its callers and handlers. An outstanding
write may complete either way, also one that was started on a closed socket and can only
fail; results that need it to fail restrict the steps. -/
def wsSystem : System World Event := System.ofStep (· = {}) World.step?

/-! ## What the functions change -/

namespace World

@[simp] theorem stop_sendQ (world : World) : world.stop.conn.sendQ = world.conn.sendQ := by
  unfold stop
  split <;> rfl

@[simp] theorem stop_closed (world : World) : world.stop.conn.closed = true := by
  unfold stop
  split
  · assumption
  · rfl

@[simp] theorem stop_outstanding (world : World) :
    world.stop.outstanding = world.outstanding := by
  unfold stop
  split <;> rfl

/-- The members of a state that record what happened to the frames. -/
def history (world : World) : List Bytes × List Bytes × Bool :=
  (world.produced, world.delivered, world.failed)

@[simp] theorem stop_history (world : World) : world.stop.history = world.history := by
  unfold stop
  split <;> rfl

@[simp] theorem asyncWrite_conn (world : World) : world.asyncWrite.conn = world.conn := by
  unfold asyncWrite
  split <;> rfl

@[simp] theorem asyncWrite_history (world : World) :
    world.asyncWrite.history = world.history := by
  unfold asyncWrite
  split <;> rfl

/-- The writes started for a queue: one for its front element, if there is one. -/
def launched (conn : WSConnection) : List PendingWrite :=
  (conn.sendQ.take 1).map (fun front => ⟨front, conn.closed⟩)

theorem asyncWrite_outstanding (world : World) :
    world.asyncWrite.outstanding = world.outstanding ++ launched world.conn := by
  unfold asyncWrite launched
  cases world.conn.sendQ with
  | nil => simp
  | cons front rest => simp

/-- What `write` changes: the frame is pushed, and a write is started when the
queue was empty. -/
structure Pushed (frame : Bytes) (before after : World) : Prop where
  sendQ : after.conn.sendQ = before.conn.sendQ ++ [⟨before.produced.length, frame⟩]
  closed : before.conn.closed = true → after.conn.closed = true
  outstanding : after.outstanding =
    before.outstanding ++ if before.conn.sendQ = [] then launched after.conn else []
  history : after.history = (before.produced ++ [frame], before.delivered, before.failed)

theorem checkOverflow_frame (world : World) :
    world.checkOverflow.conn.sendQ = world.conn.sendQ ∧
      world.checkOverflow.outstanding = world.outstanding ∧
      world.checkOverflow.history = world.history ∧
      (world.conn.closed = true → world.checkOverflow.conn.closed = true) := by
  unfold checkOverflow
  by_cases overflow : world.conn.sendQ.length > 100
  · rw [if_pos overflow]
    exact ⟨stop_sendQ _, stop_outstanding _, stop_history _, fun _ => stop_closed _⟩
  · rw [if_neg overflow]
    exact ⟨rfl, rfl, rfl, id⟩

theorem startSingle_frame (world : World) :
    world.startSingle.conn = world.conn ∧ world.startSingle.history = world.history ∧
      world.startSingle.outstanding = world.outstanding ++
        if world.conn.sendQ.length = 1 then launched world.conn else [] := by
  unfold startSingle
  by_cases single : world.conn.sendQ.length = 1
  · rw [if_pos single, if_pos single]
    exact ⟨asyncWrite_conn _, asyncWrite_history _, asyncWrite_outstanding _⟩
  · rw [if_neg single, if_neg single, List.append_nil]
    exact ⟨rfl, rfl, rfl⟩

theorem write_pushed (message : Bytes) (opcode : UInt8) (world : World) :
    Pushed (fillTextFrame message opcode []) world (world.write message opcode) := by
  simp only [write]
  generalize fillTextFrame message opcode [] = frame
  generalize pushedEq : enqueue frame
    { world with effects := world.effects ++ [.onmessageout frame] } = pushed
  have queue : pushed.conn.sendQ = world.conn.sendQ ++ [⟨world.produced.length, frame⟩] := by
    rw [← pushedEq]
    rfl
  have single : pushed.conn.sendQ.length = 1 ↔ world.conn.sendQ = [] := by
    rw [queue, List.length_append, List.length_singleton]
    constructor
    · intro one
      exact List.eq_nil_of_length_eq_zero (by omega)
    · intro empty
      rw [empty, List.length_nil]
  obtain ⟨sendQ, outstanding, history, closed⟩ := checkOverflow_frame pushed
  obtain ⟨conn, kept, started⟩ := startSingle_frame pushed.checkOverflow
  refine ⟨?_, ?_, ?_, ?_⟩
  · rw [conn, sendQ, queue]
  · intro was
    rw [conn]
    apply closed
    rw [← pushedEq]
    exact was
  · simp only [started, sendQ, outstanding, single, conn]
    rw [← pushedEq]
    rfl
  · rw [kept, history, ← pushedEq]
    rfl

theorem handleWrite_error (code : ErrorCode) (world : World) :
    (world.handleWrite (some code)).conn = ⟨true, []⟩ ∧
      (world.handleWrite (some code)).outstanding = world.outstanding ∧
      (world.handleWrite (some code)).history = world.history := by
  have reported : (world.reportError code).outstanding = world.outstanding ∧
      (world.reportError code).history = world.history := by
    unfold reportError
    split <;> exact ⟨rfl, rfl⟩
  have closed := stop_closed ((world.reportError code).setQueue [])
  have sendQ := stop_sendQ ((world.reportError code).setQueue [])
  refine ⟨?_, (stop_outstanding _).trans reported.1, (stop_history _).trans reported.2⟩
  change ((world.reportError code).setQueue []).stop.conn = _
  cases shape : ((world.reportError code).setQueue []).stop.conn with
  | mk isClosed queue =>
      rw [shape] at closed sendQ
      rw [show isClosed = true from closed, show queue = [] from sendQ]

theorem handleWrite_success (world : World) :
    (world.handleWrite none).conn = { world.conn with sendQ := world.conn.sendQ.tail } ∧
      (world.handleWrite none).outstanding =
        world.outstanding ++ launched { world.conn with sendQ := world.conn.sendQ.tail } ∧
      (world.handleWrite none).history = world.history := by
  simp only [handleWrite]
  by_cases more : (world.setQueue world.conn.sendQ.tail).conn.sendQ.length > 0
  · rw [if_pos more]
    exact ⟨asyncWrite_conn _, asyncWrite_outstanding _, asyncWrite_history _⟩
  · rw [if_neg more]
    have empty : world.conn.sendQ.tail = [] := by
      apply List.eq_nil_of_length_eq_zero
      change ¬ world.conn.sendQ.tail.length > 0 at more
      omega
    refine ⟨rfl, ?_, rfl⟩
    rw [empty]
    exact (List.append_nil _).symm

/-! ## The write that is outstanding -/

/-- One write is outstanding for a nonempty queue, and none for an empty one; its
buffer is the front element. -/
def Feeding (world : World) : Prop :=
  world.outstanding.map PendingWrite.node = world.conn.sendQ.take 1

theorem launched_node (conn : WSConnection) :
    (launched conn).map PendingWrite.node = conn.sendQ.take 1 := by
  simp [launched, Function.comp_def]

/-- The elements of the queue have different numbers, all of them used. -/
structure Numbered (world : World) : Prop where
  increasing : (world.conn.sendQ.map Node.number).Pairwise (· < ·)
  used : ∀ node ∈ world.conn.sendQ, node.number < world.produced.length

theorem Pushed.feeding {frame : Bytes} {before after : World} (pushed : Pushed frame before after)
    (feeding : Feeding before) : Feeding after := by
  unfold Feeding at feeding ⊢
  rw [pushed.outstanding, List.map_append, feeding]
  by_cases empty : before.conn.sendQ = []
  · rw [if_pos empty, launched_node, empty]
    rfl
  · obtain ⟨front, rest, queue⟩ := List.exists_cons_of_ne_nil empty
    rw [if_neg empty, pushed.sendQ, queue]
    rfl

theorem Pushed.numbered {frame : Bytes} {before after : World} (pushed : Pushed frame before after)
    (numbered : Numbered before) : Numbered after := by
  have produced : after.produced = before.produced ++ [frame] :=
    congrArg Prod.fst pushed.history
  constructor
  · rw [pushed.sendQ, List.map_append, List.pairwise_append]
    refine ⟨numbered.increasing, List.pairwise_singleton _ _, ?_⟩
    intro earlier member last same
    obtain ⟨node, inside, rfl⟩ := List.mem_map.mp member
    rw [List.mem_singleton.mp same]
    exact numbered.used node inside
  · rw [pushed.sendQ, produced, List.length_append, List.length_singleton]
    intro node member
    rcases List.mem_append.mp member with old | new
    · have used := numbered.used node old
      omega
    · rw [List.mem_singleton.mp new]
      exact Nat.lt_succ_self _

/-- The only outstanding write is for the front element. -/
theorem Feeding.of_mem {world : World} {write : PendingWrite} (feeding : Feeding world)
    (member : write ∈ world.outstanding) :
    world.outstanding = [write] ∧ ∃ rest, world.conn.sendQ = write.node :: rest := by
  unfold Feeding at feeding
  cases queue : world.conn.sendQ with
  | nil =>
      rw [queue, List.take_nil, List.map_eq_nil_iff] at feeding
      rw [feeding] at member
      cases member
  | cons front rest =>
      rw [queue] at feeding
      obtain ⟨only, shape, node⟩ := List.map_eq_singleton_iff.mp feeding
      rw [shape] at member ⊢
      rw [List.mem_singleton.mp member, node]
      exact ⟨rfl, rest, rfl⟩

theorem complete_frame (write : PendingWrite) (error : Option ErrorCode) (world : World) :
    (world.complete write error).conn = world.conn ∧
      (world.complete write error).outstanding = world.outstanding.erase write ∧
      (world.complete write error).produced = world.produced := by
  unfold complete
  cases error with
  | none => exact ⟨rfl, rfl, rfl⟩
  | some code => exact ⟨rfl, rfl, rfl⟩

/-- A completed write pushes nothing. -/
theorem written_produced (write : PendingWrite) (error : Option ErrorCode) (world : World) :
    ((world.complete write error).handleWrite error).produced = world.produced := by
  have completed := (complete_frame write error world).2.2
  cases error with
  | none =>
      have history := (handleWrite_success (world.complete write none)).2.2
      exact (congrArg Prod.fst history).trans completed
  | some code =>
      have history := (handleWrite_error code (world.complete write (some code))).2.2
      exact (congrArg Prod.fst history).trans completed

/-- The handler of the outstanding write leaves the queue without its element, or
empty, and starts the next write. -/
theorem Feeding.written {world : World} {write : PendingWrite} (feeding : Feeding world)
    (member : write ∈ world.outstanding) (error : Option ErrorCode) :
    Feeding ((world.complete write error).handleWrite error) := by
  have only := (feeding.of_mem member).1
  obtain ⟨conn, outstanding, -⟩ := complete_frame write error world
  have quiet : (world.complete write error).outstanding = [] := by
    rw [outstanding, only, List.erase_cons_head]
  unfold Feeding
  cases error with
  | none =>
      obtain ⟨after, started, -⟩ := handleWrite_success (world.complete write none)
      rw [after, started, quiet, List.nil_append, launched_node]
  | some code =>
      obtain ⟨after, started, -⟩ := handleWrite_error code (world.complete write (some code))
      rw [after, started, quiet]
      rfl

theorem Numbered.written {world : World} (numbered : Numbered world) (write : PendingWrite)
    (error : Option ErrorCode) :
    Numbered ((world.complete write error).handleWrite error) := by
  have conn := (complete_frame write error world).1
  have produced := written_produced write error world
  cases error with
  | none =>
      have after := (handleWrite_success (world.complete write none)).1
      constructor
      · rw [after, conn, List.map_tail]
        exact numbered.increasing.sublist (List.tail_sublist _)
      · rw [after, conn, produced]
        intro node member
        exact numbered.used node (List.mem_of_mem_tail member)
  | some code =>
      have after := (handleWrite_error code (world.complete write (some code))).1
      constructor
      · rw [after]
        exact List.Pairwise.nil
      · rw [after]
        intro node member
        cases member

/-- Every step keeps the front element written and the elements distinct. -/
theorem feeding_step {before after : World} {event : Event}
    (feeding : Feeding before ∧ Numbered before) (moved : before.step? event = some after) :
    Feeding after ∧ Numbered after := by
  obtain ⟨fed, numbered⟩ := feeding
  cases event with
  | write message opcode =>
      cases moved
      have pushed := write_pushed message opcode before
      exact ⟨pushed.feeding fed, pushed.numbered numbered⟩
  | written write error =>
      simp only [step?] at moved
      split_ifs at moved with member
      cases moved
      exact ⟨fed.written member error, numbered.written write error⟩
  | stop =>
      cases moved
      have produced : before.stop.produced = before.produced :=
        congrArg Prod.fst (stop_history before)
      refine ⟨?_, ?_, ?_⟩
      · unfold Feeding
        rw [stop_outstanding, stop_sendQ]
        exact fed
      · rw [stop_sendQ]
        exact numbered.increasing
      · rw [stop_sendQ, produced]
        exact numbered.used

theorem feeding_of_reachable {world : World} (reachable : wsSystem.Reachable world) :
    Feeding world ∧ Numbered world := by
  apply reachable.invariant (motive := fun world => Feeding world ∧ Numbered world)
  · rintro state rfl
    refine ⟨rfl, List.Pairwise.nil, ?_⟩
    intro node member
    cases member
  · intro before after event _ feeding moved
    exact feeding_step feeding moved

/-- A step other than the handler of an outstanding write leaves that write
outstanding and its element in front. -/
theorem Feeding.front_kept {before after : World} {event : Event} {write : PendingWrite}
    (feeding : Feeding before) (member : write ∈ before.outstanding)
    (moved : before.step? event = some after) (other : ∀ error, event ≠ .written write error) :
    write ∈ after.outstanding ∧ after.conn.sendQ.head? = some write.node := by
  obtain ⟨only, rest, queue⟩ := feeding.of_mem member
  cases event with
  | write message opcode =>
      cases moved
      have pushed := write_pushed message opcode before
      rw [pushed.outstanding, pushed.sendQ, queue]
      exact ⟨List.mem_append_left _ member, rfl⟩
  | written completed error =>
      simp only [step?] at moved
      split_ifs at moved with outstanding
      rw [only, List.mem_singleton] at outstanding
      exact (other error (by rw [outstanding])).elim
  | stop =>
      cases moved
      rw [stop_outstanding, stop_sendQ, queue]
      exact ⟨member, rfl⟩

/-- **The send queue.** In every reachable state at most one write is outstanding;
one is outstanding exactly when the queue is not empty; its buffer is the front
element, distinct from all others, and stays in front through every step but the
handler of that write. -/
theorem reachable_sendQ {world : World} (reachable : wsSystem.Reachable world) :
    world.outstanding.length ≤ 1 ∧
    (world.outstanding.length = 1 ↔ world.conn.sendQ ≠ []) ∧
    (world.conn.sendQ.map Node.number).Nodup ∧
    ∀ write ∈ world.outstanding, world.conn.sendQ.head? = some write.node ∧
      ∀ event after, wsSystem.step world event after →
        (∀ error, event ≠ .written write error) →
          write ∈ after.outstanding ∧ after.conn.sendQ.head? = some write.node := by
  obtain ⟨feeding, numbered⟩ := feeding_of_reachable reachable
  have count : world.outstanding.length = (world.conn.sendQ.take 1).length := by
    have same := congrArg List.length feeding
    rwa [List.length_map] at same
  refine ⟨?_, ?_, ?_, ?_⟩
  · rw [count]
    exact List.length_take_le 1 _
  · rw [count]
    cases world.conn.sendQ with
    | nil => simp
    | cons front rest => simp
  · exact numbered.increasing.imp (fun less => Nat.ne_of_lt less)
  · intro write member
    obtain ⟨-, rest, queue⟩ := feeding.of_mem member
    refine ⟨by rw [queue]; rfl, ?_⟩
    intro event after moved other
    exact feeding.front_kept member moved other

/-- Two frames have been pushed and the first has been written. -/
theorem reachable_sendQ_two :
    let world : World := ((({} : World).write (ascii "a") 129).write (ascii "b") 129)
    let first : PendingWrite := ⟨⟨0, fillTextFrame (ascii "a") 129 []⟩, false⟩
    let later := (world.complete first none).handleWrite none
    later.outstanding.length ≤ 1 ∧
    (later.outstanding.length = 1 ↔ later.conn.sendQ ≠ []) ∧
    (later.conn.sendQ.map Node.number).Nodup ∧
    ∀ write ∈ later.outstanding, later.conn.sendQ.head? = some write.node ∧
      ∀ event after, wsSystem.step later event after →
        (∀ error, event ≠ .written write error) →
          write ∈ after.outstanding ∧ after.conn.sendQ.head? = some write.node := by
  intro world first later
  have run : wsSystem.Run {} [.write (ascii "a") 129, .write (ascii "b") 129,
      .written first none] later := .of_foldlM (by decide +kernel)
  exact reachable_sendQ (run.reachable rfl)

end World

end Webserver.WS
