import Mathlib.Data.Set.Finite.Basic
import Webserver.Foundation.Termination
import Webserver.Server.Service
import Webserver.WS.Closing

/-! # Shutting down

What is left of a stopped service whose clients hang up: the outstanding operations
complete, with whatever outcome, and bring no more bytes. Every completion leaves less
to do, so that after a bounded number of them no operation is outstanding any more,
and every session has been closed, once, and destroyed.
-/

namespace Webserver.WS.World

open Foundation

/-! ## Sessions that close once -/

/-- The calls that close a session have been made once when it is closed, and not
before. -/
def ClosedOnce (world : World) : Prop :=
  closings world.effects = if world.conn.closed then closing else []

variable {world next : World}

theorem ClosedOnce.of_eq (once : ClosedOnce world) (effects : closings next.effects =
    closings world.effects) (closed : next.conn.closed = world.conn.closed) : ClosedOnce next := by
  rw [ClosedOnce, effects, closed]
  exact once

theorem ClosedOnce.stop (once : ClosedOnce world) : ClosedOnce world.stop := by
  cases open_ : world.conn.closed with
  | true =>
      rw [World.stop, if_pos open_]
      exact once
  | false =>
      have none : closings world.effects = [] := by
        rw [once, open_]
        rfl
      have stopped : world.stop.effects = world.effects ++ closing := by
        rw [World.stop, open_]
        rfl
      rw [ClosedOnce, stopped, stop_closed, closings_append, none]
      rfl

theorem ClosedOnce.reportError (once : ClosedOnce world) (code : ErrorCode) :
    ClosedOnce (world.reportError code) := by
  unfold World.reportError
  split
  · refine once.of_eq ?_ rfl
    rw [closings_append]
    exact List.append_nil _
  · exact once

theorem ClosedOnce.write (once : ClosedOnce world) (message : Bytes) (opcode : UInt8) :
    ClosedOnce (world.write message opcode) := by
  simp only [World.write]
  generalize fillTextFrame message opcode [] = frame
  have queued : ClosedOnce (enqueue frame
      { world with effects := world.effects ++ [.onmessageout frame] }) := by
    refine once.of_eq ?_ rfl
    change closings (world.effects ++ [.onmessageout frame]) = _
    rw [closings_append]
    exact List.append_nil _
  generalize enqueue frame { world with effects := world.effects ++ [.onmessageout frame] } =
    pushed at queued ⊢
  have checked : ClosedOnce pushed.checkOverflow := by
    unfold checkOverflow
    split
    · exact queued.stop
    · exact queued
  unfold startSingle
  split
  · exact checked.of_eq (by rw [asyncWrite_effects]) (by rw [asyncWrite_conn])
  · exact checked

theorem ClosedOnce.written (once : ClosedOnce world) (write : PendingWrite)
    (error : Option ErrorCode) : ClosedOnce ((world.complete write error).handleWrite error) := by
  have completed : ClosedOnce (world.complete write error) := by
    refine once.of_eq ?_ ?_
    · cases error <;> rfl
    · cases error <;> rfl
  cases error with
  | none =>
      have erased : ClosedOnce ((world.complete write none).setQueue
          (world.complete write none).conn.sendQ.tail) := completed.of_eq rfl rfl
      simp only [handleWrite]
      split
      · exact erased.of_eq (by rw [asyncWrite_effects]) (by rw [asyncWrite_conn])
      · exact erased
  | some code =>
      have emptied : ClosedOnce (((world.complete write (some code)).reportError code).setQueue
        []) := (completed.reportError code).of_eq rfl rfl
      exact emptied.stop

theorem ClosedOnce.handleRead (once : ClosedOnce world) (error : Option ErrorCode) :
    ClosedOnce (world.handleRead error) := by
  cases error with
  | none => exact once.stop
  | some code => exact (once.reportError code).stop

theorem ClosedOnce.destroy (once : ClosedOnce world) :
    ClosedOnce world.destroy ∧ world.destroy.conn.closed = true := by
  unfold World.destroy
  split
  · next closed => exact ⟨once, closed⟩
  · exact ⟨once.stop, stop_closed world⟩

end Webserver.WS.World

namespace Webserver.HTTP

open Foundation

variable {env : Externals}

/-! ## HTTP connections that read nothing more -/

/-- The completions that may come of an outstanding operation when no more bytes are
read. A session that a write creates has three before it: its start, its read and its
destruction. -/
def AsyncOp.remaining : AsyncOp → Nat
  | .read => 1
  | .handshake | .write ⟨.readNext, _⟩ => 2
  | .write ⟨.createWsConnection, _⟩ => 4

/-- A completion that brings no bytes. -/
def Event.Silent : Event env → Prop
  | .read (.ok _) _ => False
  | _ => True

namespace World

variable {world before after : World env}

def remaining (world : World env) : Nat := (world.outstanding.map AsyncOp.remaining).sum

theorem remaining_of_mem (duplex : HalfDuplex world) {op : AsyncOp}
    (member : op ∈ world.outstanding) : world.remaining = op.remaining := by
  obtain ⟨only, listed⟩ : ∃ only, world.outstanding = [only] := by
    apply List.length_eq_one_iff.mp
    have some_ := List.length_pos_of_mem member
    have single := duplex.single
    omega
  rw [listed] at member
  rw [remaining, listed, List.mem_singleton.mp member]
  exact Nat.add_zero _

/-- Every such completion leaves less to do, the session that it creates included. -/
theorem step_remaining (duplex : HalfDuplex before) {event : Event env} (silent : event.Silent)
    (moved : before.step? event = some after) :
    before.sessions = [] ∧ after.remaining + 3 * after.sessions.length < before.remaining := by
  have counted {op : AsyncOp} (member : op ∈ before.outstanding) {left sessions : Nat}
      (less : left + 3 * sessions < op.remaining) :
      before.sessions = [] ∧ left + 3 * sessions < before.remaining :=
    ⟨(duplex.complete member).unopened, remaining_of_mem duplex member ▸ less⟩
  have quiet {op : AsyncOp} (member : op ∈ before.outstanding) {world : World env}
      (outstanding : world.outstanding = (before.complete op).outstanding)
      (sessions : world.sessions = (before.complete op).sessions) :
      world.remaining = 0 ∧ world.sessions.length = 0 := by
    have idle := duplex.complete member
    rw [remaining, outstanding, sessions, idle.quiet, idle.unopened]
    exact ⟨rfl, rfl⟩
  have reading {op : AsyncOp} (member : op ∈ before.outstanding) :
      (before.complete op).doRead.remaining = 1 ∧
        (before.complete op).doRead.sessions.length = 0 := by
    have idle := duplex.complete member
    rw [remaining, doRead, idle.quiet, idle.unopened]
    exact ⟨rfl, rfl⟩
  have failed {op : AsyncOp} (member : op ∈ before.outstanding) (code : ErrorCode) :
      ((before.complete op).onError code).remaining = 0 ∧
        ((before.complete op).onError code).sessions.length = 0 := by
    cases code with
    | operationAborted => exact quiet member rfl rfl
    | other => exact quiet member rfl rfl
  cases step_cases moved with
  | secured member =>
      obtain ⟨left, sessions⟩ := reading member
      exact counted member (by simp [left, sessions, AsyncOp.remaining])
  | unsecured code member =>
      obtain ⟨left, sessions⟩ := quiet member rfl rfl
      exact counted member (by simp [left, sessions, AsyncOp.remaining])
  | readFailed code handler member =>
      obtain ⟨left, sessions⟩ := failed member code
      exact counted member (by simp [left, sessions, AsyncOp.remaining])
  | received bytes handler member sized => exact silent.elim
  | written write error id member =>
      obtain ⟨next, response⟩ := write
      cases next with
      | readNext =>
          cases error with
          | none =>
              obtain ⟨left, sessions⟩ := reading member
              exact counted member (by simp [onWrite, left, sessions, AsyncOp.remaining])
          | some code =>
              obtain ⟨left, sessions⟩ := failed member code
              exact counted member (by simp [onWrite, left, sessions, AsyncOp.remaining])
      | createWsConnection =>
          have idle := duplex.complete member
          apply counted member
          simp only [onWrite, createWsConnection]
          split
          · have left :
                ((before.complete (.write ⟨.createWsConnection, response⟩)).escape).remaining = 0 ∧
                  _ := quiet member rfl rfl
            simp [left, AsyncOp.remaining]
          · simp [remaining, idle.quiet, idle.unopened, AsyncOp.remaining]

/-- A session has the id that is drawn for it. -/
theorem onWrite_session {next : Continuation} {error : Option ErrorCode} {id : env.Pauuid} :
    ∀ session ∈ (world.onWrite next error id).sessions,
      session ∈ world.sessions ∨ session.id = id := by
  intro session member
  cases next with
  | readNext =>
      cases error with
      | none => exact Or.inl member
      | some code =>
          cases code with
          | operationAborted => exact Or.inl member
          | other => exact Or.inl member
  | createWsConnection =>
      simp only [onWrite, createWsConnection] at member
      split at member
      · exact Or.inl member
      · rcases List.mem_append.mp member with old | new
        · exact Or.inl old
        · exact Or.inr (List.mem_singleton.mp new ▸ rfl)

/-- An outstanding operation can complete without bringing bytes, with any id for the
session that it may create. -/
theorem exists_silent_step (duplex : HalfDuplex world) (busy : world.outstanding ≠ [])
    (id : env.Pauuid) : ∃ event after, event.Silent ∧ world.step? event = some after ∧
      ∀ session ∈ after.sessions, session.id = id := by
  obtain ⟨op, others, listed⟩ := List.exists_cons_of_ne_nil busy
  have member : op ∈ world.outstanding := listed ▸ List.mem_cons_self
  have unopened := (duplex.complete member).unopened
  cases op with
  | handshake =>
      refine ⟨.handshake (some .other), _, trivial, if_pos member, ?_⟩
      intro session created
      change session ∈ (world.complete .handshake).sessions at created
      rw [unopened] at created
      cases created
  | read =>
      refine ⟨.read (.error .other) fun request response => ⟨request, response, .returned⟩, _,
        trivial, if_pos member, ?_⟩
      intro session created
      change session ∈ (world.complete .read).sessions at created
      rw [unopened] at created
      cases created
  | write write =>
      refine ⟨.write write none id, _, trivial, if_pos member, ?_⟩
      intro session created
      rcases onWrite_session session created with old | new
      · rw [unopened] at old
        cases old
      · exact new

end World

end Webserver.HTTP

/-! ## One session -/

namespace Webserver.WS.World

open Foundation

variable {world : World}

theorem handleRead_sendQ (error : Option ErrorCode) (world : World) :
    (world.handleRead error).conn.sendQ = world.conn.sendQ := by
  cases error with
  | none => exact stop_sendQ _
  | some code =>
      refine (stop_sendQ _).trans ?_
      unfold reportError
      split <;> rfl

theorem destroy_sendQ (world : World) : world.destroy.conn.sendQ = world.conn.sendQ := by
  unfold destroy
  split
  · rfl
  · exact stop_sendQ _

theorem destroy_outstanding (world : World) : world.destroy.outstanding = world.outstanding := by
  unfold destroy
  split
  · rfl
  · exact stop_outstanding _

/-- A write that has ended leaves fewer frames, with an error none. -/
theorem Feeding.shorter (feeding : world.Feeding) {write : PendingWrite}
    (member : write ∈ world.outstanding) (error : Option ErrorCode) :
    ((world.complete write error).handleWrite error).conn.sendQ.length <
      world.conn.sendQ.length := by
  obtain ⟨-, rest, queue⟩ := feeding.of_mem member
  cases error with
  | none =>
      obtain ⟨rest, queue, after, -⟩ := feeding.succeeded member
      rw [after, queue]
      exact Nat.lt_succ_self _
  | some code =>
      rw [(handleWrite_error code _).1, queue]
      exact Nat.zero_lt_succ _

end Webserver.WS.World

namespace Webserver.Server

open Foundation System HTTP

namespace Connection

variable {Id : Type*} {conn next : Connection Id}

/-- The completions that are left to a session to which nothing more is pushed: its
start and its read, one for each of its frames, and its destruction. -/
def remaining (conn : Connection Id) : Nat :=
  (if conn.started then 0 else 2) + conn.reading.toNat + conn.world.conn.sendQ.length +
    conn.alive.toNat

/-- What holds of a session: it is closed once, and destroyed when nothing can happen
to it any more. -/
structure Sound (conn : Connection Id) : Prop where
  feeding : conn.world.Feeding
  once : conn.world.ClosedOnce
  dead : conn.alive = false →
    conn.started = true ∧ conn.reading = false ∧ conn.world.outstanding = [] ∧
      conn.world.conn.closed = true

/-- A call of the server keeps the session sound. -/
theorem Sound.forward (sound : conn.Sound) (alive : conn.alive = true) (argument : Argument) :
    Sound { conn with world := argument.forward conn.world } := by
  have living (world : WS.World) (feeding : world.Feeding) (once : world.ClosedOnce) :
      Sound { conn with world } := by
    refine ⟨feeding, once, ?_⟩
    intro dead
    exact absurd (alive.symm.trans dead) (by decide)
  cases argument with
  | message text =>
      exact living (conn.world.write text WS.Schema.oneFragmentText)
        ((WS.World.write_pushed text _ conn.world).feeding sound.feeding)
        (sound.once.write text _)
  | statusCode code => exact living conn.world.stop sound.feeding.stop sound.once.stop

/-- What happens to a session keeps it sound and leaves less to do. -/
theorem Sound.step (sound : conn.Sound) {event : ConnectionEvent}
    (moved : conn.step? event = some next) :
    next.Sound ∧ next.remaining < conn.remaining := by
  have feeding := (connection_mailbox sound.feeding moved).1
  cases event with
  | start =>
      simp only [Connection.step?] at moved
      split_ifs at moved with fresh
      cases moved
      refine ⟨⟨feeding, sound.once.of_eq ?_ rfl, ?_⟩, ?_⟩
      · change WS.closings (conn.world.effects ++ [.onopen]) = _
        rw [WS.closings_append]
        exact List.append_nil _
      · intro dead
        exact absurd (fresh.symm.trans (sound.dead dead).1) (by decide)
      · have few := conn.reading.toNat_le
        simp only [remaining, fresh, WS.World.start, Bool.false_eq_true, if_false, if_true,
          Bool.toNat_true]
        omega
  | read error =>
      simp only [Connection.step?] at moved
      split_ifs at moved with reading
      cases moved
      refine ⟨⟨feeding, sound.once.handleRead error, ?_⟩, ?_⟩
      · intro dead
        exact absurd (reading.symm.trans (sound.dead dead).2.1) (by decide)
      · simp only [remaining, reading, WS.World.handleRead_sendQ, Bool.toNat_true,
          Bool.toNat_false]
        omega
  | written write error =>
      simp only [Connection.step?] at moved
      obtain ⟨world, stepped, rfl⟩ := Option.map_eq_some_iff.mp moved
      simp only [WS.World.step?] at stepped
      split_ifs at stepped with member
      cases stepped
      have shorter := sound.feeding.shorter member error
      refine ⟨⟨feeding, sound.once.written write error, ?_⟩, ?_⟩
      · intro dead
        rw [(sound.dead dead).2.2.1] at member
        cases member
      · simp only [remaining]
        omega
  | destroy =>
      simp only [Connection.step?] at moved
      split_ifs at moved with enabled
      cases moved
      obtain ⟨alive, unowned⟩ := enabled
      simp only [Owned, not_or, Bool.not_eq_false, Bool.not_eq_true, not_not] at unowned
      obtain ⟨started, reading, outstanding⟩ := unowned
      refine ⟨⟨feeding, sound.once.destroy.1, ?_⟩, ?_⟩
      · intro _
        exact ⟨started, reading, (WS.World.destroy_outstanding _).trans outstanding,
          sound.once.destroy.2⟩
      · simp only [remaining, alive, WS.World.destroy_sendQ, Bool.toNat_true, Bool.toNat_false]
        omega

/-- A session to which something can happen is not destroyed, and one that is not
destroyed can go on. -/
theorem exists_step (alive : conn.alive = true) : ∃ event next, conn.step? event = some next := by
  by_cases owned : conn.Owned
  · rcases owned with fresh | reading | writing
    · exact ⟨.start, _, if_pos fresh⟩
    · exact ⟨.read none, _, if_pos reading⟩
    · obtain ⟨write, others, listed⟩ := List.exists_cons_of_ne_nil writing
      have member : write ∈ conn.world.outstanding := listed ▸ List.mem_cons_self
      have written : conn.world.step? (.written write none) =
          some ((conn.world.complete write none).handleWrite none) := if_pos member
      exact ⟨.written write none, _, congrArg (Option.map _) written⟩
  · exact ⟨.destroy, _, if_pos ⟨alive, owned⟩⟩

end Connection

/-! ## The registry -/

namespace WebServer

variable {Id : Type*} [DecidableEq Id] {server : WebServer Id}

def remaining (server : WebServer Id) : Nat := (server.conns.map Connection.remaining).sum

theorem sound_forwardEither (registered : Registered server)
    (sound : ∀ conn ∈ server.conns, conn.Sound) (id : Id) (argument : Argument) :
    ∀ conn ∈ (server.forwardEither id argument).2.conns, conn.Sound := by
  have routed := registered.routed id argument
  generalize server.forwardEither id argument = result at routed ⊢
  cases routed with
  | reached handle conn entry found alive =>
      intro other member
      rcases List.mem_or_eq_of_mem_set member with old | rfl
      · exact sound other old
      · exact (sound conn (List.mem_of_getElem? found)).forward alive argument
  | dead handle conn entry found dead =>
      rw [forget_conns]
      exact sound
  | unknown none => exact sound

theorem sound_of_reachable (reachable : (serverSystem Id).Reachable server) :
    ∀ conn ∈ server.conns, conn.Sound := by
  refine reachable.invariant (motive := fun server => ∀ conn ∈ server.conns, conn.Sound) ?_ ?_
  · rintro start rfl conn member
    cases member
  · intro before event after earlier sound moved
    have registered := registered_of_reachable earlier
    cases step_cases moved with
    | added id secure fresh =>
        rw [wsAddSession_conns]
        intro conn member
        rcases List.mem_append.mp member with old | new
        · exact sound conn old
        · rw [List.mem_singleton.mp new]
          refine ⟨rfl, rfl, ?_⟩
          intro dead
          cases dead
    | pushed id text => exact sound_forwardEither registered sound id _
    | closed id statusCode => exact sound_forwardEither registered sound id _
    | touched handle event conn next found happened =>
        intro other member
        rcases List.mem_or_eq_of_mem_set member with old | rfl
        · exact sound other old
        · exact ((sound conn (List.mem_of_getElem? found)).step happened).1

end WebServer

/-! ## The acceptors -/

namespace Listener

variable {IPAddress : Type*} {listener after : Listener IPAddress}

def remaining (listener : Listener IPAddress) : Nat :=
  listener.http.outstanding + listener.https.outstanding

/-- Both acceptors are closed. -/
def Stopped (listener : Listener IPAddress) : Prop :=
  ∀ transport, (listener.acceptor transport).isOpen = false

/-- On a closed acceptor the handler returns at once. -/
theorem Stopped.accepted (stopped : listener.Stopped) {transport : Transport}
    {result : Except ErrorCode (Accepted IPAddress)}
    (moved : listener.step? (.accepted transport result) = some after) :
    after.Stopped ∧ after.connections = listener.connections ∧
      after.remaining < listener.remaining := by
  simp only [step?] at moved
  split_ifs at moved with waiting
  cases moved
  have completed := acceptor_complete listener transport
  have kept : (listener.complete transport).Stopped := by
    intro other
    rw [completed]
    split
    · exact stopped other
    · exact stopped other
  have returned : (listener.complete transport).onAccept transport result =
      listener.complete transport := if_pos (kept transport)
  rw [returned]
  refine ⟨kept, ?_, ?_⟩
  · cases transport <;> rfl
  · cases transport with
    | http =>
        change listener.http.outstanding ≠ 0 at waiting
        change listener.http.outstanding - 1 + listener.https.outstanding <
          listener.http.outstanding + listener.https.outstanding
        omega
    | https =>
        change listener.https.outstanding ≠ 0 at waiting
        change listener.http.outstanding + (listener.https.outstanding - 1) <
          listener.http.outstanding + listener.https.outstanding
        omega

end Listener

/-! ## The service -/

variable {env : Externals}

/-- What happens to a stopped service when its clients hang up and nothing is pushed. -/
def ServiceEvent.Ends : ServiceEvent env → Prop
  | .listener (.accepted _ _) | .server (.connection _ _) => True
  | .http _ event => event.Silent
  | .listener .stop | .server _ => False

variable [DecidableEq env.Pauuid]

variable (env) in
def ending : System (Service env) (ServiceEvent env) :=
  (serviceSystem env).restrict fun _ event _ => event.Ends

namespace Service

variable {service before after : Service env}

omit [DecidableEq env.Pauuid] in
/-- The completions that are left. -/
def remaining (service : Service env) : Nat :=
  service.listener.remaining + (service.clients.map fun client => client.world.remaining).sum +
    service.server.remaining

/-- Nothing is left: no operation is outstanding, and every session has been closed
once, in order, and destroyed. -/
structure Gone (service : Service env) : Prop where
  listener : ∀ transport, (service.listener.acceptor transport).outstanding = 0
  clients : ∀ client ∈ service.clients, client.world.outstanding = []
  sessions : ∀ conn ∈ service.server.conns, conn.alive = false ∧ conn.reading = false ∧
    conn.world.outstanding = [] ∧ conn.world.conn = ⟨true, []⟩ ∧
    WS.closings conn.world.effects = WS.closing

/-- Every completion leaves less to do. -/
theorem ending_step (linked : Linked before) (stopped : before.listener.Stopped)
    {event : ServiceEvent env} (moved : (ending env).step before event after) :
    (Linked after ∧ after.listener.Stopped) ∧ after.remaining < before.remaining := by
  obtain ⟨moved, ends⟩ := moved
  have kept := linked.step moved
  cases step_cases moved with
  | listened event listener accepted =>
      cases event with
      | stop => exact ends.elim
      | accepted transport result =>
          obtain ⟨closed, connections, less⟩ := stopped.accepted accepted
          have clients : (before.listen listener).clients = before.clients := by
            simp [listen, connections]
          refine ⟨⟨kept, closed⟩, ?_⟩
          rw [remaining, remaining, clients]
          change listener.remaining + _ + before.server.remaining < _
          omega
  | handled position client event world found stepped none =>
      have duplex := HTTP.World.halfDuplex_of_reachable
        (linked.clients client (List.mem_of_getElem? found)).reachable
      have less := (HTTP.World.step_remaining duplex ends stepped).2
      have traded := Pool.sum_set (fun client : Client env => client.world.remaining)
        { client.account event with world } found
      refine ⟨⟨kept, stopped⟩, ?_⟩
      simp only [remaining] at traded ⊢
      omega
  | registered position client event world session others server found stepped new added =>
      have duplex := HTTP.World.halfDuplex_of_reachable
        (linked.clients client (List.mem_of_getElem? found)).reachable
      obtain ⟨unopened, less⟩ := HTTP.World.step_remaining duplex ends stepped
      have some_ : 0 < world.sessions.length := by
        rw [unopened] at new
        rw [show world.sessions = session :: others from new]
        exact Nat.zero_lt_succ _
      have traded := Pool.sum_set (fun client : Client env => client.world.remaining)
        { client.account event with world, session := some before.server.conns.length } found
      have three : server.remaining = before.server.remaining + 3 := by
        simp only [WebServer.step?] at added
        split_ifs at added
        cases added
        rw [WebServer.remaining, WebServer.wsAddSession_conns, List.map_append, List.sum_append]
        rfl
      refine ⟨⟨kept, stopped⟩, ?_⟩
      simp only [remaining] at traded ⊢
      omega
  | called event server other stepped =>
      cases WebServer.step_cases stepped with
      | added id secure fresh => exact ends.elim
      | pushed id text => exact ends.elim
      | closed id statusCode => exact ends.elim
      | touched handle event conn next found happened =>
          have sound := WebServer.sound_of_reachable linked.server conn (List.mem_of_getElem? found)
          have less := (sound.step happened).2
          have traded := Pool.sum_set Connection.remaining next found
          refine ⟨⟨kept, stopped⟩, ?_⟩
          simp only [remaining, WebServer.remaining, WebServer.touch]
          omega

/-- A completion on the HTTP connection of a client takes place when the id of the
session that it may create is new. -/
theorem exists_handled {position : Nat} {client : Client env} {event : Event env}
    {world : HTTP.World env} (found : service.clients[position]? = some client)
    (stepped : client.world.step? event = some world)
    (fresh : ∀ session ∈ world.sessions, ∀ conn ∈ service.server.conns, conn.id ≠ session.id) :
    ∃ after, service.step? (.http position event) = some after := by
  simp only [step?, found, Option.bind_some, stepped, handle]
  cases new : world.sessions.drop client.world.sessions.length with
  | nil => exact ⟨_, rfl⟩
  | cons session others =>
      have created : session ∈ world.sessions :=
        List.mem_of_mem_drop (new ▸ List.mem_cons_self)
      have added : service.server.step? (.addSession session.id client.secure) =
          some (service.server.wsAddSession session.id client.secure) :=
        if_pos (fresh session created)
      exact ⟨_, congrArg (Option.map _) added⟩

/-- A service with nothing left to complete is gone. -/
theorem gone_of_stuck [Infinite env.Pauuid] (linked : Linked service)
    (stuck : (ending env).Stuck service) : Gone service := by
  have destroyed : ∀ conn ∈ service.server.conns, conn.alive = false := by
    intro conn member
    obtain ⟨handle, found⟩ := List.mem_iff_getElem?.mp member
    by_contra living
    obtain ⟨event, next, happened⟩ := Connection.exists_step (Bool.not_eq_false _ ▸ living)
    have moved : service.step? (.server (.connection handle event)) =
        some { service with server := service.server.touch handle event conn next } := by
      simp only [step?, call, WebServer.step?, found, Option.bind_some, happened, Option.map_some]
    exact stuck _ _ ⟨moved, trivial⟩
  refine ⟨?_, ?_, ?_⟩
  · intro transport
    by_contra waiting
    have moved : service.step? (.listener (.accepted transport (.error .other))) =
        some (service.listen ((service.listener.complete transport).onAccept transport
          (.error .other))) := by
      simp only [step?, Listener.step?, if_neg waiting, Option.map_some]
    exact stuck _ _ ⟨moved, trivial⟩
  · intro client member
    obtain ⟨position, found⟩ := List.mem_iff_getElem?.mp member
    by_contra busy
    obtain ⟨id, new⟩ := (List.finite_toSet (service.server.conns.map Connection.id)).exists_notMem
    have duplex := HTTP.World.halfDuplex_of_reachable (linked.clients client member).reachable
    obtain ⟨event, world, silent, stepped, drawn⟩ :=
      HTTP.World.exists_silent_step duplex busy id
    obtain ⟨after, moved⟩ := exists_handled found stepped (by
      intro session created conn inside same
      rw [drawn session created] at same
      exact new (same ▸ List.mem_map_of_mem inside))
    exact stuck _ _ ⟨moved, silent⟩
  · intro conn member
    have sound := WebServer.sound_of_reachable linked.server conn member
    have dead := destroyed conn member
    obtain ⟨-, reading, outstanding, closed⟩ := sound.dead dead
    have empty : conn.world.conn.sendQ = [] := by
      have feeding := sound.feeding
      unfold WS.World.Feeding at feeding
      rw [outstanding] at feeding
      exact (List.take_eq_nil_iff.mp feeding.symm).resolve_left (by decide)
    refine ⟨dead, reading, outstanding, ?_, ?_⟩
    · cases shape : conn.world.conn with
      | mk isClosed queue =>
          rw [shape] at closed empty
          rw [show isClosed = true from closed, show queue = [] from empty]
    · have once := sound.once
      rw [WS.World.ClosedOnce, closed] at once
      exact once

/-- **A stopped service comes to its end.** From every reachable state in which the
acceptors are closed, while the clients hang up and nothing is pushed, the operations
complete in at most as many steps as are left; when none can complete any more, none is
outstanding, and every session there was has been closed, once, and destroyed; and this
can always be reached, as long as ids for sessions do not run out. -/
theorem reachable_ends [Infinite env.Pauuid] (reachable : (serviceSystem env).Reachable service)
    (stopped : service.listener.Stopped) :
    (∀ events last, (ending env).Run service events last → events.length ≤ service.remaining ∧
      ((ending env).Stuck last → last.Gone)) ∧
    ∃ events last, (ending env).Run service events last ∧ last.Gone := by
  have going : Linked service ∧ service.listener.Stopped :=
    ⟨linked_of_reachable reachable, stopped⟩
  refine ⟨?_, ?_⟩
  · intro events last run
    obtain ⟨bound, ended⟩ := run.length_le
      (fun going moved => ending_step going.1 going.2 moved) going
    exact ⟨Nat.le_of_add_right_le bound, gone_of_stuck ended.1⟩
  · obtain ⟨events, last, run, -, gone⟩ := exists_run_of_progress
      (fun going moved => ending_step going.1 going.2 moved)
      (fun going stuck => gone_of_stuck going.1 stuck) going
    exact ⟨events, last, run, gone⟩

/-- The server stops while a client has a session, whose frame is being written. -/
def stopsOpened : List (ServiceEvent HTTP.World.sampleHash) :=
  sessionOpens ++ [.server (.push (ascii "1") (ascii "b")), .listener .stop]

set_option maxRecDepth 8000 in
theorem reachable_ends_opened : ∃ service : Service HTTP.World.sampleHash,
    (serviceSystem HTTP.World.sampleHash).Run {} stopsOpened service ∧ service.remaining = 5 ∧
    (∀ events last, (ending HTTP.World.sampleHash).Run service events last →
      events.length ≤ service.remaining ∧
        ((ending HTTP.World.sampleHash).Stuck last → last.Gone)) ∧
    ∃ events last, (ending HTTP.World.sampleHash).Run service events last ∧ last.Gone := by
  have endless : Infinite HTTP.World.sampleHash.Pauuid := inferInstanceAs (Infinite (List UInt8))
  have executed : (stopsOpened.foldlM step? {}).map (fun service : Service HTTP.World.sampleHash =>
      (service.listener.http.isOpen, service.listener.https.isOpen, service.remaining)) =
        some (false, false, 5) := rfl
  obtain ⟨service, moved, shown⟩ := Option.map_eq_some_iff.mp executed
  obtain ⟨http, https, five⟩ : service.listener.http.isOpen = false ∧
      service.listener.https.isOpen = false ∧ service.remaining = 5 := by
    simpa using shown
  have run : (serviceSystem HTTP.World.sampleHash).Run {} stopsOpened service := .of_foldlM moved
  have stopped : service.listener.Stopped := by
    intro transport
    cases transport with
    | http => exact http
    | https => exact https
  exact ⟨service, run, five, reachable_ends (run.reachable rfl) stopped⟩

end Service

end Webserver.Server
