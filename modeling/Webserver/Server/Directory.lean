import Webserver.Foundation.Mailboxes
import Webserver.Server.Routing
import Webserver.WS.Sequence

/-! # The registry as a directory

Seen from its callers, the registry is a directory of mailboxes: `WSAddSession` adds
one, `WSPush` puts a frame into the one under its id, a completed write takes the
first frame out, and a call is told whether the mailbox is still there. Maps, weak
references and dead entries cannot be seen.
-/

namespace Webserver.WS.World

open Foundation

@[simp] theorem stop_channel (world : World) : world.stop.channel = world.channel := by
  unfold stop
  split <;> rfl

theorem Feeding.stop {world : World} (feeding : Feeding world) : Feeding world.stop := by
  unfold Feeding
  rw [stop_outstanding, stop_sendQ]
  exact feeding

/-- What a read brings stops the connection and touches no frame. -/
theorem handleRead_channel (error : Option ErrorCode) (world : World) :
    (world.handleRead error).channel = world.channel := by
  cases error with
  | none => exact stop_channel world
  | some code =>
      have reported : (world.reportError code).channel = world.channel := by
        unfold reportError
        split <;> rfl
      exact (stop_channel _).trans reported

theorem Feeding.handleRead {world : World} (feeding : Feeding world) (error : Option ErrorCode) :
    Feeding (world.handleRead error) := by
  cases error with
  | none => exact feeding.stop
  | some code =>
      have reported : Feeding (world.reportError code) := by
        unfold reportError
        split <;> exact feeding
      exact reported.stop

end Webserver.WS.World

namespace Webserver.WS

open Foundation

/-- The frame a client should read for a message pushed to it. -/
def textFrameRead (text : Bytes) : Frame :=
  ⟨Schema.oneFragmentText, .of text.length, none, text⟩

/-- The frames of messages, none longer than a string can be, are read back. -/
theorem decodeStream_textFrames (texts : List Bytes) (fits : ∀ text ∈ texts, text.length < 2 ^ 63) :
    decodeStream readFrame (texts.flatMap textFrame) = some (texts.map textFrameRead) := by
  let encode (text : {text : Bytes // text.length < 2 ^ 63}) : TextMessage :=
    ⟨Schema.oneFragmentText, text.val, text.property⟩
  have bytes (text : {text : Bytes // text.length < 2 ^ 63}) :
      textFrame text.val = (encode text).bytes :=
    fillTextFrame_eq (encode text) []
  have undone : decodeStream readFrame
      ((texts.attachWith _ fits).flatMap fun text => (encode text).bytes) =
        some ((texts.attachWith _ fits).map fun text => (encode text).frame) :=
    decodeStream_flatMap (fun text => List.cons_ne_nil _ _)
      (fun text => readFrame_bytes (encode text)) _
  have same : (texts.attachWith _ fits).map Subtype.val = texts := by simp
  rw [← same, List.flatMap_map, List.map_map]
  simp only [bytes]
  exact undone

end Webserver.WS

namespace Webserver.Server

open Foundation System WS.World

variable {Id : Type*}

/-- The mailbox of a connection. -/
def Connection.mailbox (conn : Connection Id) : Mailbox Bytes where
  channel := conn.world.channel
  live := conn.alive

/-- What happens to a connection happens to its mailbox, and keeps the front of its
queue written. -/
theorem connection_mailbox {conn next : Connection Id} {event : ConnectionEvent}
    (feeding : conn.world.Feeding) (moved : conn.step? event = some next) :
    next.world.Feeding ∧
      match event with
      | .written _ error => conn.world.channel.step? (if error.isNone then .arrive else .lose) =
          some next.world.channel ∧ next.alive = conn.alive
      | .destroy => conn.alive = true ∧ next.alive = false ∧
          next.world.channel = conn.world.channel
      | _ => next.mailbox = conn.mailbox := by
  cases event with
  | start =>
      simp only [Connection.step?] at moved
      split_ifs at moved
      cases moved
      exact ⟨feeding, rfl⟩
  | read error =>
      simp only [Connection.step?] at moved
      split_ifs at moved
      cases moved
      refine ⟨feeding.handleRead error, ?_⟩
      simp only [Connection.mailbox, handleRead_channel]
  | written write error =>
      simp only [Connection.step?] at moved
      obtain ⟨world, stepped, rfl⟩ := Option.map_eq_some_iff.mp moved
      have channel := channel_step feeding stepped
      simp only [WS.World.step?] at stepped
      split_ifs at stepped with member
      cases stepped
      refine ⟨feeding.written member error, ?_, rfl⟩
      cases error with
      | none => exact channel
      | some code => exact channel
  | destroy =>
      simp only [Connection.step?] at moved
      split_ifs at moved with enabled
      cases moved
      have destroyed : conn.world.destroy.Feeding ∧
          conn.world.destroy.channel = conn.world.channel := by
        unfold WS.World.destroy
        split
        · exact ⟨feeding, rfl⟩
        · exact ⟨feeding.stop, stop_channel _⟩
      exact ⟨destroyed.1, enabled.1, rfl, destroyed.2⟩

variable [DecidableEq Id]

namespace WebServer

/-- The directory that the registry is for its callers. -/
def directory (server : WebServer Id) : Directory Id Bytes := fun id =>
  (server.conns.find? (·.id = id)).map Connection.mailbox

/-- What a call is told. -/
def answer (server : WebServer Id) : ServerEvent Id → List (Directory.Answer Id Bytes)
  | .push id text => [.pushed id text (server.wsPush id text).1]
  | .close id statusCode => [.closed id (server.wsClose id statusCode).1]
  | .addSession _ _ | .connection _ _ => []

variable {server after : WebServer Id}

/-- In every connection the front of the queue is being written. -/
def Fed (server : WebServer Id) : Prop := ∀ conn ∈ server.conns, conn.world.Feeding

/-- A connection has changed. -/
theorem directory_set (registered : Registered server) {handle : Nat} {conn next : Connection Id}
    (found : server.conns[handle]? = some conn) (same : next.id = conn.id)
    (conns : after.conns = server.conns.set handle next) :
    after.directory = server.directory.put conn.id next.mailbox := by
  funext wanted
  rw [directory, conns, Pool.find?_set registered.unique found same, Directory.put]
  split_ifs
  · rfl
  · rfl

theorem directory_found (registered : Registered server) {handle : Nat} {conn : Connection Id}
    (found : server.conns[handle]? = some conn) :
    server.directory conn.id = some conn.mailbox := by
  rw [directory, Pool.find?_of_getElem? registered.unique found]
  rfl

theorem directory_congr (same : after.conns = server.conns) :
    after.directory = server.directory := by
  unfold directory
  rw [same]

/-- The directory gives the answers of the registry. -/
theorem forwardEither_accepts (registered : Registered server) (id : Id) (argument : Argument) :
    (server.forwardEither id argument).1 = server.directory.accepts id := by
  have routed := registered.routed id argument
  generalize server.forwardEither id argument = result at routed ⊢
  cases routed with
  | reached handle conn entry found alive =>
      obtain rfl := registered.id_of_entry entry found
      rw [Directory.accepts, directory_found registered found]
      exact alive.symm
  | dead handle conn entry found dead =>
      obtain rfl := registered.id_of_entry entry found
      rw [Directory.accepts, directory_found registered found]
      exact dead.symm
  | unknown none =>
      symm
      rw [Directory.accepts, Option.any_eq_false]
      intro mailbox there
      obtain ⟨conn, found, rfl⟩ := Option.map_eq_some_iff.mp there
      obtain rfl : conn.id = id := by simpa using List.find?_some found
      obtain ⟨handle, atHandle⟩ := List.mem_iff_getElem?.mp (List.mem_of_find?_eq_some found)
      apply Bool.eq_false_iff.mpr
      intro alive
      have entry := registered.present handle conn atHandle alive
      rw [none] at entry
      cases entry

/-- What a call does, as a request for the directory. -/
def Argument.request (id : Id) : Argument → Directory.Request Id Bytes
  | .message text => .push id text
  | .statusCode _ => .close id

theorem forwardEither_directory (registered : Registered server) (fed : Fed server) (id : Id)
    (argument : Argument) :
    Fed (server.forwardEither id argument).2 ∧
      server.directory.step? WS.textFrame (Argument.request id argument) =
        some (server.forwardEither id argument).2.directory := by
  have accepts := forwardEither_accepts registered id argument
  have routed := registered.routed id argument
  generalize server.forwardEither id argument = result at routed accepts ⊢
  have refused (before : WebServer Id) (same : before.conns = server.conns)
      (refuses : server.directory.accepts id = false) :
      Fed before ∧ server.directory.step? WS.textFrame (Argument.request id argument) =
        some before.directory := by
    refine ⟨fun conn member => fed conn (same ▸ member), ?_⟩
    rw [directory_congr same]
    cases argument with
    | message text => rw [Argument.request, Directory.step?, refuses]; rfl
    | statusCode code => rfl
  cases routed with
  | dead handle conn entry found dead => exact refused _ (forget_conns _ _ _) accepts.symm
  | unknown none => exact refused _ rfl accepts.symm
  | reached handle conn entry found alive =>
      obtain rfl := registered.id_of_entry entry found
      have feeding := fed conn (List.mem_of_getElem? found)
      have there := directory_found registered found
      let next : Connection Id := { conn with world := argument.forward conn.world }
      have moved : ((server.claim conn.id).reach handle conn argument).directory =
          server.directory.put conn.id next.mailbox :=
        directory_set registered found rfl rfl
      have kept : (argument.forward conn.world).Feeding := by
        cases argument with
        | message text => exact (write_pushed text _ conn.world).feeding feeding
        | statusCode code => exact feeding.stop
      refine ⟨?_, ?_⟩
      · intro other member
        rcases List.mem_or_eq_of_mem_set member with old | rfl
        · exact fed other old
        · exact kept
      · rw [moved]
        cases argument with
        | message text =>
            have stepped : conn.world.step? (.write text WS.Schema.oneFragmentText) =
              some next.world := rfl
            have sends : conn.mailbox.channel.step? (.send (WS.textFrame text)) =
              some next.world.channel := channel_step feeding stepped
            rw [Argument.request, Directory.step?, ← accepts, if_pos rfl, Directory.move, there,
              Option.bind_some, sends]
            rfl
        | statusCode code =>
            rw [Argument.request, Directory.step?]
            apply congrArg some
            symm
            apply Directory.put_eq_self
            rw [there]
            simp only [Connection.mailbox, next, Argument.forward, stop_channel]

/-- A new session has a new mailbox. -/
theorem wsAddSession_directory {id : Id} (secure : Bool)
    (fresh : ∀ conn ∈ server.conns, conn.id ≠ id) :
    server.directory id = none ∧
      (server.wsAddSession id secure).directory = server.directory.put id {} := by
  have unknown : server.conns.find? (·.id = id) = none := by
    rw [List.find?_eq_none]
    intro conn member same
    exact fresh conn member (of_decide_eq_true same)
  refine ⟨by rw [directory, unknown]; rfl, ?_⟩
  funext wanted
  rw [directory, wsAddSession_conns, List.find?_append, Directory.put]
  split_ifs with here
  · subst here
    rw [unknown]
    simp [Connection.mailbox, channel]
  · simp [directory, Ne.symm here]

/-- Every event is a request for the directory, or leaves it as it is. -/
theorem step_directory {event : ServerEvent Id} (registered : Registered server)
    (fed : Fed server) (moved : server.step? event = some after) :
    Fed after ∧
      (after.directory = server.directory ∧ server.answer event = [] ∨
        ∃ request, server.directory.step? WS.textFrame request = some after.directory ∧
          server.directory.answer request = server.answer event) := by
  cases step_cases moved with
  | added id secure fresh =>
      obtain ⟨unknown, added⟩ := wsAddSession_directory secure fresh
      refine ⟨?_, Or.inr ⟨.add id, ?_, rfl⟩⟩
      · intro conn member
        rw [wsAddSession_conns] at member
        rcases List.mem_append.mp member with old | new
        · exact fed conn old
        · rw [List.mem_singleton.mp new]
          rfl
      · rw [Directory.step?, unknown, added]
        rfl
  | pushed id text =>
      obtain ⟨kept, step⟩ := forwardEither_directory registered fed id (.message text)
      refine ⟨kept, Or.inr ⟨_, step, ?_⟩⟩
      exact congrArg (fun ok => [Directory.Answer.pushed id text ok])
        (forwardEither_accepts registered id (.message text)).symm
  | closed id statusCode =>
      obtain ⟨kept, step⟩ := forwardEither_directory registered fed id (.statusCode statusCode)
      refine ⟨kept, Or.inr ⟨_, step, ?_⟩⟩
      exact congrArg (fun ok => [Directory.Answer.closed id ok])
        (forwardEither_accepts registered id (.statusCode statusCode)).symm
  | touched handle event conn next found happened =>
      obtain ⟨feeding, mailbox⟩ :=
        connection_mailbox (fed conn (List.mem_of_getElem? found)) happened
      have there := directory_found registered found
      have same := (connection_step happened).1
      have put : (server.touch handle event conn next).directory =
          server.directory.put conn.id next.mailbox := directory_set registered found same rfl
      have unchanged (kept : next.mailbox = conn.mailbox) :
          (server.touch handle event conn next).directory = server.directory := by
        rw [put, kept]
        exact Directory.put_eq_self there
      refine ⟨?_, ?_⟩
      · intro other member
        rcases List.mem_or_eq_of_mem_set member with old | rfl
        · exact fed other old
        · exact feeding
      · cases event with
        | start => exact Or.inl ⟨unchanged mailbox, rfl⟩
        | read error => exact Or.inl ⟨unchanged mailbox, rfl⟩
        | written write error =>
            obtain ⟨step, alive⟩ := mailbox
            refine Or.inr ⟨.transmit conn.id error.isNone, ?_, rfl⟩
            rw [Directory.step?, Directory.move, there, put, Option.bind_some]
            simp only [Connection.mailbox]
            rw [step, alive]
            rfl
        | destroy =>
            obtain ⟨alive, dead, same⟩ := mailbox
            refine Or.inr ⟨.retire conn.id, ?_, rfl⟩
            rw [Directory.step?, there, put, Option.bind_some]
            simp only [Connection.mailbox, alive, dead, same, if_true]

theorem fed_of_reachable (reachable : (serverSystem Id).Reachable server) : Fed server := by
  apply reachable.invariant
  · rintro start rfl
    exact nofun
  · intro before event after earlier fed moved
    exact (step_directory (registered_of_reachable earlier) fed moved).1

theorem simulated {event : ServerEvent Id} (earlier : (serverSystem Id).Reachable server)
    (moved : (serverSystem Id).step server event after) :
    after.directory = server.directory ∧ server.answer event = [] ∨
      ∃ request, (Directory.system Id WS.textFrame).step server.directory request
          after.directory ∧ server.directory.answer request = server.answer event :=
  (step_directory (registered_of_reachable earlier) (fed_of_reachable earlier) moved).2

/-- **The registry is a directory of mailboxes.** In every run the answers that
`WSPush` and `WSClose` give are those of the directory: each push and each close is
answered with true exactly while the mailbox of its id is there, and is no other's
business. -/
theorem emits_directory {answers : List (Directory.Answer Id Bytes)} {last : WebServer Id}
    (emits : (serverSystem Id).Emits answer {} answers last) :
    (Directory.system Id WS.textFrame).Emits Directory.answer .empty answers last.directory :=
  emits.refine directory (.initial rfl) simulated

/-- What the callers are told when a plain session dies and a secure one is closed. -/
def toldDies : List (Directory.Answer Nat Bytes) :=
  [.pushed 1 (ascii "a") true, .pushed 1 (ascii "b") false, .pushed 1 (ascii "c") false,
    .closed 2 true]

theorem emits_directory_dies : ∃ last,
    (serverSystem Nat).Emits answer {} toldDies last ∧
      (Directory.system Nat WS.textFrame).Emits Directory.answer .empty toldDies
        last.directory := by
  have replayed : (replay step? answer {} plainDies).map Prod.fst = some toldDies := by
    decide +kernel
  obtain ⟨⟨told, last⟩, executed, rfl⟩ := Option.map_eq_some_iff.mp replayed
  have emits : (serverSystem Nat).Emits answer {} toldDies last := Emits.of_replay executed
  exact ⟨last, emits, emits_directory emits⟩

/-! ## What the client of a session reads -/

open Directory in
/-- What has been written to a session are frames of messages accepted for it. -/
theorem delivered_accepted {answers : List (Answer Id Bytes)} {last : WebServer Id}
    (emits : (serverSystem Id).Emits answer {} answers last) {conn : Connection Id}
    (member : conn ∈ last.conns) :
    ∃ received, conn.world.delivered = received.map WS.textFrame ∧
      received.Sublist (accepted conn.id answers) ∧
      (conn.world.failed = false → received <+: accepted conn.id answers ∧
        (conn.world.outstanding = [] → received = accepted conn.id answers)) := by
  have reachable := emits.reachable rfl
  have feeding := fed_of_reachable reachable conn member
  obtain ⟨handle, found⟩ := List.mem_iff_getElem?.mp member
  have refined : (Directory.system Id WS.textFrame).Emits Directory.answer .empty answers
      last.directory := emits.refine directory (.initial rfl) simulated
  obtain ⟨ordered, sent⟩ := (accounts_of_emits refined).sent conn.id conn.mailbox
    (directory_found (registered_of_reachable reachable) found)
  obtain ⟨received, delivered, inside, whole⟩ := ordered.exists_received sent
  refine ⟨received, delivered, inside, ?_⟩
  intro unbroken
  obtain ⟨initial, complete⟩ := whole unbroken
  refine ⟨initial, fun idle => complete ?_⟩
  unfold Feeding at feeding
  rw [idle] at feeding
  have empty := (List.take_eq_nil_iff.mp feeding.symm).resolve_left (by decide)
  change conn.world.conn.sendQ.map WS.Node.frame = []
  rw [empty]
  rfl

omit [DecidableEq Id] in
/-- What has been written to a session, read frame by frame. -/
theorem decodeStream_delivered {conn : Connection Id} {received : List Bytes}
    (delivered : conn.world.delivered = received.map WS.textFrame)
    (fits : ∀ text ∈ received, text.length < 2 ^ 63) :
    decodeStream WS.readFrame conn.world.delivered.flatten =
      some (received.map WS.textFrameRead) := by
  rw [delivered, ← List.flatMap_def]
  exact WS.decodeStream_textFrames received fits

open Directory in
/-- **Messages reach their client.** In every run the client of each session gets a
stream of frames that reads back as messages accepted for its id, each once and in
the order of their acceptance; until a write has failed none of them is passed over;
and when then no write is outstanding they have all arrived. -/
theorem emits_received {answers : List (Answer Id Bytes)} {last : WebServer Id}
    (emits : (serverSystem Id).Emits answer {} answers last) {conn : Connection Id}
    (member : conn ∈ last.conns) :
    ∃ received, conn.world.delivered = received.map WS.textFrame ∧
      ((∀ text ∈ received, text.length < 2 ^ 63) →
        decodeStream WS.readFrame conn.world.delivered.flatten =
          some (received.map WS.textFrameRead)) ∧
      received.Sublist (accepted conn.id answers) ∧
      (conn.world.failed = false → received <+: accepted conn.id answers ∧
        (conn.world.outstanding = [] → received = accepted conn.id answers)) := by
  obtain ⟨received, delivered, inside, whole⟩ := delivered_accepted emits member
  exact ⟨received, delivered, decodeStream_delivered delivered, inside, whole⟩

/-- Two messages are pushed, and the first has been written. -/
def pushedTwice : List (ServerEvent Nat) :=
  [.addSession 1 true, .connection 0 .start, .push 1 (ascii "a"), .push 1 (ascii "b"),
    .connection 0 (.written ⟨⟨0, WS.textFrame (ascii "a")⟩, false⟩ none)]

open Directory in
theorem emits_received_twice : ∃ answers, ∃ last : WebServer Nat,
    (serverSystem Nat).Emits answer {} answers last ∧
    ∃ conn ∈ last.conns, accepted conn.id answers = [ascii "a", ascii "b"] ∧
    ∃ received, conn.world.delivered = received.map WS.textFrame ∧
      ((∀ text ∈ received, text.length < 2 ^ 63) →
        decodeStream WS.readFrame conn.world.delivered.flatten =
          some (received.map WS.textFrameRead)) ∧
      received.Sublist (accepted conn.id answers) ∧
      (conn.world.failed = false → received <+: accepted conn.id answers ∧
        (conn.world.outstanding = [] → received = accepted conn.id answers)) := by
  have replayed : (replay step? answer {} pushedTwice).map (fun (answers, last) =>
      last.conns.map fun conn => accepted conn.id answers) =
        some [[ascii "a", ascii "b"]] := by
    decide +kernel
  obtain ⟨⟨answers, last⟩, executed, both⟩ := Option.map_eq_some_iff.mp replayed
  have emits : (serverSystem Nat).Emits answer {} answers last := Emits.of_replay executed
  obtain ⟨conn, conns, pushed⟩ := List.map_eq_singleton_iff.mp both
  have member : conn ∈ last.conns := conns ▸ List.mem_singleton_self conn
  exact ⟨answers, last, emits, conn, member, pushed, emits_received emits member⟩

end WebServer

end Webserver.Server
