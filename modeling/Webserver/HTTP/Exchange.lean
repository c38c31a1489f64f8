import Webserver.Foundation.Termination
import Webserver.HTTP.Delivery
import Webserver.HTTP.Outgoing

/-! # A client that waits

A connection together with a client that sends a message when the answer to the one
before has arrived. The network cuts what is sent into reads as it likes. Every message
is answered, with what the handler of requests leaves for it; bytes that a connection
drops after the end of a message are never sent by such a client.
-/

namespace Webserver.HTTP

open Foundation System Incremental HTTPParser World

variable {env : Externals}

/-- A connection, the bytes sent to it and not yet read, the messages not yet sent, and
the responses that have arrived. -/
structure Exchange (env : Externals) where
  world : World env
  inflight : Bytes := []
  waiting : List Bytes := []
  answers : List HTTPResponse := []

/-- What happens next: the TLS handshake, a read of some bytes, or the end of a write. -/
inductive Turn where
  | secure
  | deliver (count : Nat)
  | answer

namespace Exchange

/-- The client sends its next message. -/
def send (exchange : Exchange env) : Exchange env :=
  match exchange.waiting with
  | [] => exchange
  | message :: later =>
      { exchange with inflight := exchange.inflight ++ message, waiting := later }

@[simp] theorem send_world (exchange : Exchange env) : exchange.send.world = exchange.world := by
  unfold send
  split <;> rfl

@[simp] theorem send_answers (exchange : Exchange env) :
    exchange.send.answers = exchange.answers := by
  unfold send
  split <;> rfl

/-- The turns of an exchange without errors. The id is for a write that creates a
session, of which there is none. -/
def step? (handler : HTTPRequestHandler env) (id : env.Pauuid) (exchange : Exchange env) :
    Turn → Option (Exchange env)
  | .secure => (exchange.world.step? (.handshake none)).map fun world => { exchange with world }
  | .deliver count =>
      if 0 < count ∧ count ≤ exchange.inflight.length then
        (exchange.world.step? (.read (.ok (exchange.inflight.take count)) handler)).map
          fun world => { exchange with world, inflight := exchange.inflight.drop count }
      else none
  | .answer =>
      exchange.world.pending.head?.bind fun write =>
        (exchange.world.step? (.write write none id)).map fun world =>
          send { exchange with world, answers := exchange.answers ++ [write.response] }

end Exchange

/-- A client with its messages, on a connection of a kind. -/
def exchangeSystem (handler : HTTPRequestHandler env) (id : env.Pauuid) {isHttp : Bool}
    {remoteIp : env.IPAddress} (messages : List (PlainMessage env isHttp remoteIp)) :
    System (Exchange env) Turn :=
  System.ofStep
    (· = .send { world := .start isHttp remoteIp, waiting := messages.map PlainMessage.bytes })
    (Exchange.step? handler id)

/-! ## One read -/

namespace World

variable {world : World env} {bytes : Bytes} {handler : HTTPRequestHandler env}

/-- A read that completes a request which opens no handshake. -/
theorem onRead_of_plain (good : (world.parseExit bytes).result = .ok .good)
    (plain : (world.parseExit bytes).request.isWSHandshake = .ok false)
    (caught : ∀ request response, (handler request response).exit ≠ .threwOther) :
    world.onRead bytes handler =
      (((world.receive bytes (world.parseExit bytes)).settle .good handler).call
        handler).doWrite := by
  have request : ((world.receive bytes (world.parseExit bytes)).settle .good
      handler).conn.request.isWSHandshake = .ok false := plain
  simp only [onRead, good, serve, request, handleRequest]
  cases ended : (handler _ _).exit with
  | returned => rfl
  | threwException => rfl
  | threwOther => exact (caught _ _ ended).elim

/-- A read that does not complete a request. -/
theorem onRead_of_indeterminate (outcome : (world.parseExit bytes).result = .ok .indeterminate) :
    world.onRead bytes handler = (world.receive bytes (world.parseExit bytes)).doRead := by
  simp only [onRead, outcome]

/-- A message is not complete before its last byte. -/
theorem PlainMessage.running {isHttp : Bool} {remoteIp : env.IPAddress}
    (message : PlainMessage env isHttp remoteIp) {front rest : Bytes}
    (split : front ++ rest = message.bytes) (more : rest ≠ []) :
    ∃ parser, run (parseStep env) {} front = .more parser := by
  obtain ⟨last, complete⟩ := message.complete
  have whole : run (parseStep env) {} (front ++ rest) = .done .good last [] := by
    rw [split]
    exact complete
  cases early : run (parseStep env) {} front with
  | more parser => exact ⟨parser, rfl⟩
  | done verdict after remaining =>
      rw [run_append_of_done rest early] at whole
      have none : remaining ++ rest = [] := (Progress.done.inj whole).2.2
      exact (more (List.append_eq_nil_iff.mp none).2).elim

theorem PlainMessage.bytes_ne_nil {isHttp : Bool} {remoteIp : env.IPAddress}
    (message : PlainMessage env isHttp remoteIp) : message.bytes ≠ [] := by
  obtain ⟨last, complete⟩ := message.complete
  intro empty
  rw [empty] at complete
  cases complete

end World

namespace Exchange

variable {isHttp : Bool} {remoteIp : env.IPAddress} {handler : HTTPRequestHandler env}
  {id : env.Pauuid} {messages : List (PlainMessage env isHttp remoteIp)}

/-- What the handler leaves for the request of a message. -/
def response (handler : HTTPRequestHandler env) (message : PlainMessage env isHttp remoteIp) :
    HTTPResponse :=
  (handler message.request {}).response

/-- Where an exchange stands: between messages, in the middle of one, or writing an
answer. -/
inductive Phase (handler : HTTPRequestHandler env)
    (messages : List (PlainMessage env isHttp remoteIp)) (exchange : Exchange env) : Prop where
  | finished : exchange.world.outstanding = [.read] ∨ exchange.world.outstanding = [.handshake] →
      exchange.inflight = [] → exchange.waiting = [] →
      exchange.answers = messages.map (response handler) → Phase handler messages exchange
  | sending (done : List (PlainMessage env isHttp remoteIp))
      (message : PlainMessage env isHttp remoteIp)
      (later : List (PlainMessage env isHttp remoteIp)) :
      exchange.world.outstanding = [.read] ∨ exchange.world.outstanding = [.handshake] →
      messages = done ++ message :: later → exchange.answers = done.map (response handler) →
      exchange.waiting = later.map PlainMessage.bytes → exchange.inflight ≠ [] →
      exchange.world.since ++ exchange.inflight = message.bytes →
      Phase handler messages exchange
  | answering (done : List (PlainMessage env isHttp remoteIp))
      (message : PlainMessage env isHttp remoteIp)
      (later : List (PlainMessage env isHttp remoteIp)) :
      exchange.world.outstanding = [.write ⟨.readNext, response handler message⟩] →
      messages = done ++ message :: later → exchange.answers = done.map (response handler) →
      exchange.waiting = later.map PlainMessage.bytes → exchange.inflight = [] →
      exchange.world.since = [] → Phase handler messages exchange

/-- The invariant of an exchange. -/
structure Going (handler : HTTPRequestHandler env)
    (messages : List (PlainMessage env isHttp remoteIp)) (exchange : Exchange env) : Prop where
  reachable : (httpSystem env).Reachable exchange.world
  isHttp : exchange.world.conn.isHttp = isHttp
  remoteIp : exchange.world.conn.remoteIp = remoteIp
  phase : Phase handler messages exchange

/-- The client sends the message after those answered, if there is one. -/
theorem send_phase {exchange : Exchange env} (done later : List (PlainMessage env isHttp remoteIp))
    (outstanding : exchange.world.outstanding = [.read] ∨
      exchange.world.outstanding = [.handshake])
    (split : messages = done ++ later) (answers : exchange.answers = done.map (response handler))
    (waiting : exchange.waiting = later.map PlainMessage.bytes) (empty : exchange.inflight = [])
    (since : exchange.world.since = []) : Phase handler messages exchange.send := by
  cases later with
  | nil =>
      have nothing : exchange.waiting = [] := waiting
      have same : exchange.send = exchange := by rw [send, nothing]
      rw [List.append_nil] at split
      rw [same]
      exact .finished outstanding empty nothing (split ▸ answers)
  | cons message later =>
      have next : exchange.send = { exchange with
          inflight := exchange.inflight ++ message.bytes
          waiting := later.map PlainMessage.bytes } := by
        rw [send, waiting]
        rfl
      rw [next, empty, List.nil_append]
      refine .sending done message later outstanding split answers rfl message.bytes_ne_nil ?_
      rw [since, List.nil_append]

section Steps

variable {before after : Exchange env}

/-- The read that brings the rest of a message is followed by the write of its answer. -/
theorem read_rest {world : World env} (synchronized : Synchronized world) (idle : Idle world)
    (isHttp_ : world.conn.isHttp = isHttp) (remoteIp_ : world.conn.remoteIp = remoteIp)
    (caught : ∀ request response, (handler request response).exit ≠ .threwOther)
    {message : PlainMessage env isHttp remoteIp} {taken : Bytes}
    (whole : world.since ++ taken = message.bytes) :
    (world.onRead taken handler).outstanding =
        [.write ⟨.readNext, response handler message⟩] ∧
      (world.onRead taken handler).since = [] := by
  obtain ⟨result, request⟩ := synchronized.parseExit idle.inside taken
  rw [isHttp_, remoteIp_, whole] at result request
  have good := result.trans message.accepted
  have plain : (world.parseExit taken).request.isWSHandshake = .ok false := by
    rw [request]
    exact message.plain
  rw [onRead_of_plain good plain caught]
  refine ⟨?_, rfl⟩
  rw [response, PlainMessage.request, ← request]
  exact congrArg (· ++ _) idle.quiet

/-- The read that brings a part of a message, but not all that is left of it, is
followed by another. -/
theorem read_part {world : World env} (synchronized : Synchronized world) (idle : Idle world)
    {message : PlainMessage env isHttp remoteIp} {taken rest : Bytes}
    (parts : (world.since ++ taken) ++ rest = message.bytes) (more : rest ≠ []) :
    (world.onRead taken handler).outstanding = [.read] ∧
      (world.onRead taken handler).since = world.since ++ taken := by
  obtain ⟨result, -⟩ := synchronized.parseExit idle.inside taken
  obtain ⟨parser, running⟩ := message.running parts more
  have outcome : (world.parseExit taken).result = .ok .indeterminate := by
    rw [result, parse_of_more _ running]
  rw [onRead_of_indeterminate outcome]
  exact ⟨congrArg (· ++ _) idle.quiet, rfl⟩

/-- What a read brings is the next part of the message that is being sent. -/
theorem Going.deliver (going : Going handler messages before)
    (caught : ∀ request response, (handler request response).exit ≠ .threwOther) {count : Nat}
    (some_ : 0 < count) (within : count ≤ before.inflight.length) {world : World env}
    (moved : before.world.step? (.read (.ok (before.inflight.take count)) handler) = some world) :
    Going handler messages { before with world, inflight := before.inflight.drop count } ∧
      .handshake ∉ world.outstanding := by
  have duplex := halfDuplex_of_reachable going.reachable
  obtain ⟨isHttp, remoteIp⟩ := step_conn moved
  have goes (phase : Phase handler messages
      { before with world, inflight := before.inflight.drop count }) :
      Going handler messages { before with world, inflight := before.inflight.drop count } :=
    ⟨going.reachable.step moved, isHttp.trans going.isHttp, remoteIp.trans going.remoteIp, phase⟩
  cases step_cases moved with
  | received bytes handler reading sized =>
      have idle := duplex.complete reading
      cases going.phase with
      | finished outstanding empty =>
          rw [empty] at within
          exact absurd some_ (Nat.not_lt.mpr within)
      | answering done message later outstanding =>
          rw [outstanding] at reading
          simp at reading
      | sending done message later outstanding split answers waiting nonempty parts =>
          have same : Synchronized before.world := synchronized_of_reachable going.reachable
          have synchronized : Synchronized (before.world.complete .read) := same
          have pieces : (before.world.complete .read).since ++ before.inflight.take count ++
              before.inflight.drop count = message.bytes := by
            rw [List.append_assoc, List.take_append_drop]
            exact parts
          by_cases last : before.inflight.drop count = []
          · rw [last, List.append_nil] at pieces
            obtain ⟨writing, settled⟩ :=
              read_rest synchronized idle going.isHttp going.remoteIp caught pieces
            refine ⟨goes (.answering done message later writing split answers waiting last
              settled), ?_⟩
            rw [writing]
            simp
          · obtain ⟨reading, since⟩ := read_part synchronized idle pieces last
            have further := (congrArg (· ++ before.inflight.drop count) since).trans pieces
            refine ⟨goes (.sending done message later (Or.inl reading) split answers waiting last
              further), ?_⟩
            rw [reading]
            simp

/-- The end of a write brings an answer, and the client sends its next message. -/
theorem Going.answer (going : Going handler messages before) {write : Write} {world : World env}
    (first : before.world.pending.head? = some write)
    (moved : before.world.step? (.write write none id) = some world) :
    Going handler messages
        (send { before with world, answers := before.answers ++ [write.response] }) ∧
      .handshake ∉ world.outstanding ∧ before.answers.length < messages.length := by
  obtain ⟨isHttp, remoteIp⟩ := step_conn moved
  have unwritten (outstanding : before.world.outstanding = [.read] ∨
      before.world.outstanding = [.handshake]) : before.world.pending = [] := by
    rcases outstanding with reading | securing
    · rw [pending, reading]
      rfl
    · rw [pending, securing]
      rfl
  cases going.phase with
  | finished outstanding =>
      rw [unwritten outstanding] at first
      cases first
  | sending done message later outstanding =>
      rw [unwritten outstanding] at first
      cases first
  | answering done message later outstanding split answers waiting empty since =>
      have only : before.world.pending = [⟨.readNext, response handler message⟩] := by
        rw [pending, outstanding]
        rfl
      rw [only] at first
      obtain rfl := Option.some.inj first
      have idle := (halfDuplex_of_reachable going.reachable).complete
        (outstanding ▸ List.mem_singleton_self _)
      have reading : world.outstanding = [.read] ∧ world.since = [] := by
        cases step_cases moved with
        | written _ _ _ member => exact ⟨congrArg (· ++ [AsyncOp.read]) idle.quiet, since⟩
      refine ⟨⟨?_, ?_, ?_, ?_⟩, ?_, ?_⟩
      · rw [send_world]
        exact going.reachable.step moved
      · rw [send_world]
        exact isHttp.trans going.isHttp
      · rw [send_world]
        exact remoteIp.trans going.remoteIp
      · refine send_phase (done ++ [message]) later (Or.inl reading.1) ?_ ?_ waiting empty
          reading.2
        · rw [split, List.append_assoc, List.singleton_append]
        · rw [List.map_append, answers, List.map_singleton]
      · rw [reading.1]
        simp
      · rw [answers, List.length_map, split, List.length_append, List.length_cons]
        omega

/-- The TLS handshake comes first. -/
theorem Going.secure (going : Going handler messages before) {world : World env}
    (moved : before.world.step? (.handshake none) = some world) :
    Going handler messages { before with world } ∧ .handshake ∈ before.world.outstanding ∧
      .handshake ∉ world.outstanding := by
  have duplex := halfDuplex_of_reachable going.reachable
  obtain ⟨isHttp, remoteIp⟩ := step_conn moved
  have goes (phase : Phase handler messages { before with world }) :
      Going handler messages { before with world } :=
    ⟨going.reachable.step moved, isHttp.trans going.isHttp, remoteIp.trans going.remoteIp, phase⟩
  cases step_cases moved with
  | secured member =>
      have reading : ((before.world.complete .handshake).doRead).outstanding = [.read] :=
        congrArg (· ++ [AsyncOp.read]) (duplex.complete member).quiet
      refine ⟨goes ?_, member, by simp [reading]⟩
      cases going.phase with
      | finished outstanding empty waiting answers =>
          exact .finished (Or.inl reading) empty waiting answers
      | sending done message later outstanding split answers waiting nonempty parts =>
          exact .sending done message later (Or.inl reading) split answers waiting nonempty parts
      | answering done message later outstanding =>
          rw [outstanding] at member
          simp at member

/-- What is left to do: bytes to read, messages to answer, and the TLS handshake. -/
def work (count : Nat) (exchange : Exchange env) : Nat :=
  exchange.inflight.length + exchange.waiting.flatten.length +
    (count - exchange.answers.length) + exchange.world.outstanding.count .handshake

/-- The bytes to read stay the same when a message is sent. -/
theorem send_bytes (exchange : Exchange env) :
    exchange.send.inflight.length + exchange.send.waiting.flatten.length =
      exchange.inflight.length + exchange.waiting.flatten.length := by
  unfold send
  split
  · rfl
  · next waiting => simp [waiting, Nat.add_assoc]

/-- Every turn keeps the invariant and leaves less to do. -/
theorem Going.step (going : Going handler messages before)
    (caught : ∀ request response, (handler request response).exit ≠ .threwOther) {turn : Turn}
    (moved : before.step? handler id turn = some after) :
    Going handler messages after ∧ after.work messages.length < before.work messages.length := by
  cases turn with
  | secure =>
      obtain ⟨world, stepped, rfl⟩ := Option.map_eq_some_iff.mp moved
      obtain ⟨goes, was, isnt⟩ := going.secure stepped
      have positive := List.count_pos_iff.mpr was
      refine ⟨goes, ?_⟩
      simp only [work, List.count_eq_zero_of_not_mem isnt]
      omega
  | deliver count =>
      simp only [step?] at moved
      split_ifs at moved with enabled
      obtain ⟨world, stepped, rfl⟩ := Option.map_eq_some_iff.mp moved
      obtain ⟨goes, isnt⟩ := going.deliver caught enabled.1 enabled.2 stepped
      refine ⟨goes, ?_⟩
      simp only [work, List.count_eq_zero_of_not_mem isnt, List.length_drop]
      omega
  | answer =>
      obtain ⟨write, first, rest⟩ := Option.bind_eq_some_iff.mp moved
      obtain ⟨world, stepped, rfl⟩ := Option.map_eq_some_iff.mp rest
      obtain ⟨goes, isnt, fewer⟩ := going.answer first stepped
      refine ⟨goes, ?_⟩
      have bytes := send_bytes
        { before with world, answers := before.answers ++ [write.response] }
      simp only [work, send_world, send_answers, List.count_eq_zero_of_not_mem isnt,
        List.length_append, List.length_singleton] at bytes ⊢
      omega

/-- A client that can do nothing more has its answers. -/
theorem Going.answers_of_stuck (going : Going handler messages before)
    (stuck : (exchangeSystem handler id messages).Stuck before) :
    before.answers = messages.map (response handler) := by
  cases going.phase with
  | finished outstanding empty waiting answers => exact answers
  | sending done message later outstanding split answers waiting nonempty parts =>
      have positive : 1 ≤ before.inflight.length := List.length_pos_of_ne_nil nonempty
      rcases outstanding with reading | securing
      · have sized : (before.inflight.take 1).length ≤ maxBufferLength :=
          (List.length_take_le 1 _).trans (by decide)
        have stepped := step_read (reading ▸ List.mem_singleton_self _) sized handler
        have moved : before.step? handler id (.deliver 1) = some { before with
            world := (before.world.complete .read).onRead (before.inflight.take 1) handler
            inflight := before.inflight.drop 1 } := by
          simp only [step?, if_pos (And.intro Nat.one_pos positive), stepped, Option.map_some]
        exact (stuck _ _ moved).elim
      · have stepped : before.world.step? (.handshake none) =
            some (before.world.complete .handshake).doRead :=
          if_pos (securing ▸ List.mem_singleton_self _)
        have moved : before.step? handler id .secure =
            some { before with world := (before.world.complete .handshake).doRead } := by
          simp only [step?, stepped, Option.map_some]
        exact (stuck _ _ moved).elim
  | answering done message later outstanding split answers waiting empty since =>
      have first : before.world.pending.head? =
          some ⟨.readNext, response handler message⟩ := by
        rw [pending, outstanding]
        rfl
      have stepped : before.world.step? (.write ⟨.readNext, response handler message⟩ none id) =
          some ((before.world.complete (.write ⟨.readNext, response handler message⟩)).onWrite
            .readNext none id) := if_pos (outstanding ▸ List.mem_singleton_self _)
      have moved : before.step? handler id .answer = some (send { before with
          world := (before.world.complete (.write ⟨.readNext, response handler message⟩)).onWrite
            .readNext none id
          answers := before.answers ++ [response handler message] }) := by
        simp only [step?, first, Option.bind_some, stepped, Option.map_some]
      exact (stuck _ _ moved).elim

end Steps

theorem start_going : Going handler messages
    (send { world := .start isHttp remoteIp, waiting := messages.map PlainMessage.bytes }) := by
  refine ⟨?_, ?_, ?_, ?_⟩
  · rw [send_world]
    exact .initial ⟨isHttp, remoteIp, rfl⟩
  · rw [send_world]
    cases isHttp <;> rfl
  · rw [send_world]
    cases isHttp <;> rfl
  · refine send_phase [] messages ?_ rfl rfl rfl rfl ?_
    · cases isHttp with
      | true => exact Or.inl rfl
      | false => exact Or.inr rfl
    · cases isHttp <;> rfl

/-- The answers that have arrived are the first ones. -/
theorem Going.answers_prefix {exchange : Exchange env} (going : Going handler messages exchange) :
    exchange.answers <+: messages.map (response handler) := by
  cases going.phase with
  | finished outstanding empty waiting answers =>
      exact answers ▸ List.prefix_refl _
  | sending done message later outstanding split answers =>
      rw [answers, split, List.map_append]
      exact List.prefix_append _ _
  | answering done message later outstanding split answers =>
      rw [answers, split, List.map_append]
      exact List.prefix_append _ _

/-- **Every message is answered.** A client that sends a message when the answer to the
one before has arrived gets, however its bytes are cut into reads, what the handler
leaves for the request of each message, in order; an exchange without errors ends after
a bounded number of turns, with all the answers; and it can always be completed. -/
theorem reachable_answered {exchange : Exchange env}
    (caught : ∀ request response, (handler request response).exit ≠ .threwOther)
    (reachable : (exchangeSystem handler id messages).Reachable exchange) :
    exchange.answers <+: messages.map (response handler) ∧
    (∀ turns last, (exchangeSystem handler id messages).Run exchange turns last →
      turns.length ≤ exchange.work messages.length ∧
        ((exchangeSystem handler id messages).Stuck last →
          last.answers = messages.map (response handler))) ∧
    ∃ turns last, (exchangeSystem handler id messages).Run exchange turns last ∧
      last.answers = messages.map (response handler) := by
  have going : Going handler messages exchange := by
    apply reachable.invariant
    · rintro start rfl
      exact start_going
    · intro before event after _ going moved
      exact (going.step caught moved).1
  refine ⟨going.answers_prefix, ?_, ?_⟩
  · intro turns last run
    obtain ⟨bound, ended⟩ := run.length_le (fun going moved => going.step caught moved) going
    exact ⟨Nat.le_of_add_right_le bound, ended.answers_of_stuck⟩
  · obtain ⟨turns, last, run, -, answers⟩ := exists_run_of_progress
      (fun going moved => going.step caught moved)
      (fun going stuck => going.answers_of_stuck stuck) going
    exact ⟨turns, last, run, answers⟩

/-- Two messages, the first of them answered after two reads. -/
theorem reachable_answered_get :
    let messages := [PlainMessage.get, PlainMessage.get]
    ∃ exchange, (exchangeSystem (idleHandler _) [] messages).Reachable exchange ∧
      exchange.answers = [{}] ∧
      exchange.answers <+: messages.map (response (idleHandler _)) ∧
      (∀ turns last, (exchangeSystem (idleHandler _) [] messages).Run exchange turns last →
        turns.length ≤ exchange.work messages.length ∧
          ((exchangeSystem (idleHandler _) [] messages).Stuck last →
            last.answers = messages.map (response (idleHandler _)))) ∧
      ∃ turns last, (exchangeSystem (idleHandler _) [] messages).Run exchange turns last ∧
        last.answers = messages.map (response (idleHandler _)) := by
  intro messages
  let source : Exchange .sample :=
    send { world := .start true [], waiting := messages.map PlainMessage.bytes }
  let turns : List Turn := [.deliver 5, .deliver 22, .answer]
  have executes : ((turns.foldlM (step? (idleHandler _) []) source).map Exchange.answers) =
      some [{}] := by decide +kernel
  obtain ⟨exchange, executed, answered⟩ := Option.map_eq_some_iff.mp executes
  have reachable : (exchangeSystem (idleHandler _) [] messages).Reachable exchange :=
    (Run.of_foldlM executed).reachable rfl
  have caught : ∀ request response, (idleHandler .sample request response).exit ≠ .threwOther := by
    simp [idleHandler]
  exact ⟨exchange, reachable, answered, reachable_answered caught reachable⟩

end Exchange

end Webserver.HTTP
