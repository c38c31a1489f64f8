import Webserver.HTTP.KeepAlive

/-! # Delivery of a stream of requests

The requests a reused connection delivers while every operation succeeds are
those of the calls of `Parse` on the successive reads. When the end of every
message is the end of a read, these are the requests of the messages, each once
and in order. A read that goes on after the end of a message is cut off there:
its other bytes are zeroed and never parsed.
-/

namespace Webserver.HTTP

open Foundation Schema HTTPParser Incremental

variable {env : Externals}

/-- The bytes a completed read brought. -/
def Event.bytes? : Event env → Option Bytes
  | .read (.ok bytes) _ => some bytes
  | _ => none

/-- The successive reads of a run. -/
def readsOf (events : List (Event env)) : List Bytes := events.filterMap Event.bytes?

namespace World

/-- The operation succeeds, and no exception leaves the call of `HandleRequest` made
then, if one is made, but those its caller catches. -/
def Succeeds (world : World env) : Event env → Prop
  | .handshake error => error = none
  | .read (.error _) _ => False
  | .read (.ok bytes) handler =>
      (world.parseExit bytes).result = .ok .good →
        (world.parseExit bytes).request.isWSHandshake = .ok false →
          (handler (world.parseExit bytes).request {}).exit ≠ .threwOther
  | .write _ error _ => error = none

instance (world : World env) : (event : Event env) → Decidable (world.Succeeds event)
  | .handshake error => inferInstanceAs (Decidable (error = none))
  | .read (.error _) _ => inferInstanceAs (Decidable False)
  | .read (.ok _) _ => inferInstanceAs (Decidable (_ → _ → _))
  | .write _ error _ => inferInstanceAs (Decidable (error = none))

/-- The calls of `Parse` on successive reads that end with a verdict. -/
def settledExits (request : HTTPRequest env) (parser : HTTPParser) :
    List Bytes → List (ParseExit env)
  | [] => []
  | read :: reads =>
      let exit := parser.parse request read
      match exit.result with
      | .ok .indeterminate => settledExits request exit.parser reads
      | _ => exit :: settledExits request exit.parser reads

theorem settledExits_cons_of_indeterminate {request : HTTPRequest env} {parser : HTTPParser}
    {read : Bytes} (reads : List Bytes)
    (outcome : (parser.parse request read).result = .ok .indeterminate) :
    settledExits request parser (read :: reads) =
      settledExits request (parser.parse request read).parser reads := by
  simp only [settledExits, outcome]

theorem settledExits_cons_of_settled {request : HTTPRequest env} {parser : HTTPParser}
    {read : Bytes} (reads : List Bytes)
    (settled : (parser.parse request read).result ≠ .ok .indeterminate) :
    settledExits request parser (read :: reads) =
      parser.parse request read ::
        settledExits request (parser.parse request read).parser reads := by
  simp only [settledExits]

/-- A verdict after which the connection goes on reading. -/
def Ordinary (exit : ParseExit env) : Prop :=
  exit.result = .ok .bad ∨
    (exit.result = .ok .good ∧ exit.request.isWSHandshake = .ok false)

/-! ## Runs without errors -/

/-- The operations a connection has outstanding while it serves requests. -/
def Serving (world : World env) : Prop :=
  world.outstanding = [.handshake] ∨ world.outstanding = [.read] ∨
    ∃ response, world.outstanding = [.write ⟨.readNext, response⟩]

/-- A successful completion other than a read is followed by a read. -/
theorem Serving.step_quiet {before after : World env} {event : Event env}
    (serving : Serving before) (succeeds : before.Succeeds event) (quiet : event.bytes? = none)
    (moved : before.step? event = some after) :
    after = { before with outstanding := [.read] } := by
  cases step_cases moved with
  | secured member =>
      rcases serving with shape | shape | ⟨response, shape⟩
      · simp [doRead, complete, shape]
      · simp [shape] at member
      · simp [shape] at member
  | unsecured code member => cases succeeds
  | readFailed code handler member => exact succeeds.elim
  | received bytes handler member sized => cases quiet
  | written write error id member =>
      rcases serving with shape | shape | ⟨response, shape⟩
      · simp [shape] at member
      · simp [shape] at member
      · have same : write = ⟨.readNext, response⟩ := by simpa [shape] using member
        rw [same, show error = none from succeeds]
        simp [onWrite, doRead, complete, shape]

/-- A completion that brought bytes is that of a read. -/
theorem received_of_bytes {before after : World env} {event : Event env} {bytes : Bytes}
    (read : event.bytes? = some bytes) (moved : before.step? event = some after) :
    ∃ handler, .read ∈ before.outstanding ∧ event = .read (.ok bytes) handler ∧
      after = (before.complete .read).onRead bytes handler := by
  cases step_cases moved with
  | secured member => cases read
  | unsecured code member => cases read
  | readFailed code handler member => cases read
  | received brought handler member sized =>
      cases read
      exact ⟨handler, member, rfl, rfl⟩
  | written write error id member => cases read

/-- The connection goes on: one operation is outstanding, the next read or one whose
success starts it. -/
structure GoesOn (world : World env) : Prop where
  opened : world.closed = false
  caught : world.escaped = false
  reads : ∃ op, world.outstanding = [op] ∧ (op = .read ∨
    ∀ event after, world.step? event = some after → world.Succeeds event →
      after.outstanding = [.read])

theorem Serving.goesOn {world : World env} (serving : Serving world)
    (opened : world.closed = false) (caught : world.escaped = false) : GoesOn world := by
  have started : .read ∉ world.outstanding → ∀ event after, world.step? event = some after →
      world.Succeeds event → after.outstanding = [.read] := by
    intro idle event after moved succeeds
    cases read : event.bytes? with
    | none => rw [serving.step_quiet succeeds read moved]
    | some bytes =>
        obtain ⟨handler, reading, -⟩ := received_of_bytes read moved
        exact (idle reading).elim
  refine ⟨opened, caught, ?_⟩
  rcases serving with shape | shape | ⟨response, shape⟩
  · exact ⟨.handshake, shape, Or.inr (started (by simp [shape]))⟩
  · exact ⟨.read, shape, Or.inl rfl⟩
  · exact ⟨.write ⟨.readNext, response⟩, shape, Or.inr (started (by simp [shape]))⟩

theorem Serving.complete_read {world : World env} (serving : Serving world)
    (reading : .read ∈ world.outstanding) : (world.complete .read).outstanding = [] := by
  rcases serving with shape | shape | ⟨response, shape⟩
  · simp [shape] at reading
  · simp [complete, shape]
  · simp [shape] at reading

/-- What a served read changes of the members that matter for later reads. -/
structure Served (before after : World env) (exit : ParseExit env) : Prop where
  serving : Serving after
  isHttp : after.conn.isHttp = before.conn.isHttp
  remoteIp : after.conn.remoteIp = before.conn.remoteIp
  parser : after.conn.requestParser = exit.parser
  closed : after.closed = before.closed
  escaped : after.escaped = before.escaped
  handed : after.handed = before.handed ++ handedOf exit

theorem served_of_indeterminate {world : World env} {bytes : Bytes}
    (handler : HTTPRequestHandler env) (idle : world.outstanding = [])
    (outcome : (world.parseExit bytes).result = .ok .indeterminate) :
    Served world (world.onRead bytes handler) (world.parseExit bytes) ∧
      (world.onRead bytes handler).writes = world.writes := by
  have handed := onRead_handed bytes handler world
  have after : world.onRead bytes handler =
      (world.receive bytes (world.parseExit bytes)).doRead := by
    simp only [onRead, outcome]
  rw [after] at handed ⊢
  refine ⟨⟨Or.inr (Or.inl ?_), rfl, rfl, rfl, rfl, rfl, handed⟩, rfl⟩
  simp [doRead, receive, idle]

theorem served_of_ordinary {world : World env} {bytes : Bytes}
    {handler : HTTPRequestHandler env} (idle : world.outstanding = [])
    (caught : (world.parseExit bytes).result = .ok .good →
      (world.parseExit bytes).request.isWSHandshake = .ok false →
        (handler (world.parseExit bytes).request {}).exit ≠ .threwOther)
    (ordinary : Ordinary (world.parseExit bytes)) :
    Served world (world.onRead bytes handler) (world.parseExit bytes) ∧
      (world.onRead bytes handler).writes.length = world.writes.length + 1 := by
  have handed := onRead_handed bytes handler world
  rcases ordinary with outcome | ⟨outcome, plain⟩
  · have after : world.onRead bytes handler =
        ((world.receive bytes (world.parseExit bytes)).settle .bad handler).replyBad := by
      simp only [onRead, outcome]
    rw [after] at handed ⊢
    refine ⟨⟨Or.inr (Or.inr ⟨HTTPResponse.stockReply .badRequest, ?_⟩), rfl, rfl, rfl, rfl, rfl,
      handed⟩, ?_⟩
    · simp [replyBad, doWrite, asyncWrite, settle, receive, idle]
    · simp [replyBad, doWrite, asyncWrite, settle, receive]
  · have request : ((world.receive bytes (world.parseExit bytes)).settle .good
        handler).conn.request.isWSHandshake = .ok false := plain
    have after : world.onRead bytes handler =
        (((world.receive bytes (world.parseExit bytes)).settle .good handler).call
          handler).doWrite := by
      simp only [onRead, outcome, serve, request, handleRequest]
      cases ended : (handler _ _).exit with
      | returned => rfl
      | threwException => rfl
      | threwOther => exact (caught outcome plain ended).elim
    rw [after] at handed ⊢
    refine ⟨⟨Or.inr (Or.inr ⟨(handler (world.parseExit bytes).request {}).response, ?_⟩), rfl,
      rfl, rfl, rfl, rfl, handed⟩, ?_⟩
    · simp [doWrite, asyncWrite, call, settle, receive, idle]
    · simp [doWrite, asyncWrite, call, settle, receive]

/-- **The requests of a run.** While every operation succeeds and every verdict
is answered by an ordinary reply, a connection hands over the requests of the
calls of `Parse` on its successive reads, starts one write for each, and goes on. -/
theorem run_serving {before after : World env} {events : List (Event env)}
    (run : ((httpSystem env).restrict fun before event _ => before.Succeeds event).Run
      before events after) (serving : Serving before)
    (ordinary : ∀ exit ∈ settledExits (requestOf before.conn.isHttp before.conn.remoteIp)
      before.conn.requestParser (readsOf events), Ordinary exit) :
    let exits := settledExits (requestOf before.conn.isHttp before.conn.remoteIp)
      before.conn.requestParser (readsOf events)
    after.handed = before.handed ++ exits.flatMap handedOf ∧
      after.writes.length = before.writes.length + exits.length ∧
      Serving after ∧ after.closed = before.closed ∧ after.escaped = before.escaped := by
  induction run with
  | nil state => simp [readsOf, settledExits, serving]
  | @cons source middle target event events moved rest ih =>
      have first : source.Succeeds event := moved.2
      have enabled : source.step? event = some middle := moved.1
      cases read : event.bytes? with
      | none =>
          have reads : readsOf (event :: events) = readsOf events := by simp [readsOf, read]
          have same := serving.step_quiet first read enabled
          rw [reads] at ordinary ⊢
          subst same
          exact ih (Or.inr (Or.inl rfl)) ordinary
      | some bytes =>
          have reads : readsOf (event :: events) = bytes :: readsOf events := by
            simp [readsOf, read]
          rw [reads] at ordinary ⊢
          obtain ⟨handler, reading, rfl, rfl⟩ := received_of_bytes read enabled
          have idle := serving.complete_read reading
          by_cases outcome : (source.conn.requestParser.parse
              (requestOf source.conn.isHttp source.conn.remoteIp) bytes).result =
                .ok .indeterminate
          · obtain ⟨served, writes⟩ := served_of_indeterminate handler idle outcome
            rw [settledExits_cons_of_indeterminate _ outcome] at ordinary ⊢
            rw [served.isHttp, served.remoteIp, served.parser] at ih
            rw [served.closed, served.escaped] at ih
            obtain ⟨handed, count, goes⟩ := ih served.serving ordinary
            have none : handedOf ((source.complete .read).parseExit bytes) = [] := by
              unfold handedOf
              rw [show ((source.complete .read).parseExit bytes).result = _ from outcome]
            rw [served.handed, none, List.append_nil] at handed
            rw [writes] at count
            exact ⟨handed, count, goes⟩
          · rw [settledExits_cons_of_settled _ outcome] at ordinary ⊢
            have plain := ordinary _ List.mem_cons_self
            obtain ⟨served, writes⟩ := served_of_ordinary idle first plain
            rw [served.isHttp, served.remoteIp, served.parser] at ih
            rw [served.closed, served.escaped] at ih
            obtain ⟨handed, count, goes⟩ := ih served.serving
              (fun exit member => ordinary exit (List.mem_cons_of_mem _ member))
            rw [served.handed, List.append_assoc] at handed
            rw [writes] at count
            refine ⟨handed, ?_, goes⟩
            rw [count, List.length_cons, Nat.add_assoc, Nat.add_comm 1]
            rfl

/-! ## Streams of complete messages -/

/-- A message that `Parse` alone accepts as a whole, and that is no WebSocket
handshake, on a connection of a kind. -/
structure PlainMessage (env : Externals) (isHttp : Bool) (remoteIp : env.IPAddress) where
  bytes : Bytes
  complete : ∃ last, parseImpl env {} bytes = .done .good last []
  accepted : (HTTPParser.parse {} (requestOf isHttp remoteIp) bytes).result = .ok .good
  plain : (HTTPParser.parse {} (requestOf isHttp remoteIp) bytes).request.isWSHandshake = .ok false

/-- The request a message carries. -/
def PlainMessage.request {isHttp : Bool} {remoteIp : env.IPAddress}
    (message : PlainMessage env isHttp remoteIp) : HTTPRequest env :=
  (HTTPParser.parse {} (requestOf isHttp remoteIp) message.bytes).request

/-- Reads in which the end of every message is the end of a read. -/
def Aligned (reads messages : List Bytes) : Prop :=
  ∃ groups : List (List Bytes), groups.flatten = reads ∧ groups.map List.flatten = messages

theorem settledExits_of_more (request : HTTPRequest env) {parser middle : HTTPParser}
    {before : List Bytes} (running : run (parseStep env) parser before.flatten = .more middle)
    (later : List Bytes) :
    settledExits request parser (before ++ later) = settledExits request middle later := by
  induction before generalizing parser with
  | nil =>
      cases running
      rfl
  | cons read before ih =>
      rw [List.flatten_cons] at running
      obtain ⟨next, first, rest⟩ := run_more_of_append running
      have exit := parse_of_more request first
      have outcome : (parser.parse request read).result = .ok .indeterminate := by rw [exit]
      rw [List.cons_append, settledExits_cons_of_indeterminate _ outcome, exit]
      exact ih rest

/-- The reads of one message end with one verdict, that of the whole message, and
leave the parser reset. -/
theorem settledExits_message (request : HTTPRequest env) {group : List Bytes}
    {last : HTTPParser} (complete : run (parseStep env) {} group.flatten = .done .good last [])
    (nonempty : ∀ read ∈ group, read ≠ []) (later : List Bytes) :
    ∃ exit, settledExits request {} (group ++ later) = exit :: settledExits request {} later ∧
      exit.result = (HTTPParser.parse {} request group.flatten).result ∧
      exit.request = (HTTPParser.parse {} request group.flatten).request := by
  obtain ⟨before, chunk, after, middle, remaining, rfl, quiet, decided, rest⟩ :=
    run_flatten_done complete
  have nothing : after = [] := by
    have empty := (List.append_eq_nil_iff.mp rest.symm).2
    rw [List.flatten_eq_nil_iff] at empty
    apply List.eq_nil_iff_forall_not_mem.mpr
    intro read member
    exact nonempty read (by simp [member]) (empty read member)
  subst nothing
  have exit := parse_of_done request decided
  have settled : (middle.parse request chunk).result ≠ .ok .indeterminate := by
    rw [exit]
    exact conclude_ne_indeterminate request chunk last .good
  have reset : (middle.parse request chunk).parser = {} := by rw [exit, conclude_good]
  have whole := parse_of_done request complete
  have congr := conclude_congr request chunk (before ++ [chunk]).flatten last .good
  refine ⟨middle.parse request chunk, ?_, ?_, ?_⟩
  · rw [List.append_assoc, settledExits_of_more request quiet, List.singleton_append,
      settledExits_cons_of_settled _ settled, reset]
  · rw [exit, whole]
    exact congr.1
  · rw [exit, whole]
    exact congr.2.1

section Stream

variable {isHttp : Bool} {remoteIp : env.IPAddress}

/-- Aligned reads end with one verdict for each message, in order. -/
theorem settledExits_aligned (messages : List (PlainMessage env isHttp remoteIp))
    {groups : List (List Bytes)}
    (carried : groups.map List.flatten = messages.map PlainMessage.bytes)
    (nonempty : ∀ read ∈ groups.flatten, read ≠ []) :
    let exits := settledExits (requestOf isHttp remoteIp) {} groups.flatten
    (∀ exit ∈ exits, Ordinary exit) ∧ exits.length = messages.length ∧
      exits.flatMap handedOf = messages.map (fun message => (message.request, {})) := by
  induction groups generalizing messages with
  | nil =>
      obtain rfl : messages = [] := by simpa using carried.symm
      simp [settledExits]
  | cons group groups ih =>
      cases messages with
      | nil => simp at carried
      | cons message messages =>
          simp only [List.map_cons, List.cons.injEq] at carried
          obtain ⟨here, there⟩ := carried
          obtain ⟨last, complete⟩ := message.complete
          rw [← here] at complete
          have sized : ∀ read ∈ group, read ≠ [] :=
            fun read member => nonempty read (by simp [member])
          obtain ⟨ordinary, count, handed⟩ := ih messages there
            (fun read member => nonempty read (by simp [List.mem_flatten.mp member]))
          obtain ⟨exit, exits, result, request⟩ := settledExits_message
            (requestOf isHttp remoteIp) complete sized groups.flatten
          have accepted := message.accepted
          have plain := message.plain
          rw [← here] at accepted plain
          rw [← result] at accepted
          rw [← request] at plain
          have same : exit.request = message.request := by
            rw [request, here]
            rfl
          simp only [List.flatten_cons]
          rw [exits]
          refine ⟨?_, ?_, ?_⟩
          · intro other member
            rcases List.mem_cons.mp member with rfl | tail
            · exact Or.inr ⟨accepted, plain⟩
            · exact ordinary other tail
          · rw [List.length_cons, List.length_cons, count]
          · rw [List.flatMap_cons, handed, List.map_cons, ← same]
            simp only [handedOf, accepted, plain, List.singleton_append]

/-- **Delivery of an aligned stream.** In every run without errors in which the
reads carry complete messages and the end of every message is the end of a read,
`HandleRequest` is called once for each message, in order, with its request, one
response is written for each, and the connection goes on to the next read. -/
theorem run_aligned (messages : List (PlainMessage env isHttp remoteIp))
    {events : List (Event env)} {last : World env}
    (run : ((httpSystem env).restrict fun before event _ => before.Succeeds event).Run
      (start isHttp remoteIp) events last)
    (nonempty : ∀ read ∈ readsOf events, read ≠ [])
    (aligned : Aligned (readsOf events) (messages.map PlainMessage.bytes)) :
    last.handed.map Prod.fst = messages.map PlainMessage.request ∧
      last.writes.length = messages.length ∧ GoesOn last := by
  obtain ⟨groups, reads, carried⟩ := aligned
  rw [← reads] at nonempty
  obtain ⟨ordinary, count, handed⟩ := settledExits_aligned messages carried nonempty
  have fresh : (start isHttp remoteIp : World env).handed = [] ∧
      (start isHttp remoteIp : World env).writes = [] ∧
      (start isHttp remoteIp : World env).conn.isHttp = isHttp ∧
      (start isHttp remoteIp : World env).conn.remoteIp = remoteIp ∧
      (start isHttp remoteIp : World env).conn.requestParser = {} ∧
      (start isHttp remoteIp : World env).closed = false ∧
      (start isHttp remoteIp : World env).escaped = false ∧
      Serving (start isHttp remoteIp : World env) := by
    cases isHttp with
    | true => exact ⟨rfl, rfl, rfl, rfl, rfl, rfl, rfl, Or.inr (Or.inl rfl)⟩
    | false => exact ⟨rfl, rfl, rfl, rfl, rfl, rfl, rfl, Or.inl rfl⟩
  obtain ⟨unhanded, unwritten, same, origin, parser, opened, caught, serving⟩ := fresh
  have served := run_serving run serving
  rw [same, origin, parser, ← reads, unhanded, unwritten, opened, caught] at served
  obtain ⟨calls, writes, still, closed, escaped⟩ := served ordinary
  refine ⟨?_, ?_, still.goesOn closed escaped⟩
  · rw [calls, handed]
    simp
  · rw [writes, count]
    simp

end Stream

def PlainMessage.get : PlainMessage .sample true [] where
  bytes := ascii "GET / HTTP/1.0\r\nHost: a\r\n\r\n"
  complete :=
    ⟨⟨{ headers := [(ascii "Host", ascii "a")], method := ascii "GET", uri := ascii "/",
        httpVersionMajor := 1 }, .body⟩, by decide +kernel⟩
  accepted := by decide +kernel
  plain := by decide +kernel

/-- A handler that leaves the response as it is. -/
def idleHandler (env : Externals) : HTTPRequestHandler env :=
  fun request response => ⟨request, response, .returned⟩

/-- Two messages, the first in two reads. -/
theorem run_aligned_get :
    let message := PlainMessage.get
    let events : List (Event .sample) :=
      [.read (.ok (message.bytes.take 5)) (idleHandler _),
        .read (.ok (message.bytes.drop 5)) (idleHandler _),
        .write ⟨.readNext, {}⟩ none [], .read (.ok message.bytes) (idleHandler _)]
    ∃ last, ((httpSystem .sample).restrict fun before event _ => before.Succeeds event).Run
        (start true []) events last ∧
      last.handed.map Prod.fst = [message, message].map PlainMessage.request ∧
      last.writes.length = [message, message].length ∧ GoesOn last := by
  intro message events
  obtain ⟨last, executed⟩ : ∃ last, events.foldlM (fun before event =>
      if before.Succeeds event then before.step? event else none) (start true []) = some last :=
    Option.isSome_iff_exists.mp (by decide +kernel)
  have run : ((httpSystem .sample).restrict fun before event _ => before.Succeeds event).Run
      (start true []) events last := .restrict_of_foldlM executed
  refine ⟨last, run, run_aligned [message, message] run (by decide) ?_⟩
  exact ⟨[[message.bytes.take 5, message.bytes.drop 5], [message.bytes]], by decide, by decide⟩

/-- Two messages in one read: the second one is lost. -/
theorem not_delivered_pipelined : ¬ ∀ (env : Externals) (isHttp : Bool) (remoteIp : env.IPAddress)
    (messages : List (PlainMessage env isHttp remoteIp)) (events : List (Event env))
    (last : World env),
      ((httpSystem env).restrict fun before event _ => before.Succeeds event).Run
        (start isHttp remoteIp) events last →
      (∀ read ∈ readsOf events, 1 ≤ read.length ∧ read.length ≤ maxBufferLength) →
      (readsOf events).flatten = (messages.map PlainMessage.bytes).flatten →
      last.handed.map Prod.fst = messages.map PlainMessage.request ∧
        last.writes.length = messages.length := by
  intro always
  let both := PlainMessage.get.bytes ++ PlainMessage.get.bytes
  let events : List (Event .sample) := [.read (.ok both) (idleHandler _)]
  obtain ⟨last, executed⟩ : ∃ last, events.foldlM (fun before event =>
      if before.Succeeds event then before.step? event else none) (start true []) = some last :=
    Option.isSome_iff_exists.mp (by decide +kernel)
  have run : ((httpSystem .sample).restrict fun before event _ => before.Succeeds event).Run
      (start true []) events last := .restrict_of_foldlM executed
  have promised := (always .sample true [] [.get, .get] events last run (by decide)
    (by decide)).2
  let request : HTTPRequest .sample := { isHttp := true, origin := [] }
  have settled : (HTTPParser.parse {} request both).result = .ok .good := by decide +kernel
  have exits : settledExits request {} (readsOf events) =
      [HTTPParser.parse {} request both] := by
    refine settledExits_cons_of_settled [] ?_
    rw [settled]
    simp
  have ordinary : ∀ exit ∈ settledExits request {} (readsOf events), Ordinary exit := by
    rw [exits]
    intro exit member
    rw [List.mem_singleton.mp member]
    exact Or.inr ⟨settled, by decide +kernel⟩
  have delivered := (run_serving run (Or.inr (Or.inl rfl)) ordinary).2.1
  have one : (settledExits request {} (readsOf events)).length = 1 := by
    rw [exits]
    rfl
  have two : last.writes.length = 2 := promised
  have written : last.writes.length = 0 + 1 := delivered.trans (congrArg (0 + ·) one)
  omega

end World

end Webserver.HTTP
