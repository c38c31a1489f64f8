import Webserver.WS.Threads

/-! # The stages of a call

What a call of a thread does to the send queue lies in one critical section. Its
stage says how far it has come: which steps are left, whether it holds the mutex,
and what it has done that a whole call would do at once.
-/

namespace Webserver.WS

open Foundation

/-- A write that has completed, with its result. -/
abbrev Completion := PendingWrite × Option ErrorCode

/-- A step that leaves the queue and its mutex alone. -/
def Instr.Plain : Instr → Prop
  | .call _ | .asyncRead | .unlock .wsConns | .compareExchange | .testClosed | .forwarded => True
  | _ => False

namespace World

/-- The connection without the record of the calls it has made. -/
def quiet (world : World) : World := { world with effects := [] }

theorem asyncWrite_quiet (world : World) (started : Prop) [Decidable started] :
    (if started then world.asyncWrite else world).quiet =
      (if started then world.quiet.asyncWrite else world.quiet).quiet := by
  obtain ⟨⟨closed, sendQ⟩, _, _, _, _, _⟩ := world
  split_ifs
  · cases sendQ <;> rfl
  · rfl

/-- No step reads that record. -/
theorem exec_quiet {left right : World} (same : left.quiet = right.quiet) (instr : Instr) :
    (instr.exec left).quiet = (instr.exec right).quiet := by
  have erased : ∀ world : World, (instr.exec world).quiet = (instr.exec world.quiet).quiet := by
    intro world
    cases instr with
    | startSingle => exact asyncWrite_quiet world (world.conn.sendQ.length = 1)
    | startNext => exact asyncWrite_quiet world (world.conn.sendQ.length > 0)
    | _ => rfl
  rw [erased left, same, ← erased right]

/-- `stop` is the exchange, but for the calls it makes. -/
theorem stop_quiet (world : World) :
    world.stop.quiet = (Instr.compareExchange.exec world).quiet := by
  unfold stop
  by_cases was : world.conn.closed = true
  · rw [if_pos was]
    simp only [Instr.exec, quiet]
    rw [← was]
  · rw [if_neg was]
    rfl

theorem reportError_quiet (code : ErrorCode) (world : World) :
    (world.reportError code).quiet = world.quiet := by
  unfold reportError
  split_ifs <;> rfl

/-- The handler of a failed write clears the queue and stops, but for its calls. -/
theorem handleWrite_quiet (code : ErrorCode) (world : World) :
    (world.handleWrite (some code)).quiet =
      (Instr.compareExchange.exec (world.setQueue [])).quiet := by
  have reported := reportError_quiet code world
  calc (world.handleWrite (some code)).quiet
      = (Instr.compareExchange.exec ((world.reportError code).setQueue [])).quiet :=
        stop_quiet _
    _ = (Instr.compareExchange.exec (world.setQueue [])).quiet :=
        exec_quiet (exec_quiet reported .clear) .compareExchange

/-- The completion that has been taken but not handled. -/
def settle : Option Completion → World → World
  | none, world => world
  | some (write, error), world => world.complete write error

theorem settle_quiet {left right : World} (same : left.quiet = right.quiet)
    (owner : Option Completion) : (settle owner left).quiet = (settle owner right).quiet := by
  have erased : ∀ world : World, (settle owner world).quiet = (settle owner world.quiet).quiet := by
    intro world
    rcases owner with - | ⟨write, - | code⟩ <;> rfl
  rw [erased left, same, ← erased right]

theorem settle_conn (owner : Option Completion) (world : World) :
    (settle owner world).conn = world.conn := by
  rcases owner with - | ⟨write, - | code⟩ <;> rfl

theorem settle_produced (owner : Option Completion) (world : World) :
    (settle owner world).produced = world.produced := by
  rcases owner with - | ⟨write, - | code⟩ <;> rfl

theorem settle_enqueue (owner : Option Completion) (frame : Bytes) (world : World) :
    (settle owner world).enqueue frame = settle owner (world.enqueue frame) := by
  rcases owner with - | ⟨write, - | code⟩ <;> rfl

/-- A write is started before a completion is handled as after it, since the
element of that completion is still in the queue. -/
theorem settle_startSingle {world : World} {owner : Option Completion}
    (front : ∀ write error, owner = some (write, error) → world.conn.sendQ.length ≠ 1) :
    (settle owner world).startSingle = settle owner world.startSingle := by
  cases owner with
  | none => rfl
  | some completion =>
      have long : world.conn.sendQ.length ≠ 1 := front completion.1 completion.2 rfl
      unfold World.startSingle
      rw [settle_conn, if_neg long, if_neg long]

end World

/-- How far a call has come with the queue: it has nothing to do with it any more,
or is waiting for the mutex, or holds it. -/
inductive Stage where
  | free
  | toPush (message : Bytes)
  | pushing (message : Bytes)
  | pushed (message : Bytes)
  | overflowing (message : Bytes)
  | starting (message : Bytes)
  | toHandle (write : PendingWrite) (error : Option ErrorCode)
  | handling (write : PendingWrite) (error : Option ErrorCode)
  | erased (write : PendingWrite)
  | cleared (write : PendingWrite) (code : ErrorCode)
  | leaving

namespace Stage

/-- What a handler does to the queue. -/
def handler : Option ErrorCode → List Instr
  | none => [.erase, .startNext, .unlock .sendQ]
  | some _ => [.clear, .compareExchange, .unlock .sendQ]

/-- The steps on the queue that a call has still to make. -/
def core : Stage → List Instr
  | .free => []
  | .toPush message => [.lock .sendQ, .pushBack (textFrame message), .checkSize, .startSingle,
      .unlock .sendQ]
  | .pushing message => [.pushBack (textFrame message), .checkSize, .startSingle, .unlock .sendQ]
  | .pushed _ => [.checkSize, .startSingle, .unlock .sendQ]
  | .overflowing _ => [.compareExchange, .startSingle, .unlock .sendQ]
  | .starting _ => [.startSingle, .unlock .sendQ]
  | .toHandle _ error => .lock .sendQ :: handler error
  | .handling _ error => handler error
  | .erased _ => [.startNext, .unlock .sendQ]
  | .cleared _ _ => [.compareExchange, .unlock .sendQ]
  | .leaving => [.unlock .sendQ]

/-- The stage of a call that holds the mutex. -/
def held : Stage → Option Stage
  | .free | .toPush _ | .toHandle _ _ => none
  | stage => some stage

/-- The completion whose handler has not done its part. -/
def owed : Stage → Option Completion
  | .toHandle write error | .handling write error => some (write, error)
  | .erased write => some (write, none)
  | .cleared write code => some (write, some code)
  | _ => none

/-- What the call that holds the mutex has done to the connection so far. -/
def ahead : Option Stage → World → World
  | some (.pushed message) | some (.overflowing message) | some (.starting message) =>
      World.enqueue (textFrame message)
  | some (.erased _) => fun world => world.setQueue world.conn.sendQ.tail
  | some (.cleared _ _) => World.setQueue []
  | _ => id

/-- An overflow has closed the connection before a write is started. -/
def Checked (conn : WSConnection) : Stage → Prop
  | .starting _ => conn.sendQ.length > 100 → conn.closed = true
  | _ => True

/-- The stage after the first of the steps on the queue. -/
def next (world : World) : Stage → Stage
  | .toPush message => .pushing message
  | .pushing message => .pushed message
  | .pushed message =>
      if world.conn.sendQ.length > 100 then .overflowing message else .starting message
  | .overflowing message => .starting message
  | .toHandle write error => .handling write error
  | .handling write none => .erased write
  | .handling write (some code) => .cleared write code
  | .starting _ | .erased _ | .cleared _ _ => .leaving
  | .free | .leaving => .free

/-- These steps are left: those on the queue, among plain ones. -/
def Left (stage : Stage) (rest : List Instr) : Prop :=
  ∃ before after, rest = before ++ (stage.core ++ after) ∧
    (∀ instr ∈ before, instr.Plain) ∧ ∀ instr ∈ after, instr.Plain

/-- What a plain step puts in front is plain. -/
theorem plain_expand {instr : Instr} (world : World) (plain : instr.Plain) :
    ∀ other ∈ instr.expand world, other.Plain := by
  intro other member
  cases instr with
  | compareExchange =>
      simp only [Instr.expand] at member
      split_ifs at member
      · cases member
      · obtain ⟨effect, -, rfl⟩ := List.mem_map.mp member
        trivial
  | testClosed =>
      simp only [Instr.expand] at member
      split_ifs at member
      · cases member
      · rw [List.mem_singleton.mp member]
        trivial
  | checkSize => exact plain.elim
  | _ => cases member

/-- The first of the steps on the queue leads to the next stage; what it puts in
front of the rest is plain, or the exchange of an overflow. -/
theorem core_cons {stage : Stage} {instr : Instr} {core : List Instr} (world : World)
    (first : stage.core = instr :: core) :
    ∃ before, instr.expand world ++ core = before ++ (stage.next world).core ∧
      ∀ other ∈ before, other.Plain := by
  cases stage with
  | free => cases first
  | pushed message =>
      obtain ⟨rfl, rfl⟩ := List.cons.inj first
      refine ⟨[], ?_, ?_⟩
      · simp only [Instr.expand, next]
        split_ifs <;> rfl
      · intro other member
        cases member
  | overflowing message =>
      obtain ⟨rfl, rfl⟩ := List.cons.inj first
      exact ⟨_, rfl, plain_expand world (trivial : Instr.Plain .compareExchange)⟩
  | cleared write code =>
      obtain ⟨rfl, rfl⟩ := List.cons.inj first
      exact ⟨_, rfl, plain_expand world (trivial : Instr.Plain .compareExchange)⟩
  | handling write error =>
      cases error <;> (obtain ⟨rfl, rfl⟩ := List.cons.inj first; exact ⟨[], rfl, by simp⟩)
  | _ =>
      obtain ⟨rfl, rfl⟩ := List.cons.inj first
      exact ⟨[], rfl, by simp⟩

/-- A step is plain, or the first of those on the queue. -/
theorem Left.step {stage : Stage} {instr : Instr} {rest : List Instr}
    (left : stage.Left (instr :: rest)) (world : World) :
    instr.Plain ∧ stage.Left (instr.expand world ++ rest) ∨
      stage.core.head? = some instr ∧ (stage.next world).Left (instr.expand world ++ rest) := by
  obtain ⟨before, after, split, plainBefore, plainAfter⟩ := left
  cases before with
  | cons first before =>
      obtain ⟨rfl, rfl⟩ := List.cons.inj split
      have plain := plainBefore _ List.mem_cons_self
      left
      refine ⟨plain, instr.expand world ++ before, after, ?_, ?_, plainAfter⟩
      · rw [List.append_assoc]
        rfl
      · intro other member
        rcases List.mem_append.mp member with added | old
        · exact plain_expand world plain other added
        · exact plainBefore other (List.mem_cons_of_mem _ old)
  | nil =>
      rw [List.nil_append] at split
      cases core : stage.core with
      | nil =>
          -- nothing is left to do with the queue
          rw [core, List.nil_append] at split
          have plain : instr.Plain := by
            apply plainAfter
            rw [← split]
            exact List.mem_cons_self
          left
          refine ⟨plain, instr.expand world, rest, ?_, plain_expand world plain, ?_⟩
          · rw [core, List.nil_append]
          · intro other member
            apply plainAfter
            rw [← split]
            exact List.mem_cons_of_mem _ member
      | cons first tail =>
          rw [core, List.cons_append] at split
          obtain ⟨rfl, rfl⟩ := List.cons.inj split
          obtain ⟨before, moved, plain⟩ := core_cons world core
          right
          refine ⟨rfl, before, after, ?_, plain, plainAfter⟩
          rw [← List.append_assoc, moved, List.append_assoc]

/-- A call that has returned has nothing left to do. -/
theorem Left.eq_free {stage : Stage} (left : stage.Left []) : stage = .free := by
  obtain ⟨before, after, split, -, -⟩ := left
  have core : stage.core = [] := by
    have none := (List.append_eq_nil_iff.mp split.symm).2
    exact (List.append_eq_nil_iff.mp none).1
  cases stage with
  | free => rfl
  | handling write error => cases error <;> cases core
  | _ => cases core

/-- A call that has nothing to do with the queue makes plain steps. -/
theorem left_free {rest : List Instr} (plain : ∀ instr ∈ rest, instr.Plain) :
    Stage.free.Left rest := by
  refine ⟨rest, [], ?_, plain, ?_⟩
  · rw [core, List.append_nil, List.append_nil]
  · intro instr member
    cases member

theorem plain_report (error : Option ErrorCode) : ∀ instr ∈ report error, instr.Plain := by
  intro instr member
  cases error with
  | none => cases member
  | some code =>
      simp only [report] at member
      split_ifs at member
      · rw [List.mem_singleton.mp member]
        trivial
      · cases member

/-- The stage in which a call begins. -/
def first : Call → Stage
  | .push message => .toPush message
  | .written write error => .toHandle write error
  | .start | .close | .read _ | .destroy => .free

theorem first_left (call : Call) : (first call).Left call.program := by
  cases call with
  | push message =>
      refine ⟨[.call (.onmessageout (textFrame message))], [.forwarded, .unlock .wsConns], rfl,
        ?_, ?_⟩
      · simp [Instr.Plain]
      · simp [Instr.Plain]
  | written write error =>
      cases error with
      | none => exact ⟨[], [], rfl, by simp, by simp⟩
      | some code =>
          refine ⟨report (some code), [], ?_, plain_report (some code), by simp⟩
          rw [List.append_nil]
          rfl
  | read error =>
      apply left_free
      intro instr member
      rcases List.mem_append.mp member with reported | exchange
      · exact plain_report error instr reported
      · rw [List.mem_singleton.mp exchange]
        trivial
  | start => exact left_free (by simp [Call.program, Instr.Plain])
  | close => exact left_free (by simp [Call.program, Instr.Plain])
  | destroy => exact left_free (by simp [Call.program, Instr.Plain])

/-! ## What a call has done so far -/

/-- What is ahead of the whole calls are steps of a thread. -/
theorem ahead_quiet {left right : World} (same : left.quiet = right.quiet)
    (holder : Option Stage) : (ahead holder left).quiet = (ahead holder right).quiet := by
  cases holder with
  | none => exact same
  | some stage =>
      cases stage with
      | pushed message => exact World.exec_quiet same (.pushBack (textFrame message))
      | overflowing message => exact World.exec_quiet same (.pushBack (textFrame message))
      | starting message => exact World.exec_quiet same (.pushBack (textFrame message))
      | erased write => exact World.exec_quiet same .erase
      | cleared write code => exact World.exec_quiet same .clear
      | _ => exact same

/-- The exchange commutes with what is still to be done. -/
theorem ahead_compareExchange (holder : Option Stage) (owner : Option Completion)
    (world : World) :
    Instr.compareExchange.exec (ahead holder (World.settle owner world)) =
      ahead holder (World.settle owner (Instr.compareExchange.exec world)) := by
  rcases owner with - | ⟨write, - | code⟩ <;> cases holder with
  | none => rfl
  | some stage => cases stage <;> rfl

/-- A completion commutes with what a call has done in its critical section. -/
theorem ahead_complete (holder : Option Stage) (write : PendingWrite) (error : Option ErrorCode)
    (world : World) :
    (ahead holder world).complete write error = ahead holder (world.complete write error) := by
  cases error <;> cases holder with
  | none => rfl
  | some stage => cases stage <;> rfl

theorem ahead_outstanding (holder : Option Stage) (world : World) :
    (ahead holder world).outstanding = world.outstanding := by
  cases holder with
  | none => rfl
  | some stage => cases stage <;> rfl

end Stage

end Webserver.WS
