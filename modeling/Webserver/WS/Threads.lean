import Webserver.Foundation.Pool
import Webserver.WS.Push

/-! # A WebSocket connection under threads

The functions of a connection as programs of the threads that call them. Every
access to `closed_`, every call of a callback or of a socket function and every
part of a critical section is a step of its own, so that calls interleave as the
mutexes permit. A run starts when the connection has been registered and `Start`
is called.

Callbacks and socket functions return without throwing, and callbacks call neither
`WSPush` nor `WSClose`: `ws_onmessageout` and `ws_onclose` may run while the thread
holds the mutex of the session maps. The destructor is a call of its own; where a
`WSPush` or `WSClose` drops the last reference it runs inside that call in the code,
before the mutex is released, and after it here.
-/

namespace Webserver.WS

open Foundation

/-- The mutex of the session maps and that of the queue. -/
inductive Mutex where
  | wsConns
  | sendQ
  deriving DecidableEq

/-- One step of a thread. -/
inductive Instr where
  | call (effect : Effect)
  | asyncRead
  | lock (mutex : Mutex)
  | unlock (mutex : Mutex)
  | pushBack (frame : Bytes)
  | checkSize
  | startSingle
  | clear
  | erase
  | startNext
  | compareExchange
  | testClosed
  | forwarded
  deriving DecidableEq

/-- A call that a thread executes: `Start`, `WSPush` or `WSClose` under the id of
the connection, the handler of a completed operation, or the destructor. -/
inductive Call where
  | start
  | push (message : Bytes)
  | close
  | read (error : Option ErrorCode)
  | written (write : PendingWrite) (error : Option ErrorCode)
  | destroy
  deriving DecidableEq

/-- What `stop` calls after its exchange. -/
def closing : List Effect := [.onclose, .cancel, .shutdown, .close]

/-- The report of an error; a cancelled operation is not reported. -/
def report : Option ErrorCode → List Instr
  | some code => if code ≠ .operationAborted then [.call (.onerror code)] else []
  | none => []

namespace Call

/-- `WSPush` and `WSClose`, which find the connection by its id. -/
def byId : Call → Bool
  | .push _ | .close => true
  | _ => false

/-- The body of a call. `WSPush` and `WSClose` hold the mutex of the session maps
already, and have locked the weak reference. -/
def program : Call → List Instr
  | .start => [.call .onopen, .asyncRead]
  | .push message =>
      [.call (.onmessageout (textFrame message)), .lock .sendQ, .pushBack (textFrame message),
        .checkSize, .startSingle, .unlock .sendQ, .forwarded, .unlock .wsConns]
  | .close => [.compareExchange, .forwarded, .unlock .wsConns]
  | .read error => report error ++ [.compareExchange]
  | .written _ (some code) =>
      report (some code) ++ [.lock .sendQ, .clear, .compareExchange, .unlock .sendQ]
  | .written _ none => [.lock .sendQ, .erase, .startNext, .unlock .sendQ]
  | .destroy => [.testClosed]

end Call

inductive Phase where
  | alive
  | destroying
  | destroyed
  deriving DecidableEq

/-- What a push finds when it puts its frame into the queue. -/
structure Found where
  phase : Phase
  conn : WSConnection
  deriving DecidableEq

/-- A call with the steps it has still to make, the return value `ok` of
`ws_forward`, the local `qsz` of `write`, and whether its exchange has closed the
connection. -/
structure Thread where
  call : Call
  rest : List Instr
  ok : Bool := false
  found : Option Found := none
  qsz : Option Nat := none
  closes : Bool := false
  deriving DecidableEq

/-- A connection, its outstanding read, the mutexes that are locked, the calls in
progress and those that have returned. -/
structure Session where
  world : World := {}
  reading : Bool := false
  locked : List Mutex := []
  threads : List Thread := [{ call := .start, rest := Call.start.program }]
  returned : List Thread := []
  phase : Phase := .alive
  deriving DecidableEq

/-- A call begins, the thread at an index makes its next step, or it returns. -/
inductive ThreadEvent where
  | call (call : Call)
  | run (index : Nat)
  | finish (index : Nat)
  deriving DecidableEq

namespace Instr

def Enabled (locked : List Mutex) : Instr → Prop
  | .lock mutex => mutex ∉ locked
  | _ => True

instance (locked : List Mutex) : (instr : Instr) → Decidable (instr.Enabled locked)
  | .lock mutex => inferInstanceAs (Decidable (mutex ∉ locked))
  | .call _ | .asyncRead | .unlock _ | .pushBack _ | .checkSize | .startSingle | .clear | .erase
  | .startNext | .compareExchange | .testClosed | .forwarded => isTrue trivial

/-- What a step does to the connection. -/
def exec (world : World) : Instr → World
  | .call effect => { world with effects := world.effects ++ [effect] }
  | .pushBack frame => world.enqueue frame
  | .startSingle => world.startSingle
  | .clear => world.setQueue []
  | .erase => world.setQueue world.conn.sendQ.tail
  | .startNext => if world.conn.sendQ.length > 0 then world.asyncWrite else world
  | .compareExchange => { world with conn := { world.conn with closed := true } }
  | _ => world

/-- The steps a test puts in front of the rest. -/
def expand (world : World) : Instr → List Instr
  | .checkSize => if world.conn.sendQ.length > 100 then [.compareExchange] else []
  | .compareExchange => if world.conn.closed then [] else closing.map .call
  | .testClosed => if world.conn.closed then [] else [.compareExchange]
  | _ => []

def locks (locked : List Mutex) : Instr → List Mutex
  | .lock mutex => mutex :: locked
  | .unlock mutex => locked.erase mutex
  | _ => locked

end Instr

/-- The thread after a step, with what the step stores in its locals. -/
def Thread.advance (session : Session) (instr : Instr) (rest : List Instr)
    (thread : Thread) : Thread :=
  let next : Thread := { thread with rest := instr.expand session.world ++ rest }
  match instr with
  | .pushBack _ => { next with found := some ⟨session.phase, session.world.conn⟩ }
  | .checkSize => { next with qsz := some session.world.conn.sendQ.length }
  | .compareExchange => { next with closes := thread.closes || !session.world.conn.closed }
  | .forwarded => { next with ok := true }
  | _ => next

@[simp] theorem Thread.advance_rest (session : Session) (instr : Instr) (rest : List Instr)
    (thread : Thread) :
    (thread.advance session instr rest).rest = instr.expand session.world ++ rest := by
  cases instr <;> rfl

@[simp] theorem Thread.advance_call (session : Session) (instr : Instr) (rest : List Instr)
    (thread : Thread) : (thread.advance session instr rest).call = thread.call := by
  cases instr <;> rfl

namespace Session

/-- Someone holds a shared reference, so that a weak one can be locked: a call in
progress or the handler of an outstanding operation, which has not been dropped. -/
def Owned (session : Session) : Prop :=
  session.phase = .alive ∧
    (session.threads ≠ [] ∨ session.reading = true ∨ session.world.outstanding ≠ [])

instance (session : Session) : Decidable session.Owned :=
  inferInstanceAs (Decidable (session.phase = .alive ∧
    (session.threads ≠ [] ∨ session.reading = true ∨ session.world.outstanding ≠ [])))

def Admits (session : Session) : Call → Prop
  | .start => False
  | .push _ | .close => .wsConns ∉ session.locked
  | .read _ => session.reading = true
  | .written write _ => write ∈ session.world.outstanding
  | .destroy => session.phase = .alive ∧ ¬ session.Owned

instance (session : Session) : (call : Call) → Decidable (session.Admits call)
  | .start => isFalse id
  | .push _ | .close => inferInstanceAs (Decidable (.wsConns ∉ session.locked))
  | .read _ => inferInstanceAs (Decidable (session.reading = true))
  | .written write _ => inferInstanceAs (Decidable (write ∈ session.world.outstanding))
  | .destroy => inferInstanceAs (Decidable (session.phase = .alive ∧ ¬ session.Owned))

/-- What a call takes as it begins. -/
def take (session : Session) : Call → Session
  | .push _ | .close => { session with locked := .wsConns :: session.locked }
  | .read _ => { session with reading := false }
  | .written write error => { session with world := session.world.complete write error }
  | .destroy => { session with phase := .destroying }
  | .start => session

/-- The beginning of a call. A weak reference to a connection that nobody owns
cannot be locked; `ws_forward` then returns false. -/
def begin (session : Session) (call : Call) : Session :=
  if call.byId = true ∧ ¬ session.Owned then
    { session with returned := session.returned ++ [{ call, rest := [] }] }
  else
    { session.take call with
      threads := session.threads ++ [{ call, rest := call.program }] }

/-- The step `instr` of the thread at `index`. -/
def exec (session : Session) (index : Nat) (thread : Thread) (instr : Instr)
    (rest : List Instr) : Session :=
  { session with
    world := instr.exec session.world
    reading := session.reading || instr == .asyncRead
    locked := instr.locks session.locked
    threads := session.threads.set index (thread.advance session instr rest) }

/-- The end of the call of the thread at `index`. -/
def leave (session : Session) (index : Nat) (thread : Thread) : Session :=
  { session with
    threads := session.threads.eraseIdx index
    returned := session.returned ++ [thread]
    phase := if thread.call = .destroy then .destroyed else session.phase }

def step? (session : Session) : ThreadEvent → Option Session
  | .call call => if session.Admits call then some (session.begin call) else none
  | .run index =>
      session.threads[index]?.bind fun thread =>
        match thread.rest with
        | [] => none
        | instr :: rest =>
            if instr.Enabled session.locked then some (session.exec index thread instr rest)
            else none
  | .finish index =>
      session.threads[index]?.bind fun thread =>
        if thread.rest = [] then some (session.leave index thread) else none

end Session

/-- A registered connection under all interleavings of its threads, where the handler
of every operation is run. -/
def sessionSystem : System Session ThreadEvent := System.ofStep (· = {}) Session.step?

/-- A step of the threads, or the handler of an outstanding operation is dropped without
being run, with the reference it holds, as by an `io_service` that is destroyed. -/
inductive LifeEvent where
  | thread (event : ThreadEvent)
  | dropRead
  | dropWrite (write : PendingWrite)
  deriving DecidableEq

namespace Session

def dropWrite (session : Session) (write : PendingWrite) : Session :=
  { session with
    world := { session.world with outstanding := session.world.outstanding.erase write } }

def live? (session : Session) : LifeEvent → Option Session
  | .thread event => session.step? event
  | .dropRead => if session.reading then some { session with reading := false } else none
  | .dropWrite write =>
      if write ∈ session.world.outstanding then some (session.dropWrite write) else none

end Session

/-- A registered connection up to its destruction, whether its handlers are run or
dropped. -/
def lifeSystem : System Session LifeEvent := System.ofStep (· = {}) Session.live?

namespace Session

/-- What a call takes leaves the calls made and the connection as they are. -/
@[simp] theorem take_effects (session : Session) (call : Call) :
    (session.take call).world.effects = session.world.effects := by
  cases call with
  | written write error => cases error <;> rfl
  | _ => rfl

@[simp] theorem take_conn (session : Session) (call : Call) :
    (session.take call).world.conn = session.world.conn := by
  cases call with
  | written write error => cases error <;> rfl
  | _ => rfl

/-- What each kind of event does, with what enables it. -/
inductive Moves (before : Session) : ThreadEvent → Session → Prop where
  | refused (call : Call) : before.Admits call → call.byId = true → ¬ before.Owned →
      Moves before (.call call)
        { before with returned := before.returned ++ [{ call, rest := [] }] }
  | begun (call : Call) : before.Admits call → (call.byId = true → before.Owned) →
      Moves before (.call call)
        { before.take call with
          threads := before.threads ++ [{ call, rest := call.program }] }
  | ran (front back : List Thread) (thread : Thread) (instr : Instr) (rest : List Instr) :
      before.threads = front ++ thread :: back → thread.rest = instr :: rest →
      instr.Enabled before.locked →
      Moves before (.run front.length)
        { before with
          world := instr.exec before.world
          reading := before.reading || instr == .asyncRead
          locked := instr.locks before.locked
          threads := front ++ thread.advance before instr rest :: back }
  | left (front back : List Thread) (thread : Thread) :
      before.threads = front ++ thread :: back → thread.rest = [] →
      Moves before (.finish front.length)
        { before with
          threads := front ++ back
          returned := before.returned ++ [thread]
          phase := if thread.call = .destroy then .destroyed else before.phase }

/-- Every step is one of these. -/
theorem step_cases {before after : Session} {event : ThreadEvent}
    (moved : before.step? event = some after) : Moves before event after := by
  cases event with
  | call call =>
      simp only [step?] at moved
      split_ifs at moved with admitted
      cases moved
      unfold begin
      by_cases dead : call.byId = true ∧ ¬ before.Owned
      · rw [if_pos dead]
        exact .refused call admitted dead.1 dead.2
      · rw [if_neg dead]
        apply Moves.begun call admitted
        intro named
        exact Decidable.not_not.mp (fun lost => dead ⟨named, lost⟩)
  | run index =>
      simp only [step?] at moved
      obtain ⟨thread, found, stepped⟩ := Option.bind_eq_some_iff.mp moved
      obtain ⟨front, back, threads, rfl⟩ := Pool.exists_split found
      cases shape : thread.rest with
      | nil =>
          rw [shape] at stepped
          cases stepped
      | cons instr rest =>
          simp only [shape] at stepped
          split_ifs at stepped with enabled
          cases stepped
          unfold exec
          rw [threads, Pool.set_split]
          exact .ran front back thread instr rest threads shape enabled
  | finish index =>
      simp only [step?] at moved
      obtain ⟨thread, found, stepped⟩ := Option.bind_eq_some_iff.mp moved
      obtain ⟨front, back, threads, rfl⟩ := Pool.exists_split found
      split_ifs at stepped with done
      cases stepped
      unfold leave
      rw [threads, Pool.eraseIdx_split]
      exact .left front back thread threads done

/-- What each event of a life does, with what enables it. -/
inductive Lives (before : Session) : LifeEvent → Session → Prop where
  | moved (event : ThreadEvent) (after : Session) : before.step? event = some after →
      Lives before (.thread event) after
  | droppedRead : before.reading = true →
      Lives before .dropRead { before with reading := false }
  | droppedWrite (write : PendingWrite) : write ∈ before.world.outstanding →
      Lives before (.dropWrite write) (before.dropWrite write)

theorem live_cases {before after : Session} {event : LifeEvent}
    (moved : before.live? event = some after) : Lives before event after := by
  cases event with
  | thread event => exact .moved event after moved
  | dropRead =>
      simp only [live?] at moved
      split_ifs at moved with reading
      cases moved
      exact .droppedRead reading
  | dropWrite write =>
      simp only [live?] at moved
      split_ifs at moved with member
      cases moved
      exact .droppedWrite write member

/-- A state that the threads lead to is one in the life of a connection. -/
theorem life_of_reachable {session : Session} (reachable : sessionSystem.Reachable session) :
    lifeSystem.Reachable session := by
  apply reachable.refine id
  · exact fun initial => initial
  · intro before event after moved
    exact Or.inr ⟨.thread event, moved⟩

end Session

end Webserver.WS
