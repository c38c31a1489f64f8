import Webserver.Foundation.Locks
import Webserver.Foundation.Termination
import Webserver.WS.Threads

/-! # Calls come to an end

The mutex of the session maps is taken before that of a queue, and whoever takes a
mutex releases it. Whatever calls are in progress on a connection, one of them can
therefore go on; after at most as many steps as they have left, all of them have
returned and both mutexes are free.
-/

namespace Webserver.WS

open Foundation System Locks

/-- The order in which a thread takes the mutexes. -/
def Mutex.rank : Mutex → Nat
  | .wsConns => 0
  | .sendQ => 1

namespace Instr

def access : Instr → Access Mutex
  | .lock mutex => .lock mutex
  | .unlock mutex => .unlock mutex
  | _ => .other

/-- The most steps that come of an instruction: its own, and those it may put in
front of the rest. -/
def work : Instr → Nat
  | .compareExchange => 5
  | .checkSize | .testClosed => 6
  | _ => 1

theorem locks_eq (locked : List Mutex) (instr : Instr) :
    instr.locks locked = instr.access.apply locked := by
  cases instr <;> rfl

theorem not_mem_of_enabled {locked : List Mutex} {instr : Instr}
    (free : ∀ mutex, instr.access = .lock mutex → mutex ∉ locked) : instr.Enabled locked := by
  cases instr with
  | lock mutex => exact free mutex rfl
  | _ => trivial

/-- What a test puts in front leaves the mutexes alone. -/
theorem expand_access (world : World) (instr : Instr) :
    ∀ later ∈ instr.expand world, later.access = .other := by
  intro later member
  cases instr with
  | checkSize =>
      simp only [expand] at member
      split at member
      · rw [List.mem_singleton.mp member]
        rfl
      · cases member
  | testClosed =>
      simp only [expand] at member
      split at member
      · cases member
      · rw [List.mem_singleton.mp member]
        rfl
  | compareExchange =>
      simp only [expand] at member
      split at member
      · cases member
      · obtain ⟨effect, -, rfl⟩ := List.mem_map.mp member
        rfl
  | _ => cases member

theorem expand_work (world : World) (instr : Instr) :
    ((instr.expand world).map work).sum < instr.work := by
  cases instr with
  | checkSize | testClosed | compareExchange =>
      simp only [expand]
      split <;> decide
  | _ => exact Nat.zero_lt_one

end Instr

/-- The steps a thread has left, its return among them. -/
def Thread.work (thread : Thread) : Nat := (thread.rest.map Instr.work).sum + 1

def Session.work (session : Session) : Nat := (session.threads.map Thread.work).sum

/-- An event of a call in progress. -/
def ThreadEvent.Inner : ThreadEvent → Prop
  | .call _ => False
  | _ => True

/-- The calls in progress on a connection, while no other call begins. -/
def completing : System Session ThreadEvent :=
  sessionSystem.restrict fun _ event _ => event.Inner

/-! ## Order of the mutexes -/

/-- The mutexes a call holds as it begins. -/
def Call.held : Call → List Mutex
  | .push _ | .close => [.wsConns]
  | _ => []

theorem Call.program_disciplined (call : Call) :
    Disciplined Mutex.rank Instr.access call.held call.program := by
  have reports (error : Option ErrorCode) :
      ∀ instr ∈ report error, instr.access = .other := by
    intro instr member
    rcases error with _ | _ | _
    · cases member
    · cases member
    · rw [List.mem_singleton.mp member]
      rfl
  cases call with
  | read error => exact Disciplined.insert (reports error) rfl
  | written write error =>
      cases error with
      | none => simp [program, held, Disciplined, Instr.access]
      | some code =>
          apply Disciplined.insert (reports (some code))
          simp [held, Disciplined, Instr.access]
  | _ => simp [program, held, Disciplined, Instr.access, Mutex.rank]

namespace Session

variable {session before after last : Session}

theorem take_locked (call : Call) :
    (session.take call).locked = call.held ++ session.locked := by
  cases call <;> rfl

/-- The calls in progress hold the locked mutexes and take them in order. -/
def Orderly (session : Session) : Prop :=
  Locks.Orderly Mutex.rank Instr.access Thread.rest session.threads session.locked

theorem Orderly.step {event : ThreadEvent} (orderly : Orderly before)
    (moved : before.step? event = some after) : Orderly after := by
  unfold Orderly at orderly ⊢
  cases step_cases moved with
  | refused call admitted named lost => exact orderly
  | begun call admitted owned =>
      rw [take_locked]
      exact Locks.Orderly.add orderly call.program_disciplined
  | ran front back thread instr rest threads shape enabled =>
      rw [threads] at orderly
      rw [Instr.locks_eq]
      exact orderly.exec shape (Thread.advance_rest before instr rest thread)
        (instr.expand_access before.world)
  | left front back thread threads done =>
      rw [threads] at orderly
      exact orderly.remove done

theorem orderly_of_reachable (reachable : sessionSystem.Reachable session) :
    Orderly session := by
  apply reachable.invariant
  · rintro start rfl
    have none : Locks.Orderly Mutex.rank Instr.access Thread.rest [] [] :=
      ⟨[], rfl, nofun, .nil⟩
    have begun : Disciplined Mutex.rank Instr.access Call.start.held
        ({ call := .start, rest := Call.start.program } : Thread).rest :=
      Call.start.program_disciplined
    exact none.add begun
  · intro before event after _ orderly moved
    exact orderly.step moved

/-! ## Completion -/

/-- Every step of a call leaves less to do. -/
theorem work_lt {event : ThreadEvent} (moved : completing.step before event after) :
    after.work < before.work := by
  obtain ⟨moved, inner⟩ := moved
  cases step_cases moved with
  | refused call admitted named lost => exact inner.elim
  | begun call admitted owned => exact inner.elim
  | ran front back thread instr rest threads shape enabled =>
      have less := instr.expand_work before.world
      simp only [work, threads, List.map_append, List.map_cons, List.sum_append, List.sum_cons,
        Thread.work, Thread.advance_rest, shape]
      omega
  | left front back thread threads done =>
      simp only [work, threads, List.map_append, List.map_cons, List.sum_append, List.sum_cons,
        Thread.work]
      omega

/-- While a call is in progress, one can go on. -/
theorem Orderly.exists_step (orderly : Orderly session) (inProgress : session.threads ≠ []) :
    ∃ event after, completing.step session event after := by
  obtain ⟨thread, member, enabled⟩ := orderly.exists_enabled inProgress
  obtain ⟨index, inside, here⟩ := List.mem_iff_getElem.mp member
  have found : session.threads[index]? = some thread := List.getElem?_eq_some_iff.mpr ⟨inside, here⟩
  cases shape : thread.rest with
  | nil =>
      refine ⟨.finish index, session.leave index thread, ?_, trivial⟩
      change (session.threads[index]?.bind _) = _
      rw [found, Option.bind_some, if_pos shape]
  | cons instr rest =>
      have free := Instr.not_mem_of_enabled (enabled instr rest shape)
      refine ⟨.run index, session.exec index thread instr rest, ?_, trivial⟩
      change (session.threads[index]?.bind _) = _
      rw [found, Option.bind_some]
      simp only [shape]
      rw [if_pos free]

theorem Orderly.completed_of_stuck (orderly : Orderly session)
    (stuck : completing.Stuck session) : session.threads = [] ∧ session.locked = [] := by
  have none : session.threads = [] := by
    by_contra inProgress
    obtain ⟨event, after, moved⟩ := orderly.exists_step inProgress
    exact stuck event after moved
  refine ⟨none, ?_⟩
  unfold Orderly at orderly
  rw [none] at orderly
  exact orderly.locked_eq_nil

/-- **Every call comes to its end**, when callbacks return and push and close nothing.
From every reachable state, and however the threads of the calls in progress
interleave, they make at most as many steps as they have left; when none can make
another, all calls have returned and no mutex is locked; and some interleaving gets
there. -/
theorem reachable_completes (reachable : sessionSystem.Reachable session) :
    (∀ events last, completing.Run session events last → events.length ≤ session.work ∧
      (completing.Stuck last → last.threads = [] ∧ last.locked = [])) ∧
    ∃ events last, completing.Run session events last ∧
      last.threads = [] ∧ last.locked = [] := by
  have orderly := orderly_of_reachable reachable
  have kept : ∀ {before event after}, Orderly before → completing.step before event after →
      Orderly after := fun orderly moved => orderly.step moved.1
  constructor
  · intro events last run
    obtain ⟨bound, ended⟩ :=
      run.length_le (fun orderly moved => ⟨kept orderly moved, work_lt moved⟩) orderly
    exact ⟨Nat.le_of_add_right_le bound, ended.completed_of_stuck⟩
  · obtain ⟨events, last, run, -, ends⟩ := exists_run_of_progress
      (fun orderly moved => ⟨kept orderly moved, work_lt moved⟩) Orderly.completed_of_stuck orderly
    exact ⟨events, last, run, ends⟩

/-- The handler of a write is in its critical section when a push comes that has to
wait for it, and the read ends meanwhile. -/
def pushWaiting : List ThreadEvent :=
  [.run 0, .run 0, .finish 0, .call (.push (ascii "a"))] ++ List.replicate 8 (.run 0) ++
    [.finish 0, .call (.written ⟨⟨0, textFrame (ascii "a")⟩, false⟩ none), .run 0,
      .call (.push (ascii "b")), .run 1, .call (.read none)]

theorem reachable_completes_waiting : ∃ session, sessionSystem.Run {} pushWaiting session ∧
    session.locked = [.wsConns, .sendQ] ∧
    (∀ events last, completing.Run session events last → events.length ≤ session.work ∧
      (completing.Stuck last → last.threads = [] ∧ last.locked = [])) ∧
    ∃ events last, completing.Run session events last ∧
      last.threads = [] ∧ last.locked = [] := by
  have executed : (pushWaiting.foldlM step? {}).map Session.locked = some [.wsConns, .sendQ] := by
    decide +kernel
  obtain ⟨session, moved, locked⟩ := Option.map_eq_some_iff.mp executed
  have run : sessionSystem.Run {} pushWaiting session := .of_foldlM moved
  exact ⟨session, run, locked, reachable_completes (run.reachable rfl)⟩

end Session

end Webserver.WS
