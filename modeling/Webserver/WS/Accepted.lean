import Webserver.WS.LastCallback

/-! # What a successful push means

`WSPush` returns true when `ws_forward` could lock the weak reference, whatever
`write` then finds. The connection existed when the frame entered its queue; it
may have been closed before, by another call, and the push closes it itself when
it makes the queue too long.
-/

namespace Webserver.WS

open Foundation

/-- A step after the check of the queue's size. -/
def Instr.Late : Instr → Prop
  | .call _ | .startSingle | .unlock _ | .forwarded | .compareExchange => True
  | _ => False

/-- How far a call of `WSPush` has come, where `closed_` is now `closed`. -/
inductive Pushing (closed : Bool) (message : Bytes) (thread : Thread) : Prop where
  | refused : thread.ok = false → thread.rest = [] → Pushing closed message thread
  | entered (steps : Nat) : steps ≤ 2 → thread.ok = false → thread.closes = false →
      thread.rest = (Call.push message).program.drop steps → Pushing closed message thread
  | queued (found : Found) : thread.ok = false → thread.closes = false →
      thread.found = some found → found.phase = .alive →
      (found.conn.closed = true → closed = true) →
      thread.rest = (Call.push message).program.drop 3 → Pushing closed message thread
  | checked (found : Found) (qsz : Nat) : thread.found = some found → found.phase = .alive →
      (found.conn.closed = true → closed = true) → thread.qsz = some qsz →
      (thread.closes = true → found.conn.closed = false) →
      (thread.closes = true ∨ .compareExchange ∈ thread.rest → qsz > 100) →
      (∀ instr ∈ thread.rest, instr.Late) → Pushing closed message thread

theorem Acts.closed_mono {instr : Instr} {world after : World} {effects next : List Effect}
    (acts : Acts instr world effects after next) (closed : world.conn.closed = true) :
    after.conn.closed = true := by
  cases acts with
  | calls effect same shape made kept => exact kept.trans closed
  | closes exchange wasOpen nowClosed made shape => exact nowClosed
  | keeps made kept same => exact kept.trans closed

namespace Pushing

variable {closed : Bool} {message : Bytes} {thread : Thread}

/-- The flag is never cleared. -/
theorem mono {later : Bool} (pushing : Pushing closed message thread)
    (kept : closed = true → later = true) : Pushing later message thread := by
  cases pushing with
  | refused ok rest => exact .refused ok rest
  | entered steps few ok closes rest => exact .entered steps few ok closes rest
  | queued found ok closes stored alive before rest =>
      exact .queued found ok closes stored alive (fun was => kept (before was)) rest
  | checked found qsz stored alive before size closes long late =>
      exact .checked found qsz stored alive (fun was => kept (before was)) size closes long late

/-- A step after the check of the queue's size. -/
theorem late {session : Session} {instr : Instr} {rest : List Instr} {found : Found} {qsz : Nat}
    (stored : thread.found = some found) (alive : found.phase = .alive)
    (before : found.conn.closed = true → session.world.conn.closed = true)
    (size : thread.qsz = some qsz) (closes : thread.closes = true → found.conn.closed = false)
    (long : thread.closes = true ∨ .compareExchange ∈ thread.rest → qsz > 100)
    (late : ∀ instr ∈ thread.rest, instr.Late) (shape : thread.rest = instr :: rest) :
    Pushing session.world.conn.closed message (thread.advance session instr rest) := by
  rw [shape] at long late
  have here := late instr List.mem_cons_self
  have later : ∀ other ∈ rest, other.Late := fun other member =>
    late other (List.mem_cons_of_mem _ member)
  have longer : thread.closes = true ∨ .compareExchange ∈ rest → qsz > 100 := by
    intro either
    exact long (either.imp_right (List.mem_cons_of_mem _))
  cases instr with
  | call effect => exact .checked found qsz stored alive before size closes longer later
  | startSingle => exact .checked found qsz stored alive before size closes longer later
  | unlock mutex => exact .checked found qsz stored alive before size closes longer later
  | forwarded => exact .checked found qsz stored alive before size closes longer later
  | compareExchange =>
      refine .checked found qsz stored alive before size ?_ ?_ ?_
      · intro closing
        rcases Bool.or_eq_true_iff.mp closing with already | now
        · exact closes already
        · cases was : found.conn.closed with
          | false => rfl
          | true =>
              rw [before was] at now
              cases now
      · intro _
        exact long (Or.inr List.mem_cons_self)
      · intro other member
        rw [Thread.advance_rest] at member
        rcases List.mem_append.mp member with added | old
        · simp only [Instr.expand] at added
          split_ifs at added
          · cases added
          · obtain ⟨effect, -, rfl⟩ := List.mem_map.mp added
            trivial
        · exact later other old
  | _ => exact here.elim

/-- A step of a call of `WSPush`. -/
theorem advance {session : Session} {instr : Instr} {rest : List Instr}
    (pushing : Pushing session.world.conn.closed message thread)
    (shape : thread.rest = instr :: rest) (alive : session.phase = .alive) :
    Pushing session.world.conn.closed message (thread.advance session instr rest) := by
  cases pushing with
  | refused ok done =>
      rw [shape] at done
      cases done
  | entered steps few ok closes left =>
      rw [shape] at left
      obtain rfl | rfl | rfl : steps = 0 ∨ steps = 1 ∨ steps = 2 := by omega
      · obtain ⟨rfl, rfl⟩ := List.cons.inj left
        exact .entered 1 (by omega) ok closes rfl
      · obtain ⟨rfl, rfl⟩ := List.cons.inj left
        exact .entered 2 (by omega) ok closes rfl
      · obtain ⟨rfl, rfl⟩ := List.cons.inj left
        exact .queued ⟨session.phase, session.world.conn⟩ ok closes rfl alive id rfl
  | queued found ok closes stored was before left =>
      rw [shape] at left
      obtain ⟨rfl, rfl⟩ := List.cons.inj left
      have stays : ¬ thread.closes = true := Bool.eq_false_iff.mp closes
      refine .checked found session.world.conn.sendQ.length stored was before rfl
        (fun closing => (stays closing).elim) ?_ ?_
      · rintro (closing | exchanges)
        · exact (stays closing).elim
        · rw [Thread.advance_rest] at exchanges
          simp only [Instr.expand] at exchanges
          split_ifs at exchanges with overflow
          · exact overflow
          · simp at exchanges
      · intro other member
        rw [Thread.advance_rest] at member
        simp only [Instr.expand] at member
        split_ifs at member
        · simp only [List.cons_append, List.nil_append, List.mem_cons] at member
          rcases member with rfl | rfl | rfl | rfl | rfl | none
          · trivial
          · trivial
          · trivial
          · trivial
          · trivial
          · cases none
        · simp only [List.nil_append, List.mem_cons] at member
          rcases member with rfl | rfl | rfl | rfl | none
          · trivial
          · trivial
          · trivial
          · trivial
          · cases none
  | checked found qsz stored was before size closes long later =>
      exact late stored was before size closes long later shape

end Pushing

/-! ## All calls of a session -/

namespace Session

/-- The calls that have begun, with what they have done. -/
def calls (session : Session) : List Thread := session.threads ++ session.returned

/-- Every push is as far as its stage says, and a closed connection was closed by
one of the calls. -/
structure Tracked (session : Session) : Prop where
  pushing : ∀ thread ∈ session.calls, ∀ message, thread.call = .push message →
    Pushing session.world.conn.closed message thread
  closer : session.world.conn.closed = true → ∃ thread ∈ session.calls, thread.closes = true

variable {session after : Session}

/-- The flag is set by a call that records it. -/
theorem advance_closes {thread : Thread} {instr : Instr} {rest : List Instr}
    (acts : Acts instr session.world thread.effects (instr.exec session.world)
      (thread.advance session instr rest).effects)
    (closed : (instr.exec session.world).conn.closed = true) :
    session.world.conn.closed = true ∨ (thread.advance session instr rest).closes = true := by
  cases acts with
  | calls effect same shape made kept => exact Or.inl (kept.symm.trans closed)
  | closes exchange wasOpen nowClosed made shape =>
      subst exchange
      right
      change (thread.closes || !session.world.conn.closed) = true
      rw [wasOpen, Bool.not_false, Bool.or_true]
  | keeps made kept same => exact Or.inl (kept.symm.trans closed)

/-- A call that has closed the connection stays on record. -/
theorem advance_closes_mono {thread : Thread} (instr : Instr) (rest : List Instr)
    (closes : thread.closes = true) : (thread.advance session instr rest).closes = true := by
  cases instr with
  | compareExchange =>
      change (thread.closes || !session.world.conn.closed) = true
      rw [closes, Bool.true_or]
  | _ => exact closes

namespace Tracked

/-- A push that finds nobody to push to is on record as refused. -/
theorem refused (tracked : Tracked session) (call : Call) :
    Tracked { session with returned := session.returned ++ [{ call, rest := [] }] } := by
  obtain ⟨pushing, closer⟩ := tracked
  have member : ∀ thread, thread ∈ session.threads ++ (session.returned ++ [{ call, rest := [] }]) ↔
      thread ∈ session.calls ∨ thread = { call, rest := [] } := by
    intro thread
    rw [← List.append_assoc, List.mem_append, List.mem_singleton]
    rfl
  refine ⟨?_, ?_⟩
  · intro thread inside message push
    rcases (member thread).mp inside with old | rfl
    · exact pushing thread old message push
    · exact .refused rfl rfl
  · intro closed
    obtain ⟨thread, old, closes⟩ := closer closed
    exact ⟨thread, (member thread).mpr (Or.inl old), closes⟩

/-- A push that begins has nothing done. -/
theorem begun (tracked : Tracked session) (call : Call) :
    Tracked { session.take call with
      threads := session.threads ++ [{ call, rest := call.program }] } := by
  obtain ⟨pushing, closer⟩ := tracked
  have member : ∀ thread, thread ∈ session.threads ++ [{ call, rest := call.program }] ++
      (session.take call).returned ↔
        thread ∈ session.calls ∨ thread = { call, rest := call.program } := by
    intro thread
    have returned : (session.take call).returned = session.returned := by
      cases call <;> rfl
    simp only [returned, calls, List.mem_append, List.mem_singleton]
    tauto
  refine ⟨?_, ?_⟩
  · intro thread inside message push
    rw [take_conn]
    rcases (member thread).mp inside with old | rfl
    · exact pushing thread old message push
    · obtain rfl : call = .push message := push
      exact .entered 0 (Nat.zero_le 2) rfl rfl rfl
  · rw [take_conn]
    intro closed
    obtain ⟨thread, old, closes⟩ := closer closed
    exact ⟨thread, (member thread).mpr (Or.inl old), closes⟩

/-- One step of a thread. -/
theorem ran {front back : List Thread} {thread : Thread} {instr : Instr} {rest : List Instr}
    (tracked : Tracked session) (threads : session.threads = front ++ thread :: back)
    (shape : thread.rest = instr :: rest)
    (alive : thread.call ≠ .destroy → session.phase = .alive) :
    Tracked { session with
      world := instr.exec session.world
      reading := session.reading || instr == .asyncRead
      locked := instr.locks session.locked
      threads := front ++ thread.advance session instr rest :: back } := by
  obtain ⟨pushing, closer⟩ := tracked
  have acts := acts session thread shape
  unfold calls at pushing closer
  rw [threads, List.append_assoc, List.cons_append] at pushing closer
  refine ⟨?_, ?_⟩
  · have kept : ∀ other ∈ front ++ thread :: (back ++ session.returned), ∀ message,
        other.call = .push message →
          Pushing (instr.exec session.world).conn.closed message other := by
      intro other member message push
      exact (pushing other member message push).mono acts.closed_mono
    unfold calls
    rw [List.append_assoc, List.cons_append]
    apply Pool.forall_replace kept
    intro message push
    rw [Thread.advance_call] at push
    refine Pushing.mono ?_ acts.closed_mono
    apply (pushing thread (Pool.mem_split front _ thread) message push).advance shape
    apply alive
    rw [push]
    intro destroys
    cases destroys
  · intro closed
    unfold calls
    rw [List.append_assoc, List.cons_append]
    rcases advance_closes acts closed with before | now
    · obtain ⟨other, member, closes⟩ := closer before
      rcases List.mem_append.mp member with ahead | behind
      · exact ⟨other, List.mem_append_left _ ahead, closes⟩
      · rcases List.mem_cons.mp behind with rfl | behind
        · exact ⟨_, Pool.mem_split front _ _, advance_closes_mono instr rest closes⟩
        · exact ⟨other, List.mem_append_right _ (List.mem_cons_of_mem _ behind), closes⟩
    · exact ⟨_, Pool.mem_split front _ _, now⟩

/-- A call that returns stays on record. -/
theorem left {front back : List Thread} {thread : Thread} (phase : Phase)
    (tracked : Tracked session) (threads : session.threads = front ++ thread :: back) :
    Tracked { session with
      threads := front ++ back
      returned := session.returned ++ [thread]
      phase } := by
  have same : ∀ other, other ∈ front ++ back ++ (session.returned ++ [thread]) ↔
      other ∈ session.calls := by
    intro other
    simp only [calls, threads, List.mem_append, List.mem_cons, List.not_mem_nil, or_false]
    tauto
  refine ⟨?_, ?_⟩
  · intro other member message push
    exact tracked.pushing other ((same other).mp member) message push
  · intro closed
    obtain ⟨other, member, closes⟩ := tracked.closer closed
    exact ⟨other, (same other).mpr member, closes⟩

theorem step {event : ThreadEvent} (tracked : Tracked session) (ending : Ending session)
    (moved : session.step? event = some after) : Tracked after := by
  cases step_cases moved with
  | refused call admitted named lost => exact tracked.refused call
  | begun call admitted owned => exact tracked.begun call
  | ran front back thread instr rest threads shape enabled =>
      apply tracked.ran threads shape
      apply ending.alive_of_mem
      rw [threads]
      exact Pool.mem_split front back thread
  | left front back thread threads done => exact tracked.left _ threads

end Tracked

theorem tracked_of_reachable (reachable : sessionSystem.Reachable session) :
    Tracked session := by
  apply reachable.invariant
  · rintro start rfl
    constructor
    · intro thread member message push
      obtain rfl := List.mem_singleton.mp member
      cases push
    · intro closed
      cases closed
  · intro before after event earlier tracked moved
    exact tracked.step (ending_of_reachable earlier) moved

/-- **A successful push.** When `WSPush` has returned true, the connection had not
been destroyed when the frame was put into its queue. The push has closed the
connection only if it was open then and the queue held more than 100 frames with
this one; a connection that was closed already was closed by another call. -/
theorem reachable_push_true (reachable : sessionSystem.Reachable session) {thread : Thread}
    (returned : thread ∈ session.returned) {message : Bytes}
    (push : thread.call = .push message) (ok : thread.ok = true) :
    ∃ found qsz, thread.found = some found ∧ thread.qsz = some qsz ∧ found.phase = .alive ∧
      (thread.closes = true → found.conn.closed = false ∧ qsz > 100) ∧
      (found.conn.closed = true → ∃ other ∈ session.calls, other ≠ thread ∧ other.closes = true) := by
  obtain ⟨pushing, closer⟩ := tracked_of_reachable reachable
  cases pushing thread (List.mem_append_right _ returned) message push with
  | refused refuted =>
      rw [ok] at refuted
      cases refuted
  | entered steps few refuted =>
      rw [ok] at refuted
      cases refuted
  | queued found refuted =>
      rw [ok] at refuted
      cases refuted
  | checked found qsz stored alive before size closes long late =>
      refine ⟨found, qsz, stored, size, alive, ?_, ?_⟩
      · intro closing
        exact ⟨closes closing, long (Or.inl closing)⟩
      · intro was
        obtain ⟨other, member, closing⟩ := closer (before was)
        refine ⟨other, member, ?_, closing⟩
        rintro rfl
        rw [closes closing] at was
        cases was

/-- A run after which a returned call passes a test. -/
theorem exists_returned (events : List ThreadEvent) (test : Thread → Bool)
    (passes : (events.foldlM step? {}).map (fun session => session.returned.any test) = some true) :
    ∃ session, sessionSystem.Run {} events session ∧
      ∃ thread ∈ session.returned, test thread = true := by
  obtain ⟨session, executed, passed⟩ := Option.map_eq_some_iff.mp passes
  exact ⟨session, .of_foldlM executed, List.any_eq_true.mp passed⟩

/-- A call of `WSPush` that runs alone, with the steps of `stop` when it overflows
the queue. -/
def pushAlone (message : Bytes) (stopping : Nat) : List ThreadEvent :=
  [.call (.push message)] ++ List.replicate (8 + stopping) (.run 0) ++ [.finish 0]

/-- A push to an open connection. -/
def pushedOpen : List ThreadEvent := [.run 0, .run 0, .finish 0] ++ pushAlone (ascii "a") 0

theorem reachable_push_true_open : ∃ session, sessionSystem.Run {} pushedOpen session ∧
    ∃ thread ∈ session.returned, thread.call = .push (ascii "a") ∧ thread.ok = true ∧
    ∃ found qsz, thread.found = some found ∧ thread.qsz = some qsz ∧ found.phase = .alive ∧
      (thread.closes = true → found.conn.closed = false ∧ qsz > 100) ∧
      (found.conn.closed = true →
        ∃ other ∈ session.calls, other ≠ thread ∧ other.closes = true) := by
  obtain ⟨session, run, thread, member, passed⟩ := exists_returned pushedOpen
    (fun thread => thread.call = .push (ascii "a") && thread.ok) (by decide +kernel)
  obtain ⟨push, ok⟩ := Bool.and_eq_true_iff.mp passed
  have named := of_decide_eq_true push
  exact ⟨session, run, thread, member, named, ok,
    reachable_push_true (run.reachable rfl) member named ok⟩

/-- A push after a frame from the client has closed the connection. -/
def pushedClosed : List ThreadEvent := stoppedWriting ++ pushAlone (ascii "b") 0

/-- The push of the frame that overflows the queue, while the first is written. -/
def pushedOver : List ThreadEvent :=
  [.run 0, .run 0, .finish 0] ++ (List.replicate 100 (pushAlone [] 0)).flatten ++ pushAlone [] 5

/-- A push to a closed connection and one that closes the connection return true. -/
theorem not_push_accepted :
    (¬ ∀ session : Session, sessionSystem.Reachable session → ∀ thread ∈ session.returned,
      ∀ message, thread.call = .push message → thread.ok = true →
        ∃ found, thread.found = some found ∧ found.conn.closed = false) ∧
    ¬ ∀ session : Session, sessionSystem.Reachable session → ∀ thread ∈ session.returned,
      ∀ message, thread.call = .push message → thread.ok = true → thread.closes = false := by
  constructor
  · intro always
    obtain ⟨session, run, thread, member, passed⟩ := exists_returned pushedClosed
      (fun thread => thread.call = .push (ascii "b") && thread.ok &&
        thread.found.any (·.conn.closed)) (by decide +kernel)
    obtain ⟨called, closed⟩ := Bool.and_eq_true_iff.mp passed
    obtain ⟨push, ok⟩ := Bool.and_eq_true_iff.mp called
    obtain ⟨found, stored, stillOpen⟩ :=
      always session (run.reachable rfl) thread member _ (of_decide_eq_true push) ok
    rw [stored, Option.any_some, stillOpen] at closed
    cases closed
  · intro always
    obtain ⟨session, run, thread, member, passed⟩ := exists_returned pushedOver
      (fun thread => thread.call = .push [] && thread.ok && thread.closes) (by decide +kernel)
    obtain ⟨called, closes⟩ := Bool.and_eq_true_iff.mp passed
    obtain ⟨push, ok⟩ := Bool.and_eq_true_iff.mp called
    rw [always session (run.reachable rfl) thread member _ (of_decide_eq_true push) ok] at closes
    cases closes

end Session

end Webserver.WS
