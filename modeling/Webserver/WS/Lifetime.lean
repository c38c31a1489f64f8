import Webserver.WS.Accepted

/-! # The life of a session

A connection reads from its client as long as it is open, and the handler of that
read holds it. So until that handler is dropped without being run, a call by id finds
every open connection, only closed ones are destroyed, and the destructor does not have
to close.
-/

namespace Webserver.WS.Session

open Foundation

variable {session after : Session}

/-- The connection is closed, or its read is outstanding, or a call in progress will
start that read or close the connection. -/
def Watched (session : Session) : Prop :=
  session.world.conn.closed = true ∨ session.reading = true ∨
    ∃ thread ∈ session.threads, .asyncRead ∈ thread.rest ∨ .compareExchange ∈ thread.rest

/-- The destructor before and after its test, which did not make it close. -/
def Destructs (thread : Thread) : Prop :=
  thread.closes = false ∧ (thread.rest = [.testClosed] ∨ thread.rest = [])

/-- What lasts until a connection is closed. -/
structure Lasting (session : Session) : Prop where
  watched : Watched session
  ended : session.phase ≠ .alive → session.world.conn.closed = true
  destructor : ∀ thread ∈ session.calls, thread.call = .destroy → Destructs thread

namespace Watched

/-- With no call in progress an open connection is being read. -/
theorem reading (watched : Watched session) (idle : session.threads = [])
    (stillOpen : session.world.conn.closed = false) : session.reading = true := by
  rcases watched with closed | reading | ⟨thread, member, -⟩
  · rw [stillOpen] at closed
    cases closed
  · exact reading
  · rw [idle] at member
    cases member

/-- The destructor begins only when the connection is closed. -/
theorem destroyable (watched : Watched session) (admitted : session.Admits .destroy) :
    session.world.conn.closed = true := by
  obtain ⟨phase, free⟩ := admitted
  have unheld : session.threads = [] ∧ session.reading = false := by
    simp only [Owned, phase, true_and, not_or, ne_eq, not_not, Bool.not_eq_true] at free
    exact ⟨free.1, free.2.1⟩
  by_contra stillOpen
  have reading := watched.reading unheld.1 (Bool.eq_false_iff.mpr stillOpen)
  rw [unheld.2] at reading
  cases reading

theorem begun (watched : Watched session) (call : Call) :
    Watched { session.take call with
      threads := session.threads ++ [{ call, rest := call.program }] } := by
  unfold Watched
  rw [take_conn]
  rcases watched with closed | reading | ⟨thread, member, will⟩
  · exact Or.inl closed
  · cases call with
    | read error =>
        -- the handler of the read is going to close the connection
        right; right
        refine ⟨_, List.mem_append_right _ (List.mem_singleton_self _), Or.inr ?_⟩
        exact List.mem_append_right _ (List.mem_singleton_self _)
    | _ => exact Or.inr (Or.inl reading)
  · exact Or.inr (Or.inr ⟨thread, List.mem_append_left _ member, will⟩)

theorem ran {front back : List Thread} {thread : Thread} {instr : Instr} {rest : List Instr}
    (watched : Watched session) (threads : session.threads = front ++ thread :: back)
    (shape : thread.rest = instr :: rest) :
    Watched { session with
      world := instr.exec session.world
      reading := session.reading || instr == .asyncRead
      locked := instr.locks session.locked
      threads := front ++ thread.advance session instr rest :: back } := by
  rcases watched with closed | reading | ⟨other, member, will⟩
  · exact Or.inl ((acts session thread shape).closed_mono closed)
  · exact Or.inr (Or.inl (by rw [reading, Bool.true_or]))
  · have later {needed : Instr} (inside : needed ∈ rest) :
        needed ∈ (thread.advance session instr rest).rest := by
      rw [Thread.advance_rest]
      exact List.mem_append_right _ inside
    rw [threads, List.mem_append, List.mem_cons] at member
    rcases member with ahead | rfl | behind
    · exact Or.inr (Or.inr ⟨other, List.mem_append_left _ ahead, will⟩)
    · rw [shape, List.mem_cons, List.mem_cons] at will
      rcases will with (rfl | inside) | (rfl | inside)
      · exact Or.inr (Or.inl (Bool.or_true _))
      · exact Or.inr (Or.inr ⟨_, Pool.mem_split front back _, Or.inl (later inside)⟩)
      · exact Or.inl rfl
      · exact Or.inr (Or.inr ⟨_, Pool.mem_split front back _, Or.inr (later inside)⟩)
    · exact Or.inr (Or.inr
        ⟨other, List.mem_append_right _ (List.mem_cons_of_mem _ behind), will⟩)

theorem left {front back : List Thread} {thread : Thread} (phase : Phase)
    (watched : Watched session) (threads : session.threads = front ++ thread :: back)
    (done : thread.rest = []) :
    Watched { session with
      threads := front ++ back
      returned := session.returned ++ [thread]
      phase } := by
  rcases watched with closed | reading | ⟨other, member, will⟩
  · exact Or.inl closed
  · exact Or.inr (Or.inl reading)
  · have different : other ≠ thread := by
      rintro rfl
      rw [done] at will
      rcases will with inside | inside <;> cases inside
    rw [threads, List.mem_append, List.mem_cons] at member
    refine Or.inr (Or.inr ⟨other, List.mem_append.mpr ?_, will⟩)
    exact member.imp_right (fun behind => behind.resolve_left different)

end Watched

namespace Lasting

/-- One step of the destructor: it finds the connection closed. -/
theorem advance {thread : Thread} {instr : Instr} {rest : List Instr}
    (closed : session.world.conn.closed = true) (destructs : Destructs thread)
    (shape : thread.rest = instr :: rest) : Destructs (thread.advance session instr rest) := by
  obtain ⟨closes, test | ended⟩ := destructs
  · rw [shape] at test
    obtain ⟨rfl, rfl⟩ := List.cons.inj test
    refine ⟨closes, Or.inr ?_⟩
    rw [Thread.advance_rest, Instr.expand, if_pos closed]
    rfl
  · rw [shape] at ended
    cases ended

theorem step {event : ThreadEvent} (lasting : Lasting session) (ending : Ending session)
    (moved : session.step? event = some after) : Lasting after := by
  obtain ⟨watched, ended, destructor⟩ := lasting
  cases step_cases moved with
  | refused call admitted named lost =>
      refine ⟨watched, ended, ?_⟩
      intro thread member destroys
      rcases List.mem_append.mp member with inside | inside
      · exact destructor thread (List.mem_append_left _ inside) destroys
      · rcases List.mem_append.mp inside with old | new
        · exact destructor thread (List.mem_append_right _ old) destroys
        · rw [List.mem_singleton.mp new] at destroys
          change call = .destroy at destroys
          rw [destroys] at named
          cases named
  | begun call admitted owned =>
      refine ⟨watched.begun call, ?_, ?_⟩
      · rw [take_conn]
        intro gone
        cases call with
        | destroy => exact watched.destroyable admitted
        | _ => exact ended gone
      · intro thread member destroys
        have returned : (session.take call).returned = session.returned := by
          cases call <;> rfl
        simp only [calls, returned, List.append_assoc, List.mem_append, List.mem_cons,
          List.not_mem_nil, or_false] at member
        rcases member with old | rfl | old
        · exact destructor thread (List.mem_append_left _ old) destroys
        · change call = .destroy at destroys
          subst destroys
          exact ⟨rfl, Or.inl rfl⟩
        · exact destructor thread (List.mem_append_right _ old) destroys
  | ran front back thread instr rest threads shape enabled =>
      have acts := acts session thread shape
      have mine : thread ∈ session.threads := by
        rw [threads]
        exact Pool.mem_split front back thread
      refine ⟨watched.ran threads shape, fun gone => acts.closed_mono (ended gone), ?_⟩
      unfold calls at destructor ⊢
      rw [threads, List.append_assoc, List.cons_append] at destructor
      rw [List.append_assoc, List.cons_append]
      apply Pool.forall_replace destructor
      rw [Thread.advance_call]
      intro destroys
      have gone : session.phase ≠ .alive := by
        intro alive
        cases ending with
        | alive phase others => exact others thread mine destroys
        | destroying only phase => rw [alive] at phase; cases phase
        | destroyed phase => rw [alive] at phase; cases phase
      exact advance (ended gone) (destructor thread (Pool.mem_split front _ thread) destroys) shape
  | left front back thread threads done =>
      refine ⟨watched.left _ threads done, ?_, ?_⟩
      · intro gone
        by_cases destroys : thread.call = .destroy
        · cases ending with
          | alive phase others =>
              refine (others thread ?_ destroys).elim
              rw [threads]
              exact Pool.mem_split front back thread
          | destroying only phase => exact ended (by simp [phase])
          | destroyed phase => exact ended (by simp [phase])
        · simp only [if_neg destroys] at gone
          exact ended gone
      · intro other member
        apply destructor other
        simp only [calls, threads, List.mem_append, List.mem_cons, List.not_mem_nil,
          or_false] at member ⊢
        tauto

theorem live {event : LifeEvent} (lasting : Lasting session) (ending : Ending session)
    (lived : session.live? event = some after) (kept : event ≠ .dropRead) : Lasting after := by
  cases live_cases lived with
  | moved event after moved => exact lasting.step ending moved
  | droppedRead reading => exact (kept rfl).elim
  | droppedWrite write member => exact ⟨lasting.watched, lasting.ended, lasting.destructor⟩

end Lasting

/-- The life of a connection whose read is not dropped. -/
def readSystem : System Session LifeEvent :=
  lifeSystem.restrict fun _ event _ => event ≠ .dropRead

theorem lasting_of_reachable (reachable : readSystem.Reachable session) :
    Lasting session := by
  apply reachable.invariant
  · rintro start rfl
    refine ⟨Or.inr (Or.inr ⟨_, List.mem_singleton_self _, Or.inl ?_⟩), fun gone => (gone rfl).elim,
      ?_⟩
    · decide
    · intro thread member destroys
      rw [List.mem_singleton.mp member] at destroys
      cases destroys
  · intro before event after earlier lasting moved
    exact lasting.live (ending_of_life earlier.of_restrict) moved.1 moved.2

/-- **The life of a session.** As long as the handler of its read is not dropped without
being run, an open connection is held by a call or by an outstanding operation, so that
`WSPush` and `WSClose` find it; with no call in progress it is being read; and a
connection whose destructor has begun was closed before, so that no destructor calls
`ws_onclose` or closes a socket. -/
theorem reachable_lifetime (reachable : readSystem.Reachable session) :
    (session.world.conn.closed = false →
      session.Owned ∧ (session.threads = [] → session.reading = true)) ∧
    (session.phase ≠ .alive → session.world.conn.closed = true) ∧
    ∀ thread ∈ session.calls, thread.call = .destroy →
      thread.closes = false ∧ ∀ effect, .call effect ∉ thread.rest := by
  obtain ⟨watched, ended, destructor⟩ := lasting_of_reachable reachable
  refine ⟨?_, ended, ?_⟩
  · intro stillOpen
    have alive : session.phase = .alive := by
      by_contra gone
      rw [ended gone] at stillOpen
      cases stillOpen
    refine ⟨⟨alive, ?_⟩, fun idle => watched.reading idle stillOpen⟩
    by_cases idle : session.threads = []
    · exact Or.inr (Or.inl (watched.reading idle stillOpen))
    · exact Or.inl idle
  · intro thread member destroys
    obtain ⟨closes, test | done⟩ := destructor thread member destroys
    · refine ⟨closes, ?_⟩
      intro effect calls
      rw [test] at calls
      cases List.mem_singleton.mp calls
    · refine ⟨closes, ?_⟩
      intro effect calls
      rw [done] at calls
      cases calls

/-- A frame from the client closes the connection, which is destroyed. -/
def closedByClient : List ThreadEvent :=
  .call (.read none) :: List.replicate 5 (.run 0) ++ .finish 0 :: destruction 1

/-- The same after the handler of a write has been dropped. -/
def droppedWriting : List LifeEvent :=
  writingMessage.map LifeEvent.thread ++
    .dropWrite ⟨⟨0, textFrame (ascii "a")⟩, false⟩ :: closedByClient.map LifeEvent.thread

theorem reachable_lifetime_destroyed : ∃ session, readSystem.Run {} droppedWriting session ∧
    session.phase = .destroyed ∧
    (session.world.conn.closed = false →
      session.Owned ∧ (session.threads = [] → session.reading = true)) ∧
    (session.phase ≠ .alive → session.world.conn.closed = true) ∧
    ∀ thread ∈ session.calls, thread.call = .destroy →
      thread.closes = false ∧ ∀ effect, .call effect ∉ thread.rest := by
  have executed : (droppedWriting.foldlM (fun before event =>
      if event ≠ .dropRead then before.live? event else none) {}).map Session.phase =
        some .destroyed := by
    decide +kernel
  obtain ⟨session, moved, phase⟩ := Option.map_eq_some_iff.mp executed
  have run : readSystem.Run {} droppedWriting session := .restrict_of_foldlM moved
  exact ⟨session, run, phase, reachable_lifetime (run.reachable rfl)⟩

end Webserver.WS.Session
