import Webserver.WS.Threads

/-! # Closing a session

However its threads interleave, and whether its handlers are run or dropped, a
connection calls `ws_onclose` and the socket functions of `stop` at most once each, in
their order, and exactly once by the time it is destroyed. The thread whose exchange
finds `closed_` false carries the calls that are left; it is the destructor's when the
handlers that would have closed the connection have been dropped.
-/

namespace Webserver.WS

open Foundation

/-- The calls that close a session, among others. -/
def closings (effects : List Effect) : List Effect := effects.filter (· ∈ closing)

namespace Instr

/-- The call a step makes. -/
def effect? : Instr → Option Effect
  | .call effect => some effect
  | _ => none

end Instr

namespace Thread

/-- The calls of callbacks and socket functions a thread is about to make. -/
def effects (thread : Thread) : List Effect := thread.rest.filterMap Instr.effect?

end Thread

/-- The calls made and still to make: a step makes the next one, or its exchange
closes the connection and adds those of `stop`, or nothing changes. -/
inductive Acts (instr : Instr) (world : World) (effects : List Effect) (after : World)
    (next : List Effect) : Prop where
  | calls (effect : Effect) : instr = .call effect → effects = effect :: next →
      after.effects = world.effects ++ [effect] → after.conn.closed = world.conn.closed →
      Acts instr world effects after next
  | closes : instr = .compareExchange → world.conn.closed = false → after.conn.closed = true →
      after.effects = world.effects → next = closing ++ effects →
      Acts instr world effects after next
  | keeps : after.effects = world.effects → after.conn.closed = world.conn.closed →
      next = effects → Acts instr world effects after next

theorem asyncWrite_effects (world : World) : world.asyncWrite.effects = world.effects := by
  unfold World.asyncWrite
  split <;> rfl

/-- A step that neither makes a call nor exchanges the flag. -/
def Instr.Silent : Instr → Prop
  | .call _ | .compareExchange => False
  | _ => True

theorem Instr.Silent.effect?_eq_none {instr : Instr} (silent : instr.Silent) :
    instr.effect? = none := by
  cases instr with
  | call effect => exact silent.elim
  | _ => rfl

theorem Instr.Silent.exec_keeps {instr : Instr} (silent : instr.Silent) (world : World) :
    (instr.exec world).effects = world.effects ∧
      (instr.exec world).conn.closed = world.conn.closed := by
  cases instr with
  | call effect => exact silent.elim
  | compareExchange => exact silent.elim
  | startSingle =>
      simp only [Instr.exec, World.startSingle]
      split
      · exact ⟨asyncWrite_effects world, by rw [World.asyncWrite_conn]⟩
      · exact ⟨rfl, rfl⟩
  | startNext =>
      simp only [Instr.exec]
      split
      · exact ⟨asyncWrite_effects world, by rw [World.asyncWrite_conn]⟩
      · exact ⟨rfl, rfl⟩
  | _ => exact ⟨rfl, rfl⟩

theorem Instr.Silent.expand_effects {instr : Instr} (silent : instr.Silent) (world : World) :
    (instr.expand world).filterMap Instr.effect? = [] := by
  cases instr with
  | compareExchange => exact silent.elim
  | checkSize =>
      simp only [Instr.expand]
      split <;> rfl
  | testClosed =>
      simp only [Instr.expand]
      split <;> rfl
  | _ => rfl

/-- What a step of a thread does to the calls. -/
theorem Session.acts (session : Session) (thread : Thread) {instr : Instr} {rest : List Instr}
    (shape : thread.rest = instr :: rest) :
    Acts instr session.world thread.effects (instr.exec session.world)
      (thread.advance session instr rest).effects := by
  have next : (thread.advance session instr rest).effects =
      (instr.expand session.world).filterMap Instr.effect? ++ rest.filterMap Instr.effect? := by
    rw [Thread.effects, Thread.advance_rest, List.filterMap_append]
  have silently : instr.Silent → Acts instr session.world thread.effects
      (instr.exec session.world) (thread.advance session instr rest).effects := by
    intro silent
    obtain ⟨made, closed⟩ := silent.exec_keeps session.world
    apply Acts.keeps made closed
    rw [next, Thread.effects, shape, silent.expand_effects,
      List.filterMap_cons_none silent.effect?_eq_none, List.nil_append]
  cases instr with
  | call effect =>
      refine .calls effect rfl ?_ rfl rfl
      rw [next, Thread.effects, shape]
      rfl
  | compareExchange =>
      have unchanged : thread.effects = rest.filterMap Instr.effect? := by
        rw [Thread.effects, shape]
        exact List.filterMap_cons_none rfl
      cases closed : session.world.conn.closed with
      | true =>
          refine .keeps rfl closed.symm ?_
          simp only [next, unchanged, Instr.expand, closed]
          rfl
      | false =>
          refine .closes rfl closed rfl rfl ?_
          simp only [next, unchanged, Instr.expand, closed]
          rfl
  | _ => exact silently trivial

/-! ## Closing once -/

/-- The calls of `stop` that a thread is about to make. -/
def Thread.closings (thread : Thread) : List Effect := WS.closings thread.effects

@[simp] theorem closings_append (left right : List Effect) :
    closings (left ++ right) = closings left ++ closings right := List.filter_append left right

theorem report_effects (error : Option ErrorCode) :
    closings ((report error).filterMap Instr.effect?) = [] := by
  rcases error with _ | _ | _ <;> rfl

/-- No call has the closing calls in its own body: they come with an exchange. -/
theorem program_closings (call : Call) :
    ({ call, rest := call.program } : Thread).closings = [] := by
  cases call with
  | read error =>
      simp only [Thread.closings, Thread.effects, Call.program, List.filterMap_append,
        closings_append, report_effects]
      rfl
  | written write error =>
      cases error with
      | none => rfl
      | some code =>
          simp only [Thread.closings, Thread.effects, Call.program, List.filterMap_append,
            closings_append, report_effects]
          rfl
  | _ => rfl

/-- The closing calls made, and those still to make, are those of one `stop` once
the flag is set; one thread alone has any to make. -/
structure ClosedOnce (session : Session) : Prop where
  made : closings session.world.effects ++ session.threads.flatMap Thread.closings =
    if session.world.conn.closed then closing else []
  alone : session.threads.Pairwise fun left right => left.closings = [] ∨ right.closings = []

namespace ClosedOnce

variable {session after : Session} {front back : List Thread} {thread : Thread}

/-- Where one thread has closing calls to make, the others have none. -/
theorem others (once : ClosedOnce session) (threads : session.threads = front ++ thread :: back)
    (owner : thread.closings ≠ []) :
    front.flatMap Thread.closings = [] ∧ back.flatMap Thread.closings = [] := by
  have alone := once.alone
  rw [threads, List.pairwise_append, List.pairwise_cons] at alone
  obtain ⟨-, ⟨behind, -⟩, across⟩ := alone
  constructor
  · apply List.flatMap_eq_nil_iff.mpr
    intro other member
    exact (across other member thread List.mem_cons_self).resolve_right owner
  · apply List.flatMap_eq_nil_iff.mpr
    intro other member
    exact (behind other member).resolve_left owner

/-- One step of a thread. -/
theorem ran (once : ClosedOnce session) (threads : session.threads = front ++ thread :: back)
    {next : Thread} {instr : Instr}
    (acts : Acts instr session.world thread.effects after.world next.effects)
    (replaced : after.threads = front ++ next :: back) : ClosedOnce after := by
  have made := once.made
  have alone := once.alone
  rw [threads] at made alone
  rw [List.flatMap_append, List.flatMap_cons] at made
  -- a thread with nothing to make gets nothing, unless it closes
  have keeps (idle : thread.closings = [] → next.closings = []) :
      after.threads.Pairwise fun left right => left.closings = [] ∨ right.closings = [] := by
    rw [replaced]
    apply Pool.pairwise_replace alone
    · intro other _ either
      exact either.imp_right idle
    · intro other _ either
      exact either.imp_left idle
  cases acts with
  | calls effect _ shape effects closed =>
      have split : thread.closings = closings [effect] ++ next.closings := by
        rw [Thread.closings, shape]
        exact closings_append [effect] next.effects
      refine ⟨?_, ?_⟩
      · rw [closed, ← made, effects, replaced, List.flatMap_append, List.flatMap_cons,
          closings_append]
        by_cases owner : thread.closings = []
        · rw [split] at owner
          obtain ⟨nothing, idle⟩ := List.append_eq_nil_iff.mp owner
          rw [split, nothing, List.append_nil, List.nil_append]
        · obtain ⟨before, behind⟩ := once.others threads owner
          rw [split, before, behind]
          simp only [List.nil_append, List.append_nil, List.append_assoc]
      · apply keeps
        intro idle
        rw [split] at idle
        exact (List.append_eq_nil_iff.mp idle).2
  | closes _ wasOpen nowClosed effects shape =>
      rw [wasOpen] at made
      obtain ⟨none, made⟩ := List.append_eq_nil_iff.mp made
      obtain ⟨before, made⟩ := List.append_eq_nil_iff.mp made
      obtain ⟨idle, behind⟩ := List.append_eq_nil_iff.mp made
      have closes : next.closings = closing := by
        rw [Thread.closings, shape, closings_append]
        change closings closing ++ thread.closings = closing
        rw [idle]
        rfl
      refine ⟨?_, ?_⟩
      · rw [nowClosed, effects, none, replaced, List.flatMap_append, List.flatMap_cons, before,
          behind, closes]
        rfl
      · rw [replaced]
        apply Pool.pairwise_replace alone
        · intro other member _
          exact Or.inl (List.flatMap_eq_nil_iff.mp before other member)
        · intro other member _
          exact Or.inr (List.flatMap_eq_nil_iff.mp behind other member)
  | keeps effects closed shape =>
      have same : next.closings = thread.closings := by
        rw [Thread.closings, shape]
        rfl
      refine ⟨?_, ?_⟩
      · rw [closed, ← made, effects, replaced, List.flatMap_append, List.flatMap_cons, same]
      · apply keeps
        intro idle
        rw [same, idle]

theorem step {event : ThreadEvent} (once : ClosedOnce session)
    (moved : session.step? event = some after) : ClosedOnce after := by
  cases Session.step_cases moved with
  | refused call admitted named lost => exact ⟨once.made, once.alone⟩
  | begun call admitted owned =>
      have idle := program_closings call
      refine ⟨?_, ?_⟩
      · simp only [Session.take_effects, Session.take_conn, List.flatMap_append, List.flatMap_cons,
          idle, List.flatMap_nil, List.append_nil]
        exact once.made
      · apply List.pairwise_append.mpr
        refine ⟨once.alone, List.pairwise_singleton _ _, ?_⟩
        intro early _ late member
        rw [List.mem_singleton.mp member]
        exact Or.inr idle
  | ran front back thread instr rest threads shape enabled =>
      exact once.ran threads (Session.acts session thread shape) rfl
  | left front back thread threads done =>
      have made := once.made
      have alone := once.alone
      have idle : thread.closings = [] := by
        rw [Thread.closings, Thread.effects, done]
        rfl
      rw [threads] at made alone
      rw [List.flatMap_append, List.flatMap_cons, idle, List.nil_append] at made
      refine ⟨?_, ?_⟩
      · rw [List.flatMap_append]
        exact made
      · exact alone.sublist (List.Sublist.append_left (List.sublist_cons_self _ _) _)

theorem live {event : LifeEvent} (once : ClosedOnce session)
    (lived : session.live? event = some after) : ClosedOnce after := by
  cases Session.live_cases lived with
  | moved event after moved => exact once.step moved
  | droppedRead reading => exact ⟨once.made, once.alone⟩
  | droppedWrite write member => exact ⟨once.made, once.alone⟩

end ClosedOnce

/-! ## Destruction -/

/-- What is left of a session once its destructor has begun. -/
inductive Ending (session : Session) : Prop where
  | alive : session.phase = .alive → (∀ thread ∈ session.threads, thread.call ≠ .destroy) →
      Ending session
  | destroying (thread : Thread) : session.phase = .destroying → session.threads = [thread] →
      thread.call = .destroy → session.reading = false → session.world.outstanding = [] →
      (thread.rest = [.testClosed] ∨ thread.rest = [.compareExchange] ∨
        session.world.conn.closed = true ∧
          ∃ effects : List Effect, thread.rest = effects.map .call) →
      Ending session
  | destroyed : session.phase = .destroyed → session.threads = [] → session.reading = false →
      session.world.outstanding = [] → session.world.conn.closed = true → Ending session

namespace Ending

variable {session after : Session}

/-- Nothing but a call by id, which fails, begins after the destructor. -/
theorem begun {call : Call} (ended : session.phase ≠ .alive) (reading : session.reading = false)
    (outstanding : session.world.outstanding = []) (admitted : session.Admits call) :
    ¬ (call.byId = true → session.Owned) := by
  intro owned
  cases call with
  | start => exact admitted
  | push message => exact ended (owned rfl).1
  | close => exact ended (owned rfl).1
  | read error =>
      rw [Session.Admits, reading] at admitted
      cases admitted
  | written write error =>
      rw [Session.Admits, outstanding] at admitted
      cases admitted
  | destroy => exact ended admitted.1

/-- A call begins on a live connection; the destructor begins when nobody holds it. -/
theorem begun_alive {call : Call} (phase : session.phase = .alive)
    (others : ∀ thread ∈ session.threads, thread.call ≠ .destroy)
    (admitted : session.Admits call) :
    Ending { session.take call with
      threads := session.threads ++ [{ call, rest := call.program }] } := by
  by_cases destroys : call = .destroy
  · subst destroys
    obtain ⟨-, free⟩ := admitted
    have none : session.threads = [] ∧ session.reading = false ∧
        session.world.outstanding = [] := by
      simpa [Session.Owned, phase] using free
    refine .destroying { call := .destroy, rest := [.testClosed] } rfl ?_ rfl none.2.1
      none.2.2 (Or.inl rfl)
    simp only [none.1]
    rfl
  · have still : (session.take call).phase = .alive := by
      cases call with
      | destroy => exact (destroys rfl).elim
      | _ => exact phase
    refine .alive still ?_
    intro thread member
    rcases List.mem_append.mp member with old | new
    · exact others thread old
    · rw [List.mem_singleton.mp new]
      exact destroys

/-- A step of the destructor. -/
theorem ran {thread : Thread} {instr : Instr} {rest : List Instr}
    (phase : session.phase = .destroying) (named : thread.call = .destroy)
    (reading : session.reading = false) (outstanding : session.world.outstanding = [])
    (stage : thread.rest = [.testClosed] ∨ thread.rest = [.compareExchange] ∨
      session.world.conn.closed = true ∧ ∃ effects : List Effect, thread.rest = effects.map .call)
    (shape : thread.rest = instr :: rest) :
    Ending { session with
      world := instr.exec session.world
      reading := session.reading || instr == .asyncRead
      locked := instr.locks session.locked
      threads := [thread.advance session instr rest] } := by
  have next := Thread.advance_rest session instr rest thread
  have same := (Thread.advance_call session instr rest thread).trans named
  rw [shape] at stage
  rcases stage with test | exchange | ⟨closed, effects, calls⟩
  · obtain ⟨rfl, rfl⟩ := List.cons.inj test
    refine .destroying _ phase rfl same ?_ outstanding ?_
    · rw [reading]
      rfl
    · cases closed : session.world.conn.closed with
      | true =>
          right; right
          refine ⟨closed, [], ?_⟩
          simp only [next, Instr.expand, closed]
          rfl
      | false =>
          right; left
          simp only [next, Instr.expand, closed]
          rfl
  · obtain ⟨rfl, rfl⟩ := List.cons.inj exchange
    refine .destroying _ phase rfl same ?_ outstanding ?_
    · rw [reading]
      rfl
    · right; right
      refine ⟨rfl, ?_⟩
      cases closed : session.world.conn.closed with
      | true =>
          refine ⟨[], ?_⟩
          simp only [next, Instr.expand, closed]
          rfl
      | false =>
          refine ⟨closing, ?_⟩
          simp only [next, Instr.expand, closed]
          rfl
  · cases effects with
    | nil => cases calls
    | cons effect effects =>
        obtain ⟨rfl, rfl⟩ := List.cons.inj calls
        refine .destroying _ phase rfl same ?_ outstanding ?_
        · rw [reading]
          rfl
        · right; right
          exact ⟨closed, effects, next⟩

theorem step {event : ThreadEvent} (ending : Ending session)
    (moved : session.step? event = some after) : Ending after := by
  cases Session.step_cases moved with
  | refused call admitted named lost =>
      cases ending with
      | alive phase others => exact .alive phase others
      | destroying thread phase threads destroys reading outstanding stage =>
          exact .destroying thread phase threads destroys reading outstanding stage
      | destroyed phase threads reading outstanding closed =>
          exact .destroyed phase threads reading outstanding closed
  | begun call admitted owned =>
      cases ending with
      | alive phase others => exact begun_alive phase others admitted
      | destroying thread phase threads destroys reading outstanding stage =>
          exact (begun (by rw [phase]; simp) reading outstanding admitted owned).elim
      | destroyed phase threads reading outstanding closed =>
          exact (begun (by rw [phase]; simp) reading outstanding admitted owned).elim
  | ran front back thread instr rest threads shape enabled =>
      cases ending with
      | alive phase others =>
          refine .alive phase ?_
          rw [threads] at others
          apply Pool.forall_replace others
          rw [Thread.advance_call]
          exact others thread (Pool.mem_split front back thread)
      | destroying only phase single destroys reading outstanding stage =>
          rw [threads] at single
          obtain ⟨rfl, rfl, rfl⟩ := Pool.split_eq_singleton single
          exact Ending.ran phase destroys reading outstanding stage shape
      | destroyed phase none reading outstanding closed =>
          rw [threads] at none
          cases (List.append_eq_nil_iff.mp none).2
  | left front back thread threads done =>
      cases ending with
      | alive phase others =>
          rw [threads] at others
          have named := others thread (Pool.mem_split front back thread)
          refine .alive ?_ ?_
          · simp only [if_neg named]
            exact phase
          · intro other member
            exact others other (Pool.mem_of_removed member)
      | destroying only phase single destroys reading outstanding stage =>
          rw [threads] at single
          obtain ⟨rfl, rfl, rfl⟩ := Pool.split_eq_singleton single
          rw [done] at stage
          rcases stage with test | exchange | ⟨closed, -⟩
          · cases test
          · cases exchange
          · refine .destroyed ?_ rfl reading outstanding closed
            simp only [if_pos destroys]
      | destroyed phase none reading outstanding closed =>
          rw [threads] at none
          cases (List.append_eq_nil_iff.mp none).2

/-- Handlers are dropped while the connection is alive. -/
theorem live {event : LifeEvent} (ending : Ending session)
    (lived : session.live? event = some after) : Ending after := by
  cases Session.live_cases lived with
  | moved event after moved => exact ending.step moved
  | droppedRead reading =>
      cases ending with
      | alive phase others => exact .alive phase others
      | destroying thread phase threads destroys free =>
          rw [free] at reading
          cases reading
      | destroyed phase threads free =>
          rw [free] at reading
          cases reading
  | droppedWrite write member =>
      cases ending with
      | alive phase others => exact .alive phase others
      | destroying thread phase threads destroys reading none =>
          rw [none] at member
          cases member
      | destroyed phase threads reading none =>
          rw [none] at member
          cases member

/-- A call other than the destructor makes its steps while the connection is alive. -/
theorem alive_of_mem (ending : Ending session) {thread : Thread}
    (member : thread ∈ session.threads) (other : thread.call ≠ .destroy) :
    session.phase = .alive := by
  cases ending with
  | alive phase others => exact phase
  | destroying only phase single destroys =>
      rw [single] at member
      rw [List.mem_singleton.mp member] at other
      exact (other destroys).elim
  | destroyed phase none =>
      rw [none] at member
      cases member

end Ending

namespace Session

theorem closedOnce_of_life {session : Session} (reachable : lifeSystem.Reachable session) :
    ClosedOnce session := by
  apply reachable.invariant
  · rintro start rfl
    exact ⟨rfl, List.pairwise_singleton _ _⟩
  · intro before after event _ once lived
    exact once.live lived

theorem ending_of_life {session : Session} (reachable : lifeSystem.Reachable session) :
    Ending session := by
  apply reachable.invariant
  · rintro start rfl
    refine .alive rfl ?_
    intro thread member
    rw [List.mem_singleton.mp member]
    intro destroys
    cases destroys
  · intro before after event _ ending lived
    exact ending.live lived

theorem ending_of_reachable {session : Session} (reachable : sessionSystem.Reachable session) :
    Ending session :=
  ending_of_life (life_of_reachable reachable)

/-- **Closed exactly once.** In every state in the life of a connection the calls of
`ws_onclose` and of the socket functions that close are a beginning of `ws_onclose`,
`_cancel`, `_shutdown`, `_close`, each at most once and in this order; after the
destructor they are all of them. -/
theorem reachable_closings {session : Session} (reachable : lifeSystem.Reachable session) :
    closings session.world.effects <+: [.onclose, .cancel, .shutdown, .close] ∧
      (session.phase = .destroyed →
        closings session.world.effects = [.onclose, .cancel, .shutdown, .close]) := by
  have made := (closedOnce_of_life reachable).made
  constructor
  · cases closed : session.world.conn.closed with
    | true =>
        rw [closed] at made
        exact ⟨_, made⟩
    | false =>
        rw [closed] at made
        rw [(List.append_eq_nil_iff.mp made).1]
        exact List.nil_prefix
  · intro destroyed
    cases ending_of_life reachable with
    | alive phase others =>
        rw [phase] at destroyed
        cases destroyed
    | destroying thread phase =>
        rw [phase] at destroyed
        cases destroyed
    | destroyed phase none reading outstanding closed =>
        rw [none, closed, List.flatMap_nil, List.append_nil] at made
        exact made

/-- A frame from the client and `WSClose` stop the connection together. -/
def racingStops : List ThreadEvent :=
  [.run 0, .run 0, .finish 0, .call (.read none), .call .close, .run 1, .run 0, .finish 0,
    .run 0, .run 0, .run 0, .run 0, .run 0, .run 0, .finish 0]

/-- Its destructor: the test, the exchange and the calls of `stop`, as far as they are
made. -/
def destruction (steps : Nat) : List ThreadEvent :=
  .call .destroy :: List.replicate steps (.run 0) ++ [.finish 0]

/-- A message is pushed, and its write is started. -/
def writingMessage : List ThreadEvent :=
  [.run 0, .run 0, .finish 0, .call (.push (ascii "a"))] ++ List.replicate 8 (.run 0) ++
    [.finish 0]

/-- Both outstanding handlers are dropped. -/
def droppedHandlers : List LifeEvent :=
  writingMessage.map LifeEvent.thread ++
    [.dropRead, .dropWrite ⟨⟨0, textFrame (ascii "a")⟩, false⟩] ++
    (destruction 6).map LifeEvent.thread

/-- The handlers are dropped and the destructor closes; and two calls race to close. -/
theorem reachable_closings_dropped :
    (∃ session, lifeSystem.Run {} droppedHandlers session ∧ session.phase = .destroyed ∧
      (session.returned.map fun thread => (thread.call, thread.closes)) =
        [(.start, false), (.push (ascii "a"), false), (.destroy, true)] ∧
      closings session.world.effects <+: [.onclose, .cancel, .shutdown, .close] ∧
        (session.phase = .destroyed →
          closings session.world.effects = [.onclose, .cancel, .shutdown, .close])) ∧
    ∃ session, lifeSystem.Run {} ((racingStops ++ destruction 1).map LifeEvent.thread) session ∧
      session.phase = .destroyed ∧
      closings session.world.effects <+: [.onclose, .cancel, .shutdown, .close] ∧
        (session.phase = .destroyed →
          closings session.world.effects = [.onclose, .cancel, .shutdown, .close]) := by
  constructor
  · have ends : (droppedHandlers.foldlM live? {}).map (fun session => (session.phase,
        session.returned.map fun thread => (thread.call, thread.closes))) =
        some (.destroyed, [(.start, false), (.push (ascii "a"), false), (.destroy, true)]) := by
      decide +kernel
    obtain ⟨session, executed, both⟩ := Option.map_eq_some_iff.mp ends
    obtain ⟨destroyed, returned⟩ := Prod.mk.inj both
    have run : lifeSystem.Run {} droppedHandlers session := .of_foldlM executed
    exact ⟨session, run, destroyed, returned, reachable_closings (run.reachable rfl)⟩
  · have ends : (((racingStops ++ destruction 1).map LifeEvent.thread).foldlM live? {}).map
        Session.phase = some .destroyed := by
      decide +kernel
    obtain ⟨session, executed, destroyed⟩ := Option.map_eq_some_iff.mp ends
    have run : lifeSystem.Run {} ((racingStops ++ destruction 1).map LifeEvent.thread) session :=
      .of_foldlM executed
    exact ⟨session, run, destroyed, reachable_closings (run.reachable rfl)⟩

end Session

end Webserver.WS
