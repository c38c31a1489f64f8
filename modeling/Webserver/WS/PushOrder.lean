import Webserver.Foundation.Traces
import Webserver.WS.Atomicity
import Webserver.WS.Progress
import Webserver.WS.Sequence

/-! # The order of pushes

A call of `WSPush` takes effect when it takes the mutex of the session maps: the
frames enter the queue in the order in which the calls took it, at most one is still
on its way there, and what reaches the client is in that order.
-/

namespace Webserver.WS

open Foundation System Locks

namespace Instr

/-- The frame a step puts into the queue. -/
def queued : Instr → Option Bytes
  | .pushBack frame => some frame
  | _ => none

theorem expand_queued (world : World) (instr : Instr) :
    (instr.expand world).filterMap queued = [] := by
  cases instr with
  | checkSize =>
      simp only [expand]
      split <;> rfl
  | testClosed =>
      simp only [expand]
      split <;> rfl
  | compareExchange =>
      simp only [expand]
      split <;> rfl
  | _ => rfl

theorem exec_produced (world : World) (instr : Instr) :
    (instr.exec world).produced = world.produced ++ instr.queued.toList := by
  cases instr with
  | pushBack frame => rfl
  | startSingle =>
      have history := (World.startSingle_frame world).2.1
      exact (congrArg Prod.fst history).trans (List.append_nil _).symm
  | startNext =>
      simp only [exec]
      split
      · exact (congrArg Prod.fst (World.asyncWrite_history world)).trans (List.append_nil _).symm
      · exact (List.append_nil _).symm
  | _ => exact (List.append_nil _).symm

end Instr

/-- A frame is put into the queue by the last step that does so, before the mutex of
the session maps is released; and that mutex is not taken. -/
def Enclosed : List Instr → Prop
  | [] => True
  | instr :: rest =>
      (∀ frame, instr = .pushBack frame → rest.filterMap Instr.queued = [] ∧
        .unlock .wsConns ∈ rest) ∧ instr ≠ .lock .wsConns ∧ Enclosed rest

namespace Enclosed

variable {script inserted : List Instr}

theorem insert (enclosed : Enclosed script) (nothing : inserted.filterMap Instr.queued = [])
    (others : ∀ instr ∈ inserted, instr.access = .other) : Enclosed (inserted ++ script) := by
  induction inserted with
  | nil => exact enclosed
  | cons instr inserted ih =>
      have here := others instr List.mem_cons_self
      rw [List.filterMap_cons] at nothing
      cases none : instr.queued with
      | some frame =>
          rw [none] at nothing
          cases nothing
      | none =>
          rw [none] at nothing
          refine ⟨?_, ?_, ih nothing fun later member =>
            others later (List.mem_cons_of_mem instr member)⟩
          · rintro frame rfl
            cases none
          · rintro rfl
            cases here

/-- A thread that still has a frame to put into the queue is inside the mutex of the
session maps. -/
theorem inside (enclosed : Enclosed script) (frames : script.filterMap Instr.queued ≠ []) :
    Inside Instr.access .wsConns script := by
  constructor
  · induction script with
    | nil => exact (frames rfl).elim
    | cons instr rest ih =>
        obtain ⟨last, -, later⟩ := enclosed
        have released : .unlock .wsConns ∈ rest ∨ rest.filterMap Instr.queued ≠ [] := by
          cases instr with
          | pushBack frame => exact Or.inl (last frame rfl).2
          | _ => exact Or.inr frames
        rcases released with member | more
        · exact ⟨_, List.mem_cons_of_mem instr member, rfl⟩
        · obtain ⟨other, member, unlocks⟩ := ih later more
          exact ⟨other, List.mem_cons_of_mem instr member, unlocks⟩
  · clear frames
    induction script with
    | nil =>
        intro instr member
        cases member
    | cons first rest ih =>
        obtain ⟨-, different, later⟩ := enclosed
        intro instr member locks
        rcases List.mem_cons.mp member with rfl | member
        · cases instr with
          | lock mutex =>
              rw [Access.lock.inj locks] at different
              exact different rfl
          | _ => cases locks
        · exact ih later instr member locks

theorem length_le (enclosed : Enclosed script) :
    (script.filterMap Instr.queued).length ≤ 1 := by
  induction script with
  | nil => exact Nat.zero_le 1
  | cons instr rest ih =>
      obtain ⟨last, -, later⟩ := enclosed
      cases instr with
      | pushBack frame =>
          have only : (Instr.pushBack frame :: rest).filterMap Instr.queued = [frame] := by
            rw [List.filterMap_cons, (last frame rfl).1]
            rfl
          rw [only]
          exact Nat.le_refl 1
      | _ => exact ih later

end Enclosed

theorem report_queued (error : Option ErrorCode) :
    (report error).filterMap Instr.queued = [] ∧
      ∀ instr ∈ report error, instr.access = .other := by
  rcases error with _ | _ | _
  · exact ⟨rfl, by simp [report]⟩
  · exact ⟨rfl, by simp [report]⟩
  · exact ⟨rfl, by simp [report, Instr.access]⟩

namespace Call

/-- The message of a push. -/
def message : Call → List Bytes
  | .push message => [message]
  | _ => []

theorem program_queued (call : Call) :
    call.program.filterMap Instr.queued = call.message.map textFrame := by
  cases call with
  | read error =>
      rw [program, List.filterMap_append, (report_queued error).1]
      rfl
  | written write error =>
      cases error with
      | none => rfl
      | some code =>
          rw [program, List.filterMap_append, (report_queued (some code)).1]
          rfl
  | _ => rfl

theorem program_enclosed (call : Call) : Enclosed call.program := by
  cases call with
  | read error =>
      obtain ⟨nothing, others⟩ := report_queued error
      exact Enclosed.insert (by simp [Enclosed]) nothing others
  | written write error =>
      cases error with
      | none => simp [program, Enclosed]
      | some code =>
          obtain ⟨nothing, others⟩ := report_queued (some code)
          exact Enclosed.insert (by simp [Enclosed]) nothing others
  | _ => simp [program, Enclosed, Instr.queued]

end Call

namespace Session

variable {session before after last : Session}

/-- The frames that calls in progress have still to put into the queue. -/
def waiting (session : Session) : List Bytes :=
  session.threads.flatMap fun thread => thread.rest.filterMap Instr.queued

/-- The message of a call of `WSPush` that takes the mutex and finds the connection. -/
def takes (session : Session) : ThreadEvent → List Bytes
  | .call call => if session.Owned then call.message else []
  | _ => []

/-- Frames are put into the queue under the mutex of the session maps, and no mutex is
locked twice. -/
structure Exclusive (session : Session) : Prop where
  enclosed : ∀ thread ∈ session.threads, Enclosed thread.rest
  once : session.locked.Nodup

theorem Exclusive.step {event : ThreadEvent} (exclusive : Exclusive before)
    (moved : before.step? event = some after) : Exclusive after := by
  obtain ⟨enclosed, once⟩ := exclusive
  cases step_cases moved with
  | refused call admitted named lost => exact ⟨enclosed, once⟩
  | begun call admitted owned =>
      constructor
      · intro thread member
        rcases List.mem_append.mp member with old | new
        · exact enclosed thread old
        · rw [List.mem_singleton.mp new]
          exact call.program_enclosed
      · cases call with
        | push message => exact List.nodup_cons.mpr ⟨admitted, once⟩
        | close => exact List.nodup_cons.mpr ⟨admitted, once⟩
        | _ => exact once
  | ran front back thread instr rest threads shape enabled =>
      rw [threads] at enclosed
      have here := enclosed thread (Pool.mem_split front back thread)
      rw [shape] at here
      constructor
      · apply Pool.forall_replace enclosed
        rw [Thread.advance_rest]
        exact here.2.2.insert (instr.expand_queued before.world)
          (instr.expand_access before.world)
      · cases instr with
        | lock mutex => exact List.nodup_cons.mpr ⟨enabled, once⟩
        | unlock mutex => exact once.erase mutex
        | _ => exact once
  | left front back thread threads done =>
      rw [threads] at enclosed
      exact ⟨fun other member => enclosed other (Pool.mem_of_removed member), once⟩

theorem exclusive_of_reachable (reachable : sessionSystem.Reachable session) :
    Exclusive session := by
  apply reachable.invariant
  · rintro start rfl
    constructor
    · intro thread member
      rw [List.mem_singleton.mp member]
      exact Call.start.program_enclosed
    · exact List.nodup_nil
  · intro before event after _ exclusive moved
    exact exclusive.step moved

/-- At most one call is about to put a frame into the queue. -/
theorem waiting_length_le (reachable : sessionSystem.Reachable session) :
    session.waiting.length ≤ 1 := by
  obtain ⟨enclosed, once⟩ := exclusive_of_reachable reachable
  have apart := Locks.Orderly.pairwise_inside (orderly_of_reachable reachable) once .wsConns
  unfold waiting
  generalize session.threads = threads at enclosed apart
  induction threads with
  | nil => exact Nat.zero_le 1
  | cons thread others ih =>
      obtain ⟨alone, apart⟩ := List.pairwise_cons.mp apart
      have rest := ih
        (fun other member => enclosed other (List.mem_cons_of_mem thread member)) apart
      have here := enclosed thread List.mem_cons_self
      rw [List.flatMap_cons]
      by_cases frames : thread.rest.filterMap Instr.queued = []
      · rw [frames]
        exact rest
      · have none : others.flatMap (fun thread => thread.rest.filterMap Instr.queued) = [] := by
          rw [List.flatMap_eq_nil_iff]
          intro other member
          by_contra more
          have inside := (enclosed other (List.mem_cons_of_mem thread member)).inside more
          exact alone other member ⟨here.inside frames, inside⟩
        rw [none, List.append_nil]
        exact here.length_le

theorem takes_begun {call : Call} (owned : call.byId = true → session.Owned) :
    session.takes (.call call) = call.message := by
  rw [takes]
  split_ifs with lives
  · rfl
  · cases call with
    | push message => exact absurd (owned rfl) lives
    | _ => rfl

/-- What is queued and what is on its way there grows by what is taken. -/
theorem step_takes {event : ThreadEvent} (reachable : sessionSystem.Reachable before)
    (moved : before.step? event = some after) :
    after.world.produced ++ after.waiting =
      before.world.produced ++ before.waiting ++ (before.takes event).map textFrame := by
  have few := waiting_length_le reachable
  unfold waiting at few ⊢
  cases step_cases moved with
  | refused call admitted named lost =>
      rw [takes, if_neg lost, List.map_nil, List.append_nil]
  | begun call admitted owned =>
      have produced : (before.take call).world.produced = before.world.produced := by
        cases call with
        | written write error => cases error <;> rfl
        | _ => rfl
      rw [produced, takes_begun owned, List.flatMap_append, List.flatMap_singleton,
        call.program_queued, List.append_assoc]
  | ran front back thread instr rest threads shape enabled =>
      rw [threads] at few ⊢
      have nothing : before.takes (.run front.length) = [] := rfl
      rw [nothing, List.map_nil, List.append_nil, Instr.exec_produced]
      simp only [List.flatMap_append, List.flatMap_cons, Thread.advance_rest, shape,
        List.filterMap_append, Instr.expand_queued, List.nil_append, List.filterMap_cons] at few ⊢
      cases queues : instr.queued with
      | none =>
          rw [Option.toList_none, List.append_nil]
      | some frame =>
          -- no other call has a frame to put into the queue
          simp only [queues, List.length_append, List.length_cons] at few
          have ahead : front.flatMap (fun thread => thread.rest.filterMap Instr.queued) = [] :=
            List.eq_nil_of_length_eq_zero (by omega)
          rw [ahead, Option.toList_some, List.nil_append, List.nil_append, List.append_assoc]
          rfl
  | left front back thread threads done =>
      have nothing : before.takes (.finish front.length) = [] := rfl
      rw [threads, nothing, List.map_nil, List.append_nil, List.flatMap_append,
        List.flatMap_append, List.flatMap_cons, done]
      rfl

/-! ## What reaches the client -/

/-- A critical section in progress only adds to the frames pushed. -/
theorem ahead_history (holder : Option Stage) (world : World) :
    world.produced <+: (Stage.ahead holder world).produced ∧
      (Stage.ahead holder world).delivered = world.delivered ∧
      (Stage.ahead holder world).failed = world.failed := by
  cases holder with
  | none => exact ⟨List.prefix_refl _, rfl, rfl⟩
  | some stage =>
      cases stage with
      | pushed message => exact ⟨List.prefix_append _ _, rfl, rfl⟩
      | overflowing message => exact ⟨List.prefix_append _ _, rfl, rfl⟩
      | starting message => exact ⟨List.prefix_append _ _, rfl, rfl⟩
      | _ => exact ⟨List.prefix_refl _, rfl, rfl⟩

/-- A write that has completed but is not handled was the next in order. -/
theorem settle_delivered {world : World} {owner : Option Completion}
    (coarse : wsSystem.Reachable world)
    (pending : ∀ write error, owner = some (write, error) → write ∈ world.outstanding) :
    (World.settle owner world).delivered.Sublist world.produced ∧
      ((World.settle owner world).failed = false →
        (World.settle owner world).delivered <+: world.produced) := by
  obtain ⟨sublist, intact⟩ := World.ordered_of_reachable coarse
  have before : (world.delivered).Sublist world.produced :=
    (List.sublist_append_left _ _).trans sublist
  rcases owner with - | ⟨write, - | code⟩
  · exact ⟨before, fun whole => ⟨_, intact whole⟩⟩
  · have feeding := (World.feeding_of_reachable coarse).1
    obtain ⟨-, rest, queue⟩ := feeding.of_mem (pending write none rfl)
    have next : (world.delivered ++ [write.node.frame]) ++ rest.map Node.frame =
        world.delivered ++ world.conn.sendQ.map Node.frame := by
      rw [queue, List.append_assoc]
      rfl
    constructor
    · have front := List.sublist_append_left (world.delivered ++ [write.node.frame])
        (rest.map Node.frame)
      rw [next] at front
      exact front.trans sublist
    · intro whole
      exact ⟨_, next.trans (intact whole)⟩
  · refine ⟨before, fun whole => ?_⟩
    cases whole

/-- The frames delivered are among those queued, in order, and none is passed over
until a write has failed. -/
theorem delivered_of_reachable (reachable : sessionSystem.Reachable session) :
    session.world.delivered.Sublist session.world.produced ∧
      (session.world.failed = false → session.world.delivered <+: session.world.produced) := by
  obtain ⟨world, coarse, parties, holder, owner, sim⟩ := reachable_simulated reachable
  have same : session.world.quiet.history =
      (Stage.ahead holder (World.settle owner world)).quiet.history :=
    congrArg World.history sim.world
  change session.world.history = (Stage.ahead holder (World.settle owner world)).history at same
  obtain ⟨more, delivered, failed⟩ := ahead_history holder (World.settle owner world)
  simp only [World.history, Prod.mk.injEq] at same
  obtain ⟨sublist, whole⟩ := settle_delivered coarse sim.pending
  rw [World.settle_produced] at more
  rw [same.1, same.2.1, same.2.2, delivered, failed]
  exact ⟨sublist.trans more.sublist, fun unbroken => (whole unbroken).trans more⟩

/-! ## What a call returns -/

/-- The messages of the pushes in progress and of those that have returned true. -/
def acceptedMessages (session : Session) : List Bytes :=
  session.threads.flatMap (·.call.message) ++
    (session.returned.filter (·.ok)).flatMap (·.call.message)

/-- A call of `WSPush` or `WSClose` in progress returns true in the end. -/
def Answers (thread : Thread) : Prop :=
  thread.call.byId = true → thread.ok = true ∨ .forwarded ∈ thread.rest

theorem Answers.advance {thread : Thread} {instr : Instr} {rest : List Instr}
    (answers : Answers thread) (shape : thread.rest = instr :: rest) :
    Answers (thread.advance session instr rest) := by
  unfold Answers at answers ⊢
  rw [Thread.advance_call, Thread.advance_rest]
  intro named
  rcases answers named with ok | will
  · left
    cases instr <;> first | exact ok | rfl
  · rw [shape] at will
    rcases List.mem_cons.mp will with rfl | member
    · exact Or.inl rfl
    · exact Or.inr (List.mem_append_right _ member)

theorem answers_of_reachable (reachable : sessionSystem.Reachable session) :
    ∀ thread ∈ session.threads, Answers thread := by
  refine reachable.invariant (motive := fun session => ∀ thread ∈ session.threads,
    Answers thread) ?_ ?_
  · rintro start rfl thread member
    rw [List.mem_singleton.mp member]
    intro named
    cases named
  · intro before event after _ answers moved
    cases step_cases moved with
    | refused call admitted named lost => exact answers
    | begun call admitted owned =>
        intro thread member
        rcases List.mem_append.mp member with old | new
        · exact answers thread old
        · rw [List.mem_singleton.mp new]
          intro named
          cases call with
          | push message => exact Or.inr (by simp [Call.program])
          | close => exact Or.inr (by simp [Call.program])
          | _ => cases named
    | ran front back thread instr rest threads shape enabled =>
        rw [threads] at answers
        exact Pool.forall_replace answers
          ((answers thread (Pool.mem_split front back thread)).advance shape)
    | left front back thread threads done =>
        rw [threads] at answers
        exact fun other member => answers other (Pool.mem_of_removed member)

/-- The messages accepted grow by what is taken. -/
theorem step_accepted {event : ThreadEvent} (reachable : sessionSystem.Reachable before)
    (moved : before.step? event = some after) :
    after.acceptedMessages.Perm (before.acceptedMessages ++ before.takes event) := by
  have answers := answers_of_reachable reachable
  unfold acceptedMessages
  cases step_cases moved with
  | refused call admitted named lost =>
      rw [takes, if_neg lost, List.append_nil, List.filter_append]
      simp
  | begun call admitted owned =>
      have returned : (before.take call).returned = before.returned := by
        cases call <;> rfl
      rw [takes_begun owned, returned, List.flatMap_append, List.flatMap_singleton,
        List.append_assoc, List.append_assoc]
      exact List.perm_append_comm.append_left _
  | ran front back thread instr rest threads shape enabled =>
      have nothing : before.takes (.run front.length) = [] := rfl
      rw [nothing, List.append_nil, threads]
      simp only [List.flatMap_append, List.flatMap_cons, Thread.advance_call]
      exact List.Perm.refl _
  | left front back thread threads done =>
      have nothing : before.takes (.finish front.length) = [] := rfl
      rw [nothing, List.append_nil, threads, List.filter_append]
      have mine : ([thread].filter (·.ok)).flatMap (·.call.message) = thread.call.message := by
        by_cases push : thread.call.message = []
        · cases ok : thread.ok <;> simp [ok, push]
        · have named : thread.call.byId = true := by
            cases call : thread.call with
            | push message => rfl
            | close => rfl
            | _ => exact (push (by rw [call]; rfl)).elim
          have ok := (answers thread (threads ▸ Pool.mem_split front back thread)) named
          rw [done] at ok
          have ok := ok.resolve_right (by simp)
          simp [ok]
      have apart := Pool.gathered_apart (fun thread => thread.call.message) front back thread
      have returned : (before.returned.filter (·.ok) ++ [thread].filter (·.ok)).flatMap
          (·.call.message) =
            (before.returned.filter (·.ok)).flatMap (·.call.message) ++ thread.call.message := by
        rw [List.flatMap_append, mine]
      rw [returned]
      refine (List.perm_append_comm.append_left _).trans ?_
      rw [← List.append_assoc]
      exact apart.append_right _

/-- **Pushes are linearized by the mutex of the session maps.** Whatever the
interleaving of the threads, let the calls of `WSPush` that find the connection show
their messages as they take the mutex. The frames in the queue's history and the one
that may still be on its way there are those of the messages shown, in this order;
exactly these messages are answered with true; and the client gets the frames in this
order, each at most once, with none passed over until a write has failed. -/
theorem emits_linearized {taken : List Bytes}
    (emits : sessionSystem.Emits takes {} taken last) :
    last.world.produced ++ last.waiting = taken.map textFrame ∧
      last.waiting.length ≤ 1 ∧
      last.acceptedMessages.Perm taken ∧
      ∃ received, last.world.delivered = received.map textFrame ∧
        received.Sublist taken ∧ (last.world.failed = false → received <+: taken) := by
  have reachable := emits.reachable rfl
  have frames : last.world.produced ++ last.waiting = taken.map textFrame := by
    refine emits.invariant (motive := fun seen session =>
      session.world.produced ++ session.waiting = seen.map textFrame) rfl rfl ?_
    intro seen before event after earlier same moved
    rw [step_takes earlier moved, same, List.map_append]
  have accepted : last.acceptedMessages.Perm taken := by
    refine emits.invariant (motive := fun seen session =>
      session.acceptedMessages.Perm seen) rfl (List.Perm.refl _) ?_
    intro seen before event after earlier same moved
    exact (step_accepted earlier moved).trans (same.append_right _)
  have produced : last.world.produced <+: taken.map textFrame := ⟨_, frames⟩
  obtain ⟨sublist, whole⟩ := delivered_of_reachable reachable
  refine ⟨frames, waiting_length_le reachable, accepted, ?_⟩
  cases failed : last.world.failed with
  | true =>
      obtain ⟨received, inside, delivered⟩ :=
        List.sublist_map_iff.mp (sublist.trans produced.sublist)
      exact ⟨received, delivered, inside, nofun⟩
  | false =>
      obtain ⟨received, inside, delivered⟩ :=
        List.prefix_map_iff.mp ((whole failed).trans produced)
      exact ⟨received, delivered, inside.sublist, fun _ => inside⟩

theorem emits_linearized_waiting : ∃ last,
    sessionSystem.Emits takes {} [ascii "a", ascii "b"] last ∧
    last.world.produced ++ last.waiting = [ascii "a", ascii "b"].map textFrame ∧
      last.waiting.length ≤ 1 ∧
      last.acceptedMessages.Perm [ascii "a", ascii "b"] ∧
      ∃ received, last.world.delivered = received.map textFrame ∧
        received.Sublist [ascii "a", ascii "b"] ∧
        (last.world.failed = false → received <+: [ascii "a", ascii "b"]) := by
  have replayed : (replay step? takes {} pushWaiting).map Prod.fst =
      some [ascii "a", ascii "b"] := by
    decide +kernel
  obtain ⟨⟨taken, last⟩, executed, rfl⟩ := Option.map_eq_some_iff.mp replayed
  have emits : sessionSystem.Emits takes {} [ascii "a", ascii "b"] last :=
    Emits.of_replay executed
  exact ⟨last, emits, emits_linearized emits⟩

end Session

end Webserver.WS
