import Webserver.WS.Stages

/-! # Critical sections are atomic

The system of whole calls takes the critical section of a call for one step. Here
it simulates the threads: whatever their interleaving, the connection they work
on is that of the system of whole calls, but for what the thread that holds the
mutex of the queue has done halfway and for a completed write whose handler is
still on its way. The record of the calls made is not compared, since the threads
interleave them.
-/

namespace Webserver.WS

open Foundation Stage World

/-- Every thread at its stage; at most one holds the mutex, and at most one owes
what a handler does. -/
structure Staged (threads : List Thread) (parties : List (Thread × Stage))
    (holder : Option Stage) (owner : Option Completion) : Prop where
  threads : threads = parties.map Prod.fst
  left : ∀ party ∈ parties, party.2.Left party.1.rest
  holder : parties.filterMap (fun party => party.2.held) = holder.toList
  owner : parties.filterMap (fun party => party.2.owed) = owner.toList

/-- The connection under threads and that under whole calls: the same but for the
completion not handled yet and the critical section in progress. -/
structure Simulates (session : Session) (world : World) (parties : List (Thread × Stage))
    (holder : Option Stage) (owner : Option Completion) : Prop where
  staged : Staged session.threads parties holder owner
  mutex : session.locked.count .sendQ = holder.toList.length
  checked : ∀ stage, holder = some stage → stage.Checked session.world.conn
  pending : ∀ write error, owner = some (write, error) → write ∈ world.outstanding
  world : session.world.quiet = (ahead holder (settle owner world)).quiet

/-- Some stages relate the two. -/
def Simulated (session : Session) (world : World) : Prop :=
  ∃ parties holder owner, Simulates session world parties holder owner

/-- The session after the step `instr` of a thread among others. -/
def Session.stepped (before : Session) (front back : List (Thread × Stage)) (thread : Thread)
    (instr : Instr) (rest : List Instr) : Session :=
  { before with
    world := instr.exec before.world
    reading := before.reading || instr == .asyncRead
    locked := instr.locks before.locked
    threads := front.map Prod.fst ++ thread.advance before instr rest :: back.map Prod.fst }

/-- What the session has become is matched by no step or by one. -/
def Matched (after : Session) (world : World) : Prop :=
  Simulated after world ∨
    ∃ label next, wsSystem.step world label next ∧ Simulated after next

namespace Staged

variable {threads : List Thread} {parties : List (Thread × Stage)} {holder : Option Stage}
  {owner : Option Completion}

/-- A thread of the pool has a stage. -/
theorem split {front back : List Thread} {thread : Thread}
    (staged : Staged (front ++ thread :: back) parties holder owner) :
    ∃ before stage after, parties = before ++ (thread, stage) :: after ∧
      front = before.map Prod.fst ∧ back = after.map Prod.fst := by
  obtain ⟨before, behind, rfl, rfl, rest⟩ := List.map_eq_append_iff.mp staged.threads.symm
  obtain ⟨⟨first, stage⟩, after, rfl, rfl, rfl⟩ := List.map_eq_cons_iff.mp rest
  exact ⟨before, stage, after, rfl, rfl, rfl⟩

/-- A thread makes a step, and what it holds and owes passes on. -/
theorem replace {before after : List (Thread × Stage)} {thread next : Thread}
    {stage later : Stage} {holder' : Option Stage} {owner' : Option Completion}
    (staged : Staged threads (before ++ (thread, stage) :: after) holder owner)
    (left : later.Left next.rest) (holds : Pool.Passes stage.held later.held holder holder')
    (owes : Pool.Passes stage.owed later.owed owner owner') :
    Staged (before.map Prod.fst ++ next :: after.map Prod.fst)
      (before ++ (next, later) :: after) holder' owner' where
  threads := by
    rw [List.map_append, List.map_cons]
  left := Pool.forall_replace staged.left left
  holder := Pool.sole_replace staged.holder holds
  owner := Pool.sole_replace staged.owner owes

/-- A call begins; a handler begins only when no completion is owed. -/
theorem add (staged : Staged threads parties holder owner) {thread : Thread} {stage : Stage}
    {owner' : Option Completion} (left : stage.Left thread.rest) (outside : stage.held = none)
    (owes : stage.owed = none ∧ owner' = owner ∨ owner = none ∧ owner' = stage.owed) :
    Staged (threads ++ [thread]) (parties ++ [(thread, stage)]) holder owner' where
  threads := by
    rw [staged.threads, List.map_append]
    rfl
  left := by
    intro party member
    rcases List.mem_append.mp member with old | new
    · exact staged.left party old
    · rw [List.mem_singleton.mp new]
      exact left
  holder := by
    rw [List.filterMap_append, staged.holder, List.filterMap_cons, outside]
    exact List.append_nil _
  owner := by
    rw [List.filterMap_append, staged.owner, List.filterMap_cons]
    rcases owes with ⟨none, rfl⟩ | ⟨rfl, rfl⟩
    · rw [none]
      exact List.append_nil _
    · cases stage.owed <;> rfl

/-- A call that has returned holds and owes nothing. -/
theorem remove {before after : List (Thread × Stage)} {thread : Thread}
    (staged : Staged threads (before ++ (thread, .free) :: after) holder owner) :
    Staged (before.map Prod.fst ++ after.map Prod.fst) (before ++ after) holder owner where
  threads := by
    rw [List.map_append]
  left := fun party member => staged.left party (Pool.mem_of_removed member)
  holder := by
    rw [← staged.holder, List.filterMap_append, List.filterMap_append, List.filterMap_cons]
    rfl
  owner := by
    rw [← staged.owner, List.filterMap_append, List.filterMap_append, List.filterMap_cons]
    rfl

/-- Who holds the mutex while it handles a completion is the one that owes it. -/
theorem owner_of_holder (staged : Staged threads parties holder owner) {stage : Stage}
    (holds : holder = some stage) {completion : Completion} (owes : stage.owed = some completion) :
    owner = some completion := by
  have member : stage ∈ parties.filterMap (fun party => party.2.held) := by
    rw [staged.holder, holds]
    exact List.mem_singleton_self _
  obtain ⟨party, inside, held⟩ := List.mem_filterMap.mp member
  apply Pool.sole_of_some staged.owner inside
  have same : party.2 = stage := by
    cases shape : party.2 <;> rw [shape] at held <;> cases held <;> rfl
  rw [same, owes]

end Staged

/-- The last step of a push in its critical section makes it a whole push. -/
theorem settle_write {world : World} (feeding : Feeding world) {owner : Option Completion}
    (pending : ∀ write error, owner = some (write, error) → write ∈ world.outstanding)
    {message : Bytes} {full : World}
    (same : full.quiet = ((settle owner world).enqueue (textFrame message)).quiet)
    (checked : full.conn.sendQ.length > 100 → full.conn.closed = true) :
    full.startSingle.quiet =
      (settle owner (world.write message Schema.oneFragmentText)).quiet := by
  let reported : World :=
    { world with effects := world.effects ++ [.onmessageout (textFrame message)] }
  let pushed := reported.enqueue (textFrame message)
  have matched : full.quiet = (settle owner pushed).quiet := by
    have unreported : (world.enqueue (textFrame message)).quiet = pushed.quiet := rfl
    rw [same, settle_enqueue]
    exact settle_quiet unreported owner
  have conn : pushed.conn = full.conn := by
    have conns : full.quiet.conn = (settle owner pushed).quiet.conn :=
      congrArg World.conn matched
    exact (settle_conn owner pushed).symm.trans conns.symm
  have passed : pushed.checkOverflow = pushed := by
    unfold checkOverflow
    split_ifs with overflow
    · rw [conn] at overflow
      unfold World.stop
      rw [conn, if_pos (checked overflow)]
    · rfl
  have front : ∀ write error, owner = some (write, error) → pushed.conn.sendQ.length ≠ 1 := by
    intro write error owes
    obtain ⟨-, rest, queue⟩ := feeding.of_mem (pending write error owes)
    have shape : pushed.conn.sendQ = world.conn.sendQ ++ [⟨world.produced.length,
      textFrame message⟩] := rfl
    rw [shape, queue, List.length_append, List.length_cons, List.length_singleton]
    omega
  have written : world.write message Schema.oneFragmentText = pushed.startSingle :=
    congrArg World.startSingle passed
  rw [written, ← settle_startSingle front]
  exact exec_quiet matched .startSingle

namespace Simulates

variable {before : Session} {world : World} {parties : List (Thread × Stage)}
  {holder : Option Stage} {owner : Option Completion}

/-- After an exchange the connection of whole calls has stopped. -/
theorem stop (sim : Simulates before world parties holder owner) :
    (Instr.compareExchange.exec before.world).quiet =
      (ahead holder (settle owner world.stop)).quiet := by
  rw [exec_quiet sim.world, ahead_compareExchange]
  exact ahead_quiet (settle_quiet (stop_quiet world).symm owner) holder

theorem pending_stop (sim : Simulates before world parties holder owner) :
    ∀ write error, owner = some (write, error) → write ∈ world.stop.outstanding := by
  rw [World.stop_outstanding]
  exact sim.pending

/-- A plain step is at most an exchange, which stops the connection. -/
theorem plain_step {front back : List (Thread × Stage)} {thread : Thread} {stage : Stage}
    {instr : Instr} {rest : List Instr}
    (sim : Simulates before world (front ++ (thread, stage) :: back) holder owner)
    (plain : instr.Plain) (left : stage.Left (instr.expand before.world ++ rest)) :
    Matched (before.stepped front back thread instr rest) world := by
  have staged : Staged
      (front.map Prod.fst ++ thread.advance before instr rest :: back.map Prod.fst)
      (front ++ (thread.advance before instr rest, stage) :: back) holder owner := by
    apply sim.staged.replace _ (.inl ⟨rfl, rfl⟩) (.inl ⟨rfl, rfl⟩)
    rw [Thread.advance_rest]
    exact left
  have mutex : (instr.locks before.locked).count .sendQ = holder.toList.length := by
    rw [← sim.mutex]
    cases instr with
    | unlock mutex =>
        cases mutex with
        | wsConns => exact List.count_erase_of_ne (by decide)
        | sendQ => exact plain.elim
    | lock mutex => exact plain.elim
    | _ => rfl
  by_cases exchange : instr = .compareExchange
  · subst exchange
    right
    refine ⟨.stop, world.stop, rfl, _, holder, owner, staged, mutex, ?_, sim.pending_stop,
      sim.stop⟩
    intro stage _
    cases stage with
    | starting message => exact fun _ => rfl
    | _ => trivial
  · have unchanged : (instr.exec before.world).conn = before.world.conn ∧
        (instr.exec before.world).quiet = before.world.quiet := by
      cases instr with
      | compareExchange => exact (exchange rfl).elim
      | call effect => exact ⟨rfl, rfl⟩
      | asyncRead => exact ⟨rfl, rfl⟩
      | unlock mutex => exact ⟨rfl, rfl⟩
      | testClosed => exact ⟨rfl, rfl⟩
      | forwarded => exact ⟨rfl, rfl⟩
      | _ => exact plain.elim
    left
    refine ⟨_, holder, owner, staged, mutex, ?_, sim.pending, unchanged.2.trans sim.world⟩
    change ∀ stage, holder = some stage → stage.Checked (instr.exec before.world).conn
    rw [unchanged.1]
    exact sim.checked

/-- The critical section is entered when nobody is in one. -/
theorem holder_eq_none (sim : Simulates before world parties holder owner)
    (unlocked : .sendQ ∉ before.locked) : holder = none := by
  have count := sim.mutex
  rw [List.count_eq_zero_of_not_mem unlocked] at count
  cases holder with
  | none => rfl
  | some stage => cases count

/-- Who is inside a critical section holds the mutex. -/
theorem holder_eq {front back : List (Thread × Stage)} {thread : Thread} {stage : Stage}
    (sim : Simulates before world (front ++ (thread, stage) :: back) holder owner)
    (inside : stage.held = some stage) : holder = some stage :=
  Pool.sole_of_some sim.staged.holder (Pool.mem_split front back (thread, stage)) inside

/-- Who still has to handle a completion is the only one. -/
theorem owner_eq {front back : List (Thread × Stage)} {thread : Thread} {stage : Stage}
    (sim : Simulates before world (front ++ (thread, stage) :: back) holder owner)
    {completion : Completion} (owes : stage.owed = some completion) : owner = some completion :=
  Pool.sole_of_some sim.staged.owner (Pool.mem_split front back (thread, stage)) owes

/-- A thread goes on to the next stage of a critical section. -/
theorem advance {front back : List (Thread × Stage)} {thread : Thread} {stage later : Stage}
    {instr : Instr} {rest : List Instr} {owner' : Option Completion} {next : World}
    (sim : Simulates before world (front ++ (thread, stage) :: back) holder owner)
    (left : later.Left (instr.expand before.world ++ rest)) (mine : stage.held = holder)
    (owes : Pool.Passes stage.owed later.owed owner owner')
    (mutex : (instr.locks before.locked).count .sendQ = later.held.toList.length)
    (checked : later.Checked (instr.exec before.world).conn)
    (pending : ∀ write error, owner' = some (write, error) → write ∈ next.outstanding)
    (quiet : (instr.exec before.world).quiet = (ahead later.held (settle owner' next)).quiet) :
    Simulated (before.stepped front back thread instr rest) next := by
  refine ⟨front ++ (thread.advance before instr rest, later) :: back, later.held, owner', ?_,
    mutex, ?_, pending, quiet⟩
  · apply sim.staged.replace _ (.inr ⟨mine, rfl⟩) owes
    rw [Thread.advance_rest]
    exact left
  · intro stage held
    have same : later = stage := by
      cases later <;> cases held <;> rfl
    rw [← same]
    exact checked

/-- The exchange after an overflow is a stop. -/
theorem overflow_step {front back : List (Thread × Stage)} {thread : Thread} {message : Bytes}
    {rest : List Instr}
    (sim : Simulates before world (front ++ (thread, .overflowing message) :: back) holder owner)
    (left : (Stage.starting message).Left
      (Instr.compareExchange.expand before.world ++ rest)) :
    Matched (before.stepped front back thread .compareExchange rest) world := by
  obtain rfl := sim.holder_eq rfl
  right
  refine ⟨.stop, world.stop, rfl, ?_⟩
  apply sim.advance left rfl (.inl ⟨rfl, rfl⟩) sim.mutex _ sim.pending_stop sim.stop
  intro _
  rfl

/-- The start of a write ends a push. -/
theorem start_step {front back : List (Thread × Stage)} {thread : Thread} {message : Bytes}
    {rest : List Instr} (feeding : Feeding world)
    (sim : Simulates before world (front ++ (thread, .starting message) :: back) holder owner)
    (left : Stage.leaving.Left (Instr.startSingle.expand before.world ++ rest)) :
    Matched (before.stepped front back thread .startSingle rest) world := by
  obtain rfl := sim.holder_eq rfl
  have whole := settle_write feeding sim.pending sim.world (sim.checked _ rfl)
  right
  refine ⟨.write message Schema.oneFragmentText, _, rfl, ?_⟩
  apply sim.advance left rfl (.inl ⟨rfl, rfl⟩) sim.mutex trivial _ whole
  intro write error owes
  rw [(write_pushed message Schema.oneFragmentText world).outstanding]
  exact List.mem_append_left _ (sim.pending write error owes)

/-- The last step on the queue of a handler ends the handling of its completion. -/
theorem handle_step {front back : List (Thread × Stage)} {thread : Thread} {stage : Stage}
    {instr : Instr} {rest : List Instr} {write : PendingWrite} {error : Option ErrorCode}
    (sim : Simulates before world (front ++ (thread, stage) :: back) holder owner)
    (inside : stage.held = some stage) (owes : stage.owed = some (write, error))
    (left : Stage.leaving.Left (instr.expand before.world ++ rest))
    (unlocked : instr.locks before.locked = before.locked)
    (quiet : (instr.exec before.world).quiet =
      ((world.complete write error).handleWrite error).quiet) :
    Matched (before.stepped front back thread instr rest) world := by
  obtain rfl := sim.holder_eq inside
  obtain rfl := sim.owner_eq owes
  right
  refine ⟨.written write error, _, if_pos (sim.pending write error rfl), ?_⟩
  apply sim.advance left inside (.inr ⟨owes, rfl⟩) _ trivial _ quiet
  · rw [unlocked]
    exact sim.mutex
  · intro write error same
    cases same

/-- A step of a critical section is matched by none, or ends what a whole call
does. -/
theorem core_step {front back : List (Thread × Stage)} {thread : Thread} {stage : Stage}
    {instr : Instr} {rest : List Instr} (feeding : Feeding world)
    (sim : Simulates before world (front ++ (thread, stage) :: back) holder owner)
    (first : stage.core.head? = some instr) (enabled : instr.Enabled before.locked)
    (left : (stage.next before.world).Left (instr.expand before.world ++ rest)) :
    Matched (before.stepped front back thread instr rest) world := by
  have entered : ∀ {locked : List Mutex}, .sendQ ∉ locked →
      ((Instr.lock .sendQ).locks locked).count .sendQ = 1 := by
    intro locked unlocked
    simp only [Instr.locks, List.count_cons_self, List.count_eq_zero_of_not_mem unlocked]
  cases stage with
  | free => cases first
  | toPush message =>
      cases first
      obtain rfl := sim.holder_eq_none enabled
      left
      exact sim.advance left rfl (.inl ⟨rfl, rfl⟩) (entered enabled) trivial sim.pending sim.world
  | pushing message =>
      cases first
      obtain rfl := sim.holder_eq rfl
      left
      exact sim.advance left rfl (.inl ⟨rfl, rfl⟩) sim.mutex trivial sim.pending
        (exec_quiet sim.world (.pushBack (textFrame message)))
  | pushed message =>
      cases first
      obtain rfl := sim.holder_eq rfl
      left
      simp only [next] at left
      split_ifs at left with overflow
      · exact sim.advance left rfl (.inl ⟨rfl, rfl⟩) sim.mutex trivial sim.pending sim.world
      · apply sim.advance left rfl (.inl ⟨rfl, rfl⟩) sim.mutex _ sim.pending sim.world
        intro full
        exact (overflow full).elim
  | overflowing message =>
      cases first
      exact sim.overflow_step left
  | starting message =>
      cases first
      exact start_step feeding sim left
  | toHandle write error =>
      cases first
      obtain rfl := sim.holder_eq_none enabled
      left
      exact sim.advance left rfl (.inl ⟨rfl, rfl⟩) (entered enabled) trivial sim.pending sim.world
  | handling write error =>
      obtain rfl := sim.holder_eq rfl
      left
      cases error with
      | none =>
          cases first
          exact sim.advance left rfl (.inl ⟨rfl, rfl⟩) sim.mutex trivial sim.pending
            (exec_quiet sim.world .erase)
      | some code =>
          cases first
          exact sim.advance left rfl (.inl ⟨rfl, rfl⟩) sim.mutex trivial sim.pending
            (exec_quiet sim.world .clear)
  | erased write =>
      cases first
      obtain rfl := sim.holder_eq rfl
      obtain rfl := sim.owner_eq rfl
      exact sim.handle_step rfl rfl left rfl (exec_quiet sim.world .startNext)
  | cleared write code =>
      cases first
      obtain rfl := sim.holder_eq rfl
      obtain rfl := sim.owner_eq rfl
      apply sim.handle_step rfl rfl left rfl
      calc (Instr.compareExchange.exec before.world).quiet
          = (Instr.compareExchange.exec
              ((world.complete write (some code)).setQueue [])).quiet :=
            exec_quiet sim.world .compareExchange
        _ = ((world.complete write (some code)).handleWrite (some code)).quiet :=
            (handleWrite_quiet code (world.complete write (some code))).symm
  | leaving =>
      cases first
      obtain rfl := sim.holder_eq rfl
      left
      apply sim.advance left rfl (.inl ⟨rfl, rfl⟩) _ trivial sim.pending sim.world
      have count := sim.mutex
      simp only [Instr.locks, List.count_erase_self, count]
      rfl

theorem outstanding (sim : Simulates before world parties holder owner) :
    before.world.outstanding = (settle owner world).outstanding := by
  have same : before.world.quiet.outstanding =
      (ahead holder (settle owner world)).quiet.outstanding := congrArg World.outstanding sim.world
  exact same.trans (ahead_outstanding holder (settle owner world))

/-- While a write is outstanding, no completion is owed. -/
theorem owner_eq_none (sim : Simulates before world parties holder owner)
    (feeding : Feeding world) {write : PendingWrite}
    (member : write ∈ before.world.outstanding) :
    owner = none ∧ write ∈ world.outstanding := by
  rw [sim.outstanding] at member
  cases owner with
  | none => exact ⟨rfl, member⟩
  | some completion =>
      obtain ⟨owed, error⟩ := completion
      have only := (feeding.of_mem (sim.pending owed error rfl)).1
      have quiet : (world.complete owed error).outstanding = [] := by
        rw [(complete_frame owed error world).2.1, only, List.erase_cons_head]
      have inside : write ∈ (world.complete owed error).outstanding := member
      rw [quiet] at inside
      cases inside

/-- A call begins outside its critical section. -/
theorem begun (sim : Simulates before world parties holder owner) (feeding : Feeding world)
    {call : Call} (admitted : before.Admits call) :
    Simulated { before.take call with
      threads := before.threads ++ [{ call, rest := call.program }] } world := by
  have outside : (first call).held = none := by
    cases call <;> rfl
  have mutex : (before.take call).locked.count .sendQ = holder.toList.length := by
    rw [← sim.mutex]
    cases call with
    | push message => exact List.count_cons_of_ne (by decide)
    | close => exact List.count_cons_of_ne (by decide)
    | _ => rfl
  have checked : ∀ stage, holder = some stage →
      stage.Checked (before.take call).world.conn := by
    rw [Session.take_conn]
    exact sim.checked
  cases call with
  | start => exact admitted.elim
  | written write error =>
      obtain ⟨rfl, inside⟩ := sim.owner_eq_none feeding admitted
      refine ⟨_, holder, some (write, error),
        sim.staged.add (first_left (.written write error)) outside (.inr ⟨rfl, rfl⟩), mutex,
        checked, ?_, ?_⟩
      · intro owed _ same
        cases same
        exact inside
      · have completed := settle_quiet sim.world (some (write, error))
        exact completed.trans (congrArg World.quiet (ahead_complete holder write error world))
  | _ =>
      exact ⟨_, holder, owner, sim.staged.add (first_left _) outside (.inl ⟨rfl, rfl⟩), mutex,
        checked, sim.pending, sim.world⟩

/-- Every event of the threads is matched. -/
theorem step {after : Session} {event : ThreadEvent} (feeding : Feeding world)
    (sim : Simulates before world parties holder owner) (moved : Session.Moves before event after) :
    Matched after world := by
  cases moved with
  | refused call admitted named lost =>
      left
      exact ⟨parties, holder, owner, sim.staged, sim.mutex, sim.checked, sim.pending, sim.world⟩
  | begun call admitted owned =>
      left
      exact sim.begun feeding admitted
  | ran front back thread instr rest threads shape enabled =>
      have staged := sim.staged
      rw [threads] at staged
      obtain ⟨ahead, stage, behind, rfl, rfl, rfl⟩ := staged.split
      have left := sim.staged.left _ (Pool.mem_split ahead behind (thread, stage))
      rw [shape] at left
      rcases left.step before.world with ⟨plain, left⟩ | ⟨first, left⟩
      · exact sim.plain_step plain left
      · exact core_step feeding sim first enabled left
  | left front back thread threads done =>
      have staged := sim.staged
      rw [threads] at staged
      obtain ⟨ahead, stage, behind, rfl, rfl, rfl⟩ := staged.split
      have left := sim.staged.left _ (Pool.mem_split ahead behind (thread, stage))
      rw [done] at left
      obtain rfl := left.eq_free
      left
      exact ⟨_, holder, owner, staged.remove, sim.mutex, sim.checked, sim.pending, sim.world⟩

end Simulates

namespace Session

/-- **Critical sections are atomic.** Whatever the interleaving of the threads,
the connection is one that whole calls lead to, but for what the thread inside the
critical section has done halfway and for a completed write that is still to be
handled. -/
theorem reachable_simulated {session : Session} (reachable : sessionSystem.Reachable session) :
    ∃ world, wsSystem.Reachable world ∧ Simulated session world := by
  apply reachable.simulate
  · rintro session rfl
    refine ⟨{}, rfl, [(_, .free)], none, none, ⟨rfl, ?_, rfl, rfl⟩, rfl, ?_, ?_, rfl⟩
    · intro party member
      rw [List.mem_singleton.mp member]
      exact first_left .start
    · intro stage held
      cases held
    · intro write error owes
      cases owes
  · intro before event after world earlier related moved
    obtain ⟨parties, holder, owner, sim⟩ := related
    exact sim.step (World.feeding_of_reachable earlier).1 (step_cases moved)

/-- When no call is in progress, the whole connection is that of whole calls. -/
theorem reachable_idle {session : Session} (reachable : sessionSystem.Reachable session)
    (idle : session.threads = []) :
    ∃ world, wsSystem.Reachable world ∧ session.world.quiet = world.quiet := by
  obtain ⟨world, coarse, parties, holder, owner, sim⟩ := reachable_simulated reachable
  have none : parties = [] := by
    have threads := sim.staged.threads
    rw [idle] at threads
    exact List.map_eq_nil_iff.mp threads.symm
  subst none
  have free : holder = none ∧ owner = none :=
    ⟨Option.toList_eq_nil_iff.mp sim.staged.holder.symm,
      Option.toList_eq_nil_iff.mp sim.staged.owner.symm⟩
  have quiet := sim.world
  rw [free.1, free.2] at quiet
  exact ⟨world, coarse, quiet⟩

/-- **The buffer of an outstanding write.** Under every interleaving at most one
write is outstanding, and the element its buffer belongs to is the front of the
queue, also while a thread is inside a critical section. -/
theorem reachable_outstanding {session : Session} (reachable : sessionSystem.Reachable session) :
    ∀ write ∈ session.world.outstanding, session.world.outstanding = [write] ∧
      session.world.conn.sendQ.head? = some write.node := by
  intro write member
  obtain ⟨world, coarse, parties, holder, owner, sim⟩ := reachable_simulated reachable
  have feeding := (World.feeding_of_reachable coarse).1
  obtain ⟨rfl, inside⟩ := sim.owner_eq_none feeding member
  obtain ⟨only, rest, queue⟩ := feeding.of_mem inside
  refine ⟨sim.outstanding.trans only, ?_⟩
  have conn : session.world.quiet.conn = (ahead holder world).quiet.conn :=
    congrArg World.conn sim.world
  have sendQ : session.world.conn.sendQ = (ahead holder world).conn.sendQ :=
    congrArg WSConnection.sendQ conn
  rw [sendQ]
  cases holder with
  | none => exact congrArg List.head? queue
  | some stage =>
      cases stage with
      | erased owed => cases sim.staged.owner_of_holder rfl rfl
      | cleared owed code => cases sim.staged.owner_of_holder rfl rfl
      | pushed message => exact congrArg List.head? (congrArg (· ++ _) queue)
      | overflowing message => exact congrArg List.head? (congrArg (· ++ _) queue)
      | starting message => exact congrArg List.head? (congrArg (· ++ _) queue)
      | _ => exact congrArg List.head? queue

end Session

end Webserver.WS
