import Webserver.Foundation.Mailboxes
import Webserver.WS.Accepted
import Webserver.WS.PushOrder

/-! # A session as a mailbox

Under threads a session is a mailbox for its callers and its client. A push takes
effect when its frame enters the queue, a completion when its handler begins; the
frame that the handler has still to take out of the queue is in the mailbox no more.
-/

namespace Webserver.WS

open Foundation System

namespace Instr

/-- What the handler of a completed write does to the queue. -/
def Settles (instr : Instr) : Prop := instr = .erase ∨ instr = .clear

variable {settling : Instr}

theorem expand_settles (settles : settling.Settles) (world : World) (instr : Instr) :
    (instr.expand world).count settling = 0 := by
  have never : settling ∉ instr.expand world := by
    cases instr with
    | checkSize =>
        simp only [expand]
        rcases settles with rfl | rfl <;> split_ifs <;> simp
    | compareExchange =>
        simp only [expand]
        rcases settles with rfl | rfl <;> split_ifs <;> simp
    | testClosed =>
        simp only [expand]
        rcases settles with rfl | rfl <;> split_ifs <;> simp
    | _ => exact List.not_mem_nil
  exact List.count_eq_zero_of_not_mem never

theorem Settles.not_plain (settles : settling.Settles) : ¬ settling.Plain := by
  rcases settles with rfl | rfl <;> exact id

/-- What a step does to the record of the frames. -/
theorem exec_history (world : World) (instr : Instr) :
    (instr.exec world).history =
      (world.produced ++ instr.queued.toList, world.delivered, world.failed) := by
  have produced := exec_produced world instr
  have others : (instr.exec world).delivered = world.delivered ∧
      (instr.exec world).failed = world.failed := by
    cases instr with
    | startSingle =>
        have history := (World.startSingle_frame world).2.1
        simp only [World.history, Prod.mk.injEq] at history
        exact history.2
    | startNext =>
        have history := World.asyncWrite_history world
        simp only [World.history, Prod.mk.injEq] at history
        simp only [exec]
        split
        · exact history.2
        · exact ⟨rfl, rfl⟩
    | _ => exact ⟨rfl, rfl⟩
  rw [World.history, produced, others.1, others.2]

/-- Only three steps change the queue. -/
theorem exec_sendQ (world : World) {instr : Instr} (push : instr.queued = none)
    (settles : ¬ instr.Settles) : (instr.exec world).conn.sendQ = world.conn.sendQ := by
  cases instr with
  | pushBack frame => cases push
  | erase => exact (settles (Or.inl rfl)).elim
  | clear => exact (settles (Or.inr rfl)).elim
  | startSingle => rw [exec, (World.startSingle_frame world).1]
  | startNext =>
      simp only [exec]
      split
      · rw [World.asyncWrite_conn]
      · rfl
  | _ => rfl

end Instr

/-! ## What the handlers have still to do -/

namespace Call

theorem report_settles {settling : Instr} (settles : settling.Settles) (error : Option ErrorCode) :
    (report error).count settling = 0 := by
  apply List.count_eq_zero_of_not_mem
  intro member
  exact settles.not_plain (Stage.plain_report error settling member)

/-- A handler of a write settles it once. -/
theorem program_settles (call : Call) :
    (call.program.count .erase, call.program.count .clear) =
      match call with
      | .written _ none => (1, 0)
      | .written _ (some _) => (0, 1)
      | _ => (0, 0) := by
  cases call with
  | read error =>
      simp [program, List.count_append, report_settles (Or.inl rfl), report_settles (Or.inr rfl)]
  | written write error =>
      cases error with
      | none => rfl
      | some code =>
          simp [program, List.count_append, report_settles (Or.inl rfl),
            report_settles (Or.inr rfl)]
  | push message => simp [program]
  | _ => rfl

end Call

namespace Stage

/-- A call settles a write only while its completion is owed. -/
theorem Left.settles {stage : Stage} {rest : List Instr} (left : stage.Left rest) :
    rest.count .erase + rest.count .clear ≤ stage.owed.toList.length := by
  obtain ⟨before, after, rfl, plainBefore, plainAfter⟩ := left
  have none {script : List Instr} (plain : ∀ instr ∈ script, instr.Plain) {settling : Instr}
      (settles : settling.Settles) : script.count settling = 0 :=
    List.count_eq_zero_of_not_mem fun member => settles.not_plain (plain settling member)
  simp only [List.count_append, none plainBefore (Or.inl rfl), none plainBefore (Or.inr rfl),
    none plainAfter (Or.inl rfl), none plainAfter (Or.inr rfl)]
  cases stage with
  | handling write error => cases error <;> simp [core, handler, owed]
  | toHandle write error => cases error <;> simp [core, handler, owed]
  | _ => simp [core, owed]

theorem settles_all {parties : List (Thread × Stage)}
    (left : ∀ party ∈ parties, party.2.Left party.1.rest) :
    ((parties.map Prod.fst).flatMap Thread.rest).count .erase +
        ((parties.map Prod.fst).flatMap Thread.rest).count .clear ≤
      (parties.filterMap fun party => party.2.owed).length := by
  induction parties with
  | nil => exact Nat.le_refl 0
  | cons party parties ih =>
      have here := (left party List.mem_cons_self).settles
      have others := ih fun other member => left other (List.mem_cons_of_mem party member)
      have both : ((party :: parties).filterMap fun party => party.2.owed).length =
          party.2.owed.toList.length + (parties.filterMap fun party => party.2.owed).length := by
        cases owes : party.2.owed with
        | none => simp [owes]
        | some completion => simp [owes, Nat.add_comm]
      simp only [both, List.map_cons, List.flatMap_cons, List.count_append]
      omega

end Stage

namespace Session

variable {session before after : Session}

/-- The steps that the calls in progress have left. -/
def script (session : Session) : List Instr := session.threads.flatMap Thread.rest

/-- A call has taken what it takes and is in progress. -/
def enter (session : Session) (call : Call) : Session :=
  { session.take call with threads := session.threads ++ [{ call, rest := call.program }] }

theorem script_enter (session : Session) (call : Call) :
    (session.enter call).script = session.script ++ call.program := by
  rw [script, enter, List.flatMap_append, List.flatMap_singleton, script]

/-- A step of a call that settles nothing leaves what is to be settled. -/
theorem script_ran {settling : Instr} (settles : settling.Settles) {front back : List Thread}
    {thread : Thread} {instr : Instr} {rest : List Instr}
    (threads : session.threads = front ++ thread :: back) (shape : thread.rest = instr :: rest) :
    ((front ++ thread.advance session instr rest :: back).flatMap Thread.rest).count settling +
      [instr].count settling = session.script.count settling := by
  rw [script, threads]
  simp only [List.flatMap_append, List.flatMap_cons, List.count_append, Thread.advance_rest, shape,
    Instr.expand_settles settles, List.count_cons, List.count_nil]
  omega

theorem script_left {front back : List Thread} {thread : Thread}
    (threads : session.threads = front ++ thread :: back) (done : thread.rest = []) :
    (front ++ back).flatMap Thread.rest = session.script := by
  rw [script, threads, List.flatMap_append, List.flatMap_append, List.flatMap_cons, done,
    List.nil_append]

/-- One write at most is to be settled, and none while one is outstanding. -/
theorem settling_le (reachable : sessionSystem.Reachable session) :
    session.script.count .erase + session.script.count .clear ≤ 1 ∧
      (session.world.outstanding ≠ [] →
        session.script.count .erase + session.script.count .clear = 0) := by
  obtain ⟨world, coarse, parties, holder, owner, sim⟩ := reachable_simulated reachable
  have bound : session.script.count .erase + session.script.count .clear ≤
      owner.toList.length := by
    rw [← sim.staged.owner, script, sim.staged.threads]
    exact Stage.settles_all sim.staged.left
  refine ⟨Nat.le_trans bound (by cases owner <;> simp), ?_⟩
  intro writing
  obtain ⟨write, others, listed⟩ := List.exists_cons_of_ne_nil writing
  have member : write ∈ session.world.outstanding := listed ▸ List.mem_cons_self
  obtain ⟨rfl, -⟩ := sim.owner_eq_none (World.feeding_of_reachable coarse).1 member
  exact Nat.eq_zero_of_le_zero bound

/-! ## Who holds the session -/

/-- A call keeps what holds the session. -/
theorem owned_enter (ending : Ending session) {call : Call} (admitted : session.Admits call)
    (owned : call.byId = true → session.Owned) :
    (session.enter call).Owned ↔ session.Owned := by
  have busy : (session.enter call).threads ≠ [] := by simp [enter]
  have alive (phase : (session.take call).phase = .alive) (holds : session.Owned) :
      (session.enter call).Owned ↔ session.Owned :=
    iff_of_true ⟨phase, Or.inl busy⟩ holds
  -- what is outstanding holds the session, since its destruction has not begun
  have outstanding (holds : session.reading = true ∨ session.world.outstanding ≠ []) :
      session.Owned := by
    cases ending with
    | alive phase others => exact ⟨phase, Or.inr holds⟩
    | destroying thread phase threads destroys quiet none => simp [quiet, none] at holds
    | destroyed phase threads quiet none closed => simp [quiet, none] at holds
  cases call with
  | start => exact admitted.elim
  | push message => exact alive (owned rfl).1 (owned rfl)
  | close => exact alive (owned rfl).1 (owned rfl)
  | read error =>
      have holds := outstanding (Or.inl admitted)
      exact alive holds.1 holds
  | written write error =>
      have holds := outstanding (Or.inr (List.ne_nil_of_mem admitted))
      exact alive holds.1 holds
  | destroy =>
      refine iff_of_false ?_ admitted.2
      rintro ⟨phase, -⟩
      cases phase

theorem owned_ran {front back : List Thread} {thread next : Thread} {world : World}
    {reading : Bool} {locked : List Mutex} (threads : session.threads = front ++ thread :: back) :
    Owned { session with world, reading, locked, threads := front ++ next :: back } ↔
      session.Owned := by
  unfold Owned
  rw [threads]
  simp

theorem owned_left {front back : List Thread} {thread : Thread} {returned : List Thread}
    (threads : session.threads = front ++ thread :: back)
    (owned : Owned { session with
      threads := front ++ back
      returned
      phase := if thread.call = .destroy then .destroyed else session.phase }) :
    session.Owned := by
  have busy : session.threads ≠ [] := by
    rw [threads]
    simp
  have phase := owned.1
  change (if thread.call = .destroy then Phase.destroyed else session.phase) = .alive at phase
  split_ifs at phase
  exact ⟨phase, Or.inl busy⟩

/-! ## The frames on their way -/

/-- A call puts no frame into the queue but that of its message. -/
theorem announced_of_reachable (reachable : sessionSystem.Reachable session) :
    ∀ thread ∈ session.threads,
      thread.rest.filterMap Instr.queued <:+ thread.call.message.map textFrame := by
  refine reachable.invariant (motive := fun session => ∀ thread ∈ session.threads,
    thread.rest.filterMap Instr.queued <:+ thread.call.message.map textFrame) ?_ ?_
  · rintro start rfl thread member
    rw [List.mem_singleton.mp member]
    exact List.suffix_refl []
  · intro before event after _ announced moved
    cases step_cases moved with
    | refused call admitted named lost => exact announced
    | begun call admitted owned =>
        intro thread member
        rcases List.mem_append.mp member with old | new
        · exact announced thread old
        · rw [List.mem_singleton.mp new]
          exact ⟨[], call.program_queued⟩
    | ran front back thread instr rest threads shape enabled =>
        rw [threads] at announced
        apply Pool.forall_replace announced
        have here := announced thread (Pool.mem_split front back thread)
        rw [Thread.advance_rest, Thread.advance_call, List.filterMap_append, Instr.expand_queued,
          List.nil_append]
        refine List.IsSuffix.trans ?_ here
        rw [shape]
        exact (List.suffix_cons instr rest).filterMap _
    | left front back thread threads done =>
        rw [threads] at announced
        exact fun other member => announced other (Pool.mem_of_removed member)

/-- The call that puts a frame into the queue. -/
theorem push_of_queued (reachable : sessionSystem.Reachable session) {thread : Thread}
    (member : thread ∈ session.threads) {instr : Instr} {rest : List Instr} {frame : Bytes}
    (shape : thread.rest = instr :: rest) (queues : instr.queued = some frame) :
    ∃ message, thread.call = .push message ∧ frame = textFrame message ∧
      rest.filterMap Instr.queued = [] := by
  have announced := announced_of_reachable reachable thread member
  rw [shape, List.filterMap_cons_some queues] at announced
  cases call : thread.call with
  | push message =>
      rw [call] at announced
      have single : frame :: rest.filterMap Instr.queued = [textFrame message] :=
        announced.eq_of_length_le (by simp [Call.message])
      obtain ⟨same, none⟩ := List.cons.inj single
      exact ⟨message, rfl, same, none⟩
  | _ =>
      rw [call] at announced
      cases List.suffix_nil.mp announced

/-- A call that pushes runs while the session is held. -/
theorem owned_of_push (ending : Ending session) {thread : Thread} (member : thread ∈ session.threads)
    {message : Bytes} (push : thread.call = .push message) : session.Owned := by
  have busy : session.threads ≠ [] := List.ne_nil_of_mem member
  cases ending with
  | alive phase others => exact ⟨phase, Or.inl busy⟩
  | destroying other phase threads destroys quiet none =>
      rw [threads, List.mem_singleton] at member
      rw [← member, push] at destroys
      cases destroys
  | destroyed phase threads quiet none closed => exact (busy threads).elim

/-! ## The mailbox -/

/-- A mailbox that holds what a session holds for its callers and its client. -/
structure Mailed (session : Session) (mailbox : Mailbox Bytes) : Prop where
  live : mailbox.live = true ↔ session.Owned
  sent : mailbox.channel.sent = session.world.produced
  arrived : mailbox.channel.arrived = session.world.delivered
  broken : mailbox.channel.broken = session.world.failed
  lost : session.script.count .clear ≠ 0 → session.world.failed = true
  filled : session.script.count .erase ≤ session.world.conn.sendQ.length
  waiting : session.script.count .clear = 0 → mailbox.channel.waiting =
    (session.world.conn.sendQ.map Node.frame).drop (session.script.count .erase)

/-- What the callers are told: a push as its frame enters the queue, or as it is refused,
and a close as it begins. -/
def answer {κ : Type*} (key : κ) (session : Session) :
    ThreadEvent → List (Directory.Answer κ Bytes)
  | .call (.push message) => if session.Owned then [] else [.pushed key message false]
  | .call .close => [.closed key (decide session.Owned)]
  | .run index =>
      session.threads[index]?.toList.flatMap fun thread =>
        if (thread.rest.head?.bind Instr.queued).isSome then
          thread.call.message.map (.pushed key · true)
        else []
  | _ => []

theorem answer_ran {κ : Type*} (key : κ) {front back : List Thread} {thread : Thread}
    {instr : Instr} {rest : List Instr} (threads : session.threads = front ++ thread :: back)
    (shape : thread.rest = instr :: rest) : session.answer key (.run front.length) =
      if instr.queued.isSome then thread.call.message.map (.pushed key · true) else [] := by
  have there : session.threads[front.length]? = some thread := by
    rw [threads]
    exact Pool.getElem?_split front back thread
  rw [answer, there, Option.toList_some, List.flatMap_singleton, shape, List.head?_cons,
    Option.bind_some]

namespace Mailed

variable {mailbox : Mailbox Bytes} {κ : Type*} [DecidableEq κ] {directory : Directory κ Bytes}
  {key : κ}

theorem start : Mailed {} {} where
  live := iff_of_true rfl ⟨rfl, Or.inl (List.cons_ne_nil _ _)⟩
  sent := rfl
  arrived := rfl
  broken := rfl
  lost := fun some_ => (some_ rfl).elim
  filled := Nat.le_refl 0
  waiting := fun _ => rfl

/-- The frames and what is to be settled stay the same. -/
theorem keep (mailed : Mailed before mailbox) {live : Bool} (holds : live = true ↔ after.Owned)
    (history : after.world.history = before.world.history)
    (queue : after.world.conn.sendQ = before.world.conn.sendQ)
    (erases : after.script.count .erase = before.script.count .erase)
    (clears : after.script.count .clear = before.script.count .clear) :
    Mailed after { mailbox with live } := by
  simp only [World.history, Prod.mk.injEq] at history
  obtain ⟨produced, delivered, failed⟩ := history
  refine ⟨holds, ?_, ?_, ?_, ?_, ?_, ?_⟩
  · rw [produced]
    exact mailed.sent
  · rw [delivered]
    exact mailed.arrived
  · rw [failed]
    exact mailed.broken
  · rw [clears, failed]
    exact mailed.lost
  · rw [erases, queue]
    exact mailed.filled
  · rw [clears, erases, queue]
    exact mailed.waiting

/-- The handler of a completion begins: the first frame arrives, or all are lost. -/
theorem written (mailed : Mailed before mailbox) (reachable : sessionSystem.Reachable before)
    {write : PendingWrite} {error : Option ErrorCode}
    (admitted : before.Admits (.written write error)) (found : directory key = some mailbox)
    (live : mailbox.live = true ↔ (before.enter (.written write error)).Owned) :
    ∃ next, Mailed (before.enter (.written write error)) next ∧
      directory.Follows textFrame key next ([] : List (Directory.Answer κ Bytes)) := by
  have settled := (settling_le reachable).2 (List.ne_nil_of_mem admitted)
  obtain ⟨noErase, noClear⟩ := Nat.add_eq_zero_iff.mp settled
  have front := (reachable_outstanding reachable write admitted).2
  obtain ⟨rest, queue⟩ := List.head?_eq_some_iff.mp front
  have entered : (before.enter (.written write error)).world.conn.sendQ = write.node :: rest := by
    rw [enter, take_conn]
    exact queue
  have script := before.script_enter (.written write error)
  have counts := Call.program_settles (.written write error)
  have waiting := mailed.waiting noClear
  rw [noErase, List.drop_zero, queue, List.map_cons] at waiting
  cases error with
  | none =>
      obtain ⟨erases, clears⟩ := Prod.mk.inj counts
      have arrives : mailbox.channel.step? .arrive = some { mailbox.channel with
          waiting := rest.map Node.frame
          arrived := mailbox.channel.arrived ++ [write.node.frame] } := by
        simp only [Channel.step?, waiting]
      refine ⟨_, ?_, .transmit found true arrives⟩
      refine ⟨live, mailed.sent, ?_, mailed.broken, ?_, ?_, ?_⟩
      · exact congrArg (· ++ _) mailed.arrived
      · rw [script, List.count_append, noClear, clears]
        exact fun some_ => (some_ rfl).elim
      · rw [script, List.count_append, noErase, erases, entered]
        exact Nat.succ_le_succ (Nat.zero_le _)
      · intro _
        rw [script, List.count_append, noErase, erases, entered]
        rfl
  | some code =>
      obtain ⟨erases, clears⟩ := Prod.mk.inj counts
      refine ⟨_, ?_, .transmit found false rfl⟩
      refine ⟨live, mailed.sent, mailed.arrived, rfl, fun _ => rfl, ?_, ?_⟩
      · rw [script, List.count_append, noErase, erases]
        exact Nat.zero_le _
      · rw [script, List.count_append, noClear, clears]
        exact fun none => (Nat.succ_ne_zero 0 none).elim

/-- A call begins. -/
theorem begun (mailed : Mailed before mailbox) (reachable : sessionSystem.Reachable before)
    {call : Call} (admitted : before.Admits call) (owned : call.byId = true → before.Owned)
    (found : directory key = some mailbox) :
    ∃ next, Mailed (before.enter call) next ∧
      directory.Follows textFrame key next (before.answer key (.call call)) := by
  have live : mailbox.live = true ↔ (before.enter call).Owned :=
    mailed.live.trans (owned_enter (ending_of_reachable reachable) admitted owned).symm
  have same (history : (before.enter call).world.history = before.world.history)
      (counts : (call.program.count .erase, call.program.count .clear) = (0, 0)) :
      Mailed (before.enter call) mailbox := by
    obtain ⟨erases, clears⟩ := Prod.mk.inj counts
    refine mailed.keep live history ?_ ?_ ?_
    · rw [enter, take_conn]
    · rw [script_enter, List.count_append, erases, Nat.add_zero]
    · rw [script_enter, List.count_append, clears, Nat.add_zero]
  cases call with
  | start => exact admitted.elim
  | push message =>
      rw [answer, if_pos (owned rfl)]
      exact ⟨mailbox, same rfl (Call.program_settles (.push message)), .stay found⟩
  | close =>
      have holds := owned rfl
      have told : decide before.Owned = mailbox.live := by
        rw [mailed.live.mpr holds]
        exact decide_eq_true holds
      rw [answer, told]
      exact ⟨mailbox, same rfl (Call.program_settles .close), .close found⟩
  | read error =>
      exact ⟨mailbox, same rfl (Call.program_settles (.read error)), .stay found⟩
  | destroy => exact ⟨mailbox, same rfl (Call.program_settles .destroy), .stay found⟩
  | written write error => exact mailed.written reachable admitted found live

/-- A call finds the session gone. -/
theorem refused (mailed : Mailed before mailbox) {call : Call} {returned : List Thread}
    (named : call.byId = true) (lost : ¬ before.Owned) (found : directory key = some mailbox) :
    ∃ next, Mailed { before with returned } next ∧
      directory.Follows textFrame key next (before.answer key (.call call)) := by
  have dead : mailbox.live = false := Bool.eq_false_iff.mpr fun live => lost (mailed.live.mp live)
  have same : Mailed { before with returned } mailbox := mailed.keep mailed.live rfl rfl rfl rfl
  refine ⟨mailbox, same, ?_⟩
  cases call with
  | push message =>
      rw [answer, if_neg lost]
      exact .refuse found dead message
  | close =>
      have told : decide before.Owned = mailbox.live := by
        rw [dead]
        exact decide_eq_false lost
      rw [answer, told]
      exact .close found
  | _ => cases named

/-- A call returns; the session is gone when nothing holds it any more. -/
theorem left (mailed : Mailed before mailbox) (world : after.world = before.world)
    (script : after.script = before.script) (earlier : after.Owned → before.Owned)
    (found : directory key = some mailbox) :
    ∃ next, Mailed after next ∧
      directory.Follows textFrame key next ([] : List (Directory.Answer κ Bytes)) := by
  have kept {live : Bool} (holds : live = true ↔ after.Owned) :
      Mailed after { mailbox with live } :=
    mailed.keep holds (by rw [world]) (by rw [world]) (by rw [script]) (by rw [script])
  by_cases owned : after.Owned
  · exact ⟨mailbox, kept (iff_of_true (mailed.live.mpr (earlier owned)) owned), .stay found⟩
  · by_cases live : mailbox.live = true
    · exact ⟨_, kept (iff_of_false Bool.false_ne_true owned), .retire found live⟩
    · exact ⟨mailbox, kept (iff_of_false live owned), .stay found⟩

/-- A frame enters the queue. -/
theorem pushed (mailed : Mailed before mailbox) {frame : Bytes}
    (live : mailbox.live = true ↔ after.Owned)
    (world : after.world = Instr.exec before.world (.pushBack frame))
    (erases : after.script.count .erase = before.script.count .erase)
    (clears : after.script.count .clear = before.script.count .clear) :
    Mailed after { mailbox with channel := { mailbox.channel with
      sent := mailbox.channel.sent ++ [frame]
      waiting := mailbox.channel.waiting ++ [frame] } } := by
  have queue : after.world.conn.sendQ.map Node.frame =
      before.world.conn.sendQ.map Node.frame ++ [frame] := by
    rw [world]
    exact List.map_append
  have longer : after.world.conn.sendQ.length = before.world.conn.sendQ.length + 1 := by
    rw [world]
    exact List.length_append
  refine ⟨live, ?_, ?_, ?_, ?_, ?_, ?_⟩
  · rw [world]
    exact congrArg (· ++ [frame]) mailed.sent
  · rw [world]
    exact mailed.arrived
  · rw [world]
    exact mailed.broken
  · rw [world, clears]
    exact mailed.lost
  · rw [erases, longer]
    exact Nat.le_succ_of_le mailed.filled
  · rw [clears, erases, queue]
    intro none
    have filled : before.script.count .erase ≤ (before.world.conn.sendQ.map Node.frame).length := by
      rw [List.length_map]
      exact mailed.filled
    rw [List.drop_append_of_le_length filled, mailed.waiting none]

/-- The handler of a failed write clears the queue, and what has been pushed since it
began is lost as well. -/
theorem cleared (mailed : Mailed before mailbox) (live : mailbox.live = true ↔ after.Owned)
    (world : after.world = Instr.exec before.world .clear)
    (due : before.script.count .clear ≠ 0) (noErase : after.script.count .erase = 0) :
    Mailed after { mailbox with channel := { mailbox.channel with
      waiting := []
      broken := true } } := by
  have failed : after.world.failed = true := by
    rw [world]
    exact mailed.lost due
  refine ⟨live, ?_, ?_, failed.symm, fun _ => failed, ?_, ?_⟩
  · rw [world]
    exact mailed.sent
  · rw [world]
    exact mailed.arrived
  · rw [noErase]
    exact Nat.zero_le _
  · rw [world]
    exact fun _ => List.drop_nil.symm

/-- The handler of a successful write takes the frame that has arrived out of the queue. -/
theorem erased (mailed : Mailed before mailbox) (live : mailbox.live = true ↔ after.Owned)
    (world : after.world = Instr.exec before.world .erase)
    (one : before.script.count .erase = 1) (noErase : after.script.count .erase = 0)
    (clears : after.script.count .clear = before.script.count .clear) : Mailed after mailbox := by
  have queue : after.world.conn.sendQ.map Node.frame =
      (before.world.conn.sendQ.map Node.frame).drop 1 := by
    rw [world, List.drop_one]
    exact List.map_tail
  refine ⟨live, ?_, ?_, ?_, ?_, ?_, ?_⟩
  · rw [world]
    exact mailed.sent
  · rw [world]
    exact mailed.arrived
  · rw [world]
    exact mailed.broken
  · rw [world, clears]
    exact mailed.lost
  · rw [noErase]
    exact Nat.zero_le _
  · rw [clears, noErase, queue, List.drop_zero]
    intro none
    rw [mailed.waiting none, one]

/-- A call makes a step. -/
theorem ran (mailed : Mailed before mailbox) (reachable : sessionSystem.Reachable before)
    {front back : List Thread} {thread : Thread} {instr : Instr} {rest : List Instr}
    {reading : Bool} {locked : List Mutex} (threads : before.threads = front ++ thread :: back)
    (shape : thread.rest = instr :: rest) (found : directory key = some mailbox) :
    ∃ next, Mailed { before with
        world := instr.exec before.world
        reading
        locked
        threads := front ++ thread.advance before instr rest :: back } next ∧
      directory.Follows textFrame key next (before.answer key (.run front.length)) := by
  have live : mailbox.live = true ↔ Owned { before with
      world := instr.exec before.world
      reading
      locked
      threads := front ++ thread.advance before instr rest :: back } :=
    mailed.live.trans (owned_ran threads).symm
  have erases := script_ran (Or.inl rfl) threads shape
  have clears := script_ran (Or.inr rfl) threads shape
  have few := (settling_le reachable).1
  rw [answer_ran key threads shape]
  cases instr with
  | pushBack frame =>
      have member : thread ∈ before.threads := threads ▸ Pool.mem_split front back thread
      obtain ⟨message, push, rfl, -⟩ := push_of_queued reachable member shape rfl
      have owned := owned_of_push (ending_of_reachable reachable) member push
      rw [push]
      exact ⟨_, mailed.pushed live rfl erases clears,
        .push found (mailed.live.mpr owned) rfl⟩
  | clear =>
      change _ + 1 = _ at clears
      change _ + 0 = _ at erases
      have noErase : before.script.count .erase = 0 := by omega
      exact ⟨_, mailed.cleared live rfl (by omega) (erases.trans noErase),
        .transmit found false rfl⟩
  | erase =>
      change _ + 1 = _ at erases
      change _ + 0 = _ at clears
      have one : before.script.count .erase = 1 := by omega
      exact ⟨mailbox, mailed.erased live rfl one (Nat.succ.inj (erases.trans one)) clears,
        .stay found⟩
  | _ =>
      refine ⟨mailbox, mailed.keep live ?_ ?_ erases clears, .stay found⟩
      · exact (Instr.exec_history _ _).trans (by simp [World.history, Instr.queued])
      · exact Instr.exec_sendQ _ rfl (by simp [Instr.Settles])

/-- **A session under threads is a mailbox.** Every step of a call is one of the mailbox,
or cannot be seen. -/
theorem step {event : ThreadEvent} (mailed : Mailed before mailbox)
    (reachable : sessionSystem.Reachable before) (found : directory key = some mailbox)
    (moved : before.step? event = some after) :
    ∃ next, Mailed after next ∧
      directory.Follows textFrame key next (before.answer key event) := by
  cases step_cases moved with
  | refused call admitted named lost => exact mailed.refused named lost found
  | begun call admitted owned => exact mailed.begun reachable admitted owned found
  | ran front back thread instr rest threads shape enabled =>
      exact mailed.ran reachable threads shape found
  | left front back thread threads done =>
      exact mailed.left rfl (script_left threads done) (owned_left threads) found

end Mailed

end Session

/-! ## What the calls return -/

/-- What a call returns in the end: one that finds nobody false, a push whose frame is in
the queue true, and a close true. -/
def Thread.verdict (thread : Thread) : Option Bool :=
  if thread.rest.filterMap Instr.queued = [] then
    some (thread.ok || decide (.forwarded ∈ thread.rest))
  else none

section Keys

variable {κ : Type*}

/-- The answer of a call that names a key and returns that. -/
def Call.answer (key : κ) (ok : Bool) : Call → List (Directory.Answer κ Bytes)
  | .push message => [.pushed key message ok]
  | .close => [.closed key ok]
  | .start | .read _ | .written _ _ | .destroy => []

theorem Call.answer_of_not_byId {call : Call} (other : call.byId = false) (key : κ) (ok : Bool) :
    call.answer key ok = [] := by
  cases call with
  | push message => cases other
  | close => cases other
  | _ => rfl

/-- What the caller of a thread is told, as soon as it is settled. -/
def Thread.told (key : κ) (thread : Thread) : List (Directory.Answer κ Bytes) :=
  thread.verdict.toList.flatMap fun ok => thread.call.answer key ok

namespace Session

variable {session before after : Session} (key : κ)

/-- What the calls in progress and those that have returned tell their callers. -/
def told (session : Session) : List (Directory.Answer κ Bytes) :=
  session.calls.flatMap (Thread.told key)

/-- A call in progress is not refused. -/
theorem Answers.told {thread : Thread} (answers : Answers thread) :
    thread.told key =
      if thread.rest.filterMap Instr.queued = [] then thread.call.answer key true else [] := by
  unfold Thread.told Thread.verdict
  by_cases queued : thread.rest.filterMap Instr.queued = []
  · rw [if_pos queued, if_pos queued, Option.toList_some, List.flatMap_singleton]
    cases named : thread.call.byId with
    | false => rw [Call.answer_of_not_byId named, Call.answer_of_not_byId named]
    | true =>
        have forwards : (thread.ok || decide (.forwarded ∈ thread.rest)) = true := by
          simpa using answers named
        rw [forwards]
  · rw [if_neg queued, if_neg queued]
    rfl

/-- A call of `WSPush` or `WSClose` that finds nobody returns false at once. -/
theorem told_refused {call : Call} (named : call.byId = true) (lost : ¬ before.Owned) :
    ({ call, rest := [] } : Thread).told key = before.answer key (.call call) := by
  cases call with
  | push message =>
      rw [answer, if_neg lost]
      rfl
  | close =>
      rw [answer, decide_eq_false lost]
      rfl
  | _ => cases named

/-- A close is told as it begins, and a push is not told yet. -/
theorem told_begun {call : Call} (owned : call.byId = true → before.Owned) :
    ({ call, rest := call.program } : Thread).told key = before.answer key (.call call) := by
  cases call with
  | push message =>
      rw [answer, if_pos (owned rfl)]
      rfl
  | close =>
      rw [answer, decide_eq_true (owned rfl)]
      rfl
  | _ =>
      rw [Thread.told]
      exact List.flatMap_eq_nil_iff.mpr fun ok _ => rfl

/-- A push is told when its frame enters the queue. -/
theorem told_ran (reachable : sessionSystem.Reachable before) {front back : List Thread}
    {thread : Thread} {instr : Instr} {rest : List Instr}
    (threads : before.threads = front ++ thread :: back) (shape : thread.rest = instr :: rest) :
    (thread.advance before instr rest).told key =
      thread.told key ++ before.answer key (.run front.length) := by
  have member : thread ∈ before.threads := threads ▸ Pool.mem_split front back thread
  have answers := answers_of_reachable reachable thread member
  rw [(answers.advance shape).told, answers.told, answer_ran key threads shape,
    Thread.advance_rest, Thread.advance_call, List.filterMap_append, Instr.expand_queued,
    List.nil_append]
  cases queues : instr.queued with
  | none => simp [shape, queues]
  | some frame =>
      obtain ⟨message, push, -, last⟩ := push_of_queued reachable member shape queues
      simp [shape, queues, last, push, Call.message, Call.answer]

/-- What the calls return grows by what their callers are told. -/
theorem step_told {event : ThreadEvent} (reachable : sessionSystem.Reachable before)
    (moved : before.step? event = some after) :
    (after.told key).Perm (before.told key ++ before.answer key event) := by
  unfold told calls
  cases step_cases moved with
  | refused call admitted named lost =>
      rw [← told_refused key named lost, ← List.append_assoc, List.flatMap_append,
        List.flatMap_singleton]
  | begun call admitted owned =>
      have returned : (before.take call).returned = before.returned := by
        cases call <;> rfl
      rw [← told_begun key owned, returned, List.append_assoc, List.singleton_append]
      exact (Pool.gathered_apart (Thread.told key) _ _ _).symm
  | ran front back thread instr rest threads shape enabled =>
      rw [threads, List.append_assoc, List.cons_append, List.append_assoc, List.cons_append]
      exact Pool.gathered_grown front _ (told_ran key reachable threads shape)
  | left front back thread threads done =>
      have nothing : before.answer key (.finish front.length) = [] := rfl
      have apart := Pool.gathered_apart (Thread.told key) front (back ++ before.returned) thread
      rw [threads, nothing]
      simpa using apart

end Session

end Keys

end Webserver.WS
