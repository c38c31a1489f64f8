import Webserver.WS.Closing

/-! # The last callback of a session

After `ws_onclose` a connection still calls callbacks: for a push that finds it
alive, for a completion with an error other than the cancellation, and for calls
that were in progress when it closed. A run without these keeps `ws_onclose`
last.
-/

namespace Webserver.WS

open Foundation System

/-- A lifecycle callback other than `ws_onclose`. -/
def Effect.Reports : Effect → Prop
  | .onopen | .onmessageout _ | .onerror _ => True
  | _ => False

instance Effect.decidableReports : (effect : Effect) → Decidable effect.Reports
  | .onopen | .onmessageout _ | .onerror _ => isTrue trivial
  | .onclose | .cancel | .shutdown | .close => isFalse id

/-- A call that reports: of `Start`, of `WSPush`, or of the handler of an operation
that failed and was not cancelled. -/
def Call.Reports : Call → Prop
  | .start | .push _ => True
  | .read error | .written _ error => error.any (· ≠ .operationAborted) = true
  | .close | .destroy => False

instance Call.decidableReports : (call : Call) → Decidable call.Reports
  | .start | .push _ => isTrue trivial
  | .read error | .written _ error =>
      inferInstanceAs (Decidable (error.any (· ≠ .operationAborted) = true))
  | .close | .destroy => isFalse id

/-- `ws_onclose` is the last callback. -/
def ClosesLast (effects : List Effect) : Prop :=
  ∀ earlier later, effects = earlier ++ .onclose :: later → ∀ effect ∈ later, ¬ effect.Reports

/-- No thread is about to report. -/
def Session.Silent (session : Session) : Prop :=
  ∀ thread ∈ session.threads, ∀ effect ∈ thread.effects, ¬ effect.Reports

instance (session : Session) : Decidable session.Silent :=
  inferInstanceAs (Decidable (∀ thread ∈ session.threads, ∀ effect ∈ thread.effects,
    ¬ effect.Reports))

/-- No thread is about to report when `ws_onclose` is called, and no call that
reports reaches the connection after it. -/
def Session.Quiet (before : Session) : ThreadEvent → Prop
  | .call call => .onclose ∈ before.world.effects → call.Reports →
      call.byId = true ∧ ¬ before.Owned
  | .run index => before.threads[index]?.bind (·.rest.head?) = some (.call .onclose) →
      before.Silent
  | .finish _ => True

instance (before : Session) : (event : ThreadEvent) → Decidable (before.Quiet event)
  | .call call => inferInstanceAs (Decidable (.onclose ∈ before.world.effects → call.Reports →
      call.byId = true ∧ ¬ before.Owned))
  | .run index => inferInstanceAs (Decidable (before.threads[index]?.bind (·.rest.head?) =
      some (.call .onclose) → before.Silent))
  | .finish _ => isTrue trivial

/-- One more call after `ws_onclose` must not report. -/
theorem ClosesLast.concat {effects : List Effect} (last : ClosesLast effects) {effect : Effect}
    (quiet : .onclose ∈ effects → ¬ effect.Reports) : ClosesLast (effects ++ [effect]) := by
  intro earlier later split
  rcases List.eq_nil_or_concat' later with rfl | ⟨between, final, rfl⟩
  · intro other member
    cases member
  · rw [← List.cons_append, ← List.append_assoc] at split
    obtain ⟨before, same⟩ := List.append_inj' split rfl
    obtain rfl : effect = final := List.singleton_inj.mp same
    intro other member
    rcases List.mem_append.mp member with inside | new
    · exact last earlier between before other inside
    · rw [List.mem_singleton.mp new]
      apply quiet
      rw [before]
      exact List.mem_append_right _ List.mem_cons_self

theorem program_reports {call : Call} (silent : ¬ call.Reports) :
    ∀ effect ∈ ({ call, rest := call.program } : Thread).effects, ¬ effect.Reports := by
  cases call with
  | start => exact (silent trivial).elim
  | push message => exact (silent trivial).elim
  | read error =>
      rcases error with _ | _ | _
      · simp [Thread.effects, Call.program, report, Instr.effect?]
      · simp [Thread.effects, Call.program, report, Instr.effect?]
      · exact (silent rfl).elim
  | written write error =>
      rcases error with _ | _ | _
      · simp [Thread.effects, Call.program, Instr.effect?]
      · simp [Thread.effects, Call.program, report, Instr.effect?]
      · exact (silent rfl).elim
  | close => simp [Thread.effects, Call.program, Instr.effect?]
  | destroy => simp [Thread.effects, Call.program, Instr.effect?]

/-- `ws_onclose` is the last callback so far, and will be. -/
structure Silenced (session : Session) : Prop where
  last : ClosesLast session.world.effects
  silent : .onclose ∈ session.world.effects → session.Silent

namespace Silenced

variable {session after : Session} {front back : List Thread} {thread : Thread}

theorem ran (silenced : Silenced session) (threads : session.threads = front ++ thread :: back)
    {next : Thread} {instr : Instr} {rest : List Instr} (shape : thread.rest = instr :: rest)
    (acts : Acts instr session.world thread.effects after.world next.effects)
    (replaced : after.threads = front ++ next :: back)
    (quiet : session.Quiet (.run front.length)) : Silenced after := by
  have member : thread ∈ session.threads := by
    rw [threads]
    exact Pool.mem_split front back thread
  have kept (silent : session.Silent) (fewer : ∀ effect ∈ next.effects, ¬ effect.Reports) :
      after.Silent := by
    unfold Session.Silent at silent ⊢
    rw [threads] at silent
    rw [replaced]
    exact Pool.forall_replace silent fewer
  cases acts with
  | calls effect same effects made closed =>
      have silent : .onclose ∈ after.world.effects → session.Silent := by
        rw [made]
        intro closes
        rcases List.mem_append.mp closes with before | now
        · exact silenced.silent before
        · apply quiet
          rw [threads, Pool.getElem?_split, Option.bind_some, shape, List.head?_cons, same,
            List.mem_singleton.mp now]
      constructor
      · rw [made]
        apply silenced.last.concat
        intro before
        exact silenced.silent before thread member effect (effects ▸ List.mem_cons_self)
      · intro closes
        apply kept (silent closes)
        intro other inside
        exact silent closes thread member other (effects ▸ List.mem_cons_of_mem _ inside)
  | closes _ wasOpen nowClosed made effects =>
      constructor
      · rw [made]
        exact silenced.last
      · rw [made]
        intro before
        apply kept (silenced.silent before)
        rw [effects]
        intro other inside
        rcases List.mem_append.mp inside with closes | old
        · exact (by decide : ∀ effect ∈ closing, ¬ effect.Reports) other closes
        · exact silenced.silent before thread member other old
  | keeps made closed effects =>
      constructor
      · rw [made]
        exact silenced.last
      · rw [made]
        intro before
        apply kept (silenced.silent before)
        rw [effects]
        exact silenced.silent before thread member

theorem step {event : ThreadEvent} (silenced : Silenced session)
    (moved : session.step? event = some after) (quiet : session.Quiet event) :
    Silenced after := by
  cases Session.step_cases moved with
  | refused call admitted named lost => exact ⟨silenced.last, silenced.silent⟩
  | begun call admitted owned =>
      constructor
      · rw [Session.take_effects]
        exact silenced.last
      · rw [Session.take_effects]
        intro closed other member
        rcases List.mem_append.mp member with old | new
        · exact silenced.silent closed other old
        · rw [List.mem_singleton.mp new]
          apply program_reports
          intro reports
          obtain ⟨named, lost⟩ := quiet closed reports
          exact lost (owned named)
  | ran front back thread instr rest threads shape enabled =>
      exact silenced.ran threads shape (Session.acts session thread shape) rfl quiet
  | left front back thread threads done =>
      refine ⟨silenced.last, ?_⟩
      intro closed other member
      apply silenced.silent closed other
      rw [threads]
      exact Pool.mem_of_removed member

end Silenced

namespace Session

/-- **The last callback.** In every run in which no thread is about to report when
`ws_onclose` is called, and no call that reports reaches the connection after it,
`ws_onclose` is the last callback. -/
theorem run_closesLast {events : List ThreadEvent} {last : Session}
    (run : (sessionSystem.restrict fun before event _ => before.Quiet event).Run {} events last) :
    ClosesLast last.world.effects := by
  have silenced : Silenced last := by
    apply run.preserves (motive := Silenced)
    · intro before after event silenced moved
      exact silenced.step moved.1 moved.2
    · refine ⟨?_, ?_⟩
      · intro earlier later split
        cases (List.append_eq_nil_iff.mp split.symm).2
      · intro closed
        cases closed
  exact silenced.last

/-- A message is pushed, and a frame from the client stops the connection while it
is being written. -/
def stoppedWriting : List ThreadEvent :=
  [.run 0, .run 0, .finish 0, .call (.push (ascii "a"))] ++ List.replicate 8 (.run 0) ++
    [.finish 0, .call (.read none)] ++ List.replicate 5 (.run 0) ++ [.finish 0]

/-- The write is cancelled. -/
def cancelledWriting : List ThreadEvent :=
  let write : PendingWrite := ⟨⟨0, textFrame (ascii "a")⟩, false⟩
  stoppedWriting ++ [.call (.written write (some .operationAborted))] ++
    List.replicate 4 (.run 0) ++ [.finish 0]

theorem run_closesLast_cancelled : ∃ last,
    (sessionSystem.restrict fun before event _ => before.Quiet event).Run {} cancelledWriting last ∧
      ClosesLast last.world.effects := by
  obtain ⟨last, executed⟩ : ∃ last, cancelledWriting.foldlM (fun before event =>
      if Session.Quiet before event then before.step? event else none) {} = some last :=
    Option.isSome_iff_exists.mp (by decide +kernel)
  have run : (sessionSystem.restrict fun before event _ => before.Quiet event).Run {}
      cancelledWriting last := .restrict_of_foldlM executed
  exact ⟨last, run, run_closesLast run⟩

/-- Another message is pushed before the cancelled write has been handled. -/
def pushedLate : List ThreadEvent := stoppedWriting ++ [.call (.push (ascii "b")), .run 0]

theorem not_closesLast_pushed : ¬ ∀ session, sessionSystem.Reachable session →
    ClosesLast session.world.effects := by
  intro always
  have calls : (pushedLate.foldlM step? {}).map (fun last => last.world.effects) =
      some ([.onopen, .onmessageout (textFrame (ascii "a"))] ++
        .onclose :: [.cancel, .shutdown, .close, .onmessageout (textFrame (ascii "b"))]) := by
    decide +kernel
  obtain ⟨last, executed, effects⟩ := Option.map_eq_some_iff.mp calls
  have run : sessionSystem.Run {} pushedLate last := .of_foldlM executed
  apply always last (run.reachable rfl) _ _ effects (.onmessageout (textFrame (ascii "b")))
  · simp
  · trivial

end Session

end Webserver.WS
