import Webserver.Foundation.Sharing
import Webserver.WS.Progress

/-! # Sessions that share a mutex

All sessions of a server under its threads, step by step. Each has the mutex of its own
queue; `ws_conns_mx_` is one for all of them, taken by every `WSPush` and `WSClose` and
by the `WSAddSession` that comes before a `Start`.

A `WSPush` or `WSClose` that finds nobody takes the mutex and gives it back in one step,
which does not wait here for the call on another session that holds it. Callbacks return
and do not call `WSPush` or `WSClose` themselves, as for one session.
-/

namespace Webserver.Server

open Foundation System WS

/-- A call under the id of the session holds `ws_conns_mx_`. -/
def HoldsMaps (session : Session) : Prop := .wsConns ∈ session.locked

/-- Any number of registered connections under all interleavings of their threads. -/
def sessionsSystem : System (List Session) (SharedEvent ThreadEvent) :=
  sharing sessionSystem HoldsMaps

/-- The calls in progress on all of them, while no other call begins. -/
def returning : System (List Session) (SharedEvent ThreadEvent) :=
  sessionsSystem.restrict fun _ event _ => event.Inner ThreadEvent.Inner

namespace Sessions

variable {sessions last : List Session}

/-- The steps that the calls in progress have left. -/
def work (sessions : List Session) : Nat := (sessions.map Session.work).sum

/-- All calls have returned, and no mutex is locked. -/
def Quiet (sessions : List Session) : Prop :=
  ∀ session ∈ sessions, session.threads = [] ∧ session.locked = []

theorem step_orderly {sessions after : List Session}
    (orderly : ∀ session ∈ sessions, session.Orderly) {event : SharedEvent ThreadEvent}
    (moved : returning.step sessions event after) :
    (∀ session ∈ after, session.Orderly) ∧ work after < work sessions := by
  refine inner_step ?_ orderly moved
  intro before event after orderly inner moved
  exact ⟨orderly.step moved, Session.work_lt ⟨moved, inner⟩⟩

/-- While a call is in progress anywhere, one can go on. -/
theorem quiet_of_stuck (orderly : ∀ session ∈ sessions, session.Orderly)
    (stuck : returning.Stuck sessions) : Quiet sessions := by
  have idle : ∀ session ∈ sessions, session.threads = [] := by
    intro session member
    by_contra busy
    have holding : ∀ session ∈ sessions, HoldsMaps session → session.threads ≠ [] := by
      intro session member held none
      have unlocked := orderly session member
      unfold Session.Orderly at unlocked
      rw [none] at unlocked
      rw [HoldsMaps, unlocked.locked_eq_nil] at held
      cases held
    have alone : ∀ session ∈ sessions, session.threads ≠ [] →
        ∃ event next, event.Inner ∧ sessionSystem.step session event next := by
      intro session member busy
      obtain ⟨event, next, moved, inner⟩ := (orderly session member).exists_step busy
      exact ⟨event, next, inner, moved⟩
    obtain ⟨event, after, moved⟩ := exists_inner_step holding alone member busy
    exact stuck event after moved
  intro session member
  have unlocked := orderly session member
  unfold Session.Orderly at unlocked
  rw [idle session member] at unlocked
  exact ⟨idle session member, unlocked.locked_eq_nil⟩

/-- **The calls on a server come to their end.** Callbacks return and push and close
nothing. In every reachable state of any number of sessions each is in a state that it
reaches alone, and `ws_conns_mx_` is held in one of them at most. However the threads of
the calls in progress interleave, they make at most as many steps as they have left; when
none can make another, all calls have returned and no mutex is locked; and some
interleaving gets there. -/
theorem reachable_returns (reachable : sessionsSystem.Reachable sessions) :
    (∀ session ∈ sessions, sessionSystem.Reachable session) ∧
    (sessions.Pairwise fun one other => ¬ (HoldsMaps one ∧ HoldsMaps other)) ∧
    (∀ events last, returning.Run sessions events last → events.length ≤ work sessions ∧
      (returning.Stuck last → Quiet last)) ∧
    ∃ events last, returning.Run sessions events last ∧ Quiet last := by
  have alone := component_reachable reachable
  have orderly : ∀ session ∈ sessions, session.Orderly := fun session member =>
    Session.orderly_of_reachable (alone session member)
  refine ⟨alone, exclusive_of_reachable reachable, ?_, ?_⟩
  · intro events last run
    obtain ⟨bound, ended⟩ := run.length_le (fun orderly moved => step_orderly orderly moved) orderly
    exact ⟨Nat.le_of_add_right_le bound, quiet_of_stuck ended⟩
  · obtain ⟨events, last, run, -, quiet⟩ := exists_run_of_progress
      (fun orderly moved => step_orderly orderly moved)
      (fun orderly stuck => quiet_of_stuck orderly stuck) orderly
    exact ⟨events, last, run, quiet⟩

/-- Two sessions, in one of which a push has begun before the other has started. -/
theorem reachable_returns_pushed : ∃ sessions, sessionsSystem.Reachable sessions ∧
    sessions.length = 2 ∧ (∃ session ∈ sessions, HoldsMaps session) ∧
    (∀ session ∈ sessions, sessionSystem.Reachable session) ∧
    (sessions.Pairwise fun one other => ¬ (HoldsMaps one ∧ HoldsMaps other)) ∧
    (∀ events last, returning.Run sessions events last → events.length ≤ work sessions ∧
      (returning.Stuck last → Quiet last)) ∧
    ∃ events last, returning.Run sessions events last ∧ Quiet last := by
  let idle : Session := {}
  let pushed : Session := idle.begin (.push (ascii "a"))
  have free : ∀ session ∈ [idle], ¬ HoldsMaps session :=
    List.forall_mem_singleton.mpr List.not_mem_nil
  have one : sessionsSystem.Reachable ([] ++ [idle]) :=
    .step (.initial rfl) (.joined rfl (by simp))
  have two : sessionsSystem.Reachable ([idle] ++ [idle]) := one.step (.joined rfl free)
  have begun : Shares sessionSystem HoldsMaps ([] ++ idle :: [idle])
      (.component ([] : List Session).length (.call (.push (ascii "a"))))
      ([] ++ pushed :: [idle]) :=
    .stepped rfl fun _ => Or.inr free
  have reachable : sessionsSystem.Reachable [pushed, idle] := two.step begun
  have holds : HoldsMaps pushed := List.mem_cons_self
  exact ⟨_, reachable, rfl, ⟨pushed, List.mem_cons_self, holds⟩, reachable_returns reachable⟩

end Sessions

end Webserver.Server
