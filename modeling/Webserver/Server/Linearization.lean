import Webserver.Foundation.Locality
import Webserver.Server.Directory
import Webserver.Server.Sessions
import Webserver.WS.Mailbox

/-! # The registry under threads

The sessions of a server under all interleavings of their threads are the directory of
mailboxes that the registry of whole calls is: every push and every close takes effect
at one step between its beginning and its return, in the order of these steps.
-/

namespace Webserver.WS.Session

open Foundation System

variable {session : Session}

/-- A call that has returned has no step left. -/
theorem returned_done (reachable : sessionSystem.Reachable session) :
    ∀ thread ∈ session.returned, thread.rest = [] := by
  refine reachable.invariant
    (motive := fun session => ∀ thread ∈ session.returned, thread.rest = []) ?_ ?_
  · rintro start rfl thread member
    cases member
  · intro before event after _ ended moved
    cases step_cases moved with
    | refused call admitted named lost =>
        intro thread member
        rcases List.mem_append.mp member with old | new
        · exact ended thread old
        · rw [List.mem_singleton.mp new]
    | begun call admitted owned =>
        have returned : (before.take call).returned = before.returned := by
          cases call <;> rfl
        intro thread member
        change thread ∈ (before.take call).returned at member
        rw [returned] at member
        exact ended thread member
    | ran front back thread instr rest threads shape enabled => exact ended
    | left front back thread threads done =>
        intro other member
        rcases List.mem_append.mp member with old | new
        · exact ended other old
        · rw [List.mem_singleton.mp new]
          exact done

/-- A call that has returned has returned its verdict. -/
theorem returned_verdict (reachable : sessionSystem.Reachable session) :
    ∀ thread ∈ session.returned, thread.verdict = some thread.ok := by
  intro thread member
  rw [Thread.verdict, returned_done reachable thread member]
  simp

/-- When nothing is going on, what has not arrived is nothing. -/
theorem Mailed.waiting_nil {mailbox : Mailbox Bytes} (mailed : Mailed session mailbox)
    (reachable : sessionSystem.Reachable session) (idle : session.threads = [])
    (quiet : session.world.outstanding = []) : mailbox.channel.waiting = [] := by
  obtain ⟨world, coarse, same⟩ := reachable_idle reachable idle
  have feeding := (World.feeding_of_reachable coarse).1
  have outstanding : world.outstanding = [] := by
    have none : session.world.quiet.outstanding = [] := quiet
    rw [same] at none
    exact none
  have queue : session.world.conn.sendQ = world.conn.sendQ :=
    congrArg (fun world => world.conn.sendQ) same
  unfold World.Feeding at feeding
  rw [outstanding] at feeding
  have empty := (List.take_eq_nil_iff.mp feeding.symm).resolve_left (by decide)
  have script : session.script = [] := by
    rw [Session.script, idle]
    rfl
  have waiting := mailed.waiting (by rw [script]; rfl)
  rw [waiting, queue, empty, List.map_nil, List.drop_nil]

/-- Every answer on a session is for its key. -/
theorem key_of_mem_answer {κ : Type*} {key : κ} {event : ThreadEvent} :
    ∀ told ∈ session.answer key event, told.key = key := by
  intro told member
  cases event with
  | call call =>
      cases call with
      | push message =>
          simp only [answer] at member
          split_ifs at member
          · cases member
          · rw [List.mem_singleton.mp member]
            rfl
      | close =>
          rw [List.mem_singleton.mp member]
          rfl
      | _ => cases member
  | run index =>
      obtain ⟨thread, -, inside⟩ := List.mem_flatMap.mp member
      split_ifs at inside
      · obtain ⟨message, -, rfl⟩ := List.mem_map.mp inside
        rfl
      · cases inside
  | finish index => cases member

/-- The callers on a session are told all of it, and those on others nothing. -/
theorem told_answer {κ : Type*} [DecidableEq κ] (key other : κ) (event : ThreadEvent) :
    Directory.told other (session.answer key event) =
      if key = other then session.answer key event else [] := by
  rw [Directory.told]
  split_ifs with same
  · apply List.filter_eq_self.mpr
    intro told member
    exact decide_eq_true ((key_of_mem_answer told member).trans same)
  · apply List.filter_eq_nil_iff.mpr
    intro told member
    rw [key_of_mem_answer told member, decide_eq_true_iff]
    exact same

end Webserver.WS.Session

namespace Webserver.Server.Sessions

open Foundation System WS

variable {last : List Session}

/-- What the callers of `WSPush` and `WSClose` are told. -/
def answer : List Session → SharedEvent ThreadEvent → List (Directory.Answer Nat Bytes) :=
  SharedEvent.shown Session.answer

/-- The calls on a session return what its callers are told. -/
theorem told_of_emits {answers : List (Directory.Answer Nat Bytes)}
    (emits : sessionsSystem.Emits answer [] answers last) (index : Nat) :
    (last[index]?.elim [] (Session.told index)).Perm (Directory.told index answers) := by
  refine emits.invariant (motive := fun seen sessions =>
    (sessions[index]?.elim [] (Session.told index)).Perm (Directory.told index seen)) rfl
      (List.Perm.refl _) ?_
  intro seen before event after earlier same moved
  rw [Directory.told, List.filter_append]
  change List.Perm _ (Directory.told index seen ++ Directory.told index (answer before event))
  cases moved with
  | @joined before new initial free =>
      obtain rfl : new = {} := initial
      have nothing : Directory.told index (answer before .join) = [] := rfl
      have untold : Session.told index {} = [] := rfl
      rw [nothing, List.append_nil]
      refine List.Perm.trans (List.Perm.of_eq ?_) same
      rcases Nat.lt_trichotomy index before.length with below | rfl | beyond
      · rw [List.getElem?_append_left below]
      · rw [List.getElem?_concat_length, List.getElem?_eq_none (Nat.le_refl _)]
        exact untold
      · have short : (before ++ [({} : Session)]).length ≤ index := by
          rw [List.length_append]
          exact beyond
        rw [List.getElem?_eq_none short, List.getElem?_eq_none (Nat.le_of_lt beyond)]
  | @stepped front back session next event moved enabled =>
      have there : (front ++ session :: back)[front.length]? = some session :=
        Pool.getElem?_split front back session
      have shown : answer (front ++ session :: back) (.component front.length event) =
          session.answer front.length event := by
        rw [answer, SharedEvent.shown, there]
        exact List.append_nil _
      rw [shown, Session.told_answer, ← Pool.set_split front back session next,
        Pool.getElem?_set next there]
      by_cases here : front.length = index
      · subst here
        rw [there] at same
        have alone := component_reachable earlier session (Pool.mem_split front back session)
        rw [if_pos rfl, if_pos rfl]
        exact (Session.step_told front.length alone moved).trans (same.append_right _)
      · rw [if_neg here, if_neg here, List.append_nil]
        exact same

/-- **The registry under threads is a directory of mailboxes.** Whatever the interleaving
of the threads of any number of sessions, the answers that the callers of `WSPush` and
`WSClose` are told are those of the directory, one call after the other; for each session
they are what the calls of both on it return. The client of each session gets frames of
the messages accepted for it, each once, in the order of their acceptance, none passed
over until a write has failed, and all of them when then nothing is going on. -/
theorem emits_mailboxes {answers : List (Directory.Answer Nat Bytes)}
    (emits : sessionsSystem.Emits answer [] answers last) :
    (∃ directory, (Directory.system Nat WS.textFrame).Emits Directory.answer .empty answers
      directory ∧ Housed Session.Mailed last directory) ∧
    ∀ (index : Nat) session, last[index]? = some session →
      (session.told index).Perm (Directory.told index answers) ∧
      (∀ thread ∈ session.returned, thread.verdict = some thread.ok) ∧
      ∃ received, session.world.delivered = received.map WS.textFrame ∧
        ((∀ text ∈ received, text.length < 2 ^ 63) →
          decodeStream WS.readFrame session.world.delivered.flatten =
            some (received.map WS.textFrameRead)) ∧
        received.Sublist (Directory.accepted index answers) ∧
        (session.world.failed = false → received <+: Directory.accepted index answers ∧
          (session.threads = [] → session.world.outstanding = [] →
            received = Directory.accepted index answers)) := by
  obtain ⟨directory, refined, housed⟩ := emits.locality
    (fun initial => initial ▸ Session.Mailed.start)
    (fun alone mailed found moved => mailed.step alone found moved)
  refine ⟨⟨directory, refined, housed⟩, ?_⟩
  intro index session there
  have alone := component_reachable (emits.reachable rfl) session (List.mem_of_getElem? there)
  obtain ⟨mailbox, found, mailed⟩ := housed.found there
  obtain ⟨ordered, sent⟩ := (Directory.accounts_of_emits refined).sent index mailbox found
  obtain ⟨received, arrived, inside, whole⟩ := ordered.exists_received sent
  rw [mailed.arrived] at arrived
  rw [mailed.broken] at whole
  refine ⟨?_, Session.returned_verdict alone, received, arrived, ?_, inside, ?_⟩
  · have told := told_of_emits emits index
    rw [there] at told
    exact told
  · intro fits
    rw [arrived, ← List.flatMap_def]
    exact WS.decodeStream_textFrames received fits
  · intro unbroken
    obtain ⟨initial, complete⟩ := whole unbroken
    exact ⟨initial, fun idle quiet => complete (mailed.waiting_nil alone idle quiet)⟩

/-- A message is in the queue of a session that is being closed. -/
def closingWriting : List ThreadEvent := Session.writingMessage ++ [.call .close, .run 0]

/-- What the callers are told then. -/
def closingAnswers : List (Directory.Answer Nat Bytes) :=
  [.pushed 0 (ascii "a") true, .closed 0 true]

theorem emits_mailboxes_closing : ∃ last,
    sessionsSystem.Emits answer [] closingAnswers last ∧ last.length = 2 ∧
    (∃ directory, (Directory.system Nat WS.textFrame).Emits Directory.answer .empty
      closingAnswers directory ∧ Housed Session.Mailed last directory) ∧
    ∀ (index : Nat) session, last[index]? = some session →
      (session.told index).Perm (Directory.told index closingAnswers) ∧
      (∀ thread ∈ session.returned, thread.verdict = some thread.ok) ∧
      ∃ received, session.world.delivered = received.map WS.textFrame ∧
        ((∀ text ∈ received, text.length < 2 ^ 63) →
          decodeStream WS.readFrame session.world.delivered.flatten =
            some (received.map WS.textFrameRead)) ∧
        received.Sublist (Directory.accepted index closingAnswers) ∧
        (session.world.failed = false →
          received <+: Directory.accepted index closingAnswers ∧
          (session.threads = [] → session.world.outstanding = [] →
            received = Directory.accepted index closingAnswers)) := by
  have replayed : (replay Session.step? (Session.answer 0) {} closingWriting).map Prod.fst =
      some closingAnswers := by
    decide +kernel
  obtain ⟨⟨_, session⟩, executed, rfl⟩ := Option.map_eq_some_iff.mp replayed
  have alone : sessionSystem.Emits (Session.answer 0) {} closingAnswers session :=
    Emits.of_replay executed
  let idle : Session := {}
  have free : ∀ session ∈ [idle], ¬ HoldsMaps session :=
    List.forall_mem_singleton.mpr List.not_mem_nil
  have closing : sessionsSystem.Emits answer ([] ++ idle :: [idle]) closingAnswers
      ([] ++ session :: [idle]) := alone.beside free
  have one : Shares sessionSystem HoldsMaps [] .join ([] ++ [idle]) := .joined rfl (by simp)
  have two : Shares sessionSystem HoldsMaps [idle] .join ([idle] ++ [idle]) := .joined rfl free
  have rest : sessionsSystem.Emits answer [idle] closingAnswers [session, idle] :=
    .cons two closing
  have emits : sessionsSystem.Emits answer [] closingAnswers [session, idle] :=
    .cons one rest
  exact ⟨_, emits, rfl, emits_mailboxes emits⟩

end Webserver.Server.Sessions
