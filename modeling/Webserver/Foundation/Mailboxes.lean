import Webserver.Foundation.Channel
import Webserver.Foundation.Traces

/-! # Directories of mailboxes

A directory maps keys to mailboxes, each with a channel to its reader. What is pushed
under a key goes into its mailbox, and the answer tells whether there is a live one.
-/

namespace Webserver.Foundation

variable {κ α β : Type*}

structure Mailbox (β : Type*) where
  channel : Channel β := {}
  live : Bool := true

def Directory (κ β : Type*) := κ → Option (Mailbox β)

namespace Directory

/-- A mailbox is added under a key, pushed to or closed; its first item arrives or
all of its items are lost; or it is retired. -/
inductive Request (κ α : Type*) where
  | add (key : κ)
  | push (key : κ) (item : α)
  | close (key : κ)
  | transmit (key : κ) (arrives : Bool)
  | retire (key : κ)

/-- What a caller is told. -/
inductive Answer (κ α : Type*) where
  | pushed (key : κ) (item : α) (ok : Bool)
  | closed (key : κ) (ok : Bool)
  deriving DecidableEq

/-- The key that the caller has named. -/
def Answer.key : Answer κ α → κ
  | .pushed key _ _ | .closed key _ => key

def empty : Directory κ β := fun _ => none

def accepts (directory : Directory κ β) (key : κ) : Bool := (directory key).any (·.live)

def answer (directory : Directory κ β) : Request κ α → List (Answer κ α)
  | .push key item => [.pushed key item (directory.accepts key)]
  | .close key => [.closed key (directory.accepts key)]
  | .add _ | .transmit _ _ | .retire _ => []

section Functions

variable [DecidableEq κ]

/-- The items accepted under a key. -/
def accepted (key : κ) (answers : List (Answer κ α)) : List α :=
  answers.filterMap fun
    | .pushed named item true => if named = key then some item else none
    | _ => none

/-- What the callers who named a key are told. -/
def told (key : κ) (answers : List (Answer κ α)) : List (Answer κ α) :=
  answers.filter fun answer => decide (answer.key = key)

/-- A mailbox takes another state. -/
def put (directory : Directory κ β) (key : κ) (mailbox : Mailbox β) : Directory κ β :=
  fun other => if other = key then some mailbox else directory other

theorem put_self (directory : Directory κ β) (key : κ) (mailbox : Mailbox β) :
    directory.put key mailbox key = some mailbox := if_pos rfl

theorem put_of_ne {directory : Directory κ β} {key other : κ} (different : other ≠ key)
    (mailbox : Mailbox β) : directory.put key mailbox other = directory other := if_neg different

theorem put_eq_self {directory : Directory κ β} {key : κ} {mailbox : Mailbox β}
    (there : directory key = some mailbox) : directory.put key mailbox = directory := by
  funext other
  rw [put]
  split_ifs with here
  · rw [here, there]
  · rfl

/-- A mailbox whose channel has made a step. -/
def move (directory : Directory κ β) (key : κ) (label : Channel.Label β) :
    Option (Directory κ β) :=
  (directory key).bind fun mailbox =>
    (mailbox.channel.step? label).map fun channel => directory.put key { mailbox with channel }

def step? (encode : α → β) (directory : Directory κ β) : Request κ α → Option (Directory κ β)
  | .add key => if (directory key).isNone then some (directory.put key {}) else none
  | .push key item =>
      if directory.accepts key then directory.move key (.send (encode item)) else some directory
  | .close _ => some directory
  | .transmit key arrives => directory.move key (if arrives then .arrive else .lose)
  | .retire key =>
      (directory key).bind fun mailbox =>
        if mailbox.live then some (directory.put key { mailbox with live := false }) else none

def system (κ : Type*) [DecidableEq κ] (encode : α → β) :
    System (Directory κ β) (Request κ α) :=
  System.ofStep (· = empty) (step? encode)

/-- One mailbox has taken another state, by a request whose caller was told that, or by
none. -/
def Follows (encode : α → β) (directory : Directory κ β) (key : κ) (next : Mailbox β)
    (answers : List (Answer κ α)) : Prop :=
  directory.put key next = directory ∧ answers = [] ∨
    ∃ request, directory.step? encode request = some (directory.put key next) ∧
      directory.answer request = answers

namespace Follows

variable {encode : α → β} {directory : Directory κ β} {key : κ} {mailbox : Mailbox β}
  {channel : Channel β}

theorem stay (there : directory key = some mailbox) :
    Follows encode directory key mailbox [] := Or.inl ⟨put_eq_self there, rfl⟩

theorem push (there : directory key = some mailbox) (live : mailbox.live = true) {item : α}
    (sends : mailbox.channel.step? (.send (encode item)) = some channel) :
    Follows encode directory key { mailbox with channel } [.pushed key item true] := by
  have accepts : directory.accepts key = true := by rw [accepts, there]; exact live
  refine Or.inr ⟨.push key item, ?_, by rw [answer, accepts]⟩
  rw [step?, if_pos accepts, move, there, Option.bind_some, sends]
  rfl

theorem refuse (there : directory key = some mailbox) (dead : mailbox.live = false) (item : α) :
    Follows encode directory key mailbox [.pushed key item false] := by
  have accepts : directory.accepts key = false := by rw [accepts, there]; exact dead
  refine Or.inr ⟨.push key item, ?_, by rw [answer, accepts]⟩
  rw [step?, accepts, put_eq_self there]
  rfl

theorem close (there : directory key = some mailbox) :
    Follows encode directory key mailbox [.closed key mailbox.live] := by
  refine Or.inr ⟨.close key, ?_, by rw [answer, accepts, there]; rfl⟩
  rw [step?, put_eq_self there]

theorem transmit (there : directory key = some mailbox) (arrives : Bool)
    (moves : mailbox.channel.step? (if arrives then .arrive else .lose) = some channel) :
    Follows encode directory key { mailbox with channel } [] := by
  refine Or.inr ⟨.transmit key arrives, ?_, rfl⟩
  rw [step?, move, there, Option.bind_some, moves]
  rfl

theorem retire (there : directory key = some mailbox) (live : mailbox.live = true) :
    Follows encode directory key { mailbox with live := false } [] := by
  refine Or.inr ⟨.retire key, ?_, rfl⟩
  rw [step?, there, Option.bind_some, if_pos live]

end Follows

/-- Every mailbox was sent what was accepted under its key, and hands it on in order. -/
structure Accounts (encode : α → β) (answers : List (Answer κ α))
    (directory : Directory κ β) : Prop where
  absent : ∀ key, directory key = none → accepted key answers = []
  sent : ∀ key mailbox, directory key = some mailbox → mailbox.channel.Ordered ∧
    mailbox.channel.sent = (accepted key answers).map encode

namespace Accounts

variable {encode : α → β} {answers later : List (Answer κ α)} {directory after : Directory κ β}

/-- One mailbox is put in its place. -/
theorem replace (accounts : Accounts encode answers directory) {key : κ} {mailbox : Mailbox β}
    (ordered : mailbox.channel.Ordered)
    (sent : mailbox.channel.sent = (accepted key (answers ++ later)).map encode)
    (others : ∀ other, other ≠ key → accepted other later = []) :
    Accounts encode (answers ++ later) (directory.put key mailbox) := by
  have same {other : κ} (different : other ≠ key) :
      accepted other (answers ++ later) = accepted other answers := by
    rw [accepted, List.filterMap_append]
    exact (congrArg _ (others other different)).trans (List.append_nil _)
  constructor
  · intro other none
    by_cases here : other = key
    · rw [here, put_self] at none
      cases none
    · rw [put_of_ne here] at none
      rw [same here]
      exact accounts.absent other none
  · intro other found there
    by_cases here : other = key
    · subst here
      rw [put_self] at there
      rw [← Option.some.inj there]
      exact ⟨ordered, sent⟩
    · rw [put_of_ne here] at there
      rw [same here]
      exact accounts.sent other found there

/-- An answer that accepts nothing changes nothing. -/
theorem refused (accounts : Accounts encode answers directory)
    (nothing : ∀ key, accepted key later = []) : Accounts encode (answers ++ later) directory := by
  have same (key : κ) : accepted key (answers ++ later) = accepted key answers := by
    rw [accepted, List.filterMap_append]
    exact (congrArg _ (nothing key)).trans (List.append_nil _)
  constructor
  · intro key none
    rw [same]
    exact accounts.absent key none
  · intro key mailbox there
    rw [same]
    exact accounts.sent key mailbox there

theorem step {request : Request κ α} (accounts : Accounts encode answers directory)
    (moved : directory.step? encode request = some after) :
    Accounts encode (answers ++ directory.answer request) after := by
  cases request with
  | add key =>
      simp only [step?] at moved
      split_ifs at moved with free
      cases moved
      have none := Option.isNone_iff_eq_none.mp free
      refine accounts.replace ⟨List.Sublist.refl _, fun _ => rfl⟩ ?_ (fun _ _ => rfl)
      rw [answer, List.append_nil, accounts.absent key none]
      rfl
  | push key item =>
      simp only [step?] at moved
      split_ifs at moved with accepts
      · obtain ⟨mailbox, found, stepped⟩ := Option.bind_eq_some_iff.mp moved
        obtain ⟨channel, sends, rfl⟩ := Option.map_eq_some_iff.mp stepped
        obtain ⟨ordered, sent⟩ := accounts.sent key mailbox found
        have ordered := ordered.step sends
        cases sends
        refine accounts.replace ordered ?_ ?_
        · rw [answer, accepts, accepted, List.filterMap_append, List.map_append]
          simp only [sent, accepted, List.filterMap_cons, if_true, List.filterMap_nil]
          rfl
        · intro other different
          simp [answer, accepts, accepted, Ne.symm different]
      · cases moved
        apply accounts.refused
        intro other
        simp [answer, accepts, accepted]
  | close key =>
      cases moved
      exact accounts.refused fun _ => rfl
  | transmit key arrives =>
      obtain ⟨mailbox, found, stepped⟩ := Option.bind_eq_some_iff.mp moved
      obtain ⟨channel, transmits, rfl⟩ := Option.map_eq_some_iff.mp stepped
      obtain ⟨ordered, sent⟩ := accounts.sent key mailbox found
      refine accounts.replace (ordered.step transmits) ?_ (fun _ _ => rfl)
      rw [answer, List.append_nil, ← sent]
      exact Channel.step_sent transmits (by split <;> nofun)
  | retire key =>
      obtain ⟨mailbox, found, stepped⟩ := Option.bind_eq_some_iff.mp moved
      split_ifs at stepped with live
      cases stepped
      obtain ⟨ordered, sent⟩ := accounts.sent key mailbox found
      refine accounts.replace ordered ?_ (fun _ _ => rfl)
      rw [answer, List.append_nil]
      exact sent

end Accounts

/-- **The accounts of a directory.** After every run each mailbox was sent exactly the
items accepted under its key, in order, and what has arrived is in that order. -/
theorem accounts_of_emits {encode : α → β} {answers : List (Answer κ α)}
    {directory : Directory κ β}
    (emits : (system κ encode).Emits answer empty answers directory) :
    Accounts encode answers directory := by
  refine emits.invariant (motive := Accounts encode) rfl ?_ ?_
  · exact ⟨fun _ _ => rfl, nofun⟩
  · intro seen before request after _ accounts moved
    exact accounts.step moved

end Functions

end Directory

end Webserver.Foundation
