import Webserver.Foundation.Bytes
import Webserver.Foundation.Transition

/-! # The accept loops

The two acceptors of a started server. The handler of a completed accept starts the
next one as its last statement, after calls that throw when the peer has already
gone; an exception leaves the handler before it gets there. The service that runs
the handlers goes on after an exception.

The whole handler of an accept is one step, as it is when one thread runs the service.
Both acceptors store the peer in the one `params_` of the server, so that with more
threads the handlers of a plain and of a TLS accept could mix their peers up.
-/

namespace Webserver.Server

open Foundation System

/-- The acceptor of the plain or of the TLS connections. -/
inductive Transport where
  | http
  | https
  deriving DecidableEq

/-- An acceptor with the number of its `async_accept`s that have not been handled
yet, and of all it has started. -/
structure Acceptor where
  isOpen : Bool := true
  outstanding : Nat := 0
  started : Nat := 0
  deriving DecidableEq

/-- The result of each call a handler makes for an accepted socket; `none` and
`false` are exceptions. The peer may go between any two of them. -/
structure Accepted (IPAddress : Type*) where
  address : Option IPAddress
  port : Option UInt16
  bridge : Bool
  noDelay : Bool
  deriving DecidableEq

/-- The acceptors of a server, its `params_`, and the connections it has started. -/
structure Listener (IPAddress : Type*) where
  http : Acceptor := {}
  https : Acceptor := {}
  remoteIp : Option IPAddress := none
  remotePort : Option UInt16 := none
  connections : List (Transport × Option IPAddress × Option UInt16) := []
  deriving DecidableEq

/-- An accept has completed with an error or with a socket, or the server stops. -/
inductive ListenerEvent (IPAddress : Type*) where
  | accepted (transport : Transport) (result : Except ErrorCode (Accepted IPAddress))
  | stop

namespace Listener

variable {IPAddress : Type*}

def acceptor (listener : Listener IPAddress) : Transport → Acceptor
  | .http => listener.http
  | .https => listener.https

def setAcceptor (listener : Listener IPAddress) (acceptor : Acceptor) :
    Transport → Listener IPAddress
  | .http => { listener with http := acceptor }
  | .https => { listener with https := acceptor }

/-- `async_accept` on one of the acceptors. -/
def doAccept (transport : Transport) (listener : Listener IPAddress) : Listener IPAddress :=
  let acceptor := listener.acceptor transport
  listener.setAcceptor
    { acceptor with
      outstanding := acceptor.outstanding + 1
      started := acceptor.started + 1 } transport

def doAcceptHttp (listener : Listener IPAddress) : Listener IPAddress := listener.doAccept .http

def doAcceptHttps (listener : Listener IPAddress) : Listener IPAddress := listener.doAccept .https

/-- `Start`. -/
def start : Listener IPAddress := doAcceptHttps (doAcceptHttp {})

/-- `Stop`. -/
def stop (listener : Listener IPAddress) : Listener IPAddress :=
  { listener with
    http := { listener.http with isOpen := false }
    https := { listener.https with isOpen := false } }

/-- `HTTPConnection::Start`, which sets an option of a TLS socket first: whether it
returns. -/
def startConnection (transport : Transport) (accepted : Accepted IPAddress)
    (listener : Listener IPAddress) : Bool × Listener IPAddress :=
  if transport = .https ∧ accepted.noDelay = false then (false, listener)
  else
    (true, { listener with
      connections :=
        listener.connections ++ [(transport, listener.remoteIp, listener.remotePort)] })

/-- The branch of the handler for an accepted socket: whether it ends without an
exception. -/
def onAccepted (transport : Transport) (accepted : Accepted IPAddress)
    (listener : Listener IPAddress) : Bool × Listener IPAddress :=
  match accepted.address with
  | none => (false, listener)
  | some address =>
      let addressed := { listener with remoteIp := some address }
      match accepted.port with
      | none => (false, addressed)
      | some port =>
          let named := { addressed with remotePort := some port }
          if accepted.bridge = false then (false, named)
          else named.startConnection transport accepted

/-- The handler of a completed accept. -/
def onAccept (transport : Transport) (result : Except ErrorCode (Accepted IPAddress))
    (listener : Listener IPAddress) : Listener IPAddress :=
  if (listener.acceptor transport).isOpen = false then listener
  else
    match result with
    | .error _ => listener.doAccept transport
    | .ok accepted =>
        let (returned, handled) := listener.onAccepted transport accepted
        if returned then handled.doAccept transport else handled

/-- An accept has completed. -/
def complete (transport : Transport) (listener : Listener IPAddress) : Listener IPAddress :=
  let acceptor := listener.acceptor transport
  listener.setAcceptor { acceptor with outstanding := acceptor.outstanding - 1 } transport

def step? (listener : Listener IPAddress) :
    ListenerEvent IPAddress → Option (Listener IPAddress)
  | .accepted transport result =>
      if (listener.acceptor transport).outstanding = 0 then none
      else some ((listener.complete transport).onAccept transport result)
  | .stop => some listener.stop

end Listener

/-- A started server under any sequence of completed accepts. -/
def listenerSystem (IPAddress : Type*) :
    System (Listener IPAddress) (ListenerEvent IPAddress) :=
  System.ofStep (· = .start) Listener.step?

/-- A call that the handler makes for the socket throws. -/
def Accepted.Throws {IPAddress : Type*} (accepted : Accepted IPAddress) (transport : Transport) :
    Prop :=
  accepted.address = none ∨ accepted.port = none ∨ accepted.bridge = false ∨
    transport = .https ∧ accepted.noDelay = false

namespace Listener

variable {IPAddress : Type*}

@[simp] theorem acceptor_setAcceptor (listener : Listener IPAddress) (acceptor : Acceptor)
    (transport other : Transport) :
    (listener.setAcceptor acceptor transport).acceptor other =
      if transport = other then acceptor else listener.acceptor other := by
  cases transport <;> cases other <;> rfl

@[simp] theorem stop_isOpen (listener : Listener IPAddress) (transport : Transport) :
    (listener.stop.acceptor transport).isOpen = false := by
  cases transport <;> rfl

@[simp] theorem stop_started (listener : Listener IPAddress) (transport : Transport) :
    (listener.stop.acceptor transport).started = (listener.acceptor transport).started := by
  cases transport <;> rfl

/-- The branch for an accepted socket leaves the acceptors alone, and returns unless
one of its calls throws. -/
theorem onAccepted_frame (transport : Transport) (accepted : Accepted IPAddress)
    (listener : Listener IPAddress) :
    (∀ other, (listener.onAccepted transport accepted).2.acceptor other =
        listener.acceptor other) ∧
      ((listener.onAccepted transport accepted).1 = true ↔ ¬ accepted.Throws transport) := by
  unfold onAccepted Accepted.Throws
  cases accepted.address with
  | none => simp
  | some address =>
      cases accepted.port with
      | none =>
          constructor
          · intro other
            cases other <;> rfl
          · simp
      | some port =>
          cases accepted.bridge with
          | false =>
              constructor
              · intro other
                cases other <;> rfl
              · simp
          | true =>
              simp only [startConnection]
              by_cases throws : transport = .https ∧ accepted.noDelay = false
              · constructor
                · intro other
                  simp only [if_pos throws]
                  cases other <;> rfl
                · simp [throws]
              · constructor
                · intro other
                  simp only [if_neg throws]
                  cases other <;> rfl
                · simp [throws]

theorem acceptor_complete (listener : Listener IPAddress) (transport other : Transport) :
    (listener.complete transport).acceptor other =
      if transport = other then
        { listener.acceptor other with outstanding := (listener.acceptor other).outstanding - 1 }
      else listener.acceptor other := by
  rw [complete, acceptor_setAcceptor]
  split_ifs with same
  · rw [same]
  · rfl

theorem acceptor_doAccept (listener : Listener IPAddress) (transport other : Transport) :
    (listener.doAccept transport).acceptor other =
      if transport = other then
        { listener.acceptor other with
          outstanding := (listener.acceptor other).outstanding + 1
          started := (listener.acceptor other).started + 1 }
      else listener.acceptor other := by
  rw [doAccept, acceptor_setAcceptor]
  split_ifs with same
  · rw [same]
  · rfl

/-- A call that the handler makes for the result of an accept throws. -/
def Disturbed (transport : Transport) (result : Except ErrorCode (Accepted IPAddress)) : Prop :=
  ∃ accepted, result = .ok accepted ∧ accepted.Throws transport

/-- On an open acceptor the handler starts the next accept unless it throws. -/
theorem onAccept_rearms {listener : Listener IPAddress} {transport : Transport}
    {result : Except ErrorCode (Accepted IPAddress)}
    (isOpen : (listener.acceptor transport).isOpen = true)
    (undisturbed : ¬ Disturbed transport result) (other : Transport) :
    (listener.onAccept transport result).acceptor other =
      (listener.doAccept transport).acceptor other := by
  unfold onAccept
  rw [if_neg (by simp [isOpen])]
  cases result with
  | error code => rfl
  | ok accepted =>
      obtain ⟨frame, returns⟩ := onAccepted_frame transport accepted listener
      have calm : ¬ accepted.Throws transport := fun throws =>
        undisturbed ⟨accepted, rfl, throws⟩
      simp only [returns.mpr calm, if_true]
      rw [acceptor_doAccept, acceptor_doAccept, frame]

/-- On a closed acceptor, or when it throws, the handler starts none. -/
theorem onAccept_keeps {listener : Listener IPAddress} {transport : Transport}
    {result : Except ErrorCode (Accepted IPAddress)}
    (stuck : (listener.acceptor transport).isOpen = false ∨ Disturbed transport result)
    (other : Transport) :
    (listener.onAccept transport result).acceptor other = listener.acceptor other := by
  unfold onAccept
  split_ifs with closed
  · rfl
  · obtain ⟨accepted, rfl, throws⟩ := stuck.resolve_left closed
    obtain ⟨frame, returns⟩ := onAccepted_frame transport accepted listener
    have failed : (listener.onAccepted transport accepted).1 = false := by
      apply Bool.eq_false_iff.mpr
      intro succeeded
      exact returns.mp succeeded throws
    simp only [failed, Bool.false_eq_true, if_false]
    exact frame other

/-! ## Accepting for ever -/

/-- After a step every open acceptor has one accept outstanding, and one that was
closed has stayed closed and has started none. -/
def Accepting (before after : Listener IPAddress) : Prop :=
  ∀ transport,
    ((after.acceptor transport).isOpen = true → (after.acceptor transport).outstanding = 1) ∧
    ((before.acceptor transport).isOpen = false →
      (after.acceptor transport).isOpen = false ∧
        (after.acceptor transport).started = (before.acceptor transport).started)

/-- No call of a handler throws for a socket accepted on an open acceptor. -/
def Undisturbed (before : Listener IPAddress) : ListenerEvent IPAddress → Prop
  | .accepted transport result =>
      (before.acceptor transport).isOpen = true → ¬ Disturbed transport result
  | .stop => True

/-- Every open acceptor has one accept outstanding. -/
def Armed (listener : Listener IPAddress) : Prop :=
  ∀ transport, (listener.acceptor transport).isOpen = true →
    (listener.acceptor transport).outstanding = 1

/-- An accept is handled on an armed server. -/
theorem Armed.accepted {before : Listener IPAddress} (armed : Armed before) (transport : Transport)
    (result : Except ErrorCode (Accepted IPAddress)) :
    before.Undisturbed (.accepted transport result) ↔
      Accepting before ((before.complete transport).onAccept transport result) := by
  have completed := acceptor_complete before transport
  have isOpen : ((before.complete transport).acceptor transport).isOpen =
      (before.acceptor transport).isOpen := by
    rw [completed, if_pos rfl]
  cases listening : (before.acceptor transport).isOpen with
  | false =>
      have kept (other : Transport) :
          ((before.complete transport).onAccept transport result).acceptor other =
            (before.complete transport).acceptor other :=
        onAccept_keeps (Or.inl (isOpen.trans listening)) other
      refine iff_of_true (fun wasOpen => by simp [listening] at wasOpen) ?_
      intro other
      rw [kept, completed]
      split_ifs with same
      · subst same
        simp [listening]
      · exact ⟨armed other, fun closed => ⟨closed, rfl⟩⟩
  | true =>
      have one := armed transport listening
      by_cases disturbed : Disturbed transport result
      · have kept : ((before.complete transport).onAccept transport result).acceptor transport =
            (before.complete transport).acceptor transport :=
          onAccept_keeps (Or.inr disturbed) transport
        refine iff_of_false (fun undisturbed => undisturbed listening disturbed) ?_
        intro accepting
        have still := (accepting transport).1
        rw [kept, completed, if_pos rfl] at still
        simp [listening, one] at still
      · have next := onAccept_rearms (isOpen.trans listening) disturbed
        refine iff_of_true (fun _ => disturbed) ?_
        intro other
        rw [next, acceptor_doAccept, completed]
        split_ifs with same
        · subst same
          simp [listening, one]
        · exact ⟨armed other, fun closed => ⟨closed, rfl⟩⟩

/-- From an armed state, a step keeps accepting exactly when it is undisturbed. -/
theorem Armed.step {before after : Listener IPAddress} {event : ListenerEvent IPAddress}
    (armed : Armed before) (moved : before.step? event = some after) :
    (before.Undisturbed event ↔ Accepting before after) ∧
      (Accepting before after → Armed after) := by
  refine ⟨?_, fun accepting transport => (accepting transport).1⟩
  cases event with
  | stop =>
      cases moved
      refine iff_of_true trivial ?_
      intro transport
      simp
  | accepted transport result =>
      simp only [step?] at moved
      split_ifs at moved with waiting
      cases moved
      exact armed.accepted transport result

theorem start_armed : Armed (start : Listener IPAddress) := by
  intro transport _
  cases transport <;> rfl

/-- **The accept loops.** The runs in which after every step each open acceptor has
exactly one accept outstanding, and a stopped one starts none, are exactly those
in which no call of a handler throws for a socket accepted on an open acceptor. -/
theorem run_accepting_iff (events : List (ListenerEvent IPAddress)) (last : Listener IPAddress) :
    ((listenerSystem IPAddress).restrict fun before event _ => before.Undisturbed event).Run
        .start events last ↔
      ((listenerSystem IPAddress).restrict fun before _ after => Accepting before after).Run
        .start events last := by
  constructor
  · intro run
    refine run.restrict_of (motive := Armed) ?_ start_armed
    intro before event after armed moved undisturbed
    obtain ⟨exact, kept⟩ := armed.step moved
    exact ⟨exact.mp undisturbed, kept (exact.mp undisturbed)⟩
  · intro run
    refine run.restrict_of (motive := Armed) ?_ start_armed
    intro before event after armed moved accepting
    obtain ⟨exact, kept⟩ := armed.step moved
    exact ⟨exact.mpr accepting, kept accepting⟩

/-- The peer of an accepted socket has gone when the handler asks for its address. -/
theorem not_armed_gone : ¬ ∀ (IPAddress : Type) (listener : Listener IPAddress),
    (listenerSystem IPAddress).Reachable listener → Armed listener := by
  intro always
  let gone : ListenerEvent Unit := .accepted .http (.ok ⟨none, none, true, true⟩)
  obtain ⟨last, executed⟩ : ∃ last, (start : Listener Unit).step? gone = some last := ⟨_, rfl⟩
  have reachable : (listenerSystem Unit).Reachable last := .step (.initial rfl) executed
  have armed := always Unit last reachable .http
  cases executed
  have none := armed rfl
  cases none

end Listener

end Webserver.Server
