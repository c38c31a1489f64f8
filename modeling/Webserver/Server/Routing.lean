import Webserver.Server.Registry

/-! # Routing to sessions

The maps lead every id to the connection it was made for. An entry stays as long
as its connection lives, so a call finds that connection and no other; a call
that does not leaves everything as it was but for the dead entry under its id.
-/

namespace Webserver.Server

open Foundation

variable {Id : Type*} [DecidableEq Id]

namespace WebServer

/-- The map of the plain or of the secure connections. -/
def map (server : WebServer Id) (secure : Bool) : UnorderedMap Id Nat :=
  if secure then server.wsSecureConns else server.wsConns

/-- The server without the entry of an id in one of the maps. -/
def forget (server : WebServer Id) (secure : Bool) (id : Id) : WebServer Id :=
  if secure then { server with wsSecureConns := server.wsSecureConns.erase id }
  else { server with wsConns := server.wsConns.erase id }

/-- A call has named an id. -/
def claim (server : WebServer Id) (id : Id) : WebServer Id :=
  { server with unclaimed := server.unclaimed.filter (· ≠ id) }

/-- The argument of a call has been forwarded to the connection at a position. -/
def reach (server : WebServer Id) (handle : Nat) (conn : Connection Id)
    (argument : Argument) : WebServer Id :=
  { server with
    conns := server.conns.set handle { conn with world := argument.forward conn.world } }

@[simp] theorem forget_conns (server : WebServer Id) (secure : Bool) (id : Id) :
    (server.forget secure id).conns = server.conns := by
  cases secure <;> rfl

theorem forget_map (server : WebServer Id) (secure other : Bool) (id : Id) :
    (server.forget secure id).map other =
      if secure = other then (server.map other).erase id else server.map other := by
  cases secure <;> cases other <;> rfl

/-- An erased entry is gone, and every other entry stays. -/
theorem forget_lookup (server : WebServer Id) (secure other : Bool) (id wanted : Id) :
    ((server.forget secure id).map other).lookup wanted =
      if secure = other ∧ wanted = id then none else (server.map other).lookup wanted := by
  rw [forget_map]
  by_cases same : secure = other
  · by_cases named : wanted = id
    · rw [if_pos same, if_pos ⟨same, named⟩, named, AList.lookup_erase]
    · rw [if_pos same, if_neg (fun both => named both.2), AList.lookup_erase_ne named]
  · rw [if_neg same, if_neg (fun both => same both.1)]

theorem wsAddSession_conns (server : WebServer Id) (id : Id) (secure : Bool) :
    (server.wsAddSession id secure).conns = server.conns ++ [({ id, secure } : Connection Id)] := by
  unfold wsAddSession
  cases secure <;> rfl

theorem wsAddSession_lookup (server : WebServer Id) (id : Id) (secure kind : Bool) (wanted : Id) :
    ((server.wsAddSession id secure).map kind).lookup wanted =
      if secure = kind then ((server.map kind).lookup wanted).or
        (if id = wanted then some server.conns.length else none)
      else (server.map kind).lookup wanted := by
  unfold wsAddSession
  cases secure <;> cases kind
  · exact UnorderedMap.lookup_emplace _ _ _ _
  · rfl
  · rfl
  · exact UnorderedMap.lookup_emplace _ _ _ _

/-- The entries after a session has been added: those before, and its own where its
id was free. -/
theorem wsAddSession_lookup_iff {server : WebServer Id} {id wanted : Id} {secure kind : Bool}
    {handle : Nat} :
    ((server.wsAddSession id secure).map kind).lookup wanted = some handle ↔
      (server.map kind).lookup wanted = some handle ∨
        (server.map kind).lookup wanted = none ∧ secure = kind ∧ id = wanted ∧
          handle = server.conns.length := by
  rw [wsAddSession_lookup]
  by_cases same : secure = kind
  · by_cases named : id = wanted
    · rw [if_pos same, if_pos named, Option.or_eq_some_iff, Option.some.injEq]
      simp only [same, named, true_and, eq_comm]
    · rw [if_pos same, if_neg named, Option.or_none]
      simp only [named, false_and, and_false, or_false]
  · rw [if_neg same]
    simp only [same, false_and, and_false, or_false]

/-- What a call under an id does: it reaches the living connection registered
under the id, or erases the entry of a dead one, or finds no entry. -/
inductive Routed (server : WebServer Id) (id : Id) (argument : Argument) :
    Bool × WebServer Id → Prop where
  | reached (handle : Nat) (conn : Connection Id) :
      (server.map conn.secure).lookup id = some handle → server.conns[handle]? = some conn →
      conn.alive = true →
      Routed server id argument (true, (server.claim id).reach handle conn argument)
  | dead (handle : Nat) (conn : Connection Id) :
      (server.map conn.secure).lookup id = some handle → server.conns[handle]? = some conn →
      conn.alive = false →
      Routed server id argument (false, (server.claim id).forget conn.secure id)
  | unknown : (∀ secure, (server.map secure).lookup id = none) →
      Routed server id argument (false, server.claim id)

/-- Ids are unique, every entry leads to the connection of its id and kind, and
every living connection has its entry. -/
structure Registered (server : WebServer Id) : Prop where
  unique : (server.conns.map Connection.id).Nodup
  entry : ∀ secure id handle, (server.map secure).lookup id = some handle →
    ∃ conn, server.conns[handle]? = some conn ∧ conn.id = id ∧ conn.secure = secure
  present : ∀ handle conn, server.conns[handle]? = some conn → conn.alive = true →
    (server.map conn.secure).lookup conn.id = some handle

namespace Registered

variable {server after : WebServer Id}

/-- Connections with one id are one connection. -/
theorem handle_eq (registered : Registered server) {left right : Nat} {one other : Connection Id}
    (atLeft : server.conns[left]? = some one) (atRight : server.conns[right]? = some other)
    (same : one.id = other.id) : left = right := by
  have leftId : (server.conns.map Connection.id)[left]? = some one.id := by
    rw [List.getElem?_map, atLeft, Option.map_some]
  have rightId : (server.conns.map Connection.id)[right]? = some one.id := by
    rw [List.getElem?_map, atRight, Option.map_some, same]
  have inside := (List.getElem?_eq_some_iff.mp leftId).1
  exact (List.getElem?_inj inside registered.unique).mp (leftId.trans rightId.symm)

/-- The connection an entry leads to has the id of the entry. -/
theorem id_of_entry (registered : Registered server) {secure : Bool} {id : Id} {handle : Nat}
    {conn : Connection Id} (entry : (server.map secure).lookup id = some handle)
    (found : server.conns[handle]? = some conn) : conn.id = id := by
  obtain ⟨same, atHandle, named, -⟩ := registered.entry secure id handle entry
  rw [found] at atHandle
  rw [Option.some.inj atHandle]
  exact named

/-- No id is in both maps. -/
theorem exclusive (registered : Registered server) {id : Id} {secure : Bool} {handle : Nat}
    (found : (server.map secure).lookup id = some handle) :
    (server.map !secure).lookup id = none := by
  rw [Option.eq_none_iff_forall_ne_some]
  intro other twice
  obtain ⟨one, atOne, named, kind⟩ := registered.entry secure id handle found
  obtain ⟨two, atTwo, namedToo, otherKind⟩ := registered.entry _ id other twice
  have same := registered.handle_eq atOne atTwo (named.trans namedToo.symm)
  rw [same, atTwo] at atOne
  obtain rfl := Option.some.inj atOne
  rw [kind] at otherKind
  cases secure <;> cases otherKind

omit [DecidableEq Id] in
/-- A weak reference can be locked while its connection lives. -/
theorem lock_of_found {handle : Nat} {conn : Connection Id}
    (found : server.conns[handle]? = some conn) :
    lock server.conns handle = if conn.alive then some conn else none := by
  rw [lock, found, Option.filter_some]

/-- **The routing law of a call.** -/
theorem routed (registered : Registered server) (id : Id) (argument : Argument) :
    Routed server id argument (server.forwardEither id argument) := by
  unfold forwardEither wsForward
  cases plain : server.wsConns.lookup id with
  | some handle =>
      obtain ⟨conn, found, named, kind⟩ := registered.entry false id handle plain
      have first : (server.map false).lookup id = some handle := plain
      have other : server.wsSecureConns.lookup id = none := registered.exclusive first
      have entry : (server.map conn.secure).lookup id = some handle := by
        rw [kind]
        exact plain
      cases alive : conn.alive with
      | true =>
          have locked : lock server.conns handle = some conn :=
            (lock_of_found found).trans (if_pos alive)
          simp only [locked, if_true]
          exact .reached handle conn entry found alive
      | false =>
          have locked : lock server.conns handle = none := by
            rw [lock_of_found found, alive]
            rfl
          have erased : Routed server id argument _ := .dead handle conn entry found alive
          rw [kind] at erased
          simp only [locked, other, Bool.false_eq_true, if_false]
          exact erased
  | none =>
      cases secure : server.wsSecureConns.lookup id with
      | none =>
          refine .unknown ?_
          intro kind
          cases kind with
          | true => exact secure
          | false => exact plain
      | some handle =>
          obtain ⟨conn, found, named, kind⟩ := registered.entry true id handle secure
          have entry : (server.map conn.secure).lookup id = some handle := by
            rw [kind]
            exact secure
          cases alive : conn.alive with
          | true =>
              have locked : lock server.conns handle = some conn :=
                (lock_of_found found).trans (if_pos alive)
              simp only [locked]
              exact .reached handle conn entry found alive
          | false =>
              have locked : lock server.conns handle = none := by
                rw [lock_of_found found, alive]
                rfl
              have erased : Routed server id argument _ := .dead handle conn entry found alive
              rw [kind] at erased
              simp only [locked, Bool.false_eq_true, if_false]
              exact erased

/-- What happens to one connection keeps the registry, as long as it does not come
back to life. -/
theorem replace (registered : Registered server) {handle : Nat} {conn next : Connection Id}
    (found : server.conns[handle]? = some conn) (conns : after.conns = server.conns.set handle next)
    (maps : ∀ secure, after.map secure = server.map secure) (id : next.id = conn.id)
    (secure : next.secure = conn.secure) (alive : next.alive = true → conn.alive = true) :
    Registered after := by
  have lookup := Pool.getElem?_set next found
  constructor
  · rw [conns, Pool.map_set Connection.id found id]
    exact registered.unique
  · intro kind wanted position entry
    rw [maps] at entry
    obtain ⟨other, atPosition, named, same⟩ := registered.entry kind wanted position entry
    rw [conns, lookup]
    by_cases here : handle = position
    · subst here
      rw [found] at atPosition
      obtain rfl := Option.some.inj atPosition
      rw [if_pos rfl]
      exact ⟨next, rfl, id.trans named, secure.trans same⟩
    · rw [if_neg here]
      exact ⟨other, atPosition, named, same⟩
  · intro position other atPosition living
    rw [conns, lookup] at atPosition
    rw [maps]
    by_cases here : handle = position
    · subst here
      rw [if_pos rfl] at atPosition
      obtain rfl := Option.some.inj atPosition
      rw [id, secure]
      exact registered.present handle conn found (alive living)
    · rw [if_neg here] at atPosition
      exact registered.present position other atPosition living

/-- Naming an id changes no registration. -/
theorem claim (registered : Registered server) (id : Id) : Registered (server.claim id) :=
  ⟨registered.unique, registered.entry, registered.present⟩

/-- The entry of a dead connection can go. -/
theorem forget (registered : Registered server) {handle : Nat} {conn : Connection Id}
    (found : server.conns[handle]? = some conn) (dead : conn.alive = false) :
    Registered (server.forget conn.secure conn.id) := by
  refine ⟨?_, ?_, ?_⟩
  · rw [forget_conns]
    exact registered.unique
  · intro kind wanted position entry
    rw [forget_conns]
    rw [forget_lookup] at entry
    split_ifs at entry
    exact registered.entry kind wanted position entry
  · intro position other atPosition living
    rw [forget_conns] at atPosition
    have different : ¬ (conn.secure = other.secure ∧ other.id = conn.id) := by
      intro both
      rw [registered.handle_eq atPosition found both.2, found] at atPosition
      rw [← Option.some.inj atPosition, dead] at living
      cases living
    rw [forget_lookup, if_neg different]
    exact registered.present position other atPosition living

/-- After its entry has been erased an id is in neither map. -/
theorem forget_lookup_iff (registered : Registered server) {secure other : Bool} {id wanted : Id}
    {handle position : Nat} (entry : (server.map secure).lookup id = some handle) :
    ((server.forget secure id).map other).lookup wanted = some position ↔
      (server.map other).lookup wanted = some position ∧ wanted ≠ id := by
  rw [forget_lookup]
  by_cases named : wanted = id
  · subst named
    refine iff_of_false ?_ (fun both => both.2 rfl)
    by_cases same : secure = other
    · rw [if_pos ⟨same, rfl⟩]
      simp
    · rw [if_neg (fun both => same both.1)]
      have none := registered.exclusive entry
      rw [← Bool.eq_not.mpr (Ne.symm same)] at none
      rw [none]
      simp
  · rw [if_neg (fun both => named both.2)]
    exact (and_iff_left named).symm

/-- A session is added under an id that no connection has had. -/
theorem add (registered : Registered server) {id : Id} (secure : Bool)
    (fresh : ∀ conn ∈ server.conns, conn.id ≠ id) : Registered (server.wsAddSession id secure) := by
  have unknown (kind : Bool) : (server.map kind).lookup id = none := by
    rw [Option.eq_none_iff_forall_ne_some]
    intro handle found
    obtain ⟨conn, atHandle, named, -⟩ := registered.entry kind id handle found
    exact fresh conn (List.mem_of_getElem? atHandle) named
  refine ⟨?_, ?_, ?_⟩
  · rw [wsAddSession_conns, List.map_append, List.nodup_append]
    refine ⟨registered.unique, List.nodup_singleton _, ?_⟩
    intro one member other last
    obtain ⟨conn, inside, rfl⟩ := List.mem_map.mp member
    rw [List.mem_singleton.mp last]
    exact fresh conn inside
  · intro kind wanted handle entry
    rw [wsAddSession_conns]
    rcases wsAddSession_lookup_iff.mp entry with before | ⟨-, same, named, position⟩
    · obtain ⟨conn, atHandle, named, same⟩ := registered.entry kind wanted handle before
      exact ⟨conn, Pool.getElem?_add.mpr (Or.inl atHandle), named, same⟩
    · exact ⟨{ id, secure }, Pool.getElem?_add.mpr (Or.inr ⟨position, rfl⟩), named, same⟩
  · intro handle conn atHandle living
    rw [wsAddSession_conns] at atHandle
    apply wsAddSession_lookup_iff.mpr
    rcases Pool.getElem?_add.mp atHandle with old | ⟨position, rfl⟩
    · exact Or.inl (registered.present handle conn old living)
    · exact Or.inr ⟨unknown secure, rfl, rfl, position⟩

end Registered

/-! ## Every step -/

omit [DecidableEq Id] in
/-- What happens to a connection leaves its id and kind; its destruction, and nothing
else, takes its life. -/
theorem connection_step {conn next : Connection Id} {event : ConnectionEvent}
    (moved : conn.step? event = some next) :
    next.id = conn.id ∧ next.secure = conn.secure ∧
      (event = .destroy ∧ conn.alive = true ∧ next.alive = false ∨
        event ≠ .destroy ∧ next.alive = conn.alive) := by
  cases event with
  | start =>
      simp only [Connection.step?] at moved
      split_ifs at moved
      cases moved
      exact ⟨rfl, rfl, Or.inr ⟨by simp, rfl⟩⟩
  | read error =>
      simp only [Connection.step?] at moved
      split_ifs at moved
      cases moved
      exact ⟨rfl, rfl, Or.inr ⟨by simp, rfl⟩⟩
  | written write error =>
      simp only [Connection.step?] at moved
      obtain ⟨world, -, rfl⟩ := Option.map_eq_some_iff.mp moved
      exact ⟨rfl, rfl, Or.inr ⟨by simp, rfl⟩⟩
  | destroy =>
      simp only [Connection.step?] at moved
      split_ifs at moved with enabled
      cases moved
      exact ⟨rfl, rfl, Or.inl ⟨rfl, enabled.1, rfl⟩⟩

/-- What each kind of event does, with what enables it. -/
inductive Moves (server : WebServer Id) : ServerEvent Id → WebServer Id → Prop where
  | added (id : Id) (secure : Bool) : (∀ conn ∈ server.conns, conn.id ≠ id) →
      Moves server (.addSession id secure) (server.wsAddSession id secure)
  | pushed (id : Id) (text : Bytes) :
      Moves server (.push id text) (server.forwardEither id (.message text)).2
  | closed (id : Id) (statusCode : UInt32) :
      Moves server (.close id statusCode) (server.forwardEither id (.statusCode statusCode)).2
  | touched (handle : Nat) (event : ConnectionEvent) (conn next : Connection Id) :
      server.conns[handle]? = some conn → conn.step? event = some next →
      Moves server (.connection handle event) (server.touch handle event conn next)

/-- Every step is one of these. -/
theorem step_cases {server after : WebServer Id} {event : ServerEvent Id}
    (moved : server.step? event = some after) : Moves server event after := by
  cases event with
  | addSession id secure =>
      simp only [step?] at moved
      split_ifs at moved with fresh
      cases moved
      exact .added id secure fresh
  | push id text =>
      cases moved
      exact .pushed id text
  | close id statusCode =>
      cases moved
      exact .closed id statusCode
  | connection handle event =>
      simp only [step?] at moved
      obtain ⟨conn, found, stepped⟩ := Option.bind_eq_some_iff.mp moved
      obtain ⟨next, happened, rfl⟩ := Option.map_eq_some_iff.mp stepped
      exact .touched handle event conn next found happened

namespace Registered

variable {server after : WebServer Id}

/-- A call keeps the registry. -/
theorem forwardEither (registered : Registered server) (id : Id) (argument : Argument) :
    Registered (server.forwardEither id argument).2 := by
  have claimed := registered.claim id
  have routed := registered.routed id argument
  generalize server.forwardEither id argument = result at routed ⊢
  cases routed with
  | reached handle conn entry found alive =>
      exact claimed.replace found rfl (fun _ => rfl) rfl rfl (fun living => living)
  | dead handle conn entry found dead =>
      obtain rfl := registered.id_of_entry entry found
      exact claimed.forget found dead
  | unknown none => exact claimed

theorem step {event : ServerEvent Id} (registered : Registered server)
    (moved : server.step? event = some after) : Registered after := by
  cases step_cases moved with
  | added id secure fresh => exact registered.add secure fresh
  | pushed id text => exact registered.forwardEither id _
  | closed id statusCode => exact registered.forwardEither id _
  | touched handle event conn next found happened =>
      obtain ⟨id, secure, life⟩ := connection_step happened
      refine registered.replace found rfl (fun _ => rfl) id secure ?_
      intro living
      rcases life with ⟨-, alive, -⟩ | ⟨-, same⟩
      · exact alive
      · exact same.symm.trans living

end Registered

theorem registered_of_reachable {server : WebServer Id}
    (reachable : (serverSystem Id).Reachable server) : Registered server := by
  apply reachable.invariant
  · rintro start rfl
    constructor
    · exact List.nodup_nil
    · intro secure id handle entry
      cases secure <;> cases entry
    · intro handle conn found
      cases found
  · intro before after event _ registered moved
    exact registered.step moved

/-! ## The law of a call -/

/-- The connection registered under an id, at its position. -/
def Registers (server : WebServer Id) (id : Id) (handle : Nat) (conn : Connection Id) : Prop :=
  (server.map conn.secure).lookup id = some handle ∧ server.conns[handle]? = some conn

/-- A call under an id succeeds exactly when the connection registered under it is
alive. It then forwards its argument to that connection and changes nothing else.
When it fails it changes no connection, and no map but for the removal of the
entry of a dead connection under the id. -/
structure CallLaw (server : WebServer Id) (id : Id) (argument : Argument)
    (result : Bool × WebServer Id) : Prop where
  succeeds : result.1 = true ↔ ∃ handle conn, server.Registers id handle conn ∧ conn.alive = true
  forwards : result.1 = true → ∃ handle conn, server.Registers id handle conn ∧
    conn.alive = true ∧ result.2.conns =
      server.conns.set handle { conn with world := argument.forward conn.world } ∧
    ∀ secure, result.2.map secure = server.map secure
  refuses : result.1 = false → result.2.conns = server.conns ∧
    ∀ secure, result.2.map secure = server.map secure ∨
      ∃ handle conn, server.Registers id handle conn ∧ conn.secure = secure ∧
        conn.alive = false ∧ result.2.map secure = (server.map secure).erase id

namespace Registered

variable {server after : WebServer Id}

theorem callLaw (registered : Registered server) (id : Id) (argument : Argument) :
    CallLaw server id argument (server.forwardEither id argument) := by
  have routed := registered.routed id argument
  generalize server.forwardEither id argument = result at routed ⊢
  cases routed with
  | reached handle conn entry found alive =>
      constructor
      · exact iff_of_true rfl ⟨handle, conn, ⟨entry, found⟩, alive⟩
      · intro _
        exact ⟨handle, conn, ⟨entry, found⟩, alive, rfl, fun _ => rfl⟩
      · intro refused
        cases refused
  | dead handle conn entry found dead =>
      constructor
      · refine iff_of_false (fun succeeded => by cases succeeded) ?_
        rintro ⟨other, living, ⟨otherEntry, otherFound⟩, alive⟩
        have named := registered.id_of_entry entry found
        have same := registered.handle_eq otherFound found
          ((registered.id_of_entry otherEntry otherFound).trans named.symm)
        rw [same, found] at otherFound
        rw [← Option.some.inj otherFound, dead] at alive
        cases alive
      · intro succeeded
        cases succeeded
      · intro _
        refine ⟨forget_conns _ _ _, ?_⟩
        intro secure
        rw [forget_map]
        split_ifs with same
        · exact Or.inr ⟨handle, conn, ⟨entry, found⟩, same, dead, rfl⟩
        · exact Or.inl rfl
  | unknown none =>
      constructor
      · refine iff_of_false (fun succeeded => by cases succeeded) ?_
        rintro ⟨handle, conn, ⟨entry, -⟩, -⟩
        rw [none] at entry
        cases entry
      · intro succeeded
        cases succeeded
      · intro _
        exact ⟨rfl, fun _ => Or.inl rfl⟩

/-- An entry stays until a call erases it, and then its connection is dead. -/
theorem entry_step {event : ServerEvent Id} (registered : Registered server)
    (moved : server.step? event = some after) {secure : Bool} {id : Id} {handle : Nat}
    (entry : (server.map secure).lookup id = some handle) :
    (after.map secure).lookup id = some handle ∨
      (after.map secure).lookup id = none ∧
        ∃ conn, server.conns[handle]? = some conn ∧ conn.alive = false := by
  have called (named : Id) (argument : Argument) :
      ((server.forwardEither named argument).2.map secure).lookup id = some handle ∨
        ((server.forwardEither named argument).2.map secure).lookup id = none ∧
          ∃ conn, server.conns[handle]? = some conn ∧ conn.alive = false := by
    have routed := registered.routed named argument
    generalize server.forwardEither named argument = result at routed ⊢
    cases routed with
    | reached other conn otherEntry found alive => exact Or.inl entry
    | unknown none => exact Or.inl entry
    | dead other conn otherEntry found dead =>
        rw [forget_lookup]
        split_ifs with gone
        · obtain ⟨rfl, rfl⟩ := gone
          rw [entry] at otherEntry
          obtain rfl := Option.some.inj otherEntry
          exact Or.inr ⟨rfl, conn, found, dead⟩
        · exact Or.inl entry
  cases step_cases moved with
  | added new kind fresh =>
      left
      exact wsAddSession_lookup_iff.mpr (Or.inl entry)
  | pushed named text => exact called named _
  | closed named statusCode => exact called named _
  | touched position event conn next found happened => exact Or.inl entry

end Registered

/-- No id is in both maps; every entry leads to the connection made for its id and
stays until it is erased, which happens to entries of dead connections only; no
living connection is missing; and `WSPush` and `WSClose` obey the law of a call,
where a push puts one frame into the queue and a close stops the connection. -/
structure Integrity (server : WebServer Id) : Prop where
  disjoint : ∀ id, ¬ (id ∈ server.wsConns ∧ id ∈ server.wsSecureConns)
  made : ∀ secure id handle, (server.map secure).lookup id = some handle →
    ∃ conn, server.conns[handle]? = some conn ∧ conn.id = id ∧ conn.secure = secure
  stays : ∀ secure id handle, (server.map secure).lookup id = some handle →
    ∀ event after, (serverSystem Id).step server event after →
      (after.map secure).lookup id = some handle ∨
        (after.map secure).lookup id = none ∧
          ∃ conn, server.conns[handle]? = some conn ∧ conn.alive = false
  living : ∀ handle conn, server.conns[handle]? = some conn → conn.alive = true →
    (server.map conn.secure).lookup conn.id = some handle
  push : ∀ id text, CallLaw server id (.message text) (server.wsPush id text)
  frame : ∀ text world,
    WS.World.Pushed (WS.textFrame text) world ((Argument.message text).forward world)
  close : ∀ id code, CallLaw server id (.statusCode code) (server.wsClose id code)
  stop : ∀ code world, (Argument.statusCode code).forward world = world.stop

/-- **The session registry.** Every reachable state has its integrity. -/
theorem reachable_integrity {server : WebServer Id}
    (reachable : (serverSystem Id).Reachable server) : Integrity server := by
  have registered := registered_of_reachable reachable
  constructor
  · rintro id ⟨plain, secure⟩
    obtain ⟨handle, found⟩ := Option.isSome_iff_exists.mp (AList.lookup_isSome.mpr plain)
    have first : (server.map false).lookup id = some handle := found
    have second : server.wsSecureConns.lookup id = none := registered.exclusive first
    exact AList.lookup_eq_none.mp second secure
  · exact registered.entry
  · intro secure id handle entry event after moved
    exact registered.entry_step moved entry
  · exact registered.present
  · intro id text
    exact registered.callLaw id _
  · intro text world
    exact WS.World.write_pushed text _ world
  · intro id code
    exact registered.callLaw id _
  · intro code world
    rfl

/-- A plain and a secure session; the plain one dies and is looked up twice. -/
def plainDies : List (ServerEvent Nat) :=
  [.addSession 1 false, .addSession 2 true, .connection 0 .start, .push 1 (ascii "a"),
    .connection 0 (.read none),
    .connection 0 (.written ⟨⟨0, WS.textFrame (ascii "a")⟩, false⟩ (some .operationAborted)),
    .connection 0 .destroy, .push 1 (ascii "b"), .push 1 (ascii "c"), .close 2 1000]

theorem reachable_integrity_dies : ∃ server : WebServer Nat,
    (serverSystem Nat).Run {} plainDies server ∧ Integrity server := by
  obtain ⟨server, executed⟩ : ∃ server, plainDies.foldlM step? {} = some server :=
    Option.isSome_iff_exists.mp (by decide +kernel)
  have run : (serverSystem Nat).Run {} plainDies server := .of_foldlM executed
  exact ⟨server, run, reachable_integrity (run.reachable rfl)⟩

end WebServer

end Webserver.Server
