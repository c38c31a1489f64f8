import Webserver.Server.Routing

/-! # Entries of destroyed connections

Nothing but a call under its id removes the entry of a destroyed connection. The
dead entries are those of the destroyed connections that no call has named since,
and there is no bound on their number.
-/

namespace Webserver.Server.WebServer

open Foundation

variable {Id : Type*} [DecidableEq Id]

/-- The ids under which one of the maps has a reference that cannot be locked. -/
def deadIds (server : WebServer Id) (secure : Bool) : List Id :=
  ((server.map secure).entries.filter fun entry => (lock server.conns entry.2).isNone).map Sigma.fst

/-- The dead entries of both maps. -/
def deadEntries (server : WebServer Id) : List Id := server.deadIds false ++ server.deadIds true

/-- A destroyed connection still has its entry. -/
def Dead (server : WebServer Id) (id : Id) : Prop :=
  ∃ handle conn, server.Registers id handle conn ∧ conn.alive = false

theorem mem_deadIds {server : WebServer Id} {secure : Bool} {id : Id} :
    id ∈ server.deadIds secure ↔
      ∃ handle, (server.map secure).lookup id = some handle ∧ lock server.conns handle = none := by
  unfold deadIds
  constructor
  · intro member
    obtain ⟨⟨key, handle⟩, inside, rfl⟩ := List.mem_map.mp member
    obtain ⟨entry, dead⟩ := List.mem_filter.mp inside
    exact ⟨handle, AList.mem_lookup_iff.mpr entry, Option.isNone_iff_eq_none.mp dead⟩
  · rintro ⟨handle, entry, dead⟩
    apply List.mem_map.mpr
    refine ⟨⟨id, handle⟩, List.mem_filter.mpr ⟨AList.mem_lookup_iff.mp entry, ?_⟩, rfl⟩
    exact Option.isNone_iff_eq_none.mpr dead

omit [DecidableEq Id] in
theorem deadIds_nodup (server : WebServer Id) (secure : Bool) : (server.deadIds secure).Nodup := by
  have keys : ((server.map secure).entries.map Sigma.fst).Nodup := (server.map secure).nodupKeys
  exact keys.sublist (List.filter_sublist.map _)

namespace Registered

variable {server after : WebServer Id}

theorem mem_deadEntries (registered : Registered server) {id : Id} :
    id ∈ server.deadEntries ↔ server.Dead id := by
  have dead (secure : Bool) : id ∈ server.deadIds secure ↔
      ∃ handle conn, server.Registers id handle conn ∧ conn.secure = secure ∧
        conn.alive = false := by
    rw [mem_deadIds]
    constructor
    · rintro ⟨handle, entry, unlocked⟩
      obtain ⟨conn, found, -, kind⟩ := registered.entry secure id handle entry
      rw [lock_of_found found] at unlocked
      split_ifs at unlocked with alive
      refine ⟨handle, conn, ⟨?_, found⟩, kind, Bool.eq_false_iff.mpr alive⟩
      rw [kind]
      exact entry
    · rintro ⟨handle, conn, ⟨entry, found⟩, rfl, alive⟩
      refine ⟨handle, entry, ?_⟩
      rw [lock_of_found found, alive]
      rfl
  unfold deadEntries
  rw [List.mem_append, dead, dead]
  constructor
  · rintro (⟨handle, conn, entry, -, alive⟩ | ⟨handle, conn, entry, -, alive⟩)
    · exact ⟨handle, conn, entry, alive⟩
    · exact ⟨handle, conn, entry, alive⟩
  · rintro ⟨handle, conn, entry, alive⟩
    cases kind : conn.secure with
    | false => exact Or.inl ⟨handle, conn, entry, kind, alive⟩
    | true => exact Or.inr ⟨handle, conn, entry, kind, alive⟩

theorem deadEntries_nodup (registered : Registered server) : server.deadEntries.Nodup := by
  apply List.nodup_append.mpr
  refine ⟨server.deadIds_nodup false, server.deadIds_nodup true, ?_⟩
  intro id plain other secure same
  subst same
  obtain ⟨handle, entry, -⟩ := mem_deadIds.mp plain
  obtain ⟨second, twice, -⟩ := mem_deadIds.mp secure
  have none : (server.map true).lookup id = none := registered.exclusive entry
  rw [none] at twice
  cases twice

/-- An entry under an id decides whether the id is dead. -/
theorem dead_iff (registered : Registered server) {id : Id} {handle : Nat} {conn : Connection Id}
    (entry : server.Registers id handle conn) : server.Dead id ↔ conn.alive = false := by
  constructor
  · rintro ⟨other, dead, ⟨otherEntry, otherFound⟩, alive⟩
    have named := registered.id_of_entry entry.1 entry.2
    have same := registered.handle_eq otherFound entry.2
      ((registered.id_of_entry otherEntry otherFound).trans named.symm)
    rw [same, entry.2] at otherFound
    rw [Option.some.inj otherFound]
    exact alive
  · intro alive
    exact ⟨handle, conn, entry, alive⟩

/-- A living connection's id is not dead. -/
theorem not_dead (registered : Registered server) {id : Id} {handle : Nat} {conn : Connection Id}
    (entry : server.Registers id handle conn) (alive : conn.alive = true) : ¬ server.Dead id := by
  rw [registered.dead_iff entry, alive]
  simp

end Registered

/-- Who is registered after something has happened to one connection. -/
theorem registers_set {server after : WebServer Id} {handle : Nat} {conn next : Connection Id}
    (found : server.conns[handle]? = some conn) (conns : after.conns = server.conns.set handle next)
    (maps : ∀ secure, after.map secure = server.map secure) (secure : next.secure = conn.secure)
    (id : Id) (position : Nat) (other : Connection Id) :
    after.Registers id position other ↔
      if handle = position then other = next ∧ server.Registers id handle conn
      else server.Registers id position other := by
  unfold Registers
  rw [conns, maps, Pool.getElem?_set next found]
  split_ifs with here
  · subst here
    rw [Option.some.injEq]
    constructor
    · rintro ⟨entry, rfl⟩
      rw [secure] at entry
      exact ⟨rfl, entry, found⟩
    · rintro ⟨rfl, entry, -⟩
      rw [secure]
      exact ⟨entry, rfl⟩
  · exact Iff.rfl

/-- What happens to a connection that lives on leaves the dead entries. -/
theorem dead_set {server after : WebServer Id} {handle : Nat} {conn next : Connection Id}
    (found : server.conns[handle]? = some conn) (conns : after.conns = server.conns.set handle next)
    (maps : ∀ secure, after.map secure = server.map secure) (secure : next.secure = conn.secure)
    (alive : next.alive = conn.alive) (id : Id) : after.Dead id ↔ server.Dead id := by
  have registers := registers_set found conns maps secure id
  constructor
  · rintro ⟨position, other, entry, dead⟩
    rw [registers] at entry
    split_ifs at entry with here
    · obtain ⟨rfl, entry⟩ := entry
      exact ⟨handle, conn, entry, alive.symm.trans dead⟩
    · exact ⟨position, other, entry, dead⟩
  · rintro ⟨position, other, entry, dead⟩
    by_cases here : handle = position
    · subst here
      obtain rfl := Option.some.inj (found.symm.trans entry.2)
      refine ⟨handle, next, ?_, alive.trans dead⟩
      rw [registers, if_pos rfl]
      exact ⟨rfl, entry⟩
    · refine ⟨position, other, ?_, dead⟩
      rw [registers, if_neg here]
      exact entry

/-- A destruction adds the id of its connection to the dead ones. -/
theorem dead_destroy {server after : WebServer Id} {handle : Nat} {conn next : Connection Id}
    (registered : Registered server) (found : server.conns[handle]? = some conn)
    (conns : after.conns = server.conns.set handle next)
    (maps : ∀ secure, after.map secure = server.map secure) (secure : next.secure = conn.secure)
    (alive : conn.alive = true) (dead : next.alive = false) (id : Id) :
    after.Dead id ↔ server.Dead id ∨ id = conn.id := by
  have registers := registers_set found conns maps secure
  constructor
  · rintro ⟨position, other, entry, gone⟩
    rw [registers] at entry
    split_ifs at entry with here
    · obtain ⟨-, entry⟩ := entry
      exact Or.inr (registered.id_of_entry entry.1 entry.2).symm
    · exact Or.inl ⟨position, other, entry, gone⟩
  · rintro (⟨position, other, entry, gone⟩ | rfl)
    · have elsewhere : handle ≠ position := by
        rintro rfl
        rw [Option.some.inj (found.symm.trans entry.2), gone] at alive
        cases alive
      refine ⟨position, other, ?_, gone⟩
      rw [registers, if_neg elsewhere]
      exact entry
    · refine ⟨handle, next, ?_, dead⟩
      rw [registers, if_pos rfl]
      exact ⟨rfl, registered.present handle conn found alive, found⟩

/-- An erased entry is not dead, and all others stay as they are. -/
theorem dead_forget {server : WebServer Id} (registered : Registered server) {named : Id}
    {secure : Bool} {handle : Nat} (entry : (server.map secure).lookup named = some handle)
    (id : Id) : (server.forget secure named).Dead id ↔ server.Dead id ∧ id ≠ named := by
  unfold Dead Registers
  simp only [forget_conns, registered.forget_lookup_iff entry]
  constructor
  · intro gone
    obtain ⟨position, other, ⟨⟨otherEntry, elsewhere⟩, found⟩, dead⟩ := gone
    exact ⟨⟨position, other, ⟨otherEntry, found⟩, dead⟩, elsewhere⟩
  · intro gone
    obtain ⟨⟨position, other, ⟨otherEntry, found⟩, dead⟩, elsewhere⟩ := gone
    exact ⟨position, other, ⟨⟨otherEntry, elsewhere⟩, found⟩, dead⟩

/-- A call under an id leaves no dead entry under it, and all others. -/
theorem dead_forwardEither {server : WebServer Id} (registered : Registered server) (named : Id)
    (argument : Argument) (id : Id) :
    (server.forwardEither named argument).2.Dead id ↔ server.Dead id ∧ id ≠ named := by
  have routed := registered.routed named argument
  generalize server.forwardEither named argument = result at routed ⊢
  cases routed with
  | reached handle conn entry found alive =>
      have conns : ((server.claim named).reach handle conn argument).conns =
          server.conns.set handle { conn with world := argument.forward conn.world } := rfl
      have living : ¬ server.Dead named := registered.not_dead ⟨entry, found⟩ alive
      rw [dead_set found conns (fun _ => rfl) rfl rfl]
      refine (and_iff_left_of_imp ?_).symm
      intro dead same
      rw [same] at dead
      exact living dead
  | unknown none =>
      have living : ¬ server.Dead named := by
        intro dead
        obtain ⟨handle, conn, ⟨entry, -⟩, -⟩ := dead
        rw [none] at entry
        cases entry
      refine (and_iff_left_of_imp ?_).symm
      intro dead same
      have there : server.Dead id := dead
      rw [same] at there
      exact living there
  | dead handle conn entry found dead =>
      exact dead_forget (registered.claim named) entry id

/-- A new session is not dead. -/
theorem dead_add (server : WebServer Id) (new : Id) (secure : Bool) (id : Id) :
    (server.wsAddSession new secure).Dead id ↔ server.Dead id := by
  unfold Dead Registers
  rw [wsAddSession_conns]
  constructor
  · intro gone
    obtain ⟨handle, conn, ⟨entry, found⟩, dead⟩ := gone
    rcases Pool.getElem?_add.mp found with old | ⟨-, rfl⟩
    · have inside := (List.getElem?_eq_some_iff.mp old).1
      rcases wsAddSession_lookup_iff.mp entry with before | ⟨-, -, -, position⟩
      · exact ⟨handle, conn, ⟨before, old⟩, dead⟩
      · exact absurd position (Nat.ne_of_lt inside)
    · cases dead
  · intro gone
    obtain ⟨handle, conn, ⟨entry, found⟩, dead⟩ := gone
    exact ⟨handle, conn, ⟨wsAddSession_lookup_iff.mpr (Or.inl entry),
      Pool.getElem?_add.mpr (Or.inl found)⟩, dead⟩

/-- The destroyed connections that no call has named since are those with a dead
entry. -/
structure Unclaimed (server : WebServer Id) : Prop where
  nodup : server.unclaimed.Nodup
  mem_iff : ∀ id, id ∈ server.unclaimed ↔ server.Dead id

namespace Unclaimed

variable {server after : WebServer Id}

/-- What leaves the dead entries and the calls made keeps the account of them. -/
theorem of_same (unclaimed : Unclaimed server) (same : after.unclaimed = server.unclaimed)
    (dead : ∀ id, after.Dead id ↔ server.Dead id) : Unclaimed after := by
  refine ⟨?_, ?_⟩
  · rw [same]
    exact unclaimed.nodup
  · intro id
    rw [same, dead]
    exact unclaimed.mem_iff id

/-- A call claims its id. -/
theorem called (unclaimed : Unclaimed server) (registered : Registered server) (named : Id)
    (argument : Argument) : Unclaimed (server.forwardEither named argument).2 := by
  have filtered : (server.forwardEither named argument).2.unclaimed =
      server.unclaimed.filter (· ≠ named) := by
    unfold forwardEither
    simp only
    split <;> rfl
  refine ⟨?_, ?_⟩
  · rw [filtered]
    exact unclaimed.nodup.filter _
  · intro id
    rw [filtered, dead_forwardEither registered, List.mem_filter, unclaimed.mem_iff,
      decide_eq_true_eq]

/-- A destroyed connection has not been claimed since. -/
theorem destroyed (unclaimed : Unclaimed server) (registered : Registered server) {handle : Nat}
    {conn next : Connection Id} (found : server.conns[handle]? = some conn)
    (conns : after.conns = server.conns.set handle next)
    (maps : ∀ secure, after.map secure = server.map secure) (secure : next.secure = conn.secure)
    (alive : conn.alive = true) (dead : next.alive = false)
    (noted : after.unclaimed = server.unclaimed ++ [conn.id]) : Unclaimed after := by
  refine ⟨?_, ?_⟩
  · rw [noted]
    apply List.nodup_append.mpr
    refine ⟨unclaimed.nodup, List.nodup_singleton _, ?_⟩
    intro id member last inside same
    rw [List.mem_singleton.mp inside] at same
    rw [same] at member
    have entry : server.Registers conn.id handle conn :=
      ⟨registered.present handle conn found alive, found⟩
    exact registered.not_dead entry alive ((unclaimed.mem_iff _).mp member)
  · intro id
    rw [noted, List.mem_append, List.mem_singleton, unclaimed.mem_iff,
      dead_destroy registered found conns maps secure alive dead]

theorem step {event : ServerEvent Id} (unclaimed : Unclaimed server)
    (registered : Registered server) (moved : server.step? event = some after) :
    Unclaimed after := by
  cases step_cases moved with
  | added new secure fresh =>
      apply unclaimed.of_same _ (server.dead_add new secure)
      unfold wsAddSession
      cases secure <;> rfl
  | pushed named text => exact unclaimed.called registered named _
  | closed named statusCode => exact unclaimed.called registered named _
  | touched handle event conn next found happened =>
      obtain ⟨-, secure, life⟩ := connection_step happened
      have conns : (server.touch handle event conn next).conns = server.conns.set handle next := rfl
      rcases life with ⟨rfl, alive, dead⟩ | ⟨other, alive⟩
      · exact unclaimed.destroyed registered found conns (fun _ => rfl) secure alive dead rfl
      · apply unclaimed.of_same _ (dead_set found conns (fun _ => rfl) secure alive)
        exact if_neg other

end Unclaimed

theorem unclaimed_of_reachable {server : WebServer Id}
    (reachable : (serverSystem Id).Reachable server) : Unclaimed server := by
  apply reachable.invariant
  · rintro start rfl
    refine ⟨List.nodup_nil, ?_⟩
    intro id
    refine iff_of_false List.not_mem_nil ?_
    rintro ⟨handle, conn, ⟨-, found⟩, -⟩
    cases found
  · intro before after event earlier unclaimed moved
    exact unclaimed.step (registered_of_reachable earlier) moved

theorem deadEntries_perm {server : WebServer Id} (reachable : (serverSystem Id).Reachable server) :
    server.deadEntries.Perm server.unclaimed := by
  have registered := registered_of_reachable reachable
  have unclaimed := unclaimed_of_reachable reachable
  apply (List.perm_ext_iff_of_nodup registered.deadEntries_nodup unclaimed.nodup).mpr
  intro id
  rw [registered.mem_deadEntries, unclaimed.mem_iff]

/-- **Dead entries.** In every reachable state the maps have one dead entry for each
destroyed connection whose id no `WSPush` or `WSClose` has named since, and no
other. -/
theorem reachable_deadEntries {server : WebServer Id}
    (reachable : (serverSystem Id).Reachable server) :
    (∀ id, id ∈ server.deadEntries ↔ id ∈ server.unclaimed) ∧
      server.deadEntries.length = server.unclaimed.length := by
  have same := deadEntries_perm reachable
  exact ⟨fun id => same.mem_iff, same.length_eq⟩

/-- A session that has died and been looked up, and one that has died. -/
def twoDie : List (ServerEvent Nat) :=
  [.addSession 1 false, .addSession 2 true, .connection 0 .start, .connection 1 .start,
    .connection 0 (.read none), .connection 1 (.read none), .connection 0 .destroy,
    .connection 1 .destroy, .push 1 []]

theorem reachable_deadEntries_two : ∃ server : WebServer Nat,
    (serverSystem Nat).Run {} twoDie server ∧ server.unclaimed = [2] ∧
      (∀ id, id ∈ server.deadEntries ↔ id ∈ server.unclaimed) ∧
      server.deadEntries.length = server.unclaimed.length := by
  have ends : (twoDie.foldlM step? {}).map (·.unclaimed) = some [2] := by decide +kernel
  obtain ⟨server, executed, unclaimed⟩ := Option.map_eq_some_iff.mp ends
  have run : (serverSystem Nat).Run {} twoDie server := .of_foldlM executed
  exact ⟨server, run, unclaimed, reachable_deadEntries (run.reachable rfl)⟩

/-! ## No bound -/

/-- What happens to the newest connection. -/
theorem touch_newest {server : WebServer Id} {older : List (Connection Id)}
    {conn next : Connection Id} (event : ConnectionEvent)
    (reachable : (serverSystem Id).Reachable server) (conns : server.conns = older ++ [conn])
    (happened : conn.step? event = some next) :
    ∃ after, (serverSystem Id).Reachable after ∧ after.conns = older ++ [next] ∧
      after.unclaimed =
        if event = .destroy then server.unclaimed ++ [conn.id] else server.unclaimed := by
  have found : server.conns[older.length]? = some conn := by
    rw [conns]
    exact Pool.getElem?_split older [] conn
  have moved : server.step? (.connection older.length event) =
      some (server.touch older.length event conn next) := by
    simp only [step?, found, Option.bind_some, happened, Option.map_some]
  refine ⟨_, .step reachable moved, ?_, rfl⟩
  change server.conns.set older.length next = older ++ [next]
  rw [conns, Pool.set_split]

/-- One more session opens, is closed by its client and is destroyed. -/
theorem one_more {server : WebServer Nat} (reachable : (serverSystem Nat).Reachable server)
    (used : ∀ conn ∈ server.conns, conn.id < server.conns.length) :
    ∃ after, (serverSystem Nat).Reachable after ∧
      (∀ conn ∈ after.conns, conn.id < after.conns.length) ∧
      after.unclaimed.length = server.unclaimed.length + 1 := by
  have fresh : ∀ conn ∈ server.conns, conn.id ≠ server.conns.length := fun conn member =>
    Nat.ne_of_lt (used conn member)
  have opened : (serverSystem Nat).Reachable (server.wsAddSession server.conns.length false) :=
    .step reachable (show server.step? (.addSession server.conns.length false) = _ from
      if_pos fresh)
  obtain ⟨started, begun, conns, kept⟩ :=
    touch_newest .start opened (server.wsAddSession_conns _ false) rfl
  obtain ⟨stopped, closed, conns, still⟩ := touch_newest (.read none) begun conns rfl
  obtain ⟨ended, gone, conns, claimed⟩ := touch_newest .destroy closed conns rfl
  have same : (server.wsAddSession server.conns.length false).unclaimed = server.unclaimed := rfl
  refine ⟨ended, gone, ?_, ?_⟩
  · rw [conns, List.length_append, List.length_singleton]
    intro conn member
    rcases List.mem_append.mp member with old | new
    · exact Nat.lt_succ_of_lt (used conn old)
    · rw [List.mem_singleton.mp new]
      exact Nat.lt_succ_self _
  · rw [claimed, if_pos rfl, still, if_neg (by decide), kept, if_neg (by decide), same,
      List.length_append, List.length_singleton]

theorem exists_unclaimed (count : Nat) : ∃ server, (serverSystem Nat).Reachable server ∧
    (∀ conn ∈ server.conns, conn.id < server.conns.length) ∧
    server.unclaimed.length = count := by
  induction count with
  | zero =>
      refine ⟨{}, .initial rfl, ?_, rfl⟩
      intro conn member
      cases member
  | succ count ih =>
      obtain ⟨server, reachable, used, length⟩ := ih
      obtain ⟨after, later, usedAfter, one⟩ := one_more reachable used
      exact ⟨after, later, usedAfter, one.trans (congrArg (· + 1) length)⟩

/-- Sessions that die and are never named again leave their entries for ever. -/
theorem not_deadEntries_bounded : ¬ ∃ bound, ∀ server : WebServer Nat,
    (serverSystem Nat).Reachable server → server.deadEntries.length ≤ bound := by
  rintro ⟨bound, always⟩
  obtain ⟨server, reachable, -, length⟩ := exists_unclaimed (bound + 1)
  have few := always server reachable
  rw [(deadEntries_perm reachable).length_eq, length] at few
  omega

end Webserver.Server.WebServer
