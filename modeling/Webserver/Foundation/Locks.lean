import Mathlib.Data.List.Perm.Basic
import Mathlib.Data.Set.Finite.Lemmas
import Webserver.Foundation.Pool

/-! # Locks taken in order

Threads that execute scripts of instructions, some of which take a lock and some of
which release one. A script is disciplined when it takes its locks in ascending
order of a rank, releases only what it holds and ends with nothing held. Threads
with disciplined scripts do not wait for each other in a circle: one of them can
always go on.
-/

namespace Webserver.Foundation.Locks

variable {μ ι τ : Type*}

/-- What an instruction does to the locks. -/
inductive Access (μ : Type*) where
  | lock (mutex : μ)
  | unlock (mutex : μ)
  | other
  deriving DecidableEq

/-- The lock an instruction has to wait for. -/
def Access.wanted : Access μ → Option μ
  | .lock mutex => some mutex
  | _ => none

/-- **No circle of waiting parties.** When every party holds only locks that rank
below the one it wants, and every locked lock is held by a party, some party wants
no locked one. -/
theorem exists_unblocked (rank : μ → Nat) (held : τ → List μ) (wanted : τ → Option μ)
    {pool : List τ} (nonempty : pool ≠ [])
    (ascending : ∀ party ∈ pool, ∀ mutex ∈ wanted party, ∀ owned ∈ held party,
      rank owned < rank mutex)
    {locked : List μ} (holders : ∀ mutex ∈ locked, ∃ party ∈ pool, mutex ∈ held party) :
    ∃ party ∈ pool, ∀ mutex ∈ wanted party, mutex ∉ locked := by
  -- the party whose wanted lock ranks highest cannot be kept waiting
  obtain ⟨party, member, highest⟩ := Set.exists_max_image {party | party ∈ pool}
    (fun party => (wanted party).elim 0 (rank · + 1)) pool.finite_toSet
    (List.exists_mem_of_ne_nil pool nonempty)
  by_cases free : ∀ mutex ∈ wanted party, mutex ∉ locked
  · exact ⟨party, member, free⟩
  · simp only [not_forall, not_not] at free
    obtain ⟨mutex, wants, taken⟩ := free
    obtain ⟨holder, inside, holds⟩ := holders mutex taken
    refine ⟨holder, inside, ?_⟩
    intro other wantsOther
    have above := ascending holder inside other wantsOther mutex holds
    have below := highest holder inside
    rw [Option.mem_def.mp wants, Option.mem_def.mp wantsOther] at below
    exact absurd (Nat.le_of_succ_le_succ below) (Nat.not_le.mpr above)

section Scripts

variable [DecidableEq μ] (rank : μ → Nat) (access : ι → Access μ)

/-- The locked locks after an instruction. -/
def Access.apply (locked : List μ) : Access μ → List μ
  | .lock mutex => mutex :: locked
  | .unlock mutex => locked.erase mutex
  | .other => locked

/-- A script that goes on from some held locks as it should. -/
def Disciplined : List μ → List ι → Prop
  | held, [] => held = []
  | held, instr :: rest =>
      match access instr with
      | .lock mutex =>
          (∀ owned ∈ held, rank owned < rank mutex) ∧ Disciplined (mutex :: held) rest
      | .unlock mutex => mutex ∈ held ∧ Disciplined (held.erase mutex) rest
      | .other => Disciplined held rest

variable {rank access}

/-- Instructions that leave the locks alone can be put in front. -/
theorem Disciplined.insert {held : List μ} {inserted script : List ι}
    (others : ∀ instr ∈ inserted, access instr = .other)
    (disciplined : Disciplined rank access held script) :
    Disciplined rank access held (inserted ++ script) := by
  induction inserted with
  | nil => exact disciplined
  | cons instr inserted ih =>
      rw [List.cons_append, Disciplined, others instr List.mem_cons_self]
      exact ih fun later member => others later (List.mem_cons_of_mem instr member)

/-- A script between taking a lock and releasing it. -/
def Inside (access : ι → Access μ) (mutex : μ) (script : List ι) : Prop :=
  (∃ instr ∈ script, access instr = .unlock mutex) ∧
    ∀ instr ∈ script, access instr ≠ .lock mutex

/-- A lock that a script releases and never takes is held. -/
theorem Disciplined.mem_held {held : List μ} {script : List ι} {mutex : μ}
    (disciplined : Disciplined rank access held script) (inside : Inside access mutex script) :
    mutex ∈ held := by
  obtain ⟨releases, never⟩ := inside
  induction script generalizing held with
  | nil =>
      obtain ⟨instr, member, -⟩ := releases
      cases member
  | cons first script ih =>
      obtain ⟨instr, member, unlocks⟩ := releases
      have later : ∀ instr ∈ script, access instr ≠ .lock mutex := fun instr member =>
        never instr (List.mem_cons_of_mem first member)
      have rest : access first ≠ .unlock mutex →
          ∃ instr ∈ script, access instr = .unlock mutex := by
        intro other
        rcases List.mem_cons.mp member with rfl | member
        · exact absurd unlocks other
        · exact ⟨instr, member, unlocks⟩
      rw [Disciplined] at disciplined
      cases shape : access first with
      | lock taken =>
          rw [shape] at disciplined
          have different : mutex ≠ taken := by
            rintro rfl
            exact never first List.mem_cons_self shape
          have kept := ih disciplined.2 (rest (by rw [shape]; nofun)) later
          exact (List.mem_cons.mp kept).resolve_left different
      | unlock released =>
          rw [shape] at disciplined
          by_cases same : released = mutex
          · exact same ▸ disciplined.1
          · have other : access first ≠ .unlock mutex := by
              rw [shape]
              intro equal
              exact same (Access.unlock.inj equal)
            exact List.mem_of_mem_erase (ih disciplined.2 (rest other) later)
      | other =>
          rw [shape] at disciplined
          exact ih disciplined (rest (by rw [shape]; nofun)) later

variable (rank access) (script : τ → List ι)

/-- A pool of threads with what each of them holds. -/
structure Holding (pool : List τ) (locked : List μ) (parties : List (τ × List μ)) : Prop where
  pool : pool = parties.map Prod.fst
  disciplined : ∀ party ∈ parties, Disciplined rank access party.2 (script party.1)
  locked : (parties.flatMap Prod.snd).Perm locked

/-- A pool of threads with disciplined scripts, which hold the locked locks. -/
def Orderly (pool : List τ) (locked : List μ) : Prop :=
  ∃ parties, Holding rank access script pool locked parties

namespace Orderly

variable {rank access script} {pool front back : List τ} {thread next : τ} {locked : List μ}

/-- **Deadlock freedom.** Some thread of an orderly pool can make its next step. -/
theorem exists_enabled (orderly : Orderly rank access script pool locked)
    (nonempty : pool ≠ []) :
    ∃ thread ∈ pool, ∀ instr rest, script thread = instr :: rest →
      ∀ mutex, access instr = .lock mutex → mutex ∉ locked := by
  obtain ⟨parties, rfl, disciplined, holds⟩ := orderly
  have ascending : ∀ party ∈ parties,
      ∀ mutex ∈ (script party.1).head?.bind (fun instr => (access instr).wanted),
        ∀ owned ∈ party.2, rank owned < rank mutex := by
    intro party member mutex wants
    have whole := disciplined party member
    cases shape : script party.1 with
    | nil =>
        rw [shape] at wants
        cases wants
    | cons instr rest =>
        rw [shape] at wants whole
        rw [Disciplined] at whole
        cases does : access instr with
        | lock taken =>
            rw [does] at whole
            rw [List.head?_cons, Option.bind_some, does] at wants
            cases wants
            exact whole.1
        | unlock released =>
            rw [List.head?_cons, Option.bind_some, does] at wants
            cases wants
        | other =>
            rw [List.head?_cons, Option.bind_some, does] at wants
            cases wants
  have holders : ∀ mutex ∈ locked, ∃ party ∈ parties, mutex ∈ party.2 := by
    intro mutex member
    exact List.mem_flatMap.mp (holds.mem_iff.mpr member)
  have some : parties ≠ [] := fun none => nonempty (by rw [none, List.map_nil])
  obtain ⟨party, member, free⟩ := exists_unblocked rank Prod.snd _ some ascending holders
  refine ⟨party.1, List.mem_map_of_mem member, ?_⟩
  intro instr rest shape mutex locks
  apply free
  rw [shape, List.head?_cons, Option.bind_some, locks]
  rfl

/-- **Mutual exclusion.** No two threads are inside one lock. -/
theorem pairwise_inside (orderly : Orderly rank access script pool locked)
    (once : locked.Nodup) (mutex : μ) :
    pool.Pairwise fun left right =>
      ¬ (Inside access mutex (script left) ∧ Inside access mutex (script right)) := by
  obtain ⟨parties, rfl, disciplined, holds⟩ := orderly
  have disjoint := (List.nodup_flatMap.mp (holds.nodup_iff.mpr once)).2
  rw [List.pairwise_map]
  refine disjoint.imp_of_mem ?_
  intro left right leftMember rightMember apart both
  exact apart ((disciplined left leftMember).mem_held both.1)
    ((disciplined right rightMember).mem_held both.2)

/-- What is held when no thread is left. -/
theorem locked_eq_nil (orderly : Orderly rank access script [] locked) : locked = [] := by
  obtain ⟨parties, pool, -, holds⟩ := orderly
  obtain rfl := List.map_eq_nil_iff.mp pool.symm
  exact List.nil_perm.mp holds

/-- A thread begins with some locks that it takes at once. -/
theorem add (orderly : Orderly rank access script pool locked) {held : List μ}
    (disciplined : Disciplined rank access held (script next)) :
    Orderly rank access script (pool ++ [next]) (held ++ locked) := by
  obtain ⟨parties, rfl, others, holds⟩ := orderly
  refine ⟨parties ++ [(next, held)], by rw [List.map_append]; rfl, ?_, ?_⟩
  · intro party member
    rcases List.mem_append.mp member with old | new
    · exact others party old
    · rw [List.mem_singleton.mp new]
      exact disciplined
  · rw [List.flatMap_append, List.flatMap_singleton]
    exact List.perm_append_comm.trans (holds.append_left held)

/-- The pool without a thread that has come to its end. -/
theorem remove (orderly : Orderly rank access script (front ++ thread :: back) locked)
    (ended : script thread = []) : Orderly rank access script (front ++ back) locked := by
  obtain ⟨parties, pool, disciplined, holds⟩ := orderly
  obtain ⟨ahead, behind, rfl, rfl, split⟩ := List.map_eq_append_iff.mp pool.symm
  obtain ⟨⟨_, held⟩, rest, rfl, rfl, rfl⟩ := List.map_eq_cons_iff.mp split
  have nothing : held = [] := by
    have whole := disciplined _ (Pool.mem_split ahead rest _)
    rwa [ended] at whole
  refine ⟨ahead ++ rest, by rw [List.map_append], ?_, ?_⟩
  · intro party member
    exact disciplined party (Pool.mem_of_removed member)
  · rw [List.flatMap_append, List.flatMap_cons, nothing, List.nil_append] at holds
    rw [List.flatMap_append]
    exact holds

/-- One thread executes an instruction that is enabled; others may be put in front
of what it has left. -/
theorem exec (orderly : Orderly rank access script (front ++ thread :: back) locked)
    {instr : ι} {rest inserted : List ι} (shape : script thread = instr :: rest)
    (left : script next = inserted ++ rest)
    (others : ∀ instr ∈ inserted, access instr = .other) :
    Orderly rank access script (front ++ next :: back) ((access instr).apply locked) := by
  obtain ⟨parties, pool, disciplined, holds⟩ := orderly
  obtain ⟨ahead, behind, rfl, rfl, split⟩ := List.map_eq_append_iff.mp pool.symm
  obtain ⟨⟨_, held⟩, behind, rfl, rfl, rfl⟩ := List.map_eq_cons_iff.mp split
  have whole := disciplined _ (Pool.mem_split ahead behind _)
  rw [shape, Disciplined] at whole
  rw [List.flatMap_append, List.flatMap_cons] at holds
  have replaced (held' : List μ) (kept : Disciplined rank access held' rest)
      (permuted : (ahead.flatMap Prod.snd ++ (held' ++ behind.flatMap Prod.snd)).Perm
        ((access instr).apply locked)) :
      Orderly rank access script (ahead.map Prod.fst ++ next :: behind.map Prod.fst)
        ((access instr).apply locked) := by
    refine ⟨ahead ++ (next, held') :: behind, by rw [List.map_append, List.map_cons], ?_, ?_⟩
    · apply Pool.forall_replace disciplined
      rw [left]
      exact kept.insert others
    · rw [List.flatMap_append, List.flatMap_cons]
      exact permuted
  cases does : access instr with
  | lock mutex =>
      rw [does] at whole
      rw [does] at replaced
      exact replaced (mutex :: held) whole.2 (List.perm_middle.trans (holds.cons mutex))
  | unlock mutex =>
      rw [does] at whole
      rw [does] at replaced
      refine replaced (held.erase mutex) whole.2 ?_
      have first : (held ++ (ahead.flatMap Prod.snd ++ behind.flatMap Prod.snd)).Perm locked := by
        refine List.Perm.trans ?_ holds
        rw [← List.append_assoc, ← List.append_assoc]
        exact List.perm_append_comm.append_right _
      have erased := first.erase mutex
      rw [List.erase_append_left _ whole.1] at erased
      refine List.Perm.trans ?_ erased
      rw [← List.append_assoc, ← List.append_assoc]
      exact List.perm_append_comm.append_right _
  | other =>
      rw [does] at whole
      rw [does] at replaced
      exact replaced held whole holds

end Orderly

end Scripts

end Webserver.Foundation.Locks
