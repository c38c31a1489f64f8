import Mathlib.Algebra.Ring.Nat
import Mathlib.Data.List.Basic

/-! # Pools

A pool is the list of the parties of a system; a step of the system replaces one
party, adds one at the end or removes one. Every index splits the pool into the
parties before it, the party there and the parties after it.
-/

namespace Webserver.Foundation.Pool

variable {τ : Type*}

/-- A party splits the pool at its index. -/
theorem exists_split {pool : List τ} {index : Nat} {party : τ}
    (found : pool[index]? = some party) :
    ∃ front back, pool = front ++ party :: back ∧ index = front.length := by
  obtain ⟨inside, rfl⟩ := List.getElem?_eq_some_iff.mp found
  refine ⟨pool.take index, pool.drop (index + 1), ?_, ?_⟩
  · rw [← List.drop_eq_getElem_cons inside, List.take_append_drop]
  · rw [List.length_take_of_le (Nat.le_of_lt inside)]

theorem getElem?_split (front back : List τ) (party : τ) :
    (front ++ party :: back)[front.length]? = some party := by
  rw [List.getElem?_append_right (Nat.le_refl _), Nat.sub_self, List.getElem?_cons_zero]

/-- A party added at the end comes after the others. -/
theorem getElem?_add {pool : List τ} {new party : τ} {index : Nat} :
    (pool ++ [new])[index]? = some party ↔
      pool[index]? = some party ∨ index = pool.length ∧ party = new := by
  rcases Nat.lt_trichotomy index pool.length with before | rfl | after
  · rw [List.getElem?_append_left before]
    refine (or_iff_left ?_).symm
    intro last
    exact Nat.ne_of_lt before last.1
  · rw [List.getElem?_concat_length, List.getElem?_eq_none (Nat.le_refl _)]
    simp [eq_comm]
  · have beyond : pool.length + 1 ≤ index := after
    rw [List.getElem?_eq_none (by simpa using beyond), List.getElem?_eq_none (Nat.le_of_lt after)]
    simp only [false_or, reduceCtorEq, false_iff, not_and]
    intro last
    exact absurd last (Nat.ne_of_gt after)

/-- Replacing a party leaves the others as they are. -/
theorem set_split (front back : List τ) (party next : τ) :
    (front ++ party :: back).set front.length next = front ++ next :: back := by
  rw [List.set_append_right _ _ (Nat.le_refl _), Nat.sub_self, List.set_cons_zero]

/-- Reading after a replacement. -/
theorem getElem?_set {pool : List τ} {index : Nat} {party : τ} (next : τ)
    (found : pool[index]? = some party) (wanted : Nat) :
    (pool.set index next)[wanted]? = if index = wanted then some next else pool[wanted]? := by
  have inside : index < pool.length := (List.getElem?_eq_some_iff.mp found).1
  rw [List.getElem?_set, if_pos inside]

/-- A replacement that keeps a feature changes it nowhere. -/
theorem map_set {κ : Type*} (feature : τ → κ) {pool : List τ} {index : Nat} {party next : τ}
    (found : pool[index]? = some party) (same : feature next = feature party) :
    (pool.set index next).map feature = pool.map feature := by
  obtain ⟨front, back, rfl, rfl⟩ := exists_split found
  rw [set_split, List.map_append, List.map_append, List.map_cons, List.map_cons, same]

/-- A replacement trades the weight of one party for that of another. -/
theorem sum_set (weight : τ → Nat) {pool : List τ} {index : Nat} {party : τ} (next : τ)
    (found : pool[index]? = some party) :
    ((pool.set index next).map weight).sum + weight party =
      (pool.map weight).sum + weight next := by
  obtain ⟨front, back, rfl, rfl⟩ := exists_split found
  rw [set_split]
  simp only [List.map_append, List.map_cons, List.sum_append, List.sum_cons]
  omega

/-- Looking a key up after a replacement that keeps the keys. -/
theorem find?_set {κ : Type*} [DecidableEq κ] {key : τ → κ} {pool : List τ} {index : Nat}
    {party next : τ} (unique : (pool.map key).Nodup) (found : pool[index]? = some party)
    (same : key next = key party) (wanted : κ) :
    (pool.set index next).find? (key · = wanted) =
      if wanted = key party then some next else pool.find? (key · = wanted) := by
  obtain ⟨front, back, rfl, rfl⟩ := exists_split found
  rw [set_split, List.find?_append, List.find?_append, List.find?_cons, List.find?_cons, same]
  by_cases here : wanted = key party
  · subst here
    have absent : front.find? (key · = key party) = none := by
      rw [List.find?_eq_none]
      intro other member equal
      rw [List.map_append, List.map_cons, List.nodup_append] at unique
      exact unique.2.2 _ (List.mem_map_of_mem member) _ List.mem_cons_self
        (of_decide_eq_true equal)
    simp [absent]
  · simp [here, Ne.symm here]

/-- A party is found under its key. -/
theorem find?_of_getElem? {κ : Type*} [DecidableEq κ] {key : τ → κ} {pool : List τ}
    {index : Nat} {party : τ} (unique : (pool.map key).Nodup)
    (found : pool[index]? = some party) : pool.find? (key · = key party) = some party := by
  have same := find?_set unique found (rfl : key party = key party) (key party)
  obtain ⟨front, back, rfl, rfl⟩ := exists_split found
  rwa [set_split, if_pos rfl] at same

/-- Removing a party leaves the others as they are. -/
theorem eraseIdx_split (front back : List τ) (party : τ) :
    (front ++ party :: back).eraseIdx front.length = front ++ back := by
  rw [List.eraseIdx_append_of_length_le (Nat.le_refl _), Nat.sub_self, List.eraseIdx_cons_zero]

/-- The parties left after a removal were there before. -/
theorem mem_of_removed {front back : List τ} {party member : τ} (inside : member ∈ front ++ back) :
    member ∈ front ++ party :: back := by
  rcases List.mem_append.mp inside with before | after
  · exact List.mem_append_left _ before
  · exact List.mem_append_right _ (List.mem_cons_of_mem _ after)

theorem mem_split (front back : List τ) (party : τ) : party ∈ front ++ party :: back :=
  List.mem_append_right _ List.mem_cons_self

/-- What is gathered of the parties, when one leaves the pool or joins it. -/
theorem gathered_apart {β : Type*} (gather : τ → List β) (front back : List τ) (party : τ) :
    ((front ++ back).flatMap gather ++ gather party).Perm
      ((front ++ party :: back).flatMap gather) := by
  rw [List.flatMap_append, List.flatMap_append, List.flatMap_cons, List.append_assoc]
  exact List.perm_append_comm.append_left _

/-- What is gathered of the parties grows by what one of them adds. -/
theorem gathered_grown {β : Type*} {gather : τ → List β} {party next : τ} {new : List β}
    (front back : List τ) (grown : gather next = gather party ++ new) :
    ((front ++ next :: back).flatMap gather).Perm
      ((front ++ party :: back).flatMap gather ++ new) := by
  have before := gathered_apart gather front back party
  have after := gathered_apart gather front back next
  rw [grown, ← List.append_assoc] at after
  exact after.symm.trans (before.append_right new)

/-- The only party of a pool. -/
theorem split_eq_singleton {front back : List τ} {party only : τ}
    (single : front ++ party :: back = [only]) : front = [] ∧ back = [] ∧ party = only := by
  cases front with
  | nil =>
      obtain ⟨rfl, rfl⟩ := List.cons.inj single
      exact ⟨rfl, rfl, rfl⟩
  | cons first front => cases (List.append_eq_nil_iff.mp (List.cons.inj single).2).2

/-- A feature that at most one party has: the party that has it is the only one. -/
theorem sole_of_some {κ : Type*} {feature : τ → Option κ} {pool : List τ} {party : τ}
    {sole : Option κ} (only : pool.filterMap feature = sole.toList) (inside : party ∈ pool)
    {value : κ} (has : feature party = some value) : sole = some value := by
  have member : value ∈ sole.toList := by
    rw [← only]
    exact List.mem_filterMap.mpr ⟨party, inside, has⟩
  exact Option.mem_toList.mp member

/-- A step of one party that leaves its feature as it is, or that passes on the
only one. -/
def Passes {κ : Type*} (has has' sole sole' : Option κ) : Prop :=
  has' = has ∧ sole' = sole ∨ has = sole ∧ sole' = has'

/-- It stays the feature of at most one party. -/
theorem sole_replace {κ : Type*} {feature : τ → Option κ} {front back : List τ}
    {party next : τ} {sole sole' : Option κ}
    (only : (front ++ party :: back).filterMap feature = sole.toList)
    (passes : Passes (feature party) (feature next) sole sole') :
    (front ++ next :: back).filterMap feature = sole'.toList := by
  rcases passes with ⟨same, rfl⟩ | ⟨mine, rfl⟩
  · rw [← only, List.filterMap_append, List.filterMap_append, List.filterMap_cons,
      List.filterMap_cons, same]
  · have others : front.filterMap feature = [] ∧ back.filterMap feature = [] := by
      have count := congrArg List.length only
      rw [List.filterMap_append, List.filterMap_cons, List.length_append] at count
      cases has : feature party with
      | none =>
          rw [has] at mine
          rw [has, ← mine] at count
          simp only [Option.toList_none, List.length_nil, Nat.add_eq_zero_iff] at count
          exact ⟨List.eq_nil_of_length_eq_zero count.1, List.eq_nil_of_length_eq_zero count.2⟩
      | some value =>
          rw [has] at mine
          rw [has, ← mine] at count
          simp only [Option.toList_some, List.length_cons, List.length_nil] at count
          constructor <;> apply List.eq_nil_of_length_eq_zero <;> omega
    rw [List.filterMap_append, List.filterMap_cons, others.1, others.2]
    cases feature next <;> rfl

/-- What holds of the replacement and of the others holds of the new pool. -/
theorem forall_replace {motive : τ → Prop} {front back : List τ} {party next : τ}
    (all : ∀ member ∈ front ++ party :: back, motive member) (replaced : motive next) :
    ∀ member ∈ front ++ next :: back, motive member := by
  intro member inside
  rcases List.mem_append.mp inside with before | after
  · exact all member (List.mem_append_left _ before)
  · rcases List.mem_cons.mp after with rfl | behind
    · exact replaced
    · exact all member (List.mem_append_right _ (List.mem_cons_of_mem _ behind))

/-- A relation between all pairs of parties survives a replacement that keeps it
to every other party. -/
theorem pairwise_replace {related : τ → τ → Prop} {front back : List τ} {party next : τ}
    (all : (front ++ party :: back).Pairwise related)
    (left : ∀ other ∈ front, related other party → related other next)
    (right : ∀ other ∈ back, related party other → related next other) :
    (front ++ next :: back).Pairwise related := by
  rw [List.pairwise_append, List.pairwise_cons] at all ⊢
  obtain ⟨before, ⟨ahead, behind⟩, across⟩ := all
  refine ⟨before, ⟨?_, behind⟩, ?_⟩
  · intro other member
    exact right other member (ahead other member)
  · intro early member late inside
    rcases List.mem_cons.mp inside with rfl | inside
    · exact left early member (across early member party List.mem_cons_self)
    · exact across early member late (List.mem_cons_of_mem _ inside)

/-! ## References -/

/-- Every position below a bound is the reference of one party, and of one only. -/
def Refers (reference : τ → Option Nat) (pool : List τ) (bound : Nat) : Prop :=
  (pool.filterMap reference).Perm (List.range bound)

namespace Refers

variable {reference : τ → Option Nat} {pool : List τ} {bound index : Nat} {party next : τ}

/-- Parties without a reference may come. -/
theorem append (refers : Refers reference pool bound) {others : List τ}
    (free : ∀ party ∈ others, reference party = none) :
    Refers reference (pool ++ others) bound := by
  have none : others.filterMap reference = [] := List.filterMap_eq_nil_iff.mpr free
  rw [Refers, List.filterMap_append, none, List.append_nil]
  exact refers

theorem replace (refers : Refers reference pool bound) (found : pool[index]? = some party)
    (same : reference next = reference party) : Refers reference (pool.set index next) bound := by
  obtain ⟨front, back, rfl, rfl⟩ := exists_split found
  rw [Refers, set_split, List.filterMap_append, List.filterMap_cons, same,
    ← List.filterMap_cons, ← List.filterMap_append]
  exact refers

/-- A party without a reference may take the next position. -/
theorem extend (refers : Refers reference pool bound) (found : pool[index]? = some party)
    (free : reference party = none) (taken : reference next = some bound) :
    Refers reference (pool.set index next) (bound + 1) := by
  obtain ⟨front, back, rfl, rfl⟩ := exists_split found
  rw [Refers, List.filterMap_append, List.filterMap_cons, free] at refers
  rw [Refers, set_split, List.filterMap_append, List.filterMap_cons, taken, List.range_succ]
  have placed : (front.filterMap reference ++ bound :: back.filterMap reference).Perm
      (bound :: (front.filterMap reference ++ back.filterMap reference)) := List.perm_middle
  have first := placed.trans (refers.cons bound)
  exact first.trans (List.perm_append_singleton bound _).symm

theorem lt (refers : Refers reference pool bound) (member : party ∈ pool) {position : Nat}
    (refer : reference party = some position) : position < bound := by
  have inside : position ∈ pool.filterMap reference := List.mem_filterMap.mpr ⟨party, member, refer⟩
  exact List.mem_range.mp (refers.mem_iff.mp inside)

theorem unique (refers : Refers reference pool bound) {left right : Nat} {one other : τ}
    (atLeft : pool[left]? = some one) (atRight : pool[right]? = some other) {position : Nat}
    (first : reference one = some position) (second : reference other = some position) :
    left = right := by
  have distinct : (pool.filterMap reference).Nodup := refers.nodup_iff.mpr List.nodup_range
  rw [List.Nodup, List.pairwise_filterMap, List.pairwise_iff_getElem] at distinct
  obtain ⟨insideLeft, rfl⟩ := List.getElem?_eq_some_iff.mp atLeft
  obtain ⟨insideRight, rfl⟩ := List.getElem?_eq_some_iff.mp atRight
  rcases Nat.lt_trichotomy left right with before | same | after
  · exact (distinct left right insideLeft insideRight before _ first _ second rfl).elim
  · exact same
  · exact (distinct right left insideRight insideLeft after _ second _ first rfl).elim

/-- **References are a one-to-one correspondence.** -/
theorem existsUnique (refers : Refers reference pool bound) {position : Nat}
    (inside : position < bound) :
    ∃! index : Nat, ∃ party, pool[index]? = some party ∧ reference party = some position := by
  have member : position ∈ pool.filterMap reference :=
    refers.mem_iff.mpr (List.mem_range.mpr inside)
  obtain ⟨party, present, refer⟩ := List.mem_filterMap.mp member
  obtain ⟨index, found⟩ := List.mem_iff_getElem?.mp present
  refine ⟨index, ⟨party, found, refer⟩, ?_⟩
  rintro other ⟨another, atOther, same⟩
  exact refers.unique atOther found same refer

end Refers

end Webserver.Foundation.Pool
