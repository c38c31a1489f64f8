import Mathlib.Data.List.AList

/-! # Maps with unique keys and no promised order

An association list with unique keys. `emplace` is insertion that leaves an
existing entry alone, `assign` is assignment through an index, which overwrites.
The order of `entries` is one possible iteration order.
-/

namespace Webserver.Foundation

/-- A finite map whose keys occur once. -/
abbrev UnorderedMap (κ ν : Type*) := AList (fun _ : κ => ν)

namespace UnorderedMap

variable {κ ν : Type*} [DecidableEq κ]

/-- Equality by comparing the entries, which evaluates. -/
instance (priority := high) [DecidableEq ν] : DecidableEq (UnorderedMap κ ν) :=
  fun _ _ => decidable_of_iff _ AList.ext_iff.symm

/-- Insertion that does not overwrite. -/
def emplace (map : UnorderedMap κ ν) (key : κ) (value : ν) : UnorderedMap κ ν :=
  if key ∈ map then map else AList.insert key value map

/-- Assignment through an index, which overwrites. -/
def assign (map : UnorderedMap κ ν) (key : κ) (value : ν) : UnorderedMap κ ν :=
  AList.insert key value map

/-- Reading through an index inserts the default value for an absent key. -/
def index [Inhabited ν] (map : UnorderedMap κ ν) (key : κ) : ν × UnorderedMap κ ν :=
  match map.lookup key with
  | some value => (value, map)
  | none => (default, AList.insert key default map)

/-- The first insertion under a key decides. -/
theorem lookup_emplace (map : UnorderedMap κ ν) (key wanted : κ) (value : ν) :
    (emplace map key value).lookup wanted =
      (map.lookup wanted).or (if key = wanted then some value else none) := by
  unfold emplace
  by_cases present : key ∈ map
  · rw [if_pos present]
    by_cases same : key = wanted
    · subst same
      obtain ⟨old, found⟩ := Option.isSome_iff_exists.mp (AList.lookup_isSome.mpr present)
      rw [found, Option.some_or]
    · rw [if_neg same, Option.or_none]
  · rw [if_neg present]
    by_cases same : key = wanted
    · subst same
      rw [AList.lookup_insert, AList.lookup_eq_none.mpr present, if_pos rfl, Option.none_or]
    · rw [AList.lookup_insert_ne (Ne.symm same), if_neg same, Option.or_none]

/-- A loop of insertions keeps what was there and adds the first item of each key. -/
theorem lookup_foldl_emplace {ι : Type*} (key : ι → κ) (value : ι → ν) (items : List ι)
    (start : UnorderedMap κ ν) (wanted : κ) :
    (items.foldl (fun map item => emplace map (key item) (value item)) start).lookup wanted =
      (start.lookup wanted).or
        ((items.find? (fun item => decide (key item = wanted))).map value) := by
  induction items generalizing start with
  | nil => simp
  | cons item items ih =>
      rw [List.foldl_cons, ih, lookup_emplace, Option.or_assoc]
      by_cases same : key item = wanted
      · simp [same]
      · simp [same]

/-- Erasing an absent key changes nothing. -/
theorem erase_of_lookup_eq_none {map : UnorderedMap κ ν} {key : κ}
    (absent : map.lookup key = none) : map.erase key = map := by
  apply AList.ext
  have outside : key ∉ map.entries.keys := AList.lookup_eq_none.mp absent
  exact List.kerase_of_notMem_keys outside

omit [DecidableEq κ] in
/-- The entries as pairs. -/
def pairs (map : UnorderedMap κ ν) : List (κ × ν) :=
  map.entries.map fun entry => (entry.1, entry.2)

theorem find?_pairs (map : UnorderedMap κ ν) (wanted : κ) :
    (pairs map).find? (fun pair => decide (pair.1 = wanted)) =
      (map.lookup wanted).map fun value => (wanted, value) := by
  rw [pairs, AList.lookup]
  induction map.entries with
  | nil => rfl
  | cons entry entries ih =>
      obtain ⟨key, value⟩ := entry
      rw [List.map_cons]
      by_cases same : key = wanted
      · subst same
        rw [List.find?_cons_of_pos (by simp), List.dlookup_cons_eq]
        rfl
      · rw [List.find?_cons_of_neg (by simp [same]), ih,
          List.dlookup_cons_ne entries (⟨key, value⟩ : (_ : κ) × ν) (Ne.symm same)]

theorem mem_pairs_iff {map : UnorderedMap κ ν} {key : κ} {value : ν} :
    (key, value) ∈ pairs map ↔ map.lookup key = some value := by
  rw [← Option.mem_def, AList.mem_lookup_iff, pairs, List.mem_map]
  constructor
  · rintro ⟨entry, member, same⟩
    cases same
    exact member
  · intro member
    exact ⟨_, member, rfl⟩

end UnorderedMap

end Webserver.Foundation
