import Celily.InstanceLifecycle
import Mathlib.Data.List.Perm.Basic

/-!
# Hash maps of variables

A hash map is the list of its entries in one iteration order, with each key once. What
it holds is read by `lookup`, which neither the order nor the writes of other keys
change.
-/

namespace EnvironmentMaps

open RustText InstanceLifecycle

variable {env other entries : List (Text × Text)} {key value : Text}

/-- Each key comes once. -/
def IsMap (env : List (Text × Text)) : Prop := (env.map Prod.fst).Nodup

theorem isMap_nil : IsMap [] := List.nodup_nil

theorem isMap_cons {entry : Text × Text} :
    IsMap (entry :: env) ↔ env.lookup entry.1 = none ∧ IsMap env := by
  rw [IsMap, List.map_cons, List.nodup_cons, List.lookup_eq_none_iff]
  constructor
  · rintro ⟨hnew, hmap⟩
    refine ⟨fun other hmem => ?_, hmap⟩
    rw [bne_iff_ne]
    rintro heq
    exact hnew (heq ▸ List.mem_map_of_mem hmem)
  · rintro ⟨hnew, hmap⟩
    refine ⟨fun hmem => ?_, hmap⟩
    obtain ⟨other, hother, heq⟩ := List.mem_map.mp hmem
    have hne := hnew other hother
    rw [bne_iff_ne] at hne
    exact hne heq.symm

theorem lookup_filter_ne (env : List (Text × Text)) {name : Text} (hne : key ≠ name) :
    (env.filter fun other => other.1 ≠ name).lookup key = env.lookup key := by
  induction env with
  | nil => rfl
  | cons entry env ih =>
    rw [List.filter_cons]
    split
    · rw [lookup_cons, lookup_cons, ih]
    · rename_i hdrop
      have hname : entry.1 = name := by simpa using hdrop
      rw [ih, lookup_cons, if_neg (by rw [hname]; exact hne)]

theorem lookup_setEnv (env : List (Text × Text)) (entry : Text × Text) (key : Text) :
    (setEnv env entry).lookup key = if key = entry.1 then some entry.2 else env.lookup key := by
  rw [setEnv, lookup_cons]
  by_cases heq : key = entry.1
  · rw [if_pos heq, if_pos heq]
  · rw [if_neg heq, if_neg heq, lookup_filter_ne env heq]

theorem isMap_setEnv (hmap : IsMap env) (entry : Text × Text) : IsMap (setEnv env entry) := by
  refine isMap_cons.mpr ⟨?_, (List.filter_sublist.map Prod.fst).nodup hmap⟩
  rw [List.lookup_eq_none_iff]
  intro other hmem
  rw [bne_iff_ne]
  exact (by simpa using (List.mem_filter.mp hmem).2 : other.1 ≠ entry.1).symm

/-- All entries of a map are written: its values win. -/
theorem lookup_foldl_setEnv (hentries : IsMap entries) (env : List (Text × Text)) (key : Text) :
    (entries.foldl setEnv env).lookup key = (entries.lookup key).or (env.lookup key) := by
  induction entries generalizing env with
  | nil => rfl
  | cons entry entries ih =>
    obtain ⟨hnew, hrest⟩ := isMap_cons.mp hentries
    rw [List.foldl_cons, ih hrest, lookup_setEnv, lookup_cons]
    by_cases heq : key = entry.1
    · rw [if_pos heq, if_pos heq, heq, hnew]
      rfl
    · rw [if_neg heq, if_neg heq]

theorem isMap_foldl_setEnv (hmap : IsMap env) (entries : List (Text × Text)) :
    IsMap (entries.foldl setEnv env) := by
  induction entries generalizing env with
  | nil => exact hmap
  | cons entry entries ih => exact ih (isMap_setEnv hmap entry)

theorem lookup_eq_some_iff (hmap : IsMap env) :
    env.lookup key = some value ↔ (key, value) ∈ env := by
  induction env with
  | nil => simp
  | cons entry env ih =>
    obtain ⟨hnew, hrest⟩ := isMap_cons.mp hmap
    rw [lookup_cons, List.mem_cons]
    by_cases heq : key = entry.1
    · rw [if_pos heq, ← ih hrest, heq, hnew]
      constructor
      · intro hvalue
        exact Or.inl (Prod.ext rfl (Option.some.inj hvalue).symm)
      · rintro (hentry | hnone)
        · rw [← hentry]
        · cases hnone
    · rw [if_neg heq, ih hrest]
      constructor
      · exact Or.inr
      · rintro (hentry | hmem)
        · exact absurd (congrArg Prod.fst hentry) heq
        · exact hmem

/-- Two iteration orders of a map hold the same. -/
theorem lookup_perm (hmap : IsMap env) (hperm : env.Perm other) (key : Text) :
    env.lookup key = other.lookup key := by
  have hother : IsMap other := (hperm.map Prod.fst).nodup_iff.mp hmap
  apply Option.ext
  intro value
  rw [lookup_eq_some_iff hmap, lookup_eq_some_iff hother, hperm.mem_iff]

/-- The entries of a table that have a value. -/
def present (table : List (Text × Option Text)) : List (Text × Text) :=
  table.filterMap fun entry => entry.2.map fun value => (entry.1, value)

theorem present_keys (table : List (Text × Option Text)) :
    ((present table).map Prod.fst).Sublist (table.map Prod.fst) := by
  induction table with
  | nil => exact List.Sublist.slnil
  | cons entry table ih =>
    obtain ⟨key, value⟩ := entry
    cases value with
    | none => exact ih.cons key
    | some value => exact ih.cons_cons key

theorem lookup_present {table : List (Text × Option Text)} (hkeys : (table.map Prod.fst).Nodup)
    (key : Text) : (present table).lookup key = (table.lookup key).join := by
  induction table with
  | nil => rfl
  | cons entry table ih =>
    obtain ⟨name, value⟩ := entry
    obtain ⟨hnew, hrest⟩ := List.nodup_cons.mp hkeys
    rw [lookup_cons]
    by_cases heq : key = name
    · rw [if_pos heq]
      cases value with
      | some value => exact (lookup_cons _ _ _).trans (if_pos heq)
      | none =>
        -- no later entry is under the same key
        change (present table).lookup key = none
        rw [ih hrest, heq, List.lookup_eq_none_iff.mpr]
        · rfl
        · intro other hother
          rw [bne_iff_ne]
          intro hsame
          exact hnew (List.mem_map.mpr ⟨other, hother, hsame.symm⟩)
    · rw [if_neg heq, ← ih hrest]
      cases value with
      | some value => exact (lookup_cons _ _ _).trans (if_neg heq)
      | none => rfl

end EnvironmentMaps
