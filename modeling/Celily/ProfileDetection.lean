import Celily.GreatestScans
import Celily.MountBoundary

/-!
# The profile of the working directory

`load_for_dir` goes through the mapping in the order of a hash map and keeps the longest
directory that contains the working directory. Of two directories that contain it and
are as long as each other neither differs from the other, but two raw keys may lead to
one directory: then the order decides between their names.
-/

namespace ProfileDetection

open RustText HostPaths HostFiles HomeSymlinks Configuration MountBoundary GreatestScans

variable {host : Host} {home : Bytes} {cwd : Canonical}

/-- The profile that is merged, when the mapping comes in this order. -/
def selectProfile (host : Host) (home : Bytes) (cwd : Canonical) (mapping : List (Text × Text)) :
    Option Text :=
  (mapping.foldl (matchEntry host home cwd) none).map Prod.snd

theorem loadForDir_select (host : Host) (toml : Toml) (cwd : Bytes) :
    loadForDir host toml cwd = (do
      let default ← loadDefault host toml
      let cwdCanon ← resolve host cwd
      let mapping ← loadProfilesToml host toml
      let home ← homePath host
      match selectProfile host home cwdCanon mapping.profiles with
      | some profile => mergeWithProfile host toml default profile mapping.inherit
      | none => pure default) := by
  rw [loadForDir]
  congr 1
  funext default
  congr 1
  funext cwdCanon
  congr 1
  funext mapping
  congr 1
  funext home
  rw [selectProfile]
  cases mapping.profiles.foldl (matchEntry host home cwdCanon) none with
  | none => rfl
  | some best => rfl

/-! ## Usable entries -/

/-- A valid name, and a path that exists, leads to `dir` and contains the working
directory. -/
structure Usable (host : Host) (home : Bytes) (cwd : Canonical) (entry : Text × Text)
    (dir : Canonical) : Prop where
  valid : isValidProfileName entry.2 = true
  leads : canonicalize host.files host.workingDir (expandHostTilde (utf8 entry.1) home) = .ok dir
  contains : dir <+: cwd

/-- The directory and the name of an entry that is not skipped. -/
def candidate (host : Host) (home : Bytes) (cwd : Canonical) (entry : Text × Text) :
    Option (Canonical × Text) :=
  if !isValidProfileName entry.2 then none
  else
    match canonicalize host.files host.workingDir (expandHostTilde (utf8 entry.1) home) with
    | .error _ => none
    | .ok dir => if isUnderOrEq cwd dir then some (dir, entry.2) else none

theorem candidate_eq_some_iff {entry : Text × Text} {dir : Canonical} {profile : Text} :
    candidate host home cwd entry = some (dir, profile) ↔
      Usable host home cwd entry dir ∧ profile = entry.2 := by
  rw [candidate]
  cases hvalid : isValidProfileName entry.2 with
  | false =>
    constructor
    · intro h
      cases h
    · rintro ⟨usable, _⟩
      rw [usable.valid] at hvalid
      cases hvalid
  | true =>
    cases hleads : canonicalize host.files host.workingDir
        (expandHostTilde (utf8 entry.1) home) with
    | error trouble =>
      constructor
      · intro h
        cases h
      · rintro ⟨usable, _⟩
        rw [usable.leads] at hleads
        cases hleads
    | ok found =>
      simp only [Bool.not_true, Bool.false_eq_true, if_false]
      constructor
      · intro h
        split at h
        · rename_i hunder
          obtain ⟨rfl, rfl⟩ := Prod.mk.inj (Option.some.inj h)
          exact ⟨⟨hvalid, hleads, (isUnderOrEq_iff cwd found).mp hunder⟩, rfl⟩
        · cases h
      · rintro ⟨usable, rfl⟩
        obtain rfl := Except.ok.inj (hleads.symm.trans usable.leads)
        rw [if_pos ((isUnderOrEq_iff cwd found).mpr usable.contains)]

theorem matchEntry_eq (best : Option (Canonical × Text)) (entry : Text × Text) :
    matchEntry host home cwd best entry =
      match candidate host home cwd entry with
      | none => best
      | some item => keep (fun found => found.1.length) best item := by
  rw [matchEntry, candidate]
  cases isValidProfileName entry.2 with
  | false => rfl
  | true =>
    cases canonicalize host.files host.workingDir (expandHostTilde (utf8 entry.1) home) with
    | error trouble => rfl
    | ok dir =>
      cases hunder : isUnderOrEq cwd dir with
      | false => simp [hunder]
      | true =>
        simp only [hunder]
        cases best <;> rfl

theorem selectProfile_scan (host : Host) (home : Bytes) (cwd : Canonical)
    (mapping : List (Text × Text)) :
    selectProfile host home cwd mapping =
      (scan (fun found => found.1.length) (mapping.filterMap (candidate host home cwd))).map
        Prod.snd := by
  have hfold : ∀ best, mapping.foldl (matchEntry host home cwd) best =
      (mapping.filterMap (candidate host home cwd)).foldl
        (keep (fun found => found.1.length)) best := by
    induction mapping with
    | nil => exact fun best => rfl
    | cons entry mapping ih =>
      intro best
      rw [List.foldl_cons, matchEntry_eq]
      cases hcandidate : candidate host home cwd entry with
      | none =>
        rw [List.filterMap_cons_none hcandidate]
        exact ih best
      | some item =>
        rw [List.filterMap_cons_some hcandidate, List.foldl_cons]
        exact ih _
  rw [selectProfile, hfold]
  rfl

/-! ## The longest entry -/

/-- A usable entry, and none of the mapping leads to a longer directory. -/
structure Longest (host : Host) (home : Bytes) (cwd : Canonical) (mapping : List (Text × Text))
    (entry : Text × Text) (dir : Canonical) : Prop where
  mem : entry ∈ mapping
  usable : Usable host home cwd entry dir
  longest : ∀ other ∈ mapping, ∀ d, Usable host home cwd other d → d.length ≤ dir.length

/-- Two entries lead to the longest directory, under different names. -/
def Tied (host : Host) (home : Bytes) (cwd : Canonical) (mapping : List (Text × Text)) : Prop :=
  ∃ a b dir, Longest host home cwd mapping a dir ∧ Longest host home cwd mapping b dir ∧
    a.2 ≠ b.2

/-- The name of a longest entry, or none if no entry is usable. -/
def Picks (host : Host) (home : Bytes) (cwd : Canonical) (mapping : List (Text × Text))
    (selected : Option Text) : Prop :=
  match selected with
  | some profile => ∃ entry dir, Longest host home cwd mapping entry dir ∧ profile = entry.2
  | none => ∀ entry ∈ mapping, ∀ dir, ¬Usable host home cwd entry dir

theorem greatest_iff {mapping : List (Text × Text)} {dir : Canonical} {profile : Text} :
    Greatest (fun found => found.1.length) (mapping.filterMap (candidate host home cwd))
        (dir, profile) ↔
      ∃ entry, Longest host home cwd mapping entry dir ∧ profile = entry.2 := by
  have hmem : ∀ d p, (d, p) ∈ mapping.filterMap (candidate host home cwd) ↔
      ∃ entry ∈ mapping, Usable host home cwd entry d ∧ p = entry.2 := by
    intro d p
    rw [List.mem_filterMap]
    simp only [candidate_eq_some_iff]
  constructor
  · rintro ⟨hin, hmax⟩
    obtain ⟨entry, hentry, usable, rfl⟩ := (hmem dir profile).mp hin
    refine ⟨entry, ⟨hentry, usable, fun other hother d husable => ?_⟩, rfl⟩
    exact hmax (d, other.2) ((hmem d other.2).mpr ⟨other, hother, husable, rfl⟩)
  · rintro ⟨entry, longest, rfl⟩
    refine ⟨(hmem dir entry.2).mpr ⟨entry, longest.mem, longest.usable, rfl⟩, ?_⟩
    rintro ⟨d, p⟩ hin
    obtain ⟨other, hother, usable, rfl⟩ := (hmem d p).mp hin
    exact longest.longest other hother d usable

theorem selectProfile_picks (mapping : List (Text × Text)) :
    Picks host home cwd mapping (selectProfile host home cwd mapping) := by
  rw [selectProfile_scan]
  cases hscan : scan (fun found => found.1.length)
      (mapping.filterMap (candidate host home cwd)) with
  | none =>
    rw [scan_eq_none_iff, List.filterMap_eq_nil_iff] at hscan
    intro entry hentry dir usable
    have hnone := hscan entry hentry
    rw [candidate_eq_some_iff.mpr ⟨usable, rfl⟩] at hnone
    cases hnone
  | some found =>
    obtain ⟨entry, longest, hname⟩ := greatest_iff.mp (scan_greatest hscan)
    exact ⟨entry, found.1, longest, hname⟩

theorem Longest.perm {mapping other : List (Text × Text)} {entry : Text × Text} {dir : Canonical}
    (longest : Longest host home cwd mapping entry dir) (hperm : mapping.Perm other) :
    Longest host home cwd other entry dir :=
  ⟨hperm.mem_iff.mp longest.mem, longest.usable,
    fun o ho => longest.longest o (hperm.mem_iff.mpr ho)⟩

/-- Longest entries lead to one directory: both contain the working directory. -/
theorem Longest.same_dir {mapping : List (Text × Text)} {a b : Text × Text} {d e : Canonical}
    (ha : Longest host home cwd mapping a d) (hb : Longest host home cwd mapping b e) : d = e := by
  have hle := ha.longest b hb.mem e hb.usable
  have hge := hb.longest a ha.mem d ha.usable
  have hlength : d.length = e.length := by omega
  have hover := List.prefix_of_prefix_length_le ha.usable.contains hb.usable.contains (by omega)
  exact hover.eq_of_length hlength

/-- With a longest entry in front, its name is selected. -/
theorem selectProfile_front {mapping : List (Text × Text)} {entry : Text × Text} {dir : Canonical}
    (longest : Longest host home cwd mapping entry dir) :
    selectProfile host home cwd (entry :: mapping.erase entry) = some entry.2 := by
  have hperm := List.perm_cons_erase longest.mem
  obtain ⟨_, hmax⟩ := greatest_iff.mpr ⟨entry, longest.perm hperm, rfl⟩
  have hcandidate := candidate_eq_some_iff.mpr ⟨longest.usable, rfl⟩
  rw [List.filterMap_cons_some hcandidate] at hmax
  rw [selectProfile_scan, List.filterMap_cons_some hcandidate,
    scan_cons_greatest fun item hitem => hmax item (List.mem_cons_of_mem _ hitem)]
  rfl

/-- The selection is the name of the longest entry in every order exactly when no two
entries with different names lead to the longest directory. -/
theorem selectProfile_order_iff (host : Host) (home : Bytes) (cwd : Canonical)
    (mapping : List (Text × Text)) :
    (∀ a b : List (Text × Text), a.Perm mapping → b.Perm mapping →
      selectProfile host home cwd a = selectProfile host home cwd b ∧
        Picks host home cwd mapping (selectProfile host home cwd a)) ↔
      ¬Tied host home cwd mapping := by
  constructor
  · rintro hsame ⟨a, b, dir, ha, hb, hnames⟩
    have horders := (hsame _ _ (List.perm_cons_erase ha.mem).symm
      (List.perm_cons_erase hb.mem).symm).1
    rw [selectProfile_front ha, selectProfile_front hb] at horders
    exact hnames (Option.some.inj horders)
  · intro hfree a b hpermA hpermB
    constructor
    · rw [selectProfile_scan, selectProfile_scan]
      apply scan_map_perm ((hpermA.trans hpermB.symm).filterMap _)
      rintro ⟨d, p⟩ ⟨e, q⟩ hd he
      obtain ⟨x, hx, rfl⟩ := greatest_iff.mp hd
      obtain ⟨y, hy, rfl⟩ := greatest_iff.mp he
      obtain rfl := hx.same_dir hy
      by_contra hne
      exact hfree ⟨x, y, d, hx.perm hpermA, hy.perm hpermA, hne⟩
    · have hpicks : Picks host home cwd a (selectProfile host home cwd a) := selectProfile_picks a
      cases hselected : selectProfile host home cwd a with
      | none =>
        rw [hselected] at hpicks
        exact fun entry hentry => hpicks entry (hpermA.mem_iff.mpr hentry)
      | some profile =>
        rw [hselected] at hpicks
        obtain ⟨entry, dir, longest, hname⟩ := hpicks
        exact ⟨entry, dir, longest.perm hpermA, hname⟩

/-- `~/work` and `/home/u/work` are one directory. -/
theorem selectProfile_tied :
    ¬∀ (host : Host) (home : Bytes) (cwd : Canonical) (mapping a b : List (Text × Text)),
      (mapping.map Prod.fst).Nodup → a.Perm mapping → b.Perm mapping →
        selectProfile host home cwd a = selectProfile host home cwd b := by
  intro hclaim
  have hsame := hclaim (userHost workFiles []) (name "/home/u") (userHome ++ [name "work"])
    [("~/work".toList, "one".toList), ("/home/u/work".toList, "two".toList)] _
    [("/home/u/work".toList, "two".toList), ("~/work".toList, "one".toList)] (by decide)
    (List.Perm.refl _) (List.Perm.swap _ _ _)
  revert hsame
  decide +kernel

end ProfileDetection
