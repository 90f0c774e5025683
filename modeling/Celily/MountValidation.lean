import Celily.HomeSymlinks

/-!
# Validation of mount sources

A mount source has to be listed exactly, in the home directory, and neither on nor
around a forbidden path. `Forbidden.check_ok` reads a subtree entry as what it is
for: nothing that is exposed by mounting a path is under the subtree.
-/

namespace MountValidation

open RustText HostPaths PathResolution HostFiles HomeSymlinks

/-- `exact` forbids the path itself, `subtree` everything under it and every path that
contains it. -/
inductive Forbidden where
  | exact (canonical : Canonical) (label : Text)
  | subtree (canonical : Canonical) (label : Text)
  deriving DecidableEq

/-- The directory joined from `base` and `segment`; nothing if it does not exist. -/
def Forbidden.under (fs : Files) (base : Canonical) (segment label : Text) : List Forbidden :=
  match canonicalizeIn fs base segment with
  | .ok canonical => [.subtree canonical label]
  | .error _ => []

def Forbidden.check (entry : Forbidden) (canonical : Canonical) : Anyhow Unit :=
  match entry with
  | .exact blocked label =>
    if canonical = blocked then bail (label ++ " is forbidden".toList) else .ok ()
  | .subtree blocked label =>
    if isUnderOrEq canonical blocked then
      bail ("path is under ".toList ++ label ++ " (forbidden)".toList)
    else if isUnderOrEq blocked canonical then
      bail ("path contains ".toList ++ label ++ " (forbidden)".toList)
    else .ok ()

/-- Whether mounting the path is what the entry forbids. -/
def Forbidden.Hits (entry : Forbidden) (canonical : Canonical) : Prop :=
  match entry with
  | .exact blocked _ => canonical = blocked
  | .subtree blocked _ => ∃ exposed, canonical <+: exposed ∧ blocked <+: exposed

/-- Two paths with a common descendant are on one line. -/
theorem comparable_iff {p q : Canonical} :
    (∃ exposed, p <+: exposed ∧ q <+: exposed) ↔ q <+: p ∨ p <+: q := by
  constructor
  · rintro ⟨exposed, hp, hq⟩
    exact (List.prefix_or_prefix_of_prefix hq hp)
  · rintro (h | h)
    · exact ⟨p, List.prefix_refl p, h⟩
    · exact ⟨q, h, List.prefix_refl q⟩

theorem Forbidden.check_ok (entry : Forbidden) (canonical : Canonical) :
    entry.check canonical = .ok () ↔ ¬entry.Hits canonical := by
  cases entry with
  | exact blocked label =>
    simp only [Forbidden.check, Forbidden.Hits]
    by_cases heq : canonical = blocked
    · rw [if_pos heq]
      exact iff_of_false nofun (not_not_intro heq)
    · rw [if_neg heq]
      exact iff_of_true rfl heq
  | subtree blocked label =>
    simp only [Forbidden.check, Forbidden.Hits, comparable_iff, isUnderOrEq_iff]
    by_cases hunder : blocked <+: canonical
    · rw [if_pos hunder]
      exact iff_of_false nofun (not_not_intro (Or.inl hunder))
    · by_cases hcontains : canonical <+: blocked
      · rw [if_neg hunder, if_pos hcontains]
        exact iff_of_false nofun (not_not_intro (Or.inr hcontains))
      · rw [if_neg hunder, if_neg hcontains]
        exact iff_of_true rfl (by simp [hunder, hcontains])

/-- The first forbidden entry that is hit ends the loop. -/
def checkForbidden (context : Text) (canonical : Canonical) : List Forbidden → Anyhow Unit
  | [] => pure ()
  | entry :: forbidden => do
    withContext context (entry.check canonical)
    checkForbidden context canonical forbidden

theorem checkForbidden_ok {context : Text} {canonical : Canonical} {forbidden : List Forbidden} :
    checkForbidden context canonical forbidden = .ok () ↔
      ∀ entry ∈ forbidden, ¬entry.Hits canonical := by
  induction forbidden with
  | nil => exact iff_of_true rfl (by simp)
  | cons entry forbidden ih =>
    rw [checkForbidden, bind_eq_ok, List.forall_mem_cons]
    simp only [withContext_eq_ok, ih]
    constructor
    · rintro ⟨_, hcheck, hrest⟩
      exact ⟨(entry.check_ok canonical).mp hcheck, hrest⟩
    · rintro ⟨hfirst, hrest⟩
      exact ⟨(), (entry.check_ok canonical).mpr hfirst, hrest⟩

/-- Only an exact entry of the list for its kind may be mounted. -/
def checkListed (fs : Files) (path : Bytes) (canonical : Canonical)
    (allowedDirs allowedFiles : List Canonical) : Anyhow Unit :=
  if isDirectory fs canonical then
    ensure (allowedDirs.contains canonical) ("directory ".toList ++ display path ++
      (" is not in the allowed_dirs list (exact match required, subtrees are " ++
        "not allowed)").toList)
  else if isRegularFile fs canonical then
    ensure (allowedFiles.contains canonical) ("file ".toList ++ display path ++
      " is not in the allowed_files list (exact match required)".toList)
  else bail (display path ++ " is neither a regular file nor a directory".toList)

def validateMountSource (fs : Files) (cwd : Canonical) (path : Bytes) (home : Canonical)
    (forbidden : List Forbidden) (allowedDirs allowedFiles : List Canonical) :
    Anyhow Canonical := do
  ensure (!(allowedDirs.isEmpty && allowedFiles.isEmpty))
    ("allowed_dirs and allowed_files are empty: configure at least one in " ++
      "~/.config/celily/config.toml").toList
  let canonical ← canonicalizeInHome fs cwd path home
  checkForbidden ("cannot mount ".toList ++ display path) canonical forbidden
  ensure (isUnderOrEq canonical home)
    (display path ++ " is not under ".toList ++ displayCanonical home)
  checkListed fs path canonical allowedDirs allowedFiles
  pure canonical

/-- Listed under its own kind. -/
def Listed (fs : Files) (allowedDirs allowedFiles : List Canonical) (canonical : Canonical) :
    Prop :=
  (fs.kind canonical = some .dir ∧ canonical ∈ allowedDirs) ∨
    (fs.kind canonical = some .file ∧ canonical ∈ allowedFiles)

theorem checkListed_ok {fs : Files} {path : Bytes} {canonical : Canonical}
    {allowedDirs allowedFiles : List Canonical} {u : Unit} :
    checkListed fs path canonical allowedDirs allowedFiles = .ok u ↔
      Listed fs allowedDirs allowedFiles canonical := by
  have hdir : isDirectory fs canonical = true ↔ fs.kind canonical = some .dir := isDir_iff
  have hfile : isRegularFile fs canonical = true ↔ fs.kind canonical = some .file := by
    simp [isRegularFile]
  rw [checkListed, Listed]
  split
  · rename_i h
    rw [hdir] at h
    simp [h]
  · rename_i hnot
    rw [hdir] at hnot
    split
    · rename_i h
      rw [hfile] at h
      simp [h]
    · rename_i hnotFile
      rw [hfile] at hnotFile
      simp [hnot, hnotFile]

/-- What an accepted source is, and that nothing else is asked of it. -/
theorem validateMountSource_ok {fs : Files} {cwd home c : Canonical} {path : Bytes}
    {forbidden : List Forbidden} {allowedDirs allowedFiles : List Canonical} :
    validateMountSource fs cwd path home forbidden allowedDirs allowedFiles = .ok c ↔
      canonicalizeInHome fs cwd path home = .ok c ∧ (∀ entry ∈ forbidden, ¬entry.Hits c) ∧
        home <+: c ∧ Listed fs allowedDirs allowedFiles c := by
  simp only [validateMountSource, bind_eq_ok, ensure_eq_ok, isUnderOrEq_iff, checkListed_ok]
  constructor
  · rintro ⟨_, _, canonical, hcanonical, _, hforbidden, _, hunder, _, hlisted, hc⟩
    obtain rfl := Except.ok.inj hc
    exact ⟨hcanonical, checkForbidden_ok.mp hforbidden, hunder, hlisted⟩
  · rintro ⟨hcanonical, hforbidden, hunder, hlisted⟩
    refine ⟨(), ?_, c, hcanonical, (), checkForbidden_ok.mpr hforbidden, (), hunder, (), hlisted,
      rfl⟩
    rcases hlisted with ⟨_, hmem⟩ | ⟨_, hmem⟩
    · cases allowedDirs with
      | nil => cases hmem
      | cons => rfl
    · cases allowedFiles with
      | nil => cases hmem
      | cons => simp

end MountValidation
