import Celily.ContextResolution

/-!
# What the mounts of a context expose

Every mount that was asked for is in the context, in its place, and its canonical
source is a listed path below home. Nothing that it exposes, itself or anything
below it, is in a protected directory.
-/

namespace MountBoundary

open RustText HostPaths PathResolution HostFiles HomeSymlinks MountValidation Devices
open Configuration ContextResolution InstanceNames

/-- Where a path leads, from the working directory of the process. -/
def LeadsTo (host : Host) (path : Bytes) (c : Canonical) : Prop :=
  ∃ absolutePath, absolute host.workingDir path = .ok absolutePath ∧
    absolutePath.canonicalize host.files = .ok c

theorem LeadsTo.unique {host : Host} {path : Bytes} {c d : Canonical} (hc : LeadsTo host path c)
    (hd : LeadsTo host path d) : c = d := by
  obtain ⟨p, hp, hc⟩ := hc
  obtain ⟨q, hq, hd⟩ := hd
  obtain rfl := Except.ok.inj (hp.symm.trans hq)
  exact Except.ok.inj (hc.symm.trans hd)

theorem leadsTo_of_inHome {host : Host} {path : Bytes} {home c : Canonical}
    (hok : canonicalizeInHome host.files host.workingDir path home = .ok c) :
    LeadsTo host path c := by
  obtain ⟨absolutePath, habsolute, _, hresolve⟩ := canonicalizeInHome_eq_ok.mp hok
  exact ⟨absolutePath, habsolute, hresolve⟩

/-- The mount of a request: the same but for its source, which is canonical. -/
def Resolves (host : Host) (request : Mount Bytes) (mount : Mount Canonical) : Prop :=
  LeadsTo host request.source mount.source ∧ mount.target = request.target ∧
    mount.access = request.access

/-- The sources of read-write mounts are where the read-write requests lead. -/
theorem readWrite_sources_iff {host : Host} {requests : List (Mount Bytes)}
    {mounts : List (Mount Canonical)} {P : Canonical → Prop}
    (hall : List.Forall₂ (Resolves host) requests mounts) :
    (∀ mount ∈ mounts, mount.access = .readWrite → P mount.source) ↔
      ∀ request ∈ requests, request.access = .readWrite →
        ∀ source, LeadsTo host request.source source → P source := by
  constructor
  · intro hmounts request hrequest haccess source hleads
    obtain ⟨mount, hmem, hsource, _, hsame⟩ := forall₂_mem_left hall hrequest
    obtain rfl := hleads.unique hsource
    exact hmounts mount hmem (hsame.trans haccess)
  · intro hrequests mount hmem haccess
    obtain ⟨request, hrequest, hsource, _, hsame⟩ := forall₂_mem_right hall hmem
    exact hrequests request hrequest (hsame.symm.trans haccess) mount.source hsource

/-- The directories of secrets and of the configuration. -/
def Protected (fs : Files) (homeCanon configCanon dir : Canonical) : Prop :=
  canonicalizeIn fs configCanon "celily".toList = .ok dir ∨
    canonicalizeIn fs homeCanon ".ssh".toList = .ok dir ∨
    canonicalizeIn fs homeCanon ".gnupg".toList = .ok dir ∨
    canonicalizeIn fs homeCanon ".local/share/keyrings".toList = .ok dir

/-- What may be mounted. -/
structure Bounded (host : Host) (home : Bytes) (homeCanon configCanon : Canonical)
    (allowedDirs allowedFiles : List Bytes) (source : Canonical) : Prop where
  below_home : homeCanon <+: source ∧ source ≠ homeCanon
  not_config : source ≠ configCanon
  not_local : ∀ dir, canonicalizeIn host.files homeCanon ".local".toList = .ok dir → source ≠ dir
  not_share : ∀ dir, canonicalizeIn host.files homeCanon ".local/share".toList = .ok dir →
    source ≠ dir
  spares : ∀ dir, Protected host.files homeCanon configCanon dir →
    ∀ exposed, source <+: exposed → ¬dir <+: exposed
  listed : (host.files.kind source = some .dir ∧
      ∃ entry ∈ allowedDirs, LeadsTo host (expandHostTilde entry home) source) ∨
    (host.files.kind source = some .file ∧
      ∃ entry ∈ allowedFiles, LeadsTo host (expandHostTilde entry home) source)

theorem canonicalizeAllowlist_mem {host : Host} {home : Bytes} {homeCanon c : Canonical}
    {key : Text} {entries : List Bytes} {canonical : List Canonical}
    (hok : canonicalizeAllowlist host home homeCanon key entries = .ok canonical)
    (hmem : c ∈ canonical) : ∃ entry ∈ entries, LeadsTo host (expandHostTilde entry home) c := by
  induction entries generalizing canonical with
  | nil =>
    cases hok
    cases hmem
  | cons entry entries ih =>
    unfold canonicalizeAllowlist at hok
    dsimp only at hok
    split at hok
    · simp only [bind_eq_ok, withContext_eq_ok] at hok
      obtain ⟨first, hfirst, rest, hrest, hpure⟩ := hok
      cases hpure
      rcases List.mem_cons.mp hmem with rfl | hmem
      · exact ⟨entry, List.mem_cons_self, leadsTo_of_inHome hfirst⟩
      · obtain ⟨other, hother, hleads⟩ := ih hrest hmem
        exact ⟨other, List.mem_cons_of_mem _ hother, hleads⟩
    · obtain ⟨other, hother, hleads⟩ := ih hok hmem
      exact ⟨other, List.mem_cons_of_mem _ hother, hleads⟩

theorem mem_under {fs : Files} {base dir : Canonical} {segment label : Text}
    (hdir : canonicalizeIn fs base segment = .ok dir) :
    Forbidden.subtree dir label ∈ Forbidden.under fs base segment label := by
  rw [Forbidden.under, hdir]
  exact List.mem_singleton_self _

/-- `~/.local/share` is reached through `~/.local`. -/
theorem mem_forbiddenLocal_share {fs : Files} {homeCanon dir : Canonical}
    (hdir : canonicalizeIn fs homeCanon ".local/share".toList = .ok dir) :
    Forbidden.exact dir "~/.local/share".toList ∈ forbiddenLocal fs homeCanon := by
  have hparts : pathParts (utf8 ".local/share".toList) =
      pathParts (utf8 ".local".toList) ++ pathParts (utf8 "share".toList) := by decide
  rw [canonicalizeIn, hparts, ← List.append_assoc] at hdir
  obtain ⟨localCanon, hlocal, hshare⟩ := resolveParts_append hdir
  unfold forbiddenLocal canonicalizeIn
  rw [hlocal]
  simp only [hshare]
  exact List.mem_append_left _ List.mem_cons_self

theorem mem_forbiddenLocal {fs : Files} {homeCanon dir : Canonical}
    (hdir : canonicalizeIn fs homeCanon ".local".toList = .ok dir) :
    Forbidden.exact dir "~/.local".toList ∈ forbiddenLocal fs homeCanon := by
  rw [forbiddenLocal, hdir]
  exact List.mem_append_right _ (List.mem_singleton_self _)

/-- Every protected directory is forbidden as a subtree. -/
theorem mem_forbiddenMounts {fs : Files} {homeCanon configCanon dir : Canonical}
    (hprotected : Protected fs homeCanon configCanon dir) :
    ∃ label, Forbidden.subtree dir label ∈ forbiddenMounts fs homeCanon configCanon := by
  simp only [forbiddenMounts, List.mem_append]
  rcases hprotected with h | h | h | h
  · exact ⟨_, Or.inl (Or.inl (Or.inl (Or.inr (mem_under h))))⟩
  · exact ⟨_, Or.inl (Or.inl (Or.inr (mem_under h)))⟩
  · exact ⟨_, Or.inl (Or.inr (mem_under h))⟩
  · exact ⟨_, Or.inr (mem_under h)⟩

/-- What validating one mount says of it. -/
theorem validateMount_bounded {host : Host} {home : Bytes} {homeCanon configCanon : Canonical}
    {allowedDirs allowedFiles : List Bytes} {canonDirs canonFiles : List Canonical}
    {request : Mount Bytes} {mount : Mount Canonical}
    (hdirs : canonicalizeAllowlist host home homeCanon "allowed_dirs".toList allowedDirs =
      .ok canonDirs)
    (hfiles : canonicalizeAllowlist host home homeCanon "allowed_files".toList allowedFiles =
      .ok canonFiles)
    (hok : validateMount host homeCanon (forbiddenMounts host.files homeCanon configCanon) canonDirs
      canonFiles request = .ok mount) :
    Resolves host request mount ∧
      Bounded host home homeCanon configCanon allowedDirs allowedFiles mount.source := by
  rw [validateMount] at hok
  obtain ⟨source, hsource, hpure⟩ := bind_eq_ok.mp hok
  cases hpure
  obtain ⟨hcanonical, hforbidden, hunder, hlisted⟩ := validateMountSource_ok.mp hsource
  have hexact : ∀ blocked label,
      Forbidden.exact blocked label ∈ forbiddenMounts host.files homeCanon configCanon →
      source ≠ blocked := fun blocked label hmem => hforbidden _ hmem
  have hlocal : ∀ entry ∈ forbiddenLocal host.files homeCanon,
      entry ∈ forbiddenMounts host.files homeCanon configCanon := by
    intro entry hmem
    simp [forbiddenMounts, hmem]
  refine ⟨⟨leadsTo_of_inHome hcanonical, rfl, rfl⟩, ?_⟩
  constructor
  · exact ⟨hunder, hexact homeCanon "$HOME".toList (by simp [forbiddenMounts])⟩
  · exact hexact configCanon "~/.config".toList (by simp [forbiddenMounts])
  · exact fun dir hdir => hexact dir _ (hlocal _ (mem_forbiddenLocal hdir))
  · exact fun dir hdir => hexact dir _ (hlocal _ (mem_forbiddenLocal_share hdir))
  · intro dir hprotected exposed hsource hexposed
    obtain ⟨label, hmem⟩ := mem_forbiddenMounts hprotected
    exact hforbidden _ hmem ⟨exposed, hsource, hexposed⟩
  · rcases hlisted with ⟨hkind, hmem⟩ | ⟨hkind, hmem⟩
    · exact Or.inl ⟨hkind, canonicalizeAllowlist_mem hdirs hmem⟩
    · exact Or.inr ⟨hkind, canonicalizeAllowlist_mem hfiles hmem⟩

/-- Each mount of a context is its request, validated. -/
theorem resolveContext_validated {host : Host} {args : Args} {cfg : Config} {cwd home : Bytes}
    {homeCanon : Canonical} {configDir : Bytes} {allowedDirs allowedFiles : List Bytes}
    {uuid : Uuid} {ctx : RunContext}
    (hok : resolveContext host args cfg cwd home homeCanon configDir allowedDirs allowedFiles uuid =
      .ok ctx) :
    ∃ configCanon, canonicalize host.files host.workingDir configDir = .ok configCanon ∧
      List.Forall₂ (fun request mount => Resolves host request mount ∧
          Bounded host home homeCanon configCanon allowedDirs allowedFiles mount.source)
        (requestedMounts args cfg cwd home) ctx.mounts := by
  rw [resolveContext] at hok
  simp only [bind_eq_ok, withContext_eq_ok, ofIo_eq_ok, mapM_eq_ok] at hok
  obtain ⟨_, _, canonDirs, hdirs, canonFiles, hfiles, configCanon, hconfig, mounts, hmounts, _, _,
    _, _, _, _, hpure⟩ := hok
  cases hpure
  exact ⟨configCanon, hconfig,
    hmounts.imp fun request mount hmount => validateMount_bounded hdirs hfiles hmount⟩

/-- The mounts of a context are those that were asked for, in their order, and each one
keeps to the boundary. -/
theorem resolveContext_bounded {host : Host} {args : Args} {cfg : Config} {cwd home : Bytes}
    {homeCanon : Canonical} {configDir : Bytes} {allowedDirs allowedFiles : List Bytes}
    {uuid : Uuid} {ctx : RunContext}
    (hok : resolveContext host args cfg cwd home homeCanon configDir allowedDirs allowedFiles uuid =
      .ok ctx) :
    List.Forall₂ (Resolves host) (requestedMounts args cfg cwd home) ctx.mounts ∧
      ∃ configCanon, canonicalize host.files host.workingDir configDir = .ok configCanon ∧
        ∀ mount ∈ ctx.mounts,
          Bounded host home homeCanon configCanon allowedDirs allowedFiles mount.source := by
  obtain ⟨configCanon, hconfig, hall⟩ := resolveContext_validated hok
  refine ⟨hall.imp fun _ _ h => h.1, configCanon, hconfig, ?_⟩
  intro mount hmem
  obtain ⟨request, _, h⟩ := forall₂_mem_right hall hmem
  exact h.2

/-! ## A home with a project -/

def noOptions : Args where
  image := none
  name := none
  keepInstance := false
  vm := false
  cliMounts := []
  cpu := none
  memory := none
  disk := none
  processes := none
  user := none
  root := false
  containerUid := none
  containerGid := none
  cliEnv := []
  cliPassEnv := []
  projectTarget := none
  profile := none
  noProfile := false
  worktree := none
  mountProject := false
  noMountProject := false
  projectReadwrite := false
  noProjectReadwrite := false

/-- The user's own machine: everything is owned by the user and closed to others. -/
def userHost (files : Files) (contents : List (Canonical × Text)) : Host where
  files := files
  workingDir := userHome ++ [name "work"]
  env key := if key = "HOME".toList then some "/home/u".toList else none
  uid := 1000
  gid := 1000
  owner _ := 1000
  mode _ := 0o600
  read location := match contents.lookup location with
    | some text => .ok text
    | none => .error "Is a directory (os error 21)".toList

def workFiles : Files := .ofEntries
  [([name "home"], .dir), (userHome, .dir), (userHome ++ [name ".config"], .dir),
    (userHome ++ [name ".config", name "celily"], .dir),
    (userHome ++ [name ".config", name "celily", name "config.toml"], .file),
    (userHome ++ [name "work"], .dir), (userHome ++ [name "work", name ".git"], .dir)]
  (by decide +kernel)

/-- `~/work` may be mounted. -/
def workConfig (mounts : List (Mount Bytes)) : Config :=
  { Config.default with
    mounts := mounts
    allowedDirs := [name "~/work"] }

def workMount (access : AccessMode) : Mount Bytes := ⟨name "~/work", name "/mnt", access⟩

def resolveWork (args : Args) (mounts : List (Mount Bytes)) : Anyhow RunContext :=
  resolveContext (userHost workFiles []) args (workConfig mounts) (name "/home/u/work")
    (name "/home/u") userHome (name "/home/u/.config") [name "~/work"] [] 0

theorem resolveContext_bounded_work :
    ∃ ctx, resolveWork noOptions [workMount .readWrite] = .ok ctx ∧
      ctx.mounts = [⟨userHome ++ [name "work"], name "/mnt", .readWrite⟩] ∧
      ∃ configCanon,
        canonicalize workFiles (userHome ++ [name "work"]) (name "/home/u/.config") =
          .ok configCanon ∧
        ∀ mount ∈ ctx.mounts, Bounded (userHost workFiles []) (name "/home/u") userHome configCanon
          [name "~/work"] [] mount.source := by
  have hmounts : (resolveWork noOptions [workMount .readWrite]).toOption.map RunContext.mounts =
      some [⟨userHome ++ [name "work"], name "/mnt", .readWrite⟩] := by decide +kernel
  obtain ⟨ctx, hok, hctx⟩ := of_toOption_map hmounts
  exact ⟨ctx, hok, hctx, (resolveContext_bounded hok).2⟩

end MountBoundary
