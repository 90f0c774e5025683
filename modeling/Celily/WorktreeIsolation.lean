import Celily.MountBoundary

/-!
# The host repository in worktree mode

The mount of the project is read-only in worktree mode. A mount of the configuration or
of the command line is as it was asked for, so that a read-write one may hold the
project's `.git`, be it, or lie in it.
-/

namespace WorktreeIsolation

open RustText HostPaths PathResolution HostFiles HomeSymlinks MountValidation Devices
open Configuration ContextResolution InstanceNames MountBoundary

/-- The `.git` of the project in the directory `cwd`. -/
def IsGitDir (host : Host) (cwd : Bytes) (dir : Canonical) : Prop :=
  ∃ project, LeadsTo host cwd project ∧
    canonicalizeIn host.files project ".git".toList = .ok dir

/-- Equal to, above or below. -/
def Overlaps (source dir : Canonical) : Prop := source <+: dir ∨ dir <+: source

/-- No read-write mount of the context overlaps the project's `.git`. -/
def GitReadOnly (host : Host) (cwd : Bytes) (ctx : RunContext) : Prop :=
  ∀ mount ∈ ctx.mounts, mount.access = .readWrite →
    ∀ dir, IsGitDir host cwd dir → ¬Overlaps mount.source dir

/-- No `[[mounts]]` entry and no `--mount` option asks for such a mount. -/
def NoWritableRequest (host : Host) (args : Args) (cfg : Config) (cwd home : Bytes) : Prop :=
  ∀ request ∈ cfg.mounts ++ args.cliMounts, request.access = .readWrite →
    ∀ source, LeadsTo host (expandHostTilde request.source home) source →
      ∀ dir, IsGitDir host cwd dir → ¬Overlaps source dir

/-- The project is mounted, and mounted read-only. -/
theorem requestedMounts_worktree {args : Args} {cfg : Config} {cwd home : Bytes}
    (hworktree : args.worktree.isSome = true) :
    requestedMounts args cfg cwd home =
      ⟨cwd, projectTarget args cfg, .readOnly⟩ ::
        (cfg.mounts ++ args.cliMounts).map (expandMount home (containerHome args cfg)) := by
  have hmount : mountProject args cfg = true := by simp [mountProject, hworktree]
  have haccess : projectReadwrite args cfg = false := by simp [projectReadwrite, hworktree]
  rw [requestedMounts, projectMount, hmount, haccess, List.map_append]
  simp

/-- In worktree mode nothing that overlaps the project's `.git` is mounted read-write
exactly when nothing that does is asked for. -/
theorem gitReadOnly_iff {host : Host} {args : Args} {cfg : Config} {cwd home : Bytes}
    {homeCanon : Canonical} {configDir : Bytes} {allowedDirs allowedFiles : List Bytes}
    {uuid : Uuid} {ctx : RunContext} (hworktree : args.worktree.isSome = true)
    (hok : resolveContext host args cfg cwd home homeCanon configDir allowedDirs allowedFiles uuid =
      .ok ctx) :
    GitReadOnly host cwd ctx ↔ NoWritableRequest host args cfg cwd home := by
  obtain ⟨_, _, hall⟩ := resolveContext_validated hok
  have hrequests : GitReadOnly host cwd ctx ↔ ∀ request ∈ requestedMounts args cfg cwd home,
      request.access = .readWrite → ∀ source, LeadsTo host request.source source →
        ∀ dir, IsGitDir host cwd dir → ¬Overlaps source dir :=
    readWrite_sources_iff (P := fun source =>
      ∀ dir, IsGitDir host cwd dir → ¬Overlaps source dir) (hall.imp fun _ _ h => h.1)
  rw [hrequests, requestedMounts_worktree hworktree]
  constructor
  · intro hnone entry hentry
    exact hnone _ (List.mem_cons_of_mem _ (List.mem_map_of_mem hentry))
  · intro hnone request hmem haccess
    rcases List.mem_cons.mp hmem with rfl | hmem
    · cases haccess
    · obtain ⟨entry, hentry, rfl⟩ := List.mem_map.mp hmem
      exact hnone entry hentry haccess

/-! ## A project that the configuration mounts -/

def worktreeOptions : Args := { noOptions with worktree := some "fix".toList }

theorem workFiles_git :
    IsGitDir (userHost workFiles []) (name "/home/u/work")
      (userHome ++ [name "work", name ".git"]) :=
  ⟨userHome ++ [name "work"],
    ⟨⟨[.root, .name (name "home"), .name (name "u"), .name (name "work")], false⟩,
      by decide +kernel, by decide +kernel⟩,
    by decide +kernel⟩

/-- `~/work` is mounted read-write by the configuration, with its `.git`. -/
theorem gitReadOnly_work_mounted :
    ∃ ctx, resolveWork worktreeOptions [workMount .readWrite] = .ok ctx ∧
      ¬GitReadOnly (userHost workFiles []) (name "/home/u/work") ctx := by
  have hmounts : (resolveWork worktreeOptions [workMount .readWrite]).toOption.map
      RunContext.mounts =
        some [⟨userHome ++ [name "work"], name "/home/dev/project", .readOnly⟩,
          ⟨userHome ++ [name "work"], name "/mnt", .readWrite⟩] := by decide +kernel
  obtain ⟨ctx, hok, hctx⟩ := of_toOption_map hmounts
  refine ⟨ctx, hok, fun hclaim => ?_⟩
  refine hclaim ⟨userHome ++ [name "work"], name "/mnt", .readWrite⟩ (by simp [hctx]) rfl _
    workFiles_git (Or.inl ?_)
  exact ⟨[name ".git"], by simp⟩

/-- A directory of the project beside its `.git`. -/
def builtFiles : Files := .ofEntries
  [([name "home"], .dir), (userHome, .dir), (userHome ++ [name ".config"], .dir),
    (userHome ++ [name "work"], .dir), (userHome ++ [name "work", name ".git"], .dir),
    (userHome ++ [name "work", name "build"], .dir)]
  (by decide +kernel)

def buildMount : Mount Bytes := ⟨name "~/work/build", name "/mnt", .readWrite⟩

def buildConfig : Config :=
  { workConfig [buildMount] with allowedDirs := [name "~/work", name "~/work/build"] }

def resolveBuild : Anyhow RunContext :=
  resolveContext (userHost builtFiles []) worktreeOptions buildConfig (name "/home/u/work")
    (name "/home/u") userHome (name "/home/u/.config") [name "~/work", name "~/work/build"] [] 0

/-- `~/work/build` is mounted read-write, and the `.git` of the project is not. -/
theorem gitReadOnly_built :
    ∃ ctx, resolveBuild = .ok ctx ∧
      ⟨userHome ++ [name "work", name "build"], name "/mnt", .readWrite⟩ ∈ ctx.mounts ∧
      GitReadOnly (userHost builtFiles []) (name "/home/u/work") ctx := by
  have hmounts : resolveBuild.toOption.map RunContext.mounts =
        some [⟨userHome ++ [name "work"], name "/home/dev/project", .readOnly⟩,
          ⟨userHome ++ [name "work", name "build"], name "/mnt", .readWrite⟩] := by
    decide +kernel
  obtain ⟨ctx, hok, hctx⟩ := of_toOption_map hmounts
  refine ⟨ctx, hok, by simp [hctx], (gitReadOnly_iff rfl hok).mpr ?_⟩
  intro request hmem _ source hsource dir hdir
  obtain rfl : request = buildMount := List.mem_singleton.mp hmem
  have hbuild : LeadsTo (userHost builtFiles []) (expandHostTilde (name "~/work/build")
      (name "/home/u")) (userHome ++ [name "work", name "build"]) :=
    ⟨⟨[.root, .name (name "home"), .name (name "u"), .name (name "work"),
      .name (name "build")], false⟩, by decide +kernel, by decide +kernel⟩
  have hwork : LeadsTo (userHost builtFiles []) (name "/home/u/work")
      (userHome ++ [name "work"]) :=
    ⟨⟨[.root, .name (name "home"), .name (name "u"), .name (name "work")], false⟩,
      by decide +kernel, by decide +kernel⟩
  have hgit : canonicalizeIn builtFiles (userHome ++ [name "work"]) ".git".toList =
      .ok (userHome ++ [name "work", name ".git"]) := by
    decide +kernel
  obtain ⟨project, hproject, hcanonical⟩ := hdir
  obtain rfl := hsource.unique hbuild
  obtain rfl := hproject.unique hwork
  obtain rfl := Except.ok.inj (hgit.symm.trans hcanonical)
  rintro (habove | hbelow)
  · exact absurd habove (by decide +kernel)
  · exact absurd hbelow (by decide +kernel)

end WorktreeIsolation
