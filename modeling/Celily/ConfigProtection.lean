import Celily.MountBoundary

/-!
# Which configuration files a sandbox can reach

The directory of the configuration is never mounted, but its files may be symlinks. What
is read through one is elsewhere, where a read-write mount can cover it.
-/

namespace ConfigProtection

open RustText HostPaths PathResolution HostFiles HomeSymlinks MountValidation Devices LoggedSteps
open ConfigRules Configuration ContextResolution InstanceNames MountBoundary

/-- The paths of the files that make up a configuration. -/
inductive ConfigFile (host : Host) : Bytes → Prop where
  | config : ConfigFile host (configPath host)
  | profiles : ConfigFile host (profilesTomlPath host)
  | profile (name : Text) : ConfigFile host (profilePath host name)

/-- A configuration file, read where its path leads to. -/
def ReadFrom (host : Host) (file : Opened) : Prop :=
  ConfigFile host file.path ∧
    canonicalize host.files host.workingDir file.path = .ok file.location

theorem resolve_eq_ok {host : Host} {path : Bytes} {location : Canonical}
    (hok : resolve host path = .ok location) :
    canonicalize host.files host.workingDir path = .ok location := by
  unfold resolve at hok
  cases hresolve : canonicalize host.files host.workingDir path with
  | error trouble =>
    rw [hresolve] at hok
    cases hok
  | ok found =>
    rw [hresolve] at hok
    exact congrArg _ (Except.ok.inj hok)

section Logs
variable {host : Host} {toml : Toml}

theorem readToString_logs {path : Bytes} (hpath : ConfigFile host path) :
    Logs (ReadFrom host) (readToString host path) := by
  rw [readToString]
  refine logs_lift_bind fun location hlocation => ?_
  refine logs_bind (logs_tell ⟨hpath, resolve_eq_ok hlocation⟩) fun _ => ?_
  exact logs_lift _

theorem loadParsed_logs {α : Type} {parse : Text → Except Text α} {path : Bytes}
    (hpath : ConfigFile host path) : Logs (ReadFrom host) (loadParsed host parse path) := by
  rw [loadParsed]
  refine logs_bind (logs_lift _) fun _ => ?_
  exact logs_bind (readToString_logs hpath) fun content => logs_lift _

theorem loadProfilesToml_logs : Logs (ReadFrom host) (loadProfilesToml host toml) := by
  rw [loadProfilesToml]
  split
  · exact loadParsed_logs .profiles
  · exact logs_pure _

theorem loadDefault_logs : Logs (ReadFrom host) (loadDefault host toml) := by
  rw [loadDefault]
  refine logs_bind (logs_lift _) fun _ => ?_
  dsimp only
  split
  · exact logs_throw _
  · refine logs_bind (loadParsed_logs .config) fun cfg => ?_
    split
    · exact logs_throw _
    · exact logs_pure _

theorem mergeProfiles_logs (merged : Config) (names : List Text) :
    Logs (ReadFrom host) (mergeProfiles host toml merged names) := by
  induction names generalizing merged with
  | nil => exact logs_pure _
  | cons name names ih =>
    rw [mergeProfiles]
    dsimp only
    split
    · exact logs_throw _
    · exact logs_bind (loadParsed_logs (.profile name)) fun cfg => ih (merged.merge cfg)

theorem mergeWithProfile_logs (default : Config) (profile : Text) (inherit : List (Text × Text)) :
    Logs (ReadFrom host) (mergeWithProfile host toml default profile inherit) := by
  rw [mergeWithProfile]
  split
  · exact logs_throw _
  · exact logs_bind (logs_lift _) fun chain => mergeProfiles_logs default chain.reverse

/-- Only configuration files are read while the configuration is loaded. -/
theorem loadConfig_logs (args : Args) (cwd : Bytes) :
    Logs (ReadFrom host) (loadConfig host toml args cwd) := by
  rw [loadConfig]
  split
  · rename_i profile _
    refine logs_bind loadDefault_logs fun default => ?_
    exact logs_bind loadProfilesToml_logs fun mapping =>
      mergeWithProfile_logs default profile mapping.inherit
  · split
    · exact loadDefault_logs
    · refine logs_bind loadDefault_logs fun default => ?_
      refine logs_bind (logs_lift _) fun cwdCanon => ?_
      refine logs_bind loadProfilesToml_logs fun mapping => ?_
      refine logs_bind (logs_lift _) fun home => ?_
      split
      · exact mergeWithProfile_logs default _ mapping.inherit
      · exact logs_pure _

end Logs

/-- Not in the directory of the configuration, as the validation of mounts sees it. -/
def OutsideCelily (host : Host) (location : Canonical) : Prop :=
  ∀ configCanon dir, canonicalize host.files host.workingDir (configDir host) = .ok configCanon →
    canonicalizeIn host.files configCanon "celily".toList = .ok dir → ¬dir <+: location

/-- No read-write mount of the context is one of the files or has it below its source. -/
def OutOfReach (ctx : RunContext) (files : List Opened) : Prop :=
  ∀ mount ∈ ctx.mounts, mount.access = .readWrite →
    ∀ file ∈ files, ¬mount.source <+: file.location

/-- No read-write mount that is asked for reaches a file outside the directory. -/
def NoRequestReaches (host : Host) (requests : List (Mount Bytes)) (files : List Opened) : Prop :=
  ∀ request ∈ requests, request.access = .readWrite →
    ∀ source, LeadsTo host request.source source →
      ∀ file ∈ files, OutsideCelily host file.location → ¬source <+: file.location

/-- The files read for a configuration are out of the sandbox's reach exactly when no
read-write mount that is asked for reaches one that was read through a symlink to
somewhere else. -/
theorem outOfReach_iff {host : Host} {toml : Toml} {args : Args} {cfg : Config} {cwd home : Bytes}
    {homeCanon : Canonical} {allowedDirs allowedFiles : List Bytes} {uuid : Uuid}
    {ctx : RunContext} {opened : List Opened}
    (hload : (loadConfig host toml args cwd).runFrom [] = (.ok cfg, opened))
    (hok : resolveContext host args cfg cwd home homeCanon (configDir host) allowedDirs allowedFiles
      uuid = .ok ctx) :
    (∀ file ∈ opened, ReadFrom host file) ∧
      (OutOfReach ctx opened ↔
        NoRequestReaches host (requestedMounts args cfg cwd home) opened) := by
  obtain ⟨configCanon, hconfig, hall⟩ := resolveContext_validated hok
  refine ⟨?_, ?_⟩
  · obtain ⟨added, rfl, hadded⟩ := loadConfig_logs args cwd [] _ _ hload
    exact hadded
  -- A mount that reached into the directory would have been refused.
  have hinside : ∀ mount ∈ ctx.mounts, ∀ location,
      mount.source <+: location → OutsideCelily host location := by
    intro mount hmem location hreach configCanon' dir hconfig' hdir hunder
    obtain rfl := Except.ok.inj (hconfig.symm.trans hconfig')
    obtain ⟨request, _, _, hbounded⟩ := forall₂_mem_right hall hmem
    exact hbounded.spares dir (Or.inl hdir) location hreach hunder
  have hmounts : OutOfReach ctx opened ↔ ∀ mount ∈ ctx.mounts, mount.access = .readWrite →
      ∀ file ∈ opened, OutsideCelily host file.location → ¬mount.source <+: file.location := by
    constructor
    · intro hclaim mount hmem haccess file hfile _
      exact hclaim mount hmem haccess file hfile
    · intro hnone mount hmem haccess file hfile hreach
      exact hnone mount hmem haccess file hfile (hinside mount hmem _ hreach) hreach
  rw [hmounts]
  exact readWrite_sources_iff (P := fun source =>
    ∀ file ∈ opened, OutsideCelily host file.location → ¬source <+: file.location)
      (hall.imp fun _ _ h => h.1)

/-! ## Dotfiles -/

/-- `~/.config/celily/config.toml` is a symlink into `~/dotfiles`. -/
def dotFiles : Files := .ofEntries
  [([name "home"], .dir), (userHome, .dir), (userHome ++ [name ".config"], .dir),
    (userHome ++ [name ".config", name "celily"], .dir),
    (userHome ++ [name ".config", name "celily", name "config.toml"],
      .symlink [.root, .name (name "home"), .name (name "u"), .name (name "dotfiles"),
        .name (name "celily.toml")]),
    (userHome ++ [name "dotfiles"], .dir),
    (userHome ++ [name "dotfiles", name "celily.toml"], .file),
    (userHome ++ [name "work"], .dir)]
  (by decide +kernel)

/-- The text of a configuration that mounts one directory read-write. -/
def mountText (dir : String) : Text :=
  ("distro = \"arch\"\nallowed_dirs = [\"" ++ dir ++ "\"]\n[[mounts]]\nsource = \"" ++ dir ++
    "\"\ntarget = \"/mnt\"\naccess = \"readwrite\"\n").toList

def mountConfig (dir : String) : Config :=
  { Config.default with
    distro := some .arch
    mounts := [⟨name dir, name "/mnt", .readWrite⟩]
    allowedDirs := [name dir] }

/-- What parsing does on that text; it is not asked about any other. -/
def mountToml (dir : String) : Toml where
  config text := if text = mountText dir then .ok (mountConfig dir) else .error []
  profiles _ := .error []

def dotHost (dir : String) : Host :=
  userHost dotFiles [(userHome ++ [name "dotfiles", name "celily.toml"], mountText dir)]

def defaultOptions : Args := { noOptions with noProfile := true }

def dotLoad (dir : String) : Except ConfigError Config × List Opened :=
  (loadConfig (dotHost dir) (mountToml dir) defaultOptions (name "/home/u/work")).runFrom []

def dotRequests (cfg : Config) : List (Mount Bytes) :=
  requestedMounts defaultOptions cfg (name "/home/u/work") (name "/home/u")

def dotContext (dir : String) (cfg : Config) : Anyhow RunContext :=
  resolveContext (dotHost dir) defaultOptions cfg (name "/home/u/work") (name "/home/u") userHome
    (configDir (dotHost dir)) cfg.allowedDirs cfg.allowedFiles 0

def dotOpened : Opened :=
  ⟨name "/home/u/.config/celily/config.toml", userHome ++ [name "dotfiles", name "celily.toml"]⟩

/-- The directory that the configuration is read from is mounted read-write. -/
theorem outOfReach_dotfiles :
    ∃ cfg ctx, dotLoad "~/dotfiles" = (.ok cfg, [dotOpened]) ∧
      dotContext "~/dotfiles" cfg = .ok ctx ∧ ¬OutOfReach ctx [dotOpened] := by
  have hresult : (dotLoad "~/dotfiles").1.toOption.map (fun cfg =>
      (dotContext "~/dotfiles" cfg).toOption.map RunContext.mounts) =
        some (some [⟨userHome ++ [name "dotfiles"], name "/mnt", .readWrite⟩]) := by
    decide +kernel
  have hopened : (dotLoad "~/dotfiles").2 = [dotOpened] := by decide +kernel
  obtain ⟨cfg, hcfg, hcontext⟩ := of_toOption_map hresult
  obtain ⟨ctx, hok, hmounts⟩ := of_toOption_map hcontext
  refine ⟨cfg, ctx, Prod.ext hcfg hopened, hok, fun hclaim => ?_⟩
  refine hclaim ⟨userHome ++ [name "dotfiles"], name "/mnt", .readWrite⟩ (by simp [hmounts]) rfl
    dotOpened (List.mem_singleton_self _) ?_
  exact ⟨[name "celily.toml"], by simp [dotOpened]⟩

/-- Another directory may be. -/
theorem outOfReach_work :
    ∃ cfg ctx, dotLoad "~/work" = (.ok cfg, [dotOpened]) ∧ dotContext "~/work" cfg = .ok ctx ∧
      OutOfReach ctx [dotOpened] := by
  have hresult : (dotLoad "~/work").1.toOption.map (fun cfg =>
      (dotRequests cfg, (dotContext "~/work" cfg).toOption.map RunContext.mounts)) =
        some ([⟨name "/home/u/work", name "/mnt", .readWrite⟩],
          some [⟨userHome ++ [name "work"], name "/mnt", .readWrite⟩]) := by
    decide +kernel
  have hopened : (dotLoad "~/work").2 = [dotOpened] := by decide +kernel
  obtain ⟨cfg, hcfg, hboth⟩ := of_toOption_map hresult
  obtain ⟨hrequests, hcontext⟩ := Prod.mk.inj hboth
  obtain ⟨ctx, hok, _⟩ := of_toOption_map hcontext
  have hload : dotLoad "~/work" = (.ok cfg, [dotOpened]) := Prod.ext hcfg hopened
  refine ⟨cfg, ctx, hload, hok, (outOfReach_iff hload hok).2.mpr ?_⟩
  intro request hrequest _ source hleads file hfile _ hreach
  change request ∈ dotRequests cfg at hrequest
  rw [hrequests] at hrequest
  obtain rfl := List.mem_singleton.mp hrequest
  obtain rfl := List.mem_singleton.mp hfile
  have hwork : LeadsTo (dotHost "~/work") (name "/home/u/work") (userHome ++ [name "work"]) :=
    ⟨⟨[.root, .name (name "home"), .name (name "u"), .name (name "work")], false⟩,
      by decide +kernel, by decide +kernel⟩
  obtain rfl := hwork.unique hleads
  exact absurd hreach (by decide +kernel)

end ConfigProtection
