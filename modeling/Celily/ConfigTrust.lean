import Celily.ConfigProtection
import Celily.ProfileDetection

/-!
# Whose configuration is loaded

Whichever way the configuration is loaded, what it is made of belongs to the user alone:
the two directories that exist are checked before anything is read, and every file where
it really is. A configuration that is loaded names a distribution, which no profile
takes back.
-/

namespace ConfigTrust

open RustText HostPaths HostFiles PathResolution LoggedSteps ConfigRules Configuration
  ContextResolution HomeSymlinks ConfigProtection ProfileDetection

variable {host : Host} {toml : Toml}

/-- Owned by the user, and nobody else may do anything with it. -/
def Private (host : Host) (location : Canonical) : Prop :=
  host.owner location = host.uid ∧ host.mode location &&& 0o0077 = 0

/-- Where the directories of the configuration lead, if they exist. -/
def PrivateDirs (host : Host) : Prop :=
  ∀ dir, dir = celilyDir host ∨ dir = profilesDir host → ∀ location,
    canonicalize host.files host.workingDir dir = .ok location → Private host location

/-- Read from a private file, in private directories. -/
def Trusted (host : Host) (file : Opened) : Prop :=
  Private host file.location ∧ PrivateDirs host

theorem resolve_of_canonicalize {path : Bytes} {location : Canonical}
    (hpath : canonicalize host.files host.workingDir path = .ok location) :
    resolve host path = .ok location := by
  rw [resolve, hpath]
  rfl

theorem private_of_validate {path : Bytes} {location : Canonical}
    (hpath : resolve host path = .ok location)
    (hvalid : validateNodePermissions host path = .ok ()) : Private host location := by
  unfold validateNodePermissions at hvalid
  rw [hpath] at hvalid
  change (if host.owner location ≠ host.uid then _ else
    if host.mode location &&& 0o0077 ≠ 0 then _ else _) = _ at hvalid
  split at hvalid
  · cases hvalid
  · rename_i howner
    split at hvalid
    · cases hvalid
    · rename_i hmode
      exact ⟨not_not.mp howner, not_not.mp hmode⟩

theorem fileExists_of_canonicalize {path : Bytes} {location : Canonical}
    (hpath : canonicalize host.files host.workingDir path = .ok location) :
    fileExists host path = true := by
  rw [fileExists, pathExists, hpath]
  rfl

/-- A check of what is only checked if it exists. -/
theorem validate_of_seq {path : Bytes} {next : Except ConfigError Unit}
    (hok : (do
      if fileExists host path then validateNodePermissions host path
      next) = .ok ()) :
    (fileExists host path = true → validateNodePermissions host path = .ok ()) ∧
      next = .ok () := by
  cases hexists : fileExists host path with
  | false =>
    rw [hexists] at hok
    exact ⟨nofun, hok⟩
  | true =>
    rw [hexists] at hok
    cases hvalid : validateNodePermissions host path with
    | error e =>
      rw [hvalid] at hok
      cases hok
    | ok u =>
      rw [hvalid] at hok
      exact ⟨fun _ => rfl, hok⟩

theorem privateDirs_of_validate (hvalid : validateConfigDirs host = .ok ()) :
    PrivateDirs host := by
  obtain ⟨hcelily, hrest⟩ := validate_of_seq hvalid
  have hprofiles : fileExists host (profilesDir host) = true →
      validateNodePermissions host (profilesDir host) = .ok () := by
    intro hexists
    rw [hexists] at hrest
    exact hrest
  rintro dir (rfl | rfl) location hdir
  · exact private_of_validate (resolve_of_canonicalize hdir)
      (hcelily (fileExists_of_canonicalize hdir))
  · exact private_of_validate (resolve_of_canonicalize hdir)
      (hprofiles (fileExists_of_canonicalize hdir))

theorem loadParsed_private {α : Type} (parse : Text → Except Text α) (path : Bytes) :
    Logs (fun file => Private host file.location) (loadParsed host parse path) := by
  rw [loadParsed]
  refine logs_lift_bind fun _ hvalid => logs_bind ?_ fun content => logs_lift _
  rw [readToString]
  refine logs_lift_bind fun location hlocation => logs_bind (logs_tell ?_) fun _ => logs_lift _
  exact private_of_validate hlocation hvalid

/-! ## The default configuration -/

/-- Nothing is read before the directories are checked. -/
theorem loadDefault_trusted : Logs (Trusted host) (loadDefault host toml) := by
  rw [loadDefault]
  refine logs_lift_bind fun _ hdirs => ?_
  have htrusted : ∀ file : Opened, Private host file.location → Trusted host file :=
    fun file hfile => ⟨hfile, privateDirs_of_validate hdirs⟩
  dsimp only
  split
  · exact logs_throw _
  · refine logs_bind ((loadParsed_private _ _).mono htrusted) fun cfg => ?_
    split
    · exact logs_throw _
    · exact logs_pure _

theorem loadDefault_ok {cfg : Config} {log log' : List Opened}
    (hrun : (loadDefault host toml).runFrom log = (.ok cfg, log')) :
    PrivateDirs host ∧ cfg.distro.isSome = true := by
  rw [loadDefault] at hrun
  rcases runFrom_bind_cases hrun with ⟨_, _, hcheck, hrun⟩ | ⟨_, _, herror⟩
  case inr => cases herror
  rw [runFrom_lift] at hcheck
  refine ⟨privateDirs_of_validate (Prod.mk.inj hcheck).1, ?_⟩
  dsimp only at hrun
  split at hrun
  · cases hrun
  rcases runFrom_bind_cases hrun with ⟨found, _, _, hrun⟩ | ⟨_, _, herror⟩
  case inr => cases herror
  split at hrun
  · cases hrun
  · rename_i hdistro
    rw [runFrom_pure] at hrun
    obtain rfl := Except.ok.inj (Prod.mk.inj hrun).1
    rw [Option.isNone_eq_false_iff.mp (Bool.not_eq_true _ ▸ hdistro)]

/-! ## Profiles -/

theorem loadProfilesToml_private :
    Logs (fun file => Private host file.location) (loadProfilesToml host toml) := by
  rw [loadProfilesToml]
  split
  · exact loadParsed_private _ _
  · exact logs_pure _

theorem mergeProfiles_private (merged : Config) (names : List Text) :
    Logs (fun file => Private host file.location) (mergeProfiles host toml merged names) := by
  induction names generalizing merged with
  | nil => exact logs_pure _
  | cons name names ih =>
    rw [mergeProfiles]
    dsimp only
    split
    · exact logs_throw _
    · exact logs_bind (loadParsed_private _ _) fun cfg => ih (merged.merge cfg)

theorem mergeWithProfile_private (default : Config) (profile : Text)
    (inherit : List (Text × Text)) :
    Logs (fun file => Private host file.location)
      (mergeWithProfile host toml default profile inherit) := by
  rw [mergeWithProfile]
  split
  · exact logs_throw _
  · exact logs_bind (logs_lift _) fun chain => mergeProfiles_private default chain.reverse

theorem distro_merge {merged : Config} (hdistro : merged.distro.isSome = true) (cfg : Config) :
    (merged.merge cfg).distro.isSome = true := by
  change (overwriteSome merged.distro cfg.distro).isSome = true
  rw [overwriteSome]
  split
  · assumption
  · exact hdistro

theorem mergeProfiles_distro {merged cfg : Config} {names : List Text} {log log' : List Opened}
    (hdistro : merged.distro.isSome = true)
    (hrun : (mergeProfiles host toml merged names).runFrom log = (.ok cfg, log')) :
    cfg.distro.isSome = true := by
  induction names generalizing merged log with
  | nil =>
    rw [mergeProfiles, runFrom_pure] at hrun
    obtain rfl := Except.ok.inj (Prod.mk.inj hrun).1
    exact hdistro
  | cons name names ih =>
    rw [mergeProfiles] at hrun
    dsimp only at hrun
    split at hrun
    · cases hrun
    rcases runFrom_bind_cases hrun with ⟨found, _, _, hrest⟩ | ⟨_, _, herror⟩
    · exact ih (distro_merge hdistro found) hrest
    · cases herror

theorem mergeWithProfile_distro {default cfg : Config} {profile : Text}
    {inherit : List (Text × Text)} {log log' : List Opened}
    (hdistro : default.distro.isSome = true)
    (hrun : (mergeWithProfile host toml default profile inherit).runFrom log = (.ok cfg, log')) :
    cfg.distro.isSome = true := by
  rw [mergeWithProfile] at hrun
  split at hrun
  · cases hrun
  rcases runFrom_bind_cases hrun with ⟨chain, _, _, hrest⟩ | ⟨_, _, herror⟩
  · exact mergeProfiles_distro hdistro hrest
  · cases herror

/-! ## Every way of loading -/

theorem loadWithProfile_trusted (profile : Text) :
    Logs (Trusted host) (loadWithProfile host toml profile) := by
  rw [loadWithProfile]
  refine logs_bind_ok loadDefault_trusted fun default _ _ hdefault => ?_
  have htrusted : ∀ file : Opened, Private host file.location → Trusted host file :=
    fun file hfile => ⟨hfile, (loadDefault_ok hdefault).1⟩
  exact logs_bind (loadProfilesToml_private.mono htrusted) fun mapping =>
    (mergeWithProfile_private _ _ _).mono htrusted

theorem loadForDir_trusted (cwd : Bytes) : Logs (Trusted host) (loadForDir host toml cwd) := by
  rw [loadForDir_select]
  refine logs_bind_ok loadDefault_trusted fun default _ _ hdefault => ?_
  have htrusted : ∀ file : Opened, Private host file.location → Trusted host file :=
    fun file hfile => ⟨hfile, (loadDefault_ok hdefault).1⟩
  refine logs_bind (logs_lift _) fun cwdCanon => ?_
  refine logs_bind (loadProfilesToml_private.mono htrusted) fun mapping => ?_
  refine logs_bind (logs_lift _) fun home => ?_
  split
  · exact (mergeWithProfile_private _ _ _).mono htrusted
  · exact logs_pure _

theorem loadWithProfile_distro {profile : Text} {cfg : Config} {log log' : List Opened}
    (hrun : (loadWithProfile host toml profile).runFrom log = (.ok cfg, log')) :
    cfg.distro.isSome = true := by
  rw [loadWithProfile] at hrun
  rcases runFrom_bind_cases hrun with ⟨default, _, hdefault, hrun⟩ | ⟨_, _, herror⟩
  case inr => cases herror
  rcases runFrom_bind_cases hrun with ⟨mapping, _, _, hrun⟩ | ⟨_, _, herror⟩
  case inr => cases herror
  exact mergeWithProfile_distro (loadDefault_ok hdefault).2 hrun

theorem loadForDir_distro {cwd : Bytes} {cfg : Config} {log log' : List Opened}
    (hrun : (loadForDir host toml cwd).runFrom log = (.ok cfg, log')) :
    cfg.distro.isSome = true := by
  rw [loadForDir_select] at hrun
  rcases runFrom_bind_cases hrun with ⟨default, _, hdefault, hrun⟩ | ⟨_, _, herror⟩
  case inr => cases herror
  rcases runFrom_bind_cases hrun with ⟨cwdCanon, _, _, hrun⟩ | ⟨_, _, herror⟩
  case inr => cases herror
  rcases runFrom_bind_cases hrun with ⟨mapping, _, _, hrun⟩ | ⟨_, _, herror⟩
  case inr => cases herror
  rcases runFrom_bind_cases hrun with ⟨home, _, _, hrun⟩ | ⟨_, _, herror⟩
  case inr => cases herror
  split at hrun
  · exact mergeWithProfile_distro (loadDefault_ok hdefault).2 hrun
  · rw [runFrom_pure] at hrun
    obtain rfl := Except.ok.inj (Prod.mk.inj hrun).1
    exact (loadDefault_ok hdefault).2

theorem loadConfig_logs_trusted (args : Args) (cwd : Bytes) :
    Logs (Trusted host) (loadConfig host toml args cwd) := by
  rw [loadConfig]
  split
  · exact loadWithProfile_trusted _
  · split
    · exact loadDefault_trusted
    · exact loadForDir_trusted cwd

theorem loadConfig_distro {args : Args} {cwd : Bytes} {cfg : Config} {log log' : List Opened}
    (hload : (loadConfig host toml args cwd).runFrom log = (.ok cfg, log')) :
    cfg.distro.isSome = true := by
  rw [loadConfig] at hload
  split at hload
  · exact loadWithProfile_distro hload
  · split at hload
    · exact (loadDefault_ok hload).2
    · exact loadForDir_distro hload

/-- Every file that was read is private and so are the directories, also when loading
fails in the end; and a configuration that is loaded has a distribution. -/
theorem loadConfig_trusted {args : Args} {cwd : Bytes} {result : Except ConfigError Config}
    {opened : List Opened}
    (hload : (loadConfig host toml args cwd).runFrom [] = (result, opened)) :
    (∀ file ∈ opened, Trusted host file) ∧
      ∀ cfg, result = .ok cfg → cfg.distro.isSome = true := by
  constructor
  · obtain ⟨added, rfl, hadded⟩ := loadConfig_logs_trusted args cwd [] _ _ hload
    exact hadded
  · rintro cfg rfl
    exact loadConfig_distro hload

/-- A configuration that is a symlink to `~/dotfiles` is checked there. -/
theorem loadConfig_trusted_dotfiles :
    dotOpened ∈ (dotLoad "~/work").2 ∧ Trusted (dotHost "~/work") dotOpened := by
  have hopened : dotOpened ∈ (dotLoad "~/work").2 := by
    have hall : (dotLoad "~/work").2 = [dotOpened] := by decide +kernel
    rw [hall]
    exact List.mem_singleton_self _
  have hload : (loadConfig (dotHost "~/work") (mountToml "~/work") defaultOptions
      (name "/home/u/work")).runFrom [] = ((dotLoad "~/work").1, (dotLoad "~/work").2) := by
    rw [Prod.mk.eta, dotLoad]
  exact ⟨hopened, (loadConfig_trusted hload).1 dotOpened hopened⟩

end ConfigTrust
