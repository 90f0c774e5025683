import Celily.ConfigRules
import Celily.InstanceLifecycle
import Celily.LoggedSteps

/-!
# The configuration and its files

`config.toml` is loaded first; a profile, named or selected for the working directory,
is merged over it, behind the profiles it inherits from. Loading keeps a list of the
files whose contents it read, with where they really are: paths are followed through
symlinks, and owner and mode are checked where they lead to.
-/

namespace Configuration

open RustText HostPaths PathResolution HostFiles NetworkRules ConfigRules Devices LoggedSteps
open InstanceLifecycle (InstanceKind setEnv)

inductive BackendKind where
  | lxd
  | incus

inductive DistroKind where
  | arch

inductive Providers where
  | rbw

/-- `merge_strategy::overwrite_some`. -/
def overwriteSome {α : Type} (left right : Option α) : Option α :=
  if right.isSome then right else left

structure BackendConfig where
  kind : Option BackendKind
  project : Option Text
  pool : Option Text

def BackendConfig.merge (left right : BackendConfig) : BackendConfig where
  kind := overwriteSome left.kind right.kind
  project := overwriteSome left.project right.project
  pool := overwriteSome left.pool right.pool

structure Limits where
  cpu : Option UInt32
  memory : Option Text
  disk : Option Text
  processes : Option Int
  diskPriority : Option UInt32
  memoryEnforce : Option Text
  networkIngress : Option Text
  networkEgress : Option Text

def Limits.merge (left right : Limits) : Limits where
  cpu := overwriteSome left.cpu right.cpu
  memory := overwriteSome left.memory right.memory
  disk := overwriteSome left.disk right.disk
  processes := overwriteSome left.processes right.processes
  diskPriority := overwriteSome left.diskPriority right.diskPriority
  memoryEnforce := overwriteSome left.memoryEnforce right.memoryEnforce
  networkIngress := overwriteSome left.networkIngress right.networkIngress
  networkEgress := overwriteSome left.networkEgress right.networkEgress

structure NetworkConfig where
  allow : List ConfigNetworkRule

def NetworkConfig.merge (left right : NetworkConfig) : NetworkConfig where
  allow := left.allow ++ right.allow

structure WorktreeConfig where
  userName : Option Text
  userEmail : Option Text

def WorktreeConfig.merge (left right : WorktreeConfig) : WorktreeConfig where
  userName := overwriteSome left.userName right.userName
  userEmail := overwriteSome left.userEmail right.userEmail

structure ProxyDevice where
  connect : Text
  listen : Text
  mode : Text

structure Volume where
  name : Text
  target : Bytes
  access : AccessMode

structure Config where
  backend : BackendConfig
  image : Option Text
  kind : Option InstanceKind
  user : Option Text
  containerUid : Option UInt32
  containerGid : Option UInt32
  distro : Option DistroKind
  securityNesting : Option Bool
  secureBoot : Option Bool
  limits : Limits
  mounts : List (Mount Bytes)
  allowedDirs : List Bytes
  allowedFiles : List Bytes
  env : List (Text × Text)
  projectTarget : Option Text
  passEnv : List Text
  secretProvider : Option Providers
  network : NetworkConfig
  projectReadwrite : Option Bool
  worktree : WorktreeConfig
  mountProject : Option Bool
  preRun : List Text
  proxy : List ProxyDevice
  volumes : List Volume

/-- `Config::default`. -/
def Config.default : Config where
  backend := ⟨none, none, none⟩
  image := none
  kind := none
  user := none
  containerUid := none
  containerGid := none
  distro := none
  securityNesting := none
  secureBoot := none
  limits := ⟨none, none, none, none, none, none, none, none⟩
  mounts := []
  allowedDirs := []
  allowedFiles := []
  env := []
  projectTarget := none
  passEnv := []
  secretProvider := none
  network := ⟨[]⟩
  projectReadwrite := none
  worktree := ⟨none, none⟩
  mountProject := none
  preRun := []
  proxy := []
  volumes := []

def Config.merge (left right : Config) : Config where
  backend := left.backend.merge right.backend
  image := overwriteSome left.image right.image
  kind := overwriteSome left.kind right.kind
  user := overwriteSome left.user right.user
  containerUid := overwriteSome left.containerUid right.containerUid
  containerGid := overwriteSome left.containerGid right.containerGid
  distro := overwriteSome left.distro right.distro
  securityNesting := overwriteSome left.securityNesting right.securityNesting
  secureBoot := overwriteSome left.secureBoot right.secureBoot
  limits := left.limits.merge right.limits
  mounts := left.mounts ++ right.mounts
  allowedDirs := left.allowedDirs ++ right.allowedDirs
  allowedFiles := left.allowedFiles ++ right.allowedFiles
  env := right.env.foldl setEnv left.env
  projectTarget := overwriteSome left.projectTarget right.projectTarget
  passEnv := left.passEnv ++ right.passEnv
  secretProvider := overwriteSome left.secretProvider right.secretProvider
  network := left.network.merge right.network
  projectReadwrite := overwriteSome left.projectReadwrite right.projectReadwrite
  worktree := left.worktree.merge right.worktree
  mountProject := overwriteSome left.mountProject right.mountProject
  preRun := left.preRun ++ right.preRun
  proxy := left.proxy ++ right.proxy
  volumes := left.volumes ++ right.volumes

/-- Parsed representation of `profiles.toml`; maps are lists in one iteration order. -/
structure ProfilesToml where
  profiles : List (Text × Text)
  inherit : List (Text × Text)

/-- `toml::from_str` for the two kinds of files, with the message of its error. -/
structure Toml where
  config : Text → Except Text Config
  profiles : Text → Except Text ProfilesToml

/-! ## Reading files -/

/-- A file that was read: its path, and where it led. -/
structure Opened where
  path : Bytes
  location : Canonical
  deriving DecidableEq

/-- The files read so far go in, those read in the end come out, also on an error. -/
abbrev Loading (α : Type) := Logged ConfigError Opened α

/-- `Path::canonicalize`, or the error of what opens the path. -/
def resolve (host : Host) (path : Bytes) : Except ConfigError Canonical :=
  (canonicalize host.files host.workingDir path).mapError fun trouble =>
    .io path (ioMessage trouble)

/-- `read_to_string`. -/
def readToString (host : Host) (path : Bytes) : Loading Text := do
  let location ← resolve host path
  tell ⟨path, location⟩
  (host.read location).mapError (ConfigError.io path)

/-- Owned by the user and closed to everybody else. -/
def validateNodePermissions (host : Host) (path : Bytes) : Except ConfigError Unit := do
  let location ← resolve host path
  let uid := host.owner location
  let mode := host.mode location
  if uid ≠ host.uid then
    .error (.validation (display path ++ " is owned by uid ".toList ++ decimal uid.toNat ++
      " (expected ".toList ++ decimal host.uid.toNat ++ "); refusing to load".toList))
  else if mode &&& 0o0077 ≠ 0 then
    .error (.validation (display path ++ " has mode ".toList ++ Nat.toDigits 8 mode.toNat ++
      "; group/other permissions must not be set".toList))
  else .ok ()

/-- `$XDG_CONFIG_HOME` or `~/.config`. -/
def configDir (host : Host) : Bytes :=
  match host.env "XDG_CONFIG_HOME".toList with
  | some dir => utf8 dir
  | none =>
    match host.env "HOME".toList with
    | some home => join (utf8 home) (utf8 ".config".toList)
    | none => []

def celilyDir (host : Host) : Bytes := join (configDir host) (utf8 "celily".toList)

def configPath (host : Host) : Bytes := join (celilyDir host) (utf8 "config.toml".toList)

def profilesTomlPath (host : Host) : Bytes := join (celilyDir host) (utf8 "profiles.toml".toList)

def profilesDir (host : Host) : Bytes := join (celilyDir host) (utf8 "profiles".toList)

def profilePath (host : Host) (name : Text) : Bytes :=
  join (profilesDir host) (utf8 (name ++ ".toml".toList))

def fileExists (host : Host) (path : Bytes) : Bool :=
  pathExists host.files host.workingDir path

def validateConfigDirs (host : Host) : Except ConfigError Unit := do
  if fileExists host (celilyDir host) then validateNodePermissions host (celilyDir host)
  if fileExists host (profilesDir host) then validateNodePermissions host (profilesDir host)

/-- Check, read and parse one file. -/
def loadParsed {α : Type} (host : Host) (parse : Text → Except Text α) (path : Bytes) :
    Loading α := do
  validateNodePermissions host path
  let content ← readToString host path
  (parse content).mapError (ConfigError.parse path)

def loadFile (host : Host) (toml : Toml) (path : Bytes) : Loading Config :=
  loadParsed host toml.config path

/-- A missing file is an empty mapping. -/
def loadProfilesToml (host : Host) (toml : Toml) : Loading ProfilesToml :=
  if fileExists host (profilesTomlPath host) then
    loadParsed host toml.profiles (profilesTomlPath host)
  else pure ⟨[], []⟩

def loadDefault (host : Host) (toml : Toml) : Loading Config := do
  validateConfigDirs host
  let path := configPath host
  if !fileExists host path then
    throw (.validation (display path ++
      " not found; a config file with distro is required".toList))
  let cfg ← loadFile host toml path
  if cfg.distro.isNone then
    throw (.validation (display path ++
      ": distro is required (e.g. distro = \"arch\")".toList))
  pure cfg

/-! ## Profiles -/

def isValidProfileName (name : Text) : Bool :=
  !name.isEmpty && !name.contains '/' && !name.contains '\\' && name ≠ ['.'] && name ≠ ['.', '.']

def profileNameRule : Text :=
  ("must not be empty, must not contain / or \\\\, " ++ "must not be . or ..").toList

/-- How many entries of the map have names that were not visited. -/
def unvisited (inherit : List (Text × Text)) (visited : List Text) : Nat :=
  inherit.countP fun entry => entry.1 ∉ visited

theorem unvisited_lt {inherit : List (Text × Text)} {visited : List Text} {current parent : Text}
    (hnew : current ∉ visited) (hparent : inherit.lookup current = some parent) :
    unvisited inherit (visited ++ [current]) < unvisited inherit visited := by
  obtain ⟨before, after, rfl, _⟩ := List.lookup_eq_some_iff.mp hparent
  have hless : ∀ entries : List (Text × Text),
      unvisited entries (visited ++ [current]) ≤ unvisited entries visited := by
    intro entries
    refine List.countP_mono_left fun entry _ h => ?_
    rw [decide_eq_true_iff] at h ⊢
    exact fun hmem => h (List.mem_append_left _ hmem)
  have hcons : ∀ names, unvisited (before ++ (current, parent) :: after) names =
      unvisited before names + (unvisited after names + if current ∉ names then 1 else 0) := by
    intro names
    simp [unvisited, List.countP_append, List.countP_cons]
  have hbefore := hless before
  have hafter := hless after
  rw [hcons, hcons, if_pos hnew, if_neg (not_not_intro (by simp))]
  omega

/-- The chain from a profile to its root; the visited names are those of the chain. -/
def inheritChain (inherit : List (Text × Text)) (chain : List Text) (current : Text) :
    Except ConfigError (List Text) :=
  if _hvisited : current ∈ chain then
    .error (.validation ("circular inheritance: profile '".toList ++ current ++
      "' appears more than once in the inheritance chain".toList))
  else
    match _hparent : inherit.lookup current with
    | none => .ok (chain ++ [current])
    | some parent =>
      if parent = current then
        .error (.validation ("profile '".toList ++ current ++
          "' cannot inherit from itself".toList))
      else if !isValidProfileName parent then
        .error (.validation ("invalid parent profile name '".toList ++ parent ++
          "' in [inherit] for '".toList ++ current ++ "': ".toList ++ profileNameRule))
      else inheritChain inherit (chain ++ [current]) parent
termination_by unvisited inherit chain
decreasing_by exact unvisited_lt _hvisited _hparent

/-- Merge the files of the profiles in turn. -/
def mergeProfiles (host : Host) (toml : Toml) (merged : Config) : List Text → Loading Config
  | [] => pure merged
  | name :: names => do
    let path := profilePath host name
    if !fileExists host path then
      throw (.validation ("profile '".toList ++ name ++ "' not found at ".toList ++ display path))
    let cfg ← loadFile host toml path
    mergeProfiles host toml (merged.merge cfg) names

def mergeWithProfile (host : Host) (toml : Toml) (default : Config) (profile : Text)
    (inherit : List (Text × Text)) : Loading Config := do
  if !isValidProfileName profile then
    throw (.validation ("invalid profile name '".toList ++ profile ++ "': ".toList ++
      profileNameRule))
  let chain ← inheritChain inherit [] profile
  mergeProfiles host toml default chain.reverse

def loadWithProfile (host : Host) (toml : Toml) (profile : Text) : Loading Config := do
  let default ← loadDefault host toml
  let profilesToml ← loadProfilesToml host toml
  mergeWithProfile host toml default profile profilesToml.inherit

/-- `$HOME`. -/
def homePath (host : Host) : Except ConfigError Bytes :=
  match host.env "HOME".toList with
  | some home => .ok (utf8 home)
  | none => .error (.validation "$HOME is not set".toList)

/-- One entry of the mapping; an invalid or missing one is skipped, and of those that
contain the working directory the first longest one is kept. -/
def matchEntry (host : Host) (home : Bytes) (cwd : Canonical)
    (best : Option (Canonical × Text)) (entry : Text × Text) : Option (Canonical × Text) :=
  if !isValidProfileName entry.2 then best
  else
    match canonicalize host.files host.workingDir (expandHostTilde (utf8 entry.1) home) with
    | .error _ => best
    | .ok dir =>
      if isUnderOrEq cwd dir then
        match best with
        | none => some (dir, entry.2)
        | some longest => if dir.length > longest.1.length then some (dir, entry.2) else best
      else best

def loadForDir (host : Host) (toml : Toml) (cwd : Bytes) : Loading Config := do
  let default ← loadDefault host toml
  let cwdCanon ← resolve host cwd
  let mapping ← loadProfilesToml host toml
  let home ← homePath host
  match mapping.profiles.foldl (matchEntry host home cwdCanon) none with
  | some (_, profile) => mergeWithProfile host toml default profile mapping.inherit
  | none => pure default

end Configuration
