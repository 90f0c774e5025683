import Celily.Configuration
import Celily.InstanceNames
import Celily.ProxySockets

/-!
# The context of a run

`resolveContext` puts the command line, the configuration and the state of the host
together before anything is launched. Mounts come from three places: the project,
the configuration and the command line; every one of them is validated.
-/

namespace ContextResolution

open RustText HostPaths PathResolution HostFiles HomeSymlinks MountValidation Devices
open NetworkRules ConfigRules Configuration ProxySockets InstanceNames
open InstanceLifecycle (InstanceKind setEnv)

/-- The options of the command line that the context depends on. -/
structure Args where
  image : Option Text
  name : Option Text
  keepInstance : Bool
  vm : Bool
  cliMounts : List (Mount Bytes)
  cpu : Option UInt32
  memory : Option Text
  disk : Option Text
  processes : Option Int
  user : Option Text
  root : Bool
  containerUid : Option UInt32
  containerGid : Option UInt32
  cliEnv : List Text
  cliPassEnv : List Text
  projectTarget : Option Text
  profile : Option Text
  noProfile : Bool
  worktree : Option Text
  mountProject : Bool
  noMountProject : Bool
  projectReadwrite : Bool
  noProjectReadwrite : Bool

structure RunContext where
  image : Text
  kind : InstanceKind
  cpu : UInt32
  memory : Text
  disk : Text
  processes : Int
  diskPriority : Option UInt32
  memoryEnforce : Option Text
  networkIngress : Option Text
  networkEgress : Option Text
  execUid : UInt32
  execGid : UInt32
  containerUid : UInt32
  containerGid : UInt32
  projectDir : Bytes
  containerHome : Bytes
  rawIdmap : Option Text
  mounts : List (Mount Canonical)
  envMap : List (Text × Text)
  name : Text
  ephemeral : Bool
  description : Text
  instanceUuid : Uuid
  networkAllow : List NetworkRule
  securityNesting : Bool
  secureBoot : Bool
  extraDevices : List Device

/-- The configuration that the options ask for. -/
def loadConfig (host : Host) (toml : Toml) (args : Args) (cwd : Bytes) : Loading Config :=
  match args.profile with
  | some profile => loadWithProfile host toml profile
  | none => if args.noProfile then loadDefault host toml else loadForDir host toml cwd

/-! ## Mounts -/

def userName (args : Args) (cfg : Config) : Text :=
  (args.user.or cfg.user).getD "dev".toList

def containerHome (args : Args) (cfg : Config) : Bytes :=
  utf8 (if args.root then "/root".toList else "/home/".toList ++ userName args cfg)

def projectTarget (args : Args) (cfg : Config) : Bytes :=
  expandContainerTilde (utf8 ((args.projectTarget.or cfg.projectTarget).getD "~/project".toList))
    (containerHome args cfg)

def mountProject (args : Args) (cfg : Config) : Bool :=
  args.worktree.isSome || args.mountProject ||
    (!args.noMountProject && cfg.mountProject.getD false)

/-- Never in worktree mode: the sandbox could plant hooks that run on the host. -/
def projectReadwrite (args : Args) (cfg : Config) : Bool :=
  !args.worktree.isSome &&
    (args.projectReadwrite || (!args.noProjectReadwrite && cfg.projectReadwrite.getD false))

def projectMount (args : Args) (cfg : Config) (cwd : Bytes) : Mount Bytes :=
  ⟨cwd, projectTarget args cfg, if projectReadwrite args cfg then .readWrite else .readOnly⟩

/-- A mount of the configuration or the command line. -/
def expandMount (home containerHome : Bytes) (mount : Mount Bytes) : Mount Bytes :=
  ⟨expandHostTilde mount.source home, expandContainerTilde mount.target containerHome,
    mount.access⟩

def requestedMounts (args : Args) (cfg : Config) (cwd home : Bytes) : List (Mount Bytes) :=
  (if mountProject args cfg then [projectMount args cfg cwd] else []) ++
    cfg.mounts.map (expandMount home (containerHome args cfg)) ++
    args.cliMounts.map (expandMount home (containerHome args cfg))

/-- Missing entries are skipped; one that goes through a symlink under home is an error. -/
def canonicalizeAllowlist (host : Host) (home : Bytes) (homeCanon : Canonical) (key : Text) :
    List Bytes → Anyhow (List Canonical)
  | [] => pure []
  | entry :: entries =>
    let path := expandHostTilde entry home
    if fileExists host path then do
      let canonical ← withContext ("invalid ".toList ++ key ++ " entry".toList)
        (canonicalizeInHome host.files host.workingDir path homeCanon)
      let rest ← canonicalizeAllowlist host home homeCanon key entries
      pure (canonical :: rest)
    else canonicalizeAllowlist host home homeCanon key entries

/-- `~/.local` and `~/.local/share`, if they exist. -/
def forbiddenLocal (fs : Files) (homeCanon : Canonical) : List Forbidden :=
  match canonicalizeIn fs homeCanon ".local".toList with
  | .error _ => []
  | .ok localCanon =>
    (match canonicalizeIn fs localCanon "share".toList with
      | .error _ => []
      | .ok shareCanon => [.exact shareCanon "~/.local/share".toList]) ++
      [.exact localCanon "~/.local".toList]

def forbiddenMounts (fs : Files) (homeCanon configCanon : Canonical) : List Forbidden :=
  [.exact homeCanon "$HOME".toList, .exact configCanon "~/.config".toList] ++
    forbiddenLocal fs homeCanon ++
    Forbidden.under fs configCanon "celily".toList "~/.config/celily".toList ++
    Forbidden.under fs homeCanon ".ssh".toList "~/.ssh".toList ++
    Forbidden.under fs homeCanon ".gnupg".toList "~/.gnupg".toList ++
    Forbidden.under fs homeCanon ".local/share/keyrings".toList "~/.local/share/keyrings".toList

def validateMount (host : Host) (homeCanon : Canonical) (forbidden : List Forbidden)
    (allowedDirs allowedFiles : List Canonical) (mount : Mount Bytes) :
    Anyhow (Mount Canonical) := do
  let canonical ← validateMountSource host.files host.workingDir mount.source homeCanon forbidden
    allowedDirs allowedFiles
  pure ⟨canonical, mount.target, mount.access⟩

/-! ## Environment and devices -/

/-- `pass_env`: a variable that is not set on the host is left as it is. -/
def passVariable (host : Host) (env : List (Text × Text)) (name : Text) : List (Text × Text) :=
  match host.env name with
  | some value => setEnv env (name, value)
  | none => env

/-- The `--env` options, in their order. -/
def setVariables (env : List (Text × Text)) : List Text → Anyhow (List (Text × Text))
  | [] => pure env
  | entry :: entries =>
    if entry.contains '=' then
      setVariables (setEnv env (entry.takeWhile (· ≠ '='), (entry.dropWhile (· ≠ '=')).drop 1))
        entries
    else
      bail ("invalid --env value '".toList ++ entry ++ "', expected KEY=VALUE".toList)

def resolveEnv (host : Host) (args : Args) (cfg : Config) : Anyhow (List (Text × Text)) :=
  setVariables ((cfg.passEnv ++ args.cliPassEnv).foldl (passVariable host) cfg.env) args.cliEnv

def proxyDevice (host : Host) (homeCanon : Canonical) (mounts : List (Mount Canonical))
    (containerUid containerGid : UInt32) (proxy : ProxyDevice) : Anyhow Device := do
  let socket ← validateProxyConnect host proxy.connect homeCanon mounts
  match toStr (canonicalBytes socket) with
  | none =>
    bail ("proxy socket ".toList ++ displayCanonical socket ++ " is not UTF-8".toList)
  | some text =>
    pure (.proxy ("unix:".toList ++ text) proxy.listen containerUid containerGid host.uid host.gid
      proxy.mode)

def volumeDevice (containerHome : Bytes) (volume : Volume) : Device :=
  .volume volume.name (expandContainerTilde volume.target containerHome) volume.access

/-! ## The context -/

def rawIdmap (host : Host) (containerUid containerGid : UInt32) : InstanceKind → Option Text
  | .vm => none
  | .container =>
    some ("uid ".toList ++ decimal host.uid.toNat ++ " ".toList ++ decimal containerUid.toNat ++
      "\ngid ".toList ++ decimal host.gid.toNat ++ " ".toList ++ decimal containerGid.toNat)

def validateUser (args : Args) (cfg : Config) : Anyhow Unit :=
  ensure (isValidUsername (userName args cfg) || args.root)
    ("invalid username '".toList ++ userName args cfg ++
      "': must match [a-z_][a-z0-9_-]* and be <=32 characters".toList)

/-- Resolve options, configuration and host state; `cwd` and `home` as they are written,
`homeCanon` the canonical home directory. -/
def resolveContext (host : Host) (args : Args) (cfg : Config) (cwd home : Bytes)
    (homeCanon : Canonical) (configDir : Bytes) (allowedDirs allowedFiles : List Bytes)
    (uuid : Uuid) : Anyhow RunContext := do
  let image := (args.image.or cfg.image).getD "celily".toList
  let kind := if args.vm then .vm else cfg.kind.getD .container
  let containerUid := (args.containerUid.or cfg.containerUid).getD 1000
  let containerGid := (args.containerGid.or cfg.containerGid).getD 1000
  validateUser args cfg
  let canonDirs ←
    canonicalizeAllowlist host home homeCanon "allowed_dirs".toList allowedDirs
  let canonFiles ←
    canonicalizeAllowlist host home homeCanon "allowed_files".toList allowedFiles
  let configCanon ← withContext
    ("cannot canonicalize config directory ".toList ++ display configDir)
    (ofIo (canonicalize host.files host.workingDir configDir))
  let mounts ← (requestedMounts args cfg cwd home).mapM
    (validateMount host homeCanon (forbiddenMounts host.files homeCanon configCanon) canonDirs
      canonFiles)
  let envMap ← resolveEnv host args cfg
  let networkAllow ← (cfg.network.allow.mapM ConfigNetworkRule.intoLibrary).mapError
    ConfigError.chain
  let proxies ← cfg.proxy.mapM
    (proxyDevice host homeCanon mounts containerUid containerGid)
  pure
    { image := image
      kind := kind
      cpu := (args.cpu.or cfg.limits.cpu).getD 2
      memory := (args.memory.or cfg.limits.memory).getD "4GiB".toList
      disk := (args.disk.or cfg.limits.disk).getD "4GiB".toList
      processes := (args.processes.or cfg.limits.processes).getD 1024
      diskPriority := cfg.limits.diskPriority
      memoryEnforce := cfg.limits.memoryEnforce
      networkIngress := cfg.limits.networkIngress
      networkEgress := cfg.limits.networkEgress
      execUid := if args.root then 0 else containerUid
      execGid := if args.root then 0 else containerGid
      containerUid := containerUid
      containerGid := containerGid
      projectDir :=
        if mountProject args cfg then projectTarget args cfg else containerHome args cfg
      containerHome := containerHome args cfg
      rawIdmap := rawIdmap host containerUid containerGid kind
      mounts := mounts
      envMap := envMap
      name := args.name.getD (instanceName cwd home image uuid)
      ephemeral := !args.keepInstance
      description := "celily run (".toList ++ image ++ " at ".toList ++ display cwd ++ ")".toList
      instanceUuid := uuid
      networkAllow := networkAllow
      securityNesting := cfg.securityNesting.getD false
      secureBoot := cfg.secureBoot.getD true
      extraDevices := proxies ++ cfg.volumes.map (volumeDevice (containerHome args cfg)) }

end ContextResolution
