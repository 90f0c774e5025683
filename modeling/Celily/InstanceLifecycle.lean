import Celily.EgressAcl
import Celily.BridgeSubnets
import Celily.Devices
import Celily.JoinedTasks

/-!
# The life of an instance

`runInstance` is one run of the program after its configuration is resolved: the
instance is created, its bridge, proxies and devices are set up in two joined
tasks, it is started, used and torn down. Guards are explicit: `guarded` drops one
on an error of its body, `holding` at the end of it, and nested guards are dropped
inside out, as locals are. Every command may fail.
-/

namespace InstanceLifecycle

open RustText InternetAddresses NetworkRules BridgeSubnets EgressAcl HostPaths Devices JoinedTasks

inductive CommandError where
  | io (error : Text)
  | nonZero (code : Option Int) (stderr : Option Text)

inductive InstanceKind where
  | container
  | vm
  deriving DecidableEq

structure Limits where
  cpu : UInt32
  memory : Text
  disk : Text
  processes : Int
  diskPriority : Option UInt32
  memoryEnforce : Option Text
  networkIngress : Option Text
  networkEgress : Option Text

/-- Parameters for creating an instance. -/
structure InstanceConfig where
  image : Text
  ephemeral : Bool
  vm : Bool
  secureBoot : Bool
  cpu : Option UInt32
  memory : Option Text
  diskSize : Option Text
  processes : Option Int
  diskPriority : Option UInt32
  memoryEnforce : Option Text
  rawIdmap : Option Text
  securityNesting : Bool

structure LaunchConfig where
  project : Option Text
  image : Text
  name : Text
  bridgeName : Text
  kind : InstanceKind
  mounts : List (Mount Bytes)
  extraDevices : List Device
  containerUid : UInt32
  containerGid : UInt32
  execUid : UInt32
  execGid : UInt32
  containerHome : Bytes
  rawIdmap : Option Text
  securityNesting : Bool
  secureBoot : Bool
  ephemeral : Bool
  keep : Bool
  description : Text
  limits : Limits
  allow : List NetworkRule
  /-- Whether a secret provider is configured. -/
  provider : Bool

/-! ## Commands -/

/-- What only succeeds or fails. -/
inductive Act where
  | createProject (project : Text)
  | createInstance (name : Text) (config : InstanceConfig)
  | startInstance (name : Text)
  | deleteInstance (name : Text)
  | addDevice (name devName : Text) (device : Device)
  | setDescription (name description : Text)
  | attachToBridge (name bridge : Text) (ingress egress : Option Text)
  | writeFile (name content path mode : Text) (uid gid : UInt32)
  | createNetwork (name : Text)
  | setNetworkDnsmasq (name dnsmasq : Text)
  | setNetworkEgressReject (name : Text)
  | attachAclToNetwork (network acl : Text)
  | deleteNetwork (name : Text)
  | createAcl (name : Text)
  | addAclRule (acl : Text) (args : List Text)
  | deleteAcl (name : Text)
  | createCaDir (dir : Bytes)
  | checkTasks
  | registerRemote (branch : Text)

/-- What answers with a text. -/
inductive Query where
  | networkIpv4 (name : Text)
  | execStdout (name : Text) (command : List Text)
  | resolveSecret (item : Text)
  | resolvConf
  | runtimeDir
  | generateCa (dir : Bytes)

/-- What cannot fail, or whose failure is only logged. -/
inductive Quiet where
  | spawnHttpProxy (address : IpAddr) (port : UInt16) (rules : List NetworkRule)
      (authSecrets : SecretMap) (subnet : BridgeSubnet)
  | spawnDnsProxy (address : IpAddr) (port : UInt16) (upstream : IpAddr)
      (rules : List NetworkRule)
  | stopProxies
  | removeCaDir (dir : Bytes)
  | unregisterRemote (branch : Text)

inductive Command where
  | act (a : Act)
  | ask (q : Query)
  | exec (name : Text) (command : List Text) (env : List (Text × Text)) (cwd : Bytes)
      (uid gid : UInt32) (home : Bytes) (proxyUrl : Text)
  | connect (address : IpAddr) (port : UInt16)
  | quiet (q : Quiet)

/-- A connection is accepted or refused, or fails. -/
def Reply : Command → Type
  | .act _ => Except CommandError Unit
  | .ask _ => Except CommandError Text
  | .exec .. => Except CommandError Int
  | .connect .. => Except CommandError Bool
  | .quiet _ => Unit

inductive LaunchError where
  | backend (context : Text) (source : CommandError)
  | bridge (source : CommandError)
  | noProvider (secret : Text)
  | secret (source : CommandError)
  | proxy (source : CommandError)
  | noNameserver
  | proxyTimeout
  | timeout (name : Text)
  | remote (source : CommandError)

abbrev Launch (α : Type) := Fallible Reply LaunchError α

/-- A command, and what is made of its reply. -/
def request {α : Type} (c : Command) (result : Reply c → Except LaunchError α) : Launch α :=
  ExceptT.mk (.call c fun reply => .done (result reply))

def act (context : CommandError → LaunchError) (a : Act) : Launch Unit :=
  request (.act a) (Except.mapError context)

def ask (context : CommandError → LaunchError) (q : Query) : Launch Text :=
  request (.ask q) (Except.mapError context)

def connect (address : IpAddr) (port : UInt16) : Launch Bool :=
  request (.connect address port) (Except.mapError .proxy)

def quiet (q : Quiet) : Task Reply Unit := .call (.quiet q) fun _ => .done ()

/-- A command whose failure is only logged, as in `Drop`. -/
def logged (a : Act) : Task Reply Unit := .call (.act a) fun _ => .done ()

/-- The `?` of a result at hand. -/
def ofResult {α : Type} (result : Except LaunchError α) : Launch α := ExceptT.mk (.done result)

/-! ## Bridges -/

def dropBridge (name : Text) (keep : Bool) : Task Reply Unit :=
  if keep then .done () else logged (.deleteNetwork name)

def dropAcl (name : Text) (keep : Bool) : Task Reply Unit :=
  if keep then .done () else logged (.deleteAcl name)

/-- The fields of `LxdBridgeGuard`, in declaration order. -/
def dropBridgeGuard (name : Text) (keep : Bool) : Task Reply Unit :=
  (dropBridge name keep).bind fun _ => dropAcl name keep

def getSubnet (name : Text) : Launch BridgeSubnet := do
  let raw ← ask .bridge (.networkIpv4 name)
  match BridgeSubnet.parse (trim raw) with
  | some subnet => pure subnet
  | none => throw (.bridge (.io ("invalid bridge ipv4.address: ".toList ++ raw)))

def buildDnsmasqConfig (gatewayIp : Text) (dnsPort : UInt16) : Text :=
  "no-resolv\nno-poll\ncache-size=0\nserver=".toList ++ gatewayIp ++ '#' :: portText dnsPort ++
    "\n".toList

def addRule (acl : Text) (rule : NetworkAclRule) : Launch Unit :=
  act .bridge (.addAclRule acl (ruleToCliArgs rule))

def createBridge (name : Text) (params : CreateBridgeParams) : Launch BridgeSubnet := do
  act .bridge (.createNetwork name)
  guarded (dropBridge name params.keep) do
    let subnet ← getSubnet name
    act .bridge (.createAcl name)
    guarded (dropAcl name params.keep) do
      let results ← ExceptT.lift (both
        (each (addRule name) (buildRulesFromParams params subnet.gateway.display)).run
        (act .bridge (.setNetworkDnsmasq name
          (buildDnsmasqConfig subnet.gateway.display params.dnsPort))).run)
      ofResult results.1
      ofResult results.2
      act .bridge (.setNetworkEgressReject name)
      act .bridge (.attachAclToNetwork name name)
      pure subnet

/-! ## Proxies -/

/-- The first `nameserver` line holding a plain IP address. -/
def firstNameserver (resolvConf : Text) : Option IpAddr :=
  (resolvConf.splitOn '\n').findSome? fun line =>
    match splitWhitespace line with
    | key :: address :: _ => if key = "nameserver".toList then parseIpAddr address else none
    | _ => none

example : firstNameserver "nameserver fe80::1%eth0\nnameserver\t127.0.0.53\n".toList =
    some (.v4 ⟨0x7f000035⟩) := by decide

/-- Poll until the HTTP proxy accepts a connection; `polls` is how often the time
limit lets it. -/
def waitUntilReady (address : IpAddr) (port : UInt16) : Nat → Launch Unit
  | 0 => throw .proxyTimeout
  | polls + 1 => do
    act .proxy .checkTasks
    let accepted ← connect address port
    if accepted then act .proxy .checkTasks
    else waitUntilReady address port polls

/-- What `NetworkIsolation` holds besides its guards. -/
structure Isolation where
  subnet : BridgeSubnet
  caDir : Bytes
  caCert : Text

def startProxies (polls : Nat) (bridgeName : Text) (subnet : BridgeSubnet)
    (rules : List NetworkRule) (authSecrets : SecretMap) : Launch Isolation := do
  let gateway : IpAddr := .v4 subnet.gateway
  let resolvConf ← ask .proxy .resolvConf
  match firstNameserver resolvConf with
  | none => throw .noNameserver
  | some upstream => do
    let runtimeDir ← ask .proxy .runtimeDir
    let caDir := join (utf8 runtimeDir) (utf8 ("celily-proxelar-".toList ++ bridgeName))
    act .proxy (.createCaDir caDir)
    guarded (quiet (.removeCaDir caDir)) do
      let caCert ← ask .proxy (.generateCa caDir)
      ExceptT.lift (quiet (.spawnHttpProxy gateway proxyPort rules authSecrets subnet))
      ExceptT.lift (quiet (.spawnDnsProxy gateway dnsPort upstream rules))
      guarded (quiet .stopProxies) (waitUntilReady gateway proxyPort polls)
      pure ⟨subnet, caDir, caCert⟩

def dropProxies (isolation : Isolation) : Task Reply Unit :=
  (quiet .stopProxies).bind fun _ => quiet (.removeCaDir isolation.caDir)

/-! ## Network isolation -/

/-- Resolve auth secrets, each unique name once. -/
def resolveSecrets (provider : Bool) : SecretMap → List NetworkRule → Launch SecretMap
  | secrets, [] => pure secrets
  | secrets, .tcp _ _ :: rules => resolveSecrets provider secrets rules
  | secrets, .http rule :: rules =>
    match rule.auth with
    | none => resolveSecrets provider secrets rules
    | some auth =>
      if (secrets.get auth.secret).isSome then resolveSecrets provider secrets rules
      else if provider then do
        let value ← ask .secret (.resolveSecret auth.secret)
        resolveSecrets provider ((auth.secret, value) :: secrets) rules
      else throw (.noProvider auth.secret)

def setup (polls : Nat) (bridge : Text) (params : CreateBridgeParams) (allow : List NetworkRule)
    (provider : Bool) : Launch Isolation := do
  let subnet ← createBridge bridge params
  guarded (dropBridgeGuard bridge params.keep) do
    let authSecrets ← resolveSecrets provider [] allow
    startProxies polls bridge subnet allow authSecrets

/-- The fields of `NetworkIsolation`, in declaration order. -/
def dropIsolation (cfg : LaunchConfig) (isolation : Isolation) : Task Reply Unit :=
  (dropProxies isolation).bind fun _ => dropBridgeGuard cfg.bridgeName cfg.keep

/-! ## Init -/

/-- The result of `lxc project create`; an existing project is fine. -/
def projectResult (context : CommandError → LaunchError) :
    Except CommandError Unit → Except LaunchError Unit
  | .error (.nonZero code (some stderr)) =>
    if "already exists".toList <:+: stderr then .ok ()
    else .error (context (.nonZero code (some stderr)))
  | result => result.mapError context

def ensureProject (context : CommandError → LaunchError) : Option Text → Launch Unit
  | none => pure ()
  | some project => request (.act (.createProject project)) (projectResult context)

def LaunchConfig.instanceConfig (cfg : LaunchConfig) : InstanceConfig where
  image := cfg.image
  ephemeral := cfg.ephemeral
  vm := cfg.kind == .vm
  secureBoot := cfg.secureBoot
  cpu := some cfg.limits.cpu
  memory := some cfg.limits.memory
  diskSize := some cfg.limits.disk
  processes := some cfg.limits.processes
  diskPriority := cfg.limits.diskPriority
  memoryEnforce := cfg.limits.memoryEnforce
  rawIdmap := cfg.rawIdmap
  securityNesting := cfg.securityNesting

def createInstance (cfg : LaunchConfig) : Launch Unit := do
  ensureProject (.backend "failed to create instance".toList) cfg.project
  act (.backend "failed to create instance".toList) (.createInstance cfg.name cfg.instanceConfig)

def dropInstance (cfg : LaunchConfig) : Task Reply Unit :=
  if cfg.keep then .done () else logged (.deleteInstance cfg.name)

/-- A mount with its index; a file on a VM is skipped. -/
def addMount (cfg : LaunchConfig) (isFile : Bytes → Bool) (mount : Mount Bytes × Nat) :
    Launch Unit :=
  if cfg.kind = .vm ∧ isFile mount.1.source = true then pure ()
  else act (.backend "failed to add disk device".toList)
    (.addDevice cfg.name ("mount".toList ++ decimal mount.2)
      (.disk mount.1.source mount.1.target mount.1.access))

def addExtra (cfg : LaunchConfig) (device : Device × Nat) : Launch Unit :=
  act (.backend "failed to add extra device".toList)
    (.addDevice cfg.name ("extra".toList ++ decimal device.2) device.1)

def attachDevices (cfg : LaunchConfig) (isFile : Bytes → Bool) : Launch Unit := do
  each (addMount cfg isFile) cfg.mounts.zipIdx
  each (addExtra cfg) cfg.extraDevices.zipIdx
  if cfg.description = [] then pure ()
  else
    act (.backend "failed to set description".toList) (.setDescription cfg.name cfg.description)

/-- An isolation that is not handed on is dropped with its result. -/
def dropResult (cfg : LaunchConfig) : Except LaunchError Isolation → Task Reply Unit
  | .ok isolation => dropIsolation cfg isolation
  | .error _ => .done ()

def init (cfg : LaunchConfig) (isFile : Bytes → Bool) (polls : Nat) : Launch Isolation := do
  createInstance cfg
  guarded (dropInstance cfg) do
    let results ← ExceptT.lift (both
      (setup polls cfg.bridgeName (toCreateBridgeParams cfg.allow cfg.keep) cfg.allow
        cfg.provider).run
      (attachDevices cfg isFile).run)
    guarded (dropResult cfg results.1) (ofResult results.2)
    let isolation ← ofResult results.1
    guarded (dropIsolation cfg isolation) do
      act (.backend "failed to attach instance to bridge".toList)
        (.attachToBridge cfg.name cfg.bridgeName cfg.limits.networkIngress
          cfg.limits.networkEgress)
      pure isolation

/-! ## Start -/

/-- Wait for the system to run; a failed query counts as not running yet. -/
def waitRunning (name : Text) : Nat → Task Reply Bool
  | 0 => .done false
  | attempts + 1 =>
    .call (.ask (.execStdout name ["systemctl".toList, "is-system-running".toList])) fun out =>
      if out.toOption.map trim = some "running".toList then .done true
      else waitRunning name attempts

def caCertAnchorsDir : Text := "/etc/ca-certificates/trust-source/anchors".toList

def rebuildTrustStoreCommand : Text := "update-ca-trust".toList

/-- The directories between a mount target and the container home, from the inside
out, up to the home or another target. -/
def holdersOf (home : List Component) (targets : List (List Component))
    (path : List Component) : List (List Component) :=
  match h : parent path with
  | none => []
  | some up =>
    if up = home ∨ startsWith up home = false ∨ up ∈ targets then []
    else
      have := parent_length h
      up :: holdersOf home targets up
  termination_by path.length

/-- A set of paths, as the list of its elements in order. -/
def mountParents (cfg : LaunchConfig) : List (List Component) :=
  let targets := cfg.mounts.map fun mount => components mount.target
  let parents := (targets.flatMap (holdersOf (components cfg.containerHome) targets)).dedup
  parents.mergeSort fun a b => (compare a b).isLE

def chown (cfg : LaunchConfig) (path : List Component) : Launch Unit := do
  let owner := decimal cfg.containerUid.toNat ++ ':' :: decimal cfg.containerGid.toNat
  let _ ← ask (.backend "failed to chown mount parent".toList)
    (.execStdout cfg.name ["chown".toList, owner, fromUtf8Lossy (ofComponents path)])
  pure ()

def start (cfg : LaunchConfig) (isolation : Isolation) : Launch Unit := do
  act (.backend "failed to start instance".toList) (.startInstance cfg.name)
  let ready ← ExceptT.lift (waitRunning cfg.name 60)
  if ready then do
    act (.backend "failed to push CA cert".toList)
      (.writeFile cfg.name isolation.caCert (caCertAnchorsDir ++ "/mitm-ca-cert.pem".toList)
        "0644".toList 0 0)
    let _ ← ask (.backend "failed to rebuild trust store".toList)
      (.execStdout cfg.name [rebuildTrustStoreCommand])
    each (chown cfg) (mountParents cfg)
  else throw (.timeout cfg.name)

/-! ## The whole run -/

structure Worktree where
  name : Text
  branchName : Text
  gitName : Text
  gitEmail : Text
  /-- The text of `worktree-init.sh`. -/
  initScript : Text

/-- What to run in the instance. -/
structure Plan where
  preRun : List Text
  command : List Text
  env : List (Text × Text)
  projectDir : Bytes
  worktree : Option Worktree

/-- The environment with a key set, as `HashMap::insert` leaves it. -/
def setEnv (env : List (Text × Text)) (entry : Text × Text) : List (Text × Text) :=
  entry :: env.filter fun other => other.1 ≠ entry.1

def exec (cfg : LaunchConfig) (isolation : Isolation) (command : List Text)
    (env : List (Text × Text)) (cwd : Bytes) : Launch Int :=
  let proxyUrl := "http://".toList ++ isolation.subnet.gateway.display ++ ':' :: portText proxyPort
  request (.exec cfg.name command env cwd cfg.execUid cfg.execGid cfg.containerHome proxyUrl)
    (Except.mapError (.backend "failed to run lxc exec".toList))

def preRunWrapper (script : Text) : Text :=
  "cat > /tmp/celily-pre-run <<'CELILY_EOF'\n".toList ++ script ++
    "\nCELILY_EOF\nchmod +x /tmp/celily-pre-run && /tmp/celily-pre-run; rc=$?; ".toList ++
    "rm -f /tmp/celily-pre-run; exit $rc".toList

/-- The first failing script ends the run with its exit code. -/
def preRun (cfg : LaunchConfig) (isolation : Isolation) (plan : Plan) :
    List Text → Launch (Option Int)
  | [] => pure none
  | script :: scripts => do
    let code ← exec cfg isolation ["sh".toList, "-c".toList, preRunWrapper script] plan.env
      plan.projectDir
    if code ≠ 0 then pure (some code) else preRun cfg isolation plan scripts

def worktreeEnv (plan : Plan) (worktree : Worktree) : List (Text × Text) :=
  [("GIT_AUTHOR_NAME".toList, worktree.gitName), ("GIT_AUTHOR_EMAIL".toList, worktree.gitEmail),
    ("GIT_COMMITTER_NAME".toList, worktree.gitName),
    ("GIT_COMMITTER_EMAIL".toList, worktree.gitEmail),
    ("CELILY_WORKTREE_BRANCH".toList, worktree.branchName),
    ("CELILY_WORKTREE_NAME".toList, worktree.name),
    ("CELILY_WORKTREE_PROJECT".toList, fromUtf8Lossy plan.projectDir)].foldl setEnv plan.env

def runCommand (cfg : LaunchConfig) (isolation : Isolation) (plan : Plan) : Launch Int :=
  let rawCommand := if plan.command = [] then ["sh".toList, "-l".toList] else plan.command
  match plan.worktree with
  | none => exec cfg isolation rawCommand plan.env plan.projectDir
  | some worktree => do
    let fullCommand := ["sh".toList, "-c".toList, worktree.initScript, "--".toList] ++ rawCommand
    act .remote (.registerRemote worktree.branchName)
    holding (quiet (.unregisterRemote worktree.branchName))
      (exec cfg isolation fullCommand (worktreeEnv plan worktree) plan.projectDir)

def session (cfg : LaunchConfig) (isolation : Isolation) (plan : Plan) : Launch Int := do
  let failed ← preRun cfg isolation plan plan.preRun
  match failed with
  | some code => pure code
  | none => runCommand cfg isolation plan

/-- The fields of `Initialized` and `Running`, in declaration order. -/
def dropState (cfg : LaunchConfig) (isolation : Isolation) : Task Reply Unit :=
  (dropInstance cfg).bind fun _ => dropIsolation cfg isolation

def runInstance (cfg : LaunchConfig) (isFile : Bytes → Bool) (polls : Nat) (plan : Plan) :
    Launch Int := do
  let isolation ← init cfg isFile polls
  guarded (dropState cfg isolation) (start cfg isolation)
  holding (dropState cfg isolation) (session cfg isolation plan)

end InstanceLifecycle
