import Celily.CommandEnvironment
import Celily.DeviceArguments
import Celily.EnvironmentMaps
import Celily.FlagWords

/-!
# The command lines of lxc

The commands of a launch reach the daemon as command lines of `lxc`: a verb, its flags and
its operands. `argv` is what is run for a command, and `operation` what is meant by it.
`readCommand` describes the command lines that leave no doubt; of `lxc` itself it is only
relied on that it takes these as described.
-/

namespace LxcCommands

open RustText SegmentedLists HostFiles Devices EgressAcl InstanceLifecycle LxcArguments
  DeviceArguments EnvironmentMaps CommandEnvironment FlagWords

/-! ## The command lines -/

/-- `Display` of an `i64`. -/
def signed : Int → Text
  | .ofNat n => decimal n
  | .negSucc n => '-' :: decimal (n + 1)

/-- A command of the default project, for networks. -/
def lxcCommand (backend : LxcBackend) (args : List Text) : List Bytes :=
  let remote := (backend.remote.map fun remote => (utf8 "--remote".toList, utf8 remote)).toList
  utf8 backend.binary :: (optionWords remote ++ args.map utf8)

/-- A command of the configured project. -/
def lxcProjectCommand (backend : LxcBackend) (args : List Text) : List Bytes :=
  utf8 backend.binary :: (optionWords backend.scopeOptions ++ args.map utf8)

/-- The settings of an instance by their keys, as `create` goes through them. -/
def settings (config : InstanceConfig) : List (Text × Option Text) :=
  [("boot.mode".toList,
      if config.vm ∧ !config.secureBoot then some "uefi-nosecureboot".toList else none),
    ("limits.cpu".toList, config.cpu.map fun n => decimal n.toNat),
    ("limits.memory".toList, config.memory),
    ("limits.processes".toList, if config.vm then none else config.processes.map signed),
    ("limits.disk.priority".toList,
      if config.vm then none else config.diskPriority.map fun n => decimal n.toNat),
    ("limits.memory.enforce".toList, if config.vm then none else config.memoryEnforce),
    ("raw.idmap".toList, config.rawIdmap),
    ("security.nesting".toList,
      if config.securityNesting ∧ !config.vm then some "true".toList else none),
    ("security.devlxd".toList, some "false".toList)]

/-- The command line of `create`. -/
def create (backend : LxcBackend) (name : Text) (config : InstanceConfig) :
    List Bytes :=
  lxcProjectCommand backend (
    ["init".toList, config.image, name, "--no-profiles".toList, "--storage".toList,
        backend.pool] ++
      (match config.diskSize with
      | some size => ["--device".toList, "root,size=".toList ++ size]
      | none => []) ++
      (if config.ephemeral then ["--ephemeral".toList] else []) ++
      (if config.vm then ["--vm".toList] else []) ++
      (present (settings config)).flatMap fun setting => ["--config".toList, word setting])

def addDevice (backend : LxcBackend) (name devName : Text) (device : Device) :
    List Bytes :=
  lxcProjectCommand backend
    (["config".toList, "device".toList, "add".toList, name, devName] ++
      backend.deviceArgs device)

def attachToBridge (backend : LxcBackend) (name bridgeName : Text)
    (networkIngress networkEgress : Option Text) : List Bytes :=
  lxcProjectCommand backend
    (["config".toList, "device".toList, "add".toList, name, "eth0".toList, "nic".toList,
        "nictype=bridged".toList, "parent=".toList ++ bridgeName] ++
      (networkIngress.map ("limits.ingress=".toList ++ ·)).toList ++
      (networkEgress.map ("limits.egress=".toList ++ ·)).toList)

def writeFile (backend : LxcBackend) (name path mode : Text) (uid gid : UInt32) :
    List Bytes :=
  lxcProjectCommand backend
    ["file".toList, "push".toList, "-".toList, name ++ '/' :: path, "--create-dirs".toList,
      "--mode".toList, mode, "--uid".toList, decimal uid.toNat, "--gid".toList,
      decimal gid.toNat]

/-- The command line behind a command of a launch; the others run no `lxc`. -/
def argv (backend : LxcBackend) : Command → Option (List Bytes)
  | .act (.createProject project) => some <| lxcProjectCommand backend
      ["project".toList, "create".toList, project, "--config".toList,
        "features.images=true".toList]
  | .act (.createInstance name config) => some (create backend name config)
  | .act (.startInstance name) => some (lxcProjectCommand backend ["start".toList, name])
  | .act (.deleteInstance name) =>
    some (lxcProjectCommand backend ["delete".toList, "--force".toList, name])
  | .act (.addDevice name devName device) => some (addDevice backend name devName device)
  | .act (.setDescription name description) => some <| lxcProjectCommand backend
      ["config".toList, "set".toList, name, "--property".toList,
        "description=".toList ++ description]
  | .act (.attachToBridge name bridge ingress egress) =>
    some (attachToBridge backend name bridge ingress egress)
  | .act (.writeFile name _ path mode uid gid) => some (writeFile backend name path mode uid gid)
  | .act (.createNetwork name) => some <| lxcCommand backend
      ["network".toList, "create".toList, name, "--type".toList, "bridge".toList]
  | .act (.setNetworkDnsmasq name dnsmasq) => some <| lxcCommand backend
      ["network".toList, "set".toList, name, "raw.dnsmasq=".toList ++ dnsmasq]
  | .act (.setNetworkEgressReject name) => some <| lxcCommand backend
      ["network".toList, "set".toList, name,
        "security.acls.default.egress.action=reject".toList]
  | .act (.attachAclToNetwork network acl) => some <| lxcCommand backend
      ["network".toList, "set".toList, network, "security.acls=".toList ++ acl]
  | .act (.deleteNetwork name) =>
    some (lxcCommand backend ["network".toList, "delete".toList, name])
  | .act (.createAcl name) =>
    some (lxcCommand backend ["network".toList, "acl".toList, "create".toList, name])
  | .act (.addAclRule acl args) => some <| lxcCommand backend
      (["network".toList, "acl".toList, "rule".toList, "add".toList, acl] ++ args)
  | .act (.deleteAcl name) =>
    some (lxcCommand backend ["network".toList, "acl".toList, "delete".toList, name])
  | .act (.createCaDir _) | .act .checkTasks | .act (.registerRemote _) => none
  | .ask (.networkIpv4 name) => some <| lxcCommand backend
      ["network".toList, "get".toList, name, "ipv4.address".toList]
  | .ask (.execStdout name command) =>
    some (lxcProjectCommand backend (["exec".toList, name, "--".toList] ++ command))
  | .ask (.resolveSecret _) | .ask .resolvConf | .ask .runtimeDir | .ask (.generateCa _) => none
  | .exec name command env cwd uid gid home proxyUrl =>
    some (backend.exec name command env cwd uid gid (some home) (some proxyUrl))
  | .connect _ _ | .quiet _ => none

/-! ## What is described of them -/

/-- What `lxc` can be told to do. -/
inductive Operation where
  | createProject (name : Text) (settings : List (Text × Text))
  | createInstance (name : Text) (config : InstanceConfig) (pool : Option Text)
      (profiles guestApi : Bool)
  | startInstance (name : Text)
  | deleteInstance (name : Text) (force : Bool)
  /-- With the pool of a volume. -/
  | addDevice (name devName : Text) (pool : Option Text) (device : Device)
  | addNic (name devName bridge : Text) (ingress egress : Option Text)
  | setProperty (name key value : Text)
  | pushFile (name path : Text) (createDirs : Bool) (mode : Option Text)
      (uid gid : Option UInt32)
  | execute (name : Text) (uid gid : Option UInt32) (cwd : Option Bytes) (env : List Bytes)
      (command : List Text)
  | createNetwork (name : Text) (type : Option Text)
  | setNetwork (name key value : Text)
  | getNetwork (name key : Text)
  | deleteNetwork (name : Text)
  | createAcl (name : Text)
  | addAclRule (acl : Text) (args : List Text)
  | deleteAcl (name : Text)

inductive Verb where
  | projectCreate
  | init
  | start
  | delete
  | deviceAdd
  | configSet
  | filePush
  | exec
  | networkCreate
  | networkSet
  | networkGet
  | networkDelete
  | aclCreate
  | aclRuleAdd
  | aclDelete

def verbs : List Verb :=
  [.projectCreate, .init, .start, .delete, .deviceAdd, .configSet, .filePush, .exec,
    .networkCreate, .networkSet, .networkGet, .networkDelete, .aclCreate, .aclRuleAdd, .aclDelete]

def Verb.names : Verb → List String
  | .projectCreate => ["project", "create"]
  | .init => ["init"]
  | .start => ["start"]
  | .delete => ["delete"]
  | .deviceAdd => ["config", "device", "add"]
  | .configSet => ["config", "set"]
  | .filePush => ["file", "push"]
  | .exec => ["exec"]
  | .networkCreate => ["network", "create"]
  | .networkSet => ["network", "set"]
  | .networkGet => ["network", "get"]
  | .networkDelete => ["network", "delete"]
  | .aclCreate => ["network", "acl", "create"]
  | .aclRuleAdd => ["network", "acl", "rule", "add"]
  | .aclDelete => ["network", "acl", "delete"]

def Verb.words (verb : Verb) : List Bytes := verb.names.map fun name => utf8 name.toList

def flagName (flag : String) : Bytes := utf8 flag.toList

/-- The long flags of a verb, as far as they matter here. -/
def Verb.flags : Verb → List (String × Arity)
  | .projectCreate => [("config", .option)]
  | .init =>
    [("no-profiles", .switch), ("storage", .option), ("device", .option),
      ("ephemeral", .switch), ("vm", .switch), ("config", .option)]
  | .delete => [("force", .switch)]
  | .configSet => [("property", .switch)]
  | .filePush =>
    [("create-dirs", .switch), ("mode", .option), ("uid", .option), ("gid", .option)]
  | .exec => [("user", .option), ("group", .option), ("cwd", .option), ("env", .option)]
  | .networkCreate => [("type", .option)]
  | _ => []

def Verb.declared (verb : Verb) (flag : Bytes) : Option Arity :=
  (verb.flags.map fun entry => (flagName entry.1, entry.2)).lookup flag

def readVerb (words : List Bytes) : Option (Verb × List Bytes) :=
  verbs.findSome? fun verb => (behind verb.words words).map fun rest => (verb, rest)

def texts (words : List Bytes) : Option (List Text) := words.mapM toStr

/-- A name that stands for itself: no flag, without a remote before it and a path behind. -/
structure IsPlain (name : Text) : Prop where
  nonempty : name ≠ []
  noFlag : name.head? ≠ some '-'
  noRemote : ':' ∉ name
  noPath : '/' ∉ name

instance (name : Text) : Decidable (IsPlain name) :=
  decidable_of_iff (name ≠ [] ∧ name.head? ≠ some '-' ∧ ':' ∉ name ∧ '/' ∉ name)
    ⟨fun h => ⟨h.1, h.2.1, h.2.2.1, h.2.2.2⟩,
      fun h => ⟨h.nonempty, h.noFlag, h.noRemote, h.noPath⟩⟩

/-- A value that may be missing, but not malformed. -/
def ifGiven {α β : Type} (read : α → Option β) : Option α → Option (Option β)
  | none => some none
  | some value => (read value).map some

/-- Whether a setting has been turned from its default to its other value. -/
def readTurned (other : String) : Option Text → Option Bool
  | none => some false
  | some value => if value = other.toList then some true else none

def readSigned : Text → Option Int
  | '-' :: digits => (digitsValue digits).map fun n => -Int.ofNat n
  | digits => (digitsValue digits).map Int.ofNat

/-- Words `key=value` with keys that are known, each of them once. -/
def readFields (known : List String) (words : List Text) : Option (List (Text × Text)) := do
  let fields ← words.mapM (splitOnce '=')
  if (fields.map Prod.fst).Nodup ∧ ∀ key ∈ fields.map Prod.fst, key ∈ known.map String.toList then
    some fields
  else none

def settingKeys : List String :=
  ["boot.mode", "limits.cpu", "limits.memory", "limits.processes", "limits.disk.priority",
    "limits.memory.enforce", "raw.idmap", "security.nesting", "security.devlxd"]

def readInit (pieces : List Piece) : Option Operation := do
  let names ← texts (operands pieces)
  let pools ← texts (values (flagName "storage") pieces)
  let devices ← texts (values (flagName "device") pieces)
  let sizes ← devices.mapM (behind "root,size=".toList)
  let words ← texts (values (flagName "config") pieces)
  let settings ← readFields settingKeys words
  let insecure ← readTurned "uefi-nosecureboot" (settings.lookup "boot.mode".toList)
  let cpu ← ifGiven readId (settings.lookup "limits.cpu".toList)
  let processes ← ifGiven readSigned (settings.lookup "limits.processes".toList)
  let diskPriority ← ifGiven readId (settings.lookup "limits.disk.priority".toList)
  let nesting ← readTurned "true" (settings.lookup "security.nesting".toList)
  let closed ← readTurned "false" (settings.lookup "security.devlxd".toList)
  match names with
  | [image, name] =>
    if IsPlain name then
      some (.createInstance name
        { image
          ephemeral := isGiven (flagName "ephemeral") pieces
          vm := isGiven (flagName "vm") pieces
          secureBoot := !insecure
          cpu
          memory := settings.lookup "limits.memory".toList
          diskSize := sizes.getLast?
          processes
          diskPriority
          memoryEnforce := settings.lookup "limits.memory.enforce".toList
          rawIdmap := settings.lookup "raw.idmap".toList
          securityNesting := nesting }
        pools.getLast? (!isGiven (flagName "no-profiles") pieces) (!closed))
    else none
  | _ => none

def readNic (name devName : Text) (words : List Text) : Option Operation := do
  let fields ← readFields ["nictype", "parent", "limits.ingress", "limits.egress"] words
  let bridge ← fields.lookup "parent".toList
  if fields.lookup "nictype".toList = some "bridged".toList then
    some (.addNic name devName bridge (fields.lookup "limits.ingress".toList)
      (fields.lookup "limits.egress".toList))
  else none

def deviceKeys (kind : Text) : List String :=
  if kind = "proxy".toList then
    ["bind", "connect", "listen", "mode", "uid", "gid", "security.uid", "security.gid"]
  else ["pool", "source", "path", "readonly"]

/-- A proxy listens in the instance. -/
def readDeviceFields (kind : Text) (words : List Text) : Option (Option Text × Device) := do
  let fields ← readFields (deviceKeys kind) words
  let _ ← readTurned "true" (fields.lookup "readonly".toList)
  if kind = "proxy".toList ∧ fields.lookup "bind".toList ≠ some "instance".toList then none
  else readDevice (kind :: words)

/-- The operands behind a name. -/
def readNamed (read : Text → List Text → Option Operation) : List Text → Option Operation
  | name :: rest => if IsPlain name then read name rest else none
  | [] => none

def readName (operation : Text → Operation) : List Text → Option Operation :=
  readNamed fun name rest => if rest = [] then some (operation name) else none

/-- A name, then one pair `key=value`; a dash stands for what the standard input says. -/
def readNamePair (operation : Text → Text → Text → Operation) : List Text → Option Operation :=
  readNamed fun name rest =>
    match rest with
    | [pair] =>
      match splitOnce '=' pair with
      | some (key, value) => if value = ['-'] then none else some (operation name key value)
      | none => none
    | _ => none

def readDeviceAdd (name : Text) : List Text → Option Operation
  | devName :: kind :: words =>
    if kind = "nic".toList then readNic name devName words
    else (readDeviceFields kind words).map fun read => .addDevice name devName read.1 read.2
  | _ => none

def readPush (pieces : List Piece) : Option Operation := do
  let names ← texts (operands pieces)
  let modes ← texts (values (flagName "mode") pieces)
  let uids ← texts (values (flagName "uid") pieces)
  let gids ← texts (values (flagName "gid") pieces)
  let uid ← ifGiven readId uids.getLast?
  let gid ← ifGiven readId gids.getLast?
  match names with
  | [['-'], target] => do
    let (name, path) ← splitOnce '/' target
    if IsPlain name then
      some (.pushFile name path (isGiven (flagName "create-dirs") pieces) modes.getLast? uid gid)
    else none
  | _ => none

def readExec (pieces : List Piece) : Option Operation := do
  let names ← texts (operands pieces)
  let users ← texts (values (flagName "user") pieces)
  let groups ← texts (values (flagName "group") pieces)
  let uid ← ifGiven readId users.getLast?
  let gid ← ifGiven readId groups.getLast?
  readNamed (fun name command =>
    if command = [] then none
    else some (.execute name uid gid (values (flagName "cwd") pieces).getLast?
      (values (flagName "env") pieces) command)) names

def readOperation (pieces : List Piece) : Verb → Option Operation
  | .projectCreate => do
    let words ← texts (values (flagName "config") pieces)
    let settings ← words.mapM (splitOnce '=')
    readName (.createProject · settings) (← texts (operands pieces))
  | .init => readInit pieces
  | .start => do readName .startInstance (← texts (operands pieces))
  | .delete => do
    readName (.deleteInstance · (isGiven (flagName "force") pieces)) (← texts (operands pieces))
  | .deviceAdd => do readNamed readDeviceAdd (← texts (operands pieces))
  | .configSet =>
    if isGiven (flagName "property") pieces then do
      readNamePair .setProperty (← texts (operands pieces))
    else none
  | .filePush => readPush pieces
  | .exec => readExec pieces
  | .networkCreate => do
    let types ← texts (values (flagName "type") pieces)
    readName (.createNetwork · types.getLast?) (← texts (operands pieces))
  | .networkSet => do readNamePair .setNetwork (← texts (operands pieces))
  | .networkGet => do
    readNamed (fun name keys =>
      match keys with
      | [key] => some (.getNetwork name key)
      | _ => none) (← texts (operands pieces))
  | .networkDelete => do readName .deleteNetwork (← texts (operands pieces))
  | .aclCreate => do readName .createAcl (← texts (operands pieces))
  | .aclRuleAdd => do
    readNamed (fun acl args => some (.addAclRule acl args)) (← texts (operands pieces))
  | .aclDelete => do readName .deleteAcl (← texts (operands pieces))

/-- An operation, and the project that it is for. -/
structure Issued where
  project : Option Text
  operation : Operation

def readScope : List (Bytes × Bytes) → Option (Option Text)
  | [] => some none
  | [(flag, project)] =>
    if flag = utf8 "--project".toList then (toStr project).map some else none
  | _ => none

/-- What a command line is described to do; most lines are not described here. -/
def readCommand (argv : List Bytes) : Option Issued := do
  let (options, words) := readOptions (argv.drop 1)
  let project ← readScope options
  let (verb, rest) ← readVerb words
  let pieces ← readWords verb.declared rest
  let operation ← readOperation pieces verb
  return ⟨project, operation⟩

/-- What is relied on of the tool that reads the command lines: it does with those that are
described what is described. -/
def Documented (lxc : List Bytes → Option Issued) : Prop :=
  ∀ argv issued, readCommand argv = some issued → lxc argv = some issued

/-! ## What is meant -/

/-- The limits of containers do not reach virtual machines, whose boot mode does not reach
containers. -/
def effective (config : InstanceConfig) : InstanceConfig :=
  if config.vm then
    { config with
      processes := none
      diskPriority := none
      memoryEnforce := none
      securityNesting := false }
  else { config with secureBoot := true }

/-- What a command of a launch asks `lxc` for. -/
def operation (backend : LxcBackend) : Command → Option Operation
  | .act (.createProject project) =>
    some (.createProject project [("features.images".toList, "true".toList)])
  | .act (.createInstance name config) =>
    some (.createInstance name (effective config) (some backend.pool) false false)
  | .act (.startInstance name) => some (.startInstance name)
  | .act (.deleteInstance name) => some (.deleteInstance name true)
  | .act (.addDevice name devName device) =>
    some (.addDevice name devName (shown backend device).1 (shown backend device).2)
  | .act (.setDescription name description) =>
    some (.setProperty name "description".toList description)
  | .act (.attachToBridge name bridge ingress egress) =>
    some (.addNic name "eth0".toList bridge ingress egress)
  | .act (.writeFile name _ path mode uid gid) =>
    some (.pushFile name path true (some mode) (some uid) (some gid))
  | .act (.createNetwork name) => some (.createNetwork name (some "bridge".toList))
  | .act (.setNetworkDnsmasq name dnsmasq) =>
    some (.setNetwork name "raw.dnsmasq".toList dnsmasq)
  | .act (.setNetworkEgressReject name) =>
    some (.setNetwork name "security.acls.default.egress.action".toList "reject".toList)
  | .act (.attachAclToNetwork network acl) =>
    some (.setNetwork network "security.acls".toList acl)
  | .act (.deleteNetwork name) => some (.deleteNetwork name)
  | .act (.createAcl name) => some (.createAcl name)
  | .act (.addAclRule acl args) => some (.addAclRule acl args)
  | .act (.deleteAcl name) => some (.deleteAcl name)
  | .act (.createCaDir _) | .act .checkTasks | .act (.registerRemote _) => none
  | .ask (.networkIpv4 name) => some (.getNetwork name "ipv4.address".toList)
  | .ask (.execStdout name command) => some (.execute name none none none [] command)
  | .ask (.resolveSecret _) | .ask .resolvConf | .ask .runtimeDir | .ask (.generateCa _) => none
  | .exec name command env cwd uid gid home proxyUrl =>
    some (.execute name (some uid) (some gid) (some cwd)
      ((execEnv env (some home) (some proxyUrl)).map envPair) command)
  | .connect _ _ | .quiet _ => none

/-! ## Reading what was issued -/

theorem readVerb_words (verb : Verb) (rest : List Bytes) :
    readVerb (verb.words ++ rest) = some (verb, rest) := by
  cases verb <;> rfl

theorem isOption_words (verb : Verb) (rest : List Bytes) :
    ∀ word ∈ (verb.words ++ rest).head?, isOption word = false := by
  intro word hword
  cases verb <;>
  · obtain rfl := Option.some.inj hword
    decide

theorem texts_map (list : List Text) : texts (list.map utf8) = some list :=
  InternetAddresses.mapM_map_of_forall fun text _ => (toStr_eq_some_iff _ text).mpr rfl

theorem readSigned_signed (n : Int) : readSigned (signed n) = some n := by
  cases n with
  | ofNat n =>
    have hdigits : ∀ digits, decimal n ≠ '-' :: digits := by
      intro digits heq
      exact notMem_decimal (n := n) (c := '-') (by decide) (by rw [heq]; exact List.mem_cons_self)
    change readSigned (decimal n) = _
    rw [readSigned, digitsValue_decimal]
    · rfl
    · exact hdigits
  | negSucc n =>
    change (digitsValue (decimal (n + 1))).map _ = _
    rw [digitsValue_decimal]
    rfl

/-- The entries of a table with the known keys are read back, as far as they are there. -/
theorem readFields_present {known : List String} {table : List (Text × Option Text)}
    (hkeys : table.map Prod.fst = known.map String.toList)
    (honce : (table.map Prod.fst).Nodup) (hequals : ∀ key ∈ known.map String.toList, '=' ∉ key) :
    readFields known ((present table).map word) = some (present table) := by
  have hsublist := present_keys table
  have hknown : ∀ key ∈ (present table).map Prod.fst, key ∈ known.map String.toList := by
    intro key hkey
    rw [← hkeys]
    exact hsublist.subset hkey
  have hread : ((present table).map word).mapM (splitOnce '=') = some (present table) :=
    mapM_splitOnce_word fun field hfield =>
      hequals _ (hknown _ (List.mem_map_of_mem hfield))
  rw [readFields, hread]
  exact if_pos ⟨hsublist.nodup honce, hknown⟩

theorem readNamed_plain {name : Text} (hname : IsPlain name)
    (read : Text → List Text → Option Operation) (rest : List Text) :
    readNamed read (name :: rest) = read name rest := if_pos hname

theorem readName_plain {name : Text} (hname : IsPlain name) (operation : Text → Operation) :
    readName operation [name] = some (operation name) :=
  (readNamed_plain hname _ []).trans (if_pos rfl)

theorem readNamePair_plain {name key value : Text} (hname : IsPlain name) (hkey : '=' ∉ key)
    (hvalue : value ≠ ['-']) (operation : Text → Text → Text → Operation) :
    readNamePair operation [name, key ++ '=' :: value] = some (operation name key value) := by
  rw [readNamePair, readNamed_plain hname]
  simp only [splitOnce_append hkey, if_neg hvalue]

theorem IsPlain.isOperand {name : Text} (hname : IsPlain name) :
    isOperand (utf8 name) = true := isOperand_utf8 hname.noFlag

section Commands
variable {backend : LxcBackend} {args : List Text} {verb : Verb} {pieces rest : List Piece}
  {tail : List Bytes}

/-- The options of a command for a project, or for none. -/
def projectOptions (project : Option Text) : List (Bytes × Bytes) :=
  (project.map fun project => (utf8 "--project".toList, utf8 project)).toList

theorem isOption_projectOptions (project : Option Text) :
    ∀ option ∈ projectOptions project, isOption option.1 = true := by
  intro option hoption
  obtain ⟨_, _, rfl⟩ := Option.map_eq_some_iff.mp (Option.mem_toList.mp hoption)
  exact (by decide : isOption (utf8 "--project".toList) = true)

theorem readScope_projectOptions (project : Option Text) :
    readScope (projectOptions project) = some project := by
  cases project with
  | none => rfl
  | some project =>
    change (toStr (utf8 project)).map some = _
    rw [(toStr_eq_some_iff _ project).mpr rfl]
    rfl

/-- The scope of a backend without a remote. -/
theorem scopeOptions_eq (hremote : backend.remote = none) :
    backend.scopeOptions = projectOptions backend.project := by
  rw [LxcBackend.scopeOptions, hremote]
  exact List.append_nil _

theorem readCommand_spelled (binary : Bytes) (project : Option Text)
    (hsound : ∀ piece ∈ pieces, piece.Sound verb.declared)
    (htail : readWords verb.declared tail = some rest) :
    readCommand (binary :: (optionWords (projectOptions project) ++
        (verb.words ++ (spell pieces ++ tail)))) =
      (readOperation (pieces ++ rest) verb).map fun operation => ⟨project, operation⟩ := by
  rw [readCommand, List.drop_one, List.tail_cons,
    readOptions_optionWords (isOption_projectOptions project) (isOption_words verb _)]
  simp only [readScope_projectOptions, readVerb_words, Option.bind_eq_bind, Option.bind_some,
    readWords_spell hsound, htail, Option.map_some]
  cases readOperation (pieces ++ rest) verb with
  | none => rfl
  | some operation => rfl

theorem readCommand_scoped (hremote : backend.remote = none)
    (hsound : ∀ piece ∈ pieces, piece.Sound verb.declared)
    (htail : readWords verb.declared tail = some rest) :
    readCommand (utf8 backend.binary :: (optionWords backend.scopeOptions ++
        (verb.words ++ (spell pieces ++ tail)))) =
      (readOperation (pieces ++ rest) verb).map fun operation =>
        ⟨backend.project, operation⟩ := by
  rw [scopeOptions_eq hremote, readCommand_spelled _ _ hsound htail]

theorem readCommand_project (hremote : backend.remote = none)
    (hargs : args.map utf8 = verb.words ++ spell pieces)
    (hsound : ∀ piece ∈ pieces, piece.Sound verb.declared) :
    readCommand (lxcProjectCommand backend args) =
      (readOperation pieces verb).map fun operation => ⟨backend.project, operation⟩ := by
  have hread := readCommand_scoped hremote hsound (rfl : readWords verb.declared [] = some [])
  rw [List.append_nil, List.append_nil] at hread
  rw [lxcProjectCommand, hargs, hread]

theorem readCommand_network (hremote : backend.remote = none)
    (hargs : args.map utf8 = verb.words ++ spell pieces)
    (hsound : ∀ piece ∈ pieces, piece.Sound verb.declared) :
    readCommand (lxcCommand backend args) =
      (readOperation pieces verb).map fun operation => ⟨none, operation⟩ := by
  have hread := readCommand_spelled (utf8 backend.binary) none hsound
    (rfl : readWords verb.declared [] = some [])
  rw [List.append_nil, List.append_nil] at hread
  rw [lxcCommand, hremote, hargs]
  exact hread

end Commands

end LxcCommands
