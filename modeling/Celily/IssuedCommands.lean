import Celily.GeneratedNames
import Celily.InstanceCreation
import Celily.WholeRuns

/-!
# What lxc is told

Whatever texts the configuration and the options put into the commands of a run, each
command line is one that is described, and described as the operation that the launch asks
for: no value is taken for a flag, and nothing is added.
-/

namespace IssuedCommands

open RustText SegmentedLists HostFiles Devices EgressAcl InstanceLifecycle LxcArguments
  DeviceArguments EnvironmentMaps FlagWords JoinedTasks OwnCommands InstanceNames GeneratedNames
  Configuration ContextResolution HostChecks EmbeddedTasks WholeRuns LxcCommands InstanceCreation

/-! ## Every command of a launch -/

/-- The project of a command; networks are in the default one. -/
def projectOf (backend : LxcBackend) : Command → Option Text
  | .act (.createNetwork _) | .act (.setNetworkDnsmasq _ _) | .act (.setNetworkEgressReject _)
  | .act (.attachAclToNetwork _ _) | .act (.deleteNetwork _) | .act (.createAcl _)
  | .act (.addAclRule _ _) | .act (.deleteAcl _) | .ask (.networkIpv4 _) => none
  | _ => backend.project

/-- A command line of a command, if there is one, is taken for what the command asks for. -/
def TakenAsMeant (lxc : List Bytes → Option Issued) (backend : LxcBackend) (c : Command) : Prop :=
  (argv backend c).map lxc = (operation backend c).map fun operation =>
    some ⟨projectOf backend c, operation⟩

/-- An image that looks like a flag is created from, or a project that is not named plainly
is created. -/
def OddlyNamed : Command → Prop
  | .act (.createInstance _ config) => isOperand (utf8 config.image) = false
  | .act (.createProject project) => ¬IsPlain project
  | _ => False

/-- As the command line is described. -/
abbrev ReadAsMeant (backend : LxcBackend) (c : Command) : Prop :=
  TakenAsMeant readCommand backend c

theorem TakenAsMeant.of_described {lxc : List Bytes → Option Issued} (documented : Documented lxc)
    {backend : LxcBackend} {c : Command} (hread : ReadAsMeant backend c) :
    TakenAsMeant lxc backend c := by
  unfold ReadAsMeant TakenAsMeant at *
  cases hargv : argv backend c with
  | none => rwa [hargv] at hread
  | some words =>
    cases hop : operation backend c with
    | none =>
      rw [hargv, hop] at hread
      cases hread
    | some op =>
      rw [hargv, hop] at hread
      exact congrArg some (documented _ _ (Option.some.inj hread))

theorem texts_bind {β : Type} (names : List Text) {words : List Bytes}
    (hwords : words = names.map utf8) (f : List Text → Option β) :
    (texts words).bind f = f names := by
  rw [hwords, texts_map]
  rfl

theorem sound_operands {verb : Verb} {words : List Text}
    (hwords : ∀ word ∈ words, isOperand (utf8 word) = true) :
    ((words.map utf8).map Piece.operand).Forall (Piece.Sound verb.declared) := by
  rw [List.forall_iff_forall_mem]
  intro piece hpiece
  obtain ⟨bytes, hbytes, rfl⟩ := List.mem_map.mp hpiece
  obtain ⟨word, hword, rfl⟩ := List.mem_map.mp hbytes
  exact hwords word hword

theorem operands_deviceArgs (backend : LxcBackend) (device : Device) :
    ∀ word ∈ backend.deviceArgs device, isOperand (utf8 word) = true := by
  have hmount : ∀ (target : Bytes) (access : AccessMode), ∀ word ∈ mountArgs target access,
      isOperand (utf8 word) = true := by
    intro target access word hword
    cases access with
    | readOnly => rcases List.mem_pair.mp hword with rfl | rfl <;> rfl
    | readWrite => obtain rfl := List.mem_singleton.mp hword; rfl
  intro word hword
  cases device with
  | disk source target access =>
    rcases List.mem_append.mp hword with hword | hword
    · rcases List.mem_pair.mp hword with rfl | rfl <;> rfl
    · exact hmount target access word hword
  | volume volume target access =>
    rcases List.mem_append.mp hword with hword | hword
    · simp only [List.mem_cons, List.not_mem_nil, or_false] at hword
      rcases hword with rfl | rfl | rfl <;> rfl
    · exact hmount target access word hword
  | proxy connect listen uid gid hostUid hostGid mode =>
    simp only [LxcBackend.deviceArgs, List.mem_cons, List.not_mem_nil, or_false] at hword
    rcases hword with rfl | rfl | rfl | rfl | rfl | rfl | rfl | rfl | rfl <;> rfl

/-- The properties of a mount that is in the table of a disk. -/
def diskTable (pool source : Option Text) (target : Bytes) (access : AccessMode) :
    List (Text × Option Text) :=
  [("pool".toList, pool), ("source".toList, source), ("path".toList, some (display target)),
    ("readonly".toList, if access = .readOnly then some "true".toList else none)]

theorem readDeviceFields_disk {pool source : Option Text} {target : Bytes} {access : AccessMode}
    {words : List Text} {read : Option Text × Device}
    (hwords : words = (present (diskTable pool source target access)).map word)
    (hread : readDevice ("disk".toList :: words) = some read) :
    readDeviceFields "disk".toList words = some read := by
  have honce : ((diskTable pool source target access).map Prod.fst).Nodup :=
    (by decide : ((deviceKeys "disk".toList).map String.toList).Nodup)
  have hfields : readFields (deviceKeys "disk".toList) words =
      some (present (diskTable pool source target access)) := by
    rw [hwords]
    exact readFields_present rfl honce (by decide)
  rw [readDeviceFields, hfields, hread]
  simp only [Option.bind_eq_bind, Option.bind_some, lookup_present honce]
  cases access <;> rfl

/-- The words of a device behind its type are read as the device, which is no NIC. -/
theorem readDeviceFields_deviceArgs (backend : LxcBackend) (device : Device) :
    ∃ kind words, backend.deviceArgs device = kind :: words ∧ kind ≠ "nic".toList ∧
      readDeviceFields kind words = some (shown backend device) := by
  have hread := readDevice_deviceArgs backend device
  cases device with
  | disk source target access =>
    have hwords : ("source=".toList ++ display source) :: mountArgs target access =
        (present (diskTable none (some (display source)) target access)).map word := by
      cases access <;> rfl
    exact ⟨_, _, rfl, by decide, readDeviceFields_disk hwords hread⟩
  | volume name target access =>
    have hwords : ("pool=".toList ++ backend.pool) :: ("source=".toList ++ name) ::
        mountArgs target access =
          (present (diskTable (some backend.pool) (some name) target access)).map word := by
      cases access <;> rfl
    exact ⟨_, _, rfl, by decide, readDeviceFields_disk hwords hread⟩
  | proxy connect listen uid gid hostUid hostGid mode =>
    let table : List (Text × Option Text) :=
      [("bind".toList, some "instance".toList), ("connect".toList, some connect),
        ("listen".toList, some listen), ("mode".toList, some mode),
        ("uid".toList, some (decimal uid.toNat)), ("gid".toList, some (decimal gid.toNat)),
        ("security.uid".toList, some (decimal hostUid.toNat)),
        ("security.gid".toList, some (decimal hostGid.toNat))]
    have honce : (table.map Prod.fst).Nodup :=
      (by decide : ((deviceKeys "proxy".toList).map String.toList).Nodup)
    have hfields : readFields (deviceKeys "proxy".toList) ((present table).map word) =
        some (present table) := readFields_present rfl honce (by decide)
    have hbind : "bind=instance".toList = word ("bind".toList, "instance".toList) := by decide
    have hargs : backend.deviceArgs (.proxy connect listen uid gid hostUid hostGid mode) =
        "proxy".toList :: (present table).map word := by
      rw [LxcBackend.deviceArgs, hbind]
      rfl
    refine ⟨"proxy".toList, (present table).map word, hargs, by decide, ?_⟩
    rw [hargs] at hread
    rw [readDeviceFields, hread, hfields]
    rfl

/-- What a NIC is given besides its name. -/
def nicTable (bridge : Text) (ingress egress : Option Text) : List (Text × Option Text) :=
  [("nictype".toList, some "bridged".toList), ("parent".toList, some bridge),
    ("limits.ingress".toList, ingress), ("limits.egress".toList, egress)]

theorem readNic_present (name devName bridge : Text) (ingress egress : Option Text) :
    readNic name devName ((present (nicTable bridge ingress egress)).map word) =
      some (.addNic name devName bridge ingress egress) := by
  have honce : ((nicTable bridge ingress egress).map Prod.fst).Nodup :=
    (by decide : (["nictype", "parent", "limits.ingress", "limits.egress"].map
      String.toList).Nodup)
  rw [readNic, readFields_present rfl honce (by decide)]
  simp only [Option.bind_eq_bind, Option.bind_some, lookup_present honce]
  rfl

theorem operands_optional {α : Type} {write : α → Text}
    (hwrite : ∀ a, isOperand (utf8 (write a)) = true) (value : Option α) :
    ∀ word ∈ (value.map write).toList, isOperand (utf8 word) = true := by
  intro word hword
  obtain ⟨a, _, rfl⟩ := Option.map_eq_some_iff.mp (Option.mem_toList.mp hword)
  exact hwrite a

theorem operands_ruleToCliArgs (rule : NetworkAclRule) :
    ∀ word ∈ ruleToCliArgs rule, isOperand (utf8 word) = true := by
  simp only [ruleToCliArgs, List.forall_mem_append, List.forall_mem_cons]
  refine ⟨⟨⟨⟨⟨⟨?_, rfl, by simp⟩, ?_⟩, ?_⟩, ?_⟩, ?_⟩, ?_⟩
  · cases rule.direction <;> rfl
  · exact operands_optional (fun _ => rfl) rule.protocol
  · exact operands_optional (fun _ => rfl) rule.source
  · exact operands_optional (fun _ => rfl) rule.destination
  · exact operands_optional (fun _ => rfl) rule.sourcePort
  · exact operands_optional (fun _ => rfl) rule.destinationPort

/-- What is behind the options of an `exec` is the command, whatever its words look like. -/
theorem readExec_pieces {name : Text} (hplain : IsPlain name) (front : List Piece)
    (hname : operands front = [utf8 name])
    (hnone : values (flagName "env") front = []) (env : List Bytes) {command : List Text}
    (hcommand : command ≠ []) :
    readExec (front ++ env.map (.option (flagName "env")) ++ (command.map utf8).map .operand) =
      (do
        let users ← texts (values (flagName "user") front)
        let groups ← texts (values (flagName "group") front)
        let uid ← ifGiven readId users.getLast?
        let gid ← ifGiven readId groups.getLast?
        some (.execute name uid gid (values (flagName "cwd") front).getLast? env command)) := by
  have hnames : operands (front ++ env.map (.option (flagName "env")) ++
      (command.map utf8).map .operand) = (name :: command).map utf8 := by
    rw [operands_append, operands_append, hname, operands_map_option, operands_map_operand]
    rfl
  have henv : values (flagName "env") (front ++ env.map (.option (flagName "env")) ++
      (command.map utf8).map .operand) = env := by
    rw [values_append, values_append, hnone, values_map_option, values_map_operand,
      List.nil_append, List.append_nil]
  have hother : ∀ flag : String, flagName "env" ≠ flagName flag →
      values (flagName flag) (front ++ env.map (.option (flagName "env")) ++
        (command.map utf8).map .operand) = values (flagName flag) front := by
    intro flag hne
    rw [values_append, values_append, values_map_option_ne hne, values_map_operand,
      List.append_nil, List.append_nil]
  rw [readExec, hnames, texts_map, henv, hother "user" (by decide), hother "group" (by decide),
    hother "cwd" (by decide)]
  simp only [Option.bind_eq_bind, Option.bind_some, readNamed_plain hplain, if_neg hcommand]

theorem optionWords_envPair (env : List (Text × Bytes)) :
    optionWords (env.map fun entry => (utf8 "--env".toList, envPair entry)) =
      spell ((env.map envPair).map (.option (flagName "env"))) := by
  induction env with
  | nil => rfl
  | cons entry env ih =>
    rw [List.map_cons, optionWords, List.flatMap_cons]
    exact congrArg _ ih

section Meant
variable {backend : LxcBackend} (hremote : backend.remote = none)
include hremote

theorem read_project {args : List Text} {op : Operation} (verb : Verb) (pieces : List Piece)
    (hargs : args.map utf8 = verb.words ++ spell pieces)
    (hsound : pieces.Forall (Piece.Sound verb.declared))
    (hop : readOperation pieces verb = some op) :
    some (readCommand (lxcProjectCommand backend args)) =
      some (some ⟨backend.project, op⟩) := by
  rw [readCommand_project hremote hargs (List.forall_iff_forall_mem.mp hsound), hop]
  rfl

theorem read_network {args : List Text} {op : Operation} (verb : Verb) (pieces : List Piece)
    (hargs : args.map utf8 = verb.words ++ spell pieces)
    (hsound : pieces.Forall (Piece.Sound verb.declared))
    (hop : readOperation pieces verb = some op) :
    some (readCommand (lxcCommand backend args)) = some (some ⟨none, op⟩) := by
  rw [readCommand_network hremote hargs (List.forall_iff_forall_mem.mp hsound), hop]
  rfl

variable {name other : Text} (hname : IsPlain name)
include hname

theorem readAsMeant_start : ReadAsMeant backend (.act (.startInstance name)) :=
  read_project hremote .start [.operand (utf8 name)] rfl hname.isOperand
    ((texts_bind [name] rfl _).trans (readName_plain hname _))

theorem readAsMeant_delete : ReadAsMeant backend (.act (.deleteInstance name)) :=
  read_project hremote .delete [.switch (flagName "force"), .operand (utf8 name)] rfl
    ⟨sound_switch (by decide), hname.isOperand⟩
    ((texts_bind [name] rfl _).trans (readName_plain hname _))

theorem readAsMeant_createProject : ReadAsMeant backend (.act (.createProject name)) :=
  read_project hremote .projectCreate
    [.operand (utf8 name), .option (flagName "config") (utf8 "features.images=true".toList)] rfl
    ⟨hname.isOperand, sound_option (by decide) _⟩
    ((texts_bind [name] rfl _).trans (readName_plain hname _))

theorem readAsMeant_create {config : InstanceConfig}
    (himage : isOperand (utf8 config.image) = true) :
    ReadAsMeant backend (.act (.createInstance name config)) :=
  congrArg some (readCommand_create backend name config hremote hname himage)

theorem readAsMeant_setDescription {description : Text} (hdash : description ≠ ['-']) :
    ReadAsMeant backend (.act (.setDescription name description)) :=
  read_project hremote .configSet
    [.operand (utf8 name), .switch (flagName "property"),
      .operand (utf8 ("description".toList ++ '=' :: description))] rfl
    ⟨hname.isOperand, sound_switch (by decide), rfl⟩
    ((texts_bind [name, "description".toList ++ '=' :: description] rfl _).trans
      (readNamePair_plain hname (by decide) hdash _))

theorem readAsMeant_addDevice (hother : isOperand (utf8 other) = true) (device : Device) :
    ReadAsMeant backend (.act (.addDevice name other device)) := by
  have hwords : ∀ word ∈ name :: other :: backend.deviceArgs device,
      isOperand (utf8 word) = true := by
    rw [List.forall_mem_cons, List.forall_mem_cons]
    exact ⟨hname.isOperand, hother, operands_deviceArgs backend device⟩
  refine read_project hremote .deviceAdd
    (((name :: other :: backend.deviceArgs device).map utf8).map .operand) ?_
    (sound_operands hwords) ?_
  · rw [spell_operands]
    rfl
  · refine (texts_bind (name :: other :: backend.deviceArgs device)
      (operands_map_operand _) _).trans ((readNamed_plain hname _ _).trans ?_)
    obtain ⟨kind, words, heq, hkind, hread⟩ := readDeviceFields_deviceArgs backend device
    rw [heq, readDeviceAdd, if_neg hkind, hread]
    rfl

theorem readAsMeant_attachToBridge (bridge : Text) (ingress egress : Option Text) :
    ReadAsMeant backend (.act (.attachToBridge name bridge ingress egress)) := by
  let words : List Text := name :: "eth0".toList :: "nic".toList :: "nictype=bridged".toList ::
    ("parent=".toList ++ bridge) ::
      ((ingress.map ("limits.ingress=".toList ++ ·)).toList ++
        (egress.map ("limits.egress=".toList ++ ·)).toList)
  have hwords : ∀ word ∈ words, isOperand (utf8 word) = true := by
    simp only [words, List.forall_mem_cons, List.forall_mem_append]
    exact ⟨hname.isOperand, rfl, rfl, rfl, rfl, operands_optional (fun _ => rfl) ingress,
      operands_optional (fun _ => rfl) egress⟩
  have hnic : words = name :: "eth0".toList :: "nic".toList ::
      (present (nicTable bridge ingress egress)).map word := by
    cases ingress <;> cases egress <;> rfl
  refine read_project hremote .deviceAdd ((words.map utf8).map .operand) ?_
    (sound_operands hwords) ?_
  · rw [spell_operands]
    rfl
  · refine (texts_bind words (operands_map_operand _) _).trans ?_
    rw [hnic, readNamed_plain hname, readDeviceAdd, if_pos rfl]
    exact readNic_present name "eth0".toList bridge ingress egress

theorem readAsMeant_writeFile (content path mode : Text) (uid gid : UInt32) :
    ReadAsMeant backend (.act (.writeFile name content path mode uid gid)) := by
  have htarget : (name ++ '/' :: path).head? ≠ some '-' := by
    have hhead := hname.noFlag
    cases name with
    | nil => exact (by decide : some '/' ≠ some '-')
    | cons c name => exact hhead
  refine read_project hremote .filePush
    [.operand (utf8 ['-']), .operand (utf8 (name ++ '/' :: path)), .switch (flagName "create-dirs"),
      .option (flagName "mode") (utf8 mode), .option (flagName "uid") (utf8 (decimal uid.toNat)),
      .option (flagName "gid") (utf8 (decimal gid.toNat))] rfl
    ⟨rfl, isOperand_utf8 htarget, sound_switch (by decide), sound_option (by decide) _,
      sound_option (by decide) _, sound_option (by decide) _⟩ ?_
  refine (texts_bind [['-'], name ++ '/' :: path] rfl _).trans ?_
  refine (texts_bind [mode] rfl _).trans ?_
  refine (texts_bind [decimal uid.toNat] rfl _).trans ?_
  refine (texts_bind [decimal gid.toNat] rfl _).trans ?_
  have huid : ifGiven readId [decimal uid.toNat].getLast? = some (some uid) :=
    ifGiven_map readId_decimal (some uid)
  have hgid : ifGiven readId [decimal gid.toNat].getLast? = some (some gid) :=
    ifGiven_map readId_decimal (some gid)
  simp only [huid, hgid, Option.bind_eq_bind, Option.bind_some, splitOnce_append hname.noPath,
    if_pos hname]
  rfl

theorem readAsMeant_createNetwork : ReadAsMeant backend (.act (.createNetwork name)) :=
  read_network hremote .networkCreate
    [.operand (utf8 name), .option (flagName "type") (utf8 "bridge".toList)] rfl
    ⟨hname.isOperand, sound_option (by decide) _⟩
    ((texts_bind [name] rfl _).trans (readName_plain hname _))

theorem readAsMeant_setNetwork (key : Text) {value : Text}
    (hkey : isOperand (utf8 (key ++ '=' :: value)) = true) (hequals : '=' ∉ key)
    (hdash : value ≠ ['-']) :
    some (readCommand (lxcCommand backend
        ["network".toList, "set".toList, name, key ++ '=' :: value])) =
      some (some ⟨none, .setNetwork name key value⟩) :=
  read_network hremote .networkSet
    [.operand (utf8 name), .operand (utf8 (key ++ '=' :: value))] rfl ⟨hname.isOperand, hkey⟩
    ((texts_bind [name, key ++ '=' :: value] rfl _).trans
      (readNamePair_plain hname hequals hdash _))

theorem readAsMeant_setNetworkDnsmasq {dnsmasq : Text} (hdash : dnsmasq ≠ ['-']) :
    ReadAsMeant backend (.act (.setNetworkDnsmasq name dnsmasq)) :=
  readAsMeant_setNetwork hremote hname "raw.dnsmasq".toList rfl (by decide) hdash

theorem readAsMeant_setNetworkEgressReject :
    ReadAsMeant backend (.act (.setNetworkEgressReject name)) :=
  readAsMeant_setNetwork hremote hname "security.acls.default.egress.action".toList rfl
    (by decide) (by decide : "reject".toList ≠ ['-'])

theorem readAsMeant_attachAclToNetwork {acl : Text} (hdash : acl ≠ ['-']) :
    ReadAsMeant backend (.act (.attachAclToNetwork name acl)) :=
  readAsMeant_setNetwork hremote hname "security.acls".toList rfl (by decide) hdash

theorem readAsMeant_deleteNetwork : ReadAsMeant backend (.act (.deleteNetwork name)) :=
  read_network hremote .networkDelete [.operand (utf8 name)] rfl hname.isOperand
    ((texts_bind [name] rfl _).trans (readName_plain hname _))

theorem readAsMeant_createAcl : ReadAsMeant backend (.act (.createAcl name)) :=
  read_network hremote .aclCreate [.operand (utf8 name)] rfl hname.isOperand
    ((texts_bind [name] rfl _).trans (readName_plain hname _))

theorem readAsMeant_deleteAcl : ReadAsMeant backend (.act (.deleteAcl name)) :=
  read_network hremote .aclDelete [.operand (utf8 name)] rfl hname.isOperand
    ((texts_bind [name] rfl _).trans (readName_plain hname _))

theorem readAsMeant_addAclRule (rule : NetworkAclRule) :
    ReadAsMeant backend (.act (.addAclRule name (ruleToCliArgs rule))) := by
  have hwords : ∀ word ∈ name :: ruleToCliArgs rule, isOperand (utf8 word) = true :=
    List.forall_mem_cons.mpr ⟨hname.isOperand, operands_ruleToCliArgs rule⟩
  refine read_network hremote .aclRuleAdd (((name :: ruleToCliArgs rule).map utf8).map .operand)
    ?_ (sound_operands hwords) ?_
  · rw [spell_operands]
    rfl
  · exact (texts_bind (name :: ruleToCliArgs rule) (operands_map_operand _) _).trans
      (readNamed_plain hname _ _)

theorem readAsMeant_networkIpv4 : ReadAsMeant backend (.ask (.networkIpv4 name)) :=
  read_network hremote .networkGet
    [.operand (utf8 name), .operand (utf8 "ipv4.address".toList)] rfl ⟨hname.isOperand, rfl⟩
    ((texts_bind [name, "ipv4.address".toList] rfl _).trans (readNamed_plain hname _ _))

theorem readAsMeant_execStdout {command : List Text} (hcommand : command ≠ []) :
    ReadAsMeant backend (.ask (.execStdout name command)) := by
  have hsound : ∀ piece ∈ [Piece.operand (utf8 name)], piece.Sound Verb.exec.declared := by
    intro piece hpiece
    obtain rfl := List.mem_singleton.mp hpiece
    exact hname.isOperand
  have hread := readCommand_scoped hremote hsound (readWords_dashes (command.map utf8))
  have hop : readOperation ([.operand (utf8 name)] ++ (command.map utf8).map .operand) .exec =
      some (.execute name none none none [] command) :=
    readExec_pieces hname [.operand (utf8 name)] rfl rfl [] hcommand
  rw [hop] at hread
  exact congrArg some hread

theorem readAsMeant_exec {command : List Text} (hcommand : command ≠ [])
    (env : List (Text × Text)) (cwd : Bytes) (uid gid : UInt32) (home : Bytes) (proxyUrl : Text) :
    ReadAsMeant backend (.exec name command env cwd uid gid home proxyUrl) := by
  let front : List Piece := [.operand (utf8 name),
    .option (flagName "user") (utf8 (decimal uid.toNat)),
    .option (flagName "group") (utf8 (decimal gid.toNat)), .option (flagName "cwd") cwd]
  let pairs := (execEnv env (some home) (some proxyUrl)).map envPair
  have hsound : ∀ piece ∈ front ++ pairs.map (.option (flagName "env")),
      piece.Sound Verb.exec.declared := by
    simp only [front, List.forall_mem_append, List.forall_mem_cons]
    refine ⟨⟨hname.isOperand, sound_option (by decide) _, sound_option (by decide) _,
      sound_option (by decide) _, by simp⟩, fun piece hpiece => ?_⟩
    obtain ⟨pair, _, rfl⟩ := List.mem_map.mp hpiece
    exact sound_option (by decide) pair
  have hread := readCommand_scoped hremote hsound (readWords_dashes (command.map utf8))
  have hop : readOperation (front ++ pairs.map (.option (flagName "env")) ++
      (command.map utf8).map .operand) .exec =
        some (.execute name (some uid) (some gid) (some cwd) pairs command) := by
    refine (readExec_pieces hname front rfl rfl pairs hcommand).trans ?_
    have huid : ifGiven readId [decimal uid.toNat].getLast? = some (some uid) :=
      ifGiven_map readId_decimal (some uid)
    have hgid : ifGiven readId [decimal gid.toNat].getLast? = some (some gid) :=
      ifGiven_map readId_decimal (some gid)
    refine (texts_bind [decimal uid.toNat] rfl _).trans ?_
    refine (texts_bind [decimal gid.toNat] rfl _).trans ?_
    simp only [huid, hgid, Option.bind_eq_bind, Option.bind_some]
    rfl
  rw [hop, spell_append, ← optionWords_envPair, List.append_assoc] at hread
  exact congrArg some hread

end Meant

/-! ## Every run -/

theorem plain_of_fits {limit : Nat} {name image : Text} (hfits : Fits limit name)
    (hhead : name.head? = (sanitizedImagePrefix image).head?) : IsPlain name := by
  obtain ⟨hnonempty, _, halnum⟩ := sanitizedImagePrefix_spec image
  refine ⟨fun hempty => ?_, fun hflag => ?_, fun hmem => ?_, fun hmem => ?_⟩
  · rw [hempty] at hhead
    exact hnonempty (List.head?_eq_none_iff.mp hhead.symm)
  · rw [hhead] at hflag
    exact alphanum_ne_hyphen (halnum _ (List.mem_of_mem_head? hflag)) rfl
  · exact absurd (hfits.2 _ hmem) (by decide)
  · exact absurd (hfits.2 _ hmem) (by decide)

section Runs
variable {cfg : LaunchConfig} {plan : Plan} {backend : LxcBackend}

/-- The run's own commands are read as meant, but for oddly named images and projects. -/
theorem readAsMeant_own (hremote : backend.remote = none) (hinstance : IsPlain cfg.name)
    (hnetwork : IsPlain cfg.bridgeName) (hdescription : cfg.description ≠ ['-']) {c : Command}
    (hown : Own cfg plan c) (hodd : ¬OddlyNamed c) : ReadAsMeant backend c := by
  cases c with
  | act a =>
    cases a with
    | createProject project => exact readAsMeant_createProject hremote (not_not.mp hodd)
    | createInstance name config =>
      exact hown.1 ▸ readAsMeant_create hremote hinstance (Bool.not_eq_false _ |>.mp hodd)
    | startInstance name => exact hown ▸ readAsMeant_start hremote hinstance
    | deleteInstance name => exact hown ▸ readAsMeant_delete hremote hinstance
    | addDevice name devName device =>
      obtain ⟨rfl, _, kind, hkind, n, rfl⟩ := hown
      refine readAsMeant_addDevice hremote hinstance ?_ device
      rcases List.mem_pair.mp hkind with rfl | rfl
      · rfl
      · rfl
    | setDescription name description =>
      obtain ⟨rfl, rfl⟩ := hown
      exact readAsMeant_setDescription hremote hinstance hdescription
    | attachToBridge name bridge ingress egress =>
      exact hown.1 ▸ readAsMeant_attachToBridge hremote hinstance bridge ingress egress
    | writeFile name content path mode uid gid =>
      exact hown ▸ readAsMeant_writeFile hremote hinstance content path mode uid gid
    | createNetwork name => exact hown ▸ readAsMeant_createNetwork hremote hnetwork
    | setNetworkDnsmasq name dnsmasq =>
      obtain ⟨rfl, gateway, port, rfl⟩ := hown
      refine readAsMeant_setNetworkDnsmasq hremote hnetwork fun hdash => ?_
      have hhead := congrArg List.head? hdash
      exact absurd hhead (by decide : some 'n' ≠ some '-')
    | setNetworkEgressReject name =>
      exact hown ▸ readAsMeant_setNetworkEgressReject hremote hnetwork
    | attachAclToNetwork network acl =>
      obtain ⟨rfl, rfl⟩ := hown
      refine readAsMeant_attachAclToNetwork hremote hnetwork fun hdash => ?_
      exact hnetwork.noFlag (congrArg List.head? hdash)
    | deleteNetwork name => exact hown ▸ readAsMeant_deleteNetwork hremote hnetwork
    | createAcl name => exact hown ▸ readAsMeant_createAcl hremote hnetwork
    | addAclRule acl args =>
      obtain ⟨rfl, rule, rfl⟩ := hown
      exact readAsMeant_addAclRule hremote hnetwork rule
    | deleteAcl name => exact hown ▸ readAsMeant_deleteAcl hremote hnetwork
    | createCaDir dir => rfl
    | checkTasks => rfl
    | registerRemote branch => rfl
  | ask q =>
    cases q with
    | networkIpv4 name => exact hown ▸ readAsMeant_networkIpv4 hremote hnetwork
    | execStdout name command =>
      obtain ⟨rfl, hcommand⟩ := hown
      exact readAsMeant_execStdout hremote hinstance hcommand
    | resolveSecret item => rfl
    | resolvConf => rfl
    | runtimeDir => rfl
    | generateCa dir => rfl
  | exec name command env cwd uid gid home proxyUrl =>
    obtain ⟨rfl, hcommand⟩ := hown
    exact readAsMeant_exec hremote hinstance hcommand env cwd uid gid home proxyUrl
  | connect address port => rfl
  | quiet q => rfl

end Runs

def backendOf (cfg : BackendConfig) : LxcBackend :=
  { (match cfg.kind.getD .lxd with
    | .lxd => LxcBackend.lxd
    | .incus => LxcBackend.incus) with
    project := cfg.project
    pool := cfg.pool.getD "default".toList }

theorem backendOf_remote (cfg : BackendConfig) : (backendOf cfg).remote = none := by
  rw [backendOf]
  cases cfg.kind.getD .lxd <;> rfl

theorem context_texts {inv : Invocation} {cfg : Config} {homeDir : Bytes} {canonical : Canonical}
    {ctx : RunContext} (hok : context inv cfg homeDir canonical = .ok ctx) :
    ctx.description ≠ ['-'] ∧
      ctx.name = inv.options.name.getD
        (instanceName inv.cwd homeDir ctx.image inv.instanceUuid) := by
  rw [context, resolveContext] at hok
  simp only [bind_eq_ok, withContext_eq_ok, ofIo_eq_ok, mapM_eq_ok] at hok
  obtain ⟨_, _, _, _, _, _, _, _, _, _, _, _, _, _, _, _, hpure⟩ := hok
  cases hpure
  refine ⟨fun hdash => ?_, rfl⟩
  exact absurd (congrArg List.head? hdash) (by decide : some 'c' ≠ some '-')

section Program
variable {debug : Text → Text} {initScript : Text} {polls : Nat} {inv : Invocation}

/-- At every moment: what has been issued to `lxc`, with the backend of the configuration,
is taken for what the launch means, but for oddly named images and projects. -/
theorem issued_asMeant {lxc : List Bytes → Option Issued} (documented : Documented lxc)
    {h : List (Event ProgramReply)} {t : Task ProgramReply (Except RunError Int)} {c : Command}
    (hname : ∀ name, inv.options.name = some name → IsPlain name)
    (trace : Trace (run debug initScript polls inv).run h t) (issued : .issued (.inr c) ∈ h)
    (hodd : ¬OddlyNamed c) :
    ∃ cfg, loadedConfig inv = .ok cfg ∧ TakenAsMeant lxc (backendOf cfg.backend) c := by
  obtain ⟨k, r, hrun⟩ := trace.extends anyReply
  have hmem := List.mem_append_left k issued
  rcases run_cases hrun with ⟨checks, chain, heq, _⟩ |
    ⟨checks, launched, prepared, result, heq, hchecked, hlaunch, _⟩
  · rw [heq, ← List.append_nil (checks.map onHost.event)] at hmem
    have hnone : .issued c ∈ ([] : List (Event Reply)) := issued_mem hmem
    cases hnone
  rw [heq] at hmem
  have hown := own_runInstance _ _ _ _ launched result hlaunch _ (issued_mem hmem)
  obtain ⟨homeDir, canonical, _, _, hctx⟩ := hchecked.resolved
  obtain ⟨hdescription, hcontext⟩ := context_texts hctx
  have hplain : IsPlain prepared.ctx.name := by
    rw [hcontext]
    cases hoption : inv.options.name with
    | none => exact plain_of_fits (instanceName_fits _ _ _ _) (head_instanceName _ _ _ _)
    | some name => exact hname name hoption
  have hnetwork : IsPlain (launchConfig prepared).bridgeName :=
    plain_of_fits (bridgeName_fits _ _) (head_bridgeName _ _)
  refine ⟨prepared.cfg, hchecked.loaded, .of_described documented ?_⟩
  exact readAsMeant_own (backendOf_remote _) hplain hnetwork hdescription hown hodd

end Program

def startedIn (h : List (Event ProgramReply)) : List Text :=
  h.filterMap fun
    | .issued (.inr (.act (.startInstance name))) => some name
    | _ => none

theorem mem_of_startedIn {h : List (Event ProgramReply)} {name : Text}
    (hmem : name ∈ startedIn h) : .issued (.inr (.act (.startInstance name))) ∈ h := by
  obtain ⟨e, he, heq⟩ := List.mem_filterMap.mp hmem
  split at heq
  · obtain rfl := Option.some.inj heq
    exact he
  · cases heq

/-- The instance of the example is started as it is meant. -/
theorem issued_asMeant_work : ∃ cfg, loadedConfig workInvocation = .ok cfg ∧
    TakenAsMeant readCommand (backendOf cfg.backend)
      (.act (.startInstance "celily-home-work-00000000".toList)) := by
  have hstarted : "celily-home-work-00000000".toList ∈ startedIn workRun.1 := by
    decide +kernel
  have trace : Trace (run id [] 1 workInvocation).run workRun.1 (.done workRun.2) :=
    runs_play userReply _
  exact issued_asMeant (fun _ _ hread => hread) (fun _ hgiven => by cases hgiven) trace
    (mem_of_startedIn hstarted) id

end IssuedCommands
