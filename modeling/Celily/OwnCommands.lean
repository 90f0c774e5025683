import Celily.LifecycleTraces

/-!
# What a run lays hands on

Every command of a run, in whatever order and after whatever failures, names the run's
own instance, bridge and ACL, the directory named after the bridge and the remote of its
worktree; and what it attaches to the instance are its own devices.
-/

namespace OwnCommands

open RustText HostPaths BridgeSubnets EgressAcl Devices JoinedTasks InstanceLifecycle
  LifecycleTraces NetworkRules

/-- The mounts of the run as devices. -/
def disks (cfg : LaunchConfig) : List Device :=
  cfg.mounts.map fun mount => .disk mount.source mount.target mount.access

/-- The directory of the CA of a bridge. -/
def IsCaDir (bridgeName : Text) (dir : Bytes) : Prop :=
  ∃ runtimeDir, dir = join (utf8 runtimeDir) (utf8 ("celily-proxelar-".toList ++ bridgeName))

def OwnAct (cfg : LaunchConfig) (plan : Plan) : Act → Prop
  | .createProject project => cfg.project = some project
  | .createInstance name config => name = cfg.name ∧ config = cfg.instanceConfig
  | .startInstance name | .deleteInstance name => name = cfg.name
  | .addDevice name devName device => name = cfg.name ∧ device ∈ disks cfg ++ cfg.extraDevices ∧
      ∃ kind ∈ ["mount", "extra"], ∃ n, devName = kind.toList ++ decimal n
  | .setDescription name description => name = cfg.name ∧ description = cfg.description
  | .writeFile name _ _ _ _ _ => name = cfg.name
  | .attachToBridge name bridge _ _ => name = cfg.name ∧ bridge = cfg.bridgeName
  | .createNetwork name | .setNetworkEgressReject name | .deleteNetwork name =>
    name = cfg.bridgeName
  | .setNetworkDnsmasq name dnsmasq => name = cfg.bridgeName ∧
      ∃ gateway port, dnsmasq = buildDnsmasqConfig gateway port
  | .attachAclToNetwork network acl => network = cfg.bridgeName ∧ acl = cfg.bridgeName
  | .createAcl name | .deleteAcl name => name = cfg.bridgeName
  | .addAclRule acl args => acl = cfg.bridgeName ∧ ∃ rule, args = ruleToCliArgs rule
  | .createCaDir dir => IsCaDir cfg.bridgeName dir
  | .checkTasks => True
  | .registerRemote branch => ∃ worktree, plan.worktree = some worktree ∧
      branch = worktree.branchName

def Own (cfg : LaunchConfig) (plan : Plan) : Command → Prop
  | .act a => OwnAct cfg plan a
  | .ask (.networkIpv4 name) => name = cfg.bridgeName
  | .ask (.execStdout name command) => name = cfg.name ∧ command ≠ []
  | .ask (.generateCa dir) => IsCaDir cfg.bridgeName dir
  | .ask _ => True
  | .exec name command _ _ _ _ _ _ => name = cfg.name ∧ command ≠ []
  | .connect _ _ => True
  | .quiet (.removeCaDir dir) => IsCaDir cfg.bridgeName dir
  | .quiet (.unregisterRemote branch) => ∃ worktree, plan.worktree = some worktree ∧
      branch = worktree.branchName
  | .quiet _ => True

section Own
variable {cfg : LaunchConfig} {plan : Plan}

theorem own_delete {a : Act} {keep : Bool} (ha : OwnAct cfg plan a) :
    Emits (Own cfg plan) (if keep then .done () else logged a : Task Reply Unit) := by
  split
  · exact emits_done ()
  · exact emits_call (by exact ha) fun _ => emits_done ()

theorem own_quiet {q : Quiet} (hq : Own cfg plan (.quiet q)) :
    Emits (Own cfg plan) (quiet q) :=
  emits_call hq fun _ => emits_done ()

theorem own_dropInstance : Emits (Own cfg plan) (dropInstance cfg) := own_delete rfl

theorem own_dropBridgeGuard {keep : Bool} :
    Emits (Own cfg plan) (dropBridgeGuard cfg.bridgeName keep) :=
  emits_bind (own_delete rfl) fun _ => own_delete rfl

theorem own_createBridge (params : CreateBridgeParams) :
    Emits (Own cfg plan) (createBridge cfg.bridgeName params).run := by
  have hact : ∀ a, OwnAct cfg plan a → Emits (Own cfg plan) (act .bridge a).run :=
    fun a ha => emits_request (by exact ha)
  have hsubnet : Emits (Own cfg plan) (getSubnet cfg.bridgeName).run := by
    refine emits_seq (emits_request rfl) fun raw => ?_
    split
    · exact emits_done _
    · exact emits_done _
  refine emits_seq (hact _ rfl) fun _ => emits_guarded (own_delete rfl) ?_
  refine emits_seq hsubnet fun subnet => emits_seq (hact _ rfl) fun _ =>
    emits_guarded (own_delete rfl) ?_
  have hrules : Emits (Own cfg plan) (each (addRule cfg.bridgeName)
      (buildRulesFromParams params subnet.gateway.display)).run :=
    emits_each fun rule _ => hact (.addAclRule cfg.bridgeName (ruleToCliArgs rule)) ⟨rfl, rule, rfl⟩
  have hdnsmasq := hact (.setNetworkDnsmasq cfg.bridgeName
    (buildDnsmasqConfig subnet.gateway.display params.dnsPort)) ⟨rfl, _, _, rfl⟩
  refine emits_seq (emits_lift (emits_both hrules hdnsmasq)) fun results => ?_
  refine emits_seq (emits_ofResult _) fun _ => emits_seq (emits_ofResult _) fun _ => ?_
  exact emits_seq (hact _ rfl) fun _ => emits_seq (hact _ ⟨rfl, rfl⟩) fun _ => emits_done _

theorem own_startProxies (polls : Nat) (subnet : BridgeSubnet) (rules : List NetworkRule)
    (authSecrets : SecretMap) :
    Emits (Own cfg plan) (startProxies polls cfg.bridgeName subnet rules authSecrets).run := by
  refine emits_seq (emits_request trivial) fun resolvConf => ?_
  split
  · exact emits_done _
  · refine emits_seq (emits_request trivial) fun runtimeDir => ?_
    have hdir : IsCaDir cfg.bridgeName
        (join (utf8 runtimeDir) (utf8 ("celily-proxelar-".toList ++ cfg.bridgeName))) :=
      ⟨runtimeDir, rfl⟩
    refine emits_seq (emits_request (by exact hdir)) fun _ =>
      emits_guarded (own_quiet hdir) ?_
    refine emits_seq (emits_request (by exact hdir)) fun caCert =>
      emits_seq (emits_lift (own_quiet trivial)) fun _ =>
        emits_seq (emits_lift (own_quiet trivial)) fun _ => ?_
    refine emits_seq (emits_guarded (own_quiet trivial) ?_) fun _ => emits_done _
    exact emits_waitUntilReady trivial trivial polls

/-- A run to a value says so of the value. -/
abbrev Returns {α : Type} (x : Launch α) (Q : α → Prop) : Prop :=
  Succeeds (fun _ => True) x fun a _ => Q a

theorem returns_anything {α : Type} (x : Launch α) : Returns x fun _ => True :=
  fun _ _ _ _ _ => ⟨fun _ _ => trivial, trivial⟩

theorem Returns.of_runs {α : Type} {x : Launch α} {Q : α → Prop} (hx : Returns x Q)
    {h : List (Event Reply)} {a : α} (hrun : Runs x.run h (.ok a)) : Q a :=
  (hx h h a (fun _ he => he) hrun).2

/-- The directory that is dropped in the end is the one that was created. -/
theorem returns_startProxies (polls : Nat) (bridgeName : Text) (subnet : BridgeSubnet)
    (rules : List NetworkRule) (authSecrets : SecretMap) :
    Returns (startProxies polls bridgeName subnet rules authSecrets) fun isolation =>
      IsCaDir bridgeName isolation.caDir := by
  refine succeeds_seq (returns_anything _) fun resolvConf => ?_
  split
  · exact succeeds_throw _ _
  · refine succeeds_seq (returns_anything _) fun runtimeDir =>
      succeeds_seq (returns_anything _) fun _ => succeeds_guarded ?_
    refine succeeds_seq (returns_anything _) fun caCert => succeeds_seq (returns_anything _)
      fun _ => succeeds_seq (returns_anything _) fun _ => succeeds_seq (returns_anything _)
      fun _ => ?_
    exact succeeds_pure fun _ _ _ _ _ _ _ _ => ⟨runtimeDir, rfl⟩

theorem returns_setup (polls : Nat) (bridge : Text) (params : CreateBridgeParams)
    (allow : List NetworkRule) (provider : Bool) :
    Returns (setup polls bridge params allow provider) fun isolation =>
      IsCaDir bridge isolation.caDir := by
  refine succeeds_seq (returns_anything _) fun subnet => succeeds_guarded ?_
  refine succeeds_seq (returns_anything _) fun authSecrets => ?_
  exact (returns_startProxies polls bridge subnet allow authSecrets).mono fun _ _ hdir _ _ => hdir

theorem isCaDir_joined {polls : Nat} {bridge : Text} {params : CreateBridgeParams}
    {allow : List NetworkRule} {provider : Bool} {β : Type} {r : Task Reply β}
    {h : List (Event Reply)} {results : Except LaunchError Isolation × β}
    (hrun : Runs (both (setup polls bridge params allow provider).run r) h results)
    {isolation : Isolation} (hok : results.1 = .ok isolation) :
    IsCaDir bridge isolation.caDir := by
  obtain ⟨hl, hr, _, hsetup, _⟩ := runs_both hrun
  rw [hok] at hsetup
  exact (returns_setup polls bridge params allow provider).of_runs hsetup

theorem returns_init (cfg : LaunchConfig) (isFile : Bytes → Bool) (polls : Nat) :
    Returns (init cfg isFile polls) fun isolation => IsCaDir cfg.bridgeName isolation.caDir := by
  refine succeeds_seq (returns_anything _) fun _ => succeeds_guarded ?_
  have hboth : Returns (ExceptT.lift (both
      (setup polls cfg.bridgeName (toCreateBridgeParams cfg.allow cfg.keep) cfg.allow
        cfg.provider).run (attachDevices cfg isFile).run)) fun results =>
      ∀ isolation, results.1 = .ok isolation → IsCaDir cfg.bridgeName isolation.caDir := by
    intro k h results _ hrun
    obtain ⟨_, heq, hjoined⟩ := runs_lift.mp hrun
    cases heq
    exact ⟨fun _ _ => trivial, fun isolation hok => isCaDir_joined hjoined hok⟩
  have hgot : ∀ result : Except LaunchError Isolation,
      Returns (ofResult result) fun isolation => result = .ok isolation := by
    intro result k h isolation _ hrun
    exact ⟨fun _ _ => trivial, (runs_ofResult.mp hrun).2⟩
  refine succeeds_seq hboth fun results => succeeds_seq (returns_anything _) fun _ => ?_
  refine succeeds_seq (hgot results.1) fun isolation => succeeds_guarded ?_
  refine succeeds_seq (returns_anything _) fun _ => ?_
  exact succeeds_pure fun _ _ hok _ hdir _ => hdir isolation hok

theorem own_dropIsolation {isolation : Isolation} (hdir : IsCaDir cfg.bridgeName isolation.caDir) :
    Emits (Own cfg plan) (dropIsolation cfg isolation) :=
  emits_bind (emits_bind (own_quiet trivial) fun _ => own_quiet hdir) fun _ => own_dropBridgeGuard

theorem own_setup (polls : Nat) (params : CreateBridgeParams) (allow : List NetworkRule)
    (provider : Bool) :
    Emits (Own cfg plan) (setup polls cfg.bridgeName params allow provider).run := by
  refine emits_seq (own_createBridge params) fun subnet => emits_guarded own_dropBridgeGuard ?_
  exact emits_seq (emits_resolveSecrets (fun _ => trivial) provider allow []) fun authSecrets =>
    own_startProxies polls subnet allow authSecrets

theorem own_attachDevices (isFile : Bytes → Bool) :
    Emits (Own cfg plan) (attachDevices cfg isFile).run := by
  refine emits_seq (emits_each fun mount hmem => ?_) fun _ =>
    emits_seq (emits_each fun device hmem => ?_) fun _ => ?_
  · rw [addMount]
    split
    · exact emits_done _
    · have hmount : mount.1 ∈ cfg.mounts := (List.mem_zipIdx' hmem).2 ▸ List.getElem_mem _
      exact emits_request ⟨rfl, List.mem_append_left _ (List.mem_map_of_mem hmount), "mount",
        List.mem_cons_self, mount.2, rfl⟩
  · have hdevice : device.1 ∈ cfg.extraDevices := (List.mem_zipIdx' hmem).2 ▸ List.getElem_mem _
    exact emits_request ⟨rfl, List.mem_append_right _ hdevice, "extra", by simp, device.2, rfl⟩
  · split
    · exact emits_done _
    · exact emits_request ⟨rfl, rfl⟩

theorem own_createInstance : Emits (Own cfg plan) (createInstance cfg).run := by
  refine emits_seq ?_ fun _ => emits_request ⟨rfl, rfl⟩
  unfold ensureProject
  split
  · exact emits_done _
  · rename_i hproject
    exact emits_request (by exact hproject)

theorem own_dropResult {result : Except LaunchError Isolation}
    (hdir : ∀ isolation, result = .ok isolation → IsCaDir cfg.bridgeName isolation.caDir) :
    Emits (Own cfg plan) (dropResult cfg result) := by
  cases result with
  | ok isolation => exact own_dropIsolation (hdir isolation rfl)
  | error e => exact emits_done ()

theorem own_init (isFile : Bytes → Bool) (polls : Nat) :
    Emits (Own cfg plan) (init cfg isFile polls).run := by
  refine emits_seq own_createInstance fun _ => emits_guarded own_dropInstance ?_
  refine emits_seq_runs (emits_lift (emits_both (own_setup polls _ cfg.allow cfg.provider)
    (own_attachDevices isFile))) fun h results hrun => ?_
  obtain ⟨_, heq, hboth⟩ := runs_lift.mp hrun
  cases heq
  have hdir : ∀ isolation, results.1 = .ok isolation →
      IsCaDir cfg.bridgeName isolation.caDir := fun isolation hok => isCaDir_joined hboth hok
  refine emits_seq (emits_guarded (own_dropResult hdir) (emits_ofResult _)) fun _ => ?_
  refine emits_seq_runs (emits_ofResult _) fun k isolation hgot => ?_
  refine emits_guarded (own_dropIsolation (hdir isolation (runs_ofResult.mp hgot).2)) ?_
  exact emits_seq (emits_request ⟨rfl, rfl⟩) fun _ => emits_done _

theorem own_waitRunning (attempts : Nat) :
    Emits (Own cfg plan) (waitRunning cfg.name attempts) := by
  induction attempts with
  | zero => exact emits_done _
  | succ attempts ih =>
    refine emits_call ⟨rfl, by simp⟩ fun out => ?_
    split
    · exact emits_done _
    · exact ih

theorem own_start (isolation : Isolation) :
    Emits (Own cfg plan) (start cfg isolation).run := by
  refine emits_seq (emits_request rfl) fun _ =>
    emits_seq (emits_lift (own_waitRunning 60)) fun ready => ?_
  cases ready with
  | false => exact emits_done _
  | true =>
    have hask : ∀ {context word words}, Emits (Own cfg plan)
        (ask context (.execStdout cfg.name (word :: words))).run :=
      emits_request ⟨rfl, List.cons_ne_nil _ _⟩
    refine emits_seq (emits_request rfl) fun _ => emits_seq hask fun _ => ?_
    exact emits_each fun path _ => emits_seq hask fun _ => emits_done _

theorem own_session (isolation : Isolation) :
    Emits (Own cfg plan) (session cfg isolation plan).run := by
  have hexec : ∀ command env, command ≠ [] → Emits (Own cfg plan)
      (exec cfg isolation command env plan.projectDir).run :=
    fun _ _ hcommand => emits_request ⟨rfl, hcommand⟩
  refine emits_seq (emits_preRun (fun _ => hexec _ _ (List.cons_ne_nil _ _)) plan.preRun)
    fun failed => ?_
  split
  · exact emits_done _
  · rw [runCommand]
    cases hworktree : plan.worktree with
    | none =>
      refine hexec _ _ ?_
      by_cases hcommand : plan.command = []
      · rw [if_pos hcommand]
        exact List.cons_ne_nil _ _
      · rwa [if_neg hcommand]
    | some worktree =>
      have hown : ∃ own, plan.worktree = some own ∧ worktree.branchName = own.branchName :=
        ⟨worktree, hworktree, rfl⟩
      exact emits_seq (emits_request (by exact hown)) fun _ =>
        emits_holding (own_quiet hown) (hexec _ _ (List.cons_ne_nil _ _))

end Own

/-- All that a run ever does is to what is its own. -/
theorem own_runInstance (cfg : LaunchConfig) (isFile : Bytes → Bool) (polls : Nat) (plan : Plan) :
    Emits (Own cfg plan) (runInstance cfg isFile polls plan).run := by
  refine emits_seq_runs (own_init isFile polls) fun h isolation hinit => ?_
  have hdir := (returns_init cfg isFile polls).of_runs hinit
  have hdrop : Emits (Own cfg plan) (dropState cfg isolation) :=
    emits_bind own_dropInstance fun _ => own_dropIsolation hdir
  exact emits_seq (emits_guarded hdrop (own_start isolation)) fun _ =>
    emits_holding hdrop (own_session isolation)

end OwnCommands
