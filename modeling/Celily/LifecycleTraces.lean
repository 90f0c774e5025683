import Celily.InstanceLifecycle

/-!
# Which commands each phase issues

Commands are sorted by the area they act on. Each function of the lifecycle issues
the commands of its own areas, and deletes nothing when the run is to be kept.
-/

namespace LifecycleTraces

open RustText NetworkRules BridgeSubnets EgressAcl HostPaths Devices JoinedTasks InstanceLifecycle

inductive Area where
  | create
  | device
  | nic
  | network
  | isolation
  | start
  | use
  | delete
  deriving DecidableEq

def actArea : Act → Area
  | .createProject _ | .createInstance _ _ => .create
  | .addDevice _ _ _ | .setDescription _ _ => .device
  | .attachToBridge _ _ _ _ => .nic
  | .createNetwork _ | .setNetworkDnsmasq _ _ | .setNetworkEgressReject _
  | .attachAclToNetwork _ _ | .createAcl _ | .addAclRule _ _ => .network
  | .createCaDir _ | .checkTasks => .isolation
  | .startInstance _ => .start
  | .writeFile _ _ _ _ _ _ | .registerRemote _ => .use
  | .deleteInstance _ | .deleteNetwork _ | .deleteAcl _ => .delete

def area : Command → Area
  | .act a => actArea a
  | .ask (.networkIpv4 _) => .network
  | .ask (.execStdout _ _) | .exec .. | .quiet (.unregisterRemote _) => .use
  | .ask _ | .connect _ _ | .quiet _ => .isolation

/-- Commands of these areas, and deletes unless the run is kept. -/
def Within (keep : Bool) (areas : List Area) (c : Command) : Prop :=
  area c ∈ areas ∨ area c = .delete ∧ keep = false

theorem Within.mono {keep : Bool} {a b : List Area} (hab : ∀ x ∈ a, x ∈ b) {c : Command}
    (h : Within keep a c) : Within keep b c :=
  h.imp_left (hab _)

theorem Within.not_start {keep : Bool} {areas : List Area} (hareas : .start ∉ areas) {c : Command}
    (h : Within keep areas c) (name : Text) : c ≠ .act (.startInstance name) := by
  rintro rfl
  rcases h with h | ⟨h, _⟩
  · exact hareas h
  · cases h

/-! ## Runs of single commands -/

theorem runs_request {α : Type} {c : Command} {result : Reply c → Except LaunchError α}
    {h : List (Event Reply)} {r : Except LaunchError α} :
    Runs (request c result).run h r ↔
      ∃ reply, h = [.issued c, .returned c reply] ∧ r = result reply := by
  change Runs (.call c _) h r ↔ _
  rw [runs_call]
  constructor
  · rintro ⟨reply, k, rfl, hdone⟩
    obtain ⟨rfl, rfl⟩ := runs_done.mp hdone
    exact ⟨reply, rfl, rfl⟩
  · rintro ⟨reply, rfl, rfl⟩
    exact ⟨reply, [], rfl, runs_done.mpr ⟨rfl, rfl⟩⟩

theorem runs_act {context : CommandError → LaunchError} {a : Act} {h : List (Event Reply)}
    {r : Except LaunchError Unit} :
    Runs (act context a).run h r ↔
      ∃ reply : Except CommandError Unit, h = [.issued (.act a), .returned (.act a) reply] ∧
        r = reply.mapError context := runs_request

theorem mapError_eq_ok {α : Type} {context : CommandError → LaunchError}
    {result : Except CommandError α} {a : α} (h : .ok a = result.mapError context) :
    result = .ok a := by
  cases result with
  | ok b => rw [Except.ok.inj h]
  | error e => cases h

theorem runs_act_ok {context : CommandError → LaunchError} {a : Act} {h : List (Event Reply)}
    {u : Unit} (hrun : Runs (act context a).run h (.ok u)) :
    h = [.issued (.act a), .returned (.act a) (.ok ())] := by
  obtain ⟨reply, rfl, hok⟩ := runs_act.mp hrun
  rw [mapError_eq_ok hok]

theorem runs_ask_ok {context : CommandError → LaunchError} {q : Query} {h : List (Event Reply)}
    {out : Text} (hrun : Runs (ask context q).run h (.ok out)) :
    h = [.issued (.ask q), .returned (.ask q) (.ok out)] := by
  obtain ⟨reply, rfl, hok⟩ := runs_request.mp hrun
  rw [mapError_eq_ok hok]

theorem runs_logged {a : Act} {h : List (Event Reply)} {u : Unit} :
    Runs (logged a) h u ↔ ∃ reply, h = [.issued (.act a), .returned (.act a) reply] := by
  rw [logged, runs_call]
  constructor
  · rintro ⟨reply, k, rfl, hdone⟩
    obtain ⟨rfl, _⟩ := runs_done.mp hdone
    exact ⟨reply, rfl⟩
  · rintro ⟨reply, rfl⟩
    exact ⟨reply, [], rfl, runs_done.mpr ⟨rfl, rfl⟩⟩

theorem runs_ofResult {α : Type} {result r : Except LaunchError α} {h : List (Event Reply)} :
    Runs (ofResult result).run h r ↔ h = [] ∧ result = r := runs_done

theorem ofResult_seq {α β : Type} (a : α) (f : α → Launch β) :
    (ofResult (.ok a) >>= f) = f a := rfl

/-! ## Areas -/

section Emits
variable {keep : Bool} {areas : List Area}

theorem emits_request {α : Type} {A : Command → Prop} {c : Command}
    {result : Reply c → Except LaunchError α} (hc : A c) : Emits A (request c result).run := by
  intro h r hrun e he
  obtain ⟨reply, rfl, _⟩ := runs_request.mp hrun
  rcases List.mem_pair.mp he with rfl | rfl
  · exact hc
  · exact hc

theorem emits_call {α : Type} {A : Command → Prop} {c : Command} {next : Reply c → Task Reply α}
    (hc : A c) (hnext : ∀ reply, Emits A (next reply)) : Emits A (.call c next) := by
  intro h r hrun e he
  obtain ⟨reply, k, rfl, hrest⟩ := runs_call.mp hrun
  rcases List.mem_cons.mp he with rfl | he
  · exact hc
  rcases List.mem_cons.mp he with rfl | he
  · exact hc
  · exact hnext reply k r hrest e he

theorem emits_ofResult {α : Type} {A : Command → Prop} (result : Except LaunchError α) :
    Emits A (ofResult result).run := emits_done result

theorem emits_delete (a : Act) (hdelete : actArea a = .delete) :
    Emits (Within keep areas) (if keep then .done () else logged a : Task Reply Unit) := by
  split
  · exact emits_done ()
  · rename_i hkeep
    exact emits_call (Or.inr ⟨hdelete, by simpa using hkeep⟩) fun _ => emits_done ()

theorem emits_dropBridgeGuard (name : Text) :
    Emits (Within keep areas) (dropBridgeGuard name keep) :=
  emits_bind (emits_delete (.deleteNetwork name) rfl) fun _ =>
    emits_delete (.deleteAcl name) rfl

theorem emits_dropInstance (cfg : LaunchConfig) :
    Emits (Within cfg.keep areas) (dropInstance cfg) :=
  emits_delete (.deleteInstance cfg.name) rfl

theorem emits_getSubnet (hnet : .network ∈ areas) (name : Text) :
    Emits (Within keep areas) (getSubnet name).run := by
  refine emits_seq (emits_request (Or.inl hnet)) fun raw => ?_
  split
  · exact emits_done _
  · exact emits_done _

theorem emits_createBridge (hnet : .network ∈ areas) (name : Text) (params : CreateBridgeParams) :
    Emits (Within params.keep areas) (createBridge name params).run := by
  have hact : ∀ a, actArea a = .network → Emits (Within params.keep areas) (act .bridge a).run :=
    fun a ha => emits_request (Or.inl (by rwa [area, ha]))
  refine emits_seq (hact _ rfl) fun _ => emits_guarded (emits_delete _ rfl) ?_
  refine emits_seq (emits_getSubnet hnet name) fun subnet => emits_seq (hact _ rfl) fun _ =>
    emits_guarded (emits_delete _ rfl) ?_
  have hrules : Emits (Within params.keep areas) (each (addRule name)
      (buildRulesFromParams params subnet.gateway.display)).run :=
    emits_each fun rule _ => hact (.addAclRule name (ruleToCliArgs rule)) rfl
  refine emits_seq (emits_lift (emits_both hrules (hact _ rfl))) fun results => ?_
  refine emits_seq (emits_ofResult _) fun _ => emits_seq (emits_ofResult _) fun _ => ?_
  exact emits_seq (hact _ rfl) fun _ => emits_seq (hact _ rfl) fun _ => emits_done _

theorem emits_waitUntilReady {A : Command → Prop} {address : InternetAddresses.IpAddr}
    {port : UInt16} (hcheck : A (.act .checkTasks)) (hconnect : A (.connect address port))
    (polls : Nat) : Emits A (waitUntilReady address port polls).run := by
  induction polls with
  | zero => exact emits_done _
  | succ polls ih =>
    refine emits_seq (emits_request hcheck) fun _ =>
      emits_seq (emits_request hconnect) fun accepted => ?_
    split
    · exact emits_request hcheck
    · exact ih

theorem emits_quiet {q : Quiet} (hq : area (.quiet q) ∈ areas) :
    Emits (Within keep areas) (quiet q) :=
  emits_call (Or.inl hq) fun _ => emits_done ()

theorem emits_startProxies (hiso : .isolation ∈ areas) (polls : Nat) (bridgeName : Text)
    (subnet : BridgeSubnet) (rules : List NetworkRule) (authSecrets : SecretMap) :
    Emits (Within keep areas) (startProxies polls bridgeName subnet rules authSecrets).run := by
  refine emits_seq (emits_request (Or.inl hiso)) fun resolvConf => ?_
  split
  · exact emits_done _
  · refine emits_seq (emits_request (Or.inl hiso)) fun runtimeDir =>
      emits_seq (emits_request (Or.inl hiso)) fun _ => emits_guarded (emits_quiet hiso) ?_
    refine emits_seq (emits_request (Or.inl hiso)) fun caCert =>
      emits_seq (emits_lift (emits_quiet hiso)) fun _ =>
        emits_seq (emits_lift (emits_quiet hiso)) fun _ => ?_
    refine emits_seq (emits_guarded (emits_quiet hiso) ?_) fun _ => emits_done _
    exact emits_waitUntilReady (Or.inl hiso) (Or.inl hiso) polls

theorem emits_resolveSecrets {A : Command → Prop}
    (hresolve : ∀ name, A (.ask (.resolveSecret name))) (provider : Bool)
    (rules : List NetworkRule) (secrets : SecretMap) :
    Emits A (resolveSecrets provider secrets rules).run := by
  induction rules generalizing secrets with
  | nil => exact emits_done _
  | cons rule rules ih =>
    cases rule with
    | tcp host ports => exact ih secrets
    | http rule =>
      rw [resolveSecrets]
      split
      · exact ih secrets
      · split
        · exact ih secrets
        · split
          · exact emits_seq (emits_request (hresolve _)) fun value => ih _
          · exact emits_done _

theorem emits_setup (hnet : .network ∈ areas) (hiso : .isolation ∈ areas) (polls : Nat)
    (bridge : Text) (params : CreateBridgeParams) (allow : List NetworkRule) (provider : Bool) :
    Emits (Within params.keep areas) (setup polls bridge params allow provider).run := by
  refine emits_seq (emits_createBridge hnet bridge params) fun subnet =>
    emits_guarded (emits_dropBridgeGuard bridge) ?_
  have hresolve := emits_resolveSecrets (A := Within params.keep areas) (fun _ => Or.inl hiso)
    provider allow []
  exact emits_seq hresolve fun authSecrets =>
    emits_startProxies hiso polls bridge subnet allow authSecrets

theorem emits_dropIsolation (cfg : LaunchConfig) (hiso : .isolation ∈ areas)
    (isolation : Isolation) : Emits (Within cfg.keep areas) (dropIsolation cfg isolation) :=
  emits_bind (emits_bind (emits_quiet hiso) fun _ => emits_quiet hiso) fun _ =>
    emits_dropBridgeGuard cfg.bridgeName

theorem emits_attachDevices (cfg : LaunchConfig) (isFile : Bytes → Bool) :
    Emits (fun c => area c = .device) (attachDevices cfg isFile).run := by
  refine emits_seq (emits_each fun mount _ => ?_) fun _ =>
    emits_seq (emits_each fun device _ => emits_request rfl) fun _ => ?_
  · rw [addMount]
    split
    · exact emits_done _
    · exact emits_request rfl
  · split
    · exact emits_done _
    · exact emits_request rfl

theorem emits_createInstance (cfg : LaunchConfig) :
    Emits (fun c => area c = .create) (createInstance cfg).run := by
  refine emits_seq ?_ fun _ => emits_request rfl
  unfold ensureProject
  split
  · exact emits_done _
  · exact emits_request rfl

theorem emits_init (cfg : LaunchConfig) (isFile : Bytes → Bool) (polls : Nat) :
    Emits (Within cfg.keep [.create, .device, .nic, .network, .isolation])
      (init cfg isFile polls).run := by
  have hiso : Area.isolation ∈ [Area.create, .device, .nic, .network, .isolation] := by simp
  refine emits_seq ((emits_createInstance cfg).mono fun c hc => Or.inl (by simp [hc])) fun _ =>
    emits_guarded (emits_dropInstance cfg) ?_
  have hdevices := (emits_attachDevices cfg isFile).mono fun c hc =>
    (Or.inl (by simp [hc]) : Within cfg.keep [.create, .device, .nic, .network, .isolation] c)
  have hsetup := emits_setup (by simp) hiso polls cfg.bridgeName
    (toCreateBridgeParams cfg.allow cfg.keep) cfg.allow cfg.provider
  refine emits_seq (emits_lift (emits_both hsetup hdevices)) fun results => ?_
  refine emits_seq (emits_guarded ?_ (emits_ofResult _)) fun _ =>
    emits_seq (emits_ofResult _) fun isolation => ?_
  · cases results.1 with
    | ok isolation => exact emits_dropIsolation cfg hiso isolation
    | error e => exact emits_done ()
  · exact emits_guarded (emits_dropIsolation cfg hiso isolation)
      (emits_seq (emits_request (Or.inl (by simp [area, actArea]))) fun _ => emits_done _)

theorem emits_waitRunning (name : Text) (attempts : Nat) :
    Emits (fun c => area c = .use) (waitRunning name attempts) := by
  induction attempts with
  | zero => exact emits_done _
  | succ attempts ih =>
    refine emits_call rfl fun out => ?_
    split
    · exact emits_done _
    · exact ih

/-- What `start` does once the instance is started. -/
theorem runs_start {cfg : LaunchConfig} {isolation : Isolation} {h : List (Event Reply)}
    {r : Except LaunchError Unit} (hrun : Runs (start cfg isolation).run h r) :
    ∃ (reply : Except CommandError Unit) (rest : List (Event Reply)),
      h = .issued (.act (.startInstance cfg.name)) ::
        .returned (.act (.startInstance cfg.name)) reply :: rest ∧
      ∀ e ∈ rest, area e.command = .use := by
  rcases runs_seq.mp hrun with ⟨e, _, hfirst⟩ | ⟨_, h₁, h₂, rfl, hfirst, hrest⟩
  · obtain ⟨reply, rfl, _⟩ := runs_act.mp hfirst
    exact ⟨reply, [], rfl, by simp⟩
  · obtain ⟨reply, rfl, _⟩ := runs_act.mp hfirst
    refine ⟨reply, h₂, rfl, ?_⟩
    refine emits_seq (emits_lift (emits_waitRunning cfg.name 60)) (fun ready => ?_) h₂ r hrest
    cases ready with
    | false => exact emits_done _
    | true =>
      exact emits_seq (emits_request rfl) fun _ => emits_seq (emits_request rfl) fun _ =>
        emits_each fun path _ => emits_seq (emits_request rfl) fun _ => emits_done _

theorem emits_preRun {A : Command → Prop} {cfg : LaunchConfig} {isolation : Isolation}
    {plan : Plan} (hexec : ∀ script, Emits A (exec cfg isolation
      ["sh".toList, "-c".toList, preRunWrapper script] plan.env plan.projectDir).run)
    (scripts : List Text) :
    Emits A (preRun cfg isolation plan scripts).run := by
  induction scripts with
  | nil => exact emits_done _
  | cons script scripts ih =>
    refine emits_seq (hexec _) fun code => ?_
    split
    · exact emits_done _
    · exact ih

theorem emits_runCommand (cfg : LaunchConfig) (isolation : Isolation) (plan : Plan) :
    Emits (fun c => area c = .use) (runCommand cfg isolation plan).run := by
  have hexec : ∀ command env, Emits (fun c => area c = .use)
      (exec cfg isolation command env plan.projectDir).run := fun _ _ => emits_request rfl
  rw [runCommand]
  cases plan.worktree with
  | none => exact hexec _ _
  | some worktree =>
    exact emits_seq (emits_request rfl) fun _ =>
      emits_holding (emits_call rfl fun _ => emits_done _) (hexec _ _)

theorem emits_session (cfg : LaunchConfig) (isolation : Isolation) (plan : Plan) :
    Emits (fun c => area c = .use) (session cfg isolation plan).run := by
  refine emits_seq (emits_preRun (fun _ => emits_request rfl) plan.preRun) fun failed => ?_
  split
  · exact emits_done _
  · exact emits_runCommand cfg isolation plan

theorem emits_start (cfg : LaunchConfig) (isolation : Isolation) :
    Emits (fun c => area c = .start ∨ area c = .use) (start cfg isolation).run := by
  intro h r hrun e he
  obtain ⟨reply, rest, rfl, hrest⟩ := runs_start hrun
  rcases List.mem_cons.mp he with rfl | he
  · exact Or.inl rfl
  rcases List.mem_cons.mp he with rfl | he
  · exact Or.inl rfl
  · exact Or.inr (hrest e he)

theorem emits_dropState (cfg : LaunchConfig) (isolation : Isolation) :
    Emits (Within cfg.keep [.isolation]) (dropState cfg isolation) :=
  emits_bind (emits_dropInstance cfg) fun _ =>
    emits_dropIsolation cfg List.mem_cons_self isolation

/-- All commands but the deletes of a run that is kept. -/
theorem emits_runInstance (cfg : LaunchConfig) (isFile : Bytes → Bool) (polls : Nat)
    (plan : Plan) :
    Emits (Within cfg.keep [.create, .device, .nic, .network, .isolation, .start, .use])
      (runInstance cfg isFile polls plan).run := by
  have hinit := (emits_init cfg isFile polls).mono fun c =>
    Within.mono (b := [.create, .device, .nic, .network, .isolation, .start, .use]) (by simp)
  refine emits_seq hinit fun isolation => ?_
  have hdrop := (emits_dropState cfg isolation).mono fun c =>
    Within.mono (b := [.create, .device, .nic, .network, .isolation, .start, .use]) (by simp)
  refine emits_seq (emits_guarded hdrop ?_) fun _ => emits_holding hdrop ?_
  · exact (emits_start cfg isolation).mono fun c hc => Or.inl (by rcases hc with h | h <;> simp [h])
  · exact (emits_session cfg isolation plan).mono fun c hc => Or.inl (by simp [hc])

end Emits

end LifecycleTraces
