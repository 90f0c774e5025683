import Celily.LifecycleTraces

/-!
# The instance never runs unisolated

What each phase has done once it returns without an error is collected in
`BridgeReady`, `Resolved`, `DevicesAdded` and, for the whole of `init`, `Isolated`.
Any trace, finished or not, is cut at a start command, and all of it is found before
the cut, whatever order the joined tasks ran in.
-/

namespace IsolatedStart

open RustText NetworkRules BridgeSubnets EgressAcl HostPaths Devices JoinedTasks InstanceLifecycle
  LifecycleTraces

/-- Whether a command failed; creating an existing project is no failure. -/
def failed : (c : Command) → Reply c → Bool
  | .act (.createProject _), reply => !(projectResult .bridge reply).isOk
  | .act _, reply => !Except.isOk reply
  | .ask _, reply => !Except.isOk reply
  | .exec .., reply => !Except.isOk reply
  | .connect _ _, reply => !Except.isOk reply
  | .quiet _, _ => false

/-- An event that is not the failure of a command. -/
def Fine : Event Reply → Prop
  | .issued _ => True
  | .returned c reply => failed c reply = false

/-- The command has succeeded. -/
def Done (h : List (Event Reply)) (a : Act) : Prop :=
  .returned (.act a) (.ok ()) ∈ h

def Answered (h : List (Event Reply)) (q : Query) (out : Text) : Prop :=
  .returned (.ask q) (.ok out) ∈ h

/-- What `create_bridge` has done when it returns the subnet. -/
structure BridgeReady (name : Text) (params : CreateBridgeParams) (subnet : BridgeSubnet)
    (h : List (Event Reply)) : Prop where
  network : Done h (.createNetwork name)
  address : ∃ raw, Answered h (.networkIpv4 name) raw ∧
    BridgeSubnet.parse (trim raw) = some subnet
  acl : Done h (.createAcl name)
  rules : ∀ rule ∈ buildRulesFromParams params subnet.gateway.display,
    Done h (.addAclRule name (ruleToCliArgs rule))
  dnsmasq : Done h (.setNetworkDnsmasq name
    (buildDnsmasqConfig subnet.gateway.display params.dnsPort))
  egress : Done h (.setNetworkEgressReject name)
  attached : Done h (.attachAclToNetwork name name)

/-- Every secret that a rule names is resolved, and the map holds its value. -/
def Resolved (allow : List NetworkRule) (secrets : SecretMap) (h : List (Event Reply)) : Prop :=
  ∀ rule auth, .http rule ∈ allow → rule.auth = some auth →
    ∃ value, secrets.get auth.secret = some value ∧ Answered h (.resolveSecret auth.secret) value

structure DevicesAdded (cfg : LaunchConfig) (isFile : Bytes → Bool) (h : List (Event Reply)) :
    Prop where
  mounts : ∀ mount ∈ cfg.mounts.zipIdx, ¬(cfg.kind = .vm ∧ isFile mount.1.source = true) →
    Done h (.addDevice cfg.name ("mount".toList ++ decimal mount.2)
      (.disk mount.1.source mount.1.target mount.1.access))
  extras : ∀ device ∈ cfg.extraDevices.zipIdx,
    Done h (.addDevice cfg.name ("extra".toList ++ decimal device.2) device.1)

/-- The proxies were started with the configured rules and the resolved secrets, and
the HTTP proxy accepted a connection on the gateway. -/
structure ProxiesReady (polls : Nat) (bridge : Text) (allow : List NetworkRule)
    (subnet : BridgeSubnet) (h : List (Event Reply)) : Prop where
  started : ∃ secrets isolation k, Resolved allow secrets h ∧ k ⊆ h ∧
    Runs (startProxies polls bridge subnet allow secrets).run k (.ok isolation)
  accepting : .returned (.connect (.v4 subnet.gateway) proxyPort) (.ok true) ∈ h

/-- Everything that isolates the instance has succeeded. -/
structure Isolated (cfg : LaunchConfig) (isFile : Bytes → Bool) (polls : Nat)
    (subnet : BridgeSubnet) (h : List (Event Reply)) : Prop where
  bridge : BridgeReady cfg.bridgeName (toCreateBridgeParams cfg.allow cfg.keep) subnet h
  proxies : ProxiesReady polls cfg.bridgeName cfg.allow subnet h
  devices : DevicesAdded cfg isFile h
  nic : Done h (.attachToBridge cfg.name cfg.bridgeName cfg.limits.networkIngress
    cfg.limits.networkEgress)

/-! ## What each phase has done -/

theorem request_ok {α : Type} {c : Command} {result : Reply c → Except LaunchError α}
    (hfine : ∀ reply a, result reply = .ok a → failed c reply = false) :
    Succeeds Fine (request c result) fun a h =>
      ∃ reply, .returned c reply ∈ h ∧ result reply = .ok a := by
  intro k h a hsub hrun
  obtain ⟨reply, rfl, heq⟩ := runs_request.mp hrun
  refine ⟨fun e he => ?_, reply, hsub (by simp), heq.symm⟩
  rcases List.mem_pair.mp he with rfl | rfl
  · trivial
  · exact hfine reply a heq.symm

theorem act_ok (context : CommandError → LaunchError) (a : Act) :
    Succeeds Fine (act context a) fun _ h => Done h a := by
  intro k h u hsub hrun
  obtain rfl := runs_act_ok hrun
  refine ⟨fun e he => ?_, hsub (by simp)⟩
  rcases List.mem_pair.mp he with rfl | rfl
  · trivial
  · cases a <;> rfl

theorem ask_ok (context : CommandError → LaunchError) (q : Query) :
    Succeeds Fine (ask context q) fun out h => Answered h q out := by
  intro k h out hsub hrun
  obtain rfl := runs_ask_ok hrun
  refine ⟨fun e he => ?_, hsub (by simp)⟩
  rcases List.mem_pair.mp he with rfl | rfl
  · trivial
  · rfl

theorem quiet_ok (q : Quiet) :
    Succeeds Fine (ExceptT.lift (quiet q) : Launch Unit) fun _ _ => True := by
  intro k h u hsub hrun
  obtain ⟨_, _, hquiet⟩ := runs_lift.mp hrun
  obtain ⟨reply, _, rfl, hdone⟩ := runs_call.mp hquiet
  obtain ⟨rfl, _⟩ := runs_done.mp hdone
  refine ⟨fun e he => ?_, trivial⟩
  rcases List.mem_pair.mp he with rfl | rfl
  · trivial
  · rfl

theorem ofResult_seq_ok {α β : Type} {result : Except LaunchError α} {f : α → Launch β}
    {k : List (Event Reply)} {b : β} (hrun : Runs (ofResult result >>= f).run k (.ok b)) :
    ∃ a, result = .ok a ∧ Runs (f a).run k (.ok b) := by
  obtain ⟨a, _, k₂, rfl, hresult, hrest⟩ := runs_seq_ok.mp hrun
  obtain ⟨rfl, heq⟩ := runs_ofResult.mp hresult
  exact ⟨a, heq, hrest⟩

theorem succeeds_ofResult {α : Type} (result : Except LaunchError α) :
    Succeeds Fine (ofResult result) fun _ _ => True := by
  intro k h a _ hrun
  obtain ⟨rfl, _⟩ := runs_ofResult.mp hrun
  exact ⟨by simp, trivial⟩

theorem getSubnet_ok (name : Text) :
    Succeeds Fine (getSubnet name) fun subnet h => ∃ raw,
      Answered h (.networkIpv4 name) raw ∧ BridgeSubnet.parse (trim raw) = some subnet := by
  refine succeeds_seq (ask_ok .bridge _) fun raw => ?_
  split
  · rename_i subnet hparse
    exact succeeds_pure fun h hraw => ⟨raw, hraw, hparse⟩
  · exact succeeds_throw _ _

theorem createBridge_ok (name : Text) (params : CreateBridgeParams) :
    Succeeds Fine (createBridge name params) fun subnet h => BridgeReady name params subnet h := by
  refine succeeds_seq (act_ok .bridge _) fun _ => succeeds_guarded ?_
  refine succeeds_seq (getSubnet_ok name) fun subnet => ?_
  refine succeeds_seq (act_ok .bridge _) fun _ => succeeds_guarded ?_
  refine succeeds_both (succeeds_each fun rule _ => act_ok .bridge _) (act_ok .bridge _) ?_ ?_
  · intro results k out hrun
    obtain ⟨_, hleft, hrest⟩ := ofResult_seq_ok hrun
    obtain ⟨_, hright, _⟩ := ofResult_seq_ok hrest
    exact ⟨_, _, Prod.ext hleft hright⟩
  · intro _ _
    rw [ofResult_seq, ofResult_seq]
    refine succeeds_seq (act_ok .bridge _) fun _ => succeeds_seq (act_ok .bridge _) fun _ => ?_
    exact succeeds_pure fun h attached egress rules dnsmasq acl address network =>
      ⟨network, address, acl, rules, dnsmasq, egress, attached⟩

/-- The values in the map are those the provider answered. -/
def Known (secrets : SecretMap) (h : List (Event Reply)) : Prop :=
  ∀ name value, secrets.get name = some value → Answered h (.resolveSecret name) value

theorem get_cons (secrets : SecretMap) (name value other : Text) :
    SecretMap.get ((name, value) :: secrets) other =
      if other = name then some value else secrets.get other :=
  lookup_cons (name, value) secrets other

theorem known_cons {secrets : SecretMap} {h : List (Event Reply)} {name value : Text}
    (known : Known secrets h) (answered : Answered h (.resolveSecret name) value) :
    Known ((name, value) :: secrets) h := by
  intro other found hget
  rw [get_cons] at hget
  split at hget
  · rename_i heq
    cases hget
    rwa [heq]
  · exact known other found hget

/-- The map `out` grew from `secrets`, and holds every secret that a rule names. -/
structure Covers (rules : List NetworkRule) (secrets out : SecretMap) : Prop where
  keeps : ∀ name, (secrets.get name).isSome → (out.get name).isSome
  names : ∀ rule auth, .http rule ∈ rules → rule.auth = some auth → (out.get auth.secret).isSome

theorem Covers.cons {rule : NetworkRule} {rules : List NetworkRule} {secrets out : SecretMap}
    (covers : Covers rules secrets out)
    (held : ∀ http auth, rule = .http http → http.auth = some auth →
      (secrets.get auth.secret).isSome) :
    Covers (rule :: rules) secrets out := by
  refine ⟨covers.keeps, fun http auth hmem hauth => ?_⟩
  rcases List.mem_cons.mp hmem with heq | hmem
  · exact covers.keeps auth.secret (held http auth heq.symm hauth)
  · exact covers.names http auth hmem hauth

theorem resolveSecrets_ok (provider : Bool) (rules : List NetworkRule) (secrets : SecretMap) :
    Succeeds Fine (resolveSecrets provider secrets rules) fun out h =>
      Covers rules secrets out ∧ (Known secrets h → Known out h) := by
  induction rules generalizing secrets with
  | nil => exact succeeds_pure fun h => ⟨⟨fun _ hget => hget, by simp⟩, id⟩
  | cons rule rules ih =>
    cases rule with
    | tcp host ports =>
      exact (ih secrets).mono fun out h hout => ⟨hout.1.cons (by simp), hout.2⟩
    | http rule =>
      rw [resolveSecrets]
      split
      · rename_i hnone
        refine (ih secrets).mono fun out h hout =>
          ⟨hout.1.cons fun http auth heq hauth => ?_, hout.2⟩
        cases heq
        rw [hnone] at hauth
        cases hauth
      · rename_i auth hauth
        split
        · rename_i hheld
          refine (ih secrets).mono fun out h hout =>
            ⟨hout.1.cons fun http other heq hother => ?_, hout.2⟩
          cases heq
          rw [hauth] at hother
          cases hother
          exact hheld
        · split
          · refine succeeds_seq (ask_ok .secret _) fun value => ?_
            refine (ih _).mono fun out h hout answered =>
              ⟨⟨fun name hget => hout.1.keeps name ?_, fun http other hmem hother => ?_⟩,
                fun known => hout.2 (known_cons known answered)⟩
            · rw [get_cons]
              split
              · rfl
              · exact hget
            · rcases List.mem_cons.mp hmem with heq | hmem
              · cases heq
                rw [hauth] at hother
                cases hother
                exact hout.1.keeps auth.secret (by simp [get_cons])
              · exact hout.1.names http other hmem hother
          · exact succeeds_throw _ _

theorem resolved_of_covers {allow : List NetworkRule} {secrets : SecretMap}
    {h : List (Event Reply)} (covers : Covers allow [] secrets) (known : Known secrets h) :
    Resolved allow secrets h := by
  intro rule auth hmem hauth
  obtain ⟨value, hget⟩ := Option.isSome_iff_exists.mp (covers.names rule auth hmem hauth)
  exact ⟨value, hget, known auth.secret value hget⟩

theorem waitUntilReady_ok (address : InternetAddresses.IpAddr) (port : UInt16) (polls : Nat) :
    Succeeds Fine (waitUntilReady address port polls) fun _ h =>
      .returned (.connect address port) (.ok true) ∈ h := by
  induction polls with
  | zero => exact succeeds_throw _ _
  | succ polls ih =>
    refine succeeds_seq (act_ok .proxy .checkTasks) fun _ => ?_
    refine succeeds_seq (request_ok fun reply accepted heq => ?_) fun accepted => ?_
    · rw [mapError_eq_ok heq.symm]
      rfl
    · cases accepted with
      | true =>
        refine (act_ok .proxy .checkTasks).mono fun _ h _ hreply _ => ?_
        obtain ⟨reply, hmem, heq⟩ := hreply
        rwa [mapError_eq_ok heq.symm] at hmem
      | false => exact ih.mono fun _ h hmem _ _ => hmem

theorem startProxies_ok (polls : Nat) (bridgeName : Text) (subnet : BridgeSubnet)
    (rules : List NetworkRule) (authSecrets : SecretMap) :
    Succeeds Fine (startProxies polls bridgeName subnet rules authSecrets) fun isolation h =>
      isolation.subnet = subnet ∧
        .returned (.connect (.v4 subnet.gateway) proxyPort) (.ok true) ∈ h := by
  refine succeeds_seq (ask_ok .proxy .resolvConf) fun resolvConf => ?_
  split
  · exact succeeds_throw _ _
  · refine succeeds_seq (ask_ok .proxy .runtimeDir) fun runtimeDir => ?_
    refine succeeds_seq (act_ok .proxy _) fun _ => succeeds_guarded ?_
    refine succeeds_seq (ask_ok .proxy _) fun caCert => ?_
    refine succeeds_seq (quiet_ok _) fun _ => succeeds_seq (quiet_ok _) fun _ => ?_
    refine succeeds_seq (succeeds_guarded (waitUntilReady_ok _ _ polls)) fun _ => ?_
    exact succeeds_pure fun h accepting _ _ _ _ _ _ => ⟨rfl, accepting⟩

theorem setup_ok (polls : Nat) (bridge : Text) (params : CreateBridgeParams)
    (allow : List NetworkRule) (provider : Bool) :
    Succeeds Fine (setup polls bridge params allow provider) fun isolation h =>
      BridgeReady bridge params isolation.subnet h ∧
        ProxiesReady polls bridge allow isolation.subnet h := by
  refine succeeds_seq (createBridge_ok bridge params) fun subnet => succeeds_guarded ?_
  refine succeeds_seq (resolveSecrets_ok provider allow []) fun secrets => ?_
  refine (succeeds_runs (startProxies_ok polls bridge subnet allow secrets)).mono ?_
  rintro isolation h ⟨⟨rfl, accepting⟩, k, hsub, hrun⟩ ⟨covers, known⟩ ready
  have hknown : Known [] h := by simp [Known, SecretMap.get]
  have resolved := resolved_of_covers covers (known hknown)
  exact ⟨ready, ⟨secrets, isolation, k, resolved, hsub, hrun⟩, accepting⟩

theorem attachDevices_ok (cfg : LaunchConfig) (isFile : Bytes → Bool) :
    Succeeds Fine (attachDevices cfg isFile) fun _ h => DevicesAdded cfg isFile h := by
  have hmount : ∀ mount : Mount Bytes × Nat, Succeeds Fine (addMount cfg isFile mount) fun _ h =>
      ¬(cfg.kind = .vm ∧ isFile mount.1.source = true) →
        Done h (.addDevice cfg.name ("mount".toList ++ decimal mount.2)
          (.disk mount.1.source mount.1.target mount.1.access)) := by
    intro mount
    rw [addMount]
    split
    · rename_i hskip
      exact succeeds_pure fun h hmust => absurd hskip hmust
    · exact (act_ok _ _).mono fun _ h hdone _ => hdone
  refine succeeds_seq (succeeds_each fun mount _ => hmount mount) fun _ => ?_
  refine succeeds_seq (succeeds_each fun device _ => act_ok _ _) fun _ => ?_
  split
  · exact succeeds_pure fun h extras mounts => ⟨mounts, extras⟩
  · exact (act_ok _ _).mono fun _ h _ extras mounts => ⟨mounts, extras⟩

theorem projectResult_nonZero (context : CommandError → LaunchError) (code : Option Int)
    (stderr : Text) :
    projectResult context (.error (.nonZero code (some stderr))) =
      if "already exists".toList <:+: stderr then .ok ()
      else .error (context (.nonZero code (some stderr))) := rfl

theorem projectResult_isOk (context other : CommandError → LaunchError)
    (reply : Except CommandError Unit) :
    (projectResult context reply).isOk = (projectResult other reply).isOk := by
  cases reply with
  | ok _ => rfl
  | error e =>
    cases e with
    | io _ => rfl
    | nonZero code stderr =>
      cases stderr with
      | none => rfl
      | some stderr =>
        rw [projectResult_nonZero, projectResult_nonZero]
        split
        · rfl
        · rfl

theorem createInstance_ok (cfg : LaunchConfig) :
    Succeeds Fine (createInstance cfg) fun _ _ => True := by
  refine succeeds_seq (Q := fun _ _ => True) ?_ fun _ =>
    (act_ok _ _).mono fun _ h _ _ => trivial
  unfold ensureProject
  split
  · exact succeeds_pure fun h => trivial
  · refine (request_ok fun reply u heq => ?_).mono fun _ h _ => trivial
    change (!(projectResult .bridge reply).isOk) = false
    rw [projectResult_isOk .bridge (.backend "failed to create instance".toList) reply, heq]
    rfl

/-- An instance is only handed on with everything in place. -/
theorem init_ok (cfg : LaunchConfig) (isFile : Bytes → Bool) (polls : Nat) :
    Succeeds Fine (init cfg isFile polls) fun isolation h =>
      Isolated cfg isFile polls isolation.subnet h := by
  refine succeeds_seq (createInstance_ok cfg) fun _ => succeeds_guarded ?_
  refine succeeds_both (setup_ok polls cfg.bridgeName _ cfg.allow cfg.provider)
    (attachDevices_ok cfg isFile) ?_ ?_
  · intro results k out hrun
    obtain ⟨_, k₁, k₂, rfl, hright, hrest⟩ := runs_seq_ok.mp hrun
    obtain ⟨rfl, hdevices⟩ := runs_ofResult.mp (runs_guarded_ok.mp hright)
    obtain ⟨isolation, hsetup, _⟩ := ofResult_seq_ok hrest
    exact ⟨_, _, Prod.ext hsetup hdevices⟩
  · intro isolation _
    refine succeeds_seq (succeeds_guarded (succeeds_ofResult _)) fun _ => ?_
    rw [ofResult_seq]
    refine succeeds_guarded (succeeds_seq (act_ok _ _) fun _ => ?_)
    exact succeeds_pure fun h nic _ ready devices _ => ⟨ready.1, ready.2, devices, nic⟩

/-! ## The start command -/

/-- A start command in a part of a run that issues none but one is that one. -/
theorem cut_at_start {before after k rest : List (Event Reply)} {name n : Text}
    (hk : ∀ e ∈ k, ∀ m, e ≠ .issued (.act (.startInstance m)))
    (hrest : ∀ e ∈ rest, ∀ m, e ≠ .issued (.act (.startInstance m)))
    (heq : k ++ .issued (.act (.startInstance name)) :: rest =
      before ++ .issued (.act (.startInstance n)) :: after) : n = name ∧ before = k := by
  have hnotk : .issued (.act (.startInstance n)) ∉ k := fun hmem => hk _ hmem n rfl
  have hnotrest : .issued (.act (.startInstance n)) ∉ rest := fun hmem => hrest _ hmem n rfl
  obtain ⟨rfl, hevent, _⟩ := (List.append_cons_inj_of_notMem hnotk hnotrest).mp heq
  cases hevent
  exact ⟨rfl, rfl⟩

theorem emits_no_start {α : Type} {keep : Bool} {areas : List Area} {t : Task Reply α}
    (hareas : .start ∉ areas) (hemits : Emits (Within keep areas) t) {h : List (Event Reply)}
    {a : α} (hrun : Runs t h a) : ∀ e ∈ h, ∀ name, e ≠ .issued (.act (.startInstance name)) := by
  rintro e he name rfl
  exact (hemits h a hrun _ he).not_start hareas name rfl

/-- A run that hands on no instance starts none; otherwise the one start command comes
right after the run of `init`. -/
theorem runs_runInstance {cfg : LaunchConfig} {isFile : Bytes → Bool} {polls : Nat} {plan : Plan}
    {h : List (Event Reply)} {r : Except LaunchError Int}
    (hrun : Runs (runInstance cfg isFile polls plan).run h r) :
    (∃ e, Runs (init cfg isFile polls).run h (.error e)) ∨
      ∃ isolation k rest, Runs (init cfg isFile polls).run k (.ok isolation) ∧
        h = k ++ .issued (.act (.startInstance cfg.name)) :: rest ∧
        ∀ e ∈ rest, ∀ name, e ≠ .issued (.act (.startInstance name)) := by
  rcases runs_seq.mp hrun with ⟨e, _, hinit⟩ | ⟨isolation, k, l, rfl, hinit, hrun⟩
  · exact Or.inl ⟨e, hinit⟩
  refine Or.inr ⟨isolation, k, ?_⟩
  have hdrop := emits_dropState cfg isolation
  have hsession : Emits (Within cfg.keep [.use]) (session cfg isolation plan).run :=
    (emits_session cfg isolation plan).mono fun c hc => Or.inl (by simp [hc])
  have hstarted : ∀ {m : List (Event Reply)} {result},
      Runs (guarded (dropState cfg isolation) (start cfg isolation)).run m result →
      ∃ rest, m = .issued (.act (.startInstance cfg.name)) :: rest ∧
        ∀ e ∈ rest, ∀ name, e ≠ .issued (.act (.startInstance name)) := by
    intro m result hm
    have huse : ∀ e : Event Reply, area e.command = .use →
        ∀ name, e ≠ .issued (.act (.startInstance name)) := by
      rintro e harea name rfl
      cases harea
    rcases runs_guarded.mp hm with ⟨_, _, hstart⟩ | ⟨_, m₁, m₂, _, rfl, hstart, hdropped⟩
    · obtain ⟨reply, rest, rfl, hrest⟩ := runs_start hstart
      refine ⟨_, rfl, List.forall_mem_cons.mpr ⟨by simp, fun e he => huse e (hrest e he)⟩⟩
    · obtain ⟨reply, rest, rfl, hrest⟩ := runs_start hstart
      refine ⟨_, rfl, List.forall_mem_cons.mpr ⟨by simp, fun e he => ?_⟩⟩
      rcases List.mem_append.mp he with he | he
      · exact huse e (hrest e he)
      · exact emits_no_start (by simp) hdrop hdropped e he
  rcases runs_seq.mp hrun with ⟨_, _, hfirst⟩ | ⟨_, l₁, l₂, rfl, hfirst, hlast⟩
  · obtain ⟨rest, rfl, hrest⟩ := hstarted hfirst
    exact ⟨rest, hinit, rfl, hrest⟩
  · obtain ⟨rest, rfl, hrest⟩ := hstarted hfirst
    refine ⟨rest ++ l₂, hinit, rfl, fun e he => ?_⟩
    rcases List.mem_append.mp he with he | he
    · exact hrest e he
    · obtain ⟨m₁, m₂, rfl, hbody, hdropped⟩ := runs_holding.mp hlast
      rcases List.mem_append.mp he with he | he
      · exact emits_no_start (by simp) hsession hbody e he
      · exact emits_no_start (by simp) hdrop hdropped e he

/-- A successful `init` does lead to the start command. -/
theorem trace_start {cfg : LaunchConfig} {isFile : Bytes → Bool} {polls : Nat} (plan : Plan)
    {k : List (Event Reply)} {isolation : Isolation}
    (hinit : Runs (init cfg isFile polls).run k (.ok isolation)) :
    ∃ t, Trace (runInstance cfg isFile polls plan).run
      (k ++ [.issued (.act (.startInstance cfg.name))]) t :=
  ⟨_, (trace_bind hinit).append (.step (.issue _ _) (.refl _))⟩

/-- Every command succeeds; the network, the resolver configuration and the system
state are as on a host where all is well. -/
def goodReply : (c : Command) → Reply c
  | .act _ => .ok ()
  | .ask (.networkIpv4 _) => .ok "10.0.3.1/24
".toList
  | .ask .resolvConf => .ok "nameserver 127.0.0.53
".toList
  | .ask .runtimeDir => .ok "/run/user/1000".toList
  | .ask _ => .ok "running".toList
  | .exec .. => .ok 0
  | .connect _ _ => .ok true
  | .quiet _ => ()

/-- Whatever order the joined tasks ran in and whichever commands failed: when a start
command is issued, it starts this instance, everything that isolates it has succeeded
before, and nothing has failed. -/
theorem start_isolated {cfg : LaunchConfig} {isFile : Bytes → Bool} {polls : Nat} {plan : Plan}
    {h before after : List (Event Reply)} {t : Task Reply (Except LaunchError Int)} {n : Text}
    (trace : Trace (runInstance cfg isFile polls plan).run h t)
    (started : h = before ++ .issued (.act (.startInstance n)) :: after) :
    n = cfg.name ∧ (∀ e ∈ before, Fine e) ∧ ∃ subnet, Isolated cfg isFile polls subnet before := by
  obtain ⟨k, r, hrun⟩ := trace.extends goodReply
  rw [started, List.append_assoc] at hrun
  rcases runs_runInstance hrun with ⟨e, hinit⟩ | ⟨isolation, m, rest, hinit, heq, hrest⟩
  · refine absurd rfl (emits_no_start (by simp) (emits_init cfg isFile polls) hinit
      (.issued (.act (.startInstance n))) (by simp) n)
  · have hk := emits_no_start (by simp) (emits_init cfg isFile polls) hinit
    obtain ⟨rfl, rfl⟩ := cut_at_start hk hrest heq.symm
    obtain ⟨fine, isolated⟩ :=
      init_ok cfg isFile polls before before isolation (fun _ he => he) hinit
    exact ⟨rfl, fine, isolation.subnet, isolated⟩

/-- An instance with a secret, a mounted project and no description. -/
def workConfig : LaunchConfig where
  project := none
  image := "images:archlinux".toList
  name := "work-1".toList
  bridgeName := "cel-1".toList
  kind := .container
  mounts := [⟨utf8 "/home/u/work".toList, utf8 "/home/u/work".toList, .readWrite⟩]
  extraDevices := []
  containerUid := 1000
  containerGid := 1000
  execUid := 1000
  execGid := 1000
  containerHome := utf8 "/home/u".toList
  rawIdmap := none
  securityNesting := false
  secureBoot := false
  ephemeral := true
  keep := false
  description := []
  limits := ⟨2, "4GiB".toList, "10GiB".toList, 500, none, none, none, none⟩
  allow := [.http ⟨.https, "api.example.com".toList, [443], none,
    some ⟨"token".toList, "Authorization".toList, none⟩, [], none, none⟩]
  provider := true

def workPlan : Plan := ⟨[], ["make".toList], [], utf8 "/home/u/work".toList, none⟩

/-- All that happens while the example is prepared, on a host where all is well. -/
def workInit : List (Event Reply) × Except LaunchError Isolation :=
  play goodReply (init workConfig (fun _ => false) 1).run

theorem workInit_isOk : workInit.2.isOk = true := by decide

theorem start_isolated_work :
    (∀ e ∈ workInit.1, Fine e) ∧
      ∃ subnet, Isolated workConfig (fun _ => false) 1 subnet workInit.1 := by
  have hrun : Runs (init workConfig (fun _ => false) 1).run workInit.1 workInit.2 :=
    runs_play goodReply _
  cases hresult : workInit.2 with
  | error e => exact absurd workInit_isOk (by simp [hresult, Except.isOk, Except.toBool])
  | ok isolation =>
    rw [hresult] at hrun
    obtain ⟨t, htrace⟩ := trace_start workPlan hrun
    exact (start_isolated htrace rfl).2

end IsolatedStart
