import Celily.IsolatedStart
import Celily.CarriedRuns

/-!
# Where the secrets of a launch go

The provider hands out the secrets, and the HTTP proxy is started with them. Nothing
else in a run depends on them: with other values from the provider there is the same
run, of the same commands with the same replies in the same order and with the same
result, in which only the map handed to the HTTP proxy is different.
-/

namespace LaunchSecrets

open RustText InternetAddresses NetworkRules BridgeSubnets EgressAcl HostPaths Devices JoinedTasks
open CarriedRuns InstanceLifecycle LifecycleTraces IsolatedStart

/-- Other values under the same names. -/
def swapSecrets (other : Text → Text → Text) (secrets : SecretMap) : SecretMap :=
  secrets.map fun entry => (entry.1, other entry.1 entry.2)

def swapQuiet (other : Text → Text → Text) : Quiet → Quiet
  | .spawnHttpProxy address port rules secrets subnet =>
    .spawnHttpProxy address port rules (swapSecrets other secrets) subnet
  | .spawnDnsProxy address port upstream rules => .spawnDnsProxy address port upstream rules
  | .stopProxies => .stopProxies
  | .removeCaDir dir => .removeCaDir dir
  | .unregisterRemote branch => .unregisterRemote branch

def swapAnswer (other : Text → Text → Text) : Query → Except CommandError Text →
    Except CommandError Text
  | .resolveSecret name, answer => answer.map (other name)
  | _, answer => answer

/-- The event, had the provider answered with the values that `other` makes of its own. -/
def swap (other : Text → Text → Text) : Event Reply → Event Reply
  | .issued (.quiet q) => .issued (.quiet (swapQuiet other q))
  | .issued c => .issued c
  | .returned (.quiet q) _ => .returned (.quiet (swapQuiet other q)) ()
  | .returned (.ask q) answer => .returned (.ask q) (swapAnswer other q answer)
  | .returned c reply => .returned c reply

/-- What neither asks for a secret nor is handed one. -/
def Unaware : Command → Prop
  | .ask (.resolveSecret _) => False
  | .quiet (.spawnHttpProxy ..) => False
  | _ => True

variable (other : Text → Text → Text)

theorem swap_unaware : Leaves (swap other) Unaware := by
  intro e hunaware
  cases e with
  | issued c =>
    cases c with
    | quiet q =>
      cases q with
      | spawnHttpProxy => exact hunaware.elim
      | _ => rfl
    | _ => rfl
  | returned c reply =>
    cases c with
    | quiet q =>
      cases q with
      | spawnHttpProxy => exact hunaware.elim
      | _ => rfl
    | ask q =>
      cases q with
      | resolveSecret name => exact hunaware.elim
      | _ => rfl
    | _ => rfl

/-- Outside the isolation area nothing is aware of the secrets. -/
theorem unaware_of_area {c : Command} (harea : area c ≠ .isolation) : Unaware c := by
  cases c with
  | quiet q =>
    cases q with
    | spawnHttpProxy => exact harea rfl
    | _ => trivial
  | ask q =>
    cases q with
    | resolveSecret name => exact harea rfl
    | _ => trivial
  | _ => trivial

theorem unaware_of_within {keep : Bool} {areas : List Area} (hareas : .isolation ∉ areas)
    {c : Command} (hwithin : Within keep areas c) : Unaware c := by
  refine unaware_of_area fun harea => ?_
  rcases hwithin with hmem | ⟨hdelete, _⟩
  · rw [harea] at hmem
    exact hareas hmem
  · rw [harea] at hdelete
    cases hdelete

theorem unaware_quiet {q : Quiet} (hq : ∀ a p r s n, q ≠ .spawnHttpProxy a p r s n) :
    Emits Unaware (quiet q) := by
  refine emits_call ?_ fun _ => emits_done ()
  cases q with
  | spawnHttpProxy => exact absurd rfl (hq _ _ _ _ _)
  | _ => trivial

theorem swapSecrets_get (secrets : SecretMap) (name : Text) :
    (SecretMap.get (swapSecrets other secrets) name).isSome = (secrets.get name).isSome := by
  induction secrets with
  | nil => rfl
  | cons entry secrets ih =>
    unfold SecretMap.get swapSecrets at *
    rw [List.map_cons, List.lookup_cons, List.lookup_cons]
    cases name == entry.1 with
    | true => rfl
    | false => exact ih

theorem carries_resolveSecrets (provider : Bool) (rules : List NetworkRule)
    (secrets : SecretMap) :
    CarriesOk (swap other) (swapSecrets other) (resolveSecrets provider secrets rules)
      (resolveSecrets provider (swapSecrets other secrets) rules) := by
  induction rules generalizing secrets with
  | nil => exact carriesOk_pure _ secrets
  | cons rule rules ih =>
    cases rule with
    | tcp host ports => exact ih secrets
    | http rule =>
      rw [resolveSecrets, resolveSecrets]
      cases rule.auth with
      | none => exact ih secrets
      | some auth =>
        simp only [swapSecrets_get]
        by_cases hknown : (secrets.get auth.secret).isSome
        · rw [if_pos hknown, if_pos hknown]
          exact ih secrets
        rw [if_neg hknown, if_neg hknown]
        cases provider with
        | false => exact carriesOk_throw _ _
        | true =>
          refine carriesOk_seq (g := other auth.secret) ?_ fun value => ih _
          refine carries_call (Except.map (other auth.secret)) rfl (fun _ => rfl) fun reply => ?_
          cases reply with
          | ok value => exact carries_done _ _
          | error e => exact carries_done _ _

theorem carries_startProxies (polls : Nat) (bridgeName : Text) (subnet : BridgeSubnet)
    (rules : List NetworkRule) (secrets : SecretMap) :
    CarriesOk (swap other) id (startProxies polls bridgeName subnet rules secrets)
      (startProxies polls bridgeName subnet rules (swapSecrets other secrets)) := by
  have hleaves := swap_unaware other
  refine carriesOk_seq_self hleaves (emits_request trivial) fun resolvConf => ?_
  cases firstNameserver resolvConf with
  | none => exact carriesOk_throw id _
  | some upstream =>
    refine carriesOk_seq_self hleaves (emits_request trivial) fun runtimeDir =>
      carriesOk_seq_self hleaves (emits_request trivial) fun _ =>
        carriesOk_guarded (carries_self hleaves (unaware_quiet (by simp))) ?_
    refine carriesOk_seq_self hleaves (emits_request trivial) fun caCert =>
      carriesOk_seq (g := id) (carriesOk_lift ?_) fun _ => ?_
    · exact carries_call id rfl (fun _ => rfl) fun _ => carries_done id ()
    · refine carriesOk_self hleaves (emits_seq (emits_lift (unaware_quiet (by simp))) fun _ => ?_)
      refine emits_seq (emits_guarded (unaware_quiet (by simp)) ?_) fun _ => emits_done _
      exact emits_waitUntilReady trivial trivial polls

theorem unaware_dropBridgeGuard (name : Text) (keep : Bool) :
    Emits Unaware (dropBridgeGuard name keep) := by
  have hemits : Emits (Within keep []) (dropBridgeGuard name keep) := emits_dropBridgeGuard name
  exact hemits.mono fun _ => unaware_of_within (by simp)

theorem unaware_dropInstance (cfg : LaunchConfig) : Emits Unaware (dropInstance cfg) := by
  have hemits : Emits (Within cfg.keep []) (dropInstance cfg) := emits_dropInstance cfg
  exact hemits.mono fun _ => unaware_of_within (by simp)

theorem unaware_dropIsolation (cfg : LaunchConfig) (isolation : Isolation) :
    Emits Unaware (dropIsolation cfg isolation) :=
  emits_bind (emits_bind (unaware_quiet (by simp)) fun _ => unaware_quiet (by simp)) fun _ =>
    unaware_dropBridgeGuard cfg.bridgeName cfg.keep

theorem unaware_dropState (cfg : LaunchConfig) (isolation : Isolation) :
    Emits Unaware (dropState cfg isolation) :=
  emits_bind (unaware_dropInstance cfg) fun _ => unaware_dropIsolation cfg isolation

theorem carries_setup (polls : Nat) (bridge : Text) (params : CreateBridgeParams)
    (allow : List NetworkRule) (provider : Bool) :
    CarriesOk (swap other) id (setup polls bridge params allow provider)
      (setup polls bridge params allow provider) := by
  have hleaves := swap_unaware other
  have hnetwork : Emits (Within params.keep [.network]) (createBridge bridge params).run :=
    emits_createBridge (by simp) bridge params
  have hbridge := hnetwork.mono fun _ => unaware_of_within (by simp)
  refine carriesOk_seq_self hleaves hbridge fun subnet =>
    carriesOk_guarded (carries_self hleaves (unaware_dropBridgeGuard bridge params.keep)) ?_
  exact carriesOk_seq (carries_resolveSecrets other provider allow []) fun secrets =>
    carries_startProxies other polls bridge subnet allow secrets

theorem carries_init (cfg : LaunchConfig) (isFile : Bytes → Bool) (polls : Nat) :
    CarriesOk (swap other) id (init cfg isFile polls) (init cfg isFile polls) := by
  have hleaves := swap_unaware other
  have hcreate := (emits_createInstance cfg).mono fun _ h => unaware_of_area (by rw [h]; decide)
  have hdevices := (emits_attachDevices cfg isFile).mono fun _ h =>
    unaware_of_area (by rw [h]; decide)
  refine carriesOk_seq_self hleaves hcreate fun _ =>
    carriesOk_guarded (carries_self hleaves (unaware_dropInstance cfg)) ?_
  have hboth := carries_both
    (carries_of_ok (carries_setup other polls cfg.bridgeName
      (toCreateBridgeParams cfg.allow cfg.keep) cfg.allow cfg.provider))
    (carries_self hleaves hdevices)
  refine carriesOk_seq (carriesOk_lift hboth) fun results => ?_
  refine carriesOk_self hleaves ?_
  refine emits_seq (emits_guarded ?_ (emits_ofResult _)) fun _ =>
    emits_seq (emits_ofResult _) fun isolation => ?_
  · cases results.1 with
    | ok isolation => exact unaware_dropIsolation cfg isolation
    | error e => exact emits_done ()
  · exact emits_guarded (unaware_dropIsolation cfg isolation)
      (emits_seq (emits_request trivial) fun _ => emits_done _)

/-- With other secrets from the provider, the same run with the same result: only what
the HTTP proxy is started with is different. -/
theorem secrets_unseen (cfg : LaunchConfig) (isFile : Bytes → Bool) (polls : Nat) (plan : Plan)
    {h : List (Event Reply)} {r : Except LaunchError Int}
    (hrun : Runs (runInstance cfg isFile polls plan).run h r) :
    Runs (runInstance cfg isFile polls plan).run (h.map (swap other)) r := by
  have hleaves := swap_unaware other
  have hcarries : CarriesOk (swap other) id (runInstance cfg isFile polls plan)
      (runInstance cfg isFile polls plan) := by
    refine carriesOk_seq (carries_init other cfg isFile polls) fun isolation => ?_
    have hstart := (emits_start cfg isolation).mono fun c hc =>
      unaware_of_area (c := c) (by rcases hc with h | h <;> simp [h])
    have hsession := (emits_session cfg isolation plan).mono fun c hc =>
      unaware_of_area (c := c) (by rw [hc]; decide)
    exact carriesOk_self hleaves
      (emits_seq (emits_guarded (unaware_dropState cfg isolation) hstart) fun _ =>
        emits_holding (unaware_dropState cfg isolation) hsession)
  exact carries_of_ok hcarries h r hrun

/-- Another token gives the same run of the example. -/
theorem secrets_unseen_work :
    Runs (runInstance workConfig (fun _ => false) 1 workPlan).run
      ((play goodReply (runInstance workConfig (fun _ => false) 1 workPlan).run).1.map
        (swap fun _ _ => "another token".toList))
      (play goodReply (runInstance workConfig (fun _ => false) 1 workPlan).run).2 :=
  secrets_unseen (fun _ _ => "another token".toList) workConfig (fun _ => false) 1 workPlan
    (runs_play goodReply _)

end LaunchSecrets
