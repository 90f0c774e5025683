import Celily.IsolatedStart
import Celily.HeaderInjection

/-!
# Which secrets are asked for

The loop of `setup` over the allow list asks for each name once, in the order in which
the rules first name it, and ends at the first error. What it hands to the proxy then
has a value for every rule, so the lookup of the request handler, which passes over a
name that is missing, never misses.
-/

namespace SecretResolution

open RustText NetworkRules BridgeSubnets EgressAcl HeaderMaps ProxyHandler SecretFlow
  HeaderInjection JoinedTasks InstanceLifecycle LifecycleTraces IsolatedStart

/-- From item names to their values. -/
abbrev Provider := Text → Except CommandError Text

def secretOf : NetworkRule → Option Text
  | .http rule => rule.auth.map AuthConfig.secret
  | .tcp _ _ => none

/-- The names in the order of the rules, with repetitions. -/
def secretNames (allow : List NetworkRule) : List Text := allow.filterMap secretOf

/-- The names up to and including the first that has no value. -/
def untilError (provider : Provider) : List Text → List Text
  | [] => []
  | name :: names =>
    name :: (match provider name with
      | .ok _ => untilError provider names
      | .error _ => [])

theorem untilError_sublist (provider : Provider) (names : List Text) :
    (untilError provider names).Sublist names := by
  induction names with
  | nil => exact List.Sublist.slnil
  | cons name names ih =>
    rw [untilError]
    cases provider name with
    | ok value => exact ih.cons_cons name
    | error e => exact (List.nil_sublist names).cons_cons name

theorem nodup_eraseDups (names : List Text) : names.eraseDups.Nodup := by
  induction hlength : names.length using Nat.strong_induction_on generalizing names with
  | _ length ih =>
    cases names with
    | nil => exact List.nodup_nil
    | cons name names =>
      have hshorter : (names.filter fun other => !other == name).length < length := by
        have hfilter := List.length_filter_le (fun other => !other == name) names
        rw [List.length_cons] at hlength
        omega
      rw [List.eraseDups_cons, List.nodup_cons]
      refine ⟨fun hmem => ?_, ih _ hshorter _ rfl⟩
      have hname := (List.mem_filter.mp (List.mem_eraseDups.mp hmem)).2
      rw [beq_self_eq_true] at hname
      cases hname

/-- The names that are asked for, in order. -/
def asked (h : List (Event Reply)) : List Text :=
  h.filterMap fun
    | .issued (.ask (.resolveSecret name)) => some name
    | _ => none

/-- The replies are those of the provider. -/
def AnsweredBy (provider : Option Provider) (h : List (Event Reply)) : Prop :=
  ∀ p, provider = some p → ∀ name reply,
    .returned (.ask (.resolveSecret name)) reply ∈ h → reply = p name

/-- The provider gives this value for this name. -/
def Gives (provider : Option Provider) (name value : Text) : Prop :=
  ∃ p, provider = some p ∧ p name = .ok value

theorem AnsweredBy.mono {provider : Option Provider} {h k : List (Event Reply)}
    (answered : AnsweredBy provider h) (hsub : k ⊆ h) : AnsweredBy provider k :=
  fun p hp name reply hmem => answered p hp name reply (hsub hmem)

/-! ## The names that are still to be asked for -/

def pending (secrets : SecretMap) (rules : List NetworkRule) : List Text :=
  ((secretNames rules).filter fun name => (secrets.get name).isNone).eraseDups

theorem pending_start (allow : List NetworkRule) :
    pending [] allow = (secretNames allow).eraseDups := by
  have hall : ∀ name ∈ secretNames allow, (SecretMap.get [] name).isNone = true := fun _ _ => rfl
  rw [pending, List.filter_eq_self.mpr hall]

theorem pending_none {secrets : SecretMap} {rule : NetworkRule} (hnone : secretOf rule = none)
    (rules : List NetworkRule) : pending secrets (rule :: rules) = pending secrets rules := by
  rw [pending, pending, secretNames, secretNames, List.filterMap_cons_none hnone]

theorem pending_known {secrets : SecretMap} {rule : NetworkRule} {name : Text}
    (hname : secretOf rule = some name) (hknown : (secrets.get name).isSome = true)
    (rules : List NetworkRule) : pending secrets (rule :: rules) = pending secrets rules := by
  have hskip : (secrets.get name).isNone = false := by
    rw [← Option.not_isSome, hknown]
    rfl
  rw [pending, pending, secretNames, secretNames, List.filterMap_cons_some hname,
    List.filter_cons, hskip, if_neg Bool.false_ne_true]

/-- A name that is asked for is pending no more, whatever its value. -/
theorem pending_new {secrets : SecretMap} {rule : NetworkRule} {name : Text}
    (hname : secretOf rule = some name) (hnew : (secrets.get name).isSome = false)
    (rules : List NetworkRule) (value : Text) :
    pending secrets (rule :: rules) = name :: pending ((name, value) :: secrets) rules := by
  have hmiss : (secrets.get name).isNone = true := by
    rw [← Option.not_isSome, hnew]
    rfl
  have hrest : ∀ other, (SecretMap.get ((name, value) :: secrets) other).isNone =
      ((secrets.get other).isNone && !other == name) := by
    intro other
    rw [get_cons]
    by_cases heq : other = name
    · simp [heq]
    · simp [heq]
  rw [pending, pending, secretNames, secretNames, List.filterMap_cons_some hname,
    List.filter_cons, hmiss, if_pos rfl, List.eraseDups_cons, List.filter_filter]
  simp only [hrest, Bool.and_comm]

/-! ## The loop -/

theorem asked_append (h k : List (Event Reply)) : asked (h ++ k) = asked h ++ asked k := by
  rw [asked, List.filterMap_append]
  rfl

theorem runs_resolveSecrets {p : Provider} {rules : List NetworkRule} {secrets : SecretMap}
    {h : List (Event Reply)} {r : Except LaunchError SecretMap}
    (hrun : Runs (resolveSecrets true secrets rules).run h r) (answered : AnsweredBy (some p) h) :
    asked h = untilError p (pending secrets rules) ∧
      (∀ secret, r ≠ .error (.noProvider secret)) ∧
      (r.isOk = true ↔ ∀ name ∈ pending secrets rules, (p name).isOk = true) := by
  induction rules generalizing secrets h with
  | nil =>
    obtain ⟨rfl, rfl⟩ := runs_pure.mp hrun
    exact ⟨rfl, fun _ herror => (by cases herror), fun _ _ hmem => (by cases hmem), fun _ => rfl⟩
  | cons rule rules ih =>
    cases rule with
    | tcp host ports =>
      rw [pending_none rfl]
      exact ih hrun answered
    | http rule =>
      rw [resolveSecrets] at hrun
      split at hrun
      · rename_i hnone
        rw [pending_none (by rw [secretOf, hnone]; rfl)]
        exact ih hrun answered
      · rename_i auth hauth
        have hname : secretOf (.http rule) = some auth.secret := by rw [secretOf, hauth]; rfl
        split at hrun
        · rename_i hknown
          rw [pending_known hname hknown]
          exact ih hrun answered
        · rename_i hnew
          have hnew := (Bool.not_eq_true _).mp hnew
          rcases runs_seq.mp hrun with ⟨e, rfl, hask⟩ | ⟨value, h₁, h₂, rfl, hask, hrest⟩
          · obtain ⟨reply, rfl, hreply⟩ := runs_request.mp hask
            have hp := answered p rfl auth.secret reply (by simp)
            subst hp
            rw [pending_new hname hnew rules []]
            cases hp : p auth.secret with
            | ok value =>
              rw [hp] at hreply
              cases hreply
            | error error =>
              rw [hp] at hreply
              obtain rfl := Except.error.inj hreply
              refine ⟨by rw [untilError, hp]; rfl, fun _ herror => (by cases herror), ?_⟩
              refine ⟨fun hok => (by cases hok), fun hall => ?_⟩
              have hok := hall auth.secret List.mem_cons_self
              rw [hp] at hok
              cases hok
          · obtain rfl := runs_ask_ok hask
            have hp : .ok value = p auth.secret := answered p rfl auth.secret (.ok value) (by simp)
            obtain ⟨hasked, hprovider, hok⟩ :=
              ih hrest (answered.mono (List.subset_append_right _ _))
            rw [pending_new hname hnew rules value, asked_append, hasked, untilError, ← hp]
            refine ⟨rfl, hprovider, hok.trans ?_⟩
            rw [List.forall_mem_cons, ← hp]
            exact ⟨fun hall => ⟨rfl, hall⟩, fun hall => hall.2⟩

/-- Without a provider nothing is asked, and the first name ends the loop. -/
theorem runs_noProvider {rules : List NetworkRule} {h : List (Event Reply)}
    {r : Except LaunchError SecretMap} (hrun : Runs (resolveSecrets false [] rules).run h r) :
    h = [] ∧
      r = ((secretNames rules).head?.elim (.ok []) fun name => .error (.noProvider name)) := by
  induction rules with
  | nil => exact runs_pure.mp hrun
  | cons rule rules ih =>
    cases rule with
    | tcp host ports => exact ih hrun
    | http rule =>
      rw [resolveSecrets] at hrun
      rw [secretNames]
      split at hrun
      · rename_i hnone
        rw [List.filterMap_cons_none (by rw [secretOf, hnone]; rfl)]
        exact ih hrun
      · rename_i auth hauth
        rw [List.filterMap_cons_some (by rw [secretOf, hauth]; rfl)]
        exact runs_throw.mp hrun

/-! ## What the loop has done -/

/-- The map has, for every rule with an auth, the value that the provider gives for the
rule's own secret. -/
def HoldsAll (provider : Option Provider) (allow : List NetworkRule) (secrets : SecretMap) :
    Prop :=
  ∀ rule auth, .http rule ∈ allow → rule.auth = some auth →
    ∃ value, Gives provider auth.secret value ∧ secrets.get auth.secret = some value

/-- Each name is asked for once, in the order of its first occurrence, up to the first
error; the result is `noProvider` when a provider is needed and there is none. -/
structure Resolution (provider : Option Provider) (allow : List NetworkRule)
    (h : List (Event Reply)) (result : Except LaunchError SecretMap) : Prop where
  asks : asked h = provider.elim [] fun p => untilError p (secretNames allow).eraseDups
  once : (asked h).Nodup
  noProvider : (∃ secret, result = .error (.noProvider secret)) ↔
    provider = none ∧ ∃ rule auth, .http rule ∈ allow ∧ rule.auth = some auth
  completes : result.isOk = true ↔ ∀ rule auth, .http rule ∈ allow → rule.auth = some auth →
    ∃ value, Gives provider auth.secret value
  values : ∀ secrets, result = .ok secrets → HoldsAll provider allow secrets

theorem mem_secretNames {allow : List NetworkRule} {name : Text} :
    name ∈ secretNames allow ↔
      ∃ rule auth, .http rule ∈ allow ∧ rule.auth = some auth ∧ auth.secret = name := by
  rw [secretNames, List.mem_filterMap]
  constructor
  · rintro ⟨rule, hmem, hname⟩
    cases rule with
    | tcp host ports => cases hname
    | http rule =>
      obtain ⟨auth, hauth, rfl⟩ := Option.map_eq_some_iff.mp hname
      exact ⟨rule, auth, hmem, hauth, rfl⟩
  · rintro ⟨rule, auth, hmem, hauth, rfl⟩
    exact ⟨.http rule, hmem, by rw [secretOf, hauth]; rfl⟩

theorem forall_secretNames {allow : List NetworkRule} {P : Text → Prop} :
    (∀ name ∈ secretNames allow, P name) ↔
      ∀ rule auth, .http rule ∈ allow → rule.auth = some auth → P auth.secret := by
  constructor
  · exact fun hall rule auth hmem hauth =>
      hall auth.secret (mem_secretNames.mpr ⟨rule, auth, hmem, hauth, rfl⟩)
  · intro hall name hmem
    obtain ⟨rule, auth, hrule, hauth, rfl⟩ := mem_secretNames.mp hmem
    exact hall rule auth hrule hauth

theorem gives_iff {p : Provider} {name : Text} :
    (∃ value, Gives (some p) name value) ↔ (p name).isOk = true := by
  constructor
  · rintro ⟨value, q, hq, hvalue⟩
    obtain rfl := Option.some.inj hq
    rw [hvalue]
    rfl
  · intro hok
    cases hp : p name with
    | ok value => exact ⟨value, p, rfl, hp⟩
    | error e =>
      rw [hp] at hok
      cases hok

theorem resolved_holdsAll {provider : Option Provider} {allow : List NetworkRule}
    {h : List (Event Reply)} {secrets : SecretMap}
    (hrun : Runs (resolveSecrets provider.isSome [] allow).run h (.ok secrets))
    (answered : AnsweredBy provider h) : HoldsAll provider allow secrets := by
  obtain ⟨_, covers, known⟩ :=
    resolveSecrets_ok provider.isSome allow [] h h secrets (List.Subset.refl h) hrun
  intro rule auth hmem hauth
  obtain ⟨value, hget⟩ := Option.isSome_iff_exists.mp (covers.names rule auth hmem hauth)
  refine ⟨value, ?_, hget⟩
  have hanswer := known (fun _ _ hnone => by cases hnone) auth.secret value hget
  cases provider with
  | some p => exact ⟨p, rfl, (answered p rfl _ _ hanswer).symm⟩
  | none =>
    rw [(runs_noProvider hrun).1] at hanswer
    cases hanswer

theorem resolution {provider : Option Provider} {allow : List NetworkRule}
    {h : List (Event Reply)} {r : Except LaunchError SecretMap}
    (hrun : Runs (resolveSecrets provider.isSome [] allow).run h r)
    (answered : AnsweredBy provider h) : Resolution provider allow h r := by
  have hvalues : ∀ secrets, r = .ok secrets → HoldsAll provider allow secrets := by
    rintro secrets rfl
    exact resolved_holdsAll hrun answered
  cases provider with
  | some p =>
    obtain ⟨hasked, hprovider, hok⟩ := runs_resolveSecrets hrun answered
    rw [pending_start] at hasked hok
    refine ⟨hasked, ?_, ?_, ?_, hvalues⟩
    · rw [hasked]
      exact (untilError_sublist p _).nodup (nodup_eraseDups _)
    · exact ⟨fun ⟨secret, herror⟩ => absurd herror (hprovider secret), fun h => by cases h.1⟩
    · simp only [gives_iff, ← forall_secretNames (P := fun name => (p name).isOk = true)]
      simpa only [List.mem_eraseDups] using hok
  | none =>
    obtain ⟨rfl, rfl⟩ := runs_noProvider hrun
    have hnone : ∀ name, ¬∃ value, Gives none name value := by
      rintro name ⟨value, p, hp, _⟩
      cases hp
    have hnames : (∃ rule auth, NetworkRule.http rule ∈ allow ∧ rule.auth = some auth) ↔
        secretNames allow ≠ [] := by
      constructor
      · rintro ⟨rule, auth, hmem, hauth⟩
        exact List.ne_nil_of_mem (mem_secretNames.mpr ⟨rule, auth, hmem, hauth, rfl⟩)
      · intro hne
        obtain ⟨name, hname⟩ := List.exists_mem_of_ne_nil _ hne
        obtain ⟨rule, auth, hmem, hauth, _⟩ := mem_secretNames.mp hname
        exact ⟨rule, auth, hmem, hauth⟩
    refine ⟨rfl, List.nodup_nil, ?_, ?_, hvalues⟩
    · rw [hnames]
      cases secretNames allow with
      | nil => simp
      | cons name names => simp
    · simp only [hnone, ← forall_secretNames (P := fun _ => False)]
      cases secretNames allow with
      | nil => exact ⟨fun _ _ hmem => (by cases hmem), fun _ => rfl⟩
      | cons name names =>
        exact ⟨fun hok => (by cases hok), fun hall => (hall name List.mem_cons_self).elim⟩

/-! ## What the proxy is handed -/

/-- If the command starts the HTTP proxy, then with these rules and these secrets. -/
def Hands (rules : List NetworkRule) (secrets : SecretMap) (c : Command) : Prop :=
  ∀ address port rules' secrets' subnet,
    c = .quiet (.spawnHttpProxy address port rules' secrets' subnet) →
      rules' = rules ∧ secrets' = secrets

/-- A command that does not start the HTTP proxy. -/
def Unproxied (c : Command) : Prop :=
  ∀ address port rules secrets subnet,
    c ≠ .quiet (.spawnHttpProxy address port rules secrets subnet)

theorem Unproxied.hands {c : Command} (unproxied : Unproxied c) (rules : List NetworkRule)
    (secrets : SecretMap) : Hands rules secrets c :=
  fun _ _ _ _ _ heq => absurd heq (unproxied _ _ _ _ _)

theorem Within.unproxied {keep : Bool} {c : Command} (within : Within keep [.network] c) :
    Unproxied c := by
  rintro _ _ _ _ _ rfl
  rcases within with harea | ⟨harea, _⟩
  · exact absurd harea (by simp [area])
  · cases harea

theorem unproxied_act (a : Act) : Unproxied (.act a) := by rintro _ _ _ _ _ ⟨⟩

theorem unproxied_ask (q : Query) : Unproxied (.ask q) := by rintro _ _ _ _ _ ⟨⟩

theorem emits_startProxies_hands (polls : Nat) (bridge : Text) (subnet : BridgeSubnet)
    (rules : List NetworkRule) (secrets : SecretMap) :
    Emits (Hands rules secrets) (startProxies polls bridge subnet rules secrets).run := by
  have hact : ∀ a, Emits (Hands rules secrets) (act .proxy a).run :=
    fun a => emits_request ((unproxied_act a).hands rules secrets)
  have hask : ∀ q, Emits (Hands rules secrets) (ask .proxy q).run :=
    fun q => emits_request ((unproxied_ask q).hands rules secrets)
  have hquiet : ∀ q, Hands rules secrets (.quiet q) → Emits (Hands rules secrets) (quiet q) :=
    fun q hq => emits_call hq fun _ => emits_done ()
  have hconnect : Unproxied (.connect (.v4 subnet.gateway) proxyPort) := by
    rintro _ _ _ _ _ ⟨⟩
  have hpolls := emits_waitUntilReady ((unproxied_act .checkTasks).hands rules secrets)
    (hconnect.hands rules secrets) polls
  refine emits_seq (hask _) fun resolvConf => ?_
  split
  · exact emits_done _
  refine emits_seq (hask _) fun runtimeDir => emits_seq (hact _) fun _ =>
    emits_guarded (hquiet _ (by rintro _ _ _ _ _ ⟨⟩)) ?_
  refine emits_seq (hask _) fun caCert => ?_
  refine emits_seq (emits_lift (hquiet _ ?_)) fun _ => ?_
  · rintro _ _ _ _ _ heq
    cases heq
    exact ⟨rfl, rfl⟩
  refine emits_seq (emits_lift (hquiet _ (by rintro _ _ _ _ _ ⟨⟩))) fun _ => ?_
  exact emits_seq (emits_guarded (hquiet _ (by rintro _ _ _ _ _ ⟨⟩)) hpolls) fun _ =>
    emits_done _

/-- The HTTP proxy is started with the whole allow list and the map that the loop has
filled. -/
theorem setup_hands {polls : Nat} {bridge : Text} {params : CreateBridgeParams}
    {allow : List NetworkRule} {provider : Bool} {h : List (Event Reply)}
    {r : Except LaunchError Isolation}
    (hrun : Runs (setup polls bridge params allow provider).run h r)
    {address : InternetAddresses.IpAddr} {port : UInt16} {rules : List NetworkRule}
    {secrets : SecretMap} {subnet : BridgeSubnet}
    (hmem : .issued (.quiet (.spawnHttpProxy address port rules secrets subnet)) ∈ h) :
    rules = allow ∧
      ∃ k, k ⊆ h ∧ Runs (resolveSecrets provider [] allow).run k (.ok secrets) := by
  have hnetwork : Area.network ∈ [Area.network] := List.mem_cons_self
  have hbridge := (emits_createBridge hnetwork bridge params).mono fun c hc => Within.unproxied hc
  have hloop := emits_resolveSecrets (fun _ => unproxied_ask _) provider allow []
  rcases runs_seq.mp hrun with ⟨e, _, hcreate⟩ | ⟨gateway, h₁, h₂, rfl, hcreate, hguard⟩
  · exact absurd rfl (hbridge _ _ hcreate _ hmem _ _ _ _ _)
  rcases List.mem_append.mp hmem with hfirst | hmem
  · exact absurd rfl (hbridge _ _ hcreate _ hfirst _ _ _ _ _)
  have hinner : ∃ result k₁ k₂, h₂ = k₁ ++ k₂ ∧
      Runs (resolveSecrets provider [] allow >>= fun authSecrets =>
        startProxies polls bridge gateway allow authSecrets).run k₁ result ∧
      .issued (.quiet (.spawnHttpProxy address port rules secrets subnet)) ∈ k₁ := by
    rcases runs_guarded.mp hguard with ⟨a, _, hbody⟩ | ⟨e, k₁, k₂, _, rfl, hbody, hdrop⟩
    · exact ⟨_, h₂, [], (List.append_nil h₂).symm, hbody, hmem⟩
    · refine ⟨_, k₁, k₂, rfl, hbody, ?_⟩
      rcases List.mem_append.mp hmem with hin | hin
      · exact hin
      · have hdelete : Emits (Within params.keep [.network])
            (dropBridgeGuard bridge params.keep) := emits_dropBridgeGuard bridge
        exact absurd rfl (Within.unproxied (hdelete _ _ hdrop _ hin) _ _ _ _ _)
  obtain ⟨result, k₁, k₂, rfl, hbody, hin⟩ := hinner
  rcases runs_seq.mp hbody with ⟨e, _, hfail⟩ | ⟨filled, k₃, k₄, rfl, hresolve, hstart⟩
  · exact absurd rfl (hloop _ _ hfail _ hin _ _ _ _ _)
  rcases List.mem_append.mp hin with hin | hin
  · exact absurd rfl (hloop _ _ hresolve _ hin _ _ _ _ _)
  obtain ⟨rfl, rfl⟩ :=
    emits_startProxies_hands polls bridge gateway allow filled _ _ hstart _ hin _ _ _ _ _ rfl
  refine ⟨rfl, k₃, fun e he => ?_, hresolve⟩
  exact List.mem_append_right h₁ (List.mem_append_left k₂ (List.mem_append_left k₄ he))

/-! ## What is sent -/

section Sent
variable {H B : Type} [HeaderMap H]

theorem gate_authSecrets {handler next : CelilyHandler} {now : UInt64} {ctx : HttpContext}
    {request : ProxyRequest H B} {answer : RequestOrResponse H B}
    (hgate : Gate handler now ctx request answer next) :
    next.authSecrets = handler.authSecrets := by
  cases hgate with
  | exhausted target index rule => exact count_authSecrets handler index rule now
  | forwarded target index rule => exact count_authSecrets handler index rule now
  | _ => rfl

/-- Every forwarded request goes out under a rule of the handler, with its headers. -/
theorem run_sent {handler final : CelilyHandler} {arrivals : List (Arrival H B)}
    {log : List (Exchange H B)} (hrun : run handler arrivals = .ok (log, final))
    {exchange : Exchange H B} (hmem : exchange ∈ log) {sent : ProxyRequest H B}
    (hsent : exchange.answer = .request sent) :
    ∃ rule, Under handler.rules exchange.arrival.request rule ∧
      sent = exchange.arrival.request.withHeaders
        (injectedHeaders handler.authSecrets rule exchange.arrival.request.head.headers) := by
  induction arrivals generalizing handler log with
  | nil =>
    cases hrun
    cases hmem
  | cons arrival arrivals ih =>
    obtain ⟨answer, next, hgate⟩ := gate_total handler arrival.now arrival.ctx arrival.request
    rw [run, hgate.runs] at hrun
    simp only [bind, Except.bind] at hrun
    split at hrun
    · cases hrun
    rename_i rest hrest
    cases hrun
    rcases List.mem_cons.mp hmem with rfl | hmem
    · cases hgate with
      | forwarded target index rule admitted selects hroom =>
        cases hsent
        exact ⟨rule, under_of_selects admitted selects, rfl⟩
      | _ => cases hsent
    · obtain ⟨rule, hunder, hheaders⟩ := ih hrest hmem
      rw [gate_rules hgate] at hunder
      rw [gate_authSecrets hgate] at hheaders
      exact ⟨rule, hunder, hheaders⟩

/-- The last write to the headers is the attempt at the auth header, with the value that
the provider gives for the rule's own secret. -/
def TriesAuth (provider : Option Provider) (rule : HttpRule) (headers sent : H) : Prop :=
  ∀ auth, rule.auth = some auth → ∃ value, Gives provider auth.secret value ∧
    sent = (set (injectAll headers rule.headers) auth.header (auth.value value)).2

theorem HoldsAll.triesAuth {provider : Option Provider} {allow : List NetworkRule}
    {secrets : SecretMap} (holds : HoldsAll provider allow secrets) {rule : HttpRule}
    (hrule : .http rule ∈ allow) (headers : H) :
    TriesAuth provider rule headers (injectedHeaders secrets rule headers) := by
  intro auth hauth
  obtain ⟨value, hgives, hget⟩ := holds rule auth hrule hauth
  refine ⟨value, hgives, ?_⟩
  rw [injectedHeaders, hauth]
  dsimp only
  rw [hget]
  rfl

omit [HeaderMap H] in
theorem under_mem {rules : List NetworkRule} {request : ProxyRequest H B} {rule : HttpRule}
    (under : Under rules request rule) : .http rule ∈ rules := by
  obtain ⟨_, _, _, selects⟩ := under.selected
  exact List.mem_of_getElem? selects.rule_at

/-- For every allow list and every provider: what the loop asks for and how it ends, and
that the proxy started with its map sends no request under a rule with an auth without
an attempt at the header. -/
theorem setup_resolves (provider : Option Provider) (allow : List NetworkRule) :
    (∀ h r, Runs (resolveSecrets provider.isSome [] allow).run h r → AnsweredBy provider h →
      Resolution provider allow h r) ∧
    ∀ polls bridge params h r,
      Runs (setup polls bridge params allow provider.isSome).run h r → AnsweredBy provider h →
      ∀ address port rules secrets subnet,
        .issued (.quiet (.spawnHttpProxy address port rules secrets subnet)) ∈ h →
        rules = allow ∧ HoldsAll provider allow secrets ∧
        ∀ (arrivals : List (Arrival H B)) log final,
          run (.new rules secrets subnet) arrivals = .ok (log, final) →
          ∀ exchange ∈ log, ∀ sent, exchange.answer = .request sent →
            ∃ rule, Under allow exchange.arrival.request rule ∧
              TriesAuth provider rule exchange.arrival.request.head.headers
                sent.head.headers := by
  refine ⟨fun h r => resolution, ?_⟩
  intro polls bridge params h r hrun answered address port rules secrets subnet hmem
  obtain ⟨rfl, k, hsub, hresolve⟩ := setup_hands hrun hmem
  have holds := resolved_holdsAll hresolve (answered.mono hsub)
  refine ⟨rfl, holds, ?_⟩
  rintro arrivals log final hlog exchange hexchange sent hsent
  obtain ⟨rule, under, rfl⟩ := run_sent hlog hexchange hsent
  exact ⟨rule, under, holds.triesAuth (under_mem under) exchange.arrival.request.head.headers⟩

end Sent


/-- The provider that `goodReply` stands for. -/
def goodProvider : Provider := fun _ => .ok "running".toList

theorem play_answeredBy {α : Type} (t : Task Reply α) :
    AnsweredBy (some goodProvider) (play goodReply t).1 := by
  intro p hp name reply hmem
  obtain rfl := Option.some.inj hp
  exact play_answers goodReply t hmem

/-- All that happens while the isolation of the example is set up. -/
def workSetup : List (Event Reply) × Except LaunchError Isolation :=
  play goodReply (setup 1 "cel-1".toList (toCreateBridgeParams workConfig.allow false)
    workConfig.allow true).run

theorem workPrefix_le : 24 ≤ 32 := by decide

def workSubnet : BridgeSubnet := ⟨⟨0x0a000301⟩, 24, workPrefix_le⟩

theorem workSetup_hands : .issued (.quiet (.spawnHttpProxy (.v4 workSubnet.gateway) proxyPort
    workConfig.allow [("token".toList, "running".toList)] workSubnet)) ∈ workSetup.1 :=
  List.mem_of_getElem? (i := 28) rfl

theorem setup_resolves_work :
    asked (play goodReply (resolveSecrets true [] workConfig.allow).run).1 = ["token".toList] ∧
      ∃ rule sent, Under workConfig.allow apiRequest rule ∧
        TriesAuth (some goodProvider) rule apiRequest.head.headers sent := by
  obtain ⟨hloop, hsetup⟩ :=
    setup_resolves (H := HeaderList) (B := Bytes) (some goodProvider) workConfig.allow
  have hresolution := hloop _ _ (runs_play goodReply _) (play_answeredBy _)
  refine ⟨hresolution.asks.trans (by decide), ?_⟩
  obtain ⟨_, _, hsent⟩ := hsetup 1 _ _ _ _ (runs_play goodReply _) (play_answeredBy _) _ _ _ _ _
    workSetup_hands
  have hclient : workSubnet.IsInstance (.v4 ⟨0x0a000302⟩) := (hasInstance_iff _ _).mp (by decide)
  have hselects : Selects workConfig.allow apiTarget 0 _ :=
    ⟨rfl, ⟨rfl, by decide, by decide, by decide, by decide⟩, fun j hj => by omega⟩
  have hgate : Gate (.new workConfig.allow [("token".toList, "running".toList)] workSubnet) 0
      ⟨⟨.v4 ⟨0x0a000302⟩, 40000⟩⟩ apiRequest _ _ :=
    .forwarded _ 0 _ ⟨hclient, apiRequest_admitted.asks, apiRequest_admitted.method⟩ hselects
      (by intro quota hquota; cases hquota)
  obtain ⟨rule, under, tries⟩ := hsent [⟨0, ⟨⟨.v4 ⟨0x0a000302⟩, 40000⟩⟩, apiRequest⟩] _ _
    (by rw [run, hgate.runs]; rfl) _ List.mem_cons_self _ rfl
  exact ⟨rule, _, under, tries⟩

end SecretResolution
