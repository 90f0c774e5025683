import Celily.Teardown

/-!
# The firewall of a running instance

`Fabric` adds to what the backend keeps of the networks: the rules of each ACL and
whether a network rejects what no rule matches. Any command may fail, but none creates
what exists or deletes what is in use. Then at every moment after the start command, as
long as the instance exists, exactly the packets of the policy leave it: also while the
run is torn down, and also if a deletion fails.
-/

namespace RunningFirewall

open RustText NetworkRules BridgeSubnets EgressAcl JoinedTasks TaskTriples InstanceLifecycle
open LifecycleTraces IsolatedStart Teardown

structure Fabric where
  host : Host
  /-- The arguments of the rules of an ACL. -/
  rules : Text → List (List Text)
  /-- Whether a network rejects what no rule of its ACLs matches. -/
  rejects : Text → Bool

/-- The command that the event reports to have succeeded. -/
def succeeded : Event Reply → Option Act
  | .returned (.act a) reply => if Except.isOk reply then some a else none
  | _ => none

def ruleChange (rules : Text → List (List Text)) : Option Act → Text → List (List Text)
  | some (.createAcl name) => Function.update rules name []
  | some (.addAclRule acl args) => Function.update rules acl (rules acl ++ [args])
  | _ => rules

def rejectChange (rejects : Text → Bool) : Option Act → Text → Bool
  | some (.createNetwork name) => Function.update rejects name false
  | some (.setNetworkEgressReject name) => Function.update rejects name true
  | _ => rejects

namespace Fabric

def next (fabric : Fabric) (e : Event Reply) : Fabric where
  host := fabric.host.next e
  rules := ruleChange fabric.rules (succeeded e)
  rejects := rejectChange fabric.rejects (succeeded e)

/-- The rules of the ACLs that are attached to a network. -/
def rulesOn (fabric : Fabric) (network : Text) : List (List Text) :=
  (fabric.host.attachments.filter fun p => p.1 = network).flatMap fun p => fabric.rules p.2

/-- Nothing filters on a network without an ACL, and what no rule matches only stays if
the network rejects it. -/
def Passes (fabric : Fabric) (network : Text) (packet : Packet) : Prop :=
  (∀ p ∈ fabric.host.attachments, p.1 ≠ network) ∨
  Allowed (fabric.rulesOn network) packet ∨
  fabric.rejects network = false ∧
    ∀ args ∈ fabric.rulesOn network, ∀ rule, readRule args = some rule → ¬rule.Matches packet

/-- The packet leaves the instance by one of its NICs. -/
def Leaves (fabric : Fabric) (name : Text) (packet : Packet) : Prop :=
  ∃ p ∈ fabric.host.nics, p.1 = name ∧ fabric.Passes p.2 packet

end Fabric

/-! ## What has been built -/

/-- The instance exists and is on no network. -/
structure Alone (cfg : LaunchConfig) (fabric : Fabric) : Prop where
  present : .inst cfg.name ∈ fabric.host.objects
  unplugged : ∀ p ∈ fabric.host.nics, p.1 ≠ cfg.name

/-- The bridge exists, and no ACL is attached to it. -/
structure Bridged (cfg : LaunchConfig) (fabric : Fabric) : Prop extends Alone cfg fabric where
  network : .network cfg.bridgeName ∈ fabric.host.objects
  bare : ∀ p ∈ fabric.host.attachments, p.1 ≠ cfg.bridgeName

/-- The ACL exists and has these rules. -/
structure Filled (cfg : LaunchConfig) (rules : List (List Text)) (fabric : Fabric) : Prop
    extends Bridged cfg fabric where
  acl : .acl cfg.bridgeName ∈ fabric.host.objects
  filled : fabric.rules cfg.bridgeName = rules

/-- The bridge lets out what the rules allow and nothing else. -/
structure Filtering (cfg : LaunchConfig) (rules : List (List Text)) (fabric : Fabric) :
    Prop where
  attached : (fabric.host.attachments.filter fun p => p.1 = cfg.bridgeName) =
    [(cfg.bridgeName, cfg.bridgeName)]
  filled : fabric.rules cfg.bridgeName = rules
  rejecting : fabric.rejects cfg.bridgeName = true

/-- Besides, the instance is on the bridge and on no other network. -/
structure Firewalled (cfg : LaunchConfig) (rules : List (List Text)) (fabric : Fabric) : Prop
    extends Filtering cfg rules fabric where
  plugged : (cfg.name, cfg.bridgeName) ∈ fabric.host.nics
  only : ∀ p ∈ fabric.host.nics, p.1 = cfg.name → p.2 = cfg.bridgeName

section Filtering
variable {cfg : LaunchConfig} {rules : List (List Text)} {fabric : Fabric}

theorem Filtering.mem_attachments (h : Filtering cfg rules fabric) :
    (cfg.bridgeName, cfg.bridgeName) ∈ fabric.host.attachments := by
  have hmem : (cfg.bridgeName, cfg.bridgeName) ∈
      fabric.host.attachments.filter fun p => p.1 = cfg.bridgeName := by
    rw [h.attached]
    exact List.mem_singleton_self _
  exact List.mem_of_mem_filter hmem

theorem Filtering.passes_iff (h : Filtering cfg rules fabric) (packet : Packet) :
    fabric.Passes cfg.bridgeName packet ↔ Allowed rules packet := by
  have hrules : fabric.rulesOn cfg.bridgeName = rules := by
    rw [Fabric.rulesOn, h.attached, List.flatMap_singleton, h.filled]
  rw [Fabric.Passes, hrules, h.rejecting]
  constructor
  · rintro (hbare | hallowed | ⟨hopen, _⟩)
    · exact absurd rfl (hbare _ h.mem_attachments)
    · exact hallowed
    · cases hopen
  · exact fun hallowed => Or.inr (Or.inl hallowed)

theorem Firewalled.leaves_iff (h : Firewalled cfg rules fabric) (packet : Packet) :
    fabric.Leaves cfg.name packet ↔ Allowed rules packet := by
  rw [← h.toFiltering.passes_iff]
  constructor
  · rintro ⟨p, hp, hname, hpasses⟩
    rwa [h.only p hp hname] at hpasses
  · exact fun hpasses => ⟨_, h.plugged, rfl, hpasses⟩

/-- What is not in use can go without opening the firewall. -/
theorem Firewalled.delete (h : Firewalled cfg rules fabric) {o : Object}
    (hinst : o ≠ .inst cfg.name) (hfree : ¬fabric.host.InUse o) :
    Firewalled cfg rules { fabric with host := fabric.host.delete o } := by
  have hnetwork : .network cfg.bridgeName ≠ o := by
    rintro rfl
    exact hfree ⟨_, h.plugged, rfl⟩
  have hacl : .acl cfg.bridgeName ≠ o := by
    rintro rfl
    exact hfree ⟨_, h.mem_attachments, rfl⟩
  refine ⟨⟨?_, h.filled, h.rejecting⟩, ?_, fun p hp => h.only p (List.mem_of_mem_filter hp)⟩
  · have hkept : ∀ p ∈ [(cfg.bridgeName, cfg.bridgeName)],
        decide (.network p.1 ≠ o ∧ .acl p.2 ≠ o) = true := by
      intro p hp
      rw [List.mem_singleton.mp hp]
      exact decide_eq_true ⟨hnetwork, hacl⟩
    simp only [Host.delete]
    rw [List.filter_comm, h.attached, List.filter_eq_self.mpr hkept]
  · exact List.mem_filter.mpr ⟨h.plugged, decide_eq_true ⟨hinst.symm, hnetwork⟩⟩

end Filtering

/-! ## What is observed -/

structure Watched where
  fabric : Fabric
  /-- Whatever has succeeded so far could. -/
  careful : Prop

def watch (w : Watched) (e : Event Reply) : Watched :=
  ⟨w.fabric.next e, w.careful ∧ w.fabric.host.Tolerates e⟩

/-- If only that has succeeded which could. -/
def When (P : Fabric → Prop) (w : Watched) : Prop := w.careful → P w.fabric

theorem foldl_watch (h : List (Event Reply)) (w : Watched) :
    (h.foldl watch w).fabric = h.foldl Fabric.next w.fabric ∧
      ((h.foldl watch w).careful ↔ w.careful ∧ Careful w.fabric.host h) := by
  induction h generalizing w with
  | nil => simp [Careful]
  | cons e h ih =>
    obtain ⟨hfabric, hcareful⟩ := ih (watch w e)
    rw [List.foldl_cons, List.foldl_cons, hfabric, hcareful]
    refine ⟨rfl, ?_⟩
    simp only [watch, Careful, Fabric.next, and_assoc]

/-- What changes neither the objects nor the filters. -/
def Unseen : Command → Prop
  | .act (.addAclRule _ _) => False
  | .act (.setNetworkEgressReject _) => False
  | .act a => effect a = none
  | _ => True

theorem change_unseen {a : Act} (h : Unseen (.act a)) (rules : Text → List (List Text))
    (rejects : Text → Bool) :
    ruleChange rules (some a) = rules ∧ rejectChange rejects (some a) = rejects := by
  cases a <;> first | exact ⟨rfl, rfl⟩ | exact h.elim | cases h

theorem silent_unseen {c : Command} (h : Unseen c) : Silent watch c := by
  rintro e w rfl
  obtain ⟨⟨host, rules, rejects⟩, careful⟩ := w
  have hseen : outcome e = none ∧ ruleChange rules (succeeded e) = rules ∧
      rejectChange rejects (succeeded e) = rejects := by
    cases e with
    | issued c => exact ⟨rfl, rfl, rfl⟩
    | returned c reply =>
      cases c with
      | act a =>
        have hnone : effect a = none := by
          cases a <;> first | rfl | exact h
        refine ⟨by rw [outcome, hnone]; rfl, ?_⟩
        rw [succeeded]
        split
        · exact change_unseen h rules rejects
        · exact ⟨rfl, rfl⟩
      | _ => exact ⟨rfl, rfl, rfl⟩
  obtain ⟨hout, hrules, hrejects⟩ := hseen
  simp only [watch, Fabric.next, Host.next, hout, hrules, hrejects, tolerates_none hout, and_true]

theorem unseen_of_area {c : Command} (harea : area c ∉ [.create, .nic, .network, .delete]) :
    Unseen c := by
  cases c with
  | act a => cases a <;> first | rfl | exact absurd (by simp [area, actArea]) harea
  | _ => trivial

theorem gives_act {context : CommandError → LaunchError} {a : Act} {P A : Fabric → Prop}
    (hok : ∀ fabric, P fabric → fabric.host.Tolerates (.returned (.act a) (.ok ())) →
      A (fabric.next (.returned (.act a) (.ok ())))) :
    Triple watch (When P) (act context a).run (Gives fun _ => When A) := by
  refine gives_of_ok fun w h u hP hrun => ?_
  obtain rfl := runs_act_ok hrun
  rintro ⟨⟨careful, _⟩, tolerates⟩
  exact hok w.fabric (hP careful) tolerates

/-! ## How it is built -/

section Built
variable {cfg : LaunchConfig} {rules : List (List Text)}

theorem gives_createInstance (cfg : LaunchConfig) :
    Triple watch (When fun _ => True) (createInstance cfg).run
      (Gives fun _ => When (Alone cfg)) := by
  refine gives_seq (G := fun _ => When fun _ => True) (gives_silent ?_) fun _ =>
    gives_act fun fabric _ tolerates => ?_
  · unfold ensureProject
    split
    · exact emits_done _
    · exact emits_request (silent_unseen rfl)
  · have hnew : .inst cfg.name ∉ fabric.host.objects := tolerates _ rfl rfl
    refine ⟨List.mem_cons_self, fun p hp hname => hnew ?_⟩
    rw [← hname]
    exact (fabric.host.nics_present p hp).1

theorem gives_createNetwork :
    Triple watch (When (Alone cfg)) (act .bridge (.createNetwork cfg.bridgeName)).run
      (Gives fun _ => When (Bridged cfg)) := by
  refine gives_act fun fabric alone tolerates => ?_
  have hnew : .network cfg.bridgeName ∉ fabric.host.objects := tolerates _ rfl rfl
  refine ⟨⟨List.mem_cons_of_mem _ alone.present, alone.unplugged⟩, List.mem_cons_self, ?_⟩
  intro p hp hname
  apply hnew
  rw [← hname]
  exact (fabric.host.attachments_present p hp).1

theorem gives_createAcl :
    Triple watch (When (Bridged cfg)) (act .bridge (.createAcl cfg.bridgeName)).run
      (Gives fun _ => When (Filled cfg [])) := by
  refine gives_act fun fabric bridged _ => ?_
  refine ⟨⟨⟨List.mem_cons_of_mem _ bridged.present, bridged.unplugged⟩,
    List.mem_cons_of_mem _ bridged.network, bridged.bare⟩, List.mem_cons_self, ?_⟩
  exact Function.update_self _ _ _

/-- The rules are added one after the other. -/
theorem gives_addRules (more : List NetworkAclRule) :
    Triple watch (When (Filled cfg rules)) (each (addRule cfg.bridgeName) more).run
      (Gives fun _ => When (Filled cfg (rules ++ more.map ruleToCliArgs))) := by
  induction more generalizing rules with
  | nil =>
    rw [List.map_nil, List.append_nil]
    exact gives_pure fun _ filled => filled
  | cons rule more ih =>
    refine gives_seq (G := fun _ => When (Filled cfg (rules ++ [ruleToCliArgs rule]))) ?_
      fun _ => ?_
    · refine gives_act fun fabric filled _ => ?_
      refine ⟨⟨⟨filled.present, filled.unplugged⟩, filled.network, filled.bare⟩, filled.acl, ?_⟩
      rw [← filled.filled]
      exact Function.update_self _ _ _
    · have hrest : Triple watch (When (Filled cfg (rules ++ [ruleToCliArgs rule])))
          (each (addRule cfg.bridgeName) more).run (Gives fun _ => When (Filled cfg
            (rules ++ [ruleToCliArgs rule] ++ more.map ruleToCliArgs))) := ih
      rwa [List.append_assoc] at hrest

theorem gives_attachAcl :
    Triple watch (When fun fabric => Filled cfg rules fabric ∧
        fabric.rejects cfg.bridgeName = true)
      (act .bridge (.attachAclToNetwork cfg.bridgeName cfg.bridgeName)).run
      (Gives fun _ => When fun fabric => Alone cfg fabric ∧
        .network cfg.bridgeName ∈ fabric.host.objects ∧ Filtering cfg rules fabric) := by
  refine gives_act fun fabric h _ => ?_
  obtain ⟨filled, rejecting⟩ := h
  refine ⟨⟨filled.present, filled.unplugged⟩, filled.network, ?_, filled.filled, rejecting⟩
  have hattachments : (fabric.next (.returned (.act
      (.attachAclToNetwork cfg.bridgeName cfg.bridgeName)) (.ok ()))).host.attachments =
      (cfg.bridgeName, cfg.bridgeName) :: fabric.host.attachments :=
    if_pos ⟨filled.network, filled.acl⟩
  have hothers : (fabric.host.attachments.filter fun p => p.1 = cfg.bridgeName) = [] := by
    rw [List.filter_eq_nil_iff]
    intro p hp
    simpa using filled.bare p hp
  rw [hattachments, List.filter_cons_of_pos (by simp), hothers]

/-- What `create_bridge` hands on filters by the rules for its gateway. -/
theorem gives_createBridge (cfg : LaunchConfig) (params : CreateBridgeParams) :
    Triple watch (When (Alone cfg)) (createBridge cfg.bridgeName params).run
      (Gives fun subnet => When fun fabric => Alone cfg fabric ∧
        .network cfg.bridgeName ∈ fabric.host.objects ∧ Filtering cfg
          ((buildRulesFromParams params subnet.gateway.display).map ruleToCliArgs) fabric) := by
  have hsilent : ∀ a, Unseen (.act a) → Emits (Silent watch) (act .bridge a).run :=
    fun a ha => emits_request (silent_unseen ha)
  have hsubnet : Emits (Silent watch) (getSubnet cfg.bridgeName).run := by
    refine emits_seq (emits_request (silent_unseen trivial)) fun raw => ?_
    split
    · exact emits_done _
    · exact emits_done _
  refine gives_seq gives_createNetwork fun _ => gives_guarded ?_
  refine gives_seq (gives_silent hsubnet) fun subnet => ?_
  refine gives_seq gives_createAcl fun _ => gives_guarded ?_
  have hrules : Triple watch (When (Filled cfg [])) (each (addRule cfg.bridgeName)
      (buildRulesFromParams params subnet.gateway.display)).run (Gives fun _ => When (Filled cfg
        ((buildRulesFromParams params subnet.gateway.display).map ruleToCliArgs))) :=
    gives_addRules _
  refine triple_lift_seq (triple_both hrules (hsilent _ rfl)) fun results => ?_
  refine gives_seq (gives_result results.1) fun _ => ?_
  refine gives_seq (gives_silent (emits_ofResult results.2)) fun _ => ?_
  refine gives_seq (G := fun _ => When fun fabric => Filled cfg
      ((buildRulesFromParams params subnet.gateway.display).map ruleToCliArgs) fabric ∧
        fabric.rejects cfg.bridgeName = true) ?_ fun _ => ?_
  · refine gives_act fun fabric filled _ => ?_
    exact ⟨⟨⟨⟨filled.present, filled.unplugged⟩, filled.network, filled.bare⟩, filled.acl,
      filled.filled⟩, Function.update_self _ _ _⟩
  · exact gives_seq gives_attachAcl fun _ => gives_pure fun _ filtering => filtering

/-- The arguments of the rules of the run's ACL. -/
def runRules (cfg : LaunchConfig) (subnet : BridgeSubnet) : List (List Text) :=
  printedAcl cfg.allow cfg.keep (.v4 subnet.gateway)

theorem gives_setup (polls : Nat) :
    Triple watch (When (Alone cfg))
      (setup polls cfg.bridgeName (toCreateBridgeParams cfg.allow cfg.keep) cfg.allow
        cfg.provider).run
      (Gives fun isolation => When fun fabric => Alone cfg fabric ∧
        .network cfg.bridgeName ∈ fabric.host.objects ∧
          Filtering cfg (runRules cfg isolation.subnet) fabric) := by
  refine gives_seq (gives_createBridge cfg _) fun subnet => gives_guarded ?_
  have hisolation : ∀ {α : Type} {t : Task Reply α},
      Emits (Within true [.isolation]) t → Emits (Silent watch) t := by
    intro α t hemits
    refine hemits.mono fun c hc => silent_unseen (unseen_of_area ?_)
    rcases hc with harea | ⟨_, hkeep⟩
    · simp [List.mem_singleton.mp harea]
    · cases hkeep
  refine gives_seq (gives_silent (hisolation ?_)) fun secrets => ?_
  · exact emits_resolveSecrets (fun _ => Or.inl List.mem_cons_self) cfg.provider cfg.allow []
  refine gives_of_ok fun w h isolation filtering hrun => ?_
  have hsame := (startProxies_ok polls _ subnet _ secrets h h isolation (fun _ he => he) hrun).2.1
  rw [foldl_silent (hisolation (emits_startProxies (by simp) polls _ subnet _ secrets) h _ hrun),
    hsame]
  exact filtering

/-- An instance that is handed on is behind the firewall. -/
theorem gives_init (cfg : LaunchConfig) (isFile : Bytes → Bool) (polls : Nat) :
    Triple watch (When fun _ => True) (init cfg isFile polls).run
      (Gives fun isolation => When (Firewalled cfg (runRules cfg isolation.subnet))) := by
  refine gives_seq (gives_createInstance cfg) fun _ => gives_guarded ?_
  have hdevices : Emits (Silent watch) (attachDevices cfg isFile).run :=
    (emits_attachDevices cfg isFile).mono fun c hc => silent_unseen (unseen_of_area (by simp [hc]))
  refine triple_lift_seq (triple_both (gives_setup polls) hdevices) fun results => ?_
  obtain ⟨setupResult, devicesResult⟩ := results
  cases setupResult with
  | error e =>
    refine gives_seq (G := fun _ _ => True) (gives_of_ok fun _ _ _ _ _ => trivial) fun _ => ?_
    refine gives_of_ok fun w h isolation _ hrun => ?_
    obtain ⟨a, heq, _⟩ := ofResult_seq_ok hrun
    cases heq
  | ok isolation =>
    refine gives_seq (gives_guarded (gives_silent (emits_ofResult devicesResult))) fun _ => ?_
    rw [ofResult_seq]
    change Triple watch (When fun fabric => Alone cfg fabric ∧
      .network cfg.bridgeName ∈ fabric.host.objects ∧
        Filtering cfg (runRules cfg isolation.subnet) fabric) _ _
    refine gives_guarded (gives_seq (G := fun _ =>
      When (Firewalled cfg (runRules cfg isolation.subnet))) ?_ fun _ => gives_pure fun _ h => h)
    refine gives_act fun fabric h _ => ?_
    obtain ⟨alone, network, filtering⟩ := h
    have hnics : (fabric.next (.returned (.act (.attachToBridge cfg.name cfg.bridgeName
        cfg.limits.networkIngress cfg.limits.networkEgress)) (.ok ()))).host.nics =
        (cfg.name, cfg.bridgeName) :: fabric.host.nics := if_pos ⟨alone.present, network⟩
    refine ⟨⟨filtering.attached, filtering.filled, filtering.rejecting⟩, ?_, ?_⟩
    · rw [hnics]
      exact List.mem_cons_self
    · intro p hp hname
      rw [hnics] at hp
      rcases List.mem_cons.mp hp with rfl | hp
      · rfl
      · exact absurd hname (alone.unplugged p hp)

end Built

/-! ## From the start on -/

/-- As long as the instance exists, it is behind the firewall. -/
def Safe (cfg : LaunchConfig) (rules : List (List Text)) (fabric : Fabric) : Prop :=
  .inst cfg.name ∈ fabric.host.objects → Firewalled cfg rules fabric

/-- Whatever a command after the start does, and whether it fails or not. -/
theorem safe_watch {cfg : LaunchConfig} {rules : List (List Text)} {e : Event Reply}
    (hwithin : Within cfg.keep [.start, .use, .isolation] e.command) {w : Watched}
    (safe : When (Safe cfg rules) w) : When (Safe cfg rules) (watch w e) := by
  by_cases harea : area e.command = .delete
  · rintro ⟨careful, tolerates⟩ present
    have hdeletes : ∀ {a : Act} {o : Object} {reply : Except CommandError Unit},
        e = .returned (.act a) reply → effect a = some (.delete o) →
        (∀ l, ruleChange l (some a) = l) → (∀ l, rejectChange l (some a) = l) →
        Firewalled cfg rules (w.fabric.next e) := by
      rintro a o reply rfl heff hrules hrejects
      cases reply with
      | error err =>
        have hhost : w.fabric.host.next (.returned (.act a) (.error err)) = w.fabric.host := by
          simp [Host.next, outcome, heff, Except.isOk, Except.toBool]
        have hsame : w.fabric.next (.returned (.act a) (.error err)) = w.fabric := by
          rw [Fabric.next, hhost]
          rfl
        simp only [watch, hsame] at present ⊢
        exact safe careful present
      | ok u =>
        have hout : outcome (.returned (.act a) (.ok u)) = some (.delete o, true) := by
          simp [outcome, heff, Except.isOk, Except.toBool]
        have hhost : w.fabric.host.next (.returned (.act a) (.ok u)) =
            w.fabric.host.delete o := by
          simp [Host.next, hout, Host.perform]
        have hsame : w.fabric.next (.returned (.act a) (.ok u)) =
            { w.fabric with host := w.fabric.host.delete o } := by
          rw [Fabric.next, hhost]
          simp [succeeded, Except.isOk, Except.toBool, hrules, hrejects]
        have hfree : w.fabric.host.CanDo (.delete o) := tolerates _ hout rfl
        simp only [watch, hsame] at present ⊢
        obtain ⟨hbefore, hne⟩ := List.mem_filter.mp present
        exact (safe careful hbefore).delete (of_decide_eq_true hne).symm hfree.2
    cases e with
    | issued c => exact safe careful present
    | returned c reply =>
      cases c with
      | act a =>
        cases a with
        | deleteInstance name => exact hdeletes rfl rfl (fun _ => rfl) fun _ => rfl
        | deleteNetwork name => exact hdeletes rfl rfl (fun _ => rfl) fun _ => rfl
        | deleteAcl name => exact hdeletes rfl rfl (fun _ => rfl) fun _ => rfl
        | _ => cases harea
      | ask q => cases q <;> cases harea
      | quiet q => cases q <;> cases harea
      | _ => cases harea
  · have hunseen : Unseen e.command := by
      refine unseen_of_area ?_
      rcases hwithin with hmem | ⟨hdelete, _⟩
      · simp only [List.mem_cons, List.not_mem_nil, or_false] at hmem
        rcases hmem with h | h | h
        all_goals simp [h]
      · exact absurd hdelete harea
    rw [silent_unseen hunseen e w rfl]
    exact safe

theorem safe_foldl {cfg : LaunchConfig} {rules : List (List Text)} {h : List (Event Reply)}
    (hwithin : ∀ e ∈ h, Within cfg.keep [.start, .use, .isolation] e.command) {w : Watched}
    (safe : When (Safe cfg rules) w) : When (Safe cfg rules) (h.foldl watch w) := by
  induction h generalizing w with
  | nil => exact safe
  | cons e h ih =>
    obtain ⟨hfirst, hrest⟩ := List.forall_mem_cons.mp hwithin
    exact ih hrest (safe_watch hfirst safe)

/-- A trace with a start command in it is a run of `init` that hands on an instance, and
what comes after it. -/
theorem trace_started {cfg : LaunchConfig} {isFile : Bytes → Bool} {polls : Nat} {plan : Plan}
    {before after : List (Event Reply)} {t : Task Reply (Except LaunchError Int)} {n : Text}
    (trace : Trace (runInstance cfg isFile polls plan).run
      (before ++ .issued (.act (.startInstance n)) :: after) t) :
    ∃ isolation k rest, Runs (init cfg isFile polls).run k (.ok isolation) ∧
      before ++ .issued (.act (.startInstance n)) :: after = k ++ rest ∧ k ⊆ before ∧
      ∀ e ∈ rest, Within cfg.keep [.start, .use, .isolation] e.command := by
  obtain ⟨l, r, hrun⟩ := trace.extends goodReply
  have hnone : ∀ {k r}, Runs (init cfg isFile polls).run k r →
      .issued (.act (.startInstance n)) ∉ k := fun hinit hmem =>
    emits_no_start (by simp) (emits_init cfg isFile polls) hinit _ hmem n rfl
  rcases runs_seq.mp hrun with ⟨e, _, hinit⟩ | ⟨isolation, k, rest, heq, hinit, hrest⟩
  · exact absurd (by simp) (hnone hinit)
  have hwithin : Emits (Within cfg.keep [.start, .use, .isolation])
      (guarded (dropState cfg isolation) (start cfg isolation) >>= fun _ =>
        holding (dropState cfg isolation) (session cfg isolation plan)).run := by
    have hdrop := (emits_dropState cfg isolation).mono fun c =>
      Within.mono (b := [.start, .use, .isolation]) (by simp)
    refine emits_seq (emits_guarded hdrop ?_) fun _ => emits_holding hdrop ?_
    · exact (emits_start cfg isolation).mono fun c hc =>
        Or.inl (by rcases hc with h | h <;> simp [h])
    · exact (emits_session cfg isolation plan).mono fun c hc => Or.inl (by simp [hc])
  have hafter := hwithin rest r hrest
  rw [List.append_assoc, List.append_eq_append_iff] at heq
  rcases heq with ⟨m, rfl, hm⟩ | ⟨m, rfl, rfl⟩
  · cases m with
    | nil =>
      rw [List.nil_append] at hm
      rw [List.append_nil] at hinit
      refine ⟨isolation, before, _, hinit, rfl, by simp, fun e he => ?_⟩
      exact hafter e (by rw [← hm]; exact List.mem_append_left _ he)
    | cons e m =>
      obtain ⟨rfl, _⟩ := List.cons.inj hm
      exact absurd (by simp) (hnone hinit)
  · refine ⟨isolation, k, m ++ _, hinit, List.append_assoc _ _ _, by simp, fun e he => ?_⟩
    refine hafter e ?_
    rw [← List.append_assoc]
    exact List.mem_append_left _ he

/-- From the start command on the instance is safe behind the rules for its bridge. -/
theorem safe_started {cfg : LaunchConfig} {isFile : Bytes → Bool} {polls : Nat} {plan : Plan}
    {before after : List (Event Reply)} {t : Task Reply (Except LaunchError Int)} {n : Text}
    (fabric : Fabric)
    (trace : Trace (runInstance cfg isFile polls plan).run
      (before ++ .issued (.act (.startInstance n)) :: after) t) :
    ∃ subnet raw, Answered before (.networkIpv4 cfg.bridgeName) raw ∧
      BridgeSubnet.parse (trim raw) = some subnet ∧
      When (Safe cfg (runRules cfg subnet))
        ((before ++ .issued (.act (.startInstance n)) :: after).foldl watch ⟨fabric, True⟩) := by
  obtain ⟨isolation, k, rest, hinit, heq, hsub, hwithin⟩ := trace_started trace
  obtain ⟨_, isolated⟩ := init_ok cfg isFile polls k before isolation hsub hinit
  obtain ⟨raw, hanswered, hparsed⟩ := isolated.bridge.address
  refine ⟨isolation.subnet, raw, hanswered, hparsed, ?_⟩
  have built := gives_init cfg isFile polls ⟨fabric, True⟩ k _ (fun _ => trivial) hinit
  rw [heq, List.foldl_append]
  exact safe_foldl hwithin fun hcareful _ => built hcareful

/-- What is safe lets out what the policy says, as long as it exists. -/
theorem Safe.leaves_iff {cfg : LaunchConfig} {subnet : BridgeSubnet} {fabric : Fabric}
    (safe : Safe cfg (runRules cfg subnet) fabric) (packet : Packet) :
    fabric.Leaves cfg.name packet ↔ .inst cfg.name ∈ fabric.host.objects ∧
      Policy cfg.allow (.v4 subnet.gateway) packet := by
  rw [← opening_iff_policy, ← allowed_iff_opening cfg.allow cfg.keep]
  constructor
  · intro hleaves
    have present : .inst cfg.name ∈ fabric.host.objects := by
      obtain ⟨p, hp, hname, _⟩ := hleaves
      rw [← hname]
      exact (fabric.host.nics_present p hp).1
    exact ⟨present, ((safe present).leaves_iff packet).mp hleaves⟩
  · rintro ⟨present, hallowed⟩
    exact ((safe present).leaves_iff packet).mpr hallowed

/-- At every moment after the start command, whatever has failed and in whatever order
the joined tasks ran: the packets that leave the instance are those of the policy for
its bridge's gateway, and none once it is deleted. -/
theorem leaves_iff_policy {cfg : LaunchConfig} {isFile : Bytes → Bool} {polls : Nat}
    {plan : Plan} {h before after : List (Event Reply)}
    {t : Task Reply (Except LaunchError Int)} {n : Text} {fabric : Fabric}
    (trace : Trace (runInstance cfg isFile polls plan).run h t)
    (started : h = before ++ .issued (.act (.startInstance n)) :: after)
    (careful : Careful fabric.host h) :
    ∃ subnet raw, Answered before (.networkIpv4 cfg.bridgeName) raw ∧
      BridgeSubnet.parse (trim raw) = some subnet ∧
      ∀ packet, (h.foldl Fabric.next fabric).Leaves cfg.name packet ↔
        .inst cfg.name ∈ (h.foldl Fabric.next fabric).host.objects ∧
          Policy cfg.allow (.v4 subnet.gateway) packet := by
  subst started
  obtain ⟨subnet, raw, hanswered, hparsed, safe⟩ := safe_started fabric trace
  obtain ⟨hfabric, hcareful⟩ := foldl_watch
    (before ++ .issued (.act (.startInstance n)) :: after) ⟨fabric, True⟩
  have hsafe := safe (hcareful.mpr ⟨trivial, careful⟩)
  rw [hfabric] at hsafe
  exact ⟨subnet, raw, hanswered, hparsed, hsafe.leaves_iff⟩

/-- A host with nothing on it. -/
def emptyFabric : Fabric := ⟨emptyHost, fun _ => [], fun _ => false⟩

/-- Every command succeeds but those that delete. -/
def stuckReply : (c : Command) → Reply c
  | .act (.deleteInstance _) => .error (.io "busy".toList)
  | .act (.deleteNetwork _) => .error (.io "busy".toList)
  | .act (.deleteAcl _) => .error (.io "busy".toList)
  | c => goodReply c

/-- The example to its end. -/
def stuckRun : List (Event Reply) × Except LaunchError Int :=
  play stuckReply (runInstance workConfig (fun _ => false) 1 workPlan).run

theorem stuckRun_careful : Careful emptyHost stuckRun.1 := by decide +kernel

theorem stuckRun_present :
    .inst workConfig.name ∈ (stuckRun.1.foldl Fabric.next emptyFabric).host.objects := by
  decide +kernel

theorem stuckRun_starts : .issued (.act (.startInstance workConfig.name)) ∈ stuckRun.1 :=
  List.mem_of_getElem? (i := 44) rfl

/-- It is over, and the instance that it could not delete lets out what its policy says. -/
theorem leaves_iff_policy_stuck : ∃ gateway, ∀ packet,
    (stuckRun.1.foldl Fabric.next emptyFabric).Leaves workConfig.name packet ↔
      Policy workConfig.allow gateway packet := by
  have hrun : Runs (runInstance workConfig (fun _ => false) 1 workPlan).run stuckRun.1
      stuckRun.2 := runs_play stuckReply _
  obtain ⟨before, after, hstarted⟩ := List.append_of_mem stuckRun_starts
  have hcareful : Careful emptyFabric.host stuckRun.1 := stuckRun_careful
  obtain ⟨subnet, raw, _, _, hleaves⟩ := leaves_iff_policy hrun hstarted hcareful
  exact ⟨.v4 subnet.gateway, fun packet => (hleaves packet).trans (and_iff_right stuckRun_present)⟩

end RunningFirewall
