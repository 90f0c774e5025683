import Celily.GeneratedNames
import Celily.OwnCommands
import Celily.RunningFirewall

/-!
# Runs that share a backend

Any number of runs may share a backend, their commands interleaved in any way, beside
whatever was there before. That is never deleted, since a run deletes only what it has
created. So of what the backend keeps, each run sees what has its own names as if it ran
alone: every instance stays behind its own firewall, and when all runs have ended the
objects are those of before.
-/

namespace ConcurrentRuns

open RustText NetworkRules BridgeSubnets EgressAcl JoinedTasks TaskTriples InstanceLifecycle
open LifecycleTraces IsolatedStart Teardown RunningFirewall OwnCommands InstanceNames
  GeneratedNames HostPaths

/-- The objects of a run. -/
def Mine (cfg : LaunchConfig) : Object → Prop
  | .inst name => name = cfg.name
  | .network name | .acl name => name = cfg.bridgeName

/-- All names are those of the run. -/
def Inside (cfg : LaunchConfig) : Effect → Prop
  | .create o | .delete o => Mine cfg o
  | .addNic name bridge => name = cfg.name ∧ bridge = cfg.bridgeName
  | .attachAcl network acl => network = cfg.bridgeName ∧ acl = cfg.bridgeName

/-- No name is one of the run's. -/
def Outside (cfg : LaunchConfig) : Effect → Prop
  | .create o | .delete o => ¬Mine cfg o
  | .addNic name bridge => name ≠ cfg.name ∧ bridge ≠ cfg.bridgeName
  | .attachAcl network acl => network ≠ cfg.bridgeName ∧ acl ≠ cfg.bridgeName

/-- The links of pairs with one of two names. -/
def linksOf (l r : Text) (links : List (Text × Text)) : List (Text × Text) :=
  links.filter fun p => p.1 = l ∨ p.2 = r

theorem mem_linksOf {l r : Text} {links : List (Text × Text)} {p : Text × Text} :
    p ∈ linksOf l r links ↔ p ∈ links ∧ (p.1 = l ∨ p.2 = r) := by
  rw [linksOf, List.mem_filter, decide_eq_true_iff]

/-- The same objects with the run's names, and the same links to them. -/
structure Alike (cfg : LaunchConfig) (host other : Host) : Prop where
  objects : ∀ o, Mine cfg o → (o ∈ host.objects ↔ o ∈ other.objects)
  nics : linksOf cfg.name cfg.bridgeName host.nics = linksOf cfg.name cfg.bridgeName other.nics
  attachments : linksOf cfg.bridgeName cfg.bridgeName host.attachments =
    linksOf cfg.bridgeName cfg.bridgeName other.attachments

variable {cfg : LaunchConfig} {base host other : Host}

theorem linksOf_filter (l r : Text) (keep : Text × Text → Bool) (links : List (Text × Text)) :
    linksOf l r (links.filter keep) = (linksOf l r links).filter keep :=
  List.filter_comm _ _ _

/-- A filter that keeps the links is not seen. -/
theorem linksOf_kept {l r : Text} {keep : Text × Text → Bool} {links : List (Text × Text)}
    (hkeep : ∀ p ∈ links, p.1 = l ∨ p.2 = r → keep p = true) :
    linksOf l r (links.filter keep) = linksOf l r links := by
  rw [linksOf_filter, List.filter_eq_self]
  intro p hp
  obtain ⟨hmem, hlink⟩ := mem_linksOf.mp hp
  exact hkeep p hmem hlink

theorem linksOf_addPair {l r : Text} {objects others : List Object} {a b : Object}
    {p : Text × Text} {links more : List (Text × Text)}
    (ha : a ∈ objects ↔ a ∈ others) (hb : b ∈ objects ↔ b ∈ others)
    (hlinks : linksOf l r links = linksOf l r more) :
    linksOf l r (Host.addPair objects a b p links) =
      linksOf l r (Host.addPair others a b p more) := by
  have hboth : a ∈ objects ∧ b ∈ objects ↔ a ∈ others ∧ b ∈ others := and_congr ha hb
  rw [Host.addPair, Host.addPair]
  by_cases hthere : a ∈ objects ∧ b ∈ objects
  · rw [if_pos hthere, if_pos (hboth.mp hthere), linksOf, linksOf, List.filter_cons,
      List.filter_cons]
    rw [linksOf, linksOf] at hlinks
    rw [hlinks]
  · rw [if_neg hthere, if_neg fun hother => hthere (hboth.mpr hother), hlinks]

theorem linksOf_addOther {l r : Text} {objects : List Object} {a b : Object} {p : Text × Text}
    {links : List (Text × Text)} (hl : p.1 ≠ l) (hr : p.2 ≠ r) :
    linksOf l r (Host.addPair objects a b p links) = linksOf l r links := by
  rw [Host.addPair]
  split
  · rw [linksOf, List.filter_cons_of_neg (by simp [hl, hr])]
    rfl
  · rfl

/-! ## One effect -/

theorem Alike.inside (h : Alike cfg host other) {eff : Effect} (hinside : Inside cfg eff) :
    Alike cfg (host.perform eff) (other.perform eff) := by
  cases eff with
  | create o =>
    refine ⟨fun p hp => ?_, h.nics, h.attachments⟩
    change p ∈ o :: host.objects ↔ p ∈ o :: other.objects
    rw [List.mem_cons, List.mem_cons, h.objects p hp]
  | delete o =>
    refine ⟨fun p hp => ?_, ?_, ?_⟩
    · change p ∈ host.objects.filter _ ↔ p ∈ other.objects.filter _
      rw [List.mem_filter, List.mem_filter, h.objects p hp]
    · change linksOf _ _ (host.nics.filter _) = linksOf _ _ (other.nics.filter _)
      rw [linksOf_filter, linksOf_filter, h.nics]
    · change linksOf _ _ (host.attachments.filter _) = linksOf _ _ (other.attachments.filter _)
      rw [linksOf_filter, linksOf_filter, h.attachments]
  | addNic name bridge =>
    obtain ⟨rfl, rfl⟩ := hinside
    refine ⟨h.objects, ?_, h.attachments⟩
    exact linksOf_addPair (h.objects (.inst cfg.name) rfl) (h.objects (.network cfg.bridgeName) rfl)
      h.nics
  | attachAcl network acl =>
    obtain ⟨rfl, rfl⟩ := hinside
    refine ⟨h.objects, h.nics, ?_⟩
    exact linksOf_addPair (h.objects (.network cfg.bridgeName) rfl)
      (h.objects (.acl cfg.bridgeName) rfl) h.attachments

/-- What the backend can reply to a run depends on the run's own objects. -/
theorem Alike.canDo (h : Alike cfg host other) {eff : Effect} (hinside : Inside cfg eff) :
    host.CanDo eff ↔ other.CanDo eff := by
  have hused : ∀ o, Mine cfg o → (host.InUse o ↔ other.InUse o) := by
    intro o hmine
    have hlinks : ∀ {l r links more}, linksOf l r links = linksOf l r more →
        ((∃ p ∈ links, p.2 = r) ↔ ∃ p ∈ more, p.2 = r) := by
      intro l r links more heq
      have hside : ∀ ps : List (Text × Text),
          (∃ p ∈ ps, p.2 = r) ↔ ∃ p ∈ linksOf l r ps, p.2 = r := by
        intro ps
        constructor
        · rintro ⟨p, hp, hr⟩
          exact ⟨p, mem_linksOf.mpr ⟨hp, Or.inr hr⟩, hr⟩
        · rintro ⟨p, hp, hr⟩
          exact ⟨p, (mem_linksOf.mp hp).1, hr⟩
      rw [hside links, heq, ← hside more]
    cases o with
    | inst name => exact Iff.rfl
    | network name =>
      obtain rfl : name = cfg.bridgeName := hmine
      exact hlinks h.nics
    | acl name =>
      obtain rfl : name = cfg.bridgeName := hmine
      exact hlinks h.attachments
  cases eff with
  | create o => exact not_congr (h.objects o hinside)
  | delete o => exact and_congr (h.objects o hinside) (not_congr (hused o hinside))
  | addNic name bridge => exact Iff.rfl
  | attachAcl network acl => exact Iff.rfl

theorem Alike.allows (h : Alike cfg host other) {eff : Effect} (hinside : Inside cfg eff)
    (ok : Bool) : host.Allows eff ok ↔ other.Allows eff ok := by
  have hcan := h.canDo hinside
  cases eff with
  | create o => exact imp_congr_right fun _ => hcan
  | delete o => exact iff_congr Iff.rfl hcan
  | addNic name bridge => exact Iff.rfl
  | attachAcl network acl => exact Iff.rfl

/-! ## Beside what was there -/

/-- What was there stays, and what is created was not there, if only that is deleted which
was created. -/
theorem before_kept {h : List (Event Reply)} (careful : Careful base h)
    (howned : ∀ before e after o, h = before ++ e :: after →
      outcome e = some (.delete o, true) → Created before o) :
    (∀ o ∈ base.objects, o ∈ (h.foldl Host.next base).objects) ∧
      ∀ o, Created h o → o ∉ base.objects := by
  induction h using List.reverseRecOn with
  | nil => exact ⟨fun o ho => ho, fun o hcreated => by simp [Created] at hcreated⟩
  | append_singleton h e ih =>
    obtain ⟨hcareful, tolerates⟩ := careful_concat.mp careful
    obtain ⟨hkept, hfresh⟩ := ih hcareful fun before d after o hsplit =>
      howned before d (after ++ [e]) o (by simp [hsplit])
    rw [List.foldl_concat]
    constructor
    · intro o ho
      have hbefore := hkept o ho
      unfold Host.next
      split
      · rename_i eff hout
        cases eff with
        | create p => exact List.mem_cons_of_mem _ hbefore
        | delete p =>
          have hcreated := howned h e [] p rfl hout
          have hne : o ≠ p := fun heq => hfresh p hcreated (heq ▸ ho)
          exact List.mem_filter.mpr ⟨hbefore, decide_eq_true hne⟩
        | addNic name bridge => exact hbefore
        | attachAcl network acl => exact hbefore
      · exact hbefore
    · rintro o ⟨d, hd, hcreated⟩ ho
      rcases List.mem_append.mp hd with hd | hd
      · exact hfresh o ⟨d, hd, hcreated⟩ ho
      · obtain rfl := List.mem_singleton.mp hd
        exact tolerates _ hcreated rfl (hkept o ho)

/-- A backend that others use too, and the same with one run alone: alike to the run, and
the links with the run's names are links of before or the run's own. -/
structure Beside (cfg : LaunchConfig) (base shared alone : Host) : Prop
    extends Alike cfg shared alone where
  nics_rooted : ∀ p ∈ linksOf cfg.name cfg.bridgeName shared.nics,
    p ∈ base.nics ∨ p = (cfg.name, cfg.bridgeName)
  attachments_rooted : ∀ p ∈ linksOf cfg.bridgeName cfg.bridgeName shared.attachments,
    p ∈ base.attachments ∨ p = (cfg.bridgeName, cfg.bridgeName)

theorem beside_refl (cfg : LaunchConfig) (base : Host) : Beside cfg base base base where
  objects _ _ := Iff.rfl
  nics := rfl
  attachments := rfl
  nics_rooted _ hp := Or.inl (mem_linksOf.mp hp).1
  attachments_rooted _ hp := Or.inl (mem_linksOf.mp hp).1

theorem rooted_addPair {l r l' r' : Text} {objects : List Object} {a b : Object}
    {links before : List (Text × Text)}
    (hrooted : ∀ p ∈ linksOf l r links, p ∈ before ∨ p = (l, r))
    (hnew : l' = l ∧ r' = r ∨ l' ≠ l ∧ r' ≠ r) :
    ∀ p ∈ linksOf l r (Host.addPair objects a b (l', r') links), p ∈ before ∨ p = (l, r) := by
  intro p hp
  obtain ⟨hmem, hlink⟩ := mem_linksOf.mp hp
  rcases Host.mem_addPair.mp hmem with hold | ⟨rfl, _⟩
  · exact hrooted p (mem_linksOf.mpr ⟨hold, hlink⟩)
  · rcases hnew with ⟨rfl, rfl⟩ | ⟨hl, hr⟩
    · exact Or.inr rfl
    · exact absurd hlink (by simp [hl, hr])

theorem rooted_filter {l r : Text} {keep : Text × Text → Bool} {links before : List (Text × Text)}
    (hrooted : ∀ p ∈ linksOf l r links, p ∈ before ∨ p = (l, r)) :
    ∀ p ∈ linksOf l r (links.filter keep), p ∈ before ∨ p = (l, r) := by
  intro p hp
  rw [linksOf_filter] at hp
  exact hrooted p (List.mem_of_mem_filter hp)

theorem Beside.inside (h : Beside cfg base host other) {eff : Effect}
    (hinside : Inside cfg eff) : Beside cfg base (host.perform eff) (other.perform eff) := by
  refine ⟨h.toAlike.inside hinside, ?_, ?_⟩
  · cases eff with
    | create o | attachAcl network acl => exact h.nics_rooted
    | delete o => exact rooted_filter h.nics_rooted
    | addNic name bridge => exact rooted_addPair h.nics_rooted (Or.inl hinside)
  · cases eff with
    | create o | addNic name bridge => exact h.attachments_rooted
    | delete o => exact rooted_filter h.attachments_rooted
    | attachAcl network acl => exact rooted_addPair h.attachments_rooted (Or.inl hinside)

/-- What others create, link or delete is not seen, unless it was there before. -/
theorem Beside.outside (h : Beside cfg base host other) {eff : Effect}
    (houtside : Outside cfg eff) (hspared : ∀ o, eff = .delete o → o ∉ base.objects) :
    Beside cfg base (host.perform eff) other := by
  cases eff with
  | create o =>
    refine ⟨⟨fun p hp => ?_, h.nics, h.attachments⟩, h.nics_rooted, h.attachments_rooted⟩
    have hne : p ≠ o := fun heq => houtside (heq ▸ hp)
    change p ∈ o :: host.objects ↔ _
    rw [List.mem_cons, h.objects p hp]
    exact or_iff_right hne
  | delete o =>
    have hmine : ∀ p, Mine cfg p → p ≠ o := fun p hp heq => houtside (heq ▸ hp)
    have hbase : ∀ p ∈ base.objects, p ≠ o := fun p hp heq => hspared o rfl (heq ▸ hp)
    refine ⟨⟨fun p hp => ?_, ?_, ?_⟩, rooted_filter h.nics_rooted,
      rooted_filter h.attachments_rooted⟩
    · change p ∈ host.objects.filter _ ↔ _
      rw [List.mem_filter, h.objects p hp, decide_eq_true_iff]
      exact and_iff_left (hmine p hp)
    · refine (linksOf_kept fun p hp hlink => decide_eq_true ?_).trans h.nics
      rcases h.nics_rooted p (mem_linksOf.mpr ⟨hp, hlink⟩) with hold | rfl
      · exact (base.nics_present p hold).imp (hbase _) (hbase _)
      · exact ⟨hmine _ rfl, hmine _ rfl⟩
    · refine (linksOf_kept fun p hp hlink => decide_eq_true ?_).trans h.attachments
      rcases h.attachments_rooted p (mem_linksOf.mpr ⟨hp, hlink⟩) with hold | rfl
      · exact (base.attachments_present p hold).imp (hbase _) (hbase _)
      · exact ⟨hmine _ rfl, hmine _ rfl⟩
  | addNic name bridge =>
    exact ⟨⟨h.objects, (linksOf_addOther houtside.1 houtside.2).trans h.nics, h.attachments⟩,
      rooted_addPair h.nics_rooted (Or.inr houtside), h.attachments_rooted⟩
  | attachAcl network acl =>
    exact ⟨⟨h.objects, h.nics, (linksOf_addOther houtside.1 houtside.2).trans h.attachments⟩,
      h.nics_rooted, rooted_addPair h.attachments_rooted (Or.inr houtside)⟩

/-! ## One event -/

/-- Two runs with no name in common. -/
structure Apart (cfg another : LaunchConfig) : Prop where
  name : another.name ≠ cfg.name
  bridge : another.bridgeName ≠ cfg.bridgeName

theorem inside_of_own {plan : Plan} {a : Act} {eff : Effect} (hown : OwnAct cfg plan a)
    (heff : effect a = some eff) : Inside cfg eff := by
  cases a with
  | createInstance name config =>
    cases heff
    exact hown.1
  | createNetwork _ | createAcl _ | deleteInstance _ | deleteNetwork _ | deleteAcl _
  | attachToBridge _ _ _ _ | attachAclToNetwork _ _ =>
    cases heff
    exact hown
  | _ => cases heff

/-- What is one run's is not another's. -/
theorem Inside.outside {another : LaunchConfig} (hapart : Apart cfg another) {eff : Effect}
    (hinside : Inside another eff) : Outside cfg eff := by
  have hmine : ∀ o, Mine another o → ¬Mine cfg o := by
    intro o hother hmine
    cases o with
    | inst name => exact hapart.name (hother.symm.trans hmine)
    | network name => exact hapart.bridge (hother.symm.trans hmine)
    | acl name => exact hapart.bridge (hother.symm.trans hmine)
  cases eff with
  | create o => exact hmine o hinside
  | delete o => exact hmine o hinside
  | addNic name bridge =>
    obtain ⟨rfl, rfl⟩ := hinside
    exact ⟨hapart.name, hapart.bridge⟩
  | attachAcl network acl =>
    obtain ⟨rfl, rfl⟩ := hinside
    exact ⟨hapart.bridge, hapart.bridge⟩

theorem succeeded_act {e : Event Reply} {a : Act} (hdone : succeeded e = some a) :
    e.command = .act a := by
  cases e with
  | issued c => cases hdone
  | returned c reply =>
    cases c with
    | act b =>
      rw [succeeded] at hdone
      split at hdone
      · exact congrArg Command.act (Option.some.inj hdone)
      · cases hdone
    | _ => cases hdone

/-- The rules of one ACL change by what they are. -/
theorem ruleChange_congr {rules others : Text → List (List Text)} {acl : Text}
    (heq : rules acl = others acl) (done : Option Act) :
    ruleChange rules done acl = ruleChange others done acl := by
  have hupdate : ∀ name (f : List (List Text) → List (List Text)),
      Function.update rules name (f (rules name)) acl =
        Function.update others name (f (others name)) acl := by
    intro name f
    by_cases hname : acl = name
    · subst hname
      rw [Function.update_self, Function.update_self, heq]
    · rw [Function.update_of_ne hname, Function.update_of_ne hname, heq]
  unfold ruleChange
  split
  · exact hupdate _ fun _ => []
  · exact hupdate _ fun found => found ++ [_]
  · exact heq

theorem rejectChange_congr {rejects others : Text → Bool} {network : Text}
    (heq : rejects network = others network) (done : Option Act) :
    rejectChange rejects done network = rejectChange others done network := by
  have hupdate : ∀ name value, Function.update rejects name value network =
      Function.update others name value network := by
    intro name value
    by_cases hname : network = name
    · subst hname
      rw [Function.update_self, Function.update_self]
    · rw [Function.update_of_ne hname, Function.update_of_ne hname, heq]
  unfold rejectChange
  split
  · exact hupdate _ false
  · exact hupdate _ true
  · exact heq

theorem changes_other {another : LaunchConfig} {plan : Plan} (hapart : Apart cfg another)
    {a : Act} (hown : OwnAct another plan a) (rules : Text → List (List Text))
    (rejects : Text → Bool) :
    ruleChange rules (some a) cfg.bridgeName = rules cfg.bridgeName ∧
      rejectChange rejects (some a) cfg.bridgeName = rejects cfg.bridgeName := by
  have hother : ∀ {name : Text}, name = another.bridgeName → cfg.bridgeName ≠ name := by
    rintro _ rfl heq
    exact hapart.bridge heq.symm
  cases a with
  | createAcl name => exact ⟨Function.update_of_ne (hother hown) _ _, rfl⟩
  | addAclRule acl args => exact ⟨Function.update_of_ne (hother hown.1) _ _, rfl⟩
  | createNetwork name => exact ⟨rfl, Function.update_of_ne (hother hown) _ _⟩
  | setNetworkEgressReject name => exact ⟨rfl, Function.update_of_ne (hother hown) _ _⟩
  | _ => exact ⟨rfl, rfl⟩

theorem Beside.own (h : Beside cfg base host other) {e : Event Reply} {plan : Plan}
    (hown : Own cfg plan e.command) :
    Beside cfg base (host.next e) (other.next e) ∧ (host.Permits e ↔ other.Permits e) ∧
      (host.Tolerates e ↔ other.Tolerates e) := by
  cases hout : outcome e with
  | none =>
    refine ⟨?_, iff_of_true (permits_none hout _) (permits_none hout _),
      iff_of_true (tolerates_none hout _) (tolerates_none hout _)⟩
    simpa only [Host.next, hout] using h
  | some found =>
    obtain ⟨eff, ok⟩ := found
    obtain ⟨a, hact, heff⟩ := outcome_act hout
    rw [hact] at hown
    have hinside := inside_of_own hown heff
    have hcan := h.toAlike.canDo hinside
    refine ⟨?_, ?_, ?_⟩
    · cases ok with
      | true => simpa only [Host.next, hout] using h.inside hinside
      | false => simpa only [Host.next, hout] using h
    · rw [permits_some hout, permits_some hout]
      exact h.toAlike.allows hinside ok
    · rw [tolerates_some hout, tolerates_some hout]
      exact imp_congr_right fun _ => hcan

theorem Beside.foreign {another : LaunchConfig} (hapart : Apart cfg another)
    (h : Beside cfg base host other) {e : Event Reply} {plan : Plan}
    (hown : Own another plan e.command)
    (hspared : ∀ o, outcome e = some (.delete o, true) → o ∉ base.objects) :
    Beside cfg base (host.next e) other := by
  unfold Host.next
  split
  · rename_i eff hout
    obtain ⟨a, hact, heff⟩ := outcome_act hout
    rw [hact] at hown
    exact h.outside ((inside_of_own hown heff).outside hapart)
      fun o heq => hspared o (heq ▸ hout)
  · exact h

/-- The same of networks and their rules. -/
structure Together (cfg : LaunchConfig) (base : Host) (shared alone : Watched) : Prop where
  beside : Beside cfg base shared.fabric.host alone.fabric.host
  rules : shared.fabric.rules cfg.bridgeName = alone.fabric.rules cfg.bridgeName
  rejects : shared.fabric.rejects cfg.bridgeName = alone.fabric.rejects cfg.bridgeName
  careful : shared.careful → alone.careful

variable {shared alone : Watched}

theorem Together.own (h : Together cfg base shared alone) {e : Event Reply} {plan : Plan}
    (hown : Own cfg plan e.command) : Together cfg base (watch shared e) (watch alone e) := by
  obtain ⟨hbeside, _, htolerates⟩ := h.beside.own hown
  exact ⟨hbeside, ruleChange_congr h.rules _, rejectChange_congr h.rejects _,
    fun careful => ⟨h.careful careful.1, htolerates.mp careful.2⟩⟩

theorem Together.foreign {another : LaunchConfig} (hapart : Apart cfg another)
    (h : Together cfg base shared alone) {e : Event Reply} {plan : Plan}
    (hown : Own another plan e.command)
    (hspared : ∀ o, outcome e = some (.delete o, true) → o ∉ base.objects) :
    Together cfg base (watch shared e) alone := by
  have hchanges : ruleChange shared.fabric.rules (succeeded e) cfg.bridgeName =
      shared.fabric.rules cfg.bridgeName ∧
      rejectChange shared.fabric.rejects (succeeded e) cfg.bridgeName =
        shared.fabric.rejects cfg.bridgeName := by
    cases hdone : succeeded e with
    | none => exact ⟨rfl, rfl⟩
    | some a =>
      rw [succeeded_act hdone] at hown
      exact changes_other hapart hown _ _
  exact ⟨h.beside.foreign hapart hown hspared, hchanges.1.trans h.rules,
    hchanges.2.trans h.rejects, fun careful => h.careful careful.1⟩

/-- Safe alone, safe together. -/
theorem Together.safe {rules : List (List Text)} (h : Together cfg base shared alone)
    (hsafe : Safe cfg rules alone.fabric) : Safe cfg rules shared.fabric := by
  intro present
  have alike := h.beside.toAlike
  have firewalled := hsafe ((alike.objects (.inst cfg.name) rfl).mp present)
  have hside : ∀ links : List (Text × Text), links.filter (fun p => p.1 = cfg.bridgeName) =
      (linksOf cfg.bridgeName cfg.bridgeName links).filter fun p => p.1 = cfg.bridgeName := by
    intro links
    rw [linksOf, List.filter_filter]
    refine List.filter_congr fun p _ => ?_
    by_cases hp : p.1 = cfg.bridgeName <;> simp [hp]
  refine ⟨⟨?_, h.rules.trans firewalled.filled, h.rejects.trans firewalled.rejecting⟩, ?_, ?_⟩
  · rw [hside, alike.attachments, ← hside, firewalled.attached]
  · have hmem : (cfg.name, cfg.bridgeName) ∈
        linksOf cfg.name cfg.bridgeName alone.fabric.host.nics :=
      mem_linksOf.mpr ⟨firewalled.plugged, Or.inl rfl⟩
    rw [← alike.nics] at hmem
    exact (mem_linksOf.mp hmem).1
  · intro p hp hname
    have hmem : p ∈ linksOf cfg.name cfg.bridgeName shared.fabric.host.nics :=
      mem_linksOf.mpr ⟨hp, Or.inl hname⟩
    rw [alike.nics] at hmem
    exact firewalled.only p (mem_linksOf.mp hmem).1 hname

/-! ## All runs -/

structure Session where
  cfg : LaunchConfig
  isFile : Bytes → Bool
  polls : Nat
  plan : Plan

def Session.run (session : Session) : Launch Int :=
  runInstance session.cfg session.isFile session.polls session.plan

section Shared

variable {ι : Type} [DecidableEq ι] {sessions : ι → Session} {h : List (ι × Event Reply)}
  {fabric : Fabric}

theorem own_of_traces (traces : ∀ i, ∃ t, Trace (sessions i).run.run (ofParty i h) t) :
    ∀ x ∈ h, Own (sessions x.1).cfg (sessions x.1).plan x.2.command := by
  intro x hx
  obtain ⟨t, trace⟩ := traces x.1
  obtain ⟨k, r, hrun⟩ := trace.extends goodReply
  have hmem := List.mem_append_left k (mem_ofParty.mpr hx)
  exact own_runInstance _ _ _ _ _ r hrun _ hmem

/-- What any run deletes was created by it in the same history. -/
theorem deleted_created (traces : ∀ i, ∃ t, Trace (sessions i).run.run (ofParty i h) t)
    {before after : List (Event Reply)} {e : Event Reply}
    (hsplit : h.map Prod.snd = before ++ e :: after) {o : Object}
    (hdeleted : outcome e = some (.delete o, true)) : Created before o := by
  obtain ⟨earlier, x, later, rfl, rfl, rfl⟩ : ∃ earlier x later, h = earlier ++ x :: later ∧
      earlier.map Prod.snd = before ∧ x.2 = e := by
    obtain ⟨earlier, rest, rfl, hearlier, hrest⟩ := List.map_eq_append_iff.mp hsplit
    obtain ⟨x, later, rfl, hx, _⟩ := List.map_eq_cons_iff.mp hrest
    exact ⟨earlier, x, later, rfl, hearlier, hx⟩
  obtain ⟨t, trace⟩ := traces x.1
  rw [ofParty_append, ofParty_cons, if_pos rfl] at trace
  obtain ⟨d, hd, hcreated⟩ := deletes_created trace (Or.inr hdeleted)
  exact ⟨d, List.mem_map_of_mem (mem_ofParty.mp hd), hcreated⟩

/-- Nothing that was there before is deleted, whichever run asks for it. -/
theorem spared (traces : ∀ i, ∃ t, Trace (sessions i).run.run (ofParty i h) t) {host : Host}
    (careful : Careful host (h.map Prod.snd)) :
    ∀ x ∈ h, ∀ o, outcome x.2 = some (.delete o, true) → o ∉ host.objects := by
  intro x hx o hdeleted
  have hfresh := (before_kept careful fun _ _ _ o hsplit => deleted_created traces hsplit).2
  obtain ⟨before, after, hsplit⟩ := List.append_of_mem (List.mem_map_of_mem (f := Prod.snd) hx)
  obtain ⟨d, hd, hcreated⟩ := deleted_created traces hsplit hdeleted
  refine hfresh o ⟨d, ?_, hcreated⟩
  rw [hsplit]
  exact List.mem_append_left _ hd

/-- To each run the backend is as if it ran alone. -/
theorem together_traces
    (apart : ∀ i j, i ≠ j → Apart (sessions i).cfg (sessions j).cfg)
    (traces : ∀ i, ∃ t, Trace (sessions i).run.run (ofParty i h) t)
    (careful : Careful fabric.host (h.map Prod.snd)) (i : ι) :
    Together (sessions i).cfg fabric.host ((h.map Prod.snd).foldl watch ⟨fabric, True⟩)
      ((ofParty i h).foldl watch ⟨fabric, True⟩) := by
  have hown := own_of_traces traces
  have hspared := spared traces careful
  have hstart : Together (sessions i).cfg fabric.host ⟨fabric, True⟩ ⟨fabric, True⟩ :=
    ⟨beside_refl _ _, rfl, rfl, id⟩
  refine agree_alone (fun x hx hi s t hst => ?_) (fun x hx hi s t hst => ?_) hstart
  · have hmine := hown x hx
    rw [hi] at hmine
    exact hst.own hmine
  · exact hst.foreign (apart i x.1 (Ne.symm hi)) (hown x hx) (hspared x hx)

/-- Whatever the other runs do in between, whatever was there before and whatever fails:
from its start on every instance lets out what its own policy says, and nothing once it
is deleted. -/
theorem firewalls_hold (apart : ∀ i j, i ≠ j → Apart (sessions i).cfg (sessions j).cfg)
    (traces : ∀ i, ∃ t, Trace (sessions i).run.run (ofParty i h) t)
    (careful : Careful fabric.host (h.map Prod.snd)) {i : ι} {before after : List (Event Reply)}
    {n : Text} (started : ofParty i h = before ++ .issued (.act (.startInstance n)) :: after) :
    ∃ subnet raw, Answered before (.networkIpv4 (sessions i).cfg.bridgeName) raw ∧
      BridgeSubnet.parse (trim raw) = some subnet ∧
      ∀ packet, ((h.map Prod.snd).foldl Fabric.next fabric).Leaves (sessions i).cfg.name packet ↔
        .inst (sessions i).cfg.name ∈ ((h.map Prod.snd).foldl Fabric.next fabric).host.objects ∧
          Policy (sessions i).cfg.allow (.v4 subnet.gateway) packet := by
  have together := together_traces apart traces careful i
  obtain ⟨t, trace⟩ := traces i
  rw [started] at trace together
  obtain ⟨subnet, raw, hanswered, hparsed, safe⟩ := safe_started fabric trace
  obtain ⟨hfabric, hcareful⟩ := foldl_watch (h.map Prod.snd) ⟨fabric, True⟩
  have hsafe := together.safe (safe (together.careful (hcareful.mpr ⟨trivial, careful⟩)))
  rw [hfabric] at hsafe
  exact ⟨subnet, raw, hanswered, hparsed, hsafe.leaves_iff⟩

/-- What an observer sees of the objects, of the shared backend and of one run alone. -/
structure Seen (cfg : LaunchConfig) (base : Host) (shared alone : World) : Prop where
  beside : Beside cfg base shared.host alone.host
  lawful : shared.lawful → alone.lawful

theorem seen_traces (apart : ∀ i j, i ≠ j → Apart (sessions i).cfg (sessions j).cfg)
    (traces : ∀ i, ∃ t, Trace (sessions i).run.run (ofParty i h) t) {host : Host}
    (careful : Careful host (h.map Prod.snd)) (i : ι) :
    Seen (sessions i).cfg host ((h.map Prod.snd).foldl observe (.start host))
      ((ofParty i h).foldl observe (.start host)) := by
  have hown := own_of_traces traces
  have hspared := spared traces careful
  have hstart : Seen (sessions i).cfg host (.start host) (.start host) := ⟨beside_refl _ _, id⟩
  refine agree_alone (fun x hx hi s t hst => ?_) (fun x hx hi s t hst => ?_) hstart
  · have hmine := hown x hx
    rw [hi] at hmine
    obtain ⟨hbeside, hpermits, _⟩ := hst.beside.own hmine
    exact ⟨hbeside, fun lawful => ⟨hst.lawful lawful.1, hpermits.mp lawful.2⟩⟩
  · exact ⟨hst.beside.foreign (apart i x.1 (Ne.symm hi)) (hown x hx) (hspared x hx),
      fun lawful => hst.lawful lawful.1⟩

omit [DecidableEq ι] in
/-- An object that is no run's stays where it is, or is not. -/
theorem objects_not_mine {o : Object} {host : Host}
    (hown : ∀ x ∈ h, Own (sessions x.1).cfg (sessions x.1).plan x.2.command)
    (hnone : ∀ i, ¬Mine (sessions i).cfg o) :
    o ∈ ((h.map Prod.snd).foldl Host.next host).objects ↔ o ∈ host.objects := by
  induction h generalizing host with
  | nil => exact Iff.rfl
  | cons x h ih =>
    obtain ⟨hfirst, hrest⟩ := List.forall_mem_cons.mp hown
    refine (ih hrest).trans ?_
    unfold Host.next
    split
    · rename_i eff hout
      obtain ⟨a, hact, heff⟩ := outcome_act hout
      rw [hact] at hfirst
      have hinside := inside_of_own hfirst heff
      cases eff with
      | create p =>
        have hne : o ≠ p := fun heq => hnone x.1 (heq ▸ hinside)
        exact List.mem_cons.trans (or_iff_right hne)
      | delete p =>
        have hne : o ≠ p := fun heq => hnone x.1 (heq ▸ hinside)
        exact List.mem_filter.trans (and_iff_left (decide_eq_true hne))
      | addNic name bridge => exact Iff.rfl
      | attachAcl network acl => exact Iff.rfl
    · exact Iff.rfl

/-- When all runs have ended, none of them kept and by whichever path, the backend has the
objects that it had before. -/
theorem nothing_left {host : Host}
    (apart : ∀ i j, i ≠ j → Apart (sessions i).cfg (sessions j).cfg)
    (ended : ∀ i, ∃ r, Runs (sessions i).run.run (ofParty i h) r)
    (unkept : ∀ i, (sessions i).cfg.keep = false)
    (lawful : Lawful host (h.map Prod.snd)) (o : Object) :
    o ∈ ((h.map Prod.snd).foldl Host.next host).objects ↔ o ∈ host.objects := by
  have traces : ∀ i, ∃ t, Trace (sessions i).run.run (ofParty i h) t := by
    intro i
    obtain ⟨r, hrun⟩ := ended i
    exact ⟨_, hrun⟩
  by_cases hmine : ∃ i, Mine (sessions i).cfg o
  · obtain ⟨i, hmine⟩ := hmine
    obtain ⟨r, hrun⟩ := ended i
    have seen := seen_traces apart traces lawful.careful i
    have hlawful := seen.lawful ((foldl_lawful _ _).mpr ⟨trivial, lawful⟩)
    -- Alone the run holds nothing in the end.
    have held := (ends_self r _).mp (triple_runInstance (unkept i) _ _ _ (.start host) _ r
      (held_start host) hrun)
    have hshared := seen.beside.objects o hmine
    rw [foldl_host] at hshared
    exact hshared.trans (((held.backed hlawful).present o).trans (or_iff_left List.not_mem_nil))
  · exact objects_not_mine (own_of_traces traces) fun i hi => hmine ⟨i, hi⟩

end Shared

/-- Generated names are apart if the identifiers differ in what the names show of them. -/
theorem apart_of_uuid8 {cfg another : LaunchConfig} {cwd home cwd' home' : Bytes}
    {image image' : Text} {uuid uuid' : Uuid} (hne : uuid8 uuid ≠ uuid8 uuid')
    (hname : cfg.name = instanceName cwd home image uuid)
    (hbridge : cfg.bridgeName = bridgeName image uuid)
    (hname' : another.name = instanceName cwd' home' image' uuid')
    (hbridge' : another.bridgeName = bridgeName image' uuid') : Apart cfg another := by
  have hends : ∀ {front front' : Text}, front' ++ uuid8 uuid' ≠ front ++ uuid8 uuid := by
    intro front front' heq
    have hlength : (uuid8 uuid').length = (uuid8 uuid).length := by
      rw [uuid8_length, uuid8_length]
    exact hne (List.append_inj' heq hlength).2.symm
  have hall := names_end cwd home image uuid
  have hall' := names_end cwd' home' image' uuid'
  constructor
  · obtain ⟨front, hfront⟩ := hall _ List.mem_cons_self
    obtain ⟨front', hfront'⟩ := hall' _ List.mem_cons_self
    rw [hname, hname', hfront, hfront']
    exact hends
  · obtain ⟨front, hfront⟩ := hall _ (List.mem_cons_of_mem _ List.mem_cons_self)
    obtain ⟨front', hfront'⟩ := hall' _ (List.mem_cons_of_mem _ List.mem_cons_self)
    rw [hbridge, hbridge', hfront, hfront']
    exact hends

/-! ## Two runs of one project -/

/-- The first digits of the identifiers are `00000000` and `00000001`. -/
def pairUuid (second : Bool) : Uuid := if second then BitVec.ofNat 128 (2 ^ 96) else 0

def pairConfig (second : Bool) : LaunchConfig :=
  { workConfig with
    name := instanceName (utf8 "/home/u/work".toList) (utf8 "/home/u".toList) "celily".toList
      (pairUuid second)
    bridgeName := bridgeName "celily".toList (pairUuid second) }

def pairSession (second : Bool) : Session := ⟨pairConfig second, fun _ => false, 1, workPlan⟩

/-- The name of the first run is that of an instance that was kept, on another network. -/
def takenHost : Host where
  objects := [.inst (pairConfig false).name, .network "lxdbr0".toList]
  nics := [((pairConfig false).name, "lxdbr0".toList)]
  attachments := []
  nics_present := by simp
  attachments_present := by simp

/-- No rules anywhere. -/
def takenFabric : Fabric := ⟨takenHost, fun _ => [], fun _ => false⟩

/-- So its instance cannot be created. -/
def takenReply : (c : Command) → Reply c
  | .act (.createInstance _ _) => .error (.io "already exists".toList)
  | c => goodReply c

/-- The events of two parties that take turns. -/
def takingTurns {E : Type} : List E → List E → List (Bool × E)
  | [], r => r.map (Prod.mk true)
  | e :: l, [] => (false, e) :: l.map (Prod.mk false)
  | e :: l, d :: r => (false, e) :: (true, d) :: takingTurns l r

theorem ofParty_map {E : Type} (first second : Bool) (l : List E) :
    ofParty first (l.map (Prod.mk second)) = if second = first then l else [] := by
  induction l with
  | nil => exact (ite_self []).symm
  | cons e l ih =>
    rw [List.map_cons, ofParty_cons, ih]
    split
    · rfl
    · rfl

theorem ofParty_takingTurns {E : Type} (second : Bool) (l r : List E) :
    ofParty second (takingTurns l r) = if second then r else l := by
  induction l, r using takingTurns.induct with
  | case1 r =>
    rw [takingTurns, ofParty_map]
    cases second <;> rfl
  | case2 e l =>
    rw [takingTurns, ofParty_cons, ofParty_map]
    cases second <;> rfl
  | case3 e l d r ih =>
    rw [takingTurns, ofParty_cons, ofParty_cons, ih]
    cases second <;> rfl

/-- Both to their ends, the first refused and the second as the backend replies. -/
def pairRuns (reply : (c : Command) → Reply c) : List (Bool × Event Reply) :=
  takingTurns (play takenReply (pairSession false).run.run).1
    (play reply (pairSession true).run.run).1

theorem pairRuns_ended (reply : (c : Command) → Reply c) (second : Bool) :
    ∃ r, Runs (pairSession second).run.run (ofParty second (pairRuns reply)) r := by
  rw [pairRuns, ofParty_takingTurns]
  cases second with
  | false => exact ⟨_, runs_play takenReply _⟩
  | true => exact ⟨_, runs_play reply _⟩

theorem pair_apart (first second : Bool) (hne : first ≠ second) :
    Apart (pairSession first).cfg (pairSession second).cfg := by
  have hdigits : uuid8 (pairUuid first) ≠ uuid8 (pairUuid second) := by
    revert first second
    decide
  exact apart_of_uuid8 hdigits rfl rfl rfl rfl

/-- The second cannot delete anything. -/
theorem stuckPair_careful : Careful takenHost ((pairRuns stuckReply).map Prod.snd) := by
  decide +kernel

theorem stuckPair_present : .inst (pairConfig true).name ∈
    (((pairRuns stuckReply).map Prod.snd).foldl Fabric.next takenFabric).host.objects := by
  decide +kernel

theorem stuckPair_starts : .issued (.act (.startInstance (pairConfig true).name)) ∈
    ofParty true (pairRuns stuckReply) := by
  rw [pairRuns, ofParty_takingTurns]
  exact List.mem_of_getElem? (i := 44) rfl

/-- What the second could not delete lets out what its policy says. -/
theorem firewalls_hold_pair : ∃ gateway, ∀ packet,
    (((pairRuns stuckReply).map Prod.snd).foldl Fabric.next takenFabric).Leaves
        (pairConfig true).name packet ↔ Policy (pairConfig true).allow gateway packet := by
  have traces : ∀ second, ∃ t,
      Trace (pairSession second).run.run (ofParty second (pairRuns stuckReply)) t := by
    intro second
    obtain ⟨r, hrun⟩ := pairRuns_ended stuckReply second
    exact ⟨_, hrun⟩
  have hcareful : Careful takenFabric.host ((pairRuns stuckReply).map Prod.snd) :=
    stuckPair_careful
  obtain ⟨before, after, hstarted⟩ := List.append_of_mem stuckPair_starts
  obtain ⟨subnet, raw, _, _, hleaves⟩ := firewalls_hold pair_apart traces hcareful hstarted
  exact ⟨.v4 subnet.gateway, fun packet => (hleaves packet).trans (and_iff_right stuckPair_present)⟩

theorem goodPair_lawful : Lawful takenHost ((pairRuns goodReply).map Prod.snd) := by
  decide +kernel

/-- The kept instance and its network are left, and nothing else. -/
theorem nothing_left_pair :
    (((pairRuns goodReply).map Prod.snd).foldl Host.next takenHost).objects ⊆ takenHost.objects ∧
      takenHost.objects ⊆ (((pairRuns goodReply).map Prod.snd).foldl Host.next takenHost).objects :=
  have hiff := nothing_left pair_apart (pairRuns_ended goodReply) (fun _ => rfl) goodPair_lawful
  ⟨fun o => (hiff o).mp, fun o => (hiff o).mpr⟩

end ConcurrentRuns
