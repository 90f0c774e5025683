import Celily.IsolatedStart
import Celily.TaskTriples

/-!
# Teardown leaks nothing

`Host` is what the backend keeps: which objects exist, which NIC is on which
network and which ACL a network has attached. `World` adds what an observer of the
run has seen of creations and deletions. `Held` is the invariant of the guards: the
objects of a list are held, and every other object is as it was. Each guard takes
its object off the list, which its delete only does if nothing uses the object
any more, so every early return has to drop the guards in an order that works.
-/

namespace Teardown

open RustText NetworkRules BridgeSubnets EgressAcl Devices JoinedTasks TaskTriples
  InstanceLifecycle LifecycleTraces IsolatedStart

inductive Object where
  | inst (name : Text)
  | network (name : Text)
  | acl (name : Text)
  deriving DecidableEq

/-- What a command does to the objects once it succeeds. -/
inductive Effect where
  | create (o : Object)
  | delete (o : Object)
  | addNic (name bridge : Text)
  | attachAcl (network acl : Text)
  deriving DecidableEq

def effect : Act → Option Effect
  | .createInstance name _ => some (.create (.inst name))
  | .createNetwork name => some (.create (.network name))
  | .createAcl name => some (.create (.acl name))
  | .deleteInstance name => some (.delete (.inst name))
  | .deleteNetwork name => some (.delete (.network name))
  | .deleteAcl name => some (.delete (.acl name))
  | .attachToBridge name bridge _ _ => some (.addNic name bridge)
  | .attachAclToNetwork network acl => some (.attachAcl network acl)
  | _ => none

structure Host where
  objects : List Object
  /-- Which instance has a NIC on which network. -/
  nics : List (Text × Text)
  /-- Which network has which ACL attached. -/
  attachments : List (Text × Text)
  nics_present : ∀ p ∈ nics, .inst p.1 ∈ objects ∧ .network p.2 ∈ objects
  attachments_present : ∀ p ∈ attachments, .network p.1 ∈ objects ∧ .acl p.2 ∈ objects

def emptyHost : Host := ⟨[], [], [], by simp, by simp⟩

namespace Host

def InUse (host : Host) : Object → Prop
  | .inst _ => False
  | .network n => ∃ p ∈ host.nics, p.2 = n
  | .acl a => ∃ p ∈ host.attachments, p.2 = a

instance (host : Host) : (o : Object) → Decidable (host.InUse o)
  | .inst _ => inferInstanceAs (Decidable False)
  | .network n => inferInstanceAs (Decidable (∃ p ∈ host.nics, p.2 = n))
  | .acl a => inferInstanceAs (Decidable (∃ p ∈ host.attachments, p.2 = a))

def create (host : Host) (o : Object) : Host where
  objects := o :: host.objects
  nics := host.nics
  attachments := host.attachments
  nics_present p h := by simp [host.nics_present p h]
  attachments_present p h := by simp [host.attachments_present p h]

/-- The object goes, with the NICs and attachments that involve it. -/
def delete (host : Host) (o : Object) : Host where
  objects := host.objects.filter (· ≠ o)
  nics := host.nics.filter fun p => .inst p.1 ≠ o ∧ .network p.2 ≠ o
  attachments := host.attachments.filter fun p => .network p.1 ≠ o ∧ .acl p.2 ≠ o
  nics_present p h := by
    simp only [List.mem_filter, decide_eq_true_eq] at h ⊢
    have present := host.nics_present p h.1
    exact ⟨⟨present.1, h.2.1⟩, present.2, h.2.2⟩
  attachments_present p h := by
    simp only [List.mem_filter, decide_eq_true_eq] at h ⊢
    have present := host.attachments_present p h.1
    exact ⟨⟨present.1, h.2.1⟩, present.2, h.2.2⟩

/-- The pair is added if both its objects are there. -/
def addPair (objects : List Object) (l r : Object) (p : Text × Text) (ps : List (Text × Text)) :
    List (Text × Text) :=
  if l ∈ objects ∧ r ∈ objects then p :: ps else ps

theorem mem_addPair {objects : List Object} {l r : Object} {p q : Text × Text}
    {ps : List (Text × Text)} :
    q ∈ addPair objects l r p ps ↔ q ∈ ps ∨ q = p ∧ l ∈ objects ∧ r ∈ objects := by
  rw [addPair]
  split
  · rename_i hboth
    simp [hboth, or_comm]
  · rename_i hboth
    simp [hboth]

def addNic (host : Host) (name bridge : Text) : Host where
  objects := host.objects
  nics := addPair host.objects (.inst name) (.network bridge) (name, bridge) host.nics
  attachments := host.attachments
  nics_present p h := by
    rcases mem_addPair.mp h with old | ⟨rfl, present⟩
    · exact host.nics_present p old
    · exact present
  attachments_present := host.attachments_present

def attachAcl (host : Host) (network acl : Text) : Host where
  objects := host.objects
  nics := host.nics
  attachments := addPair host.objects (.network network) (.acl acl) (network, acl) host.attachments
  nics_present := host.nics_present
  attachments_present p h := by
    rcases mem_addPair.mp h with old | ⟨rfl, present⟩
    · exact host.attachments_present p old
    · exact present

def perform (host : Host) : Effect → Host
  | .create o => host.create o
  | .delete o => host.delete o
  | .addNic name bridge => host.addNic name bridge
  | .attachAcl network acl => host.attachAcl network acl

/-- Which replies the backend can give: an object that exists is not created again,
and a delete succeeds exactly when the object exists and is not in use. -/
def Allows (host : Host) : Effect → Bool → Prop
  | .create o, ok => ok = true → o ∉ host.objects
  | .delete o, ok => ok = true ↔ o ∈ host.objects ∧ ¬host.InUse o
  | _, _ => True

instance (host : Host) : (eff : Effect) → (ok : Bool) → Decidable (host.Allows eff ok)
  | .create o, ok => inferInstanceAs (Decidable (ok = true → o ∉ host.objects))
  | .delete o, ok =>
    inferInstanceAs (Decidable (ok = true ↔ o ∈ host.objects ∧ ¬host.InUse o))
  | .addNic _ _, _ => inferInstanceAs (Decidable True)
  | .attachAcl _ _, _ => inferInstanceAs (Decidable True)

/-- What can succeed: nothing that exists is created, and nothing is deleted that is not
there or in use. -/
def CanDo (host : Host) : Effect → Prop
  | .create o => o ∉ host.objects
  | .delete o => o ∈ host.objects ∧ ¬host.InUse o
  | _ => True

instance (host : Host) : (eff : Effect) → Decidable (host.CanDo eff)
  | .create o => inferInstanceAs (Decidable (o ∉ host.objects))
  | .delete o => inferInstanceAs (Decidable (o ∈ host.objects ∧ ¬host.InUse o))
  | .addNic _ _ => inferInstanceAs (Decidable True)
  | .attachAcl _ _ => inferInstanceAs (Decidable True)

theorem Allows.canDo {host : Host} {eff : Effect} {ok : Bool} (hallows : host.Allows eff ok)
    (hok : ok = true) : host.CanDo eff := by
  cases eff with
  | create o => exact hallows hok
  | delete o => exact hallows.mp hok
  | addNic name bridge => trivial
  | attachAcl network acl => trivial

end Host

/-- The effect an event is the reply to, and whether it succeeded. -/
def outcome : Event Reply → Option (Effect × Bool)
  | .returned (.act a) reply => (effect a).map fun eff => (eff, Except.isOk reply)
  | _ => none

/-- A failed command has no effect. -/
def Host.next (host : Host) (e : Event Reply) : Host :=
  match outcome e with
  | some (eff, true) => host.perform eff
  | _ => host

def Host.Permits (host : Host) (e : Event Reply) : Prop :=
  ∀ r ∈ outcome e, host.Allows r.1 r.2

instance (host : Host) (e : Event Reply) : Decidable (host.Permits e) :=
  inferInstanceAs (Decidable (∀ r ∈ outcome e, host.Allows r.1 r.2))

theorem permits_none {e : Event Reply} (hout : outcome e = none) (host : Host) :
    host.Permits e := by
  simp [Host.Permits, hout]

theorem permits_some {e : Event Reply} {eff : Effect} {ok : Bool}
    (hout : outcome e = some (eff, ok)) (host : Host) : host.Permits e ↔ host.Allows eff ok := by
  simp [Host.Permits, hout]

/-- Every reply is one that a backend gives whose deletes only fail for a reason. -/
def Lawful : Host → List (Event Reply) → Prop
  | _, [] => True
  | host, e :: h => host.Permits e ∧ Lawful (host.next e) h

instance Lawful.decidable : (host : Host) → (h : List (Event Reply)) → Decidable (Lawful host h)
  | _, [] => inferInstanceAs (Decidable True)
  | host, e :: h =>
    have := Lawful.decidable (host.next e) h
    inferInstanceAs (Decidable (host.Permits e ∧ Lawful (host.next e) h))

/-- Only what can succeed does; any command may fail. -/
def Host.Tolerates (host : Host) (e : Event Reply) : Prop :=
  ∀ r ∈ outcome e, r.2 = true → host.CanDo r.1

instance (host : Host) (e : Event Reply) : Decidable (host.Tolerates e) :=
  inferInstanceAs (Decidable (∀ r ∈ outcome e, r.2 = true → host.CanDo r.1))

theorem tolerates_none {e : Event Reply} (hout : outcome e = none) (host : Host) :
    host.Tolerates e := by
  simp [Host.Tolerates, hout]

theorem tolerates_some {e : Event Reply} {eff : Effect} {ok : Bool}
    (hout : outcome e = some (eff, ok)) (host : Host) :
    host.Tolerates e ↔ (ok = true → host.CanDo eff) := by
  simp [Host.Tolerates, hout]

/-- The backend as it is when deletes may fail too. -/
def Careful : Host → List (Event Reply) → Prop
  | _, [] => True
  | host, e :: h => host.Tolerates e ∧ Careful (host.next e) h

instance Careful.decidable : (host : Host) → (h : List (Event Reply)) → Decidable (Careful host h)
  | _, [] => inferInstanceAs (Decidable True)
  | host, e :: h =>
    have := Careful.decidable (host.next e) h
    inferInstanceAs (Decidable (host.Tolerates e ∧ Careful (host.next e) h))

theorem Lawful.careful {host : Host} {h : List (Event Reply)} (lawful : Lawful host h) :
    Careful host h := by
  induction h generalizing host with
  | nil => trivial
  | cons e h ih => exact ⟨fun r hr hok => (lawful.1 r hr).canDo hok, ih lawful.2⟩

theorem careful_concat {host : Host} {h : List (Event Reply)} {e : Event Reply} :
    Careful host (h ++ [e]) ↔ Careful host h ∧ (h.foldl Host.next host).Tolerates e := by
  induction h generalizing host with
  | nil => simp [Careful]
  | cons d h ih => rw [List.cons_append, Careful, Careful, ih, and_assoc, List.foldl_cons]

def Created (h : List (Event Reply)) (o : Object) : Prop :=
  ∃ e ∈ h, outcome e = some (.create o, true)

instance (h : List (Event Reply)) (o : Object) : Decidable (Created h o) :=
  inferInstanceAs (Decidable (∃ e ∈ h, outcome e = some (.create o, true)))

/-- The event is the issue of a delete of the object. -/
def AsksDelete (o : Object) (e : Event Reply) : Prop :=
  ∃ a, e = .issued (.act a) ∧ effect a = some (.delete o)

/-- A delete of the object, asked for or done. -/
def Deletes (o : Object) (e : Event Reply) : Prop :=
  AsksDelete o e ∨ outcome e = some (.delete o, true)

/-! ## The observer -/

structure World where
  host : Host
  created : List Object
  /-- Every reply so far is one that the backend can give. -/
  lawful : Prop
  /-- Every delete so far was of an object created before. -/
  owned : Prop

def World.start (host : Host) : World := ⟨host, [], True, True⟩

/-- The object that a successful effect creates. -/
def newObjects : Option (Effect × Bool) → List Object
  | some (.create o, true) => [o]
  | _ => []

def observe (w : World) (e : Event Reply) : World where
  host := w.host.next e
  created := newObjects (outcome e) ++ w.created
  lawful := w.lawful ∧ w.host.Permits e
  owned := w.owned ∧ ∀ o, Deletes o e → o ∈ w.created

/-- A command with an effect, issued and answered. -/
def World.settle (w : World) (eff : Effect) (ok : Bool) : World where
  host := if ok then w.host.perform eff else w.host
  created := newObjects (some (eff, ok)) ++ w.created
  lawful := w.lawful ∧ w.host.Allows eff ok
  owned := w.owned ∧ ∀ o, eff = .delete o → o ∈ w.created

theorem foldl_act {a : Act} {eff : Effect} (heff : effect a = some eff)
    (reply : Except CommandError Unit) (w : World) :
    [.issued (.act a), .returned (.act a) reply].foldl observe w =
      w.settle eff (Except.isOk reply) := by
  have hout : outcome (.returned (.act a) reply) = some (eff, Except.isOk reply) := by
    simp [outcome, heff]
  have hissued : ∀ o, Deletes o (.issued (.act a)) ↔ eff = .delete o := by
    intro o
    simp [Deletes, AsksDelete, heff, outcome]
  have hreturned : ∀ o, Deletes o (.returned (.act a) reply) ↔
      eff = .delete o ∧ Except.isOk reply = true := by
    intro o
    simp [Deletes, AsksDelete, hout]
  have hpermits : ∀ host : Host, host.Permits (.issued (.act a)) := permits_none rfl
  simp only [List.foldl_cons, List.foldl_nil, observe, World.settle, hissued, hreturned, hout,
    Host.next, permits_some hout]
  cases Except.isOk reply with
  | true => simp [outcome, newObjects, hpermits]
  | false => simp [outcome, newObjects, hpermits]

/-- A command without an effect is not noticed. -/
theorem silent_of_effect {c : Command} (hnone : ∀ a, c = .act a → effect a = none) :
    Silent observe c := by
  rintro e w rfl
  have hout : outcome e = none := by
    cases e with
    | issued c => rfl
    | returned c reply =>
      cases c with
      | act a => simp [outcome, hnone a rfl]
      | _ => rfl
  have hdeletes : ∀ o, ¬Deletes o e := by
    rintro o (⟨a, rfl, heff⟩ | hdone)
    · rw [hnone a rfl] at heff
      cases heff
    · rw [hout] at hdone
      cases hdone
  simp [observe, Host.next, hout, hdeletes, newObjects, permits_none hout]

theorem silent_of_area {c : Command} (harea : area c ∉ [.create, .nic, .network, .delete]) :
    Silent observe c := by
  refine silent_of_effect fun a hact => ?_
  subst hact
  cases a <;> first | rfl | exact absurd (by simp [area, actArea]) harea

/-! ## What the guards hold -/

/-- On the backend the objects of `mine` are there besides those of `base`; an NIC or
an attachment that is not of `base` involves them. -/
structure Backed (base : Host) (mine : List Object) (attached nic : Bool) (w : World) : Prop where
  present : ∀ o, o ∈ w.host.objects ↔ o ∈ base.objects ∨ o ∈ mine
  fresh : ∀ o ∈ w.created, o ∉ base.objects
  nic : ∀ p ∈ w.host.nics, p ∈ base.nics ∨ nic = true ∧ Object.inst p.1 ∈ mine
  attached : ∀ p ∈ w.host.attachments,
    p ∈ base.attachments ∨ attached = true ∧ Object.network p.1 ∈ mine

/-- The objects of `mine` were created by the run, and are on the backend if it kept
to what it can reply. -/
structure Held (base : Host) (mine : List Object) (attached nic : Bool) (w : World) : Prop where
  owned : w.owned
  kept : ∀ o ∈ mine, o ∈ w.created
  backed : w.lawful → Backed base mine attached nic w

/-- Nothing that is held keeps the object in use. -/
def Free (mine : List Object) (attached nic : Bool) : Object → Prop
  | .inst _ => True
  | .network _ => nic = false ∨ ∀ i, Object.inst i ∉ mine
  | .acl _ => attached = false ∨ ∀ n, Object.network n ∉ mine

variable {base : Host} {mine rest : List Object} {attached nic : Bool} {w : World}

theorem Backed.not_inUse {o : Object} (backed : Backed base mine attached nic w)
    (fresh : o ∉ base.objects) (free : Free mine attached nic o) : ¬w.host.InUse o := by
  cases o with
  | inst i => exact id
  | network n =>
    rintro ⟨p, hnic, rfl⟩
    rcases backed.nic p hnic with hbase | ⟨hnic, hmem⟩
    · exact fresh (base.nics_present p hbase).2
    · rcases free with free | free
      · rw [free] at hnic
        cases hnic
      · exact free p.1 hmem
  | acl a =>
    rintro ⟨p, hattached, rfl⟩
    rcases backed.attached p hattached with hbase | ⟨hattached, hmem⟩
    · exact fresh (base.attachments_present p hbase).2
    · rcases free with free | free
      · rw [free] at hattached
        cases hattached
      · exact free p.1 hmem

theorem Held.created {o : Object} (held : Held base mine attached nic w) :
    Held base (o :: mine) attached nic (w.settle (.create o) true) where
  owned := ⟨held.owned, by simp⟩
  kept := by
    intro p hp
    rcases List.mem_cons.mp hp with rfl | hp
    · exact List.mem_cons_self
    · exact List.mem_cons_of_mem _ (held.kept p hp)
  backed := by
    rintro ⟨lawful, allowed⟩
    have backed := held.backed lawful
    have absent : o ∉ w.host.objects := allowed rfl
    refine ⟨fun p => ?_, ?_, fun p hnic => ?_, fun p hattached => ?_⟩
    · change p ∈ o :: w.host.objects ↔ _
      rw [List.mem_cons, List.mem_cons, backed.present p]
      exact or_left_comm
    · refine List.forall_mem_cons.mpr ⟨fun hbase => absent ?_, backed.fresh⟩
      exact (backed.present o).mpr (Or.inl hbase)
    · exact (backed.nic p hnic).imp_right fun h => ⟨h.1, List.mem_cons_of_mem o h.2⟩
    · exact (backed.attached p hattached).imp_right fun h => ⟨h.1, List.mem_cons_of_mem o h.2⟩

theorem Held.failed {eff : Effect} (held : Held base mine attached nic w)
    (hdelete : ∀ o, eff ≠ .delete o) : Held base mine attached nic (w.settle eff false) := by
  have hnew : newObjects (some (eff, false)) = [] := by cases eff <;> rfl
  refine ⟨⟨held.owned, fun o heq => absurd heq (hdelete o)⟩, ?_, ?_⟩
  · simpa [World.settle, hnew] using held.kept
  · rintro ⟨lawful, _⟩
    have backed := held.backed lawful
    exact ⟨backed.present, by simpa [World.settle, hnew] using backed.fresh, backed.nic,
      backed.attached⟩

/-- A delete of a free object that is held succeeds. -/
theorem Held.deleted {o : Object} (held : Held base mine attached nic w) (hmem : o ∈ mine)
    (free : Free mine attached nic o) (hrest : ∀ p, p ∈ rest ↔ p ∈ mine ∧ p ≠ o) (ok : Bool) :
    Held base rest attached nic (w.settle (.delete o) ok) := by
  refine ⟨⟨held.owned, ?_⟩, ?_, ?_⟩
  · rintro p heq
    cases heq
    exact held.kept o hmem
  · exact fun p hp => held.kept p ((hrest p).mp hp).1
  · rintro ⟨lawful, allowed⟩
    have backed := held.backed lawful
    have fresh : o ∉ base.objects := backed.fresh o (held.kept o hmem)
    have present : o ∈ w.host.objects := (backed.present o).mpr (Or.inr hmem)
    obtain rfl : ok = true := allowed.mpr ⟨present, backed.not_inUse fresh free⟩
    refine ⟨fun p => ?_, backed.fresh, fun p hnic => ?_, fun p hattached => ?_⟩
    · simp only [World.settle, if_true, Host.perform, Host.delete, List.mem_filter,
        decide_eq_true_eq, backed.present p, hrest]
      constructor
      · rintro ⟨hbase | hmine, hne⟩
        · exact Or.inl hbase
        · exact Or.inr ⟨hmine, hne⟩
      · rintro (hbase | ⟨hmine, hne⟩)
        · refine ⟨Or.inl hbase, ?_⟩
          rintro rfl
          exact fresh hbase
        · exact ⟨Or.inr hmine, hne⟩
    · simp only [World.settle, if_true, Host.perform, Host.delete, List.mem_filter,
        decide_eq_true_eq] at hnic
      exact (backed.nic p hnic.1).imp_right fun h => ⟨h.1, (hrest _).mpr ⟨h.2, hnic.2.1⟩⟩
    · simp only [World.settle, if_true, Host.perform, Host.delete, List.mem_filter,
        decide_eq_true_eq] at hattached
      exact (backed.attached p hattached.1).imp_right fun h =>
        ⟨h.1, (hrest _).mpr ⟨h.2, hattached.2.1⟩⟩

theorem Held.nicAdded {name bridge : Text} (held : Held base mine attached nic w)
    (hmem : Object.inst name ∈ mine) :
    Held base mine attached true (w.settle (.addNic name bridge) true) := by
  refine ⟨⟨held.owned, by simp⟩, held.kept, ?_⟩
  rintro ⟨lawful, _⟩
  have backed := held.backed lawful
  refine ⟨backed.present, backed.fresh, fun p hnic => ?_, backed.attached⟩
  rcases Host.mem_addPair.mp hnic with hnic | ⟨rfl, _⟩
  · exact (backed.nic p hnic).imp_right fun h => ⟨rfl, h.2⟩
  · exact Or.inr ⟨rfl, hmem⟩

theorem Held.aclAttached {network acl : Text} (held : Held base mine attached nic w)
    (hmem : Object.network network ∈ mine) :
    Held base mine true nic (w.settle (.attachAcl network acl) true) := by
  refine ⟨⟨held.owned, by simp⟩, held.kept, ?_⟩
  rintro ⟨lawful, _⟩
  have backed := held.backed lawful
  refine ⟨backed.present, backed.fresh, backed.nic, fun p hattached => ?_⟩
  rcases Host.mem_addPair.mp hattached with hattached | ⟨rfl, _⟩
  · exact (backed.attached p hattached).imp_right fun h => ⟨rfl, h.2⟩
  · exact Or.inr ⟨rfl, hmem⟩

/-- Without a network of its own the run has no attachment. -/
theorem Held.detached (held : Held base mine attached nic w)
    (hnone : ∀ n, Object.network n ∉ mine) : Held base mine false nic w where
  owned := held.owned
  kept := held.kept
  backed := by
    intro lawful
    have backed := held.backed lawful
    refine ⟨backed.present, backed.fresh, backed.nic, fun p hattached => ?_⟩
    exact (backed.attached p hattached).imp_right fun h => absurd h.2 (hnone p.1)

/-! ## What each phase leaves -/

theorem triple_act {context : CommandError → LaunchError} {a : Act} {eff : Effect}
    {P A B : World → Prop} (heff : effect a = some eff) (hok : ∀ w, P w → A (w.settle eff true))
    (herror : ∀ w, P w → B (w.settle eff false)) :
    Triple observe P (act context a).run (Ends A B) := by
  intro w h r hP hrun
  obtain ⟨reply, rfl, rfl⟩ := runs_act.mp hrun
  rw [foldl_act heff]
  cases reply with
  | ok u => exact hok w hP
  | error e => exact herror w hP

theorem triple_create {context : CommandError → LaunchError} {a : Act} {o : Object}
    (heff : effect a = some (.create o)) :
    Triple observe (Held base mine attached nic) (act context a).run
      (Ends (Held base (o :: mine) attached nic) (Held base mine attached nic)) :=
  triple_act heff (fun _ held => held.created) fun _ held => held.failed (by simp)

theorem triple_delete {a : Act} {o : Object} (keep : Bool) (hkeep : keep = false)
    (heff : effect a = some (.delete o)) (hmem : o ∈ mine) (free : Free mine attached nic o)
    (hrest : ∀ p, p ∈ rest ↔ p ∈ mine ∧ p ≠ o) :
    Triple observe (Held base mine attached nic) (if keep then .done () else logged a)
      fun _ => Held base rest attached nic := by
  intro w h u held hrun
  rw [if_neg (by simp [hkeep])] at hrun
  obtain ⟨reply, rfl⟩ := runs_logged.mp hrun
  rw [foldl_act heff reply w]
  exact held.deleted hmem free hrest _

/-- The network goes first, which detaches the ACL. -/
theorem triple_dropBridgeGuard (name : Text) (keep : Bool) (hkeep : keep = false)
    (hnetwork : ∀ n, Object.network n ∉ rest) (hacl : Object.acl name ∉ rest)
    (hfree : nic = false ∨ ∀ i, Object.inst i ∉ rest) :
    Triple observe (Held base (.acl name :: .network name :: rest) attached nic)
      (dropBridgeGuard name keep) fun _ => Held base rest false nic := by
  refine triple_bind (R := fun _ => Held base (.acl name :: rest) attached nic) ?_ fun _ => ?_
  · refine triple_delete keep hkeep rfl (by simp) (hfree.imp_right fun h i => by simp [h]) ?_
    intro p
    grind
  · refine Triple.mono (Q := fun _ => Held base rest attached nic) ?_ fun _ w held =>
      held.detached hnetwork
    refine triple_delete keep hkeep rfl (by simp) (Or.inr fun n => by simp [hnetwork]) ?_
    intro p
    grind

section Phases
variable {name bridge : Text} {params : CreateBridgeParams}

theorem silent_within {areas : List Area} (hareas : ∀ a ∈ areas, a ∉
    [Area.create, .nic, .network, .delete]) {c : Command} (h : Within true areas c) :
    Silent observe c := by
  rcases h with h | ⟨_, h⟩
  · exact silent_of_area (hareas _ h)
  · cases h

theorem ends_ofResult {P : World → Prop} {α : Type} (result : Except LaunchError α) :
    Triple observe P (ofResult result).run (Ends P P) :=
  ends_silent (emits_ofResult result)

theorem ends_error {P A : World → Prop} {α : Type} (e : LaunchError) :
    Triple observe P (ofResult (.error e) : Launch α).run (Ends A P) := by
  intro w h r hP hrun
  obtain ⟨rfl, rfl⟩ := runs_ofResult.mp hrun
  exact hP

theorem emits_getSubnet_silent (name : Text) : Emits (Silent observe) (getSubnet name).run := by
  refine emits_seq (emits_request (silent_of_effect (by simp))) fun raw => ?_
  split
  · exact emits_done _
  · exact emits_done _

theorem triple_createBridge (hkeep : params.keep = false) :
    Triple observe (Held base [.inst name] false false) (createBridge bridge params).run
      (Ends (Held base [.acl bridge, .network bridge, .inst name] true false)
        (Held base [.inst name] false false)) := by
  have hact : ∀ a, effect a = none → Emits (Silent observe) (act .bridge a).run :=
    fun a ha => emits_request (silent_of_effect (by rintro _ ⟨⟩; exact ha))
  have hdropBridge : Triple observe (Held base [.network bridge, .inst name] false false)
      (dropBridge bridge params.keep) fun _ => Held base [.inst name] false false :=
    triple_delete params.keep hkeep rfl (by simp) (Or.inl rfl) (by grind)
  have hdropAcl : Triple observe (Held base [.acl bridge, .network bridge, .inst name] false false)
      (dropAcl bridge params.keep) fun _ =>
        Held base [.network bridge, .inst name] false false :=
    triple_delete params.keep hkeep rfl (by simp) (Or.inl rfl) (by grind)
  refine ends_seq (triple_create rfl) fun _ => ends_guarded ?_ hdropBridge
  refine ends_seq (ends_silent (emits_getSubnet_silent bridge)) fun subnet => ?_
  refine ends_seq (triple_create rfl) fun _ => ends_guarded ?_ hdropAcl
  have hrules : Emits (Silent observe) (each (addRule bridge)
      (buildRulesFromParams params subnet.gateway.display)).run :=
    emits_each fun rule _ => hact _ rfl
  refine triple_lift_seq (triple_silent (emits_both hrules (hact _ rfl))) fun results => ?_
  refine ends_seq (ends_ofResult _) fun _ => ends_seq (ends_ofResult _) fun _ => ?_
  refine ends_seq (ends_silent (hact _ rfl)) fun _ => ?_
  exact ends_seq (triple_act rfl (fun w held => held.aclAttached (by simp)) fun w held =>
    held.failed (by simp)) fun _ => ends_pure _

theorem emits_isolation_silent {α : Type} {t : Task Reply α}
    (hemits : Emits (Within true [.isolation]) t) : Emits (Silent observe) t :=
  hemits.mono fun c hc => silent_within (by simp) hc

theorem triple_setup (hkeep : params.keep = false) (polls : Nat) (allow : List NetworkRule)
    (provider : Bool) :
    Triple observe (Held base [.inst name] false false)
      (setup polls bridge params allow provider).run
      (Ends (Held base [.acl bridge, .network bridge, .inst name] true false)
        (Held base [.inst name] false false)) := by
  have hdrop : Triple observe
      (Held base [.acl bridge, .network bridge, .inst name] true false)
      (dropBridgeGuard bridge params.keep) fun _ => Held base [.inst name] false false :=
    triple_dropBridgeGuard bridge params.keep hkeep (by simp) (by simp) (Or.inl rfl)
  refine ends_seq (triple_createBridge hkeep) fun subnet => ends_guarded ?_ hdrop
  refine ends_silent (emits_seq (emits_isolation_silent ?_) fun secrets => ?_)
  · exact emits_resolveSecrets (fun _ => Or.inl List.mem_cons_self) provider allow []
  · exact emits_isolation_silent (emits_startProxies (by simp) polls bridge subnet allow secrets)

variable {cfg : LaunchConfig}

theorem triple_dropInstance (hkeep : cfg.keep = false) (hrest : Object.inst cfg.name ∉ rest) :
    Triple observe (Held base (.inst cfg.name :: rest) attached nic) (dropInstance cfg) fun _ =>
      Held base rest attached nic :=
  triple_delete cfg.keep hkeep rfl (by simp) trivial fun p => by grind

theorem triple_dropIsolation (hkeep : cfg.keep = false) (isolation : Isolation)
    (hnetwork : ∀ n, Object.network n ∉ rest) (hacl : Object.acl cfg.bridgeName ∉ rest)
    (hfree : nic = false ∨ ∀ i, Object.inst i ∉ rest) :
    Triple observe (Held base (.acl cfg.bridgeName :: .network cfg.bridgeName :: rest) attached nic)
      (dropIsolation cfg isolation) fun _ => Held base rest false nic := by
  refine triple_bind (triple_silent ?_) fun _ =>
    triple_dropBridgeGuard cfg.bridgeName cfg.keep hkeep hnetwork hacl hfree
  have hquiet : ∀ q, Emits (Silent observe) (quiet q) := fun q =>
    emits_call (silent_of_effect (by simp)) fun _ => emits_done ()
  exact emits_bind (hquiet _) fun _ => hquiet _

theorem triple_createInstance (cfg : LaunchConfig) :
    Triple observe (Held base [] false false) (createInstance cfg).run
      (Ends (Held base [.inst cfg.name] false false) (Held base [] false false)) := by
  refine ends_seq (ends_silent ?_) fun _ => triple_create rfl
  unfold ensureProject
  split
  · exact emits_done _
  · exact emits_request (silent_of_effect (by rintro _ ⟨⟩; rfl))

/-- Whatever fails while the instance is prepared, nothing is left of it. -/
theorem triple_init (hkeep : cfg.keep = false) (isFile : Bytes → Bool) (polls : Nat) :
    Triple observe (Held base [] false false) (init cfg isFile polls).run
      (Ends (Held base [.acl cfg.bridgeName, .network cfg.bridgeName, .inst cfg.name] true true)
        (Held base [] false false)) := by
  have hdropIsolation : ∀ isolation, Triple observe
      (Held base [.acl cfg.bridgeName, .network cfg.bridgeName, .inst cfg.name] true false)
      (dropIsolation cfg isolation) fun _ => Held base [.inst cfg.name] false false :=
    fun isolation => triple_dropIsolation hkeep isolation (by simp) (by simp) (Or.inl rfl)
  refine ends_seq (triple_createInstance cfg) fun _ => ends_guarded ?_
    (triple_dropInstance hkeep (by simp))
  have hdevices : Emits (Silent observe) (attachDevices cfg isFile).run :=
    (emits_attachDevices cfg isFile).mono fun c hc => silent_of_area (by simp [hc])
  refine triple_lift_seq (triple_both (triple_setup hkeep polls cfg.allow cfg.provider) hdevices)
    fun results => ?_
  obtain ⟨setupResult, devicesResult⟩ := results
  cases setupResult with
  | ok isolation =>
    refine ends_seq (ends_guarded (ends_ofResult devicesResult) (hdropIsolation isolation))
      fun _ => ?_
    simp only [ofResult_seq]
    refine ends_guarded ?_ (hdropIsolation isolation)
    exact ends_seq (triple_act rfl (fun w held => held.nicAdded (by simp)) fun w held =>
      held.failed (by simp)) fun _ => ends_pure _
  | error e =>
    exact ends_seq (ends_guarded (ends_ofResult devicesResult) (triple_done ())) fun _ =>
      ends_seq (ends_error e) fun _ => triple_absurd

theorem triple_dropState (hkeep : cfg.keep = false) (isolation : Isolation) :
    Triple observe
      (Held base [.acl cfg.bridgeName, .network cfg.bridgeName, .inst cfg.name] true true)
      (dropState cfg isolation) fun _ => Held base [] false true := by
  refine triple_bind (R := fun _ => Held base [.acl cfg.bridgeName, .network cfg.bridgeName]
    true true) ?_ fun _ => triple_dropIsolation hkeep isolation (by simp) (by simp) (by simp)
  exact triple_delete cfg.keep hkeep rfl (by simp) trivial fun p => by grind

/-- Without an instance of its own the run has no NIC. -/
theorem Held.unplugged (held : Held base mine attached nic w)
    (hnone : ∀ i, Object.inst i ∉ mine) : Held base mine attached false w where
  owned := held.owned
  kept := held.kept
  backed := by
    intro lawful
    have backed := held.backed lawful
    refine ⟨backed.present, backed.fresh, fun p hnic => ?_, backed.attached⟩
    exact (backed.nic p hnic).imp_right fun h => absurd h.2 (hnone p.1)

/-- Whatever fails and whenever the run ends, it holds nothing any more. -/
theorem triple_runInstance (hkeep : cfg.keep = false) (isFile : Bytes → Bool) (polls : Nat)
    (plan : Plan) :
    Triple observe (Held base [] false false) (runInstance cfg isFile polls plan).run
      (Ends (Held base [] false false) (Held base [] false false)) := by
  refine ends_seq (triple_init hkeep isFile polls) fun isolation => ?_
  have hdrop : Triple observe
      (Held base [.acl cfg.bridgeName, .network cfg.bridgeName, .inst cfg.name] true true)
      (dropState cfg isolation) fun _ => Held base [] false false :=
    (triple_dropState hkeep isolation).mono fun _ w held => held.unplugged (by simp)
  have hsession : Emits (Silent observe) (session cfg isolation plan).run :=
    (emits_session cfg isolation plan).mono fun c hc => silent_of_area (by simp [hc])
  have hstart : Emits (Silent observe) (start cfg isolation).run :=
    (emits_start cfg isolation).mono fun c hc =>
      silent_of_area (by rcases hc with h | h <;> simp [h])
  refine ends_seq (ends_guarded (ends_silent hstart) hdrop) fun _ => ?_
  exact ends_holding (ends_silent hsession) hdrop

end Phases

/-! ## Whole runs -/

theorem foldl_lawful (h : List (Event Reply)) (w : World) :
    (h.foldl observe w).lawful ↔ w.lawful ∧ Lawful w.host h := by
  induction h generalizing w with
  | nil => simp [Lawful]
  | cons e h ih =>
    rw [List.foldl_cons, ih]
    simp only [observe, Lawful, and_assoc]

theorem foldl_host (h : List (Event Reply)) (w : World) :
    (h.foldl observe w).host = h.foldl Host.next w.host := by
  induction h generalizing w with
  | nil => rfl
  | cons e h ih =>
    rw [List.foldl_cons, ih]
    rfl

theorem mem_newObjects (r : Option (Effect × Bool)) (o : Object) :
    o ∈ newObjects r ↔ r = some (.create o, true) := by
  unfold newObjects
  split
  · simp [eq_comm]
  · rename_i hother
    simp only [List.not_mem_nil, false_iff]
    exact hother o

theorem foldl_created (h : List (Event Reply)) (w : World) (o : Object) :
    o ∈ (h.foldl observe w).created ↔ o ∈ w.created ∨ Created h o := by
  induction h generalizing w with
  | nil => simp [Created]
  | cons e h ih =>
    rw [List.foldl_cons, ih]
    simp only [observe, List.mem_append, mem_newObjects, Created, List.exists_mem_cons_iff]
    tauto

theorem foldl_owned {h : List (Event Reply)} {w : World} (owned : (h.foldl observe w).owned) :
    w.owned := by
  induction h generalizing w with
  | nil => exact owned
  | cons e h ih => exact (ih owned).1

theorem held_start (host : Host) : Held host [] false false (.start host) where
  owned := trivial
  kept := by simp
  backed := fun _ =>
    ⟨by simp [World.start], by simp [World.start], fun _ => Or.inl, fun _ => Or.inl⟩

theorem outcome_act {e : Event Reply} {eff : Effect} {ok : Bool}
    (hout : outcome e = some (eff, ok)) : ∃ a, e.command = .act a ∧ effect a = some eff := by
  cases e with
  | issued c => cases hout
  | returned c reply =>
    cases c with
    | act a =>
      obtain ⟨found, heff, heq⟩ := Option.map_eq_some_iff.mp hout
      obtain ⟨rfl, _⟩ := Prod.mk.inj heq
      exact ⟨a, rfl, heff⟩
    | _ => cases hout

theorem deletes_area {e : Event Reply} {o : Object} (hdeletes : Deletes o e) :
    area e.command = .delete := by
  obtain ⟨a, hact, heff⟩ : ∃ a, e.command = .act a ∧ effect a = some (.delete o) := by
    rcases hdeletes with ⟨a, rfl, heff⟩ | hdone
    · exact ⟨a, rfl, heff⟩
    · exact outcome_act hdone
  rw [hact]
  cases a <;> first | rfl | cases heff

section Deletions
variable {cfg : LaunchConfig} {isFile : Bytes → Bool} {polls : Nat} {plan : Plan}
  {t : Task Reply (Except LaunchError Int)}

/-- A kept run deletes nothing. -/
theorem not_deletes {h : List (Event Reply)}
    (trace : Trace (runInstance cfg isFile polls plan).run h t) (hkeep : cfg.keep = true)
    {e : Event Reply} (he : e ∈ h) (o : Object) : ¬Deletes o e := by
  intro hdeletes
  obtain ⟨k, r, hrun⟩ := trace.extends goodReply
  rcases emits_runInstance cfg isFile polls plan _ r hrun e (by simp [he]) with harea | ⟨_, h⟩
  · simp [deletes_area hdeletes] at harea
  · rw [hkeep] at h
    cases h

/-- A run only deletes what it created before. -/
theorem deletes_created {before after : List (Event Reply)} {e : Event Reply}
    (trace : Trace (runInstance cfg isFile polls plan).run (before ++ e :: after) t) {o : Object}
    (hdeletes : Deletes o e) : Created before o := by
  have hkeep : cfg.keep = false := by
    by_contra hkeep
    exact not_deletes trace (by simpa using hkeep) (by simp) o hdeletes
  obtain ⟨k, r, hrun⟩ := trace.extends goodReply
  have held := triple_runInstance hkeep isFile polls plan _ _ r (held_start emptyHost) hrun
  rw [List.append_assoc, List.foldl_append, List.cons_append, List.foldl_cons] at held
  have owned := (foldl_owned ((ends_self r _).mp held).owned).2 o hdeletes
  have created := (foldl_created before (.start emptyHost) o).mp owned
  exact created.resolve_left (by simp [World.start])

end Deletions

/-- A kept run deletes nothing. A run that is not kept only deletes what it created
before, and once it has ended, by whichever path, nothing that it created is there. -/
theorem runInstance_teardown {cfg : LaunchConfig} {isFile : Bytes → Bool} {polls : Nat}
    {plan : Plan} {h : List (Event Reply)} {t : Task Reply (Except LaunchError Int)}
    (trace : Trace (runInstance cfg isFile polls plan).run h t) :
    (cfg.keep = true → ∀ e ∈ h, ∀ o, ¬AsksDelete o e) ∧
      (∀ before e after o, h = before ++ e :: after → AsksDelete o e → Created before o) ∧
      (cfg.keep = false → ∀ r, t = .done r → ∀ host, Lawful host h →
        ∀ o, Created h o → o ∉ (h.foldl Host.next host).objects) := by
  refine ⟨?_, ?_, ?_⟩
  · exact fun hkeep e he o hasks => not_deletes trace hkeep he o (Or.inl hasks)
  · rintro before e after o rfl hasks
    exact deletes_created trace (Or.inl hasks)
  · rintro hkeep r rfl host lawful o created
    have held := (ends_self r _).mp
      (triple_runInstance hkeep isFile polls plan (.start host) h r (held_start host) trace)
    have backed := held.backed ((foldl_lawful h _).mpr ⟨trivial, lawful⟩)
    have hhost : (h.foldl observe (.start host)).host = h.foldl Host.next host := foldl_host h _
    rw [← hhost, backed.present o]
    rintro (hbase | hmine)
    · exact backed.fresh o ((foldl_created h _ o).mpr (Or.inr created)) hbase
    · cases hmine

/-- Every command succeeds but the one that attaches the NIC. -/
def refusedReply : (c : Command) → Reply c
  | .act (.attachToBridge _ _ _ _) => .error (.io "no such device".toList)
  | c => goodReply c

def refusedRun : List (Event Reply) × Except LaunchError Int :=
  play refusedReply (runInstance workConfig (fun _ => false) 1 workPlan).run

theorem refusedRun_lawful : Lawful emptyHost refusedRun.1 := by decide

theorem refusedRun_created : Created refusedRun.1 (.network workConfig.bridgeName) := by decide

theorem runInstance_teardown_refused :
    .network workConfig.bridgeName ∉ (refusedRun.1.foldl Host.next emptyHost).objects := by
  have hrun : Runs (runInstance workConfig (fun _ => false) 1 workPlan).run refusedRun.1
      refusedRun.2 := runs_play refusedReply _
  exact (runInstance_teardown hrun).2.2 rfl _ rfl emptyHost refusedRun_lawful _ refusedRun_created

end Teardown
