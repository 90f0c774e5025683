import Celily.Configuration
import Celily.EnvironmentMaps

/-!
# Merging configurations

A configuration is its fields: the scalars, which the right side overwrites when it sets
them, the lists, which are appended, and the variables, which are overwritten one by
one. A fold of `merge` is read field by field, and chains may be merged in any grouping.
-/

namespace ConfigMerging

open RustText HostPaths NetworkRules ConfigRules Devices InstanceLifecycle Configuration
  EnvironmentMaps

/-! ## The fields -/

inductive ScalarField where
  | backendKind
  | backendProject
  | backendPool
  | image
  | kind
  | user
  | containerUid
  | containerGid
  | distro
  | securityNesting
  | secureBoot
  | cpu
  | memory
  | disk
  | processes
  | diskPriority
  | memoryEnforce
  | networkIngress
  | networkEgress
  | projectTarget
  | secretProvider
  | projectReadwrite
  | userName
  | userEmail
  | mountProject

def ScalarField.Value : ScalarField → Type
  | .backendKind => BackendKind
  | .kind => InstanceKind
  | .containerUid | .containerGid | .cpu | .diskPriority => UInt32
  | .distro => DistroKind
  | .securityNesting | .secureBoot | .projectReadwrite | .mountProject => Bool
  | .processes => Int
  | .secretProvider => Providers
  | _ => Text

def ScalarField.get (cfg : Config) : (field : ScalarField) → Option field.Value
  | .backendKind => cfg.backend.kind
  | .backendProject => cfg.backend.project
  | .backendPool => cfg.backend.pool
  | .image => cfg.image
  | .kind => cfg.kind
  | .user => cfg.user
  | .containerUid => cfg.containerUid
  | .containerGid => cfg.containerGid
  | .distro => cfg.distro
  | .securityNesting => cfg.securityNesting
  | .secureBoot => cfg.secureBoot
  | .cpu => cfg.limits.cpu
  | .memory => cfg.limits.memory
  | .disk => cfg.limits.disk
  | .processes => cfg.limits.processes
  | .diskPriority => cfg.limits.diskPriority
  | .memoryEnforce => cfg.limits.memoryEnforce
  | .networkIngress => cfg.limits.networkIngress
  | .networkEgress => cfg.limits.networkEgress
  | .projectTarget => cfg.projectTarget
  | .secretProvider => cfg.secretProvider
  | .projectReadwrite => cfg.projectReadwrite
  | .userName => cfg.worktree.userName
  | .userEmail => cfg.worktree.userEmail
  | .mountProject => cfg.mountProject

inductive ListField where
  | mounts
  | allowedDirs
  | allowedFiles
  | passEnv
  | networkAllow
  | preRun
  | proxy
  | volumes

def ListField.Value : ListField → Type
  | .mounts => Mount Bytes
  | .allowedDirs | .allowedFiles => Bytes
  | .passEnv | .preRun => Text
  | .networkAllow => ConfigNetworkRule
  | .proxy => ProxyDevice
  | .volumes => Volume

def ListField.get (cfg : Config) : (field : ListField) → List field.Value
  | .mounts => cfg.mounts
  | .allowedDirs => cfg.allowedDirs
  | .allowedFiles => cfg.allowedFiles
  | .passEnv => cfg.passEnv
  | .networkAllow => cfg.network.allow
  | .preRun => cfg.preRun
  | .proxy => cfg.proxy
  | .volumes => cfg.volumes

/-- The configuration with these fields. -/
def ofFields (scalar : (field : ScalarField) → Option field.Value)
    (list : (field : ListField) → List field.Value) (env : List (Text × Text)) : Config where
  backend := ⟨scalar .backendKind, scalar .backendProject, scalar .backendPool⟩
  image := scalar .image
  kind := scalar .kind
  user := scalar .user
  containerUid := scalar .containerUid
  containerGid := scalar .containerGid
  distro := scalar .distro
  securityNesting := scalar .securityNesting
  secureBoot := scalar .secureBoot
  limits := ⟨scalar .cpu, scalar .memory, scalar .disk, scalar .processes,
    scalar .diskPriority, scalar .memoryEnforce, scalar .networkIngress, scalar .networkEgress⟩
  mounts := list .mounts
  allowedDirs := list .allowedDirs
  allowedFiles := list .allowedFiles
  env := env
  projectTarget := scalar .projectTarget
  passEnv := list .passEnv
  secretProvider := scalar .secretProvider
  network := ⟨list .networkAllow⟩
  projectReadwrite := scalar .projectReadwrite
  worktree := ⟨scalar .userName, scalar .userEmail⟩
  mountProject := scalar .mountProject
  preRun := list .preRun
  proxy := list .proxy
  volumes := list .volumes

/-- No field is left out. -/
theorem ofFields_get (cfg : Config) :
    ofFields (ScalarField.get cfg) (ListField.get cfg) cfg.env = cfg := rfl

/-! ## One merge -/

theorem scalar_merge (a b : Config) (field : ScalarField) :
    field.get (a.merge b) = overwriteSome (field.get a) (field.get b) := by
  cases field <;> rfl

theorem list_merge (a b : Config) (field : ListField) :
    field.get (a.merge b) = field.get a ++ field.get b := by
  cases field <;> rfl

theorem env_merge (a : Config) {b : Config} (hmap : IsMap b.env) (key : Text) :
    (a.merge b).env.lookup key = (b.env.lookup key).or (a.env.lookup key) :=
  lookup_foldl_setEnv hmap a.env key

theorem isMap_merge {a : Config} (hmap : IsMap a.env) (b : Config) : IsMap (a.merge b).env :=
  isMap_foldl_setEnv hmap b.env

theorem overwriteSome_eq {α : Type} (left right : Option α) :
    overwriteSome left right = right.or left := by
  cases right <;> rfl

theorem scalar_default (field : ScalarField) : field.get Config.default = none := by
  cases field <;> rfl

theorem list_default (field : ListField) : field.get Config.default = [] := by
  cases field <;> rfl

/-! ## Folds -/

/-- The value of the last configuration that has one. -/
def lastSet {α : Type} (get : Config → Option α) (cfgs : List Config) : Option α :=
  cfgs.reverse.findSome? get

theorem lastSet_append {α : Type} (get : Config → Option α) (a b : List Config) :
    lastSet get (a ++ b) = (lastSet get b).or (lastSet get a) := by
  rw [lastSet, List.reverse_append, List.findSome?_append]
  rfl

theorem lastSet_singleton {α : Type} (get : Config → Option α) (cfg : Config) :
    lastSet get [cfg] = get cfg := by
  rw [lastSet, List.reverse_singleton, List.findSome?_singleton]

theorem lastSet_cons {α : Type} (get : Config → Option α) (cfg : Config) (cfgs : List Config) :
    lastSet get (cfg :: cfgs) = (lastSet get cfgs).or (get cfg) := by
  rw [← List.singleton_append, lastSet_append, lastSet_singleton]

/-- What one merge overwrites when the right side has it, a fold takes from the last. -/
theorem foldl_lastSet {α : Type} (get : Config → Option α) {cfgs : List Config}
    (hmerge : ∀ a, ∀ b ∈ cfgs, get (a.merge b) = (get b).or (get a)) (first : Config) :
    get (cfgs.foldl Config.merge first) = lastSet get (first :: cfgs) := by
  induction cfgs generalizing first with
  | nil => exact (lastSet_singleton get first).symm
  | cons cfg cfgs ih =>
    have hfirst := hmerge first cfg List.mem_cons_self
    rw [List.foldl_cons, ih fun a b hb => hmerge a b (List.mem_cons_of_mem cfg hb),
      lastSet_cons, lastSet_cons, lastSet_cons, hfirst, Option.or_assoc]

theorem foldl_scalar (field : ScalarField) (first : Config) (cfgs : List Config) :
    field.get (cfgs.foldl Config.merge first) = lastSet (fun cfg => field.get cfg)
      (first :: cfgs) :=
  foldl_lastSet (fun cfg => field.get cfg)
    (fun a b _ => (scalar_merge a b field).trans (overwriteSome_eq _ _)) first

theorem foldl_list (field : ListField) (first : Config) (cfgs : List Config) :
    field.get (cfgs.foldl Config.merge first) =
      (first :: cfgs).flatMap fun cfg => field.get cfg := by
  induction cfgs generalizing first with
  | nil => exact (List.append_nil _).symm
  | cons cfg cfgs ih =>
    rw [List.foldl_cons, ih, List.flatMap_cons, list_merge, List.append_assoc]
    rfl

theorem foldl_env {cfgs : List Config} (hmaps : ∀ cfg ∈ cfgs, IsMap cfg.env) (key : Text)
    (first : Config) :
    (cfgs.foldl Config.merge first).env.lookup key =
      lastSet (fun cfg => cfg.env.lookup key) (first :: cfgs) :=
  foldl_lastSet (fun cfg => cfg.env.lookup key)
    (fun a b hb => env_merge a (hmaps b hb) key) first

theorem isMap_foldl {first : Config} (hmap : IsMap first.env) (cfgs : List Config) :
    IsMap (cfgs.foldl Config.merge first).env := by
  induction cfgs generalizing first with
  | nil => exact hmap
  | cons cfg cfgs ih => exact ih (isMap_merge hmap cfg)

/-! ## Grouping -/

/-- The same configuration, up to the order of the variables. -/
structure Alike (a b : Config) : Prop where
  scalar : ∀ field : ScalarField, field.get a = field.get b
  list : ∀ field : ListField, field.get a = field.get b
  env : ∀ key, a.env.lookup key = b.env.lookup key

theorem merge_assoc (a : Config) {b c : Config} (hb : IsMap b.env) (hc : IsMap c.env) :
    Alike ((a.merge b).merge c) (a.merge (b.merge c)) := by
  refine ⟨fun field => ?_, fun field => ?_, fun key => ?_⟩
  · simp only [scalar_merge, overwriteSome_eq, Option.or_assoc]
  · simp only [list_merge, List.append_assoc]
  · rw [env_merge _ hc, env_merge _ hb, env_merge _ (isMap_merge hb c), env_merge _ hc,
      Option.or_assoc]

theorem default_merge {a : Config} (hmap : IsMap a.env) : Alike (Config.default.merge a) a := by
  refine ⟨fun field => ?_, fun field => ?_, fun key => ?_⟩
  · rw [scalar_merge, scalar_default, overwriteSome_eq, Option.or_none]
  · rw [list_merge, list_default, List.nil_append]
  · rw [env_merge _ hmap]
    exact Option.or_none

theorem merge_default (a : Config) : a.merge Config.default = a := by
  have hscalar : ScalarField.get (a.merge Config.default) = ScalarField.get a := by
    funext field
    rw [scalar_merge, scalar_default]
    rfl
  have hlist : ListField.get (a.merge Config.default) = ListField.get a := by
    funext field
    rw [list_merge, list_default, List.append_nil]
  rw [← ofFields_get (a.merge Config.default), hscalar, hlist]
  rfl

/-- A chain merged on its own and then over the rest. -/
theorem foldl_merge (first : Config) {cfgs : List Config} (hmaps : ∀ cfg ∈ cfgs, IsMap cfg.env) :
    Alike (cfgs.foldl Config.merge first)
      (first.merge (cfgs.foldl Config.merge Config.default)) := by
  refine ⟨fun field => ?_, fun field => ?_, fun key => ?_⟩
  · rw [scalar_merge, foldl_scalar, foldl_scalar, overwriteSome_eq, lastSet_cons, lastSet_cons,
      scalar_default, Option.or_none]
  · rw [list_merge, foldl_list, foldl_list, List.flatMap_cons, List.flatMap_cons, list_default,
      List.nil_append]
  · have hempty : Config.default.env.lookup key = none := rfl
    rw [env_merge _ (isMap_foldl isMap_nil cfgs), foldl_env hmaps, foldl_env hmaps, lastSet_cons,
      lastSet_cons, hempty, Option.or_none]

/-- Every field of a fold of merges; and merging is associative, with the default as its
unit, so that a chain may be merged beforehand. -/
theorem merge_fold (first : Config) (cfgs : List Config)
    (hmaps : ∀ cfg ∈ first :: cfgs, IsMap cfg.env) :
    (∀ field : ScalarField, field.get (cfgs.foldl Config.merge first) =
      lastSet (fun cfg => field.get cfg) (first :: cfgs)) ∧
    (∀ field : ListField, field.get (cfgs.foldl Config.merge first) =
      (first :: cfgs).flatMap fun cfg => field.get cfg) ∧
    (∀ key, (cfgs.foldl Config.merge first).env.lookup key =
      lastSet (fun cfg => cfg.env.lookup key) (first :: cfgs)) ∧
    Alike (cfgs.foldl Config.merge first)
      (first.merge (cfgs.foldl Config.merge Config.default)) ∧
    (∀ a b c : Config, IsMap a.env → IsMap b.env → IsMap c.env →
      IsMap (a.merge b).env ∧ Alike ((a.merge b).merge c) (a.merge (b.merge c))) ∧
    ∀ a : Config, IsMap a.env →
      Alike (Config.default.merge a) a ∧ a.merge Config.default = a := by
  have hrest : ∀ cfg ∈ cfgs, IsMap cfg.env := fun cfg hcfg =>
    hmaps cfg (List.mem_cons_of_mem first hcfg)
  refine ⟨fun field => foldl_scalar field first cfgs, fun field => foldl_list field first cfgs,
    fun key => foldl_env hrest key first, foldl_merge first hrest, ?_, ?_⟩
  · exact fun a b c ha hb hc => ⟨isMap_merge ha b, merge_assoc a hb hc⟩
  · exact fun a ha => ⟨default_merge ha, merge_default a⟩

/-- A profile that sets the editor over a default that sets the pager. -/
theorem merge_fold_editor :
    (([{ Config.default with env := [("EDITOR".toList, "vi".toList)] }].foldl Config.merge
      { Config.default with
        image := some "arch".toList
        env := [("EDITOR".toList, "ed".toList), ("PAGER".toList, "less".toList)] }).env.lookup
          "EDITOR".toList) = some "vi".toList := by
  obtain ⟨_, _, henv, _⟩ := merge_fold
    { Config.default with
      image := some "arch".toList
      env := [("EDITOR".toList, "ed".toList), ("PAGER".toList, "less".toList)] }
    [{ Config.default with env := [("EDITOR".toList, "vi".toList)] }]
    (by
      intro cfg hcfg
      rcases List.mem_pair.mp hcfg with rfl | rfl
      · exact (by decide : (["EDITOR".toList, "PAGER".toList] : List Text).Nodup)
      · exact (by decide : (["EDITOR".toList] : List Text).Nodup))
  rw [henv]
  rfl

end ConfigMerging
