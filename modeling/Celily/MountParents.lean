import Celily.LifecycleTraces
import Mathlib.Data.List.Dedup

/-!
# The owners of mount parents

LXD creates the directories on the way to a mount target as root, and `start` gives
those below the container home to the user. The walk up from a target ends at the next
target, but what lies between two targets is inside a mount: the directory of the host
that is mounted there changes its owner.
-/

namespace MountParents

open RustText HostPaths Devices JoinedTasks InstanceLifecycle LifecycleTraces

/-! ## The order of directories -/

/-- A strict ancestor. -/
def Below (up path : List Component) : Prop := up <+: path ∧ up ≠ path

instance (up path : List Component) : Decidable (Below up path) :=
  inferInstanceAs (Decidable (up <+: path ∧ up ≠ path))

theorem Below.mono {a b c : List Component} (hab : Below a b) (hbc : b <+: c) :
    Below a c := by
  refine ⟨hab.1.trans hbc, ?_⟩
  rintro rfl
  have hshort := hab.1.length_le
  have hlong := hbc.length_le
  exact hab.2 (hab.1.eq_of_length (by omega))

theorem Below.length_lt {a b : List Component} (hab : Below a b) : a.length < b.length := by
  have hle := hab.1.length_le
  by_contra hge
  exact hab.2 (hab.1.eq_of_length (by omega))

theorem below_iff_prefix_dropLast {a path : List Component} (hne : path ≠ []) :
    Below a path ↔ a <+: path.dropLast := by
  constructor
  · rintro ⟨⟨rest, rfl⟩, hstrict⟩
    have hrest : rest ≠ [] := by
      rintro rfl
      exact hstrict (List.append_nil a).symm
    rw [List.dropLast_append_of_ne_nil hrest]
    exact List.prefix_append a _
  · intro hstart
    refine ⟨hstart.trans (List.dropLast_prefix path), ?_⟩
    rintro rfl
    have hshort := hstart.length_le
    have hpos := List.length_pos_of_ne_nil hne
    rw [List.length_dropLast] at hshort
    omega

/-- Among the targets below a directory there is one that no other target separates from
it. -/
theorem exists_next {targets : List (List Component)} {dir : List Component}
    (hfree : dir ∉ targets) : ∀ {target}, target ∈ targets → Below dir target →
      ∃ next ∈ targets, Below dir next ∧ ∀ other ∈ targets, dir <+: other → ¬ Below other next := by
  intro target
  induction hlength : target.length using Nat.strong_induction_on generalizing target with
  | _ length ih =>
    intro htarget hbelow
    by_cases hnext : ∃ other ∈ targets, dir <+: other ∧ Below other target
    · obtain ⟨other, hother, hdir, hunder⟩ := hnext
      have hne : dir ≠ other := by
        rintro rfl
        exact hfree hother
      exact ih other.length (hlength ▸ hunder.length_lt) rfl hother ⟨hdir, hne⟩
    · refine ⟨target, htarget, hbelow, fun other hother hdir hunder => ?_⟩
      exact hnext ⟨other, hother, hdir, hunder⟩

/-! ## The walk -/

theorem parent_eq_none {path : List Component} (hroot : Component.root ∉ path.tail)
    (hnone : parent path = none) : path.length ≤ 1 := by
  rw [parent] at hnone
  split at hnone
  · rename_i hlast
    rw [List.getLast?_eq_none_iff.mp hlast]
    exact Nat.zero_le 1
  · rename_i hlast
    obtain ⟨front, rfl⟩ := List.getLast?_eq_some_iff.mp hlast
    cases front with
    | nil => exact Nat.le_refl 1
    | cons first front => exact absurd (List.mem_append_right front List.mem_cons_self) hroot
  · cases hnone

/-- The walk from a target visits the directories between it and the home, as long as no
target lies on the way. -/
theorem mem_holdersOf {home path dir : List Component} {targets : List (List Component)}
    (hroot : Component.root ∉ path.tail) :
    dir ∈ holdersOf home targets path ↔
      Below home dir ∧ Below dir path ∧
        ∀ target ∈ targets, dir <+: target → ¬ Below target path := by
  fun_induction holdersOf home targets path with
  | case1 path hnone =>
    refine iff_of_false List.not_mem_nil ?_
    rintro ⟨hhome, hdir, -⟩
    have hlength := parent_eq_none hroot hnone
    have := hhome.length_lt
    have := hdir.length_lt
    omega
  | case2 path up hup hstop =>
    obtain ⟨hne, rfl⟩ := parent_eq_some hup
    refine iff_of_false List.not_mem_nil ?_
    rintro ⟨hhome, hdir, hclear⟩
    have hstart := (below_iff_prefix_dropLast hne).mp hdir
    have hover := hhome.mono hstart
    rcases hstop with hstop | hstop | hstop
    · exact hover.2 hstop.symm
    · rw [startsWith, List.isPrefixOf_iff_prefix.mpr hover.1] at hstop
      cases hstop
    · exact hclear _ hstop hstart ((below_iff_prefix_dropLast hne).mpr List.prefix_rfl)
  | case3 path up hup hgo _ ih =>
    obtain ⟨hne, rfl⟩ := parent_eq_some hup
    have hup := (below_iff_prefix_dropLast hne).mpr List.prefix_rfl
    rw [not_or, not_or, Bool.not_eq_false] at hgo
    obtain ⟨hhome, hinside, hfree⟩ := hgo
    have hroot' : Component.root ∉ path.dropLast.tail := by
      intro hmem
      rw [List.tail_dropLast] at hmem
      exact hroot (List.mem_of_mem_dropLast hmem)
    rw [List.mem_cons, ih hroot']
    constructor
    · rintro (rfl | ⟨habove, hdir, hclear⟩)
      · refine ⟨⟨List.isPrefixOf_iff_prefix.mp hinside, Ne.symm hhome⟩, hup, ?_⟩
        intro target htarget hdir hunder
        have hlong := hdir.length_le
        have hshort := ((below_iff_prefix_dropLast hne).mp hunder).length_le
        have heq := hdir.eq_of_length (by omega)
        exact hfree (heq ▸ htarget)
      · refine ⟨habove, hdir.mono (List.dropLast_prefix path), ?_⟩
        intro target htarget hover hunder
        refine hclear target htarget hover ⟨(below_iff_prefix_dropLast hne).mp hunder, ?_⟩
        rintro rfl
        exact hfree htarget
    · rintro ⟨habove, hdir, hclear⟩
      by_cases heq : dir = path.dropLast
      · exact Or.inl heq
      · refine Or.inr ⟨habove, ⟨(below_iff_prefix_dropLast hne).mp hdir, heq⟩, ?_⟩
        intro target htarget hover hunder
        exact hclear target htarget hover (hunder.mono (List.dropLast_prefix path))

/-! ## The directories of a run -/

def targetsOf (cfg : LaunchConfig) : List (List Component) :=
  cfg.mounts.map fun mount => components mount.target

/-- A directory below the home that only holds mount targets, in no mount itself. -/
structure Holder (cfg : LaunchConfig) (dir : List Component) : Prop where
  inside : Below (components cfg.containerHome) dir
  holds : ∃ target ∈ targetsOf cfg, Below dir target
  outside : ∀ target ∈ targetsOf cfg, ¬ target <+: dir

/-- A directory of one mount, on the way to the target of another. -/
structure Between (cfg : LaunchConfig) (dir : List Component) : Prop where
  inside : Below (components cfg.containerHome) dir
  free : dir ∉ targetsOf cfg
  outer : ∃ target ∈ targetsOf cfg, Below target dir
  inner : ∃ target ∈ targetsOf cfg, Below dir target

theorem mem_mountParents_iff (cfg : LaunchConfig) (dir : List Component) :
    dir ∈ mountParents cfg ↔ Holder cfg dir ∨ Between cfg dir := by
  have hwalk : dir ∈ mountParents cfg ↔ ∃ target ∈ targetsOf cfg,
      dir ∈ holdersOf (components cfg.containerHome) (targetsOf cfg) target := by
    rw [mountParents, List.mem_mergeSort, List.mem_dedup, List.mem_flatMap]
    rfl
  have hroots : ∀ target ∈ targetsOf cfg, Component.root ∉ target.tail := by
    intro target htarget
    obtain ⟨mount, _, rfl⟩ := List.mem_map.mp htarget
    exact root_notMem_tail mount.target
  rw [hwalk]
  constructor
  · rintro ⟨target, htarget, hdir⟩
    obtain ⟨hinside, hbelow, hclear⟩ := (mem_holdersOf (hroots target htarget)).mp hdir
    have hfree : dir ∉ targetsOf cfg := fun hmem => hclear dir hmem List.prefix_rfl hbelow
    by_cases houter : ∃ outer ∈ targetsOf cfg, outer <+: dir
    · obtain ⟨outer, hmem, hover⟩ := houter
      have hne : outer ≠ dir := by
        rintro rfl
        exact hfree hmem
      exact Or.inr ⟨hinside, hfree, ⟨outer, hmem, hover, hne⟩, ⟨target, htarget, hbelow⟩⟩
    · refine Or.inl ⟨hinside, ⟨target, htarget, hbelow⟩, fun outer hmem hover => ?_⟩
      exact houter ⟨outer, hmem, hover⟩
  · intro hdir
    have hreached : Below (components cfg.containerHome) dir ∧ dir ∉ targetsOf cfg ∧
        ∃ target ∈ targetsOf cfg, Below dir target := by
      rcases hdir with hholder | hbetween
      · exact ⟨hholder.inside, fun hmem => hholder.outside dir hmem List.prefix_rfl, hholder.holds⟩
      · exact ⟨hbetween.inside, hbetween.free, hbetween.inner⟩
    obtain ⟨hinside, hfree, target, htarget, hbelow⟩ := hreached
    obtain ⟨next, hnext, hunder, hclear⟩ := exists_next hfree htarget hbelow
    exact ⟨next, hnext, (mem_holdersOf (hroots next hnext)).mpr ⟨hinside, hunder, hclear⟩⟩

/-! ## The commands of a run -/

/-- The path that a `chown` is given. -/
def chownedPath : Event Reply → Option Bytes
  | .issued (.ask (.execStdout _ [command, _, path])) =>
    if command = "chown".toList then some (utf8 path) else none
  | _ => none

def chowned (h : List (Event Reply)) : List Bytes := h.filterMap chownedPath

/-- A path as a message or a command line shows it. -/
def shown (dir : List Component) : Bytes := utf8 (fromUtf8Lossy (ofComponents dir))

theorem chowned_append (h k : List (Event Reply)) : chowned (h ++ k) = chowned h ++ chowned k :=
  List.filterMap_append

theorem chowned_waitRunning {name : Text} {attempts : Nat} {h : List (Event Reply)} {ready : Bool}
    (hrun : Runs (waitRunning name attempts) h ready) : chowned h = [] := by
  induction attempts generalizing h with
  | zero =>
    rw [(runs_done.mp hrun).1]
    rfl
  | succ attempts ih =>
    obtain ⟨reply, k, rfl, hrest⟩ := runs_call.mp hrun
    have hrest' : chowned k = [] := by
      split at hrest
      · rw [(runs_done.mp hrest).1]
        rfl
      · exact ih hrest
    exact hrest'

theorem chowned_each {cfg : LaunchConfig} {dirs : List (List Component)} {h : List (Event Reply)}
    (hrun : Runs (each (chown cfg) dirs).run h (.ok ())) : chowned h = dirs.map shown := by
  induction dirs generalizing h with
  | nil =>
    rw [(runs_pure.mp hrun).1]
    rfl
  | cons dir dirs ih =>
    obtain ⟨_, h₁, h₂, rfl, hchown, hrest⟩ := runs_seq_ok.mp hrun
    obtain ⟨out, h₃, h₄, rfl, hask, hdone⟩ := runs_seq_ok.mp hchown
    rw [runs_ask_ok hask, (runs_pure.mp hdone).1, chowned_append, ih hrest, List.map_cons]
    rfl

/-- A start that succeeds has issued one `chown` for each mount parent. -/
theorem chowned_start {cfg : LaunchConfig} {isolation : Isolation} {h : List (Event Reply)}
    (hrun : Runs (start cfg isolation).run h (.ok ())) :
    chowned h = (mountParents cfg).map shown := by
  obtain ⟨_, h₁, h₂, rfl, hstart, hrun⟩ := runs_seq_ok.mp hrun
  obtain ⟨ready, h₃, h₄, rfl, hwait, hrun⟩ := runs_lift_seq.mp hrun
  rw [runs_act_ok hstart, chowned_append, chowned_append, chowned_waitRunning hwait]
  cases ready with
  | false => cases (runs_throw.mp hrun).2
  | true =>
    obtain ⟨_, h₅, h₆, rfl, hcert, hrun⟩ := runs_seq_ok.mp hrun
    obtain ⟨out, h₇, h₈, rfl, hstore, hrun⟩ := runs_seq_ok.mp hrun
    rw [runs_act_ok hcert, runs_ask_ok hstore, chowned_append, chowned_append, chowned_each hrun]
    rfl

theorem succeeds_seq {α β : Type} {x : Launch α} {f : α → Launch β} {a : α} {b : β}
    (hx : ∃ h, Runs x.run h (.ok a)) (hf : ∃ h, Runs (f a).run h (.ok b)) :
    ∃ h, Runs (x >>= f).run h (.ok b) := by
  obtain ⟨h₁, hx⟩ := hx
  obtain ⟨h₂, hf⟩ := hf
  exact ⟨h₁ ++ h₂, runs_seq_ok.mpr ⟨a, h₁, h₂, rfl, hx, hf⟩⟩

theorem act_succeeds (context : CommandError → LaunchError) (a : Act) :
    ∃ h, Runs (act context a).run h (.ok ()) :=
  ⟨_, runs_act.mpr ⟨.ok (), rfl, rfl⟩⟩

theorem ask_succeeds (context : CommandError → LaunchError) (q : Query) :
    ∃ h, Runs (ask context q).run h (.ok []) :=
  ⟨_, runs_request.mpr ⟨(.ok [] : Except CommandError Text), rfl, rfl⟩⟩

theorem each_chown_succeeds (cfg : LaunchConfig) (dirs : List (List Component)) :
    ∃ h, Runs (each (chown cfg) dirs).run h (.ok ()) := by
  induction dirs with
  | nil => exact ⟨[], runs_pure.mpr ⟨rfl, rfl⟩⟩
  | cons dir dirs ih =>
    have hchown : ∃ h, Runs (chown cfg dir).run h (.ok ()) :=
      succeeds_seq (ask_succeeds _ _) ⟨[], runs_pure.mpr ⟨rfl, rfl⟩⟩
    exact succeeds_seq hchown ih

/-- Every start can succeed. -/
theorem start_succeeds (cfg : LaunchConfig) (isolation : Isolation) :
    ∃ h, Runs (start cfg isolation).run h (.ok ()) := by
  have hwait : ∃ h, Runs (waitRunning cfg.name 60) h true :=
    ⟨_, runs_call.mpr ⟨(.ok "running".toList : Except CommandError Text), [], rfl,
      runs_done.mpr ⟨rfl, rfl⟩⟩⟩
  have hready : ∃ h,
      Runs (ExceptT.lift (waitRunning cfg.name 60) : Launch Bool).run h (.ok true) := by
    obtain ⟨h, hwait⟩ := hwait
    exact ⟨h, runs_lift.mpr ⟨true, rfl, hwait⟩⟩
  refine succeeds_seq (act_succeeds _ _) (succeeds_seq hready ?_)
  exact succeeds_seq (act_succeeds _ _) (succeeds_seq (ask_succeeds _ _)
    (each_chown_succeeds cfg (mountParents cfg)))

/-- What a start must give to the user, and no more. -/
def ChownsHolders (cfg : LaunchConfig) (isolation : Isolation) : Prop :=
  ∀ h, Runs (start cfg isolation).run h (.ok ()) →
    ∀ path, path ∈ chowned h ↔ ∃ dir, Holder cfg dir ∧ ofComponents dir = path

theorem Holder.components {cfg : LaunchConfig} {dir : List Component} (hdir : Holder cfg dir) :
    components (ofComponents dir) = dir := by
  obtain ⟨target, htarget, hbelow⟩ := hdir.holds
  obtain ⟨mount, _, rfl⟩ := List.mem_map.mp htarget
  exact components_ofComponents hbelow.1

theorem Between.components {cfg : LaunchConfig} {dir : List Component} (hdir : Between cfg dir) :
    components (ofComponents dir) = dir := by
  obtain ⟨target, htarget, hbelow⟩ := hdir.inner
  obtain ⟨mount, _, rfl⟩ := List.mem_map.mp htarget
  exact components_ofComponents hbelow.1

theorem shown_text {dir : List Component} {text : Text} (htext : utf8 text = ofComponents dir) :
    shown dir = ofComponents dir := by
  rw [shown, ← htext, fromUtf8Lossy_utf8]

/-- Only the loss of bytes in its command could hide a directory between two targets. -/
theorem between_of_chownsHolders {cfg : LaunchConfig} {isolation : Isolation}
    {dir : List Component} (hchowns : ChownsHolders cfg isolation) (hdir : Between cfg dir) :
    (∀ text, utf8 text ≠ ofComponents dir) ∧
      ∃ holder, Holder cfg holder ∧ shown dir = ofComponents holder := by
  obtain ⟨h, hrun⟩ := start_succeeds cfg isolation
  have hpaths := hchowns h hrun
  rw [chowned_start hrun] at hpaths
  have hmem := (mem_mountParents_iff cfg dir).mpr (Or.inr hdir)
  obtain ⟨holder, hholder, heq⟩ := (hpaths _).mp (List.mem_map_of_mem hmem)
  refine ⟨fun text htext => ?_, holder, hholder, heq.symm⟩
  have hsame : holder = dir := by
    rw [← hholder.components, heq, shown_text htext, hdir.components]
  obtain ⟨outer, houter, hover, _⟩ := hdir.outer
  exact hholder.outside outer houter (hsame ▸ hover)

/-- A start gives exactly the holders of mount targets to the user if and only if their
paths are text, and what lies between two targets is no text and shown as one of them. -/
theorem chownsHolders_iff (cfg : LaunchConfig) (isolation : Isolation) :
    ChownsHolders cfg isolation ↔
      (∀ dir, Holder cfg dir → ∃ text, utf8 text = ofComponents dir) ∧
      ∀ dir, Between cfg dir → (∀ text, utf8 text ≠ ofComponents dir) ∧
        ∃ holder, Holder cfg holder ∧ shown dir = ofComponents holder := by
  constructor
  · intro hchowns
    refine ⟨fun dir hdir => ?_, fun dir hdir => between_of_chownsHolders hchowns hdir⟩
    obtain ⟨h, hrun⟩ := start_succeeds cfg isolation
    have hmem := (hchowns h hrun _).mpr ⟨dir, hdir, rfl⟩
    rw [chowned_start hrun] at hmem
    obtain ⟨other, _, hshown⟩ := List.mem_map.mp hmem
    exact ⟨_, hshown⟩
  · rintro ⟨htext, hbetween⟩ h hrun path
    rw [chowned_start hrun]
    constructor
    · intro hmem
      obtain ⟨dir, hdir, rfl⟩ := List.mem_map.mp hmem
      rcases (mem_mountParents_iff cfg dir).mp hdir with hholder | hother
      · obtain ⟨text, heq⟩ := htext dir hholder
        exact ⟨dir, hholder, (shown_text heq).symm⟩
      · obtain ⟨_, holder, hholder, heq⟩ := hbetween dir hother
        exact ⟨holder, hholder, heq.symm⟩
    · rintro ⟨dir, hdir, rfl⟩
      obtain ⟨text, heq⟩ := htext dir hdir
      rw [← shown_text heq]
      exact List.mem_map_of_mem ((mem_mountParents_iff cfg dir).mpr (Or.inl hdir))

def nestedLaunch : LaunchConfig where
  project := none
  image := "arch".toList
  name := "work".toList
  bridgeName := "celily0".toList
  kind := .container
  mounts := [⟨utf8 "/srv/work".toList, utf8 "/home/dev/work".toList, .readWrite⟩,
    ⟨utf8 "/srv/lib".toList, utf8 "/home/dev/work/vendor/lib".toList, .readOnly⟩]
  extraDevices := []
  containerUid := 1000
  containerGid := 1000
  execUid := 1000
  execGid := 1000
  containerHome := utf8 "/home/dev".toList
  rawIdmap := none
  securityNesting := false
  secureBoot := true
  ephemeral := true
  keep := false
  description := []
  limits := ⟨2, "4GiB".toList, "20GiB".toList, 500, none, none, none, none⟩
  allow := []
  provider := false

def nestedIsolation : Isolation where
  subnet := ⟨⟨0x0a000001⟩, 16, by decide⟩
  caDir := []
  caCert := []

/-- The directory `vendor` of the first mount, which holds the target of the second one,
goes to the user of the instance. -/
theorem nested_not_chownsHolders : ¬ ChownsHolders nestedLaunch nestedIsolation := by
  intro hchowns
  have htargets : targetsOf nestedLaunch = [components (utf8 "/home/dev/work".toList),
      components (utf8 "/home/dev/work/vendor/lib".toList)] := rfl
  have hbetween : Between nestedLaunch (components (utf8 "/home/dev/work/vendor".toList)) := by
    refine ⟨?_, ?_, ⟨components (utf8 "/home/dev/work".toList), ?_, ?_⟩,
      ⟨components (utf8 "/home/dev/work/vendor/lib".toList), ?_, ?_⟩⟩
    · change Below (components (utf8 "/home/dev".toList)) _
      decide
    · rw [htargets]
      decide
    · rw [htargets]
      decide
    · decide
    · rw [htargets]
      decide
    · decide
  refine (between_of_chownsHolders hchowns hbetween).1 "/home/dev/work/vendor".toList ?_
  decide

end MountParents
