import Celily.RegisterErrors
import Celily.ScriptPools
import Mathlib.Data.List.Pairwise

/-!
# Sessions beside each other on one repository

Any number of worktree sessions on one repository, each killed at any moment or failing
at a write. A remote of the user is what it was, and so is every other section. What a
killed session has left, the next one of that name replaces. Of the runs that register
one name at once, the remote of one that reports success is complete.
-/

namespace RemoteHistories

open RustText AtomicScripts GitConfig GitRemote RegisterErrors ScriptPools

/-- The commands of a worktree session on the repository, around its run in the instance. -/
def session (remote : SandboxRemote) : GitScript (Except RegisterError Unit) :=
  remote.register.andThen (fun _ => remote.unregister.bind (fun _ => .done (.ok ())))

/-- The commands that a session of the remote may issue. -/
inductive Own (remote : SandboxRemote) : GitCommand → Prop where
  | get (name : Text) : Own remote (.get remote.sectionName name)
  | remove : Own remote (.removeSection remote.sectionName)
  | set {setting : Text × Text} :
      setting ∈ remote.settings → Own remote (.set remote.sectionName setting.1 setting.2)

def Writes (command : GitCommand) : Prop :=
  ∀ sectionName name, command ≠ .get sectionName name

/-- The url is that of a remote of the user. -/
def Refuses (config : RepoConfig) (sectionName : Text) : Prop :=
  ∃ existing, configured config sectionName "url".toList = some existing ∧ isExt existing = false

/-- A sandbox remote may be written here. Variables with several values are not
overwritten, but gone once the section of an earlier sandbox remote is. -/
structure Ready (config : RepoConfig) (sectionName : Text) : Prop where
  ext : ∀ existing, configured config sectionName "url".toList = some existing →
    isExt existing = true
  short : configured config sectionName "url".toList = none →
    ∀ name, (variablesOf config sectionName name).length ≤ 1

/-! ## One command -/

theorem only_writeAll {remote : SandboxRemote} {settings : List (Text × Text)}
    (hsettings : ∀ setting ∈ settings, setting ∈ remote.settings) :
    (writeAll RegisterError.git remote.sectionName settings).Only (Own remote) := by
  induction settings with
  | nil => trivial
  | cons setting settings ih =>
    rw [writeAll_cons]
    refine ⟨.set (hsettings setting List.mem_cons_self), fun reply => ?_⟩
    beta_reduce
    split
    · exact ih fun other hother => hsettings other (List.mem_cons_of_mem setting hother)
    · trivial

theorem only_register (remote : SandboxRemote) : remote.register.Only (Own remote) := by
  have hwrites : (writeAll RegisterError.git remote.sectionName remote.settings).Only
      (Own remote) := only_writeAll fun _ hmem => hmem
  refine ⟨.get _, fun reply => ?_⟩
  change (remote.registerOver (reply.bind nonEmpty)).Only (Own remote)
  cases reply.bind nonEmpty with
  | none => exact hwrites
  | some existing =>
    rw [SandboxRemote.registerOver]
    split
    · exact only_andThen ⟨.remove, fun _ => trivial⟩ fun _ => hwrites
    · trivial

theorem only_session (remote : SandboxRemote) : (session remote).Only (Own remote) := by
  refine only_andThen (only_register remote) fun _ => only_bind ⟨.get _, fun reply => ?_⟩ ?_
  · change (remote.unregisterIf (reply.bind nonEmpty)).Only (Own remote)
    rw [SandboxRemote.unregisterIf]
    split
    · exact ⟨.remove, fun _ => trivial⟩
    · trivial
  · exact fun _ => trivial

theorem written_elsewhere {sectionName other : Text} (hother : other ≠ sectionName)
    (config : RepoConfig) (settings : List (Text × Text)) :
    written sectionName config settings other = config other := by
  induction settings generalizing config with
  | nil => rfl
  | cons setting settings ih =>
    rw [written_cons, ih, Function.update_of_ne hother]

/-- A write is made, or refused because the variable has several values. -/
theorem execute_set_cases (sectionName name value : Text) (config : RepoConfig) :
    ((variablesOf config sectionName (foldName name)).length ≤ 1 ∧
      execute (.set sectionName name value) config =
        (some [], written sectionName config [(name, value)])) ∨
    (1 < (variablesOf config sectionName (foldName name)).length ∧
      execute (.set sectionName name value) config = (none, config)) := by
  by_cases hshort : (variablesOf config sectionName (foldName name)).length ≤ 1
  · exact Or.inl ⟨hshort, by simp only [execute, if_pos hshort]; rfl⟩
  · exact Or.inr ⟨by omega, by simp only [execute, if_neg hshort]⟩

theorem execute_remove_cases (sectionName : Text) (config : RepoConfig) :
    ((config sectionName).isSome = true ∧ execute (.removeSection sectionName) config =
      (some [], Function.update config sectionName none)) ∨
    (config sectionName = none ∧
      execute (.removeSection sectionName) config = (none, config)) := by
  cases hsection : config sectionName with
  | none => exact Or.inr ⟨rfl, by simp only [execute, hsection]⟩
  | some vars => exact Or.inl ⟨rfl, by simp only [execute, hsection]⟩

theorem execute_elsewhere {remote : SandboxRemote} {command : GitCommand}
    (hown : Own remote command) {other : Text} (hother : other ≠ remote.sectionName)
    (config : RepoConfig) : (execute command config).2 other = config other := by
  cases hown with
  | get name => rfl
  | remove =>
    rcases execute_remove_cases remote.sectionName config with ⟨_, hrun⟩ | ⟨_, hrun⟩
    · rw [hrun]
      exact Function.update_of_ne hother _ _
    · rw [hrun]
  | @set setting _ =>
    rcases execute_set_cases remote.sectionName setting.1 setting.2 config with
      ⟨_, hrun⟩ | ⟨_, hrun⟩
    · rw [hrun]
      exact written_elsewhere hother _ _
    · rw [hrun]

/-! ## The remotes of the user -/

theorem session_refused {remote : SandboxRemote} {config : RepoConfig}
    (hrefuses : Refuses config remote.sectionName) {command : GitCommand}
    {next : Option Text → GitScript (Except RegisterError Unit)}
    (hsession : session remote = .run command next) :
    (∃ name, command = .get remote.sectionName name) ∧
      ∃ error, next (execute command config).1 = .done (.error error) := by
  obtain ⟨existing, hurl, hother⟩ := hrefuses
  obtain ⟨rfl, hnext⟩ := Script.run.inj hsession
  refine ⟨⟨_, rfl⟩, .notSandbox (notSandboxMessage remote.name existing), ?_⟩
  have hread : ((execute (.get remote.sectionName "url".toList) config).1).bind nonEmpty =
      some existing := hurl
  rw [← hnext]
  change ((remote.registerOver _).bind _) = _
  rw [hread, SandboxRemote.registerOver, if_neg (by rw [hother]; decide)]
  rfl

/-- No number of sessions, killed or failing where they write, changes a section that is
not a sandbox remote of one of them. -/
theorem others_kept {ι : Type} [DecidableEq ι] {remotes : ι → SandboxRemote}
    {config final : RepoConfig} {pool : Pool ι GitCommand (Option Text) (Except RegisterError Unit)}
    (hturns : Turns execute none Writes (fun i => session (remotes i)) config pool final)
    {sectionName : Text}
    (huser : ∀ i, (remotes i).sectionName = sectionName → Refuses config sectionName) :
    final sectionName = config sectionName := by
  refine (hturns.keeps_each (fun now => now sectionName = config sectionName)
    (fun i script => script.Only (Own (remotes i)) ∧
      ((remotes i).sectionName = sectionName →
        script = session (remotes i) ∨ ∃ error, script = .done (.error error))) ?_ ?_ rfl
    (fun i => ⟨only_session _, fun _ => Or.inl rfl⟩)).1
  · rintro i command next now hnow ⟨honly, hphase⟩
    by_cases hsection : (remotes i).sectionName = sectionName
    · rcases hphase hsection with hsession | ⟨error, hdone⟩
      · have hrefuses : Refuses now (remotes i).sectionName := by
          obtain ⟨existing, hurl, hother⟩ := huser i hsection
          refine ⟨existing, ?_, hother⟩
          rw [configured, variablesOf, hsection, hnow]
          exact hurl
        obtain ⟨⟨name, rfl⟩, herror⟩ := session_refused hrefuses hsession.symm
        exact ⟨hnow, honly.2 _, fun _ => Or.inr herror⟩
      · cases hdone
    · refine ⟨?_, honly.2 _, fun h => absurd h hsection⟩
      rw [execute_elsewhere honly.1 (Ne.symm hsection)]
      exact hnow
  · rintro i command next hwrites ⟨honly, hphase⟩
    refine ⟨honly.2 _, fun hsection => ?_⟩
    rcases hphase hsection with hsession | ⟨error, hdone⟩
    · obtain ⟨rfl, _⟩ := Script.run.inj hsession
      exact absurd rfl (hwrites _ _)
    · cases hdone

def other : SandboxRemote := ⟨"celily/other".toList, "ext::lxc exec second".toList, by decide⟩

def pair (a b : SandboxRemote) : Bool → SandboxRemote
  | false => a
  | true => b

/-- The user has a remote of the name of the first session. -/
def usersConfig : RepoConfig :=
  written sandbox.sectionName noRemotes [("url".toList, "/elsewhere".toList)]

/-- The second session writes its url and is killed. -/
theorem others_kept_killed : ∃ pool final,
    Turns execute none Writes (fun i => session (pair sandbox other i)) usersConfig pool final ∧
      configured final other.sectionName "url".toList = some other.url ∧
      final sandbox.sectionName = usersConfig sandbox.sectionName := by
  have hturns := turns_takeTurns execute none Writes
    [false, true, true] (fun i => session (pair sandbox other i)) usersConfig
  refine ⟨_, _, hturns, by decide +kernel, others_kept hturns fun _ _ => ?_⟩
  exact ⟨"/elsewhere".toList, by decide +kernel, by decide⟩

/-! ## What a killed session leaves -/

theorem configured_congr {config config' : RepoConfig} {sectionName : Text}
    (hsame : config sectionName = config' sectionName) (name : Text) :
    configured config sectionName name = configured config' sectionName name := by
  rw [configured, configured, variablesOf, variablesOf, hsame]

theorem ready_congr {config config' : RepoConfig} {sectionName : Text}
    (hsame : config sectionName = config' sectionName) (hready : Ready config sectionName) :
    Ready config' sectionName := by
  have hvars : variablesOf config' sectionName = variablesOf config sectionName := by
    rw [variablesOf, variablesOf, hsame]
  constructor
  · rw [← configured_congr hsame]
    exact hready.ext
  · rw [← configured_congr hsame, hvars]
    exact hready.short

theorem variablesOf_removed (config : RepoConfig) (sectionName name : Text) :
    variablesOf (Function.update config sectionName none) sectionName name = [] := by
  simp [variablesOf]

theorem ready_removed (config : RepoConfig) (sectionName : Text) :
    Ready (Function.update config sectionName none) sectionName := by
  constructor
  · intro existing hurl
    rw [configured_removed] at hurl
    cases hurl
  · intro _ name
    rw [variablesOf_removed]
    exact Nat.zero_le 1

theorem length_put {vars : Variables} (hshort : ∀ name, (vars name).length ≤ 1)
    (name value other : Text) : ((vars.put name value) other).length ≤ 1 := by
  by_cases hother : other = foldName name
  · rw [hother, Variables.put, Function.update_self]
    exact Nat.le_refl 1
  · rw [Variables.put, Function.update_of_ne hother]
    exact hshort other

theorem variablesOf_written (sectionName : Text) (config : RepoConfig) (setting : Text × Text) :
    variablesOf (written sectionName config [setting]) sectionName =
      (variablesOf config sectionName).put setting.1 setting.2 :=
  variablesOf_update _ _ _

theorem configured_url (config : RepoConfig) (remote : SandboxRemote) :
    configured (written remote.sectionName config [("url".toList, remote.url)])
      remote.sectionName "url".toList = some (trim remote.url) := by
  rw [configured, variablesOf_written, last_put_same, Option.bind_some, nonEmpty_ext remote.url_ext]

theorem configured_protection {remote : SandboxRemote} {setting : Text × Text}
    (hmem : setting ∈ remote.protections) (config : RepoConfig) :
    configured (written remote.sectionName config [setting]) remote.sectionName "url".toList =
      configured config remote.sectionName "url".toList := by
  rw [configured, variablesOf_written, last_put_other (url_distinct remote setting hmem),
    configured]

theorem ready_written {remote : SandboxRemote} {config : RepoConfig} {setting : Text × Text}
    (hmem : setting ∈ remote.settings) (hready : Ready config remote.sectionName) :
    Ready (written remote.sectionName config [setting]) remote.sectionName := by
  rcases List.mem_cons.mp hmem with rfl | hmem
  · constructor
    · intro existing hurl
      rw [configured_url] at hurl
      obtain rfl := Option.some.inj hurl
      exact isExt_trim remote.url_ext
    · intro hunset
      rw [configured_url] at hunset
      cases hunset
  · constructor
    · rw [configured_protection hmem]
      exact hready.ext
    · rw [configured_protection hmem, variablesOf_written]
      exact fun hunset => length_put (hready.short hunset) _ _

theorem ready_execute {remote : SandboxRemote} {command : GitCommand} (hown : Own remote command)
    {config : RepoConfig} {sectionName : Text} (hready : Ready config sectionName) :
    Ready (execute command config).2 sectionName := by
  by_cases hsection : sectionName = remote.sectionName
  · subst hsection
    cases hown with
    | get name => exact hready
    | remove =>
      rcases execute_remove_cases remote.sectionName config with ⟨_, hrun⟩ | ⟨_, hrun⟩
      · rw [hrun]
        exact ready_removed config _
      · rw [hrun]
        exact hready
    | @set setting hmem =>
      rcases execute_set_cases remote.sectionName setting.1 setting.2 config with
        ⟨_, hrun⟩ | ⟨_, hrun⟩
      · rw [hrun]
        exact ready_written hmem hready
      · rw [hrun]
        exact hready
  · exact ready_congr (execute_elsewhere hown hsection config).symm hready

theorem writesFrom_ready {remote : SandboxRemote} {config : RepoConfig}
    (hready : Ready config remote.sectionName) :
    ∃ base, writesFrom remote [] config = some (base, []) ∧
      (∀ name, (variablesOf base remote.sectionName name).length ≤ 1) ∧
      ∀ other, other ≠ remote.sectionName → base other = config other := by
  rw [writesFrom, if_neg (by decide)]
  cases hurl : configured config remote.sectionName "url".toList with
  | none => exact ⟨config, rfl, hready.short hurl, fun _ _ => rfl⟩
  | some existing =>
    refine ⟨Function.update config remote.sectionName none,
      if_pos ⟨hready.ext existing hurl, by decide⟩, ?_, fun other hother => ?_⟩
    · intro name
      rw [variablesOf_removed]
      exact Nat.zero_le 1
    · exact Function.update_of_ne hother _ _

/-- Left alone and without a failure, registering succeeds. -/
theorem register_ready {remote : SandboxRemote} {config : RepoConfig}
    (hready : Ready config remote.sectionName) :
    ∃ final, attempt execute none [] remote.register config = (.ok (), final) ∧
      Complete final remote ∧ ∀ other, other ≠ remote.sectionName → final other = config other := by
  obtain ⟨base, hfrom, hshort, hothers⟩ := writesFrom_ready hready
  rcases attempt_register remote [] config with ⟨base', rest, hfrom', hrun⟩ | ⟨hnone, _⟩
  · obtain ⟨rfl, rfl⟩ := Prod.mk.inj (Option.some.inj (hfrom.symm.trans hfrom'))
    rcases attempt_writeAll RegisterError.git remote.sectionName (distinct_settings remote) []
      base with ⟨_, hwrites⟩ | ⟨i, error, hlt, hfails, _⟩
    · refine ⟨_, hrun.trans hwrites, complete_written remote base, fun other hother => ?_⟩
      rw [written_elsewhere hother, hothers other hother]
    · rcases hfails with hfault | ⟨setting, _, hlong⟩
      · simp at hfault
      · have := hshort (foldName setting.1)
        omega
  · rw [hfrom] at hnone
    cases hnone

/-- Whatever sessions were killed or have failed before, the next one repairs its remote. -/
theorem next_register {ι : Type} [DecidableEq ι] {remotes : ι → SandboxRemote}
    {mayFail : GitCommand → Prop} {config left : RepoConfig}
    {pool : Pool ι GitCommand (Option Text) (Except RegisterError Unit)}
    (hturns : Turns execute none mayFail (fun i => session (remotes i)) config pool left)
    (remote : SandboxRemote) (hready : Ready config remote.sectionName) :
    ∃ final, attempt execute none [] remote.register left = (.ok (), final) ∧
      Complete final remote ∧ ∀ other, other ≠ remote.sectionName → final other = left other := by
  have hleft : Ready left remote.sectionName :=
    hturns.keeps_only (fun now => Ready now remote.sectionName)
      (fun command => ∃ i, Own (remotes i) command)
      (fun command now ⟨_, hown⟩ hnow => ready_execute hown hnow) hready
      (fun i => only_mono (fun _ hown => ⟨i, hown⟩) (only_session (remotes i)))
  exact register_ready hleft

theorem ready_noRemotes (sectionName : Text) : Ready noRemotes sectionName := by
  constructor
  · intro existing hurl
    cases hurl
  · intro _ name
    exact Nat.zero_le 1

/-- The first session is killed before its tags are kept out. -/
theorem next_register_killed : ∃ pool left final,
    Turns execute none Writes (fun i => session (pair sandbox other i)) noRemotes pool left ∧
      Incomplete left sandbox ∧
      attempt execute none [] sandbox.register left = (.ok (), final) ∧ Complete final sandbox := by
  have hturns := turns_takeTurns execute none Writes
    [false, true, false, false] (fun i => session (pair sandbox other i)) noRemotes
  obtain ⟨final, hrun, hcomplete, _⟩ := next_register hturns sandbox (ready_noRemotes _)
  refine ⟨_, _, final, hturns, ⟨⟨sandbox.url, by decide +kernel, by decide⟩, ?_⟩, hrun, hcomplete⟩
  exact ⟨("tagOpt".toList, "--no-tags".toList), by simp [SandboxRemote.protections],
    by decide +kernel⟩

/-! ## Registering one name at once -/

/-- How far a run that registers is. -/
inductive Stage where
  | reads
  | removes
  | writes (count : Nat)
  | failed (error : RegisterError)

def Stage.script (remote : SandboxRemote) : Stage → GitScript (Except RegisterError Unit)
  | reads => remote.register
  | removes => (git .git (.removeSection remote.sectionName)).andThen
    (fun _ => writeAll .git remote.sectionName remote.settings)
  | writes count => writeAll .git remote.sectionName (remote.settings.drop count)
  | failed error => .done (.error error)

/-- What a turn does of a run that finds no remote of the user. -/
inductive Turned (remote : SandboxRemote) : Stage → RepoConfig → Stage → RepoConfig → Prop where
  | unset {config : RepoConfig} :
      configured config remote.sectionName "url".toList = none →
      Turned remote .reads config (.writes 0) config
  | stale {config : RepoConfig} {existing : Text} :
      configured config remote.sectionName "url".toList = some existing →
      Turned remote .reads config .removes config
  | removed {config : RepoConfig} : (config remote.sectionName).isSome = true →
      Turned remote .removes config (.writes 0) (Function.update config remote.sectionName none)
  | lost {config : RepoConfig} (error : RegisterError) : config remote.sectionName = none →
      Turned remote .removes config (.failed error) config
  | wrote {config : RepoConfig} {count : Nat} {setting : Text × Text} :
      remote.settings[count]? = some setting →
      Turned remote (.writes count) config (.writes (count + 1))
        (written remote.sectionName config [setting])

def Short (config : RepoConfig) (sectionName : Text) : Prop :=
  ∀ name, (variablesOf config sectionName name).length ≤ 1

theorem turned_of_script {remote : SandboxRemote} {stage : Stage} {config : RepoConfig}
    {command : GitCommand} {next : Option Text → GitScript (Except RegisterError Unit)}
    (hready : Ready config remote.sectionName)
    (hshort : ∀ count, stage = .writes count → Short config remote.sectionName)
    (hnext : stage.script remote = .run command next) :
    ∃ stage', next (execute command config).1 = stage'.script remote ∧
      Turned remote stage config stage' (execute command config).2 := by
  cases stage with
  | reads =>
    obtain ⟨rfl, rfl⟩ := Script.run.inj hnext
    change ∃ stage' : Stage, remote.registerOver (configured config _ _) = _ ∧ Turned remote _ _ _ _
    cases hurl : configured config remote.sectionName "url".toList with
    | none => exact ⟨.writes 0, rfl, .unset hurl⟩
    | some existing =>
      refine ⟨.removes, ?_, .stale hurl⟩
      rw [SandboxRemote.registerOver, if_pos (hready.ext existing hurl), Stage.script]
  | removes =>
    rw [Stage.script, git_andThen] at hnext
    obtain ⟨rfl, rfl⟩ := Script.run.inj hnext
    rcases execute_remove_cases remote.sectionName config with ⟨hsome, hrun⟩ | ⟨hnone, hrun⟩
    · rw [hrun]
      exact ⟨.writes 0, rfl, .removed hsome⟩
    · rw [hrun]
      exact ⟨.failed _, rfl, .lost _ hnone⟩
  | writes count =>
    rw [Stage.script] at hnext
    cases hdrop : remote.settings.drop count with
    | nil =>
      rw [hdrop] at hnext
      cases hnext
    | cons setting settings =>
      rw [hdrop, writeAll_cons] at hnext
      obtain ⟨rfl, rfl⟩ := Script.run.inj hnext
      have hat : remote.settings[count]? = some setting := by
        rw [← List.head?_drop, hdrop, List.head?_cons]
      have hrest : settings = remote.settings.drop (count + 1) := by
        rw [← List.tail_drop, hdrop, List.tail_cons]
      rcases execute_set_cases remote.sectionName setting.1 setting.2 config with
        ⟨_, hrun⟩ | ⟨hlong, _⟩
      · rw [hrun]
        exact ⟨.writes (count + 1), by rw [Stage.script, ← hrest]; rfl, .wrote hat⟩
      · have := hshort count rfl (foldName setting.1)
        omega
  | failed error => cases hnext

/-- The first settings of the remote are in force. -/
def InForce (config : RepoConfig) (remote : SandboxRemote) (count : Nat) : Prop :=
  ∀ setting ∈ remote.settings.take count,
    (variablesOf config remote.sectionName).last setting.1 = some setting.2

theorem inForce_zero (config : RepoConfig) (remote : SandboxRemote) : InForce config remote 0 := by
  intro setting hmem
  cases hmem

theorem protections_congr {a b : SandboxRemote} (hname : a.name = b.name) :
    a.protections = b.protections := by
  obtain ⟨name, _, _⟩ := a
  obtain ⟨_, _, _⟩ := b
  obtain rfl : name = _ := hname
  rfl

theorem last_put_setting {remote : SandboxRemote} {vars : Variables} {wrote setting : Text × Text}
    (hwrote : wrote ∈ remote.settings) (hmem : setting ∈ remote.settings)
    (hold : setting ≠ wrote → vars.last setting.1 = some setting.2) :
    (vars.put wrote.1 wrote.2).last setting.1 = some setting.2 := by
  by_cases hsame : setting = wrote
  · rw [hsame]
    exact last_put_same _ _ _
  · have hsymm : Std.Symm (fun a b : Text × Text => foldName a.1 ≠ foldName b.1) :=
      ⟨fun _ _ h => h.symm⟩
    have hnames : foldName setting.1 ≠ foldName wrote.1 :=
      List.Pairwise.forall (distinct_settings remote) hmem hwrote hsame
    rw [last_put_other hnames]
    exact hold hsame

/-- A write of another run leaves in force what was, with the url of either. -/
theorem inForce_written {a b : SandboxRemote} (hname : a.name = b.name) {config : RepoConfig}
    {setting : Text × Text} {at' count : Nat} (hat : a.settings[at']? = some setting)
    (hforce : InForce config b count) :
    ∃ c, (c = a ∨ c = b) ∧ InForce (written a.sectionName config [setting]) c count ∧
      (count = at' → InForce (written a.sectionName config [setting]) c (count + 1)) := by
  have hsection := sectionName_congr hname
  cases at' with
  | zero =>
    obtain rfl := Option.some.inj hat
    have hurl : ("url".toList, a.url) ∈ a.settings := List.mem_cons_self
    have hall : InForce (written a.sectionName config [("url".toList, a.url)]) a count := by
      intro other hmem
      rw [variablesOf_written]
      refine last_put_setting hurl (List.mem_of_mem_take hmem) fun hne => ?_
      cases count with
      | zero => cases hmem
      | succ count =>
        rw [SandboxRemote.settings, List.take_succ_cons, protections_congr hname] at hmem
        rw [hsection]
        rcases List.mem_cons.mp hmem with rfl | hmem
        · exact absurd rfl hne
        · exact hforce other (List.mem_cons_of_mem _ hmem)
    refine ⟨a, Or.inl rfl, hall, ?_⟩
    rintro rfl other hmem
    obtain rfl := List.mem_singleton.mp hmem
    rw [variablesOf_written]
    exact last_put_same _ _ _
  | succ at' =>
    have hatB : b.settings[at' + 1]? = some setting := by
      rw [SandboxRemote.settings, List.getElem?_cons_succ] at hat ⊢
      rw [← protections_congr hname]
      exact hat
    have hkept : ∀ bound, (∀ other ∈ b.settings.take bound, other ≠ setting →
        other ∈ b.settings.take count) →
        InForce (written a.sectionName config [setting]) b bound := by
      intro bound hold other hmem
      rw [hsection, variablesOf_written]
      exact last_put_setting (List.mem_of_getElem? hatB) (List.mem_of_mem_take hmem)
        fun hne => hforce other (hold other hmem hne)
    refine ⟨b, Or.inr rfl, hkept count fun _ hmem _ => hmem, ?_⟩
    rintro rfl
    refine hkept _ fun other hmem hne => ?_
    rw [List.take_add_one, hatB, List.mem_append] at hmem
    rcases hmem with hmem | hmem
    · exact hmem
    · exact absurd (List.mem_singleton.mp hmem) hne

section Registering
variable {ι : Type} [DecidableEq ι] {remotes : ι → SandboxRemote} {name : Text}
  {stages : ι → Stage} {config : RepoConfig}

/-- The settings that one run has written are in force, with the url of a run that goes
on writing. -/
def Led (remotes : ι → SandboxRemote) (stages : ι → Stage) (config : RepoConfig) : Prop :=
  ∃ leader owner count count', stages leader = .writes count ∧ stages owner = .writes count' ∧
    InForce config (remotes owner) count

/-- No run has changed anything yet, or the one that began last leads. -/
inductive Joint (remotes : ι → SandboxRemote) (stages : ι → Stage) (config : RepoConfig) : Prop
    where
  | pristine : (∀ i, stages i = .reads ∨
      stages i = .removes ∧ (config (remotes i).sectionName).isSome = true) →
      Joint remotes stages config
  | led : (∀ i, Short config (remotes i).sectionName) → Led remotes stages config →
      Joint remotes stages config

omit [DecidableEq ι] in
theorem short_congr (hname : ∀ i, (remotes i).name = name) {i : ι}
    (hshort : Short config (remotes i).sectionName) (j : ι) :
    Short config (remotes j).sectionName := by
  rw [sectionName_congr ((hname j).trans (hname i).symm)]
  exact hshort

theorem led_start (q : ι) : Led remotes (Function.update stages q (.writes 0)) config :=
  ⟨q, q, 0, 0, Function.update_self _ _ _, Function.update_self _ _ _, inForce_zero _ _⟩

theorem led_other {q : ι} (hother : ∀ count, stages q ≠ .writes count)
    (hled : Led remotes stages config) (stage : Stage) :
    Led remotes (Function.update stages q stage) config := by
  obtain ⟨leader, owner, count, count', hleader, howner, hforce⟩ := hled
  have hne : ∀ i n, stages i = .writes n → i ≠ q := by
    rintro i n hwrites rfl
    exact hother n hwrites
  refine ⟨leader, owner, count, count', ?_, ?_, hforce⟩
  · rw [Function.update_of_ne (hne leader count hleader)]
    exact hleader
  · rw [Function.update_of_ne (hne owner count' howner)]
    exact howner

/-- The leader goes on, or another run writes over its settings what they are. -/
theorem led_wrote (hname : ∀ i, (remotes i).name = name) {q : ι} {at' : Nat}
    {setting : Text × Text} (hstage : stages q = .writes at')
    (hat : (remotes q).settings[at']? = some setting) (hled : Led remotes stages config) :
    Led remotes (Function.update stages q (.writes (at' + 1)))
      (written (remotes q).sectionName config [setting]) := by
  obtain ⟨leader, owner, count, count', hleader, howner, hforce⟩ := hled
  obtain ⟨c, hc, hkept, hnext⟩ :=
    inForce_written ((hname q).trans (hname owner).symm) hat hforce
  have howner : ∃ owner' count', Function.update stages q (.writes (at' + 1)) owner' =
      .writes count' ∧ c = remotes owner' := by
    rcases hc with rfl | rfl
    · exact ⟨q, _, Function.update_self _ _ _, rfl⟩
    · by_cases hsame : owner = q
      · exact ⟨q, _, Function.update_self _ _ _, by rw [hsame]⟩
      · exact ⟨owner, count', by rw [Function.update_of_ne hsame]; exact howner, rfl⟩
  obtain ⟨owner', count'', howner, rfl⟩ := howner
  by_cases hsame : leader = q
  · subst hsame
    obtain rfl := Stage.writes.inj (hleader.symm.trans hstage)
    exact ⟨leader, owner', count + 1, count'', Function.update_self _ _ _, howner, hnext rfl⟩
  · refine ⟨leader, owner', count, count'', ?_, howner, hkept⟩
    rw [Function.update_of_ne hsame]
    exact hleader

theorem writeAll_done {sectionName : Text} {settings : List (Text × Text)}
    {result : Except RegisterError Unit}
    (hdone : writeAll .git sectionName settings = .done result) :
    settings = [] ∧ result = .ok () := by
  cases settings with
  | nil => exact ⟨rfl, (Script.done.inj hdone).symm⟩
  | cons setting settings =>
    rw [writeAll_cons] at hdone
    cases hdone

omit [DecidableEq ι] in
theorem ready_turn (hname : ∀ i, (remotes i).name = name) {q : ι} {before after : Stage}
    {config' : RepoConfig} (hready : ∀ i, Ready config (remotes i).sectionName)
    (hturned : Turned (remotes q) before config after config') (i : ι) :
    Ready config' (remotes i).sectionName := by
  rw [sectionName_congr ((hname i).trans (hname q).symm)]
  cases hturned with
  | unset _ => exact hready q
  | stale _ => exact hready q
  | removed _ => exact ready_removed _ _
  | lost _ _ => exact hready q
  | wrote hat => exact ready_written (List.mem_of_getElem? hat) (hready q)

omit [DecidableEq ι] in
/-- Runs that are over leave a leader that has written everything. -/
theorem registered_of_done [Nonempty ι]
    (hdone : ∀ i, ∃ result, (stages i).script (remotes i) = .done result)
    (hjoint : Joint remotes stages config) :
    ∃ i, (stages i).script (remotes i) = .done (.ok ()) ∧ Complete config (remotes i) := by
  cases hjoint with
  | pristine hall =>
    obtain ⟨i⟩ := ‹Nonempty ι›
    obtain ⟨result, hresult⟩ := hdone i
    rcases hall i with hreads | ⟨hremoves, _⟩
    · rw [hreads] at hresult
      cases hresult
    · rw [hremoves, Stage.script, git_andThen] at hresult
      cases hresult
  | led _ hled =>
    obtain ⟨leader, owner, count, count', hleader, howner, hforce⟩ := hled
    obtain ⟨_, hleft⟩ := hdone leader
    obtain ⟨result, hresult⟩ := hdone owner
    rw [hleader, Stage.script] at hleft
    have hlong : (remotes leader).settings.length ≤ count :=
      List.drop_eq_nil_iff.mp (writeAll_done hleft).1
    have hlength : (remotes leader).settings.length = (remotes owner).settings.length := rfl
    rw [hlength] at hlong
    refine ⟨owner, ?_, ?_⟩
    · rw [howner, Stage.script] at hresult ⊢
      rw [hresult, (writeAll_done hresult).2]
    · rw [InForce, List.take_of_length_le hlong] at hforce
      exact hforce

theorem joint_turn (hname : ∀ i, (remotes i).name = name) {q : ι} {stage : Stage}
    {config' : RepoConfig} (hready : Ready config (remotes q).sectionName)
    (hturned : Turned (remotes q) (stages q) config stage config')
    (hjoint : Joint remotes stages config) :
    Joint remotes (Function.update stages q stage) config' := by
  generalize hstage : stages q = before at hturned
  cases hturned with
  | unset hurl =>
    cases hjoint with
    | pristine _ => exact .led (short_congr hname (hready.short hurl)) (led_start q)
    | led hshort hled => exact .led hshort (led_other (by simp [hstage]) hled _)
  | stale hurl =>
    cases hjoint with
    | pristine hall =>
      refine .pristine fun i => ?_
      by_cases hsame : i = q
      · subst hsame
        exact Or.inr ⟨Function.update_self _ _ _, isSome_of_configured hurl⟩
      · rw [Function.update_of_ne hsame]
        exact hall i
    | led hshort hled => exact .led hshort (led_other (by simp [hstage]) hled _)
  | removed hsome =>
    have hshort : Short (Function.update config (remotes q).sectionName none)
        (remotes q).sectionName := by
      intro name
      rw [variablesOf_removed]
      exact Nat.zero_le 1
    exact .led (short_congr hname hshort) (led_start q)
  | lost error hnone =>
    cases hjoint with
    | pristine hall =>
      rcases hall q with hreads | ⟨_, hsome⟩
      · cases hstage.symm.trans hreads
      · rw [hnone] at hsome
        cases hsome
    | led hshort hled => exact .led hshort (led_other (by simp [hstage]) hled _)
  | wrote hat =>
    cases hjoint with
    | pristine hall =>
      rcases hall q with hreads | ⟨hremoves, _⟩
      · cases hstage.symm.trans hreads
      · cases hstage.symm.trans hremoves
    | led hshort hled =>
      refine .led (short_congr hname (i := q) ?_) (led_wrote hname hstage hat hled)
      intro other
      rw [variablesOf_written]
      exact length_put (hshort q) _ _ other

/-- What holds while the runs register. -/
def Registering (remotes : ι → SandboxRemote)
    (pool : Pool ι GitCommand (Option Text) (Except RegisterError Unit)) (config : RepoConfig) :
    Prop :=
  (∀ i, Ready config (remotes i).sectionName) ∧ ∃ stages : ι → Stage,
    (∀ i, pool i = (stages i).script (remotes i)) ∧ Joint remotes stages config

omit [DecidableEq ι] in
theorem short_of_joint (hjoint : Joint remotes stages config) {i : ι} {count : Nat}
    (hstage : stages i = .writes count) : Short config (remotes i).sectionName := by
  cases hjoint with
  | pristine hall =>
    rcases hall i with hreads | ⟨hremoves, _⟩
    · cases hstage.symm.trans hreads
    · cases hstage.symm.trans hremoves
  | led hshort _ => exact hshort i

theorem registering_turn (hname : ∀ i, (remotes i).name = name)
    {pool : Pool ι GitCommand (Option Text) (Except RegisterError Unit)} {q : ι}
    {command : GitCommand} {next : Option Text → GitScript (Except RegisterError Unit)}
    (hpool : Registering remotes pool config) (hnext : pool q = .run command next) :
    Registering remotes (Function.update pool q (next (execute command config).1))
      (execute command config).2 := by
  obtain ⟨hready, stages, hstages, hjoint⟩ := hpool
  obtain ⟨stage, hscript, hturned⟩ := turned_of_script (hready q)
    (fun _ hstage => short_of_joint hjoint hstage) ((hstages q).symm.trans hnext)
  refine ⟨ready_turn hname hready hturned, Function.update stages q stage, fun i => ?_,
    joint_turn hname (hready q) hturned hjoint⟩
  by_cases hsame : i = q
  · subst hsame
    rw [Function.update_self, Function.update_self, hscript]
  · rw [Function.update_of_ne hsame, Function.update_of_ne hsame, hstages i]

/-- Of any number of runs that register one name, a command of any of them at a time, one
reports success, and its remote is what the repository has in the end. -/
theorem one_registered [Nonempty ι] (hname : ∀ i, (remotes i).name = name)
    (hready : ∀ i, Ready config (remotes i).sectionName) {final : RepoConfig}
    {pool : Pool ι GitCommand (Option Text) (Except RegisterError Unit)}
    (hturns : Turns execute none (fun _ => False) (fun i => (remotes i).register) config pool
      final) (hdone : ∀ i, ∃ result, pool i = .done result) :
    ∃ i, pool i = .done (.ok ()) ∧ Complete final (remotes i) := by
  have hstart : Registering remotes (fun i => (remotes i).register) config :=
    ⟨hready, fun _ => .reads, fun _ => rfl, .pristine fun _ => Or.inl rfl⟩
  obtain ⟨_, stages, hstages, hjoint⟩ := hturns.keeps (Registering remotes)
    (fun _ _ _ _ _ hpool hnext => registering_turn hname hpool hnext)
    (fun _ _ _ _ _ _ _ hfails => hfails.elim) hstart
  obtain ⟨i, hover, hcomplete⟩ := registered_of_done (fun i => hstages i ▸ hdone i) hjoint
  exact ⟨i, (hstages i).trans hover, hcomplete⟩

end Registering

def again : SandboxRemote := ⟨"celily/fix".toList, "ext::lxc exec again".toList, by decide⟩

/-- The two runs take turns. -/
theorem one_registered_turns : ∃ pool final,
    Turns execute none (fun _ => False) (fun i => (pair sandbox again i).register) noRemotes pool
      final ∧ ∃ i, pool i = .done (.ok ()) ∧ Complete final (pair sandbox again i) := by
  have hturns := turns_takeTurns execute none (fun _ => False)
    [false, true, true, false, true, false, false, true, true, false, false, true, true, false]
    (fun i => (pair sandbox again i).register) noRemotes
  have hname : ∀ i, (pair sandbox again i).name = "celily/fix".toList := by
    intro i
    cases i <;> rfl
  refine ⟨_, _, hturns, one_registered hname (fun i => ready_noRemotes _) hturns fun i => ?_⟩
  refine ⟨.ok (), done_of_finished ?_⟩
  cases i with
  | false => decide +kernel
  | true => decide +kernel

end RemoteHistories
