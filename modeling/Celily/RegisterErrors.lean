import Celily.GitRemote

/-!
# Errors while registering

What `register` leaves when one of its commands fails. Until the url is written the
repository keeps the remote it had, or has none. A failure after that leaves the url
of the sandbox with the settings that had been written before it.
-/

namespace RegisterErrors

open RustText AtomicScripts GitConfig GitRemote

/-- The configuration that the writes start from, and the faults that are left. -/
def writesFrom (remote : SandboxRemote) (faults : List Bool) (config : RepoConfig) :
    Option (RepoConfig × List Bool) :=
  if faults.headD false = true then some (config, faults.tail)
  else
    match configured config remote.sectionName "url".toList with
    | none => some (config, faults.tail)
    | some existing =>
      if isExt existing = true ∧ ¬faults.tail.headD false = true then
        some (Function.update config remote.sectionName none, faults.tail.tail)
      else none

/-- The first write to fail comes after that of the url, over the url of a user's remote
or before a setting that the section does not have already. -/
def Exposes (remote : SandboxRemote) (vars : Variables) (faults : List Bool) : Prop :=
  ∃ i, 0 < i ∧ i < remote.settings.length ∧ WriteFails vars faults remote.settings i ∧
    (∀ j < i, ¬WriteFails vars faults remote.settings j) ∧
    (UserRemote vars ∨ ∃ setting ∈ remote.settings.drop i, vars.last setting.1 ≠ some setting.2)

theorem attempt_removal (remote : SandboxRemote) (faults : List Bool) {config : RepoConfig}
    {existing : Text} (hext : isExt existing = true)
    (hsection : (config remote.sectionName).isSome = true) :
    (faults.headD false = true ∧ ∃ error,
      attempt execute none faults (remote.registerOver (some existing)) config =
        (.error error, config)) ∨
    ¬faults.headD false = true ∧
      attempt execute none faults (remote.registerOver (some existing)) config =
        attempt execute none faults.tail (writeAll .git remote.sectionName remote.settings)
          (Function.update config remote.sectionName none) := by
  obtain ⟨vars, hvars⟩ := Option.isSome_iff_exists.mp hsection
  rw [SandboxRemote.registerOver, if_pos hext, git_andThen, attempt_run]
  by_cases hfault : faults.headD false = true
  · rw [if_pos hfault, if_neg (by decide)]
    exact Or.inl ⟨hfault, _, attempt_done _ _ _⟩
  · rw [if_neg hfault]
    refine Or.inr ⟨hfault, ?_⟩
    simp only [execute, hvars]
    rfl

theorem isSome_of_configured {config : RepoConfig} {sectionName name value : Text}
    (hvalue : configured config sectionName name = some value) :
    (config sectionName).isSome = true := by
  cases hsection : config sectionName with
  | some vars => rfl
  | none =>
    rw [configured, variablesOf, hsection] at hvalue
    cases hvalue

/-- The run is over before the writes, or goes on with them. -/
theorem attempt_register (remote : SandboxRemote) (faults : List Bool) (config : RepoConfig) :
    (∃ base rest, writesFrom remote faults config = some (base, rest) ∧
      attempt execute none faults remote.register config =
        attempt execute none rest (writeAll .git remote.sectionName remote.settings) base) ∨
    writesFrom remote faults config = none ∧
      ∃ error, attempt execute none faults remote.register config = (.error error, config) := by
  have hread : attempt execute none faults remote.register config =
      attempt execute none faults.tail (remote.registerOver (if faults.headD false = true then none
        else configured config remote.sectionName "url".toList)) config := by
    rw [SandboxRemote.register, gitConfig, Script.bind, attempt_run]
    split
    · rfl
    · rfl
  rw [hread, writesFrom]
  by_cases hfault : faults.headD false = true
  · rw [if_pos hfault, if_pos hfault]
    exact Or.inl ⟨config, faults.tail, rfl, rfl⟩
  rw [if_neg hfault, if_neg hfault]
  cases hexisting : configured config remote.sectionName "url".toList with
  | none => exact Or.inl ⟨config, faults.tail, rfl, rfl⟩
  | some existing =>
    dsimp only
    by_cases hext : isExt existing = true
    · rcases attempt_removal remote faults.tail hext (isSome_of_configured hexisting) with
        ⟨hremoval, herror⟩ | ⟨hremoval, hrun⟩
      · right
        rw [if_neg (fun h => h.2 hremoval)]
        exact ⟨rfl, herror⟩
      · left
        rw [if_pos ⟨hext, hremoval⟩]
        exact ⟨_, _, rfl, hrun⟩
    · right
      rw [if_neg (fun h => hext h.1), SandboxRemote.registerOver, if_neg hext]
      exact ⟨rfl, _, attempt_done _ _ _⟩

/-! ## What is left behind -/

/-- There is no incomplete sandbox remote, and the remote of the user is what it was. -/
def Atomic (remote : SandboxRemote) (config final : RepoConfig) : Prop :=
  ¬Incomplete final remote ∧
    (UserRemote (variablesOf config remote.sectionName) →
      final remote.sectionName = config remote.sectionName)

theorem not_userRemote {config : RepoConfig} {sectionName existing : Text}
    (hexisting : configured config sectionName "url".toList = some existing)
    (hext : isExt existing = true) : ¬UserRemote (variablesOf config sectionName) := by
  rintro ⟨url, hurl, hother⟩
  rw [configured, hurl, Option.bind_some, nonEmpty] at hexisting
  split at hexisting
  · cases hexisting
  · obtain rfl := Option.some.inj hexisting
    rw [hext] at hother
    cases hother

theorem configured_removed (config : RepoConfig) (sectionName name : Text) :
    configured (Function.update config sectionName none) sectionName name = none := by
  simp [configured, variablesOf, Variables.last]

theorem writesFrom_base {remote : SandboxRemote} {faults rest : List Bool}
    {config base : RepoConfig} (hfrom : writesFrom remote faults config = some (base, rest)) :
    base = config ∨ base = Function.update config remote.sectionName none ∧
      ¬UserRemote (variablesOf config remote.sectionName) := by
  rw [writesFrom] at hfrom
  split at hfrom
  · obtain ⟨rfl, _⟩ := Prod.mk.inj (Option.some.inj hfrom)
    exact Or.inl rfl
  · split at hfrom
    · obtain ⟨rfl, _⟩ := Prod.mk.inj (Option.some.inj hfrom)
      exact Or.inl rfl
    · rename_i existing hexisting
      split at hfrom
      · rename_i hreplaced
        obtain ⟨rfl, _⟩ := Prod.mk.inj (Option.some.inj hfrom)
        exact Or.inr ⟨rfl, not_userRemote hexisting hreplaced.1⟩
      · cases hfrom

theorem atomic_base {remote : SandboxRemote} {faults rest : List Bool} {config base : RepoConfig}
    (hconfig : ¬Incomplete config remote)
    (hfrom : writesFrom remote faults config = some (base, rest)) : Atomic remote config base := by
  rcases writesFrom_base hfrom with rfl | ⟨rfl, huser⟩
  · exact ⟨hconfig, fun _ => rfl⟩
  · refine ⟨?_, fun h => absurd h huser⟩
    rintro ⟨⟨url, hurl, _⟩, _⟩
    rw [configured_removed] at hurl
    cases hurl

theorem userRemote_base {remote : SandboxRemote} {faults rest : List Bool}
    {config base : RepoConfig} (hfrom : writesFrom remote faults config = some (base, rest)) :
    UserRemote (variablesOf base remote.sectionName) ↔
      UserRemote (variablesOf config remote.sectionName) := by
  rcases writesFrom_base hfrom with rfl | ⟨rfl, huser⟩
  · exact Iff.rfl
  · refine iff_of_false ?_ huser
    rintro ⟨url, hurl, _⟩
    simp [variablesOf, Variables.last] at hurl

section Prefix
variable (remote : SandboxRemote) (base : RepoConfig) {i : Nat}

theorem last_taken {setting : Text × Text} (hmem : setting ∈ remote.settings.take i) :
    (variablesOf (written remote.sectionName base (remote.settings.take i))
      remote.sectionName).last setting.1 = some setting.2 :=
  last_written ((distinct_settings remote).sublist (List.take_sublist _ _)) _ _ hmem

theorem last_dropped {setting : Text × Text} (hmem : setting ∈ remote.settings.drop i) :
    (variablesOf (written remote.sectionName base (remote.settings.take i))
      remote.sectionName).last setting.1 =
    (variablesOf base remote.sectionName).last setting.1 := by
  have hsplit : Distinct (remote.settings.take i ++ remote.settings.drop i) := by
    rw [List.take_append_drop]
    exact distinct_settings remote
  apply last_written_other
  intro other hother
  exact ((List.pairwise_append.mp hsplit).2.2 other hother setting hmem).symm

theorem url_mem_take (hpos : 0 < i) :
    ("url".toList, remote.url) ∈ remote.settings.take i := by
  obtain ⟨n, rfl⟩ := Nat.exists_eq_succ_of_ne_zero (Nat.pos_iff_ne_zero.mp hpos)
  rw [SandboxRemote.settings, List.take_succ_cons]
  exact List.mem_cons_self

/-- With the url written, the remote is complete only if nothing more was needed. -/
theorem incomplete_taken (hpos : 0 < i) :
    Incomplete (written remote.sectionName base (remote.settings.take i)) remote ↔
      ∃ setting ∈ remote.settings.drop i,
        (variablesOf base remote.sectionName).last setting.1 ≠ some setting.2 := by
  have hurl := last_taken remote base (url_mem_take remote hpos)
  constructor
  · rintro ⟨_, setting, hmem, hmissing⟩
    have hsetting : setting ∈ remote.settings.take i ++ remote.settings.drop i := by
      rw [List.take_append_drop]
      exact List.mem_cons_of_mem _ hmem
    rcases List.mem_append.mp hsetting with htaken | hdropped
    · exact absurd (last_taken remote base htaken) hmissing
    · rw [last_dropped remote base hdropped] at hmissing
      exact ⟨setting, hdropped, hmissing⟩
  · rintro ⟨setting, hmem, hmissing⟩
    obtain ⟨n, rfl⟩ := Nat.exists_eq_succ_of_ne_zero (Nat.pos_iff_ne_zero.mp hpos)
    refine ⟨⟨trim remote.url, ?_, isExt_trim remote.url_ext⟩, setting, ?_, ?_⟩
    · rw [configured, hurl, Option.bind_some, nonEmpty_ext remote.url_ext]
    · exact List.mem_of_mem_drop hmem
    · rw [last_dropped remote base hmem]
      exact hmissing

end Prefix

theorem exposes_iff {remote : SandboxRemote} {vars : Variables} {faults : List Bool} {i : Nat}
    (hlt : i < remote.settings.length) (hfails : WriteFails vars faults remote.settings i)
    (hfirst : ∀ j < i, ¬WriteFails vars faults remote.settings j) :
    Exposes remote vars faults ↔
      0 < i ∧ (UserRemote vars ∨
        ∃ setting ∈ remote.settings.drop i, vars.last setting.1 ≠ some setting.2) := by
  constructor
  · rintro ⟨j, hpos, _, hfailsJ, hfirstJ, hleft⟩
    obtain rfl : j = i := by
      rcases Nat.lt_trichotomy j i with hlt | heq | hgt
      · exact absurd hfailsJ (hfirst j hlt)
      · exact heq
      · exact absurd hfails (hfirstJ i hgt)
    exact ⟨hpos, hleft⟩
  · rintro ⟨hpos, hleft⟩
    exact ⟨i, hpos, hlt, hfails, hfirst, hleft⟩

/-- A user's remote does not keep its url once that of the sandbox is written. -/
theorem url_overwritten {remote : SandboxRemote} {config base : RepoConfig} {i : Nat} (hpos : 0 < i)
    (huser : UserRemote (variablesOf config remote.sectionName)) :
    written remote.sectionName base (remote.settings.take i) remote.sectionName ≠
      config remote.sectionName := by
  intro hsame
  obtain ⟨url, hurl, hother⟩ := huser
  have hwritten := last_taken remote base (url_mem_take remote hpos)
  rw [variablesOf, hsame] at hwritten
  obtain rfl := Option.some.inj (hurl.symm.trans hwritten)
  rw [isExt_trim remote.url_ext] at hother
  cases hother

theorem atomic_written_iff {remote : SandboxRemote} {faults rest : List Bool}
    {config base : RepoConfig} (hconfig : ¬Incomplete config remote)
    (hfrom : writesFrom remote faults config = some (base, rest)) {i : Nat}
    (hlt : i < remote.settings.length)
    (hfails : WriteFails (variablesOf base remote.sectionName) rest remote.settings i)
    (hfirst : ∀ j < i, ¬WriteFails (variablesOf base remote.sectionName) rest remote.settings j) :
    Atomic remote config (written remote.sectionName base (remote.settings.take i)) ↔
      ¬Exposes remote (variablesOf base remote.sectionName) rest := by
  rw [exposes_iff hlt hfails hfirst]
  rcases Nat.eq_zero_or_pos i with rfl | hpos
  · exact iff_of_true (atomic_base hconfig hfrom) (fun h => Nat.lt_irrefl 0 h.1)
  · rw [Atomic, incomplete_taken remote base hpos, userRemote_base hfrom]
    constructor
    · rintro ⟨hcomplete, hkept⟩ ⟨_, huser | hmissing⟩
      · exact url_overwritten hpos huser (hkept huser)
      · exact hcomplete hmissing
    · intro hsafe
      refine ⟨fun hmissing => hsafe ⟨hpos, Or.inr hmissing⟩, ?_⟩
      exact fun huser => absurd ⟨hpos, Or.inl huser⟩ hsafe

/-- An error leaves no exposed remote exactly when no write fails after the url is out. -/
theorem register_error_iff (remote : SandboxRemote) (config : RepoConfig)
    (hconfig : ¬Incomplete config remote) (faults : List Bool) :
    (∀ error final, attempt execute none faults remote.register config = (.error error, final) →
      ¬Incomplete final remote ∧
        (UserRemote (variablesOf config remote.sectionName) →
          final remote.sectionName = config remote.sectionName)) ↔
    ∀ base rest, writesFrom remote faults config = some (base, rest) →
      ¬Exposes remote (variablesOf base remote.sectionName) rest := by
  rcases attempt_register remote faults config with ⟨base, rest, hfrom, hrun⟩ | ⟨hfrom, error, hrun⟩
  · have hbase : (∀ base' rest', writesFrom remote faults config = some (base', rest') →
        ¬Exposes remote (variablesOf base' remote.sectionName) rest') ↔
        ¬Exposes remote (variablesOf base remote.sectionName) rest := by
      constructor
      · exact fun h => h base rest hfrom
      · intro h base' rest' hfrom'
        obtain ⟨rfl, rfl⟩ := Prod.mk.inj (Option.some.inj (hfrom.symm.trans hfrom'))
        exact h
    rw [hbase, hrun]
    rcases attempt_writeAll RegisterError.git remote.sectionName (distinct_settings remote) rest
      base with ⟨hnone, hwrites⟩ | ⟨i, error, hlt, hfails, hfirst, hwrites⟩
    · -- All is written: there is no error, and no write that fails.
      rw [hwrites]
      constructor
      · rintro _ ⟨i, _, hlt, hfails, _⟩
        exact hnone i hlt hfails
      · intro _ error final herror
        cases herror
    · rw [hwrites, ← atomic_written_iff hconfig hfrom hlt hfails hfirst]
      constructor
      · exact fun h => h error _ rfl
      · intro hatomic error' final herror
        obtain ⟨_, rfl⟩ := Prod.mk.inj herror
        exact hatomic
  · rw [hrun, hfrom]
    constructor
    · intro _ base rest hsome
      cases hsome
    · intro _ error' final herror
      obtain ⟨_, rfl⟩ := Prod.mk.inj herror
      exact ⟨hconfig, fun _ => rfl⟩

def sandbox : SandboxRemote := ⟨"celily/fix".toList, "ext::lxc exec box".toList, by decide⟩

def noRemotes : RepoConfig := fun _ => none

theorem not_incomplete_noRemotes (remote : SandboxRemote) : ¬Incomplete noRemotes remote := by
  rintro ⟨⟨url, hurl, _⟩, _⟩
  cases hurl

/-- The write of the url fails. -/
theorem register_error_iff_url : ∃ error final,
    attempt execute none [false, true] sandbox.register noRemotes = (.error error, final) ∧
      ¬Incomplete final sandbox := by
  refine ⟨_, _, rfl, ?_⟩
  refine ((register_error_iff sandbox noRemotes (not_incomplete_noRemotes sandbox)
    [false, true]).mpr ?_ _ _ rfl).1
  rintro base rest hfrom ⟨i, hpos, _, _, hfirst, _⟩
  obtain ⟨rfl, rfl⟩ := Prod.mk.inj (Option.some.inj hfrom)
  exact hfirst 0 hpos (Or.inl rfl)

/-- The write after it fails: the url is there without any of its protections. -/
theorem register_leaves_url : ∃ remote config faults error final,
    ¬Incomplete config remote ∧
      attempt execute none faults remote.register config = (.error error, final) ∧
      Incomplete final remote := by
  refine ⟨sandbox, noRemotes, [false, false, true], _, _, not_incomplete_noRemotes sandbox, rfl,
    ⟨sandbox.url, by decide +kernel, by decide⟩, ("fetch".toList, sandbox.refspec),
    List.mem_cons_self, ?_⟩
  decide +kernel

end RegisterErrors
