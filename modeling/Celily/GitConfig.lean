import Celily.RustText
import Celily.AtomicScripts
import Mathlib.Logic.Function.Basic

/-!
# The configuration of a repository

The sections of the repository's git configuration with the values of their
variables, and the `git config` commands that celily runs on it. Names of variables
ignore case. A command that fails leaves the configuration as it was.
-/

namespace GitConfig

open RustText AtomicScripts

/-- The values of the variables of a section, by their names in lower case. -/
abbrev Variables := Text → List Text

/-- The sections by their names, `remote.<name>` for a remote. -/
abbrev RepoConfig := Text → Option Variables

def foldName (name : Text) : Text := name.map Char.toLower

/-- The value that git reads: the last one. -/
def Variables.last (vars : Variables) (name : Text) : Option Text :=
  (vars (foldName name)).getLast?

def Variables.put (vars : Variables) (name value : Text) : Variables :=
  Function.update vars (foldName name) [value]

def variablesOf (config : RepoConfig) (sectionName : Text) : Variables :=
  (config sectionName).getD (fun _ => [])

inductive GitCommand where
  | get (sectionName name : Text)
  | removeSection (sectionName : Text)
  | set (sectionName name value : Text)
  deriving DecidableEq

/-- The arguments of `git -C <repo>`. -/
def GitCommand.args : GitCommand → List Text
  | .get sectionName name => ["config".toList, sectionName ++ ".".toList ++ name]
  | .removeSection sectionName => ["config".toList, "--remove-section".toList, sectionName]
  | .set sectionName name value => ["config".toList, sectionName ++ ".".toList ++ name, value]

/-- The output of a command, `none` when it fails. A variable with several values is not
overwritten. -/
def execute (command : GitCommand) (config : RepoConfig) : Option Text × RepoConfig :=
  match command with
  | .get sectionName name => ((variablesOf config sectionName).last name, config)
  | .removeSection sectionName =>
    match config sectionName with
    | none => (none, config)
    | some _ => (some [], Function.update config sectionName none)
  | .set sectionName name value =>
    let vars := variablesOf config sectionName
    if (vars (foldName name)).length ≤ 1 then
      (some [], Function.update config sectionName (some (vars.put name value)))
    else (none, config)

abbrev GitScript (α : Type) := Script GitCommand (Option Text) α

/-- The value without the blanks around it; an empty one counts as unset. -/
def nonEmpty (stdout : Text) : Option Text :=
  if trim stdout = [] then none else some (trim stdout)

def gitConfig (sectionName name : Text) : GitScript (Option Text) :=
  .run (.get sectionName name) (fun reply => .done (reply.bind nonEmpty))

/-- What `gitConfig` reads. -/
def configured (config : RepoConfig) (sectionName name : Text) : Option Text :=
  ((variablesOf config sectionName).last name).bind nonEmpty

/-- `with_context(|| format!("git {}", args.join(" ")))`. -/
def gitContext (command : GitCommand) : Text :=
  "git ".toList ++ [' '].intercalate command.args

def git {ε : Type} (onError : Text → ε) (command : GitCommand) : GitScript (Except ε Unit) :=
  .run command (fun reply =>
    .done (match reply with
      | none => .error (onError (gitContext command))
      | some _ => .ok ()))

section Writes
variable {ε : Type} (onError : Text → ε) (sectionName : Text)

/-- Every setting in order, up to the first write that fails. -/
def writeAll : List (Text × Text) → GitScript (Except ε Unit)
  | [] => .done (.ok ())
  | setting :: settings =>
    (git onError (.set sectionName setting.1 setting.2)).andThen (fun _ => writeAll settings)

/-- The configuration with these settings written. -/
def written (config : RepoConfig) (settings : List (Text × Text)) : RepoConfig :=
  settings.foldl (fun config setting =>
    (Function.update config sectionName
      (some ((variablesOf config sectionName).put setting.1 setting.2)) : RepoConfig)) config

end Writes

theorem git_andThen {ε α : Type} (onError : Text → ε) (command : GitCommand)
    (k : Unit → GitScript (Except ε α)) :
    (git onError command).andThen k =
      .run command (fun reply =>
        if reply.isSome then k () else .done (.error (onError (gitContext command)))) := by
  rw [git, Script.andThen, Script.bind]
  congr 1
  funext reply
  cases reply with
  | none => rfl
  | some stdout => rfl

/-- No two settings write one variable. -/
def Distinct (settings : List (Text × Text)) : Prop :=
  settings.Pairwise (fun a b => foldName a.1 ≠ foldName b.1)

/-- The write at `i` fails, from without or because its variable has several values. -/
def WriteFails (vars : Variables) (faults : List Bool) (settings : List (Text × Text)) (i : Nat) :
    Prop :=
  faults[i]? = some true ∨
    ∃ setting, settings[i]? = some setting ∧ 1 < (vars (foldName setting.1)).length

theorem last_put_same (vars : Variables) (name value : Text) :
    (vars.put name value).last name = some value := by
  simp [Variables.put, Variables.last]

theorem put_other {vars : Variables} {name other : Text} (hother : foldName other ≠ foldName name)
    (value : Text) : (vars.put name value) (foldName other) = vars (foldName other) :=
  Function.update_of_ne hother _ _

theorem last_put_other {vars : Variables} {name other : Text}
    (hother : foldName other ≠ foldName name) (value : Text) :
    (vars.put name value).last other = vars.last other := by
  rw [Variables.last, put_other hother, Variables.last]

theorem variablesOf_update (config : RepoConfig) (sectionName : Text) (vars : Variables) :
    variablesOf (Function.update config sectionName (some vars)) sectionName = vars := by
  simp [variablesOf]

theorem written_cons (sectionName : Text) (config : RepoConfig) (setting : Text × Text)
    (settings : List (Text × Text)) :
    written sectionName config (setting :: settings) =
      written sectionName (Function.update config sectionName
        (some ((variablesOf config sectionName).put setting.1 setting.2))) settings := rfl

theorem written_first (sectionName : Text) (config : RepoConfig) (setting : Text × Text)
    (settings : List (Text × Text)) :
    written sectionName (written sectionName config [setting]) settings =
      written sectionName config (setting :: settings) := rfl

theorem last_written_other {settings : List (Text × Text)} {name : Text}
    (hother : ∀ s ∈ settings, foldName name ≠ foldName s.1) (sectionName : Text)
    (config : RepoConfig) :
    (variablesOf (written sectionName config settings) sectionName).last name =
      (variablesOf config sectionName).last name := by
  induction settings generalizing config with
  | nil => rfl
  | cons setting settings ih =>
    rw [written_cons, ih (fun s hs => hother s (List.mem_cons_of_mem setting hs)),
      variablesOf_update]
    exact last_put_other (hother setting List.mem_cons_self) _

theorem last_written {settings : List (Text × Text)} (hdistinct : Distinct settings)
    (sectionName : Text) (config : RepoConfig) {setting : Text × Text}
    (hmem : setting ∈ settings) :
    (variablesOf (written sectionName config settings) sectionName).last setting.1 =
      some setting.2 := by
  induction settings generalizing config with
  | nil => cases hmem
  | cons first settings ih =>
    obtain ⟨hfirst, hrest⟩ := List.pairwise_cons.mp hdistinct
    rw [written_cons]
    rcases List.mem_cons.mp hmem with rfl | hmem
    · rw [last_written_other hfirst, variablesOf_update, last_put_same]
    · exact ih hrest _ hmem

theorem writeFails_cons {setting : Text × Text} {settings : List (Text × Text)}
    (hdistinct : Distinct (setting :: settings)) (vars : Variables) (faults : List Bool)
    (i : Nat) :
    WriteFails vars faults (setting :: settings) (i + 1) ↔
      WriteFails (vars.put setting.1 setting.2) faults.tail settings i := by
  have hfault : faults[i + 1]? = faults.tail[i]? := by
    cases faults with
    | nil => simp
    | cons fault faults => rfl
  rw [WriteFails, WriteFails, hfault, List.getElem?_cons_succ]
  apply or_congr_right
  constructor
  · rintro ⟨other, hat, hlong⟩
    have hne := (List.pairwise_cons.mp hdistinct).1 other (List.mem_of_getElem? hat)
    exact ⟨other, hat, by rw [put_other hne.symm]; exact hlong⟩
  · rintro ⟨other, hat, hlong⟩
    have hne := (List.pairwise_cons.mp hdistinct).1 other (List.mem_of_getElem? hat)
    exact ⟨other, hat, by rw [put_other hne.symm] at hlong; exact hlong⟩

theorem writeFails_zero (vars : Variables) (faults : List Bool) (setting : Text × Text)
    (settings : List (Text × Text)) :
    WriteFails vars faults (setting :: settings) 0 ↔
      faults.headD false = true ∨ 1 < (vars (foldName setting.1)).length := by
  have hfault : faults[0]? = some true ↔ faults.headD false = true := by
    cases faults with
    | nil => simp
    | cons fault faults => simp
  rw [WriteFails, hfault]
  simp

section Writes
variable {ε : Type} (onError : Text → ε) (sectionName : Text)

theorem writeAll_cons (setting : Text × Text) (settings : List (Text × Text)) :
    writeAll onError sectionName (setting :: settings) =
      .run (.set sectionName setting.1 setting.2) (fun reply =>
        if reply.isSome then writeAll onError sectionName settings
        else .done (.error (onError (gitContext (.set sectionName setting.1 setting.2))))) := by
  rw [writeAll, git_andThen]

theorem attempt_write_failed {setting : Text × Text} {settings : List (Text × Text)}
    {faults : List Bool} {config : RepoConfig}
    (hfails : WriteFails (variablesOf config sectionName) faults (setting :: settings) 0) :
    attempt execute none faults (writeAll onError sectionName (setting :: settings)) config =
      (.error (onError (gitContext (.set sectionName setting.1 setting.2))), config) := by
  rw [writeAll_cons, attempt_run]
  rcases (writeFails_zero _ _ _ _).mp hfails with hfault | hlong
  · rw [if_pos hfault, if_neg (by decide), attempt_done]
  · have hrefused := Nat.not_le_of_lt hlong
    split
    · rw [if_neg (by decide), attempt_done]
    · simp only [execute, if_neg hrefused]
      exact attempt_done _ _ _

theorem attempt_write_ok {setting : Text × Text} {settings : List (Text × Text)}
    {faults : List Bool} {config : RepoConfig}
    (hwrites : ¬WriteFails (variablesOf config sectionName) faults (setting :: settings) 0) :
    attempt execute none faults (writeAll onError sectionName (setting :: settings)) config =
      attempt execute none faults.tail (writeAll onError sectionName settings)
        (written sectionName config [setting]) := by
  rw [writeFails_zero, not_or, Nat.not_lt] at hwrites
  rw [writeAll_cons, attempt_run, if_neg hwrites.1]
  simp only [execute, if_pos hwrites.2]
  rfl

/-- All settings are written, or those before the first write that fails. -/
theorem attempt_writeAll {settings : List (Text × Text)} (hdistinct : Distinct settings)
    (faults : List Bool) (config : RepoConfig) :
    ((∀ i < settings.length, ¬WriteFails (variablesOf config sectionName) faults settings i) ∧
      attempt execute none faults (writeAll onError sectionName settings) config =
        (.ok (), written sectionName config settings)) ∨
    ∃ i error, i < settings.length ∧
      WriteFails (variablesOf config sectionName) faults settings i ∧
      (∀ j < i, ¬WriteFails (variablesOf config sectionName) faults settings j) ∧
      attempt execute none faults (writeAll onError sectionName settings) config =
        (.error error, written sectionName config (settings.take i)) := by
  induction settings generalizing faults config with
  | nil => exact Or.inl ⟨by simp, attempt_done _ _ _⟩
  | cons setting settings ih =>
    by_cases hfails : WriteFails (variablesOf config sectionName) faults (setting :: settings) 0
    · right
      have hrun := attempt_write_failed onError sectionName hfails
      exact ⟨0, _, Nat.succ_pos _, hfails, by simp, hrun⟩
    · have hvars : variablesOf (written sectionName config [setting]) sectionName =
          (variablesOf config sectionName).put setting.1 setting.2 := variablesOf_update _ _ _
      rw [attempt_write_ok onError sectionName hfails]
      have hrest := ih (List.pairwise_cons.mp hdistinct).2 faults.tail
        (written sectionName config [setting])
      rw [hvars] at hrest
      have hshift := writeFails_cons hdistinct (variablesOf config sectionName) faults
      rcases hrest with ⟨hnone, hrun⟩ | ⟨i, error, hlt, hfail, hfirst, hrun⟩
      · left
        refine ⟨?_, hrun⟩
        intro i hi
        cases i with
        | zero => exact hfails
        | succ i => exact mt (hshift i).mp (hnone i (Nat.lt_of_succ_lt_succ hi))
      · right
        refine ⟨i + 1, error, Nat.succ_lt_succ hlt, (hshift i).mpr hfail, ?_, hrun⟩
        intro j hj
        cases j with
        | zero => exact hfails
        | succ j => exact mt (hshift j).mp (hfirst j (Nat.lt_of_succ_lt_succ hj))

theorem written_of_ok {settings : List (Text × Text)} (hdistinct : Distinct settings)
    {faults : List Bool} {config final : RepoConfig}
    (hrun : attempt execute none faults (writeAll onError sectionName settings) config =
      (.ok (), final)) : final = written sectionName config settings := by
  rcases attempt_writeAll onError sectionName hdistinct faults config with
    ⟨_, hwrites⟩ | ⟨_, _, _, _, _, hwrites⟩
  · exact (Prod.mk.inj (hrun.symm.trans hwrites)).2
  · cases (Prod.mk.inj (hrun.symm.trans hwrites)).1

end Writes

end GitConfig
