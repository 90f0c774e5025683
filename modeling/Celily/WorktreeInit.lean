import Celily.CommandEnvironment
import Celily.IsolatedStart
import Celily.ErrexitScripts

/-!
# The start of a worktree session

`worktree-init.sh` clones the read-only project and runs the session's command in the
clone. Of git's commands it is assumed what they have done when they report success;
they may fail in any way. Whatever fails, the command never runs anywhere but in the
clone, with its branch checked out: at the branch's commit in the project, or at what
the project has checked out if `show-ref` does not report that branch.
-/

namespace WorktreeInit

open RustText HostPaths InstanceLifecycle EnvironmentMaps LxcArguments CommandEnvironment
open JoinedTasks LifecycleTraces IsolatedStart ErrexitScripts

/-! ## The script -/

def text (s : String) : Piece UInt8 := .text (utf8 s.toList)

def param (name : String) : Piece UInt8 := .param (utf8 name.toList)

def word (s : String) : Word UInt8 := [text s]

def worktreePath : Word UInt8 := [param "worktree_path"]

def showRef : List (Word UInt8) :=
  [word "git", word "-C", [param "project"], word "show-ref", word "--verify", word "--quiet",
    [text "refs/heads/", param "branch"]]

def cloneBranch : List (Word UInt8) :=
  [word "git", word "clone", word "--quiet", word "--shared", word "--branch",
    [param "branch"], [param "project"], worktreePath]

def cloneHead : List (Word UInt8) :=
  [word "git", word "clone", word "--quiet", word "--shared", [param "project"], worktreePath]

def switchCreate : List (Word UInt8) :=
  [word "git", word "-C", worktreePath, word "switch", word "--quiet", word "--create",
    [param "branch"]]

/-- `worktree-init.sh` -/
def worktreeInit : Script UInt8 :=
  .seq .strict <|
  .seq (.assign (utf8 "worktree_path".toList)
    [param "HOME", text "/", param "CELILY_WORKTREE_NAME"]) <|
  .seq (.assign (utf8 "project".toList) [param "CELILY_WORKTREE_PROJECT"]) <|
  .seq (.assign (utf8 "branch".toList) [param "CELILY_WORKTREE_BRANCH"]) <|
  .seq (.branch showRef (.run cloneBranch) (.seq (.run cloneHead) (.run switchCreate))) <|
  .seq (.cd worktreePath) .execArgs

/-! ## Git -/

variable {Commit : Type}

inductive Head (Commit : Type) where
  | branch (name : Bytes)
  | detached (commit : Commit)

structure Repo (Commit : Type) where
  branches : Bytes → Option Commit
  head : Head Commit

/-- What is checked out; nothing on a branch without commits. -/
def Repo.tip (repo : Repo Commit) : Option Commit :=
  match repo.head with
  | .branch name => repo.branches name
  | .detached commit => some commit

/-- The repositories, by their paths. -/
abbrev Repos (Commit : Type) := Bytes → Option (Repo Commit)

def literals (words : List String) : List Bytes := words.map fun s => utf8 s.toList

/-- The commands of the script. -/
inductive GitCommand where
  | showRef (dir branch : Bytes)
  | cloneBranch (branch project path : Bytes)
  | cloneHead (project path : Bytes)
  | switchCreate (dir branch : Bytes)

def GitCommand.argv : GitCommand → List Bytes
  | .showRef dir branch =>
    literals ["git", "-C"] ++ [dir] ++ literals ["show-ref", "--verify", "--quiet"] ++
      [utf8 "refs/heads/".toList ++ branch]
  | .cloneBranch branch project path =>
    literals ["git", "clone", "--quiet", "--shared", "--branch"] ++ [branch, project, path]
  | .cloneHead project path =>
    literals ["git", "clone", "--quiet", "--shared"] ++ [project, path]
  | .switchCreate dir branch =>
    literals ["git", "-C"] ++ [dir] ++ literals ["switch", "--quiet", "--create"] ++ [branch]

/-- What the commands are documented to have done when they report success. `show-ref`
only reads, whatever it reports; how the others fail is open. -/
structure Documented (tools : Tools UInt8 (Repos Commit)) : Prop where
  reads : ∀ {dir branch cwd w status w'},
    tools.runs (GitCommand.showRef dir branch).argv cwd w status w' → w' = w
  showRef : ∀ {dir branch cwd w w' repo},
    tools.runs (GitCommand.showRef dir branch).argv cwd w 0 w' → w dir = some repo →
    ∃ commit, repo.branches branch = some commit
  cloneBranch : ∀ {branch project path cwd w w'},
    isAbsolute project = true → isAbsolute path = true →
    tools.runs (GitCommand.cloneBranch branch project path).argv cwd w 0 w' →
    ∃ source repo, w project = some source ∧ w path = none ∧
      w' = Function.update w path (some repo) ∧
      ∀ commit, source.branches branch = some commit →
        repo.head = .branch branch ∧ repo.tip = some commit
  cloneHead : ∀ {project path cwd w w'}, isAbsolute project = true → isAbsolute path = true →
    tools.runs (GitCommand.cloneHead project path).argv cwd w 0 w' →
    ∃ source repo, w project = some source ∧ w path = none ∧
      w' = Function.update w path (some repo) ∧ repo.tip = source.tip
  switchCreate : ∀ {dir branch cwd w w' repo},
    tools.runs (GitCommand.switchCreate dir branch).argv cwd w 0 w' → w dir = some repo →
    ∃ switched, w' = Function.update w dir (some switched) ∧
      switched.head = .branch branch ∧ switched.tip = repo.tip
  cd : ∀ {dir path cwd w}, isAbsolute dir = true → tools.enters w cwd dir = some path → path = dir

/-! ## What the script does -/

/-- What the session is told: the home, the name of the worktree, the project and the
branch. -/
structure Told where
  home : Bytes
  name : Bytes
  project : Bytes
  branch : Bytes

def Told.worktree (told : Told) : Bytes := told.home ++ 47 :: told.name

structure Told.From (told : Told) (vars : List (Bytes × Bytes)) : Prop where
  home : vars.lookup (utf8 "HOME".toList) = some told.home
  name : vars.lookup (utf8 "CELILY_WORKTREE_NAME".toList) = some told.name
  project : vars.lookup (utf8 "CELILY_WORKTREE_PROJECT".toList) = some told.project
  branch : vars.lookup (utf8 "CELILY_WORKTREE_BRANCH".toList) = some told.branch

/-- The variables of the script are set. -/
structure Ready (told : Told) (w : Repos Commit) (s : Shell UInt8 (Repos Commit)) : Prop where
  strict : s.strict = true
  path : s.vars.lookup (utf8 "worktree_path".toList) = some told.worktree
  project : s.vars.lookup (utf8 "project".toList) = some told.project
  branch : s.vars.lookup (utf8 "branch".toList) = some told.branch
  world : s.world = w

/-- `show-ref` reports the branch not to be there, or fails otherwise. -/
def Unreported (tools : Tools UInt8 (Repos Commit)) (told : Told) (w : Repos Commit) : Prop :=
  ∃ cwd status, status ≠ 0 ∧
    tools.runs (GitCommand.showRef told.project told.branch).argv cwd w status w

/-- The only repository that is new is the clone, with the branch checked out. -/
structure CheckedOut (tools : Tools UInt8 (Repos Commit)) (told : Told) (w w' : Repos Commit) :
    Prop where
  source : ∃ source repo, w told.project = some source ∧ w' told.worktree = some repo ∧
    repo.head = .branch told.branch ∧
    ((source.branches told.branch).isSome ∧ repo.tip = source.branches told.branch ∨
      repo.tip = source.tip ∧ Unreported tools told w)
  fresh : w told.worktree = none
  others : ∀ path, path ≠ told.worktree → w' path = w path

section Words
variable {s : Shell UInt8 (Repos Commit)} {told : Told} {w : Repos Commit}

theorem words_word {literal : String} {argv : List (Word UInt8)} {rest : List Bytes}
    (hrest : s.words argv = some rest) :
    s.words (word literal :: argv) = some (utf8 literal.toList :: rest) :=
  words_cons (expand_one_iff.mpr rfl) hrest

theorem words_param {name : String} {value : Bytes} {argv : List (Word UInt8)} {rest : List Bytes}
    (hvalue : s.vars.lookup (utf8 name.toList) = some value) (hrest : s.words argv = some rest) :
    s.words ([param name] :: argv) = some (value :: rest) :=
  words_cons (expand_one_iff.mpr (piece_param hvalue)) hrest

/-- A command of the script runs with its own words. -/
theorem runs_of_words {tools : Tools UInt8 (Repos Commit)} {argv : List (Word UInt8)}
    {expected words : List Bytes} {cwd : Bytes} {status : Nat} {w' : Repos Commit}
    (hexpected : s.words argv = some expected) (hwords : s.words argv = some words)
    (hruns : tools.runs words cwd w status w') : tools.runs expected cwd w status w' := by
  obtain rfl := Option.some.inj (hexpected.symm.trans hwords)
  exact hruns

theorem words_showRef (ready : Ready told w s) :
    s.words showRef = some (GitCommand.showRef told.project told.branch).argv := by
  refine words_word (words_word (words_param ready.project ?_))
  refine words_word (words_word (words_word (words_cons ?_ words_nil)))
  exact expand_cons rfl (expand_one_iff.mpr (piece_param ready.branch))

theorem words_cloneBranch (ready : Ready told w s) : s.words cloneBranch =
    some (GitCommand.cloneBranch told.branch told.project told.worktree).argv := by
  refine words_word (words_word (words_word (words_word (words_word ?_))))
  exact words_param ready.branch (words_param ready.project (words_param ready.path words_nil))

theorem words_cloneHead (ready : Ready told w s) :
    s.words cloneHead = some (GitCommand.cloneHead told.project told.worktree).argv := by
  refine words_word (words_word (words_word (words_word ?_)))
  exact words_param ready.project (words_param ready.path words_nil)

theorem words_switchCreate (ready : Ready told w s) :
    s.words switchCreate = some (GitCommand.switchCreate told.worktree told.branch).argv := by
  refine words_word (words_word (words_param ready.path ?_))
  exact words_word (words_word (words_word (words_param ready.branch words_nil)))

end Words

section Steps
variable {tools : Tools UInt8 (Repos Commit)} {args : List Bytes}
  {R : Shell UInt8 (Repos Commit) → Prop} {vars : List (Bytes × Bytes)} {w : Repos Commit}

/-- The variables that the script reads are set from then on. -/
theorem triple_assigns {rest : Script UInt8} {Q : Shell UInt8 (Repos Commit) → Prop}
    (hrest : Triple tools args (fun s => ∃ told : Told, told.From vars ∧ Ready told w s)
      rest Q R) :
    Triple tools args (fun s => s.vars = vars ∧ s.world = w)
      (.seq .strict <|
        .seq (.assign (utf8 "worktree_path".toList)
          [param "HOME", text "/", param "CELILY_WORKTREE_NAME"]) <|
        .seq (.assign (utf8 "project".toList) [param "CELILY_WORKTREE_PROJECT"]) <|
        .seq (.assign (utf8 "branch".toList) [param "CELILY_WORKTREE_BRANCH"]) rest) Q R := by
  refine triple_seq (M := fun s => s.strict = true ∧ s.world = w ∧ s.vars = vars)
    (triple_strict fun s h => ⟨rfl, h.2, h.1⟩) ?_
  refine triple_seq (M := fun s => s.strict = true ∧ s.world = w ∧ ∃ home name,
      vars.lookup (utf8 "HOME".toList) = some home ∧
      vars.lookup (utf8 "CELILY_WORKTREE_NAME".toList) = some name ∧
      s.vars = (utf8 "worktree_path".toList, home ++ 47 :: name) :: vars) ?_ ?_
  · refine triple_assign fun s text h hexpand => ?_
    obtain ⟨hstrict, hworld, hvars⟩ := h
    obtain ⟨home, _, hhome, hbehind, rfl⟩ := expand_cons_iff.mp hexpand
    obtain ⟨slash, _, hslash, hlast, rfl⟩ := expand_cons_iff.mp hbehind
    obtain rfl := Option.some.inj hslash
    have hhome := lookup_of_piece hstrict hhome
    have hname := lookup_of_piece hstrict (expand_one_iff.mp hlast)
    rw [hvars] at hhome hname
    refine ⟨hstrict, hworld, home, _, hhome, hname, ?_⟩
    rw [hvars]
    rfl
  refine triple_seq (M := fun s => s.strict = true ∧ s.world = w ∧ ∃ home name project,
      vars.lookup (utf8 "HOME".toList) = some home ∧
      vars.lookup (utf8 "CELILY_WORKTREE_NAME".toList) = some name ∧
      vars.lookup (utf8 "CELILY_WORKTREE_PROJECT".toList) = some project ∧
      s.vars = (utf8 "project".toList, project) ::
        (utf8 "worktree_path".toList, home ++ 47 :: name) :: vars) ?_ ?_
  · refine triple_assign fun s text h hexpand => ?_
    obtain ⟨hstrict, hworld, home, name, hhome, hname, hvars⟩ := h
    have hproject := lookup_of_piece hstrict (expand_one_iff.mp hexpand)
    rw [hvars] at hproject
    exact ⟨hstrict, hworld, home, name, text, hhome, hname, hproject, by rw [hvars]⟩
  refine triple_seq (triple_assign fun s text h hexpand => ?_) hrest
  obtain ⟨hstrict, hworld, home, name, project, hhome, hname, hproject, hvars⟩ := h
  have hbranch := lookup_of_piece hstrict (expand_one_iff.mp hexpand)
  rw [hvars] at hbranch
  refine ⟨⟨home, name, project, text⟩, ⟨hhome, hname, hproject, hbranch⟩, hstrict, ?_, ?_, ?_,
    hworld⟩
  · rw [hvars]
    rfl
  · rw [hvars]
    rfl
  · rw [hvars]
    rfl

variable {told : Told}

theorem Ready.world_eq {s : Shell UInt8 (Repos Commit)} (ready : Ready told w s)
    (w' : Repos Commit) : Ready told w' { s with world := w' } :=
  ⟨ready.strict, ready.path, ready.project, ready.branch, rfl⟩

theorem Told.worktree_absolute (habs : isAbsolute told.home = true) :
    isAbsolute told.worktree = true := by
  unfold isAbsolute at habs ⊢
  cases hlist : told.home with
  | nil => rw [hlist] at habs; cases habs
  | cons byte rest =>
    rw [hlist] at habs
    rw [Told.worktree, hlist]
    exact habs

/-- One of the two ways leads to the clone. -/
theorem triple_clone (documented : Documented tools) (hproject : isAbsolute told.project = true)
    (hworktree : isAbsolute told.worktree = true) :
    Triple tools args (Ready told w)
      (.branch showRef (.run cloneBranch) (.seq (.run cloneHead) (.run switchCreate)))
      (fun s => ∃ w', CheckedOut tools told w w' ∧ Ready told w' s) R := by
  have hstrict : ∀ s, Ready told w s → s.strict = true := fun s ready => ready.strict
  refine triple_branch (Y := fun s => Ready told w s ∧ ∀ source,
      w told.project = some source → ∃ commit, source.branches told.branch = some commit)
    (N := fun s => Ready told w s ∧ Unreported tools told w) ?_ ?_
    (triple_run (fun s h => h.1.strict) ?_)
    (triple_seq (M := fun s => Unreported tools told w ∧ ∃ source repo,
      w told.project = some source ∧ w told.worktree = none ∧ repo.tip = source.tip ∧
      Ready told (Function.update w told.worktree (some repo)) s)
      (triple_run (fun s h => h.1.strict) ?_)
      (triple_run (fun s h => h.2.choose_spec.choose_spec.2.2.2.strict) ?_))
  · intro s words world ready hwords hruns
    rw [ready.world] at hruns
    have hshown := runs_of_words (words_showRef ready) hwords hruns
    obtain rfl := documented.reads hshown
    exact ⟨ready.world_eq world, fun source hsource => documented.showRef hshown hsource⟩
  · intro s words status world ready hwords hstatus hruns
    rw [ready.world] at hruns
    have hshown := runs_of_words (words_showRef ready) hwords hruns
    obtain rfl := documented.reads hshown
    exact ⟨ready.world_eq world, s.cwd, status, hstatus, hshown⟩
  · intro s words world h hwords hruns
    obtain ⟨ready, hshown⟩ := h
    rw [ready.world] at hruns
    obtain ⟨source, repo, hsource, hfresh, rfl, hcloned⟩ := documented.cloneBranch hproject
      hworktree (runs_of_words (words_cloneBranch ready) hwords hruns)
    obtain ⟨commit, hcommit⟩ := hshown source hsource
    obtain ⟨hhead, htip⟩ := hcloned commit hcommit
    refine ⟨_, ⟨⟨source, repo, hsource, Function.update_self _ _ _, hhead, Or.inl ⟨?_, ?_⟩⟩,
      hfresh, fun path hpath => Function.update_of_ne hpath _ _⟩, ready.world_eq _⟩
    · rw [hcommit]
      rfl
    · rw [hcommit, htip]
  · intro s words world h hwords hruns
    obtain ⟨ready, unreported⟩ := h
    rw [ready.world] at hruns
    obtain ⟨source, repo, hsource, hfresh, rfl, htip⟩ := documented.cloneHead hproject hworktree
      (runs_of_words (words_cloneHead ready) hwords hruns)
    exact ⟨unreported, source, repo, hsource, hfresh, htip, ready.world_eq _⟩
  · intro s words world h hwords hruns
    obtain ⟨unreported, source, repo, hsource, hfresh, htip, ready⟩ := h
    rw [ready.world] at hruns
    obtain ⟨switched, rfl, hhead, hswitched⟩ := documented.switchCreate
      (runs_of_words (words_switchCreate ready) hwords hruns) (Function.update_self _ _ _)
    rw [Function.update_idem]
    exact ⟨_, ⟨⟨source, switched, hsource, Function.update_self _ _ _, hhead,
      Or.inr ⟨hswitched.trans htip, unreported⟩⟩, hfresh,
      fun path hpath => Function.update_of_ne hpath _ _⟩, ready.world_eq _⟩

end Steps

/-- Where the command runs, if it runs at all. -/
structure InClone (tools : Tools UInt8 (Repos Commit)) (told : Told) (w : Repos Commit)
    (s : Shell UInt8 (Repos Commit)) : Prop where
  cwd : s.cwd = told.worktree
  clone : CheckedOut tools told w s.world

theorem triple_worktreeInit {tools : Tools UInt8 (Repos Commit)} (documented : Documented tools)
    {args : List Bytes} (hargs : args ≠ []) {vars : List (Bytes × Bytes)} {w : Repos Commit}
    (habs : ∀ told : Told, told.From vars →
      isAbsolute told.home = true ∧ isAbsolute told.project = true) :
    Triple tools args (fun s => s.vars = vars ∧ s.world = w) worktreeInit (fun _ => False)
      (fun s => ∃ told : Told, told.From vars ∧ InClone tools told w s) := by
  refine triple_assigns ?_
  refine triple_seq (M := fun s => ∃ told : Told, told.From vars ∧ ∃ w',
    CheckedOut tools told w w' ∧ Ready told w' s) ?_ ?_
  · rintro s o ⟨told, hfrom, ready⟩ hexec
    obtain ⟨hhome, hproject⟩ := habs told hfrom
    have hmeets := triple_clone documented (R := fun s => ∃ told : Told, told.From vars ∧
      InClone tools told w s) hproject (told.worktree_absolute hhome) s o ready hexec
    cases o with
    | next status shell => exact ⟨told, hfrom, hmeets⟩
    | exited status world => exact hmeets
    | replaced argv shell => exact hmeets
  · refine triple_seq (M := fun s => ∃ told : Told, told.From vars ∧ InClone tools told w s)
      (triple_cd (fun s h => ?_) fun s dir path h hexpand henters => ?_)
      (triple_execArgs hargs fun _ h => h)
    · obtain ⟨_, _, _, _, ready⟩ := h
      exact ready.strict
    · obtain ⟨told, hfrom, w', hclone, ready⟩ := h
      have hdir := (piece_param ready.path).symm.trans (expand_one_iff.mp hexpand)
      obtain rfl := Option.some.inj hdir
      have hroot := told.worktree_absolute (habs told hfrom).1
      refine ⟨told, hfrom, documented.cd hroot henters, ?_⟩
      rw [ready.world]
      exact hclone

/-! ## The session's shell -/

def validChar (c : Char) : Bool := c.isAlphanum || c = '.' || c = '_' || c = '-'

def invalidNameMessage (s : Text) : Text :=
  "invalid worktree name '".toList ++ s ++
    "': use ASCII letters, digits, '.', '_' or '-', not starting with '.' or '-'".toList

def parseWorktreeName (s : Text) : Except Text Text :=
  match s.head? with
  | some first =>
    if first ≠ '.' ∧ first ≠ '-' ∧ s.all validChar = true then .ok s
    else .error (invalidNameMessage s)
  | none => .error (invalidNameMessage s)

/-- A worktree name is one plain component of a path. -/
theorem parseWorktreeName_ok {s name : Text} (hname : parseWorktreeName s = .ok name) :
    s = name ∧ '/' ∉ name ∧ pieceComponent (utf8 name) = some (.name (utf8 name)) := by
  unfold parseWorktreeName at hname
  cases hhead : s.head? with
  | none => rw [hhead] at hname; cases hname
  | some first =>
    rw [hhead] at hname
    dsimp only at hname
    split at hname
    · rename_i hvalid
      obtain rfl := Except.ok.inj hname
      obtain ⟨hdot, _, hall⟩ := hvalid
      refine ⟨rfl, fun hslash => ?_, ?_⟩
      · exact absurd (List.all_eq_true.mp hall '/' hslash) (by decide)
      · have hstart : ∀ dots : Text, dots.head? = some '.' → utf8 s ≠ utf8 dots := by
          intro dots hdots hsame
          rw [utf8_injective hsame, hdots] at hhead
          exact hdot (Option.some.inj hhead).symm
        have hne : utf8 s ≠ utf8 [] := by
          intro hempty
          rw [utf8_injective hempty] at hhead
          cases hhead
        have hcur : utf8 s ≠ [46] := hstart ['.'] rfl
        have hup : utf8 s ≠ [46, 46] := hstart ['.', '.'] rfl
        rw [utf8_nil] at hne
        simp [pieceComponent, hne, hcur, hup]
    · cases hname

/-- What a variable of a map is set to, whatever the order of the map was. -/
theorem environment_map {env order : List (Text × Text)} (hmap : IsMap env)
    (hkeys : ∀ entry ∈ env, '=' ∉ entry.1) (horder : order.Perm env) (backend : LxcBackend)
    (name : Text) (command : List Text) (cwd : Bytes) (uid gid : UInt32) (home : Bytes)
    (proxy : Text) {key : Text} (hfree : ∀ other ∈ forcedNames, utf8 other ≠ utf8 key) :
    environment (backend.exec name command order cwd uid gid (some home) (some proxy))
      (utf8 key) = (env.lookup key).map utf8 := by
  have hunforced : ((forced home proxy).map fun entry =>
      (utf8 entry.1, entry.2)).reverse.lookup (utf8 key) = none := by
    rw [List.lookup_eq_none_iff]
    intro entry hentry
    obtain ⟨own, hown, rfl⟩ := List.mem_map.mp (List.mem_reverse.mp hentry)
    rw [bne_iff_ne]
    exact (hfree own.1 (mem_forcedNames hown)).symm
  have hwords : (order.map fun entry => assignment (envPair (entry.1, utf8 entry.2))) =
      order.map fun entry => (utf8 entry.1, utf8 entry.2) :=
    List.map_congr_left fun entry hentry =>
      assignment_envPair (hkeys entry (horder.mem_iff.mp hentry)) (utf8 entry.2)
  rw [environment_exec, hunforced, Option.none_or, hwords, ← List.map_reverse, lookup_map_utf8,
    (toStr_eq_some_iff _ _).mpr rfl, Option.bind_some,
    lookup_perm hmap (horder.symm.trans order.reverse_perm.symm)]

/-- What a session adds to the environment. -/
def sessionEnv (plan : Plan) (worktree : Worktree) : List (Text × Text) :=
  [("GIT_AUTHOR_NAME".toList, worktree.gitName), ("GIT_AUTHOR_EMAIL".toList, worktree.gitEmail),
    ("GIT_COMMITTER_NAME".toList, worktree.gitName),
    ("GIT_COMMITTER_EMAIL".toList, worktree.gitEmail),
    ("CELILY_WORKTREE_BRANCH".toList, worktree.branchName),
    ("CELILY_WORKTREE_NAME".toList, worktree.name),
    ("CELILY_WORKTREE_PROJECT".toList, fromUtf8Lossy plan.projectDir)]

theorem isMap_sessionEnv (plan : Plan) (worktree : Worktree) :
    IsMap (sessionEnv plan worktree) :=
  (by decide : (["GIT_AUTHOR_NAME", "GIT_AUTHOR_EMAIL", "GIT_COMMITTER_NAME",
    "GIT_COMMITTER_EMAIL", "CELILY_WORKTREE_BRANCH", "CELILY_WORKTREE_NAME",
    "CELILY_WORKTREE_PROJECT"].map String.toList).Nodup)

theorem lookup_worktreeEnv (plan : Plan) (worktree : Worktree) (key : Text) :
    (worktreeEnv plan worktree).lookup key =
      ((sessionEnv plan worktree).lookup key).or (plan.env.lookup key) :=
  lookup_foldl_setEnv (isMap_sessionEnv plan worktree) plan.env key

theorem equals_notMem_worktreeEnv {plan : Plan} {worktree : Worktree} (hmap : IsMap plan.env)
    (hkeys : ∀ entry ∈ plan.env, '=' ∉ entry.1) :
    ∀ entry ∈ worktreeEnv plan worktree, '=' ∉ entry.1 := by
  intro entry hentry
  have hworktree : IsMap (worktreeEnv plan worktree) := isMap_foldl_setEnv hmap _
  have hlookup := (lookup_eq_some_iff hworktree).mpr hentry
  rw [lookup_worktreeEnv, Option.or_eq_some_iff] at hlookup
  rcases hlookup with hsession | ⟨_, hplan⟩
  · have hmem := (lookup_eq_some_iff (isMap_sessionEnv plan worktree)).mp hsession
    have hnames : ∀ key ∈ (sessionEnv plan worktree).map Prod.fst, '=' ∉ key := by
      change ∀ key ∈ ["GIT_AUTHOR_NAME", "GIT_AUTHOR_EMAIL", "GIT_COMMITTER_NAME",
        "GIT_COMMITTER_EMAIL", "CELILY_WORKTREE_BRANCH", "CELILY_WORKTREE_NAME",
        "CELILY_WORKTREE_PROJECT"].map String.toList, '=' ∉ key
      decide
    exact hnames _ (List.mem_map_of_mem hmem)
  · exact hkeys entry ((lookup_eq_some_iff hmap).mp hplan)

/-- The variables of a command run by an `exec` of lxc. -/
def shellVars (argv : List Bytes) : List (Bytes × Bytes) :=
  ((envWords argv).map assignment).reverse

/-- The command of a session is behind `sh -c script --`. -/
theorem emits_runCommand_session {cfg : LaunchConfig} {isolation : Isolation} {plan : Plan}
    {worktree : Worktree} (hplan : plan.worktree = some worktree) :
    Emits (fun c => ∀ name command env cwd uid gid home proxy,
      c = .exec name command env cwd uid gid home proxy →
      (∃ raw, raw ≠ [] ∧
        command = ["sh".toList, "-c".toList, worktree.initScript, "--".toList] ++ raw) ∧
      env = worktreeEnv plan worktree ∧ home = cfg.containerHome)
      (runCommand cfg isolation plan).run := by
  rw [runCommand, hplan]
  refine emits_seq (emits_request (by simp)) fun _ =>
    emits_holding (emits_call (by simp) fun _ => emits_done _) (emits_request ?_)
  rintro name command env cwd uid gid home proxy heq
  obtain ⟨_, rfl, rfl, _, _, _, rfl, _⟩ := Command.exec.inj heq
  refine ⟨⟨_, ?_, rfl⟩, rfl, rfl⟩
  split
  · simp
  · assumption

/-- What the script is told in a session. -/
def sessionTold (cfg : LaunchConfig) (plan : Plan) (worktree : Worktree) : Told where
  home := cfg.containerHome
  name := utf8 worktree.name
  project := utf8 (fromUtf8Lossy plan.projectDir)
  branch := utf8 worktree.branchName

theorem sessionTold_from (cfg : LaunchConfig) {plan : Plan} {worktree : Worktree}
    (hmap : IsMap plan.env) (hkeys : ∀ entry ∈ plan.env, '=' ∉ entry.1)
    {order : List (Text × Text)} (horder : order.Perm (worktreeEnv plan worktree))
    (backend : LxcBackend) (name : Text) (command : List Text) (cwd : Bytes) (uid gid : UInt32)
    (proxy : Text) :
    (sessionTold cfg plan worktree).From (shellVars
      (backend.exec name command order cwd uid gid (some cfg.containerHome) (some proxy))) := by
  have hlookup : ∀ key, (∀ other ∈ forcedNames, utf8 other ≠ utf8 key) →
      (shellVars (backend.exec name command order cwd uid gid (some cfg.containerHome)
        (some proxy))).lookup (utf8 key) =
        (((sessionEnv plan worktree).lookup key).or (plan.env.lookup key)).map utf8 := by
    intro key hfree
    rw [← lookup_worktreeEnv]
    exact environment_map (isMap_foldl_setEnv hmap _) (equals_notMem_worktreeEnv hmap hkeys) horder
      backend name command cwd uid gid cfg.containerHome proxy hfree
  refine ⟨?_, ?_, ?_, ?_⟩
  · have hforced := lookup_forced cfg.containerHome proxy ("HOME".toList, cfg.containerHome)
      List.mem_cons_self
    refine (environment_exec backend name command order cwd uid gid cfg.containerHome proxy
      (utf8 "HOME".toList)).trans ?_
    rw [hforced, Option.some_or]
    rfl
  · exact hlookup "CELILY_WORKTREE_NAME".toList (by decide)
  · exact hlookup "CELILY_WORKTREE_PROJECT".toList (by decide)
  · exact hlookup "CELILY_WORKTREE_BRANCH".toList (by decide)

theorem Told.From.unique {told other : Told} {vars : List (Bytes × Bytes)}
    (hfrom : told.From vars) (hother : other.From vars) : told = other := by
  obtain ⟨home, name, project, branch⟩ := told
  obtain ⟨home', name', project', branch'⟩ := other
  obtain rfl : home = home' := Option.some.inj (hfrom.home.symm.trans hother.home)
  obtain rfl : name = name' := Option.some.inj (hfrom.name.symm.trans hother.name)
  obtain rfl : project = project' := Option.some.inj (hfrom.project.symm.trans hother.project)
  obtain rfl : branch = branch' := Option.some.inj (hfrom.branch.symm.trans hother.branch)
  rfl

theorem isAbsolute_lossy {path : Bytes} (habs : isAbsolute path = true) :
    isAbsolute (utf8 (fromUtf8Lossy path)) = true := by
  cases path with
  | nil => cases habs
  | cons byte rest =>
    obtain rfl : byte = 47 := by simpa [isAbsolute] using habs
    rfl

/-- The command of a session runs in the clone, on the session's branch, or it does not
run and the session fails. The remote of the session names the same directory. -/
theorem command_in_clone {tools : Tools UInt8 (Repos Commit)} (documented : Documented tools)
    {cfg : LaunchConfig} {isolation : Isolation} {plan : Plan}
    {worktree : Worktree} (hplan : plan.worktree = some worktree) {given : Text}
    (hgiven : parseWorktreeName given = .ok worktree.name)
    (hhome : isAbsolute cfg.containerHome = true) (hproject : isAbsolute plan.projectDir = true)
    (hmap : IsMap plan.env) (hkeys : ∀ entry ∈ plan.env, '=' ∉ entry.1)
    {h : List (Event Reply)} {r : Except LaunchError Int}
    (hrun : Runs (runCommand cfg isolation plan).run h r) {name : Text} {command : List Text}
    {env order : List (Text × Text)} {cwd : Bytes} {uid gid : UInt32} {home : Bytes} {proxy : Text}
    (hissued : .issued (.exec name command env cwd uid gid home proxy) ∈ h)
    (horder : order.Perm env) (backend : LxcBackend) {s : Shell UInt8 (Repos Commit)}
    (hvars : s.vars = shellVars
      (backend.exec name command order cwd uid gid (some home) (some proxy)))
    {o : Outcome UInt8 (Repos Commit)}
    (hexec : Exec tools ((command.drop 4).map utf8) worktreeInit s o) :
    (∃ status world, o = .exited status world ∧ status ≠ 0) ∨
    ∃ shell, o = .replaced ((command.drop 4).map utf8) shell ∧
      InClone tools (sessionTold cfg plan worktree) s.world shell ∧
      components shell.cwd = components (join cfg.containerHome (utf8 worktree.name)) := by
  obtain ⟨⟨raw, hraw, rfl⟩, rfl, rfl⟩ := emits_runCommand_session hplan h r hrun _ hissued
    name command env cwd uid gid home proxy rfl
  have hfrom := sessionTold_from cfg hmap hkeys horder backend name
    (["sh".toList, "-c".toList, worktree.initScript, "--".toList] ++ raw) cwd uid gid proxy
  rw [← hvars] at hfrom
  have habs : ∀ told : Told, told.From s.vars →
      isAbsolute told.home = true ∧ isAbsolute told.project = true := by
    intro told htold
    obtain rfl := htold.unique hfrom
    exact ⟨hhome, isAbsolute_lossy hproject⟩
  have hargs : (List.drop 4 (["sh".toList, "-c".toList, worktree.initScript, "--".toList] ++
      raw)).map utf8 ≠ [] := by
    simpa using hraw
  have hmeets := triple_worktreeInit documented hargs habs s o ⟨rfl, rfl⟩ hexec
  cases o with
  | next status shell => exact hmeets.elim
  | exited status world => exact Or.inl ⟨status, world, rfl, hmeets⟩
  | replaced argv shell =>
    obtain ⟨rfl, told, htold, inClone⟩ := hmeets
    obtain rfl := htold.unique hfrom
    refine Or.inr ⟨shell, rfl, inClone, ?_⟩
    obtain ⟨_, hslash, hpiece⟩ := parseWorktreeName_ok hgiven
    have hne : cfg.containerHome ≠ [] := by
      intro hempty
      rw [hempty] at hhome
      cases hhome
    have hslash := slash_notMem_utf8 hslash
    rw [inClone.cwd, Told.worktree, sessionTold, components_append_slash _ hslash,
      components_slash hne, components_join _ hslash hpiece, hpiece]
    rfl

def workSession : Worktree :=
  ⟨"fix".toList, "celily/fix".toList, "U".toList, "u@example.com".toList, "set -eu".toList⟩

def sessionPlan : Plan := { workPlan with worktree := some workSession }

def sessionIsolation : Isolation := ⟨⟨⟨0x0a000301⟩, 25, by decide⟩, [], []⟩

/-! ## Git where nothing fails -/

/-- The branches of a clone, of which it has one or none. -/
def only (name : Bytes) (commit : Option Nat) : Bytes → Option Nat :=
  Function.update (fun _ => none) name commit

theorem only_ne {name other : Bytes} (hne : other ≠ name) (commit : Option Nat) :
    only name commit other = none := by
  rw [only, Function.update_of_ne hne]

def cloneOf (repo : Repo Nat) : Repo Nat where
  branches :=
    match repo.head with
    | .branch name => only name (repo.branches name)
    | .detached _ => fun _ => none
  head := repo.head

theorem tip_update (branches : Bytes → Option Nat) (branch : Bytes) (commit : Option Nat) :
    Repo.tip ⟨Function.update branches branch commit, .branch branch⟩ = commit := by
  change Function.update branches branch commit branch = commit
  rw [Function.update_self]

/-- A clone has what the original has checked out. -/
theorem tip_cloneOf (repo : Repo Nat) : (cloneOf repo).tip = repo.tip := by
  obtain ⟨branches, head⟩ := repo
  cases head with
  | branch name => exact tip_update _ name (branches name)
  | detached commit => rfl

/-- Git on repositories with numbers for commits. -/
inductive PlainGit (w : Repos Nat) : GitCommand → Nat → Repos Nat → Prop where
  | found {dir branch : Bytes} {repo : Repo Nat} {commit : Nat} :
      w dir = some repo → repo.branches branch = some commit →
      PlainGit w (.showRef dir branch) 0 w
  | notFound {dir branch : Bytes} :
      (∀ repo, w dir = some repo → repo.branches branch = none) →
      PlainGit w (.showRef dir branch) 1 w
  | cloneBranch {branch project path : Bytes} {repo : Repo Nat} {commit : Nat} :
      w project = some repo → repo.branches branch = some commit → w path = none →
      PlainGit w (.cloneBranch branch project path) 0
        (Function.update w path (some ⟨only branch (some commit), .branch branch⟩))
  | cloneHead {project path : Bytes} {repo : Repo Nat} :
      w project = some repo → w path = none →
      PlainGit w (.cloneHead project path) 0 (Function.update w path (some (cloneOf repo)))
  | switchCreate {dir branch : Bytes} {repo : Repo Nat} :
      w dir = some repo → repo.branches branch = none →
      PlainGit w (.switchCreate dir branch) 0 (Function.update w dir
        (some ⟨Function.update repo.branches branch repo.tip, .branch branch⟩))

def plainTools : Tools UInt8 (Repos Nat) where
  runs argv _ w status w' := ∃ command : GitCommand, argv = command.argv ∧
    PlainGit w command status w'
  enters w _ dir := if (w dir).isSome then some dir else none

theorem argv_injective {a b : GitCommand} (h : a.argv = b.argv) : a = b := by
  have hne : utf8 "show-ref".toList ≠ utf8 "switch".toList := by decide
  cases a <;> cases b <;> simp_all [GitCommand.argv, literals]

theorem plain_runs {command : GitCommand} {cwd : Bytes} {w w' : Repos Nat} {status : Nat} :
    plainTools.runs command.argv cwd w status w' ↔ PlainGit w command status w' := by
  constructor
  · rintro ⟨other, hargv, hgit⟩
    rwa [argv_injective hargv]
  · exact fun hgit => ⟨command, rfl, hgit⟩

theorem plainTools_documented : Documented plainTools where
  reads hruns := by
    cases plain_runs.mp hruns with
    | found => rfl
    | notFound => rfl
  showRef hruns hrepo := by
    cases plain_runs.mp hruns with
    | found hfound hcommit =>
      obtain rfl := Option.some.inj (hrepo.symm.trans hfound)
      exact ⟨_, hcommit⟩
  cloneBranch _ _ hruns := by
    cases plain_runs.mp hruns with
    | cloneBranch hrepo hfound hfresh =>
      refine ⟨_, _, hrepo, hfresh, rfl, fun commit hcommit => ⟨rfl, ?_⟩⟩
      rw [← hcommit, hfound]
      exact tip_update _ _ _
  cloneHead _ _ hruns := by
    cases plain_runs.mp hruns with
    | cloneHead hrepo hfresh => exact ⟨_, _, hrepo, hfresh, rfl, tip_cloneOf _⟩
  switchCreate hruns hrepo := by
    cases plain_runs.mp hruns with
    | switchCreate hfound hnone =>
      obtain rfl := Option.some.inj (hrepo.symm.trans hfound)
      exact ⟨_, rfl, rfl, tip_update _ _ _⟩
  cd _ henters := by
    change (if _ then _ else _) = _ at henters
    split at henters
    · exact (Option.some.inj henters).symm
    · cases henters

/-- A session on a new branch starts. -/
theorem exec_new_branch {args : List Bytes} (hargs : args ≠ []) {vars : List (Bytes × Bytes)}
    {w : Repos Nat} {told : Told} (hfrom : told.From vars) {source : Repo Nat}
    (hsource : w told.project = some source) (hnone : source.branches told.branch = none)
    (hclone : (cloneOf source).branches told.branch = none) (hfresh : w told.worktree = none)
    (cwd : Bytes) (strict : Bool) :
    ∃ shell, Exec plainTools args worktreeInit ⟨vars, cwd, w, strict⟩ (.replaced args shell) := by
  -- the variables after each of the three assignments
  let pathVars := (utf8 "worktree_path".toList, told.worktree) :: vars
  let projectVars := (utf8 "project".toList, told.project) :: pathVars
  let branchVars := (utf8 "branch".toList, told.branch) :: projectVars
  have hslash : (⟨vars, cwd, w, true⟩ : Shell UInt8 (Repos Nat)).piece (text "/") = some [47] :=
    rfl
  have hpath : Exec plainTools args (.assign (utf8 "worktree_path".toList)
      [param "HOME", text "/", param "CELILY_WORKTREE_NAME"]) ⟨vars, cwd, w, true⟩
      (.next 0 ⟨pathVars, cwd, w, true⟩) :=
    .assign (expand_cons (piece_param hfrom.home)
      (expand_cons hslash (expand_one_iff.mpr (piece_param hfrom.name))))
  have hproject : Exec plainTools args (.assign (utf8 "project".toList)
      [param "CELILY_WORKTREE_PROJECT"]) ⟨pathVars, cwd, w, true⟩
      (.next 0 ⟨projectVars, cwd, w, true⟩) :=
    .assign (expand_one_iff.mpr (piece_param hfrom.project))
  have hbranch : Exec plainTools args (.assign (utf8 "branch".toList)
      [param "CELILY_WORKTREE_BRANCH"]) ⟨projectVars, cwd, w, true⟩
      (.next 0 ⟨branchVars, cwd, w, true⟩) :=
    .assign (expand_one_iff.mpr (piece_param hfrom.branch))
  have ready : Ready told w ⟨branchVars, cwd, w, true⟩ := ⟨rfl, rfl, rfl, rfl, rfl⟩
  let cloned := Function.update w told.worktree (some (cloneOf source))
  have hcloned : cloned told.worktree = some (cloneOf source) := Function.update_self _ _ _
  let switched := Function.update cloned told.worktree
    (some ⟨Function.update (cloneOf source).branches told.branch (cloneOf source).tip,
      .branch told.branch⟩)
  have hmissing : PlainGit w (.showRef told.project told.branch) 1 w := by
    refine .notFound fun repo hrepo => ?_
    rw [hsource] at hrepo
    rw [← Option.some.inj hrepo]
    exact hnone
  have hcloneHead : Exec plainTools args (.run cloneHead) ⟨branchVars, cwd, w, true⟩
      (.next 0 ⟨branchVars, cwd, cloned, true⟩) :=
    exec_run (words_cloneHead ready) (plain_runs.mpr (.cloneHead hsource hfresh))
  have hswitch : Exec plainTools args (.run switchCreate) ⟨branchVars, cwd, cloned, true⟩
      (.next 0 ⟨branchVars, cwd, switched, true⟩) :=
    exec_run (words_switchCreate (ready.world_eq cloned))
      (plain_runs.mpr (.switchCreate hcloned hclone))
  have hcd : Exec plainTools args (.cd worktreePath) ⟨branchVars, cwd, switched, true⟩
      (.next 0 ⟨branchVars, told.worktree, switched, true⟩) := by
    refine .cd (expand_one_iff.mpr (piece_param (ready.world_eq switched).path)) ?_
    have hthere : (switched told.worktree).isSome = true := by
      rw [show switched told.worktree = some _ from Function.update_self _ _ _]
      rfl
    exact if_pos hthere
  have hbranches : Exec plainTools args
      (.branch showRef (.run cloneBranch) (.seq (.run cloneHead) (.run switchCreate)))
      ⟨branchVars, cwd, w, true⟩ (.next 0 ⟨branchVars, cwd, switched, true⟩) :=
    .branchNo (words_showRef ready) (plain_runs.mpr hmissing) (by decide)
      (.seq hcloneHead hswitch)
  exact ⟨_, .seq (.strict _) <| .seq hpath <| .seq hproject <| .seq hbranch <|
    .seq hbranches <| .seq hcd (.execArgs _ hargs)⟩

/-- A project with its main branch checked out. -/
def workRepo : Repo Nat := ⟨only (utf8 "main".toList) (some 7), .branch (utf8 "main".toList)⟩

def workRepos : Repos Nat := Function.update (fun _ => none) (utf8 "/home/u/work".toList) workRepo

/-- The session's `make` runs in the clone, which has the project's commit. -/
theorem command_in_clone_fix : ∃ shell : Shell UInt8 (Repos Nat),
    CheckedOut plainTools (sessionTold workConfig sessionPlan workSession) workRepos
      shell.world := by
  have hargs : ["make".toList].map utf8 ≠ [] := by simp
  have hfrom := sessionTold_from workConfig isMap_nil (by decide)
    (List.Perm.refl (worktreeEnv sessionPlan workSession)) LxcBackend.lxd
    workConfig.name ["sh".toList, "-c".toList, "set -eu".toList, "--".toList,
      "make".toList] (utf8 "/home/u/work".toList) 1000 1000
    (proxyUrl sessionIsolation)
  have hproject : fromUtf8Lossy (utf8 "/home/u/work".toList) = "/home/u/work".toList :=
    fromUtf8Lossy_utf8 _
  have hsource : workRepos (sessionTold workConfig sessionPlan workSession).project =
      some workRepo := by
    change workRepos (utf8 (fromUtf8Lossy (utf8 "/home/u/work".toList))) = _
    rw [hproject]
    exact Function.update_self _ _ _
  have hmain : utf8 "celily/fix".toList ≠ utf8 "main".toList := by decide
  have hfresh : workRepos (sessionTold workConfig sessionPlan workSession).worktree =
      none := Function.update_of_ne (by decide) _ _
  have hnone : workRepo.branches (utf8 "celily/fix".toList) = none := only_ne hmain (some 7)
  have hclone : (cloneOf workRepo).branches (utf8 "celily/fix".toList) = none :=
    only_ne hmain (workRepo.branches (utf8 "main".toList))
  obtain ⟨shell, hexec⟩ := exec_new_branch hargs hfrom hsource hnone hclone hfresh
    (utf8 "/home/u/work".toList) false
  have hrun := runs_play goodReply
    (runCommand workConfig sessionIsolation sessionPlan).run
  have hgiven : parseWorktreeName "fix".toList = .ok workSession.name := rfl
  rcases command_in_clone plainTools_documented rfl hgiven (by decide) (by decide) isMap_nil
    (by decide) hrun (List.mem_cons_of_mem _ (List.mem_cons_of_mem _ List.mem_cons_self))
    (.refl _) LxcBackend.lxd rfl hexec with ⟨_, _, hexited, _⟩ | ⟨other, hsame, inClone, _⟩
  · cases hexited
  · exact ⟨other, inClone.clone⟩

end WorktreeInit
