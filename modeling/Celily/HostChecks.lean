import Celily.ContextResolution
import Celily.ExtPolicy
import Celily.JoinedTasks

/-!
# What is checked on the host

Before anything is launched the program loads its configuration, resolves the context
of the run and, in worktree mode, asks git about the repository; a secret provider has
to be available. Each check ends the program with its error.
-/

namespace HostChecks

open RustText HostPaths PathResolution HostFiles ConfigRules Configuration ContextResolution
  InstanceNames ExtPolicy JoinedTasks LoggedSteps

/-- The options of the command line. -/
structure CommandLine extends Args where
  cmdArgs : List Text
  worktreeUserName : Option Text
  worktreeUserEmail : Option Text

/-- What a run starts from. -/
structure Invocation where
  host : Host
  toml : Toml
  options : CommandLine
  /-- `GIT_ALLOW_PROTOCOL`, if it is set. -/
  allowProtocol : Option Bytes
  instanceUuid : Uuid

/-- `env::current_dir`. -/
def Invocation.cwd (inv : Invocation) : Bytes := canonicalBytes inv.host.workingDir

/-- A program on the host, its arguments and the variables it does not get. -/
structure HostCommand where
  program : Text
  args : List Bytes
  envRemove : List Text

def HostReply (_ : HostCommand) : Type := GitOutcome

/-- Checks end with the first error, a chain of messages. -/
abbrev Checking (α : Type) := Fallible HostReply (List Text) α

/-- The `?` of a result at hand. -/
def checked {α : Type} (result : Anyhow α) : Checking α := ExceptT.mk (.done result)

def command {α : Type} (c : HostCommand) (judge : GitOutcome → Anyhow α) : Checking α :=
  ExceptT.mk (.call c fun outcome => .done (judge outcome))

/-- The trimmed output, or the message of the error. -/
def runStdout : GitOutcome → Anyhow Text
  | .output stdout => .ok (trim (fromUtf8Lossy stdout))
  | .nonZero _ message => bail message
  | .io message => bail message

/-! ## git -/

def git (dir : Bytes) (args : List Text) : HostCommand :=
  ⟨"git".toList, utf8 "-C".toList :: dir :: args.map utf8, []⟩

/-- A value that is empty, or cannot be read, is none. -/
def gitConfigValue (outcome : GitOutcome) : Option Text :=
  match runStdout outcome with
  | .ok [] | .error _ => none
  | .ok value => some value

def gitConfig (dir : Bytes) (args : List Text) : Task HostReply (Option Text) :=
  .call (git dir ("config".toList :: args)) fun outcome => .done (gitConfigValue outcome)

def revParseHead (dir : Bytes) : HostCommand := git dir ["rev-parse".toList, "HEAD".toList]

def checkRefFormat (branch : Text) : HostCommand :=
  ⟨"git".toList, ["check-ref-format".toList, "--branch".toList, branch].map utf8, []⟩

/-- Without `GIT_CONFIG`, which only `git config` reads. -/
def getAll (dir : Bytes) (key : Text) : HostCommand :=
  { git dir ["config".toList, "--show-scope".toList, "--show-origin".toList, "--get-all".toList,
      key] with
    envRemove := ["GIT_CONFIG".toList] }

section Worktree

-- The `Debug` text of a string.
variable (debug : Text → Text) (inv : Invocation)

def readEntries (key : Text) : Checking (List ConfigEntry) :=
  command (getAll inv.cwd key) fun outcome => configEntries debug (fun _ => outcome) key

def checkExtTransport : Checking Unit := do
  let extAllow ← readEntries debug inv "protocol.ext.allow".toList
  let allow ← readEntries debug inv "protocol.allow".toList
  checked (judgeExtPolicy extAllow allow inv.allowProtocol inv.cwd)

/-- Whether git is told to check what it fetches only decides about a warning. -/
def warnIfFetchFsckDisabled : Checking Unit := do
  let fsck ← ExceptT.lift (gitConfig inv.cwd ["--type=bool".toList, "fetch.fsckObjects".toList])
  match fsck with
  | some _ => pure ()
  | none => do
    let _ ← ExceptT.lift
      (gitConfig inv.cwd ["--type=bool".toList, "transfer.fsckObjects".toList])
    pure ()

def dotGit : Bytes := join inv.cwd (utf8 ".git".toList)

/-- `Path::is_symlink`. -/
def isSymlink (path : Bytes) : Bool :=
  match absolute inv.host.workingDir path with
  | .ok absolutePath => absolutePath.isSymlink inv.host.files
  | .error _ => false

/-- `Path::is_dir`. -/
def isDir (path : Bytes) : Bool :=
  match canonicalize inv.host.files inv.host.workingDir path with
  | .ok location => isDirectory inv.host.files location
  | .error _ => false

/-- `.git` is a directory itself, and there are no submodules. -/
def checkRepository : Anyhow Unit := do
  ensure (fileExists inv.host (dotGit inv))
    ("worktree mode requires a git repository (no .git directory found in ".toList ++
      display inv.cwd ++ ")".toList)
  ensure (!isSymlink inv (dotGit inv))
    ("worktree mode requires .git to be a directory (found symlink at ".toList ++
      display (dotGit inv) ++ ")".toList)
  ensure (isDir inv (dotGit inv))
    ("worktree mode requires .git to be a directory (found file at ".toList ++
      display (dotGit inv) ++ ")".toList)
  ensure (!fileExists inv.host (join inv.cwd (utf8 ".gitmodules".toList)))
    ("worktree mode does not support submodules (.gitmodules detected in ".toList ++
      display inv.cwd ++ ")".toList)

def validateWorktreePreconditions (branch : Text) : Checking Unit := do
  checked (checkRepository inv)
  let _ ← command (revParseHead inv.cwd) fun outcome =>
    withContext "worktree mode requires at least one commit in the repository".toList
      (runStdout outcome)
  let _ ← command (checkRefFormat branch) fun outcome =>
    withContext ("invalid worktree branch name '".toList ++ branch ++ "'".toList)
      (runStdout outcome)
  checkExtTransport debug inv
  warnIfFetchFsckDisabled inv

/-- One half of the identity: the option, the configuration, or else git's. -/
def identityPart (option configured : Option Text) (key : Text) : Checking Text :=
  match option.or configured with
  | some value => pure value
  | none => do
    let value ← ExceptT.lift (gitConfig inv.cwd [key])
    match value with
    | some value => pure value
    | none =>
      throw ["worktree mode requires ".toList ++ key ++ "; set it in [worktree], --worktree-".toList
        ++ key.map (fun c => if c = '.' then '-' else c) ++ ", or the host git config".toList]

def resolveGitIdentity (cfg : Config) : Checking (Text × Text) := do
  let name ← identityPart inv inv.options.worktreeUserName cfg.worktree.userName
    "user.name".toList
  let email ← identityPart inv inv.options.worktreeUserEmail cfg.worktree.userEmail
    "user.email".toList
  pure (name, email)

end Worktree

/-! ## Secret providers -/

def rbwUnlocked : HostCommand := ⟨"rbw".toList, [utf8 "unlocked".toList], []⟩

/-- The error of the provider is shown with its source. -/
def rbwError {α : Type} (result : Anyhow α) : Anyhow α :=
  result.mapError fun chain => ("rbw: ".toList ++ chain.headD []) :: chain

def checkAvailable : Option Providers → Checking Unit
  | none => pure ()
  | some .rbw => do
    let _ ← command rbwUnlocked fun outcome => rbwError (runStdout outcome)
    pure ()

/-! ## All checks -/

/-- A namespace of its own: the sandbox remote force-updates the branch. -/
def branchName (worktree : Text) : Text := "celily/".toList ++ worktree

/-- A worktree with its branch and git's identity for it. -/
structure HostWorktree where
  name : Text
  branch : Text
  gitName : Text
  gitEmail : Text

/-- What the checks leave for the launch. -/
structure Prepared where
  cfg : Config
  ctx : RunContext
  worktree : Option HostWorktree

def loadedConfig (inv : Invocation) : Anyhow Config :=
  ((loadConfig inv.host inv.toml inv.options.toArgs inv.cwd).runFrom []).1.mapError
    ConfigError.chain

def home (inv : Invocation) : Anyhow Bytes :=
  match inv.host.env "HOME".toList with
  | some home => .ok (utf8 home)
  | none => withContext "$HOME is not set".toList (bail "environment variable not found".toList)

def homeCanon (inv : Invocation) (home : Bytes) : Anyhow Canonical :=
  withContext "failed to canonicalize $HOME".toList
    (ofIo (canonicalize inv.host.files inv.host.workingDir home))

def context (inv : Invocation) (cfg : Config) (home : Bytes) (homeCanon : Canonical) :
    Anyhow RunContext :=
  resolveContext inv.host inv.options.toArgs cfg inv.cwd home homeCanon (configDir inv.host)
    cfg.allowedDirs cfg.allowedFiles inv.instanceUuid

/-- Worktree preconditions are checked before anything is launched. -/
def checkWorktree (debug : Text → Text) (inv : Invocation) (cfg : Config) :
    Option Text → Checking (Option HostWorktree)
  | none => pure none
  | some name => do
    validateWorktreePreconditions debug inv (branchName name)
    let identity ← resolveGitIdentity inv cfg
    pure (some ⟨name, branchName name, identity.1, identity.2⟩)

def prepare (debug : Text → Text) (inv : Invocation) : Checking Prepared := do
  let cfg ← checked (loadedConfig inv)
  let home ← checked (home inv)
  let homeCanon ← checked (homeCanon inv home)
  let ctx ← checked (context inv cfg home homeCanon)
  checked (ensure cfg.distro.isSome "distro is required".toList)
  let worktree ← checkWorktree debug inv cfg inv.options.worktree
  checkAvailable cfg.secretProvider
  pure ⟨cfg, ctx, worktree⟩

/-! ## What has been checked -/

/-- The command has exited with 0. -/
def Exited (c : HostCommand) (h : List (Event HostReply)) : Prop :=
  ∃ stdout, .returned c (GitOutcome.output stdout) ∈ h

/-- git has listed the values of a variable. -/
def Listed (debug : Text → Text) (inv : Invocation) (key : Text) (entries : List ConfigEntry)
    (h : List (Event HostReply)) : Prop :=
  ∃ outcome, .returned (getAll inv.cwd key) outcome ∈ h ∧
    configEntries debug (fun _ => outcome) key = .ok entries

/-- The value is the option's, the configuration's, or else what git has answered. -/
def Identified (inv : Invocation) (option configured : Option Text) (key value : Text)
    (h : List (Event HostReply)) : Prop :=
  option.or configured = some value ∨
    option.or configured = none ∧ ∃ outcome,
      .returned (git inv.cwd ["config".toList, key]) outcome ∈ h ∧
        gitConfigValue outcome = some value

/-- A repository of its own without submodules, on disk. -/
structure Repository (inv : Invocation) : Prop where
  git_dir : ∃ location,
    canonicalize inv.host.files inv.host.workingDir (dotGit inv) = .ok location ∧
      isDirectory inv.host.files location = true
  not_symlink : isSymlink inv (dotGit inv) = false
  no_submodules : fileExists inv.host (join inv.cwd (utf8 ".gitmodules".toList)) = false

/-- What worktree mode needs. -/
structure WorktreeReady (debug : Text → Text) (inv : Invocation) (cfg : Config)
    (worktree : HostWorktree) (h : List (Event HostReply)) : Prop where
  named : worktree.branch = branchName worktree.name
  repository : Repository inv
  commit : Exited (revParseHead inv.cwd) h
  branch : Exited (checkRefFormat worktree.branch) h
  policy : ∃ extAllow allow, Listed debug inv "protocol.ext.allow".toList extAllow h ∧
    Listed debug inv "protocol.allow".toList allow h ∧ Allowed extAllow allow inv.allowProtocol
  author : Identified inv inv.options.worktreeUserName cfg.worktree.userName "user.name".toList
    worktree.gitName h
  email : Identified inv inv.options.worktreeUserEmail cfg.worktree.userEmail "user.email".toList
    worktree.gitEmail h

/-- Every check has passed. -/
structure Checked (debug : Text → Text) (inv : Invocation) (prepared : Prepared)
    (h : List (Event HostReply)) : Prop where
  loaded : loadedConfig inv = .ok prepared.cfg
  distro : prepared.cfg.distro.isSome = true
  resolved : ∃ homeDir canonical, home inv = .ok homeDir ∧ homeCanon inv homeDir = .ok canonical ∧
    context inv prepared.cfg homeDir canonical = .ok prepared.ctx
  worktree : prepared.worktree.map HostWorktree.name = inv.options.worktree
  ready : ∀ worktree, prepared.worktree = some worktree →
    WorktreeReady debug inv prepared.cfg worktree h
  provider : prepared.cfg.secretProvider.isSome = true → Exited rbwUnlocked h

/-! ## The checks, one by one -/

/-- Of the checks it only matters what they have found out. -/
abbrev Finds {α : Type} (x : Checking α) (Q : α → List (Event HostReply) → Prop) : Prop :=
  Succeeds (fun _ => True) x Q

section Finds
variable {debug : Text → Text} {inv : Invocation}

theorem finds_checked {α : Type} {result : Anyhow α} :
    Finds (checked result) fun a _ => result = .ok a := by
  intro k h a _ hrun
  obtain ⟨rfl, hresult⟩ := runs_done.mp hrun
  exact ⟨nofun, hresult⟩

theorem finds_command {α : Type} {c : HostCommand} {judge : GitOutcome → Anyhow α} :
    Finds (command c judge) fun a h => ∃ outcome, .returned c outcome ∈ h ∧
      judge outcome = .ok a := by
  intro k h a hsub hrun
  obtain ⟨outcome, rest, rfl, hdone⟩ := runs_call.mp hrun
  refine ⟨fun _ _ => trivial, outcome, hsub (by simp), ?_⟩
  exact (runs_done.mp hdone).2

theorem runStdout_ok {outcome : GitOutcome} {text : Text} (hok : runStdout outcome = .ok text) :
    ∃ stdout, outcome = .output stdout := by
  cases outcome with
  | output stdout => exact ⟨stdout, rfl⟩
  | nonZero code message => cases hok
  | io message => cases hok

theorem finds_exited {c : HostCommand} {context : Text} :
    Finds (command c fun outcome => withContext context (runStdout outcome)) fun _ h =>
      Exited c h := by
  refine finds_command.mono fun text h hfound => ?_
  obtain ⟨outcome, hmem, hok⟩ := hfound
  obtain ⟨stdout, rfl⟩ := runStdout_ok (withContext_eq_ok.mp hok)
  exact ⟨stdout, hmem⟩

theorem finds_gitConfig {dir : Bytes} {args : List Text} :
    Finds (ExceptT.lift (gitConfig dir args)) fun value h => ∃ outcome,
      .returned (git dir ("config".toList :: args)) outcome ∈ h ∧
        gitConfigValue outcome = value := by
  intro k h value hsub hrun
  obtain ⟨_, heq, hcall⟩ := runs_lift.mp hrun
  cases heq
  obtain ⟨outcome, rest, rfl, hdone⟩ := runs_call.mp hcall
  exact ⟨fun _ _ => trivial, outcome, hsub (by simp), (runs_done.mp hdone).2⟩

theorem finds_anything {α : Type} (x : Checking α) : Finds x fun _ _ => True :=
  fun _ _ _ _ _ => ⟨fun _ _ => trivial, trivial⟩

theorem repository_of_check {u : Unit} (hok : checkRepository inv = .ok u) : Repository inv := by
  simp only [checkRepository, bind_eq_ok, ensure_eq_ok, Bool.not_eq_true'] at hok
  obtain ⟨_, _, _, hsymlink, _, hdir, hmodules⟩ := hok
  refine ⟨?_, hsymlink, hmodules⟩
  unfold isDir at hdir
  split at hdir
  · rename_i location hlocation
    exact ⟨location, hlocation, hdir⟩
  · cases hdir

theorem finds_extTransport :
    Finds (checkExtTransport debug inv) fun _ h => ∃ extAllow allow,
      Listed debug inv "protocol.ext.allow".toList extAllow h ∧
      Listed debug inv "protocol.allow".toList allow h ∧
      Allowed extAllow allow inv.allowProtocol := by
  refine succeeds_seq finds_command fun extAllow => ?_
  refine succeeds_seq finds_command fun allow => ?_
  refine finds_checked.mono fun _ h hjudged hallow hext => ?_
  exact ⟨extAllow, allow, hext, hallow, (judgeExtPolicy_allowed _ _ _ _).mp hjudged⟩

theorem finds_identityPart {option configured : Option Text} {key : Text} :
    Finds (identityPart inv option configured key) fun value h =>
      Identified inv option configured key value h := by
  rw [identityPart]
  split
  · rename_i value hvalue
    exact succeeds_pure fun h => Or.inl hvalue
  · rename_i hnone
    refine succeeds_seq finds_gitConfig fun found => ?_
    cases found with
    | none => exact succeeds_throw _ _
    | some value => exact succeeds_pure fun h hanswered => Or.inr ⟨hnone, hanswered⟩

theorem finds_worktree {cfg : Config} {requested : Option Text} :
    Finds (checkWorktree debug inv cfg requested) fun worktree h =>
      worktree.map HostWorktree.name = requested ∧
        ∀ w, worktree = some w → WorktreeReady debug inv cfg w h := by
  cases requested with
  | none => exact succeeds_pure fun h => ⟨rfl, nofun⟩
  | some name =>
    have hpreconditions : Finds (validateWorktreePreconditions debug inv (branchName name))
        fun _ h => Repository inv ∧ Exited (revParseHead inv.cwd) h ∧
          Exited (checkRefFormat (branchName name)) h ∧ ∃ extAllow allow,
            Listed debug inv "protocol.ext.allow".toList extAllow h ∧
            Listed debug inv "protocol.allow".toList allow h ∧
            Allowed extAllow allow inv.allowProtocol := by
      refine succeeds_seq finds_checked fun _ => succeeds_seq finds_exited fun _ =>
        succeeds_seq finds_exited fun _ => succeeds_seq finds_extTransport fun _ => ?_
      refine (finds_anything _).mono fun _ h _ hpolicy hbranch hcommit hrepository => ?_
      exact ⟨repository_of_check hrepository, hcommit, hbranch, hpolicy⟩
    have hidentity : Finds (resolveGitIdentity inv cfg) fun identity h =>
        Identified inv inv.options.worktreeUserName cfg.worktree.userName "user.name".toList
          identity.1 h ∧
        Identified inv inv.options.worktreeUserEmail cfg.worktree.userEmail "user.email".toList
          identity.2 h := by
      refine succeeds_seq finds_identityPart fun author => ?_
      exact succeeds_seq finds_identityPart fun email =>
        succeeds_pure fun h hemail hauthor => ⟨hauthor, hemail⟩
    refine succeeds_seq hpreconditions fun _ => succeeds_seq hidentity fun identity => ?_
    refine succeeds_pure fun h hidentified hready => ⟨rfl, ?_⟩
    intro w hw
    obtain rfl := Option.some.inj hw
    obtain ⟨hrepository, hcommit, hbranch, hpolicy⟩ := hready
    exact ⟨rfl, hrepository, hcommit, hbranch, hpolicy, hidentified.1, hidentified.2⟩

theorem finds_available {provider : Option Providers} :
    Finds (checkAvailable provider) fun _ h => provider.isSome = true → Exited rbwUnlocked h := by
  cases provider with
  | none => exact succeeds_pure fun h => nofun
  | some provider =>
    refine succeeds_seq finds_command fun text => succeeds_pure fun h hfound _ => ?_
    obtain ⟨outcome, hmem, hok⟩ := hfound
    cases hout : runStdout outcome with
    | error chain =>
      rw [hout] at hok
      cases hok
    | ok found =>
      obtain ⟨stdout, rfl⟩ := runStdout_ok hout
      exact ⟨stdout, hmem⟩

/-- Whatever is prepared has passed every check. -/
theorem finds_prepare :
    Finds (prepare debug inv) fun prepared h => Checked debug inv prepared h := by
  refine succeeds_seq finds_checked fun cfg => succeeds_seq finds_checked fun homeDir =>
    succeeds_seq finds_checked fun canonical => succeeds_seq finds_checked fun ctx =>
    succeeds_seq finds_checked fun _ => ?_
  refine succeeds_seq finds_worktree fun worktree => succeeds_seq finds_available fun _ => ?_
  refine succeeds_pure fun h hprovider hworktree hdistro hctx hcanonical hhome hcfg => ?_
  exact ⟨hcfg, ensure_eq_ok.mp hdistro, ⟨homeDir, canonical, hhome, hcanonical, hctx⟩, hworktree.1,
    hworktree.2, hprovider⟩

end Finds

end HostChecks
