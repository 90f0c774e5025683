import Celily.ConfigTrust
import Celily.EmbeddedTasks
import Celily.HostChecks
import Celily.IsolatedStart
import Celily.OwnCommands
import Celily.SocketBoundary
import Celily.WorktreeIsolation

/-!
# From the command line to the exit code

The program is its checks on the host and then the run of the instance that they leave:
nothing is launched before every check has passed, and what is attached to the instance
is what files of the user's own ask for and allow.
-/

namespace WholeRuns

open RustText HostPaths PathResolution HostFiles Devices Configuration ContextResolution
  InstanceNames JoinedTasks InstanceLifecycle EmbeddedTasks HostChecks OwnCommands MountBoundary
  ProxySockets SocketBoundary WorktreeIsolation ConfigTrust ConfigProtection LifecycleTraces
  ExtPolicy IsolatedStart HomeSymlinks

inductive RunError where
  | check (chain : List Text)
  | launch (error : LaunchError)

/-- Commands on the host, and those of a launch. -/
abbrev ProgramReply : HostCommand ⊕ Command → Type := Sum.elim HostReply Reply

def onHost : Embedding HostReply ProgramReply := ⟨Sum.inl, fun _ => Equiv.refl _⟩

def inLaunch : Embedding Reply ProgramReply := ⟨Sum.inr, fun _ => Equiv.refl _⟩

/-- What the context of the run is launched as. -/
def launchConfig (prepared : Prepared) : LaunchConfig :=
  let ctx := prepared.ctx
  { project := prepared.cfg.backend.project
    image := ctx.image
    name := ctx.name
    bridgeName := bridgeName ctx.image ctx.instanceUuid
    kind := ctx.kind
    mounts := ctx.mounts.map fun mount =>
      ⟨canonicalBytes mount.source, mount.target, mount.access⟩
    extraDevices := ctx.extraDevices
    containerUid := ctx.containerUid
    containerGid := ctx.containerGid
    execUid := ctx.execUid
    execGid := ctx.execGid
    containerHome := ctx.containerHome
    rawIdmap := ctx.rawIdmap
    securityNesting := ctx.securityNesting
    secureBoot := ctx.secureBoot
    ephemeral := ctx.ephemeral
    keep := !ctx.ephemeral
    description := ctx.description
    limits := ⟨ctx.cpu, ctx.memory, ctx.disk, ctx.processes, ctx.diskPriority, ctx.memoryEnforce,
      ctx.networkIngress, ctx.networkEgress⟩
    allow := ctx.networkAllow
    provider := prepared.cfg.secretProvider.isSome }

/-- `initScript` is the text of `worktree-init.sh`. -/
def plan (initScript : Text) (inv : Invocation) (prepared : Prepared) : Plan where
  preRun := prepared.cfg.preRun
  command := inv.options.cmdArgs
  env := prepared.ctx.envMap
  projectDir := prepared.ctx.projectDir
  worktree := prepared.worktree.map fun worktree =>
    ⟨worktree.name, worktree.branch, worktree.gitName, worktree.gitEmail, initScript⟩

/-- `Path::is_file` on the host. -/
def isFile (host : Host) (path : Bytes) : Bool :=
  match canonicalize host.files host.workingDir path with
  | .ok location => isRegularFile host.files location
  | .error _ => false

section Program

variable (debug : Text → Text) (initScript : Text) (polls : Nat) (inv : Invocation)

def launch (prepared : Prepared) : Launch Int :=
  runInstance (launchConfig prepared) (isFile inv.host) polls (plan initScript inv prepared)

def run : Fallible ProgramReply RunError Int := do
  let prepared ← embedFallible onHost .check (prepare debug inv)
  embedFallible inLaunch .launch (launch initScript polls inv prepared)

variable {debug initScript polls inv}

/-- A run ends with the error of a check, or goes on to a launch with what all the checks
have left. -/
theorem run_cases {h : List (Event ProgramReply)} {r : Except RunError Int}
    (hrun : Runs (run debug initScript polls inv).run h r) :
    (∃ (checks : List (Event HostReply)) (chain : List Text),
        h = checks.map onHost.event ∧ r = .error (.check chain)) ∨
      ∃ checks launched prepared result,
        h = checks.map onHost.event ++ launched.map inLaunch.event ∧
        Checked debug inv prepared checks ∧
        Runs (launch initScript polls inv prepared).run launched result ∧
        r = result.mapError .launch := by
  rcases runs_seq.mp hrun with ⟨e, rfl, hchecks⟩ | ⟨prepared, h₁, h₂, rfl, hchecks, hlaunch⟩
  · obtain ⟨checks, result, rfl, hresult, _⟩ := runs_embedFallible.mp hchecks
    cases result with
    | error chain =>
      exact Or.inl ⟨checks, chain, rfl, congrArg Except.error (Except.error.inj hresult)⟩
    | ok prepared => cases hresult
  · obtain ⟨checks, result, rfl, hresult, hprepare⟩ := runs_embedFallible.mp hchecks
    obtain ⟨launched, result', rfl, rfl, hlaunched⟩ := runs_embedFallible.mp hlaunch
    cases result with
    | error chain => cases hresult
    | ok found =>
      obtain rfl := Except.ok.inj hresult
      have hchecked := (finds_prepare checks checks prepared (fun _ he => he) hprepare).2
      exact Or.inr ⟨checks, launched, prepared, result', rfl, hchecked, hlaunched, rfl⟩

/-- Some reply to every command. -/
def anyReply : (c : HostCommand ⊕ Command) → ProgramReply c
  | .inl _ => GitOutcome.io []
  | .inr c => goodReply c

/-- A launch starts with a command. -/
theorem launch_starts {cfg : LaunchConfig} {isFile : Bytes → Bool} {p : Plan}
    {h : List (Event Reply)} {r : Except LaunchError Int}
    (hrun : Runs (runInstance cfg isFile polls p).run h r) : ∃ c rest, h = .issued c :: rest := by
  have hcreate : ∀ {k r}, Runs (createInstance cfg).run k r → ∃ c rest, k = .issued c :: rest := by
    intro k r hcreate
    rcases runs_seq.mp hcreate with ⟨e, _, hproject⟩ | ⟨_, k₁, k₂, rfl, hproject, hact⟩
    · unfold ensureProject at hproject
      split at hproject
      · cases (runs_pure.mp hproject).2
      · obtain ⟨_, rfl, _⟩ := runs_request.mp hproject
        exact ⟨_, _, rfl⟩
    · unfold ensureProject at hproject
      split at hproject
      · obtain ⟨rfl, _⟩ := runs_pure.mp hproject
        obtain ⟨_, rfl, _⟩ := runs_act.mp hact
        exact ⟨_, _, rfl⟩
      · obtain ⟨_, rfl, _⟩ := runs_request.mp hproject
        exact ⟨_, _, rfl⟩
  have hinit : ∀ {k r}, Runs (init cfg isFile polls).run k r → ∃ c rest, k = .issued c :: rest := by
    intro k r hinit
    rcases runs_seq.mp hinit with ⟨e, _, hfirst⟩ | ⟨_, k₁, k₂, rfl, hfirst, _⟩
    · exact hcreate hfirst
    · obtain ⟨c, rest, rfl⟩ := hcreate hfirst
      exact ⟨c, rest ++ k₂, rfl⟩
  rcases runs_seq.mp hrun with ⟨e, _, hfirst⟩ | ⟨_, k₁, k₂, rfl, hfirst, _⟩
  · exact hinit hfirst
  · obtain ⟨c, rest, rfl⟩ := hinit hfirst
    exact ⟨c, rest ++ k₂, rfl⟩

/-- At every moment: the program has only run checks, and if it has ended, then with the
error of one; or all checks have passed before anything was launched, and what has
happened since is the launch of what they have left. -/
theorem launched_checked {h : List (Event ProgramReply)}
    {t : Task ProgramReply (Except RunError Int)}
    (trace : Trace (run debug initScript polls inv).run h t) :
    (∃ checks : List (Event HostReply), h = checks.map onHost.event ∧
      ∀ r, t = .done r → ∃ chain, r = .error (.check chain)) ∨
    ∃ checks launched prepared, h = checks.map onHost.event ++ launched.map inLaunch.event ∧
      Checked debug inv prepared checks ∧ ∃ later result,
        Runs (launch initScript polls inv prepared).run (launched ++ later) result ∧
        ∀ r, t = .done r → later = [] ∧ r = result.mapError .launch := by
  obtain ⟨k, r, hrun, hdone⟩ : ∃ k r, Runs (run debug initScript polls inv).run (h ++ k) r ∧
      ∀ r', t = .done r' → k = [] ∧ r' = r := by
    by_cases hdone : ∃ r, t = .done r
    · obtain ⟨r, rfl⟩ := hdone
      refine ⟨[], r, by rw [List.append_nil]; exact trace, ?_⟩
      rintro r' heq
      cases heq
      exact ⟨rfl, rfl⟩
    · obtain ⟨k, r, hrun⟩ := trace.extends anyReply
      exact ⟨k, r, hrun, fun r' heq => absurd ⟨r', heq⟩ hdone⟩
  rcases run_cases hrun with ⟨checks, chain, heq, hr⟩ |
    ⟨checks, launched, prepared, result, heq, hchecked, hlaunch, hr⟩
  · obtain ⟨checks, _, rfl, rfl, _⟩ := List.map_eq_append_iff.mp heq.symm
    exact Or.inl ⟨checks, rfl, fun r' ht => ⟨chain, (hdone r' ht).2.trans hr⟩⟩
  rcases List.append_eq_append_iff.mp heq with ⟨m, hall, hk⟩ | ⟨m, rfl, hall⟩
  · -- Some checks are still to be run, or the launch is about to begin.
    obtain ⟨checks, _, rfl, rfl, _⟩ := List.map_eq_append_iff.mp hall
    refine Or.inl ⟨checks, rfl, fun r' ht => ?_⟩
    obtain ⟨c, rest, rfl⟩ := launch_starts hlaunch
    rw [(hdone r' ht).1] at hk
    exact absurd hk.symm (by simp)
  · obtain ⟨launched, later, rfl, rfl, rfl⟩ := List.map_eq_append_iff.mp hall
    refine Or.inr ⟨checks, launched, prepared, rfl, hchecked, later, result, hlaunch, ?_⟩
    intro r' ht
    obtain ⟨hnone, rfl⟩ := hdone r' ht
    exact ⟨List.map_eq_nil_iff.mp hnone, hr⟩

end Program

/-! ## A project in worktree mode -/

def workInvocation : Invocation where
  host := userHost workFiles
    [(userHome ++ [name ".config", name "celily", name "config.toml"], mountText "~/work")]
  toml := mountToml "~/work"
  options :=
    { worktreeOptions with
      noProfile := true
      cmdArgs := []
      worktreeUserName := some "U".toList
      worktreeUserEmail := some "u@example.com".toList }
  allowProtocol := none
  instanceUuid := 0

def userReply : (c : HostCommand ⊕ Command) → ProgramReply c
  | .inl _ => GitOutcome.output (utf8 "global\tfile:/home/u/.gitconfig\tuser".toList)
  | .inr c => goodReply c

def workRun : List (Event ProgramReply) × Except RunError Int :=
  play userReply (run id [] 1 workInvocation).run

theorem workRun_isOk : workRun.2.isOk = true := by decide +kernel

/-- The example passes all checks. -/
theorem launched_checked_work :
    ∃ (checks : List (Event HostReply)) (launched : List (Event Reply)) (prepared : Prepared),
      workRun.1 = checks.map onHost.event ++ launched.map inLaunch.event ∧
        Checked id workInvocation prepared checks := by
  have trace : Trace (run id [] 1 workInvocation).run workRun.1 (.done workRun.2) :=
    runs_play userReply _
  rcases launched_checked trace with ⟨checks, _, herror⟩ |
    ⟨checks, launched, prepared, heq, hchecked, _⟩
  · obtain ⟨chain, hchain⟩ := herror _ rfl
    have hok := workRun_isOk
    rw [hchain] at hok
    cases hok
  · exact ⟨checks, launched, prepared, heq, hchecked⟩

/-! ## What is attached -/

section Attached

variable {debug : Text → Text} {initScript : Text} {polls : Nat} {inv : Invocation}

/-- A device that the configuration and the options ask for, and that may be attached. In
worktree mode only mounts that are asked for in so many words are read-write. -/
inductive Permitted (inv : Invocation) (cfg : Config) (ctx : RunContext) (homeDir : Bytes)
    (canonical configCanon : Canonical) : Device → Prop where
  | mount (request : Mount Bytes) (source : Canonical) :
    request ∈ requestedMounts inv.options.toArgs cfg inv.cwd homeDir →
    LeadsTo inv.host request.source source →
    Bounded inv.host homeDir canonical configCanon cfg.allowedDirs cfg.allowedFiles source →
    (inv.options.worktree.isSome = true → request.access = .readWrite →
      ∃ entry ∈ cfg.mounts ++ inv.options.cliMounts,
        request = expandMount homeDir (containerHome inv.options.toArgs cfg) entry) →
    Permitted inv cfg ctx homeDir canonical configCanon
      (.disk (canonicalBytes source) request.target request.access)
  | socket (proxy : ProxyDevice) (socket : Canonical) (connect : Text) :
    proxy ∈ cfg.proxy → utf8 connect = utf8 "unix:".toList ++ canonicalBytes socket →
    ConnectsTo inv.host proxy socket →
    Guarded inv.host canonical (runtimeDir inv.host) ctx.mounts socket →
    (∀ xdg, inv.host.env "XDG_RUNTIME_DIR".toList = xdg.bind toStr → ¬Strays xdg →
      Guarded inv.host canonical (resolvedDir inv.host (documentedDir inv.host xdg)) ctx.mounts
        socket) →
    Permitted inv cfg ctx homeDir canonical configCanon
      (.proxy connect proxy.listen ctx.containerUid ctx.containerGid inv.host.uid inv.host.gid
        proxy.mode)
  | volume (volume : Volume) :
    volume ∈ cfg.volumes →
    Permitted inv cfg ctx homeDir canonical configCanon
      (volumeDevice (containerHome inv.options.toArgs cfg) volume)

theorem permitted_disk {cfg : Config} {ctx : RunContext} {homeDir : Bytes}
    {canonical configCanon : Canonical} {mount : Mount Canonical}
    (hall : List.Forall₂ (fun request mount => Resolves inv.host request mount ∧
        Bounded inv.host homeDir canonical configCanon cfg.allowedDirs cfg.allowedFiles
          mount.source)
      (requestedMounts inv.options.toArgs cfg inv.cwd homeDir) ctx.mounts)
    (hmem : mount ∈ ctx.mounts) :
    Permitted inv cfg ctx homeDir canonical configCanon
      (.disk (canonicalBytes mount.source) mount.target mount.access) := by
  obtain ⟨request, hrequest, ⟨hleads, htarget, haccess⟩, hbounded⟩ := forall₂_mem_right hall hmem
  rw [htarget, haccess]
  refine .mount request mount.source hrequest hleads hbounded fun hworktree hwrite => ?_
  rw [requestedMounts_worktree hworktree] at hrequest
  rcases List.mem_cons.mp hrequest with rfl | hrequest
  · cases hwrite
  · obtain ⟨entry, hentry, rfl⟩ := List.mem_map.mp hrequest
    exact ⟨entry, hentry, rfl⟩

/-- Every other device is a proxy or a volume of the configuration. -/
theorem permitted_extra {cfg : Config} {ctx : RunContext} {homeDir : Bytes}
    {canonical configCanon : Canonical} {device : Device}
    (hok : context inv cfg homeDir canonical = .ok ctx) (hmem : device ∈ ctx.extraDevices) :
    Permitted inv cfg ctx homeDir canonical configCanon device := by
  obtain ⟨proxies, hextra, hall⟩ := resolveContext_devices hok
  rw [hextra] at hmem
  rcases List.mem_append.mp hmem with hproxy | hvolume
  · obtain ⟨proxy, hlisted, hdevice⟩ := forall₂_mem_right hall hproxy
    obtain ⟨socket, connect, hleads, htext, guarded, rfl⟩ := proxyDevice_ok hdevice
    refine .socket proxy socket connect hlisted htext hleads guarded fun xdg hxdg hkept => ?_
    rwa [← runtimeDir_documented hxdg hkept]
  · obtain ⟨volume, hlisted, rfl⟩ := List.mem_map.mp hvolume
    exact .volume volume hlisted

theorem issued_mem {checks : List (Event HostReply)} {launched : List (Event Reply)} {c : Command}
    (hmem : .issued (.inr c) ∈ checks.map onHost.event ++ launched.map inLaunch.event) :
    .issued c ∈ launched := by
  rcases List.mem_append.mp hmem with hmem | hmem
  · obtain ⟨e, _, heq⟩ := List.mem_map.mp hmem
    cases e <;> cases heq
  · obtain ⟨e, he, heq⟩ := List.mem_map.mp hmem
    cases e with
    | issued d =>
      cases heq
      exact he
    | returned d reply => cases heq

/-- At every moment: a device that is attached is attached to the run's own instance, and
permitted by a configuration that was read from private files only. -/
theorem attached_permitted {h : List (Event ProgramReply)}
    {t : Task ProgramReply (Except RunError Int)} {name devName : Text} {device : Device}
    (trace : Trace (run debug initScript polls inv).run h t)
    (attached : .issued (.inr (.act (.addDevice name devName device))) ∈ h) :
    ∃ cfg opened homeDir canonical configCanon ctx,
      (loadConfig inv.host inv.toml inv.options.toArgs inv.cwd).runFrom [] = (.ok cfg, opened) ∧
      (∀ file ∈ opened, Trusted inv.host file) ∧
      home inv = .ok homeDir ∧ homeCanon inv homeDir = .ok canonical ∧
      canonicalize inv.host.files inv.host.workingDir (configDir inv.host) = .ok configCanon ∧
      context inv cfg homeDir canonical = .ok ctx ∧ name = ctx.name ∧
      Permitted inv cfg ctx homeDir canonical configCanon device := by
  obtain ⟨k, r, hrun⟩ := trace.extends anyReply
  have hmem := List.mem_append_left k attached
  rcases run_cases hrun with ⟨checks, chain, heq, _⟩ |
    ⟨checks, launched, prepared, result, heq, hchecked, hlaunch, _⟩
  · rw [heq, ← List.append_nil (checks.map onHost.event)] at hmem
    have hnone : .issued (.act (.addDevice name devName device)) ∈ ([] : List (Event Reply)) :=
      issued_mem hmem
    cases hnone
  rw [heq] at hmem
  obtain ⟨hname, hdevice, _⟩ := own_runInstance _ _ _ _ launched result hlaunch _ (issued_mem hmem)
  obtain ⟨homeDir, canonical, hhome, hcanonical, hctx⟩ := hchecked.resolved
  obtain ⟨configCanon, hconfig, hmounts⟩ := resolveContext_validated hctx
  rcases hload : (loadConfig inv.host inv.toml inv.options.toArgs inv.cwd).runFrom [] with
    ⟨loaded, opened⟩
  have hcfg := hchecked.loaded
  rw [loadedConfig, hload] at hcfg
  cases loaded with
  | error e => cases hcfg
  | ok cfg =>
    obtain rfl : cfg = prepared.cfg := Except.ok.inj hcfg
    obtain ⟨_, rfl, htrusted⟩ := loadConfig_logs_trusted _ _ [] _ _ hload
    refine ⟨_, _, homeDir, canonical, configCanon, prepared.ctx, rfl, htrusted, hhome, hcanonical,
      hconfig, hctx, hname, ?_⟩
    rcases List.mem_append.mp hdevice with hdisk | hextra
    · obtain ⟨mount, hmount, rfl⟩ := List.mem_map.mp hdisk
      obtain ⟨source, hsource, rfl⟩ := List.mem_map.mp hmount
      exact permitted_disk hmounts hsource
    · exact permitted_extra hctx hextra

end Attached

def attachedIn (h : List (Event ProgramReply)) : List (Text × Text × Device) :=
  h.filterMap fun
    | .issued (.inr (.act (.addDevice name devName device))) => some (name, devName, device)
    | _ => none

theorem mem_of_attachedIn {h : List (Event ProgramReply)} {name devName : Text} {device : Device}
    (hmem : (name, devName, device) ∈ attachedIn h) :
    .issued (.inr (.act (.addDevice name devName device))) ∈ h := by
  obtain ⟨e, he, heq⟩ := List.mem_filterMap.mp hmem
  split at heq
  · obtain ⟨rfl, rfl, rfl⟩ : _ = name ∧ _ = devName ∧ _ = device := by simpa using heq
    exact he
  · cases heq

/-- The project of the example is attached read-only. -/
theorem attached_permitted_work : ∃ cfg homeDir canonical configCanon ctx,
    context workInvocation cfg homeDir canonical = .ok ctx ∧
      Permitted workInvocation cfg ctx homeDir canonical configCanon
        (.disk (name "/home/u/work") (name "/home/dev/project") .readOnly) := by
  have hfirst : (attachedIn workRun.1).head? = some ("celily-home-work-00000000".toList,
      "mount0".toList, .disk (name "/home/u/work") (name "/home/dev/project") .readOnly) := by
    decide +kernel
  have trace : Trace (run id [] 1 workInvocation).run workRun.1 (.done workRun.2) :=
    runs_play userReply _
  obtain ⟨cfg, _, homeDir, canonical, configCanon, ctx, _, _, _, _, _, hctx, _, hpermitted⟩ :=
    attached_permitted trace (mem_of_attachedIn (List.mem_of_head? hfirst))
  exact ⟨cfg, homeDir, canonical, configCanon, ctx, hctx, hpermitted⟩

end WholeRuns
