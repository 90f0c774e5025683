import Celily.ContextResolution
import Celily.EnvironmentMaps
import Celily.LifecycleTraces
import Celily.LxcArguments
import Celily.MountBoundary
import Celily.SegmentedLists

/-!
# The environment of a command

Five sources meet in the environment that a command of the run sees: the configured
variables, those passed from the host, the `--env` options, the home, and the settings
of the proxy. The first three become one map, whose entries `exec` writes in any order
before the others; LXD takes the last word for a name.
-/

namespace CommandEnvironment

open RustText HostFiles Configuration ContextResolution InstanceLifecycle EnvironmentMaps
open JoinedTasks LifecycleTraces LxcArguments SegmentedLists EgressAcl

/-! ## LXD's reading of the command line -/

def isOption (word : Bytes) : Bool :=
  (utf8 "--".toList).isPrefixOf word && word ≠ utf8 "--".toList

/-- The options at the front of a command line, and the words behind them. -/
def readOptions : List Bytes → List (Bytes × Bytes) × List Bytes
  | flag :: value :: rest =>
    if isOption flag then
      let read := readOptions rest
      ((flag, value) :: read.1, read.2)
    else ([], flag :: value :: rest)
  | words => ([], words)

/-- A variable and its value, cut at the first `=`. -/
def assignment (word : Bytes) : Bytes × Bytes := (splitOnce 61 word).getD (word, [])

/-- The `--env` words of `lxc [options] exec instance [options] -- command`. -/
def envWords (argv : List Bytes) : List Bytes :=
  let behindInstance := (readOptions (argv.drop 1)).2.drop 2
  ((readOptions behindInstance).1.filter fun option => option.1 = utf8 "--env".toList).map Prod.snd

/-- What a variable is set to; a later word goes before an earlier one. -/
def environment (argv : List Bytes) (name : Bytes) : Option Bytes :=
  ((envWords argv).map assignment).reverse.lookup name

theorem readOptions_optionWords {options : List (Bytes × Bytes)} {rest : List Bytes}
    (hoptions : ∀ option ∈ options, isOption option.1 = true)
    (hrest : ∀ word ∈ rest.head?, isOption word = false) :
    readOptions (optionWords options ++ rest) = (options, rest) := by
  induction options with
  | nil =>
    cases rest with
    | nil => rfl
    | cons word rest =>
      cases rest with
      | nil => rfl
      | cons value rest =>
        have hword := hrest word rfl
        change readOptions (word :: value :: rest) = ([], word :: value :: rest)
        rw [readOptions, hword, if_neg Bool.false_ne_true]
  | cons option options ih =>
    have hoption := hoptions option List.mem_cons_self
    have ih := ih fun other hother => hoptions other (List.mem_cons_of_mem option hother)
    have hwords : optionWords (option :: options) ++ rest =
        option.1 :: option.2 :: (optionWords options ++ rest) := rfl
    rw [hwords, readOptions, if_pos hoption, ih]

theorem isOption_scopeOptions (backend : LxcBackend) :
    ∀ option ∈ backend.scopeOptions, isOption option.1 = true := by
  intro option hoption
  rw [LxcBackend.scopeOptions, List.mem_append, Option.mem_toList, Option.mem_toList] at hoption
  rcases hoption with hproject | hremote
  · obtain ⟨project, _, rfl⟩ := Option.map_eq_some_iff.mp hproject
    exact (by decide : isOption (utf8 "--project".toList) = true)
  · obtain ⟨remote, _, rfl⟩ := Option.map_eq_some_iff.mp hremote
    exact (by decide : isOption (utf8 "--remote".toList) = true)

/-- Every variable of an `exec` is read, and nothing else of its command line. -/
theorem envWords_execArgv (backend : LxcBackend) (name : Text) (cmd : List Text)
    (env : List (Text × Bytes)) (cwd : Bytes) (uid gid : UInt32) :
    envWords (backend.execArgv name cmd env cwd uid gid) = env.map envPair := by
  have hdash : ∀ word ∈ (utf8 "--".toList :: cmd.map utf8).head?, isOption word = false := by
    intro word hword
    obtain rfl := Option.some.inj hword
    decide
  have hexec : ∀ rest : List Bytes, ∀ word ∈ (utf8 "exec".toList :: rest).head?,
      isOption word = false := by
    intro rest word hword
    obtain rfl := Option.some.inj hword
    decide
  have hoptions : ∀ option ∈ execOptions env cwd uid gid, isOption option.1 = true := by
    intro option hoption
    simp only [execOptions, List.mem_cons, List.mem_map] at hoption
    rcases hoption with rfl | rfl | rfl | ⟨entry, _, rfl⟩
    · exact (by decide : isOption (utf8 "--user".toList) = true)
    · exact (by decide : isOption (utf8 "--group".toList) = true)
    · exact (by decide : isOption (utf8 "--cwd".toList) = true)
    · exact (by decide : isOption (utf8 "--env".toList) = true)
  rw [envWords, LxcBackend.execArgv, List.drop_one, List.tail_cons,
    readOptions_optionWords (isOption_scopeOptions backend) (hexec _)]
  simp only [List.drop_succ_cons, List.drop_zero]
  rw [readOptions_optionWords hoptions hdash, execOptions]
  -- only the last of the four kinds of options is `--env`
  have huser : utf8 "--user".toList ≠ utf8 "--env".toList := by decide
  have hgroup : utf8 "--group".toList ≠ utf8 "--env".toList := by decide
  have hcwd : utf8 "--cwd".toList ≠ utf8 "--env".toList := by decide
  simp only [List.filter_cons, decide_eq_true_eq, if_neg huser, if_neg hgroup, if_neg hcwd,
    List.filter_map, List.map_map]
  have henv : utf8 "--env".toList = utf8 "--env".toList := rfl
  exact congrArg (List.map _) (List.filter_eq_self.mpr fun _ _ => decide_eq_true henv)

theorem assignment_envPair {key : Text} (hkey : '=' ∉ key) (value : Bytes) :
    assignment (envPair (key, value)) = (utf8 key, value) := by
  have hnot : (61 : UInt8) ∉ utf8 key := notMem_utf8 (c := '=') (by decide) hkey
  rw [assignment, envPair, splitOnce_append hnot]
  rfl

theorem environment_execArgv (backend : LxcBackend) (name : Text) (cmd : List Text)
    (env : List (Text × Bytes)) (cwd : Bytes) (uid gid : UInt32) (key : Bytes) :
    environment (backend.execArgv name cmd env cwd uid gid) key =
      (env.map fun entry => assignment (envPair entry)).reverse.lookup key := by
  rw [environment, envWords_execArgv, List.map_map]
  rfl

/-! ## The map of the run -/

theorem lookup_passVariable (host : Host) (env : List (Text × Text)) (name key : Text) :
    (passVariable host env name).lookup key =
      if key = name then (host.env key).or (env.lookup key) else env.lookup key := by
  rw [passVariable]
  by_cases heq : key = name
  · rw [if_pos heq, heq]
    cases host.env name with
    | none => rfl
    | some value => simp only [lookup_setEnv, if_true, Option.some_or]
  · rw [if_neg heq]
    cases host.env name with
    | none => rfl
    | some value => simp only [lookup_setEnv, if_neg heq]

theorem lookup_foldl_passVariable (host : Host) (names : List Text) (env : List (Text × Text))
    (key : Text) :
    (names.foldl (passVariable host) env).lookup key =
      if key ∈ names then (host.env key).or (env.lookup key) else env.lookup key := by
  induction names generalizing env with
  | nil => rfl
  | cons name names ih =>
    rw [List.foldl_cons, ih, lookup_passVariable]
    by_cases heq : key = name
    · rw [if_pos heq, if_pos (List.mem_cons.mpr (Or.inl heq))]
      cases host.env key with
      | none => rw [Option.none_or, Option.none_or, ite_self]
      | some value => rw [Option.some_or, Option.some_or, ite_self]
    · have hmem : key ∈ name :: names ↔ key ∈ names := by
        rw [List.mem_cons, or_iff_right heq]
      rw [if_neg heq]
      simp only [hmem]

theorem isMap_passVariable {env : List (Text × Text)} (hmap : IsMap env) (host : Host)
    (name : Text) : IsMap (passVariable host env name) := by
  rw [passVariable]
  cases host.env name with
  | none => exact hmap
  | some value => exact isMap_setEnv hmap (name, value)

theorem isMap_foldl_passVariable {env : List (Text × Text)} (hmap : IsMap env) (host : Host)
    (names : List Text) : IsMap (names.foldl (passVariable host) env) := by
  induction names generalizing env with
  | nil => exact hmap
  | cons name names ih => exact ih (isMap_passVariable hmap host name)

/-- The value that an `--env KEY=VALUE` gives a name. -/
def valueFor (name entry : Text) : Option Text :=
  (splitOnce '=' entry).bind fun pair => if pair.1 = name then some pair.2 else none

/-- The value of the last entry for a name. -/
def lastValue (name : Text) (entries : List Text) : Option Text :=
  entries.reverse.findSome? (valueFor name)

/-- The `--env` options are written in their order. -/
theorem setVariables_ok {env result : List (Text × Text)} {entries : List Text}
    (hmap : IsMap env) (hset : setVariables env entries = .ok result) :
    IsMap result ∧ ∀ key, result.lookup key = (lastValue key entries).or (env.lookup key) := by
  induction entries generalizing env with
  | nil =>
    cases hset
    exact ⟨hmap, fun key => rfl⟩
  | cons entry entries ih =>
    rw [setVariables] at hset
    split at hset
    · rename_i hcontains
      obtain ⟨hresult, hlookup⟩ := ih (isMap_setEnv hmap _) hset
      refine ⟨hresult, fun key => ?_⟩
      have hmem : '=' ∈ entry := List.contains_iff_mem.mp hcontains
      rw [hlookup, lookup_setEnv, lastValue, lastValue, List.reverse_cons, List.findSome?_append,
        List.findSome?_singleton, valueFor, splitOnce_of_mem hmem, Option.bind_some,
        Option.or_assoc]
      congr 1
      by_cases heq : key = entry.takeWhile (· ≠ '=')
      · rw [if_pos heq, if_pos heq.symm]
        rfl
      · rw [if_neg heq, if_neg (Ne.symm heq)]
        rfl
    · cases hset

/-- The precedence of the first three sources. -/
def chosen (host : Host) (args : Args) (cfg : Config) (name : Text) : Option Text :=
  (lastValue name args.cliEnv).or
    ((if name ∈ cfg.passEnv ++ args.cliPassEnv then host.env name else none).or
      (cfg.env.lookup name))

theorem resolveEnv_ok {host : Host} {args : Args} {cfg : Config} {result : List (Text × Text)}
    (hmap : IsMap cfg.env) (hresolved : resolveEnv host args cfg = .ok result) :
    IsMap result ∧ ∀ name, result.lookup name = chosen host args cfg name := by
  obtain ⟨hresult, hlookup⟩ := setVariables_ok (isMap_foldl_passVariable hmap host _) hresolved
  refine ⟨hresult, fun name => ?_⟩
  rw [hlookup, chosen, lookup_foldl_passVariable]
  congr 1
  split
  · rfl
  · rfl

/-! ## All sources -/

/-- What no other source can change: the home and the settings of the proxy. -/
def forced (home : Bytes) (proxyUrl : Text) : List (Text × Bytes) :=
  [("HOME".toList, home), ("HTTP_PROXY".toList, utf8 proxyUrl),
    ("HTTPS_PROXY".toList, utf8 proxyUrl), ("NO_PROXY".toList, []),
    ("NODE_USE_ENV_PROXY".toList, utf8 "1".toList), ("NODE_USE_SYSTEM_CA".toList, utf8 "1".toList)]

/-- The names that are forced, whatever their values are. -/
def forcedNames : List Text :=
  ["HOME".toList, "HTTP_PROXY".toList, "HTTPS_PROXY".toList, "NO_PROXY".toList,
    "NODE_USE_ENV_PROXY".toList, "NODE_USE_SYSTEM_CA".toList]

theorem mem_forcedNames {home : Bytes} {proxyUrl : Text} {entry : Text × Bytes}
    (hentry : entry ∈ forced home proxyUrl) : entry.1 ∈ forcedNames :=
  List.mem_map_of_mem (f := Prod.fst) hentry

theorem execEnv_forced (env : List (Text × Text)) (home : Bytes) (proxyUrl : Text) :
    execEnv env (some home) (some proxyUrl) =
      env.map (fun entry => (entry.1, utf8 entry.2)) ++ forced home proxyUrl := by
  rw [execEnv, List.append_assoc]
  rfl

theorem equals_notMem_forcedNames : ∀ name ∈ forcedNames, '=' ∉ name := by decide

/-- The forced variables stand last, and an earlier word for one of them does nothing. -/
theorem environment_exec (backend : LxcBackend) (name : Text) (command : List Text)
    (env : List (Text × Text)) (cwd : Bytes) (uid gid : UInt32) (home : Bytes) (proxyUrl : Text)
    (key : Bytes) :
    environment (backend.exec name command env cwd uid gid (some home) (some proxyUrl)) key =
      (((forced home proxyUrl).map fun entry => (utf8 entry.1, entry.2)).reverse.lookup key).or
        ((env.map fun entry =>
          assignment (envPair (entry.1, utf8 entry.2))).reverse.lookup key) := by
  have hforced : ((forced home proxyUrl).map fun entry => assignment (envPair entry)) =
      (forced home proxyUrl).map fun entry => (utf8 entry.1, entry.2) :=
    List.map_congr_left fun entry hentry =>
      assignment_envPair (equals_notMem_forcedNames _ (mem_forcedNames hentry)) entry.2
  rw [LxcBackend.exec, environment_execArgv, execEnv_forced, List.map_append, List.reverse_append,
    List.lookup_append, hforced, List.map_map]
  rfl

theorem lookup_forced (home : Bytes) (proxyUrl : Text) :
    ∀ entry ∈ forced home proxyUrl,
      ((forced home proxyUrl).map fun entry => (utf8 entry.1, entry.2)).reverse.lookup
        (utf8 entry.1) = some entry.2 := by
  intro entry hentry
  simp only [forced, List.mem_cons, List.not_mem_nil, or_false] at hentry
  rcases hentry with rfl | rfl | rfl | rfl | rfl | rfl
  all_goals rfl

/-- Names and values as bytes: what no text encodes is no name. -/
theorem lookup_map_utf8 (env : List (Text × Text)) (key : Bytes) :
    (env.map fun entry => (utf8 entry.1, utf8 entry.2)).lookup key =
      (toStr key).bind fun name => (env.lookup name).map utf8 := by
  induction env with
  | nil =>
    cases toStr key with
    | none => rfl
    | some name => rfl
  | cons entry env ih =>
    rw [List.map_cons, List.lookup_cons, ih]
    cases hkey : toStr key with
    | none =>
      have hne : key ≠ utf8 entry.1 := by
        rintro rfl
        rw [(toStr_eq_some_iff _ _).mpr rfl] at hkey
        cases hkey
      rw [beq_false_of_ne hne]
      rfl
    | some name =>
      have hname := (toStr_eq_some_iff key name).mp hkey
      rw [Option.bind_some, Option.bind_some, lookup_cons]
      by_cases heq : name = entry.1
      · rw [if_pos heq, ← hname, heq, beq_self_eq_true]
        rfl
      · have hne : key ≠ utf8 entry.1 := by
          rw [← hname]
          exact fun h => heq (utf8_injective h)
        rw [if_neg heq, beq_false_of_ne hne]

/-- The proxy of the run, as a url. -/
def proxyUrl (isolation : Isolation) : Text :=
  "http://".toList ++ isolation.subnet.gateway.display ++ ':' :: portText proxyPort

/-- The command line of a command of the run. -/
def runArgv (backend : LxcBackend) (cfg : LaunchConfig) (isolation : Isolation)
    (command : List Text) (env : List (Text × Text)) (cwd : Bytes) : List Bytes :=
  backend.exec cfg.name command env cwd cfg.execUid cfg.execGid (some cfg.containerHome)
    (some (proxyUrl isolation))

/-- The command line behind a command of the model. -/
def commandArgv (backend : LxcBackend) : Command → Option (List Bytes)
  | .exec name command env cwd uid gid home proxyUrl =>
    some (backend.exec name command env cwd uid gid (some home) (some proxyUrl))
  | _ => none

/-- Without a worktree, the run gives every command the map as it is. -/
theorem emits_session_direct {plan : Plan} (hdirect : plan.worktree = none) (backend : LxcBackend)
    (launch : LaunchConfig) (isolation : Isolation) :
    Emits (fun c => ∀ argv, commandArgv backend c = some argv → ∃ command,
      argv = runArgv backend launch isolation command plan.env plan.projectDir)
      (session launch isolation plan).run := by
  have hexec : ∀ command, Emits (fun c => ∀ argv, commandArgv backend c = some argv →
      ∃ command, argv = runArgv backend launch isolation command plan.env plan.projectDir)
      (exec launch isolation command plan.env plan.projectDir).run := by
    refine fun command => emits_request fun argv hargv => ?_
    exact ⟨command, (Option.some.inj hargv).symm⟩
  refine emits_seq (emits_preRun (fun _ => hexec _) plan.preRun) fun failed => ?_
  cases failed with
  | some code => exact emits_done _
  | none =>
    dsimp only
    rw [runCommand, hdirect]
    exact hexec _

/-- A command sees the forced variables, whatever the keys of the map are. Where they are
names, every other variable is the last `--env` for it, else the host's value if it is
passed, else the configured one; a run without a worktree adds nothing to the map. -/
theorem runArgv_environment {host : Host} {args : Args} {cfg : Config}
    {envMap order : List (Text × Text)} (hmap : IsMap cfg.env)
    (hresolved : resolveEnv host args cfg = .ok envMap) (horder : order.Perm envMap)
    (backend : LxcBackend) (launch : LaunchConfig) (isolation : Isolation) (command : List Text)
    (cwd : Bytes) :
    (∀ env, ∀ entry ∈ forced launch.containerHome (proxyUrl isolation),
      environment (runArgv backend launch isolation command env cwd) (utf8 entry.1) =
        some entry.2) ∧
    ((∀ entry ∈ order, '=' ∉ entry.1) → ∀ key : Bytes,
      (∀ entry ∈ forced launch.containerHome (proxyUrl isolation), utf8 entry.1 ≠ key) →
      environment (runArgv backend launch isolation command order cwd) key =
        (toStr key).bind fun name => (chosen host args cfg name).map utf8) ∧
    ∀ plan : Plan, plan.worktree = none →
      Emits (fun c => ∀ argv, commandArgv backend c = some argv → ∃ command,
        argv = runArgv backend launch isolation command plan.env plan.projectDir)
        (session launch isolation plan).run := by
  obtain ⟨henvMap, hlookup⟩ := resolveEnv_ok hmap hresolved
  have hordered : ∀ name, order.reverse.lookup name = chosen host args cfg name := by
    intro name
    rw [← hlookup, ← lookup_perm henvMap (horder.symm.trans order.reverse_perm.symm)]
  refine ⟨?_, ?_, fun plan hdirect => emits_session_direct hdirect backend launch isolation⟩
  · intro env entry hentry
    rw [runArgv, environment_exec, lookup_forced _ _ entry hentry]
    rfl
  · intro hnames key hfree
    have hunforced : ((forced launch.containerHome (proxyUrl isolation)).map fun entry =>
        (utf8 entry.1, entry.2)).reverse.lookup key = none := by
      rw [List.lookup_eq_none_iff]
      intro entry hentry
      obtain ⟨own, hown, rfl⟩ := List.mem_map.mp (List.mem_reverse.mp hentry)
      rw [bne_iff_ne]
      exact (hfree own hown).symm
    have hwords : (order.map fun entry => assignment (envPair (entry.1, utf8 entry.2))) =
        order.map fun entry => (utf8 entry.1, utf8 entry.2) :=
      List.map_congr_left fun entry hentry =>
        assignment_envPair (hnames entry hentry) (utf8 entry.2)
    rw [runArgv, environment_exec, hunforced, Option.none_or, hwords, ← List.map_reverse,
      lookup_map_utf8]
    congr 1
    funext name
    rw [hordered]

def pagerHost : Host :=
  { MountBoundary.userHost MountBoundary.workFiles [] with
    env := fun key => if key = "PAGER".toList then some "most".toList else none }

def pagerOptions : Args :=
  { MountBoundary.noOptions with
    cliEnv := ["EDITOR=vi".toList]
    cliPassEnv := ["PAGER".toList] }

def pagerConfig : Config :=
  { Config.default with env := [("EDITOR".toList, "ed".toList), ("PAGER".toList, "less".toList)] }

/-- The editor of the command line and the pager of the host, over the configured ones. -/
theorem runArgv_environment_pager :
    resolveEnv pagerHost pagerOptions pagerConfig =
      .ok [("EDITOR".toList, "vi".toList), ("PAGER".toList, "most".toList)] ∧
    ∀ (backend : LxcBackend) (launch : LaunchConfig) (isolation : Isolation),
      environment (runArgv backend launch isolation ["env".toList]
        [("PAGER".toList, "most".toList), ("EDITOR".toList, "vi".toList)] launch.containerHome)
        (utf8 "PAGER".toList) = some (utf8 "most".toList) := by
  have hresolved : resolveEnv pagerHost pagerOptions pagerConfig =
      .ok [("EDITOR".toList, "vi".toList), ("PAGER".toList, "most".toList)] := by rfl
  have hmap : IsMap pagerConfig.env :=
    (by decide : (["EDITOR".toList, "PAGER".toList] : List Text).Nodup)
  refine ⟨hresolved, fun backend launch isolation => ?_⟩
  obtain ⟨_, hnames, _⟩ := runArgv_environment hmap hresolved (List.Perm.swap _ _ []) backend launch
    isolation ["env".toList] launch.containerHome
  rw [hnames (by decide) (utf8 "PAGER".toList) ?_]
  · rfl
  · intro entry hentry
    have hother : ∀ name ∈ forcedNames, utf8 name ≠ utf8 "PAGER".toList := by decide
    exact hother _ (mem_forcedNames hentry)

end CommandEnvironment
