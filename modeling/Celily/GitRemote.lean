import Celily.GitConfig

/-!
# The sandbox remote

The host-side remote of a worktree session: its url fetches through the instance, and
five more settings keep a fetch to one ref. `register` writes them one command at a
time, and an error leaves what has been written: the url may stand without the settings
that make it safe to use. `unregister` looks at the url in one command and removes the
section in the next, which by then may be the remote of another run.
-/

namespace GitRemote

open RustText AtomicScripts GitConfig

def extStart : Text := "ext::".toList

/-- The url is one of git's `ext::` transport. -/
def isExt (url : Text) : Bool := extStart.isPrefixOf url

/-- `str::replace` of a character. -/
def replace (c : Char) (new s : Text) : Text := s.flatMap fun d => if d = c then new else [d]

/-- Git splits the url on unescaped spaces and expands `%` sequences. -/
def escapeArg (arg : Text) : Text := replace ' ' "% ".toList (replace '%' "%%".toList arg)

/-- Fails on an argument that is not UTF-8. -/
def extUrl (argv : List Bytes) : Option Text :=
  (argv.mapM toStr).map (fun args => extStart ++ [' '].intercalate (args.map escapeArg))

structure SandboxRemote where
  name : Text
  url : Text
  url_ext : isExt url = true

theorem isExt_extUrl {argv : List Bytes} {url : Text} (hurl : extUrl argv = some url) :
    isExt url = true := by
  obtain ⟨args, _, rfl⟩ := Option.map_eq_some_iff.mp hurl
  rw [isExt, List.isPrefixOf_iff_prefix]
  exact List.prefix_append _ _

/-- `execArgv` turns a command into the argument vector that runs it in the instance. -/
def SandboxRemote.new (branch : Text) (worktree : Bytes) (execArgv : List Text → List Bytes) :
    Option SandboxRemote :=
  (toStr worktree).bind (fun path =>
    match hurl : extUrl (execArgv ["git".toList, "upload-pack".toList, path]) with
    | none => none
    | some url => some ⟨branch, url, isExt_extUrl hurl⟩)

def SandboxRemote.sectionName (remote : SandboxRemote) : Text := "remote.".toList ++ remote.name

/-- The one ref that a fetch updates. -/
def SandboxRemote.refspec (remote : SandboxRemote) : Text :=
  "+refs/heads/".toList ++ remote.name ++ ":refs/heads/".toList ++ remote.name

/-- What a fetch through the url must not be without. -/
def SandboxRemote.protections (remote : SandboxRemote) : List (Text × Text) :=
  [("fetch".toList, remote.refspec), ("tagOpt".toList, "--no-tags".toList),
    ("prune".toList, "false".toList), ("pruneTags".toList, "false".toList),
    ("skipFetchAll".toList, "true".toList)]

def SandboxRemote.settings (remote : SandboxRemote) : List (Text × Text) :=
  ("url".toList, remote.url) :: remote.protections

inductive RegisterError where
  | notSandbox (message : Text)
  | git (context : Text)
  deriving DecidableEq

def notSandboxMessage (name existing : Text) : Text :=
  "git remote '".toList ++ name ++ "' already exists and is not a sandbox remote (".toList ++
    existing ++ "); rename it or use another worktree name".toList

/-- With what the url was: a sandbox remote is replaced, any other is the user's. -/
def SandboxRemote.registerOver (remote : SandboxRemote) :
    Option Text → GitScript (Except RegisterError Unit)
  | none => writeAll .git remote.sectionName remote.settings
  | some existing =>
    if isExt existing then
      (git .git (.removeSection remote.sectionName)).andThen (fun _ =>
        writeAll .git remote.sectionName remote.settings)
    else .done (.error (.notSandbox (notSandboxMessage remote.name existing)))

def SandboxRemote.register (remote : SandboxRemote) : GitScript (Except RegisterError Unit) :=
  (gitConfig remote.sectionName "url".toList).bind remote.registerOver

/-- A failure to remove the section is only logged. -/
def SandboxRemote.unregisterIf (remote : SandboxRemote) (current : Option Text) : GitScript Unit :=
  if current = some remote.url then .run (.removeSection remote.sectionName) (fun _ => .done ())
  else .done ()

def SandboxRemote.unregister (remote : SandboxRemote) : GitScript Unit :=
  (gitConfig remote.sectionName "url".toList).bind remote.unregisterIf

/-! ## What a section says -/

/-- Every setting of the remote is in force. -/
def Complete (config : RepoConfig) (remote : SandboxRemote) : Prop :=
  ∀ setting ∈ remote.settings,
    (variablesOf config remote.sectionName).last setting.1 = some setting.2

/-- An `ext::` url without all of the settings that protect it. -/
def Incomplete (config : RepoConfig) (remote : SandboxRemote) : Prop :=
  (∃ url, configured config remote.sectionName "url".toList = some url ∧ isExt url = true) ∧
    ∃ setting ∈ remote.protections,
      (variablesOf config remote.sectionName).last setting.1 ≠ some setting.2

/-- A remote of that name whose url is not an `ext::` one. -/
def UserRemote (vars : Variables) : Prop :=
  ∃ url, vars.last "url".toList = some url ∧ isExt (trim url) = false

theorem sectionName_congr {a b : SandboxRemote} (hname : a.name = b.name) :
    a.sectionName = b.sectionName :=
  congrArg (fun name => "remote.".toList ++ name) hname

theorem distinct_settings (remote : SandboxRemote) : Distinct remote.settings := by
  have hnames : (remote.settings.map (fun setting => foldName setting.1)).Nodup := by
    change (["url", "fetch", "tagOpt", "prune", "pruneTags", "skipFetchAll"].map
      (fun name => foldName name.toList)).Nodup
    decide
  exact List.pairwise_map.mp hnames

theorem url_distinct (remote : SandboxRemote) :
    ∀ s ∈ remote.protections, foldName "url".toList ≠ foldName s.1 := by
  have hsettings := distinct_settings remote
  rw [SandboxRemote.settings, Distinct, List.pairwise_cons] at hsettings
  exact hsettings.1

/-- The blanks around an `ext::` url are behind it. -/
theorem isExt_trim {url : Text} (hurl : isExt url = true) : isExt (trim url) = true := by
  rw [isExt, List.isPrefixOf_iff_prefix] at hurl ⊢
  obtain ⟨rest, rfl⟩ := hurl
  have hstart : (extStart ++ rest).dropWhile isWhitespace = extStart ++ rest := rfl
  have hend : extStart.reverse.dropWhile isWhitespace = extStart.reverse := by decide
  rw [trim, hstart, List.reverse_append, List.dropWhile_append]
  split
  · rw [hend, List.reverse_reverse]
  · rw [List.reverse_append, List.reverse_reverse]
    exact List.prefix_append _ _

theorem nonEmpty_ext {url : Text} (hurl : isExt url = true) : nonEmpty url = some (trim url) := by
  rw [nonEmpty, if_neg]
  intro hempty
  have htrim := isExt_trim hurl
  rw [hempty] at htrim
  cases htrim

theorem complete_written (remote : SandboxRemote) (config : RepoConfig) :
    Complete (written remote.sectionName config remote.settings) remote :=
  fun _ hmem => last_written (distinct_settings remote) _ _ hmem

end GitRemote
