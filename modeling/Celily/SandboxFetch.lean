import Celily.HostChecks
import Celily.RegisterErrors
import Celily.WorktreeInit

/-!
# Fetching from the sandbox

What a fetch through a registered remote may change in the repository of the host. Git
reads the refspecs, the tag option and the pruning options of the remote, the last two
with a default for all remotes; `Fetches` is what its documentation promises of them.
The sandbox chooses its refs freely.
-/

namespace SandboxFetch

open RustText AtomicScripts GitConfig GitRemote RegisterErrors WorktreeInit
open HostChecks (branchName)

/-- Before and after the last `c`. -/
def splitLast (c : Char) : Text → Option (Text × Text)
  | [] => none
  | x :: rest =>
    match splitLast c rest with
    | some (before, after) => some (x :: before, after)
    | none => if x = c then some ([], rest) else none

/-- Before and after the first `*`. -/
def splitStar : Text → Option (Text × Text)
  | [] => none
  | x :: rest =>
    if x = '*' then some ([], rest)
    else (splitStar rest).map (fun (before, after) => (x :: before, after))

/-- `+<src>:<dst>`: the plus allows updates that are no fast-forward. -/
structure Refspec where
  force : Bool
  src : Text
  dst : Text
  deriving DecidableEq

/-- Without a `:` no ref is updated. -/
def parseRefspec (value : Text) : Option Refspec :=
  match value with
  | '+' :: rest => (splitLast ':' rest).map (fun (src, dst) => ⟨true, src, dst⟩)
  | _ => (splitLast ':' value).map (fun (src, dst) => ⟨false, src, dst⟩)

/-- The ref of the remote that this ref is updated from. -/
def Refspec.source (spec : Refspec) (ref : Text) : Option Text :=
  match splitStar spec.dst with
  | none => if ref = spec.dst then some spec.src else none
  | some (before, after) =>
    if before.isPrefixOf ref ∧ after.isSuffixOf (ref.drop before.length) then
      let middle := (ref.drop before.length).take (ref.length - before.length - after.length)
      some (match splitStar spec.src with
        | none => spec.src
        | some (first, last) => first ++ middle ++ last)
    else none

def refspecs (config : RepoConfig) (name : Text) : List Refspec :=
  (variablesOf config ("remote.".toList ++ name) (foldName "fetch".toList)).filterMap parseRefspec

/-- Numbers other than 0 are true as well. -/
def isTrue (value : Text) : Bool :=
  decide (foldName value ∉ ["false".toList, "no".toList, "off".toList, "0".toList, []])

/-- The option of the remote, or that of all remotes. -/
def option (config : RepoConfig) (name key : Text) : Bool :=
  match (variablesOf config ("remote.".toList ++ name)).last key with
  | some value => isTrue value
  | none => ((variablesOf config "fetch".toList).last key).any isTrue

def followsTags (config : RepoConfig) (name : Text) : Bool :=
  (variablesOf config ("remote.".toList ++ name)).last "tagOpt".toList ≠ some "--no-tags".toList

def isTag (ref : Text) : Bool := "refs/tags/".toList.isPrefixOf ref

/-- The objects that the refs of a repository point to, by their full names. -/
abbrev Refs (Object : Type) := Text → Option Object

section Fetch
variable {Object : Type}

/-- `git fetch <name>`, with the refs of the remote and then those of the repository. -/
abbrev Fetch (Object : Type) := RepoConfig → Text → Refs Object → Refs Object → Refs Object

/-- A ref is changed only if a refspec or an option of the remote is about it. It is
updated to what a ref of the remote points to, or pruned. -/
structure Fetches (fetch : Fetch Object) : Prop where
  about : ∀ config name theirs ours ref, fetch config name theirs ours ref ≠ ours ref →
    (∃ spec ∈ refspecs config name, (spec.source ref).isSome = true) ∨
      isTag ref = true ∧
        (followsTags config name = true ∨ option config name "pruneTags".toList = true)
  updated : ∀ config name theirs ours ref, fetch config name theirs ours ref ≠ ours ref →
    (∃ src object, theirs src = some object ∧ fetch config name theirs ours ref = some object) ∨
      option config name "prune".toList = true ∧ fetch config name theirs ours ref = none

end Fetch

/-! ## The refspec of a session -/

theorem splitLast_free {c : Char} {text : Text} (hfree : c ∉ text) : splitLast c text = none := by
  induction text with
  | nil => rfl
  | cons x text ih =>
    rw [List.mem_cons, not_or] at hfree
    rw [splitLast, ih hfree.2]
    exact if_neg (Ne.symm hfree.1)

theorem splitLast_append {c : Char} {after : Text} (hfree : c ∉ after) (before : Text) :
    splitLast c (before ++ c :: after) = some (before, after) := by
  induction before with
  | nil =>
    rw [List.nil_append, splitLast, splitLast_free hfree]
    exact if_pos rfl
  | cons x before ih => rw [List.cons_append, splitLast, ih]

theorem splitStar_free {text : Text} (hfree : '*' ∉ text) : splitStar text = none := by
  induction text with
  | nil => rfl
  | cons x text ih =>
    rw [List.mem_cons, not_or] at hfree
    rw [splitStar, if_neg (Ne.symm hfree.1), ih hfree.2, Option.map_none]

def heads : Text := "refs/heads/".toList

/-- The ref of the branch that a remote is named after. -/
def branchRef (remote : SandboxRemote) : Text := heads ++ remote.name

theorem not_mem_branchRef {remote : SandboxRemote} {c : Char} (hheads : c ∉ heads)
    (hname : c ∉ remote.name) : c ∉ branchRef remote := by
  intro hmem
  rcases List.mem_append.mp hmem with hmem | hmem
  · exact hheads hmem
  · exact hname hmem

theorem refspec_text (remote : SandboxRemote) :
    remote.refspec = '+' :: (branchRef remote ++ ':' :: branchRef remote) := by
  have hparts : ∀ plus colon name : Text, plus = '+' :: heads → colon = ':' :: heads →
      plus ++ name ++ colon ++ name = '+' :: ((heads ++ name) ++ ':' :: (heads ++ name)) := by
    rintro plus colon name rfl rfl
    simp only [List.append_assoc, List.cons_append]
  exact hparts _ _ _ (by decide) (by decide)

theorem parse_refspec {remote : SandboxRemote} (hcolon : ':' ∉ remote.name) :
    parseRefspec remote.refspec = some ⟨true, branchRef remote, branchRef remote⟩ := by
  rw [refspec_text, parseRefspec, splitLast_append (not_mem_branchRef (by decide) hcolon),
    Option.map_some]

theorem source_branch {remote : SandboxRemote} (hstar : '*' ∉ remote.name) {ref : Text}
    (hsource : ((⟨true, branchRef remote, branchRef remote⟩ : Refspec).source ref).isSome = true) :
    ref = branchRef remote := by
  rw [Refspec.source, splitStar_free (not_mem_branchRef (by decide) hstar)] at hsource
  by_cases href : ref = branchRef remote
  · exact href
  · dsimp only at hsource
    rw [if_neg href] at hsource
    cases hsource

theorem name_chars {given name : Text} (hname : parseWorktreeName given = .ok name) :
    ∀ c ∈ name, validChar c = true := by
  unfold parseWorktreeName at hname
  cases hhead : given.head? with
  | none => rw [hhead] at hname; cases hname
  | some first =>
    rw [hhead] at hname
    dsimp only at hname
    split at hname
    · rename_i hvalid
      obtain rfl := Except.ok.inj hname
      exact List.all_eq_true.mp hvalid.2.2
    · cases hname

theorem not_mem_branchName {given name : Text} (hname : parseWorktreeName given = .ok name)
    {c : Char} (hc : validChar c = false) (hslash : c ∉ "celily/".toList) :
    c ∉ branchName name := by
  intro hmem
  rcases List.mem_append.mp hmem with hmem | hmem
  · exact hslash hmem
  · rw [name_chars hname c hmem] at hc
    cases hc

/-! ## The section of a registered remote -/

theorem values_put (vars : Variables) (name value : Text) :
    (vars.put name value) (foldName name) = [value] := by
  rw [Variables.put, Function.update_self]

theorem values_written_other {settings : List (Text × Text)} {name : Text}
    (hother : ∀ s ∈ settings, foldName name ≠ foldName s.1) (sectionName : Text)
    (config : RepoConfig) :
    variablesOf (written sectionName config settings) sectionName (foldName name) =
      variablesOf config sectionName (foldName name) := by
  induction settings generalizing config with
  | nil => rfl
  | cons setting settings ih =>
    rw [written_cons, ih (fun s hs => hother s (List.mem_cons_of_mem setting hs)),
      variablesOf_update, put_other (hother setting List.mem_cons_self)]

/-- A variable that is written has one value. -/
theorem values_written {settings : List (Text × Text)} (hdistinct : Distinct settings)
    (sectionName : Text) (config : RepoConfig) {setting : Text × Text}
    (hmem : setting ∈ settings) :
    variablesOf (written sectionName config settings) sectionName (foldName setting.1) =
      [setting.2] := by
  induction settings generalizing config with
  | nil => cases hmem
  | cons first settings ih =>
    obtain ⟨hfirst, hrest⟩ := List.pairwise_cons.mp hdistinct
    rw [written_cons]
    rcases List.mem_cons.mp hmem with rfl | hmem
    · rw [values_written_other hfirst, variablesOf_update, values_put]
    · exact ih hrest _ hmem

/-- Each setting of the remote is the only value of its variable. -/
def Registered (remote : SandboxRemote) (config : RepoConfig) : Prop :=
  ∀ setting ∈ remote.settings,
    variablesOf config remote.sectionName (foldName setting.1) = [setting.2]

theorem registered_of_ok {remote : SandboxRemote} {faults : List Bool}
    {config final : RepoConfig}
    (hrun : attempt execute none faults remote.register config = (.ok (), final)) :
    Registered remote final := by
  rcases attempt_register remote faults config with ⟨base, rest, _, hwrites⟩ | ⟨_, error, herror⟩
  · rw [written_of_ok _ _ (distinct_settings remote) (hwrites.symm.trans hrun)]
    exact fun setting hmem => values_written (distinct_settings remote) _ _ hmem
  · cases (Prod.mk.inj (herror.symm.trans hrun)).1

section Registered
variable {remote : SandboxRemote} {config : RepoConfig}

theorem last_registered (hregistered : Registered remote config) {setting : Text × Text}
    (hmem : setting ∈ remote.settings) :
    (variablesOf config ("remote.".toList ++ remote.name)).last setting.1 = some setting.2 := by
  change (variablesOf config remote.sectionName (foldName setting.1)).getLast? = _
  rw [hregistered setting hmem, List.getLast?_singleton]

theorem refspecs_registered (hregistered : Registered remote config)
    (hcolon : ':' ∉ remote.name) :
    refspecs config remote.name = [⟨true, branchRef remote, branchRef remote⟩] := by
  have hmem : ("fetch".toList, remote.refspec) ∈ remote.settings := by
    simp [SandboxRemote.settings, SandboxRemote.protections]
  have hvalues : variablesOf config ("remote.".toList ++ remote.name) (foldName "fetch".toList) =
      [remote.refspec] := hregistered _ hmem
  rw [refspecs, hvalues, List.filterMap_cons, parse_refspec hcolon]
  rfl

theorem followsTags_registered (hregistered : Registered remote config) :
    followsTags config remote.name = false := by
  have hmem : ("tagOpt".toList, "--no-tags".toList) ∈ remote.settings := by
    simp [SandboxRemote.settings, SandboxRemote.protections]
  rw [followsTags, last_registered hregistered hmem]
  exact decide_eq_false (not_not_intro rfl)

/-- The pruning options of all remotes do not apply. -/
theorem option_registered (hregistered : Registered remote config) {key : Text}
    (hmem : (key, "false".toList) ∈ remote.settings) : option config remote.name key = false := by
  have hfalse : isTrue "false".toList = false := by decide
  rw [option, last_registered hregistered hmem]
  exact hfalse

end Registered

/-- Whatever the sandbox offers and git is told of other remotes, a fetch through the
remote of a session changes its branch and no other ref, and removes none. -/
theorem fetch_only_branch {Object : Type} {fetch : Fetch Object} (hfetch : Fetches fetch)
    {given worktree : Text} (hgiven : parseWorktreeName given = .ok worktree)
    {remote : SandboxRemote} (hname : remote.name = branchName worktree) {faults : List Bool}
    {config registered now : RepoConfig}
    (hregister : attempt execute none faults remote.register config = (.ok (), registered))
    (hnow : now remote.sectionName = registered remote.sectionName) (theirs ours : Refs Object)
    {ref : Text} (hchanged : fetch now remote.name theirs ours ref ≠ ours ref) :
    ref = branchRef remote ∧ ∃ src object, theirs src = some object ∧
      fetch now remote.name theirs ours ref = some object := by
  have hregistered : Registered remote now := by
    intro setting hmem
    rw [variablesOf, hnow]
    exact registered_of_ok hregister setting hmem
  have hcolon : ':' ∉ remote.name := by
    rw [hname]
    exact not_mem_branchName hgiven (by decide) (by decide)
  have hstar : '*' ∉ remote.name := by
    rw [hname]
    exact not_mem_branchName hgiven (by decide) (by decide)
  have hpruneTags : option now remote.name "pruneTags".toList = false :=
    option_registered hregistered (by simp [SandboxRemote.settings, SandboxRemote.protections])
  have hprune : option now remote.name "prune".toList = false :=
    option_registered hregistered (by simp [SandboxRemote.settings, SandboxRemote.protections])
  constructor
  · rcases hfetch.about _ _ _ _ _ hchanged with ⟨spec, hmem, hsource⟩ | ⟨_, htags⟩
    · rw [refspecs_registered hregistered hcolon] at hmem
      obtain rfl := List.mem_singleton.mp hmem
      exact source_branch hstar hsource
    · rw [followsTags_registered hregistered, hpruneTags] at htags
      simp at htags
  · rcases hfetch.updated _ _ _ _ _ hchanged with hupdated | ⟨hpruned, _⟩
    · exact hupdated
    · rw [hprune] at hpruned
      cases hpruned

/-- A fetch as git does it for refs of full names. -/
def plainFetch {Object : Type} : Fetch Object := fun config name theirs ours ref =>
  let sources := (refspecs config name).filterMap (fun spec => spec.source ref)
  let pruneTags := option config name "pruneTags".toList
  match sources.findSome? theirs with
  | some object => some object
  | none =>
    if isTag ref ∧ (pruneTags ∨ followsTags config name ∧ ours ref = none) ∧ theirs ref ≠ none then
      theirs ref
    else if option config name "prune".toList ∧ (sources ≠ [] ∨ isTag ref ∧ pruneTags) then none
    else ours ref

theorem isSome_of_mem_sources {specs : List Refspec} {ref src : Text}
    (hmem : src ∈ specs.filterMap (fun spec => spec.source ref)) :
    ∃ spec ∈ specs, (spec.source ref).isSome = true := by
  obtain ⟨spec, hspec, hsource⟩ := List.mem_filterMap.mp hmem
  exact ⟨spec, hspec, by rw [hsource]; rfl⟩

theorem plainFetch_fetches {Object : Type} : Fetches (plainFetch : Fetch Object) := by
  constructor
  · intro config name theirs ours ref hchanged
    dsimp only [plainFetch] at hchanged
    split at hchanged
    · rename_i object hfound
      obtain ⟨src, hmem, _⟩ := List.exists_of_findSome?_eq_some hfound
      exact Or.inl (isSome_of_mem_sources hmem)
    · split at hchanged
      · rename_i htag
        refine Or.inr ⟨htag.1, ?_⟩
        rcases htag.2.1 with hprune | hfollows
        · exact Or.inr hprune
        · exact Or.inl hfollows.1
      · split at hchanged
        · rename_i hpruned
          rcases hpruned.2 with hsources | htag
          · obtain ⟨src, hmem⟩ := List.exists_mem_of_ne_nil _ hsources
            exact Or.inl (isSome_of_mem_sources hmem)
          · exact Or.inr ⟨htag.1, Or.inr htag.2⟩
        · exact absurd rfl hchanged
  · intro config name theirs ours ref hchanged
    dsimp only [plainFetch] at hchanged ⊢
    split at hchanged
    · rename_i object hfound
      obtain ⟨src, _, hobject⟩ := List.exists_of_findSome?_eq_some hfound
      exact Or.inl ⟨src, object, hobject, rfl⟩
    · split at hchanged
      · rename_i htag
        obtain ⟨object, hobject⟩ := Option.ne_none_iff_exists'.mp htag.2.2
        exact Or.inl ⟨ref, object, hobject, by rw [if_pos htag, hobject]⟩
      · split at hchanged
        · rename_i htag hpruned
          exact Or.inr ⟨hpruned.1, by rw [if_neg htag, if_pos hpruned]⟩
        · exact absurd rfl hchanged

/-- The user prunes branches and tags of all remotes. -/
def pruningConfig : RepoConfig :=
  written "fetch".toList noRemotes
    [("prune".toList, "true".toList), ("pruneTags".toList, "true".toList)]

/-- The branch of the session with a commit of its own, and a tag. -/
def sandboxRefs : Refs Nat := fun ref =>
  if ref = "refs/heads/celily/fix".toList then some 2
  else if ref = "refs/tags/sandbox-tag".toList then some 2
  else none

def hostRefs : Refs Nat := fun ref =>
  if ref = "refs/heads/main".toList then some 1
  else if ref = "refs/tags/host-tag".toList then some 1
  else none

theorem fetch_only_branch_pruning :
    ∃ registered, attempt execute none [] sandbox.register pruningConfig = (.ok (), registered) ∧
      branchRef sandbox = "refs/heads/celily/fix".toList ∧ ∃ src object,
      sandboxRefs src = some object ∧
      plainFetch registered sandbox.name sandboxRefs hostRefs (branchRef sandbox) = some object := by
  have hgiven : parseWorktreeName "fix".toList = .ok "fix".toList := rfl
  have hname : sandbox.name = branchName "fix".toList := by decide
  have hok : (attempt execute none [] sandbox.register pruningConfig).1 = .ok () := by
    decide +kernel
  have hregister : attempt execute none [] sandbox.register pruningConfig =
      (.ok (), (attempt execute none [] sandbox.register pruningConfig).2) := Prod.ext hok rfl
  have hchanged : plainFetch (attempt execute none [] sandbox.register pruningConfig).2
      sandbox.name sandboxRefs hostRefs (branchRef sandbox) ≠ hostRefs (branchRef sandbox) := by
    decide +kernel
  have hfetched :=
    fetch_only_branch plainFetch_fetches hgiven hname hregister rfl sandboxRefs hostRefs hchanged
  exact ⟨_, hregister, by decide, hfetched.2⟩

end SandboxFetch
