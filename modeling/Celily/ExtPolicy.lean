import Celily.HostFiles
import Celily.SegmentedLists

/-!
# The policy for the ext transport

Worktree mode fetches through `ext::`, which git allows as its configuration says. The
check reads the two variables with their scopes and follows git's lookup twice: as this
repository sees them, and as a submodule clone does, which does not read the
configuration of the repository.
-/

namespace ExtPolicy

open RustText HostPaths SegmentedLists HostFiles

/-- One line of `git config --show-scope --show-origin --get-all`. -/
structure ConfigEntry where
  key : Text
  scope : Text
  origin : Text
  value : Text

/-- The outcome of a git command; an error has its text. -/
inductive GitOutcome where
  | output (stdout : Bytes)
  | nonZero (code : Option Int) (message : Text)
  | io (message : Text)

/-- `str::lines`. -/
def lines (s : Text) : List Text :=
  let pieces := s.splitOn '\n'
  let whole := pieces.dropLast.map fun line =>
    if line.getLast? = some '\r' then line.dropLast else line
  match pieces.getLast? with
  | none | some [] => whole
  | some rest => whole ++ [rest]

example : lines "global\tg\tuser\r\nlocal".toList =
    ["global\tg\tuser".toList, "local".toList] := by decide

section Reading

-- The `Debug` text of a string.
variable (debug : Text → Text)

/-- Three fields, cut at the first two tabs. -/
def parseConfigEntry (key line : Text) : Anyhow ConfigEntry :=
  let fields := do
    let (scope, rest) ← splitOnce '\t' line
    let (origin, value) ← splitOnce '\t' rest
    return (scope, origin, value)
  match fields with
  | some (scope, origin, value) => .ok ⟨key, scope, origin, value⟩
  | none =>
    bail ("unexpected `git config` output for ".toList ++ key ++ ": ".toList ++ debug line)

def parseConfigEntries (key listing : Text) : Anyhow (List ConfigEntry) :=
  (lines listing).mapM (parseConfigEntry debug key)

/-- The values of a variable in the order in which git reads them. -/
def configEntries (git : Text → GitOutcome) (key : Text) : Anyhow (List ConfigEntry) :=
  let failed (message : Text) : Anyhow (List ConfigEntry) :=
    withContext ("cannot read ".toList ++ key ++ " from the git config".toList) (bail message)
  match git key with
  | .output stdout => parseConfigEntries debug key (trim (fromUtf8Lossy stdout))
  | .nonZero (some 1) _ => .ok []
  | .nonZero _ message => failed message
  | .io message => failed message

/-- The last entry that `keep` leaves, of the first list or else of the second. -/
def lookupEntry (extAllow allow : List ConfigEntry) (keep : Text → Bool) : Option ConfigEntry :=
  (extAllow.reverse.find? fun e => keep e.scope).or (allow.reverse.find? fun e => keep e.scope)

/-- Neither `local` nor `worktree`. -/
def submoduleReads (scope : Text) : Bool :=
  scope ≠ "local".toList && scope ≠ "worktree".toList

/-- The value of an entry and what names it in an error. -/
def entryPolicy : Option ConfigEntry → Text × Text
  | some e =>
    (e.value, e.key ++ " = ".toList ++ e.value ++ ", ".toList ++ e.scope ++ " scope, ".toList ++
      e.origin)
  | none => ("never".toList, "never, git's default".toList)

/-- git's policy and where it comes from. -/
def extPolicy (extAllow allow : List ConfigEntry) (allowProtocol : Option Text) : Text × Text :=
  match allowProtocol with
  | some list =>
    (if (list.splitOn ':').any (fun p => p == "ext".toList) then "always".toList
      else "never".toList, "GIT_ALLOW_PROTOCOL=".toList ++ list)
  | none =>
    -- An `always` that a submodule clone sees goes before what this repository sees.
    entryPolicy <| ((lookupEntry extAllow allow submoduleReads).filter fun e =>
      eqIgnoreAsciiCase e.value "always".toList).or (lookupEntry extAllow allow fun _ => true)

/-- What is made of the policy. -/
def judgeExtPolicy (extAllow allow : List ConfigEntry) (allowProtocol : Option Bytes)
    (projectDir : Bytes) : Anyhow Unit :=
  let policy := extPolicy extAllow allow (allowProtocol.map fromUtf8Lossy)
  let lower := policy.1.map Char.toLower
  if lower = "user".toList then .ok ()
  else if lower = "always".toList then
    bail ("git allows its ext:: transport 'always' (".toList ++ policy.2 ++
      ("). The sandbox could commit a .gitmodules with an ext:: URL, and `git submodule " ++
        "update --init` would run its command on this host. Use 'user' instead; see WORKTREE " ++
        "MODE in celily(1).").toList)
  else
    bail (("worktree mode fetches from the sandbox through git's ext:: transport, which git " ++
      "does not allow here (").toList ++ policy.2 ++
      "). Allow it for this repository with:\n\n    git -C ".toList ++ display projectDir ++
      " config protocol.ext.allow user\n\nSee WORKTREE MODE in celily(1).".toList)

/-- `allowProtocol` is `GIT_ALLOW_PROTOCOL`, if it is set. -/
def checkExtTransportAllowed (git : Text → GitOutcome) (allowProtocol : Option Bytes)
    (projectDir : Bytes) : Anyhow Unit := do
  let extAllow ← configEntries debug git "protocol.ext.allow".toList
  let allow ← configEntries debug git "protocol.allow".toList
  judgeExtPolicy extAllow allow allowProtocol projectDir

end Reading

/-! ## git's own lookup -/

/-- The last `protocol.ext.allow`, else the last `protocol.allow`, else `never`. -/
def gitPolicy (extAllow allow : List ConfigEntry) : Text :=
  match extAllow.getLast?, allow.getLast? with
  | some e, _ => e.value
  | none, some e => e.value
  | none, none => "never".toList

/-- The entries that a submodule clone reads. -/
def submoduleEntries (entries : List ConfigEntry) : List ConfigEntry :=
  entries.filter fun e => submoduleReads e.scope

/-- The environment is silent, git allows the transport to the user, and in a submodule
clone not always. -/
structure Allowed (extAllow allow : List ConfigEntry) (allowProtocol : Option Bytes) : Prop where
  unset : allowProtocol = none
  user : eqIgnoreAsciiCase (gitPolicy extAllow allow) "user".toList = true
  submodule : eqIgnoreAsciiCase (gitPolicy (submoduleEntries extAllow) (submoduleEntries allow))
    "always".toList = false

theorem find_reverse (entries : List ConfigEntry) (p : ConfigEntry → Bool) :
    entries.reverse.find? p = (entries.filter p).getLast? := by
  rw [← List.head?_filter, List.filter_reverse, List.head?_reverse]

/-- The code's search finds what git's lookup reads among the entries that are kept. -/
theorem lookupEntry_value (extAllow allow : List ConfigEntry) (keep : Text → Bool) :
    (entryPolicy (lookupEntry extAllow allow keep)).1 =
      gitPolicy (extAllow.filter fun e => keep e.scope) (allow.filter fun e => keep e.scope) := by
  rw [lookupEntry, find_reverse, find_reverse, gitPolicy]
  cases (extAllow.filter fun e => keep e.scope).getLast? with
  | some e => rfl
  | none =>
    cases (allow.filter fun e => keep e.scope).getLast? with
    | some e => rfl
    | none => rfl

theorem extPolicy_unset (extAllow allow : List ConfigEntry) :
    (extPolicy extAllow allow none).1 =
      if eqIgnoreAsciiCase (gitPolicy (submoduleEntries extAllow) (submoduleEntries allow))
          "always".toList = true then
        gitPolicy (submoduleEntries extAllow) (submoduleEntries allow)
      else gitPolicy extAllow allow := by
  have hsub := lookupEntry_value extAllow allow submoduleReads
  have hall := lookupEntry_value extAllow allow fun _ => true
  rw [List.filter_true, List.filter_true] at hall
  rw [submoduleEntries, submoduleEntries, ← hsub, ← hall, extPolicy]
  cases lookupEntry extAllow allow submoduleReads with
  | none =>
    have hnever : eqIgnoreAsciiCase "never".toList "always".toList = false := by decide
    rw [if_neg (by rw [entryPolicy, hnever]; exact Bool.false_ne_true)]
    rfl
  | some e =>
    cases halways : eqIgnoreAsciiCase e.value "always".toList with
    | true =>
      rw [Option.filter_some, halways, if_pos rfl]
      exact (if_pos halways).symm
    | false =>
      rw [Option.filter_some, halways, if_neg Bool.false_ne_true]
      exact (if_neg (Bool.eq_false_iff.mp halways)).symm

/-- A set `GIT_ALLOW_PROTOCOL` never gives `user`. -/
theorem extPolicy_set (extAllow allow : List ConfigEntry) (list : Text) :
    (extPolicy extAllow allow (some list)).1 = "always".toList ∨
      (extPolicy extAllow allow (some list)).1 = "never".toList := by
  rw [extPolicy]
  by_cases hext : (list.splitOn ':').any (fun p => p == "ext".toList) = true
  · exact Or.inl (if_pos hext)
  · exact Or.inr (if_neg hext)

theorem judgeExtPolicy_ok_iff (extAllow allow : List ConfigEntry) (allowProtocol : Option Bytes)
    (projectDir : Bytes) :
    judgeExtPolicy extAllow allow allowProtocol projectDir = .ok () ↔
      eqIgnoreAsciiCase (extPolicy extAllow allow (allowProtocol.map fromUtf8Lossy)).1
        "user".toList = true := by
  have huser : "user".toList.map Char.toLower = "user".toList := by decide
  rw [eqIgnoreAsciiCase_iff, huser, judgeExtPolicy]
  by_cases hlower : (extPolicy extAllow allow (allowProtocol.map fromUtf8Lossy)).1.map
      Char.toLower = "user".toList
  · rw [if_pos hlower]
    exact iff_of_true rfl hlower
  · rw [if_neg hlower]
    refine iff_of_false ?_ hlower
    split
    · exact fun h => nomatch h
    · exact fun h => nomatch h

theorem judgeExtPolicy_allowed (extAllow allow : List ConfigEntry) (allowProtocol : Option Bytes)
    (projectDir : Bytes) :
    judgeExtPolicy extAllow allow allowProtocol projectDir = .ok () ↔
      Allowed extAllow allow allowProtocol := by
  rw [judgeExtPolicy_ok_iff]
  cases allowProtocol with
  | some list =>
    refine iff_of_false ?_ fun hallowed => nomatch hallowed.unset
    rcases extPolicy_set extAllow allow (fromUtf8Lossy list) with hpolicy | hpolicy
    · rw [Option.map_some, hpolicy]
      decide
    · rw [Option.map_some, hpolicy]
      decide
  | none =>
    rw [Option.map_none, extPolicy_unset]
    by_cases halways : eqIgnoreAsciiCase
        (gitPolicy (submoduleEntries extAllow) (submoduleEntries allow)) "always".toList = true
    · rw [if_pos halways]
      refine iff_of_false (fun huser => ?_) fun hallowed => ?_
      · -- One text is not both.
        rw [eqIgnoreAsciiCase_iff] at halways huser
        exact absurd (halways.symm.trans huser) (by decide)
      · rw [hallowed.submodule] at halways
        exact Bool.false_ne_true halways
    · rw [if_neg halways]
      refine ⟨fun huser => ⟨rfl, huser, Bool.eq_false_iff.mpr halways⟩, fun hallowed => ?_⟩
      exact hallowed.user

/-- The check accepts the entries that the policy allows, and no others, whatever the
entries, the environment and the answers of git are. -/
theorem checkExtTransportAllowed_iff (debug : Text → Text) (git : Text → GitOutcome)
    (allowProtocol : Option Bytes) (projectDir : Bytes) :
    (∀ extAllow allow : List ConfigEntry,
      judgeExtPolicy extAllow allow allowProtocol projectDir = .ok () ↔
        Allowed extAllow allow allowProtocol) ∧
    (checkExtTransportAllowed debug git allowProtocol projectDir = .ok () ↔
      ∃ extAllow allow : List ConfigEntry,
        configEntries debug git "protocol.ext.allow".toList = .ok extAllow ∧
        configEntries debug git "protocol.allow".toList = .ok allow ∧
        Allowed extAllow allow allowProtocol) := by
  refine ⟨fun extAllow allow => judgeExtPolicy_allowed extAllow allow allowProtocol projectDir, ?_⟩
  rw [checkExtTransportAllowed]
  cases hext : configEntries debug git "protocol.ext.allow".toList with
  | error e =>
    refine iff_of_false (fun h => nomatch h) ?_
    rintro ⟨extAllow, allow, hread, -⟩
    exact nomatch hread
  | ok extAllow =>
    cases hallow : configEntries debug git "protocol.allow".toList with
    | error e =>
      refine iff_of_false (fun h => nomatch h) ?_
      rintro ⟨extAllow', allow, -, hread, -⟩
      exact nomatch hread
    | ok allow =>
      refine (judgeExtPolicy_allowed extAllow allow allowProtocol projectDir).trans ⟨?_, ?_⟩
      · exact fun hallowed => ⟨extAllow, allow, rfl, rfl, hallowed⟩
      · rintro ⟨extAllow', allow', hext', hallow', hallowed⟩
        cases hext'
        cases hallow'
        exact hallowed

end ExtPolicy
