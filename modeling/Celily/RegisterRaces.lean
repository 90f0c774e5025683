import Celily.GitRemote

/-!
# Unregistering beside another run

One run unregisters its remote while another of the same name registers its own, the
commands of the two in any order. What the second run has registered is lost exactly
when the first removes the section after the second has written its url: the check of
the url and the removal are two commands.
-/

namespace RegisterRaces

open RustText AtomicScripts GitConfig GitRemote

/-- The commands of the two runs in their order: `unregister` is the left one. -/
abbrev CommandTrace := List (Party × GitCommand)

def removal (remote : SandboxRemote) : Party × GitCommand :=
  (.left, .removeSection remote.sectionName)

def urlWrite (remote : SandboxRemote) : Party × GitCommand :=
  (.right, .set remote.sectionName "url".toList remote.url)

/-- The section is removed after the registering run has written its url. -/
def RemovedLate (remote : SandboxRemote) (trace : CommandTrace) : Prop :=
  [urlWrite remote, removal remote].Sublist trace

instance (remote : SandboxRemote) (trace : CommandTrace) : Decidable (RemovedLate remote trace) :=
  inferInstanceAs (Decidable (List.Sublist _ _))

/-- The commands of `unregister`. -/
def Unregisters (sectionName : Text) (command : GitCommand) : Prop :=
  (∃ name, command = .get sectionName name) ∨ command = .removeSection sectionName

theorem unregister_only (remote : SandboxRemote) :
    remote.unregister.Only (Unregisters remote.sectionName) := by
  refine ⟨Or.inl ⟨_, rfl⟩, ?_⟩
  intro reply
  change (remote.unregisterIf (reply.bind nonEmpty)).Only _
  rw [SandboxRemote.unregisterIf]
  split
  · exact ⟨Or.inr rfl, fun _ => trivial⟩
  · trivial

/-! ## Steps -/

theorem removedLate_cons {remote : SandboxRemote} {event : Party × GitCommand}
    {trace : CommandTrace} (hother : event ≠ urlWrite remote) :
    RemovedLate remote (event :: trace) ↔ RemovedLate remote trace := by
  rw [RemovedLate, List.sublist_cons_iff]
  constructor
  · rintro (hlate | ⟨_, heq, _⟩)
    · exact hlate
    · exact absurd (List.cons.inj heq).1.symm hother
  · exact Or.inl

theorem removedLate_url (remote : SandboxRemote) (trace : CommandTrace) :
    RemovedLate remote (urlWrite remote :: trace) ↔ removal remote ∈ trace := by
  rw [RemovedLate, List.cons_sublist_cons, List.singleton_sublist]

theorem removedLate_append {remote : SandboxRemote} {before after : CommandTrace}
    (hbefore : urlWrite remote ∉ before) :
    RemovedLate remote (before ++ after) ↔ RemovedLate remote after := by
  induction before with
  | nil => rfl
  | cons event before ih =>
    rw [List.mem_cons, not_or] at hbefore
    rw [List.cons_append, removedLate_cons (Ne.symm hbefore.1), ih hbefore.2]

theorem execute_set {sectionName name value : Text} {config : RepoConfig}
    (hok : (execute (.set sectionName name value) config).1.isSome = true) :
    (execute (.set sectionName name value) config).2 =
      written sectionName config [(name, value)] := by
  simp only [execute] at hok ⊢
  split at hok
  · rename_i hshort
    rw [if_pos hshort]
    rfl
  · cases hok

theorem removed_section (sectionName : Text) (config : RepoConfig) :
    (execute (.removeSection sectionName) config).2 sectionName = none := by
  rw [execute]
  split
  · assumption
  · exact Function.update_self _ _ _

/-! ## The writes -/

/-- No removal: every setting is written. A removal: what is left is written later. -/
theorem interleaved_writes {α : Type} {remote : SandboxRemote} {left : GitScript α} {result : α}
    {settings : List (Text × Text)} {config final : RepoConfig} {trace : CommandTrace}
    (hleft : left.Only (Unregisters remote.sectionName))
    (hrun : Interleaved execute left (writeAll RegisterError.git remote.sectionName settings)
      config trace result (.ok ()) final) :
    (removal remote ∉ trace → final = written remote.sectionName config settings) ∧
      (removal remote ∈ trace → ∀ name, (∀ s ∈ settings, foldName name ≠ foldName s.1) →
        (variablesOf final remote.sectionName).last name = none) := by
  generalize hright : writeAll RegisterError.git remote.sectionName settings = right at hrun
  generalize hok : Except.ok () = outcome at hrun
  induction hrun generalizing settings with
  | done a b config =>
    cases settings with
    | nil => exact ⟨fun _ => rfl, by simp⟩
    | cons setting settings => cases hright.symm.trans (writeAll_cons _ _ _ _)
  | @left command next other config final trace a b hrest ih =>
    obtain ⟨hkept, hlost⟩ := ih (hleft.2 _) hright hok
    rcases hleft.1 with ⟨name, rfl⟩ | rfl
    · constructor
      · exact fun hremoval => hkept (fun h => hremoval (List.mem_cons_of_mem _ h))
      · intro hremoval
        rcases List.mem_cons.mp hremoval with hsame | hmem
        · cases hsame
        · exact hlost hmem
    · refine ⟨fun hremoval => absurd List.mem_cons_self hremoval, ?_⟩
      intro _ name hother
      by_cases hagain : removal remote ∈ trace
      · exact hlost hagain name hother
      · rw [hkept hagain, last_written_other hother, variablesOf, removed_section]
        rfl
  | @right command other next config final trace a b hrest ih =>
    cases settings with
    | nil => cases hright
    | cons setting settings =>
      obtain ⟨rfl, rfl⟩ := Script.run.inj ((writeAll_cons _ _ _ _).symm.trans hright)
      by_cases hwrite :
          (execute (.set remote.sectionName setting.1 setting.2) config).1.isSome = true
      · rw [execute_set hwrite] at ih
        obtain ⟨hkept, hlost⟩ := ih hleft (if_pos hwrite).symm hok
        constructor
        · intro hremoval
          exact hkept (fun h => hremoval (List.mem_cons_of_mem _ h))
        · intro hremoval name hother
          rcases List.mem_cons.mp hremoval with hsame | hmem
          · cases hsame
          · exact hlost hmem name (fun s hs => hother s (List.mem_cons_of_mem setting hs))
      · beta_reduce at hrest
        rw [if_neg hwrite] at hrest
        cases hok.trans hrest.right_result

/-- From the write of the url on. -/
theorem writes_complete_iff {α : Type} {remote : SandboxRemote} {left : GitScript α} {result : α}
    {config final : RepoConfig} {trace : CommandTrace}
    (hleft : left.Only (Unregisters remote.sectionName))
    (hrun : Interleaved execute left
      (writeAll RegisterError.git remote.sectionName remote.settings) config trace result (.ok ())
      final) :
    Complete final remote ↔ ¬RemovedLate remote trace := by
  rw [SandboxRemote.settings, writeAll_cons] at hrun
  generalize hright : Script.run _ _ = right at hrun
  generalize hok : Except.ok () = outcome at hrun
  induction hrun with
  | done a b config => cases hright
  | left hrest ih =>
    rw [removedLate_cons (by simp [urlWrite]), ih (hleft.2 _) hright hok]
  | @right command other next config final trace a b hrest ih =>
    obtain ⟨rfl, rfl⟩ := Script.run.inj hright
    change _ ↔ ¬RemovedLate remote (urlWrite remote :: trace)
    rw [removedLate_url]
    subst hok
    beta_reduce at hrest
    by_cases hwrite :
        (execute (.set remote.sectionName "url".toList remote.url) config).1.isSome = true
    · rw [if_pos hwrite, execute_set hwrite] at hrest
      obtain ⟨hkept, hlost⟩ := interleaved_writes hleft hrest
      constructor
      · intro hcomplete hremoval
        have hnone := hlost hremoval "url".toList (url_distinct remote)
        have hurl : (variablesOf final remote.sectionName).last "url".toList = some remote.url :=
          hcomplete ("url".toList, remote.url) List.mem_cons_self
        rw [hnone] at hurl
        cases hurl
      · intro hremoval
        have hwritten := complete_written remote config
        rw [SandboxRemote.settings, ← written_first, ← hkept hremoval] at hwritten
        exact hwritten
    · rw [if_neg hwrite] at hrest
      cases hrest.right_result

/-- What a run has registered is lost exactly when the other one removes it late. -/
theorem unregister_keeps_iff {a b : SandboxRemote} (hname : a.name = b.name)
    {config final : RepoConfig} {trace : CommandTrace}
    (hrun : Interleaved execute a.unregister b.register config trace () (.ok ()) final) :
    Complete final b ↔ ¬RemovedLate b trace := by
  have hleft := unregister_only a
  rw [sectionName_congr hname] at hleft
  have hread : (gitConfig b.sectionName "url".toList).Only (· = .get b.sectionName "url".toList) :=
    ⟨rfl, fun _ => trivial⟩
  obtain ⟨before, after, left, existing, read, rfl, hissued, hleft, hrest⟩ :=
    hrun.bind_right hleft hread
  have hbefore : urlWrite b ∉ before := by
    intro hmem
    cases hissued _ hmem
  rw [removedLate_append hbefore]
  cases existing with
  | none => exact writes_complete_iff hleft hrest
  | some existing =>
    rw [SandboxRemote.registerOver] at hrest
    split at hrest
    · have hremove : (git RegisterError.git (.removeSection b.sectionName)).Only
          (· = .removeSection b.sectionName) := ⟨rfl, fun _ => trivial⟩
      obtain ⟨before, after, left, removed, base, rfl, hissued, hleft, hrest⟩ :=
        hrest.bind_right hleft hremove
      have hbefore : urlWrite b ∉ before := by
        intro hmem
        cases hissued _ hmem
      rw [removedLate_append hbefore]
      cases removed with
      | error error => cases hrest.right_result
      | ok stdout => exact writes_complete_iff hleft hrest
    · cases hrest.right_result

def first : SandboxRemote := ⟨"celily/fix".toList, extStart ++ ['1'], by decide⟩

def second : SandboxRemote := ⟨"celily/fix".toList, extStart ++ ['2'], by decide⟩

def registered : RepoConfig := written first.sectionName (fun _ => none) first.settings

/-- The first run is done before the second one starts. -/
theorem unregister_keeps_iff_before : ∃ trace final,
    Interleaved execute first.unregister second.register registered trace () (.ok ()) final ∧
      Complete final second := by
  obtain ⟨trace, _, result, final, hrun, htest⟩ := Interleaved.exists_of_interleave execute
    first.unregister second.register registered
    [.left, .left, .right, .right, .right, .right, .right, .right, .right]
    (fun trace _ b _ => decide (b = .ok () ∧ ¬RemovedLate second trace)) (by decide +kernel)
  obtain ⟨rfl, hkept⟩ := of_decide_eq_true htest
  have hname : first.name = second.name := rfl
  exact ⟨trace, final, hrun, (unregister_keeps_iff hname hrun).mpr hkept⟩

/-- It looks at its own url, which the second one then replaces. -/
theorem unregister_removes_other : ∃ (a b : SandboxRemote) (config final : RepoConfig)
    (trace : CommandTrace), a.name = b.name ∧ a.url ≠ b.url ∧ Complete config a ∧
      Interleaved execute a.unregister b.register config trace () (.ok ()) final ∧
      ¬Complete final b := by
  obtain ⟨trace, _, result, final, hrun, htest⟩ := Interleaved.exists_of_interleave execute
    first.unregister second.register registered
    [.left, .right, .right, .right, .left, .right, .right, .right, .right, .right]
    (fun _ _ b final => decide (b = .ok () ∧
      (variablesOf final second.sectionName).last "url".toList = none)) (by decide +kernel)
  obtain ⟨rfl, hlost⟩ := of_decide_eq_true htest
  refine ⟨first, second, registered, final, trace, rfl, by decide, complete_written first _, hrun,
    ?_⟩
  intro hcomplete
  have hurl := hcomplete ("url".toList, second.url) List.mem_cons_self
  rw [hlost] at hurl
  cases hurl

end RegisterRaces
