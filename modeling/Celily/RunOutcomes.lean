import Celily.IsolatedStart

/-!
# How a run ends

What a run executes in the instance is its plan: the scripts in their order, then the
command. Each of them but the last one executed has exited with 0, and the exit code of
the run is that of the last one. A run that ends otherwise ends with an error.
-/

namespace RunOutcomes

open RustText HostPaths JoinedTasks InstanceLifecycle LifecycleTraces IsolatedStart

/-- A command line and its environment. -/
abbrev Step := List Text × List (Text × Text)

/-- A step that was executed, and what came back. -/
abbrev Ran := Step × Except CommandError Int

def ranOf : Event Reply → Option Ran
  | .returned (.exec _ command env _ _ _ _ _) reply => some ((command, env), reply)
  | _ => none

/-- What was executed in the instance, in its order. -/
def ran (h : List (Event Reply)) : List Ran := h.filterMap ranOf

def scriptStep (plan : Plan) (script : Text) : Step :=
  (["sh".toList, "-c".toList, preRunWrapper script], plan.env)

def commandStep (plan : Plan) : Step :=
  let rawCommand := if plan.command = [] then ["sh".toList, "-l".toList] else plan.command
  match plan.worktree with
  | none => (rawCommand, plan.env)
  | some worktree =>
    (["sh".toList, "-c".toList, worktree.initScript, "--".toList] ++ rawCommand,
      worktreeEnv plan worktree)

/-- What there is to execute. -/
def planned (plan : Plan) : List Step := plan.preRun.map (scriptStep plan) ++ [commandStep plan]

/-- Exited with 0. -/
def succeeded (step : Step) : Ran := (step, .ok 0)

def execError : CommandError → LaunchError := .backend "failed to run lxc exec".toList

/-- How far the plan was executed, and with which result. -/
def Concluded (plan : Plan) (done : List Ran) (r : Except LaunchError Int) : Prop :=
  ∃ before next after, planned plan = before ++ next :: after ∧
    ((done = before.map succeeded ∧ ∃ e, r = .error e) ∨
      ∃ reply, done = before.map succeeded ++ [(next, reply)] ∧ r = reply.mapError execError ∧
        (after ≠ [] → reply ≠ .ok 0))

/-! ## Outside the session -/

/-- Nothing is executed in the instance for the user. -/
def Runless : Command → Prop
  | .exec .. => False
  | _ => True

theorem ran_append (h k : List (Event Reply)) : ran (h ++ k) = ran h ++ ran k :=
  List.filterMap_append

theorem ran_of_runless {h : List (Event Reply)} (hall : ∀ e ∈ h, Runless e.command) :
    ran h = [] := by
  rw [ran, List.filterMap_eq_nil_iff]
  intro e he
  have hcommand := hall e he
  cases e with
  | issued c => rfl
  | returned c reply =>
    cases c with
    | exec _ _ _ _ _ _ _ _ => exact hcommand.elim
    | act _ => rfl
    | ask _ => rfl
    | connect _ _ => rfl
    | quiet _ => rfl

theorem ran_of_emits {α : Type} {t : Task Reply α} (hemits : Emits Runless t)
    {h : List (Event Reply)} {a : α} (hrun : Runs t h a) : ran h = [] :=
  ran_of_runless (hemits h a hrun)

theorem runless_of_area {c : Command} (harea : area c ≠ .use) : Runless c := by
  cases c with
  | exec _ _ _ _ _ _ _ _ => exact absurd rfl harea
  | act _ => trivial
  | ask _ => trivial
  | connect _ _ => trivial
  | quiet _ => trivial

theorem runless_of_within {keep : Bool} {areas : List Area} (hareas : .use ∉ areas) {c : Command}
    (hc : Within keep areas c) : Runless c := by
  refine runless_of_area fun harea => ?_
  rcases hc with hmem | ⟨hdelete, _⟩
  · rw [harea] at hmem
    exact hareas hmem
  · rw [harea] at hdelete
    cases hdelete

theorem runless_init (cfg : LaunchConfig) (isFile : Bytes → Bool) (polls : Nat) :
    Emits Runless (init cfg isFile polls).run :=
  (emits_init cfg isFile polls).mono fun _ => runless_of_within (by simp)

theorem runless_dropState (cfg : LaunchConfig) (isolation : Isolation) :
    Emits Runless (dropState cfg isolation) :=
  (emits_dropState cfg isolation).mono fun _ => runless_of_within (by simp)

theorem runless_waitRunning (name : Text) (attempts : Nat) :
    Emits Runless (waitRunning name attempts) := by
  induction attempts with
  | zero => exact emits_done _
  | succ attempts ih =>
    refine emits_call trivial fun out => ?_
    split
    · exact emits_done _
    · exact ih

theorem runless_start (cfg : LaunchConfig) (isolation : Isolation) :
    Emits Runless (start cfg isolation).run := by
  refine emits_seq (emits_request trivial) fun _ =>
    emits_seq (emits_lift (runless_waitRunning cfg.name 60)) fun ready => ?_
  cases ready with
  | false => exact emits_done _
  | true =>
    refine emits_seq (emits_request trivial) fun _ => emits_seq (emits_request trivial) fun _ => ?_
    exact emits_each fun path _ => emits_seq (emits_request trivial) fun _ => emits_done _

/-! ## The session -/

section Session
variable {cfg : LaunchConfig} {isolation : Isolation} {plan : Plan} {h : List (Event Reply)}

theorem ran_exec {command : List Text} {env : List (Text × Text)} {cwd : Bytes}
    {r : Except LaunchError Int} (hrun : Runs (exec cfg isolation command env cwd).run h r) :
    ∃ reply, ran h = [((command, env), reply)] ∧ r = reply.mapError execError := by
  obtain ⟨reply, rfl, hr⟩ := runs_request.mp hrun
  exact ⟨reply, rfl, hr⟩

/-- All scripts have succeeded, or one of them has not and is the last. -/
theorem ran_preRun {scripts : List Text} {r : Except LaunchError (Option Int)}
    (hrun : Runs (preRun cfg isolation plan scripts).run h r) :
    (r = .ok none ∧ ran h = (scripts.map (scriptStep plan)).map succeeded) ∨
    ∃ before next after reply, scripts.map (scriptStep plan) = before ++ next :: after ∧
      ran h = before.map succeeded ++ [(next, reply)] ∧ reply ≠ .ok 0 ∧
      r = (reply.mapError execError).map some := by
  induction scripts generalizing h with
  | nil =>
    obtain ⟨rfl, rfl⟩ := runs_pure.mp hrun
    exact Or.inl ⟨rfl, rfl⟩
  | cons script scripts ih =>
    rw [preRun] at hrun
    rcases runs_seq.mp hrun with ⟨e, rfl, hfirst⟩ | ⟨code, h₁, h₂, rfl, hfirst, hrest⟩
    · obtain ⟨reply, hran, hreply⟩ := ran_exec hfirst
      refine Or.inr ⟨[], scriptStep plan script, _, reply, rfl, hran, ?_, ?_⟩
      · rintro rfl
        cases hreply
      · rw [← hreply]
        rfl
    · obtain ⟨reply, hran, hreply⟩ := ran_exec hfirst
      rw [mapError_eq_ok hreply] at hran
      rw [ran_append, hran]
      split at hrest
      · rename_i hcode
        obtain ⟨rfl, rfl⟩ := runs_pure.mp hrest
        refine Or.inr ⟨[], scriptStep plan script, _, .ok code, rfl, rfl, ?_, rfl⟩
        exact fun hzero => hcode (Except.ok.inj hzero)
      · rename_i hzero
        obtain rfl := not_not.mp hzero
        rcases ih hrest with ⟨rfl, hall⟩ | ⟨before, next, after, reply, hscripts, hlast, hne, hr⟩
        · exact Or.inl ⟨rfl, by rw [hall]; rfl⟩
        · refine Or.inr ⟨scriptStep plan script :: before, next, after, reply, ?_, ?_, hne, hr⟩
          · rw [List.map_cons, hscripts, List.cons_append]
          · rw [hlast]
            rfl

theorem ran_runCommand {r : Except LaunchError Int}
    (hrun : Runs (runCommand cfg isolation plan).run h r) :
    (ran h = [] ∧ ∃ e, r = .error e) ∨
      ∃ reply, ran h = [(commandStep plan, reply)] ∧ r = reply.mapError execError := by
  rw [runCommand] at hrun
  cases hworktree : plan.worktree with
  | none =>
    rw [hworktree] at hrun
    obtain ⟨reply, hran, hr⟩ := ran_exec hrun
    exact Or.inr ⟨reply, by rw [hran, commandStep, hworktree], hr⟩
  | some worktree =>
    rw [hworktree] at hrun
    have hregister : Emits Runless (act .remote (.registerRemote worktree.branchName)).run :=
      emits_request trivial
    have hunregister : Emits Runless (quiet (.unregisterRemote worktree.branchName)) :=
      emits_call trivial fun _ => emits_done _
    rcases runs_seq.mp hrun with ⟨e, rfl, hremote⟩ | ⟨_, h₁, h₂, rfl, hremote, hrest⟩
    · exact Or.inl ⟨ran_of_emits hregister hremote, e, rfl⟩
    · obtain ⟨h₃, h₄, rfl, hbody, hdrop⟩ := runs_holding.mp hrest
      obtain ⟨reply, hran, hr⟩ := ran_exec hbody
      refine Or.inr ⟨reply, ?_, hr⟩
      rw [ran_append, ran_append, ran_of_emits hregister hremote, hran,
        ran_of_emits hunregister hdrop, commandStep, hworktree]
      rfl

theorem concluded_session {r : Except LaunchError Int}
    (hrun : Runs (session cfg isolation plan).run h r) : Concluded plan (ran h) r := by
  rcases runs_seq.mp hrun with ⟨e, rfl, hfirst⟩ | ⟨failed, h₁, h₂, rfl, hfirst, hrest⟩
  · rcases ran_preRun hfirst with ⟨hok, _⟩ | ⟨before, next, after, reply, hscripts, hlast, hne, hr⟩
    · cases hok
    · refine ⟨before, next, after ++ [commandStep plan], ?_, Or.inr ⟨reply, hlast, ?_,
        fun _ => hne⟩⟩
      · rw [planned, hscripts, List.append_assoc, List.cons_append]
      · cases reply with
        | error e' => exact congrArg _ (Except.error.inj hr)
        | ok code => cases hr
  · rcases ran_preRun hfirst with ⟨hok, hall⟩ | ⟨before, next, after, reply, hscripts, hlast, hne,
      hr⟩
    · obtain rfl := Except.ok.inj hok
      refine ⟨plan.preRun.map (scriptStep plan), commandStep plan, [], rfl, ?_⟩
      rw [ran_append, hall]
      rcases ran_runCommand hrest with ⟨hnone, herror⟩ | ⟨reply, hran, hr⟩
      · exact Or.inl ⟨by rw [hnone, List.append_nil], herror⟩
      · exact Or.inr ⟨reply, by rw [hran], hr, fun hne => absurd rfl hne⟩
    · cases reply with
      | error e' => cases hr
      | ok code =>
        obtain rfl := Except.ok.inj hr
        obtain ⟨rfl, rfl⟩ := runs_pure.mp hrest
        refine ⟨before, next, after ++ [commandStep plan], ?_, Or.inr ⟨.ok code, ?_, rfl,
          fun _ => hne⟩⟩
        · rw [planned, hscripts, List.append_assoc, List.cons_append]
        · rw [List.append_nil, hlast]

end Session

/-- A run executes its plan as far as the first step that does not exit with 0, and ends
with the exit code of the last step it executed; or with an error before it gets there. -/
theorem run_outcome {cfg : LaunchConfig} {isFile : Bytes → Bool} {polls : Nat} {plan : Plan}
    {h : List (Event Reply)} {r : Except LaunchError Int}
    (hrun : Runs (runInstance cfg isFile polls plan).run h r) :
    Concluded plan (ran h) r := by
  have hnothing : ran h = [] → (∃ e, r = .error e) → Concluded plan (ran h) r := by
    intro hnone herror
    cases hplan : planned plan with
    | nil => simp [planned] at hplan
    | cons first rest => exact ⟨[], first, rest, hplan, Or.inl ⟨hnone, herror⟩⟩
  rcases runs_seq.mp hrun with ⟨e, rfl, hinit⟩ | ⟨isolation, k, l, rfl, hinit, hrest⟩
  · exact hnothing (ran_of_emits (runless_init cfg isFile polls) hinit) ⟨e, rfl⟩
  have hk := ran_of_emits (runless_init cfg isFile polls) hinit
  have hstart : Emits Runless (guarded (dropState cfg isolation) (start cfg isolation)).run :=
    emits_guarded (runless_dropState cfg isolation) (runless_start cfg isolation)
  rcases runs_seq.mp hrest with ⟨e, rfl, hfails⟩ | ⟨_, l₁, l₂, rfl, hstarts, hlast⟩
  · refine hnothing ?_ ⟨e, rfl⟩
    rw [ran_append, hk, ran_of_emits hstart hfails, List.append_nil]
  · obtain ⟨m₁, m₂, rfl, hsession, hdrop⟩ := runs_holding.mp hlast
    have hall : ran (k ++ (l₁ ++ (m₁ ++ m₂))) = ran m₁ := by
      rw [ran_append, ran_append, ran_append, hk, ran_of_emits hstart hstarts,
        ran_of_emits (runless_dropState cfg isolation) hdrop, List.append_nil, List.nil_append,
        List.nil_append]
    rw [hall]
    exact concluded_session hsession

/-- Whatever is executed exits with 3. -/
def failingReply : (c : Command) → Reply c
  | .exec .. => .ok 3
  | c => goodReply c

def scriptPlan : Plan := { workPlan with preRun := ["make deps".toList] }

/-- The script fails, and the command is not executed. -/
theorem run_outcome_failing :
    Concluded scriptPlan
      (ran (play failingReply (runInstance workConfig (fun _ => false) 1 scriptPlan).run).1)
      (play failingReply (runInstance workConfig (fun _ => false) 1 scriptPlan).run).2 :=
  run_outcome (runs_play failingReply _)

end RunOutcomes
