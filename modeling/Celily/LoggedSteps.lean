import Mathlib.Data.List.Basic

/-!
# Steps that may fail and keep a log

A step gets the log so far and hands it on, also when it fails. `Logs P` says that a
step only adds entries with the property `P`, and is composed as the steps are.
-/

namespace LoggedSteps

abbrev Logged (ε ω α : Type) := ExceptT ε (StateM (List ω)) α

variable {ε ω α β : Type}

def Logged.runFrom (step : Logged ε ω α) (log : List ω) : Except ε α × List ω :=
  step.run.run log

/-- Add an entry. -/
def tell (entry : ω) : Logged ε ω Unit := modify (· ++ [entry])

theorem runFrom_pure (a : α) (log : List ω) :
    Logged.runFrom (pure a : Logged ε ω α) log = (.ok a, log) := rfl

theorem runFrom_throw (e : ε) (log : List ω) :
    Logged.runFrom (throw e : Logged ε ω α) log = (.error e, log) := rfl

theorem runFrom_lift (x : Except ε α) (log : List ω) :
    Logged.runFrom (liftM x : Logged ε ω α) log = (x, log) := by
  cases x <;> rfl

theorem runFrom_tell (entry : ω) (log : List ω) :
    Logged.runFrom (tell entry : Logged ε ω Unit) log = (.ok (), log ++ [entry]) := rfl

/-- A step behind another one runs when that one succeeds, from its log. -/
theorem runFrom_bind_cases {step : Logged ε ω α} {next : α → Logged ε ω β} {log log' : List ω}
    {result : Except ε β} (hrun : (step >>= next).runFrom log = (result, log')) :
    (∃ a between, step.runFrom log = (.ok a, between) ∧ (next a).runFrom between = (result, log')) ∨
      ∃ e, step.runFrom log = (.error e, log') ∧ result = .error e := by
  rw [Logged.runFrom] at hrun ⊢
  rw [ExceptT.run_bind, StateT.run_bind] at hrun
  rcases hstep : step.run.run log with ⟨first, between⟩
  rw [hstep] at hrun
  cases first with
  | ok a => exact Or.inl ⟨a, between, rfl, hrun⟩
  | error e =>
    obtain ⟨rfl, rfl⟩ := Prod.mk.inj hrun
    exact Or.inr ⟨e, rfl, rfl⟩

theorem runFrom_bind_ok {step : Logged ε ω α} {next : α → Logged ε ω β} {log between : List ω}
    {a : α} (hstep : step.runFrom log = (.ok a, between)) :
    (step >>= next).runFrom log = (next a).runFrom between := by
  rw [Logged.runFrom] at hstep ⊢
  rw [ExceptT.run_bind, StateT.run_bind, hstep]
  rfl

theorem runFrom_bind_error {step : Logged ε ω α} {next : α → Logged ε ω β} {log between : List ω}
    {e : ε} (hstep : step.runFrom log = (.error e, between)) :
    (step >>= next).runFrom log = (.error e, between) := by
  rw [Logged.runFrom] at hstep ⊢
  rw [ExceptT.run_bind, StateT.run_bind, hstep]
  rfl

/-- Whatever a step adds to the log has the property. -/
def Logs (P : ω → Prop) (step : Logged ε ω α) : Prop :=
  ∀ log result log', step.runFrom log = (result, log') →
    ∃ added, log' = log ++ added ∧ ∀ entry ∈ added, P entry

section Logs
variable {P : ω → Prop}

theorem Logs.mono {Q : ω → Prop} {step : Logged ε ω α} (hlogs : Logs P step)
    (hPQ : ∀ entry, P entry → Q entry) : Logs Q step := by
  intro log result log' hrun
  obtain ⟨added, heq, hadded⟩ := hlogs log result log' hrun
  exact ⟨added, heq, fun entry hmem => hPQ entry (hadded entry hmem)⟩

theorem logs_nothing {step : Logged ε ω α} {result : Except ε α}
    (hrun : ∀ log, step.runFrom log = (result, log)) : Logs P step := by
  intro log result' log' h
  rw [hrun log] at h
  obtain ⟨_, rfl⟩ := Prod.mk.inj h
  exact ⟨[], (List.append_nil _).symm, nofun⟩

theorem logs_pure (a : α) : Logs P (pure a : Logged ε ω α) := logs_nothing (runFrom_pure a)

theorem logs_throw (e : ε) : Logs P (throw e : Logged ε ω α) := logs_nothing (runFrom_throw e)

theorem logs_lift (x : Except ε α) : Logs P (liftM x : Logged ε ω α) :=
  logs_nothing (runFrom_lift x)

theorem logs_tell {entry : ω} (h : P entry) : Logs P (tell entry : Logged ε ω Unit) := by
  intro log result log' hrun
  rw [runFrom_tell] at hrun
  obtain ⟨_, rfl⟩ := Prod.mk.inj hrun
  exact ⟨[entry], rfl, by simpa using h⟩

theorem logs_bind {step : Logged ε ω α} {next : α → Logged ε ω β} (hstep : Logs P step)
    (hnext : ∀ a, Logs P (next a)) : Logs P (step >>= next) := by
  intro log result log' hrun
  rcases runFrom_bind_cases hrun with ⟨a, between, hfirst, hsecond⟩ | ⟨e, hfirst, _⟩
  · obtain ⟨before, rfl, hbefore⟩ := hstep log _ between hfirst
    obtain ⟨after, rfl, hafter⟩ := hnext a _ result log' hsecond
    refine ⟨before ++ after, List.append_assoc _ _ _, fun entry hmem => ?_⟩
    rcases List.mem_append.mp hmem with hmem | hmem
    · exact hbefore entry hmem
    · exact hafter entry hmem
  · exact hstep log _ log' hfirst

/-- The second step may use that the first one has succeeded. -/
theorem logs_bind_ok {step : Logged ε ω α} {next : α → Logged ε ω β} (hstep : Logs P step)
    (hnext : ∀ a log between, step.runFrom log = (.ok a, between) → Logs P (next a)) :
    Logs P (step >>= next) := by
  intro log result log' hrun
  rcases runFrom_bind_cases hrun with ⟨a, between, hfirst, hsecond⟩ | ⟨e, hfirst, _⟩
  · obtain ⟨before, rfl, hbefore⟩ := hstep log _ between hfirst
    obtain ⟨after, rfl, hafter⟩ := hnext a log _ hfirst _ result log' hsecond
    refine ⟨before ++ after, List.append_assoc _ _ _, fun entry hmem => ?_⟩
    rcases List.mem_append.mp hmem with hmem | hmem
    · exact hbefore entry hmem
    · exact hafter entry hmem
  · exact hstep log _ log' hfirst

/-- What succeeds before a step may be used for it. -/
theorem logs_lift_bind {x : Except ε α} {next : α → Logged ε ω β}
    (hnext : ∀ a, x = .ok a → Logs P (next a)) : Logs P ((liftM x : Logged ε ω α) >>= next) := by
  cases x with
  | ok a => exact hnext a rfl
  | error e => exact logs_throw e

end Logs

end LoggedSteps
