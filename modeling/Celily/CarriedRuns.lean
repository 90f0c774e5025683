import Celily.JoinedTasks

/-!
# Runs told again

A run is told again by replacing each of its events. `Carries f g t u` says that every
run of `t`, told again by `f`, is a run of `u`, whose result is `g` of the result. Tasks
put together in the same way from carried tasks are carried, whichever way their events
interleave, and a task whose commands `f` leaves alone is carried to itself.
-/

namespace CarriedRuns

open JoinedTasks

variable {C : Type} {Reply : C → Type} {α β γ α' β' γ' ε : Type}

/-! ## Runs of a join from runs of its sides -/

/-- The first event of a trace is made by its first few steps. -/
theorem trace_cons {t u : Task Reply α} {e : Event Reply} {h : List (Event Reply)}
    (htrace : Trace t (e :: h) u) : ∃ v, Trace t [e] v ∧ Trace v h u := by
  generalize hk : e :: h = k at htrace
  induction htrace with
  | refl t => cases hk
  | @step t v u d k hstep hrest ih =>
    cases d with
    | none =>
      obtain ⟨w, hfirst, hthen⟩ := ih hk
      exact ⟨w, .step hstep hfirst, hthen⟩
    | some d =>
      obtain ⟨rfl, rfl⟩ := List.cons.inj hk
      exact ⟨v, .step hstep (.refl v), hrest⟩

theorem runs_join {l : Task Reply β} {r : Task Reply γ} {next : β → γ → Task Reply α}
    {hl hr h k : List (Event Reply)} {a : α} {b : β} {c : γ} (hi : Interleaves hl hr h)
    (hleft : Runs l hl b) (hright : Runs r hr c) (hnext : Runs (next b c) k a) :
    Runs (.join l r next) (h ++ k) a := by
  induction hi generalizing l r with
  | nil =>
    have hjoined : Trace (.join (.done b) (.done c) next) k (.done a) :=
      .step (.joined b c next) hnext
    exact (trace_join_left hleft r next).append ((trace_join_right hright _ next).append hjoined)
  | left e _ ih =>
    obtain ⟨v, hfirst, hthen⟩ := trace_cons hleft
    exact (trace_join_left hfirst r next).append (ih hthen hright)
  | right e _ ih =>
    obtain ⟨v, hfirst, hthen⟩ := trace_cons hright
    exact (trace_join_right hfirst l next).append (ih hleft hthen)

theorem runs_both_of {l : Task Reply α} {r : Task Reply β} {hl hr h : List (Event Reply)} {a : α}
    {b : β} (hi : Interleaves hl hr h) (hleft : Runs l hl a) (hright : Runs r hr b) :
    Runs (both l r) h (a, b) := by
  have hjoin : Runs (both l r) (h ++ []) (a, b) := runs_join hi hleft hright (.refl _)
  rwa [List.append_nil] at hjoin

theorem interleaves_map {δ η : Type*} (f : δ → η) {l r h : List δ} (hi : Interleaves l r h) :
    Interleaves (l.map f) (r.map f) (h.map f) := by
  induction hi with
  | nil => exact .nil
  | left e _ ih => exact .left (f e) ih
  | right e _ ih => exact .right (f e) ih

/-! ## Carried tasks -/

def Carries (f : Event Reply → Event Reply) (g : α → β) (t : Task Reply α)
    (u : Task Reply β) : Prop :=
  ∀ h a, Runs t h a → Runs u (h.map f) (g a)

/-- `Carries` for tasks that can fail, with the same errors. -/
def CarriesOk (f : Event Reply → Event Reply) (g : α → β) (x : Fallible Reply ε α)
    (y : Fallible Reply ε β) : Prop :=
  Carries f (Except.map g) x.run y.run

section Carries
variable {f : Event Reply → Event Reply} {A : C → Prop}

/-- The events of the commands in `A` are left as they are. -/
def Leaves (f : Event Reply → Event Reply) (A : C → Prop) : Prop :=
  ∀ e : Event Reply, A e.command → f e = e

theorem carries_done (g : α → β) (a : α) :
    Carries f g (.done a : Task Reply α) (.done (g a)) := by
  intro h b hrun
  obtain ⟨rfl, rfl⟩ := runs_done.mp hrun
  exact .refl _

theorem carries_call {c c' : C} {next : Reply c → Task Reply α} {next' : Reply c' → Task Reply β}
    {g : α → β} (back : Reply c → Reply c') (hissued : f (.issued c) = .issued c')
    (hreturned : ∀ reply, f (.returned c reply) = .returned c' (back reply))
    (hnext : ∀ reply, Carries f g (next reply) (next' (back reply))) :
    Carries f g (.call c next) (.call c' next') := by
  intro h a hrun
  obtain ⟨reply, k, rfl, hrest⟩ := runs_call.mp hrun
  rw [List.map_cons, List.map_cons, hissued, hreturned]
  exact runs_call.mpr ⟨back reply, _, rfl, hnext reply k a hrest⟩

theorem carries_bind {t : Task Reply α} {t' : Task Reply α'} {k : α → Task Reply β}
    {k' : α' → Task Reply β'} {g : α → α'} {g' : β → β'} (ht : Carries f g t t')
    (hk : ∀ a, Carries f g' (k a) (k' (g a))) : Carries f g' (t.bind k) (t'.bind k') := by
  intro h b hrun
  obtain ⟨a, h₁, h₂, rfl, hfirst, hrest⟩ := runs_bind.mp hrun
  exact runs_bind.mpr ⟨g a, _, _, List.map_append, ht h₁ a hfirst, hk a h₂ b hrest⟩

theorem carries_both {l : Task Reply α} {l' : Task Reply α'} {r : Task Reply β}
    {r' : Task Reply β'} {g : α → α'} {g' : β → β'} (hl : Carries f g l l')
    (hr : Carries f g' r r') :
    Carries f (Prod.map g g') (both l r) (both l' r') := by
  intro h p hrun
  obtain ⟨kl, kr, hi, hleft, hright⟩ := runs_both hrun
  exact runs_both_of (interleaves_map f hi) (hl kl _ hleft) (hr kr _ hright)

theorem carries_self {t : Task Reply α} (hleaves : Leaves f A) (hemits : Emits A t) :
    Carries f id t t := by
  intro h a hrun
  have hsame : h.map f = h := by
    rw [List.map_congr_left fun e he => hleaves e (hemits h a hrun e he), List.map_id']
  rwa [hsame]

theorem carriesOk_self {x : Fallible Reply ε α} (hleaves : Leaves f A) (hemits : Emits A x.run) :
    CarriesOk f id x x := by
  have hself := carries_self hleaves hemits
  intro h r hrun
  rw [Except.map_id]
  exact hself h r hrun

theorem carries_of_ok {x y : Fallible Reply ε α} (h : CarriesOk f id x y) :
    Carries f id x.run y.run := by
  intro k r hrun
  have hcarried := h k r hrun
  rwa [Except.map_id] at hcarried

theorem carriesOk_pure (g : α → β) (a : α) :
    CarriesOk f g (pure a : Fallible Reply ε α) (pure (g a)) :=
  carries_done (Except.map g) (.ok a)

theorem carriesOk_throw (g : α → β) (e : ε) :
    CarriesOk f g (throw e : Fallible Reply ε α) (throw e) :=
  carries_done (Except.map g) (.error e)

theorem carriesOk_seq {x : Fallible Reply ε α} {x' : Fallible Reply ε α'}
    {k : α → Fallible Reply ε β} {k' : α' → Fallible Reply ε β'} {g : α → α'} {g' : β → β'}
    (hx : CarriesOk f g x x') (hk : ∀ a, CarriesOk f g' (k a) (k' (g a))) :
    CarriesOk f g' (x >>= k) (x' >>= k') := by
  refine carries_bind hx fun result => ?_
  cases result with
  | ok a => exact hk a
  | error e => exact carries_done (Except.map g') (.error e)

/-- The first task is the same on both sides. -/
theorem carriesOk_seq_self {x : Fallible Reply ε α} {k : α → Fallible Reply ε β}
    {k' : α → Fallible Reply ε β'} {g : β → β'} (hleaves : Leaves f A) (hx : Emits A x.run)
    (hk : ∀ a, CarriesOk f g (k a) (k' a)) : CarriesOk f g (x >>= k) (x >>= k') :=
  carriesOk_seq (carriesOk_self hleaves hx) hk

theorem carriesOk_lift {t : Task Reply α} {t' : Task Reply α'} {g : α → α'}
    (ht : Carries f g t t') :
    CarriesOk f g (ExceptT.lift t : Fallible Reply ε α) (ExceptT.lift t') :=
  carries_bind ht fun a => carries_done (Except.map g) (.ok a)

theorem carriesOk_guarded {drop drop' : Task Reply Unit} {x : Fallible Reply ε α}
    {x' : Fallible Reply ε α'} {g : α → α'} (hdrop : Carries f id drop drop')
    (hx : CarriesOk f g x x') : CarriesOk f g (guarded drop x) (guarded drop' x') := by
  refine carries_bind hx fun result => ?_
  cases result with
  | ok a => exact carries_done (Except.map g) (.ok a)
  | error e => exact carries_bind hdrop fun _ => carries_done (Except.map g) (.error e)

end Carries

end CarriedRuns
