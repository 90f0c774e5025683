import Celily.JoinedTasks
import Mathlib.Logic.Equiv.Defs

/-!
# Tasks among more commands

A task over some commands is one over more commands, whose other commands it never
issues. What it does there is what it does at home: `trace_embed` and `runs_embed`
translate its traces both ways, `runs_embedFallible` does it for tasks that can fail.
-/

namespace EmbeddedTasks

open JoinedTasks

variable {C D : Type} {R : C → Type} {S : D → Type} {α β ε δ : Type}

/-- Commands among others, with the same replies. -/
structure Embedding {C D : Type} (R : C → Type) (S : D → Type) where
  command : C → D
  reply : ∀ c, S (command c) ≃ R c

def Embedding.event (e : Embedding R S) : Event R → Event S
  | .issued c => .issued (e.command c)
  | .returned c reply => .returned (e.command c) ((e.reply c).symm reply)

def embed (e : Embedding R S) : {α : Type} → Task R α → Task S α
  | _, .done result => .done result
  | _, .call c next => .call (e.command c) fun reply => embed e (next (e.reply c reply))
  | _, .wait c next => .wait (e.command c) fun reply => embed e (next (e.reply c reply))
  | _, .join left right next => .join (embed e left) (embed e right) fun b c => embed e (next b c)

theorem step_embed (e : Embedding R S) {t u : Task R α} {event : Option (Event R)}
    (hstep : Step t event u) : Step (embed e t) (event.map e.event) (embed e u) := by
  induction hstep with
  | issue c next => exact .issue (e.command c) _
  | reply c next reply =>
    have hnext : embed e (next reply) =
        (fun s => embed e (next (e.reply c s))) ((e.reply c).symm reply) := by
      simp only [Equiv.apply_symm_apply]
    rw [hnext]
    exact .reply (e.command c) _ _
  | left r next _ ih => exact .left _ _ ih
  | right l next _ ih => exact .right _ _ ih
  | joined b c next => exact .joined b c fun b c => embed e (next b c)

theorem embed_eq_done {e : Embedding R S} {t : Task R α} {a : α} :
    embed e t = .done a ↔ t = .done a := by
  constructor
  · intro hdone
    cases t with
    | done result =>
      cases hdone
      rfl
    | call c next => cases hdone
    | wait c next => cases hdone
    | join left right next => cases hdone
  · rintro rfl
    rfl

/-- An embedded task steps only as the task does. -/
theorem step_embed_inv (e : Embedding R S) {t : Task R α} {event : Option (Event S)}
    {v : Task S α} (hstep : Step (embed e t) event v) :
    ∃ event' u, Step t event' u ∧ event = event'.map e.event ∧ v = embed e u := by
  induction t generalizing event with
  | done result => cases hstep
  | call c next _ =>
    cases hstep with
    | issue => exact ⟨_, _, .issue c next, rfl, rfl⟩
  | wait c next _ =>
    cases hstep with
    | reply _ _ reply =>
      refine ⟨_, _, .reply c next (e.reply c reply), ?_, rfl⟩
      change some (Event.returned _ _) = some (Event.returned _ _)
      rw [Equiv.symm_apply_apply]
  | join left right next ihl ihr _ =>
    change Step (.join (embed e left) (embed e right) _) event v at hstep
    generalize hl : embed e left = l at hstep
    generalize hr : embed e right = r at hstep
    cases hstep with
    | left _ _ hleft =>
      subst hl hr
      obtain ⟨event', u, hu, rfl, rfl⟩ := ihl hleft
      exact ⟨event', _, .left right next hu, rfl, rfl⟩
    | right _ _ hright =>
      subst hl hr
      obtain ⟨event', u, hu, rfl, rfl⟩ := ihr hright
      exact ⟨event', _, .right left next hu, rfl, rfl⟩
    | joined b c =>
      obtain rfl := embed_eq_done.mp hl
      obtain rfl := embed_eq_done.mp hr
      exact ⟨none, _, .joined b c next, rfl, rfl⟩

theorem toList_map_event (e : Embedding R S) (event : Option (Event R)) (k : List (Event R)) :
    (event.map e.event).toList ++ k.map e.event = (event.toList ++ k).map e.event := by
  cases event <;> rfl

theorem trace_embed (e : Embedding R S) {t : Task R α} {h : List (Event S)} {v : Task S α} :
    Trace (embed e t) h v ↔ ∃ k u, h = k.map e.event ∧ v = embed e u ∧ Trace t k u := by
  constructor
  · intro htrace
    generalize hs : embed e t = s at htrace
    induction htrace generalizing t with
    | refl s => exact ⟨[], t, rfl, hs.symm, .refl t⟩
    | step hstep hrest ih =>
      subst hs
      obtain ⟨event, u, hu, rfl, rfl⟩ := step_embed_inv e hstep
      obtain ⟨k, w, rfl, rfl, hw⟩ := ih rfl
      exact ⟨_, w, toList_map_event e event k, rfl, .step hu hw⟩
  · rintro ⟨k, u, rfl, rfl, htrace⟩
    induction htrace with
    | refl t => exact .refl _
    | step hstep _ ih =>
      rw [← toList_map_event]
      exact .step (step_embed e hstep) ih

theorem runs_embed (e : Embedding R S) {t : Task R α} {h : List (Event S)} {a : α} :
    Runs (embed e t) h a ↔ ∃ k, h = k.map e.event ∧ Runs t k a := by
  rw [Runs, trace_embed]
  constructor
  · rintro ⟨k, u, rfl, hdone, htrace⟩
    obtain rfl := embed_eq_done.mp hdone.symm
    exact ⟨k, rfl, htrace⟩
  · rintro ⟨k, rfl, hrun⟩
    exact ⟨k, _, rfl, rfl, hrun⟩

/-- An embedded task that can fail, with its errors among others. -/
def embedFallible (e : Embedding R S) (error : ε → δ) (x : Fallible R ε α) : Fallible S δ α :=
  ExceptT.mk ((embed e x.run).bind fun result => .done (result.mapError error))

theorem runs_embedFallible {e : Embedding R S} {error : ε → δ} {x : Fallible R ε α}
    {h : List (Event S)} {r : Except δ α} :
    Runs (embedFallible e error x).run h r ↔
      ∃ k result, h = k.map e.event ∧ r = result.mapError error ∧ Runs x.run k result := by
  change Runs ((embed e x.run).bind _) h r ↔ _
  rw [runs_bind]
  constructor
  · rintro ⟨result, h₁, h₂, rfl, hrun, hdone⟩
    obtain ⟨rfl, rfl⟩ := runs_done.mp hdone
    obtain ⟨k, rfl, hk⟩ := (runs_embed e).mp hrun
    exact ⟨k, result, List.append_nil _, rfl, hk⟩
  · rintro ⟨k, result, rfl, rfl, hk⟩
    exact ⟨result, k.map e.event, [], (List.append_nil _).symm, (runs_embed e).mpr ⟨k, rfl, hk⟩,
      runs_done.mpr ⟨rfl, rfl⟩⟩

end EmbeddedTasks
