import Celily.JoinedTasks

/-!
# Triples for tasks

An observer keeps a state of the events it sees. `Triple P t Q` says that `Q` holds
of the result and of the state once `t` has run from a state with `P`; `Ends` is
the usual post-state of a task that may fail. A side of a join that the observer
does not notice leaves the other side's triple as it is.
-/

namespace TaskTriples

open JoinedTasks

variable {C : Type} {Reply : C → Type} {S : Type*} (observe : S → Event Reply → S)
  {α β ε : Type}

def Triple (P : S → Prop) (t : Task Reply α) (Q : α → S → Prop) : Prop :=
  ∀ s h a, P s → Runs t h a → Q a (h.foldl observe s)

/-- `A` after a value, `B` after an error. -/
def Ends (A B : S → Prop) : Except ε α → S → Prop
  | .ok _ => A
  | .error _ => B

/-- The observer does not notice the command. -/
def Silent (c : C) : Prop :=
  ∀ (e : Event Reply) (s : S), e.command = c → observe s e = s

variable {observe} {P M A B : S → Prop} {drop : Task Reply Unit}

theorem foldl_silent {h : List (Event Reply)} (hsilent : ∀ e ∈ h, Silent observe e.command)
    (s : S) : h.foldl observe s = s := by
  induction h with
  | nil => rfl
  | cons e h ih =>
    obtain ⟨hfirst, hrest⟩ := List.forall_mem_cons.mp hsilent
    rw [List.foldl_cons, hfirst e s rfl]
    exact ih hrest

/-- Of an interleaving with a side that is not noticed, only the other side is seen. -/
theorem foldl_interleaves {l r h : List (Event Reply)} (hi : Interleaves l r h)
    (hsilent : ∀ e ∈ r, Silent observe e.command) (s : S) :
    h.foldl observe s = l.foldl observe s := by
  induction hi generalizing s with
  | nil => rfl
  | left e _ ih => exact ih hsilent (observe s e)
  | right e _ ih =>
    obtain ⟨hfirst, hrest⟩ := List.forall_mem_cons.mp hsilent
    rw [List.foldl_cons, hfirst e s rfl]
    exact ih hrest s

theorem Triple.mono {t : Task Reply α} {Q R : α → S → Prop} (ht : Triple observe P t Q)
    (hQR : ∀ a s, Q a s → R a s) : Triple observe P t R :=
  fun s h a hP hrun => hQR a _ (ht s h a hP hrun)

theorem triple_absurd {t : Task Reply α} {Q : α → S → Prop} :
    Triple observe (fun _ => False) t Q :=
  fun _ _ _ hP => hP.elim

theorem triple_done (a : α) : Triple observe P (.done a) fun _ => P := by
  intro s h b hP hrun
  obtain ⟨rfl, _⟩ := runs_done.mp hrun
  exact hP

theorem triple_bind {t : Task Reply α} {k : α → Task Reply β} {R : α → S → Prop}
    {Q : β → S → Prop} (ht : Triple observe P t R) (hk : ∀ a, Triple observe (R a) (k a) Q) :
    Triple observe P (t.bind k) Q := by
  intro s h b hP hrun
  obtain ⟨a, h₁, h₂, rfl, hfirst, hrest⟩ := runs_bind.mp hrun
  rw [List.foldl_append]
  exact hk a _ h₂ b (ht s h₁ a hP hfirst) hrest

theorem triple_silent {t : Task Reply α} (hemits : Emits (Silent observe) t) :
    Triple observe P t fun _ => P := by
  intro s h a hP hrun
  rw [foldl_silent (hemits h a hrun)]
  exact hP

theorem triple_both {l : Task Reply α} {r : Task Reply β} {Q : α → S → Prop}
    (hl : Triple observe P l Q) (hr : Emits (Silent observe) r) :
    Triple observe P (both l r) fun results => Q results.1 := by
  intro s h results hP hrun
  obtain ⟨kl, kr, hi, hrunL, hrunR⟩ := runs_both hrun
  rw [foldl_interleaves hi (hr kr _ hrunR)]
  exact hl s kl _ hP hrunL

/-! ## Tasks that can fail -/

theorem ends_self (r : Except ε α) (s : S) : Ends P P r s ↔ P s := by
  cases r with
  | ok a => exact Iff.rfl
  | error e => exact Iff.rfl

theorem ends_pure (a : α) : Triple observe A (pure a : Fallible Reply ε α).run (Ends A B) := by
  intro s h r hA hrun
  obtain ⟨rfl, rfl⟩ := runs_pure.mp hrun
  exact hA

theorem ends_silent {x : Fallible Reply ε α} (hemits : Emits (Silent observe) x.run) :
    Triple observe P x.run (Ends P P) :=
  fun s h r hP hrun => (ends_self r _).mpr (triple_silent hemits s h r hP hrun)

theorem ends_seq {x : Fallible Reply ε α} {f : α → Fallible Reply ε β}
    (hx : Triple observe P x.run (Ends M B))
    (hf : ∀ a, Triple observe M (f a).run (Ends A B)) :
    Triple observe P (x >>= f).run (Ends A B) := by
  intro s h r hP hrun
  rcases runs_seq.mp hrun with ⟨e, rfl, hfirst⟩ | ⟨a, h₁, h₂, rfl, hfirst, hrest⟩
  · exact hx s h (.error e) hP hfirst
  · rw [List.foldl_append]
    exact hf a _ h₂ r (hx s h₁ (.ok a) hP hfirst) hrest

theorem triple_lift_seq {t : Task Reply α} {f : α → Fallible Reply ε β} {R : α → S → Prop}
    {Q : Except ε β → S → Prop} (ht : Triple observe P t R)
    (hf : ∀ a, Triple observe (R a) (f a).run Q) :
    Triple observe P ((ExceptT.lift t : Fallible Reply ε α) >>= f).run Q := by
  intro s h r hP hrun
  obtain ⟨a, h₁, h₂, rfl, hfirst, hrest⟩ := runs_lift_seq.mp hrun
  rw [List.foldl_append]
  exact hf a _ h₂ r (ht s h₁ a hP hfirst) hrest

theorem ends_guarded {body : Fallible Reply ε α} (hbody : Triple observe P body.run (Ends A M))
    (hdrop : Triple observe M drop fun _ => B) :
    Triple observe P (guarded drop body).run (Ends A B) := by
  intro s h r hP hrun
  rcases runs_guarded.mp hrun with ⟨a, rfl, hok⟩ | ⟨e, h₁, h₂, rfl, rfl, herror, hdropped⟩
  · exact hbody s h (.ok a) hP hok
  · rw [List.foldl_append]
    exact hdrop _ h₂ () (hbody s h₁ (.error e) hP herror) hdropped

theorem ends_holding {body : Fallible Reply ε α} (hbody : Triple observe P body.run (Ends M M))
    (hdrop : Triple observe M drop fun _ => B) :
    Triple observe P (holding drop body).run (Ends B B) := by
  intro s h r hP hrun
  obtain ⟨h₁, h₂, rfl, hrest, hdropped⟩ := runs_holding.mp hrun
  rw [List.foldl_append, ends_self]
  exact hdrop _ h₂ () ((ends_self r _).mp (hbody s h₁ r hP hrest)) hdropped

/-! ## What a value tells -/

/-- `A` of a value; an error tells nothing. -/
def Gives (A : α → S → Prop) : Except ε α → S → Prop
  | .ok a => A a
  | .error _ => fun _ => True

section Gives
variable {x : Fallible Reply ε α} {G : α → S → Prop} {K : β → S → Prop}

theorem gives_of_ok (hok : ∀ s h a, P s → Runs x.run h (.ok a) → G a (h.foldl observe s)) :
    Triple observe P x.run (Gives G) := by
  intro s h r hP hrun
  cases r with
  | ok a => exact hok s h a hP hrun
  | error e => trivial

theorem gives_pure {a : α} (hG : ∀ s, P s → G a s) :
    Triple observe P (pure a : Fallible Reply ε α).run (Gives G) := by
  refine gives_of_ok fun s h b hP hrun => ?_
  obtain ⟨rfl, heq⟩ := runs_pure.mp hrun
  cases heq
  exact hG s hP

/-- A result at hand tells what it tells. -/
theorem gives_result (result : Except ε α) :
    Triple observe (Gives G result) (ExceptT.mk (.done result) : Fallible Reply ε α).run
      (Gives G) := by
  refine gives_of_ok fun s h a hG hrun => ?_
  obtain ⟨rfl, rfl⟩ := runs_done.mp hrun
  exact hG

theorem gives_silent (hemits : Emits (Silent observe) x.run) :
    Triple observe P x.run (Gives fun _ => P) :=
  gives_of_ok fun s h _ hP hrun => triple_silent hemits s h _ hP hrun

theorem gives_seq {f : α → Fallible Reply ε β} (hx : Triple observe P x.run (Gives G))
    (hf : ∀ a, Triple observe (G a) (f a).run (Gives K)) :
    Triple observe P (x >>= f).run (Gives K) := by
  refine gives_of_ok fun s h b hP hrun => ?_
  obtain ⟨a, h₁, h₂, rfl, hfirst, hrest⟩ := runs_seq_ok.mp hrun
  rw [List.foldl_append]
  exact hf a _ h₂ _ (hx s h₁ _ hP hfirst) hrest

theorem gives_guarded (hx : Triple observe P x.run (Gives G)) :
    Triple observe P (guarded drop x).run (Gives G) :=
  gives_of_ok fun s h _ hP hrun => hx s h _ hP (runs_guarded_ok.mp hrun)

end Gives

/-! ## Several parties -/

section Parties
variable {ι E : Type*} [DecidableEq ι] {step : S → E → S} {Agree : S → S → Prop} {i : ι}

/-- What one party has done. -/
def ofParty (i : ι) (h : List (ι × E)) : List E :=
  h.filterMap fun x => if x.1 = i then some x.2 else none

theorem ofParty_cons (i : ι) (x : ι × E) (h : List (ι × E)) :
    ofParty i (x :: h) = if x.1 = i then x.2 :: ofParty i h else ofParty i h := by
  rw [ofParty, List.filterMap_cons]
  by_cases hx : x.1 = i
  · rw [if_pos hx, if_pos hx]
    rfl
  · rw [if_neg hx, if_neg hx]
    rfl

theorem ofParty_append (i : ι) (h k : List (ι × E)) :
    ofParty i (h ++ k) = ofParty i h ++ ofParty i k :=
  List.filterMap_append

/-- With the others' steps left out a state evolves alike, if its own steps go alike from
states that agree and the others' are not noticed. -/
theorem agree_alone {h : List (ι × E)}
    (hown : ∀ x ∈ h, x.1 = i → ∀ s t, Agree s t → Agree (step s x.2) (step t x.2))
    (hother : ∀ x ∈ h, x.1 ≠ i → ∀ s t, Agree s t → Agree (step s x.2) t) {s t : S}
    (hst : Agree s t) :
    Agree ((h.map Prod.snd).foldl step s) ((ofParty i h).foldl step t) := by
  induction h generalizing s t with
  | nil => exact hst
  | cons x h ih =>
    obtain ⟨hownFirst, hownRest⟩ := List.forall_mem_cons.mp hown
    obtain ⟨hotherFirst, hotherRest⟩ := List.forall_mem_cons.mp hother
    rw [ofParty_cons]
    by_cases hx : x.1 = i
    · rw [if_pos hx]
      exact ih hownRest hotherRest (hownFirst hx s t hst)
    · rw [if_neg hx]
      exact ih hownRest hotherRest (hotherFirst hx s t hst)

theorem mem_ofParty {h : List (ι × E)} {e : E} : e ∈ ofParty i h ↔ (i, e) ∈ h := by
  rw [ofParty, List.mem_filterMap]
  constructor
  · rintro ⟨⟨j, d⟩, hmem, heq⟩
    split at heq
    · rename_i hj
      obtain rfl : j = i := hj
      obtain rfl := Option.some.inj heq
      exact hmem
    · cases heq
  · exact fun hmem => ⟨(i, e), hmem, if_pos rfl⟩

end Parties

end TaskTriples
