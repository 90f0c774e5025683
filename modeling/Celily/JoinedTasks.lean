import Mathlib.Data.List.Basic

/-!
# Tasks that issue commands and join

A task issues a command, waits for the reply and goes on, or joins two tasks that
take turns until both are done. Issuing and replying are separate events, so what
one side does while the other waits is part of the trace. `runs_bind` and
`runs_join` cut a finished run at a `bind` and at a `join`: the events of a join
are those of its two sides, interleaved.
-/

namespace JoinedTasks

/-- A task over commands `C`, whose replies have the types `Reply c`. -/
inductive Task {C : Type} (Reply : C → Type) : Type → Type 1 where
  | done {α : Type} (result : α) : Task Reply α
  | call {α : Type} (c : C) (next : Reply c → Task Reply α) : Task Reply α
  | wait {α : Type} (c : C) (next : Reply c → Task Reply α) : Task Reply α
  | join {α β γ : Type} (left : Task Reply β) (right : Task Reply γ)
      (next : β → γ → Task Reply α) : Task Reply α

inductive Event {C : Type} (Reply : C → Type) where
  | issued (c : C)
  | returned (c : C) (reply : Reply c)

variable {C : Type} {Reply : C → Type} {α β γ ε : Type}

def Event.command : Event Reply → C
  | .issued c => c
  | .returned c _ => c

namespace Task

def bind : Task Reply α → (α → Task Reply β) → Task Reply β
  | .done result, k => k result
  | .call c next, k => .call c (fun reply => bind (next reply) k)
  | .wait c next, k => .wait c (fun reply => bind (next reply) k)
  | .join left right next, k => .join left right (fun b c => bind (next b c) k)

end Task

instance : Monad (Task Reply) where
  pure := Task.done
  bind := Task.bind

/-- Both tasks, each to its end. -/
def both (left : Task Reply α) (right : Task Reply β) : Task Reply (α × β) :=
  .join left right (fun a b => .done (a, b))

/-! ## Steps and traces -/

inductive Step : {α : Type} → Task Reply α → Option (Event Reply) → Task Reply α → Prop where
  | issue {α : Type} (c : C) (next : Reply c → Task Reply α) :
      Step (.call c next) (some (.issued c)) (.wait c next)
  | reply {α : Type} (c : C) (next : Reply c → Task Reply α) (reply : Reply c) :
      Step (.wait c next) (some (.returned c reply)) (next reply)
  | left {α β γ : Type} {l l' : Task Reply β} {e : Option (Event Reply)} (r : Task Reply γ)
      (next : β → γ → Task Reply α) :
      Step l e l' → Step (.join l r next) e (.join l' r next)
  | right {α β γ : Type} (l : Task Reply β) {r r' : Task Reply γ} {e : Option (Event Reply)}
      (next : β → γ → Task Reply α) :
      Step r e r' → Step (.join l r next) e (.join l r' next)
  | joined {α β γ : Type} (b : β) (c : γ) (next : β → γ → Task Reply α) :
      Step (.join (.done b) (.done c) next) none (next b c)

/-- Some steps of a task, and the events of these steps. -/
inductive Trace {α : Type} : Task Reply α → List (Event Reply) → Task Reply α → Prop where
  | refl (t : Task Reply α) : Trace t [] t
  | step {t u v : Task Reply α} {e : Option (Event Reply)} {h : List (Event Reply)} :
      Step t e u → Trace u h v → Trace t (e.toList ++ h) v

/-- A run to the end. -/
def Runs (t : Task Reply α) (h : List (Event Reply)) (result : α) : Prop :=
  Trace t h (.done result)

theorem Trace.append {t u v : Task Reply α} {h k : List (Event Reply)} (htu : Trace t h u)
    (huv : Trace u k v) : Trace t (h ++ k) v := by
  induction htu with
  | refl t => exact huv
  | step hstep _ ih =>
    rw [List.append_assoc]
    exact .step hstep (ih huv)

theorem step_bind {t u : Task Reply α} {e : Option (Event Reply)} (hstep : Step t e u)
    (k : α → Task Reply β) : Step (t.bind k) e (u.bind k) := by
  cases hstep with
  | issue c next => exact .issue c _
  | reply c next reply => exact .reply c (fun r => (next r).bind k) reply
  | left r next hleft => exact .left r _ hleft
  | right l next hright => exact .right l _ hright
  | joined b c next => exact .joined b c _

/-- A step of `t.bind k` is a step of `t`, unless `t` is done. -/
theorem step_bind_inv {t : Task Reply α} {k : α → Task Reply β} {e : Option (Event Reply)}
    {v : Task Reply β} (hstep : Step (t.bind k) e v) :
    (∃ a, t = .done a) ∨ ∃ u, Step t e u ∧ v = u.bind k := by
  cases t with
  | done a => exact Or.inl ⟨a, rfl⟩
  | call c next =>
    cases hstep with
    | issue => exact Or.inr ⟨_, .issue c next, rfl⟩
  | wait c next =>
    cases hstep with
    | reply _ _ reply => exact Or.inr ⟨_, .reply c next reply, rfl⟩
  | join l r next =>
    cases hstep with
    | left _ _ hleft => exact Or.inr ⟨_, .left r next hleft, rfl⟩
    | right _ _ hright => exact Or.inr ⟨_, .right l next hright, rfl⟩
    | joined b c => exact Or.inr ⟨_, .joined b c next, rfl⟩

theorem runs_done {a b : α} {h : List (Event Reply)} :
    Runs (.done a) h b ↔ h = [] ∧ a = b := by
  constructor
  · intro hrun
    cases hrun with
    | refl => exact ⟨rfl, rfl⟩
    | step hstep _ => cases hstep
  · rintro ⟨rfl, rfl⟩
    exact .refl _

theorem runs_wait {c : C} {next : Reply c → Task Reply α} {h : List (Event Reply)} {a : α} :
    Runs (.wait c next) h a ↔ ∃ reply k, h = .returned c reply :: k ∧ Runs (next reply) k a := by
  constructor
  · intro hrun
    cases hrun with
    | step hstep hrest =>
      cases hstep with
      | reply _ _ reply => exact ⟨reply, _, rfl, hrest⟩
  · rintro ⟨reply, k, rfl, hrest⟩
    exact .step (.reply c next reply) hrest

theorem runs_call {c : C} {next : Reply c → Task Reply α} {h : List (Event Reply)} {a : α} :
    Runs (.call c next) h a ↔
      ∃ reply k, h = .issued c :: .returned c reply :: k ∧ Runs (next reply) k a := by
  constructor
  · intro hrun
    cases hrun with
    | step hstep hrest =>
      cases hstep with
      | issue =>
        obtain ⟨reply, k, rfl, hnext⟩ := runs_wait.mp hrest
        exact ⟨reply, k, rfl, hnext⟩
  · rintro ⟨reply, k, rfl, hnext⟩
    exact .step (.issue c next) (runs_wait.mpr ⟨reply, k, rfl, hnext⟩)

theorem trace_bind {t u : Task Reply α} {k : α → Task Reply β} {h : List (Event Reply)}
    (htrace : Trace t h u) : Trace (t.bind k) h (u.bind k) := by
  induction htrace with
  | refl t => exact .refl _
  | step hstep _ ih => exact .step (step_bind hstep k) ih

theorem runs_bind {t : Task Reply α} {k : α → Task Reply β} {h : List (Event Reply)} {b : β} :
    Runs (t.bind k) h b ↔ ∃ a h₁ h₂, h = h₁ ++ h₂ ∧ Runs t h₁ a ∧ Runs (k a) h₂ b := by
  constructor
  · intro hrun
    rw [Runs] at hrun
    generalize hs : t.bind k = s at hrun
    generalize hd : Task.done b = d at hrun
    induction hrun generalizing t with
    | refl s =>
      subst hd
      cases t with
      | done a =>
        have hk : k a = .done b := hs
        exact ⟨a, [], [], rfl, .refl _, by rw [hk]; exact .refl _⟩
      | call => cases hs
      | wait => cases hs
      | join => cases hs
    | step hstep hrest ih =>
      subst hs hd
      rcases step_bind_inv hstep with ⟨a, rfl⟩ | ⟨u, hfirst, rfl⟩
      · exact ⟨a, [], _, rfl, .refl _, .step hstep hrest⟩
      · obtain ⟨a, h₁, h₂, rfl, ht, hk⟩ := ih rfl rfl
        exact ⟨a, _, h₂, (List.append_assoc _ _ _).symm, .step hfirst ht, hk⟩
  · rintro ⟨a, h₁, h₂, rfl, ht, hk⟩
    exact (trace_bind ht).append hk

/-! ## Interleavings -/

/-- `h` is made of the events of `l` and of `r`, each in its own order. -/
inductive Interleaves {ε : Type*} : List ε → List ε → List ε → Prop where
  | nil : Interleaves [] [] []
  | left {l r h : List ε} (e : ε) : Interleaves l r h → Interleaves (e :: l) r (e :: h)
  | right {l r h : List ε} (e : ε) : Interleaves l r h → Interleaves l (e :: r) (e :: h)

theorem Interleaves.mem_iff {ε : Type*} {l r h : List ε} (hi : Interleaves l r h) {e : ε} :
    e ∈ h ↔ e ∈ l ∨ e ∈ r := by
  induction hi with
  | nil => simp
  | left d _ ih => simp only [List.mem_cons, ih, or_assoc]
  | right d _ ih =>
    simp only [List.mem_cons, ih]
    exact or_left_comm

theorem Interleaves.left_append {ε : Type*} {l r h : List ε} (k : List ε)
    (hi : Interleaves l r h) : Interleaves (k ++ l) r (k ++ h) := by
  induction k with
  | nil => exact hi
  | cons e k ih => exact .left e ih

theorem Interleaves.right_append {ε : Type*} {l r h : List ε} (k : List ε)
    (hi : Interleaves l r h) : Interleaves l (k ++ r) (k ++ h) := by
  induction k with
  | nil => exact hi
  | cons e k ih => exact .right e ih

/-- A run of a join is an interleaving of runs of its sides, then a run of the rest. -/
theorem Runs.join_inv {l : Task Reply β} {r : Task Reply γ} {next : β → γ → Task Reply α}
    {h : List (Event Reply)} {a : α} (hrun : Runs (.join l r next) h a) :
    ∃ b c hl hr h₁ h₂, h = h₁ ++ h₂ ∧ Interleaves hl hr h₁ ∧ Runs l hl b ∧ Runs r hr c ∧
      Runs (next b c) h₂ a := by
  rw [Runs] at hrun
  generalize hs : Task.join l r next = s at hrun
  generalize hd : Task.done a = d at hrun
  induction hrun generalizing l r with
  | refl s =>
    subst hd
    cases hs
  | step hstep hrest ih =>
    subst hs hd
    cases hstep with
    | left _ _ hleft =>
      obtain ⟨b, c, hl, hr, h₁, h₂, rfl, hi, hrunL, hrunR, hnext⟩ := ih rfl rfl
      exact ⟨b, c, _, hr, _, h₂, (List.append_assoc _ _ _).symm, hi.left_append _,
        .step hleft hrunL, hrunR, hnext⟩
    | right _ _ hright =>
      obtain ⟨b, c, hl, hr, h₁, h₂, rfl, hi, hrunL, hrunR, hnext⟩ := ih rfl rfl
      exact ⟨b, c, hl, _, _, h₂, (List.append_assoc _ _ _).symm, hi.right_append _, hrunL,
        .step hright hrunR, hnext⟩
    | joined b c =>
      exact ⟨b, c, [], [], [], _, rfl, .nil, .refl _, .refl _, hrest⟩

/-! ## A run of every task -/

/-- The run in which every command is answered by `answer`, the left side of a join
going first. -/
def play (answer : ∀ c, Reply c) : {α : Type} → Task Reply α → List (Event Reply) × α
  | _, .done result => ([], result)
  | _, .call c next =>
    let rest := play answer (next (answer c))
    (.issued c :: .returned c (answer c) :: rest.1, rest.2)
  | _, .wait c next =>
    let rest := play answer (next (answer c))
    (.returned c (answer c) :: rest.1, rest.2)
  | _, .join left right next =>
    let l := play answer left
    let r := play answer right
    let rest := play answer (next l.2 r.2)
    (l.1 ++ (r.1 ++ rest.1), rest.2)

theorem trace_join_left {l l' : Task Reply β} {h : List (Event Reply)} (htrace : Trace l h l')
    (r : Task Reply γ) (next : β → γ → Task Reply α) :
    Trace (.join l r next) h (.join l' r next) := by
  induction htrace with
  | refl l => exact .refl _
  | step hstep _ ih => exact .step (.left r next hstep) ih

theorem trace_join_right {r r' : Task Reply γ} {h : List (Event Reply)} (htrace : Trace r h r')
    (l : Task Reply β) (next : β → γ → Task Reply α) :
    Trace (.join l r next) h (.join l r' next) := by
  induction htrace with
  | refl r => exact .refl _
  | step hstep _ ih => exact .step (.right l next hstep) ih

theorem runs_play (answer : ∀ c, Reply c) {α : Type} (t : Task Reply α) :
    Runs t (play answer t).1 (play answer t).2 := by
  induction t with
  | done result => exact .refl _
  | call c next ih => exact runs_call.mpr ⟨answer c, _, rfl, ih (answer c)⟩
  | wait c next ih => exact runs_wait.mpr ⟨answer c, _, rfl, ih (answer c)⟩
  | join left right next ihl ihr ih =>
    have hjoined : Trace (.join (.done (play answer left).2) (.done (play answer right).2) next)
        (play answer (next (play answer left).2 (play answer right).2)).1
        (.done (play answer (next (play answer left).2 (play answer right).2)).2) :=
      .step (.joined _ _ next) (ih _ _)
    exact (trace_join_left ihl right next).append
      ((trace_join_right ihr (.done _) next).append hjoined)

theorem play_answers (answer : ∀ c, Reply c) {α : Type} (t : Task Reply α) {c : C}
    {reply : Reply c} (hmem : .returned c reply ∈ (play answer t).1) : reply = answer c := by
  induction t with
  | done result => cases hmem
  | call d next ih =>
    rcases List.mem_cons.mp hmem with heq | hmem
    · cases heq
    rcases List.mem_cons.mp hmem with heq | hmem
    · cases heq
      rfl
    · exact ih (answer d) hmem
  | wait d next ih =>
    rcases List.mem_cons.mp hmem with heq | hmem
    · cases heq
      rfl
    · exact ih (answer d) hmem
  | join left right next ihl ihr ih =>
    rcases List.mem_append.mp hmem with hmem | hmem
    · exact ihl hmem
    rcases List.mem_append.mp hmem with hmem | hmem
    · exact ihr hmem
    · exact ih _ _ hmem

/-- What has happened so far is the start of some run to the end. -/
theorem Trace.extends (answer : ∀ c, Reply c) {t u : Task Reply α} {h : List (Event Reply)}
    (htrace : Trace t h u) : ∃ k a, Runs t (h ++ k) a :=
  ⟨_, _, htrace.append (runs_play answer u)⟩

/-! ## Tasks that can fail -/

/-- A task whose result is a value or an error; `>>=` goes on with the value only. -/
abbrev Fallible {C : Type} (Reply : C → Type) (ε α : Type) := ExceptT ε (Task Reply) α

/-- A guard that the body fails under is dropped. -/
def guarded (drop : Task Reply Unit) (body : Fallible Reply ε α) : Fallible Reply ε α :=
  ExceptT.mk (body.run.bind fun result =>
    match result with
    | .ok a => .done (.ok a)
    | .error e => drop.bind fun _ => .done (.error e))

/-- A guard that is dropped at the end of the body, however it ends. -/
def holding (drop : Task Reply Unit) (body : Fallible Reply ε α) : Fallible Reply ε α :=
  ExceptT.mk (body.run.bind fun result => drop.bind fun _ => .done result)

/-- A loop that stops at the first error. -/
def each (f : α → Fallible Reply ε Unit) : List α → Fallible Reply ε Unit
  | [] => pure ()
  | a :: as => do
    f a
    each f as

theorem runs_pure {a : α} {h : List (Event Reply)} {r : Except ε α} :
    Runs (pure a : Fallible Reply ε α).run h r ↔ h = [] ∧ r = .ok a := by
  change Runs (.done (.ok a)) h r ↔ _
  rw [runs_done]
  exact and_congr_right fun _ => eq_comm

theorem runs_throw {e : ε} {h : List (Event Reply)} {r : Except ε α} :
    Runs (throw e : Fallible Reply ε α).run h r ↔ h = [] ∧ r = .error e := by
  change Runs (.done (.error e)) h r ↔ _
  rw [runs_done]
  exact and_congr_right fun _ => eq_comm

/-- A chain ends at its first error, or goes on with the value. -/
theorem runs_seq {x : Fallible Reply ε α} {f : α → Fallible Reply ε β} {h : List (Event Reply)}
    {r : Except ε β} :
    Runs (x >>= f).run h r ↔
      (∃ e, r = .error e ∧ Runs x.run h (.error e)) ∨
      ∃ a h₁ h₂, h = h₁ ++ h₂ ∧ Runs x.run h₁ (.ok a) ∧ Runs (f a).run h₂ r := by
  change Runs (x.run.bind (ExceptT.bindCont f)) h r ↔ _
  rw [runs_bind]
  constructor
  · rintro ⟨result, h₁, h₂, rfl, hx, hf⟩
    cases result with
    | error e =>
      obtain ⟨rfl, rfl⟩ := runs_done.mp hf
      exact Or.inl ⟨e, rfl, by rwa [List.append_nil]⟩
    | ok a => exact Or.inr ⟨a, h₁, h₂, rfl, hx, hf⟩
  · rintro (⟨e, rfl, hx⟩ | ⟨a, h₁, h₂, rfl, hx, hf⟩)
    · exact ⟨.error e, h, [], (List.append_nil h).symm, hx, runs_done.mpr ⟨rfl, rfl⟩⟩
    · exact ⟨.ok a, h₁, h₂, rfl, hx, hf⟩

theorem runs_seq_ok {x : Fallible Reply ε α} {f : α → Fallible Reply ε β}
    {h : List (Event Reply)} {b : β} :
    Runs (x >>= f).run h (.ok b) ↔
      ∃ a h₁ h₂, h = h₁ ++ h₂ ∧ Runs x.run h₁ (.ok a) ∧ Runs (f a).run h₂ (.ok b) := by
  rw [runs_seq]
  constructor
  · rintro (⟨e, he, _⟩ | hok)
    · cases he
    · exact hok
  · exact Or.inr

theorem runs_lift {t : Task Reply α} {h : List (Event Reply)} {r : Except ε α} :
    Runs (ExceptT.lift t : Fallible Reply ε α).run h r ↔ ∃ a, r = .ok a ∧ Runs t h a := by
  change Runs (t.bind fun a => .done (.ok a)) h r ↔ _
  rw [runs_bind]
  constructor
  · rintro ⟨a, h₁, h₂, rfl, ht, hdone⟩
    obtain ⟨rfl, rfl⟩ := runs_done.mp hdone
    exact ⟨a, rfl, by rwa [List.append_nil]⟩
  · rintro ⟨a, rfl, ht⟩
    exact ⟨a, h, [], (List.append_nil h).symm, ht, runs_done.mpr ⟨rfl, rfl⟩⟩

theorem runs_lift_seq {t : Task Reply α} {f : α → Fallible Reply ε β} {h : List (Event Reply)}
    {r : Except ε β} :
    Runs ((ExceptT.lift t : Fallible Reply ε α) >>= f).run h r ↔
      ∃ a h₁ h₂, h = h₁ ++ h₂ ∧ Runs t h₁ a ∧ Runs (f a).run h₂ r := by
  rw [runs_seq]
  simp only [runs_lift]
  constructor
  · rintro (⟨e, _, _, he, _⟩ | ⟨_, h₁, h₂, rfl, ⟨a, ha, ht⟩, hf⟩)
    · cases he
    · cases ha
      exact ⟨_, h₁, h₂, rfl, ht, hf⟩
  · rintro ⟨a, h₁, h₂, rfl, ht, hf⟩
    exact Or.inr ⟨a, h₁, h₂, rfl, ⟨a, rfl, ht⟩, hf⟩

theorem runs_guarded {drop : Task Reply Unit} {body : Fallible Reply ε α}
    {h : List (Event Reply)} {r : Except ε α} :
    Runs (guarded drop body).run h r ↔
      (∃ a, r = .ok a ∧ Runs body.run h (.ok a)) ∨
      ∃ e h₁ h₂, r = .error e ∧ h = h₁ ++ h₂ ∧ Runs body.run h₁ (.error e) ∧ Runs drop h₂ () := by
  change Runs (body.run.bind _) h r ↔ _
  rw [runs_bind]
  constructor
  · rintro ⟨result, h₁, h₂, rfl, hbody, hrest⟩
    cases result with
    | ok a =>
      obtain ⟨rfl, rfl⟩ := runs_done.mp hrest
      exact Or.inl ⟨a, rfl, by rwa [List.append_nil]⟩
    | error e =>
      obtain ⟨_, h₃, h₄, rfl, hdrop, hdone⟩ := runs_bind.mp hrest
      obtain ⟨rfl, rfl⟩ := runs_done.mp hdone
      exact Or.inr ⟨e, h₁, h₃, rfl, by rw [List.append_nil], hbody, hdrop⟩
  · rintro (⟨a, rfl, hbody⟩ | ⟨e, h₁, h₂, rfl, rfl, hbody, hdrop⟩)
    · exact ⟨.ok a, h, [], (List.append_nil h).symm, hbody, runs_done.mpr ⟨rfl, rfl⟩⟩
    · exact ⟨.error e, h₁, h₂, rfl, hbody, runs_bind.mpr
        ⟨(), h₂, [], (List.append_nil h₂).symm, hdrop, runs_done.mpr ⟨rfl, rfl⟩⟩⟩

theorem runs_guarded_ok {drop : Task Reply Unit} {body : Fallible Reply ε α}
    {h : List (Event Reply)} {a : α} :
    Runs (guarded drop body).run h (.ok a) ↔ Runs body.run h (.ok a) := by
  rw [runs_guarded]
  constructor
  · rintro (⟨b, hb, hbody⟩ | ⟨e, _, _, he, _⟩)
    · cases hb
      exact hbody
    · cases he
  · exact fun hbody => Or.inl ⟨a, rfl, hbody⟩

theorem runs_holding {drop : Task Reply Unit} {body : Fallible Reply ε α}
    {h : List (Event Reply)} {r : Except ε α} :
    Runs (holding drop body).run h r ↔
      ∃ h₁ h₂, h = h₁ ++ h₂ ∧ Runs body.run h₁ r ∧ Runs drop h₂ () := by
  change Runs (body.run.bind _) h r ↔ _
  rw [runs_bind]
  constructor
  · rintro ⟨result, h₁, h₂, rfl, hbody, hrest⟩
    obtain ⟨_, h₃, h₄, rfl, hdrop, hdone⟩ := runs_bind.mp hrest
    obtain ⟨rfl, rfl⟩ := runs_done.mp hdone
    exact ⟨h₁, h₃, by rw [List.append_nil], hbody, hdrop⟩
  · rintro ⟨h₁, h₂, rfl, hbody, hdrop⟩
    exact ⟨r, h₁, h₂, rfl, hbody, runs_bind.mpr
      ⟨(), h₂, [], (List.append_nil h₂).symm, hdrop, runs_done.mpr ⟨rfl, rfl⟩⟩⟩

theorem runs_both {l : Task Reply α} {r : Task Reply β} {h : List (Event Reply)} {p : α × β}
    (hrun : Runs (both l r) h p) :
    ∃ hl hr, Interleaves hl hr h ∧ Runs l hl p.1 ∧ Runs r hr p.2 := by
  obtain ⟨a, b, hl, hr, h₁, h₂, rfl, hi, hrunL, hrunR, hdone⟩ := hrun.join_inv
  obtain ⟨rfl, rfl⟩ := runs_done.mp hdone
  exact ⟨hl, hr, by rwa [List.append_nil], hrunL, hrunR⟩

/-! ## What a task issues -/

/-- Every command of every run satisfies `A`. -/
def Emits (A : C → Prop) (t : Task Reply α) : Prop :=
  ∀ h a, Runs t h a → ∀ e ∈ h, A e.command

section Emits
variable {A : C → Prop}

theorem Emits.mono {B : C → Prop} {t : Task Reply α} (h : Emits A t) (hab : ∀ c, A c → B c) :
    Emits B t := fun k a hrun e he => hab _ (h k a hrun e he)

theorem emits_done (a : α) : Emits A (.done a : Task Reply α) := by
  intro h b hrun e he
  rw [(runs_done.mp hrun).1] at he
  cases he

theorem emits_bind {t : Task Reply α} {k : α → Task Reply β} (ht : Emits A t)
    (hk : ∀ a, Emits A (k a)) : Emits A (t.bind k) := by
  intro h b hrun e he
  obtain ⟨a, h₁, h₂, rfl, hfirst, hrest⟩ := runs_bind.mp hrun
  rcases List.mem_append.mp he with he | he
  · exact ht h₁ a hfirst e he
  · exact hk a h₂ b hrest e he

theorem emits_both {l : Task Reply α} {r : Task Reply β} (hl : Emits A l) (hr : Emits A r) :
    Emits A (both l r) := by
  intro h p hrun e he
  obtain ⟨kl, kr, hi, hrunL, hrunR⟩ := runs_both hrun
  rcases hi.mem_iff.mp he with he | he
  · exact hl kl _ hrunL e he
  · exact hr kr _ hrunR e he

theorem emits_seq {x : Fallible Reply ε α} {f : α → Fallible Reply ε β} (hx : Emits A x.run)
    (hf : ∀ a, Emits A (f a).run) : Emits A (x >>= f).run := by
  refine emits_bind hx fun result => ?_
  cases result with
  | ok a => exact hf a
  | error e => exact emits_done _

/-- What goes on from a value may depend on how the value came about. -/
theorem emits_seq_runs {x : Fallible Reply ε α} {f : α → Fallible Reply ε β}
    (hx : Emits A x.run) (hf : ∀ h a, Runs x.run h (.ok a) → Emits A (f a).run) :
    Emits A (x >>= f).run := by
  intro h r hrun e he
  rcases runs_seq.mp hrun with ⟨_, _, hfirst⟩ | ⟨a, h₁, h₂, rfl, hfirst, hrest⟩
  · exact hx h _ hfirst e he
  rcases List.mem_append.mp he with he | he
  · exact hx h₁ _ hfirst e he
  · exact hf h₁ a hfirst h₂ r hrest e he

theorem emits_lift {t : Task Reply α} (ht : Emits A t) :
    Emits A (ExceptT.lift t : Fallible Reply ε α).run :=
  emits_bind ht fun _ => emits_done _

theorem emits_guarded {drop : Task Reply Unit} {body : Fallible Reply ε α}
    (hdrop : Emits A drop) (hbody : Emits A body.run) : Emits A (guarded drop body).run := by
  refine emits_bind hbody fun result => ?_
  cases result with
  | ok a => exact emits_done _
  | error e => exact emits_bind hdrop fun _ => emits_done _

theorem emits_holding {drop : Task Reply Unit} {body : Fallible Reply ε α}
    (hdrop : Emits A drop) (hbody : Emits A body.run) : Emits A (holding drop body).run :=
  emits_bind hbody fun _ => emits_bind hdrop fun _ => emits_done _

theorem emits_each {f : α → Fallible Reply ε Unit} {as : List α}
    (hf : ∀ a ∈ as, Emits A (f a).run) : Emits A (each f as).run := by
  induction as with
  | nil => exact emits_done _
  | cons a as ih =>
    refine emits_seq (hf a List.mem_cons_self) fun _ => ?_
    exact ih fun b hb => hf b (List.mem_cons_of_mem a hb)

end Emits

/-! ## What a task has done when it ends without an error -/

/-- Every run of `x` to a value has events that satisfy `G` only, and gives `Q` of the
value and of all that has happened by then. -/
def Succeeds (G : Event Reply → Prop) (x : Fallible Reply ε α)
    (Q : α → List (Event Reply) → Prop) : Prop :=
  ∀ k h a, k ⊆ h → Runs x.run k (.ok a) → (∀ e ∈ k, G e) ∧ Q a h

section Succeeds
variable {G : Event Reply → Prop}

theorem Succeeds.mono {x : Fallible Reply ε α} {Q R : α → List (Event Reply) → Prop}
    (hx : Succeeds G x Q) (hQR : ∀ a h, Q a h → R a h) : Succeeds G x R :=
  fun k h a hsub hrun => (hx k h a hsub hrun).imp_right (hQR a h)

theorem succeeds_pure {a : α} {Q : α → List (Event Reply) → Prop} (hQ : ∀ h, Q a h) :
    Succeeds G (pure a : Fallible Reply ε α) Q := by
  intro k h b _ hrun
  obtain ⟨rfl, heq⟩ := runs_pure.mp hrun
  cases heq
  exact ⟨by simp, hQ h⟩

theorem succeeds_throw (e : ε) (Q : α → List (Event Reply) → Prop) :
    Succeeds G (throw e : Fallible Reply ε α) Q := by
  intro k h b _ hrun
  obtain ⟨_, heq⟩ := runs_throw.mp hrun
  cases heq

theorem succeeds_seq {x : Fallible Reply ε α} {f : α → Fallible Reply ε β}
    {Q : α → List (Event Reply) → Prop} {R : β → List (Event Reply) → Prop}
    (hx : Succeeds G x Q) (hf : ∀ a, Succeeds G (f a) fun b h => Q a h → R b h) :
    Succeeds G (x >>= f) R := by
  intro k h b hsub hrun
  obtain ⟨a, k₁, k₂, rfl, hfirst, hrest⟩ := runs_seq_ok.mp hrun
  obtain ⟨hleft, hright⟩ := List.append_subset.mp hsub
  obtain ⟨good₁, hQ⟩ := hx k₁ h a hleft hfirst
  obtain ⟨good₂, hR⟩ := hf a k₂ h b hright hrest
  refine ⟨fun e he => ?_, hR hQ⟩
  rcases List.mem_append.mp he with he | he
  · exact good₁ e he
  · exact good₂ e he

theorem succeeds_guarded {drop : Task Reply Unit} {body : Fallible Reply ε α}
    {Q : α → List (Event Reply) → Prop} (hbody : Succeeds G body Q) :
    Succeeds G (guarded drop body) Q :=
  fun k h a hsub hrun => hbody k h a hsub (runs_guarded_ok.mp hrun)

/-- What has happened includes the run itself. -/
theorem succeeds_runs {x : Fallible Reply ε α} {Q : α → List (Event Reply) → Prop}
    (hx : Succeeds G x Q) :
    Succeeds G x fun a h => Q a h ∧ ∃ k, k ⊆ h ∧ Runs x.run k (.ok a) := by
  intro k h a hsub hrun
  obtain ⟨good, hQ⟩ := hx k h a hsub hrun
  exact ⟨good, hQ, k, hsub, hrun⟩

theorem succeeds_each {f : α → Fallible Reply ε Unit} {as : List α}
    {P : α → List (Event Reply) → Prop}
    (hf : ∀ a ∈ as, Succeeds G (f a) fun _ => P a) :
    Succeeds G (each f as) fun _ h => ∀ a ∈ as, P a h := by
  induction as with
  | nil => exact succeeds_pure fun h => by simp
  | cons a as ih =>
    refine succeeds_seq (hf a List.mem_cons_self) fun _ k h u hsub hrun => ?_
    obtain ⟨good, hall⟩ := ih (fun b hb => hf b (List.mem_cons_of_mem a hb)) k h u hsub hrun
    exact ⟨good, fun hfirst => List.forall_mem_cons.mpr ⟨hfirst, hall⟩⟩

/-- Two tasks are joined and both results are needed. -/
theorem succeeds_both {l : Fallible Reply ε α} {r : Fallible Reply ε β}
    {f : Except ε α × Except ε β → Fallible Reply ε γ} {Q : α → List (Event Reply) → Prop}
    {R : β → List (Event Reply) → Prop} {S : γ → List (Event Reply) → Prop}
    (hl : Succeeds G l Q) (hr : Succeeds G r R)
    (hneeds : ∀ results k c, Runs (f results).run k (.ok c) →
      ∃ a b, results = (.ok a, .ok b))
    (hf : ∀ a b, Succeeds G (f (.ok a, .ok b)) fun c h => Q a h → R b h → S c h) :
    Succeeds G (ExceptT.lift (both l.run r.run) >>= f) S := by
  intro k h c hsub hrun
  obtain ⟨results, k₁, k₂, rfl, hboth, hrest⟩ := runs_lift_seq.mp hrun
  obtain ⟨a, b, rfl⟩ := hneeds results k₂ c hrest
  obtain ⟨hleft, hright⟩ := List.append_subset.mp hsub
  obtain ⟨kl, kr, hi, hrunL, hrunR⟩ := runs_both hboth
  obtain ⟨goodL, hQ⟩ := hl kl h a (fun e he => hleft (hi.mem_iff.mpr (Or.inl he))) hrunL
  obtain ⟨goodR, hR⟩ := hr kr h b (fun e he => hleft (hi.mem_iff.mpr (Or.inr he))) hrunR
  obtain ⟨good, hS⟩ := hf a b k₂ h c hright hrest
  refine ⟨fun e he => ?_, hS hQ hR⟩
  rcases List.mem_append.mp he with he | he
  · rcases hi.mem_iff.mp he with he | he
    · exact goodL e he
    · exact goodR e he
  · exact good e he

end Succeeds

end JoinedTasks
