import Mathlib.Data.List.Nodup

/-!
# Following a partial map

From an element to the next one, until there is none. Such a walk is unique and passes
every element once, and it exists exactly when some number of steps leads nowhere.
-/

namespace ChainWalks

universe u
variable {α : Type u} {next : α → Option α} {a b : α} {path other : List α}

/-- What `k` steps from `a` lead to. -/
def after (next : α → Option α) (a : α) : Nat → Option α
  | 0 => some a
  | k + 1 => (after next a k).bind next

/-- The elements from `a` to one that has no next. -/
inductive Walk (next : α → Option α) : α → List α → Prop where
  | last {a : α} : next a = none → Walk next a [a]
  | step {a b : α} {path : List α} : next a = some b → Walk next b path → Walk next a (a :: path)

theorem Walk.head (walk : Walk next a path) : ∃ rest, path = a :: rest := by
  cases walk with
  | last _ => exact ⟨[], rfl⟩
  | step _ _ => exact ⟨_, rfl⟩

theorem Walk.unique (walk : Walk next a path) (walk' : Walk next a other) : path = other := by
  induction walk generalizing other with
  | last hnone =>
    cases walk' with
    | last _ => rfl
    | step hsome _ =>
      rw [hnone] at hsome
      cases hsome
  | step hsome _ ih =>
    cases walk' with
    | last hnone =>
      rw [hsome] at hnone
      cases hnone
    | step hsome' walk' =>
      obtain rfl := Option.some.inj (hsome.symm.trans hsome')
      rw [ih walk']

/-- The rest of a walk, from an element that it passes. -/
theorem Walk.drop (walk : Walk next a path) (hmem : b ∈ path) :
    ∃ before rest, path = before ++ rest ∧ Walk next b rest := by
  induction walk with
  | last hnone =>
    obtain rfl := List.mem_singleton.mp hmem
    exact ⟨[], _, rfl, .last hnone⟩
  | step hsome walk ih =>
    rcases List.mem_cons.mp hmem with rfl | hmem
    · exact ⟨[], _, rfl, .step hsome walk⟩
    · obtain ⟨before, rest, rfl, hrest⟩ := ih hmem
      exact ⟨_ :: before, rest, rfl, hrest⟩

theorem Walk.nodup (walk : Walk next a path) : path.Nodup := by
  induction walk with
  | last _ => exact List.nodup_singleton _
  | step hsome walk ih =>
    rw [List.nodup_cons]
    refine ⟨fun hmem => ?_, ih⟩
    -- a second visit would have the whole walk as its own proper part
    obtain ⟨before, rest, hsplit, hrest⟩ := walk.drop hmem
    have hsame := congrArg List.length (hrest.unique (.step hsome walk))
    have hlength := congrArg List.length hsplit
    rw [List.length_cons] at hsame
    rw [List.length_append] at hlength
    omega

theorem after_succ (next : α → Option α) (a : α) (k : Nat) :
    after next a (k + 1) = (next a).bind fun b => after next b k := by
  induction k with
  | zero =>
    change next a = (next a).bind some
    exact (Option.bind_fun_some (next a)).symm
  | succ k ih =>
    rw [after, ih, Option.bind_assoc]
    rfl

theorem Walk.getElem? (walk : Walk next a path) (k : Nat) : path[k]? = after next a k := by
  induction walk generalizing k with
  | last hnone =>
    cases k with
    | zero => rfl
    | succ k =>
      rw [after_succ, hnone]
      rfl
  | step hsome _ ih =>
    cases k with
    | zero => rfl
    | succ k =>
      rw [after_succ, hsome, List.getElem?_cons_succ, ih]
      rfl

/-- Each element of a walk is followed by its next. -/
theorem Walk.successor (walk : Walk next a path) (k : Nat) :
    path[k + 1]? = path[k]?.bind next := by
  rw [walk.getElem?, walk.getElem?]
  rfl

theorem Walk.mem_iff (walk : Walk next a path) : b ∈ path ↔ ∃ k, after next a k = some b := by
  rw [List.mem_iff_getElem?]
  simp only [walk.getElem?]

theorem exists_walk_iff : (∃ path, Walk next a path) ↔ ∃ k, after next a k = none := by
  constructor
  · rintro ⟨path, walk⟩
    exact ⟨path.length, by rw [← walk.getElem?, List.getElem?_eq_none (Nat.le_refl _)]⟩
  · rintro ⟨k, hnone⟩
    induction k generalizing a with
    | zero => cases hnone
    | succ k ih =>
      rw [after_succ] at hnone
      cases hnext : next a with
      | none => exact ⟨_, .last hnext⟩
      | some b =>
        rw [hnext, Option.bind_some] at hnone
        obtain ⟨path, walk⟩ := ih hnone
        exact ⟨_, .step hnext walk⟩

end ChainWalks
