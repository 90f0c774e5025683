import Mathlib.Data.List.Basic
import Mathlib.Order.Basic

/-!
# Fixed windows

A counter for the calls of one window at a time. It starts again when a call falls
into another window than the last one did, and refuses a call that would pass its
bound. What it grants in a window depends on the visits to that window: one visit is
held to the bound, and a window that is left and entered again has the bound anew.
-/

namespace FixedWindows

structure Counter (W : Type) where
  window : W
  count : Nat

variable {α W : Type} [DecidableEq W]

/-- The calls counted in the window `k`. -/
def Counter.counted (counter : Counter W) (k : W) : Nat :=
  if counter.window = k then counter.count else 0

/-- One call in the window `k`: whether it is granted, and the counter afterwards. -/
def Counter.take (counter : Counter W) (bound : Nat) (k : W) : Bool × Counter W :=
  if counter.counted k < bound then (true, ⟨k, counter.counted k + 1⟩)
  else (false, ⟨k, counter.counted k⟩)

/-- Every call with its answer, and the counter after the last. -/
def serve (window : α → W) (bound : Nat) (counter : Counter W) :
    List α → List (α × Bool) × Counter W
  | [] => ([], counter)
  | call :: calls =>
    let taken := counter.take bound (window call)
    let rest := serve window bound taken.2 calls
    ((call, taken.1) :: rest.1, rest.2)

/-- The calls that fall into the window `k`. -/
def asked (window : α → W) (k : W) (calls : List α) : Nat :=
  calls.countP (fun call => window call = k)

/-- The calls of the window `k` that were granted. -/
def granted (window : α → W) (k : W) (answers : List (α × Bool)) : Nat :=
  answers.countP (fun answer => window answer.1 = k ∧ answer.2 = true)

/-- The window `k` is visited once at most. -/
def Consecutive (window : α → W) (k : W) (calls : List α) : Prop :=
  ∃ before visit after, calls = before ++ visit ++ after ∧ (∀ call ∈ before, window call ≠ k) ∧
    (∀ call ∈ visit, window call = k) ∧ (∀ call ∈ after, window call ≠ k)

@[simp] theorem counted_same (k : W) (count : Nat) : (Counter.mk k count).counted k = count := by
  simp [Counter.counted]

theorem counted_other {k : W} {counter : Counter W} (hother : counter.window ≠ k) :
    counter.counted k = 0 := by
  simp [Counter.counted, hother]

variable {window : α → W} {bound : Nat}

theorem asked_cons (k : W) (call : α) (calls : List α) :
    asked window k (call :: calls) = asked window k calls + if window call = k then 1 else 0 := by
  simp [asked, List.countP_cons]

theorem asked_append (k : W) (a b : List α) :
    asked window k (a ++ b) = asked window k a + asked window k b := List.countP_append

theorem asked_pos {k : W} {calls : List α} : 0 < asked window k calls ↔
    ∃ call ∈ calls, window call = k := by
  simp [asked]

@[simp] theorem granted_nil (k : W) : granted window k [] = 0 := rfl

theorem granted_cons (k : W) (call : α) (answer : Bool) (answers : List (α × Bool)) :
    granted window k ((call, answer) :: answers) =
      granted window k answers + if window call = k ∧ answer = true then 1 else 0 := by
  simp [granted, List.countP_cons]

theorem granted_append (k : W) (a b : List (α × Bool)) :
    granted window k (a ++ b) = granted window k a + granted window k b := List.countP_append

/-- The grants of two windows are among all grants. -/
theorem granted_add_le (window : α → W) {j k : W} (hne : j ≠ k) (answers : List (α × Bool)) :
    granted window j answers + granted window k answers ≤
      answers.countP (fun answer => answer.2 = true) := by
  induction answers with
  | nil => exact Nat.le_refl 0
  | cons answer answers ih =>
    obtain ⟨call, answer⟩ := answer
    rw [granted_cons, granted_cons, List.countP_cons]
    cases answer with
    | false => simpa using ih
    | true =>
      by_cases hj : window call = j
      · have hk : window call ≠ k := fun hk => hne (hj.symm.trans hk)
        simp only [hj, hne, and_self, false_and, decide_true, if_true, if_false]
        omega
      · simp only [hj, false_and, if_false, decide_true, if_true]
        split
        · omega
        · omega

theorem map_fst_serve (counter : Counter W) (calls : List α) :
    (serve window bound counter calls).1.map Prod.fst = calls := by
  induction calls generalizing counter with
  | nil => rfl
  | cons call calls ih => simp [serve, ih]

theorem mem_of_mem_serve {counter : Counter W} {calls : List α} {answer : α × Bool}
    (hmem : answer ∈ (serve window bound counter calls).1) : answer.1 ∈ calls := by
  rw [← map_fst_serve counter calls]
  exact List.mem_map_of_mem hmem

theorem serve_append (counter : Counter W) (a b : List α) :
    serve window bound counter (a ++ b) =
      ((serve window bound counter a).1 ++ (serve window bound (serve window bound counter a).2 b).1,
        (serve window bound (serve window bound counter a).2 b).2) := by
  induction a generalizing counter with
  | nil => rfl
  | cons call a ih => simp [serve, ih]

/-! ## One call -/

theorem take_granted {counter : Counter W} {k : W} (hroom : counter.counted k < bound) :
    counter.take bound k = (true, ⟨k, counter.counted k + 1⟩) := if_pos hroom

theorem take_refused {counter : Counter W} {k : W} (hfull : ¬counter.counted k < bound) :
    counter.take bound k = (false, ⟨k, counter.counted k⟩) := if_neg hfull

theorem take_window (counter : Counter W) (bound : Nat) (k : W) :
    (counter.take bound k).2.window = k := by
  rw [Counter.take]
  split
  · rfl
  · rfl

theorem counted_take_le {counter : Counter W} {k : W} (hle : counter.count ≤ bound) :
    (counter.take bound k).2.count ≤ bound := by
  rw [Counter.take]
  split
  · exact Nat.succ_le_of_lt ‹_›
  · rw [Counter.counted]
    split
    · exact hle
    · exact Nat.zero_le _

/-- A refusal forgets nothing that counts. -/
theorem counted_refused {counter : Counter W} {k : W} (hle : counter.count ≤ bound)
    (hfull : ¬counter.counted k < bound) (j : W) :
    (counter.take bound k).2.counted j = counter.counted j := by
  rw [take_refused hfull]
  by_cases hk : counter.window = k
  · subst hk
    simp [Counter.counted]
  · rw [counted_other hk] at hfull ⊢
    simp only [Counter.counted, ite_self]
    split
    · omega
    · rfl

theorem count_serve_le (window : α → W) {counter : Counter W} (hle : counter.count ≤ bound)
    (calls : List α) :
    (serve window bound counter calls).2.count ≤ bound := by
  induction calls generalizing counter with
  | nil => exact hle
  | cons call calls ih => exact ih (counted_take_le hle)

/-! ## One window -/

section Window
variable (window : α → W) (bound : Nat)

/-- No more than the calls that ask. -/
theorem granted_le_asked (counter : Counter W) (calls : List α) (k : W) :
    granted window k (serve window bound counter calls).1 ≤ asked window k calls := by
  induction calls generalizing counter with
  | nil => exact Nat.le_refl 0
  | cons call calls ih =>
    have hrest := ih (counter.take bound (window call)).2
    rw [serve, granted_cons, asked_cons]
    by_cases hk : window call = k
    · rw [if_pos hk]
      split
      · omega
      · omega
    · simp only [hk, false_and, if_false]
      exact hrest

/-- What is left of the bound is always there to be granted. -/
theorem min_le_granted (counter : Counter W) (calls : List α) (k : W) :
    min (bound - counter.counted k) (asked window k calls) ≤
      granted window k (serve window bound counter calls).1 := by
  induction calls generalizing counter with
  | nil => exact Nat.min_le_right _ _
  | cons call calls ih =>
    have hrest := ih (counter.take bound (window call)).2
    rw [serve, granted_cons, asked_cons]
    by_cases hk : window call = k
    · subst hk
      by_cases hroom : counter.counted (window call) < bound
      · simp only [take_granted hroom] at hrest ⊢
        rw [counted_same] at hrest
        simp only [and_self, if_true]
        omega
      · rw [Nat.sub_eq_zero_of_le (Nat.le_of_not_lt hroom), Nat.zero_min]
        exact Nat.zero_le _
    · -- The call moves the counter away from `k`, so `k` has the whole bound again.
      rw [counted_other (by rw [take_window]; exact hk)] at hrest
      simp only [hk, if_false, false_and]
      omega

theorem granted_elsewhere (counter : Counter W) {calls : List α} {k : W}
    (hother : ∀ call ∈ calls, window call ≠ k) :
    granted window k (serve window bound counter calls).1 = 0 := by
  have hnone : asked window k calls = 0 := by
    rw [asked, List.countP_eq_zero]
    simpa using hother
  have hle := granted_le_asked window bound counter calls k
  omega

/-- In one visit the count is what was granted. -/
theorem granted_visit (counter : Counter W) {calls : List α} {k : W}
    (hvisit : ∀ call ∈ calls, window call = k) (hle : counter.counted k ≤ bound) :
    granted window k (serve window bound counter calls).1 + counter.counted k ≤ bound := by
  induction calls generalizing counter with
  | nil => rw [serve, granted_nil, Nat.zero_add]; exact hle
  | cons call calls ih =>
    obtain rfl := hvisit call List.mem_cons_self
    have hrest := fun next => ih next
      (fun other hother => hvisit other (List.mem_cons_of_mem call hother))
    rw [serve, granted_cons]
    by_cases hroom : counter.counted (window call) < bound
    · have hnext := hrest ⟨window call, counter.counted (window call) + 1⟩
        (by rw [counted_same]; exact hroom)
      rw [counted_same] at hnext
      rw [take_granted hroom]
      simp only [and_self, if_true]
      omega
    · have hnext := hrest ⟨window call, counter.counted (window call)⟩
        (by rw [counted_same]; exact hle)
      rw [counted_same] at hnext
      rw [take_refused hroom]
      simp only [Bool.false_eq_true, and_false, if_false]
      exact hnext

theorem counted_elsewhere (counter : Counter W) {calls : List α} {k : W}
    (hother : ∀ call ∈ calls, window call ≠ k) (hzero : counter.counted k = 0) :
    (serve window bound counter calls).2.counted k = 0 := by
  induction calls generalizing counter with
  | nil => exact hzero
  | cons call calls ih =>
    apply ih
    · exact fun other hmem => hother other (List.mem_cons_of_mem call hmem)
    · apply counted_other
      rw [take_window]
      exact hother call List.mem_cons_self

theorem granted_consecutive {counter : Counter W} {calls : List α} {k : W}
    (hzero : counter.counted k = 0) (hconsecutive : Consecutive window k calls) :
    granted window k (serve window bound counter calls).1 ≤ bound := by
  obtain ⟨before, visit, after, rfl, hbefore, hvisit, hafter⟩ := hconsecutive
  have hstart := counted_elsewhere window bound counter hbefore hzero
  have hin := granted_visit window bound (serve window bound counter before).2 hvisit
    (by rw [hstart]; exact Nat.zero_le _)
  rw [List.append_assoc, serve_append, granted_append,
    granted_elsewhere window bound counter hbefore, serve_append, granted_append,
    granted_elsewhere _ _ _ hafter]
  omega

/-- One visit grants exactly what it asks for, up to the bound. -/
theorem granted_eq_min {counter : Counter W} {calls : List α} {k : W}
    (hzero : counter.counted k = 0) (hconsecutive : Consecutive window k calls) :
    granted window k (serve window bound counter calls).1 = min bound (asked window k calls) := by
  have hle := granted_le_asked window bound counter calls k
  have hbound := granted_consecutive window bound hzero hconsecutive
  have hmin := min_le_granted window bound counter calls k
  rw [hzero] at hmin
  omega

theorem granted_zero (counter : Counter W) (calls : List α) (k : W) :
    granted window k (serve window 0 counter calls).1 = 0 := by
  induction calls generalizing counter with
  | nil => rfl
  | cons call calls ih =>
    rw [serve, granted_cons, ih, take_refused (Nat.not_lt_zero _)]
    simp

end Window

/-! ## Coming back -/

theorem consecutive_or_returns (window : α → W) (k : W) (calls : List α) :
    Consecutive window k calls ∨ ∃ before other after, calls = before ++ other :: after ∧
      window other ≠ k ∧ 0 < asked window k before ∧ 0 < asked window k after := by
  induction calls with
  | nil => exact Or.inl ⟨[], [], [], rfl, by simp, by simp, by simp⟩
  | cons call calls ih =>
    rcases ih with ⟨before, visit, after, rfl, hbefore, hvisit, hafter⟩ |
      ⟨before, other, after, rfl, hother, hasked, hreturn⟩
    · by_cases hcall : window call = k
      · cases before with
        | nil =>
          left
          refine ⟨[], call :: visit, after, rfl, by simp, ?_, hafter⟩
          rintro c (_ | ⟨_, hc⟩)
          · exact hcall
          · exact hvisit c hc
        | cons other before =>
          have hfirst : window other ≠ k := hbefore other List.mem_cons_self
          cases visit with
          | nil =>
            left
            refine ⟨[], [call], other :: before ++ after, by simp, by simp, by simpa, ?_⟩
            intro c hc
            rcases List.mem_append.mp hc with hc | hc
            · exact hbefore c hc
            · exact hafter c hc
          | cons again visit =>
            right
            refine ⟨[call], other, before ++ (again :: visit) ++ after, by simp, hfirst, ?_, ?_⟩
            · exact asked_pos.mpr ⟨call, List.mem_cons_self, hcall⟩
            · exact asked_pos.mpr ⟨again, by simp, hvisit again List.mem_cons_self⟩
      · left
        refine ⟨call :: before, visit, after, rfl, ?_, hvisit, hafter⟩
        rintro c (_ | ⟨_, hc⟩)
        · exact hcall
        · exact hbefore c hc
    · right
      refine ⟨call :: before, other, after, rfl, hother, ?_, hreturn⟩
      rw [asked_cons]
      omega

/-- Exactly when the grants of a window keep to the bound. -/
theorem granted_le_iff {counter : Counter W} {calls : List α} {k : W}
    (hzero : ∀ k, counter.counted k = 0) :
    granted window k (serve window bound counter calls).1 ≤ bound ↔
      bound = 0 ∨ asked window k calls ≤ bound ∨ Consecutive window k calls := by
  constructor
  · intro hle
    rcases consecutive_or_returns window k calls with hconsecutive |
      ⟨before, other, after, rfl, hother, hbefore, hafter⟩
    · exact Or.inr (Or.inr hconsecutive)
    · -- Both visits have the whole bound to themselves.
      have hfirst := min_le_granted window bound counter before k
      have hsecond := min_le_granted window bound
        ((serve window bound counter before).2.take bound (window other)).2 after k
      rw [hzero] at hfirst
      rw [counted_other (by rw [take_window]; exact hother)] at hsecond
      rw [serve_append, granted_append, serve, granted_cons] at hle
      rw [asked_append, asked_cons]
      simp only [hother, if_false, false_and] at hle ⊢
      omega
  · rintro (rfl | hfew | hconsecutive)
    · have hnone := granted_zero window counter calls k
      omega
    · exact Nat.le_trans (granted_le_asked window bound counter calls k) hfew
    · exact granted_consecutive window bound (hzero k) hconsecutive

theorem consecutive_of_sorted [PartialOrder W] {calls : List α}
    (hsorted : calls.Pairwise (fun a b => window a ≤ window b)) (k : W) :
    Consecutive window k calls := by
  rcases consecutive_or_returns window k calls with hconsecutive |
    ⟨before, other, after, rfl, hother, hbefore, hafter⟩
  · exact hconsecutive
  · obtain ⟨first, hfirst, hk⟩ := asked_pos.mp hbefore
    obtain ⟨last, hlast, hk'⟩ := asked_pos.mp hafter
    rw [List.pairwise_append, List.pairwise_cons] at hsorted
    obtain ⟨-, ⟨hfrom, -⟩, hto⟩ := hsorted
    have hup := hto first hfirst other List.mem_cons_self
    have hdown := hfrom last hlast
    rw [hk] at hup
    rw [hk'] at hdown
    exact absurd (le_antisymm hdown hup) hother

end FixedWindows
