import Celily.NetworkRules
import Celily.FixedWindows

/-!
# Fixed quota windows

One request counter per rule. Windows are aligned to the wall clock: the counter
starts again when a reading falls into another window than the last one did.
-/

namespace QuotaWindows

open NetworkRules FixedWindows

/-- `index` is the current window, `count` the requests counted in it. -/
structure QuotaWindow where
  index : UInt64
  count : UInt64
  deriving DecidableEq

def QuotaWindow.default : QuotaWindow := ⟨0, 0⟩

/-- The window that a clock reading falls into. -/
def windowIndex (quota : QuotaConfig) (now : UInt64) : UInt64 :=
  now / max quota.window.secs 1

/-- Count one request at `now`; `false`, without counting, when the window is full. -/
def QuotaWindow.tryTake (window : QuotaWindow) (quota : QuotaConfig) (now : UInt64) :
    Bool × QuotaWindow :=
  let index := windowIndex quota now
  let window := if index ≠ window.index then ⟨index, 0⟩ else window
  if window.count ≥ quota.maxRequests then (false, window)
  else (true, { window with count := window.count + 1 })

/-- The requests counted so far in the window `index`. -/
def QuotaWindow.counted (window : QuotaWindow) (index : UInt64) : Nat :=
  if window.index = index then window.count.toNat else 0

/-- The current window is not full yet. -/
def QuotaWindow.HasRoom (window : QuotaWindow) (quota : QuotaConfig) (now : UInt64) : Prop :=
  window.counted (windowIndex quota now) < quota.maxRequests.toNat

theorem windowIndex_toNat (quota : QuotaConfig) (now : UInt64) :
    (windowIndex quota now).toNat = now.toNat / max quota.window.secs.toNat 1 := by
  have hmax : (max quota.window.secs 1).toNat = max quota.window.secs.toNat 1 := by
    have hif : max quota.window.secs 1 =
        if quota.window.secs ≤ 1 then 1 else quota.window.secs := rfl
    rw [hif]
    split
    · rename_i hle
      exact (Nat.max_eq_right (UInt64.le_iff_toNat_le.mp hle)).symm
    · rename_i hlt
      have hone : (1 : UInt64).toNat = 1 := rfl
      rw [UInt64.le_iff_toNat_le] at hlt
      omega
  rw [windowIndex, UInt64.toNat_div, hmax]

/-- What one call does to the counter: a grant counts one, a refusal nothing, and
no count passes the maximum. -/
theorem tryTake_spec (window : QuotaWindow) (quota : QuotaConfig) (now : UInt64) :
    let result := window.tryTake quota now
    result.2.index = windowIndex quota now ∧
      (result.1 = true ↔ window.HasRoom quota now) ∧
      result.2.counted (windowIndex quota now) =
        window.counted (windowIndex quota now) + if result.1 then 1 else 0 := by
  unfold QuotaWindow.tryTake QuotaWindow.HasRoom QuotaWindow.counted
  by_cases hsame : windowIndex quota now = window.index
  · have hroom : window.count ≥ quota.maxRequests ↔
        ¬window.count.toNat < quota.maxRequests.toNat := by
      rw [ge_iff_le, UInt64.le_iff_toNat_le]
      omega
    by_cases hfull : window.count ≥ quota.maxRequests
    · have hnot := hroom.mp hfull
      simp [hsame, hfull, hnot]
    · have hlt : window.count.toNat < quota.maxRequests.toNat := by
        by_contra hge
        exact hfull (hroom.mpr hge)
      have hmax := quota.maxRequests.toNat_lt
      have hsum : (window.count + 1).toNat = window.count.toNat + 1 := by
        rw [UInt64.toNat_add, UInt64.toNat_one]
        omega
      simp [hsame, hfull, hlt, hsum]
  · have hzero : (0 : UInt64) ≥ quota.maxRequests ↔ ¬0 < quota.maxRequests.toNat := by
      rw [ge_iff_le, UInt64.le_iff_toNat_le]
      simp
    by_cases hfull : (0 : UInt64) ≥ quota.maxRequests
    · have hnot := hzero.mp hfull
      simp [hsame, Ne.symm hsame, hfull, hnot]
    · have hlt : 0 < quota.maxRequests.toNat := by
        by_contra hge
        exact hfull (hzero.mpr hge)
      simp [hsame, Ne.symm hsame, hfull, hlt]

/-- The counter that this is, over the whole numbers. -/
def QuotaWindow.counter (window : QuotaWindow) : Counter Nat :=
  ⟨window.index.toNat, window.count.toNat⟩

/-- The window that a reading falls into, over the whole numbers. -/
def windowOf (quota : QuotaConfig) (now : UInt64) : Nat := (windowIndex quota now).toNat

theorem counted_counter (window : QuotaWindow) (index : UInt64) :
    window.counter.counted index.toNat = window.counted index := by
  rw [Counter.counted, QuotaWindow.counted]
  simp only [QuotaWindow.counter, UInt64.toNat_inj]

/-- No index wraps around, and no count. -/
theorem tryTake_counter (window : QuotaWindow) (quota : QuotaConfig) (now : UInt64) :
    window.counter.take quota.maxRequests.toNat (windowOf quota now) =
      ((window.tryTake quota now).1, (window.tryTake quota now).2.counter) := by
  obtain ⟨hindex, hroom, hcount⟩ := tryTake_spec window quota now
  have hafter : (window.tryTake quota now).2.counter =
      ⟨windowOf quota now, (window.tryTake quota now).2.counted (windowIndex quota now)⟩ := by
    rw [QuotaWindow.counter, QuotaWindow.counted, hindex, if_pos rfl, windowOf]
  have hcounted : window.counted (windowIndex quota now) =
      window.counter.counted (windowOf quota now) := (counted_counter window _).symm
  rw [QuotaWindow.HasRoom, hcounted] at hroom
  rw [hafter, hcount, hcounted]
  cases htaken : (window.tryTake quota now).1 with
  | true => rw [take_granted (hroom.mp htaken), if_pos rfl]
  | false =>
    have hfull := mt hroom.mpr (by rw [htaken]; exact Bool.false_ne_true)
    rw [take_refused hfull, if_neg Bool.false_ne_true, Nat.add_zero]

end QuotaWindows
