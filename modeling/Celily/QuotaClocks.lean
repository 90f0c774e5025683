import Celily.ConfigRules
import Celily.QuotaWindows
import Mathlib.Algebra.Ring.Int.Defs
import Mathlib.Data.List.Pairwise

/-!
# Quotas and the clock

The calls of one quota window under any sequence of clock readings. Its bound holds
for a window whose calls come one after the other. A clock that leaves a window and
comes back finds the count gone, and a window that is not a whole number of seconds
is not the window that is counted.
-/

namespace QuotaClocks

open NetworkRules QuotaWindows FixedWindows ConfigRules

section Calls
variable {α : Type} (reading : α → UInt64)

/-- One call after the other, each with its answer, and the window they leave. -/
def takeAll (quota : QuotaConfig) (window : QuotaWindow) : List α → List (α × Bool) × QuotaWindow
  | [] => ([], window)
  | call :: calls =>
    let taken := window.tryTake quota (reading call)
    let rest := takeAll quota taken.2 calls
    ((call, taken.1) :: rest.1, rest.2)

/-- The window of a call, over the whole numbers. -/
def callWindow (quota : QuotaConfig) (call : α) : Nat := windowOf quota (reading call)

/-- The window counts as the counter of the windows does. -/
theorem takeAll_counter (quota : QuotaConfig) (window : QuotaWindow) (calls : List α) :
    serve (callWindow reading quota) quota.maxRequests.toNat window.counter calls =
      ((takeAll reading quota window calls).1, (takeAll reading quota window calls).2.counter) := by
  induction calls generalizing window with
  | nil => rfl
  | cons call calls ih =>
    rw [serve, callWindow, tryTake_counter, takeAll]
    simp only [ih]

theorem serve_calls (quota : QuotaConfig) (window : QuotaWindow) (calls : List α) :
    (serve (callWindow reading quota) quota.maxRequests.toNat window.counter calls).1 =
      (takeAll reading quota window calls).1 := by
  rw [takeAll_counter]

end Calls

theorem counted_default (k : Nat) : QuotaWindow.default.counter.counted k = 0 := by
  rw [Counter.counted]
  split
  · rfl
  · rfl

/-! ## Clock steps -/

/-- The reading lies in `[k * w, (k + 1) * w)`. -/
def InWindow (quota : QuotaConfig) (k : Nat) (now : UInt64) : Prop :=
  k * quota.window.secs.toNat ≤ now.toNat ∧ now.toNat < (k + 1) * quota.window.secs.toNat

instance (quota : QuotaConfig) (k : Nat) (now : UInt64) : Decidable (InWindow quota k now) :=
  inferInstanceAs (Decidable (_ ∧ _))

/-- The calls granted in the window `k`. -/
def grantedIn (quota : QuotaConfig) (k : Nat) (readings : List UInt64) : Nat :=
  (takeAll id quota .default readings).1.countP
    (fun answer => InWindow quota k answer.1 ∧ answer.2 = true)

/-- The calls of the window `k` follow one another: the clock does not come back to it. -/
def OneVisit (quota : QuotaConfig) (k : Nat) (readings : List UInt64) : Prop :=
  ∃ before visit after, readings = before ++ visit ++ after ∧
    (∀ now ∈ before, ¬InWindow quota k now) ∧ (∀ now ∈ visit, InWindow quota k now) ∧
    (∀ now ∈ after, ¬InWindow quota k now)

theorem windowOf_eq {quota : QuotaConfig} (hsecond : 1 ≤ quota.window.secs) (now : UInt64) :
    windowOf quota now = now.toNat / quota.window.secs.toNat := by
  have hsecs : 1 ≤ quota.window.secs.toNat := UInt64.le_iff_toNat_le.mp hsecond
  rw [windowOf, windowIndex_toNat, Nat.max_eq_left hsecs]

theorem windowOf_eq_iff {quota : QuotaConfig} (hsecond : 1 ≤ quota.window.secs) {now : UInt64}
    {k : Nat} : windowOf quota now = k ↔ InWindow quota k now := by
  have hsecs : 1 ≤ quota.window.secs.toNat := UInt64.le_iff_toNat_le.mp hsecond
  rw [windowOf_eq hsecond, Nat.div_eq_iff (by omega), InWindow]
  have hnext : (k + 1) * quota.window.secs.toNat =
      k * quota.window.secs.toNat + quota.window.secs.toNat := Nat.succ_mul _ _
  omega

theorem grantedIn_eq {quota : QuotaConfig} (hsecond : 1 ≤ quota.window.secs) (k : Nat)
    (readings : List UInt64) :
    grantedIn quota k readings = granted (callWindow id quota) k
      (serve (callWindow id quota) quota.maxRequests.toNat QuotaWindow.default.counter
        readings).1 := by
  rw [serve_calls, grantedIn, granted]
  simp only [callWindow, id, windowOf_eq_iff hsecond]

theorem oneVisit_iff {quota : QuotaConfig} (hsecond : 1 ≤ quota.window.secs) (k : Nat)
    (readings : List UInt64) :
    OneVisit quota k readings ↔ Consecutive (callWindow id quota) k readings := by
  simp only [OneVisit, Consecutive, ne_eq, callWindow, id, windowOf_eq_iff hsecond]

/-- The bound of a window holds exactly when its calls are few or follow one another. -/
theorem grantedIn_le_iff (quota : QuotaConfig) (hsecond : 1 ≤ quota.window.secs) (k : Nat)
    (readings : List UInt64) :
    grantedIn quota k readings ≤ quota.maxRequests.toNat ↔
      quota.maxRequests = 0 ∨
        readings.countP (fun now => InWindow quota k now) ≤ quota.maxRequests.toNat ∨
        OneVisit quota k readings := by
  have hasked : readings.countP (fun now => InWindow quota k now) =
      asked (callWindow id quota) k readings := by
    rw [asked]
    simp only [callWindow, id, windowOf_eq_iff hsecond]
  have hmax : quota.maxRequests = 0 ↔ quota.maxRequests.toNat = 0 := by
    rw [← UInt64.toNat_inj]
    rfl
  rw [grantedIn_eq hsecond, oneVisit_iff hsecond, hasked, hmax]
  exact granted_le_iff counted_default

def tenSeconds : QuotaConfig := ⟨1, ⟨10, 0, by decide⟩⟩

theorem grantedIn_le_forward : grantedIn tenSeconds 0 [3, 7, 12] ≤ 1 :=
  (grantedIn_le_iff tenSeconds (by decide) 0 [3, 7, 12]).mpr
    (Or.inr (Or.inr ⟨[], [3, 7], [12], rfl, by simp, by simp [InWindow, tenSeconds],
      by simp [InWindow, tenSeconds]⟩))

/-- A step into the next window and back: the window is granted twice. -/
theorem grantedIn_stepped_back : ∃ quota readings k, 1 ≤ quota.window.secs ∧
    quota.window.nanos = 0 ∧ ¬grantedIn quota k readings ≤ quota.maxRequests.toNat :=
  ⟨tenSeconds, [9, 10, 9], 0, by decide, rfl, by decide⟩

/-! ## Windows of fractional seconds -/

/-- `SystemTime`, in nanoseconds since the epoch. Its seconds fit a `Duration`. -/
structure SystemTime where
  nanos : Int
  secs_lt : nanos / 10 ^ 9 < 2 ^ 64

/-- The whole seconds of a time, 0 before the epoch. -/
def unixNowSecs (time : SystemTime) : UInt64 := UInt64.ofNat (time.nanos / 10 ^ 9).toNat

/-- The window in nanoseconds. -/
def windowNanos (quota : QuotaConfig) : Int := quota.window.secs.toNat * 10 ^ 9 + quota.window.nanos

/-- The time lies in `[k * W, (k + 1) * W)`. -/
def WithinWindow (quota : QuotaConfig) (k : Int) (time : SystemTime) : Prop :=
  k * windowNanos quota ≤ time.nanos ∧ time.nanos < (k + 1) * windowNanos quota

instance (quota : QuotaConfig) (k : Int) (time : SystemTime) :
    Decidable (WithinWindow quota k time) := inferInstanceAs (Decidable (_ ∧ _))

/-- The requests granted in the window `k` of the wall clock. -/
def grantedWithin (quota : QuotaConfig) (k : Int) (times : List SystemTime) : Nat :=
  (takeAll unixNowSecs quota .default times).1.countP
    (fun answer => WithinWindow quota k answer.1 ∧ answer.2 = true)

theorem unixNowSecs_toNat (time : SystemTime) :
    (unixNowSecs time).toNat = (time.nanos / 10 ^ 9).toNat := by
  have hlt := time.secs_lt
  rw [unixNowSecs, UInt64.toNat_ofNat']
  omega

theorem callWindow_eq {quota : QuotaConfig} (hsecond : 1 ≤ quota.window.secs) (time : SystemTime) :
    callWindow unixNowSecs quota time =
      (time.nanos / 10 ^ 9).toNat / quota.window.secs.toNat := by
  rw [callWindow, windowOf_eq hsecond, unixNowSecs_toNat]

theorem toNat_div_of_mul_bounds {secs : Nat} {k seconds : Int} (hlow : k * secs ≤ seconds)
    (hhigh : seconds < (k + 1) * secs) : seconds.toNat / secs = k.toNat := by
  rcases Int.lt_or_le k 0 with hneg | hnonneg
  · have hzero : (k + 1) * (secs : Int) ≤ 0 :=
      Int.mul_nonpos_of_nonpos_of_nonneg (by omega) (by omega)
    rw [Int.toNat_of_nonpos (by omega), Int.toNat_of_nonpos (by omega), Nat.zero_div]
  · have hpos : 0 ≤ seconds := Int.le_trans (Int.mul_nonneg hnonneg (by omega)) hlow
    obtain ⟨m, rfl⟩ := Int.eq_ofNat_of_zero_le hnonneg
    obtain ⟨t, rfl⟩ := Int.eq_ofNat_of_zero_le hpos
    exact Nat.div_eq_of_lt_le (by exact_mod_cast hlow) (by exact_mod_cast hhigh)

/-- With whole seconds, a window of the wall clock lies in one that is counted. -/
theorem callWindow_of_within {quota : QuotaConfig} (hsecond : 1 ≤ quota.window.secs)
    (hwhole : quota.window.nanos = 0) {k : Int} {time : SystemTime}
    (hwithin : WithinWindow quota k time) : callWindow unixNowSecs quota time = k.toNat := by
  obtain ⟨hfrom, hto⟩ := hwithin
  have hnanos : windowNanos quota = quota.window.secs.toNat * 10 ^ 9 := by
    rw [windowNanos]
    omega
  rw [hnanos, ← Int.mul_assoc] at hfrom hto
  rw [callWindow_eq hsecond]
  apply toNat_div_of_mul_bounds
  · exact Int.le_ediv_of_mul_le (by decide) hfrom
  · exact Int.ediv_lt_of_lt_mul (by decide) hto

theorem callWindow_mono {quota : QuotaConfig} (hsecond : 1 ≤ quota.window.secs)
    {a b : SystemTime} (hle : a.nanos ≤ b.nanos) :
    callWindow unixNowSecs quota a ≤ callWindow unixNowSecs quota b := by
  rw [callWindow_eq hsecond, callWindow_eq hsecond]
  apply Nat.div_le_div_right
  omega

theorem grantedWithin_le {quota : QuotaConfig} (hsecond : 1 ≤ quota.window.secs)
    (hwhole : quota.window.nanos = 0) {times : List SystemTime}
    (hclock : times.Pairwise (fun a b => a.nanos ≤ b.nanos)) (k : Int) :
    grantedWithin quota k times ≤ quota.maxRequests.toNat := by
  have hsorted := hclock.imp (callWindow_mono hsecond)
  have hbound := granted_consecutive (callWindow unixNowSecs quota) quota.maxRequests.toNat
    (counted_default k.toNat) (consecutive_of_sorted hsorted k.toNat)
  rw [serve_calls] at hbound
  refine Nat.le_trans (List.countP_mono_left ?_) hbound
  intro answer _ hanswer
  simp only [decide_eq_true_eq] at hanswer ⊢
  exact ⟨callWindow_of_within hsecond hwhole hanswer.1, hanswer.2⟩

/-- The time `secs` seconds after the epoch. -/
def afterEpoch (secs : UInt64) : SystemTime where
  nanos := secs.toNat * 10 ^ 9
  secs_lt := by
    have hlt := secs.toNat_lt
    omega

/-- All the requests that one window grants, and one more `secs` later. -/
def burst (quota : QuotaConfig) : List SystemTime :=
  List.replicate quota.maxRequests.toNat (afterEpoch 0) ++ [afterEpoch quota.window.secs]

theorem burst_sorted (quota : QuotaConfig) :
    (burst quota).Pairwise (fun a b => a.nanos ≤ b.nanos) := by
  rw [burst, List.pairwise_append]
  refine ⟨List.pairwise_replicate_of_refl, List.pairwise_singleton _ _, ?_⟩
  intro a ha b hb
  obtain rfl := List.eq_of_mem_replicate ha
  obtain rfl := List.mem_singleton.mp hb
  simp only [afterEpoch]
  exact Int.mul_le_mul_of_nonneg_right (by simp) (by decide)

theorem burst_within {quota : QuotaConfig} (hfraction : quota.window.nanos ≠ 0) :
    ∀ time ∈ burst quota, WithinWindow quota 0 time := by
  intro time htime
  rcases List.mem_append.mp htime with htime | htime
  · rw [List.eq_of_mem_replicate htime]
    simp only [WithinWindow, afterEpoch, windowNanos, UInt64.toNat_zero]
    omega
  · rw [List.mem_singleton.mp htime]
    simp only [WithinWindow, afterEpoch, windowNanos]
    omega

theorem callWindow_afterEpoch {quota : QuotaConfig} (hsecond : 1 ≤ quota.window.secs)
    (secs : UInt64) : callWindow unixNowSecs quota (afterEpoch secs) =
      secs.toNat / quota.window.secs.toNat := by
  have hsecs : (afterEpoch secs).nanos / 10 ^ 9 = secs.toNat :=
    Int.mul_ediv_cancel _ (by decide)
  rw [callWindow_eq hsecond, hsecs, Int.toNat_natCast]

theorem asked_burst {quota : QuotaConfig} (hsecond : 1 ≤ quota.window.secs) :
    asked (callWindow unixNowSecs quota) 0 (burst quota) = quota.maxRequests.toNat ∧
      asked (callWindow unixNowSecs quota) 1 (burst quota) = 1 := by
  have hsecs : 0 < quota.window.secs.toNat := UInt64.le_iff_toNat_le.mp hsecond
  have hfirst := callWindow_afterEpoch hsecond 0
  have hlast := callWindow_afterEpoch hsecond quota.window.secs
  rw [UInt64.toNat_zero, Nat.zero_div] at hfirst
  rw [Nat.div_self hsecs] at hlast
  constructor
  · simp [burst, asked, List.countP_append, List.countP_replicate, hfirst, hlast]
  · simp [burst, asked, List.countP_append, List.countP_replicate, hfirst, hlast]

/-- The handler counts its last request in the next window, the wall clock in the first. -/
theorem burst_overruns {quota : QuotaConfig} (hsecond : 1 ≤ quota.window.secs)
    (hmax : quota.maxRequests ≠ 0) (hfraction : quota.window.nanos ≠ 0) :
    quota.maxRequests.toNat < grantedWithin quota 0 (burst quota) := by
  have hpos : 0 < quota.maxRequests.toNat := by
    rw [Nat.pos_iff_ne_zero, ne_eq, ← UInt64.toNat_zero, UInt64.toNat_inj]
    exact hmax
  obtain ⟨haskedZero, haskedOne⟩ := asked_burst hsecond
  have hzero := min_le_granted (callWindow unixNowSecs quota) quota.maxRequests.toNat
    QuotaWindow.default.counter (burst quota) 0
  have hone := min_le_granted (callWindow unixNowSecs quota) quota.maxRequests.toNat
    QuotaWindow.default.counter (burst quota) 1
  have hall := granted_add_le (callWindow unixNowSecs quota) Nat.zero_ne_one
    (takeAll unixNowSecs quota .default (burst quota)).1
  have hcount : (takeAll unixNowSecs quota .default (burst quota)).1.countP
      (fun answer => answer.2 = true) ≤ grantedWithin quota 0 (burst quota) := by
    apply List.countP_mono_left
    intro answer hanswer hgranted
    rw [← serve_calls] at hanswer
    have hwithin := burst_within hfraction answer.1 (mem_of_mem_serve hanswer)
    simpa [hwithin] using hgranted
  rw [serve_calls, counted_default] at hzero hone
  omega

/-- The quotas that keep to their bound are those of whole seconds. -/
theorem grantedWithin_le_iff (config : ConfigQuotaConfig) (quota : QuotaConfig)
    (haccepted : config.intoLibrary = .ok quota) (hsecond : 1 ≤ config.window.secs) :
    (∀ times : List SystemTime, times.Pairwise (fun a b => a.nanos ≤ b.nanos) →
      ∀ k, grantedWithin quota k times ≤ quota.maxRequests.toNat) ↔ config.window.nanos = 0 := by
  rw [ConfigQuotaConfig.intoLibrary] at haccepted
  split at haccepted
  · cases haccepted
  rename_i hmax
  obtain rfl := Except.ok.inj haccepted
  constructor
  · intro hbound
    by_contra hfraction
    have hle := hbound (burst ⟨config.maxRequests, config.window⟩) (burst_sorted _) 0
    exact absurd (burst_overruns hsecond hmax hfraction) (Nat.not_lt_of_le hle)
  · intro hwhole times hclock k
    exact grantedWithin_le hsecond hwhole hclock k

/-- `max_requests = 1, window = "1500ms"`. -/
def threeHalves : ConfigQuotaConfig := ⟨1, ⟨1, 500000000, by decide⟩⟩

theorem grantedWithin_le_iff_threeHalves :
    ¬∀ times : List SystemTime, times.Pairwise (fun a b => a.nanos ≤ b.nanos) →
      ∀ k, grantedWithin ⟨1, threeHalves.window⟩ k times ≤ (1 : UInt64).toNat :=
  mt (grantedWithin_le_iff threeHalves ⟨1, threeHalves.window⟩ rfl (by decide)).mp (by decide)

/-- Requests at 0.9 s and 1.1 s, of which one may pass until 1.5 s. -/
theorem grantedWithin_threeHalves : ∃ (config : ConfigQuotaConfig) (quota : QuotaConfig)
    (times : List SystemTime) (k : Int), config.intoLibrary = .ok quota ∧
      1 ≤ config.window.secs ∧ times.Pairwise (fun a b => a.nanos ≤ b.nanos) ∧
      ¬grantedWithin quota k times ≤ quota.maxRequests.toNat :=
  ⟨threeHalves, ⟨1, threeHalves.window⟩,
    [⟨900000000, by decide⟩, ⟨1100000000, by decide⟩], 0, rfl, by decide, by decide, by decide⟩

end QuotaClocks
