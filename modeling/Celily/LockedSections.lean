import Mathlib.Data.List.Nodup
import Mathlib.Logic.Function.Basic
import Mathlib.Order.Defs.Unbundled

/-!
# Jobs that share cells under locks

Each job takes the lock of one cell, reads the clock, updates the cell and gives the
lock back, or answers without a lock; the steps of all jobs and the ticks of the
clock come in any order. Every reached state is explained by a log of the jobs in the
order in which they read the clock: served one after the other in that order, at the
readings they made, the jobs have the same results and leave the same cells.
A log only grows at its end, so it also keeps the order of jobs that do not overlap.
-/

namespace LockedSections

variable {J I S T R : Type}

/-- What the jobs do: the lock they take, if any, and what they then make of a clock
reading and the cell. -/
structure Service (J I S T R : Type) where
  lock : J → Option I
  direct : J → R
  work : J → T → S → R × S

inductive Phase (T R : Type) where
  | waiting
  | locked
  | timed (now : T)
  | updated (result : R)
  | finished (result : R)

namespace Phase

/-- The job is inside its locked section. -/
def Holds : Phase T R → Prop
  | waiting => False
  | locked => True
  | timed _ => True
  | updated _ => True
  | finished _ => False

/-- The job has read the clock. -/
def Past : Phase T R → Prop
  | waiting => False
  | locked => False
  | timed _ => True
  | updated _ => True
  | finished _ => True

/-- What the job answers, once its result is settled. -/
def result : Phase T R → Option R
  | updated result => some result
  | finished result => some result
  | _ => none

end Phase

structure State (J I S T R : Type) where
  clock : T
  cells : I → S
  holder : I → Option J
  phase : J → Phase T R

/-- No job has begun, and every lock is free. -/
def State.start (clock : T) (cells : I → S) : State J I S T R where
  clock := clock
  cells := cells
  holder := fun _ => none
  phase := fun _ => .waiting

section Steps
variable [DecidableEq J] [DecidableEq I]

def State.move (s : State J I S T R) (j : J) (phase : Phase T R) : State J I S T R :=
  { s with phase := Function.update s.phase j phase }

def State.setHolder (s : State J I S T R) (i : I) (holder : Option J) : State J I S T R :=
  { s with holder := Function.update s.holder i holder }

def State.setCell (s : State J I S T R) (i : I) (cell : S) : State J I S T R :=
  { s with cells := Function.update s.cells i cell }

/-- A job's step. -/
inductive JobStep (service : Service J I S T R) (j : J) (s : State J I S T R) :
    State J I S T R → Prop where
  | answer : s.phase j = .waiting → service.lock j = none →
      JobStep service j s (s.move j (.finished (service.direct j)))
  | acquire (i : I) : s.phase j = .waiting → service.lock j = some i → s.holder i = none →
      JobStep service j s ((s.setHolder i (some j)).move j .locked)
  | read (i : I) : s.phase j = .locked → service.lock j = some i →
      JobStep service j s (s.move j (.timed s.clock))
  | update (i : I) (now : T) : s.phase j = .timed now → service.lock j = some i →
      JobStep service j s ((s.setCell i (service.work j now (s.cells i)).2).move j
        (.updated (service.work j now (s.cells i)).1))
  | release (i : I) (result : R) : s.phase j = .updated result → service.lock j = some i →
      JobStep service j s ((s.setHolder i none).move j (.finished result))

variable (ticks : T → T → Prop)

/-- A step of a job, or a move of the clock that `ticks` allows. -/
inductive Step (service : Service J I S T R) (s : State J I S T R) :
    State J I S T R → Prop where
  | tick (now : T) : ticks s.clock now → Step service s { s with clock := now }
  | job {t : State J I S T R} (j : J) : JobStep service j s t → Step service s t

inductive Reaches (service : Service J I S T R) (s : State J I S T R) :
    State J I S T R → Prop where
  | refl : Reaches service s s
  | step {t u : State J I S T R} :
      Reaches service s t → Step ticks service t u → Reaches service s u

end Steps

section Moves
variable (s : State J I S T R)

@[simp] theorem move_phase_self [DecidableEq J] (j : J) (phase : Phase T R) :
    (s.move j phase).phase j = phase := Function.update_self _ _ _

@[simp] theorem move_phase_other [DecidableEq J] {j k : J} (hne : k ≠ j) (phase : Phase T R) :
    (s.move j phase).phase k = s.phase k := Function.update_of_ne hne _ _

@[simp] theorem move_cells [DecidableEq J] (j : J) (phase : Phase T R) :
    (s.move j phase).cells = s.cells := rfl

@[simp] theorem move_holder [DecidableEq J] (j : J) (phase : Phase T R) :
    (s.move j phase).holder = s.holder := rfl

@[simp] theorem move_clock [DecidableEq J] (j : J) (phase : Phase T R) :
    (s.move j phase).clock = s.clock := rfl

variable [DecidableEq I]

@[simp] theorem setHolder_self (i : I) (holder : Option J) :
    (s.setHolder i holder).holder i = holder := Function.update_self _ _ _

@[simp] theorem setHolder_other {i l : I} (hne : l ≠ i) (holder : Option J) :
    (s.setHolder i holder).holder l = s.holder l := Function.update_of_ne hne _ _

@[simp] theorem setCell_self (i : I) (cell : S) :
    (s.setCell i cell).cells i = cell := Function.update_self _ _ _

@[simp] theorem setCell_other {i l : I} (hne : l ≠ i) (cell : S) :
    (s.setCell i cell).cells l = s.cells l := Function.update_of_ne hne _ _

@[simp] theorem setHolder_phase (i : I) (holder : Option J) :
    (s.setHolder i holder).phase = s.phase := rfl

@[simp] theorem setCell_phase (i : I) (cell : S) : (s.setCell i cell).phase = s.phase := rfl

end Moves

/-! ## One job after the other -/

section Serial
variable [DecidableEq I]

/-- A job that runs alone, from taking its lock to giving it back. -/
def Service.serve (service : Service J I S T R) (cells : I → S) (entry : J × T) : R × (I → S) :=
  match service.lock entry.1 with
  | none => (service.direct entry.1, cells)
  | some i =>
    let served := service.work entry.1 entry.2 (cells i)
    (served.1, Function.update cells i served.2)

/-- The jobs of a log one after the other, with their results. -/
def Service.serial (service : Service J I S T R) (cells : I → S) :
    List (J × T) → List (J × R) × (I → S)
  | [] => ([], cells)
  | entry :: log =>
    let served := service.serve cells entry
    let rest := serial service served.2 log
    ((entry.1, served.1) :: rest.1, rest.2)

theorem serial_concat (service : Service J I S T R) (cells : I → S) (log : List (J × T))
    (entry : J × T) :
    service.serial cells (log ++ [entry]) =
      ((service.serial cells log).1 ++
          [(entry.1, (service.serve (service.serial cells log).2 entry).1)],
        (service.serve (service.serial cells log).2 entry).2) := by
  induction log generalizing cells with
  | nil => rfl
  | cons first log ih => simp only [List.cons_append, Service.serial, ih]

theorem serial_jobs (service : Service J I S T R) (cells : I → S) (log : List (J × T)) :
    (service.serial cells log).1.map Prod.fst = log.map Prod.fst := by
  induction log generalizing cells with
  | nil => rfl
  | cons first log ih => simp only [Service.serial, List.map_cons, ih]

end Serial

/-! ## The log of a reached state -/

section Recorded
variable {ticks : T → T → Prop} {service : Service J I S T R} {log : List (J × T)}
  {s : State J I S T R} {j : J} {i : I}

/-- The log holds the jobs that have read the clock, in the order in which they did. -/
structure Recorded (ticks : T → T → Prop) (service : Service J I S T R) (log : List (J × T))
    (s : State J I S T R) : Prop where
  sorted : log.Pairwise (fun a b => ticks a.2 b.2)
  past : ∀ entry ∈ log, ticks entry.2 s.clock
  once : (log.map Prod.fst).Nodup
  logged : ∀ j, j ∈ log.map Prod.fst ↔ (s.phase j).Past
  held : ∀ i j, s.holder i = some j ↔ service.lock j = some i ∧ (s.phase j).Holds
  inside : ∀ j, (s.phase j).Holds → (service.lock j).isSome

/-- One lock has one holder. -/
theorem Recorded.exclusive (h : Recorded ticks service log s) {k : J} (hj : service.lock j = some i)
    (hk : service.lock k = some i) (holdsJ : (s.phase j).Holds) (holdsK : (s.phase k).Holds) :
    j = k := by
  have holder := (h.held i j).mpr ⟨hj, holdsJ⟩
  rw [(h.held i k).mpr ⟨hk, holdsK⟩] at holder
  exact (Option.some.inj holder).symm

/-- A job that reads the clock goes to the end of the log. -/
theorem Recorded.concat [DecidableEq J] [IsPreorder T ticks] (h : Recorded ticks service log s)
    {phase : Phase T R}
    (fresh : ¬(s.phase j).Past) (past : phase.Past) (holds : phase.Holds ↔ (s.phase j).Holds) :
    Recorded ticks service (log ++ [(j, s.clock)]) (s.move j phase) where
  sorted := by
    rw [List.pairwise_append]
    refine ⟨h.sorted, List.pairwise_singleton _ _, fun a ha b hb => ?_⟩
    rw [List.mem_singleton.mp hb]
    exact h.past a ha
  past entry hentry := by
    rcases List.mem_append.mp hentry with hold | hnew
    · exact h.past entry hold
    · rw [List.mem_singleton.mp hnew, move_clock]
      exact refl_of ticks _
  once := by
    rw [List.map_append, List.nodup_append]
    refine ⟨h.once, List.nodup_singleton _, fun k hk l hl => ?_⟩
    rw [List.mem_singleton.mp hl]
    rintro rfl
    exact fresh ((h.logged k).mp hk)
  logged k := by
    rw [List.map_append, List.mem_append, h.logged]
    by_cases hk : k = j
    · subst hk
      simp [past]
    · simp [hk]
  held l k := by
    rw [move_holder, h.held]
    by_cases hk : k = j
    · subst hk
      simp [holds]
    · simp [hk]
  inside k hk := by
    by_cases hkj : k = j
    · subst hkj
      rw [move_phase_self] at hk
      exact h.inside k (holds.mp hk)
    · rw [move_phase_other _ hkj] at hk
      exact h.inside k hk

/-- A job that moves on without reading the clock leaves the log as it is. -/
theorem Recorded.move [DecidableEq J] (h : Recorded ticks service log s) {t : State J I S T R}
    {phase : Phase T R} (hclock : t.clock = s.clock) (hphase : t.phase = (s.move j phase).phase)
    (hlock : service.lock j = some i) (past : phase.Past ↔ (s.phase j).Past)
    (held : ∀ l k, t.holder l = some k ↔ service.lock k = some l ∧ (t.phase k).Holds) :
    Recorded ticks service log t where
  sorted := h.sorted
  past := by
    rw [hclock]
    exact h.past
  once := h.once
  logged k := by
    rw [h.logged, hphase]
    by_cases hk : k = j
    · subst hk
      simp [past]
    · simp [hk]
  held := held
  inside k hk := by
    by_cases hkj : k = j
    · rw [hkj, hlock]
      rfl
    · rw [hphase, move_phase_other _ hkj] at hk
      exact h.inside k hk

end Recorded

section Linearized
variable [DecidableEq I] {ticks : T → T → Prop} {service : Service J I S T R} {cells : I → S}
  {log : List (J × T)} {s t : State J I S T R} {j : J} {i : I}

/-- The log explains the state. A cell whose job has read the clock and not yet updated
it is one step behind the log. -/
structure Linearized (ticks : T → T → Prop) (service : Service J I S T R) (cells : I → S)
    (log : List (J × T)) (s : State J I S T R) : Prop extends Recorded ticks service log s where
  behind : ∀ i j now, service.lock j = some i → s.phase j = .timed now →
    (service.serial cells log).2 i = (service.work j now (s.cells i)).2 ∧
      (j, (service.work j now (s.cells i)).1) ∈ (service.serial cells log).1
  settled : ∀ i, (∀ j now, service.lock j = some i → s.phase j ≠ .timed now) →
    (service.serial cells log).2 i = s.cells i
  results : ∀ j result, (s.phase j).result = some result →
    (j, result) ∈ (service.serial cells log).1

theorem start_linearized (ticks : T → T → Prop) (service : Service J I S T R) (clock : T)
    (cells : I → S) :
    Linearized ticks service cells [] (State.start clock cells) where
  sorted := .nil
  past := by simp
  once := .nil
  logged := by simp [State.start, Phase.Past]
  held := by simp [State.start, Phase.Holds]
  inside := by simp [State.start, Phase.Holds]
  behind := by simp [State.start]
  settled _ _ := rfl
  results := by simp [State.start, Phase.result]

/-- While a job holds a lock and has not read the clock, its cell is up to date. -/
theorem Linearized.settled_of_holds (h : Linearized ticks service cells log s)
    (hlock : service.lock j = some i) (hphase : s.phase j = .locked) :
    (service.serial cells log).2 i = s.cells i := by
  refine h.settled i fun k now hk htimed => ?_
  have hsame : j = k :=
    h.exclusive hlock hk (by rw [hphase]; trivial) (by rw [htimed]; trivial)
  rw [← hsame, hphase] at htimed
  cases htimed

/-- With no job inside its section, the cells are those that the log leaves. -/
theorem Linearized.quiet_cells (h : Linearized ticks service cells log s)
    (hquiet : ∀ j, ¬(s.phase j).Holds) : (service.serial cells log).2 = s.cells := by
  funext i
  exact h.settled i fun j now _ htimed => hquiet j (by rw [htimed]; trivial)

/-- With no job inside its section, the jobs of the log have the results of the log. -/
theorem Linearized.quiet_results (h : Linearized ticks service cells log s)
    (hquiet : ∀ j, ¬(s.phase j).Holds) {entry : J × R}
    (hmem : entry ∈ (service.serial cells log).1) : s.phase entry.1 = .finished entry.2 := by
  have hjobs := serial_jobs service cells log
  have honce : ((service.serial cells log).1.map Prod.fst).Nodup := by
    rw [hjobs]
    exact h.once
  have hpast : (s.phase entry.1).Past := by
    rw [← h.logged, ← hjobs]
    exact List.mem_map_of_mem hmem
  cases hphase : s.phase entry.1 with
  | finished result =>
    have hresult := h.results entry.1 result (by rw [hphase]; rfl)
    have hsame := List.inj_on_of_nodup_map honce hmem hresult rfl
    rw [hsame]
  | waiting => rw [hphase] at hpast; exact hpast.elim
  | locked => rw [hphase] at hpast; exact hpast.elim
  | timed now => exact absurd (by rw [hphase]; trivial) (hquiet entry.1)
  | updated result => exact absurd (by rw [hphase]; trivial) (hquiet entry.1)

variable [DecidableEq J]

theorem Linearized.answer [IsPreorder T ticks] (h : Linearized ticks service cells log s)
    (hphase : s.phase j = .waiting) (hlock : service.lock j = none) :
    Linearized ticks service cells (log ++ [(j, s.clock)])
      (s.move j (.finished (service.direct j))) := by
  have recorded : Recorded ticks service (log ++ [(j, s.clock)])
      (s.move j (.finished (service.direct j))) := h.toRecorded.concat
    (by rw [hphase]; exact id) trivial (by rw [hphase]; rfl)
  have hserve : ∀ cells : I → S, service.serve cells (j, s.clock) = (service.direct j, cells) := by
    intro cells
    rw [Service.serve, hlock]
  refine ⟨recorded, fun l k now hk htimed => ?_, fun l hl => ?_, fun k result hresult => ?_⟩
  · have hne : k ≠ j := by
      rintro rfl
      rw [hlock] at hk
      cases hk
    rw [move_phase_other _ hne] at htimed
    simp only [serial_concat, hserve]
    obtain ⟨hcell, hmem⟩ := h.behind l k now hk htimed
    exact ⟨hcell, List.mem_append_left _ hmem⟩
  · simp only [serial_concat, hserve]
    refine h.settled l fun k now hk htimed => hl k now hk ?_
    rw [move_phase_other, htimed]
    rintro rfl
    rw [hlock] at hk
    cases hk
  · simp only [serial_concat, hserve]
    by_cases hk : k = j
    · subst hk
      rw [move_phase_self] at hresult
      obtain rfl := Option.some.inj hresult
      simp
    · rw [move_phase_other _ hk] at hresult
      exact List.mem_append_left _ (h.results k result hresult)

theorem Linearized.read [IsPreorder T ticks] (h : Linearized ticks service cells log s)
    (hphase : s.phase j = .locked) (hlock : service.lock j = some i) :
    Linearized ticks service cells (log ++ [(j, s.clock)]) (s.move j (.timed s.clock)) := by
  have recorded : Recorded ticks service (log ++ [(j, s.clock)])
      (s.move j (.timed s.clock)) := h.toRecorded.concat
    (by rw [hphase]; exact id) trivial (by rw [hphase]; rfl)
  have hserve : ∀ cells : I → S, service.serve cells (j, s.clock) =
      ((service.work j s.clock (cells i)).1,
        Function.update cells i (service.work j s.clock (cells i)).2) := by
    intro cells
    rw [Service.serve, hlock]
  have hcell := h.settled_of_holds hlock hphase
  refine ⟨recorded, fun l k now hk htimed => ?_, fun l hl => ?_, fun k result hresult => ?_⟩
  · simp only [serial_concat, hserve]
    by_cases hkj : k = j
    · subst hkj
      obtain rfl : l = i := Option.some.inj (hk.symm.trans hlock)
      rw [move_phase_self] at htimed
      obtain rfl := Phase.timed.inj htimed
      simp [hcell]
    · rw [move_phase_other _ hkj] at htimed
      have hli : l ≠ i := by
        rintro rfl
        exact hkj (h.exclusive hk hlock (by rw [htimed]; trivial) (by rw [hphase]; trivial))
      obtain ⟨hother, hmem⟩ := h.behind l k now hk htimed
      rw [Function.update_of_ne hli, move_cells]
      exact ⟨hother, List.mem_append_left _ hmem⟩
  · simp only [serial_concat, hserve]
    have hli : l ≠ i := by
      rintro rfl
      exact hl j s.clock hlock (move_phase_self _ _ _)
    rw [Function.update_of_ne hli]
    refine h.settled l fun k now hk htimed => hl k now hk ?_
    rw [move_phase_other, htimed]
    rintro rfl
    rw [hphase] at htimed
    cases htimed
  · simp only [serial_concat, hserve]
    have hkj : k ≠ j := by
      rintro rfl
      rw [move_phase_self] at hresult
      cases hresult
    rw [move_phase_other _ hkj] at hresult
    exact List.mem_append_left _ (h.results k result hresult)

/-- The cell of the job is the one that changes, and catches up with the log. -/
theorem Linearized.update (h : Linearized ticks service cells log s) {now : T}
    (hphase : s.phase j = .timed now) (hlock : service.lock j = some i) :
    Linearized ticks service cells log ((s.setCell i (service.work j now (s.cells i)).2).move j
      (.updated (service.work j now (s.cells i)).1)) := by
  have hholds : (s.phase j).Holds := by
    rw [hphase]
    trivial
  have recorded := h.toRecorded.move (j := j)
    (t := (s.setCell i (service.work j now (s.cells i)).2).move j
      (.updated (service.work j now (s.cells i)).1)) rfl rfl hlock (by rw [hphase]; rfl) (by
      intro l k
      rw [move_holder]
      refine (h.held l k).trans (and_congr_right fun _ => ?_)
      by_cases hkj : k = j
      · subst hkj
        rw [move_phase_self]
        exact ⟨fun _ => trivial, fun _ => hholds⟩
      · rw [move_phase_other _ hkj]
        rfl)
  obtain ⟨hcell, hmem⟩ := h.behind i j now hlock hphase
  refine ⟨recorded, fun l k time hk htimed => ?_, fun l hl => ?_, fun k result hresult => ?_⟩
  · have hkj : k ≠ j := by
      rintro rfl
      rw [move_phase_self] at htimed
      cases htimed
    rw [move_phase_other _ hkj] at htimed
    have hli : l ≠ i := by
      rintro rfl
      exact hkj (h.exclusive hk hlock (htimed ▸ trivial : (s.phase k).Holds) hholds)
    rw [move_cells, setCell_other _ hli]
    exact h.behind l k time hk htimed
  · rw [move_cells]
    by_cases hli : l = i
    · subst hli
      rw [hcell, setCell_self]
    · rw [setCell_other _ hli]
      refine h.settled l fun k time hk htimed => hl k time hk ?_
      rw [move_phase_other]
      · exact htimed
      rintro rfl
      exact hli (Option.some.inj (hk.symm.trans hlock))
  · by_cases hkj : k = j
    · subst hkj
      rw [move_phase_self] at hresult
      obtain rfl := Option.some.inj hresult
      exact hmem
    · rw [move_phase_other _ hkj] at hresult
      exact h.results k result hresult

/-- A job that takes or gives back its lock changes no cell, and no result. -/
theorem Linearized.relock (h : Linearized ticks service cells log s) {phase : Phase T R}
    {holder : Option J} (hlock : service.lock j = some i)
    (past : phase.Past ↔ (s.phase j).Past) (htimed : ∀ now, phase ≠ .timed now)
    (hbefore : ∀ now, s.phase j ≠ .timed now)
    (hresult : ∀ result, phase.result = some result → (s.phase j).result = some result)
    (held : ∀ k, holder = some k ↔
      service.lock k = some i ∧ (((s.setHolder i holder).move j phase).phase k).Holds) :
    Linearized ticks service cells log ((s.setHolder i holder).move j phase) := by
  have recorded := h.toRecorded.move (j := j) (t := (s.setHolder i holder).move j phase) rfl rfl
    hlock past (by
      intro l k
      rw [move_holder]
      by_cases hli : l = i
      · subst hli
        rw [setHolder_self]
        exact held k
      · rw [setHolder_other _ hli, h.held]
        refine and_congr_right fun hk => ?_
        rw [move_phase_other]
        · rfl
        rintro rfl
        exact hli (Option.some.inj (hk.symm.trans hlock)))
  have hother : ∀ k, (∃ now, ((s.setHolder i holder).move j phase).phase k = .timed now) ↔
      ∃ now, s.phase k = .timed now := by
    intro k
    by_cases hkj : k = j
    · subst hkj
      simp [htimed, hbefore]
    · rw [move_phase_other _ hkj]
      rfl
  refine ⟨recorded, fun l k now hk hphase => ?_, fun l hl => ?_, fun k result hk => ?_⟩
  · have hkj : k ≠ j := by
      rintro rfl
      rw [move_phase_self] at hphase
      exact htimed now hphase
    rw [move_phase_other _ hkj] at hphase
    exact h.behind l k now hk hphase
  · refine h.settled l fun k now hk hphase => ?_
    obtain ⟨time, htime⟩ := (hother k).mpr ⟨now, hphase⟩
    exact hl k time hk htime
  · by_cases hkj : k = j
    · subst hkj
      rw [move_phase_self] at hk
      exact h.results k result (hresult result hk)
    · rw [move_phase_other _ hkj] at hk
      exact h.results k result hk

theorem Linearized.acquire (h : Linearized ticks service cells log s)
    (hphase : s.phase j = .waiting) (hlock : service.lock j = some i) (hfree : s.holder i = none) :
    Linearized ticks service cells log ((s.setHolder i (some j)).move j .locked) := by
  refine h.relock hlock (by rw [hphase]; rfl) (by simp) (by simp [hphase]) (by simp [Phase.result])
    fun k => ?_
  constructor
  · rintro ⟨⟩
    exact ⟨hlock, by rw [move_phase_self]; trivial⟩
  · rintro ⟨hk, hholds⟩
    by_cases hkj : k = j
    · rw [hkj]
    · rw [move_phase_other _ hkj] at hholds
      rw [(h.held i k).mpr ⟨hk, hholds⟩] at hfree
      cases hfree

theorem Linearized.release (h : Linearized ticks service cells log s) {result : R}
    (hphase : s.phase j = .updated result) (hlock : service.lock j = some i) :
    Linearized ticks service cells log ((s.setHolder i none).move j (.finished result)) := by
  refine h.relock hlock (by rw [hphase]; rfl) (by simp) (by simp [hphase])
    (by simp [hphase, Phase.result]) fun k => ?_
  constructor
  · rintro ⟨⟩
  · rintro ⟨hk, hholds⟩
    by_cases hkj : k = j
    · subst hkj
      rw [move_phase_self] at hholds
      exact hholds.elim
    · rw [move_phase_other _ hkj] at hholds
      exact absurd (h.exclusive hk hlock hholds (by rw [hphase]; trivial)) hkj

/-! ## Runs -/

theorem Linearized.step [IsPreorder T ticks] (h : Linearized ticks service cells log s)
    (hstep : Step ticks service s t) :
    ∃ more, Linearized ticks service cells (log ++ more) t := by
  cases hstep with
  | tick now hle =>
    refine ⟨[], ?_⟩
    rw [List.append_nil]
    have recorded : Recorded ticks service log { s with clock := now } :=
      ⟨h.sorted, fun entry hentry => trans_of ticks (h.past entry hentry) hle, h.once, h.logged,
        h.held, h.inside⟩
    exact ⟨recorded, h.behind, h.settled, h.results⟩
  | job j hjob =>
    cases hjob with
    | answer hphase hlock => exact ⟨_, h.answer hphase hlock⟩
    | acquire i hphase hlock hfree =>
      exact ⟨[], by rw [List.append_nil]; exact h.acquire hphase hlock hfree⟩
    | read i hphase hlock => exact ⟨_, h.read hphase hlock⟩
    | update i now hphase hlock =>
      exact ⟨[], by rw [List.append_nil]; exact h.update hphase hlock⟩
    | release i result hphase hlock =>
      exact ⟨[], by rw [List.append_nil]; exact h.release hphase hlock⟩

/-- Whatever the order of the steps, a log explains what has been reached. -/
theorem Linearized.reaches [IsPreorder T ticks] (h : Linearized ticks service cells log s)
    (hreach : Reaches ticks service s t) :
    ∃ more, Linearized ticks service cells (log ++ more) t := by
  induction hreach with
  | refl => exact ⟨[], by rwa [List.append_nil]⟩
  | step _ hstep ih =>
    obtain ⟨more, hmid⟩ := ih
    obtain ⟨last, hlast⟩ := hmid.step hstep
    exact ⟨more ++ last, by rwa [← List.append_assoc]⟩

/-- As long as a job is not finished, some unfinished job can go on. -/
theorem Linearized.progress (h : Linearized ticks service cells log s)
    (hunfinished : ∀ result, s.phase j ≠ .finished result) :
    ∃ k t, (∀ result, s.phase k ≠ .finished result) ∧ JobStep service k s t := by
  have hinside : ∀ k, (s.phase k).Holds → ∃ t, JobStep service k s t := by
    intro k hholds
    obtain ⟨i, hlock⟩ := Option.isSome_iff_exists.mp (h.inside k hholds)
    cases hphase : s.phase k with
    | waiting => rw [hphase] at hholds; exact hholds.elim
    | locked => exact ⟨_, .read i hphase hlock⟩
    | timed now => exact ⟨_, .update i now hphase hlock⟩
    | updated result => exact ⟨_, .release i result hphase hlock⟩
    | finished result => rw [hphase] at hholds; exact hholds.elim
  by_cases hwaiting : s.phase j = .waiting
  · cases hlock : service.lock j with
    | none => exact ⟨j, _, hunfinished, .answer hwaiting hlock⟩
    | some i =>
      cases hholder : s.holder i with
      | none => exact ⟨j, _, hunfinished, .acquire i hwaiting hlock hholder⟩
      | some k =>
        have hholds := ((h.held i k).mp hholder).2
        obtain ⟨t, hstep⟩ := hinside k hholds
        refine ⟨k, t, fun result hfinished => ?_, hstep⟩
        rw [hfinished] at hholds
        exact hholds
  · have hholds : (s.phase j).Holds := by
      cases hphase : s.phase j with
      | waiting => exact hwaiting hphase
      | finished result => exact hunfinished result hphase
      | _ => trivial
    obtain ⟨t, hstep⟩ := hinside j hholds
    exact ⟨j, t, hunfinished, hstep⟩

end Linearized

/-- A job that finds its lock free can run to its end at once. -/
theorem reaches_alone [DecidableEq J] [DecidableEq I] {ticks : T → T → Prop}
    {service : Service J I S T R} {s : State J I S T R} {j : J} {i : I}
    (hphase : s.phase j = .waiting) (hlock : service.lock j = some i) (hfree : s.holder i = none) :
    ∃ t result, Reaches ticks service s t ∧ t.phase j = .finished result ∧ t.holder i = none ∧
      ∀ k, k ≠ j → t.phase k = s.phase k := by
  have locked : Reaches ticks service s ((s.setHolder i (some j)).move j .locked) :=
    .step .refl (.job j (.acquire i hphase hlock hfree))
  have timed := locked.step (.job j (.read i (move_phase_self _ _ _) hlock))
  have updated := timed.step (.job j (.update i _ (move_phase_self _ _ _) hlock))
  have released := updated.step (.job j (.release i _ (move_phase_self _ _ _) hlock))
  refine ⟨_, _, released, move_phase_self _ _ _, setHolder_self _ _ _, fun k hk => ?_⟩
  simp only [move_phase_other _ hk, setHolder_phase, setCell_phase]

end LockedSections
