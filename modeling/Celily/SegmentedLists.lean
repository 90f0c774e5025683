import Mathlib.Data.List.Infix
import Mathlib.Data.List.TakeWhile

/-!
# Lists cut at separators

`List.splitOnP` cuts a list at every element satisfying a predicate. A piece of
the cut is an infix of the list without separators, bounded on both sides by a
separator or an end of the list (`mem_splitOnP_iff`). `splitOnce` cuts at the
first separator only, `trimBoth` drops what satisfies a predicate at both ends.
-/

namespace SegmentedLists

universe u
variable {α : Type u}

/-- Nothing, or a list whose last element is a separator. -/
def EndsIn (p : α → Bool) (a : List α) : Prop := a = [] ∨ ∃ a' c, a = a' ++ [c] ∧ p c = true

/-- Nothing, or a list whose first element is a separator. -/
def StartsIn (p : α → Bool) (b : List α) : Prop := b = [] ∨ ∃ c b', b = c :: b' ∧ p c = true

theorem endsIn_nil (p : α → Bool) : EndsIn p [] := Or.inl rfl

theorem startsIn_nil (p : α → Bool) : StartsIn p [] := Or.inl rfl

theorem EndsIn.append {p : α → Bool} {a b : List α} (ha : EndsIn p a) (hb : EndsIn p b) :
    EndsIn p (a ++ b) := by
  rcases hb with rfl | ⟨b', c, rfl, hc⟩
  · simpa using ha
  · exact Or.inr ⟨a ++ b', c, by simp, hc⟩

theorem StartsIn.append {p : α → Bool} {a b : List α} (ha : StartsIn p a) (hb : StartsIn p b) :
    StartsIn p (a ++ b) := by
  rcases ha with rfl | ⟨c, a', rfl, hc⟩
  · simpa using hb
  · exact Or.inr ⟨c, a' ++ b, by simp, hc⟩

theorem EndsIn.mono {p q : α → Bool} (hpq : ∀ c, p c = true → q c = true) {a : List α}
    (h : EndsIn p a) : EndsIn q a := by
  rcases h with rfl | ⟨a', c, rfl, hc⟩
  · exact endsIn_nil q
  · exact Or.inr ⟨a', c, rfl, hpq c hc⟩

theorem StartsIn.mono {p q : α → Bool} (hpq : ∀ c, p c = true → q c = true) {b : List α}
    (h : StartsIn p b) : StartsIn q b := by
  rcases h with rfl | ⟨c, b', rfl, hc⟩
  · exact startsIn_nil q
  · exact Or.inr ⟨c, b', rfl, hpq c hc⟩

/-- The first piece runs up to the first separator. -/
theorem head_splitOnP (p : α → Bool) (l : List α) :
    (l.splitOnP p).head? = some (l.takeWhile (fun c => !p c)) := by
  induction l with
  | nil => simp
  | cons x xs ih =>
    rw [List.splitOnP_cons_eq_if_modifyHead]
    by_cases hx : p x = true
    · simp [hx]
    · have hx' : p x = false := by simpa using hx
      simp [hx', ih]

theorem takeWhile_split (p : α → Bool) (l : List α) :
    l.takeWhile (fun c => !p c) = l ∨
      ∃ c r, l = l.takeWhile (fun c => !p c) ++ c :: r ∧ p c = true := by
  induction l with
  | nil => exact Or.inl rfl
  | cons x xs ih =>
    by_cases hx : p x = true
    · exact Or.inr ⟨x, xs, by simp [hx], hx⟩
    · have hx' : p x = false := by simpa using hx
      rcases ih with he | ⟨c, r, he, hc⟩
      · exact Or.inl (by simpa [hx'] using he)
      · refine Or.inr ⟨c, r, ?_, hc⟩
        simpa [hx'] using he

theorem splitOnP_cut (p : α → Bool) {a b : List α} (ha : EndsIn p a) :
    (a ++ b).splitOnP p = (a.splitOnP p).dropLast ++ b.splitOnP p := by
  rcases ha with rfl | ⟨a', c, rfl, hc⟩
  · simp
  · have h1 : (a' ++ [c] ++ b).splitOnP p = a'.splitOnP p ++ b.splitOnP p := by
      simpa using List.splitOnP_append_cons a' b hc
    have h2 : (a' ++ [c]).splitOnP p = a'.splitOnP p ++ [[]] := by
      simpa using List.splitOnP_append_cons a' [] hc
    rw [h1, h2, List.dropLast_concat]

/-- What a piece of a cut is: a bounded, separator-free infix. -/
theorem mem_splitOnP_iff (p : α → Bool) (l s : List α) :
    s ∈ l.splitOnP p ↔
      ∃ a b, l = a ++ s ++ b ∧ EndsIn p a ∧ StartsIn p b ∧ ∀ c ∈ s, p c = false := by
  constructor
  · intro h
    induction hn : l.length using Nat.strongRecOn generalizing l with
    | ind n ih =>
      have free : ∀ c ∈ l.takeWhile (fun c => !p c), p c = false := by
        intro c hc
        simpa using List.mem_takeWhile_imp hc
      rcases takeWhile_split p l with he | ⟨c, r, he, hc⟩
      · rw [List.splitOnP_eq_singleton (by rw [← he]; exact free)] at h
        obtain rfl := List.mem_singleton.mp h
        exact ⟨[], [], by simp, endsIn_nil p, startsIn_nil p, by rw [← he]; exact free⟩
      · rw [he, List.splitOnP_append_cons_of_forall_mem free c hc] at h
        rcases List.mem_cons.mp h with rfl | hr
        · exact ⟨[], c :: r, by simpa using he, endsIn_nil p, Or.inr ⟨c, r, rfl, hc⟩, free⟩
        · have hlt : r.length < n := by
            rw [← hn, he, List.length_append, List.length_cons]
            omega
          obtain ⟨a, b, hr', ha, hb, hs⟩ := ih r.length hlt r hr rfl
          have hbound : EndsIn p (l.takeWhile (fun c => !p c) ++ [c]) :=
            Or.inr ⟨_, c, rfl, hc⟩
          refine ⟨l.takeWhile (fun c => !p c) ++ [c] ++ a, b, ?_, hbound.append ha, hb, hs⟩
          calc l = l.takeWhile (fun c => !p c) ++ c :: r := he
            _ = _ := by rw [hr']; simp
  · rintro ⟨a, b, rfl, ha, hb, hs⟩
    have hhead : s ∈ (s ++ b).splitOnP p := by
      rcases hb with rfl | ⟨c, b', rfl, hc⟩
      · simp [List.splitOnP_eq_singleton hs]
      · rw [List.splitOnP_append_cons_of_forall_mem hs c hc]
        exact List.mem_cons_self
    rw [List.append_assoc, splitOnP_cut p ha]
    exact List.mem_append_right _ hhead

/-- Every element that is no separator lies in a piece. -/
theorem exists_mem_splitOnP (p : α → Bool) {l : List α} {c : α} (hc : c ∈ l) (hp : p c = false) :
    ∃ s ∈ l.splitOnP p, c ∈ s := by
  induction l with
  | nil => cases hc
  | cons x xs ih =>
    rw [List.splitOnP_cons_eq_if_modifyHead]
    by_cases hx : p x = true
    · have hne : c ≠ x := by
        rintro rfl
        rw [hx] at hp
        cases hp
      obtain ⟨s, hs, hcs⟩ := ih ((List.mem_cons.mp hc).resolve_left hne)
      exact ⟨s, by simp [hx, hs], hcs⟩
    · rw [if_neg hx]
      obtain ⟨first, rest, hsplit⟩ := List.exists_cons_of_ne_nil (List.splitOnP_ne_nil p xs)
      rw [hsplit] at ih ⊢
      rw [List.modifyHead_cons]
      rcases List.mem_cons.mp hc with rfl | hc
      · exact ⟨c :: first, List.mem_cons_self, List.mem_cons_self⟩
      · obtain ⟨s, hs, hcs⟩ := ih hc
        rcases List.mem_cons.mp hs with rfl | hs
        · exact ⟨x :: s, List.mem_cons_self, List.mem_cons_of_mem x hcs⟩
        · exact ⟨s, List.mem_cons_of_mem _ hs, hcs⟩

theorem intercalate_append_cons {sep : α} {front : List (List α)} (hfront : front ≠ [])
    (piece : List α) (back : List (List α)) :
    [sep].intercalate (front ++ piece :: back) =
      [sep].intercalate front ++ sep :: [sep].intercalate (piece :: back) := by
  induction front with
  | nil => exact absurd rfl hfront
  | cons first front ih =>
    cases front with
    | nil =>
      rw [List.singleton_append, List.intercalate_cons_cons, List.intercalate_singleton,
        List.append_assoc, List.singleton_append]
    | cons second front =>
      have hrest := ih (List.cons_ne_nil second front)
      rw [List.cons_append] at hrest
      rw [List.cons_append, List.cons_append, List.intercalate_cons_cons, hrest,
        List.intercalate_cons_cons]
      simp

/-- The pieces of `a` are the first pieces of `l`: `l` is `a`, or goes on behind `a`
with a separator. -/
theorem splitOn_initial_iff [DecidableEq α] (sep : α) (a l : List α) :
    a.splitOn sep <+: l.splitOn sep ↔ l = a ∨ ∃ rest, l = a ++ sep :: rest := by
  constructor
  · rintro ⟨pieces, hpieces⟩
    have hl : [sep].intercalate (l.splitOn sep) = l := List.intercalate_splitOn sep
    have ha : [sep].intercalate (a.splitOn sep) = a := List.intercalate_splitOn sep
    rw [← hpieces] at hl
    cases pieces with
    | nil =>
      rw [List.append_nil, ha] at hl
      exact Or.inl hl.symm
    | cons piece pieces =>
      rw [intercalate_append_cons (List.splitOn_ne_nil sep a), ha] at hl
      exact Or.inr ⟨_, hl.symm⟩
  · rintro (rfl | ⟨rest, rfl⟩)
    · exact List.prefix_refl _
    · rw [List.splitOn_append_cons_self]
      exact List.prefix_append _ _

/-- `str::split_once`: what stands before and after the first separator. -/
def splitOnce [DecidableEq α] (sep : α) : List α → Option (List α × List α)
  | [] => none
  | c :: s => if c = sep then some ([], s) else
      (splitOnce sep s).map (fun r => (c :: r.1, r.2))

theorem splitOnce_append [DecidableEq α] {sep : α} {a : List α} (h : sep ∉ a) (b : List α) :
    splitOnce sep (a ++ sep :: b) = some (a, b) := by
  induction a with
  | nil => simp [splitOnce]
  | cons c a ih =>
    rw [List.mem_cons, not_or] at h
    simp [splitOnce, Ne.symm h.1, ih h.2]

theorem splitOnce_of_mem [DecidableEq α] {sep : α} {s : List α} (h : sep ∈ s) :
    splitOnce sep s = some (s.takeWhile (· ≠ sep), (s.dropWhile (· ≠ sep)).drop 1) := by
  induction s with
  | nil => cases h
  | cons c s ih =>
    by_cases heq : c = sep
    · simp [splitOnce, heq]
    · have hmem := (List.mem_cons.mp h).resolve_left (Ne.symm heq)
      simp [splitOnce, heq, ih hmem]

/-! ## Trimming -/

theorem head_dropWhile {p : α → Bool} {l : List α} {c : α}
    (hhead : (l.dropWhile p).head? = some c) : p c = false := by
  have hnot := List.head?_dropWhile_not p l
  rw [hhead] at hnot
  simpa using hnot

/-- What is left between the ends that satisfy `p`. -/
def trimBoth (p : α → Bool) (l : List α) : List α := ((l.dropWhile p).reverse.dropWhile p).reverse

/-- The ends of a list do not satisfy `p`. -/
def EndsFree (p : α → Bool) (l : List α) : Prop :=
  (∀ c, l.head? = some c → p c = false) ∧ ∀ c, l.getLast? = some c → p c = false

theorem trimBoth_start (p : α → Bool) (l : List α) : trimBoth p l <+: l.dropWhile p := by
  rw [trimBoth, ← List.reverse_suffix, List.reverse_reverse]
  exact List.dropWhile_suffix _

theorem trimBoth_inner (p : α → Bool) (l : List α) : trimBoth p l <:+: l :=
  (trimBoth_start p l).isInfix.trans (List.dropWhile_suffix p).isInfix

theorem endsFree_trimBoth (p : α → Bool) (l : List α) : EndsFree p (trimBoth p l) := by
  refine ⟨fun c hhead => ?_, fun c hlast => ?_⟩
  · obtain ⟨rest, hrest⟩ := trimBoth_start p l
    apply head_dropWhile (l := l)
    rw [← hrest, List.head?_append, hhead]
    rfl
  · rw [trimBoth, List.getLast?_reverse] at hlast
    exact head_dropWhile hlast

theorem dropWhile_eq_self {p : α → Bool} {l : List α}
    (hhead : ∀ c, l.head? = some c → p c = false) : l.dropWhile p = l := by
  cases l with
  | nil => rfl
  | cons c l => rw [List.dropWhile_cons, hhead c rfl]; rfl

theorem trimBoth_eq_self {p : α → Bool} {l : List α} (hends : EndsFree p l) :
    trimBoth p l = l := by
  have hlast : ∀ c, l.reverse.head? = some c → p c = false := by
    intro c hc
    rw [List.head?_reverse] at hc
    exact hends.2 c hc
  rw [trimBoth, dropWhile_eq_self hends.1, dropWhile_eq_self hlast, List.reverse_reverse]

end SegmentedLists
