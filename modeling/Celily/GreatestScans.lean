import Mathlib.Data.List.Perm.Basic

/-!
# Scanning for the first item of greatest rank

A scan that replaces what it has found by an item of strictly greater rank. It finds an
item of greatest rank, the one that comes first; what is read off that item depends on
the order of the list exactly when two items of greatest rank differ in it.
-/

namespace GreatestScans

universe u v
variable {α : Type u} {β : Type v} {rank : α → Nat} {items : List α} {a b : α}

def keep (rank : α → Nat) (best : Option α) (item : α) : Option α :=
  match best with
  | none => some item
  | some found => if rank item > rank found then some item else best

def scan (rank : α → Nat) (items : List α) : Option α := items.foldl (keep rank) none

/-- An item that no other one outranks. -/
def Greatest (rank : α → Nat) (items : List α) (a : α) : Prop :=
  a ∈ items ∧ ∀ b ∈ items, rank b ≤ rank a

theorem Greatest.perm {other : List α} (h : Greatest rank items a) (hperm : items.Perm other) :
    Greatest rank other a :=
  ⟨hperm.mem_iff.mp h.1, fun b hb => h.2 b (hperm.mem_iff.mpr hb)⟩

theorem foldl_keep (rank : α → Nat) (items : List α) (a : α) :
    ∃ b, items.foldl (keep rank) (some a) = some b ∧ Greatest rank (a :: items) b := by
  induction items generalizing a with
  | nil =>
    refine ⟨a, rfl, List.mem_cons_self, fun b hb => ?_⟩
    exact Nat.le_of_eq (congrArg rank (List.mem_singleton.mp hb))
  | cons item items ih =>
    rw [List.foldl_cons, keep]
    split
    · rename_i hmore
      obtain ⟨b, hfold, hmem, hmax⟩ := ih item
      have hitem := hmax item List.mem_cons_self
      refine ⟨b, hfold, List.mem_cons_of_mem a hmem, fun c hc => ?_⟩
      rcases List.mem_cons.mp hc with rfl | hc
      · omega
      · exact hmax c hc
    · rename_i hless
      obtain ⟨b, hfold, hmem, hmax⟩ := ih a
      have ha := hmax a List.mem_cons_self
      refine ⟨b, hfold, ?_, fun c hc => ?_⟩
      · rcases List.mem_cons.mp hmem with rfl | hmem
        · exact List.mem_cons_self
        · exact List.mem_cons_of_mem a (List.mem_cons_of_mem item hmem)
      · rcases List.mem_cons.mp hc with rfl | hc
        · exact ha
        rcases List.mem_cons.mp hc with rfl | hc
        · omega
        · exact hmax c (List.mem_cons_of_mem a hc)

theorem scan_eq_none_iff : scan rank items = none ↔ items = [] := by
  cases items with
  | nil => exact ⟨fun _ => rfl, fun _ => rfl⟩
  | cons a items =>
    obtain ⟨b, hfold, _⟩ := foldl_keep rank items a
    constructor
    · intro hnone
      cases hfold.symm.trans hnone
    · intro hnil
      cases hnil

theorem scan_greatest (hscan : scan rank items = some a) : Greatest rank items a := by
  cases items with
  | nil => cases hscan
  | cons first items =>
    obtain ⟨b, hfold, hgreatest⟩ := foldl_keep rank items first
    obtain rfl := Option.some.inj (hfold.symm.trans hscan)
    exact hgreatest

/-- Nothing replaces an item of greatest rank. -/
theorem scan_cons_greatest (hmax : ∀ b ∈ items, rank b ≤ rank a) :
    scan rank (a :: items) = some a := by
  change items.foldl (keep rank) (some a) = some a
  induction items with
  | nil => rfl
  | cons item items ih =>
    have hitem := hmax item List.mem_cons_self
    rw [List.foldl_cons, keep, if_neg (by omega)]
    exact ih fun b hb => hmax b (List.mem_cons_of_mem item hb)

/-- Two orders agree on what all items of greatest rank have in common. -/
theorem scan_map_perm {f : α → β} {first second : List α} (hperm : first.Perm second)
    (hsame : ∀ a b, Greatest rank first a → Greatest rank first b → f a = f b) :
    (scan rank first).map f = (scan rank second).map f := by
  cases hfirst : scan rank first with
  | none =>
    rw [scan_eq_none_iff] at hfirst
    subst hfirst
    rw [scan_eq_none_iff.mpr hperm.nil_eq.symm]
  | some a =>
    cases hsecond : scan rank second with
    | none =>
      rw [scan_eq_none_iff] at hsecond
      subst hsecond
      rw [scan_eq_none_iff.mpr hperm.eq_nil] at hfirst
      cases hfirst
    | some b =>
      have hb := (scan_greatest hsecond).perm hperm.symm
      exact congrArg some (hsame a b (scan_greatest hfirst) hb)

end GreatestScans
