import Celily.PathPrefixes

/-!
# Path prefixes as initial lists of segments

The string test of `path_has_prefix` against the relation it stands for: the segments
of the prefix are the first segments of the path. A prefix that ends in `/` covers only
what is below it.
-/

namespace SegmentPrefixes

open RustText SegmentedLists PathPrefixes

def segments (path : Text) : List Text := path.splitOn '/'

theorem pathHasPrefix_iff {path pre : Text} :
    pathHasPrefix path pre = true ↔ ∃ rest, path = pre ++ rest ∧
      (rest = [] ∨ (∃ below, rest = '/' :: below) ∨ pre.getLast? = some '/') := by
  refine ⟨pathHasPrefix_split, ?_⟩
  rintro ⟨rest, rfl, hrest⟩
  have hdrop : (pre ++ rest).dropPrefix? pre = some rest :=
    List.dropPrefix?_eq_some_iff.mpr ⟨pre, rfl, beq_self_eq_true pre⟩
  simp only [pathHasPrefix, hdrop, Bool.or_eq_true, List.isEmpty_iff, beq_iff_eq]
  rcases hrest with rfl | ⟨below, rfl⟩ | hlast
  · exact Or.inl (Or.inl rfl)
  · exact Or.inl (Or.inr rfl)
  · exact Or.inr hlast

/-- A prefix with a final `/`, less that `/`. -/
theorem segments_slash (q : Text) : segments (q ++ ['/']) = segments q ++ [[]] := by
  rw [segments, List.splitOn_append_cons_self, List.splitOn_nil]
  rfl

theorem pathHasPrefix_iff_of_no_slash {path pre : Text} (hlast : pre.getLast? ≠ some '/') :
    pathHasPrefix path pre = true ↔ segments pre <+: segments path := by
  rw [pathHasPrefix_iff, segments, segments, splitOn_initial_iff]
  constructor
  · rintro ⟨rest, rfl, rfl | ⟨below, rfl⟩ | hslash⟩
    · exact Or.inl (List.append_nil pre)
    · exact Or.inr ⟨below, rfl⟩
    · exact absurd hslash hlast
  · rintro (rfl | ⟨below, rfl⟩)
    · exact ⟨[], (List.append_nil path).symm, Or.inl rfl⟩
    · exact ⟨'/' :: below, rfl, Or.inr (Or.inl ⟨below, rfl⟩)⟩

theorem pathHasPrefix_slash_iff {path q : Text} :
    pathHasPrefix path (q ++ ['/']) = true ↔
      segments q <+: segments path ∧ segments q ≠ segments path := by
  rw [pathHasPrefix_iff, segments, segments, splitOn_initial_iff]
  constructor
  · rintro ⟨rest, rfl, _⟩
    rw [List.append_assoc, List.singleton_append]
    refine ⟨Or.inr ⟨rest, rfl⟩, fun hsame => ?_⟩
    -- one more separator is at least one more segment
    have hlength := congrArg List.length hsame
    have hpos := List.length_pos_of_ne_nil (List.splitOn_ne_nil '/' rest)
    rw [List.splitOn_append_cons_self, List.length_append] at hlength
    omega
  · rintro ⟨rfl | ⟨rest, rfl⟩, hne⟩
    · exact absurd rfl hne
    · exact ⟨rest, by simp, Or.inr (Or.inr List.getLast?_concat)⟩

theorem pathHasPrefix_trans {path q p : Text} (hpath : pathHasPrefix path q = true)
    (hq : pathHasPrefix q p = true) : pathHasPrefix path p = true := by
  rw [pathHasPrefix_iff] at hpath hq ⊢
  obtain ⟨middle, rfl, hmiddle⟩ := hq
  obtain ⟨rest, rfl, hrest⟩ := hpath
  refine ⟨middle ++ rest, List.append_assoc _ _ _, ?_⟩
  rcases hmiddle with rfl | ⟨below, rfl⟩ | hlast
  · rw [List.append_nil] at hrest
    exact hrest
  · exact Or.inr (Or.inl ⟨below ++ rest, rfl⟩)
  · exact Or.inr (Or.inr hlast)

/-- The string test is the segment relation, strict when the prefix ends in `/`, and
so it is transitive. -/
theorem pathHasPrefix_segments (path pre : Text) :
    (pre.getLast? ≠ some '/' →
      (pathHasPrefix path pre = true ↔ segments pre <+: segments path)) ∧
    (pre.getLast? = some '/' →
      segments pre = (segments pre).dropLast ++ [[]] ∧
      (pathHasPrefix path pre = true ↔ (segments pre).dropLast <+: segments path ∧
        (segments pre).dropLast ≠ segments path)) ∧
    ∀ longer, pathHasPrefix longer pre = true → pathHasPrefix path longer = true →
      pathHasPrefix path pre = true := by
  refine ⟨pathHasPrefix_iff_of_no_slash, fun hlast => ?_, ?_⟩
  · obtain ⟨q, rfl⟩ := List.getLast?_eq_some_iff.mp hlast
    rw [segments_slash, List.dropLast_concat]
    exact ⟨rfl, pathHasPrefix_slash_iff⟩
  · intro longer hlonger hpath
    exact pathHasPrefix_trans hpath hlonger

theorem pathHasPrefix_segments_v2 :
    (pathHasPrefix "/v2/x".toList "/v2".toList = true ↔
      segments "/v2".toList <+: segments "/v2/x".toList) ∧
    (pathHasPrefix "/v2".toList "/v2/".toList = true ↔
      (segments "/v2/".toList).dropLast <+: segments "/v2".toList ∧
        (segments "/v2/".toList).dropLast ≠ segments "/v2".toList) ∧
    pathHasPrefix "/v2/x/y".toList "/v2".toList = true :=
  ⟨(pathHasPrefix_segments _ _).1 (by decide), ((pathHasPrefix_segments _ _).2.1 (by decide)).2,
    (pathHasPrefix_segments _ _).2.2 "/v2/x".toList (by decide) (by decide)⟩

end SegmentPrefixes
