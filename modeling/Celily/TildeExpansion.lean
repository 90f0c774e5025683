import Celily.HostPaths

/-!
# What a leading tilde expands to

`~/rest` is `home` joined with `rest`. Joining replaces the base when `rest` is itself
absolute, so a second `/` behind the tilde leaves the home directory.
-/

namespace TildeExpansion

open RustText HostPaths

/-- The components that a path has below what it is joined to. -/
def innerComponents (path : Bytes) : List Component :=
  (components path).filter fun component => component ≠ .root ∧ component ≠ .cur

/-- What the expansion of `path` is to be. -/
structure Expands (home path result : Bytes) : Prop where
  alone : fromUtf8Lossy path = ['~'] → result = home
  inside : ∀ rest, fromUtf8Lossy path = '~' :: '/' :: rest →
    components result = components home ++ innerComponents (utf8 rest) ∧
      components home <+: components result
  other : fromUtf8Lossy path ≠ ['~'] → (∀ rest, fromUtf8Lossy path ≠ '~' :: '/' :: rest) →
    result = path

theorem pieceComponent_inner {piece : Bytes} {component : Component}
    (hpiece : pieceComponent piece = some component) :
    component ≠ .root ∧ component ≠ .cur := by
  rw [pieceComponent] at hpiece
  split at hpiece
  · cases hpiece
  split at hpiece
  · obtain rfl := Option.some.inj hpiece
    exact ⟨Component.noConfusion, Component.noConfusion⟩
  · obtain rfl := Option.some.inj hpiece
    exact ⟨Component.noConfusion, Component.noConfusion⟩

theorem innerComponents_eq (path : Bytes) :
    innerComponents path = (path.splitOn 47).filterMap pieceComponent := by
  have hpieces : ((path.splitOn 47).filterMap pieceComponent).filter
      (fun component => component ≠ .root ∧ component ≠ .cur) =
        (path.splitOn 47).filterMap pieceComponent := by
    apply List.filter_eq_self.mpr
    intro component hmem
    obtain ⟨piece, _, hpiece⟩ := List.mem_filterMap.mp hmem
    exact decide_eq_true (pieceComponent_inner hpiece)
  rw [innerComponents, components]
  split
  · rw [List.filter_append, hpieces]
    rfl
  split
  · rw [List.filter_append, hpieces]
    rfl
  · rw [List.nil_append, hpieces]

theorem components_absolute {path : Bytes} (habs : isAbsolute path = true) :
    components path = .root :: innerComponents path := by
  rw [innerComponents_eq, components, if_pos habs]
  rfl

theorem expandTilde_alone {path home : Bytes} (htext : fromUtf8Lossy path = ['~']) :
    expandTilde path home = home := by
  rw [expandTilde, htext]
  rfl

theorem expandTilde_slash {path home : Bytes} {rest : Text}
    (htext : fromUtf8Lossy path = '~' :: '/' :: rest) :
    expandTilde path home = join home (utf8 rest) := by
  rw [expandTilde, htext]
  rfl

theorem expandTilde_other {path home : Bytes} (halone : fromUtf8Lossy path ≠ ['~'])
    (hslash : ∀ rest, fromUtf8Lossy path ≠ '~' :: '/' :: rest) : expandTilde path home = path := by
  have hnone : stripPrefix "~/".toList (fromUtf8Lossy path) = none := by
    rw [stripPrefix, if_neg]
    intro hstart
    obtain ⟨rest, hrest⟩ := List.isPrefixOf_iff_prefix.mp hstart
    exact hslash rest hrest.symm
  simp only [expandTilde, if_neg halone, hnone]

theorem isAbsolute_utf8 (rest : Text) :
    isAbsolute (utf8 rest) = true ↔ ∃ below, rest = '/' :: below := by
  constructor
  · intro habs
    cases rest with
    | nil => cases habs
    | cons c rest =>
      obtain ⟨first, more, hbytes, _⟩ := decodeCharacter_utf8EncodeChar c
      have hutf8 : utf8 (c :: rest) = first :: (more ++ utf8 rest) := by
        rw [utf8, List.flatMap_cons, hbytes, List.cons_append]
        rfl
      rw [hutf8] at habs
      obtain rfl : first = 47 := Option.some.inj (eq_of_beq habs)
      have hmem : (47 : UInt8) ∈ String.utf8EncodeChar c := by
        rw [hbytes]
        exact List.mem_cons_self
      have hval := toNat_of_mem_utf8EncodeChar (by decide) hmem
      obtain rfl : '/' = c := Char.toNat_inj.mp hval
      exact ⟨rest, rfl⟩
  · rintro ⟨below, rfl⟩
    rfl

/-- The expansion is home and the components of the rest, unless the rest starts with
a separator and home is not the root. -/
theorem expandTilde_expands_iff {home : Bytes} (path : Bytes) (habs : isAbsolute home = true) :
    Expands home path (expandTilde path home) ↔
      ∀ rest, fromUtf8Lossy path = '~' :: '/' :: '/' :: rest → components home = [.root] := by
  constructor
  · intro hexpands rest htext
    have hinside := (hexpands.inside ('/' :: rest) htext).1
    rw [expandTilde_slash htext, join, if_pos ((isAbsolute_utf8 _).mpr ⟨rest, rfl⟩),
      components_absolute ((isAbsolute_utf8 _).mpr ⟨rest, rfl⟩)] at hinside
    exact (List.append_cancel_right hinside).symm
  · intro hroot
    refine ⟨expandTilde_alone, fun rest htext => ?_, expandTilde_other⟩
    have hcomponents : components (expandTilde path home) =
        components home ++ innerComponents (utf8 rest) := by
      rw [expandTilde_slash htext]
      by_cases hrest : isAbsolute (utf8 rest) = true
      · obtain ⟨below, rfl⟩ := (isAbsolute_utf8 rest).mp hrest
        rw [join, if_pos hrest, components_absolute hrest, hroot below htext]
        rfl
      · rw [components_join_relative habs (Bool.eq_false_iff.mpr hrest), innerComponents_eq]
    exact ⟨hcomponents, hcomponents ▸ List.prefix_append _ _⟩

/-- Both expansions stay under the home directory exactly when the text does not go on
with a second separator, or home is the root anyway. -/
theorem expandTilde_under_home {home : Bytes} (path : Bytes) (habs : isAbsolute home = true) :
    (Expands home path (expandHostTilde path home) ↔
      ∀ rest, fromUtf8Lossy path = '~' :: '/' :: '/' :: rest → components home = [.root]) ∧
    (Expands home path (expandContainerTilde path home) ↔
      ∀ rest, fromUtf8Lossy path = '~' :: '/' :: '/' :: rest → components home = [.root]) :=
  ⟨expandTilde_expands_iff path habs, expandTilde_expands_iff path habs⟩

/-- `~/./a//b/` under a home directory. -/
theorem expandTilde_under_home_dev :
    Expands (utf8 "/home/dev".toList) (utf8 "~/./a//b/".toList)
      (expandHostTilde (utf8 "~/./a//b/".toList) (utf8 "/home/dev".toList)) := by
  refine (expandTilde_under_home _ (by decide)).1.mpr ?_
  intro rest htext
  rw [fromUtf8Lossy_utf8] at htext
  cases htext

/-- `~//etc` is `/etc`. -/
theorem expandTilde_leaves_home :
    expandHostTilde (utf8 "~//etc".toList) (utf8 "/home/dev".toList) = utf8 "/etc".toList ∧
    ¬ (Expands (utf8 "/home/dev".toList) (utf8 "~//etc".toList)
        (expandHostTilde (utf8 "~//etc".toList) (utf8 "/home/dev".toList)) ∧
      Expands (utf8 "/home/dev".toList) (utf8 "~//etc".toList)
        (expandContainerTilde (utf8 "~//etc".toList) (utf8 "/home/dev".toList))) := by
  refine ⟨by decide, fun hboth => ?_⟩
  have hinside := (hboth.1.inside "/etc".toList (fromUtf8Lossy_utf8 _)).2
  revert hinside
  decide

end TildeExpansion
