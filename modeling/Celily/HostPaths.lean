import Celily.RustText
import Celily.SegmentedLists
import Mathlib.Data.List.Induction

/-!
# Paths as `std::path` reads them

A path is its bytes. `components` is what comparison, `starts_with` and `parent`
work on: repeated and trailing separators and `.` segments are not components,
except a leading `.` of a relative path. Nothing here looks at a file system.
-/

namespace HostPaths

open RustText SegmentedLists

inductive Component where
  | root
  | cur
  | up
  | name (bytes : Bytes)
  deriving DecidableEq, Ord

/-- 47 is `/`. -/
def isAbsolute (path : Bytes) : Bool := path.head? == some 47

/-- The component of one piece between separators; 46 is `.`. -/
def pieceComponent (piece : Bytes) : Option Component :=
  if piece = [] ∨ piece = [46] then none
  else if piece = [46, 46] then some .up
  else some (.name piece)

def components (path : Bytes) : List Component :=
  let pieces := path.splitOn 47
  let start := if isAbsolute path then [.root] else if pieces.head? = some [46] then [.cur] else []
  start ++ pieces.filterMap pieceComponent

/-- `Path::join`: an absolute path replaces the base. -/
def join (base path : Bytes) : Bytes :=
  if isAbsolute path then path
  else if base = [] ∨ base.getLast? = some 47 then base ++ path
  else base ++ 47 :: path

/-- `Path::starts_with`, on components. -/
def startsWith (path base : List Component) : Bool := base.isPrefixOf path

/-- `Path::parent`, on components. -/
def parent (path : List Component) : Option (List Component) :=
  match path.getLast? with
  | none | some .root => none
  | some _ => some path.dropLast

/-- A path with these components, without redundant separators. -/
def ofComponents : List Component → Bytes
  | .root :: rest => 47 :: ofComponents rest
  | [] => []
  | [.cur] => [46]
  | [.up] => [46, 46]
  | [.name bytes] => bytes
  | .cur :: rest => 46 :: 47 :: ofComponents rest
  | .up :: rest => 46 :: 46 :: 47 :: ofComponents rest
  | .name bytes :: rest => bytes ++ 47 :: ofComponents rest

/-- A leading `~`, alone or before a separator, is the home directory. -/
def expandTilde (path home : Bytes) : Bytes :=
  let text := fromUtf8Lossy path
  if text = ['~'] then home
  else match stripPrefix "~/".toList text with
    | some rest => join home (utf8 rest)
    | none => path

def expandHostTilde (path home : Bytes) : Bytes := expandTilde path home

def expandContainerTilde (path containerHome : Bytes) : Bytes := expandTilde path containerHome

example : components (utf8 "/home//dev/./a/".toList) =
    [.root, .name (utf8 "home".toList), .name (utf8 "dev".toList), .name (utf8 "a".toList)] := by
  decide
example : join (utf8 "/home/dev".toList) (utf8 "/etc".toList) = utf8 "/etc".toList := by decide

theorem parent_eq_some {path up : List Component} (hup : parent path = some up) :
    path ≠ [] ∧ up = path.dropLast := by
  have hne : path ≠ [] := by
    rintro rfl
    cases hup
  refine ⟨hne, ?_⟩
  rw [parent] at hup
  split at hup
  · cases hup
  · cases hup
  · exact (Option.some.inj hup).symm

theorem parent_length {path up : List Component} (h : parent path = some up) :
    up.length < path.length := by
  obtain ⟨hne, rfl⟩ := parent_eq_some h
  have hpos := List.length_pos_of_ne_nil hne
  rw [List.length_dropLast]
  omega

/-! ## Joining one name -/

theorem slash_notMem_utf8 {s : Text} (hs : '/' ∉ s) : (47 : UInt8) ∉ utf8 s :=
  notMem_utf8 (c := '/') (by decide) hs

/-- The pieces behind a separator are the components behind what stands before it. -/
theorem components_append_pieces (base rest : Bytes) :
    components (base ++ 47 :: rest) =
      components (base ++ [47]) ++ (rest.splitOn 47).filterMap pieceComponent := by
  have habs : isAbsolute (base ++ 47 :: rest) = isAbsolute (base ++ [47]) := by
    cases base <;> rfl
  have hhead : ∀ pieces : List Bytes,
      (base.splitOn 47 ++ pieces).head? = (base.splitOn 47).head? := by
    intro pieces
    cases hbase : base.splitOn (47 : UInt8) with
    | nil => exact absurd hbase (List.splitOn_ne_nil 47 base)
    | cons piece pieces => rfl
  have hempty : [[]].filterMap pieceComponent = [] := rfl
  simp only [components, habs, List.splitOn_append_cons_self, List.splitOn_nil, hhead,
    List.filterMap_append, List.append_assoc]
  rw [hempty, List.nil_append]

/-- What stands behind the last separator is the last component. -/
theorem components_append_slash (base : Bytes) {name : Bytes} (hslash : (47 : UInt8) ∉ name) :
    components (base ++ 47 :: name) =
      components (base ++ [47]) ++ (pieceComponent name).toList := by
  rw [components_append_pieces, List.splitOn_eq_singleton hslash]
  cases hpiece : pieceComponent name with
  | none => rw [List.filterMap_cons_none hpiece]; rfl
  | some component => rw [List.filterMap_cons_some hpiece]; rfl

theorem components_slash {base : Bytes} (hne : base ≠ []) :
    components (base ++ [47]) = components base := by
  have habs : isAbsolute (base ++ [47]) = isAbsolute base := by
    cases base with
    | nil => exact absurd rfl hne
    | cons byte rest => rfl
  have hhead : (base.splitOn 47 ++ [[]]).head? = (base.splitOn (47 : UInt8)).head? := by
    cases hbase : base.splitOn (47 : UInt8) with
    | nil => exact absurd hbase (List.splitOn_ne_nil 47 base)
    | cons piece rest => rfl
  simp only [components, habs, List.splitOn_append_cons_self, List.splitOn_nil, hhead,
    List.filterMap_append]
  simp [pieceComponent]

/-- A relative path, joined to an absolute one, goes on behind its components. -/
theorem components_join_relative {dir path : Bytes} (hdir : isAbsolute dir = true)
    (hrelative : isAbsolute path = false) :
    components (join dir path) =
      components dir ++ (path.splitOn 47).filterMap pieceComponent := by
  have hne : dir ≠ [] := by
    rintro rfl
    cases hdir
  rw [join, if_neg (by rw [hrelative]; exact Bool.false_ne_true)]
  by_cases hlast : dir.getLast? = some 47
  · obtain ⟨front, rfl⟩ := List.getLast?_eq_some_iff.mp hlast
    rw [if_pos (Or.inr hlast), List.append_assoc, List.singleton_append]
    exact components_append_pieces front path
  · rw [if_neg (not_or.mpr ⟨hne, hlast⟩), components_append_pieces, components_slash hne]

/-- A single name, joined to a directory, is one more component. -/
theorem components_join (dir : Bytes) {name : Bytes} (hslash : (47 : UInt8) ∉ name)
    {last : Component} (hpiece : pieceComponent name = some last) :
    components (join dir name) = components dir ++ [last] := by
  have habs : isAbsolute name = false := by
    rw [isAbsolute, beq_eq_false_iff_ne]
    exact fun hhead => hslash (List.mem_of_head? hhead)
  rw [join, if_neg (by rw [habs]; exact Bool.false_ne_true)]
  split
  · rename_i hjoin
    rcases hjoin with rfl | hlast
    · have hdot : name ≠ [46] := by
        rintro rfl
        cases hpiece
      have hempty : components [] = [] := by decide
      rw [hempty, List.nil_append, List.nil_append, components, List.splitOn_eq_singleton hslash]
      simp [habs, hpiece, hdot]
    · obtain ⟨front, rfl⟩ := List.getLast?_eq_some_iff.mp hlast
      rw [List.append_assoc, List.singleton_append, components_append_slash front hslash, hpiece]
      rfl
  · rename_i hjoin
    rw [not_or] at hjoin
    rw [components_append_slash dir hslash, components_slash hjoin.1, hpiece]
    rfl

/-! ## Components and their bytes -/

/-- A component behind the first one is a piece between separators. -/
theorem mem_components {path : Bytes} {component : Component} :
    (component ∈ components path → component = .root ∨ component = .cur ∨
      ∃ piece : Bytes, 47 ∉ piece ∧ pieceComponent piece = some component) ∧
    (component ∈ (components path).tail →
      ∃ piece : Bytes, 47 ∉ piece ∧ pieceComponent piece = some component) := by
  have hpieces : component ∈ (path.splitOn 47).filterMap pieceComponent →
      ∃ piece : Bytes, 47 ∉ piece ∧ pieceComponent piece = some component := by
    intro hmem
    obtain ⟨piece, hpiece, hcomponent⟩ := List.mem_filterMap.mp hmem
    refine ⟨piece, fun hslash => ?_, hcomponent⟩
    rw [List.splitOn_eq_splitOnP] at hpiece
    obtain ⟨_, _, _, _, _, hfree⟩ := (mem_splitOnP_iff _ _ _).mp hpiece
    have hself := hfree 47 hslash
    cases hself
  rw [components]
  split
  · refine ⟨fun hmem => ?_, hpieces⟩
    rcases List.mem_cons.mp hmem with hroot | hmem
    · exact Or.inl hroot
    · exact Or.inr (Or.inr (hpieces hmem))
  split
  · refine ⟨fun hmem => ?_, hpieces⟩
    rcases List.mem_cons.mp hmem with hcur | hmem
    · exact Or.inr (Or.inl hcur)
    · exact Or.inr (Or.inr (hpieces hmem))
  · refine ⟨fun hmem => Or.inr (Or.inr (hpieces hmem)), fun hmem => ?_⟩
    exact hpieces (List.mem_of_mem_tail hmem)

theorem root_notMem_tail (path : Bytes) : Component.root ∉ (components path).tail := by
  intro hmem
  obtain ⟨piece, _, hpiece⟩ := mem_components.2 hmem
  rw [pieceComponent] at hpiece
  split at hpiece
  · cases hpiece
  split at hpiece
  · cases hpiece
  · cases hpiece

theorem ofComponents_piece {piece : Bytes} {component : Component}
    (hpiece : pieceComponent piece = some component) : ofComponents [component] = piece := by
  rw [pieceComponent] at hpiece
  split at hpiece
  · cases hpiece
  split at hpiece
  · rename_i hup
    obtain rfl := Option.some.inj hpiece
    exact hup.symm
  · obtain rfl := Option.some.inj hpiece
    rfl

theorem ofComponents_append {dir : List Component} (hne : dir ≠ []) (hroot : dir ≠ [.root])
    (htail : Component.root ∉ dir.tail) (last : Component) :
    ofComponents (dir ++ [last]) = ofComponents dir ++ 47 :: ofComponents [last] := by
  induction dir with
  | nil => exact absurd rfl hne
  | cons first dir ih =>
    cases dir with
    | nil =>
      cases first with
      | root => exact absurd rfl hroot
      | cur => rfl
      | up => rfl
      | name bytes => rfl
    | cons second dir =>
      have hsecond : second :: dir ≠ [.root] := by
        rintro heq
        exact htail (heq ▸ List.mem_cons_self)
      have hrest := ih (List.cons_ne_nil _ _) hsecond fun hmem => htail (List.mem_of_mem_tail hmem)
      rw [List.cons_append] at hrest
      cases first with
      | root => exact congrArg (47 :: ·) hrest
      | cur => exact congrArg (46 :: 47 :: ·) hrest
      | up => exact congrArg (46 :: 46 :: 47 :: ·) hrest
      | name bytes =>
        have hfirst : ∀ rest : List Component, ofComponents (.name bytes :: second :: rest) =
            bytes ++ 47 :: ofComponents (second :: rest) := fun _ => rfl
        rw [List.cons_append, List.cons_append, hfirst, hfirst, hrest, List.append_assoc]
        rfl

theorem components_piece {piece : Bytes} {component : Component} (hslash : 47 ∉ piece)
    (hpiece : pieceComponent piece = some component) : components piece = [component] := by
  have habs : isAbsolute piece = false := by
    rw [isAbsolute, beq_eq_false_iff_ne]
    exact fun hhead => hslash (List.mem_of_head? hhead)
  have hjoin : join [] piece = piece := by
    rw [join, habs, if_neg Bool.false_ne_true, if_pos (Or.inl rfl), List.nil_append]
  have hcomponents := components_join [] hslash hpiece
  rw [hjoin] at hcomponents
  exact hcomponents

/-- An ancestor of a path, written out, is read back. -/
theorem components_ofComponents {path : Bytes} {dir : List Component}
    (hstart : dir <+: components path) : components (ofComponents dir) = dir := by
  induction dir using List.reverseRecOn with
  | nil => decide
  | append_singleton dir last ih =>
    have hdir : dir <+: components path := (List.prefix_append dir [last]).trans hstart
    have ih := ih hdir
    obtain ⟨rest, hrest⟩ := hstart
    by_cases hnil : dir = []
    · subst hnil
      have hmem : last ∈ components path := by
        rw [← hrest]
        exact List.mem_cons_self
      rcases mem_components.1 hmem with rfl | rfl | ⟨piece, hslash, hpiece⟩
      · decide
      · decide
      · rw [List.nil_append, ofComponents_piece hpiece]
        exact components_piece hslash hpiece
    · have hmem : last ∈ (components path).tail := by
        rw [← hrest, List.append_assoc, List.tail_append_of_ne_nil hnil]
        exact List.mem_append_right _ List.mem_cons_self
      obtain ⟨piece, hslash, hpiece⟩ := mem_components.2 hmem
      by_cases hroot : dir = [.root]
      · subst hroot
        have hbytes : ofComponents ([.root] ++ [last]) = [] ++ 47 :: piece := by
          rw [← ofComponents_piece hpiece]
          rfl
        have hslashOnly : components ([] ++ [47]) = [.root] := by decide
        rw [hbytes, components_append_slash [] hslash, hpiece, hslashOnly]
        rfl
      · have htail : Component.root ∉ dir.tail := by
          intro hmem
          refine root_notMem_tail path ?_
          rw [← hrest, List.append_assoc, List.tail_append_of_ne_nil hnil]
          exact List.mem_append_left _ hmem
        have hbytes : ofComponents dir ≠ [] := by
          intro hempty
          rw [hempty] at ih
          exact hnil ih.symm
        rw [ofComponents_append hnil hroot htail, ofComponents_piece hpiece,
          components_append_slash _ hslash, components_slash hbytes, hpiece, ih]
        rfl

end HostPaths
