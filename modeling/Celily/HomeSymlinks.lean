import Celily.HostFiles

/-!
# Symlinks under the home directory

`canonicalizeInHome` refuses a path that goes through a symlink in the home
directory. It looks at the path and its parents, each without following its last
name. Links that are met inside the target of another link it does not see, and
neither the last one of a path that ends with a separator, since looking at that
path follows it.
-/

namespace HomeSymlinks

open RustText HostPaths PathResolution HostFiles

/-- Whether the directory that holds the last name is home or below it. -/
def inHome (fs : Files) (home : Canonical) (ancestor : AbsolutePath) : Bool :=
  match ancestor.parent with
  | none => false
  | some parent =>
    match parent.canonicalize fs with
    | .ok directory => isUnderOrEq directory home
    | .error _ => false

def cannotResolve (path : Bytes) : Text := "cannot resolve ".toList ++ display path

def throughSymlink (path : Bytes) (link : AbsolutePath) : Text :=
  display path ++ " goes through the symlink ".toList ++ display link.bytes ++
    " (symlinks under $HOME are not followed)".toList

/-- The loop over the ancestors of a path. -/
def checkAncestors (fs : Files) (home : Canonical) (path : Bytes) (absolutePath : AbsolutePath) :
    Anyhow Unit :=
  match absolutePath.ancestors.find? fun ancestor =>
      ancestor.isSymlink fs && inHome fs home ancestor with
  | some link => bail (throughSymlink path link)
  | none => pure ()

/-- Canonicalize a path, refusing it if it goes through a symlink inside `home`. -/
def canonicalizeInHome (fs : Files) (cwd : Canonical) (path : Bytes) (home : Canonical) :
    Anyhow Canonical := do
  let absolutePath ← withContext (cannotResolve path) (absolute cwd path)
  checkAncestors fs home path absolutePath
  withContext (cannotResolve path) (ofIo (absolutePath.canonicalize fs))

/-! ## The links of a resolution -/

/-- The locations of all links that are followed while the path is resolved. -/
def linksFollowed (fs : Files) (path : AbsolutePath) : List Canonical :=
  match walk fs () maxLinks [] (path.parts.map ((), ·)) with
  | .ok arrival => arrival.followed.map Prod.snd
  | .error _ => []

/-- The parts of a path, each with whether a link that it names is looked at: not the
last one if a separator follows. -/
def lookedAt (path : AbsolutePath) : List (Bool × PathPart Bytes) :=
  path.components.dropLast.map (fun c => (true, componentPart c)) ++
    path.components.getLast?.toList.map (fun c => (!path.slash, componentPart c)) ++
    if path.slash then [(false, .cur)] else []

/-- The links that are followed and looked at (`true`), or followed and not seen. -/
def linksSeen (fs : Files) (path : AbsolutePath) (seen : Bool) : List Canonical :=
  match walk fs false maxLinks [] (lookedAt path) with
  | .ok arrival => (arrival.followed.filter (·.1 = seen)).map Prod.snd
  | .error _ => []

theorem lookedAt_parts (path : AbsolutePath) : (lookedAt path).map Prod.snd = path.parts := by
  obtain ⟨components, slash⟩ := path
  have hlast : components.dropLast ++ components.getLast?.toList = components := by
    cases components using List.reverseRecOn with
    | nil => rfl
    | append_singleton components last => simp
  cases slash with
  | true =>
    conv_rhs => rw [AbsolutePath.parts, ← hlast]
    simp [lookedAt, Function.comp_def]
  | false =>
    conv_rhs => rw [AbsolutePath.parts, ← hlast]
    simp [lookedAt, Function.comp_def]

/-- A resolution is one under any labels. -/
theorem resolveParts_labelled {fs : Files} {start : Canonical} {L : Type} (inner : L)
    {parts : List (L × PathPart Bytes)} {arrival : Arrival Bytes L}
    (hwalks : Walks fs inner maxLinks start parts arrival) :
    resolveParts fs start (parts.map Prod.snd) = .ok arrival.location := by
  obtain ⟨followed, hunit, _⟩ := hwalks.relabel ()
    ((parts.map Prod.snd).map ((), ·)) (by simp [Function.comp_def])
  exact resolveParts_ok_iff.mpr ⟨_, hunit, rfl⟩

theorem walks_lookedAt {fs : Files} {path : AbsolutePath} {loc : Canonical}
    (hok : path.canonicalize fs = .ok loc) :
    ∃ arrival, Walks fs false maxLinks [] (lookedAt path) arrival ∧ arrival.location = loc ∧
      ∀ link, link ∈ linksFollowed fs path ↔ link ∈ arrival.followed.map Prod.snd := by
  obtain ⟨arrival, hwalks, rfl⟩ := resolveParts_ok_iff.mp hok
  obtain ⟨followed, hseen, hsame⟩ := hwalks.relabel false (lookedAt path)
    (by simp [lookedAt_parts, Function.comp_def])
  refine ⟨_, hseen, rfl, fun link => ?_⟩
  rw [linksFollowed, walk_ok_iff.mpr hwalks, hsame]

/-! ## What the check looks at -/

/-- The ancestors whose text does not end with a separator are the looked-at parts. -/
theorem mem_ancestors {path : AbsolutePath} {before : List Component} {last : Component} :
    ⟨before ++ [last], false⟩ ∈ path.ancestors ↔
      ∃ after, path.components = before ++ last :: after ∧ (after ≠ [] ∨ path.slash = false) := by
  obtain ⟨components, slash⟩ := path
  simp only [AbsolutePath.ancestors, List.mem_cons, List.mem_map, List.mem_filter,
    List.mem_reverse, List.mem_inits, AbsolutePath.mk.injEq, and_true, decide_eq_true_eq]
  constructor
  · rintro (⟨rfl, rfl⟩ | ⟨parents, ⟨hparents, _⟩, rfl⟩)
    · exact ⟨[], rfl, Or.inr rfl⟩
    · obtain ⟨after, hafter⟩ := hparents
      cases components using List.reverseRecOn with
      | nil => simp at hafter
      | append_singleton components final =>
        rw [List.dropLast_concat] at hafter
        subst hafter
        exact ⟨after ++ [final], by simp, Or.inl (by simp)⟩
  · rintro ⟨after, rfl, hafter⟩
    cases after using List.reverseRecOn with
    | nil =>
      rcases hafter with hafter | rfl
      · exact absurd rfl hafter
      · exact Or.inl ⟨rfl, rfl⟩
    | append_singleton after final =>
      refine Or.inr ⟨before ++ [last], ⟨⟨after, ?_⟩, by simp⟩, rfl⟩
      have hsplit :
          before ++ last :: (after ++ [final]) = (before ++ last :: after) ++ [final] := by simp
      rw [hsplit, List.dropLast_concat]
      simp

theorem mem_lookedAt {path : AbsolutePath} {before : List Component} {name : Bytes}
    {after : List Component} (hsplit : path.components = before ++ .name name :: after)
    (hafter : after ≠ [] ∨ path.slash = false) :
    ∃ rest, lookedAt path =
      before.map (fun c => (true, componentPart c)) ++ (true, .name name) :: rest := by
  rw [lookedAt, hsplit]
  cases after using List.reverseRecOn with
  | nil =>
    rcases hafter with hafter | hslash
    · exact absurd rfl hafter
    · exact ⟨[], by simp [hslash, componentPart]⟩
  | append_singleton after final =>
    have hlast : before ++ .name name :: (after ++ [final]) =
        (before ++ .name name :: after) ++ [final] := by simp
    rw [hlast, List.dropLast_concat, List.map_append, List.map_cons, List.append_assoc,
      List.append_assoc, List.append_assoc]
    exact ⟨_, rfl⟩

theorem componentPart_eq_name {c : Component} {name : Bytes} :
    componentPart c = .name name ↔ c = .name name := by
  cases c <;> simp [componentPart]

theorem of_lookedAt {path : AbsolutePath} {before after : List (Bool × PathPart Bytes)}
    {name : Bytes} (hsplit : lookedAt path = before ++ (true, .name name) :: after) :
    ∃ pre post, path.components = pre ++ .name name :: post ∧
      before = pre.map (fun c => (true, componentPart c)) ∧ (post ≠ [] ∨ path.slash = false) := by
  obtain ⟨components, slash⟩ := path
  cases components using List.reverseRecOn with
  | nil =>
    have hmem : (true, PathPart.name name) ∈ lookedAt ⟨[], slash⟩ := by simp [hsplit]
    cases slash <;> simp [lookedAt] at hmem
  | append_singleton initial final =>
    have hends : ∀ more, (!slash, componentPart final) ::
        (if slash = true then [(false, .cur)] else []) = more ++ (true, .name name) :: after →
        more = [] ∧ slash = false ∧ final = .name name := by
      intro more heq
      cases more with
      | nil =>
        obtain ⟨hlabel, hpart⟩ := Prod.mk.inj (List.cons.inj heq).1
        exact ⟨rfl, by simpa using hlabel, componentPart_eq_name.mp hpart⟩
      | cons part more =>
        have hmem :
            (true, PathPart.name name) ∈ (if slash = true then [(false, .cur)] else []) := by
          rw [(List.cons.inj heq).2]
          simp
        cases slash <;> simp at hmem
    have hlook : lookedAt ⟨initial ++ [final], slash⟩ =
        initial.map (fun c => (true, componentPart c)) ++ (!slash, componentPart final) ::
          (if slash = true then [(false, .cur)] else []) := by
      simp [lookedAt]
    rw [hlook] at hsplit
    rcases List.append_eq_append_iff.mp hsplit with ⟨more, rfl, hmore⟩ | ⟨more, hinitial, hmore⟩
    · obtain ⟨rfl, hslash, rfl⟩ := hends more hmore
      exact ⟨initial, [], rfl, by simp, Or.inr hslash⟩
    · cases more with
      | nil =>
        obtain ⟨_, hslash, rfl⟩ := hends [] (by simpa using hmore.symm)
        exact ⟨initial, [], rfl, by simpa using hinitial.symm, Or.inr hslash⟩
      | cons part more =>
        obtain ⟨rfl, _⟩ := List.cons.inj hmore
        obtain ⟨pre, rest, rfl, rfl, hrest⟩ := List.map_eq_append_iff.mp hinitial
        obtain ⟨c, post, rfl, hc, _⟩ := List.map_eq_cons_iff.mp hrest
        obtain rfl := componentPart_eq_name.mp (Prod.mk.inj hc).2
        exact ⟨pre, post ++ [final], by simp, rfl, Or.inl (by simp)⟩

/-- Looking at a path without a separator behind its last name. -/
theorem isSymlink_iff {fs : Files} {before : List Component} {name : Bytes} :
    AbsolutePath.isSymlink fs ⟨before ++ [.name name], false⟩ = true ↔
      ∃ directory target, resolveParts fs [] (before.map componentPart) = .ok directory ∧
        fs.kind (directory ++ [name]) = some (.symlink target) := by
  have hparts : AbsolutePath.parts ⟨before ++ [.name name], false⟩ =
      before.map componentPart ++ [.name name] := by simp [AbsolutePath.parts, componentPart]
  rw [AbsolutePath.isSymlink, hparts, List.getLast?_concat, List.dropLast_concat]
  cases resolveParts fs [] (before.map componentPart) with
  | error trouble => simp
  | ok directory =>
    simp only [Except.ok.injEq, exists_and_left, exists_eq_left']
    cases fs.kind (directory ++ [name]) with
    | none => simp
    | some kind => cases kind <;> simp

/-- What is a symlink ends in a name. -/
theorem isSymlink_shape {fs : Files} {path : AbsolutePath} (hlink : path.isSymlink fs = true) :
    ∃ before name, path = ⟨before ++ [.name name], false⟩ := by
  obtain ⟨components, slash⟩ := path
  rw [AbsolutePath.isSymlink] at hlink
  cases slash with
  | true => simp [AbsolutePath.parts] at hlink
  | false =>
    cases components using List.reverseRecOn with
    | nil => simp [AbsolutePath.parts] at hlink
    | append_singleton before last =>
      cases last with
      | name name => exact ⟨before, name, rfl⟩
      | _ => simp [AbsolutePath.parts, componentPart] at hlink

theorem inHome_iff {fs : Files} {home : Canonical} {before : List Component} {name : Bytes} :
    inHome fs home ⟨before ++ [.name name], false⟩ = true ↔
      ∃ directory, resolveParts fs [] (before.map componentPart) = .ok directory ∧
        home <+: directory := by
  have hparent : AbsolutePath.parent ⟨before ++ [.name name], false⟩ = some ⟨before, false⟩ := by
    simp [AbsolutePath.parent, HostPaths.parent]
  have hresolve : AbsolutePath.canonicalize fs ⟨before, false⟩ =
      resolveParts fs [] (before.map componentPart) := by
    simp [AbsolutePath.canonicalize, AbsolutePath.parts]
  rw [inHome, hparent]
  simp only [hresolve]
  cases resolveParts fs [] (before.map componentPart) with
  | error trouble => simp
  | ok directory => simp [isUnderOrEq_iff]

/-- A link is refused when it is one of those looked at and lies under home. -/
theorem refused_iff {fs : Files} {home : Canonical} {path : AbsolutePath}
    {arrival : Arrival Bytes Bool} (real : fs.Real home)
    (hwalks : Walks fs false maxLinks [] (lookedAt path) arrival) :
    (∃ ancestor ∈ path.ancestors, ancestor.isSymlink fs = true ∧ inHome fs home ancestor = true) ↔
      ∃ link, (true, link) ∈ arrival.followed ∧ home <+: link := by
  constructor
  · rintro ⟨ancestor, hmem, hlink, hhome⟩
    obtain ⟨before, name, rfl⟩ := isSymlink_shape hlink
    obtain ⟨after, hsplit, hafter⟩ := mem_ancestors.mp hmem
    obtain ⟨rest, hlook⟩ := mem_lookedAt hsplit hafter
    obtain ⟨directory, target, hdirectory, found⟩ := isSymlink_iff.mp hlink
    obtain ⟨directory', hdirectory', hunder⟩ := inHome_iff.mp hhome
    obtain rfl := Except.ok.inj (hdirectory.symm.trans hdirectory')
    rw [hlook] at hwalks
    obtain ⟨first, last, hfirst, _, _⟩ := walks_append.mp hwalks
    have hlocation := resolveParts_labelled false hfirst
    rw [List.map_map] at hlocation
    obtain rfl := Except.ok.inj (hdirectory.symm.trans hlocation)
    exact ⟨_, hwalks.follows hfirst found, hunder.trans (List.prefix_append _ _)⟩
  · rintro ⟨link, hmem, hunder⟩
    obtain ⟨before, name, after, first, target, hsplit, hfirst, rfl, found⟩ :=
      hwalks.named hmem (by simp)
    obtain ⟨pre, post, hcomponents, rfl, hpost⟩ := of_lookedAt hsplit
    have hlocation := resolveParts_labelled false hfirst
    rw [List.map_map] at hlocation
    refine ⟨⟨pre ++ [.name name], false⟩, mem_ancestors.mpr ⟨post, hcomponents, hpost⟩,
      isSymlink_iff.mpr ⟨first.location, target, hlocation, found⟩,
      inHome_iff.mpr ⟨first.location, hlocation, ?_⟩⟩
    -- A link is not home itself, which is real.
    rcases List.prefix_concat_iff.mp hunder with rfl | hunder
    · obtain ⟨kind, hkind, plain⟩ := real
      rw [found] at hkind
      exact absurd (Option.some.inj hkind).symm (plain target)
    · exact hunder

theorem mem_linksSeen {fs : Files} {path : AbsolutePath} {arrival : Arrival Bytes Bool}
    (hwalks : Walks fs false maxLinks [] (lookedAt path) arrival) {seen : Bool}
    {link : Canonical} : link ∈ linksSeen fs path seen ↔ (seen, link) ∈ arrival.followed := by
  rw [linksSeen, walk_ok_iff.mpr hwalks]
  simp [and_comm]

theorem checkAncestors_eq_ok {fs : Files} {home : Canonical} {path : Bytes}
    {absolutePath : AbsolutePath} :
    checkAncestors fs home path absolutePath = .ok () ↔
      ¬∃ ancestor ∈ absolutePath.ancestors,
        ancestor.isSymlink fs = true ∧ inHome fs home ancestor = true := by
  rw [checkAncestors]
  split
  · rename_i link hfind
    have hlink := List.find?_some hfind
    rw [Bool.and_eq_true] at hlink
    refine iff_of_false nofun fun hnone => hnone ⟨link, List.mem_of_find?_eq_some hfind, hlink⟩
  · rename_i hfind
    refine iff_of_true rfl ?_
    rintro ⟨ancestor, hmem, hlink⟩
    have hnot := List.find?_eq_none.mp hfind ancestor hmem
    exact hnot (Bool.and_eq_true _ _ ▸ hlink)

/-- What is accepted resolves, and no ancestor was refused. -/
theorem canonicalizeInHome_eq_ok {fs : Files} {cwd home c : Canonical} {path : Bytes} :
    canonicalizeInHome fs cwd path home = .ok c ↔
      ∃ absolutePath, absolute cwd path = .ok absolutePath ∧
        (¬∃ ancestor ∈ absolutePath.ancestors,
          ancestor.isSymlink fs = true ∧ inHome fs home ancestor = true) ∧
        absolutePath.canonicalize fs = .ok c := by
  simp only [canonicalizeInHome, bind_eq_ok, withContext_eq_ok, ofIo_eq_ok]
  constructor
  · rintro ⟨absolutePath, habsolute, _, hcheck, hok⟩
    exact ⟨absolutePath, habsolute, checkAncestors_eq_ok.mp hcheck, hok⟩
  · rintro ⟨absolutePath, habsolute, hnone, hok⟩
    exact ⟨absolutePath, habsolute, (), checkAncestors_eq_ok.mpr hnone, hok⟩

theorem linksSeen_of_error {fs : Files} {path : AbsolutePath} {trouble : Trouble}
    (hresolve : path.canonicalize fs = .error trouble) (seen : Bool) :
    linksSeen fs path seen = [] := by
  rw [linksSeen]
  cases hwalk : walk fs false maxLinks [] (lookedAt path) with
  | error _ => rfl
  | ok arrival =>
    have hok := resolveParts_labelled false (walk_ok_iff.mp hwalk)
    rw [lookedAt_parts] at hok
    rw [AbsolutePath.canonicalize, hok] at hresolve
    cases hresolve

/-- An accepted path is resolved without a link under home exactly when, if the links
that are looked at are elsewhere, those that are not are elsewhere too. -/
theorem canonicalizeInHome_confined_iff {fs : Files} {cwd home : Canonical} {path : Bytes}
    (real : fs.Real home) :
    (∀ c absolutePath, canonicalizeInHome fs cwd path home = .ok c →
        absolute cwd path = .ok absolutePath →
        ∀ link ∈ linksFollowed fs absolutePath, ¬home <+: link) ↔
      ∀ absolutePath, absolute cwd path = .ok absolutePath →
        (∀ link ∈ linksSeen fs absolutePath true, ¬home <+: link) →
        ∀ link ∈ linksSeen fs absolutePath false, ¬home <+: link := by
  constructor
  · intro hclaim absolutePath habsolute hseen link hmem
    cases hresolve : absolutePath.canonicalize fs with
    | error trouble =>
      rw [linksSeen_of_error hresolve] at hmem
      cases hmem
    | ok c =>
      obtain ⟨arrival, hwalks, rfl, hfollowed⟩ := walks_lookedAt hresolve
      have hok : canonicalizeInHome fs cwd path home = .ok arrival.location := by
        refine canonicalizeInHome_eq_ok.mpr ⟨absolutePath, habsolute, fun h => ?_, hresolve⟩
        obtain ⟨refused, hin, hunder⟩ := (refused_iff real hwalks).mp h
        exact hseen refused ((mem_linksSeen hwalks).mpr hin) hunder
      have hin := (mem_linksSeen hwalks).mp hmem
      exact hclaim _ _ hok habsolute link ((hfollowed link).mpr (List.mem_map.mpr ⟨_, hin, rfl⟩))
  · intro hunseen c absolutePath hok habsolute link hmem hunder
    obtain ⟨other, hother, hnone, hresolve⟩ := canonicalizeInHome_eq_ok.mp hok
    obtain rfl := Except.ok.inj (habsolute.symm.trans hother)
    obtain ⟨arrival, hwalks, rfl, hfollowed⟩ := walks_lookedAt hresolve
    obtain ⟨⟨seen, link⟩, hin, rfl⟩ := List.mem_map.mp ((hfollowed link).mp hmem)
    have hseen : ∀ refused ∈ linksSeen fs absolutePath true, ¬home <+: refused :=
      fun refused hmem hunder => hnone ((refused_iff real hwalks).mpr
        ⟨refused, (mem_linksSeen hwalks).mp hmem, hunder⟩)
    cases seen with
    | true => exact hseen link ((mem_linksSeen hwalks).mpr hin) hunder
    | false => exact hunseen _ habsolute hseen link ((mem_linksSeen hwalks).mpr hin) hunder

/-! ## A link behind a link -/

def name (text : String) : Bytes := utf8 text.toList

def userHome : Canonical := [name "home", name "u"]

/-- `/srv/data` leads to `~/work/data`, which a sandbox has swapped for a link to
`~/.config`. -/
def plantedFiles : Files := .ofEntries
  [([name "home"], .dir), (userHome, .dir), (userHome ++ [name ".config"], .dir),
    (userHome ++ [name "work"], .dir),
    (userHome ++ [name "work", name "data"],
      .symlink [.root, .name (name "home"), .name (name "u"), .name (name ".config")]),
    ([name "srv"], .dir),
    ([name "srv", name "data"],
      .symlink [.root, .name (name "home"), .name (name "u"), .name (name "work"),
        .name (name "data")])]
  (by decide +kernel)

theorem canonicalizeInHome_follows_planted :
    canonicalizeInHome plantedFiles [] (name "/srv/data") userHome =
        .ok (userHome ++ [name ".config"]) ∧
      absolute [] (name "/srv/data") =
        .ok ⟨[.root, .name (name "srv"), .name (name "data")], false⟩ ∧
      userHome ++ [name "work", name "data"] ∈
        linksFollowed plantedFiles ⟨[.root, .name (name "srv"), .name (name "data")], false⟩ ∧
      userHome <+: userHome ++ [name "work", name "data"] := by decide +kernel

/-- A separator behind the link is enough. -/
example : canonicalizeInHome plantedFiles [] (name "/home/u/work/data/") userHome =
    .ok (userHome ++ [name ".config"]) := by decide +kernel

/-- `/srv/data` leads to `~/work/data`, which is a directory. -/
def sharedFiles : Files := .ofEntries
  [([name "home"], .dir), (userHome, .dir), (userHome ++ [name "work"], .dir),
    (userHome ++ [name "work", name "data"], .dir), ([name "srv"], .dir),
    ([name "srv", name "data"],
      .symlink [.root, .name (name "home"), .name (name "u"), .name (name "work"),
        .name (name "data")])]
  (by decide +kernel)

/-- A link outside the home may lead into it. -/
theorem canonicalizeInHome_confined_shared :
    canonicalizeInHome sharedFiles [] (name "/srv/data") userHome =
        .ok (userHome ++ [name "work", name "data"]) ∧
      linksFollowed sharedFiles ⟨[.root, .name (name "srv"), .name (name "data")], false⟩ =
        [[name "srv", name "data"]] ∧
      ∀ c absolutePath, canonicalizeInHome sharedFiles [] (name "/srv/data") userHome = .ok c →
        absolute [] (name "/srv/data") = .ok absolutePath →
        ∀ link ∈ linksFollowed sharedFiles absolutePath, ¬userHome <+: link := by
  have hhome : sharedFiles.Real userHome := real_of_isDir (by decide +kernel)
  refine ⟨by decide +kernel, by decide +kernel, ?_⟩
  refine (canonicalizeInHome_confined_iff hhome).mpr fun absolutePath habsolute _ => ?_
  have hpath : absolute [] (name "/srv/data") =
      .ok ⟨[.root, .name (name "srv"), .name (name "data")], false⟩ := by
    decide +kernel
  obtain rfl := Except.ok.inj (hpath.symm.trans habsolute)
  decide +kernel

end HomeSymlinks
