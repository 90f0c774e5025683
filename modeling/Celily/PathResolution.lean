import Mathlib.Data.List.Infix

/-!
# Path resolution in a tree of directories, files and symlinks

A location is the list of names from the root; a path is a list of parts. `walk`
resolves a path as the kernel does: the parts of a link's target come before the
parts that are left, and only so many links are followed. Parts carry labels, and
the walk records each link it follows under the label of the part that named it.
`Walks` is the same as a relation, for induction over a resolution.
-/

namespace PathResolution

universe u v

inductive PathPart (Name : Type u) where
  | root
  | cur
  | up
  | name (name : Name)
  deriving DecidableEq

inductive Kind (Name : Type u) where
  | dir
  | file
  | special
  | symlink (target : List (PathPart Name))
  deriving DecidableEq

abbrev Location (Name : Type u) := List Name

/-- What has a node is in a directory. -/
structure FileSystem (Name : Type u) where
  kind : Location Name → Option (Kind Name)
  root_dir : kind [] = some .dir
  parent_dir : ∀ loc name, kind (loc ++ [name]) ≠ none → kind loc = some .dir

inductive Trouble where
  | notFound
  | notDirectory
  | tooManyLinks
  deriving DecidableEq

/-- Where a walk ended, how many more links it could follow, and those it followed. -/
structure Arrival (Name : Type u) (L : Type v) where
  location : Location Name
  links : Nat
  followed : List (L × Location Name)
  deriving DecidableEq

variable {Name : Type u} {L : Type v} {M : Type*}

/-- The link was followed before. -/
def Arrival.after (link : L × Location Name) (arrival : Arrival Name L) : Arrival Name L :=
  { arrival with followed := link :: arrival.followed }

def FileSystem.isDir (fs : FileSystem Name) (loc : Location Name) : Bool :=
  match fs.kind loc with
  | some .dir => true
  | _ => false

/-- A walk to its first link, from where `follow` goes on. -/
def walkWith (fs : FileSystem Name) (inner : L) (links : Nat)
    (follow : Location Name → List (L × PathPart Name) → Except Trouble (Arrival Name L)) :
    Location Name → List (L × PathPart Name) → Except Trouble (Arrival Name L)
  | loc, [] => .ok ⟨loc, links, []⟩
  | loc, (label, part) :: rest =>
    match part with
    | .root => walkWith fs inner links follow [] rest
    | .cur =>
      if fs.isDir loc then walkWith fs inner links follow loc rest else .error .notDirectory
    | .up =>
      if fs.isDir loc then walkWith fs inner links follow loc.dropLast rest
      else .error .notDirectory
    | .name name =>
      if fs.isDir loc then
        match fs.kind (loc ++ [name]) with
        | none => .error .notFound
        | some (.symlink target) =>
          (follow loc (target.map (inner, ·) ++ rest)).map (Arrival.after (label, loc ++ [name]))
        | some _ => walkWith fs inner links follow (loc ++ [name]) rest
      else .error .notDirectory

/-- Resolve a path from `loc`, following at most `links` links; what a target's parts
name is recorded under `inner`. -/
def walk (fs : FileSystem Name) (inner : L) :
    Nat → Location Name → List (L × PathPart Name) → Except Trouble (Arrival Name L)
  | 0 => walkWith fs inner 0 fun _ _ => .error .tooManyLinks
  | links + 1 => walkWith fs inner (links + 1) (walk fs inner links)

/-- A resolution that succeeds. -/
inductive Walks (fs : FileSystem Name) (inner : L) :
    Nat → Location Name → List (L × PathPart Name) → Arrival Name L → Prop where
  | done (links : Nat) (loc : Location Name) : Walks fs inner links loc [] ⟨loc, links, []⟩
  | root {links : Nat} {loc : Location Name} {label : L} {rest : List (L × PathPart Name)}
      {arrival : Arrival Name L} :
      Walks fs inner links [] rest arrival →
        Walks fs inner links loc ((label, .root) :: rest) arrival
  | cur {links : Nat} {loc : Location Name} {label : L} {rest : List (L × PathPart Name)}
      {arrival : Arrival Name L} (dir : fs.isDir loc = true) :
      Walks fs inner links loc rest arrival →
        Walks fs inner links loc ((label, .cur) :: rest) arrival
  | up {links : Nat} {loc : Location Name} {label : L} {rest : List (L × PathPart Name)}
      {arrival : Arrival Name L} (dir : fs.isDir loc = true) :
      Walks fs inner links loc.dropLast rest arrival →
        Walks fs inner links loc ((label, .up) :: rest) arrival
  | name {links : Nat} {loc : Location Name} {label : L} {name : Name}
      {rest : List (L × PathPart Name)} {arrival : Arrival Name L} {kind : Kind Name}
      (dir : fs.isDir loc = true) (found : fs.kind (loc ++ [name]) = some kind)
      (plain : ∀ target, kind ≠ .symlink target) :
      Walks fs inner links (loc ++ [name]) rest arrival →
        Walks fs inner links loc ((label, .name name) :: rest) arrival
  | link {links : Nat} {loc : Location Name} {label : L} {name : Name}
      {rest : List (L × PathPart Name)} {arrival : Arrival Name L} {target : List (PathPart Name)}
      (dir : fs.isDir loc = true) (found : fs.kind (loc ++ [name]) = some (.symlink target)) :
      Walks fs inner links loc (target.map (inner, ·) ++ rest) arrival →
        Walks fs inner (links + 1) loc ((label, .name name) :: rest)
          (arrival.after (label, loc ++ [name]))

section Walks
variable {fs : FileSystem Name} {inner : L} {links : Nat} {loc : Location Name}
  {parts : List (L × PathPart Name)} {arrival : Arrival Name L}

theorem isDir_iff : fs.isDir loc = true ↔ fs.kind loc = some .dir := by
  rw [FileSystem.isDir]
  split
  · rename_i hkind
    simp [hkind]
  · rename_i hother
    simp only [Bool.false_eq_true, false_iff]
    exact hother

theorem walkWith_ok {follow : Location Name → List (L × PathPart Name) →
      Except Trouble (Arrival Name L)}
    (hfollow : ∀ loc target name label rest arrival, fs.isDir loc = true →
      fs.kind (loc ++ [name]) = some (.symlink target) →
      follow loc (target.map (inner, ·) ++ rest) = .ok arrival →
      Walks fs inner links loc ((label, .name name) :: rest)
        (arrival.after (label, loc ++ [name])))
    (hok : walkWith fs inner links follow loc parts = .ok arrival) :
    Walks fs inner links loc parts arrival := by
  induction parts generalizing loc arrival with
  | nil =>
    cases hok
    exact .done links loc
  | cons first rest ih =>
    obtain ⟨label, part⟩ := first
    unfold walkWith at hok
    cases part with
    | root => exact .root (ih hok)
    | cur =>
      simp only at hok
      split at hok
      · rename_i dir
        exact .cur dir (ih hok)
      · cases hok
    | up =>
      simp only at hok
      split at hok
      · rename_i dir
        exact .up dir (ih hok)
      · cases hok
    | name name =>
      simp only at hok
      split at hok
      · rename_i dir
        split at hok
        · cases hok
        · rename_i target found
          cases hnext : follow loc (target.map (inner, ·) ++ rest) with
          | error e =>
            rw [hnext] at hok
            cases hok
          | ok next =>
            rw [hnext] at hok
            cases hok
            exact hfollow loc target name label rest next dir found hnext
        · rename_i kind found plain
          exact .name dir plain (fun target heq => found target (heq ▸ rfl)) (ih hok)
      · cases hok

theorem walk_ok_iff :
    walk fs inner links loc parts = .ok arrival ↔ Walks fs inner links loc parts arrival := by
  constructor
  · intro hok
    induction links generalizing loc parts arrival with
    | zero =>
      refine walkWith_ok (fun loc target name label rest next _ _ hnext => ?_) hok
      cases hnext
    | succ links ih =>
      refine walkWith_ok (fun loc target name label rest next dir found hnext => ?_) hok
      exact .link dir found (ih hnext)
  · intro hwalks
    induction hwalks with
    | done links loc => cases links <;> rfl
    | @root links loc label rest arrival _ ih =>
      cases links with
      | zero => exact ih
      | succ links => exact ih
    | @cur links loc label rest arrival dir _ ih =>
      cases links with
      | zero => simpa only [walk, walkWith, dir, if_true] using ih
      | succ links => simpa only [walk, walkWith, dir, if_true] using ih
    | @up links loc label rest arrival dir _ ih =>
      cases links with
      | zero => simpa only [walk, walkWith, dir, if_true] using ih
      | succ links => simpa only [walk, walkWith, dir, if_true] using ih
    | @name links loc label name rest arrival kind dir found plain _ ih =>
      have hstep : walk fs inner links loc ((label, .name name) :: rest) =
          walk fs inner links (loc ++ [name]) rest := by
        cases kind with
        | symlink target => exact absurd rfl (plain target)
        | _ => cases links <;> simp only [walk, walkWith, dir, found, if_true]
      rw [hstep]
      exact ih
    | @link links loc label name rest arrival target dir found _ ih =>
      simp only [walk, walkWith, dir, found, if_true, ih]
      rfl

theorem Walks.unique {other : Arrival Name L} (h : Walks fs inner links loc parts arrival)
    (h' : Walks fs inner links loc parts other) : arrival = other := by
  have heq := (walk_ok_iff.mpr h).symm.trans (walk_ok_iff.mpr h')
  exact Except.ok.inj heq

/-- The walk goes on from its end. -/
def Arrival.andThen (first rest : Arrival Name L) : Arrival Name L :=
  { rest with followed := first.followed ++ rest.followed }

/-- A path is resolved part by part. -/
theorem walks_append {more : List (L × PathPart Name)} :
    Walks fs inner links loc (parts ++ more) arrival ↔
      ∃ first rest, Walks fs inner links loc parts first ∧
        Walks fs inner first.links first.location more rest ∧ arrival = first.andThen rest := by
  constructor
  · intro h
    generalize hall : parts ++ more = all at h
    induction h generalizing parts with
    | done links loc =>
      obtain ⟨rfl, rfl⟩ := List.append_eq_nil_iff.mp hall
      exact ⟨_, _, .done links loc, .done links loc, rfl⟩
    | @root links loc label tail arrival htail ih =>
      rcases List.append_eq_cons_iff.mp hall with ⟨rfl, rfl⟩ | ⟨rest, rfl, rfl⟩
      · exact ⟨_, _, .done links loc, .root htail, rfl⟩
      · obtain ⟨first, last, hfirst, hlast, rfl⟩ := ih rfl
        exact ⟨_, _, .root hfirst, hlast, rfl⟩
    | @cur links loc label tail arrival dir htail ih =>
      rcases List.append_eq_cons_iff.mp hall with ⟨rfl, rfl⟩ | ⟨rest, rfl, rfl⟩
      · exact ⟨_, _, .done links loc, .cur dir htail, rfl⟩
      · obtain ⟨first, last, hfirst, hlast, rfl⟩ := ih rfl
        exact ⟨_, _, .cur dir hfirst, hlast, rfl⟩
    | @up links loc label tail arrival dir htail ih =>
      rcases List.append_eq_cons_iff.mp hall with ⟨rfl, rfl⟩ | ⟨rest, rfl, rfl⟩
      · exact ⟨_, _, .done links loc, .up dir htail, rfl⟩
      · obtain ⟨first, last, hfirst, hlast, rfl⟩ := ih rfl
        exact ⟨_, _, .up dir hfirst, hlast, rfl⟩
    | @name links loc label name tail arrival kind dir found plain htail ih =>
      rcases List.append_eq_cons_iff.mp hall with ⟨rfl, rfl⟩ | ⟨rest, rfl, rfl⟩
      · exact ⟨_, _, .done links loc, .name dir found plain htail, rfl⟩
      · obtain ⟨first, last, hfirst, hlast, rfl⟩ := ih rfl
        exact ⟨_, _, .name dir found plain hfirst, hlast, rfl⟩
    | @link links loc label name tail arrival target dir found htail ih =>
      rcases List.append_eq_cons_iff.mp hall with ⟨rfl, rfl⟩ | ⟨rest, rfl, rfl⟩
      · exact ⟨_, _, .done _ loc, .link dir found htail, rfl⟩
      · obtain ⟨first, last, hfirst, hlast, rfl⟩ := ih (List.append_assoc _ _ _)
        exact ⟨_, _, .link dir found hfirst, hlast, rfl⟩
  · rintro ⟨first, rest, hfirst, hrest, rfl⟩
    induction hfirst with
    | done links loc => exact hrest
    | root _ ih => exact .root (ih hrest)
    | cur dir _ ih => exact .cur dir (ih hrest)
    | up dir _ ih => exact .up dir (ih hrest)
    | name dir found plain _ ih => exact .name dir found plain (ih hrest)
    | link dir found _ ih =>
      have hnext := ih hrest
      rw [List.append_assoc] at hnext
      exact .link dir found hnext

/-- A walk that may follow more links goes the same way. -/
theorem Walks.more (h : Walks fs inner links loc parts arrival) (extra : Nat) :
    Walks fs inner (links + extra) loc parts { arrival with links := arrival.links + extra } := by
  induction h with
  | done links loc => exact .done _ loc
  | root _ ih => exact .root ih
  | cur dir _ ih => exact .cur dir ih
  | up dir _ ih => exact .up dir ih
  | name dir found plain _ ih => exact .name dir found plain ih
  | @link links loc label name rest arrival target dir found _ ih =>
    rw [Nat.add_right_comm]
    exact .link dir found ih

theorem Walks.links_le (h : Walks fs inner links loc parts arrival) : arrival.links ≤ links := by
  induction h with
  | done links loc => exact Nat.le_refl links
  | root _ ih => exact ih
  | cur dir _ ih => exact ih
  | up dir _ ih => exact ih
  | name dir found plain _ ih => exact ih
  | link dir found _ ih => exact Nat.le_succ_of_le ih

/-- Labels do not matter for where a walk goes. -/
theorem Walks.relabel {L' : Type*} (inner' : L') (parts' : List (L' × PathPart Name))
    (h : Walks fs inner links loc parts arrival)
    (hparts : parts'.map Prod.snd = parts.map Prod.snd) :
    ∃ followed, Walks fs inner' links loc parts' ⟨arrival.location, arrival.links, followed⟩ ∧
      followed.map Prod.snd = arrival.followed.map Prod.snd := by
  induction h generalizing parts' with
  | done links loc =>
    obtain rfl := List.map_eq_nil_iff.mp hparts
    exact ⟨[], .done links loc, rfl⟩
  | root _ ih =>
    obtain ⟨⟨label, part⟩, rest, rfl, rfl, hrest⟩ := List.map_eq_cons_iff.mp hparts
    obtain ⟨followed, hwalks, hsame⟩ := ih _ hrest
    exact ⟨followed, .root hwalks, hsame⟩
  | cur dir _ ih =>
    obtain ⟨⟨label, part⟩, rest, rfl, rfl, hrest⟩ := List.map_eq_cons_iff.mp hparts
    obtain ⟨followed, hwalks, hsame⟩ := ih _ hrest
    exact ⟨followed, .cur dir hwalks, hsame⟩
  | up dir _ ih =>
    obtain ⟨⟨label, part⟩, rest, rfl, rfl, hrest⟩ := List.map_eq_cons_iff.mp hparts
    obtain ⟨followed, hwalks, hsame⟩ := ih _ hrest
    exact ⟨followed, .up dir hwalks, hsame⟩
  | name dir found plain _ ih =>
    obtain ⟨⟨label, part⟩, rest, rfl, rfl, hrest⟩ := List.map_eq_cons_iff.mp hparts
    obtain ⟨followed, hwalks, hsame⟩ := ih _ hrest
    exact ⟨followed, .name dir found plain hwalks, hsame⟩
  | @link links loc own name rest arrival target dir found _ ih =>
    obtain ⟨⟨label, part⟩, rest', rfl, rfl, hrest⟩ := List.map_eq_cons_iff.mp hparts
    obtain ⟨followed, hwalks, hsame⟩ := ih (target.map (inner', ·) ++ rest') (by
      simp [hrest, Function.comp_def])
    refine ⟨(label, loc ++ [name]) :: followed, .link dir found hwalks, ?_⟩
    simp [Arrival.after, hsame]

/-- A link under another label than `inner` was named by a part of the path itself. -/
theorem Walks.named {label : L} {link : Location Name} (h : Walks fs inner links loc parts arrival)
    (hmem : (label, link) ∈ arrival.followed) (hlabel : label ≠ inner) :
    ∃ before name after first target, parts = before ++ (label, .name name) :: after ∧
      Walks fs inner links loc before first ∧ link = first.location ++ [name] ∧
      fs.kind link = some (.symlink target) := by
  induction h with
  | done links loc => cases hmem
  | @root links loc own rest arrival _ ih =>
    obtain ⟨before, name, after, first, target, rfl, hfirst, hlink⟩ := ih hmem
    exact ⟨_ :: before, name, after, first, target, rfl, .root hfirst, hlink⟩
  | @cur links loc own rest arrival dir _ ih =>
    obtain ⟨before, name, after, first, target, rfl, hfirst, hlink⟩ := ih hmem
    exact ⟨_ :: before, name, after, first, target, rfl, .cur dir hfirst, hlink⟩
  | @up links loc own rest arrival dir _ ih =>
    obtain ⟨before, name, after, first, target, rfl, hfirst, hlink⟩ := ih hmem
    exact ⟨_ :: before, name, after, first, target, rfl, .up dir hfirst, hlink⟩
  | @name links loc own x rest arrival kind dir found plain _ ih =>
    obtain ⟨before, name, after, first, target, rfl, hfirst, hlink⟩ := ih hmem
    exact ⟨_ :: before, name, after, first, target, rfl, .name dir found plain hfirst, hlink⟩
  | @link links loc own x rest arrival target dir found _ ih =>
    rcases List.mem_cons.mp hmem with heq | hmem
    · cases heq
      exact ⟨[], x, rest, _, target, rfl, .done _ loc, rfl, found⟩
    · obtain ⟨before, name, after, first, target', hsplit, hfirst, hlink⟩ := ih hmem
      -- The target's parts are labelled `inner`, so the split is behind them.
      obtain ⟨more, rfl, rfl⟩ : ∃ more, before = target.map (inner, ·) ++ more ∧
          rest = more ++ (label, .name name) :: after := by
        rcases List.append_eq_append_iff.mp hsplit with hbehind | ⟨inside, htarget, hrest⟩
        · exact hbehind
        · cases inside with
          | nil => exact ⟨[], by simpa using htarget.symm, hrest.symm⟩
          | cons part inside =>
            obtain ⟨rfl, _⟩ := List.cons.inj hrest
            obtain ⟨_, _, heq⟩ : ∃ p ∈ target, (inner, p) = (label, PathPart.name name) :=
              List.mem_map.mp (htarget ▸ by simp)
            exact absurd (congrArg Prod.fst heq).symm hlabel
      exact ⟨(own, .name x) :: more, name, after, _, target', rfl, .link dir found hfirst, hlink⟩

/-- A part that names a link makes the walk follow it. -/
theorem Walks.follows {before after : List (L × PathPart Name)} {label : L} {name : Name}
    {first : Arrival Name L} {target : List (PathPart Name)}
    (h : Walks fs inner links loc (before ++ (label, .name name) :: after) arrival)
    (hbefore : Walks fs inner links loc before first)
    (found : fs.kind (first.location ++ [name]) = some (.symlink target)) :
    (label, first.location ++ [name]) ∈ arrival.followed := by
  obtain ⟨first', rest, hfirst, hrest, rfl⟩ := walks_append.mp h
  obtain rfl := hfirst.unique hbefore
  obtain ⟨directory, left, earlier⟩ := first'
  cases hrest with
  | name dir found' plain _ =>
    rw [found] at found'
    exact absurd (Option.some.inj found').symm (plain target)
  | link dir found' _ => exact List.mem_append_right _ List.mem_cons_self

/-! ## Where walks end -/

/-- Something is there, and it is not a symlink. -/
def FileSystem.Real (fs : FileSystem Name) (loc : Location Name) : Prop :=
  ∃ kind, fs.kind loc = some kind ∧ ∀ target, kind ≠ .symlink target

theorem real_of_isDir (dir : fs.isDir loc = true) : fs.Real loc :=
  ⟨.dir, isDir_iff.mp dir, fun _ h => by cases h⟩

/-- Everything above what exists is a directory. -/
theorem isDir_of_above {names : List Name} (hne : names ≠ [])
    (found : fs.kind (loc ++ names) ≠ none) : fs.isDir loc = true := by
  induction names using List.reverseRecOn with
  | nil => exact absurd rfl hne
  | append_singleton names name ih =>
    rw [← List.append_assoc] at found
    have hdir := fs.parent_dir _ _ found
    by_cases hnames : names = []
    · rw [hnames, List.append_nil] at hdir
      exact isDir_iff.mpr hdir
    · exact ih hnames (by rw [hdir]; exact Option.some_ne_none _)

theorem isDir_dropLast (dir : fs.isDir loc = true) : fs.isDir loc.dropLast = true := by
  induction loc using List.reverseRecOn with
  | nil => exact dir
  | append_singleton loc name _ =>
    rw [List.dropLast_concat]
    exact isDir_iff.mpr (fs.parent_dir loc name (by
      rw [isDir_iff.mp dir]
      exact Option.some_ne_none _))

/-- A path that is resolved does not end at a link. -/
theorem Walks.real (h : Walks fs inner links loc parts arrival) (real : fs.Real loc) :
    fs.Real arrival.location := by
  induction h with
  | done links loc => exact real
  | root _ ih => exact ih ⟨.dir, fs.root_dir, fun _ h => by cases h⟩
  | cur dir _ ih => exact ih real
  | up dir _ ih => exact ih (real_of_isDir (isDir_dropLast dir))
  | name dir found plain _ ih => exact ih ⟨_, found, plain⟩
  | link dir found _ ih => exact ih real

/-- A location is its own path, and no link is on it. -/
theorem walks_location {names : List Name} (label : L) (real : fs.Real (loc ++ names)) :
    Walks fs inner links loc (names.map fun name => (label, .name name))
      ⟨loc ++ names, links, []⟩ := by
  induction names generalizing loc with
  | nil =>
    rw [List.append_nil]
    exact .done links loc
  | cons name names ih =>
    obtain ⟨kind, hkind, plain⟩ := real
    have hexists : fs.kind (loc ++ name :: names) ≠ none := by
      rw [hkind]
      exact Option.some_ne_none _
    have dir : fs.isDir loc = true := isDir_of_above (List.cons_ne_nil name names) hexists
    rw [List.append_cons] at hkind hexists ⊢
    obtain ⟨first, hfirst, hplain⟩ : fs.Real (loc ++ [name]) := by
      by_cases hnames : names = []
      · rw [hnames, List.append_nil] at hkind
        exact ⟨kind, hkind, plain⟩
      · exact real_of_isDir (isDir_of_above hnames hexists)
    exact .name dir hfirst hplain (ih ⟨kind, hkind, plain⟩)

end Walks

/-! ## A file system of listed entries -/

def entryKind [DecidableEq Name] (entries : List (Location Name × Kind Name))
    (loc : Location Name) : Option (Kind Name) :=
  if loc = [] then some .dir else entries.lookup loc

def FileSystem.ofEntries [DecidableEq Name] (entries : List (Location Name × Kind Name))
    (closed : ∀ entry ∈ entries, entryKind entries entry.1.dropLast = some .dir) :
    FileSystem Name where
  kind := entryKind entries
  root_dir := rfl
  parent_dir loc name found := by
    obtain ⟨kind, hkind⟩ := Option.ne_none_iff_exists'.mp found
    rw [entryKind, if_neg (by simp)] at hkind
    obtain ⟨before, after, rfl, _⟩ := List.lookup_eq_some_iff.mp hkind
    have hparent := closed (loc ++ [name], kind) (by simp)
    rwa [List.dropLast_concat] at hparent

end PathResolution
