import Celily.HostPaths
import Celily.PathResolution
import Mathlib.Data.List.Forall2

/-!
# What the host's file system answers

`std::fs` and the path functions that ask the file system, over the resolution of
paths to locations. A canonical path is its location, the list of its names. Errors
are chains of messages, the outermost first, as `anyhow` prints them.
-/

namespace HostFiles

open RustText HostPaths PathResolution

abbrev Files := FileSystem Bytes

/-- A canonical path. -/
abbrev Canonical := Location Bytes

abbrev Anyhow (α : Type) := Except (List Text) α

def bail {α : Type} (message : Text) : Anyhow α := .error [message]

/-- A `bail!` unless the condition holds. -/
def ensure (condition : Bool) (message : Text) : Anyhow Unit :=
  if condition then .ok () else bail message

/-- `with_context`. -/
def withContext {α : Type} (context : Text) (result : Anyhow α) : Anyhow α :=
  result.mapError (context :: ·)

/-- The message of `std::io::Error`. -/
def ioMessage : Trouble → Text
  | .notFound => "No such file or directory (os error 2)".toList
  | .notDirectory => "Not a directory (os error 20)".toList
  | .tooManyLinks => "Too many levels of symbolic links (os error 40)".toList

def ofIo {α : Type} (result : Except Trouble α) : Anyhow α :=
  result.mapError fun trouble => [ioMessage trouble]

/-- A chain of `?`s has a value when each of its steps has one. -/
theorem bind_eq_ok {ε α β : Type} {x : Except ε α} {f : α → Except ε β} {b : β} :
    (x >>= f) = .ok b ↔ ∃ a, x = .ok a ∧ f a = .ok b := by
  cases x with
  | ok a =>
    constructor
    · exact fun h => ⟨a, rfl, h⟩
    · rintro ⟨a, ha, h⟩
      cases ha
      exact h
  | error e =>
    refine iff_of_false nofun ?_
    rintro ⟨a, ha, _⟩
    cases ha

@[simp] theorem bail_ne_ok {α : Type} {message : Text} {a : α} : bail message ≠ .ok a := nofun

@[simp] theorem ensure_eq_ok {condition : Bool} {message : Text} {u : Unit} :
    ensure condition message = .ok u ↔ condition = true := by
  cases condition with
  | true => exact iff_of_true rfl rfl
  | false => exact iff_of_false nofun nofun

@[simp] theorem withContext_eq_ok {α : Type} {context : Text} {result : Anyhow α} {a : α} :
    withContext context result = .ok a ↔ result = .ok a := by
  cases result with
  | ok b => exact Iff.rfl
  | error e => exact iff_of_false nofun nofun

@[simp] theorem ofIo_eq_ok {α : Type} {result : Except Trouble α} {a : α} :
    ofIo result = .ok a ↔ result = .ok a := by
  cases result with
  | ok b => exact ⟨fun h => congrArg _ (Except.ok.inj h), fun h => congrArg _ (Except.ok.inj h)⟩
  | error e => exact iff_of_false nofun nofun

/-- A loop that maps its items stops at the first error. -/
theorem mapM_eq_ok {α β : Type} {f : α → Anyhow β} {items : List α} {results : List β} :
    items.mapM f = .ok results ↔ List.Forall₂ (fun a b => f a = .ok b) items results := by
  induction items generalizing results with
  | nil =>
    rw [List.mapM_nil, List.forall₂_nil_left_iff]
    exact ⟨fun h => (Except.ok.inj h).symm, fun h => congrArg _ h.symm⟩
  | cons a items ih =>
    rw [List.mapM_cons, bind_eq_ok]
    simp only [bind_eq_ok, ih]
    constructor
    · rintro ⟨b, hb, rest, hrest, hpure⟩
      cases hpure
      exact .cons hb hrest
    · intro hall
      cases hall with
      | cons hb hrest => exact ⟨_, hb, _, hrest, rfl⟩

theorem of_toOption_map {ε α β : Type} {x : Except ε α} {f : α → β} {b : β}
    (h : x.toOption.map f = some b) : ∃ a, x = .ok a ∧ f a = b := by
  cases x with
  | ok a => exact ⟨a, rfl, Option.some.inj h⟩
  | error e => cases h

theorem forall₂_mem_right {α β : Type} {R : α → β → Prop} {items : List α} {results : List β}
    {b : β} (hall : List.Forall₂ R items results) (hmem : b ∈ results) : ∃ a ∈ items, R a b := by
  induction hall with
  | nil => cases hmem
  | cons hfirst _ ih =>
    rcases List.mem_cons.mp hmem with rfl | hmem
    · exact ⟨_, List.mem_cons_self, hfirst⟩
    · obtain ⟨a, ha, h⟩ := ih hmem
      exact ⟨a, List.mem_cons_of_mem _ ha, h⟩

theorem forall₂_mem_left {α β : Type} {R : α → β → Prop} {items : List α} {results : List β}
    {a : α} (hall : List.Forall₂ R items results) (hmem : a ∈ items) : ∃ b ∈ results, R a b :=
  forall₂_mem_right (List.Forall₂.flip hall) hmem

/-! ## Paths of the kernel -/

/-- What the kernel makes of a piece between separators: an empty one, as behind a
trailing separator, is the directory itself, like a `.`. -/
def piecePart (piece : Bytes) : PathPart Bytes :=
  if piece = [] ∨ piece = [46] then .cur else if piece = [46, 46] then .up else .name piece

def pathParts (path : Bytes) : List (PathPart Bytes) :=
  (if isAbsolute path then [.root] else []) ++ (path.splitOn 47).map piecePart

example : pathParts (utf8 "/srv//data/".toList) =
    [.root, .cur, .name (utf8 "srv".toList), .cur, .name (utf8 "data".toList), .cur] := by decide

/-- How many links Linux follows in one resolution. -/
def maxLinks : Nat := 40

def resolveParts (fs : Files) (start : Canonical) (parts : List (PathPart Bytes)) :
    Except Trouble Canonical :=
  (walk fs () maxLinks start (parts.map ((), ·))).map Arrival.location

/-- `Path::canonicalize`, in the working directory `cwd`. -/
def canonicalize (fs : Files) (cwd : Canonical) (path : Bytes) : Except Trouble Canonical :=
  if path = [] then .error .notFound else resolveParts fs cwd (pathParts path)

/-- `base.join(segment).canonicalize()` for a canonical base and a relative segment. -/
def canonicalizeIn (fs : Files) (base : Canonical) (segment : Text) : Except Trouble Canonical :=
  resolveParts fs [] (.root :: base.map .name ++ pathParts (utf8 segment))

/-- `Path::exists`. -/
def pathExists (fs : Files) (cwd : Canonical) (path : Bytes) : Bool :=
  (canonicalize fs cwd path).isOk

/-- `Path::is_dir` of a canonical path. -/
def isDirectory (fs : Files) (path : Canonical) : Bool := fs.isDir path

/-- `Path::is_file` of a canonical path. -/
def isRegularFile (fs : Files) (path : Canonical) : Bool := fs.kind path = some .file

/-- `Display` of a path. -/
def display (path : Bytes) : Text := fromUtf8Lossy path

def canonicalBytes (path : Canonical) : Bytes := ofComponents (.root :: path.map .name)

def displayCanonical (path : Canonical) : Text := display (canonicalBytes path)

/-- Equal to `parent` or a proper descendant of it. -/
def isUnderOrEq (path parent : Canonical) : Bool :=
  path == parent || (parent.isPrefixOf path && !(path.drop parent.length).isEmpty)

theorem isUnderOrEq_iff (path parent : Canonical) :
    isUnderOrEq path parent = true ↔ parent <+: path := by
  rw [isUnderOrEq, Bool.or_eq_true, beq_iff_eq, Bool.and_eq_true, List.isPrefixOf_iff_prefix]
  constructor
  · rintro (rfl | ⟨hunder, _⟩)
    · exact List.prefix_refl _
    · exact hunder
  · rintro ⟨rest, rfl⟩
    cases rest with
    | nil => exact Or.inl (List.append_nil _)
    | cons name rest => exact Or.inr ⟨List.prefix_append _ _, by simp⟩

theorem resolveParts_ok_iff {fs : Files} {start loc : Canonical} {parts : List (PathPart Bytes)} :
    resolveParts fs start parts = .ok loc ↔
      ∃ arrival, Walks fs () maxLinks start (parts.map ((), ·)) arrival ∧
        arrival.location = loc := by
  rw [resolveParts]
  constructor
  · intro hok
    cases hwalk : walk fs () maxLinks start (parts.map ((), ·)) with
    | error trouble =>
      rw [hwalk] at hok
      cases hok
    | ok arrival =>
      rw [hwalk] at hok
      exact ⟨arrival, walk_ok_iff.mp hwalk, Except.ok.inj hok⟩
  · rintro ⟨arrival, hwalks, rfl⟩
    rw [walk_ok_iff.mpr hwalks]
    rfl

/-- What a path leads to is there, and not a link. -/
theorem resolveParts_real {fs : Files} {parts : List (PathPart Bytes)} {c : Canonical}
    (hok : resolveParts fs [] parts = .ok c) : fs.Real c := by
  obtain ⟨arrival, hwalks, rfl⟩ := resolveParts_ok_iff.mp hok
  exact hwalks.real (real_of_isDir (isDir_iff.mpr fs.root_dir))

theorem walks_canonical {fs : Files} {c : Canonical} (real : fs.Real c) :
    Walks fs () maxLinks [] ((.root :: c.map .name).map ((), ·)) ⟨c, maxLinks, []⟩ := by
  rw [List.map_cons, List.map_map]
  exact .root (walks_location () real)

/-- A canonical path leads to itself. -/
theorem resolveParts_self {fs : Files} {parts : List (PathPart Bytes)} {c : Canonical}
    (hok : resolveParts fs [] parts = .ok c) :
    resolveParts fs [] (.root :: c.map .name) = .ok c :=
  resolveParts_ok_iff.mpr ⟨_, walks_canonical (resolveParts_real hok), rfl⟩

/-- The rest of a path may be resolved from the canonical path of its start. -/
theorem resolveParts_append {fs : Files} {parts more : List (PathPart Bytes)} {c : Canonical}
    (hok : resolveParts fs [] (parts ++ more) = .ok c) :
    ∃ base, resolveParts fs [] parts = .ok base ∧
      resolveParts fs [] (.root :: base.map .name ++ more) = .ok c := by
  obtain ⟨arrival, hwalks, rfl⟩ := resolveParts_ok_iff.mp hok
  rw [List.map_append] at hwalks
  obtain ⟨first, rest, hfirst, hrest, rfl⟩ := walks_append.mp hwalks
  have hstart : resolveParts fs [] parts = .ok first.location :=
    resolveParts_ok_iff.mpr ⟨first, hfirst, rfl⟩
  refine ⟨first.location, hstart, ?_⟩
  have hbase := walks_canonical (resolveParts_real hstart)
  have hmore := hrest.more (maxLinks - first.links)
  rw [Nat.add_sub_cancel' hfirst.links_le] at hmore
  have hall := walks_append.mpr ⟨_, _, hbase, hmore, rfl⟩
  rw [← List.map_append] at hall
  exact resolveParts_ok_iff.mpr ⟨_, hall, rfl⟩

/-! ## The host -/

/-- The machine and process that the program runs in. `owner`, `mode` and `read` are
those of the nodes of the file system; `read` has the text or the message of the error. -/
structure Host where
  files : Files
  workingDir : Canonical
  /-- `std::env::var`: nothing for a variable that is not set or not UTF-8. -/
  env : Text → Option Text
  uid : UInt32
  gid : UInt32
  owner : Canonical → UInt32
  mode : Canonical → UInt32
  read : Canonical → Except Text Text

/-! ## Absolute paths -/

/-- An absolute path; `slash` tells whether its text ends with a separator, which the
components do not show. -/
structure AbsolutePath where
  components : List Component
  slash : Bool
  deriving DecidableEq

/-- `std::path::absolute`: a leading `.` goes, `..` and a trailing separator stay. -/
def absolute (cwd : Canonical) (path : Bytes) : Anyhow AbsolutePath :=
  if path = [] then bail "cannot make an empty path absolute".toList
  else
    let own := (components path).dropWhile (· = .cur)
    .ok ⟨if isAbsolute path then own else .root :: cwd.map .name ++ own,
      path.getLast? = some 47⟩

def AbsolutePath.parent (path : AbsolutePath) : Option AbsolutePath :=
  (HostPaths.parent path.components).map fun components => ⟨components, false⟩

/-- `Path::ancestors`: the path itself, then its parents up to the root. -/
def AbsolutePath.ancestors (path : AbsolutePath) : List AbsolutePath :=
  let parents := path.components.dropLast.inits.reverse.filter (· ≠ [])
  path :: parents.map fun components => ⟨components, false⟩

def AbsolutePath.bytes (path : AbsolutePath) : Bytes :=
  ofComponents path.components ++
    if path.slash = true ∧ path.components ≠ [.root] then [47] else []

def componentPart : Component → PathPart Bytes
  | .root => .root
  | .cur => .cur
  | .up => .up
  | .name bytes => .name bytes

/-- A trailing separator asks for a directory. -/
def AbsolutePath.parts (path : AbsolutePath) : List (PathPart Bytes) :=
  path.components.map componentPart ++ if path.slash then [.cur] else []

def AbsolutePath.canonicalize (fs : Files) (path : AbsolutePath) : Except Trouble Canonical :=
  resolveParts fs [] path.parts

/-- `Path::is_symlink`: the last name is looked up and not followed; without one, what
the path leads to is not a symlink. -/
def AbsolutePath.isSymlink (fs : Files) (path : AbsolutePath) : Bool :=
  match path.parts.getLast? with
  | some (.name name) =>
    match resolveParts fs [] path.parts.dropLast with
    | .ok directory =>
      match fs.kind (directory ++ [name]) with
      | some (.symlink _) => true
      | _ => false
    | .error _ => false
  | _ => false

example : absolute [utf8 "home".toList, utf8 "u".toList] (utf8 "./a/../b/".toList) =
    .ok ⟨[.root, .name (utf8 "home".toList), .name (utf8 "u".toList), .name (utf8 "a".toList), .up,
      .name (utf8 "b".toList)], true⟩ := by decide

end HostFiles
