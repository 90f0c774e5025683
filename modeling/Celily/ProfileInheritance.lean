import Celily.ChainWalks
import Celily.MountBoundary

/-!
# The chain of inherited profiles

The loop of `merge_with_profile` follows the map from the profile to a name without an
entry. It visits no name twice, so it ends whatever the map; what it finds is the walk
of the map, and the files are merged from its far end. Without such a walk nothing is
opened.
-/

namespace ProfileInheritance

open RustText HostPaths HostFiles HomeSymlinks ConfigRules LoggedSteps Configuration MountBoundary
  ChainWalks

variable {inherit : List (Text × Text)} {chain path : List Text} {profile current : Text}

/-! ## The loop -/

/-- What one iteration does: it fails, breaks with the chain, or goes on. -/
inductive Iteration where
  | failed (error : ConfigError)
  | finished (chain : List Text)
  | going (chain : List Text) (current : Text)

def iterate (inherit : List (Text × Text)) (chain : List Text) (current : Text) : Iteration :=
  if current ∈ chain then
    .failed (.validation ("circular inheritance: profile '".toList ++ current ++
      "' appears more than once in the inheritance chain".toList))
  else
    match inherit.lookup current with
    | none => .finished (chain ++ [current])
    | some parent =>
      if parent = current then
        .failed (.validation ("profile '".toList ++ current ++
          "' cannot inherit from itself".toList))
      else if !isValidProfileName parent then
        .failed (.validation ("invalid parent profile name '".toList ++ parent ++
          "' in [inherit] for '".toList ++ current ++ "': ".toList ++ profileNameRule))
      else .going (chain ++ [current]) parent

/-- The loop when it may take so many iterations. -/
def chainWithin (inherit : List (Text × Text)) :
    Nat → List Text → Text → Option (Except ConfigError (List Text))
  | 0, _, _ => none
  | iterations + 1, chain, current =>
    match iterate inherit chain current with
    | .failed error => some (.error error)
    | .finished chain => some (.ok chain)
    | .going chain current => chainWithin inherit iterations chain current

theorem inheritChain_iterate (inherit : List (Text × Text)) (chain : List Text) (current : Text) :
    inheritChain inherit chain current =
      match iterate inherit chain current with
      | .failed error => .error error
      | .finished chain => .ok chain
      | .going chain current => inheritChain inherit chain current := by
  rw [inheritChain, iterate]
  split
  · rfl
  · split
    · rename_i hnone
      simp only [hnone]
    · rename_i parent hparent
      simp only [hparent]
      split
      · rfl
      · split
        · rfl
        · rfl

theorem iterate_going {next : List Text} {parent : Text}
    (hgoing : iterate inherit chain current = .going next parent) :
    current ∉ chain ∧ inherit.lookup current = some parent ∧ parent ≠ current ∧
      isValidProfileName parent = true ∧ next = chain ++ [current] := by
  rw [iterate] at hgoing
  split at hgoing
  · cases hgoing
  rename_i hnew
  split at hgoing
  · cases hgoing
  rename_i found hfound
  split at hgoing
  · cases hgoing
  rename_i hself
  split at hgoing
  · cases hgoing
  rename_i hvalid
  cases hgoing
  exact ⟨hnew, hfound, hself, by simpa using hvalid, rfl⟩

theorem iterate_finished {result : List Text}
    (hfinished : iterate inherit chain current = .finished result) :
    inherit.lookup current = none ∧ result = chain ++ [current] := by
  rw [iterate] at hfinished
  split at hfinished
  · cases hfinished
  split at hfinished
  · rename_i hnone
    cases hfinished
    exact ⟨hnone, rfl⟩
  · split at hfinished
    · cases hfinished
    · split at hfinished
      · cases hfinished
      · cases hfinished

/-- Every iteration visits a new name with an entry, or is the last. -/
theorem chainWithin_eq {iterations : Nat} (hmany : unvisited inherit chain < iterations) :
    chainWithin inherit iterations chain current = some (inheritChain inherit chain current) := by
  induction iterations generalizing chain current with
  | zero => omega
  | succ iterations ih =>
    rw [chainWithin, inheritChain_iterate]
    cases hstep : iterate inherit chain current with
    | failed error => rfl
    | finished chain => rfl
    | going next parent =>
      obtain ⟨hnew, hlookup, _, _, rfl⟩ := iterate_going hstep
      have hless := unvisited_lt hnew hlookup
      exact ih (by omega)

theorem unvisited_start (inherit : List (Text × Text)) : unvisited inherit [] = inherit.length := by
  rw [unvisited, List.countP_eq_length]
  exact fun entry _ => by simp

/-! ## What it finds -/

/-- The entry of a name. -/
def parentOf (inherit : List (Text × Text)) (name : Text) : Option Text := inherit.lookup name

/-- The loop succeeds on the walks of the map through valid names. -/
theorem inheritChain_of_walk (walk : Walk (parentOf inherit) current path)
    (hnew : ∀ name ∈ path, name ∉ chain)
    (hvalid : ∀ name ∈ path, name ≠ current → isValidProfileName name = true) :
    inheritChain inherit chain current = .ok (chain ++ path) := by
  induction walk generalizing chain with
  | @last current hnone =>
    have hlookup : inherit.lookup current = none := hnone
    rw [inheritChain_iterate, iterate, if_neg (hnew _ List.mem_cons_self), hlookup]
  | @step current parent path hsome walk ih =>
    have hlookup : inherit.lookup current = some parent := hsome
    obtain ⟨hfresh, hnodup⟩ := List.nodup_cons.mp (Walk.step hsome walk).nodup
    obtain ⟨rest, rfl⟩ := walk.head
    have hself : parent ≠ current := by
      rintro rfl
      exact hfresh List.mem_cons_self
    have hname := hvalid parent (by simp) hself
    have hstep : iterate inherit chain current = .going (chain ++ [current]) parent := by
      rw [iterate, if_neg (hnew _ List.mem_cons_self), hlookup]
      simp [hself, hname]
    rw [inheritChain_iterate, hstep]
    have hrest := @ih (chain ++ [current]) ?_ ?_
    · exact hrest.trans (by rw [List.append_assoc]; rfl)
    · intro name hmem hin
      rcases List.mem_append.mp hin with hin | hin
      · exact hnew name (List.mem_cons_of_mem _ hmem) hin
      · rw [List.mem_singleton.mp hin] at hmem
        exact hfresh hmem
    · intro name hmem _
      refine hvalid name (List.mem_cons_of_mem _ hmem) ?_
      rintro rfl
      exact hfresh hmem

theorem walk_of_chainWithin {iterations : Nat} {result : List Text}
    (hrun : chainWithin inherit iterations chain current = some (.ok result)) :
    ∃ path, Walk (parentOf inherit) current path ∧ result = chain ++ path ∧
      ∀ name ∈ path, name ≠ current → isValidProfileName name = true := by
  induction iterations generalizing chain current with
  | zero => cases hrun
  | succ iterations ih =>
    rw [chainWithin] at hrun
    cases hstep : iterate inherit chain current with
    | failed error =>
      rw [hstep] at hrun
      cases hrun
    | finished done =>
      rw [hstep] at hrun
      obtain rfl : done = result := by simpa using hrun
      obtain ⟨hnone, rfl⟩ := iterate_finished hstep
      exact ⟨[current], .last hnone, rfl, by simp⟩
    | going next parent =>
      rw [hstep] at hrun
      obtain ⟨_, hlookup, _, hparent, rfl⟩ := iterate_going hstep
      obtain ⟨path, walk, rfl, hvalid⟩ := ih hrun
      refine ⟨current :: path, .step hlookup walk, by simp, fun name hmem hne => ?_⟩
      rcases List.mem_cons.mp hmem with rfl | hmem
      · exact absurd rfl hne
      · by_cases hfirst : name = parent
        · rw [hfirst]
          exact hparent
        · exact hvalid name hmem hfirst

/-- The chain of the loop is the walk of the map, and passes valid names only. -/
theorem inheritChain_ok_iff (hprofile : isValidProfileName profile = true) :
    inheritChain inherit [] profile = .ok chain ↔
      Walk (parentOf inherit) profile chain ∧
        ∀ name ∈ chain, isValidProfileName name = true := by
  constructor
  · intro hok
    have hmany : unvisited inherit [] < inherit.length + 1 := by
      rw [unvisited_start]
      omega
    have hrun : chainWithin inherit (inherit.length + 1) [] profile =
        some (inheritChain inherit [] profile) := chainWithin_eq hmany
    rw [hok] at hrun
    obtain ⟨path, walk, rfl, hvalid⟩ := walk_of_chainWithin hrun
    refine ⟨walk, fun name hmem => ?_⟩
    by_cases hfirst : name = profile
    · rw [hfirst]
      exact hprofile
    · exact hvalid name hmem hfirst
  · rintro ⟨walk, hvalid⟩
    exact inheritChain_of_walk walk (fun _ _ => List.not_mem_nil)
      fun name hmem _ => hvalid name hmem

/-! ## The files -/

variable {host : Host} {toml : Toml}

/-- The file of the profile is there, and is read and parsed without an error. -/
def Loads (host : Host) (toml : Toml) (name : Text) (cfg : Config) : Prop :=
  fileExists host (profilePath host name) = true ∧
    ∃ log, (loadFile host toml (profilePath host name)).runFrom [] = (.ok cfg, log)

/-- A file that is loaded is read once, whatever was read before. -/
theorem loadParsed_ok {α : Type} {parse : Text → Except Text α} {path : Bytes} {a : α}
    {log log' : List Opened} (hrun : (loadParsed host parse path).runFrom log = (.ok a, log')) :
    ∃ location, ∀ before, (loadParsed host parse path).runFrom before =
      (.ok a, before ++ [⟨path, location⟩]) := by
  rw [loadParsed] at hrun ⊢
  rcases runFrom_bind_cases hrun with ⟨_, log₁, hcheck, hrun⟩ | ⟨_, _, herror⟩
  case inr => cases herror
  rw [runFrom_lift] at hcheck
  obtain ⟨hcheck, _⟩ := Prod.mk.inj hcheck
  rcases runFrom_bind_cases hrun with ⟨content, log₂, hread, hrun⟩ | ⟨_, _, herror⟩
  case inr => cases herror
  rw [runFrom_lift] at hrun
  obtain ⟨hparse, _⟩ := Prod.mk.inj hrun
  rw [readToString] at hread
  rcases runFrom_bind_cases hread with ⟨location, log₃, hresolve, hread⟩ | ⟨_, _, herror⟩
  case inr => cases herror
  rw [runFrom_lift] at hresolve
  obtain ⟨hresolve, _⟩ := Prod.mk.inj hresolve
  rw [runFrom_bind_ok (runFrom_tell _ _), runFrom_lift] at hread
  obtain ⟨hcontent, _⟩ := Prod.mk.inj hread
  refine ⟨location, fun before => ?_⟩
  have hreads : (readToString host path).runFrom before =
      (.ok content, before ++ [⟨path, location⟩]) := by
    rw [readToString, hresolve, runFrom_bind_ok (runFrom_lift _ _),
      runFrom_bind_ok (runFrom_tell _ _), runFrom_lift, hcontent]
  rw [hcheck, runFrom_bind_ok (runFrom_lift _ _), runFrom_bind_ok hreads, runFrom_lift, hparse]

theorem mergeProfiles_ok {names : List Text} {cfgs : List Config}
    (hloads : List.Forall₂ (Loads host toml) names cfgs) (merged : Config) (log : List Opened) :
    ∃ opened, (mergeProfiles host toml merged names).runFrom log =
        (.ok (cfgs.foldl Config.merge merged), log ++ opened) ∧
      opened.map Opened.path = names.map (profilePath host) := by
  induction hloads generalizing merged log with
  | nil => exact ⟨[], by rw [mergeProfiles, runFrom_pure, List.append_nil]; rfl, rfl⟩
  | @cons name cfg names cfgs hfirst _ ih =>
    obtain ⟨hexists, _, hload⟩ := hfirst
    obtain ⟨location, hload⟩ := loadParsed_ok hload
    obtain ⟨opened, hrest, hpaths⟩ := ih (merged.merge cfg) (log ++ [⟨_, location⟩])
    refine ⟨⟨profilePath host name, location⟩ :: opened, ?_, ?_⟩
    · rw [mergeProfiles]
      simp only [hexists, Bool.not_true, Bool.false_eq_true, if_false]
      have hfile : (loadFile host toml (profilePath host name)).runFrom log =
          (.ok cfg, log ++ [⟨profilePath host name, location⟩]) := hload log
      rw [runFrom_bind_ok hfile, hrest, List.append_assoc]
      rfl
    · rw [List.map_cons, List.map_cons, hpaths]

/-- The path of a valid profile name, directly in the directory of the profiles. -/
def InProfilesDir (host : Host) (path : Bytes) : Prop :=
  ∃ name, isValidProfileName name = true ∧ path = profilePath host name ∧
    components path = components (profilesDir host) ++ [.name (utf8 (name ++ ".toml".toList))]

theorem profilePath_inProfilesDir (host : Host) {name : Text}
    (hvalid : isValidProfileName name = true) : InProfilesDir host (profilePath host name) := by
  refine ⟨name, hvalid, rfl, components_join _ (slash_notMem_utf8 ?_) ?_⟩
  · intro hmem
    simp only [isValidProfileName, Bool.and_eq_true] at hvalid
    rcases List.mem_append.mp hmem with hmem | hmem
    · simp [hmem] at hvalid
    · exact absurd hmem (by decide)
  · have hlength : 5 ≤ (utf8 (name ++ ".toml".toList)).length := by
      rw [utf8_append, List.length_append]
      exact Nat.le_add_left 5 _
    have hne : ∀ piece : Bytes, piece.length < 5 → utf8 (name ++ ".toml".toList) ≠ piece := by
      rintro piece hshort rfl
      omega
    rw [pieceComponent, if_neg, if_neg]
    · exact hne _ (by decide)
    · rw [not_or]
      exact ⟨hne _ (by decide), hne _ (by decide)⟩

theorem loadFile_logs (path : Bytes) :
    Logs (fun file => file.path = path) (loadFile host toml path) := by
  rw [loadFile, loadParsed]
  refine logs_bind (logs_lift _) fun _ => logs_bind ?_ fun content => logs_lift _
  rw [readToString]
  exact logs_bind (logs_lift _) fun location => logs_bind (logs_tell rfl) fun _ => logs_lift _

theorem mergeProfiles_opens {names : List Text}
    (hvalid : ∀ name ∈ names, isValidProfileName name = true) (merged : Config) :
    Logs (fun file => InProfilesDir host file.path) (mergeProfiles host toml merged names) := by
  induction names generalizing merged with
  | nil => exact logs_pure _
  | cons name names ih =>
    have hfirst := profilePath_inProfilesDir host (hvalid name List.mem_cons_self)
    rw [mergeProfiles]
    dsimp only
    split
    · exact logs_throw _
    · refine logs_bind ((loadFile_logs _).mono fun file hpath => ?_) fun cfg =>
        ih (fun other hmem => hvalid other (List.mem_cons_of_mem name hmem)) (merged.merge cfg)
      rw [hpath]
      exact hfirst

/-! ## The whole walk -/

/-- The name of the profile is accepted, and the loop breaks with the chain. -/
def Produces (inherit : List (Text × Text)) (profile : Text) (chain : List Text) : Prop :=
  isValidProfileName profile = true ∧ inheritChain inherit [] profile = .ok chain

/-- Following the map from the profile comes to an end, through valid names only. -/
def Ends (inherit : List (Text × Text)) (profile : Text) : Prop :=
  (∃ k, after (parentOf inherit) profile k = none) ∧
    ∀ k name, after (parentOf inherit) profile k = some name → isValidProfileName name = true

theorem produces_iff : Produces inherit profile chain ↔
    Walk (parentOf inherit) profile chain ∧ ∀ name ∈ chain, isValidProfileName name = true := by
  constructor
  · rintro ⟨hprofile, hok⟩
    exact (inheritChain_ok_iff hprofile).mp hok
  · rintro ⟨walk, hvalid⟩
    have hprofile : isValidProfileName profile = true := by
      obtain ⟨rest, rfl⟩ := walk.head
      exact hvalid profile List.mem_cons_self
    exact ⟨hprofile, (inheritChain_ok_iff hprofile).mpr ⟨walk, hvalid⟩⟩

theorem exists_produces_iff : (∃ chain, Produces inherit profile chain) ↔ Ends inherit profile := by
  constructor
  · rintro ⟨chain, hproduces⟩
    obtain ⟨walk, hvalid⟩ := produces_iff.mp hproduces
    exact ⟨exists_walk_iff.mp ⟨chain, walk⟩,
      fun k name hname => hvalid name (walk.mem_iff.mpr ⟨k, hname⟩)⟩
  · rintro ⟨hends, hvalid⟩
    obtain ⟨chain, walk⟩ := exists_walk_iff.mpr hends
    refine ⟨chain, produces_iff.mpr ⟨walk, fun name hmem => ?_⟩⟩
    obtain ⟨k, hname⟩ := walk.mem_iff.mp hmem
    exact hvalid k name hname

theorem mergeWithProfile_produces (hproduces : Produces inherit profile chain)
    (default : Config) (log : List Opened) :
    (mergeWithProfile host toml default profile inherit).runFrom log =
      (mergeProfiles host toml default chain.reverse).runFrom log := by
  obtain ⟨hprofile, hok⟩ := hproduces
  rw [mergeWithProfile]
  simp only [hprofile, Bool.not_true, Bool.false_eq_true, if_false]
  rw [hok, runFrom_bind_ok (runFrom_lift _ _)]

theorem mergeWithProfile_fails (hnone : ¬∃ chain, Produces inherit profile chain)
    (default : Config) (log : List Opened) :
    ∃ error, (mergeWithProfile host toml default profile inherit).runFrom log =
      (.error error, log) := by
  rw [mergeWithProfile]
  cases hprofile : isValidProfileName profile with
  | false => exact ⟨_, runFrom_throw _ log⟩
  | true =>
    cases hchain : inheritChain inherit [] profile with
    | ok chain => exact absurd ⟨chain, hprofile, hchain⟩ hnone
    | error error => exact ⟨error, runFrom_bind_error (runFrom_lift _ log)⟩

/-- For every map and every profile: the loop ends, with a chain exactly when the map
leads to an end through valid names; the files are merged from the root, each once; and
nothing is opened without a chain, or outside the directory of the profiles. -/
theorem mergeWithProfile_walk (host : Host) (toml : Toml) (default : Config) (profile : Text)
    (inherit : List (Text × Text)) :
    chainWithin inherit (inherit.length + 1) [] profile =
        some (inheritChain inherit [] profile) ∧
      ((∃ chain, Produces inherit profile chain) ↔ Ends inherit profile) ∧
      (∀ chain, Produces inherit profile chain →
        chain.Nodup ∧ chain.head? = some profile ∧
        (∀ k, chain[k + 1]? = chain[k]?.bind (parentOf inherit)) ∧
        ∀ cfgs, List.Forall₂ (Loads host toml) chain cfgs → ∀ log, ∃ opened,
          (mergeWithProfile host toml default profile inherit).runFrom log =
            (.ok (cfgs.reverse.foldl Config.merge default), log ++ opened) ∧
          opened.map Opened.path = chain.reverse.map (profilePath host)) ∧
      (¬Ends inherit profile → ∀ log, ∃ error,
        (mergeWithProfile host toml default profile inherit).runFrom log = (.error error, log)) ∧
      ∀ log result log',
        (mergeWithProfile host toml default profile inherit).runFrom log = (result, log') →
        ∃ opened, log' = log ++ opened ∧ ∀ file ∈ opened, InProfilesDir host file.path := by
  refine ⟨?_, exists_produces_iff, ?_, ?_, ?_⟩
  · exact chainWithin_eq (by rw [unvisited_start]; omega)
  · intro chain hproduces
    obtain ⟨walk, _⟩ := produces_iff.mp hproduces
    obtain ⟨rest, hhead⟩ := walk.head
    refine ⟨walk.nodup, by rw [hhead]; rfl, walk.successor, fun cfgs hloads log => ?_⟩
    rw [mergeWithProfile_produces hproduces]
    exact mergeProfiles_ok (List.rel_reverse hloads) default log
  · intro hends
    exact mergeWithProfile_fails (mt exists_produces_iff.mp hends) default
  · intro log result log' hrun
    by_cases hchain : ∃ chain, Produces inherit profile chain
    · obtain ⟨chain, hproduces⟩ := hchain
      obtain ⟨_, hvalid⟩ := produces_iff.mp hproduces
      rw [mergeWithProfile_produces hproduces] at hrun
      exact mergeProfiles_opens (fun name hmem => hvalid name (List.mem_reverse.mp hmem)) default
        log result log' hrun
    · have hfails : ∃ error, (mergeWithProfile host toml default profile inherit).runFrom log =
          (.error error, log) := mergeWithProfile_fails hchain default log
      obtain ⟨error, hfails⟩ := hfails
      rw [hfails] at hrun
      obtain ⟨_, rfl⟩ := Prod.mk.inj hrun
      exact ⟨[], (List.append_nil log).symm, nofun⟩

/-! ## A profile with a parent -/

def profileFiles : Files := .ofEntries
  [([name "home"], .dir), (userHome, .dir), (userHome ++ [name ".config"], .dir),
    (userHome ++ [name ".config", name "celily"], .dir),
    (userHome ++ [name ".config", name "celily", name "profiles"], .dir),
    (userHome ++ [name ".config", name "celily", name "profiles", name "base.toml"], .file),
    (userHome ++ [name ".config", name "celily", name "profiles", name "work.toml"], .file)]
  (by decide +kernel)

def profileHost : Host := userHost profileFiles
  [(userHome ++ [name ".config", name "celily", name "profiles", name "base.toml"], ['b']),
    (userHome ++ [name ".config", name "celily", name "profiles", name "work.toml"], ['w'])]

/-- A file of one letter sets the image to it. -/
def imageToml : Toml where
  config text := .ok { Config.default with image := some text }
  profiles _ := .error []

theorem loads_image (name image : Text)
    (hexists : fileExists profileHost (profilePath profileHost name) = true)
    (himage : ((loadFile profileHost imageToml (profilePath profileHost name)).runFrom
      []).1.toOption.map Config.image = some (some image)) :
    ∃ cfg, Loads profileHost imageToml name cfg ∧ cfg.image = some image := by
  obtain ⟨cfg, hload, himage⟩ := of_toOption_map himage
  exact ⟨cfg, ⟨hexists, _, Prod.ext hload rfl⟩, himage⟩

theorem mergeWithProfile_walk_work : ∃ merged opened,
    (mergeWithProfile profileHost imageToml .default "work".toList
      [("work".toList, "base".toList)]).runFrom [] = (.ok merged, opened) ∧
    merged.image = some ['w'] ∧
    opened.map Opened.path =
      [profilePath profileHost "base".toList, profilePath profileHost "work".toList] := by
  obtain ⟨_, _, hchain, _⟩ := mergeWithProfile_walk profileHost imageToml .default "work".toList
    [("work".toList, "base".toList)]
  have hproduces : Produces [("work".toList, "base".toList)] "work".toList
      ["work".toList, "base".toList] := by
    refine produces_iff.mpr ⟨.step rfl (.last rfl), ?_⟩
    decide
  obtain ⟨work, hwork, himage⟩ := loads_image "work".toList ['w']
    (by decide +kernel) (by decide +kernel)
  obtain ⟨base, hbase, _⟩ := loads_image "base".toList ['b']
    (by decide +kernel) (by decide +kernel)
  obtain ⟨_, _, _, hmerged⟩ := hchain _ hproduces
  obtain ⟨opened, hrun, hopened⟩ := hmerged [work, base] (.cons hwork (.cons hbase .nil)) []
  refine ⟨_, opened, hrun, ?_, hopened⟩
  change overwriteSome (overwriteSome none base.image) work.image = some ['w']
  rw [himage]
  rfl

end ProfileInheritance
