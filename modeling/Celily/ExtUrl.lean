import Celily.GitRemote

/-!
# Reading an ext url

`git-remote-ext` takes the command of an `ext::` url apart at its unescaped spaces and
gives the `%` sequences their meaning. What the sandbox remote writes into the config is
read back as the argument vector it was made of, so that the host runs that command and
no other one.
-/

namespace ExtUrl

open RustText GitRemote

/-- One argument and what stands behind its space; `none` at a placeholder and at a `%`
that begins no sequence. -/
def readArg : Text → Option (Text × Text)
  | [] => some ([], [])
  | ' ' :: rest => some ([], rest)
  | '%' :: ' ' :: rest => (readArg rest).map fun read => (' ' :: read.1, read.2)
  | '%' :: '%' :: rest => (readArg rest).map fun read => ('%' :: read.1, read.2)
  | '%' :: _ => none
  | c :: rest => (readArg rest).map fun read => (c :: read.1, read.2)

theorem readArg_map_length {c : Char} {rest : Text} {read : Text × Text}
    (hrest : ∀ {read : Text × Text}, readArg rest = some read → read.2.length ≤ rest.length - 1)
    (hread : (readArg rest).map (fun read => (c :: read.1, read.2)) = some read) :
    read.2.length ≤ rest.length - 1 := by
  obtain ⟨own, hown, rfl⟩ := Option.map_eq_some_iff.mp hread
  have hshorter := hrest hown
  exact hshorter

theorem readArg_length {s : Text} {read : Text × Text} (hread : readArg s = some read) :
    read.2.length ≤ s.length - 1 := by
  fun_induction readArg s generalizing read with
  | case1 =>
    cases hread
    exact Nat.le_refl 0
  | case2 rest =>
    cases hread
    exact Nat.le_refl rest.length
  | case3 rest ih =>
    have hshorter := readArg_map_length ih hread
    simp only [List.length_cons]
    omega
  | case4 rest ih =>
    have hshorter := readArg_map_length ih hread
    simp only [List.length_cons]
    omega
  | case5 => cases hread
  | case6 c rest _ _ _ _ ih =>
    have hshorter := readArg_map_length ih hread
    simp only [List.length_cons]
    omega

/-- The arguments, as long as anything is left of the text. -/
def readArgs (s : Text) : Option (List Text) :=
  if _ : s = [] then some []
  else
    match _ : readArg s with
    | none => none
    | some (arg, rest) => (readArgs rest).map (arg :: ·)
termination_by s.length
decreasing_by
  have hshorter := readArg_length ‹readArg s = some (arg, rest)›
  have hpos := List.length_pos_iff.mpr ‹s ≠ []›
  simp only at hshorter
  omega

/-- The argument vector that `git-remote-ext` makes of a url. -/
def readUrl (url : Text) : Option (List Text) := (stripPrefix extStart url).bind readArgs

theorem readArg_plain {c : Char} (hblank : c ≠ ' ') (hpercent : c ≠ '%') (rest : Text) :
    readArg (c :: rest) = (readArg rest).map fun read => (c :: read.1, read.2) := by
  rw [readArg]
  · exact hblank
  · exact fun _ h => absurd h hpercent
  · exact fun _ h => absurd h hpercent
  · exact hpercent

/-- An escaped argument is read to its end, at the end of the text and before a space. -/
theorem readArg_escapeArg (arg rest : Text) :
    readArg (escapeArg arg) = some (arg, []) ∧
      readArg (escapeArg arg ++ ' ' :: rest) = some (arg, rest) := by
  induction arg with
  | nil => exact ⟨rfl, rfl⟩
  | cons c arg ih =>
    obtain ⟨hend, hspace⟩ := ih
    by_cases hpercent : c = '%'
    · subst hpercent
      have hescape : escapeArg ('%' :: arg) = '%' :: '%' :: escapeArg arg := rfl
      rw [hescape, List.cons_append, List.cons_append, readArg, readArg, hend, hspace]
      exact ⟨rfl, rfl⟩
    by_cases hblank : c = ' '
    · subst hblank
      have hescape : escapeArg (' ' :: arg) = '%' :: ' ' :: escapeArg arg := rfl
      rw [hescape, List.cons_append, List.cons_append, readArg, readArg, hend, hspace]
      exact ⟨rfl, rfl⟩
    · have hescape : escapeArg (c :: arg) = c :: escapeArg arg := by
        rw [escapeArg, replace, replace, List.flatMap_cons, if_neg hpercent, List.singleton_append,
          List.flatMap_cons, if_neg hblank]
        rfl
      rw [hescape, List.cons_append, readArg_plain hblank hpercent, readArg_plain hblank hpercent,
        hend, hspace]
      exact ⟨rfl, rfl⟩

theorem readArgs_of_readArg {s arg rest : Text} (hs : s ≠ [])
    (hread : readArg s = some (arg, rest)) :
    readArgs s = (readArgs rest).map (arg :: ·) := by
  rw [readArgs, dif_neg hs]
  split
  · next hnone =>
    rw [hread] at hnone
    cases hnone
  · next hsome =>
    rw [hread] at hsome
    cases hsome
    rfl

/-- The arguments are read back, except for an empty one at the end. -/
theorem readArgs_escapeArg (args : List Text) :
    readArgs ([' '].intercalate (args.map escapeArg)) = some args ↔
      args.getLast? ≠ some [] := by
  induction args with
  | nil =>
    have hempty : readArgs [] = some [] := by rw [readArgs, dif_pos rfl]
    exact iff_of_true hempty (fun h => nomatch h)
  | cons arg args ih =>
    cases args with
    | nil =>
      have hone : [' '].intercalate ([arg].map escapeArg) = escapeArg arg :=
        List.append_nil (escapeArg arg)
      rw [hone, List.getLast?_singleton]
      by_cases harg : arg = []
      · subst harg
        have hempty : readArgs (escapeArg []) = some [] := by
          rw [readArgs]
          rfl
        rw [hempty]
        exact iff_of_false (fun h => nomatch h) (fun h => h rfl)
      · have hne : escapeArg arg ≠ [] := by
          intro hempty
          have hread := (readArg_escapeArg arg []).1
          rw [hempty, readArg] at hread
          cases hread
          exact harg rfl
        rw [readArgs_of_readArg hne (readArg_escapeArg arg []).1, readArgs, dif_pos rfl]
        exact iff_of_true rfl fun h => harg (Option.some.inj h)
    | cons next args =>
      have hjoin : [' '].intercalate ((arg :: next :: args).map escapeArg) =
          escapeArg arg ++ ' ' :: [' '].intercalate ((next :: args).map escapeArg) := by
        rw [List.map_cons, List.map_cons, List.intercalate_cons_cons, List.append_assoc]
        rfl
      have hne : escapeArg arg ++ ' ' :: [' '].intercalate ((next :: args).map escapeArg) ≠ [] :=
        List.append_ne_nil_of_right_ne_nil _ (List.cons_ne_nil _ _)
      rw [hjoin, readArgs_of_readArg hne (readArg_escapeArg arg _).2,
        List.getLast?_cons_cons, ← ih]
      constructor
      · intro hread
        obtain ⟨read, hread, heq⟩ := Option.map_eq_some_iff.mp hread
        rw [hread, (List.cons.inj heq).2]
      · intro hread
        rw [hread]
        rfl

/-! ## The url of an argument vector -/

theorem stripPrefix_append (start s : Text) : stripPrefix start (start ++ s) = some s := by
  have hstart : start.isPrefixOf (start ++ s) = true :=
    List.isPrefixOf_iff_prefix.mpr (List.prefix_append start s)
  rw [stripPrefix, if_pos hstart, List.drop_left]

theorem mapM_toStr_utf8 (args : List Text) : (args.map utf8).mapM toStr = some args := by
  induction args with
  | nil => rfl
  | cons arg args ih =>
    rw [List.map_cons, List.mapM_cons, (toStr_eq_some_iff _ _).mpr rfl, ih]
    rfl

theorem mapM_toStr_none (argv : List Bytes) :
    argv.mapM toStr = none ↔ ∃ arg ∈ argv, ∀ text, utf8 text ≠ arg := by
  induction argv with
  | nil => exact iff_of_false (fun h => nomatch h) (fun ⟨_, hmem, _⟩ => nomatch hmem)
  | cons arg argv ih =>
    rw [List.mapM_cons, List.exists_mem_cons_iff, ← ih]
    cases harg : toStr arg with
    | none =>
      refine iff_of_true rfl (Or.inl fun text htext => ?_)
      rw [(toStr_eq_some_iff arg text).mpr htext] at harg
      cases harg
    | some text =>
      have htext := (toStr_eq_some_iff arg text).mp harg
      cases hargv : argv.mapM toStr with
      | none => exact iff_of_true rfl (Or.inr rfl)
      | some args =>
        refine iff_of_false (fun h => nomatch h) ?_
        rintro (hbad | hbad)
        · exact hbad text htext
        · cases hbad

/-- What `extUrl` writes, `git-remote-ext` reads back: every argument vector, unless its
last argument is empty. It fails on those that are not text. -/
theorem readUrl_extUrl (args : List Text) (argv : List Bytes) :
    ((extUrl (args.map utf8)).bind readUrl = some args ↔ args.getLast? ≠ some []) ∧
    (extUrl argv = none ↔ ∃ arg ∈ argv, ∀ text, utf8 text ≠ arg) := by
  constructor
  · rw [← readArgs_escapeArg, extUrl, mapM_toStr_utf8, Option.map_some, Option.bind_some, readUrl,
      stripPrefix_append, Option.bind_some]
  · rw [← mapM_toStr_none, extUrl, Option.map_eq_none_iff]

end ExtUrl
