import Mathlib.Data.List.Basic

/-!
# Scripts that stop at the first error

A small shell language: words with parameters, assignments, commands, a conditional on a
command, `cd`, and the `exec` of the script's arguments. After `set -eu` an unset
parameter or a failing command ends the script, but not one that a conditional tests.
What a command does to the world is a relation, so that it may fail in any way.
`Triple` gives a script's pre- and postconditions, with a rule for each form.
-/

namespace ErrexitScripts

variable {α W : Type}

inductive Piece (α : Type) where
  | text (text : List α)
  | param (name : List α)

/-- A quoted word: its parameters are expanded and never split. -/
abbrev Word (α : Type) := List (Piece α)

inductive Script (α : Type) where
  /-- `set -eu` -/
  | strict
  | assign (name : List α) (value : Word α)
  | run (argv : List (Word α))
  | branch (argv : List (Word α)) (yes no : Script α)
  | cd (dir : Word α)
  /-- `exec "$@"` -/
  | execArgs
  | seq (first rest : Script α)

structure Shell (α W : Type) where
  vars : List (List α × List α)
  cwd : List α
  world : W
  strict : Bool

/-- What the commands do: their effect and status, and where a `cd` leads. -/
structure Tools (α W : Type) where
  runs : List (List α) → List α → W → Nat → W → Prop
  enters : W → List α → List α → Option (List α)

inductive Outcome (α W : Type) where
  | next (status : Nat) (shell : Shell α W)
  | exited (status : Nat) (world : W)
  /-- The shell has become another command. -/
  | replaced (argv : List (List α)) (shell : Shell α W)

section Expand
variable [DecidableEq α]

/-- An unset parameter is empty, or an error. -/
def Shell.piece (shell : Shell α W) : Piece α → Option (List α)
  | .text text => some text
  | .param name =>
    match shell.vars.lookup name with
    | some value => some value
    | none => if shell.strict then none else some []

def Shell.expand (shell : Shell α W) (word : Word α) : Option (List α) :=
  (word.mapM shell.piece).map List.flatten

def Shell.words (shell : Shell α W) (argv : List (Word α)) : Option (List (List α)) :=
  argv.mapM shell.expand

end Expand

/-- A failing command ends a strict script. -/
def Shell.settle (shell : Shell α W) (status : Nat) : Outcome α W :=
  if shell.strict = true ∧ status ≠ 0 then .exited status shell.world else .next status shell

variable [DecidableEq α]

inductive Exec (tools : Tools α W) (args : List (List α)) :
    Script α → Shell α W → Outcome α W → Prop where
  | strict (s : Shell α W) : Exec tools args .strict s (.next 0 { s with strict := true })
  | assign {s : Shell α W} {name : List α} {value : Word α} {text : List α} :
      s.expand value = some text →
      Exec tools args (.assign name value) s (.next 0 { s with vars := (name, text) :: s.vars })
  | assignUnset {s : Shell α W} {name : List α} {value : Word α} {status : Nat} :
      s.expand value = none → status ≠ 0 →
      Exec tools args (.assign name value) s (.exited status s.world)
  | run {s : Shell α W} {argv : List (Word α)} {words : List (List α)} {status : Nat} {world : W} :
      s.words argv = some words → tools.runs words s.cwd s.world status world →
      Exec tools args (.run argv) s ({ s with world := world }.settle status)
  | runUnset {s : Shell α W} {argv : List (Word α)} {status : Nat} :
      s.words argv = none → status ≠ 0 → Exec tools args (.run argv) s (.exited status s.world)
  | branchYes {s : Shell α W} {argv : List (Word α)} {yes no : Script α} {words : List (List α)}
      {world : W} {o : Outcome α W} :
      s.words argv = some words → tools.runs words s.cwd s.world 0 world →
      Exec tools args yes { s with world := world } o → Exec tools args (.branch argv yes no) s o
  | branchNo {s : Shell α W} {argv : List (Word α)} {yes no : Script α} {words : List (List α)}
      {status : Nat} {world : W} {o : Outcome α W} :
      s.words argv = some words → tools.runs words s.cwd s.world status world → status ≠ 0 →
      Exec tools args no { s with world := world } o → Exec tools args (.branch argv yes no) s o
  | branchUnset {s : Shell α W} {argv : List (Word α)} {yes no : Script α} {status : Nat} :
      s.words argv = none → status ≠ 0 →
      Exec tools args (.branch argv yes no) s (.exited status s.world)
  | cd {s : Shell α W} {dir : Word α} {text path : List α} :
      s.expand dir = some text → tools.enters s.world s.cwd text = some path →
      Exec tools args (.cd dir) s (.next 0 { s with cwd := path })
  | cdFails {s : Shell α W} {dir : Word α} {text : List α} {status : Nat} :
      s.expand dir = some text → tools.enters s.world s.cwd text = none → status ≠ 0 →
      Exec tools args (.cd dir) s (s.settle status)
  | cdUnset {s : Shell α W} {dir : Word α} {status : Nat} :
      s.expand dir = none → status ≠ 0 → Exec tools args (.cd dir) s (.exited status s.world)
  | execArgs (s : Shell α W) : args ≠ [] → Exec tools args .execArgs s (.replaced args s)
  | execNothing (s : Shell α W) : args = [] → Exec tools args .execArgs s (.next 0 s)
  | seq {s t : Shell α W} {first rest : Script α} {status : Nat} {o : Outcome α W} :
      Exec tools args first s (.next status t) → Exec tools args rest t o →
      Exec tools args (.seq first rest) s o
  | seqExited {s : Shell α W} {first rest : Script α} {status : Nat} {world : W} :
      Exec tools args first s (.exited status world) →
      Exec tools args (.seq first rest) s (.exited status world)
  | seqReplaced {s t : Shell α W} {first rest : Script α} {argv : List (List α)} :
      Exec tools args first s (.replaced argv t) →
      Exec tools args (.seq first rest) s (.replaced argv t)

/-- A command that succeeds goes on. -/
theorem exec_run {tools : Tools α W} {args : List (List α)} {s : Shell α W}
    {argv : List (Word α)} {words : List (List α)} {world : W} (hwords : s.words argv = some words)
    (hruns : tools.runs words s.cwd s.world 0 world) :
    Exec tools args (.run argv) s (.next 0 { s with world := world }) := by
  have hexec : Exec tools args (.run argv) s _ := Exec.run hwords hruns
  rwa [Shell.settle, if_neg (by simp)] at hexec

/-! ## Triples -/

/-- `Q` where the script goes on, `R` where the shell becomes its arguments; where it
ends, it fails. -/
def Meets (Q R : Shell α W → Prop) (args : List (List α)) : Outcome α W → Prop
  | .next _ shell => Q shell
  | .exited status _ => status ≠ 0
  | .replaced argv shell => argv = args ∧ R shell

def Triple (tools : Tools α W) (args : List (List α)) (P : Shell α W → Prop) (script : Script α)
    (Q R : Shell α W → Prop) : Prop :=
  ∀ s o, P s → Exec tools args script s o → Meets Q R args o

section Rules
variable {tools : Tools α W} {args : List (List α)} {P M Q R : Shell α W → Prop}

theorem triple_seq {first rest : Script α} (hfirst : Triple tools args P first M R)
    (hrest : Triple tools args M rest Q R) : Triple tools args P (.seq first rest) Q R := by
  intro s o hP hexec
  cases hexec with
  | seq hleft hright => exact hrest _ _ (hfirst _ _ hP hleft) hright
  | seqExited hleft => exact hfirst _ (.exited _ _) hP hleft
  | seqReplaced hleft => exact hfirst _ (.replaced _ _) hP hleft

theorem triple_strict (hQ : ∀ s, P s → Q { s with strict := true }) :
    Triple tools args P .strict Q R := by
  intro s o hP hexec
  cases hexec with
  | strict => exact hQ s hP

theorem triple_assign {name : List α} {value : Word α}
    (hQ : ∀ s text, P s → s.expand value = some text →
      Q { s with vars := (name, text) :: s.vars }) :
    Triple tools args P (.assign name value) Q R := by
  intro s o hP hexec
  cases hexec with
  | assign hexpand => exact hQ s _ hP hexpand
  | assignUnset _ hstatus => exact hstatus

omit [DecidableEq α] in
theorem meets_settle {s : Shell α W} {status : Nat} (hstrict : s.strict = true)
    (hQ : status = 0 → Q s) : Meets Q R args (s.settle status) := by
  by_cases hstatus : status = 0
  · rw [Shell.settle, if_neg (by simp [hstatus])]
    exact hQ hstatus
  · rw [Shell.settle, if_pos ⟨hstrict, hstatus⟩]
    exact hstatus

/-- Under `set -eu` a command that has not ended the script has succeeded. -/
theorem triple_run {argv : List (Word α)} (hstrict : ∀ s, P s → s.strict = true)
    (hQ : ∀ s words world, P s → s.words argv = some words →
      tools.runs words s.cwd s.world 0 world → Q { s with world := world }) :
    Triple tools args P (.run argv) Q R := by
  intro s o hP hexec
  cases hexec with
  | run hwords hruns =>
    refine meets_settle (hstrict s hP) ?_
    rintro rfl
    exact hQ s _ _ hP hwords hruns
  | runUnset _ hstatus => exact hstatus

/-- A conditional goes on whether its command succeeds or fails. -/
theorem triple_branch {argv : List (Word α)} {yes no : Script α} {Y N : Shell α W → Prop}
    (hY : ∀ s words world, P s → s.words argv = some words →
      tools.runs words s.cwd s.world 0 world → Y { s with world := world })
    (hN : ∀ s words status world, P s → s.words argv = some words → status ≠ 0 →
      tools.runs words s.cwd s.world status world → N { s with world := world })
    (hyes : Triple tools args Y yes Q R) (hno : Triple tools args N no Q R) :
    Triple tools args P (.branch argv yes no) Q R := by
  intro s o hP hexec
  cases hexec with
  | branchYes hwords hruns hthen => exact hyes _ _ (hY s _ _ hP hwords hruns) hthen
  | branchNo hwords hruns hstatus helse => exact hno _ _ (hN s _ _ _ hP hwords hstatus hruns) helse
  | branchUnset _ hstatus => exact hstatus

theorem triple_cd {dir : Word α} (hstrict : ∀ s, P s → s.strict = true)
    (hQ : ∀ s text path, P s → s.expand dir = some text →
      tools.enters s.world s.cwd text = some path → Q { s with cwd := path }) :
    Triple tools args P (.cd dir) Q R := by
  intro s o hP hexec
  cases hexec with
  | cd hexpand henters => exact hQ s _ _ hP hexpand henters
  | cdFails _ _ hstatus =>
    exact meets_settle (hstrict s hP) fun hzero => absurd hzero hstatus
  | cdUnset _ hstatus => exact hstatus

theorem triple_execArgs (hargs : args ≠ []) (hR : ∀ s, P s → R s) :
    Triple tools args P .execArgs Q R := by
  intro s o hP hexec
  cases hexec with
  | execArgs => exact ⟨rfl, hR s hP⟩
  | execNothing _ hnone => exact absurd hnone hargs

end Rules

/-! ## Expansion -/

section Expansion
variable {s : Shell α W}

theorem piece_param {name value : List α} (hvalue : s.vars.lookup name = some value) :
    s.piece (.param name) = some value := by
  rw [Shell.piece, hvalue]

/-- Under `set -eu` a parameter that has been expanded is set. -/
theorem lookup_of_piece {name value : List α} (hstrict : s.strict = true)
    (hpiece : s.piece (.param name) = some value) : s.vars.lookup name = some value := by
  cases hvalue : s.vars.lookup name with
  | some other => rwa [piece_param hvalue] at hpiece
  | none =>
    rw [Shell.piece, hvalue, hstrict] at hpiece
    cases hpiece

theorem expand_nil : s.expand [] = some [] := rfl

theorem expand_cons_iff {piece : Piece α} {word : Word α} {text : List α} :
    s.expand (piece :: word) = some text ↔
      ∃ first rest, s.piece piece = some first ∧ s.expand word = some rest ∧
        text = first ++ rest := by
  simp only [Shell.expand, List.mapM_cons, Option.map_eq_some_iff, Option.bind_eq_bind,
    Option.bind_eq_some_iff, Option.pure_def, Option.some.injEq]
  constructor
  · rintro ⟨_, ⟨first, hfirst, texts, htexts, rfl⟩, rfl⟩
    exact ⟨first, texts.flatten, hfirst, ⟨texts, htexts, rfl⟩, rfl⟩
  · rintro ⟨first, _, hfirst, ⟨texts, htexts, rfl⟩, rfl⟩
    exact ⟨first :: texts, ⟨first, hfirst, texts, htexts, rfl⟩, rfl⟩

theorem expand_cons {piece : Piece α} {word : Word α} {first rest : List α}
    (hfirst : s.piece piece = some first) (hrest : s.expand word = some rest) :
    s.expand (piece :: word) = some (first ++ rest) :=
  expand_cons_iff.mpr ⟨first, rest, hfirst, hrest, rfl⟩

theorem expand_one_iff {piece : Piece α} {text : List α} :
    s.expand [piece] = some text ↔ s.piece piece = some text := by
  rw [expand_cons_iff]
  constructor
  · rintro ⟨first, rest, hfirst, hrest, rfl⟩
    rw [expand_nil] at hrest
    rw [← Option.some.inj hrest, List.append_nil]
    exact hfirst
  · intro hpiece
    exact ⟨text, [], hpiece, expand_nil, (List.append_nil text).symm⟩

theorem words_nil : s.words [] = some [] := rfl

theorem words_cons {word : Word α} {argv : List (Word α)} {first : List α} {rest : List (List α)}
    (hfirst : s.expand word = some first) (hrest : s.words argv = some rest) :
    s.words (word :: argv) = some (first :: rest) := by
  simp only [Shell.words] at hrest
  simp only [Shell.words, List.mapM_cons, hfirst, hrest]
  rfl

end Expansion

end ErrexitScripts
