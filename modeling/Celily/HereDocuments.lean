import Celily.RustText
import Celily.SegmentedLists

/-!
# Here-documents with a quoted delimiter

How a POSIX shell reads a command with one here-document. The document starts on the
next line and ends before the first line that is the delimiter and nothing else; as the
delimiter is quoted, its lines are taken as they are.
-/

namespace HereDocuments

open RustText SegmentedLists

/-- Lines, each with its newline. -/
def unlines (lines : List Text) : Text := lines.flatMap fun line => line ++ ['\n']

/-- The word in single quotes behind the first `<<` of a command. -/
def quotedDelimiter : Text → Option Text
  | '<' :: '<' :: '\'' :: word => (splitOnce '\'' word).map Prod.fst
  | _ :: command => quotedDelimiter command
  | [] => none

/-- The lines up to the delimiter and those behind it. What stands behind the last
newline is no line. -/
def readBody (delimiter : Text) : List Text → Option (List Text × List Text)
  | line :: next :: pieces =>
    if line = delimiter then some ([], next :: pieces)
    else (readBody delimiter (next :: pieces)).map fun read => (line :: read.1, read.2)
  | _ => none

/-- A command, the here-document it reads, and the text that the shell goes on with. -/
structure HereCommand where
  command : Text
  body : Text
  rest : Text
  deriving DecidableEq

def readCommand (input : Text) : Option HereCommand :=
  match input.splitOn '\n' with
  | [] => none
  | command :: pieces =>
    (quotedDelimiter command).bind fun delimiter =>
      (readBody delimiter pieces).map fun read =>
        ⟨command, unlines read.1, ['\n'].intercalate read.2⟩

example : readCommand "cat <<'END'\n $x\nEND\nls".toList =
    some ⟨"cat <<'END'".toList, " $x\n".toList, "ls".toList⟩ := by decide

theorem unlines_append (before after : List Text) :
    unlines (before ++ after) = unlines before ++ unlines after := List.flatMap_append

theorem unlines_cons (line : Text) (lines : List Text) :
    unlines (line :: lines) = line ++ '\n' :: unlines lines := by
  rw [unlines, List.flatMap_cons, List.append_assoc]
  rfl

theorem unlines_splitOn (text : Text) : unlines (text.splitOn '\n') = text ++ ['\n'] := by
  have hlines : ∀ lines : List Text, lines ≠ [] →
      unlines lines = ['\n'].intercalate lines ++ ['\n'] := by
    intro lines
    induction lines with
    | nil => exact fun hne => absurd rfl hne
    | cons line lines ih =>
      intro _
      cases lines with
      | nil => rw [unlines_cons, List.intercalate_singleton]; rfl
      | cons next lines =>
        rw [unlines_cons, ih (List.cons_ne_nil _ _), List.intercalate_cons_cons]
        simp
  rw [hlines _ (List.splitOn_ne_nil '\n' text), List.intercalate_splitOn]

/-- The document ends at the first line that is the delimiter. -/
theorem readBody_append {delimiter : Text} {before after : List Text}
    (hfirst : delimiter ∉ before) (hafter : after ≠ []) :
    readBody delimiter (before ++ delimiter :: after) = some (before, after) := by
  obtain ⟨next, pieces, rfl⟩ := List.exists_cons_of_ne_nil hafter
  induction before with
  | nil => rw [List.nil_append, readBody, if_pos rfl]
  | cons line before ih =>
    rw [List.mem_cons, not_or] at hfirst
    have hrest := ih hfirst.2
    cases before with
    | nil =>
      rw [List.nil_append] at hrest
      rw [List.singleton_append, readBody, if_neg (Ne.symm hfirst.1), hrest]
      rfl
    | cons second before =>
      rw [List.cons_append] at hrest
      rw [List.cons_append, List.cons_append, readBody, if_neg (Ne.symm hfirst.1), hrest]
      rfl

section Framed
variable {command delimiter : Text}

/-- A text as the here-document of a command, ended by a line with the delimiter. -/
def framed (command delimiter text rest : Text) : Text :=
  command ++ '\n' :: (text ++ '\n' :: (delimiter ++ '\n' :: rest))

theorem readCommand_framed (hcommand : '\n' ∉ command)
    (hquoted : quotedDelimiter command = some delimiter) (hdelimiter : '\n' ∉ delimiter)
    (text rest : Text) :
    readCommand (framed command delimiter text rest) =
      (readBody delimiter (text.splitOn '\n' ++ delimiter :: rest.splitOn '\n')).map
        fun read => ⟨command, unlines read.1, ['\n'].intercalate read.2⟩ := by
  have hpieces : (framed command delimiter text rest).splitOn '\n' =
      command :: (text.splitOn '\n' ++ delimiter :: rest.splitOn '\n') := by
    rw [framed, List.splitOn_append_cons_self_of_not_mem hcommand, List.splitOn_append_cons_self,
      List.splitOn_append_cons_self_of_not_mem hdelimiter]
  rw [readCommand, hpieces]
  dsimp only
  rw [hquoted]
  rfl

/-- A text with the delimiter among its lines ends the document before that line, and
the lines behind it are read as commands. -/
theorem readCommand_framed_early (hcommand : '\n' ∉ command)
    (hquoted : quotedDelimiter command = some delimiter) (hdelimiter : '\n' ∉ delimiter)
    {text : Text} (rest : Text) {before after : List Text}
    (hlines : text.splitOn '\n' = before ++ delimiter :: after) (hfirst : delimiter ∉ before) :
    readCommand (framed command delimiter text rest) =
      some ⟨command, unlines before,
        ['\n'].intercalate (after ++ delimiter :: rest.splitOn '\n')⟩ := by
  have hafter : after ++ delimiter :: rest.splitOn '\n' ≠ [] :=
    List.append_ne_nil_of_right_ne_nil _ (List.cons_ne_nil _ _)
  rw [readCommand_framed hcommand hquoted hdelimiter, hlines, List.append_assoc, List.cons_append,
    readBody_append hfirst hafter]
  rfl

/-- A framed text is read back exactly when none of its lines is the delimiter. -/
theorem readCommand_framed_iff (hcommand : '\n' ∉ command)
    (hquoted : quotedDelimiter command = some delimiter) (hdelimiter : '\n' ∉ delimiter)
    (text rest : Text) :
    readCommand (framed command delimiter text rest) = some ⟨command, text ++ ['\n'], rest⟩ ↔
      delimiter ∉ text.splitOn '\n' := by
  constructor
  · intro hread hmem
    obtain ⟨before, after, hlines, hfirst⟩ := List.eq_append_cons_of_mem hmem
    rw [readCommand_framed_early hcommand hquoted hdelimiter rest hlines hfirst] at hread
    have hbody : unlines before = text ++ ['\n'] :=
      congrArg HereCommand.body (Option.some.inj hread)
    -- the document is shorter than the text by the lines that are left
    have hlength := congrArg List.length hbody
    rw [← unlines_splitOn, hlines, unlines_append, unlines_cons, List.length_append,
      List.length_append, List.length_cons] at hlength
    omega
  · intro hfree
    rw [readCommand_framed hcommand hquoted hdelimiter,
      readBody_append hfree (List.splitOn_ne_nil _ _), Option.map_some, unlines_splitOn,
      List.intercalate_splitOn]

end Framed

end HereDocuments
