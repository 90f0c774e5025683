import Celily.HereDocuments
import Celily.InstanceLifecycle

/-!
# Pre-run scripts, from the configuration to the instance's shell

A script is trimmed when it is deserialized, and `run` frames it as a here-document of
the command that writes it to a file. The frame has a fixed delimiter, so what arrives
is the script unless one of its own lines is that delimiter.
-/

namespace PreRunScripts

open RustText SegmentedLists HereDocuments InstanceLifecycle

/-- Trimmed so that a shebang lands on the first byte; an empty script is dropped. -/
def deserializePreRun (script : Text) : List Text :=
  let trimmed := trim script
  if trimmed = [] then [] else [trimmed]

def writeCommand : Text := "cat > /tmp/celily-pre-run <<'CELILY_EOF'".toList

def delimiter : Text := "CELILY_EOF".toList

def runCommands : Text :=
  "chmod +x /tmp/celily-pre-run && /tmp/celily-pre-run; rc=$?; ".toList ++
    "rm -f /tmp/celily-pre-run; exit $rc".toList

/-- What the instance's shell is to make of the wrapper: the script goes to the file, and
the shell goes on with the wrapper's own last line. -/
def intact (script : Text) : HereCommand := ⟨writeCommand, script ++ ['\n'], runCommands⟩

/-- Accepted are the non-empty texts without white space around them. -/
theorem accepted_iff (script : Text) :
    (∃ raw, script ∈ deserializePreRun raw) ↔ script ≠ [] ∧ EndsFree isWhitespace script := by
  constructor
  · rintro ⟨raw, hmem⟩
    rw [deserializePreRun] at hmem
    split at hmem
    · cases hmem
    · rename_i hne
      rw [List.mem_singleton.mp hmem]
      exact ⟨hne, endsFree_trimBoth isWhitespace raw⟩
  · rintro ⟨hne, hends⟩
    have htrim : trim script = script := trimBoth_eq_self hends
    refine ⟨script, ?_⟩
    rw [deserializePreRun, htrim, if_neg hne]
    exact List.mem_cons_self

theorem append_eq_framed {front back command delimiter more : Text}
    (hfront : front = command ++ ['\n']) (hback : back = '\n' :: (delimiter ++ '\n' :: more))
    (text rest : Text) :
    front ++ text ++ back ++ rest = framed command delimiter text (more ++ rest) := by
  subst hfront hback
  rw [framed]
  simp only [List.append_assoc, List.cons_append, List.nil_append]

theorem writeCommand_line :
    "cat > /tmp/celily-pre-run <<'CELILY_EOF'\n".toList = writeCommand ++ ['\n'] := by
  decide +kernel

theorem delimiter_line :
    "\nCELILY_EOF\nchmod +x /tmp/celily-pre-run && /tmp/celily-pre-run; rc=$?; ".toList =
      '\n' :: (delimiter ++
        '\n' :: "chmod +x /tmp/celily-pre-run && /tmp/celily-pre-run; rc=$?; ".toList) := by
  decide +kernel

theorem preRunWrapper_framed (script : Text) :
    preRunWrapper script = framed writeCommand delimiter script runCommands :=
  append_eq_framed writeCommand_line delimiter_line script _

/-- The shell takes the script for the document exactly when no line of the script is
the delimiter. -/
theorem preRunWrapper_read (script : Text) :
    ((∃ raw, script ∈ deserializePreRun raw) ↔
      script ≠ [] ∧ EndsFree isWhitespace script) ∧
    (readCommand (preRunWrapper script) = some (intact script) ↔
      delimiter ∉ script.splitOn '\n') := by
  refine ⟨accepted_iff script, ?_⟩
  rw [preRunWrapper_framed]
  exact readCommand_framed_iff (by decide) (by decide) (by decide) script _

/-- Else the file is cut at that line, and the instance's shell runs the lines behind it
before it comes to the wrapper's own commands. -/
theorem preRunWrapper_read_early {script : Text} {before after : List Text}
    (hlines : script.splitOn '\n' = before ++ delimiter :: after) (hfirst : delimiter ∉ before) :
    readCommand (preRunWrapper script) =
      some ⟨writeCommand, unlines before,
        ['\n'].intercalate (after ++ delimiter :: runCommands.splitOn '\n')⟩ := by
  rw [preRunWrapper_framed]
  exact readCommand_framed_early (by decide) (by decide) (by decide) runCommands hlines hfirst

/-- A script that writes a here-document of its own with the same delimiter. -/
def nestedScript : Text := "cat <<'CELILY_EOF'\nhi\nCELILY_EOF\nreboot".toList

theorem nestedScript_not_intact :
    ¬ ∀ raw, ∀ script ∈ deserializePreRun raw,
      readCommand (preRunWrapper script) = some (intact script) := by
  intro hintact
  have hmem : nestedScript ∈ deserializePreRun nestedScript := by decide
  exact absurd (hintact nestedScript nestedScript hmem) (by decide +kernel)

end PreRunScripts
