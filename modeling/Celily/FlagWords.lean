import Celily.RustText
import Celily.SegmentedLists

/-!
# Command lines with long flags

A command line is operands, switches and options with a value. Words that were spelled
from such pieces are read as the same pieces, whatever the values say, as long as no
operand looks like a flag.
-/

namespace FlagWords

open RustText SegmentedLists

/-- Whether a flag takes a value. -/
inductive Arity where
  | switch
  | option
  deriving DecidableEq

inductive Piece where
  | operand (word : Bytes)
  | switch (flag : Bytes)
  | option (flag value : Bytes)

def dashes : Bytes := utf8 "--".toList

/-- A word that does not start with a dash; a dash alone is one too. -/
def isOperand (word : Bytes) : Bool := word.head? ≠ some 45 || word = [45]

/-- What is left of a list behind its start. -/
def behind {α : Type} [DecidableEq α] (start words : List α) : Option (List α) :=
  if start.isPrefixOf words then some (words.drop start.length) else none

/-- An option is two words, or one with a `=`; what stands behind `--` is operands.
Nothing is said of flags that are not declared and of those of one letter. -/
def readWords (declared : Bytes → Option Arity) : List Bytes → Option (List Piece)
  | [] => some []
  | word :: rest =>
    if isOperand word then (readWords declared rest).map (.operand word :: ·)
    else if word = dashes then some (rest.map .operand)
    else
      match behind dashes word with
      | none => none
      | some flag =>
        match splitOnce 61 flag with
        | some (flag, value) =>
          if declared flag = some .option then
            (readWords declared rest).map (.option flag value :: ·)
          else none
        | none =>
          match declared flag, rest with
          | some .switch, rest => (readWords declared rest).map (.switch flag :: ·)
          | some .option, value :: rest => (readWords declared rest).map (.option flag value :: ·)
          | _, _ => none

def Piece.words : Piece → List Bytes
  | .operand word => [word]
  | .switch flag => [dashes ++ flag]
  | .option flag value => [dashes ++ flag, value]

def spell (pieces : List Piece) : List Bytes := pieces.flatMap Piece.words

/-- A name of a flag. -/
structure IsName (flag : Bytes) : Prop where
  nonempty : flag ≠ []
  noEquals : (61 : UInt8) ∉ flag

instance (flag : Bytes) : Decidable (IsName flag) :=
  decidable_of_iff (flag ≠ [] ∧ (61 : UInt8) ∉ flag)
    ⟨fun h => ⟨h.1, h.2⟩, fun h => ⟨h.nonempty, h.noEquals⟩⟩

/-- A piece that its words are read as. -/
def Piece.Sound (declared : Bytes → Option Arity) : Piece → Prop
  | .operand word => isOperand word = true
  | .switch flag => IsName flag ∧ declared flag = some .switch
  | .option flag _ => IsName flag ∧ declared flag = some .option

def operands (pieces : List Piece) : List Bytes :=
  pieces.filterMap fun
    | .operand word => some word
    | _ => none

/-- The values of an option, in order. -/
def values (flag : Bytes) (pieces : List Piece) : List Bytes :=
  pieces.filterMap fun
    | .option other value => if other = flag then some value else none
    | _ => none

def isGiven (flag : Bytes) (pieces : List Piece) : Bool :=
  pieces.any fun
    | .switch other => other = flag
    | _ => false

theorem behind_append {α : Type} [DecidableEq α] (start rest : List α) :
    behind start (start ++ rest) = some rest := by
  rw [behind, if_pos (List.isPrefixOf_iff_prefix.mpr (List.prefix_append start rest)),
    List.drop_left]

/-- No text is taken for a flag unless it starts like one. -/
theorem isOperand_utf8 {text : Text} (hhead : text.head? ≠ some '-') :
    isOperand (utf8 text) = true := by
  rw [isOperand, Bool.or_eq_true, decide_eq_true_iff]
  refine Or.inl fun hdash => ?_
  cases text with
  | nil => cases hdash
  | cons c text =>
    have hne : '-' ∉ [c] := by
      intro hmem
      exact hhead (congrArg some (List.mem_singleton.mp hmem).symm)
    have hnot : (45 : UInt8) ∉ utf8 [c] := notMem_utf8 (c := '-') (by decide) hne
    have hsplit : utf8 (c :: text) = utf8 [c] ++ utf8 text := utf8_append [c] text
    rw [hsplit, List.head?_append] at hdash
    cases hfirst : (utf8 [c]).head? with
    | none =>
      have hempty : utf8 [c] = utf8 [] := List.head?_eq_none_iff.mp hfirst
      cases utf8_injective hempty
    | some byte =>
      rw [hfirst] at hdash
      cases hdash
      exact hnot (List.mem_of_mem_head? hfirst)

theorem isOperand_dashes (flag : Bytes) : isOperand (dashes ++ flag) = false := by
  rfl

theorem splitOnce_of_notMem {flag : Bytes} (hflag : (61 : UInt8) ∉ flag) :
    splitOnce 61 flag = none := by
  induction flag with
  | nil => rfl
  | cons byte flag ih =>
    rw [List.mem_cons, not_or] at hflag
    rw [splitOnce, if_neg (Ne.symm hflag.1), ih hflag.2]
    rfl

section Pieces
variable (front back : List Piece) (flag : Bytes)

theorem spell_append : spell (front ++ back) = spell front ++ spell back := List.flatMap_append

theorem operands_append : operands (front ++ back) = operands front ++ operands back :=
  List.filterMap_append

theorem values_append : values flag (front ++ back) = values flag front ++ values flag back :=
  List.filterMap_append

theorem isGiven_append :
    isGiven flag (front ++ back) = (isGiven flag front || isGiven flag back) :=
  List.any_append

theorem operands_map_option (list : List Bytes) : operands (list.map (.option flag)) = [] := by
  induction list with
  | nil => rfl
  | cons value list ih => exact ih

theorem values_map_option (list : List Bytes) : values flag (list.map (.option flag)) = list := by
  induction list with
  | nil => rfl
  | cons value list ih =>
    rw [List.map_cons, values, List.filterMap_cons]
    simp only [if_true]
    exact congrArg _ ih

theorem values_map_option_ne {flag other : Bytes} (hne : other ≠ flag) (list : List Bytes) :
    values flag (list.map (.option other)) = [] := by
  induction list with
  | nil => rfl
  | cons value list ih =>
    rw [List.map_cons, values, List.filterMap_cons]
    simp only [if_neg hne]
    exact ih

theorem isGiven_map_option (other : Bytes) (list : List Bytes) :
    isGiven flag (list.map (.option other)) = false := by
  induction list with
  | nil => rfl
  | cons value list ih => exact ih

theorem operands_map_operand (list : List Bytes) : operands (list.map .operand) = list := by
  induction list with
  | nil => rfl
  | cons word list ih => exact congrArg _ ih

theorem values_map_operand (list : List Bytes) : values flag (list.map .operand) = [] := by
  induction list with
  | nil => rfl
  | cons word list ih => exact ih

theorem spell_operands (words : List Bytes) : spell (words.map .operand) = words := by
  induction words with
  | nil => rfl
  | cons word words ih => exact congrArg _ ih

end Pieces

variable {declared : Bytes → Option Arity}

/-- Words behind `--` are operands, whatever they look like. -/
theorem readWords_dashes (rest : List Bytes) :
    readWords declared (dashes :: rest) = some (rest.map .operand) := by
  have hdashes : isOperand dashes = false := by decide
  rw [readWords, hdashes, if_neg Bool.false_ne_true, if_pos rfl]

theorem readWords_operand {word : Bytes} (hword : isOperand word = true) (rest : List Bytes) :
    readWords declared (word :: rest) = (readWords declared rest).map (.operand word :: ·) := by
  rw [readWords, if_pos hword]

theorem readWords_switch {flag : Bytes} (hname : IsName flag)
    (hflag : declared flag = some .switch) (rest : List Bytes) :
    readWords declared ((dashes ++ flag) :: rest) =
      (readWords declared rest).map (.switch flag :: ·) := by
  have hne : dashes ++ flag ≠ dashes := by
    simpa using hname.nonempty
  rw [readWords, isOperand_dashes, if_neg Bool.false_ne_true, if_neg hne, behind_append]
  simp only [splitOnce_of_notMem hname.noEquals, hflag]

theorem readWords_option {flag : Bytes} (hname : IsName flag)
    (hflag : declared flag = some .option) (value : Bytes) (rest : List Bytes) :
    readWords declared ((dashes ++ flag) :: value :: rest) =
      (readWords declared rest).map (.option flag value :: ·) := by
  have hne : dashes ++ flag ≠ dashes := by
    simpa using hname.nonempty
  rw [readWords, isOperand_dashes, if_neg Bool.false_ne_true, if_neg hne, behind_append]
  simp only [splitOnce_of_notMem hname.noEquals, hflag]

theorem spell_cons (piece : Piece) (pieces : List Piece) :
    spell (piece :: pieces) = piece.words ++ spell pieces := List.flatMap_cons

/-- The words at the front are read as the pieces that they were spelled from. -/
theorem readWords_spell {pieces : List Piece} (hsound : ∀ piece ∈ pieces, piece.Sound declared)
    (rest : List Bytes) :
    readWords declared (spell pieces ++ rest) = (readWords declared rest).map (pieces ++ ·) := by
  induction pieces with
  | nil =>
    change readWords declared rest = _
    cases readWords declared rest with
    | none => rfl
    | some read => rfl
  | cons piece pieces ih =>
    obtain ⟨hpiece, hpieces⟩ := List.forall_mem_cons.mp hsound
    have hmap : ((readWords declared rest).map (pieces ++ ·)).map (piece :: ·) =
        (readWords declared rest).map (piece :: pieces ++ ·) := by
      rw [Option.map_map]
      rfl
    rw [spell_cons, List.append_assoc, ← hmap, ← ih hpieces]
    cases piece with
    | operand word => exact readWords_operand hpiece _
    | switch flag => exact readWords_switch hpiece.1 hpiece.2 _
    | option flag value => exact readWords_option hpiece.1 hpiece.2 value _

end FlagWords
