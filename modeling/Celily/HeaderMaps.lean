import Celily.RustText
import Mathlib.Data.List.Basic

/-!
# Header maps

The header type of the proxy library is a parameter. `LawfulHeaderMap` is what
the handler relies on: writing a header replaces every value of its name, which
is compared ignoring ASCII case, or fails and leaves the headers as they were.
`HeaderList` is one such type.
-/

namespace HeaderMaps

open RustText

class HeaderMap (H : Type) where
  /-- The values of a name, in order. -/
  values : H → Text → List Bytes
  containsKey : H → Text → Bool
  /-- Whether the write succeeded, and the headers afterwards. -/
  set : H → Text → Text → Bool × H

export HeaderMap (values containsKey set)

class LawfulHeaderMap (H : Type) [HeaderMap H] : Prop where
  containsKey_iff : ∀ (headers : H) name, containsKey headers name = true ↔ values headers name ≠ []
  values_set : ∀ (headers : H) name value, (set headers name value).1 = true → ∀ other,
    values (set headers name value).2 other =
      if eqIgnoreAsciiCase other name then [utf8 value] else values headers other
  set_failed : ∀ (headers : H) name value, (set headers name value).1 = false →
    (set headers name value).2 = headers

/-- Whether a write is accepted depends on its name and its value only. -/
class CheckedHeaderMap (H : Type) [HeaderMap H] : Prop extends LawfulHeaderMap H where
  set_accepted : ∀ (a b : H) name value, (set a name value).1 = (set b name value).1

variable {H : Type} [HeaderMap H]

/-- The headers after a write whose error is only logged. -/
def inject (headers : H) (entry : Text × Text) : H := (set headers entry.1 entry.2).2

def injectAll (headers : H) (entries : List (Text × Text)) : H := entries.foldl inject headers

section Lawful
variable [LawfulHeaderMap H]

theorem values_inject_other (headers : H) (entry : Text × Text) {other : Text}
    (hother : eqIgnoreAsciiCase other entry.1 = false) :
    values (inject headers entry) other = values headers other := by
  rw [inject]
  cases hset : (set headers entry.1 entry.2).1 with
  | true => rw [LawfulHeaderMap.values_set _ _ _ hset, hother]; rfl
  | false => rw [LawfulHeaderMap.set_failed _ _ _ hset]

theorem values_injectAll_other (entries : List (Text × Text)) (headers : H) {other : Text}
    (hother : ∀ entry ∈ entries, eqIgnoreAsciiCase other entry.1 = false) :
    values (injectAll headers entries) other = values headers other := by
  induction entries generalizing headers with
  | nil => rfl
  | cons entry entries ih =>
    have hrest := ih (inject headers entry)
      (fun e he => hother e (List.mem_cons_of_mem entry he))
    have hfirst := values_inject_other headers entry (hother entry List.mem_cons_self)
    exact hrest.trans hfirst

end Lawful

/-! ## The last write of a name -/

/-- The writes of a list of entries, each with whether it is accepted. -/
def writes (headers : H) : List (Text × Text) → List ((Text × Text) × Bool)
  | [] => []
  | entry :: entries =>
    (entry, (set headers entry.1 entry.2).1) :: writes (inject headers entry) entries

/-- What the last accepted write of a name writes. -/
def lastWritten (name : Text) : List ((Text × Text) × Bool) → Option Text
  | [] => none
  | write :: log =>
    match lastWritten name log with
    | some value => some value
    | none => if write.2 && eqIgnoreAsciiCase name write.1.1 then some write.1.2 else none

theorem lastWritten_some {name value : Text} {log : List ((Text × Text) × Bool)}
    (hlast : lastWritten name log = some value) :
    ∃ entry, (entry, true) ∈ log ∧ eqIgnoreAsciiCase name entry.1 = true ∧ entry.2 = value := by
  induction log with
  | nil => cases hlast
  | cons write log ih =>
    rw [lastWritten] at hlast
    split at hlast
    · rename_i later hlater
      obtain rfl := Option.some.inj hlast
      obtain ⟨entry, hmem, hname, hvalue⟩ := ih hlater
      exact ⟨entry, List.mem_cons_of_mem write hmem, hname, hvalue⟩
    · split at hlast
      · rename_i hwrite
        obtain ⟨entry, accepted⟩ := write
        simp only [Bool.and_eq_true] at hwrite
        obtain ⟨rfl, hname⟩ := hwrite
        exact ⟨entry, List.mem_cons_self, hname, Option.some.inj hlast⟩
      · cases hlast

theorem lastWritten_none {name : Text} {log : List ((Text × Text) × Bool)} :
    lastWritten name log = none ↔
      ∀ entry, (entry, true) ∈ log → eqIgnoreAsciiCase name entry.1 = false := by
  constructor
  · intro hnone entry hmem
    induction log with
    | nil => cases hmem
    | cons write log ih =>
      rw [lastWritten] at hnone
      split at hnone
      · cases hnone
      · rename_i hlog
        split at hnone
        · cases hnone
        · rename_i hwrite
          rcases List.mem_cons.mp hmem with rfl | hmem
          · simpa using hwrite
          · exact ih hlog hmem
  · intro hother
    cases hlast : lastWritten name log with
    | none => rfl
    | some value =>
      obtain ⟨entry, hmem, hname, _⟩ := lastWritten_some hlast
      rw [hother entry hmem] at hname
      cases hname

theorem lastWritten_append (name : Text) (a b : List ((Text × Text) × Bool)) :
    lastWritten name (a ++ b) = (lastWritten name b).or (lastWritten name a) := by
  induction a with
  | nil => simp [lastWritten]
  | cons write a ih =>
    rw [List.cons_append, lastWritten, ih, lastWritten]
    cases lastWritten name b with
    | some value => rfl
    | none => rfl

theorem writes_append (headers : H) (a b : List (Text × Text)) :
    writes headers (a ++ b) = writes headers a ++ writes (injectAll headers a) b := by
  induction a generalizing headers with
  | nil => rfl
  | cons entry a ih =>
    rw [List.cons_append, writes, ih]
    rfl

/-- A name that is written has the last value written, any other the values it had. -/
theorem values_injectAll [LawfulHeaderMap H] (entries : List (Text × Text)) (headers : H)
    (name : Text) :
    values (injectAll headers entries) name =
      (lastWritten name (writes headers entries)).elim (values headers name)
        (fun value => [utf8 value]) := by
  induction entries generalizing headers with
  | nil => rfl
  | cons entry entries ih =>
    have hrest := ih (inject headers entry)
    rw [writes, lastWritten]
    cases hlast : lastWritten name (writes (inject headers entry) entries) with
    | some value =>
      rw [hlast] at hrest
      exact hrest
    | none =>
      rw [hlast] at hrest
      refine hrest.trans ?_
      cases hset : (set headers entry.1 entry.2).1 with
      | true =>
        rw [inject, LawfulHeaderMap.values_set _ _ _ hset]
        cases eqIgnoreAsciiCase name entry.1 with
        | true => rfl
        | false => rfl
      | false =>
        rw [inject, LawfulHeaderMap.set_failed _ _ _ hset]
        rfl

/-! ## A list of header lines -/

abbrev HeaderList := List (Text × Bytes)

/-- The characters of a header name. -/
def isTokenChar (c : Char) : Bool := c.isAlphanum || "!#$%&'*+-.^_`|~".toList.contains c

/-- Visible bytes, space, tab and the bytes above ASCII. -/
def isValueByte (byte : UInt8) : Bool := byte == 9 || (32 ≤ byte && byte != 127)

def HeaderList.set (headers : HeaderList) (name value : Text) : Bool × HeaderList :=
  if name ≠ [] ∧ name.all isTokenChar ∧ (utf8 value).all isValueByte then
    (true, headers.filter (fun line => !eqIgnoreAsciiCase line.1 name) ++ [(name, utf8 value)])
  else (false, headers)

def HeaderList.values (headers : HeaderList) (name : Text) : List Bytes :=
  (headers.filter (fun line => eqIgnoreAsciiCase line.1 name)).map Prod.snd

instance : HeaderMap HeaderList where
  values := HeaderList.values
  containsKey headers name := headers.any (fun line => eqIgnoreAsciiCase line.1 name)
  set := HeaderList.set

theorem values_append (a b : HeaderList) (name : Text) :
    HeaderList.values (a ++ b) name = HeaderList.values a name ++ HeaderList.values b name := by
  simp [HeaderList.values]

theorem values_removed (headers : HeaderList) (name other : Text) :
    HeaderList.values (headers.filter (fun line => !eqIgnoreAsciiCase line.1 name)) other =
      if eqIgnoreAsciiCase other name then [] else HeaderList.values headers other := by
  rw [HeaderList.values, List.filter_filter]
  split
  · rename_i hsame
    rw [List.map_eq_nil_iff, List.filter_eq_nil_iff]
    intro line _ hboth
    simp only [Bool.and_eq_true, Bool.not_eq_true'] at hboth
    have hname := eqIgnoreAsciiCase_trans hboth.1 hsame
    rw [hname] at hboth
    cases hboth.2
  · rename_i hdiff
    congr 1
    apply List.filter_congr
    intro line _
    cases hline : eqIgnoreAsciiCase line.1 other with
    | false => rfl
    | true =>
      cases hname : eqIgnoreAsciiCase line.1 name with
      | false => rfl
      | true =>
        rw [eqIgnoreAsciiCase_comm] at hline
        exact absurd (eqIgnoreAsciiCase_trans hline hname) hdiff

instance : LawfulHeaderMap HeaderList where
  containsKey_iff headers name := by
    change headers.any _ = true ↔ HeaderList.values headers name ≠ []
    simp [HeaderList.values]
  values_set headers name value hset other := by
    change HeaderList.values (HeaderList.set headers name value).2 other = _
    change (HeaderList.set headers name value).1 = true at hset
    rw [HeaderList.set] at hset ⊢
    split at hset
    · rename_i hvalid
      rw [if_pos hvalid, values_append, values_removed]
      by_cases hsame : eqIgnoreAsciiCase other name = true
      · simp [HeaderList.values, hsame, eqIgnoreAsciiCase_comm name other]
      · simp [HeaderList.values, hsame, eqIgnoreAsciiCase_comm name other]
        rfl
    · cases hset
  set_failed headers name value hset := by
    change (HeaderList.set headers name value).1 = false at hset
    change (HeaderList.set headers name value).2 = headers
    rw [HeaderList.set] at hset ⊢
    split at hset
    · cases hset
    · rename_i hvalid
      rw [if_neg hvalid]

instance : CheckedHeaderMap HeaderList where
  set_accepted a b name value := by
    change (HeaderList.set a name value).1 = (HeaderList.set b name value).1
    rw [HeaderList.set, HeaderList.set]
    split
    · rfl
    · rfl

end HeaderMaps
