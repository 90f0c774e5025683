import Celily.InstanceNames

/-!
# The names of instances and bridges

The source cuts texts at byte indices, which panics out of range and inside a
character. The definitions ending in `?` cut as it does; everything they cut is ASCII,
so they always return the names of `InstanceNames`, and those fit.
-/

namespace GeneratedNames

open RustText SegmentedLists HostPaths InstanceNames

/-! ## Cutting at a byte index -/

/-- The text before byte `n` and the text behind it. -/
def splitAtByte : Text → Nat → Option (Text × Text)
  | s, 0 => some ([], s)
  | [], _ + 1 => none
  | c :: s, n + 1 =>
    let width := (String.utf8EncodeChar c).length
    if width ≤ n + 1 then (splitAtByte s (n + 1 - width)).map fun cut => (c :: cut.1, cut.2)
    else none

/-- `&s[..n]`. -/
def sliceTo (s : Text) (n : Nat) : Option Text := (splitAtByte s n).map Prod.fst

/-- `&s[n..]`. -/
def sliceFrom (s : Text) (n : Nat) : Option Text := (splitAtByte s n).map Prod.snd

/-- `str::len`. -/
def byteLength (s : Text) : Nat := (utf8 s).length

theorem splitAtByte_append (a b : Text) : splitAtByte (a ++ b) (byteLength a) = some (a, b) := by
  induction a with
  | nil => cases b <;> rfl
  | cons c a ih =>
    obtain ⟨first, rest, hbytes, _⟩ := decodeCharacter_utf8EncodeChar c
    have hlength : byteLength (c :: a) = (String.utf8EncodeChar c).length + byteLength a := by
      rw [byteLength, utf8, List.flatMap_cons, List.length_append]
      rfl
    have hwidth : (String.utf8EncodeChar c).length = rest.length + 1 := by
      rw [hbytes, List.length_cons]
    obtain ⟨n, hn⟩ : ∃ n, byteLength (c :: a) = n + 1 :=
      ⟨rest.length + byteLength a, by omega⟩
    have hroom : (String.utf8EncodeChar c).length ≤ n + 1 := by omega
    have hafter : n + 1 - (String.utf8EncodeChar c).length = byteLength a := by omega
    rw [hn, List.cons_append, splitAtByte, if_pos hroom, hafter, ih]
    rfl

theorem utf8EncodeChar_ascii {c : Char} (hascii : c.toNat < 128) :
    (String.utf8EncodeChar c).length = 1 := by
  rw [String.utf8EncodeChar]
  have hval : c.val.toNat = c.toNat := rfl
  simp only [hval]
  rw [if_pos (by omega)]
  rfl

theorem byteLength_ascii {s : Text} (hascii : ∀ c ∈ s, c.toNat < 128) :
    byteLength s = s.length := by
  induction s with
  | nil => rfl
  | cons c s ih =>
    have hrest := ih fun d hd => hascii d (List.mem_cons_of_mem c hd)
    have hc := utf8EncodeChar_ascii (hascii c List.mem_cons_self)
    rw [byteLength] at hrest ⊢
    rw [utf8, List.flatMap_cons, List.length_append, hc, List.length_cons]
    rw [utf8] at hrest
    omega

theorem splitAtByte_ascii {s : Text} (hascii : ∀ c ∈ s, c.toNat < 128) {n : Nat}
    (hn : n ≤ s.length) : splitAtByte s n = some (s.take n, s.drop n) := by
  have hfront := byteLength_ascii (s := s.take n) fun c hc => hascii c (List.mem_of_mem_take hc)
  have hcut := splitAtByte_append (s.take n) (s.drop n)
  rw [List.take_append_drop, hfront, List.length_take, Nat.min_eq_left hn] at hcut
  exact hcut

/-! ## The names, cut as the source cuts them -/

def uuidDigit (uuid : Uuid) (i : Nat) : Char := Nat.digitChar (uuid.toNat / 16 ^ (31 - i) % 16)

/-- The hyphenated text of a UUID. -/
def uuidText (uuid : Uuid) : Text :=
  ['-'].intercalate ([(0, 8), (8, 4), (12, 4), (16, 4), (20, 12)].map fun group =>
    (List.range' group.1 group.2).map (uuidDigit uuid))

def sanitizedImagePrefix? (image : Text) : Option Text :=
  let last := (image.reverse.takeWhile fun c => c ≠ '/' && c ≠ ':').reverse
  let letters := last.filter Char.isAlphanum
  if letters = [] then some "inst".toList
  else if byteLength letters > 20 then sliceTo letters 20
  else some letters

def instanceName? (cwd home : Bytes) (image : Text) (uuid : Uuid) : Option Text := do
  let uuid8 ← sliceTo (uuidText uuid) 8
  let imagePrefix ← sanitizedImagePrefix? image
  let part := pathPart cwd home
  let pathMax := 63 - (byteLength imagePrefix + 2 + 9)
  let part ←
    if byteLength part > pathMax then (sliceFrom part (byteLength part - pathMax)).map trimHyphens
    else some part
  some (imagePrefix ++ '-' :: part ++ '-' :: uuid8)

def bridgeName? (image : Text) (uuid : Uuid) : Option Text := do
  let uuid8 ← sliceTo (uuidText uuid) 8
  let imagePrefix ← sanitizedImagePrefix? image
  some (imagePrefix.take 6 ++ '-' :: uuid8)

example : bridgeName? "images:ubuntu/24.04".toList 0xdeadbeef123456789abcdef012345678#128 =
    some "2404-deadbeef".toList := by decide +kernel

/-! ## Characters of a name -/

/-- An ASCII letter or digit, or `-`. -/
def isNameChar (c : Char) : Bool := c.isAlphanum || c = '-'

theorem isAlpha_iff_toNat {c : Char} : c.isAlpha = true ↔
    (65 ≤ c.toNat ∧ c.toNat ≤ 90) ∨ (97 ≤ c.toNat ∧ c.toNat ≤ 122) := by
  have hranges : c.isAlpha = (decide (c.val ≥ 'A'.val ∧ c.val ≤ 'Z'.val) ||
      (decide (c.val ≥ 'a'.val) && decide (c.val ≤ 'z'.val))) := rfl
  rw [hranges, Bool.or_eq_true, Bool.and_eq_true, decide_eq_true_eq, decide_eq_true_eq,
    decide_eq_true_eq]
  simp only [ge_iff_le, UInt32.le_iff_toNat_le]
  exact Iff.rfl

theorem isAlphanum_iff {c : Char} :
    c.isAlphanum = true ↔ c.isAlpha = true ∨ c.isDigit = true := by
  have hor : c.isAlphanum = (c.isAlpha || c.isDigit) := rfl
  rw [hor, Bool.or_eq_true]

theorem isAlphanum_ascii {c : Char} (h : c.isAlphanum = true) : c.toNat < 128 := by
  rw [isAlphanum_iff, isAlpha_iff_toNat, Char.isDigit_iff_toNat] at h
  have hnine : '9'.toNat = 57 := rfl
  omega

theorem isNameChar_ascii {c : Char} (h : isNameChar c = true) : c.toNat < 128 := by
  rw [isNameChar, Bool.or_eq_true] at h
  rcases h with h | h
  · exact isAlphanum_ascii h
  · rw [of_decide_eq_true h]
    decide

theorem isNameChar_alphanum {c : Char} (h : c.isAlphanum = true) : isNameChar c = true := by
  rw [isNameChar, h, Bool.true_or]

theorem alphanum_ne_hyphen {c : Char} (h : c.isAlphanum = true) : c ≠ '-' := by
  rintro rfl
  cases h

/-- The part of an image name behind its last `/` or `:`. -/
def lastComponent (image : Text) : Text :=
  (image.reverse.takeWhile fun c => c ≠ '/' && c ≠ ':').reverse

def imageLetters (image : Text) : Text := (lastComponent image).filter Char.isAlphanum

theorem sanitizedImagePrefix_eq (image : Text) :
    sanitizedImagePrefix image =
      if imageLetters image = [] then "inst".toList
      else if (imageLetters image).length > 20 then (imageLetters image).take 20
      else imageLetters image := rfl

theorem imageLetters_alphanum {image : Text} {c : Char} (hc : c ∈ imageLetters image) :
    c.isAlphanum = true := (List.mem_filter.mp hc).2

theorem sanitizedImagePrefix_spec (image : Text) :
    sanitizedImagePrefix image ≠ [] ∧ (sanitizedImagePrefix image).length ≤ 20 ∧
      ∀ c ∈ sanitizedImagePrefix image, c.isAlphanum = true := by
  rw [sanitizedImagePrefix_eq]
  by_cases hletters : imageLetters image = []
  · have hinst : "inst".toList.all Char.isAlphanum = true := by decide
    rw [if_pos hletters]
    exact ⟨by decide, by decide, fun c hc => List.all_eq_true.mp hinst c hc⟩
  rw [if_neg hletters]
  by_cases hlong : (imageLetters image).length > 20
  · rw [if_pos hlong]
    refine ⟨fun hnil => ?_, List.length_take_le _ _, fun c hc => ?_⟩
    · have hlength := congrArg List.length hnil
      rw [List.length_take, List.length_nil] at hlength
      omega
    · exact imageLetters_alphanum (List.mem_of_mem_take hc)
  · rw [if_neg hlong]
    exact ⟨hletters, by omega, fun c hc => imageLetters_alphanum hc⟩

theorem uuid8_alphanum {uuid : Uuid} {c : Char} (hc : c ∈ uuid8 uuid) : c.isAlphanum = true := by
  have hdigits : ∀ n < 16, (Nat.digitChar n).isAlphanum = true := by decide
  obtain ⟨i, _, rfl⟩ := List.mem_map.mp hc
  exact hdigits _ (Nat.mod_lt _ (by decide))

theorem uuid8_length (uuid : Uuid) : (uuid8 uuid).length = 8 := by
  rw [uuid8, List.length_map, List.length_range]

theorem pushCollapsed_chars {part : Text × Bool} {c : Char} (hc : isNameChar c = true)
    (hpart : ∀ d ∈ part.1, isNameChar d = true) :
    ∀ d ∈ (pushCollapsed part c).1, isNameChar d = true := by
  have hpush : ∀ d ∈ part.1 ++ [c], isNameChar d = true := by
    intro d hd
    rcases List.mem_append.mp hd with hd | hd
    · exact hpart d hd
    · rw [List.mem_singleton.mp hd]
      exact hc
  rw [pushCollapsed]
  split
  · rename_i hhyphen
    subst hhyphen
    dsimp only
    split
    · exact hpush
    · exact hpart
  · exact hpush

theorem foldl_pushCollapsed_chars {raw : Text} (hraw : ∀ c ∈ raw, isNameChar c = true)
    {part : Text × Bool} (hpart : ∀ d ∈ part.1, isNameChar d = true) :
    ∀ d ∈ (raw.foldl pushCollapsed part).1, isNameChar d = true := by
  induction raw generalizing part with
  | nil => exact hpart
  | cons c raw ih =>
    exact ih (fun d hd => hraw d (List.mem_cons_of_mem c hd))
      (pushCollapsed_chars (hraw c List.mem_cons_self) hpart)

theorem trimHyphens_suffix (s : Text) : trimHyphens s <:+ s := List.dropWhile_suffix _

theorem head_trimHyphens (s : Text) : (trimHyphens s).head? ≠ some '-' := by
  intro hhead
  exact absurd (head_dropWhile hhead) (by decide)

theorem trimBothHyphens_eq (s : Text) :
    trimBothHyphens s = trimBoth (fun c => decide (c = '-')) s := rfl

/-- Trimmed on both sides: an infix with no hyphen at either end. -/
theorem trimBothHyphens_spec (s : Text) :
    trimBothHyphens s <:+: s ∧ (trimBothHyphens s).head? ≠ some '-' ∧
      (trimBothHyphens s).getLast? ≠ some '-' := by
  obtain ⟨hstart, hend⟩ := endsFree_trimBoth (fun c => decide (c = '-')) s
  rw [trimBothHyphens_eq]
  refine ⟨trimBoth_inner _ s, fun hhead => ?_, fun hlast => ?_⟩
  · exact absurd (hstart '-' hhead) (by decide)
  · exact absurd (hend '-' hlast) (by decide)

theorem pathPart_chars {cwd home : Bytes} {c : Char} (hc : c ∈ pathPart cwd home) :
    isNameChar c = true := by
  refine foldl_pushCollapsed_chars ?_ (List.forall_mem_nil _) c
    ((trimBothHyphens_spec _).1.mem hc)
  intro d hd
  obtain ⟨original, _, rfl⟩ := List.mem_map.mp hd
  split
  · rename_i halnum
    exact isNameChar_alphanum halnum
  · decide

/-! ## What the names are made of -/

theorem uuid8_eq_slice (uuid : Uuid) : sliceTo (uuidText uuid) 8 = some (uuid8 uuid) := by
  have htext : ∃ rest, uuidText uuid = uuid8 uuid ++ rest := ⟨_, rfl⟩
  obtain ⟨rest, hrest⟩ := htext
  have hbytes : byteLength (uuid8 uuid) = 8 := by
    rw [byteLength_ascii fun c hc => isAlphanum_ascii (uuid8_alphanum hc), uuid8_length]
  have hcut := splitAtByte_append (uuid8 uuid) rest
  rw [hbytes] at hcut
  rw [sliceTo, hrest, hcut]
  rfl

theorem sanitizedImagePrefix_eq_slice (image : Text) :
    sanitizedImagePrefix? image = some (sanitizedImagePrefix image) := by
  have hslices : sanitizedImagePrefix? image =
      if imageLetters image = [] then some "inst".toList
      else if byteLength (imageLetters image) > 20 then sliceTo (imageLetters image) 20
      else some (imageLetters image) := rfl
  have hascii : ∀ c ∈ imageLetters image, c.toNat < 128 :=
    fun c hc => isAlphanum_ascii (imageLetters_alphanum hc)
  rw [hslices, sanitizedImagePrefix_eq, byteLength_ascii hascii]
  by_cases hletters : imageLetters image = []
  · rw [if_pos hletters, if_pos hletters]
  rw [if_neg hletters, if_neg hletters]
  by_cases hlong : (imageLetters image).length > 20
  · rw [if_pos hlong, if_pos hlong, sliceTo, splitAtByte_ascii hascii (by omega)]
    rfl
  · rw [if_neg hlong, if_neg hlong]

/-- The path part that is left of a name, at most `limit` long. -/
def fittedPart (limit : Nat) (part : Text) : Text :=
  if part.length > limit then trimHyphens (part.drop (part.length - limit)) else part

theorem fittedPart_spec (limit : Nat) {part : Text} (hhead : part.head? ≠ some '-')
    (hlast : part.getLast? ≠ some '-') :
    fittedPart limit part <:+ part ∧ (fittedPart limit part).length ≤ limit ∧
      (fittedPart limit part).head? ≠ some '-' ∧ (fittedPart limit part).getLast? ≠ some '-' := by
  rw [fittedPart]
  split
  · rename_i hlong
    have hsuffix : trimHyphens (part.drop (part.length - limit)) <:+ part :=
      (trimHyphens_suffix _).trans (List.drop_suffix _ _)
    have hlength := (trimHyphens_suffix (part.drop (part.length - limit))).length_le
    rw [List.length_drop] at hlength
    refine ⟨hsuffix, by omega, head_trimHyphens _, fun htail => ?_⟩
    obtain ⟨front, hfront⟩ := hsuffix
    apply hlast
    rw [← hfront, List.getLast?_append, htail]
    rfl
  · rename_i hshort
    exact ⟨List.suffix_refl part, by omega, hhead, hlast⟩

theorem instanceName_eq (cwd home : Bytes) (image : Text) (uuid : Uuid) :
    instanceName cwd home image uuid = sanitizedImagePrefix image ++
      '-' :: fittedPart (63 - ((sanitizedImagePrefix image).length + 2 + 9)) (pathPart cwd home) ++
      '-' :: uuid8 uuid := rfl

theorem instanceName_parts (cwd home : Bytes) (image : Text) (uuid : Uuid) :
    ∃ part, part <:+ pathPart cwd home ∧
      part.length ≤ 63 - ((sanitizedImagePrefix image).length + 2 + 9) ∧
      part.head? ≠ some '-' ∧ part.getLast? ≠ some '-' ∧
      instanceName cwd home image uuid =
        sanitizedImagePrefix image ++ '-' :: part ++ '-' :: uuid8 uuid := by
  have hends : (pathPart cwd home).head? ≠ some '-' ∧ (pathPart cwd home).getLast? ≠ some '-' :=
    (trimBothHyphens_spec _).2
  obtain ⟨hsuffix, hlimit, hhead, hlast⟩ := fittedPart_spec
    (63 - ((sanitizedImagePrefix image).length + 2 + 9)) hends.1 hends.2
  exact ⟨_, hsuffix, hlimit, hhead, hlast, instanceName_eq cwd home image uuid⟩

theorem instanceName_eq_slices (cwd home : Bytes) (image : Text) (uuid : Uuid) :
    instanceName? cwd home image uuid = some (instanceName cwd home image uuid) := by
  have hascii : ∀ c ∈ pathPart cwd home, c.toNat < 128 := fun c hc =>
    isNameChar_ascii (pathPart_chars hc)
  have hprefix : byteLength (sanitizedImagePrefix image) = (sanitizedImagePrefix image).length :=
    byteLength_ascii fun c hc => isAlphanum_ascii ((sanitizedImagePrefix_spec image).2.2 c hc)
  rw [instanceName?, uuid8_eq_slice, sanitizedImagePrefix_eq_slice, instanceName_eq, fittedPart]
  simp only [Option.bind_eq_bind, Option.bind_some, hprefix, byteLength_ascii hascii]
  split
  · rw [sliceFrom, splitAtByte_ascii hascii (by omega)]
    rfl
  · rfl

theorem bridgeName_eq_slices (image : Text) (uuid : Uuid) :
    bridgeName? image uuid = some (bridgeName image uuid) := by
  rw [bridgeName?, uuid8_eq_slice, sanitizedImagePrefix_eq_slice]
  rfl

/-- At most `limit` bytes, of letters, digits and hyphens. -/
def Fits (limit : Nat) (name : Text) : Prop :=
  byteLength name ≤ limit ∧ ∀ c ∈ name, isNameChar c = true

theorem fits_of_length {limit : Nat} {name : Text} (hlength : name.length ≤ limit)
    (hchars : ∀ c ∈ name, isNameChar c = true) : Fits limit name := by
  refine ⟨?_, hchars⟩
  rw [byteLength_ascii fun c hc => isNameChar_ascii (hchars c hc)]
  exact hlength

theorem instanceName_fits (cwd home : Bytes) (image : Text) (uuid : Uuid) :
    Fits 63 (instanceName cwd home image uuid) := by
  obtain ⟨_, htwenty, halnum⟩ := sanitizedImagePrefix_spec image
  obtain ⟨part, hsuffix, hlimit, _, _, hname⟩ := instanceName_parts cwd home image uuid
  rw [hname]
  apply fits_of_length
  · simp only [List.length_append, List.length_cons, uuid8_length]
    omega
  · intro c hc
    simp only [List.mem_append, List.mem_cons] at hc
    rcases hc with (hc | rfl | hc) | rfl | hc
    · exact isNameChar_alphanum (halnum c hc)
    · decide
    · exact pathPart_chars (hsuffix.mem hc)
    · decide
    · exact isNameChar_alphanum (uuid8_alphanum hc)

theorem bridgeName_fits (image : Text) (uuid : Uuid) : Fits 15 (bridgeName image uuid) := by
  obtain ⟨_, _, halnum⟩ := sanitizedImagePrefix_spec image
  apply fits_of_length
  · have hsix := List.length_take_le 6 (sanitizedImagePrefix image)
    simp only [bridgeName, List.length_append, List.length_cons, uuid8_length]
    omega
  · intro c hc
    rcases List.mem_append.mp hc with hc | hc
    · exact isNameChar_alphanum (halnum c (List.mem_of_mem_take hc))
    rcases List.mem_cons.mp hc with rfl | hc
    · decide
    · exact isNameChar_alphanum (uuid8_alphanum hc)

/-- Every name ends with the digits of its UUID. -/
theorem names_end (cwd home : Bytes) (image : Text) (uuid : Uuid) :
    ∀ name ∈ [instanceName cwd home image uuid, bridgeName image uuid],
      ∃ front, name = front ++ uuid8 uuid := by
  intro name hname
  simp only [List.mem_cons, List.not_mem_nil, or_false] at hname
  rcases hname with rfl | rfl
  · exact ⟨_, List.append_cons _ _ _⟩
  · exact ⟨_, List.append_cons _ _ _⟩

theorem head_instanceName (cwd home : Bytes) (image : Text) (uuid : Uuid) :
    (instanceName cwd home image uuid).head? = (sanitizedImagePrefix image).head? := by
  obtain ⟨c, rest, hprefix⟩ := List.exists_cons_of_ne_nil (sanitizedImagePrefix_spec image).1
  rw [instanceName_eq, hprefix]
  rfl

theorem head_bridgeName (image : Text) (uuid : Uuid) :
    (bridgeName image uuid).head? = (sanitizedImagePrefix image).head? := by
  obtain ⟨c, rest, hprefix⟩ := List.exists_cons_of_ne_nil (sanitizedImagePrefix_spec image).1
  rw [bridgeName, hprefix]
  rfl

/-- No cut of a name is out of range or inside a character, and the names fit: their
lengths, their characters, and which parts they are made of. Names made from UUIDs
with different first digits differ. -/
theorem generated_names_fit (cwd home : Bytes) (image : Text) (uuid : Uuid) :
    (instanceName? cwd home image uuid = some (instanceName cwd home image uuid) ∧
      bridgeName? image uuid = some (bridgeName image uuid)) ∧
    (Fits 63 (instanceName cwd home image uuid) ∧ Fits 15 (bridgeName image uuid)) ∧
    ((instanceName cwd home image uuid).head? ≠ some '-' ∧
      (instanceName cwd home image uuid).getLast? ≠ some '-') ∧
    (∃ part, part <:+ pathPart cwd home ∧ part.head? ≠ some '-' ∧ part.getLast? ≠ some '-' ∧
      instanceName cwd home image uuid =
        sanitizedImagePrefix image ++ '-' :: part ++ '-' :: uuid8 uuid) ∧
    ∀ cwd' home' image' uuid', uuid8 uuid ≠ uuid8 uuid' →
      ∀ name ∈ [instanceName cwd home image uuid, bridgeName image uuid],
      ∀ other ∈ [instanceName cwd' home' image' uuid', bridgeName image' uuid'], name ≠ other := by
  obtain ⟨_, _, halnum⟩ := sanitizedImagePrefix_spec image
  refine ⟨⟨instanceName_eq_slices cwd home image uuid, bridgeName_eq_slices image uuid⟩,
    ⟨instanceName_fits cwd home image uuid, bridgeName_fits image uuid⟩, ⟨?_, ?_⟩, ?_, ?_⟩
  · intro hhead
    rw [head_instanceName] at hhead
    exact alphanum_ne_hyphen (halnum _ (List.mem_of_head? hhead)) rfl
  · intro hlast
    obtain ⟨front, hname⟩ := names_end cwd home image uuid _ List.mem_cons_self
    have hne : uuid8 uuid ≠ [] := List.ne_nil_of_length_pos (by rw [uuid8_length]; decide)
    rw [hname, List.getLast?_append_of_ne_nil _ hne] at hlast
    exact alphanum_ne_hyphen (uuid8_alphanum (List.mem_of_getLast? hlast)) rfl
  · obtain ⟨part, hsuffix, _, hhead, hlast, hname⟩ := instanceName_parts cwd home image uuid
    exact ⟨part, hsuffix, hhead, hlast, hname⟩
  · rintro cwd' home' image' uuid' hdigits name hname other hother rfl
    obtain ⟨front, hfront⟩ := names_end cwd home image uuid name hname
    obtain ⟨front', hfront'⟩ := names_end cwd' home' image' uuid' name hother
    apply hdigits
    refine (List.append_inj' (hfront.symm.trans hfront') ?_).2
    rw [uuid8_length, uuid8_length]

theorem generated_names_fit_ubuntu :
    instanceName (utf8 "/tmp".toList) (utf8 "/root".toList) "ubuntu".toList 0#128 ≠
      instanceName (utf8 "/tmp".toList) (utf8 "/root".toList) "ubuntu".toList (1#128 <<< 96) := by
  obtain ⟨_, _, _, _, hdiffer⟩ := generated_names_fit (utf8 "/tmp".toList) (utf8 "/root".toList)
    "ubuntu".toList 0#128
  exact hdiffer _ _ _ (1#128 <<< 96) (by decide) _ List.mem_cons_self _ List.mem_cons_self

/-! ## The first character -/

def isImageSeparator (c : Char) : Bool := c = '/' || c = ':'

/-- The first letter or digit behind the last `/` or `:` is a digit. -/
def StartsWithDigit (image : Text) : Prop :=
  ∃ before skipped digit rest, image = before ++ (skipped ++ digit :: rest) ∧
    EndsIn isImageSeparator before ∧
    (∀ c ∈ skipped ++ digit :: rest, isImageSeparator c = false) ∧
    (∀ c ∈ skipped, c.isAlphanum = false) ∧ digit.isDigit = true

theorem isImageSeparator_eq (c : Char) :
    (decide (c ≠ '/') && decide (c ≠ ':')) = !isImageSeparator c := by
  rw [isImageSeparator, Bool.not_or, decide_not, decide_not]

theorem lastComponent_append {before last : Text} (hbefore : EndsIn isImageSeparator before)
    (hlast : ∀ c ∈ last, isImageSeparator c = false) : lastComponent (before ++ last) = last := by
  have hfree : ∀ c ∈ last.reverse, (!isImageSeparator c) = true := by
    intro c hc
    rw [hlast c (List.mem_reverse.mp hc)]
    rfl
  rw [lastComponent]
  simp only [isImageSeparator_eq]
  rw [List.reverse_append, List.takeWhile_append_of_pos hfree]
  rcases hbefore with rfl | ⟨front, sep, rfl, hsep⟩
  · simp
  · simp [hsep]

theorem lastComponent_split (image : Text) :
    ∃ before, image = before ++ lastComponent image ∧ EndsIn isImageSeparator before ∧
      ∀ c ∈ lastComponent image, isImageSeparator c = false := by
  have hlast : ∀ c ∈ lastComponent image, isImageSeparator c = false := by
    intro c hc
    have hkept := List.mem_takeWhile_imp (List.mem_reverse.mp hc)
    rw [isImageSeparator_eq] at hkept
    simpa using hkept
  have heq : lastComponent image =
      (image.reverse.takeWhile fun c => !isImageSeparator c).reverse := by
    rw [lastComponent]
    simp only [isImageSeparator_eq]
  rcases takeWhile_split isImageSeparator image.reverse with hall | ⟨sep, rest, hsplit, hsep⟩
  · refine ⟨[], ?_, endsIn_nil _, hlast⟩
    rw [heq, hall, List.reverse_reverse]
    rfl
  · refine ⟨rest.reverse ++ [sep], ?_, Or.inr ⟨_, _, rfl, hsep⟩, hlast⟩
    rw [heq]
    have hreverse := congrArg List.reverse hsplit
    rw [List.reverse_reverse, List.reverse_append, List.reverse_cons] at hreverse
    exact hreverse

theorem startsWithDigit_iff (image : Text) :
    StartsWithDigit image ↔
      ∃ digit, (lastComponent image).find? Char.isAlphanum = some digit ∧ digit.isDigit = true := by
  constructor
  · rintro ⟨before, skipped, digit, rest, rfl, hbefore, hlast, hskipped, hdigit⟩
    refine ⟨digit, ?_, hdigit⟩
    rw [lastComponent_append hbefore hlast, List.find?_eq_some_iff_append]
    refine ⟨?_, skipped, rest, rfl, fun c hc => by rw [hskipped c hc]; rfl⟩
    exact isAlphanum_iff.mpr (Or.inr hdigit)
  · rintro ⟨digit, hfind, hdigit⟩
    obtain ⟨before, himage, hbefore, hlast⟩ := lastComponent_split image
    obtain ⟨_, skipped, rest, hcomponent, hskipped⟩ := List.find?_eq_some_iff_append.mp hfind
    rw [hcomponent] at himage hlast
    refine ⟨before, skipped, digit, rest, himage, hbefore, hlast, fun c hc => ?_, hdigit⟩
    simpa using hskipped c hc

theorem head_sanitizedImagePrefix (image : Text) :
    (sanitizedImagePrefix image).head? =
      some (((lastComponent image).find? Char.isAlphanum).getD 'i') := by
  rw [← List.head?_filter, sanitizedImagePrefix_eq]
  change _ = some ((imageLetters image).head?.getD 'i')
  cases hletters : imageLetters image with
  | nil => rfl
  | cons c letters =>
    rw [if_neg (List.cons_ne_nil c letters)]
    split
    · rfl
    · rfl

theorem isAlpha_eq_not_isDigit {c : Char} (halnum : c.isAlphanum = true) :
    c.isAlpha = !c.isDigit := by
  have hnine : '9'.toNat = 57 := rfl
  cases hdigit : c.isDigit with
  | true =>
    refine Bool.eq_false_iff.mpr fun halpha => ?_
    rw [isAlpha_iff_toNat] at halpha
    rw [Char.isDigit_iff_toNat] at hdigit
    omega
  | false =>
    rw [isAlphanum_iff, hdigit] at halnum
    exact halnum.resolve_right Bool.false_ne_true

theorem head_letter_iff (image : Text) :
    (∃ c, (sanitizedImagePrefix image).head? = some c ∧ c.isAlpha = true) ↔
      ¬ StartsWithDigit image := by
  rw [head_sanitizedImagePrefix, startsWithDigit_iff]
  cases hfind : (lastComponent image).find? Char.isAlphanum with
  | none =>
    refine ⟨fun _ => ?_, fun _ => ⟨'i', rfl, by decide⟩⟩
    rintro ⟨digit, hdigit, _⟩
    cases hdigit
  | some first =>
    have halpha := isAlpha_eq_not_isDigit (List.find?_some hfind)
    constructor
    · rintro ⟨c, hc, hletter⟩ ⟨digit, hdigit, hisDigit⟩
      obtain rfl : first = c := Option.some.inj hc
      obtain rfl : first = digit := Option.some.inj hdigit
      rw [halpha, hisDigit] at hletter
      cases hletter
    · intro hno
      refine ⟨first, rfl, ?_⟩
      rw [halpha, Bool.not_eq_true']
      exact Bool.eq_false_iff.mpr fun hdigit => hno ⟨first, rfl, hdigit⟩

/-- Both names start with a letter exactly when the image does not start with a digit. -/
theorem names_start_with_letter (cwd home : Bytes) (image : Text) (uuid : Uuid) :
    ((∃ c, (instanceName cwd home image uuid).head? = some c ∧ c.isAlpha = true) ↔
      ¬ StartsWithDigit image) ∧
    ((∃ c, (bridgeName image uuid).head? = some c ∧ c.isAlpha = true) ↔
      ¬ StartsWithDigit image) := by
  rw [head_instanceName, head_bridgeName]
  exact ⟨head_letter_iff image, head_letter_iff image⟩

/-- `images:ubuntu/24.04` gives a name that starts with `2404`. -/
theorem ubuntu_names_start_with_digit :
    ¬ ((∃ c, (instanceName (utf8 "/root/p".toList) (utf8 "/root".toList)
        "images:ubuntu/24.04".toList 0#128).head? = some c ∧ c.isAlpha = true) ∧
      ∃ c, (bridgeName "images:ubuntu/24.04".toList 0#128).head? = some c ∧ c.isAlpha = true) := by
  rintro ⟨_, c, hc, halpha⟩
  have hhead : (bridgeName "images:ubuntu/24.04".toList 0#128).head? = some '2' := by decide +kernel
  rw [hhead] at hc
  obtain rfl : '2' = c := Option.some.inj hc
  cases halpha

end GeneratedNames
