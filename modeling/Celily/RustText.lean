import Mathlib.Algebra.Group.Nat.Defs
import Mathlib.Data.List.Basic
import Mathlib.Data.List.Infix

/-!
# Texts, bytes and numerals

A Rust `String` is the list of its Unicode scalar values; a path, an `OsString`
or a byte buffer is a list of bytes. `utf8` goes from the first to the second.
Only the operations of the standard library that the program calls are here.
-/

namespace RustText

abbrev Text := List Char
abbrev Bytes := List UInt8

instance : LawfulBEq Text := inferInstance

/-- The bytes of a text, `str::as_bytes`. -/
def utf8 (s : Text) : Bytes := s.flatMap String.utf8EncodeChar

@[simp] theorem utf8_nil : utf8 [] = [] := rfl

@[simp] theorem utf8_append (s t : Text) : utf8 (s ++ t) = utf8 s ++ utf8 t :=
  List.flatMap_append

theorem utf8_injective {s t : Text} (h : utf8 s = utf8 t) : s = t := by
  have hbytes : s.utf8Encode = t.utf8Encode := by
    rw [List.utf8Encode, List.utf8Encode]
    exact congrArg List.toByteArray h
  have hstring : String.ofList s = String.ofList t := by
    apply String.toByteArray_inj.mp
    rw [String.toByteArray_ofList, String.toByteArray_ofList, hbytes]
  exact String.ofList_injective hstring

/-- An ASCII byte of an encoded character is the character. -/
theorem toNat_of_mem_utf8EncodeChar {c : Char} {byte : UInt8} (hascii : byte.toNat < 128)
    (hmem : byte ∈ String.utf8EncodeChar c) : byte.toNat = c.toNat := by
  rw [String.utf8EncodeChar] at hmem
  have hval : c.val.toNat = c.toNat := rfl
  simp only [hval] at hmem
  split at hmem
  · rw [List.mem_singleton.mp hmem, UInt8.toNat_ofNat']
    omega
  -- every byte of a longer encoding has its high bit set
  have hhigh : ∀ n, n % 256 ≥ 128 → byte ≠ UInt8.ofNat n := by
    rintro n hn rfl
    rw [UInt8.toNat_ofNat'] at hascii
    omega
  split at hmem
  · simp only [List.mem_cons, List.not_mem_nil, or_false] at hmem
    rcases hmem with hmem | hmem
    · exact absurd hmem (hhigh _ (by omega))
    · exact absurd hmem (hhigh _ (by omega))
  split at hmem
  · simp only [List.mem_cons, List.not_mem_nil, or_false] at hmem
    rcases hmem with hmem | hmem | hmem
    · exact absurd hmem (hhigh _ (by omega))
    · exact absurd hmem (hhigh _ (by omega))
    · exact absurd hmem (hhigh _ (by omega))
  · simp only [List.mem_cons, List.not_mem_nil, or_false] at hmem
    rcases hmem with hmem | hmem | hmem | hmem
    · exact absurd hmem (hhigh _ (by omega))
    · exact absurd hmem (hhigh _ (by omega))
    · exact absurd hmem (hhigh _ (by omega))
    · exact absurd hmem (hhigh _ (by omega))

theorem notMem_utf8 {c : Char} {s : Text} (hascii : c.toNat < 128) (hs : c ∉ s) :
    UInt8.ofNat c.toNat ∉ utf8 s := by
  intro hmem
  obtain ⟨other, hother, hbyte⟩ := List.mem_flatMap.mp hmem
  have hsmall : (UInt8.ofNat c.toNat).toNat = c.toNat := by
    rw [UInt8.toNat_ofNat']
    omega
  have hval := toNat_of_mem_utf8EncodeChar (by omega) hbyte
  rw [hsmall] at hval
  obtain rfl : c = other := Char.toNat_inj.mp hval
  exact hs hother

/-- `str::eq_ignore_ascii_case`: only the letters `A` to `Z` are folded. -/
def eqIgnoreAsciiCase (s t : Text) : Bool := s.map Char.toLower == t.map Char.toLower

theorem eqIgnoreAsciiCase_iff (s t : Text) :
    eqIgnoreAsciiCase s t = true ↔ s.map Char.toLower = t.map Char.toLower := by
  simp [eqIgnoreAsciiCase]

@[simp] theorem eqIgnoreAsciiCase_refl (s : Text) : eqIgnoreAsciiCase s s = true := by
  simp [eqIgnoreAsciiCase]

theorem eqIgnoreAsciiCase_comm (s t : Text) : eqIgnoreAsciiCase s t = eqIgnoreAsciiCase t s := by
  simp [eqIgnoreAsciiCase, Bool.beq_comm]

theorem eqIgnoreAsciiCase_trans {s t u : Text} (hst : eqIgnoreAsciiCase s t = true)
    (htu : eqIgnoreAsciiCase t u = true) : eqIgnoreAsciiCase s u = true := by
  rw [eqIgnoreAsciiCase_iff] at *
  exact hst.trans htu

/-- An unsigned integer's `Display`. -/
def decimal (n : Nat) : Text := Nat.toDigits 10 n

theorem lookup_cons {β : Type} (entry : Text × β) (entries : List (Text × β)) (key : Text) :
    (entry :: entries).lookup key = if key = entry.1 then some entry.2 else entries.lookup key := by
  rw [List.lookup_cons]
  by_cases heq : key = entry.1
  · simp [heq]
  · simp [heq, beq_eq_false_iff_ne.mpr heq]

/-- Read a non-empty run of decimal digits. -/
def digitsValue (s : Text) : Option Nat :=
  if s ≠ [] ∧ s.all Char.isDigit then some (Nat.ofDigitChars 10 s 0) else none

/-- `from_str` of the unsigned integer type with `bound` values: a leading `+`
and leading zeros are accepted, an overflow is not. -/
def parseUnsigned (bound : Nat) (s : Text) : Option Nat :=
  let digits := match s with
    | '+' :: rest => rest
    | _ => s
  (digitsValue digits).filter (· < bound)

theorem decimal_ne_nil (n : Nat) : decimal n ≠ [] := Nat.toDigits_ne_nil

theorem isDigit_of_mem_decimal {n : Nat} {c : Char} (h : c ∈ decimal n) : c.isDigit = true :=
  Nat.isDigit_of_mem_toDigits (by decide) (by decide) h

theorem notMem_decimal {n : Nat} {c : Char} (hc : c.isDigit = false) : c ∉ decimal n := by
  intro h
  have hd := isDigit_of_mem_decimal h
  rw [hc] at hd
  cases hd

theorem digitsValue_decimal (n : Nat) : digitsValue (decimal n) = some n := by
  have hall : (decimal n).all Char.isDigit = true :=
    List.all_eq_true.mpr (fun c hc => isDigit_of_mem_decimal hc)
  rw [digitsValue, if_pos ⟨decimal_ne_nil n, hall⟩]
  exact congrArg some (by simp [decimal])

theorem parseUnsigned_decimal {bound n : Nat} (h : n < bound) :
    parseUnsigned bound (decimal n) = some n := by
  have hplus : ∀ rest, decimal n ≠ '+' :: rest := by
    intro rest he
    exact notMem_decimal (n := n) (c := '+') (by decide) (by rw [he]; exact List.mem_cons_self)
  unfold parseUnsigned
  split
  · rename_i rest he
    exact False.elim (hplus rest he)
  · simp [digitsValue_decimal, h]

/-- The characters with the Unicode property `White_Space`. -/
def isWhitespace (c : Char) : Bool :=
  (9 ≤ c.toNat && c.toNat ≤ 13) || (0x2000 ≤ c.toNat && c.toNat ≤ 0x200a) ||
    [0x20, 0x85, 0xa0, 0x1680, 0x2028, 0x2029, 0x202f, 0x205f, 0x3000].contains c.toNat

/-- `str::trim`. -/
def trim (s : Text) : Text :=
  ((s.dropWhile isWhitespace).reverse.dropWhile isWhitespace).reverse

/-- `str::strip_prefix`. -/
def stripPrefix (start s : Text) : Option Text :=
  if start.isPrefixOf s then some (s.drop start.length) else none

/-- `str::split_whitespace`. -/
def splitWhitespace (s : Text) : List Text :=
  (s.splitOnP isWhitespace).filter (fun word => !word.isEmpty)

/-! ## Lossy decoding -/

def isContinuation (byte : UInt8) : Bool := 128 ≤ byte && byte ≤ 191

/-- Whether `next` may follow `first` as the second byte of a character. -/
def startsCharacter (first next : UInt8) : Bool :=
  if first = 0xe0 then 0xa0 ≤ next && next ≤ 0xbf
  else if first = 0xed then 0x80 ≤ next && next ≤ 0x9f
  else if first = 0xf0 then 0x90 ≤ next && next ≤ 0xbf
  else if first = 0xf4 then 0x80 ≤ next && next ≤ 0x8f
  else isContinuation next

/-- How many bytes the character that starts with `first` has; 0 for no character. -/
def characterWidth (first : UInt8) : Nat :=
  if first < 128 then 1
  else if 0xc2 ≤ first ∧ first ≤ 0xdf then 2
  else if 0xe0 ≤ first ∧ first ≤ 0xef then 3
  else if 0xf0 ≤ first ∧ first ≤ 0xf4 then 4
  else 0

/-- The first character, or U+FFFD for the longest part that could have started one,
and the number of its bytes after the first. -/
def decodeCharacter (first : UInt8) (rest : Bytes) : Char × Nat :=
  let bits (byte : UInt8) := byte.toNat % 64
  match characterWidth first, rest with
  | 1, _ => (Char.ofNat first.toNat, 0)
  | 2, b :: _ =>
    if isContinuation b then (Char.ofNat (first.toNat % 32 * 64 + bits b), 1) else ('\ufffd', 0)
  | 3, b :: c :: _ =>
    if startsCharacter first b && isContinuation c then
      (Char.ofNat (first.toNat % 16 * 4096 + bits b * 64 + bits c), 2)
    else ('\ufffd', if startsCharacter first b then 1 else 0)
  | 4, b :: c :: d :: _ =>
    if startsCharacter first b && isContinuation c && isContinuation d then
      (Char.ofNat (first.toNat % 8 * 262144 + bits b * 4096 + bits c * 64 + bits d), 3)
    else ('\ufffd', if startsCharacter first b then if isContinuation c then 2 else 1 else 0)
  | 3, [b] => ('\ufffd', if startsCharacter first b then 1 else 0)
  | 4, [b] => ('\ufffd', if startsCharacter first b then 1 else 0)
  | 4, [b, c] =>
    ('\ufffd', if startsCharacter first b then if isContinuation c then 2 else 1 else 0)
  | _, _ => ('\ufffd', 0)

def decodeLossy : Nat → Bytes → Text
  | 0, _ => []
  | _, [] => []
  | fuel + 1, first :: rest =>
    let decoded := decodeCharacter first rest
    decoded.1 :: decodeLossy fuel (rest.drop decoded.2)

/-- `String::from_utf8_lossy`; a byte makes at most one character. -/
def fromUtf8Lossy (bytes : Bytes) : Text := decodeLossy bytes.length bytes

/-- `Path::to_str`: the text, if the bytes are one. -/
def toStr (bytes : Bytes) : Option Text :=
  if utf8 (fromUtf8Lossy bytes) = bytes then some (fromUtf8Lossy bytes) else none

theorem isContinuation_iff (byte : UInt8) :
    isContinuation byte = true ↔ 128 ≤ byte.toNat ∧ byte.toNat ≤ 191 := by
  rw [isContinuation, Bool.and_eq_true, decide_eq_true_iff, decide_eq_true_iff,
    UInt8.le_iff_toNat_le, UInt8.le_iff_toNat_le]
  exact Iff.rfl

theorem startsCharacter_of {first next : UInt8} (hlow : 128 ≤ next.toNat)
    (hhigh : next.toNat ≤ 191) (he0 : first.toNat = 224 → 160 ≤ next.toNat)
    (hed : first.toNat = 237 → next.toNat ≤ 159) (hf0 : first.toNat = 240 → 144 ≤ next.toNat)
    (hf4 : first.toNat = 244 → next.toNat ≤ 143) : startsCharacter first next = true := by
  rw [startsCharacter]
  split
  · next h =>
    have := he0 (congrArg UInt8.toNat h)
    rw [Bool.and_eq_true, decide_eq_true_iff, decide_eq_true_iff]
    exact ⟨this, hhigh⟩
  split
  · next h =>
    have := hed (congrArg UInt8.toNat h)
    rw [Bool.and_eq_true, decide_eq_true_iff, decide_eq_true_iff]
    exact ⟨hlow, this⟩
  split
  · next h =>
    have := hf0 (congrArg UInt8.toNat h)
    rw [Bool.and_eq_true, decide_eq_true_iff, decide_eq_true_iff]
    exact ⟨this, hhigh⟩
  split
  · next h =>
    have := hf4 (congrArg UInt8.toNat h)
    rw [Bool.and_eq_true, decide_eq_true_iff, decide_eq_true_iff]
    exact ⟨hlow, this⟩
  · exact (isContinuation_iff next).mpr ⟨hlow, hhigh⟩

theorem characterWidth_eq (first : UInt8) :
    characterWidth first =
      if first.toNat < 128 then 1
      else if 194 ≤ first.toNat ∧ first.toNat ≤ 223 then 2
      else if 224 ≤ first.toNat ∧ first.toNat ≤ 239 then 3
      else if 240 ≤ first.toNat ∧ first.toNat ≤ 244 then 4
      else 0 := by
  simp only [characterWidth, UInt8.lt_iff_toNat_lt, UInt8.le_iff_toNat_le]
  rfl

/-- The first character of an encoded text is read back. -/
theorem decodeCharacter_utf8EncodeChar (c : Char) :
    ∃ first rest, String.utf8EncodeChar c = first :: rest ∧
      ∀ tail, decodeCharacter first (rest ++ tail) = (c, rest.length) := by
  rw [String.utf8EncodeChar]
  have hval : c.val.toNat = c.toNat := rfl
  have hchar : c.toNat < 55296 ∨ 57343 < c.toNat ∧ c.toNat < 1114112 := c.valid
  have hread : ∀ {n}, n = c.toNat → Char.ofNat n = c := by
    rintro n rfl
    exact Char.ofNat_toNat c
  simp only [hval]
  split
  · refine ⟨_, _, rfl, fun tail => ?_⟩
    have hwidth : characterWidth (UInt8.ofNat c.toNat) = 1 := by
      rw [characterWidth_eq, UInt8.toNat_ofNat', if_pos (by omega)]
    simp only [decodeCharacter, hwidth, UInt8.toNat_ofNat', List.length_nil]
    rw [hread (by omega)]
  have hbyte : ∀ n, (UInt8.ofNat n).toNat = n % 256 := fun n => UInt8.toNat_ofNat'
  split
  · refine ⟨_, _, rfl, fun tail => ?_⟩
    have hwidth : characterWidth (UInt8.ofNat (c.toNat / 64 % 32 + 192)) = 2 := by
      rw [characterWidth_eq, hbyte, if_neg (by omega), if_pos (by omega)]
    have hnext : isContinuation (UInt8.ofNat (c.toNat % 64 + 128)) = true := by
      rw [isContinuation_iff, hbyte]
      omega
    simp only [decodeCharacter, hwidth, List.cons_append, hnext, if_true, hbyte]
    rw [hread (by omega)]
    rfl
  split
  · refine ⟨_, _, rfl, fun tail => ?_⟩
    have hwidth : characterWidth (UInt8.ofNat (c.toNat / 4096 % 16 + 224)) = 3 := by
      rw [characterWidth_eq, hbyte, if_neg (by omega), if_neg (by omega), if_pos (by omega)]
    have hsecond : startsCharacter (UInt8.ofNat (c.toNat / 4096 % 16 + 224))
        (UInt8.ofNat (c.toNat / 64 % 64 + 128)) = true := by
      apply startsCharacter_of <;> simp only [hbyte] <;> omega
    have hnext : isContinuation (UInt8.ofNat (c.toNat % 64 + 128)) = true := by
      rw [isContinuation_iff, hbyte]
      omega
    simp only [decodeCharacter, hwidth, List.cons_append, hsecond, hnext, Bool.and_true, if_true,
      hbyte]
    rw [hread (by omega)]
    rfl
  · refine ⟨_, _, rfl, fun tail => ?_⟩
    have hwidth : characterWidth (UInt8.ofNat (c.toNat / 262144 % 8 + 240)) = 4 := by
      rw [characterWidth_eq, hbyte, if_neg (by omega), if_neg (by omega), if_neg (by omega),
        if_pos (by omega)]
    have hsecond : startsCharacter (UInt8.ofNat (c.toNat / 262144 % 8 + 240))
        (UInt8.ofNat (c.toNat / 4096 % 64 + 128)) = true := by
      apply startsCharacter_of <;> simp only [hbyte] <;> omega
    have hthird : isContinuation (UInt8.ofNat (c.toNat / 64 % 64 + 128)) = true := by
      rw [isContinuation_iff, hbyte]
      omega
    have hnext : isContinuation (UInt8.ofNat (c.toNat % 64 + 128)) = true := by
      rw [isContinuation_iff, hbyte]
      omega
    simp only [decodeCharacter, hwidth, List.cons_append, hsecond, hthird, hnext, Bool.and_true,
      if_true, hbyte]
    rw [hread (by omega)]
    rfl

theorem decodeLossy_utf8 (s : Text) {fuel : Nat} (henough : (utf8 s).length ≤ fuel) :
    decodeLossy fuel (utf8 s) = s := by
  induction s generalizing fuel with
  | nil =>
    cases fuel with
    | zero => rfl
    | succ fuel => rfl
  | cons c s ih =>
    obtain ⟨first, rest, hbytes, hread⟩ := decodeCharacter_utf8EncodeChar c
    have hutf8 : utf8 (c :: s) = first :: (rest ++ utf8 s) := by
      rw [utf8, List.flatMap_cons, hbytes, List.cons_append]
      rfl
    rw [hutf8, List.length_cons, List.length_append] at henough
    obtain ⟨fuel, rfl⟩ : ∃ n, fuel = n + 1 := ⟨fuel - 1, by omega⟩
    rw [hutf8, decodeLossy, hread, List.drop_left, ih (by omega)]

theorem fromUtf8Lossy_utf8 (s : Text) : fromUtf8Lossy (utf8 s) = s :=
  decodeLossy_utf8 s (Nat.le_refl _)

/-- `to_str` reads exactly the bytes of texts. -/
theorem toStr_eq_some_iff (bytes : Bytes) (s : Text) : toStr bytes = some s ↔ utf8 s = bytes := by
  rw [toStr]
  constructor
  · intro hread
    split at hread
    · obtain rfl := Option.some.inj hread
      assumption
    · cases hread
  · rintro rfl
    rw [fromUtf8Lossy_utf8, if_pos rfl]

example : fromUtf8Lossy (utf8 "~/é€😀".toList) = "~/é€😀".toList := by decide
example : fromUtf8Lossy [126, 0xe2, 0x82, 47, 0xff] = ['~', '\ufffd', '/', '\ufffd'] := by decide

end RustText
