import Celily.PathPrefixes

/-!
# Percent-encoded texts and their one decoding

`percent_decode` walks the bytes by index. `percentDecodeLoop` is that walk with its
indexing explicit; on every input it ends with what `percentDecodeBytes` computes from
the bytes behind the index. A `Written` byte string is one way of escaping it.
-/

namespace PercentEncoding

open RustText PathPrefixes

/-- `bytes.get(start..stop)`. -/
def slice (bytes : Bytes) (start stop : Nat) : Option Bytes :=
  if start ≤ stop ∧ stop ≤ bytes.length then some ((bytes.take stop).drop start) else none

/-- The byte that the escape at `i` stands for, when `byte` is a `%` that starts one. -/
def escapeAt (bytes : Bytes) (i : Nat) (byte : UInt8) : Option UInt8 :=
  if byte = 37 then
    match slice bytes (i + 1) (i + 3) with
    | some [hi, lo] => escapedByte hi lo
    | _ => none
  else none

/-- The loop of `percent_decode`; no result when an index is out of bounds or `fuel`
iterations are not enough. -/
def percentDecodeLoop (bytes : Bytes) : Nat → Nat → Bytes → Option Bytes
  | 0, i, decoded => if i < bytes.length then none else some decoded
  | fuel + 1, i, decoded =>
    if i < bytes.length then do
      let byte ← bytes[i]?
      match escapeAt bytes i byte with
      | some escaped => percentDecodeLoop bytes fuel (i + 3) (decoded ++ [escaped])
      | none => percentDecodeLoop bytes fuel (i + 1) (decoded ++ [byte])
    else some decoded

example : percentDecodeLoop (utf8 "%%2e%2".toList) 6 0 [] = some (utf8 "%.%2".toList) := by decide

theorem slice_two (front : Bytes) (byte hi lo : UInt8) (rest : Bytes) :
    slice (front ++ byte :: hi :: lo :: rest) (front.length + 1) (front.length + 3) =
      some [hi, lo] := by
  have hroom : front.length + 3 ≤ (front ++ byte :: hi :: lo :: rest).length := by
    simp only [List.length_append, List.length_cons]
    omega
  rw [slice, if_pos ⟨by omega, hroom⟩, List.take_length_add_append, List.drop_length_add_append]
  rfl

theorem slice_short (front : Bytes) (byte : UInt8) {rest : Bytes} (hshort : rest.length < 2) :
    slice (front ++ byte :: rest) (front.length + 1) (front.length + 3) = none := by
  rw [slice, if_neg]
  simp only [List.length_append, List.length_cons]
  omega

theorem loop_eq (fuel : Nat) (front rest decoded : Bytes) (henough : rest.length ≤ fuel) :
    percentDecodeLoop (front ++ rest) fuel front.length decoded =
      some (decoded ++ percentDecodeBytes rest) := by
  induction fuel generalizing front rest decoded with
  | zero =>
    obtain rfl := List.length_eq_zero_iff.mp (Nat.le_zero.mp henough)
    simp [percentDecodeLoop, percentDecodeBytes]
  | succ fuel ih =>
    cases rest with
    | nil => simp [percentDecodeLoop, percentDecodeBytes]
    | cons byte rest =>
      have hroom : front.length < (front ++ byte :: rest).length := by
        rw [List.length_append, List.length_cons]
        omega
      have hbyte : (front ++ byte :: rest)[front.length]? = some byte := by simp
      have hlength : rest.length ≤ fuel := Nat.le_of_succ_le_succ henough
      -- one byte is kept, and the walk goes on behind it
      have hkeep : percentDecodeLoop (front ++ byte :: rest) fuel (front.length + 1)
          (decoded ++ [byte]) = some (decoded ++ byte :: percentDecodeBytes rest) := by
        have hnext := ih (front ++ [byte]) rest (decoded ++ [byte]) hlength
        rw [List.length_append, List.length_singleton, List.append_assoc] at hnext
        rw [List.append_assoc] at hnext
        exact hnext
      rw [percentDecodeLoop, if_pos hroom, hbyte]
      dsimp only [Option.bind_eq_bind, Option.bind_some]
      by_cases hpercent : byte = 37
      · subst hpercent
        rcases rest with _ | ⟨hi, _ | ⟨lo, rest⟩⟩
        · rw [escapeAt, if_pos rfl, slice_short front 37 (by decide)]
          exact hkeep
        · rw [escapeAt, if_pos rfl, slice_short front 37 (by simp)]
          exact hkeep
        · rw [escapeAt, if_pos rfl, slice_two, decode_percent]
          cases hescaped : escapedByte hi lo with
          | none => simpa only [hescaped] using hkeep
          | some escaped =>
            have hnext := ih (front ++ [37, hi, lo]) rest (decoded ++ [escaped]) (by
              simp only [List.length_cons] at hlength
              omega)
            simpa [hescaped] using hnext
      · rw [escapeAt, if_neg hpercent, decode_cons_ne hpercent]
        exact hkeep

theorem decode_length_le (bytes : Bytes) : (percentDecodeBytes bytes).length ≤ bytes.length := by
  induction bytes using percentDecodeBytes.induct with
  | case1 => exact Nat.le_refl 0
  | case2 hi lo rest byte hescaped ih =>
    simp only [decode_percent, hescaped, List.length_cons]
    omega
  | case3 hi lo rest hescaped ih =>
    simp only [decode_percent, hescaped, List.length_cons] at ih ⊢
    omega
  | case4 byte rest hshape ih =>
    rw [percentDecodeBytes]
    · simp only [List.length_cons]
      omega
    · exact hshape

/-! ## Writing a byte string -/

/-- A byte is left as it is, or escaped with digits of either case. -/
inductive Writing where
  | literal
  | escaped (upperHi upperLo : Bool)

def digitByte (upper : Bool) (n : Nat) : UInt8 :=
  let digit := Nat.digitChar n
  UInt8.ofNat (if upper then digit.toUpper else digit).toNat

def Writing.write : Writing → UInt8 → Bytes
  | .literal, byte => [byte]
  | .escaped upperHi upperLo, byte =>
    [37, digitByte upperHi (byte.toNat / 16), digitByte upperLo (byte.toNat % 16)]

/-- A byte string, each byte with the way it is written. -/
abbrev Written := List (Writing × UInt8)

def Written.text (w : Written) : Bytes := w.flatMap fun entry => entry.1.write entry.2

def Written.bytes (w : Written) : Bytes := w.map Prod.snd

def isHexDigit (byte : UInt8) : Bool := (utf8 "0123456789abcdefABCDEF".toList).contains byte

/-- No literal `%` is followed by two hex digits of the text. -/
def Written.Unambiguous (w : Written) : Prop :=
  ∀ front back, w = front ++ (.literal, 37) :: back → ∀ hi lo rest,
    Written.text back = hi :: lo :: rest → ¬ (isHexDigit hi = true ∧ isHexDigit lo = true)

theorem isHexDigit_of_hexDigit {byte value : UInt8} (h : hexDigit byte = some value) :
    isHexDigit byte = true := by
  have hall : ∀ n < 256, (hexDigit (UInt8.ofNat n)).isSome = true →
      isHexDigit (UInt8.ofNat n) = true := by decide +kernel
  have hbyte := hall byte.toNat byte.toNat_lt
  rw [UInt8.ofNat_toNat, h] at hbyte
  exact hbyte rfl

theorem escapedByte_eq_none {hi lo : UInt8}
    (h : ¬ (isHexDigit hi = true ∧ isHexDigit lo = true)) : escapedByte hi lo = none := by
  cases hhi : hexDigit hi with
  | none => simp [escapedByte, hhi]
  | some high =>
    cases hlo : hexDigit lo with
    | none => simp [escapedByte, hlo]
    | some low => exact absurd ⟨isHexDigit_of_hexDigit hhi, isHexDigit_of_hexDigit hlo⟩ h

theorem hexDigit_digitByte (upper : Bool) {n : Nat} (hn : n < 16) :
    hexDigit (digitByte upper n) = some (UInt8.ofNat n) := by
  have hall : ∀ n < 16, hexDigit (digitByte true n) = some (UInt8.ofNat n) ∧
      hexDigit (digitByte false n) = some (UInt8.ofNat n) := by decide
  cases upper with
  | true => exact (hall n hn).1
  | false => exact (hall n hn).2

theorem escapedByte_digitByte (upperHi upperLo : Bool) (byte : UInt8) :
    escapedByte (digitByte upperHi (byte.toNat / 16)) (digitByte upperLo (byte.toNat % 16)) =
      some byte := by
  have hlt : byte.toNat < 256 := byte.toNat_lt
  rw [escapedByte, hexDigit_digitByte upperHi (by omega), hexDigit_digitByte upperLo (by omega)]
  refine congrArg some (UInt8.toNat_inj.mp ?_)
  have hhi : (UInt8.ofNat (byte.toNat / 16)).toNat = byte.toNat / 16 := by
    rw [UInt8.toNat_ofNat']
    omega
  have hlo : (UInt8.ofNat (byte.toNat % 16)).toNat = byte.toNat % 16 := by
    rw [UInt8.toNat_ofNat']
    omega
  have hfour : UInt8.toNat 4 % 8 = 4 := rfl
  have hshift : (byte.toNat / 16) <<< 4 < 2 ^ 8 := by
    rw [Nat.shiftLeft_eq]
    omega
  rw [UInt8.toNat_or, UInt8.toNat_shiftLeft, hfour, hhi, hlo, Nat.mod_eq_of_lt hshift]
  rw [← Nat.shiftLeft_add_eq_or_of_lt (by omega), Nat.shiftLeft_eq]
  omega

theorem Written.Unambiguous.tail {entry : Writing × UInt8} {w : Written}
    (h : Unambiguous (entry :: w)) : Unambiguous w := by
  rintro front back rfl
  exact h (entry :: front) back rfl

theorem decode_text {w : Written} (h : w.Unambiguous) : percentDecodeBytes w.text = w.bytes := by
  induction w with
  | nil => rfl
  | cons entry w ih =>
    obtain ⟨writing, byte⟩ := entry
    have hrest := ih h.tail
    have htext : Written.text ((writing, byte) :: w) = writing.write byte ++ Written.text w := rfl
    have hbytes : Written.bytes ((writing, byte) :: w) = byte :: Written.bytes w := rfl
    rw [htext, hbytes]
    cases writing with
    | escaped upperHi upperLo =>
      simp only [Writing.write, List.cons_append, List.nil_append, decode_percent,
        escapedByte_digitByte, hrest]
    | literal =>
      rw [Writing.write, List.singleton_append]
      by_cases hpercent : byte = 37
      · subst hpercent
        -- what stands behind a literal `%` is no escape
        match htail : Written.text w with
        | [] => rw [decode_percent_end _ (by decide), ← htail, hrest]
        | [only] => rw [decode_percent_end _ (by simp), ← htail, hrest]
        | hi :: lo :: rest =>
          have hnone := escapedByte_eq_none (h [] w rfl hi lo rest htail)
          rw [htail] at hrest
          simp only [decode_percent, hnone, hrest]
      · rw [decode_cons_ne hpercent, hrest]

theorem percentDecode_slash (x y : Text) :
    percentDecode (x ++ '/' :: y) = percentDecode x ++ 47 :: percentDecode y := by
  have hutf8 : utf8 (x ++ '/' :: y) = utf8 x ++ 47 :: utf8 y := by
    rw [utf8_append]
    rfl
  rw [percentDecode, hutf8]
  exact decode_append_cons (by decide) (utf8 x) (utf8 y)

/-- Every unambiguous way of writing a byte string is decoded to it. The loop ends
within as many iterations as there are bytes, with every index in bounds. -/
theorem percentDecode_written :
    (∀ w : Written, w.Unambiguous →
      percentDecodeLoop w.text w.text.length 0 [] = some w.bytes ∧
      ∀ path, utf8 path = w.text → percentDecode path = w.bytes) ∧
    (∀ path, percentDecodeLoop (utf8 path) (utf8 path).length 0 [] = some (percentDecode path)) ∧
    (∀ path, (percentDecode path).length ≤ (utf8 path).length) ∧
    (∀ x y, percentDecode (x ++ '/' :: y) = percentDecode x ++ 47 :: percentDecode y) ∧
    ∀ path, '%' ∉ path → percentDecode path = utf8 path := by
  have hloop : ∀ bytes : Bytes,
      percentDecodeLoop bytes bytes.length 0 [] = some (percentDecodeBytes bytes) :=
    fun bytes => loop_eq bytes.length [] bytes [] (Nat.le_refl _)
  refine ⟨?_, ?_, ?_, percentDecode_slash, ?_⟩
  · intro w hw
    refine ⟨by rw [hloop, decode_text hw], fun path hpath => ?_⟩
    rw [percentDecode, hpath, decode_text hw]
  · intro path
    exact hloop (utf8 path)
  · intro path
    exact decode_length_le (utf8 path)
  · intro path hpath
    exact decode_eq_self (notMem_utf8 (c := '%') (by decide) hpath)

/-- `%%2e`: a literal `%`, then an escaped dot. -/
theorem percentDecode_written_dot :
    percentDecodeLoop (utf8 "%%2e".toList) 4 0 [] = some (utf8 "%.".toList) ∧
      percentDecode "%%2e".toList = utf8 "%.".toList := by
  let w : Written := [(.literal, 37), (.escaped false false, 46)]
  have hw : w.Unambiguous := by
    rintro front back hsplit hi lo rest htext ⟨hhi, _⟩
    match front, hsplit with
    | [], hsplit =>
      obtain rfl : [(Writing.escaped false false, (46 : UInt8))] = back := (List.cons.inj hsplit).2
      obtain rfl : (37 : UInt8) = hi := (List.cons.inj htext).1
      cases hhi
    | [_], hsplit => cases (List.cons.inj (List.cons.inj hsplit).2).1
    | _ :: _ :: _, hsplit =>
      have hlength := congrArg List.length hsplit
      simp [w] at hlength
  obtain ⟨hloop, hpath⟩ := percentDecode_written.1 w hw
  exact ⟨hloop, hpath "%%2e".toList (by decide)⟩

end PercentEncoding
