import Celily.RustText
import Celily.SegmentedLists
import Mathlib.Data.List.Infix

/-!
# Path prefixes that no server reading escapes

The path check of an HTTP rule: the request path starts with a listed prefix on
a segment boundary, and no segment of its decoded form can be read as `.` or
`..`. The check looks at one canonical view of the path; `read` ranges over the
ways a server may cut, decode and strip it, and every such reading of an accepted
path stays below the prefix.
-/

namespace PathPrefixes

open RustText SegmentedLists

/-- `path.strip_prefix(prefix)`, and the rest starts on a segment boundary. -/
def pathHasPrefix (path pre : Text) : Bool :=
  match path.dropPrefix? pre with
  | none => false
  | some rest => rest.isEmpty || rest.head? == some '/' || pre.getLast? == some '/'

/-- `char::to_digit(16)` of one byte. -/
def hexDigit (byte : UInt8) : Option UInt8 :=
  if 48 ≤ byte ∧ byte ≤ 57 then some (byte - 48)
  else if 97 ≤ byte ∧ byte ≤ 102 then some (byte - 87)
  else if 65 ≤ byte ∧ byte ≤ 70 then some (byte - 55)
  else none

/-- The byte that an escape with these two digits stands for. -/
def escapedByte (hi lo : UInt8) : Option UInt8 := do
  let hi ← hexDigit hi
  let lo ← hexDigit lo
  return (hi <<< 4) ||| lo

/-- The loop of `percent_decode`, on the bytes not yet read; 37 is `%`. -/
def percentDecodeBytes : Bytes → Bytes
  | [] => []
  | 37 :: hi :: lo :: rest =>
    match escapedByte hi lo with
    | some byte => byte :: percentDecodeBytes rest
    | none => 37 :: percentDecodeBytes (hi :: lo :: rest)
  | byte :: rest => byte :: percentDecodeBytes rest

def percentDecode (path : Text) : Bytes := percentDecodeBytes (utf8 path)

/-- `/` or `\`. -/
def isSeparator (byte : UInt8) : Bool := byte == 47 || byte == 92

/-- A segment cut at its first `;`. -/
def cutParameters (segment : Bytes) : Bytes :=
  (segment.splitOnP (fun byte => byte == 59)).head?.getD []

def dot : Bytes := [46]

def dotDot : Bytes := [46, 46]

def mayEscapePrefix (path : Text) : Bool :=
  let decoded := percentDecode path
  decoded.contains 37 ||
    ((decoded.splitOnP isSeparator).map cutParameters).any
      (fun segment => segment == dot || segment == dotDot)

/-- `path_allowed` of `rule_matches`. -/
def pathAllowed (pathPrefixes : Option (List Text)) (path : Text) : Bool :=
  match pathPrefixes with
  | none => true
  | some prefixes => !mayEscapePrefix path && prefixes.any (pathHasPrefix path)

example : percentDecode "/a%2Fb%2e".toList = utf8 "/a/b.".toList := by decide
example : mayEscapePrefix "/v1/%%32%65%%32%65/v2".toList = true := by decide

/-! ## Decoding, byte by byte -/

theorem hexDigit_separator {byte : UInt8} (h : isSeparator byte = true ∨ byte = 59) :
    hexDigit byte = none ∧ byte ≠ 37 := by
  have hcases : byte = 47 ∨ byte = 92 ∨ byte = 59 := by
    rcases h with h | h
    · simp only [isSeparator, Bool.or_eq_true, beq_iff_eq] at h
      rcases h with h | h
      · exact Or.inl h
      · exact Or.inr (Or.inl h)
    · exact Or.inr (Or.inr h)
  rcases hcases with rfl | rfl | rfl <;> decide

theorem decode_cons_ne {byte : UInt8} (h : byte ≠ 37) (rest : Bytes) :
    percentDecodeBytes (byte :: rest) = byte :: percentDecodeBytes rest := by
  rw [percentDecodeBytes]
  intro hi lo rest' he
  exact absurd he h

theorem decode_percent_end (rest : Bytes) (h : rest.length < 2) :
    percentDecodeBytes (37 :: rest) = 37 :: percentDecodeBytes rest := by
  match rest with
  | [] => rfl
  | [_] => rfl
  | _ :: _ :: _ => exact absurd h (by simp)

theorem decode_percent (hi lo : UInt8) (rest : Bytes) :
    percentDecodeBytes (37 :: hi :: lo :: rest) =
      match escapedByte hi lo with
      | some byte => byte :: percentDecodeBytes rest
      | none => 37 :: percentDecodeBytes (hi :: lo :: rest) := by
  rw [percentDecodeBytes]

/-- No escape straddles a byte that is neither `%` nor a hex digit. -/
theorem decode_append_cons {d : UInt8} (hd : hexDigit d = none ∧ d ≠ 37) (a b : Bytes) :
    percentDecodeBytes (a ++ d :: b) = percentDecodeBytes a ++ d :: percentDecodeBytes b := by
  induction a using percentDecodeBytes.induct with
  | case1 => exact decode_cons_ne hd.2 b
  | case2 hi lo rest byte he ih => simp [decode_percent, he, ih]
  | case3 hi lo rest he ih =>
    simp only [List.cons_append] at ih ⊢
    simp [decode_percent, he, ih]
  | case4 byte rest hshape ih =>
    by_cases hb : byte = 37
    · subst hb
      match rest, hshape, ih with
      | [], _, ih =>
        have hesc : ∀ lo, escapedByte d lo = none := by intro lo; simp [escapedByte, hd.1]
        cases b with
        | nil => simpa [decode_percent_end] using ih
        | cons lo b' => simpa [decode_percent, hesc, decode_percent_end] using ih
      | [hi], _, ih =>
        have hesc : escapedByte hi d = none := by simp [escapedByte, hd.1]
        simpa [decode_percent, hesc, decode_percent_end] using ih
      | hi :: lo :: rest, hshape, _ => exact False.elim (hshape hi lo rest rfl rfl)
    · rw [List.cons_append, decode_cons_ne hb, decode_cons_ne hb, ih, List.cons_append]

theorem decode_eq_self {bytes : Bytes} (h : 37 ∉ bytes) : percentDecodeBytes bytes = bytes := by
  induction bytes with
  | nil => rfl
  | cons byte rest ih =>
    rw [List.mem_cons, not_or] at h
    rw [decode_cons_ne (Ne.symm h.1), ih h.2]

theorem decode_append_startsIn {a b : Bytes}
    (hb : StartsIn (fun byte => isSeparator byte || byte == 59) b) :
    percentDecodeBytes (a ++ b) = percentDecodeBytes a ++ percentDecodeBytes b ∧
      StartsIn (fun byte => isSeparator byte || byte == 59) (percentDecodeBytes b) := by
  rcases hb with rfl | ⟨c, b', rfl, hc⟩
  · exact ⟨by simp [percentDecodeBytes], startsIn_nil _⟩
  · have hd : hexDigit c = none ∧ c ≠ 37 := hexDigit_separator (by simpa using hc)
    rw [decode_append_cons hd, decode_cons_ne hd.2]
    exact ⟨rfl, Or.inr ⟨c, _, rfl, hc⟩⟩

theorem decode_append_endsIn {a b : Bytes} (ha : EndsIn isSeparator a) :
    percentDecodeBytes (a ++ b) = percentDecodeBytes a ++ percentDecodeBytes b ∧
      EndsIn isSeparator (percentDecodeBytes a) := by
  rcases ha with rfl | ⟨a', c, rfl, hc⟩
  · exact ⟨rfl, endsIn_nil _⟩
  · have hd : hexDigit c = none ∧ c ≠ 37 := hexDigit_separator (Or.inl hc)
    have hlast : percentDecodeBytes (a' ++ [c]) = percentDecodeBytes a' ++ [c] := by
      rw [decode_append_cons hd]
      rfl
    refine ⟨?_, Or.inr ⟨_, c, hlast, hc⟩⟩
    rw [hlast, List.append_assoc, List.singleton_append, decode_append_cons hd]
    simp

/-! ## The canonical view -/

/-- A `.` or `..` that stands between two segment ends. -/
def DotAt (bytes : Bytes) : Prop :=
  ∃ a x b, bytes = a ++ x ++ b ∧ (x = dot ∨ x = dotDot) ∧ EndsIn isSeparator a ∧
    StartsIn (fun byte => isSeparator byte || byte == 59) b

theorem DotAt.widen {a s b : Bytes} (h : DotAt s) (ha : EndsIn isSeparator a)
    (hb : StartsIn (fun byte => isSeparator byte || byte == 59) b) : DotAt (a ++ s ++ b) := by
  obtain ⟨a', x, b', rfl, hx, ha', hb'⟩ := h
  exact ⟨a ++ a', x, b' ++ b, by simp, hx, ha.append ha', hb'.append hb⟩

theorem cutParameters_eq (segment : Bytes) :
    cutParameters segment = segment.takeWhile (fun byte => !(byte == 59)) := by
  rw [cutParameters, head_splitOnP]
  rfl

theorem cutParameters_split (segment : Bytes) :
    ∃ b, segment = cutParameters segment ++ b ∧
      StartsIn (fun byte => isSeparator byte || byte == 59) b := by
  rw [cutParameters_eq]
  rcases takeWhile_split (fun byte => byte == 59) segment with he | ⟨c, r, he, hc⟩
  · exact ⟨[], by simpa using he.symm, startsIn_nil _⟩
  · exact ⟨c :: r, he, Or.inr ⟨c, r, rfl, by simp [hc]⟩⟩

theorem takeWhile_append_stop {p : UInt8 → Bool} {x b : Bytes} (hx : ∀ c ∈ x, p c = true)
    (hb : StartsIn (fun c => !p c) b) : (x ++ b).takeWhile p = x := by
  rcases hb with rfl | ⟨c, b', rfl, hc⟩
  · simpa using List.takeWhile_eq_self_iff.mpr hx
  · rw [List.takeWhile_append_of_pos hx]
    simpa using hc

theorem dot_plain {x : Bytes} (hx : x = dot ∨ x = dotDot) :
    ∀ c ∈ x, isSeparator c = false ∧ (c == 59) = false := by
  intro c hc
  obtain rfl : c = 46 := by
    rcases hx with rfl | rfl
    · simpa [dot] using hc
    · simpa [dotDot] using hc
  decide

/-- The segment check finds exactly the bounded dots. -/
theorem dotSegment_iff (bytes : Bytes) :
    ((bytes.splitOnP isSeparator).map cutParameters).any
      (fun segment => segment == dot || segment == dotDot) = true ↔ DotAt bytes := by
  simp only [List.any_map, List.any_eq_true, Function.comp_apply, Bool.or_eq_true, beq_iff_eq]
  constructor
  · rintro ⟨s, hs, hx⟩
    obtain ⟨a, b, rfl, ha, hb, _⟩ := (mem_splitOnP_iff isSeparator bytes s).mp hs
    obtain ⟨r, hr, hstart⟩ := cutParameters_split s
    have hdot : DotAt s := ⟨[], cutParameters s, r, by simpa using hr, hx, endsIn_nil _, hstart⟩
    exact hdot.widen ha (hb.mono (by intro c hc; simp [hc]))
  · rintro ⟨a, x, b, rfl, hx, ha, hb⟩
    have plain := dot_plain hx
    -- the piece that starts with the dots runs up to the next separator
    let piece := (x ++ b).takeWhile (fun c => !isSeparator c)
    have hpiece : piece = x ++ b.takeWhile (fun c => !isSeparator c) := by
      exact List.takeWhile_append_of_pos (fun c hc => by simp [(plain c hc).1])
    have hmem : piece ∈ (a ++ (x ++ b)).splitOnP isSeparator := by
      rw [splitOnP_cut isSeparator ha]
      exact List.mem_append_right _ (List.mem_of_head? (head_splitOnP isSeparator (x ++ b)))
    refine ⟨piece, by simpa using hmem, ?_⟩
    have hrest : StartsIn (fun c => !!(c == 59)) (b.takeWhile (fun c => !isSeparator c)) := by
      rcases hb with rfl | ⟨c, b', rfl, hc⟩
      · exact startsIn_nil _
      · by_cases hsep : isSeparator c = true
        · exact Or.inl (by simp [hsep])
        · have hsep' : isSeparator c = false := by simpa using hsep
          exact Or.inr ⟨c, b'.takeWhile (fun c => !isSeparator c), by simp [hsep'],
            by simpa [hsep'] using hc⟩
    have hcut : cutParameters piece = x := by
      rw [cutParameters_eq, hpiece]
      exact takeWhile_append_stop (fun c hc => by simp [(plain c hc).2]) hrest
    rw [hcut]
    exact hx

/-- Decoded once, nothing is left to decode and no segment reads as a dot. -/
def Clean (bytes : Bytes) : Prop :=
  37 ∉ percentDecodeBytes bytes ∧ ¬ DotAt (percentDecodeBytes bytes)

theorem mayEscapePrefix_eq_false (path : Text) :
    mayEscapePrefix path = false ↔ Clean (utf8 path) := by
  rw [mayEscapePrefix, Clean, percentDecode]
  rw [← dotSegment_iff, Bool.or_eq_false_iff, Bool.not_eq_true]
  refine and_congr_left' ?_
  simp

theorem Clean.part {a s b : Bytes} (h : Clean (a ++ s ++ b)) (ha : EndsIn isSeparator a)
    (hb : StartsIn (fun byte => isSeparator byte || byte == 59) b) : Clean s := by
  obtain ⟨h1, hb'⟩ := decode_append_startsIn (a := a ++ s) hb
  obtain ⟨h2, ha'⟩ := decode_append_endsIn (b := s) ha
  rw [Clean, h1, h2] at h
  refine ⟨fun hm => h.1 ?_, fun hd => h.2 (hd.widen ha' hb')⟩
  exact List.mem_append_left _ (List.mem_append_right _ hm)

theorem Clean.decode {bytes : Bytes} (h : Clean bytes) : Clean (percentDecodeBytes bytes) := by
  rw [Clean, decode_eq_self h.1]
  exact h

theorem Clean.cut {segment : Bytes} (h : Clean segment) : Clean (cutParameters segment) := by
  obtain ⟨b, hb, hstart⟩ := cutParameters_split segment
  exact Clean.part (a := []) (b := b) (by rw [List.nil_append, ← hb]; exact h) (endsIn_nil _) hstart

theorem Clean.piece {p : UInt8 → Bool} (hp : ∀ c, p c = true → isSeparator c = true)
    {bytes s : Bytes} (h : Clean bytes) (hs : s ∈ bytes.splitOnP p) : Clean s := by
  obtain ⟨a, b, rfl, ha, hb, _⟩ := (mem_splitOnP_iff p bytes s).mp hs
  exact h.part (ha.mono hp) (hb.mono (fun c hc => by simp [hp c hc]))

theorem Clean.not_dot {bytes : Bytes} (h : Clean bytes) : bytes ≠ dot ∧ bytes ≠ dotDot := by
  have hdot : ∀ x, x = dot ∨ x = dotDot → bytes ≠ x := by
    rintro x hx rfl
    have hself : percentDecodeBytes bytes = bytes := by rcases hx with rfl | rfl <;> decide
    apply h.2
    rw [hself]
    exact ⟨[], bytes, [], by simp, hx, endsIn_nil _, startsIn_nil _⟩
  exact ⟨hdot dot (Or.inl rfl), hdot dotDot (Or.inr rfl)⟩

/-! ## What a server may read -/

/-- A step of a server's reading, on the segments it has so far. -/
inductive ReadingStep where
  | decode
  | split (backslash : Bool)
  | cut
  deriving DecidableEq

/-- Split on `/` alone, or on `\` as well. -/
def splitsAt (backslash : Bool) (byte : UInt8) : Bool := byte == 47 || backslash && byte == 92

def ReadingStep.apply : ReadingStep → List Bytes → List Bytes
  | .decode, segments => segments.map percentDecodeBytes
  | .split backslash, segments => segments.flatMap (List.splitOnP (splitsAt backslash))
  | .cut, segments => segments.map cutParameters

def read (steps : List ReadingStep) (segments : List Bytes) : List Bytes :=
  steps.foldl (fun segments step => step.apply segments) segments

/-- The steps split the path, and before the first split they only decode it. -/
def IsReading : List ReadingStep → Prop
  | .decode :: steps => IsReading steps
  | .split _ :: _ => True
  | _ => False

/-- The choices of a server: how often it decodes, whether `\` separates, whether
it splits before decoding, and whether it cuts before (`some true`) or after. -/
structure ServerReading where
  decodes : Nat
  backslash : Bool
  splitFirst : Bool
  cut : Option Bool

/-- Cutting before decoding and splitting after it takes two splits: the segments
are cut, decoded, and what they decode to is split again. -/
def ServerReading.steps (r : ServerReading) : List ReadingStep :=
  let decodes := List.replicate r.decodes ReadingStep.decode
  let split := ReadingStep.split r.backslash
  match r.splitFirst, r.cut with
  | true, none => split :: decodes
  | true, some true => split :: .cut :: decodes
  | true, some false => split :: decodes ++ [.cut]
  | false, none => decodes ++ [split]
  | false, some true => split :: .cut :: decodes ++ [split]
  | false, some false => decodes ++ [split, .cut]

theorem isReading_decodes (n : Nat) (steps : List ReadingStep) :
    IsReading (List.replicate n .decode ++ steps) ↔ IsReading steps := by
  induction n with
  | zero => simp
  | succ n ih => simpa [List.replicate_succ, IsReading] using ih

theorem ServerReading.isReading (r : ServerReading) : IsReading r.steps := by
  obtain ⟨n, backslash, splitFirst, cut⟩ := r
  match splitFirst, cut with
  | true, none => trivial
  | true, some true => trivial
  | true, some false => trivial
  | false, none => exact (isReading_decodes n _).mpr trivial
  | false, some true => trivial
  | false, some false => exact (isReading_decodes n _).mpr trivial

/-- Drop the `.` segments, and each `..` with the segment before it. -/
def removeDotSegments (segments : List Bytes) : List Bytes :=
  segments.foldl (fun out segment =>
    if segment = dot then out
    else if segment = dotDot then out.dropLast
    else out ++ [segment]) []

/-- A prefix read like the path, less the final empty segment after a `/`. -/
def prefixSegments (steps : List ReadingStep) (pre : Text) : List Bytes :=
  if pre.getLast? = some '/' then (read steps [utf8 pre]).dropLast else read steps [utf8 pre]

theorem splitsAt_separator {backslash : Bool} {c : UInt8} (h : splitsAt backslash c = true) :
    isSeparator c = true := by
  simp only [splitsAt, Bool.or_eq_true, Bool.and_eq_true] at h
  rcases h with h | ⟨_, h⟩
  · simp [isSeparator, h]
  · simp [isSeparator, h]

theorem apply_clean (step : ReadingStep) {segments : List Bytes}
    (h : ∀ s ∈ segments, Clean s) : ∀ s ∈ step.apply segments, Clean s := by
  intro s hs
  cases step with
  | decode =>
    obtain ⟨t, ht, rfl⟩ := List.mem_map.mp hs
    exact (h t ht).decode
  | split backslash =>
    obtain ⟨t, ht, hst⟩ := List.mem_flatMap.mp hs
    exact (h t ht).piece (fun c hc => splitsAt_separator hc) hst
  | cut =>
    obtain ⟨t, ht, rfl⟩ := List.mem_map.mp hs
    exact (h t ht).cut

theorem read_clean (steps : List ReadingStep) {segments : List Bytes}
    (h : ∀ s ∈ segments, Clean s) : ∀ s ∈ read steps segments, Clean s := by
  induction steps generalizing segments with
  | nil => exact h
  | cons step steps ih => exact ih (apply_clean step h)

theorem apply_append (step : ReadingStep) (a b : List Bytes) :
    step.apply (a ++ b) = step.apply a ++ step.apply b := by
  cases step <;> simp [ReadingStep.apply]

theorem read_append (steps : List ReadingStep) (a b : List Bytes) :
    read steps (a ++ b) = read steps a ++ read steps b := by
  induction steps generalizing a b with
  | nil => rfl
  | cons step steps ih =>
    simp only [read, List.foldl_cons, apply_append] at ih ⊢
    exact ih _ _

/-- An empty segment is read as itself, whatever the steps. -/
theorem read_empty (steps : List ReadingStep) : read steps [[]] = [[]] := by
  induction steps with
  | nil => rfl
  | cons step steps ih =>
    have hstep : step.apply [[]] = [[]] := by
      cases step <;> simp [ReadingStep.apply, percentDecodeBytes, cutParameters]
    simpa [read, hstep] using ih

/-- A literal `/` cuts every reading in two. -/
theorem read_slash {steps : List ReadingStep} (h : IsReading steps) (a b : Bytes) :
    read steps [a ++ 47 :: b] = read steps [a] ++ read steps [b] := by
  induction steps generalizing a b with
  | nil => exact h.elim
  | cons step steps ih =>
    cases step with
    | decode =>
      have hdec : percentDecodeBytes (a ++ 47 :: b) =
          percentDecodeBytes a ++ 47 :: percentDecodeBytes b :=
        decode_append_cons (by decide) a b
      have := ih h (percentDecodeBytes a) (percentDecodeBytes b)
      simpa [read, ReadingStep.apply, hdec] using this
    | split backslash =>
      have hsplit : (a ++ 47 :: b).splitOnP (splitsAt backslash) =
          a.splitOnP (splitsAt backslash) ++ b.splitOnP (splitsAt backslash) :=
        List.splitOnP_append_cons a b (by simp [splitsAt])
      have := read_append steps (a.splitOnP (splitsAt backslash)) (b.splitOnP (splitsAt backslash))
      simpa [read, ReadingStep.apply, hsplit] using this
    | cut => exact h.elim

theorem removeDotSegments_eq_self {segments : List Bytes}
    (h : ∀ s ∈ segments, s ≠ dot ∧ s ≠ dotDot) : removeDotSegments segments = segments := by
  have hfold : ∀ (rest out : List Bytes), (∀ s ∈ rest, s ≠ dot ∧ s ≠ dotDot) →
      rest.foldl (fun out segment =>
        if segment = dot then out
        else if segment = dotDot then out.dropLast
        else out ++ [segment]) out = out ++ rest := by
    intro rest
    induction rest with
    | nil => simp
    | cons s rest ih =>
      intro out hrest
      have hs := hrest s List.mem_cons_self
      rw [List.foldl_cons, if_neg hs.1, if_neg hs.2,
        ih _ (fun t ht => hrest t (List.mem_cons_of_mem s ht))]
      simp
  exact hfold segments [] h

theorem utf8_slash (s : Text) : utf8 ('/' :: s) = 47 :: utf8 s := rfl

theorem pathHasPrefix_split {path pre : Text} (h : pathHasPrefix path pre = true) :
    ∃ rest, path = pre ++ rest ∧
      (rest = [] ∨ (∃ below, rest = '/' :: below) ∨ pre.getLast? = some '/') := by
  rw [pathHasPrefix] at h
  split at h
  · cases h
  · rename_i rest hdrop
    obtain ⟨p, rfl, hp⟩ := List.dropPrefix?_eq_some_iff.mp hdrop
    obtain rfl := eq_of_beq hp
    refine ⟨rest, rfl, ?_⟩
    simp only [Bool.or_eq_true, beq_iff_eq, List.isEmpty_iff] at h
    rcases h with (h | h) | h
    · exact Or.inl h
    · cases rest with
      | nil => exact Or.inl rfl
      | cons c below => exact Or.inr (Or.inl ⟨below, by simpa using h⟩)
    · exact Or.inr (Or.inr h)

/-- The segments of a prefix of the path are an initial part of its segments. -/
theorem prefixSegments_initial {steps : List ReadingStep} (hsteps : IsReading steps)
    {path pre : Text} (h : pathHasPrefix path pre = true) :
    prefixSegments steps pre <+: read steps [utf8 path] := by
  obtain ⟨rest, rfl, hrest⟩ := pathHasPrefix_split h
  by_cases hlast : pre.getLast? = some '/'
  · -- the prefix carries its own boundary
    obtain ⟨q, rfl⟩ : ∃ q, pre = q ++ ['/'] :=
      ⟨pre.dropLast, (List.dropLast_append_getLast? '/' hlast).symm⟩
    have hpre : read steps [utf8 (q ++ ['/'])] = read steps [utf8 q] ++ [[]] := by
      rw [utf8_append, utf8_slash, read_slash hsteps, utf8_nil, read_empty]
    have hpath : read steps [utf8 (q ++ ['/'] ++ rest)] =
        read steps [utf8 q] ++ read steps [utf8 rest] := by
      rw [List.append_assoc, List.singleton_append, utf8_append, utf8_slash, read_slash hsteps]
    rw [prefixSegments, if_pos hlast, hpre, hpath, List.dropLast_concat]
    exact List.prefix_append _ _
  · rw [prefixSegments, if_neg hlast]
    rcases hrest with rfl | ⟨below, rfl⟩ | hl
    · simp
    · have hpath : read steps [utf8 (pre ++ '/' :: below)] =
          read steps [utf8 pre] ++ read steps [utf8 below] := by
        rw [utf8_append, utf8_slash, read_slash hsteps]
      rw [hpath]
      exact List.prefix_append _ _
    · exact False.elim (hlast hl)

/-- What a reading makes of the path: no segment is a dot segment, resolving changes
nothing, and a listed prefix, read the same way, is an initial part. -/
structure Confined (prefixes : List Text) (path : Text) (steps : List ReadingStep) : Prop where
  no_dots : ∀ segment ∈ read steps [utf8 path], segment ≠ dot ∧ segment ≠ dotDot
  resolved : removeDotSegments (read steps [utf8 path]) = read steps [utf8 path]
  initial : ∃ pre ∈ prefixes,
    prefixSegments steps pre <+: removeDotSegments (read steps [utf8 path])

/-- No server reading of an accepted path leaves the prefixes, nor does any other order
of decoding, splitting and cutting that cuts only what has been split. -/
theorem pathAllowed_confines {prefixes : List Text} {path : Text}
    (accepted : pathAllowed (some prefixes) path = true) :
    (∀ server : ServerReading, Confined prefixes path server.steps) ∧
      ∀ steps, IsReading steps → Confined prefixes path steps := by
  simp only [pathAllowed, Bool.and_eq_true, Bool.not_eq_true', List.any_eq_true] at accepted
  obtain ⟨hescape, pre, hmem, hpre⟩ := accepted
  have hall : ∀ steps, IsReading steps → Confined prefixes path steps := by
    intro steps reading
    have hclean : ∀ s ∈ read steps [utf8 path], Clean s := by
      apply read_clean
      intro s hs
      rw [List.mem_singleton.mp hs]
      exact (mayEscapePrefix_eq_false path).mp hescape
    have hdots : ∀ s ∈ read steps [utf8 path], s ≠ dot ∧ s ≠ dotDot :=
      fun s hs => (hclean s hs).not_dot
    have hsame := removeDotSegments_eq_self hdots
    refine ⟨hdots, hsame, pre, hmem, ?_⟩
    rw [hsame]
    exact prefixSegments_initial reading hpre
  exact ⟨fun server => hall _ server.isReading, hall⟩

/-- A server that decodes twice and then splits, at `\` as well. -/
def twiceDecoding : ServerReading := ⟨2, true, false, none⟩

/-- A prefix ending in `/`. -/
theorem pathAllowed_confines_v1 :
    Confined ["/v1/".toList] "/v1/a%2Fb".toList twiceDecoding.steps :=
  (pathAllowed_confines (by decide)).1 twiceDecoding

end PathPrefixes
