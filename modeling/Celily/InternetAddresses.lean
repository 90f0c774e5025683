import Celily.RustText
import Celily.SegmentedLists
import Mathlib.Data.List.Infix

/-!
# Internet addresses and their texts

The types of `std::net`, `to_canonical`, and the two directions of their textual
form. Printing an IPv6 address folds the first longest run of zero groups into
`::`; `parse_display` shows that reading undoes printing for every address, so
two addresses never print alike.
-/

namespace InternetAddresses

open RustText SegmentedLists

structure Ipv4Addr where
  bits : BitVec 32
  deriving DecidableEq

/-- Eight groups of sixteen bits. -/
structure Ipv6Addr where
  segments : List (BitVec 16)
  length_eq : segments.length = 8
  deriving DecidableEq

inductive IpAddr where
  | v4 (ip : Ipv4Addr)
  | v6 (ip : Ipv6Addr)
  deriving DecidableEq

/-- The IPv4 address of `::ffff:a.b.c.d`. -/
def Ipv6Addr.toIpv4Mapped (ip : Ipv6Addr) : Option Ipv4Addr :=
  match ip.segments with
  | [0, 0, 0, 0, 0, 0xffff, ab, cd] => some ⟨ab ++ cd⟩
  | _ => none

/-- An IPv4-mapped IPv6 address becomes the IPv4 address, any other stays. -/
def IpAddr.toCanonical : IpAddr → IpAddr
  | .v4 ip => .v4 ip
  | .v6 ip => match ip.toIpv4Mapped with
    | some mapped => .v4 mapped
    | none => .v6 ip

/-! ## IPv4 texts -/

def Ipv4Addr.octets (ip : Ipv4Addr) : List Nat :=
  let n := ip.bits.toNat
  [n / 2 ^ 24, n / 2 ^ 16 % 256, n / 2 ^ 8 % 256, n % 256]

def Ipv4Addr.display (ip : Ipv4Addr) : Text := ['.'].intercalate (ip.octets.map decimal)

/-- Up to three digits, without leading zeros, below 256. -/
def parseOctet (s : Text) : Option Nat :=
  if s.length ≤ 3 ∧ (s.head? ≠ some '0' ∨ s.length = 1) then (digitsValue s).filter (· < 256)
  else none

def parseIpv4 (s : Text) : Option Ipv4Addr :=
  match (s.splitOn '.').mapM parseOctet with
  | some [a, b, c, d] => some ⟨BitVec.ofNat 32 (a * 2 ^ 24 + b * 2 ^ 16 + c * 2 ^ 8 + d)⟩
  | _ => none

theorem Ipv4Addr.octet_lt (ip : Ipv4Addr) : ∀ n ∈ ip.octets, n < 256 := by
  have hbits : ip.bits.toNat < 2 ^ 32 := ip.bits.isLt
  intro n hn
  simp only [Ipv4Addr.octets, List.mem_cons, List.not_mem_nil, or_false] at hn
  rcases hn with rfl | rfl | rfl | rfl <;> omega

set_option maxRecDepth 4000 in
theorem parseOctet_decimal_all : ∀ n : Fin 256, parseOctet (decimal n) = some n.val := by
  decide

theorem mapM_map_of_forall {α β : Type} {f : β → Option α} {g : α → β} {l : List α}
    (h : ∀ a ∈ l, f (g a) = some a) : (l.map g).mapM f = some l := by
  induction l with
  | nil => rfl
  | cons a l ih =>
    rw [List.map_cons, List.mapM_cons, h a List.mem_cons_self,
      ih (fun b hb => h b (List.mem_cons_of_mem a hb))]
    rfl

theorem mapM_eq_none {α β : Type} {f : α → Option β} {l : List α} {a : α} (ha : a ∈ l)
    (hfail : f a = none) : l.mapM f = none := by
  induction l with
  | nil => cases ha
  | cons b l ih =>
    rw [List.mapM_cons]
    rcases List.mem_cons.mp ha with rfl | ha
    · rw [hfail]
      rfl
    · rw [ih ha]
      cases f b <;> rfl

theorem parseIpv4_display (ip : Ipv4Addr) : parseIpv4 ip.display = some ip := by
  have hsplit : ip.display.splitOn '.' = ip.octets.map decimal := by
    apply List.splitOn_intercalate
    · intro l hl
      obtain ⟨n, _, rfl⟩ := List.mem_map.mp hl
      exact notMem_decimal (by decide)
    · simp [Ipv4Addr.octets]
  have hread : (ip.octets.map decimal).mapM parseOctet = some ip.octets :=
    mapM_map_of_forall (fun n hn => parseOctet_decimal_all ⟨n, ip.octet_lt n hn⟩)
  have hbits : ip.bits.toNat < 2 ^ 32 := ip.bits.isLt
  rw [parseIpv4, hsplit, hread]
  have hsum : ip.bits.toNat / 2 ^ 24 * 2 ^ 24 + ip.bits.toNat / 2 ^ 16 % 256 * 2 ^ 16 +
      ip.bits.toNat / 2 ^ 8 % 256 * 2 ^ 8 + ip.bits.toNat % 256 = ip.bits.toNat := by omega
  simp only [Ipv4Addr.octets, hsum, BitVec.ofNat_toNat, BitVec.setWidth_eq]

theorem parseIpv4_eq_none {s : Text} {c : Char} (hc : c ∈ s) (hdot : c ≠ '.')
    (hdigit : c.isDigit = false) : parseIpv4 s = none := by
  obtain ⟨piece, hp, hcp⟩ := exists_mem_splitOnP (· == '.') hc (by simpa using hdot)
  have hfail : parseOctet piece = none := by
    have hall : ¬piece.all Char.isDigit = true := by
      intro hall
      have hd := List.all_eq_true.mp hall c hcp
      rw [hdigit] at hd
      cases hd
    simp [parseOctet, digitsValue, hall]
  rw [parseIpv4, mapM_eq_none (l := s.splitOn '.') hp hfail]

/-! ## IPv6 texts -/

/-- `{:x}` of a group. -/
def hexText (group : BitVec 16) : Text := Nat.toDigits 16 group.toNat

def joinGroups (groups : List (BitVec 16)) : Text := [':'].intercalate (groups.map hexText)

structure Span where
  start : Nat
  len : Nat

/-- The current run with the zero group at `i`, which may start it. -/
def Span.grow (current : Span) (i : Nat) : Span :=
  if current.len = 0 then ⟨i, 1⟩ else ⟨current.start, current.len + 1⟩

/-- The loop that finds the first longest run of zero groups. -/
def longestZeroes (i : Nat) (longest current : Span) : List (BitVec 16) → Span
  | [] => longest
  | segment :: rest =>
    if segment = 0 then
      let current := current.grow i
      longestZeroes (i + 1) (if longest.len < current.len then current else longest) current rest
    else longestZeroes (i + 1) longest ⟨0, 0⟩ rest

def zeroes (segments : List (BitVec 16)) : Span := longestZeroes 0 ⟨0, 0⟩ ⟨0, 0⟩ segments

def Ipv6Addr.display (ip : Ipv6Addr) : Text :=
  match ip.toIpv4Mapped with
  | some ipv4 => "::ffff:".toList ++ ipv4.display
  | none =>
    let run := zeroes ip.segments
    if 1 < run.len then
      joinGroups (ip.segments.take run.start) ++ ':' :: ':' ::
        joinGroups (ip.segments.drop (run.start + run.len))
    else joinGroups ip.segments

def IpAddr.display : IpAddr → Text
  | .v4 ip => ip.display
  | .v6 ip => ip.display

def hexValue (c : Char) : Option Nat :=
  if '0' ≤ c ∧ c ≤ '9' then some (c.toNat - 48)
  else if 'a' ≤ c ∧ c ≤ 'f' then some (c.toNat - 87)
  else if 'A' ≤ c ∧ c ≤ 'F' then some (c.toNat - 55)
  else none

def readHex (acc : Nat) : Text → Option Nat
  | [] => some acc
  | c :: s => (hexValue c).bind (fun d => readHex (acc * 16 + d) s)

/-- One to four hexadecimal digits. -/
def parseGroup (s : Text) : Option (BitVec 16) :=
  if s ≠ [] ∧ s.length ≤ 4 then (readHex 0 s).map (BitVec.ofNat 16) else none

/-- The two groups that a dotted quad stands for. -/
def quadGroups (ip : Ipv4Addr) : List (BitVec 16) :=
  [ip.bits.extractLsb' 16 16, ip.bits.extractLsb' 0 16]

def readGroups (allowIpv4 : Bool) : List Text → Option (List (BitVec 16))
  | [] => some []
  | [last] =>
    match if allowIpv4 then parseIpv4 last else none with
    | some ipv4 => some (quadGroups ipv4)
    | none => (parseGroup last).map ([·])
  | piece :: pieces =>
    (parseGroup piece).bind (fun group => (readGroups allowIpv4 pieces).map (group :: ·))

def parseGroups (allowIpv4 : Bool) (s : Text) : Option (List (BitVec 16)) :=
  if s = [] then some [] else readGroups allowIpv4 (s.splitOn ':')

/-- What stands before and after the first `::`. -/
def splitDouble : Text → Option (Text × Text)
  | ':' :: ':' :: rest => some ([], rest)
  | c :: rest => (splitDouble rest).map (fun r => (c :: r.1, r.2))
  | [] => none

def Ipv6Addr.ofSegments (segments : List (BitVec 16)) : Option Ipv6Addr :=
  if h : segments.length = 8 then some ⟨segments, h⟩ else none

def parseIpv6 (s : Text) : Option Ipv6Addr :=
  match splitDouble s with
  | none => (parseGroups true s).bind Ipv6Addr.ofSegments
  | some (before, after) => do
    let head ← parseGroups false before
    let tail ← parseGroups true after
    if head.length + tail.length ≤ 7 then
      Ipv6Addr.ofSegments (head ++ List.replicate (8 - head.length - tail.length) 0 ++ tail)
    else none

/-- `IpAddr::from_str`. -/
def parseIpAddr (s : Text) : Option IpAddr :=
  match parseIpv4 s with
  | some ip => some (.v4 ip)
  | none => (parseIpv6 s).map .v6

example : (parseIpAddr "2001:db8::1".toList).map IpAddr.display = some "2001:db8::1".toList := by
  decide
example : (parseIpAddr "::ffff:10.0.0.1".toList).map IpAddr.toCanonical =
    some (.v4 ⟨0x0a000001⟩) := by decide

theorem hexValue_digitChar : ∀ n : Fin 16, hexValue (Nat.digitChar n) = some n.val := by decide

theorem readHex_toDigits (n : Nat) (acc : Nat) (s : Text) :
    ∃ k, readHex acc (Nat.toDigits 16 n ++ s) = readHex (acc * k + n) s := by
  induction n using Nat.strongRecOn generalizing s with
  | ind n ih =>
    rw [Nat.toDigits_eq_if (by decide)]
    by_cases hn : n < 16
    · have hd := hexValue_digitChar ⟨n, hn⟩
      refine ⟨16, ?_⟩
      rw [if_pos hn]
      simp only [List.singleton_append, readHex, hd, Option.bind_some]
    · obtain ⟨k, hk⟩ := ih (n / 16) (by omega) ((n % 16).digitChar :: s)
      have hd := hexValue_digitChar ⟨n % 16, Nat.mod_lt _ (by decide)⟩
      refine ⟨k * 16, ?_⟩
      rw [if_neg hn, List.append_assoc, List.singleton_append, hk]
      simp only [readHex, hd, Option.bind_some]
      congr 1
      rw [Nat.add_mul, Nat.mul_assoc]
      omega

theorem parseGroup_hexText (group : BitVec 16) : parseGroup (hexText group) = some group := by
  have hlen : (hexText group).length ≤ 4 :=
    (Nat.length_toDigits_le_iff (by decide) (by decide)).mpr group.isLt
  obtain ⟨k, hk⟩ := readHex_toDigits group.toNat 0 []
  have hread : readHex 0 (hexText group) = some group.toNat := by
    simpa [hexText, readHex] using hk
  have hne : hexText group ≠ [] := Nat.toDigits_ne_nil
  simp [parseGroup, hread, hlen, hne]

theorem hexText_plain (group : BitVec 16) : ∀ c ∈ hexText group, c ≠ ':' ∧ c ≠ '.' := by
  have hdigits : ∀ n : Fin 16, Nat.digitChar n ≠ ':' ∧ Nat.digitChar n ≠ '.' := by decide
  have hall : ∀ n : Nat, ∀ c ∈ Nat.toDigits 16 n, c ≠ ':' ∧ c ≠ '.' := by
    intro n
    induction n using Nat.strongRecOn with
    | ind n ih =>
      rw [Nat.toDigits_eq_if (by decide)]
      intro c hc
      split at hc
      · rename_i hn
        rw [List.mem_singleton.mp hc]
        exact hdigits ⟨n, hn⟩
      · rename_i hn
        rcases List.mem_append.mp hc with hc | hc
        · exact ih (n / 16) (by omega) c hc
        · rw [List.mem_singleton.mp hc]
          exact hdigits ⟨n % 16, Nat.mod_lt _ (by decide)⟩
  exact hall group.toNat

theorem hexText_eq_cons (group : BitVec 16) : ∃ c s, hexText group = c :: s ∧ c ≠ ':' := by
  obtain ⟨c, s, hcons⟩ := List.exists_cons_of_ne_nil (l := hexText group) Nat.toDigits_ne_nil
  exact ⟨c, s, hcons, (hexText_plain group c (by rw [hcons]; exact List.mem_cons_self)).1⟩

theorem joinGroups_cons_cons (a b : BitVec 16) (groups : List (BitVec 16)) :
    joinGroups (a :: b :: groups) = hexText a ++ ':' :: joinGroups (b :: groups) := by
  simp [joinGroups]

theorem splitDouble_cons {c : Char} (hc : c ≠ ':') (s : Text) :
    splitDouble (c :: s) = (splitDouble s).map (fun r => (c :: r.1, r.2)) := by
  rw [splitDouble]
  intro rest he
  exact absurd he hc

theorem splitDouble_colon {c : Char} (hc : c ≠ ':') (s : Text) :
    splitDouble (':' :: c :: s) = (splitDouble (c :: s)).map (fun r => (':' :: r.1, r.2)) := by
  rw [splitDouble]
  intro rest _ he
  exact absurd (List.cons.inj he).1 hc

theorem splitDouble_append {a : Text} (ha : ∀ c ∈ a, c ≠ ':') (s : Text) :
    splitDouble (a ++ s) = (splitDouble s).map (fun r => (a ++ r.1, r.2)) := by
  induction a with
  | nil => simp
  | cons c a ih =>
    rw [List.cons_append, splitDouble_cons (ha c List.mem_cons_self),
      ih (fun d hd => ha d (List.mem_cons_of_mem c hd)), Option.map_map]
    rfl

/-- No `::` starts inside joined groups. -/
theorem splitDouble_joinGroups (groups : List (BitVec 16)) (s : Text) :
    splitDouble (joinGroups groups ++ s) =
      (splitDouble s).map (fun r => (joinGroups groups ++ r.1, r.2)) := by
  match groups with
  | [] => simp [joinGroups]
  | [group] =>
    have hplain := splitDouble_append (fun c hc => (hexText_plain group c hc).1) s
    simpa [joinGroups] using hplain
  | a :: b :: groups =>
    have ih := splitDouble_joinGroups (b :: groups) s
    obtain ⟨c, t, hcons, hc⟩ : ∃ c t, joinGroups (b :: groups) = c :: t ∧ c ≠ ':' := by
      obtain ⟨c, t, hb, hc⟩ := hexText_eq_cons b
      cases groups with
      | nil => exact ⟨c, t, by simpa [joinGroups] using hb, hc⟩
      | cons d groups => exact ⟨c, _, by rw [joinGroups_cons_cons, hb, List.cons_append], hc⟩
    rw [joinGroups_cons_cons, List.append_assoc,
      splitDouble_append (fun c hc => (hexText_plain a c hc).1)]
    rw [hcons] at ih ⊢
    rw [List.cons_append, List.cons_append, splitDouble_colon hc, ← List.cons_append, ih,
      Option.map_map, Option.map_map]
    simp [Function.comp_def]

theorem readGroups_hexText (allowIpv4 : Bool) (groups : List (BitVec 16)) :
    readGroups allowIpv4 (groups.map hexText) = some groups := by
  match groups with
  | [] => rfl
  | [group] =>
    have hsingle : (hexText group).splitOn '.' = [hexText group] :=
      List.splitOnP_eq_singleton (fun c hc => by simpa using (hexText_plain group c hc).2)
    have hnot : parseIpv4 (hexText group) = none := by
      rw [parseIpv4, hsingle]
      simp only [List.mapM_cons, List.mapM_nil]
      cases parseOctet (hexText group) <;> rfl
    cases allowIpv4 <;> simp [readGroups, hnot, parseGroup_hexText]
  | a :: b :: groups =>
    have ih := readGroups_hexText allowIpv4 (b :: groups)
    simp only [List.map_cons] at ih ⊢
    simp [readGroups, ih, parseGroup_hexText]

theorem parseGroups_joinGroups (allowIpv4 : Bool) (groups : List (BitVec 16)) :
    parseGroups allowIpv4 (joinGroups groups) = some groups := by
  by_cases hnil : groups = []
  · subst hnil
    rfl
  · have hsplit : (joinGroups groups).splitOn ':' = groups.map hexText := by
      apply List.splitOn_intercalate
      · intro s hs hmem
        obtain ⟨group, _, rfl⟩ := List.mem_map.mp hs
        exact (hexText_plain group ':' hmem).1 rfl
      · simpa using hnil
    have hne : joinGroups groups ≠ [] := by
      intro he
      rw [he] at hsplit
      obtain ⟨group, rest, rfl⟩ := List.exists_cons_of_ne_nil hnil
      obtain ⟨c, t, hc, _⟩ := hexText_eq_cons group
      simp [hc] at hsplit
    rw [parseGroups, if_neg hne, hsplit, readGroups_hexText]

/-! ## Zero runs -/

def Span.Zero (span : Span) (segments : List (BitVec 16)) : Prop :=
  ∀ k, span.start ≤ k → k < span.start + span.len → segments[k]? = some 0

theorem Span.zero_empty (segments : List (BitVec 16)) : (⟨0, 0⟩ : Span).Zero segments := by
  intro k _ hk
  exact absurd hk (by simp)

theorem Span.Zero.grow {current : Span} {segments : List (BitVec 16)} {i : Nat}
    (hzero : current.Zero segments) (hend : current.len = 0 ∨ current.start + current.len = i)
    (hat : segments[i]? = some 0) :
    (current.grow i).Zero segments ∧ (current.grow i).start + (current.grow i).len = i + 1 := by
  rw [Span.grow]
  split
  · refine ⟨?_, rfl⟩
    intro k hlow hhigh
    obtain rfl : k = i := by dsimp only at hlow hhigh; omega
    exact hat
  · refine ⟨?_, by dsimp only; omega⟩
    intro k hlow hhigh
    dsimp only at hlow hhigh
    rcases Nat.lt_or_ge k (current.start + current.len) with hk | hk
    · exact hzero k hlow hk
    · obtain rfl : k = i := by omega
      exact hat

theorem longestZeroes_zero (segments : List (BitVec 16)) (rest : List (BitVec 16)) (i : Nat)
    (longest current : Span) (hrest : segments.drop i = rest) (hlongest : longest.Zero segments)
    (hcurrent : current.Zero segments) (hend : current.len = 0 ∨ current.start + current.len = i) :
    (longestZeroes i longest current rest).Zero segments := by
  induction rest generalizing i longest current with
  | nil => exact hlongest
  | cons segment rest ih =>
    have hat : segments[i]? = some segment := by
      have hhead := congrArg List.head? hrest
      rwa [List.head?_drop] at hhead
    have htail : segments.drop (i + 1) = rest := by
      rw [← List.tail_drop, hrest]
      rfl
    rw [longestZeroes]
    split
    · rename_i hzero
      subst hzero
      obtain ⟨hgrown, hnext⟩ := hcurrent.grow hend hat
      refine ih (i + 1) _ _ htail ?_ hgrown (Or.inr hnext)
      split
      · exact hgrown
      · exact hlongest
    · exact ih (i + 1) longest ⟨0, 0⟩ htail hlongest (Span.zero_empty segments) (Or.inl rfl)

theorem zeroes_zero (segments : List (BitVec 16)) : (zeroes segments).Zero segments :=
  longestZeroes_zero segments segments 0 ⟨0, 0⟩ ⟨0, 0⟩ rfl (Span.zero_empty segments)
    (Span.zero_empty segments) (Or.inl rfl)

/-- Folding a run of zeroes loses nothing. -/
theorem Span.Zero.refill {span : Span} {segments : List (BitVec 16)} (hzero : span.Zero segments)
    (hlen : 0 < span.len) :
    let head := segments.take span.start
    let tail := segments.drop (span.start + span.len)
    head.length + span.len + tail.length = segments.length ∧
      head ++ List.replicate span.len 0 ++ tail = segments := by
  have hlast := hzero (span.start + span.len - 1) (by omega) (by omega)
  have hin : span.start + span.len ≤ segments.length := by
    obtain ⟨h, _⟩ := List.getElem?_eq_some_iff.mp hlast
    omega
  have hmid : (segments.drop span.start).take span.len = List.replicate span.len 0 := by
    rw [List.eq_replicate_iff]
    refine ⟨by simp; omega, ?_⟩
    intro b hb
    obtain ⟨k, hk, rfl⟩ := List.getElem_of_mem hb
    have hk' : k < span.len := by simp at hk; omega
    have hz := hzero (span.start + k) (by omega) (by omega)
    rw [List.getElem_take, List.getElem_drop]
    exact (List.getElem?_eq_some_iff.mp hz).2
  refine ⟨by simp; omega, ?_⟩
  rw [← hmid, ← List.drop_drop, List.append_assoc, List.take_append_drop, List.take_append_drop]

/-! ## Reading undoes printing -/

theorem quadGroups_append (ab cd : BitVec 16) : quadGroups ⟨ab ++ cd⟩ = [ab, cd] := by
  simp only [quadGroups, List.cons.injEq, and_true]
  exact ⟨BitVec.extractLsb'_append_eq_left, BitVec.extractLsb'_append_eq_right⟩

theorem toIpv4Mapped_eq_some {ip : Ipv6Addr} {ipv4 : Ipv4Addr} (h : ip.toIpv4Mapped = some ipv4) :
    ip.segments = [0, 0, 0, 0, 0, 0xffff] ++ quadGroups ipv4 := by
  rw [Ipv6Addr.toIpv4Mapped] at h
  split at h
  · rename_i ab cd hseg
    obtain rfl := Option.some.inj h
    rw [hseg, quadGroups_append]
    rfl
  · cases h

theorem toIpv4Mapped_of_segments {ip : Ipv6Addr} {ipv4 : Ipv4Addr}
    (h : ip.segments = [0, 0, 0, 0, 0, 0xffff] ++ quadGroups ipv4) :
    ip.toIpv4Mapped = some ipv4 := by
  have hbits : ipv4.bits.extractLsb' 16 16 ++ ipv4.bits.extractLsb' 0 16 = ipv4.bits :=
    @BitVec.extractLsb'_append_extractLsb' 16 16 ipv4.bits
  rw [Ipv6Addr.toIpv4Mapped, h]
  exact congrArg (fun bits => some (Ipv4Addr.mk bits)) hbits

theorem Ipv4Addr.display_plain (ip : Ipv4Addr) : ∀ c ∈ ip.display, c ≠ ':' := by
  rintro _ hc rfl
  have hno : ':' ∉ ['.'].intercalate (ip.octets.map decimal) := by
    simp [Ipv4Addr.octets, notMem_decimal (c := ':') (by decide)]
  exact hno hc

theorem parseGroups_mapped (ip : Ipv4Addr) :
    parseGroups true ("ffff:".toList ++ ip.display) = some (0xffff :: quadGroups ip) := by
  have hsplit : ("ffff:".toList ++ ip.display).splitOn ':' = ["ffff".toList, ip.display] := by
    have hjoin : ([':'].intercalate ["ffff".toList, ip.display]).splitOn ':' =
        ["ffff".toList, ip.display] := by
      apply List.splitOn_intercalate
      · intro s hs hmem
        rcases List.mem_pair.mp hs with rfl | rfl
        · revert hmem
          decide
        · exact ip.display_plain ':' hmem rfl
      · exact List.cons_ne_nil _ _
    rw [List.intercalate_cons_cons, List.intercalate_singleton] at hjoin
    exact hjoin
  have hgroup : parseGroup "ffff".toList = some 0xffff := by decide
  rw [parseGroups, if_neg (by simp), hsplit]
  simp only [readGroups, hgroup, parseIpv4_display, Option.bind_some, Option.map_some, if_true]

theorem ofSegments_self (ip : Ipv6Addr) : Ipv6Addr.ofSegments ip.segments = some ip := by
  simp [Ipv6Addr.ofSegments, ip.length_eq]

theorem parseIpv6_display (ip : Ipv6Addr) : parseIpv6 ip.display = some ip := by
  rw [Ipv6Addr.display]
  split
  · rename_i ipv4 hmapped
    have hsplit : splitDouble ("::ffff:".toList ++ ipv4.display) =
        some ([], "ffff:".toList ++ ipv4.display) := rfl
    have hseg := toIpv4Mapped_eq_some hmapped
    have hself := ofSegments_self ip
    rw [hseg] at hself
    simp only [parseIpv6, hsplit, parseGroups_mapped]
    exact hself
  · dsimp only
    split
    · rename_i hrun
      have hlen := ip.length_eq
      obtain ⟨hsum, hsame⟩ := (zeroes_zero ip.segments).refill (by omega)
      simp only [parseIpv6, splitDouble_joinGroups, splitDouble, Option.map_some, List.append_nil,
        parseGroups_joinGroups]
      have hcount : 8 - (ip.segments.take (zeroes ip.segments).start).length -
          (ip.segments.drop ((zeroes ip.segments).start + (zeroes ip.segments).len)).length =
          (zeroes ip.segments).len := by omega
      simp only [Option.bind_eq_bind, Option.bind_some]
      rw [if_pos (by omega), hcount, hsame]
      exact ofSegments_self ip
    · have hnone := splitDouble_joinGroups ip.segments []
      simp only [List.append_nil, splitDouble, Option.map_none] at hnone
      simp only [parseIpv6, hnone, parseGroups_joinGroups, Option.bind_some]
      exact ofSegments_self ip

theorem colon_mem_display (ip : Ipv6Addr) : ':' ∈ ip.display := by
  rw [Ipv6Addr.display]
  split
  · exact List.mem_append_left _ (by decide)
  · dsimp only
    split
    · simp
    · match ip with
      | ⟨a :: b :: rest, _⟩ => rw [joinGroups_cons_cons]; simp

/-- The text of an address is read back as the address. -/
theorem parse_display (ip : IpAddr) : parseIpAddr ip.display = some ip := by
  cases ip with
  | v4 ip => rw [parseIpAddr, IpAddr.display, parseIpv4_display]
  | v6 ip =>
    have hnot : parseIpv4 ip.display = none :=
      parseIpv4_eq_none (colon_mem_display ip) (by decide) (by decide)
    rw [parseIpAddr, IpAddr.display, hnot, parseIpv6_display]
    rfl

end InternetAddresses
