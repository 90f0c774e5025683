import Celily.InternetAddresses
import Mathlib.Data.Nat.Basic

/-!
# The subnet of a bridge

`<gateway>/<prefix length>` as LXD prints it, and the test that an address can be
an instance behind the bridge. The test is made with a shifted mask;
`hasInstance_iff` says it in arithmetic.
-/

namespace BridgeSubnets

open RustText SegmentedLists InternetAddresses

/-- A bridge's IPv4 gateway and the prefix length of its subnet. -/
structure BridgeSubnet where
  gateway : Ipv4Addr
  prefixLen : Nat
  prefixLen_le : prefixLen ≤ 32
  deriving DecidableEq

def BridgeSubnet.parse (cidr : Text) : Option BridgeSubnet := do
  let (gateway, prefixLen) ← splitOnce '/' cidr
  let prefixLen ← parseUnsigned 256 prefixLen
  if h : prefixLen ≤ 32 then
    let gateway ← parseIpv4 gateway
    return ⟨gateway, prefixLen, h⟩
  else none

/-- `u32::MAX.checked_shl(32 - prefix_len).unwrap_or(0)`. -/
def BridgeSubnet.mask (subnet : BridgeSubnet) : BitVec 32 :=
  let shift := 32 - subnet.prefixLen
  if shift < 32 then BitVec.allOnes 32 <<< shift else 0

/-- Whether `ip` can be an instance on this bridge. -/
def BridgeSubnet.hasInstance (subnet : BridgeSubnet) (ip : IpAddr) : Bool :=
  match ip.toCanonical with
  | .v6 _ => false
  | .v4 ip =>
    ip != subnet.gateway && (ip.bits ^^^ subnet.gateway.bits) &&& subnet.mask == 0

example : (BridgeSubnet.parse "10.35.140.1/24".toList).map
    (fun s => s.hasInstance (.v4 ⟨0x0a238c02⟩)) = some true := by decide
example : BridgeSubnet.parse "10.0.0.1/33".toList = none := by decide

/-- The addresses that share the first `prefixLen` bits of the gateway. -/
def BridgeSubnet.Contains (subnet : BridgeSubnet) (ip : Ipv4Addr) : Prop :=
  ip.bits.toNat / 2 ^ (32 - subnet.prefixLen) =
    subnet.gateway.bits.toNat / 2 ^ (32 - subnet.prefixLen)

theorem and_shiftLeft_eq_zero_iff {w : Nat} (x : BitVec w) (shift : Nat) :
    x &&& (BitVec.allOnes w <<< shift) = 0#w ↔ x >>> shift = 0#w := by
  constructor
  · intro h
    ext i hi
    have hbit := congrArg (fun y : BitVec w => y.getLsbD (shift + i)) h
    by_cases hin : shift + i < w
    · have hhigh : ¬shift + i < shift := by omega
      simpa [hin, hi, hhigh] using hbit
    · simp [BitVec.getLsbD_of_ge x (shift + i) (by omega)]
  · intro h
    ext i hi
    by_cases hlow : i < shift
    · simp [hlow]
    · have hbit := congrArg (fun y : BitVec w => y.getLsbD (i - shift)) h
      have hsum : shift + (i - shift) = i := by omega
      have hx : x[i] = false := by
        simpa [BitVec.getLsbD_ushiftRight, hsum, hi] using hbit
      simp [hx]

theorem ushiftRight_xor_eq_zero_iff {w : Nat} (x y : BitVec w) (shift : Nat) :
    (x ^^^ y) >>> shift = 0#w ↔ x.toNat / 2 ^ shift = y.toNat / 2 ^ shift := by
  rw [BitVec.ushiftRight_xor_distrib, BitVec.xor_eq_zero_iff, ← BitVec.toNat_inj,
    BitVec.toNat_ushiftRight, BitVec.toNat_ushiftRight, Nat.shiftRight_eq_div_pow,
    Nat.shiftRight_eq_div_pow]

theorem mask_iff (subnet : BridgeSubnet) (ip : Ipv4Addr) :
    (ip.bits ^^^ subnet.gateway.bits) &&& subnet.mask = 0#32 ↔ subnet.Contains ip := by
  unfold BridgeSubnet.mask BridgeSubnet.Contains
  dsimp only
  split
  · rw [and_shiftLeft_eq_zero_iff, ushiftRight_xor_eq_zero_iff]
  · have hshift : 32 - subnet.prefixLen = 32 := by omega
    have hip := ip.bits.isLt
    have hgateway := subnet.gateway.bits.isLt
    rw [hshift, Nat.div_eq_of_lt hip, Nat.div_eq_of_lt hgateway]
    simp

/-- An IPv4 address, or an IPv4-mapped one, of the subnet and not its gateway. -/
def BridgeSubnet.IsInstance (subnet : BridgeSubnet) (ip : IpAddr) : Prop :=
  ∃ v4, ip.toCanonical = .v4 v4 ∧ v4 ≠ subnet.gateway ∧ subnet.Contains v4

theorem hasInstance_iff (subnet : BridgeSubnet) (ip : IpAddr) :
    subnet.hasInstance ip = true ↔ subnet.IsInstance ip := by
  rw [BridgeSubnet.hasInstance, BridgeSubnet.IsInstance]
  cases ip.toCanonical with
  | v4 v4 => simp [mask_iff]
  | v6 v6 => simp

/-! ## Every subnet that is read -/

/-- The IPv4 address itself, or `::ffff:` before its four bytes. -/
def Denotes (ip : IpAddr) (v4 : Ipv4Addr) : Prop :=
  ip = .v4 v4 ∨
    ∃ v6, ip = .v6 v6 ∧ v6.segments = [0, 0, 0, 0, 0, 0xffff] ++ quadGroups v4

theorem toCanonical_iff (ip : IpAddr) (v4 : Ipv4Addr) :
    ip.toCanonical = .v4 v4 ↔ Denotes ip v4 := by
  cases ip with
  | v4 ip => simp [IpAddr.toCanonical, Denotes]
  | v6 ip =>
    rw [IpAddr.toCanonical]
    constructor
    · intro hcanonical
      cases hmapped : ip.toIpv4Mapped with
      | none =>
        rw [hmapped] at hcanonical
        cases hcanonical
      | some mapped =>
        rw [hmapped] at hcanonical
        cases hcanonical
        exact Or.inr ⟨ip, rfl, toIpv4Mapped_eq_some hmapped⟩
    · rintro (h | ⟨v6, h, hsegments⟩)
      · cases h
      · obtain rfl := IpAddr.v6.inj h
        rw [toIpv4Mapped_of_segments hsegments]

theorem slash_notMem_display (ip : Ipv4Addr) : '/' ∉ ip.display := by
  simp [Ipv4Addr.display, Ipv4Addr.octets, notMem_decimal (c := '/') (by decide)]

/-- Reading a subnet undoes printing it. -/
theorem parse_display_slash (gateway : Ipv4Addr) {prefixLen : Nat} (hle : prefixLen ≤ 32) :
    BridgeSubnet.parse (gateway.display ++ '/' :: decimal prefixLen) =
      some ⟨gateway, prefixLen, hle⟩ := by
  have hbound : prefixLen < 256 := by omega
  have hcut := splitOnce_append (slash_notMem_display gateway) (decimal prefixLen)
  simp [BridgeSubnet.parse, hcut, parseUnsigned_decimal hbound, parseIpv4_display, hle]

theorem isInstance_iff (subnet : BridgeSubnet) (ip : IpAddr) :
    subnet.IsInstance ip ↔ ∃ v4, Denotes ip v4 ∧
      v4.bits.toNat / 2 ^ (32 - subnet.prefixLen) =
        subnet.gateway.bits.toNat / 2 ^ (32 - subnet.prefixLen) ∧
      v4.bits.toNat ≠ subnet.gateway.bits.toNat := by
  have hne : ∀ v4 : Ipv4Addr,
      v4 ≠ subnet.gateway ↔ v4.bits.toNat ≠ subnet.gateway.bits.toNat := by
    intro v4
    rw [ne_eq, ne_eq, BitVec.toNat_inj]
    exact not_congr ⟨congrArg Ipv4Addr.bits, fun h => by cases v4; exact congrArg Ipv4Addr.mk h⟩
  constructor
  · rintro ⟨v4, hcanonical, hgateway, hcontains⟩
    exact ⟨v4, (toCanonical_iff ip v4).mp hcanonical, hcontains, (hne v4).mp hgateway⟩
  · rintro ⟨v4, hdenotes, hcontains, hgateway⟩
    exact ⟨v4, (toCanonical_iff ip v4).mpr hdenotes, (hne v4).mpr hgateway, hcontains⟩

/-- The test of every subnet that is read, in arithmetic, and that every subnet is read
back from its text. -/
theorem parsed_subnet :
    (∀ cidr subnet, BridgeSubnet.parse cidr = some subnet → subnet.prefixLen ≤ 32 ∧
      ∀ ip, subnet.hasInstance ip = true ↔ ∃ v4, Denotes ip v4 ∧
        v4.bits.toNat / 2 ^ (32 - subnet.prefixLen) =
          subnet.gateway.bits.toNat / 2 ^ (32 - subnet.prefixLen) ∧
        v4.bits.toNat ≠ subnet.gateway.bits.toNat) ∧
    ∀ (gateway : Ipv4Addr) (prefixLen : Nat) (hle : prefixLen ≤ 32),
      BridgeSubnet.parse (gateway.display ++ '/' :: decimal prefixLen) =
        some ⟨gateway, prefixLen, hle⟩ := by
  refine ⟨fun cidr subnet _ => ⟨subnet.prefixLen_le, fun ip => ?_⟩, ?_⟩
  · exact (hasInstance_iff subnet ip).trans (isInstance_iff subnet ip)
  · exact fun gateway prefixLen hle => parse_display_slash gateway hle

theorem parsed_subnet_private : ∃ subnet, BridgeSubnet.parse "10.35.140.1/24".toList = some subnet ∧
    subnet.hasInstance (.v4 ⟨0x0a238c02⟩) = true := by
  have hparse := parsed_subnet.2 ⟨0x0a238c01⟩ 24 (by decide)
  refine ⟨_, hparse, ?_⟩
  exact ((parsed_subnet.1 _ _ hparse).2 _).mpr ⟨⟨0x0a238c02⟩, Or.inl rfl, by decide, by decide⟩

end BridgeSubnets
