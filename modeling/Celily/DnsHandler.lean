import Celily.ProxyHandler

/-!
# The proxy's DNS handler

A query is forwarded when its name is the host of an HTTP rule. The name type of the
proxy library is a parameter: names are equal when their texts are, ignoring ASCII
case and a final root dot. The request handler compares hosts as texts, so the two
gates agree but for that dot.
-/

namespace DnsHandler

open RustText NetworkRules ProxyHandler

class DnsName (N : Type) where
  /-- `from_str`. -/
  parse : Text → Option N

/-- A name without its final root dot. -/
def stripRootDot (name : Text) : Text :=
  if name.getLast? = some '.' then name.dropLast else name

/-- The texts spell one name. -/
def sameName (a b : Text) : Bool := eqIgnoreAsciiCase (stripRootDot a) (stripRootDot b)

/-- Names are compared by whole labels ignoring case, and case decides nothing about
what parses. -/
class LawfulDnsName (N : Type) [DnsName N] : Prop where
  parse_eq_iff : ∀ a b (x y : N), DnsName.parse a = some x → DnsName.parse b = some y →
    (x = y ↔ sameName a b = true)
  parse_of_eqIgnoreCase : ∀ a b, eqIgnoreAsciiCase a b = true →
    (DnsName.parse a : Option N).isSome → (DnsName.parse b : Option N).isSome

/-- The decision on one query. -/
inductive DnsDecision where
  | forward
  | nxDomain
  deriving DecidableEq

/-- The hosts of the HTTP rules that are names. -/
structure CelilyDnsHandler (N : Type) where
  allowed : List N

variable {N : Type} [DnsName N]

def isHttp (rule : NetworkRule) : Bool :=
  match rule with
  | .http _ => true
  | .tcp _ _ => false

def ruleName (rule : NetworkRule) : Option N :=
  match rule with
  | .http rule => DnsName.parse rule.host
  | .tcp _ _ => none

def CelilyDnsHandler.new (rules : List NetworkRule) : CelilyDnsHandler N where
  allowed := rules.filterMap ruleName

def CelilyDnsHandler.handleQuery [DecidableEq N] (handler : CelilyDnsHandler N) (name : N)
    (_queryType : UInt16) : DnsDecision :=
  if name ∈ handler.allowed then .forward else .nxDomain

/-- A TCP rule allows no names. -/
theorem new_filter_isHttp (rules : List NetworkRule) :
    (CelilyDnsHandler.new (rules.filter isHttp) : CelilyDnsHandler N) = .new rules := by
  rw [CelilyDnsHandler.new, CelilyDnsHandler.new, List.filterMap_filter]
  congr 2
  funext rule
  cases rule with
  | http rule => rfl
  | tcp host ports => rfl

theorem toLower_eq_dot (c : Char) : c.toLower = '.' ↔ c = '.' := by
  constructor
  · intro h
    by_cases hupper : 'A'.val ≤ c.val ∧ c.val ≤ 'Z'.val
    · -- An upper case letter becomes a lower case one.
      have hlower : c.toLower.val = c.val + 32 := congrArg Char.val (dif_pos hupper)
      have hlow : 65 ≤ c.val.toNat := UInt32.le_iff_toNat_le.mp hupper.1
      have hhigh : c.val.toNat ≤ 90 := UInt32.le_iff_toNat_le.mp hupper.2
      have hval : (c.val + 32).toNat = 46 := by
        rw [← hlower, h]
        rfl
      have hoffset : (32 : UInt32).toNat = 32 := rfl
      rw [UInt32.toNat_add, hoffset] at hval
      omega
    · have hsame : c.toLower = c := dif_neg hupper
      rw [← hsame]
      exact h
  · rintro rfl
    rfl

theorem map_toLower_stripRootDot (name : Text) :
    (stripRootDot name).map Char.toLower = stripRootDot (name.map Char.toLower) := by
  have hlast : (name.map Char.toLower).getLast? = some '.' ↔ name.getLast? = some '.' := by
    rw [List.getLast?_map]
    cases name.getLast? with
    | none => simp
    | some c => simp [toLower_eq_dot]
  rw [stripRootDot, stripRootDot]
  by_cases hdot : name.getLast? = some '.'
  · rw [if_pos hdot, if_pos (hlast.mpr hdot), List.map_dropLast]
  · rw [if_neg hdot, if_neg (mt hlast.mp hdot)]

theorem sameName_of_eqIgnoreCase {a b : Text} (h : eqIgnoreAsciiCase a b = true) :
    sameName a b = true := by
  rw [sameName, eqIgnoreAsciiCase_iff, map_toLower_stripRootDot, map_toLower_stripRootDot,
    (eqIgnoreAsciiCase_iff a b).mp h]

theorem sameName_iff {a b : Text} (ha : a.getLast? ≠ some '.') (hb : b.getLast? ≠ some '.') :
    sameName a b = true ↔ eqIgnoreAsciiCase a b = true := by
  rw [sameName, stripRootDot, if_neg ha, stripRootDot, if_neg hb]

section Lawful
variable [LawfulDnsName N] [DecidableEq N]

theorem handleQuery_forward_iff (rules : List NetworkRule) {host : Text} {name : N}
    (hname : DnsName.parse host = some name) (queryType : UInt16) :
    (CelilyDnsHandler.new rules).handleQuery name queryType = .forward ↔
      ∃ rule, .http rule ∈ rules ∧ (DnsName.parse rule.host : Option N).isSome ∧
        sameName host rule.host = true := by
  have hdecision : (CelilyDnsHandler.new rules).handleQuery name queryType = .forward ↔
      name ∈ rules.filterMap ruleName := by
    rw [CelilyDnsHandler.handleQuery, CelilyDnsHandler.new]
    split
    · simp_all
    · simp_all
  rw [hdecision, List.mem_filterMap]
  constructor
  · rintro ⟨rule, hmem, hrule⟩
    cases rule with
    | tcp host ports => cases hrule
    | http rule =>
      have hparse : DnsName.parse rule.host = some name := hrule
      refine ⟨rule, hmem, by rw [hparse]; rfl, ?_⟩
      exact (LawfulDnsName.parse_eq_iff _ _ name name hname hparse).mp rfl
  · rintro ⟨rule, hmem, hparses, hsame⟩
    obtain ⟨other, hparse⟩ := Option.isSome_iff_exists.mp hparses
    obtain rfl := (LawfulDnsName.parse_eq_iff _ _ name other hname hparse).mpr hsame
    exact ⟨.http rule, hmem, hparse⟩

/-- What passes the host comparison of the request handler resolves. -/
theorem handleQuery_of_eqIgnoreCase {rules : List NetworkRule} {host : Text} {name : N}
    (hname : DnsName.parse host = some name) (queryType : UInt16) {rule : HttpRule}
    (hrule : .http rule ∈ rules) (hhost : eqIgnoreAsciiCase host rule.host = true) :
    (CelilyDnsHandler.new rules).handleQuery name queryType = .forward := by
  rw [handleQuery_forward_iff rules hname]
  refine ⟨rule, hrule, ?_, sameName_of_eqIgnoreCase hhost⟩
  exact LawfulDnsName.parse_of_eqIgnoreCase host rule.host hhost (by rw [hname]; rfl)

/-- Some HTTP rule passes the host comparison of the request handler. -/
def HostPasses (rules : List NetworkRule) (host : Text) : Prop :=
  ∃ rule, .http rule ∈ rules ∧ eqIgnoreAsciiCase host rule.host = true

/-- The gates agree on every host but for the final root dot, which only the DNS gate
ignores. -/
theorem handleQuery_iff_hostPasses (rules : List NetworkRule) (host : Text) (name : N)
    (hname : DnsName.parse host = some name) (queryType : UInt16) :
    ((CelilyDnsHandler.new rules).handleQuery name queryType = .forward ↔
      ∃ rule, .http rule ∈ rules ∧ (DnsName.parse rule.host : Option N).isSome ∧
        eqIgnoreAsciiCase (stripRootDot host) (stripRootDot rule.host) = true) ∧
    (HostPasses rules host →
      (CelilyDnsHandler.new rules).handleQuery name queryType = .forward) ∧
    (host.getLast? ≠ some '.' →
      (∀ rule, .http rule ∈ rules → rule.host.getLast? ≠ some '.') →
      ((CelilyDnsHandler.new rules).handleQuery name queryType = .forward ↔
        HostPasses rules host)) ∧
    (CelilyDnsHandler.new (rules.filter isHttp) : CelilyDnsHandler N) = .new rules := by
  have hforward := handleQuery_forward_iff rules hname queryType
  have hpasses : HostPasses rules host →
      (CelilyDnsHandler.new rules).handleQuery name queryType = .forward := by
    rintro ⟨rule, hrule, hhost⟩
    exact handleQuery_of_eqIgnoreCase hname queryType hrule hhost
  refine ⟨hforward, hpasses, ?_, new_filter_isHttp rules⟩
  intro hdot hdots
  refine ⟨?_, hpasses⟩
  intro hquery
  obtain ⟨rule, hrule, _, hsame⟩ := hforward.mp hquery
  exact ⟨rule, hrule, (sameName_iff hdot (hdots rule hrule)).mp hsame⟩

end Lawful

/-! ## Names as lower case texts -/

structure AsciiName where
  text : Text
  deriving DecidableEq

def isLabel (label : Text) : Bool := 0 < label.length && label.length ≤ 63

instance : DnsName AsciiName where
  parse text :=
    let name := (stripRootDot text).map Char.toLower
    if (name.splitOn '.').all isLabel then some ⟨name⟩ else none

theorem parse_eq_some {text : Text} {name : AsciiName}
    (hparse : DnsName.parse text = some name) :
    name.text = (stripRootDot text).map Char.toLower := by
  simp only [DnsName.parse] at hparse
  split at hparse
  · obtain rfl := Option.some.inj hparse
    rfl
  · cases hparse

instance : LawfulDnsName AsciiName where
  parse_eq_iff a b x y ha hb := by
    have hx := parse_eq_some ha
    have hy := parse_eq_some hb
    rw [sameName, eqIgnoreAsciiCase_iff, ← hx, ← hy]
    constructor
    · rintro rfl
      rfl
    · intro htext
      cases x
      cases y
      exact congrArg AsciiName.mk htext
  parse_of_eqIgnoreCase a b hcase ha := by
    have hsame := sameName_of_eqIgnoreCase hcase
    rw [sameName, eqIgnoreAsciiCase_iff] at hsame
    simp only [DnsName.parse] at ha ⊢
    rw [← hsame]
    exact ha

theorem handleQuery_iff_hostPasses_api :
    (CelilyDnsHandler.new [.http apiRule]).handleQuery (⟨"api.example.com".toList⟩ : AsciiName) 1 =
        .forward ↔ HostPasses [.http apiRule] "API.example.com".toList :=
  (handleQuery_iff_hostPasses [.http apiRule] "API.example.com".toList
    (⟨"api.example.com".toList⟩ : AsciiName) (by decide +kernel) 1).2.2.1 (by decide)
    (by simp [apiRule])

/-- With its root dot the name resolves, and no request to it passes. -/
theorem rootDot_resolves : ∃ name : AsciiName,
    DnsName.parse "api.example.com.".toList = some name ∧
      (CelilyDnsHandler.new [.http apiRule]).handleQuery name 1 = .forward ∧
      ¬HostPasses [.http apiRule] "api.example.com.".toList := by
  refine ⟨⟨"api.example.com".toList⟩, by decide +kernel, by decide +kernel, ?_⟩
  rintro ⟨rule, hrule, hhost⟩
  obtain rfl : rule = apiRule := by simpa using hrule
  exact absurd hhost (by decide)

end DnsHandler
