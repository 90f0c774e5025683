import Celily.ConfigRules
import Celily.EgressAcl
import Celily.ProxyHandler
import Celily.SegmentPrefixes

/-!
# Which accepted rules let anything through

The validator of the allow list against the two that enforce it: `rule_matches` for
`http` and `https` rules, the bridge ACL for `tcp` rules. An accepted rule lets some
traffic through exactly when it is `Live`.
-/

namespace LiveRules

open RustText SegmentedLists HostFiles InternetAddresses PathPrefixes SegmentPrefixes NetworkRules
  ConfigRules EgressAcl HeaderMaps ProxyHandler

/-- A method as a request line has it. -/
def isToken (method : Text) : Bool := method ≠ [] && method.all isTokenChar

/-- A request that a client can send: any host and port, a path from the root. -/
def IsRequest (target : Target) : Prop :=
  (∃ below, target.path = '/' :: below) ∧ isToken target.method = true

/-- The ACL of this rule alone lets TCP out to the address and port, on any bridge. -/
def Opens (rule : NetworkRule) (host : IpAddr) (port : UInt16) : Prop :=
  ∀ keep gateway source sourcePort,
    Allowed (printedAcl [rule] keep gateway) ⟨.tcp, source, host, sourcePort, port⟩

def HasTraffic (rule : NetworkRule) : Prop :=
  match rule with
  | .http _ => ∃ target, IsRequest target ∧ ruleMatches rule target = true
  | .tcp _ _ => ∃ host port, Opens rule host port

/-- Some prefix is empty, or starts at the root and has nothing that may escape it. -/
def LivePaths (pathPrefixes : Option (List Text)) : Prop :=
  ∀ prefixes, pathPrefixes = some prefixes →
    ∃ pre ∈ prefixes, pre = [] ∨ (∃ below, pre = '/' :: below) ∧ Clean (utf8 pre)

def LiveMethods (methods : Option (List Text)) : Prop :=
  ∀ listed, methods = some listed → ∃ method ∈ listed, isToken method = true

def Live : ConfigNetworkRule → Prop
  | .http rule | .https rule => LivePaths rule.pathPrefixes ∧ LiveMethods rule.methods
  | .tcp _ ports => ports ≠ []

/-! ## Methods -/

theorem isTokenChar_toLower (c : Char) : isTokenChar c.toLower = isTokenChar c := by
  by_cases hascii : c.toNat < 128
  · have hall : ∀ n < 128, isTokenChar (Char.ofNat n).toLower = isTokenChar (Char.ofNat n) := by
      decide +kernel
    have hc := hall c.toNat hascii
    rw [Char.ofNat_toNat] at hc
    exact hc
  · have hsame : c.toLower = c := by
      refine dif_neg fun hupper => hascii ?_
      exact Nat.lt_of_le_of_lt (UInt32.le_iff_toNat_le.mp hupper.2) (by decide)
    rw [hsame]

theorem isToken_of_eqIgnoreAsciiCase {s t : Text} (hsame : eqIgnoreAsciiCase s t = true)
    (ht : isToken t = true) : isToken s = true := by
  have hfold : ∀ u : Text, isToken u = isToken (u.map Char.toLower) := by
    intro u
    have hchars : (u.map Char.toLower).all isTokenChar = u.all isTokenChar := by
      rw [List.all_map]
      exact congrArg u.all (funext isTokenChar_toLower)
    rw [isToken, isToken, hchars]
    cases u <;> rfl
  rw [eqIgnoreAsciiCase_iff] at hsame
  rw [hfold, hsame, ← hfold]
  exact ht

theorem liveMethods_iff (methods : Option (List Text)) :
    LiveMethods methods ↔ ∃ method, isToken method = true ∧
      (methods.getD defaultMethods).any (fun m => eqIgnoreAsciiCase m method) = true := by
  constructor
  · intro hlive
    cases methods with
    | none => exact ⟨"GET".toList, by decide, by decide⟩
    | some listed =>
      obtain ⟨method, hmem, htoken⟩ := hlive listed rfl
      exact ⟨method, htoken, List.any_eq_true.mpr ⟨method, hmem, eqIgnoreAsciiCase_refl method⟩⟩
  · rintro ⟨method, htoken, hany⟩ listed rfl
    obtain ⟨m, hmem, hsame⟩ := List.any_eq_true.mp hany
    exact ⟨m, hmem, isToken_of_eqIgnoreAsciiCase hsame htoken⟩

/-! ## Paths -/

/-- What stands before a separator is clean when the whole is. -/
theorem clean_of_endsIn {a b : Bytes} (h : Clean (a ++ b)) (ha : EndsIn isSeparator a) :
    Clean a := by
  obtain ⟨hdecode, hends⟩ := decode_append_endsIn (b := b) ha
  rw [Clean, hdecode] at h
  refine ⟨fun hmem => h.1 (List.mem_append_left _ hmem), fun hdot => h.2 ?_⟩
  obtain ⟨front, dots, back, hbytes, hdots, hfront, hback⟩ := hdot
  refine ⟨front, dots, back ++ percentDecodeBytes b, ?_, hdots, hfront, ?_⟩
  · rw [hbytes, List.append_assoc]
  -- dots at the end would not end in a separator
  have hne : back ≠ [] := by
    rintro rfl
    rw [List.append_nil] at hbytes
    obtain ⟨c, hlast, hc⟩ : ∃ c, dots.getLast? = some c ∧ isSeparator c = false := by
      rcases hdots with rfl | rfl
      · exact ⟨46, rfl, by decide⟩
      · exact ⟨46, rfl, by decide⟩
    have hdecoded : (percentDecodeBytes a).getLast? = some c := by
      rw [hbytes, List.getLast?_append, hlast]
      rfl
    rcases hends with hnil | ⟨more, sep, hsplit, hsep⟩
    · rw [hnil] at hdecoded
      cases hdecoded
    · rw [hsplit, List.getLast?_concat] at hdecoded
      obtain rfl := Option.some.inj hdecoded
      rw [hc] at hsep
      cases hsep
  obtain ⟨c, more, rfl⟩ := List.exists_cons_of_ne_nil hne
  rcases hback with hnil | ⟨d, rest, hcons, hd⟩
  · cases hnil
  · obtain ⟨rfl, rfl⟩ := List.cons.inj hcons
    exact Or.inr ⟨c, more ++ percentDecodeBytes b, rfl, hd⟩

theorem clean_prefix {path pre : Text} (hclean : Clean (utf8 path))
    (hpre : pathHasPrefix path pre = true) : Clean (utf8 pre) := by
  obtain ⟨rest, rfl, hrest⟩ := pathHasPrefix_iff.mp hpre
  rw [utf8_append] at hclean
  rcases hrest with rfl | ⟨below, rfl⟩ | hlast
  · rw [utf8_nil, List.append_nil] at hclean
    exact hclean
  · have hpart : Clean ([] ++ utf8 pre ++ utf8 ('/' :: below)) := hclean
    exact hpart.part (endsIn_nil _) (Or.inr ⟨47, utf8 below, rfl, by decide⟩)
  · obtain ⟨front, rfl⟩ := List.getLast?_eq_some_iff.mp hlast
    refine clean_of_endsIn hclean (Or.inr ⟨utf8 front, 47, ?_, by decide⟩)
    rw [utf8_append]
    rfl

theorem livePaths_iff (pathPrefixes : Option (List Text)) :
    LivePaths pathPrefixes ↔
      ∃ below, pathAllowed pathPrefixes ('/' :: below) = true := by
  constructor
  · intro hlive
    cases pathPrefixes with
    | none => exact ⟨[], rfl⟩
    | some prefixes =>
      obtain ⟨pre, hmem, hpre⟩ := hlive prefixes rfl
      have hself : ∀ path, Clean (utf8 path) → pathHasPrefix path pre = true →
          pathAllowed (some prefixes) path = true := by
        intro path hclean hstart
        rw [pathAllowed, (mayEscapePrefix_eq_false path).mpr hclean, Bool.not_false, Bool.true_and]
        exact List.any_eq_true.mpr ⟨pre, hmem, hstart⟩
      rcases hpre with rfl | ⟨⟨below, rfl⟩, hclean⟩
      · have hroot : Clean (utf8 ['/']) := (mayEscapePrefix_eq_false ['/']).mp (by decide)
        exact ⟨[], hself ['/'] hroot (by decide)⟩
      · refine ⟨below, hself ('/' :: below) hclean (pathHasPrefix_iff.mpr ⟨[], ?_, Or.inl rfl⟩)⟩
        exact (List.append_nil _).symm
  · rintro ⟨below, hallowed⟩ prefixes rfl
    rw [pathAllowed, Bool.and_eq_true, Bool.not_eq_true'] at hallowed
    obtain ⟨hescape, hany⟩ := hallowed
    obtain ⟨pre, hmem, hpre⟩ := List.any_eq_true.mp hany
    refine ⟨pre, hmem, ?_⟩
    have hclean := clean_prefix ((mayEscapePrefix_eq_false _).mp hescape) hpre
    obtain ⟨rest, hpath, _⟩ := pathHasPrefix_iff.mp hpre
    cases pre with
    | nil => exact Or.inl rfl
    | cons c pre =>
      obtain ⟨rfl, _⟩ := List.cons.inj hpath
      exact Or.inr ⟨⟨pre, rfl⟩, hclean⟩

/-! ## Rules -/

/-- Exactly the listed address and ports are opened on every bridge. -/
theorem opens_tcp_iff (address host : IpAddr) (ports : List UInt16) (port : UInt16) :
    Opens (.tcp address ports) host port ↔ host = address ∧ port ∈ ports := by
  constructor
  · intro hopens
    -- a bridge whose gateway is another address, where only the rule opens this one
    obtain ⟨gateway, hother⟩ : ∃ gateway : IpAddr, host ≠ gateway := by
      by_cases hzero : host = .v4 ⟨0⟩
      · exact ⟨.v4 ⟨1⟩, by rw [hzero]; decide⟩
      · exact ⟨.v4 ⟨0⟩, hzero⟩
    have hpolicy := ((allowed_iff [.tcp address ports] false gateway).1 _).mp
      (hopens false gateway gateway 0)
    cases hpolicy with
    | proxy _ hgateway _ => exact absurd hgateway hother
    | dns _ hgateway _ => exact absurd hgateway hother
    | rule listed listedPorts hrule _ hhost hport =>
      cases List.mem_singleton.mp hrule
      exact ⟨hhost, hport⟩
  · rintro ⟨rfl, hport⟩ keep gateway source sourcePort
    apply ((allowed_iff [.tcp host ports] keep gateway).1 _).mpr
    exact .rule host ports List.mem_cons_self rfl rfl hport

theorem intoLibrary_ok {rule : ConfigHttpRule} {scheme : HttpScheme} {converted : NetworkRule}
    (haccepted : rule.intoLibrary scheme = .ok converted) :
    rule.ports ≠ some [] ∧ ∃ quota, converted = .http
      { scheme := scheme
        host := rule.host
        ports := rule.ports.getD [scheme.defaultPort]
        pathPrefixes := rule.pathPrefixes
        auth := rule.auth
        headers := rule.headers
        methods := rule.methods
        quota := quota } := by
  rw [ConfigHttpRule.intoLibrary] at haccepted
  obtain ⟨_, _, haccepted⟩ := bind_eq_ok.mp haccepted
  obtain ⟨_, _, haccepted⟩ := bind_eq_ok.mp haccepted
  obtain ⟨_, hports, haccepted⟩ := bind_eq_ok.mp haccepted
  obtain ⟨_, _, haccepted⟩ := bind_eq_ok.mp haccepted
  have hempty : rule.ports ≠ some [] := by
    intro hlisted
    rw [hlisted] at hports
    cases hports
  refine ⟨hempty, ?_⟩
  split at haccepted
  · exact ⟨none, (Except.ok.inj haccepted).symm⟩
  · obtain ⟨quota, _, haccepted⟩ := bind_eq_ok.mp haccepted
    exact ⟨quota, (Except.ok.inj haccepted).symm⟩

theorem http_traffic_iff {rule : ConfigHttpRule} {scheme : HttpScheme} {converted : NetworkRule}
    (haccepted : rule.intoLibrary scheme = .ok converted) :
    HasTraffic converted ↔ LivePaths rule.pathPrefixes ∧ LiveMethods rule.methods := by
  obtain ⟨hports, quota, rfl⟩ := intoLibrary_ok haccepted
  rw [livePaths_iff, liveMethods_iff]
  constructor
  · rintro ⟨target, ⟨⟨below, hpath⟩, htoken⟩, hmatch⟩
    simp only [ruleMatches, Bool.and_eq_true] at hmatch
    obtain ⟨⟨_, hallowed⟩, hmethod⟩ := hmatch
    rw [hpath] at hallowed
    exact ⟨⟨below, hallowed⟩, target.method, htoken, hmethod⟩
  · rintro ⟨⟨below, hallowed⟩, method, htoken, hmethod⟩
    obtain ⟨port, hport⟩ : ∃ port, port ∈ rule.ports.getD [scheme.defaultPort] := by
      apply List.exists_mem_of_ne_nil
      cases hlisted : rule.ports with
      | none => exact List.cons_ne_nil _ _
      | some listed =>
        rintro rfl
        exact hports hlisted
    refine ⟨⟨scheme, rule.host, port, '/' :: below, method⟩, ⟨⟨below, rfl⟩, htoken⟩, ?_⟩
    simp only [ruleMatches, hallowed, hmethod, Bool.and_true, beq_self_eq_true,
      eqIgnoreAsciiCase_refl, Bool.true_and]
    exact List.contains_iff_mem.mpr hport

/-- An accepted rule lets some traffic through exactly when it is live. -/
theorem hasTraffic_iff_live (rule : ConfigNetworkRule) {converted : NetworkRule}
    (haccepted : rule.intoLibrary = .ok converted) : HasTraffic converted ↔ Live rule := by
  cases rule with
  | http rule => exact http_traffic_iff haccepted
  | https rule => exact http_traffic_iff haccepted
  | tcp address ports =>
    obtain rfl := Except.ok.inj haccepted
    constructor
    · rintro ⟨host, port, hopens⟩
      exact List.ne_nil_of_mem ((opens_tcp_iff address host ports port).mp hopens).2
    · intro hports
      obtain ⟨port, hport⟩ := List.exists_mem_of_ne_nil ports hports
      exact ⟨address, port, (opens_tcp_iff address address ports port).mpr ⟨rfl, hport⟩⟩

theorem hasTraffic_iff_live_github :
    HasTraffic (.http ⟨.https, "github.com".toList, [443], some ["/repos/".toList], none, [],
      some ["GET".toList], none⟩) := by
  have haccepted : (ConfigNetworkRule.https ⟨"github.com".toList, none, some ["/repos/".toList],
      none, [], some ["GET".toList], none⟩).intoLibrary = .ok (.http ⟨.https, "github.com".toList,
        [443], some ["/repos/".toList], none, [], some ["GET".toList], none⟩) := rfl
  refine (hasTraffic_iff_live _ haccepted).mpr ⟨?_, ?_⟩
  · rintro prefixes ⟨⟩
    have hclean : Clean (utf8 "/repos/".toList) := (mayEscapePrefix_eq_false _).mp (by decide)
    exact ⟨_, List.mem_cons_self, Or.inr ⟨⟨"repos/".toList, rfl⟩, hclean⟩⟩
  · rintro listed ⟨⟩
    exact ⟨_, List.mem_cons_self, by decide⟩

/-- A `tcp` rule without ports, and a prefix that does not start with `/`. -/
theorem dead_rules_accepted :
    (∃ rule converted, ConfigNetworkRule.intoLibrary (.tcp (.v4 ⟨0x01020304⟩) []) = .ok rule ∧
      ¬ HasTraffic rule ∧
      ConfigNetworkRule.intoLibrary (.http ⟨"a".toList, none, some ["v1".toList], none, [], none,
        none⟩) = .ok converted ∧ ¬ HasTraffic converted) ∧
    ¬ ∀ (rule : ConfigNetworkRule) (converted : NetworkRule),
      rule.intoLibrary = .ok converted → HasTraffic converted := by
  have htcp : ¬ HasTraffic (.tcp (.v4 ⟨0x01020304⟩) []) := by
    rintro ⟨host, port, hopens⟩
    exact List.not_mem_nil ((opens_tcp_iff _ _ _ _).mp hopens).2
  have hhttp : ¬ HasTraffic (.http ⟨.http, "a".toList, [80], some ["v1".toList], none, [], none,
      none⟩) := by
    rintro ⟨target, ⟨⟨below, hpath⟩, _⟩, hmatch⟩
    simp only [ruleMatches, hpath, Bool.and_eq_true] at hmatch
    obtain ⟨pre, hmem, hpre⟩ := (livePaths_iff _).mpr ⟨below, hmatch.1.2⟩ _ rfl
    obtain rfl := List.mem_singleton.mp hmem
    rcases hpre with hempty | ⟨⟨_, hstart⟩, _⟩
    · cases hempty
    · cases hstart
  refine ⟨⟨_, _, rfl, htcp, rfl, hhttp⟩, fun hall => ?_⟩
  exact htcp (hall (.tcp (.v4 ⟨0x01020304⟩) []) _ rfl)

end LiveRules
