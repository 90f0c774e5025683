import Celily.NetworkRules
import Celily.SegmentedLists
import Mathlib.Data.List.Forall2

/-!
# The egress ACL of a bridge

From the allow list to bridge parameters, to ACL rules, to the arguments of
`lxc network acl rule add`, and back: `readRule` reads the arguments as LXD does,
where an absent or empty filter means any. `Allowed` is what the printed rules let
out: the TCP policy and nothing else.
-/

namespace EgressAcl

open RustText SegmentedLists InternetAddresses NetworkRules

/-- The fixed TCP port of the HTTP proxy. -/
def proxyPort : UInt16 := 34975

/-- The fixed UDP port of the DNS proxy. -/
def dnsPort : UInt16 := proxyPort + 1

/-- A single TCP allow rule for the bridge egress ACL. -/
structure TcpAllow where
  host : IpAddr
  ports : List UInt16

structure CreateBridgeParams where
  keep : Bool
  proxyPort : UInt16
  dnsPort : UInt16
  allowTcp : List TcpAllow

def tcpAllow : NetworkRule → Option TcpAllow
  | .tcp host ports => if ports.isEmpty then none else some ⟨host, ports⟩
  | .http _ => none

def toCreateBridgeParams (allow : List NetworkRule) (keep : Bool) : CreateBridgeParams where
  keep := keep
  proxyPort := proxyPort
  dnsPort := dnsPort
  allowTcp := allow.filterMap tcpAllow

inductive Direction where
  | ingress
  | egress
  deriving DecidableEq

inductive Action where
  | allow
  | deny
  | reject
  deriving DecidableEq

inductive Protocol where
  | tcp
  | udp
  | icmp
  | icmp6
  deriving DecidableEq

def Direction.display : Direction → Text
  | .ingress => "ingress".toList
  | .egress => "egress".toList

def Action.display : Action → Text
  | .allow => "allow".toList
  | .deny => "deny".toList
  | .reject => "reject".toList

def Protocol.display : Protocol → Text
  | .tcp => "tcp".toList
  | .udp => "udp".toList
  | .icmp => "icmp".toList
  | .icmp6 => "icmp6".toList

/-- A single ACL rule; `none` fields match any. -/
structure NetworkAclRule where
  direction : Direction
  action : Action
  protocol : Option Protocol
  source : Option Text
  destination : Option Text
  sourcePort : Option Text
  destinationPort : Option Text

/-- `format!("{key}={value}")`. -/
def keyValue (key : String) (value : Text) : Text := key.toList ++ '=' :: value

def ruleToCliArgs (rule : NetworkAclRule) : List Text :=
  [rule.direction.display, keyValue "action" rule.action.display] ++
    (rule.protocol.map (fun protocol => keyValue "protocol" protocol.display)).toList ++
    (rule.source.map (keyValue "source")).toList ++
    (rule.destination.map (keyValue "destination")).toList ++
    (rule.sourcePort.map (keyValue "source_port")).toList ++
    (rule.destinationPort.map (keyValue "destination_port")).toList

/-- The rule literal of `build_rules_from_params`. -/
def egressRule (protocol : Protocol) (destination destinationPort : Text) : NetworkAclRule where
  direction := .egress
  action := .allow
  protocol := some protocol
  source := none
  destination := some destination
  sourcePort := none
  destinationPort := some destinationPort

def portText (port : UInt16) : Text := decimal port.toNat

def portList (ports : List UInt16) : Text := [','].intercalate (ports.map portText)

def buildRulesFromParams (params : CreateBridgeParams) (gatewayIp : Text) : List NetworkAclRule :=
  [egressRule .tcp gatewayIp (portText params.proxyPort),
    egressRule .udp gatewayIp "53".toList,
    egressRule .tcp gatewayIp "53".toList] ++
  params.allowTcp.map (fun tcp => egressRule .tcp tcp.host.display (portList tcp.ports))

example : ruleToCliArgs (egressRule .udp "10.0.0.1".toList "53".toList) =
    ["egress".toList, "action=allow".toList, "protocol=udp".toList,
      "destination=10.0.0.1".toList, "destination_port=53".toList] := by decide

/-! ## LXD's reading -/

structure Packet where
  protocol : Protocol
  source : IpAddr
  destination : IpAddr
  sourcePort : UInt16
  destinationPort : UInt16

/-- What a rule was read as; `none` means any. -/
structure AclFilter where
  direction : Direction
  action : Option Action
  protocol : Option Protocol
  source : Option IpAddr
  destination : Option IpAddr
  sourcePort : Option (List UInt16)
  destinationPort : Option (List UInt16)
  deriving DecidableEq

def readDirection (s : Text) : Option Direction :=
  [Direction.ingress, .egress].find? (fun direction => direction.display == s)

def readAction (s : Text) : Option Action :=
  [Action.allow, .deny, .reject].find? (fun action => action.display == s)

def readProtocol (s : Text) : Option Protocol :=
  [Protocol.tcp, .udp, .icmp, .icmp6].find? (fun protocol => protocol.display == s)

def readPort (s : Text) : Option UInt16 :=
  ((digitsValue s).filter (· < 65536)).map UInt16.ofNat

def readPortList (s : Text) : Option (List UInt16) := (s.splitOn ',').mapM readPort

/-- An empty value filters nothing, a malformed one is an error. -/
def readFilter {α : Type} (read : Text → Option α) (value : Text) : Option (Option α) :=
  if value = [] then some none else (read value).map some

def readKey (rule : AclFilter) (key value : Text) : Option AclFilter :=
  if key = "action".toList then
    (readFilter readAction value).map (fun v => { rule with action := v })
  else if key = "protocol".toList then
    (readFilter readProtocol value).map (fun v => { rule with protocol := v })
  else if key = "source".toList then
    (readFilter parseIpAddr value).map (fun v => { rule with source := v })
  else if key = "destination".toList then
    (readFilter parseIpAddr value).map (fun v => { rule with destination := v })
  else if key = "source_port".toList then
    (readFilter readPortList value).map (fun v => { rule with sourcePort := v })
  else if key = "destination_port".toList then
    (readFilter readPortList value).map (fun v => { rule with destinationPort := v })
  else none

def readPair (rule : AclFilter) (arg : Text) : Option AclFilter :=
  (splitOnce '=' arg).bind (fun pair => readKey rule pair.1 pair.2)

/-- The direction, then `key=value` pairs. -/
def readRule : List Text → Option AclFilter
  | [] => none
  | direction :: pairs => do
    let direction ← readDirection direction
    pairs.foldlM readPair ⟨direction, none, none, none, none, none, none⟩

structure AclFilter.Matches (rule : AclFilter) (packet : Packet) : Prop where
  direction : rule.direction = .egress
  protocol : ∀ protocol, rule.protocol = some protocol → packet.protocol = protocol
  source : ∀ ip, rule.source = some ip → packet.source = ip
  destination : ∀ ip, rule.destination = some ip → packet.destination = ip
  sourcePort : ∀ ports, rule.sourcePort = some ports → packet.sourcePort ∈ ports
  destinationPort : ∀ ports, rule.destinationPort = some ports → packet.destinationPort ∈ ports

/-- An egress packet gets through an ACL when a rule allows it and no rule that it
matches does anything else; unmatched egress is rejected. -/
def Allowed (acl : List (List Text)) (packet : Packet) : Prop :=
  (∃ args ∈ acl, ∃ rule, readRule args = some rule ∧ rule.action = some .allow ∧
    rule.Matches packet) ∧
  ∀ args ∈ acl, ∀ rule, readRule args = some rule → rule.Matches packet →
    rule.action = some .allow

/-! ## Reading what was printed -/

theorem readPair_keyValue {key : String} (hkey : '=' ∉ key.toList) (rule : AclFilter)
    (value : Text) : readPair rule (keyValue key value) = readKey rule key.toList value := by
  rw [readPair, keyValue, splitOnce_append hkey]
  rfl

theorem readPort_portText (port : UInt16) : readPort (portText port) = some port := by
  have hlt : port.toNat < 65536 := port.toNat_lt
  simp [readPort, portText, digitsValue_decimal, hlt]

theorem readPortList_portList {ports : List UInt16} (hne : ports ≠ []) :
    readPortList (portList ports) = some ports := by
  have hsplit : (portList ports).splitOn ',' = ports.map portText := by
    apply List.splitOn_intercalate
    · intro s hs
      obtain ⟨port, _, rfl⟩ := List.mem_map.mp hs
      exact notMem_decimal (by decide)
    · simpa using hne
  rw [readPortList, hsplit]
  exact mapM_map_of_forall (fun port _ => readPort_portText port)

/-- A text that is read as something is not empty. -/
theorem readFilter_eq {α : Type} {read : Text → Option α} {value : Text} {a : α}
    (hread : read value = some a) (hempty : read [] = none) :
    readFilter read value = some (some a) := by
  have hne : value ≠ [] := by
    rintro rfl
    rw [hempty] at hread
    cases hread
  rw [readFilter, if_neg hne, hread]
  rfl

theorem readRule_egressRule (protocol : Protocol) (ip : IpAddr) {portText : Text}
    {ports : List UInt16} (hports : readPortList portText = some ports) :
    readRule (ruleToCliArgs (egressRule protocol ip.display portText)) =
      some ⟨.egress, some .allow, some protocol, none, some ip, none, some ports⟩ := by
  have hdirection : readDirection (Direction.egress).display = some .egress := by decide
  have haction : readFilter readAction (Action.allow).display = some (some .allow) := by decide
  have hprotocol : readFilter readProtocol protocol.display = some (some protocol) := by
    cases protocol <;> decide
  have hip := readFilter_eq (parse_display ip) (by decide)
  have hport := readFilter_eq hports (by decide)
  simp only [ruleToCliArgs, egressRule, Option.map_some, Option.map_none, Option.toList_some,
    Option.toList_none, List.cons_append, List.nil_append, List.append_nil, readRule, hdirection,
    List.foldlM_cons, List.foldlM_nil, Option.bind_eq_bind, Option.bind_some]
  rw [readPair_keyValue (by decide), readKey, if_pos rfl, haction]
  simp only [Option.map_some, Option.bind_some]
  rw [readPair_keyValue (by decide), readKey, if_neg (by decide), if_pos rfl, hprotocol]
  simp only [Option.map_some, Option.bind_some]
  rw [readPair_keyValue (by decide), readKey, if_neg (by decide), if_neg (by decide),
    if_neg (by decide), if_pos rfl, hip]
  simp only [Option.map_some, Option.bind_some]
  rw [readPair_keyValue (by decide), readKey, if_neg (by decide), if_neg (by decide),
    if_neg (by decide), if_neg (by decide), if_neg (by decide), if_pos rfl, hport]
  rfl

/-! ## What the printed rules let out -/

/-- The arguments of every rule of a bridge's ACL. -/
def printedAcl (allow : List NetworkRule) (keep : Bool) (gateway : IpAddr) : List (List Text) :=
  (buildRulesFromParams (toCreateBridgeParams allow keep) gateway.display).map ruleToCliArgs

/-- A protocol, an address and ports that a rule opens. -/
structure Opening where
  protocol : Protocol
  destination : IpAddr
  ports : List UInt16

def Opening.filter (opening : Opening) : AclFilter :=
  ⟨.egress, some .allow, some opening.protocol, none, some opening.destination, none,
    some opening.ports⟩

def openings (allow : List NetworkRule) (gateway : IpAddr) : List Opening :=
  [⟨.tcp, gateway, [proxyPort]⟩, ⟨.udp, gateway, [53]⟩, ⟨.tcp, gateway, [53]⟩] ++
    (allow.filterMap tcpAllow).map (fun tcp => ⟨.tcp, tcp.host, tcp.ports⟩)

theorem tcpAllow_eq_some {rule : NetworkRule} {tcp : TcpAllow} :
    tcpAllow rule = some tcp ↔ rule = .tcp tcp.host tcp.ports ∧ tcp.ports ≠ [] := by
  cases rule with
  | http rule => simp [tcpAllow]
  | tcp host ports =>
    cases ports with
    | nil =>
      simp only [tcpAllow, List.isEmpty_nil, if_true, reduceCtorEq, NetworkRule.tcp.injEq,
        false_iff]
      rintro ⟨⟨_, hports⟩, hne⟩
      exact hne hports.symm
    | cons port ports =>
      simp only [tcpAllow, List.isEmpty_cons, Bool.false_eq_true, if_false, Option.some.injEq,
        NetworkRule.tcp.injEq]
      constructor
      · rintro rfl
        exact ⟨⟨rfl, rfl⟩, List.cons_ne_nil _ _⟩
      · rintro ⟨⟨rfl, hports⟩, _⟩
        rw [hports]

/-- Each printed rule is read as its opening. -/
theorem map_readRule_printedAcl (allow : List NetworkRule) (keep : Bool) (gateway : IpAddr) :
    (printedAcl allow keep gateway).map readRule =
      (openings allow gateway).map (fun opening => some opening.filter) := by
  have hproxy : readPortList (portText proxyPort) = some [proxyPort] :=
    readPortList_portList (List.cons_ne_nil proxyPort [])
  have hdns : readPortList "53".toList = some [53] := by decide
  have htcp : ∀ tcp ∈ allow.filterMap tcpAllow,
      readRule (ruleToCliArgs (egressRule .tcp tcp.host.display (portList tcp.ports))) =
        some (Opening.filter ⟨.tcp, tcp.host, tcp.ports⟩) := by
    intro tcp hmem
    obtain ⟨rule, _, hrule⟩ := List.mem_filterMap.mp hmem
    exact readRule_egressRule .tcp tcp.host
      (readPortList_portList (tcpAllow_eq_some.mp hrule).2)
  simp only [printedAcl, buildRulesFromParams, toCreateBridgeParams, openings, List.map_append,
    List.map_cons, List.map_nil, List.map_map, readRule_egressRule _ gateway hproxy,
    readRule_egressRule _ gateway hdns]
  refine congrArg₂ (· ++ ·) rfl (List.map_congr_left ?_)
  exact htcp

theorem filter_matches_iff (opening : Opening) (packet : Packet) :
    opening.filter.Matches packet ↔ packet.protocol = opening.protocol ∧
      packet.destination = opening.destination ∧ packet.destinationPort ∈ opening.ports := by
  constructor
  · intro h
    exact ⟨h.protocol _ rfl, h.destination _ rfl, h.destinationPort _ rfl⟩
  · rintro ⟨hprotocol, hdestination, hport⟩
    refine ⟨rfl, ?_, ?_, ?_, ?_, ?_⟩
    · rintro _ ⟨⟩
      exact hprotocol
    · rintro _ ⟨⟩
    · rintro _ ⟨⟩
      exact hdestination
    · rintro _ ⟨⟩
    · rintro _ ⟨⟩
      exact hport

theorem readRule_mem_printedAcl {allow : List NetworkRule} {keep : Bool} {gateway : IpAddr}
    {args : List Text} (hargs : args ∈ printedAcl allow keep gateway) :
    ∃ opening ∈ openings allow gateway, readRule args = some opening.filter := by
  have hread := List.mem_map_of_mem (f := readRule) hargs
  rw [map_readRule_printedAcl] at hread
  obtain ⟨opening, hopening, hsame⟩ := List.mem_map.mp hread
  exact ⟨opening, hopening, hsame.symm⟩

theorem allowed_iff_opening (allow : List NetworkRule) (keep : Bool) (gateway : IpAddr)
    (packet : Packet) :
    Allowed (printedAcl allow keep gateway) packet ↔
      ∃ opening ∈ openings allow gateway, opening.filter.Matches packet := by
  constructor
  · rintro ⟨⟨args, hargs, rule, hread, _, hmatch⟩, _⟩
    obtain ⟨opening, hopening, hfilter⟩ := readRule_mem_printedAcl hargs
    rw [hfilter] at hread
    cases hread
    exact ⟨opening, hopening, hmatch⟩
  · rintro ⟨opening, hopening, hmatch⟩
    have hmem := List.mem_map_of_mem (f := fun o : Opening => some o.filter) hopening
    rw [← map_readRule_printedAcl allow keep] at hmem
    obtain ⟨args, hargs, hread⟩ := List.mem_map.mp hmem
    refine ⟨⟨args, hargs, opening.filter, hread, rfl, hmatch⟩, ?_⟩
    intro args hargs rule hread _
    obtain ⟨other, _, hfilter⟩ := readRule_mem_printedAcl hargs
    rw [hfilter] at hread
    cases hread
    rfl

/-- The TCP policy: the proxy and the DNS of the gateway, and what the `tcp` rules
list. -/
inductive Policy (allow : List NetworkRule) (gateway : IpAddr) (packet : Packet) : Prop where
  | proxy : packet.protocol = .tcp → packet.destination = gateway →
      packet.destinationPort = proxyPort → Policy allow gateway packet
  | dns : packet.protocol = .tcp ∨ packet.protocol = .udp → packet.destination = gateway →
      packet.destinationPort = 53 → Policy allow gateway packet
  | rule (host : IpAddr) (ports : List UInt16) : .tcp host ports ∈ allow →
      packet.protocol = .tcp → packet.destination = host → packet.destinationPort ∈ ports →
      Policy allow gateway packet

theorem opening_iff_policy (allow : List NetworkRule) (gateway : IpAddr) (packet : Packet) :
    (∃ opening ∈ openings allow gateway, opening.filter.Matches packet) ↔
      Policy allow gateway packet := by
  simp only [filter_matches_iff]
  constructor
  · rintro ⟨opening, hopening, hprotocol, hdestination, hport⟩
    simp only [openings, List.cons_append, List.nil_append, List.mem_cons, List.mem_map,
      List.mem_filterMap] at hopening
    rcases hopening with rfl | rfl | rfl | ⟨tcp, ⟨rule, hrule, htcp⟩, rfl⟩
    · exact .proxy hprotocol hdestination (List.mem_singleton.mp hport)
    · exact .dns (Or.inr hprotocol) hdestination (List.mem_singleton.mp hport)
    · exact .dns (Or.inl hprotocol) hdestination (List.mem_singleton.mp hport)
    · obtain ⟨rfl, _⟩ := tcpAllow_eq_some.mp htcp
      exact .rule tcp.host tcp.ports hrule hprotocol hdestination hport
  · intro policy
    cases policy with
    | proxy hprotocol hdestination hport =>
      exact ⟨⟨.tcp, gateway, [proxyPort]⟩, by simp [openings], hprotocol, hdestination,
        List.mem_singleton.mpr hport⟩
    | dns hprotocol hdestination hport =>
      rcases hprotocol with hprotocol | hprotocol
      · exact ⟨⟨.tcp, gateway, [53]⟩, by simp [openings], hprotocol, hdestination,
          List.mem_singleton.mpr hport⟩
      · exact ⟨⟨.udp, gateway, [53]⟩, by simp [openings], hprotocol, hdestination,
          List.mem_singleton.mpr hport⟩
    | rule host ports hrule hprotocol hdestination hport =>
      have htcp : tcpAllow (.tcp host ports) = some ⟨host, ports⟩ :=
        tcpAllow_eq_some.mpr ⟨rfl, List.ne_nil_of_mem hport⟩
      refine ⟨⟨.tcp, host, ports⟩, ?_, hprotocol, hdestination, hport⟩
      refine List.mem_append_right _ (List.mem_map.mpr ⟨⟨host, ports⟩, ?_, rfl⟩)
      exact List.mem_filterMap.mpr ⟨_, hrule, htcp⟩

/-- The printed ACL lets out exactly the TCP policy. Every printed rule is read, with
a protocol, an address and at least one port; a rule that is no `tcp` rule with ports
prints nothing. -/
theorem allowed_iff (allow : List NetworkRule) (keep : Bool) (gateway : IpAddr) :
    (∀ packet, Allowed (printedAcl allow keep gateway) packet ↔ Policy allow gateway packet) ∧
    (∀ args ∈ printedAcl allow keep gateway, ∃ protocol destination ports, ports ≠ [] ∧
      readRule args = some ⟨.egress, some .allow, some protocol, none, some destination, none,
        some ports⟩) ∧
    ∀ a rule b, allow = a ++ rule :: b → (∀ host ports, rule = .tcp host ports → ports = []) →
      printedAcl allow keep gateway = printedAcl (a ++ b) keep gateway := by
  refine ⟨?_, ?_, ?_⟩
  · intro packet
    rw [allowed_iff_opening, opening_iff_policy]
  · intro args hargs
    obtain ⟨opening, hopening, hread⟩ := readRule_mem_printedAcl hargs
    refine ⟨opening.protocol, opening.destination, opening.ports, ?_, hread⟩
    simp only [openings, List.cons_append, List.nil_append, List.mem_cons, List.mem_map,
      List.mem_filterMap] at hopening
    rcases hopening with rfl | rfl | rfl | ⟨tcp, ⟨rule, _, htcp⟩, rfl⟩
    · exact List.cons_ne_nil _ _
    · exact List.cons_ne_nil _ _
    · exact List.cons_ne_nil _ _
    · exact (tcpAllow_eq_some.mp htcp).2
  · rintro a rule b rfl hclosed
    have hnone : tcpAllow rule = none := by
      cases hrule : tcpAllow rule with
      | none => rfl
      | some tcp =>
        obtain ⟨hsame, hne⟩ := tcpAllow_eq_some.mp hrule
        exact absurd (hclosed _ _ hsame) hne
    simp [printedAcl, toCreateBridgeParams, hnone]

end EgressAcl
