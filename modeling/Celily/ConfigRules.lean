import Celily.HostFiles
import Celily.NetworkRules

/-!
# Allow rules as the configuration has them

What is deserialized of `[[network.allow]]`, and its conversion to the rules that the
proxy and the bridge enforce.
-/

namespace ConfigRules

open RustText HostFiles InternetAddresses NetworkRules

inductive ConfigError where
  | io (path : Bytes) (source : Text)
  | parse (path : Bytes) (source : Text)
  | validation (message : Text)

/-- The messages of an error and its sources. -/
def ConfigError.chain : ConfigError → List Text
  | .io path source => ["failed to read ".toList ++ display path ++ ": ".toList ++ source, source]
  | .parse path source =>
    ["failed to parse ".toList ++ display path ++ ": ".toList ++ source, source]
  | .validation message => [message]

structure ConfigQuotaConfig where
  maxRequests : UInt64
  window : Duration

/-- The keys of an `http` or `https` rule. -/
structure ConfigHttpRule where
  host : Text
  ports : Option (List UInt16)
  pathPrefixes : Option (List Text)
  auth : Option AuthConfig
  headers : List (Text × Text)
  methods : Option (List Text)
  quota : Option ConfigQuotaConfig

inductive ConfigNetworkRule where
  | http (rule : ConfigHttpRule)
  | https (rule : ConfigHttpRule)
  | tcp (host : IpAddr) (ports : List UInt16)

def ConfigQuotaConfig.intoLibrary (quota : ConfigQuotaConfig) : Except ConfigError QuotaConfig :=
  if quota.maxRequests = 0 then .error (.validation "max_requests must be > 0".toList)
  else .ok ⟨quota.maxRequests, quota.window⟩

/-- An empty list would read as "none", and mean another thing. -/
def rejectEmpty {α : Type} (host key : Text) (list : Option (List α)) : Except ConfigError Unit :=
  if list.any List.isEmpty then
    .error (.validation ("allow rule for ".toList ++ host ++ ": ".toList ++ key ++
      " is empty (leave it out for the default)".toList))
  else .ok ()

/-- A port is not part of the host that a request is matched on. -/
def rejectPort (host : Text) : Except ConfigError Unit :=
  if host.contains ':' && host.getLast? ≠ some ']' then
    .error (.validation ("allow rule for ".toList ++ host ++
      ": host has a port, list it in `ports` instead".toList))
  else .ok ()

def ConfigHttpRule.intoLibrary (rule : ConfigHttpRule) (scheme : HttpScheme) :
    Except ConfigError NetworkRule := do
  rejectEmpty rule.host "path_prefixes".toList rule.pathPrefixes
  rejectEmpty rule.host "methods".toList rule.methods
  rejectEmpty rule.host "ports".toList rule.ports
  rejectPort rule.host
  let quota ← match rule.quota with
    | none => pure none
    | some quota => some <$> quota.intoLibrary
  pure (.http
    { scheme := scheme
      host := rule.host
      ports := rule.ports.getD [scheme.defaultPort]
      pathPrefixes := rule.pathPrefixes
      auth := rule.auth
      headers := rule.headers
      methods := rule.methods
      quota := quota })

def ConfigNetworkRule.intoLibrary : ConfigNetworkRule → Except ConfigError NetworkRule
  | .http rule => rule.intoLibrary .http
  | .https rule => rule.intoLibrary .https
  | .tcp host ports => .ok (.tcp host ports)

end ConfigRules
