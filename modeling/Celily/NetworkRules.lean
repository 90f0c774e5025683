import Celily.InternetAddresses

/-!
# Network rules

The allow list of an environment. `http` rules are enforced by the proxy, `tcp`
rules by the bridge ACL; the order of the list is the order of the configuration.
A hash map of static headers is the list of its entries in one iteration order.
-/

namespace NetworkRules

open RustText InternetAddresses

/-- `std::time::Duration`. -/
structure Duration where
  secs : UInt64
  nanos : Nat
  nanos_lt : nanos < 10 ^ 9

structure QuotaConfig where
  maxRequests : UInt64
  window : Duration

structure AuthConfig where
  secret : Text
  header : Text
  valuePrefix : Option Text

inductive HttpScheme where
  | http
  | https
  deriving DecidableEq

/-- The port of a URL with this scheme and none given. -/
def HttpScheme.defaultPort : HttpScheme → UInt16
  | .http => 80
  | .https => 443

structure HttpRule where
  scheme : HttpScheme
  host : Text
  ports : List UInt16
  pathPrefixes : Option (List Text)
  auth : Option AuthConfig
  headers : List (Text × Text)
  methods : Option (List Text)
  quota : Option QuotaConfig

inductive NetworkRule where
  | http (rule : HttpRule)
  | tcp (host : IpAddr) (ports : List UInt16)

/-- The resolved auth secrets, item name to value. -/
abbrev SecretMap := List (Text × Text)

def SecretMap.get (secrets : SecretMap) (name : Text) : Option Text := secrets.lookup name

/-- `format!("{}{secret}", auth.prefix.as_deref().unwrap_or_default())`. -/
def AuthConfig.value (auth : AuthConfig) (secret : Text) : Text :=
  auth.valuePrefix.getD [] ++ secret

end NetworkRules
