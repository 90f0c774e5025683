import Celily.PathPrefixes
import Celily.BridgeSubnets
import Celily.QuotaWindows
import Celily.HeaderMaps

/-!
# The proxy's request handler

Every request goes through the checks of `handleRequest` in order: client, host,
scheme, method override, first matching rule, quota. What is left is forwarded
with the headers of its rule. Indexing and `unreachable!` are explicit panics.
Clones of a handler share everything but a copy of the subnet, so one handler
value threaded through the requests stands for all of them.
-/

namespace ProxyHandler

open RustText InternetAddresses PathPrefixes BridgeSubnets NetworkRules QuotaWindows HeaderMaps

/-- Methods allowed by a rule that does not list any. -/
def defaultMethods : List Text := ["GET".toList, "HEAD".toList]

/-- Headers some servers read as the request method. -/
def methodOverrideHeaders : List Text :=
  ["x-http-method-override".toList, "x-http-method".toList, "x-method-override".toList]

structure SocketAddr where
  ip : IpAddr
  port : UInt16

structure HttpContext where
  remoteAddr : SocketAddr

structure Uri where
  schemeStr : Option Text
  host : Option Text
  portU16 : Option UInt16
  path : Text
  query : Option Text

structure RequestHead (H : Type) where
  method : Text
  uri : Uri
  headers : H

structure ProxyRequest (H B : Type) where
  head : RequestHead H
  body : B

inductive StatusCode where
  | badRequest
  | forbidden
  | tooManyRequests
  deriving DecidableEq

inductive RequestOrResponse (H B : Type) where
  | request (request : ProxyRequest H B)
  | response (status : StatusCode) (body : Text)

inductive Panic where
  | indexOutOfBounds
  | unreachableCode

/-- The quota windows stand beside the rules, one for each. -/
structure CelilyHandler where
  rules : List NetworkRule
  authSecrets : SecretMap
  quotas : List QuotaWindow
  subnet : BridgeSubnet
  quotas_length : quotas.length = rules.length

def CelilyHandler.new (rules : List NetworkRule) (authSecrets : SecretMap)
    (subnet : BridgeSubnet) : CelilyHandler where
  rules := rules
  authSecrets := authSecrets
  quotas := rules.map (fun _ => .default)
  subnet := subnet
  quotas_length := by simp

def CelilyHandler.setQuota (handler : CelilyHandler) (index : Nat) (window : QuotaWindow) :
    CelilyHandler where
  rules := handler.rules
  authSecrets := handler.authSecrets
  quotas := handler.quotas.set index window
  subnet := handler.subnet
  quotas_length := by simp [handler.quotas_length]

/-- What the rules are matched against. -/
structure Target where
  scheme : HttpScheme
  host : Text
  port : UInt16
  path : Text
  method : Text

def ruleMatches (rule : NetworkRule) (target : Target) : Bool :=
  match rule with
  | .tcp _ _ => false
  | .http rule =>
    target.scheme == rule.scheme && eqIgnoreAsciiCase target.host rule.host &&
      rule.ports.contains target.port && pathAllowed rule.pathPrefixes target.path &&
      (rule.methods.getD defaultMethods).any (fun m => eqIgnoreAsciiCase m target.method)

def httpScheme (schemeStr : Option Text) : Option HttpScheme :=
  if schemeStr = some "http".toList then some .http
  else if schemeStr = some "https".toList then some .https
  else none

section Handler
variable {H B : Type} [HeaderMap H]

def ProxyRequest.target (request : ProxyRequest H B) (host : Text) (scheme : HttpScheme) :
    Target where
  scheme := scheme
  host := host
  port := request.head.uri.portU16.getD scheme.defaultPort
  path := request.head.uri.path
  method := request.head.method

/-- Static headers first, then auth, so auth wins on a name clash. -/
def injectedHeaders (secrets : SecretMap) (rule : HttpRule) (headers : H) : H :=
  let headers := injectAll headers rule.headers
  match rule.auth with
  | none => headers
  | some auth =>
    match secrets.get auth.secret with
    | none => headers
    | some secret => inject headers (auth.header, auth.value secret)

def ProxyRequest.withHeaders (request : ProxyRequest H B) (headers : H) : ProxyRequest H B :=
  { request with head := { request.head with headers := headers } }

def CelilyHandler.takeQuota (handler : CelilyHandler) (index : Nat) (quota : Option QuotaConfig)
    (now : UInt64) : Except Panic (Bool × CelilyHandler) :=
  match quota with
  | none => .ok (true, handler)
  | some quota =>
    match handler.quotas[index]? with
    | none => .error .indexOutOfBounds
    | some window =>
      let taken := window.tryTake quota now
      .ok (taken.1, handler.setQuota index taken.2)

/-- The part of `handle_request` after a rule has been found. -/
def CelilyHandler.serve (handler : CelilyHandler) (now : UInt64) (request : ProxyRequest H B)
    (index : Nat) : Except Panic (RequestOrResponse H B × CelilyHandler) :=
  match handler.rules[index]? with
  | none => .error .indexOutOfBounds
  | some (.tcp _ _) => .error .unreachableCode
  | some (.http rule) => do
    let (allowed, handler) ← handler.takeQuota index rule.quota now
    if allowed then
      let headers := injectedHeaders handler.authSecrets rule request.head.headers
      return (.request (request.withHeaders headers), handler)
    else return (.response .tooManyRequests "Request quota exceeded\n".toList, handler)

def CelilyHandler.handleRequest (handler : CelilyHandler) (now : UInt64) (ctx : HttpContext)
    (request : ProxyRequest H B) : Except Panic (RequestOrResponse H B × CelilyHandler) :=
  if !handler.subnet.hasInstance ctx.remoteAddr.ip then
    .ok (.response .forbidden "Not a client of this proxy\n".toList, handler)
  else
    match request.head.uri.host with
    | none => .ok (.response .badRequest "request is missing a host\n".toList, handler)
    | some host =>
      match httpScheme request.head.uri.schemeStr with
      | none => .ok (.response .badRequest "request is not http or https\n".toList, handler)
      | some scheme =>
        if methodOverrideHeaders.any (containsKey request.head.headers) then
          .ok (.response .forbidden "Method override headers are not allowed\n".toList, handler)
        else
          let target := request.target host scheme
          match handler.rules.findIdx? (fun rule => ruleMatches rule target) with
          | none => .ok (.response .forbidden "Blocked by network policy\n".toList, handler)
          | some index => handler.serve now request index

end Handler

/-! ## Matching -/

/-- What a rule promises to let through. -/
structure Allows (rule : HttpRule) (target : Target) : Prop where
  scheme : rule.scheme = target.scheme
  host : eqIgnoreAsciiCase target.host rule.host = true
  port : target.port ∈ rule.ports
  path : pathAllowed rule.pathPrefixes target.path = true
  method : ∃ m ∈ rule.methods.getD ["GET".toList, "HEAD".toList],
    eqIgnoreAsciiCase m target.method = true

theorem ruleMatches_iff (rule : NetworkRule) (target : Target) :
    ruleMatches rule target = true ↔ ∃ http, rule = .http http ∧ Allows http target := by
  cases rule with
  | tcp host ports => simp [ruleMatches]
  | http rule =>
    simp only [ruleMatches, Bool.and_eq_true, beq_iff_eq, List.contains_iff_mem, List.any_eq_true,
      NetworkRule.http.injEq, exists_eq_left']
    constructor
    · rintro ⟨⟨⟨⟨hscheme, hhost⟩, hport⟩, hpath⟩, hmethod⟩
      exact ⟨hscheme.symm, hhost, hport, hpath, hmethod⟩
    · rintro ⟨hscheme, hhost, hport, hpath, hmethod⟩
      exact ⟨⟨⟨⟨hscheme.symm, hhost⟩, hport⟩, hpath⟩, hmethod⟩

/-- `rule` is the first of the list that lets the target through. -/
structure Selects (rules : List NetworkRule) (target : Target) (index : Nat) (rule : HttpRule) :
    Prop where
  rule_at : rules[index]? = some (.http rule)
  allows : Allows rule target
  first : ∀ j < index, ∀ earlier, rules[j]? = some (.http earlier) → ¬Allows earlier target

theorem findIdx_eq_some_iff (rules : List NetworkRule) (target : Target) (index : Nat) :
    rules.findIdx? (fun rule => ruleMatches rule target) = some index ↔
      ∃ rule, Selects rules target index rule := by
  rw [List.findIdx?_eq_some_iff_getElem]
  constructor
  · rintro ⟨hlt, hmatch, hfirst⟩
    obtain ⟨rule, hrule, hallows⟩ := (ruleMatches_iff _ _).mp hmatch
    refine ⟨rule, by rw [List.getElem?_eq_getElem hlt, hrule], hallows, ?_⟩
    intro j hj earlier hat hearlier
    obtain ⟨hjlt, hjat⟩ := List.getElem?_eq_some_iff.mp hat
    exact hfirst j hj (by rw [hjat]; exact (ruleMatches_iff _ _).mpr ⟨earlier, rfl, hearlier⟩)
  · rintro ⟨rule, hat, hallows, hfirst⟩
    obtain ⟨hlt, hrule⟩ := List.getElem?_eq_some_iff.mp hat
    refine ⟨hlt, by rw [hrule]; exact (ruleMatches_iff _ _).mpr ⟨rule, rfl, hallows⟩, ?_⟩
    intro j hj hmatch
    obtain ⟨earlier, hearlier, hallowed⟩ := (ruleMatches_iff _ _).mp hmatch
    exact hfirst j hj earlier (by rw [List.getElem?_eq_getElem (by omega), hearlier]) hallowed

/-! ## One request -/

/-- The scheme as the URI writes it. -/
def Uri.HasScheme (uri : Uri) : HttpScheme → Prop
  | .http => uri.schemeStr = some "http".toList
  | .https => uri.schemeStr = some "https".toList

/-- The explicit port, else the one that the scheme stands for. -/
def Uri.HasPort (uri : Uri) (port : UInt16) : HttpScheme → Prop
  | .http => uri.portU16 = some port ∨ uri.portU16 = none ∧ port = 80
  | .https => uri.portU16 = some port ∨ uri.portU16 = none ∧ port = 443

/-- What a request asks for, by its own words. -/
structure ProxyRequest.AsksFor {H B : Type} (request : ProxyRequest H B) (target : Target) :
    Prop where
  host : request.head.uri.host = some target.host
  scheme : request.head.uri.HasScheme target.scheme
  port : request.head.uri.HasPort target.port target.scheme
  path : target.path = request.head.uri.path
  method : target.method = request.head.method

/-- One of the headers is there that some servers take for the method. -/
def Overrides {H : Type} [HeaderMap H] (headers : H) : Prop :=
  ∃ name ∈ ["x-http-method-override".toList, "x-http-method".toList, "x-method-override".toList],
    containsKey headers name = true

/-- The checks before the rules: an instance asks, with a host and a scheme, and
without overriding its method. -/
structure Admitted {H B : Type} [HeaderMap H] (subnet : BridgeSubnet) (ctx : HttpContext)
    (request : ProxyRequest H B) (target : Target) : Prop where
  client : subnet.IsInstance ctx.remoteAddr.ip
  asks : request.AsksFor target
  method : ¬Overrides request.head.headers

theorem hasScheme_iff (uri : Uri) (scheme : HttpScheme) :
    uri.HasScheme scheme ↔ httpScheme uri.schemeStr = some scheme := by
  have hne : some "https".toList ≠ some "http".toList := by decide
  rw [httpScheme]
  by_cases hhttp : uri.schemeStr = some "http".toList
  · rw [if_pos hhttp]
    cases scheme with
    | http => exact iff_of_true hhttp rfl
    | https => exact iff_of_false (fun hhttps => hne (hhttps.symm.trans hhttp)) nofun
  rw [if_neg hhttp]
  by_cases hhttps : uri.schemeStr = some "https".toList
  · rw [if_pos hhttps]
    cases scheme with
    | http => exact iff_of_false hhttp nofun
    | https => exact iff_of_true hhttps rfl
  · rw [if_neg hhttps]
    cases scheme with
    | http => exact iff_of_false hhttp nofun
    | https => exact iff_of_false hhttps nofun

theorem noScheme_iff (uri : Uri) :
    (∀ scheme, ¬uri.HasScheme scheme) ↔ httpScheme uri.schemeStr = none := by
  rw [Option.eq_none_iff_forall_ne_some]
  exact forall_congr' fun scheme => not_congr (hasScheme_iff uri scheme)

theorem hasPort_iff (uri : Uri) (port : UInt16) (scheme : HttpScheme) :
    uri.HasPort port scheme ↔ port = uri.portU16.getD scheme.defaultPort := by
  cases hport : uri.portU16 with
  | none => cases scheme <;> simp [Uri.HasPort, hport, HttpScheme.defaultPort]
  | some explicit => cases scheme <;> simp [Uri.HasPort, hport, eq_comm]

/-- The code's target is the one that the request asks for. -/
theorem asksFor_iff {H B : Type} (request : ProxyRequest H B) (target : Target) :
    request.AsksFor target ↔ ∃ host scheme, request.head.uri.host = some host ∧
      httpScheme request.head.uri.schemeStr = some scheme ∧
      target = request.target host scheme := by
  constructor
  · intro asks
    refine ⟨target.host, target.scheme, asks.host, (hasScheme_iff _ _).mp asks.scheme, ?_⟩
    have hport := (hasPort_iff _ _ _).mp asks.port
    rw [ProxyRequest.target, ← hport, ← asks.path, ← asks.method]
  · rintro ⟨host, scheme, hhost, hscheme, rfl⟩
    exact ⟨hhost, (hasScheme_iff _ _).mpr hscheme, (hasPort_iff _ _ _).mpr rfl, rfl, rfl⟩

theorem overrides_iff {H : Type} [HeaderMap H] (headers : H) :
    Overrides headers ↔ methodOverrideHeaders.any (containsKey headers) = true :=
  List.any_eq_true.symm

/-- The rule has no quota, or its window has room. -/
def CelilyHandler.HasRoom (handler : CelilyHandler) (index : Nat) (rule : HttpRule)
    (now : UInt64) : Prop :=
  ∀ quota, rule.quota = some quota →
    ∃ window, handler.quotas[index]? = some window ∧ window.HasRoom quota now

theorem CelilyHandler.quota_at (handler : CelilyHandler) {index : Nat} {rule : NetworkRule}
    (hat : handler.rules[index]? = some rule) : ∃ window, handler.quotas[index]? = some window := by
  obtain ⟨hlt, _⟩ := List.getElem?_eq_some_iff.mp hat
  exact ⟨_, List.getElem?_eq_getElem (by rw [handler.quotas_length]; exact hlt)⟩

/-- The handler after a request has been counted, or refused, under its rule. -/
def CelilyHandler.count (handler : CelilyHandler) (index : Nat) (rule : HttpRule)
    (now : UInt64) : CelilyHandler :=
  match rule.quota, handler.quotas[index]? with
  | some quota, some window => handler.setQuota index (window.tryTake quota now).2
  | _, _ => handler

theorem takeQuota_spec (handler : CelilyHandler) {index : Nat} {rule : HttpRule}
    (hat : handler.rules[index]? = some (.http rule)) (now : UInt64) :
    ∃ allowed, handler.takeQuota index rule.quota now =
        .ok (allowed, handler.count index rule now) ∧
      (allowed = true ↔ handler.HasRoom index rule now) := by
  unfold CelilyHandler.takeQuota CelilyHandler.HasRoom CelilyHandler.count
  cases hquota : rule.quota with
  | none => exact ⟨true, rfl, by simp⟩
  | some quota =>
    obtain ⟨window, hwindow⟩ := handler.quota_at hat
    simp only [hwindow]
    have hroom := (tryTake_spec window quota now).2.1
    exact ⟨_, rfl, by simpa using hroom⟩

section Handler
variable {H B : Type} [HeaderMap H]

theorem handleRequest_admitted {handler : CelilyHandler} {now : UInt64} {ctx : HttpContext}
    {request : ProxyRequest H B} {target : Target}
    (admitted : Admitted handler.subnet ctx request target) :
    handler.handleRequest now ctx request =
      match handler.rules.findIdx? (fun rule => ruleMatches rule target) with
      | none => .ok (.response .forbidden "Blocked by network policy\n".toList, handler)
      | some index => handler.serve now request index := by
  have hclient := (hasInstance_iff _ _).mpr admitted.client
  have hmethod := admitted.method
  rw [overrides_iff, Bool.not_eq_true] at hmethod
  obtain ⟨host, scheme, hhost, hscheme, rfl⟩ := (asksFor_iff _ _).mp admitted.asks
  simp [CelilyHandler.handleRequest, hclient, hhost, hscheme, hmethod]

theorem serve_selected {handler : CelilyHandler} {index : Nat} {rule : HttpRule}
    (hat : handler.rules[index]? = some (.http rule)) (now : UInt64)
    (request : ProxyRequest H B) :
    ∃ allowed, (allowed = true ↔ handler.HasRoom index rule now) ∧
      handler.serve now request index =
        .ok (if allowed then
            .request (request.withHeaders
              (injectedHeaders (handler.count index rule now).authSecrets rule
                request.head.headers))
          else .response .tooManyRequests "Request quota exceeded\n".toList,
          handler.count index rule now) := by
  obtain ⟨allowed, htake, hroom⟩ := takeQuota_spec handler hat now
  refine ⟨allowed, hroom, ?_⟩
  simp only [CelilyHandler.serve, hat, htake]
  cases allowed <;> rfl

theorem count_authSecrets (handler : CelilyHandler) (index : Nat) (rule : HttpRule)
    (now : UInt64) : (handler.count index rule now).authSecrets = handler.authSecrets := by
  rw [CelilyHandler.count]
  split
  · rfl
  · rfl

/-- The answer to a request, the first check it fails in order of precedence, and the
handler it leaves. -/
inductive Gate (handler : CelilyHandler) (now : UInt64) (ctx : HttpContext)
    (request : ProxyRequest H B) : RequestOrResponse H B → CelilyHandler → Prop where
  | stranger : ¬handler.subnet.IsInstance ctx.remoteAddr.ip →
      Gate handler now ctx request
        (.response .forbidden "Not a client of this proxy\n".toList) handler
  | noHost : handler.subnet.IsInstance ctx.remoteAddr.ip →
      request.head.uri.host = none →
      Gate handler now ctx request
        (.response .badRequest "request is missing a host\n".toList) handler
  | noScheme (host : Text) : handler.subnet.IsInstance ctx.remoteAddr.ip →
      request.head.uri.host = some host → (∀ scheme, ¬request.head.uri.HasScheme scheme) →
      Gate handler now ctx request
        (.response .badRequest "request is not http or https\n".toList) handler
  | overridden (target : Target) : handler.subnet.IsInstance ctx.remoteAddr.ip →
      request.AsksFor target → Overrides request.head.headers →
      Gate handler now ctx request
        (.response .forbidden "Method override headers are not allowed\n".toList) handler
  | blocked (target : Target) : Admitted handler.subnet ctx request target →
      (∀ index rule, ¬Selects handler.rules target index rule) →
      Gate handler now ctx request
        (.response .forbidden "Blocked by network policy\n".toList) handler
  | exhausted (target : Target) (index : Nat) (rule : HttpRule) :
      Admitted handler.subnet ctx request target →
      Selects handler.rules target index rule → ¬handler.HasRoom index rule now →
      Gate handler now ctx request
        (.response .tooManyRequests "Request quota exceeded\n".toList)
        (handler.count index rule now)
  | forwarded (target : Target) (index : Nat) (rule : HttpRule) :
      Admitted handler.subnet ctx request target →
      Selects handler.rules target index rule → handler.HasRoom index rule now →
      Gate handler now ctx request
        (.request (request.withHeaders
          (injectedHeaders handler.authSecrets rule request.head.headers)))
        (handler.count index rule now)

theorem gate_total (handler : CelilyHandler) (now : UInt64) (ctx : HttpContext)
    (request : ProxyRequest H B) :
    ∃ answer handler', Gate handler now ctx request answer handler' := by
  by_cases hclient : handler.subnet.IsInstance ctx.remoteAddr.ip
  case neg => exact ⟨_, _, .stranger hclient⟩
  case pos =>
    cases hhost : request.head.uri.host with
    | none => exact ⟨_, _, .noHost hclient hhost⟩
    | some host =>
      cases hscheme : httpScheme request.head.uri.schemeStr with
      | none => exact ⟨_, _, .noScheme host hclient hhost ((noScheme_iff _).mpr hscheme)⟩
      | some scheme =>
        obtain ⟨target, asks⟩ : ∃ target, request.AsksFor target :=
          ⟨_, (asksFor_iff _ _).mpr ⟨host, scheme, hhost, hscheme, rfl⟩⟩
        by_cases hmethod : Overrides request.head.headers
        · exact ⟨_, _, .overridden target hclient asks hmethod⟩
        have admitted : Admitted handler.subnet ctx request target := ⟨hclient, asks, hmethod⟩
        by_cases hselects : ∃ index rule, Selects handler.rules target index rule
        · obtain ⟨index, rule, selects⟩ := hselects
          by_cases hroom : handler.HasRoom index rule now
          · exact ⟨_, _, .forwarded target index rule admitted selects hroom⟩
          · exact ⟨_, _, .exhausted target index rule admitted selects hroom⟩
        · exact ⟨_, _, .blocked target admitted
            (fun index rule selects => hselects ⟨index, rule, selects⟩)⟩

theorem handleRequest_selected {handler : CelilyHandler} (now : UInt64) {ctx : HttpContext}
    {request : ProxyRequest H B} {target : Target} {index : Nat} {rule : HttpRule}
    (admitted : Admitted handler.subnet ctx request target)
    (selects : Selects handler.rules target index rule) :
    handler.handleRequest now ctx request = handler.serve now request index := by
  rw [handleRequest_admitted admitted, (findIdx_eq_some_iff _ _ index).mpr ⟨rule, selects⟩]

/-- The code gives the answer of the table. -/
theorem Gate.runs {handler : CelilyHandler} {now : UInt64} {ctx : HttpContext}
    {request : ProxyRequest H B} {answer : RequestOrResponse H B} {handler' : CelilyHandler}
    (hgate : Gate handler now ctx request answer handler') :
    handler.handleRequest now ctx request = .ok (answer, handler') := by
  cases hgate with
  | stranger hclient =>
    rw [← hasInstance_iff] at hclient
    simp [CelilyHandler.handleRequest, hclient]
  | noHost hclient hhost =>
    rw [← hasInstance_iff] at hclient
    simp [CelilyHandler.handleRequest, hclient, hhost]
  | noScheme host hclient hhost hscheme =>
    rw [← hasInstance_iff] at hclient
    rw [noScheme_iff] at hscheme
    simp [CelilyHandler.handleRequest, hclient, hhost, hscheme]
  | overridden target hclient asks hmethod =>
    rw [← hasInstance_iff] at hclient
    rw [overrides_iff] at hmethod
    obtain ⟨host, scheme, hhost, hscheme, _⟩ := (asksFor_iff _ _).mp asks
    simp [CelilyHandler.handleRequest, hclient, hhost, hscheme, hmethod]
  | blocked target admitted hnone =>
    have hfind : handler.rules.findIdx? (fun rule => ruleMatches rule target) = none := by
      cases hfind : handler.rules.findIdx? (fun rule => ruleMatches rule target) with
      | none => rfl
      | some index =>
        obtain ⟨rule, selects⟩ := (findIdx_eq_some_iff _ _ index).mp hfind
        exact absurd selects (hnone index rule)
    rw [handleRequest_admitted admitted, hfind]
  | exhausted target index rule admitted selects hfull =>
    obtain ⟨allowed, hroom, hserve⟩ := serve_selected selects.rule_at now request
    have hdenied : allowed = false := by
      rw [← Bool.not_eq_true]
      exact fun h => hfull (hroom.mp h)
    subst hdenied
    rw [handleRequest_selected now admitted selects, hserve, count_authSecrets]
    rfl
  | forwarded target index rule admitted selects hfree =>
    obtain ⟨allowed, hroom, hserve⟩ := serve_selected selects.rule_at now request
    obtain rfl := hroom.mpr hfree
    rw [handleRequest_selected now admitted selects, hserve, count_authSecrets]
    rfl

/-- A request that was handled went through the gate. -/
theorem gate_of_run {handler : CelilyHandler} {now : UInt64} {ctx : HttpContext}
    {request : ProxyRequest H B} {answer : RequestOrResponse H B} {handler' : CelilyHandler}
    (hrun : handler.handleRequest now ctx request = .ok (answer, handler')) :
    Gate handler now ctx request answer handler' := by
  obtain ⟨_, _, hgate⟩ := gate_total handler now ctx request
  have hsame := Except.ok.inj (hgate.runs.symm.trans hrun)
  obtain ⟨rfl, rfl⟩ := Prod.mk.inj hsame
  exact hgate

theorem Gate.unique {handler : CelilyHandler} {now : UInt64} {ctx : HttpContext}
    {request : ProxyRequest H B} {a b : RequestOrResponse H B} {nextA nextB : CelilyHandler}
    (ha : Gate handler now ctx request a nextA) (hb : Gate handler now ctx request b nextB) :
    a = b ∧ nextA = nextB := by
  have hsame := Except.ok.inj (ha.runs.symm.trans hb.runs)
  exact ⟨(Prod.mk.inj hsame).1, (Prod.mk.inj hsame).2⟩

/-- The header names that a rule writes. -/
def headerNames (rule : HttpRule) : List Text :=
  rule.headers.map Prod.fst ++ (rule.auth.map AuthConfig.header).toList

theorem values_injectedHeaders_other [LawfulHeaderMap H] (secrets : SecretMap) (rule : HttpRule)
    (headers : H) {name : Text}
    (hother : ∀ n ∈ headerNames rule, eqIgnoreAsciiCase name n = false) :
    values (injectedHeaders secrets rule headers) name = values headers name := by
  have hstatic : values (injectAll headers rule.headers) name = values headers name := by
    apply values_injectAll_other
    intro entry hentry
    exact hother entry.1 (List.mem_append_left _ (List.mem_map_of_mem hentry))
  rw [injectedHeaders]
  cases hauth : rule.auth with
  | none => exact hstatic
  | some auth =>
    dsimp only
    cases secrets.get auth.secret with
    | none => exact hstatic
    | some secret =>
      rw [values_inject_other, hstatic]
      exact hother auth.header (List.mem_append_right _ (by simp [hauth]))

/-- Every request gets the answer of the first check it fails, and is forwarded
exactly when it fails none; no index is out of range and no arm unreachable. A
forwarded request is the client's but for the headers its rule names. -/
theorem handleRequest_gate [LawfulHeaderMap H] (handler : CelilyHandler) (now : UInt64)
    (ctx : HttpContext) (request : ProxyRequest H B) :
    ∃ answer handler', handler.handleRequest now ctx request = .ok (answer, handler') ∧
      Gate handler now ctx request answer handler' ∧
      ((∃ sent, answer = .request sent) ↔
        ∃ target index rule, Admitted handler.subnet ctx request target ∧
          Selects handler.rules target index rule ∧ handler.HasRoom index rule now) ∧
      ∀ sent, answer = .request sent →
        sent.head.method = request.head.method ∧ sent.head.uri = request.head.uri ∧
        sent.body = request.body ∧
        ∃ target index rule, Admitted handler.subnet ctx request target ∧
          Selects handler.rules target index rule ∧
          ∀ name, (∀ n ∈ headerNames rule, eqIgnoreAsciiCase name n = false) →
            values sent.head.headers name = values request.head.headers name := by
  obtain ⟨answer, handler', hgate⟩ := gate_total handler now ctx request
  refine ⟨answer, handler', hgate.runs, hgate, ⟨?_, ?_⟩, ?_⟩
  · rintro ⟨sent, rfl⟩
    cases hgate with
    | forwarded target index rule admitted selects hroom =>
      exact ⟨target, index, rule, admitted, selects, hroom⟩
  · rintro ⟨target, index, rule, admitted, selects, hroom⟩
    exact ⟨_, (hgate.unique (.forwarded target index rule admitted selects hroom)).1⟩
  · rintro sent rfl
    cases hgate with
    | forwarded target index rule admitted selects hroom =>
      exact ⟨rfl, rfl, rfl, target, index, rule, admitted, selects,
        fun name => values_injectedHeaders_other handler.authSecrets rule request.head.headers⟩

end Handler

def apiRule : HttpRule where
  scheme := .https
  host := "api.example.com".toList
  ports := [443]
  pathPrefixes := some ["/v1".toList]
  auth := some ⟨"api-key".toList, "Authorization".toList, some "Bearer ".toList⟩
  headers := []
  methods := none
  quota := none

def apiHandler : CelilyHandler :=
  .new [.tcp (.v4 ⟨0x01010101⟩) [443], .http apiRule] [("api-key".toList, "s3cret".toList)]
    ⟨⟨0x0a000001⟩, 24, by decide⟩

def apiContext : HttpContext := ⟨⟨.v4 ⟨0x0a000002⟩, 40000⟩⟩

def apiRequest : ProxyRequest HeaderList Bytes where
  head := {
    method := "GET".toList
    uri := ⟨some "https".toList, some "API.example.com".toList, none, "/v1/models".toList, none⟩
    headers := [("authorization".toList, utf8 "mine".toList)] }
  body := []

/-- What the example asks for. -/
def apiTarget : Target := apiRequest.target "API.example.com".toList .https

theorem apiRequest_admitted : Admitted apiHandler.subnet apiContext apiRequest apiTarget := by
  have hmethod : methodOverrideHeaders.any (containsKey apiRequest.head.headers) = false := by
    decide
  refine ⟨(hasInstance_iff _ _).mp (by decide), ⟨rfl, rfl, Or.inr ⟨rfl, rfl⟩, rfl, rfl⟩, ?_⟩
  rw [overrides_iff, hmethod]
  exact Bool.false_ne_true

theorem apiRequest_selects : Selects apiHandler.rules apiTarget 1 apiRule := by
  refine ⟨rfl, ⟨rfl, by decide, by decide, by decide, by decide⟩, ?_⟩
  intro j hj earlier hat
  obtain rfl : j = 0 := by omega
  cases hat

theorem handleRequest_gate_api : ∃ sent handler',
    apiHandler.handleRequest 0 apiContext apiRequest = .ok (.request sent, handler') ∧
      sent.head.uri = apiRequest.head.uri := by
  obtain ⟨answer, handler', hrun, _, hforward, hsame⟩ :=
    handleRequest_gate apiHandler 0 apiContext apiRequest
  obtain ⟨sent, rfl⟩ := hforward.mpr ⟨apiTarget, 1, apiRule, apiRequest_admitted,
    apiRequest_selects, by intro quota hquota; cases hquota⟩
  exact ⟨sent, handler', hrun, (hsame sent rfl).2.1⟩

end ProxyHandler
