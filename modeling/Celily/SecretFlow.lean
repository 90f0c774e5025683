import Celily.ProxyHandler
import Mathlib.Data.List.Forall2

/-!
# Where the secrets go

Two runs of one handler over the same requests, which differ in the values of the
secrets only. They give the same answers and the same quota states, and two
forwarded requests differ in the auth header of their rule at most: a secret leaves
under a rule that names it, to the host, port and scheme of that rule.
-/

namespace SecretFlow

open RustText NetworkRules HeaderMaps ProxyHandler

/-- A request as it comes in at some clone of the handler. -/
structure Arrival (H B : Type) where
  now : UInt64
  ctx : HttpContext
  request : ProxyRequest H B

/-- A request and its answer. -/
structure Exchange (H B : Type) where
  arrival : Arrival H B
  answer : RequestOrResponse H B

variable {H B : Type} [HeaderMap H]

/-- All requests in the order in which they reach the quota lock. -/
def run (handler : CelilyHandler) :
    List (Arrival H B) → Except Panic (List (Exchange H B) × CelilyHandler)
  | [] => .ok ([], handler)
  | arrival :: arrivals => do
    let (answer, handler) ← handler.handleRequest arrival.now arrival.ctx arrival.request
    let (log, handler) ← run handler arrivals
    return (⟨arrival, answer⟩ :: log, handler)

def withSecrets (handler : CelilyHandler) (secrets : SecretMap) : CelilyHandler :=
  { handler with authSecrets := secrets }

/-- A request that goes out under `rule`: the rule is the first to match it, and its
host, its port and its scheme are the rule's. -/
structure Under (rules : List NetworkRule) (request : ProxyRequest H B) (rule : HttpRule) :
    Prop where
  selected : ∃ target index, request.AsksFor target ∧ Selects rules target index rule
  host : ∃ host, request.head.uri.host = some host ∧ eqIgnoreAsciiCase host rule.host = true
  port : ∃ port ∈ rule.ports, request.head.uri.HasPort port rule.scheme
  scheme : request.head.uri.HasScheme rule.scheme

/-- The headers agree outside the header that the rule's auth names. -/
def AgreeOutsideAuth (rule : HttpRule) (a b : H) : Prop :=
  ∀ name, (∀ auth, rule.auth = some auth → eqIgnoreAsciiCase name auth.header = false) →
    values a name = values b name

/-- Two answers to one request under the secrets `a` and `b`. -/
inductive Alike (rules : List NetworkRule) (a b : SecretMap) (arrival : Arrival H B) :
    RequestOrResponse H B → RequestOrResponse H B → Prop where
  | response (status : StatusCode) (body : Text) :
      Alike rules a b arrival (.response status body) (.response status body)
  | request (rule : HttpRule) (headersA headersB : H) : Under rules arrival.request rule →
      AgreeOutsideAuth rule headersA headersB →
      ((∀ auth, rule.auth = some auth → a.get auth.secret = b.get auth.secret) →
        headersA = headersB) →
      Alike rules a b arrival (.request (arrival.request.withHeaders headersA))
        (.request (arrival.request.withHeaders headersB))

theorem count_withSecrets (handler : CelilyHandler) (secrets : SecretMap) (index : Nat)
    (rule : HttpRule) (now : UInt64) :
    (withSecrets handler secrets).count index rule now =
      withSecrets (handler.count index rule now) secrets := by
  unfold CelilyHandler.count
  cases rule.quota with
  | none => rfl
  | some quota =>
    dsimp only [withSecrets]
    cases handler.quotas[index]? with
    | none => rfl
    | some window => rfl

theorem under_of_selects {handler : CelilyHandler} {ctx : HttpContext} {request : ProxyRequest H B}
    {target : Target} {index : Nat} {rule : HttpRule}
    (admitted : Admitted handler.subnet ctx request target)
    (selects : Selects handler.rules target index rule) : Under handler.rules request rule := by
  have hscheme : rule.scheme = target.scheme := selects.allows.scheme
  refine ⟨⟨target, index, admitted.asks, selects⟩,
    ⟨target.host, admitted.asks.host, selects.allows.host⟩,
    ⟨target.port, selects.allows.port, ?_⟩, ?_⟩
  · rw [hscheme]
    exact admitted.asks.port
  · rw [hscheme]
    exact admitted.asks.scheme

/-- A URI has one scheme. -/
theorem hasScheme_unique {uri : Uri} {a b : HttpScheme} (ha : uri.HasScheme a)
    (hb : uri.HasScheme b) : a = b := by
  rw [hasScheme_iff] at ha hb
  exact Option.some.inj (ha.symm.trans hb)

/-- Outside the auth header only the static headers are written. -/
theorem values_injectedHeaders [LawfulHeaderMap H] (secrets : SecretMap) (rule : HttpRule)
    (headers : H) {name : Text}
    (hother : ∀ auth, rule.auth = some auth → eqIgnoreAsciiCase name auth.header = false) :
    values (injectedHeaders secrets rule headers) name =
      values (injectAll headers rule.headers) name := by
  rw [injectedHeaders]
  cases hauth : rule.auth with
  | none => rfl
  | some auth =>
    dsimp only
    cases secrets.get auth.secret with
    | none => rfl
    | some secret => exact values_inject_other _ _ (hother auth hauth)

theorem injectedHeaders_alike [LawfulHeaderMap H] (rule : HttpRule) (a b : SecretMap)
    (headers : H) :
    AgreeOutsideAuth rule (injectedHeaders a rule headers) (injectedHeaders b rule headers) ∧
      ((∀ auth, rule.auth = some auth → a.get auth.secret = b.get auth.secret) →
        injectedHeaders a rule headers = injectedHeaders b rule headers) := by
  constructor
  · intro name hother
    exact (values_injectedHeaders a rule headers hother).trans
      (values_injectedHeaders b rule headers hother).symm
  · intro hagree
    unfold injectedHeaders
    cases hauth : rule.auth with
    | none => rfl
    | some auth => simp only [hagree auth hauth]

/-! ## One request, then all of them -/

/-- The table reads no secret: the same row answers under all of them. -/
theorem gate_forall_secrets {handler next : CelilyHandler} {now : UInt64} {ctx : HttpContext}
    {request : ProxyRequest H B} {answer : RequestOrResponse H B}
    (hgate : Gate handler now ctx request answer next) :
    (∃ status body, ∀ secrets, Gate (withSecrets handler secrets) now ctx request
      (.response status body) (withSecrets next secrets)) ∨
    ∃ rule, Under handler.rules request rule ∧
      ∀ secrets, Gate (withSecrets handler secrets) now ctx request
        (.request (request.withHeaders (injectedHeaders secrets rule request.head.headers)))
        (withSecrets next secrets) := by
  cases hgate with
  | stranger hclient => exact Or.inl ⟨_, _, fun _ => .stranger hclient⟩
  | noHost hclient hhost => exact Or.inl ⟨_, _, fun _ => .noHost hclient hhost⟩
  | noScheme host hclient hhost hscheme =>
    exact Or.inl ⟨_, _, fun _ => .noScheme host hclient hhost hscheme⟩
  | overridden target hclient asks hmethod =>
    exact Or.inl ⟨_, _, fun _ => .overridden target hclient asks hmethod⟩
  | blocked target admitted hnone =>
    exact Or.inl ⟨_, _, fun _ => .blocked target admitted hnone⟩
  | exhausted target index rule admitted selects hfull =>
    refine Or.inl ⟨.tooManyRequests, "Request quota exceeded\n".toList, fun secrets => ?_⟩
    rw [← count_withSecrets]
    exact .exhausted target index rule admitted selects hfull
  | forwarded target index rule admitted selects hroom =>
    refine Or.inr ⟨rule, under_of_selects admitted selects, fun secrets => ?_⟩
    rw [← count_withSecrets]
    exact .forwarded target index rule admitted selects hroom

theorem count_rules (handler : CelilyHandler) (index : Nat) (rule : HttpRule) (now : UInt64) :
    (handler.count index rule now).rules = handler.rules := by
  rw [CelilyHandler.count]
  split
  · rfl
  · rfl

theorem gate_rules {handler next : CelilyHandler} {now : UInt64} {ctx : HttpContext}
    {request : ProxyRequest H B} {answer : RequestOrResponse H B}
    (hgate : Gate handler now ctx request answer next) : next.rules = handler.rules := by
  cases hgate with
  | exhausted target index rule => exact count_rules handler index rule now
  | forwarded target index rule => exact count_rules handler index rule now
  | _ => rfl

theorem handleRequest_alike [LawfulHeaderMap H] (handler : CelilyHandler) (a b : SecretMap)
    (arrival : Arrival H B) :
    ∃ answerA answerB next,
      (withSecrets handler a).handleRequest arrival.now arrival.ctx arrival.request =
        .ok (answerA, withSecrets next a) ∧
      (withSecrets handler b).handleRequest arrival.now arrival.ctx arrival.request =
        .ok (answerB, withSecrets next b) ∧
      next.rules = handler.rules ∧ Alike handler.rules a b arrival answerA answerB := by
  obtain ⟨_, next, hgate⟩ := gate_total handler arrival.now arrival.ctx arrival.request
  rcases gate_forall_secrets hgate with ⟨status, body, hrefused⟩ | ⟨rule, under, hsent⟩
  · exact ⟨_, _, next, (hrefused a).runs, (hrefused b).runs, gate_rules hgate,
      .response status body⟩
  · obtain ⟨houtside, hequal⟩ := injectedHeaders_alike rule a b arrival.request.head.headers
    exact ⟨_, _, next, (hsent a).runs, (hsent b).runs, gate_rules hgate,
      .request rule _ _ under houtside hequal⟩

/-- The two answers are equal, or both are the request sent under a rule whose auth
names the secret, and in cleartext only if that rule is an `http` one. -/
def LeavesUnder (rules : List NetworkRule) (secret : Text) (arrival : Arrival H B)
    (answerA answerB : RequestOrResponse H B) : Prop :=
  answerA = answerB ∨
    ∃ rule auth headersA headersB, Under rules arrival.request rule ∧
      rule.auth = some auth ∧ auth.secret = secret ∧
      (arrival.request.head.uri.HasScheme .http → rule.scheme = .http) ∧
      answerA = .request (arrival.request.withHeaders headersA) ∧
      answerB = .request (arrival.request.withHeaders headersB)

theorem Alike.leavesUnder {rules : List NetworkRule} {a b : SecretMap} {arrival : Arrival H B}
    {answerA answerB : RequestOrResponse H B} (alike : Alike rules a b arrival answerA answerB)
    {secret : Text} (hothers : ∀ name, name ≠ secret → a.get name = b.get name) :
    LeavesUnder rules secret arrival answerA answerB := by
  cases alike with
  | response status body => exact Or.inl rfl
  | request rule headersA headersB under houtside hequal =>
    by_cases hnames : ∃ auth, rule.auth = some auth ∧ auth.secret = secret
    · obtain ⟨auth, hauth, hsecret⟩ := hnames
      exact Or.inr ⟨rule, auth, headersA, headersB, under, hauth, hsecret,
        hasScheme_unique under.scheme, rfl, rfl⟩
    · left
      rw [hequal]
      intro auth hauth
      exact hothers auth.secret (fun hsecret => hnames ⟨auth, hauth, hsecret⟩)

/-- Two runs that differ in their secrets answer alike and leave the same quotas. A
secret that alone differs shows only in requests sent under a rule naming it. -/
theorem run_alike [LawfulHeaderMap H] (handler : CelilyHandler) (a b : SecretMap)
    (arrivals : List (Arrival H B)) :
    ∃ logA logB final,
      run (withSecrets handler a) arrivals = .ok (logA, withSecrets final a) ∧
      run (withSecrets handler b) arrivals = .ok (logB, withSecrets final b) ∧
      logA.map Exchange.arrival = arrivals ∧
      List.Forall₂ (fun x y => x.arrival = y.arrival ∧
        Alike handler.rules a b x.arrival x.answer y.answer) logA logB ∧
      ∀ secret, (∀ name, name ≠ secret → a.get name = b.get name) →
        List.Forall₂ (fun x y =>
          LeavesUnder handler.rules secret x.arrival x.answer y.answer) logA logB := by
  induction arrivals generalizing handler with
  | nil => exact ⟨[], [], handler, rfl, rfl, rfl, .nil, fun _ _ => .nil⟩
  | cons arrival arrivals ih =>
    obtain ⟨answerA, answerB, next, hrunA, hrunB, hrules, halike⟩ :=
      handleRequest_alike handler a b arrival
    obtain ⟨logA, logB, final, hrestA, hrestB, hlog, hall, hleaves⟩ := ih next
    rw [hrules] at hall hleaves
    refine ⟨⟨arrival, answerA⟩ :: logA, ⟨arrival, answerB⟩ :: logB, final, ?_, ?_, ?_, ?_, ?_⟩
    · rw [run, hrunA]
      simp only [bind, Except.bind, hrestA]
      rfl
    · rw [run, hrunB]
      simp only [bind, Except.bind, hrestB]
      rfl
    · rw [List.map_cons, hlog]
    · exact .cons ⟨rfl, halike⟩ hall
    · intro secret hothers
      exact .cons (halike.leavesUnder hothers) (hleaves secret hothers)

theorem run_alike_api : ∃ logA logB final,
    run (withSecrets apiHandler [("api-key".toList, "one".toList)])
      [⟨0, apiContext, apiRequest⟩] =
        .ok (logA, withSecrets final [("api-key".toList, "one".toList)]) ∧
    run (withSecrets apiHandler [("api-key".toList, "two".toList)])
      [⟨0, apiContext, apiRequest⟩] =
        .ok (logB, withSecrets final [("api-key".toList, "two".toList)]) ∧
    List.Forall₂ (fun x y => LeavesUnder apiHandler.rules "api-key".toList x.arrival
      x.answer y.answer) logA logB := by
  obtain ⟨logA, logB, final, hrunA, hrunB, _, _, hleaves⟩ :=
    run_alike apiHandler [("api-key".toList, "one".toList)] [("api-key".toList, "two".toList)]
      [⟨0, apiContext, apiRequest⟩]
  refine ⟨logA, logB, final, hrunA, hrunB, hleaves _ ?_⟩
  intro name hname
  have hne : (name == "api-key".toList) = false := by simpa using hname
  simp only [SecretMap.get, List.lookup_cons, hne]

end SecretFlow
