import Celily.SecretFlow
import Celily.QuotaClocks

/-!
# Quota accounting

The quota windows after a run against the requests of the run. A rule's window sees
the requests that ask under that rule and no others, in their order, so it grants in
each window of the clock what the counter of that window grants.
-/

namespace QuotaAccounting

open NetworkRules HeaderMaps BridgeSubnets ProxyHandler SecretFlow QuotaWindows FixedWindows
open QuotaClocks

variable {H B : Type} [HeaderMap H]

/-- The request passes all checks before the quota, and the rule at `index` is the first
to match it. -/
def Asks (rules : List NetworkRule) (subnet : BridgeSubnet) (index : Nat)
    (arrival : Arrival H B) : Prop :=
  ∃ target rule, Admitted subnet arrival.ctx arrival.request target ∧
    Selects rules target index rule

/-- The rule that a request asks under. -/
def askedRule (rules : List NetworkRule) (subnet : BridgeSubnet) (arrival : Arrival H B) :
    Option Nat :=
  if subnet.hasInstance arrival.ctx.remoteAddr.ip ∧
      ¬methodOverrideHeaders.any (containsKey arrival.request.head.headers) then do
    let host ← arrival.request.head.uri.host
    let scheme ← httpScheme arrival.request.head.uri.schemeStr
    rules.findIdx? (fun rule => ruleMatches rule (arrival.request.target host scheme))
  else none

theorem asks_iff (rules : List NetworkRule) (subnet : BridgeSubnet) (index : Nat)
    (arrival : Arrival H B) :
    Asks rules subnet index arrival ↔ askedRule rules subnet arrival = some index := by
  have hmethods := not_congr (overrides_iff arrival.request.head.headers)
  rw [askedRule]
  constructor
  · rintro ⟨target, rule, admitted, selects⟩
    obtain ⟨host, scheme, hhost, hscheme, rfl⟩ := (asksFor_iff _ _).mp admitted.asks
    rw [if_pos ⟨(hasInstance_iff _ _).mpr admitted.client, hmethods.mp admitted.method⟩,
      hhost, hscheme]
    exact (findIdx_eq_some_iff _ _ _).mpr ⟨rule, selects⟩
  · intro hasked
    split at hasked
    · rename_i hchecks
      have hclient := (hasInstance_iff _ _).mp hchecks.1
      obtain ⟨host, hhost, hasked⟩ := Option.bind_eq_some_iff.mp hasked
      obtain ⟨scheme, hscheme, hasked⟩ := Option.bind_eq_some_iff.mp hasked
      obtain ⟨rule, selects⟩ := (findIdx_eq_some_iff _ _ _).mp hasked
      have asks := (asksFor_iff arrival.request _).mpr ⟨host, scheme, hhost, hscheme, rfl⟩
      exact ⟨_, rule, ⟨hclient, asks, hmethods.mpr hchecks.2⟩, selects⟩
    · cases hasked

instance (rules : List NetworkRule) (subnet : BridgeSubnet) (index : Nat)
    (arrival : Arrival H B) : Decidable (Asks rules subnet index arrival) :=
  decidable_of_iff _ (asks_iff rules subnet index arrival).symm

def forwarded (answer : RequestOrResponse H B) : Bool :=
  match answer with
  | .request _ => true
  | .response _ _ => false

/-! ## One request -/

theorem count_quotas_other {handler : CelilyHandler} {index other : Nat} (hother : other ≠ index)
    (rule : HttpRule) (now : UInt64) :
    (handler.count index rule now).quotas[other]? = handler.quotas[other]? := by
  rw [CelilyHandler.count]
  split
  · exact List.getElem?_set_ne hother.symm
  · rfl

theorem count_quotas_own {handler : CelilyHandler} {index : Nat} {rule : HttpRule}
    {quota : QuotaConfig} {window : QuotaWindow} (hquota : rule.quota = some quota)
    (hwindow : handler.quotas[index]? = some window) (now : UInt64) :
    (handler.count index rule now).quotas[index]? = some (window.tryTake quota now).2 := by
  obtain ⟨hlt, _⟩ := List.getElem?_eq_some_iff.mp hwindow
  simp only [CelilyHandler.count, hquota, hwindow]
  exact List.getElem?_set_self hlt

theorem count_subnet (handler : CelilyHandler) (index : Nat) (rule : HttpRule) (now : UInt64) :
    (handler.count index rule now).subnet = handler.subnet := by
  rw [CelilyHandler.count]
  split
  · rfl
  · rfl

theorem gate_subnet {handler next : CelilyHandler} {now : UInt64} {ctx : HttpContext}
    {request : ProxyRequest H B} {answer : RequestOrResponse H B}
    (hgate : Gate handler now ctx request answer next) : next.subnet = handler.subnet := by
  cases hgate with
  | exhausted target index rule => exact count_subnet handler index rule now
  | forwarded target index rule => exact count_subnet handler index rule now
  | _ => rfl

/-- No other request touches the window of a rule. -/
theorem gate_unasked {handler next : CelilyHandler} {arrival : Arrival H B}
    {answer : RequestOrResponse H B}
    (hgate : Gate handler arrival.now arrival.ctx arrival.request answer next) {index : Nat}
    (hother : ¬Asks handler.rules handler.subnet index arrival) :
    next.quotas[index]? = handler.quotas[index]? := by
  have hne : ∀ {target i rule}, Admitted handler.subnet arrival.ctx arrival.request target →
      Selects handler.rules target i rule → index ≠ i := by
    rintro target i rule admitted selects rfl
    exact hother ⟨target, rule, admitted, selects⟩
  cases hgate with
  | exhausted target i rule admitted selects =>
    exact count_quotas_other (hne admitted selects) rule _
  | forwarded target i rule admitted selects =>
    exact count_quotas_other (hne admitted selects) rule _
  | _ => rfl

/-- The window of its rule decides a request, and counts it. -/
theorem gate_asked {handler next : CelilyHandler} {arrival : Arrival H B}
    {answer : RequestOrResponse H B}
    (hgate : Gate handler arrival.now arrival.ctx arrival.request answer next) {index : Nat}
    (hasks : Asks handler.rules handler.subnet index arrival) {rule : HttpRule}
    {quota : QuotaConfig} {window : QuotaWindow}
    (hrule : handler.rules[index]? = some (.http rule)) (hquota : rule.quota = some quota)
    (hwindow : handler.quotas[index]? = some window) :
    forwarded answer = (window.tryTake quota arrival.now).1 ∧
      next.quotas[index]? = some (window.tryTake quota arrival.now).2 ∧
      (forwarded answer = false → ∃ body, answer = .response .tooManyRequests body) := by
  obtain ⟨target, first, admitted, selects⟩ := hasks
  obtain rfl : first = rule := by
    have hsame := selects.rule_at.symm.trans hrule
    injection hsame with hsame
    injection hsame
  have hnext := count_quotas_own hquota hwindow arrival.now
  have htaken := (tryTake_spec window quota arrival.now).2.1
  have hroom : handler.HasRoom index first arrival.now ↔ window.HasRoom quota arrival.now := by
    simp [CelilyHandler.HasRoom, hquota, hwindow]
  by_cases hfree : handler.HasRoom index first arrival.now
  · obtain ⟨rfl, rfl⟩ := hgate.unique (.forwarded target index first admitted selects hfree)
    refine ⟨(htaken.mpr (hroom.mp hfree)).symm, hnext, ?_⟩
    intro hfalse
    cases hfalse
  · obtain ⟨rfl, rfl⟩ := hgate.unique (.exhausted target index first admitted selects hfree)
    refine ⟨?_, hnext, fun _ => ⟨_, rfl⟩⟩
    have hrefused := mt htaken.mp (mt hroom.mpr hfree)
    exact (Bool.not_eq_true _ ▸ hrefused : _ = false).symm

/-! ## All requests -/

/-- The run as the window of one rule sees it: its own requests, one after the other. -/
structure Projects (rules : List NetworkRule) (subnet : BridgeSubnet) (index : Nat)
    (quota : QuotaConfig) (window : QuotaWindow) (arrivals : List (Arrival H B))
    (log : List (Exchange H B)) (final : CelilyHandler) : Prop where
  answers : (log.filter (fun e => Asks rules subnet index e.arrival)).map
      (fun e => (e.arrival, forwarded e.answer)) =
    (takeAll Arrival.now quota window
      (arrivals.filter (fun arrival => Asks rules subnet index arrival))).1
  window_after : final.quotas[index]? = some (takeAll Arrival.now quota window
    (arrivals.filter (fun arrival => Asks rules subnet index arrival))).2
  refused : ∀ e ∈ log, Asks rules subnet index e.arrival → forwarded e.answer = false →
    ∃ body, e.answer = .response .tooManyRequests body

theorem run_projects (handler : CelilyHandler) (arrivals : List (Arrival H B)) :
    ∃ log final, run handler arrivals = .ok (log, final) ∧
      log.map Exchange.arrival = arrivals ∧ final.rules = handler.rules ∧
      final.subnet = handler.subnet ∧
      ∀ index rule quota window, handler.rules[index]? = some (.http rule) →
        rule.quota = some quota → handler.quotas[index]? = some window →
        Projects handler.rules handler.subnet index quota window arrivals log final := by
  induction arrivals generalizing handler with
  | nil =>
    refine ⟨[], handler, rfl, rfl, rfl, rfl, ?_⟩
    intro index rule quota window _ _ hwindow
    exact ⟨rfl, hwindow, by simp⟩
  | cons arrival arrivals ih =>
    obtain ⟨answer, next, hgate⟩ :=
      gate_total handler arrival.now arrival.ctx arrival.request
    obtain ⟨log, final, hrun, harrivals, hrules, hsubnet, hprojects⟩ := ih next
    rw [gate_rules hgate] at hrules hprojects
    rw [gate_subnet hgate] at hsubnet hprojects
    refine ⟨⟨arrival, answer⟩ :: log, final, ?_, ?_, hrules, hsubnet, ?_⟩
    · rw [run, hgate.runs]
      simp only [bind, Except.bind, hrun]
      rfl
    · rw [List.map_cons, harrivals]
    · intro index rule quota window hrule hquota hwindow
      by_cases hasks : Asks handler.rules handler.subnet index arrival
      · obtain ⟨hanswer, hnext, hrefused⟩ := gate_asked hgate hasks hrule hquota hwindow
        obtain ⟨hanswers, hafter, hrest⟩ := hprojects index rule quota _ hrule hquota hnext
        refine ⟨?_, ?_, ?_⟩
        · simp only [List.filter_cons, hasks, decide_true, if_true, List.map_cons, takeAll]
          rw [hanswers, hanswer]
        · simpa only [List.filter_cons, hasks, decide_true, if_true, takeAll] using hafter
        · rintro e (_ | ⟨_, he⟩) hasked hfalse
          · exact hrefused hfalse
          · exact hrest e he hasked hfalse
      · rw [← gate_unasked hgate hasks] at hwindow
        obtain ⟨hanswers, hafter, hrest⟩ := hprojects index rule quota _ hrule hquota hwindow
        refine ⟨?_, ?_, ?_⟩
        · simpa only [List.filter_cons, hasks, decide_false, Bool.false_eq_true, if_false]
            using hanswers
        · simpa only [List.filter_cons, hasks, decide_false, Bool.false_eq_true, if_false]
            using hafter
        · rintro e (_ | ⟨_, he⟩) hasked hfalse
          · exact absurd hasked hasks
          · exact hrest e he hasked hfalse

/-- The requests of the window `k` that ask under the rule at `index`. -/
def askedUnder (rules : List NetworkRule) (subnet : BridgeSubnet) (index : Nat)
    (quota : QuotaConfig) (k : Nat) (arrivals : List (Arrival H B)) : Nat :=
  arrivals.countP (fun arrival => Asks rules subnet index arrival ∧
    arrival.now.toNat / quota.window.secs.toNat = k)

/-- Those of them that were forwarded. -/
def forwardedUnder (rules : List NetworkRule) (subnet : BridgeSubnet) (index : Nat)
    (quota : QuotaConfig) (k : Nat) (log : List (Exchange H B)) : Nat :=
  log.countP (fun e => Asks rules subnet index e.arrival ∧
    e.arrival.now.toNat / quota.window.secs.toNat = k ∧ forwarded e.answer = true)

theorem Projects.forwarded_eq {rules : List NetworkRule} {subnet : BridgeSubnet} {index : Nat}
    {quota : QuotaConfig} {arrivals : List (Arrival H B)} {log : List (Exchange H B)}
    {final : CelilyHandler}
    (projects : Projects rules subnet index quota .default arrivals log final)
    (hsecond : 1 ≤ quota.window.secs) (hclock : arrivals.Pairwise (fun a b => a.now ≤ b.now))
    (k : Nat) :
    forwardedUnder rules subnet index quota k log =
      min quota.maxRequests.toNat (askedUnder rules subnet index quota k arrivals) := by
  have hasked : askedUnder rules subnet index quota k arrivals =
      asked (callWindow Arrival.now quota) k
        (arrivals.filter (fun arrival => Asks rules subnet index arrival)) := by
    rw [asked, List.countP_filter, askedUnder]
    apply List.countP_congr
    intro arrival _
    simp only [callWindow, windowOf_eq hsecond, decide_eq_true_eq, Bool.and_eq_true]
    exact and_comm
  have hgranted : forwardedUnder rules subnet index quota k log =
      granted (callWindow Arrival.now quota) k (takeAll Arrival.now quota .default
        (arrivals.filter (fun arrival => Asks rules subnet index arrival))).1 := by
    rw [← projects.answers, granted, List.countP_map, List.countP_filter, forwardedUnder]
    apply List.countP_congr
    intro e _
    simp only [Function.comp, callWindow, windowOf_eq hsecond, decide_eq_true_eq, Bool.and_eq_true]
    exact and_comm
  have hsorted : (arrivals.filter (fun arrival => Asks rules subnet index arrival)).Pairwise
      (fun a b => callWindow Arrival.now quota a ≤ callWindow Arrival.now quota b) := by
    refine (hclock.filter _).imp ?_
    intro a b hle
    simp only [callWindow, windowOf_eq hsecond]
    exact Nat.div_le_div_right (UInt64.le_iff_toNat_le.mp hle)
  rw [hasked, hgranted, ← serve_calls]
  exact granted_eq_min _ _ (counted_default k) (consecutive_of_sorted hsorted k)

/-! ## The quota state -/

/-- What the window of the rule at `index` has counted in the window `k`. -/
def counted (handler : CelilyHandler) (index k : Nat) : Nat :=
  match handler.quotas[index]? with
  | some window => window.counter.counted k
  | none => 0

/-- No count passes the maximum of its rule. -/
def Bounded (handler : CelilyHandler) : Prop :=
  ∀ (index : Nat) (rule : HttpRule) (quota : QuotaConfig) (window : QuotaWindow),
    handler.rules[index]? = some (.http rule) → rule.quota = some quota →
    handler.quotas[index]? = some window → window.count ≤ quota.maxRequests

/-- What an answer does to the quotas. -/
inductive Accounted (handler : CelilyHandler) (arrival : Arrival H B) :
    RequestOrResponse H B → CelilyHandler → Prop where
  | refused (status : StatusCode) (body : RustText.Text) : status ≠ .tooManyRequests →
      Accounted handler arrival (.response status body) handler
  | exhausted (body : RustText.Text) (next : CelilyHandler) :
      (∀ index k, counted next index k = counted handler index k) →
      Accounted handler arrival (.response .tooManyRequests body) next
  | forwarded (sent : ProxyRequest H B) (next : CelilyHandler) (index : Nat) (rule : HttpRule) :
      Asks handler.rules handler.subnet index arrival →
      handler.rules[index]? = some (.http rule) →
      (∀ other, other ≠ index → next.quotas[other]? = handler.quotas[other]?) →
      (rule.quota = none → next = handler) →
      (∀ quota, rule.quota = some quota →
        counted next index (windowOf quota arrival.now) =
          counted handler index (windowOf quota arrival.now) + 1 ∧
        counted next index (windowOf quota arrival.now) ≤ quota.maxRequests.toNat) →
      Accounted handler arrival (.request sent) next

theorem counted_of_window {handler : CelilyHandler} {index : Nat} {window : QuotaWindow}
    (hwindow : handler.quotas[index]? = some window) (k : Nat) :
    counted handler index k = window.counter.counted k := by
  simp only [counted, hwindow]

theorem counted_congr {a b : CelilyHandler} {index : Nat}
    (hsame : a.quotas[index]? = b.quotas[index]?) (k : Nat) :
    counted a index k = counted b index k := by
  rw [counted, hsame, counted]

theorem hasRoom_counter (window : QuotaWindow) (quota : QuotaConfig) (now : UInt64) :
    window.HasRoom quota now ↔
      window.counter.counted (windowOf quota now) < quota.maxRequests.toNat := by
  rw [QuotaWindow.HasRoom, windowOf, counted_counter]

/-- A full window keeps its counts. -/
theorem counted_exhausted {handler : CelilyHandler} (bounded : Bounded handler) {index : Nat}
    {rule : HttpRule} (hrule : handler.rules[index]? = some (.http rule)) {now : UInt64}
    (hfull : ¬handler.HasRoom index rule now) (i k : Nat) :
    counted (handler.count index rule now) i k = counted handler i k := by
  by_cases hi : i = index
  · subst hi
    rw [CelilyHandler.HasRoom] at hfull
    push Not at hfull
    obtain ⟨quota, hquota, hfull⟩ := hfull
    obtain ⟨window, hwindow⟩ := handler.quota_at hrule
    have hrefused := hfull window hwindow
    rw [hasRoom_counter] at hrefused
    have hle : window.counter.count ≤ quota.maxRequests.toNat :=
      UInt64.le_iff_toNat_le.mp (bounded i rule quota window hrule hquota hwindow)
    have hkept := counted_refused hle hrefused k
    rw [tryTake_counter] at hkept
    rw [counted_of_window (count_quotas_own hquota hwindow now), counted_of_window hwindow]
    exact hkept
  · exact counted_congr (count_quotas_other hi rule now) k

/-- A grant counts one, and there is room for it. -/
theorem counted_forwarded {handler : CelilyHandler} {index : Nat} {rule : HttpRule} {now : UInt64}
    (hroom : handler.HasRoom index rule now) {quota : QuotaConfig}
    (hquota : rule.quota = some quota) :
    counted (handler.count index rule now) index (windowOf quota now) =
        counted handler index (windowOf quota now) + 1 ∧
      counted (handler.count index rule now) index (windowOf quota now) ≤
        quota.maxRequests.toNat := by
  obtain ⟨window, hwindow, hfree⟩ := hroom quota hquota
  rw [hasRoom_counter] at hfree
  have htaken := congrArg Prod.snd
    ((tryTake_counter window quota now).symm.trans (take_granted hfree))
  rw [counted_of_window (count_quotas_own hquota hwindow now), counted_of_window hwindow]
  dsimp only at htaken
  rw [htaken, counted_same]
  exact ⟨rfl, hfree⟩

theorem gate_accounted {handler next : CelilyHandler} (bounded : Bounded handler)
    {arrival : Arrival H B} {answer : RequestOrResponse H B}
    (hgate : Gate handler arrival.now arrival.ctx arrival.request answer next) :
    Accounted handler arrival answer next := by
  cases hgate with
  | stranger => exact .refused _ _ (by decide)
  | noHost => exact .refused _ _ (by decide)
  | noScheme => exact .refused _ _ (by decide)
  | overridden => exact .refused _ _ (by decide)
  | blocked => exact .refused _ _ (by decide)
  | exhausted target index rule admitted selects hfull =>
    exact .exhausted _ _ (counted_exhausted bounded selects.rule_at hfull)
  | forwarded target index rule admitted selects hroom =>
    refine .forwarded _ _ index rule ⟨target, rule, admitted, selects⟩ selects.rule_at
      ?_ ?_ ?_
    · exact fun other hother => count_quotas_other hother rule _
    · intro hnone
      simp only [CelilyHandler.count, hnone]
    · exact fun quota hquota => counted_forwarded hroom hquota

theorem quotas_new (rules : List NetworkRule) (secrets : SecretMap) (subnet : BridgeSubnet)
    {index : Nat} {rule : NetworkRule} (hrule : rules[index]? = some rule) :
    (CelilyHandler.new rules secrets subnet).quotas[index]? = some .default := by
  rw [CelilyHandler.new]
  simp only [List.getElem?_map, hrule, Option.map_some]

theorem takeAll_bounded {α : Type} (reading : α → UInt64) (quota : QuotaConfig)
    (calls : List α) : (takeAll reading quota .default calls).2.count ≤ quota.maxRequests := by
  have hstart : QuotaWindow.default.counter.count ≤ quota.maxRequests.toNat := Nat.zero_le _
  have hle := count_serve_le (callWindow reading quota) hstart calls
  rw [takeAll_counter] at hle
  exact UInt64.le_iff_toNat_le.mpr hle

/-- Every rule forwards what its windows admit and answers 429 to the rest. No count
passes its maximum, and after any of these runs the next answer is accounted for. -/
theorem run_accounted (rules : List NetworkRule) (secrets : SecretMap) (subnet : BridgeSubnet)
    (arrivals : List (Arrival H B)) (hclock : arrivals.Pairwise (fun a b => a.now ≤ b.now)) :
    ∃ log final, run (.new rules secrets subnet) arrivals = .ok (log, final) ∧
      log.map Exchange.arrival = arrivals ∧ final.rules = rules ∧ final.subnet = subnet ∧
      (∀ index rule quota, rules[index]? = some (.http rule) → rule.quota = some quota →
        1 ≤ quota.window.secs →
        (∀ k, forwardedUnder rules subnet index quota k log =
          min quota.maxRequests.toNat (askedUnder rules subnet index quota k arrivals)) ∧
        ∀ e ∈ log, Asks rules subnet index e.arrival → forwarded e.answer = false →
          ∃ body, e.answer = .response .tooManyRequests body) ∧
      Bounded final ∧
      ∀ arrival : Arrival H B, ∃ answer next,
        final.handleRequest arrival.now arrival.ctx arrival.request = .ok (answer, next) ∧
          Accounted final arrival answer next := by
  obtain ⟨log, final, hrun, harrivals, hrules, hsubnet, hprojects⟩ :=
    run_projects (.new rules secrets subnet) arrivals
  have hbounded : Bounded final := by
    intro index rule quota window hrule hquota hwindow
    rw [hrules] at hrule
    have projects := hprojects index rule quota _ hrule hquota (quotas_new rules _ _ hrule)
    obtain rfl := Option.some.inj (projects.window_after.symm.trans hwindow)
    exact takeAll_bounded _ _ _
  refine ⟨log, final, hrun, harrivals, hrules, hsubnet, ?_, hbounded, ?_⟩
  · intro index rule quota hrule hquota hsecond
    have projects := hprojects index rule quota _ hrule hquota (quotas_new rules _ _ hrule)
    exact ⟨projects.forwarded_eq hsecond hclock, projects.refused⟩
  · intro arrival
    obtain ⟨answer, next, hgate⟩ := gate_total final arrival.now arrival.ctx arrival.request
    exact ⟨answer, next, hgate.runs, gate_accounted hbounded hgate⟩

def limitedRule : HttpRule := { apiRule with quota := some tenSeconds }

theorem run_accounted_api : ∃ log final,
    run (.new [.http limitedRule] [] apiHandler.subnet)
      [⟨3, apiContext, apiRequest⟩, ⟨7, apiContext, apiRequest⟩] = .ok (log, final) ∧
    forwardedUnder [.http limitedRule] apiHandler.subnet 0 tenSeconds 0 log = 1 := by
  obtain ⟨log, final, hrun, _, _, _, hexact, _⟩ :=
    run_accounted [.http limitedRule] [] apiHandler.subnet
      [⟨3, apiContext, apiRequest⟩, ⟨7, apiContext, apiRequest⟩] (by simp)
  refine ⟨log, final, hrun, ?_⟩
  rw [(hexact 0 limitedRule tenSeconds rfl rfl (by decide)).1 0]
  decide +kernel

end QuotaAccounting
