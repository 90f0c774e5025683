import Celily.ConfigRules
import Celily.SecretFlow
import Mathlib.Data.List.Perm.Basic

/-!
# Injected headers

The headers of a forwarded request, name by name: the auth header has its secret, a
static header one of the values configured for its name, and any other name what the
client sent. Two static headers whose names differ in case only are one header of the
request, and which of them it gets is a matter of the order of the hash map.
-/

namespace HeaderInjection

open RustText InternetAddresses NetworkRules HeaderMaps ProxyHandler SecretFlow ConfigRules

variable {H B : Type} [HeaderMap H]

/-- The header that the rule's auth asks for. -/
def authEntry (secrets : SecretMap) (rule : HttpRule) : Option (Text × Text) :=
  rule.auth.bind (fun auth =>
    (secrets.get auth.secret).map (fun secret => (auth.header, auth.value secret)))

/-- The auth header is the last of the writes. -/
theorem injectedHeaders_eq (secrets : SecretMap) (rule : HttpRule) (headers : H) :
    injectedHeaders secrets rule headers =
      injectAll headers (rule.headers ++ (authEntry secrets rule).toList) := by
  rw [injectedHeaders, authEntry, injectAll, injectAll, List.foldl_append]
  cases rule.auth with
  | none => rfl
  | some auth =>
    cases hsecret : secrets.get auth.secret with
    | none => simp [hsecret]
    | some secret => simp [hsecret]

/-- The auth header is accepted after the static headers have been written. -/
def AuthWritten (secrets : SecretMap) (rule : HttpRule) (headers : H) (entry : Text × Text) :
    Prop :=
  authEntry secrets rule = some entry ∧
    (set (injectAll headers rule.headers) entry.1 entry.2).1 = true

/-- The static header is accepted in its turn. -/
def StaticWritten (rule : HttpRule) (headers : H) (entry : Text × Text) : Prop :=
  (entry, true) ∈ writes headers rule.headers

/-- What each name of a forwarded request carries. -/
structure Injected (secrets : SecretMap) (rule : HttpRule) (before after : H) : Prop where
  auth : ∀ entry, AuthWritten secrets rule before entry →
    ∀ name, eqIgnoreAsciiCase name entry.1 = true → values after name = [utf8 entry.2]
  static : ∀ name,
    (∀ entry, AuthWritten secrets rule before entry → eqIgnoreAsciiCase name entry.1 = false) →
    (∃ entry, StaticWritten rule before entry ∧ eqIgnoreAsciiCase name entry.1 = true) →
    ∃ entry, StaticWritten rule before entry ∧ eqIgnoreAsciiCase name entry.1 = true ∧
      values after name = [utf8 entry.2]
  client : ∀ name,
    (∀ entry, AuthWritten secrets rule before entry → eqIgnoreAsciiCase name entry.1 = false) →
    (∀ entry, StaticWritten rule before entry → eqIgnoreAsciiCase name entry.1 = false) →
    values after name = values before name

theorem lastWritten_auth (secrets : SecretMap) (rule : HttpRule) (headers : H) (name : Text) :
    (∃ entry, AuthWritten secrets rule headers entry ∧ eqIgnoreAsciiCase name entry.1 = true ∧
        lastWritten name
          (writes headers (rule.headers ++ (authEntry secrets rule).toList)) = some entry.2) ∨
      (∀ entry, AuthWritten secrets rule headers entry → eqIgnoreAsciiCase name entry.1 = false) ∧
        lastWritten name (writes headers (rule.headers ++ (authEntry secrets rule).toList)) =
          lastWritten name (writes headers rule.headers) := by
  rw [writes_append, lastWritten_append]
  cases hentry : authEntry secrets rule with
  | none =>
    right
    refine ⟨?_, by simp [writes, lastWritten]⟩
    rintro entry ⟨hsome, _⟩
    rw [hentry] at hsome
    cases hsome
  | some entry =>
    simp only [Option.toList_some, writes, lastWritten]
    cases hset : (set (injectAll headers rule.headers) entry.1 entry.2).1 with
    | true =>
      cases hname : eqIgnoreAsciiCase name entry.1 with
      | true => exact Or.inl ⟨entry, ⟨hentry, hset⟩, hname, rfl⟩
      | false =>
        right
        refine ⟨?_, rfl⟩
        rintro other ⟨hsome, _⟩
        obtain rfl := Option.some.inj (hentry.symm.trans hsome)
        exact hname
    | false =>
      right
      refine ⟨?_, by simp⟩
      rintro other ⟨hsome, haccepted⟩
      obtain rfl := Option.some.inj (hentry.symm.trans hsome)
      rw [hset] at haccepted
      cases haccepted

theorem injected [LawfulHeaderMap H] (secrets : SecretMap) (rule : HttpRule) (headers : H) :
    Injected secrets rule headers (injectedHeaders secrets rule headers) := by
  have hvalues := fun name => values_injectAll
    (rule.headers ++ (authEntry secrets rule).toList) headers name
  rw [injectedHeaders_eq]
  refine ⟨?_, ?_, ?_⟩
  · intro entry hwritten name hname
    rcases lastWritten_auth secrets rule headers name with ⟨other, hother, _, hlast⟩ | ⟨hnone, _⟩
    · obtain rfl := Option.some.inj (hwritten.1.symm.trans hother.1)
      rw [hvalues, hlast]
      rfl
    · rw [hnone entry hwritten] at hname
      cases hname
  · rintro name hauth ⟨entry, hwritten, hname⟩
    rcases lastWritten_auth secrets rule headers name with ⟨other, hother, hsame, _⟩ | ⟨_, hlast⟩
    · rw [hauth other hother] at hsame
      cases hsame
    · cases hstatic : lastWritten name (writes headers rule.headers) with
      | none =>
        rw [lastWritten_none.mp hstatic entry hwritten] at hname
        cases hname
      | some value =>
        obtain ⟨last, hmem, hlastName, rfl⟩ := lastWritten_some hstatic
        refine ⟨last, hmem, hlastName, ?_⟩
        rw [hvalues, hlast, hstatic]
        rfl
  · intro name hauth hstatic
    rcases lastWritten_auth secrets rule headers name with ⟨other, hother, hsame, _⟩ | ⟨_, hlast⟩
    · rw [hauth other hother] at hsame
      cases hsame
    · rw [hvalues, hlast, lastWritten_none.mpr hstatic]
      rfl

theorem apiHandler_forwards : ∃ sent next,
    apiHandler.handleRequest 0 apiContext apiRequest = .ok (.request sent, next) := by
  have hgate : Gate apiHandler 0 apiContext apiRequest _ _ :=
    .forwarded apiTarget 1 apiRule apiRequest_admitted apiRequest_selects
      (by intro quota hquota; cases hquota)
  exact ⟨_, _, hgate.runs⟩

/-- The rule when its hash map iterates in another order. -/
def withOrder (rule : HttpRule) (order : List (Text × Text)) : HttpRule :=
  { rule with headers := order }

/-- The handler when the hash map of the rule at `index` iterates in another order. -/
def reordered (handler : CelilyHandler) (index : Nat) (rule : HttpRule)
    (order : List (Text × Text)) : CelilyHandler where
  rules := handler.rules.set index (.http (withOrder rule order))
  authSecrets := handler.authSecrets
  quotas := handler.quotas
  subnet := handler.subnet
  quotas_length := by rw [List.length_set, handler.quotas_length]

theorem selects_reordered {handler : CelilyHandler} {target : Target} {index : Nat}
    {rule : HttpRule} (selects : Selects handler.rules target index rule)
    (order : List (Text × Text)) :
    Selects (reordered handler index rule order).rules target index (withOrder rule order) := by
  obtain ⟨hlt, _⟩ := List.getElem?_eq_some_iff.mp selects.rule_at
  have hallows := selects.allows
  refine ⟨List.getElem?_set_self hlt, ?_, ?_⟩
  · exact ⟨hallows.scheme, hallows.host, hallows.port, hallows.path, hallows.method⟩
  · intro j hj earlier hat
    rw [reordered, List.getElem?_set_ne (by omega)] at hat
    exact selects.first j hj earlier hat

theorem gate_reordered {handler : CelilyHandler} {now : UInt64} {ctx : HttpContext}
    {request : ProxyRequest H B} {target : Target} {index : Nat} {rule : HttpRule}
    (admitted : Admitted handler.subnet ctx request target)
    (selects : Selects handler.rules target index rule)
    (hroom : handler.HasRoom index rule now) (order : List (Text × Text)) :
    ∃ next, (reordered handler index rule order).handleRequest now ctx request =
      .ok (.request (request.withHeaders
        (injectedHeaders handler.authSecrets (withOrder rule order) request.head.headers)),
        next) := by
  have hgate : Gate (reordered handler index rule order) now ctx request _ _ :=
    .forwarded target index (withOrder rule order) admitted
      (selects_reordered selects order) hroom
  exact ⟨_, hgate.runs⟩

/-- Two accepted static headers that the request sees as one, with different values that
the auth header does not replace. -/
def Clashes (secrets : SecretMap) (rule : HttpRule) (headers : H) : Prop :=
  ∃ a ∈ rule.headers, ∃ b ∈ rule.headers, eqIgnoreAsciiCase a.1 b.1 = true ∧ a.2 ≠ b.2 ∧
    (set headers a.1 a.2).1 = true ∧ (set headers b.1 b.2).1 = true ∧
    ∀ entry, authEntry secrets rule = some entry → (set headers entry.1 entry.2).1 = true →
      eqIgnoreAsciiCase a.1 entry.1 = false

theorem sent_unique {handler nextA nextB : CelilyHandler} {now : UInt64} {ctx : HttpContext}
    {request sentA sentB : ProxyRequest H B}
    (ha : handler.handleRequest now ctx request = .ok (.request sentA, nextA))
    (hb : handler.handleRequest now ctx request = .ok (.request sentB, nextB)) :
    sentA = sentB := by
  have hsame := (Prod.mk.inj (Except.ok.inj (ha.symm.trans hb))).1
  injection hsame

section Checked
variable [CheckedHeaderMap H]

theorem writes_checked (headers : H) (entries : List (Text × Text)) :
    writes headers entries =
      entries.map (fun entry => (entry, (set headers entry.1 entry.2).1)) := by
  induction entries generalizing headers with
  | nil => rfl
  | cons entry entries ih =>
    rw [writes, ih, List.map_cons]
    congr 1
    apply List.map_congr_left
    intro other _
    rw [CheckedHeaderMap.set_accepted (inject headers entry) headers]

theorem mem_writes {headers : H} {entries : List (Text × Text)} {entry : Text × Text} :
    (entry, true) ∈ writes headers entries ↔
      entry ∈ entries ∧ (set headers entry.1 entry.2).1 = true := by
  rw [writes_checked, List.mem_map]
  constructor
  · rintro ⟨other, hmem, hsame⟩
    obtain ⟨rfl, hset⟩ := Prod.mk.inj hsame
    exact ⟨hmem, hset⟩
  · rintro ⟨hmem, hset⟩
    exact ⟨entry, hmem, by rw [hset]⟩

theorem authWritten_checked {secrets : SecretMap} {rule : HttpRule} {headers : H}
    {entry : Text × Text} : AuthWritten secrets rule headers entry ↔
      authEntry secrets rule = some entry ∧ (set headers entry.1 entry.2).1 = true := by
  rw [AuthWritten, CheckedHeaderMap.set_accepted (injectAll headers rule.headers) headers]

/-- The entry that comes last wins. -/
theorem lastWritten_last {headers : H} {entries : List (Text × Text)} {entry : Text × Text}
    {name : Text} (hset : (set headers entry.1 entry.2).1 = true)
    (hname : eqIgnoreAsciiCase name entry.1 = true) :
    lastWritten name (writes headers (entries ++ [entry])) = some entry.2 := by
  rw [writes_checked, List.map_append, lastWritten_append]
  simp [lastWritten, hset, hname]

theorem lastWritten_perm {secrets : SecretMap} {rule : HttpRule} {headers : H}
    (hclash : ¬Clashes secrets rule headers) {a b : List (Text × Text)}
    (ha : a.Perm rule.headers) (hb : b.Perm rule.headers) {name : Text}
    (hauth : ∀ entry, authEntry secrets rule = some entry →
      (set headers entry.1 entry.2).1 = true → eqIgnoreAsciiCase name entry.1 = false) :
    lastWritten name (writes headers a) = lastWritten name (writes headers b) := by
  cases hlastB : lastWritten name (writes headers b) with
  | none =>
    rw [lastWritten_none] at hlastB ⊢
    intro entry hmem
    rw [mem_writes, ha.mem_iff, ← hb.mem_iff] at hmem
    exact hlastB entry (mem_writes.mpr hmem)
  | some value =>
    obtain ⟨y, hy, hyName, rfl⟩ := lastWritten_some hlastB
    cases hlastA : lastWritten name (writes headers a) with
    | none =>
      rw [lastWritten_none] at hlastA
      rw [mem_writes, hb.mem_iff, ← ha.mem_iff] at hy
      rw [hlastA y (mem_writes.mpr hy)] at hyName
      cases hyName
    | some value =>
      obtain ⟨x, hx, hxName, rfl⟩ := lastWritten_some hlastA
      rw [mem_writes, ha.mem_iff] at hx
      rw [mem_writes, hb.mem_iff] at hy
      have hxName' : eqIgnoreAsciiCase x.1 name = true := by
        rw [eqIgnoreAsciiCase_comm]
        exact hxName
      by_contra hvalue
      apply hclash
      refine ⟨x, hx.1, y, hy.1, eqIgnoreAsciiCase_trans hxName' hyName, ?_, hx.2, hy.2, ?_⟩
      · exact fun hsame => hvalue (congrArg some hsame)
      · intro entry hentry hset
        have hother := hauth entry hentry hset
        rw [← Bool.not_eq_true] at hother ⊢
        exact fun hsame => hother (eqIgnoreAsciiCase_trans hxName hsame)

theorem values_static {secrets : SecretMap} (rule : HttpRule) {headers : H} {name : Text}
    (hauth : ∀ entry, authEntry secrets rule = some entry →
      (set headers entry.1 entry.2).1 = true → eqIgnoreAsciiCase name entry.1 = false) :
    values (injectedHeaders secrets rule headers) name =
      (lastWritten name (writes headers rule.headers)).elim (values headers name)
        (fun value => [utf8 value]) := by
  rw [injectedHeaders_eq, values_injectAll]
  rcases lastWritten_auth secrets rule headers name with ⟨entry, hwritten, hname, _⟩ | ⟨_, hlast⟩
  · obtain ⟨hentry, hset⟩ := authWritten_checked.mp hwritten
    rw [hauth entry hentry hset] at hname
    cases hname
  · rw [hlast]

/-- With the entry last, its name has its value. -/
theorem values_last {secrets : SecretMap} {rule : HttpRule} {headers : H} {x : Text × Text}
    (hset : (set headers x.1 x.2).1 = true) {name : Text}
    (hname : eqIgnoreAsciiCase name x.1 = true)
    (hauth : ∀ entry, authEntry secrets rule = some entry →
      (set headers entry.1 entry.2).1 = true → eqIgnoreAsciiCase name entry.1 = false) :
    values (injectedHeaders secrets (withOrder rule (rule.headers.erase x ++ [x])) headers) name =
      [utf8 x.2] := by
  have hvalues := values_static (withOrder rule (rule.headers.erase x ++ [x])) hauth
  rw [hvalues, withOrder, lastWritten_last hset hname]
  rfl

theorem perm_last {entries : List (Text × Text)} {x : Text × Text} (hx : x ∈ entries) :
    (entries.erase x ++ [x]).Perm entries :=
  (List.perm_append_singleton x _).trans (List.perm_cons_erase hx).symm

theorem values_perm_iff (secrets : SecretMap) (rule : HttpRule) (headers : H) :
    (∀ a b : List (Text × Text), a.Perm rule.headers → b.Perm rule.headers → ∀ name,
      values (injectedHeaders secrets (withOrder rule a) headers) name =
        values (injectedHeaders secrets (withOrder rule b) headers) name) ↔
      ¬Clashes secrets rule headers := by
  constructor
  · rintro hsame ⟨x, hx, y, hy, hname, hvalue, hsetX, hsetY, hauth⟩
    have horders := hsame _ _ (perm_last hx) (perm_last hy) x.1
    rw [values_last hsetX (eqIgnoreAsciiCase_refl _) hauth,
      values_last hsetY hname hauth] at horders
    exact hvalue (utf8_injective (List.singleton_inj.mp horders))
  · intro hclash a b ha hb name
    by_cases hauth : ∃ entry, authEntry secrets rule = some entry ∧
        (set headers entry.1 entry.2).1 = true ∧ eqIgnoreAsciiCase name entry.1 = true
    · obtain ⟨entry, hentry, hset, hname⟩ := hauth
      have hwritten := fun order => (injected secrets (withOrder rule order) headers).auth entry
        (authWritten_checked.mpr ⟨hentry, hset⟩) name hname
      rw [hwritten, hwritten]
    · have hother : ∀ entry, authEntry secrets rule = some entry →
          (set headers entry.1 entry.2).1 = true → eqIgnoreAsciiCase name entry.1 = false := by
        intro entry hentry hset
        rw [← Bool.not_eq_true]
        exact fun hname => hauth ⟨entry, hentry, hset, hname⟩
      have hlast := lastWritten_perm hclash ha hb hother
      rw [values_static (withOrder rule a) hother, values_static (withOrder rule b) hother]
      dsimp only [withOrder]
      rw [hlast]

/-- A forwarded request has the same headers in every order of its rule's hash map
exactly when no two of its static headers clash. -/
theorem handleRequest_order_iff (handler next : CelilyHandler) (now : UInt64) (ctx : HttpContext)
    (request sent : ProxyRequest H B)
    (hrun : handler.handleRequest now ctx request = .ok (.request sent, next)) :
    ∃ target index rule, Admitted handler.subnet ctx request target ∧
      Selects handler.rules target index rule ∧
      ((∀ a b : List (Text × Text), a.Perm rule.headers → b.Perm rule.headers →
        ∃ sentA sentB nextA nextB,
          (reordered handler index rule a).handleRequest now ctx request =
            .ok (.request sentA, nextA) ∧
          (reordered handler index rule b).handleRequest now ctx request =
            .ok (.request sentB, nextB) ∧
          ∀ name, values sentA.head.headers name = values sentB.head.headers name) ↔
        ¬Clashes handler.authSecrets rule request.head.headers) := by
  cases gate_of_run hrun with
  | forwarded target index rule admitted selects hroom =>
    refine ⟨target, index, rule, admitted, selects, ?_⟩
    rw [← values_perm_iff]
    constructor
    · intro horders a b ha hb name
      obtain ⟨sentA, sentB, nextA, nextB, hrunA, hrunB, hvalues⟩ := horders a b ha hb
      obtain ⟨_, hgateA⟩ := gate_reordered admitted selects hroom a
      obtain ⟨_, hgateB⟩ := gate_reordered admitted selects hroom b
      obtain rfl := sent_unique hgateA hrunA
      obtain rfl := sent_unique hgateB hrunB
      exact hvalues name
    · intro hvalues a b ha hb
      obtain ⟨nextA, hgateA⟩ := gate_reordered admitted selects hroom a
      obtain ⟨nextB, hgateB⟩ := gate_reordered admitted selects hroom b
      exact ⟨_, _, nextA, nextB, hgateA, hgateB, hvalues a b ha hb⟩

end Checked

theorem handleRequest_order_iff_api : ∃ sent next,
    apiHandler.handleRequest 0 apiContext apiRequest = .ok (.request sent, next) ∧
      ∃ index rule, apiHandler.rules[index]? = some (.http rule) ∧
        ((∀ a b : List (Text × Text), a.Perm rule.headers → b.Perm rule.headers →
          ∃ sentA sentB nextA nextB,
            (reordered apiHandler index rule a).handleRequest 0 apiContext apiRequest =
              .ok (.request sentA, nextA) ∧
            (reordered apiHandler index rule b).handleRequest 0 apiContext apiRequest =
              .ok (.request sentB, nextB) ∧
            ∀ name, values sentA.head.headers name = values sentB.head.headers name) ↔
          ¬Clashes apiHandler.authSecrets rule apiRequest.head.headers) := by
  obtain ⟨sent, next, hrun⟩ := apiHandler_forwards
  obtain ⟨_, index, rule, _, selects, hiff⟩ :=
    handleRequest_order_iff apiHandler next 0 apiContext apiRequest sent hrun
  exact ⟨sent, next, hrun, index, rule, selects.rule_at, hiff⟩

/-- `headers = { X-Team = "blue", x-team = "red" }`. -/
def teamConfig : ConfigHttpRule where
  host := "api.example.com".toList
  ports := none
  pathPrefixes := none
  auth := none
  headers := [("X-Team".toList, "blue".toList), ("x-team".toList, "red".toList)]
  methods := none
  quota := none

def teamRule : HttpRule where
  scheme := .https
  host := teamConfig.host
  ports := [443]
  pathPrefixes := none
  auth := none
  headers := teamConfig.headers
  methods := none
  quota := none

def teamHandler (rule : HttpRule) : CelilyHandler := .new [.http rule] [] apiHandler.subnet

/-- The two orders of two keys that differ in case send two different headers. -/
theorem teamRule_orders : teamConfig.intoLibrary .https = .ok (.http teamRule) ∧
    ∃ order, order.Perm teamRule.headers ∧ ∃ sentA sentB nextA nextB,
      (teamHandler teamRule).handleRequest 0 apiContext apiRequest = .ok (.request sentA, nextA) ∧
      (teamHandler (withOrder teamRule order)).handleRequest 0 apiContext apiRequest =
        .ok (.request sentB, nextB) ∧
      ¬∀ name, values sentA.head.headers name = values sentB.head.headers name := by
  refine ⟨rfl, teamRule.headers.reverse, List.reverse_perm _, ?_⟩
  have hteam : Allows teamRule apiTarget :=
    ⟨rfl, by decide, by decide, rfl, by decide⟩
  have hselects : ∀ order, Selects (teamHandler (withOrder teamRule order)).rules
      apiTarget 0 (withOrder teamRule order) := by
    intro order
    refine ⟨rfl, ⟨hteam.scheme, hteam.host, hteam.port, hteam.path, hteam.method⟩, ?_⟩
    intro j hj
    omega
  have hgate : ∀ order, Gate (teamHandler (withOrder teamRule order)) 0 apiContext apiRequest _ _ :=
    fun order => .forwarded apiTarget 0 (withOrder teamRule order) apiRequest_admitted
      (hselects order) (by intro quota hquota; cases hquota)
  refine ⟨_, _, _, _, (hgate teamRule.headers).runs, (hgate teamRule.headers.reverse).runs, ?_⟩
  intro hsame
  exact absurd (hsame "x-team".toList) (by decide +kernel)

end HeaderInjection
