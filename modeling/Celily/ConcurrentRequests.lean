import Celily.QuotaAccounting
import Celily.LockedSections

/-!
# Requests at the same time

The proxy clones its handler for every connection, and the clones share the quota
windows, each under its own lock. A request runs its checks on shared data that never
changes, takes the lock of its rule's window, reads the clock, counts itself and gives
the lock back. However the steps of all requests interleave, they are answered as if
they had been handled one after the other, at clock readings in the order of the clock.
-/

namespace ConcurrentRequests

open RustText NetworkRules HeaderMaps BridgeSubnets ProxyHandler QuotaWindows SecretFlow
open QuotaAccounting LockedSections

section Requests
variable {H B J : Type} [HeaderMap H]

structure Client (H B : Type) where
  ctx : HttpContext
  request : ProxyRequest H B

/-- How far a request comes without the quota lock: to its answer, or to the window
that it is counted in. -/
inductive Entry (H B : Type) where
  | answered (answer : RequestOrResponse H B)
  | counted (index : Nat) (rule : HttpRule) (quota : QuotaConfig)

def forward (handler : CelilyHandler) (rule : HttpRule) (request : ProxyRequest H B) :
    RequestOrResponse H B :=
  .request (request.withHeaders
    (injectedHeaders handler.authSecrets rule request.head.headers))

/-- What is before the quota lock once a rule has been found. -/
def enterRule (handler : CelilyHandler) (request : ProxyRequest H B) (index : Nat) :
    Except Panic (Entry H B) :=
  match handler.rules[index]? with
  | none => .error .indexOutOfBounds
  | some (.tcp _ _) => .error .unreachableCode
  | some (.http rule) =>
    match rule.quota with
    | none => .ok (.answered (forward handler rule request))
    | some quota => .ok (.counted index rule quota)

/-- The part of `handle_request` before the quota lock. -/
def enter (handler : CelilyHandler) (client : Client H B) : Except Panic (Entry H B) :=
  let request := client.request
  if !handler.subnet.hasInstance client.ctx.remoteAddr.ip then
    .ok (.answered (.response .forbidden "Not a client of this proxy\n".toList))
  else
    match request.head.uri.host with
    | none => .ok (.answered (.response .badRequest "request is missing a host\n".toList))
    | some host =>
      match httpScheme request.head.uri.schemeStr with
      | none => .ok (.answered (.response .badRequest "request is not http or https\n".toList))
      | some scheme =>
        if methodOverrideHeaders.any (containsKey request.head.headers) then
          .ok (.answered (.response .forbidden "Method override headers are not allowed\n".toList))
        else
          let target := request.target host scheme
          match handler.rules.findIdx? (fun rule => ruleMatches rule target) with
          | none => .ok (.answered (.response .forbidden "Blocked by network policy\n".toList))
          | some index => enterRule handler request index

/-- The part under the lock, with the answer that follows from it. -/
def count (handler : CelilyHandler) (rule : HttpRule) (quota : QuotaConfig)
    (request : ProxyRequest H B) (now : UInt64) (window : QuotaWindow) :
    RequestOrResponse H B × QuotaWindow :=
  let taken := window.tryTake quota now
  (if taken.1 then forward handler rule request
    else .response .tooManyRequests "Request quota exceeded\n".toList, taken.2)

/-- All requests of the clients `J`, as jobs on the quota windows. -/
def requests (handler : CelilyHandler) (clients : J → Client H B) :
    Service J Nat QuotaWindow UInt64 (Except Panic (RequestOrResponse H B)) where
  lock j :=
    match enter handler (clients j) with
    | .ok (.counted index _ _) => some index
    | _ => none
  direct j :=
    match enter handler (clients j) with
    | .ok (.answered answer) => .ok answer
    | .ok (.counted _ _ _) => .error .unreachableCode
    | .error panic => .error panic
  work j now window :=
    match enter handler (clients j) with
    | .ok (.counted _ rule quota) =>
      let counted := count handler rule quota (clients j).request now window
      (.ok counted.1, counted.2)
    | _ => (.error .unreachableCode, window)

/-- The windows of the rules, by their index. -/
def windows (handler : CelilyHandler) (index : Nat) : QuotaWindow :=
  handler.quotas[index]?.getD .default

def withWindows (handler : CelilyHandler) (cells : Nat → QuotaWindow) : CelilyHandler where
  rules := handler.rules
  authSecrets := handler.authSecrets
  quotas := (List.range handler.rules.length).map cells
  subnet := handler.subnet
  quotas_length := by simp

/-- The proxy before the first request, at some clock reading. -/
def begin (handler : CelilyHandler) (clock : UInt64) :
    State J Nat QuotaWindow UInt64 (Except Panic (RequestOrResponse H B)) :=
  State.start clock (windows handler)

def arrival (clients : J → Client H B) (entry : J × UInt64) : Arrival H B where
  now := entry.2
  ctx := (clients entry.1).ctx
  request := (clients entry.1).request

/-! ## One request -/

theorem withWindows_windows (handler : CelilyHandler) :
    withWindows handler (windows handler) = handler := by
  have hquotas : (List.range handler.rules.length).map (windows handler) = handler.quotas := by
    apply List.ext_getElem
    · simp [handler.quotas_length]
    · intro i hi hlt
      simp [windows, List.getElem?_eq_getElem hlt]
  obtain ⟨rules, secrets, quotas, subnet, hlength⟩ := handler
  simp only [withWindows, CelilyHandler.mk.injEq, true_and, and_true]
  exact hquotas

theorem withWindows_quota (handler : CelilyHandler) (cells : Nat → QuotaWindow) {index : Nat}
    {rule : NetworkRule} (hrule : handler.rules[index]? = some rule) :
    (withWindows handler cells).quotas[index]? = some (cells index) := by
  obtain ⟨hlt, _⟩ := List.getElem?_eq_some_iff.mp hrule
  simp [withWindows, List.getElem?_range hlt]

theorem setQuota_withWindows (handler : CelilyHandler) (cells : Nat → QuotaWindow) (index : Nat)
    (window : QuotaWindow) :
    (withWindows handler cells).setQuota index window =
      withWindows handler (Function.update cells index window) := by
  have hquotas : ((List.range handler.rules.length).map cells).set index window =
      (List.range handler.rules.length).map (Function.update cells index window) := by
    apply List.ext_getElem
    · simp
    · intro i hi hlt
      by_cases hindex : index = i
      · subst hindex
        simp
      · simp [List.getElem_set_ne hindex, Function.update_of_ne (Ne.symm hindex)]
  simp only [CelilyHandler.setQuota, withWindows, hquotas]

/-- What is left of a request once it has entered. -/
def complete (handler : CelilyHandler) (cells : Nat → QuotaWindow) (now : UInt64)
    (request : ProxyRequest H B) (entry : Entry H B) : RequestOrResponse H B × CelilyHandler :=
  match entry with
  | .answered answer => (answer, withWindows handler cells)
  | .counted index rule quota =>
    let counted := count handler rule quota request now (cells index)
    (counted.1, withWindows handler (Function.update cells index counted.2))

theorem serve_enterRule (handler : CelilyHandler) (cells : Nat → QuotaWindow) (now : UInt64)
    (request : ProxyRequest H B) (index : Nat) :
    (withWindows handler cells).serve now request index =
      (enterRule handler request index).map (complete handler cells now request) := by
  have hrules : (withWindows handler cells).rules = handler.rules := rfl
  unfold CelilyHandler.serve enterRule
  rw [hrules]
  cases hrule : handler.rules[index]? with
  | none => rfl
  | some rule =>
    cases rule with
    | tcp host ports => rfl
    | http rule =>
      cases hquota : rule.quota with
      | none =>
        simp only [CelilyHandler.takeQuota, hquota]
        rfl
      | some quota =>
        simp only [CelilyHandler.takeQuota, hquota, withWindows_quota handler cells hrule,
          setQuota_withWindows]
        cases htaken : ((cells index).tryTake quota now).1 with
        | true =>
          simp only [Except.map, complete, count, htaken]
          rfl
        | false =>
          simp only [Except.map, complete, count, htaken]
          rfl

theorem handleRequest_enter (handler : CelilyHandler) (cells : Nat → QuotaWindow)
    (now : UInt64) (client : Client H B) :
    (withWindows handler cells).handleRequest now client.ctx client.request =
      (enter handler client).map (complete handler cells now client.request) := by
  have hsubnet : (withWindows handler cells).subnet = handler.subnet := rfl
  have hrules : (withWindows handler cells).rules = handler.rules := rfl
  unfold CelilyHandler.handleRequest enter
  rw [hsubnet, hrules]
  by_cases hclient : handler.subnet.hasInstance client.ctx.remoteAddr.ip
  · simp only [hclient]
    cases client.request.head.uri.host with
    | none => rfl
    | some host =>
      cases httpScheme client.request.head.uri.schemeStr with
      | none => rfl
      | some scheme =>
        by_cases hmethod : methodOverrideHeaders.any (containsKey client.request.head.headers)
        · simp only [hmethod]
          rfl
        · simp only [hmethod]
          cases handler.rules.findIdx?
              (fun rule => ruleMatches rule (client.request.target host scheme)) with
          | none => rfl
          | some index => exact serve_enterRule handler cells now client.request index
  · simp only [hclient]
    rfl

/-- A request alone is a job alone. -/
theorem handleRequest_serve (handler : CelilyHandler) (clients : J → Client H B)
    (cells : Nat → QuotaWindow) (entry : J × UInt64) :
    (withWindows handler cells).handleRequest entry.2 (clients entry.1).ctx
        (clients entry.1).request =
      ((requests handler clients).serve cells entry).1.map fun answer =>
        (answer, withWindows handler ((requests handler clients).serve cells entry).2) := by
  rw [handleRequest_enter, Service.serve]
  cases henter : enter handler (clients entry.1) with
  | error panic =>
    simp only [requests, henter]
    rfl
  | ok found =>
    cases found with
    | answered answer =>
      simp only [requests, henter]
      rfl
    | counted index rule quota =>
      simp only [requests, henter]
      rfl

/-- A log of jobs, one after the other, is a run of the handler. -/
theorem run_serial (handler : CelilyHandler) (clients : J → Client H B)
    (cells : Nat → QuotaWindow) (log : List (J × UInt64)) :
    ∃ exchanges, run (withWindows handler cells) (log.map (arrival clients)) =
        .ok (exchanges, withWindows handler ((requests handler clients).serial cells log).2) ∧
      List.Forall₂ (fun result exchange => result.2 = .ok exchange.answer)
        ((requests handler clients).serial cells log).1 exchanges := by
  induction log generalizing cells with
  | nil => exact ⟨[], rfl, .nil⟩
  | cons entry log ih =>
    obtain ⟨answer, next, hgate⟩ := gate_total (withWindows handler cells) entry.2
      (clients entry.1).ctx (clients entry.1).request
    have hserve := handleRequest_serve handler clients cells entry
    rw [hgate.runs] at hserve
    cases hresult : ((requests handler clients).serve cells entry).1 with
    | error panic =>
      rw [hresult] at hserve
      cases hserve
    | ok served =>
      rw [hresult] at hserve
      obtain ⟨rfl, rfl⟩ := Prod.mk.inj (Except.ok.inj hserve)
      obtain ⟨exchanges, hrun, hanswers⟩ :=
        ih ((requests handler clients).serve cells entry).2
      refine ⟨⟨arrival clients entry, answer⟩ :: exchanges, ?_, .cons hresult hanswers⟩
      have hhead : (withWindows handler cells).handleRequest (arrival clients entry).now
          (arrival clients entry).ctx (arrival clients entry).request =
          .ok (answer, withWindows handler
            ((requests handler clients).serve cells entry).2) := hgate.runs
      simp only [List.map_cons, run, hhead]
      change (run _ _ >>= _) = _
      rw [hrun]
      rfl

/-! ## All requests -/

/-- The requests that have been answered, in an order in which they were handled one
after the other: `before` those answered by the time of `mid`, `after` the others. -/
structure Sequential (ticks : UInt64 → UInt64 → Prop) (handler : CelilyHandler)
    (clients : J → Client H B)
    (mid final : State J Nat QuotaWindow UInt64 (Except Panic (RequestOrResponse H B)))
    (before after : List (J × UInt64)) : Prop where
  handled : ∃ log, run handler ((before ++ after).map (arrival clients)) =
      .ok (log, withWindows handler final.cells) ∧
    List.Forall₂ (fun entry exchange => final.phase entry.1 = .finished (.ok exchange.answer))
      (before ++ after) log
  monotone : (before ++ after).Pairwise fun a b => ticks a.2 b.2
  once : ((before ++ after).map Prod.fst).Nodup
  complete : ∀ j, final.phase j = .waiting ∨ j ∈ (before ++ after).map Prod.fst
  answered : ∀ j answer, mid.phase j = .finished answer → j ∈ before.map Prod.fst
  pending : ∀ j, mid.phase j = .waiting → j ∉ before.map Prod.fst

end Requests

def limitedHandler : CelilyHandler := .new [.http limitedRule] [] apiHandler.subnet

/-- Two clients with the same request. -/
def apiClients (_ : Bool) : Client HeaderList Bytes := ⟨apiContext, apiRequest⟩

theorem apiClients_lock (j : Bool) : (requests limitedHandler apiClients).lock j = some 0 := by
  rfl

theorem le_isPreorder : IsPreorder UInt64 (· ≤ ·) where
  refl := UInt64.le_refl
  trans _ _ _ := UInt64.le_trans

section Runs
variable {H B J : Type} [HeaderMap H] [DecidableEq J] (ticks : UInt64 → UInt64 → Prop)
  [IsPreorder UInt64 ticks] (handler : CelilyHandler) (clients : J → Client H B)
  (clock : UInt64)

/-- However the steps of the requests and the ticks of the clock interleave, once no
request holds a lock the answers and the windows are those of a run of the handler in
some order, at clock readings in the order of the clock's ticks; a request that had been
answered before another one came is before it in that order. -/
theorem handled_one_by_one
    {mid final : State J Nat QuotaWindow UInt64 (Except Panic (RequestOrResponse H B))}
    (hmid : Reaches ticks (requests handler clients) (begin handler clock) mid)
    (hfinal : Reaches ticks (requests handler clients) mid final)
    (hquiet : ∀ j, ¬(final.phase j).Holds) :
    ∃ before after, Sequential ticks handler clients mid final before after := by
  obtain ⟨before, hbefore⟩ := (start_linearized ticks (requests handler clients) clock
    (windows handler)).reaches hmid
  rw [List.nil_append] at hbefore
  obtain ⟨after, hafter⟩ := hbefore.reaches hfinal
  obtain ⟨log, hrun, hanswers⟩ := run_serial handler clients (windows handler) (before ++ after)
  rw [withWindows_windows, hafter.quiet_cells hquiet] at hrun
  refine ⟨before, after, ⟨log, hrun, ?_⟩, hafter.sorted, hafter.once, ?_, ?_, ?_⟩
  · have hfinished : ∀ result ∈ ((requests handler clients).serial (windows handler)
        (before ++ after)).1, final.phase result.1 = .finished result.2 :=
      fun result hmem => hafter.quiet_results hquiet hmem
    have hphases : List.Forall₂ (fun j exchange => final.phase j = .finished (.ok exchange.answer))
        (((requests handler clients).serial (windows handler) (before ++ after)).1.map Prod.fst)
        log := by
      rw [List.forall₂_map_left_iff]
      refine ((List.forall₂_and_left _ _).mpr ⟨hfinished, hanswers⟩).imp ?_
      rintro result exchange ⟨hphase, hanswer⟩
      rw [hphase, hanswer]
    rw [serial_jobs] at hphases
    exact List.forall₂_map_left_iff.mp hphases
  · intro j
    rw [hafter.logged]
    cases hphase : final.phase j with
    | waiting => exact Or.inl rfl
    | locked => exact absurd (by rw [hphase]; trivial) (hquiet j)
    | _ => exact Or.inr trivial
  · intro j answer hphase
    rw [hbefore.logged, hphase]
    trivial
  · intro j hphase
    rw [hbefore.logged, hphase]
    exact id

theorem handled_one_by_one_api : ∃ mid final before after,
    Sequential (· ≤ ·) limitedHandler apiClients mid final before after ∧
      true ∈ before.map Prod.fst ∧ false ∉ before.map Prod.fst ∧ false ∈ after.map Prod.fst := by
  have := le_isPreorder
  have hlock := apiClients_lock
  obtain ⟨mid, answer, hmid, hanswered, hfree, hother⟩ :=
    reaches_alone (s := begin limitedHandler 3) (j := true) rfl (hlock true) rfl
  have hwaiting : mid.phase false = .waiting := hother false (by decide)
  obtain ⟨final, last, hfinal, hlast, _, hkept⟩ := reaches_alone hwaiting (hlock false) hfree
  have hquiet : ∀ j, ¬(final.phase j).Holds := by
    intro j
    cases j with
    | false =>
      rw [hlast]
      exact id
    | true =>
      rw [hkept true (by decide), hanswered]
      exact id
  obtain ⟨before, after, sequential⟩ := handled_one_by_one (· ≤ ·) limitedHandler apiClients 3 hmid
    hfinal hquiet
  have hpending := sequential.pending false hwaiting
  refine ⟨mid, final, before, after, sequential, sequential.answered true answer hanswered,
    hpending, ?_⟩
  rcases sequential.complete false with hphase | hmem
  · rw [hlast] at hphase
    cases hphase
  · rw [List.map_append, List.mem_append] at hmem
    exact hmem.resolve_left hpending

/-- Nothing that has been reached is stuck: as long as a request is not answered, some
request can go on, and no request has panicked under a lock. -/
theorem never_deadlocked
    {s : State J Nat QuotaWindow UInt64 (Except Panic (RequestOrResponse H B))}
    (hreach : Reaches ticks (requests handler clients) (begin handler clock) s) :
    (∀ j result, (s.phase j).result = some result → ∃ answer, result = .ok answer) ∧
    ∀ j, (∀ result, s.phase j ≠ .finished result) →
      ∃ k t, (∀ result, s.phase k ≠ .finished result) ∧
        JobStep (requests handler clients) k s t := by
  obtain ⟨log, hlog⟩ := (start_linearized ticks (requests handler clients) clock
    (windows handler)).reaches hreach
  rw [List.nil_append] at hlog
  refine ⟨fun j result hresult => ?_, fun j hunfinished => hlog.progress hunfinished⟩
  obtain ⟨exchanges, _, hanswers⟩ := run_serial handler clients (windows handler) log
  have hmem := hlog.results j result hresult
  obtain ⟨index, hindex⟩ := List.mem_iff_get.mp hmem
  obtain ⟨hlength, hall⟩ := List.forall₂_iff_get.mp hanswers
  have hanswer := hall index.1 index.2 (hlength ▸ index.2)
  have hresult : (((requests handler clients).serial (windows handler) log).1.get
      ⟨index.1, index.2⟩).2 = result := congrArg Prod.snd hindex
  exact ⟨_, hresult.symm.trans hanswer⟩

/-- While one of the two holds the window, the other waits, and not both are stuck. -/
theorem never_deadlocked_api : ∃ k t, JobStep (requests limitedHandler apiClients) k
    (((begin limitedHandler 3).setHolder 0 (some true)).move true .locked) t := by
  have := le_isPreorder
  have hreach : Reaches (· ≤ ·) (requests limitedHandler apiClients) (begin limitedHandler 3)
      (((begin limitedHandler 3).setHolder 0 (some true)).move true .locked) :=
    .step .refl (.job true (.acquire 0 rfl (apiClients_lock true) rfl))
  obtain ⟨_, hgo⟩ := never_deadlocked (· ≤ ·) limitedHandler apiClients 3 hreach
  obtain ⟨k, t, _, hstep⟩ := hgo false (by
    intro result hresult
    rw [move_phase_other _ (by decide)] at hresult
    cases hresult)
  exact ⟨k, t, hstep⟩

end Runs

end ConcurrentRequests
