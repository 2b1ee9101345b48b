import AgentService.Controllers.Hangup
import AgentService.Routes

/-!
# Who may do what

The routes, their declarations and their handlers together: which requests come to a row of the
history or to a call of the gateway, over any run of requests, and what auth-service had said of the
caller.
-/

namespace AgentService
open Lib

theorem post_of_takes {method : JsString} (h : Verb.post.takes method = true) :
    method = js "POST" := by
  simp only [Verb.takes, Bool.or_eq_true, Bool.and_eq_true, beq_iff_eq, reduceCtorEq, false_and,
    or_false] at h
  exact h.symm

/-! ## Who writes to the history -/

/-- What an operation asks the gateway for. -/
def Operation.gatewayRoute : Operation → Option GatewayRoute
  | getCurrentAgent => some .getCurrentAgent
  | getAgent => some .getAgent
  | getShips => some .getShips
  | getShip => some .getShip
  | getContracts => some .getContracts
  | getContract => some .getContract
  | write route => some route.gatewayRoute
  | _ => none

/-- The endpoints of the gateway's game API that a route comes to, for the symbol in its path. -/
def GatewayRoute.endpoints (symbol : Bytes) : GatewayRoute → List JsString
  | getCurrentAgent => [js "/my/agent", js "/my/ships", js "/my/contracts"]
  | getAgent => [js "/my/agent"]
  | getShips => [js "/my/ships"]
  | getShip => [js "/my/ships/" ++ pathEscape symbol]
  | getContracts => [js "/my/contracts"]
  | getContract => [js "/my/contracts/" ++ pathEscape symbol]
  | acceptContract => [js "/my/contracts/" ++ pathEscape symbol ++ js "/accept"]
  | fulfillContract => [js "/my/contracts/" ++ pathEscape symbol ++ js "/fulfill"]
  | purchaseShip => [js "/my/ships"]
  | purchaseCargo => [js "/my/ships/" ++ pathEscape symbol ++ js "/purchase"]
  | sellCargo => [js "/my/ships/" ++ pathEscape symbol ++ js "/sell"]

/-- A session reads with the gateway, and one with `fleet:control` also writes, on a
request that does. -/
inductive Entitled (app : App Operation) (req : Incoming) : JsString → Prop
  | reads (haccepted : app.auth .requireSession req = none) : Entitled app req (js "GET")
  | writes (hmethod : req.method = js "POST")
      (haccepted : app.auth (.requireScope SCOPE_FLEET_CONTROL) req = none) :
      Entitled app req (js "POST")

section
variable {node : Node} {routed : RoutedRequest} {caller : JsString} {body : Value} {asks : List Ask}

/-- A route that makes one call. -/
theorem asks_one {call : Call} {schema : Schema} {method : JsString} {endpoint : JsString}
    (h : Except.ok [⟨call, schema⟩] = (Except.ok asks : Except Failure (List Ask)))
    (hmethod : call.method = method)
    (hendpoint : call.endpoint = endpoint) (hcaller : call.authorization = caller) :
    asks.map (·.call.endpoint) = [endpoint] ∧ ∀ a ∈ asks, a.call.method = method ∧
      a.call.authorization = caller := by
  cases h
  exact ⟨by rw [List.map_singleton, hendpoint], List.forall_mem_singleton.mpr ⟨hmethod, hcaller⟩⟩

/-- The call of a purchase. -/
theorem purchaseAsk_call {ask : Ask} (h : GatewayRoute.purchaseAsk node caller body = .ok ask) :
    ask.call.method = js "POST" ∧ ask.call.endpoint = js "/my/ships" ∧
      ask.call.authorization = caller := by
  unfold GatewayRoute.purchaseAsk at h
  dsimp only at h
  split at h
  · cases h
  · obtain ⟨call, hcall, h⟩ := bind_eq_ok.mp h
    cases h
    obtain ⟨text, -, hcall⟩ := bind_eq_ok.mp (mapError_eq_ok.mp hcall)
    cases hcall
    exact ⟨rfl, rfl, rfl⟩

/-- The call of a trade. -/
theorem tradeAsk_call {ask : Ask} {action : String}
    (h : GatewayRoute.tradeAsk node routed caller
      (fun doubles caller ship => tradeCargo doubles caller ship action) body = .ok ask) :
    ask.call.method = js "POST" ∧
      ask.call.endpoint = js "/my/ships/" ++ pathEscape (segmentFromEnd routed 1) ++
        js "/" ++ js action ∧
      ask.call.authorization = caller := by
  unfold GatewayRoute.tradeAsk at h
  dsimp only at h
  split at h
  · cases h
  · obtain ⟨call, hcall, h⟩ := bind_eq_ok.mp h
    cases h
    obtain ⟨text, -, hcall⟩ := bind_eq_ok.mp (mapError_eq_ok.mp hcall)
    cases hcall
    exact ⟨rfl, rfl, rfl⟩

/-- The calls of an operation: its endpoints, with its own verb and the caller's header. -/
theorem Operation.asks_spec {op : Operation} {route : GatewayRoute}
    (hroute : op.gatewayRoute = some route) (h : route.asks node routed caller body = .ok asks) :
    asks.map (·.call.endpoint) = route.endpoints (symbolOf routed op.symbolFromEnd) ∧
      ∀ a ∈ asks, a.call.method = op.verb.method ∧ a.call.authorization = caller := by
  have htrade {action : String} {endpoint : JsString}
      (hendpoint : js "/my/ships/" ++ pathEscape (segmentFromEnd routed 1) ++ js "/" ++
        js action = endpoint)
      (h : (GatewayRoute.tradeAsk node routed caller
        (fun doubles caller ship => tradeCargo doubles caller ship action) body).map
        ([·]) = .ok asks) :
      asks.map (·.call.endpoint) = [endpoint] ∧ ∀ a ∈ asks, a.call.method = js "POST" ∧
        a.call.authorization = caller := by
    obtain ⟨ask, hask, rfl⟩ := map_eq_ok.mp h
    obtain ⟨hmethod, hwhere, hcaller⟩ := tradeAsk_call hask
    exact asks_one rfl hmethod (hwhere.trans hendpoint) hcaller
  cases op with
  | getCurrentAgent =>
    cases hroute
    cases h
    exact ⟨rfl, by simp [getMyAgent, getMyShips, getMyContracts, Operation.verb, Verb.method]⟩
  | getAgent | getShips | getShip | getContracts | getContract =>
    cases hroute
    exact asks_one h rfl rfl rfl
  | write write =>
    cases hroute
    cases write with
    | acceptContract => exact asks_one h rfl rfl rfl
    | fulfillContract => exact asks_one h rfl rfl rfl
    | purchaseShip =>
      obtain ⟨ask, hask, rfl⟩ := map_eq_ok.mp h
      obtain ⟨hmethod, hwhere, hcaller⟩ := purchaseAsk_call hask
      exact asks_one rfl hmethod hwhere hcaller
    | purchaseCargo => exact htrade (by rw [List.append_assoc]; rfl) h
    | sellCargo => exact htrade (by rw [List.append_assoc]; rfl) h
  | _ => cases hroute

/-- What reads with the gateway needs a session, and what writes needs `fleet:control`. -/
theorem Operation.gateway_declaration {op : Operation} {route : GatewayRoute}
    (hroute : op.gatewayRoute = some route) :
    (op.verb = .get ∧ op.declaration = .requireSession) ∨
      (op.verb = .post ∧ op.declaration = .requireScope SCOPE_FLEET_CONTROL) := by
  cases op with
  | getCurrentAgent | getAgent | getShips | getShip | getContracts | getContract =>
    exact .inl ⟨rfl, by decide +kernel⟩
  | write write => cases write <;> exact .inr ⟨rfl, by decide +kernel⟩
  | _ => cases hroute

/-- Every call made for a request goes to the endpoint of its route, with the symbol of its path and
the header it came with, and only after auth-service had said that its caller has a session, with
`fleet:control` where the call writes. -/
theorem gateway_needs_session {app : App Operation} {routes : List (Route Operation)}
    (hroutes : registerRoutes routePolicy routes = .ok app.routes) (hperm : routes.Perm ROUTES)
    {req : Incoming}
    {r : DeclaredRoute Operation} (hreached : (app.serve req).reached = some (routed, r))
    {route : GatewayRoute}
    (hroute : r.handler.gatewayRoute = some route)
    (hasks : route.asks node routed (req.authorization.getD []) body = .ok asks) :
    asks.map (·.call.endpoint) = route.endpoints (symbolOf routed r.handler.symbolFromEnd) ∧
      ∀ a ∈ asks, a.call.authorization = req.authorization.getD [] ∧
      Entitled app req a.call.method := by
  have hruns := runs_of_reached hroutes hperm hreached
  obtain ⟨hendpoints, hcalls⟩ := r.handler.asks_spec hroute hasks
  refine ⟨hendpoints, fun a ha => ?_⟩
  obtain ⟨hmethod, hcaller⟩ := hcalls a ha
  refine ⟨hcaller, ?_⟩
  have haccepted := hruns.accepted
  rcases Operation.gateway_declaration hroute with ⟨hverb, hdeclaration⟩ | ⟨hverb, hdeclaration⟩
  · rw [hdeclaration] at haccepted
    rw [hmethod, hverb]
    exact .reads haccepted
  · rw [hdeclaration] at haccepted
    rw [hmethod, hverb]
    exact .writes (post_of_takes (hverb ▸ hruns.method)) haccepted

/-- A ship whose symbol has a space. -/
def shipIncoming : Incoming where
  method := js "GET"
  url := js "/api/agent/v1/ships/S%201"
  authorization := some (js "Bearer t")
  body := none

theorem gateway_needs_session_ship :
    ∃ asks : List Ask, asks.map (·.call.endpoint) = [js "/my/ships/S%201"] ∧
      ∀ a ∈ asks, a.call.authorization = js "Bearer t" ∧
      Entitled openApp shipIncoming a.call.method := by
  have hreached : (openApp.serve shipIncoming).reached =
      some (⟨latin1Encode (js "/api/agent/v1/ships/S 1"), js "/api/agent/v1/ships/S%201"⟩,
        declare routePolicy Operation.getShip.route) := by
    decide +kernel
  obtain ⟨hendpoints, hcalls⟩ :=
    gateway_needs_session registerRoutes_routes (List.Perm.refl _) hreached rfl
      (show GatewayRoute.getShip.asks plainNode _ _ .null = .ok _ from rfl)
  exact ⟨_, hendpoints.trans (by decide +kernel), hcalls⟩

end

end AgentService
