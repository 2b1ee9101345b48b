import AgentService.Gateway.Follow
import AgentService.Gateway.Value
import AgentService.Http.RoutedPath
import Mathlib.Data.List.DropRight

/-!
# The calls of the gateway client (`src/gateway/client.ts`)

What each method of `GatewayClient` sends, under the method's name, and the six routes whose
path carries a symbol for one of them. A route's path is its key in `routePolicy`
(`src/auth.ts`); Express matches it against the rewritten URL, segment by segment, with the
case and the trailing slash significant.
-/

namespace AgentService
open Lib

/-- `gatewayProxyUrl` (`src/config.ts`): `ST_GATEWAY_URL` without its trailing
slashes, and `/proxy`. -/
def gatewayProxyUrl (stGatewayUrl : JsString) : JsString :=
  stGatewayUrl.rdropWhile (· == 0x2f) ++ js "/proxy"

section
variable (doubles : Doubles) (authorization : JsString)

def getMyAgent : Call := ⟨js "GET", js "/my/agent", authorization, none⟩

def getMyShips : Call := ⟨js "GET", js "/my/ships", authorization, none⟩

def getMyShip (symbol : Bytes) : Call :=
  ⟨js "GET", js "/my/ships/" ++ pathEscape symbol, authorization, none⟩

def getMyContracts : Call := ⟨js "GET", js "/my/contracts", authorization, none⟩

def getMyContract (id : Bytes) : Call :=
  ⟨js "GET", js "/my/contracts/" ++ pathEscape id, authorization, none⟩

def acceptContract (id : Bytes) : Call :=
  ⟨js "POST", js "/my/contracts/" ++ pathEscape id ++ js "/accept", authorization, none⟩

def fulfillContract (id : Bytes) : Call :=
  ⟨js "POST", js "/my/contracts/" ++ pathEscape id ++ js "/fulfill", authorization, none⟩

def purchaseShip (shipType waypointSymbol : JsString) : Except TypeError Call := do
  let body ← stringifyJson doubles
    (.struct [(js "shipType", .text shipType), (js "waypointSymbol", .text waypointSymbol)])
  return ⟨js "POST", js "/my/ships", authorization, some body⟩

def tradeCargo (shipSymbol : Bytes) (action : String) (tradeSymbol : JsString) (units : Int) :
    Except TypeError Call := do
  let body ← stringifyJson doubles (.struct [(js "symbol", .text tradeSymbol),
    (js "units", .int units)])
  return ⟨js "POST", js "/my/ships/" ++ pathEscape shipSymbol ++ js "/" ++ js action,
    authorization, some body⟩

def purchaseCargo (shipSymbol : Bytes) (tradeSymbol : JsString) (units : Int) :
    Except TypeError Call :=
  tradeCargo doubles authorization shipSymbol "purchase" tradeSymbol units

def sellCargo (shipSymbol : Bytes) (tradeSymbol : JsString) (units : Int) : Except TypeError Call :=
  tradeCargo doubles authorization shipSymbol "sell" tradeSymbol units

end

/-- The routes with a symbol in their path that call the gateway. -/
inductive SymbolRoute where
  | getShip
  | getContract
  | acceptContract
  | fulfillContract
  | purchaseCargo
  | sellCargo
  deriving DecidableEq, Repr

namespace SymbolRoute

/-- The path as tsoa registers it. -/
def path : SymbolRoute → String
  | getShip => "/api/agent/v1/ships/:shipSymbol"
  | getContract => "/api/agent/v1/contracts/:contractId"
  | acceptContract => "/api/agent/v1/contracts/:contractId/accept"
  | fulfillContract => "/api/agent/v1/contracts/:contractId/fulfill"
  | purchaseCargo => "/api/agent/v1/ships/:shipSymbol/purchase"
  | sellCargo => "/api/agent/v1/ships/:shipSymbol/sell"

/-- The symbol the handler hands to the client. -/
def symbolOf (route : SymbolRoute) (req : RoutedRequest) : Bytes :=
  match route with
  | getShip | getContract => lastSegmentOf req
  | acceptContract | fulfillContract | purchaseCargo | sellCargo => segmentFromEnd req 1

/-- One segment of a registered path against one of the URL: a `:variable` takes any
but the empty one. -/
def MatchesSegment (pattern seg : JsString) : Prop :=
  if pattern.head? = some 0x3a then seg ≠ [] else seg = pattern

instance (pattern seg : JsString) : Decidable (MatchesSegment pattern seg) := by
  unfold MatchesSegment
  infer_instance

/-- The router takes the request to the handler of this route. -/
def Handles (route : SymbolRoute) (req : RoutedRequest) : Prop :=
  List.Forall₂ MatchesSegment ((js route.path).splitOn 0x2f) ((before 0x3f req.url).splitOn 0x2f)

instance (route : SymbolRoute) (req : RoutedRequest) : Decidable (route.Handles req) := by
  unfold Handles
  infer_instance

/-- What the handler asks the client for: the call for a symbol, whoever asks and
whatever is traded. -/
inductive Asks (doubles : Doubles) : SymbolRoute → Bytes → Call → Prop
  | getShip (authorization symbol) : Asks doubles getShip symbol (getMyShip authorization symbol)
  | getContract (authorization id) : Asks doubles getContract id (getMyContract authorization id)
  | acceptContract (authorization id) :
      Asks doubles acceptContract id (AgentService.acceptContract authorization id)
  | fulfillContract (authorization id) :
      Asks doubles fulfillContract id (AgentService.fulfillContract authorization id)
  | purchaseCargo {authorization ship good units call}
      (h : AgentService.purchaseCargo doubles authorization ship good units = .ok call) :
      Asks doubles purchaseCargo ship call
  | sellCargo {authorization ship good units call}
      (h : AgentService.sellCargo doubles authorization ship good units = .ok call) :
      Asks doubles sellCargo ship call

/-- The segments of the endpoint around one for the symbol. -/
def endpointSegments (route : SymbolRoute) (seg : JsString) : List JsString :=
  match route with
  | getShip => [js "my", js "ships", seg]
  | getContract => [js "my", js "contracts", seg]
  | acceptContract => [js "my", js "contracts", seg, js "accept"]
  | fulfillContract => [js "my", js "contracts", seg, js "fulfill"]
  | purchaseCargo => [js "my", js "ships", seg, js "purchase"]
  | sellCargo => [js "my", js "ships", seg, js "sell"]

/-- The endpoint of a trade, when its body can be written. -/
theorem tradeCargo_endpoint {doubles : Doubles} {authorization : JsString} {ship : Bytes}
    {action : String} {good : JsString} {units : Int} {call : Call}
    (h : tradeCargo doubles authorization ship action good units = .ok call) :
    call.endpoint = js "/my/ships/" ++ pathEscape ship ++ js "/" ++ js action := by
  obtain ⟨body, -, hcall⟩ := bind_eq_ok.mp h
  cases hcall
  rfl

/-- A call's endpoint is its route's segments, each behind a slash, with the symbol escaped. -/
theorem endpoint_of_asks {doubles : Doubles} {route : SymbolRoute} {symbol : Bytes} {call : Call}
    (h : Asks doubles route symbol call) :
    call.endpoint = (route.endpointSegments (pathEscape symbol)).flatMap (0x2f :: ·) := by
  have hships : js "/my/ships/" = 0x2f :: js "my" ++ 0x2f :: js "ships" ++ [0x2f] := rfl
  have hcontracts : js "/my/contracts/" = 0x2f :: js "my" ++ 0x2f :: js "contracts" ++ [0x2f] := rfl
  have hslash (s : String) : js "/" ++ js s = 0x2f :: js s := rfl
  have haccept : js "/accept" = 0x2f :: js "accept" := rfl
  have hfulfill : js "/fulfill" = 0x2f :: js "fulfill" := rfl
  cases h with
  | getShip => simp [getMyShip, endpointSegments, hships]
  | getContract => simp [getMyContract, endpointSegments, hcontracts]
  | acceptContract => simp [AgentService.acceptContract, endpointSegments, hcontracts, haccept]
  | fulfillContract => simp [AgentService.fulfillContract, endpointSegments, hcontracts, hfulfill]
  | purchaseCargo h =>
    rw [tradeCargo_endpoint h, List.append_assoc, hslash]
    simp [endpointSegments, hships]
  | sellCargo h =>
    rw [tradeCargo_endpoint h, List.append_assoc, hslash]
    simp [endpointSegments, hships]

end SymbolRoute

end AgentService
