import AgentService.Gateway.Client
import AgentService.Http.Body
import AgentService.Persistence

/-!
# The routes that write (`src/controllers/ships.controller.ts`, `contracts.controller.ts`)

A handler is an `Effect` on the trace of its request. Up to the gateway's answer none of them
touches the trace, so that part is a computation of its own; what the gateway answers to a call is
given by the environment.
-/

namespace AgentService
open Lib

/-- What a handler finds in `app.locals` and around it. -/
structure Env where
  node : Node
  /-- The address the client was built with. -/
  base : JsString
  gateway : Call → Nat → Fetched
  db : Database
  /-- The clock, in milliseconds since the epoch. -/
  now : Int

/-- What a handler reads of its request. -/
structure WriteRequest where
  routed : RoutedRequest
  authorization : Option JsString
  /-- What `readBody` comes to. -/
  body : Option BodyRead

/-- The Authorization of `callerOf`. -/
def WriteRequest.caller (req : WriteRequest) : JsString := req.authorization.getD []

namespace Env
variable (env : Env)

/-- A call of the client, to the `data` of its answer. -/
def ask (schema : Schema) (call : Call) : Except Failure Value :=
  (request env.node env.base call schema (env.gateway call)).map dataOf

/-- A call whose body is written first. -/
def askWith (schema : Schema) (call : Except TypeError Call) : Except Failure Value := do
  env.ask schema (← call.mapError fun _ => .other)

end Env

section
variable (env : Env) (req : WriteRequest)

namespace ContractsController

/-- `contractStateChange` -/
def contractStateChange (call : JsString → Bytes → Call) (schema : Schema) :
    Effect Trace Failure Value := do
  let result ← Effect.ofExcept (env.ask schema (call req.caller (segmentFromEnd req.routed 1)))
  persistContract env.db env.node.toDoubles (result.field "contract") env.now
  return result

def acceptContract : Effect Trace Failure Value :=
  contractStateChange env req AgentService.acceptContract acceptContractResponse

def fulfillContract : Effect Trace Failure Value :=
  contractStateChange env req AgentService.fulfillContract fulfillContractResponse

/-- `recordDelivery` -/
def recordDelivery : Effect Trace Failure Delivery := do
  let body ← Effect.ofExcept (decodeBody env.node.toUnicode env.node.toDoubles
    deliveryRequestSchema req.body)
  let shipSymbol := (body.field "shipSymbol").asText
  let tradeSymbol := (body.field "tradeSymbol").asText
  let units := (body.field "units").asInt
  if shipSymbol = [] ∨ tradeSymbol = [] ∨ units ≤ 0 then
    Effect.ofExcept (.error (.textAnswer 400
      (js "shipSymbol, tradeSymbol and units (>0) are required")))
  else
    let instant := instantOfDate env.now
    Effect.attempt (do
      let id ← Effect.ofExcept (symbolColumn (segmentFromEnd req.routed 1))
      let stored ← Effect.ofExcept (toSqlTime instant)
      insertDelivery env.db ⟨id, shipSymbol, tradeSymbol, units, stored⟩
      let written ← Effect.ofExcept (toRfc3339 instant)
      return ⟨id, shipSymbol, tradeSymbol, units, written⟩)
      fun err =>
        Effect.ofExcept (.error (.textAnswer 500 (js "failed to record delivery: " ++ err)))

end ContractsController

namespace ShipsController

/-- `purchaseShip` up to the gateway's answer. -/
def shipBought : Except Failure Value := do
  let body ← decodeBody env.node.toUnicode env.node.toDoubles purchaseShipRequestSchema req.body
  let shipType := (body.field "shipType").asText
  let waypointSymbol := (body.field "waypointSymbol").asText
  if shipType = [] ∨ waypointSymbol = [] then
    .error (.textAnswer 400 (js "shipType and waypointSymbol are required"))
  else
    env.askWith purchaseShipResponse (AgentService.purchaseShip env.node.toDoubles req.caller
      shipType waypointSymbol)

def purchaseShip : Effect Trace Failure Value := do
  let result ← Effect.ofExcept (shipBought env req)
  persistShipPurchase env.db result env.now
  return result

/-- `tradeCargo` up to the gateway's answer. -/
def cargoTraded (call : Doubles → JsString → Bytes → JsString → Int → Except TypeError Call) :
    Except Failure Value := do
  let body ← decodeBody env.node.toUnicode env.node.toDoubles cargoTransactionRequestSchema req.body
  let symbol := (body.field "symbol").asText
  let units := (body.field "units").asInt
  if symbol = [] ∨ units ≤ 0 then .error (.textAnswer 400 (js "symbol and units (>0) are required"))
  else
    env.askWith marketTransactionResponse
      (call env.node.toDoubles req.caller (segmentFromEnd req.routed 1) symbol units)

/-- `tradeCargo` -/
def tradeCargo (type : TransactionType)
    (call : Doubles → JsString → Bytes → JsString → Int → Except TypeError Call) :
    Effect Trace Failure Value := do
  let result ← Effect.ofExcept (cargoTraded env req call)
  persistCargoTrade env.db type (segmentFromEnd req.routed 1) result env.now
  return result

def purchaseCargo : Effect Trace Failure Value :=
  tradeCargo env req .purchase AgentService.purchaseCargo

def sellCargo : Effect Trace Failure Value := tradeCargo env req .sell AgentService.sellCargo

end ShipsController

end

/-- The routes that write. -/
inductive WriteRoute where
  | acceptContract
  | fulfillContract
  | purchaseShip
  | purchaseCargo
  | sellCargo
  deriving DecidableEq, Repr

namespace WriteRoute
variable (env : Env) (req : WriteRequest)

def handler : WriteRoute → Effect Trace Failure Value
  | acceptContract => ContractsController.acceptContract env req
  | fulfillContract => ContractsController.fulfillContract env req
  | purchaseShip => ShipsController.purchaseShip env req
  | purchaseCargo => ShipsController.purchaseCargo env req
  | sellCargo => ShipsController.sellCargo env req

/-- A request served: what the caller is answered and what is left behind. -/
def serve (route : WriteRoute) : Handled × Trace :=
  let (result, trace) := route.handler env req ⟨[], []⟩
  (respond env.node.toDoubles result, trace)

/-- What the gateway resolves with, or what is thrown before it does. -/
def upstream : WriteRoute → Except Failure Value
  | acceptContract =>
    env.ask acceptContractResponse (AgentService.acceptContract req.caller
      (segmentFromEnd req.routed 1))
  | fulfillContract =>
    env.ask fulfillContractResponse (AgentService.fulfillContract req.caller
      (segmentFromEnd req.routed 1))
  | purchaseShip => ShipsController.shipBought env req
  | purchaseCargo => ShipsController.cargoTraded env req AgentService.purchaseCargo
  | sellCargo => ShipsController.cargoTraded env req AgentService.sellCargo

/-- The step after it. -/
def persist (result : Value) : WriteRoute → Effect Trace Failure Unit
  | acceptContract | fulfillContract =>
    persistContract env.db env.node.toDoubles (result.field "contract") env.now
  | purchaseShip => persistShipPurchase env.db result env.now
  | purchaseCargo => persistCargoTrade env.db .purchase (segmentFromEnd req.routed 1) result env.now
  | sellCargo => persistCargoTrade env.db .sell (segmentFromEnd req.routed 1) result env.now

end WriteRoute

end AgentService
