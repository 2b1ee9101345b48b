import AgentService.Controllers.Hangup
import AgentService.Controllers.HistoryAnswers
import AgentService.Gateway.RoundTrip

/-!
# What goes through the service (`src/controllers/agent.controller.ts`)

The live reads, and with them what becomes of a value the gateway answered: the caller reads the
same value from the bytes of the answer, and the JSON kept of a contract is read as the contract.
-/

namespace AgentService
open Lib

/-! ## The live reads -/

namespace AgentController
variable (env : Env) (req : WriteRequest)

/-- The three reads one after another; the first failure is the answer. -/
def getCurrentAgent : Except Failure Value := do
  let agent ← env.ask getMyAgentResponse (getMyAgent req.caller)
  let ships ← env.ask getMyShipsResponse (getMyShips req.caller)
  let contracts ← env.ask getMyContractsResponse (getMyContracts req.caller)
  return .struct [(js "agent", agent), (js "ships", ships), (js "contracts", contracts)]

def getAgent : Except Failure Value := env.ask getMyAgentResponse (getMyAgent req.caller)

def getShips : Except Failure Value := env.ask getMyShipsResponse (getMyShips req.caller)

def getShip : Except Failure Value :=
  env.ask getMyShipResponse (getMyShip req.caller (lastSegmentOf req.routed))

def getContracts : Except Failure Value :=
  env.ask getMyContractsResponse (getMyContracts req.caller)

def getContract : Except Failure Value :=
  env.ask getMyContractResponse (getMyContract req.caller (lastSegmentOf req.routed))

end AgentController

namespace GatewayRoute
variable (env : Env) (req : WriteRequest)

/-- What a handler answers with, or throws. -/
def result : GatewayRoute → Except Failure Value
  | getCurrentAgent => AgentController.getCurrentAgent env req
  | getAgent => AgentController.getAgent env req
  | getShips => AgentController.getShips env req
  | getShip => AgentController.getShip env req
  | getContracts => AgentController.getContracts env req
  | getContract => AgentController.getContract env req
  | acceptContract => WriteRoute.acceptContract.upstream env req
  | fulfillContract => WriteRoute.fulfillContract.upstream env req
  | purchaseShip => WriteRoute.purchaseShip.upstream env req
  | purchaseCargo => WriteRoute.purchaseCargo.upstream env req
  | sellCargo => WriteRoute.sellCargo.upstream env req

/-- What the caller gets; the writes record in between. -/
def served : GatewayRoute → Handled
  | acceptContract => (WriteRoute.acceptContract.serve env req).1
  | fulfillContract => (WriteRoute.fulfillContract.serve env req).1
  | purchaseShip => (WriteRoute.purchaseShip.serve env req).1
  | purchaseCargo => (WriteRoute.purchaseCargo.serve env req).1
  | sellCargo => (WriteRoute.sellCargo.serve env req).1
  | route => respond env.node.toDoubles (route.result env req)

/-- The shape of what a handler answers with. -/
def schema : GatewayRoute → Schema
  | getCurrentAgent => struct [("agent", agentSchema), ("ships", .list shipSchema),
    ("contracts", .list contractSchema)]
  | getAgent => agentSchema
  | getShips => .list shipSchema
  | getShip => shipSchema
  | getContracts => .list contractSchema
  | getContract => contractSchema
  | acceptContract => WriteRoute.acceptContract.schema
  | fulfillContract => WriteRoute.fulfillContract.schema
  | purchaseShip => WriteRoute.purchaseShip.schema
  | purchaseCargo => WriteRoute.purchaseCargo.schema
  | sellCargo => WriteRoute.sellCargo.schema

variable {env req} {v : Value}

/-- The answers a result is made of. -/
def parts : GatewayRoute → Value → List Value
  | getCurrentAgent, v => [v.field "agent", v.field "ships", v.field "contracts"]
  | _, v => [v]

end GatewayRoute

/-! ## Reading an answer -/

end AgentService
