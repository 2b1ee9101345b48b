import AgentService.Gateway.Decode

/-!
# The wire types (`src/gateway/schema.ts`)

Member for member, in the source's order, which is the order of the answer.
-/

namespace AgentService
open Lib

/-- `struct({...})` -/
def struct (fields : List (String × Schema)) : Schema := .struct (fields.map fun f => (js f.1, f.2))

def agentSchema : Schema := struct [
  ("accountId", .text), ("symbol", .text), ("headquarters", .text), ("credits", .int64),
    ("startingFaction", .text),
  ("shipCount", .int64)]

def requirements : Schema := struct [("power", .int64), ("crew", .int64), ("slots", .int64)]

/-- `module_` -/
def shipModule : Schema := struct [
  ("symbol", .text), ("capacity", .int64), ("range", .int64), ("name", .text),
    ("description", .text),
  ("requirements", requirements)]

def mount : Schema := struct [
  ("symbol", .text), ("name", .text), ("description", .text), ("strength", .int64),
    ("deposits", .list .text),
  ("requirements", requirements)]

def routeWaypoint : Schema := struct [
  ("symbol", .text), ("type", .text), ("systemSymbol", .text), ("x", .int64), ("y", .int64)]

def cargoSchema : Schema := struct [
  ("capacity", .int64), ("units", .int64),
  ("inventory", .list (struct [("symbol", .text), ("name", .text), ("description", .text),
    ("units", .int64)]))]

def shipSchema : Schema := struct [
  ("symbol", .text),
  ("registration", struct [("name", .text), ("factionSymbol", .text), ("role", .text)]),
  ("nav", struct [
    ("systemSymbol", .text), ("waypointSymbol", .text),
    ("route", struct [
      ("destination", routeWaypoint), ("origin", routeWaypoint), ("departureTime", .time),
        ("arrival", .time)]),
    ("status", .text), ("flightMode", .text)]),
  ("crew", struct [
    ("current", .int64), ("required", .int64), ("capacity", .int64), ("rotation", .text),
      ("morale", .int64),
    ("wages", .int64)]),
  ("frame", struct [
    ("symbol", .text), ("name", .text), ("description", .text), ("condition", .float64),
      ("integrity", .float64),
    ("moduleSlots", .int64), ("mountingPoints", .int64), ("fuelCapacity", .int64),
      ("requirements", requirements)]),
  ("reactor", struct [
    ("symbol", .text), ("name", .text), ("description", .text), ("condition", .float64),
      ("integrity", .float64),
    ("powerOutput", .int64), ("requirements", requirements)]),
  ("engine", struct [
    ("symbol", .text), ("name", .text), ("description", .text), ("condition", .float64),
      ("integrity", .float64),
    ("speed", .int64), ("requirements", requirements)]),
  ("cooldown", struct [
    ("shipSymbol", .text), ("totalSeconds", .int64), ("remainingSeconds", .int64),
      ("expiration", .time)]),
  ("modules", .list shipModule),
  ("mounts", .list mount),
  ("cargo", cargoSchema),
  ("fuel", struct [
    ("current", .int64), ("capacity", .int64),
      ("consumed", struct [("amount", .int64), ("timestamp", .time)])])]

def contractSchema : Schema := struct [
  ("id", .text), ("factionSymbol", .text), ("type", .text),
  ("terms", struct [
    ("deadline", .time),
    ("payment", struct [("onAccepted", .int64), ("onFulfilled", .int64)]),
    ("deliver", .list (struct [
      ("tradeSymbol", .text), ("destinationSymbol", .text), ("unitsRequired", .int64),
        ("unitsFulfilled", .int64)]))]),
  ("accepted", .bool), ("fulfilled", .bool), ("expiration", .time), ("deadlineToAccept", .time)]

def paginationMeta : Schema := struct [("total", .int64), ("page", .int64), ("limit", .int64)]

def getMyAgentResponse : Schema := struct [("data", agentSchema)]

def getMyShipsResponse : Schema := struct [("data", .list shipSchema), ("meta", paginationMeta)]

def getMyShipResponse : Schema := struct [("data", shipSchema)]

def getMyContractsResponse : Schema :=
  struct [("data", .list contractSchema), ("meta", paginationMeta)]

def getMyContractResponse : Schema := struct [("data", contractSchema)]

def contractAndAgentSchema : Schema := struct [("agent", agentSchema), ("contract", contractSchema)]

def shipyardTransaction : Schema := struct [
  ("waypointSymbol", .text), ("shipType", .text), ("price", .int64), ("agentSymbol", .text),
    ("timestamp", .time)]

def marketTransaction : Schema := struct [
  ("waypointSymbol", .text), ("shipSymbol", .text), ("tradeSymbol", .text), ("type", .text),
    ("units", .int64),
  ("pricePerUnit", .int64), ("totalPrice", .int64), ("timestamp", .time)]

def purchaseShipResultSchema : Schema := struct [
  ("agent", agentSchema), ("ship", shipSchema), ("transaction", shipyardTransaction)]

def marketTransactionResultSchema : Schema := struct [
  ("agent", agentSchema), ("cargo", cargoSchema), ("transaction", marketTransaction)]

def acceptContractResponse : Schema := struct [("data", contractAndAgentSchema)]

def fulfillContractResponse : Schema := struct [("data", contractAndAgentSchema)]

def purchaseShipResponse : Schema := struct [("data", purchaseShipResultSchema)]

def marketTransactionResponse : Schema := struct [("data", marketTransactionResultSchema)]

def deliveryRequestSchema : Schema :=
  struct [("shipSymbol", .text), ("tradeSymbol", .text), ("units", .int64)]

def purchaseShipRequestSchema : Schema := struct [("shipType", .text), ("waypointSymbol", .text)]

def cargoTransactionRequestSchema : Schema := struct [("symbol", .text), ("units", .int64)]

end AgentService
