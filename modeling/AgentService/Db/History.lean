import AgentService.Db.Sql
import AgentService.Gateway.Value

/-!
# The history tables, as they are written (`src/db/history.ts`)

Values arrive shaped for the columns: times as UTC text, integers as they are, to go out as
their decimal text.
-/

namespace AgentService
open Lib

inductive TransactionType where
  | shipPurchase
  | purchase
  | sell
  deriving DecidableEq, Repr

/-- The type's name, in the table and in the log. -/
def TransactionType.name : TransactionType → JsString
  | shipPurchase => js "SHIP_PURCHASE"
  | purchase => js "PURCHASE"
  | sell => js "SELL"

/-- A row to insert. -/
structure NewTransaction where
  type : TransactionType
  shipSymbol : JsString
  waypointSymbol : JsString
  shipType : Option JsString
  tradeSymbol : Option JsString
  units : Option Int
  pricePerUnit : Option Int
  totalPrice : Int
  agentCredits : Int
  occurredAt : JsString
  deriving DecidableEq, Repr

/-- `NewDelivery`, and `Delivery` with the time as the answer has it. -/
structure Delivery where
  contractId : JsString
  shipSymbol : JsString
  tradeSymbol : JsString
  units : Int
  deliveredAt : JsString
  deriving DecidableEq, Repr

structure NewContract where
  id : JsString
  factionSymbol : JsString
  type : JsString
  accepted : Bool
  fulfilled : Bool
  rawJson : JsString
  updatedAt : JsString
  deriving DecidableEq, Repr

def UPSERT_CONTRACT_SQL : String :=
  "\n\t\tINSERT INTO contracts (id, faction_symbol, type, accepted, fulfilled, raw_json, updated_at)" ++
  "\n\t\tVALUES (?, ?, ?, ?, ?, ?, ?)" ++
  "\n\t\tON DUPLICATE KEY UPDATE" ++
  "\n\t\t\taccepted   = VALUES(accepted)," ++
  "\n\t\t\tfulfilled  = VALUES(fulfilled)," ++
  "\n\t\t\traw_json   = VALUES(raw_json)," ++
  "\n\t\t\tupdated_at = VALUES(updated_at)" ++
  "\n\t"

def INSERT_DELIVERY_SQL : String :=
  "\n\t\tINSERT INTO contract_deliveries (contract_id, ship_symbol, trade_symbol, units, delivered_at)" ++
  "\n\t\tVALUES (?, ?, ?, ?, ?)" ++
  "\n\t"

def TRANSACTION_COLUMNS : String :=
  "type, ship_symbol, waypoint_symbol, ship_type, trade_symbol," ++
  "\n\tunits, price_per_unit, total_price, agent_credits, occurred_at"

def INSERT_TRANSACTION_SQL : String :=
  "\n\t\tINSERT INTO transactions (" ++ TRANSACTION_COLUMNS ++ ")" ++
  "\n\t\tVALUES (?, ?, ?, ?, ?, ?, ?, ?, ?, ?)" ++
  "\n\t"

/-- A text column that may be NULL. -/
def textOrNull (v : Option JsString) : SqlValue := v.elim .null .text

/-- `orNull` -/
def orNull (v : Option Int) : SqlValue := v.elim .null fun v => .text (bigintText v)

/-- The statement of `upsertContract`. -/
def NewContract.upsert (c : NewContract) : Statement where
  sql := UPSERT_CONTRACT_SQL
  params := [.text c.id, .text c.factionSymbol, .text c.type, .number (if c.accepted then 1 else 0),
    .number (if c.fulfilled then 1 else 0), .text c.rawJson, .text c.updatedAt]

/-- The statement of `insertDelivery`. -/
def Delivery.insert (d : Delivery) : Statement where
  sql := INSERT_DELIVERY_SQL
  params := [.text d.contractId, .text d.shipSymbol, .text d.tradeSymbol,
    .text (bigintText d.units), .text d.deliveredAt]

/-- The statement of `insertTransaction`. -/
def NewTransaction.insert (t : NewTransaction) : Statement where
  sql := INSERT_TRANSACTION_SQL
  params := [.text t.type.name, .text t.shipSymbol, .text t.waypointSymbol, textOrNull t.shipType,
    textOrNull t.tradeSymbol, orNull t.units, orNull t.pricePerUnit,
    .text (bigintText t.totalPrice),
    .text (bigintText t.agentCredits), .text t.occurredAt]

/-- `upsertContract` -/
def upsertContract (db : Database) (c : NewContract) : Effect Trace JsString Unit := do
  let _ ← execute db c.upsert

/-- `insertDelivery` -/
def insertDelivery (db : Database) (d : Delivery) : Effect Trace JsString Unit := do
  let _ ← execute db d.insert

/-- `insertTransaction` -/
def insertTransaction (db : Database) (t : NewTransaction) : Effect Trace JsString Unit := do
  let _ ← execute db t.insert

end AgentService
