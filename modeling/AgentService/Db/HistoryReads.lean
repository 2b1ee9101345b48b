import AgentService.Db.History
import AgentService.Db.Time
import AgentService.Lib.JsText

/-!
# The history tables, as they are read (`src/db/history.ts`)

A row comes positional: a column is a text, a number, bytes or NULL, and `undefined` where the row
is too short. What a reader throws is an `Error`, of which only the message is looked at.
-/

namespace AgentService
open Lib

/-- `asText`; `none` is `undefined`. -/
def asText : Option SqlValue → JsString
  | some (.text v) => v
  | some (.buffer v) => utf8ToString v
  | some (.number v) => bigintText v
  | some .null => js "null"
  | none => js "undefined"

/-- `asInt` -/
def asInt (v : Option SqlValue) : Except JsString Int :=
  let read (text : JsString) : Except JsString Int :=
    match bigIntOfText text with
    | some n => .ok n
    | none => .error (js "Cannot convert " ++ text ++ js " to a BigInt")
  match v with
  | some (.number n) => .ok n
  | some (.text text) => read text
  | some (.buffer bytes) => read (utf8ToString bytes)
  | some .null => .error (js "Cannot convert null to a BigInt")
  | none => .error (js "Cannot convert undefined to a BigInt")

/-- `string | Buffer` -/
inductive TextOrBytes where
  | text (v : JsString)
  | bytes (v : Bytes)
  deriving DecidableEq, Repr

namespace TextOrBytes

/-- `length === 0` -/
def isEmpty : TextOrBytes → Bool
  | text v => v.isEmpty
  | bytes v => v.isEmpty

def toSql : TextOrBytes → SqlValue
  | text v => .text v
  | bytes v => .buffer v

end TextOrBytes

/-! ## Deliveries -/

def SELECT_DELIVERIES_SQL : String :=
  "\n\t\tSELECT contract_id, ship_symbol, trade_symbol, units, delivered_at" ++
  "\n\t\tFROM contract_deliveries WHERE contract_id = ?" ++
  "\n\t\tORDER BY delivered_at ASC" ++
  "\n\t"

/-- A row of the deliveries. -/
def readDelivery (r : List SqlValue) : Except JsString Delivery := do
  let units ← asInt r[3]?
  let deliveredAt ← fromSqlTime (asText r[4]?)
  return ⟨asText r[0]?, asText r[1]?, asText r[2]?, units, deliveredAt⟩

/-- `deliveriesForContract` -/
def deliveriesForContract (db : Database) (contractId : TextOrBytes) :
    Effect Trace JsString (List Delivery) := do
  let rows ← execute db ⟨SELECT_DELIVERIES_SQL, [contractId.toSql]⟩
  Effect.ofExcept (rows.mapM readDelivery)

/-- A delivery as the answer has it. -/
def Delivery.value (d : Delivery) : Value :=
  .struct [(js "contractId", .text d.contractId), (js "shipSymbol", .text d.shipSymbol),
    (js "tradeSymbol", .text d.tradeSymbol), (js "units", .int d.units),
    (js "deliveredAt", .text d.deliveredAt)]

/-! ## Transactions -/

def TRANSACTION_TYPES : List TransactionType := [.shipPurchase, .purchase, .sell]

/-- `isTransactionType`, with the type it finds. -/
def isTransactionType (s : JsString) : Option TransactionType :=
  TRANSACTION_TYPES.find? fun t => t.name = s

def transactionTypeNames : JsString :=
  (js ", ").intercalate (TRANSACTION_TYPES.map TransactionType.name)

/-- A history row as the API shows it: a member that is NULL in the table is absent. -/
structure Transaction where
  type : JsString
  shipSymbol : JsString
  waypointSymbol : JsString
  shipType : Option JsString
  tradeSymbol : Option JsString
  units : Option Int
  pricePerUnit : Option Int
  totalPrice : Int
  agentCredits : Int
  occurredAt : JsString
  deriving DecidableEq, Repr

/-- `TransactionQuery`; an empty `shipSymbol` is no filter on the ship. -/
structure TransactionQuery where
  shipSymbol : TextOrBytes
  type : Option TransactionType
  limit : Nat
  deriving DecidableEq, Repr

namespace TransactionQuery
variable (q : TransactionQuery)

def conditions : List String :=
  (if q.shipSymbol.isEmpty then [] else ["ship_symbol = ?"]) ++
    if q.type.isSome then ["type = ?"] else []

/-- The text of the SELECT. -/
def sql : String :=
  "SELECT " ++ TRANSACTION_COLUMNS ++ " FROM transactions" ++
    (if q.conditions = [] then "" else " WHERE " ++ " AND ".intercalate q.conditions) ++
    " ORDER BY occurred_at DESC LIMIT ?"

def args : List SqlValue :=
  (if q.shipSymbol.isEmpty then [] else [q.shipSymbol.toSql]) ++ (q.type.map fun t =>
    .text t.name).toList ++
    [.text (latin1Decode (decimal q.limit))]

end TransactionQuery

/-- A column that is read unless it is NULL. -/
def unlessNull {α : Type} (read : Option SqlValue → Except JsString α) (v : Option SqlValue) :
    Except JsString (Option α) :=
  if v = some .null then .ok none else (read v).map some

/-- A row of the transactions. -/
def readTransaction (r : List SqlValue) : Except JsString Transaction := do
  let shipType ← unlessNull (fun v => .ok (asText v)) r[3]?
  let tradeSymbol ← unlessNull (fun v => .ok (asText v)) r[4]?
  let units ← unlessNull asInt r[5]?
  let pricePerUnit ← unlessNull asInt r[6]?
  let totalPrice ← asInt r[7]?
  let agentCredits ← asInt r[8]?
  let occurredAt ← fromSqlTime (asText r[9]?)
  return ⟨asText r[0]?, asText r[1]?, asText r[2]?, shipType, tradeSymbol, units, pricePerUnit,
    totalPrice, agentCredits, occurredAt⟩

/-- `listTransactions` -/
def listTransactions (db : Database) (q : TransactionQuery) :
    Effect Trace JsString (List Transaction) := do
  let rows ← execute db ⟨q.sql, q.args⟩
  Effect.ofExcept (rows.mapM readTransaction)

/-- A member that is only there when it has a value. -/
def optionalMember {α : Type} (name : String) (write : α → Value) (v : Option α) :
    List (JsString × Value) :=
  (v.map fun v => (js name, write v)).toList

/-- A transaction as the answer has it: the members in the order they were set. -/
def Transaction.value (t : Transaction) : Value :=
  .struct ([(js "type", .text t.type), (js "shipSymbol", .text t.shipSymbol),
    (js "waypointSymbol", .text t.waypointSymbol)] ++ optionalMember "shipType" .text t.shipType ++
      optionalMember "tradeSymbol" .text t.tradeSymbol ++
    optionalMember "units" .int t.units ++ optionalMember "pricePerUnit" .int t.pricePerUnit ++
    [(js "totalPrice", .int t.totalPrice), (js "agentCredits", .int t.agentCredits),
      (js "occurredAt", .text t.occurredAt)])

/-! ## What the readers return -/

/-- The values `HistoryStore` answers with. -/
inductive HistoryValue : Value → Prop
  | deliveries (rows : List Delivery) : HistoryValue (.list (rows.map Delivery.value))
  | transactions (rows : List Transaction) : HistoryValue (.list (rows.map Transaction.value))

end AgentService
