import AgentService.Db.HistoryReads
import AgentService.Db.Time
import AgentService.Http.Answers

/-!
# Best-effort history (`src/persistence.ts`)

The row is built inside the `try`, and so is the statement; what fails there becomes a line
of the error log. An exception of the database or of a conversion is its message; what a
handler could be thrown is a `Failure`.
-/

namespace AgentService
open Lib

/-- The loop of `utf8`; `skip` bytes still belong to the sequence before. -/
def allValid (skip : Nat) : Bytes → Bool
  | [] => true
  | b :: bs =>
    match skip with
    | k + 1 => allValid k bs
    | 0 =>
      let len := validLength (b :: bs)
      if len = 0 then false else allValid (len - 1) bs

/-- `utf8`: bytes as a string, or none when they are not UTF-8. -/
def utf8 (bytes : Bytes) : Option JsString :=
  if allValid 0 bytes then some (utf8ToString bytes) else none

def symbolColumn (bytes : Bytes) : Except JsString JsString :=
  match utf8 bytes with
  | none => .error (js "Incorrect string value: the symbol is not valid UTF-8")
  | some text => .ok text

/-- `textOrBytes`: text when the bytes are UTF-8, else as they are. -/
def textOrBytes (bytes : Bytes) : TextOrBytes :=
  match utf8 bytes with
  | some text => .text text
  | none => .bytes bytes

/-- `occurredAt`: the gateway's timestamp, or now when it is the zero time. -/
def occurredAt (stamp : Value) (now : Int) : Except JsString JsString := do
  let instant ← instantOfTime stamp
  let «at» := if isZeroTime instant then instantOfDate now else instant
  toSqlTime «at»

section
variable (db : Database)

/-- `persist` -/
def persist (row : Except JsString NewTransaction) (type : TransactionType) (ship : JsString) :
    Effect Trace Failure Unit :=
  Effect.attempt (do insertTransaction db (← Effect.ofExcept row)) fun err =>
    logLine (js "failed to persist " ++ type.name ++ js " transaction for " ++ ship ++
      js ": " ++ err)

/-- The row of a ship purchase. -/
def shipPurchaseRow (result : Value) (now : Int) : Except JsString NewTransaction := do
  let tx := result.field "transaction"
  let occurred ← occurredAt (tx.field "timestamp") now
  return {
    type := .shipPurchase
    shipSymbol := ((result.field "ship").field "symbol").asText
    waypointSymbol := (tx.field "waypointSymbol").asText
    shipType := some (tx.field "shipType").asText
    tradeSymbol := none
    units := none
    pricePerUnit := none
    totalPrice := (tx.field "price").asInt
    agentCredits := ((result.field "agent").field "credits").asInt
    occurredAt := occurred }

def persistShipPurchase (result : Value) (now : Int) : Effect Trace Failure Unit :=
  persist db (shipPurchaseRow result now) .shipPurchase
    ((result.field "ship").field "symbol").asText

/-- The row of a cargo purchase or sale: the ship comes from the path. -/
def cargoTradeRow (type : TransactionType) (shipSymbol : Bytes) (result : Value) (now : Int) :
    Except JsString NewTransaction := do
  let tx := result.field "transaction"
  let symbol ← symbolColumn shipSymbol
  let occurred ← occurredAt (tx.field "timestamp") now
  return {
    type := type
    shipSymbol := symbol
    waypointSymbol := (tx.field "waypointSymbol").asText
    shipType := none
    tradeSymbol := some (tx.field "tradeSymbol").asText
    units := some (tx.field "units").asInt
    pricePerUnit := some (tx.field "pricePerUnit").asInt
    totalPrice := (tx.field "totalPrice").asInt
    agentCredits := ((result.field "agent").field "credits").asInt
    occurredAt := occurred }

def persistCargoTrade (type : TransactionType) (shipSymbol : Bytes) (result : Value) (now : Int) :
    Effect Trace Failure Unit :=
  persist db (cargoTradeRow type shipSymbol result now) type (utf8ToString shipSymbol)

/-- The row of a contract, whose JSON is at hand. -/
def contractRow (contract : Value) (rawJson : JsString) (now : Int) :
    Except JsString NewContract := do
  let updated ← toSqlTime (instantOfDate now)
  return {
    id := (contract.field "id").asText
    factionSymbol := (contract.field "factionSymbol").asText
    type := (contract.field "type").asText
    accepted := (contract.field "accepted").asBool
    fulfilled := (contract.field "fulfilled").asBool
    rawJson := rawJson
    updatedAt := updated }

def persistContract (doubles : Doubles) (contract : Value) (now : Int) :
    Effect Trace Failure Unit :=
  match stringifyJson doubles contract with
  | .error err =>
    logLine (js "failed to marshal contract " ++ (contract.field "id").asText ++
      js " for persistence: " ++ err.message)
  | .ok rawJson =>
    Effect.attempt (do upsertContract db (← Effect.ofExcept (contractRow contract rawJson now)))
      fun err =>
      logLine (js "failed to persist contract " ++ (contract.field "id").asText ++ js ": " ++ err)

end

end AgentService
