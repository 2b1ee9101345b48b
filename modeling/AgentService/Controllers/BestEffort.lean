import AgentService.Controllers.Writes
import AgentService.Db.Columns
import AgentService.Db.SqlTime
import AgentService.Gateway.Verdict

/-!
# The history is best effort

What a write route leaves in the database and in the log is said once, as what an attempt to write
one statement leaves (`Attempted`); which statement that is and when there is one follows from the
shape of the gateway's answer.
-/

namespace AgentService
open Lib

/-! ## Members of an answer -/

/-- A member of a value that fits a record fits its field. -/
theorem Fits.field {fields : List (JsString × Schema)} {v : Value} (h : Fits (.struct fields) v)
    (name : String) (field : Schema) (hf : getMember (js name) fields = some field) :
    Fits field (v.field name) := by
  cases h with
  | struct hs =>
    obtain ⟨w, hw, hfits⟩ := hs.get hf
    unfold Value.field Value.members
    rw [hw]
    exact hfits

theorem Fits.asText {v : Value} (h : Fits .text v) : v = .text v.asText := by
  cases h with
  | text cs => rfl

theorem Fits.asInt {v : Value} (h : Fits .int64 v) : v = .int v.asInt := by
  cases h with
  | int64 hlo hhi => rfl

theorem Fits.asBool {v : Value} (h : Fits .bool v) : v = .bool v.asBool := by
  cases h with
  | bool b => rfl

/-- The instant of a time that fits is there and normal. -/
theorem Fits.instant {v : Value} (h : Fits .time v) :
    ∃ t, instantOfTime v = .ok t ∧ t.IsNormal := by
  cases h with
  | time hv => exact instantOfTime_ok hv

/-! ## The time of a trade -/

/-- 0001-01-01T00:00:00Z, whatever the offset it was written with. -/
def zeroInstant : Instant := ⟨(CivilDate.mk 1 1 1).toDay * 86400, 0⟩

/-- The instant a trade is recorded at: now for the zero time. -/
def recordedInstant (stamp : Instant) (now : Int) : Instant :=
  if stamp = zeroInstant then instantOfDate now else stamp

theorem isZeroTime_iff (t : Instant) : isZeroTime t = true ↔ t = zeroInstant := by
  have hzero : zeroInstant = ⟨ZERO_SECONDS, 0⟩ := by decide
  rw [hzero]
  cases t
  simp [isZeroTime]

theorem isNormal_recordedInstant {stamp : Instant} (h : stamp.IsNormal) (now : Int) :
    (recordedInstant stamp now).IsNormal := by
  unfold recordedInstant
  split
  · exact isNormal_instantOfDate now
  · exact h

/-- The column's text is that of the recorded instant. -/
theorem occurredAt_eq {stamp : Value} {t : Instant} (h : instantOfTime stamp = .ok t) (now : Int) :
    occurredAt stamp now = toSqlTime (recordedInstant t now) := by
  rw [occurredAt, h, ok_bind, recordedInstant]
  by_cases hzero : t = zeroInstant
  · rw [if_pos hzero]
    simp only [(isZeroTime_iff t).mpr hzero, if_true]
  · rw [if_neg hzero]
    have hne : isZeroTime t = false := by
      rw [← Bool.not_eq_true, isZeroTime_iff]
      exact hzero
    simp only [hne, Bool.false_eq_true, if_false]

/-! ## An attempt to write -/

/-- What an attempt leaves: the statement when there is one, and a line of the log
unless it went through. -/
structure Attempted (db : Database) (statement : Option Statement) (s s' : Trace) : Prop where
  statements : s'.statements = s.statements ++ statement.toList
  log : ∃ lines, s'.log = s.log ++ lines ∧ lines.length ≤ 1 ∧
    (lines = [] ↔ ∃ st ∈ statement, ∃ rows, db s.statements st = .ok rows)

theorem attempted_line (db : Database) (s : Trace) (line : JsString) :
    Attempted db none s { s with log := s.log ++ [line] } :=
  ⟨(List.append_nil _).symm, [line], rfl, Nat.le_refl _, by simp⟩

/-- A row that is built and written in one `try`. -/
theorem attempt_row {α : Type} {db : Database} {insert : α → Statement}
    {run : α → Effect Trace JsString Unit} (hrun : ∀ a, run a = do let _ ← execute db (insert a))
    (row : Except JsString α) (line : JsString → JsString)
    (s : Trace) :
    ∃ s', (Effect.attempt (do run (← Effect.ofExcept row)) fun err =>
      logLine (line err) : Effect Trace Failure Unit) s =
      (.ok (), s') ∧ Attempted db (row.map insert).toOption s s' := by
  cases row with
  | error err =>
    exact ⟨_, Effect.attempt_error (Effect.bind_error rfl), attempted_line db s (line err)⟩
  | ok a =>
    have hbody : (Effect.ofExcept (.ok a) >>= run : Effect Trace JsString Unit) s = run a s :=
      Effect.bind_ok rfl
    cases hdb : db s.statements (insert a) with
    | ok rows =>
      have hexecute : execute db (insert a) s = (.ok rows,
          { s with statements := s.statements ++ [insert a] }) := by
        rw [execute, hdb]
      refine ⟨{ s with statements := s.statements ++ [insert a] },
        Effect.attempt_ok (hbody.trans ?_), rfl, [], (List.append_nil _).symm, Nat.zero_le 1, ?_⟩
      · rw [hrun, Effect.bind_ok hexecute]
        rfl
      · exact iff_of_true rfl ⟨insert a, rfl, rows, hdb⟩
    | error err =>
      have hexecute : execute db (insert a) s = (.error err,
          { s with statements := s.statements ++ [insert a] }) := by
        rw [execute, hdb]
      refine ⟨⟨s.statements ++ [insert a], s.log ++ [line err]⟩, ?_, rfl, [line err], rfl,
        Nat.le_refl 1, ?_⟩
      · have hfails : run a s = (.error err,
            { s with statements := s.statements ++ [insert a] }) := by
          rw [hrun, Effect.bind_error hexecute]
        rw [Effect.attempt_error (hbody.trans hfails)]
        rfl
      · apply iff_of_false (by simp)
        intro ⟨st, hst, rows, hrows⟩
        cases hst
        rw [hdb] at hrows
        cases hrows

section
variable (db : Database)

/-- A row is attempted where there is one, and the write resolves either way. -/
theorem persist_attempted (row : Except JsString NewTransaction) (type : TransactionType)
    (ship : JsString) (s : Trace) :
    ∃ s', persist db row type ship s = (.ok (), s') ∧
      Attempted db (row.map NewTransaction.insert).toOption s s' :=
  attempt_row (fun _ => rfl) row _ s

/-- The upsert of a contract, when its row can be built. -/
def contractStatement (doubles : Doubles) (contract : Value) (now : Int) : Option Statement :=
  (stringifyJson doubles contract).toOption.bind fun rawJson =>
    ((contractRow contract rawJson now).map NewContract.upsert).toOption

/-- The upsert of a contract is attempted where it has a statement, and the write resolves either
way. -/
theorem persistContract_attempted (doubles : Doubles) (contract : Value) (now : Int) (s : Trace) :
    ∃ s', persistContract db doubles contract now s = (.ok (), s') ∧
      Attempted db (contractStatement doubles contract now) s s' := by
  unfold persistContract contractStatement
  cases stringifyJson doubles contract with
  | error err => exact ⟨_, rfl, attempted_line db s _⟩
  | ok rawJson => exact attempt_row (fun _ => rfl) (contractRow contract rawJson now) _ s

end

/-! ## What is recorded -/

/-- The contract of an answer, in the statement that records it. -/
inductive RecordsContract (doubles : Doubles) (now : Int) (contract : Value) : Statement → Prop
  | mk {id faction type json time : JsString} {accepted fulfilled : Bool}
      (hid : contract.field "id" = .text id)
      (hfaction : contract.field "factionSymbol" = .text faction)
      (htype : contract.field "type" = .text type)
      (haccepted : contract.field "accepted" = .bool accepted)
      (hfulfilled : contract.field "fulfilled" = .bool fulfilled)
      (hjson : stringifyJson doubles contract = .ok json)
      (htime : IsSqlTime (instantOfDate now) time) :
      RecordsContract doubles now contract ⟨UPSERT_CONTRACT_SQL,
        [.text id, .text faction, .text type, .number (if accepted then 1 else 0),
          .number (if fulfilled then 1 else 0), .text json, .text time]⟩

/-- The time a trade is recorded at. -/
inductive RecordsTime (now : Int) (result : Value) : JsString → Prop
  | mk {stamp : Instant} {time : JsString}
      (hstamp : instantOfTime ((result.field "transaction").field "timestamp") = .ok stamp)
      (htime : IsSqlTime (recordedInstant stamp now) time) : RecordsTime now result time

/-- A ship purchase: everything is the answer's. -/
inductive RecordsPurchase (now : Int) (result : Value) : Statement → Prop
  | mk {ship waypoint shipType time : JsString} {price credits : Int}
      (hship : (result.field "ship").field "symbol" = .text ship)
      (hwaypoint : (result.field "transaction").field "waypointSymbol" = .text waypoint)
      (htype : (result.field "transaction").field "shipType" = .text shipType)
      (hprice : (result.field "transaction").field "price" = .int price)
      (hcredits : (result.field "agent").field "credits" = .int credits)
      (htime : RecordsTime now result time) :
      RecordsPurchase now result ⟨INSERT_TRANSACTION_SQL, [.text (js "SHIP_PURCHASE"), .text ship,
        .text waypoint, .text shipType, .null, .null, .null, .text (bigintText price),
        .text (bigintText credits), .text time]⟩

/-- A cargo trade: the ship is the text whose UTF-8 the path's symbol is, the rest is
the answer's. -/
inductive RecordsTrade (now : Int) (type : String) (path : Bytes) (result : Value) :
    Statement → Prop
  | mk {ship : List Char} {waypoint good time : JsString} {units each total credits : Int}
      (hship : path = utf8Encode ship)
      (hwaypoint : (result.field "transaction").field "waypointSymbol" = .text waypoint)
      (hgood : (result.field "transaction").field "tradeSymbol" = .text good)
      (hunits : (result.field "transaction").field "units" = .int units)
      (heach : (result.field "transaction").field "pricePerUnit" = .int each)
      (htotal : (result.field "transaction").field "totalPrice" = .int total)
      (hcredits : (result.field "agent").field "credits" = .int credits)
      (htime : RecordsTime now result time) :
      RecordsTrade now type path result ⟨INSERT_TRANSACTION_SQL,
        [.text (js type), .text (utf16 ship), .text waypoint, .null, .text good,
          .text (bigintText units), .text (bigintText each), .text (bigintText total),
        .text (bigintText credits), .text time]⟩

/-- The time a trade is recorded at can be written. -/
def TimeInYears (now : Int) (result : Value) : Prop :=
  ∃ stamp, instantOfTime ((result.field "transaction").field "timestamp") = .ok stamp ∧
    (recordedInstant stamp now).InYears

/-- The instant of the answer's timestamp is within the years. -/
def StampInYears (result : Value) : Prop :=
  ∃ stamp, instantOfTime ((result.field "transaction").field "timestamp") = .ok stamp ∧
    stamp.InYears

/-- With a clock within the years it is the timestamp alone that decides. -/
theorem timeInYears_iff {now : Int} (hnow : (instantOfDate now).InYears) (result : Value) :
    TimeInYears now result ↔ StampInYears result := by
  have hrecorded (stamp : Instant) : (recordedInstant stamp now).InYears ↔ stamp.InYears := by
    unfold recordedInstant
    split
    · rename_i hzero
      rw [hzero]
      exact iff_of_true hnow (by decide +kernel)
    · exact Iff.rfl
  unfold TimeInYears StampInYears
  simp only [hrecorded]

/-- The time has a text exactly where its year can be written. -/
theorem occurredAt_some {result : Value}
    (h : Fits .time ((result.field "transaction").field "timestamp")) (now : Int) :
    (∃ time, occurredAt ((result.field "transaction").field "timestamp") now = .ok time) ↔
      TimeInYears now result := by
  obtain ⟨stamp, hstamp, -⟩ := h.instant
  rw [occurredAt_eq hstamp, toSqlTime_isSome, TimeInYears]
  constructor
  · intro hyears
    exact ⟨stamp, hstamp, hyears⟩
  · intro ⟨t, ht, hyears⟩
    rw [hstamp] at ht
    cases ht
    exact hyears

/-- The text is the answer's own time, or the clock's where that is zero. -/
theorem occurredAt_records {result : Value}
    (h : Fits .time ((result.field "transaction").field "timestamp")) {now : Int} {time : JsString}
    (htime : occurredAt ((result.field "transaction").field "timestamp") now = .ok time) :
    RecordsTime now result time := by
  obtain ⟨stamp, hstamp, hnormal⟩ := h.instant
  rw [occurredAt_eq hstamp] at htime
  exact .mk hstamp (toSqlTime_spec (isNormal_recordedInstant hnormal now) htime)

section
variable {doubles : Doubles} {contract result : Value} {now : Int} {st : Statement}

theorem isSome_of_map {α : Type} {row : Except JsString α} {insert : α → Statement} :
    (row.map insert).toOption.isSome = true ↔ ∃ a, row = .ok a := by
  cases row with
  | ok a => exact iff_of_true rfl ⟨a, rfl⟩
  | error err => exact iff_of_false (by simp [Except.map, Except.toOption]) (by simp)

theorem eq_of_map {α : Type} {row : Except JsString α} {insert : α → Statement}
    (h : (row.map insert).toOption = some st) : ∃ a, row = .ok a ∧ insert a = st := by
  cases row with
  | ok a => exact ⟨a, rfl, Option.some.inj h⟩
  | error err => cases h

/-- A contract has a statement exactly where its JSON and the clock's time can be written. -/
theorem contractStatement_isSome (h : Fits contractSchema contract) :
    (contractStatement doubles contract now).isSome = true ↔
      hasUnencodable contract = false ∧ (instantOfDate now).InYears := by
  rw [← stringifyJson_isSome doubles h, ← toSqlTime_isSome, contractStatement]
  cases stringifyJson doubles contract with
  | error err => simp [Except.toOption]
  | ok rawJson =>
    show ((contractRow contract rawJson now).map NewContract.upsert).toOption.isSome = true ↔ _
    rw [isSome_of_map, contractRow]
    simp only [Except.ok.injEq, exists_eq', true_and]
    cases toSqlTime (instantOfDate now) with
    | error err => simp
    | ok time => exact iff_of_true ⟨_, rfl⟩ ⟨time, rfl⟩

/-- The statement of a contract has the columns of its record. -/
theorem contractStatement_records (h : Fits contractSchema contract)
    (hst : contractStatement doubles contract now = some st) :
    RecordsContract doubles now contract st := by
  unfold contractStatement at hst
  cases hjson : stringifyJson doubles contract with
  | error err =>
    rw [hjson] at hst
    cases hst
  | ok rawJson =>
    rw [hjson] at hst
    obtain ⟨row, hrow, rfl⟩ := eq_of_map hst
    obtain ⟨time, htime, hrow⟩ := bind_eq_ok.mp hrow
    cases hrow
    exact .mk (h.field "id" .text rfl).asText (h.field "factionSymbol" .text rfl).asText
      (h.field "type" .text rfl).asText (h.field "accepted" .bool rfl).asBool
      (h.field "fulfilled" .bool rfl).asBool
      hjson (toSqlTime_spec (isNormal_instantOfDate now) htime)

/-- A purchase has a row exactly where its time can be written. -/
theorem purchaseRow_isSome (h : Fits purchaseShipResultSchema result) :
    ((shipPurchaseRow result now).map NewTransaction.insert).toOption.isSome = true ↔
      TimeInYears now result := by
  have htx := h.field "transaction" shipyardTransaction rfl
  rw [isSome_of_map, ← occurredAt_some (htx.field "timestamp" .time rfl), shipPurchaseRow]
  cases occurredAt ((result.field "transaction").field "timestamp") now with
  | error err => simp
  | ok time => exact iff_of_true ⟨_, rfl⟩ ⟨time, rfl⟩

/-- The row of a purchase has the columns of its record. -/
theorem purchaseRow_records (h : Fits purchaseShipResultSchema result)
    (hst : ((shipPurchaseRow result now).map NewTransaction.insert).toOption = some st) :
    RecordsPurchase now result st := by
  have htx := h.field "transaction" shipyardTransaction rfl
  obtain ⟨row, hrow, rfl⟩ := eq_of_map hst
  obtain ⟨time, htime, hrow⟩ := bind_eq_ok.mp hrow
  cases hrow
  exact .mk ((h.field "ship" shipSchema rfl).field "symbol" .text rfl).asText
    (htx.field "waypointSymbol" .text rfl).asText (htx.field "shipType" .text rfl).asText
    (htx.field "price" .int64 rfl).asInt
    ((h.field "agent" agentSchema rfl).field "credits" .int64 rfl).asInt
    (occurredAt_records (htx.field "timestamp" .time rfl) htime)

variable {type : TransactionType} {path : Bytes}

/-- A trade has a row exactly where its ship is a text and its time can be written. -/
theorem tradeRow_isSome (h : Fits marketTransactionResultSchema result) :
    ((cargoTradeRow type path result now).map NewTransaction.insert).toOption.isSome = true ↔
      (∃ ship, path = utf8Encode ship) ∧ TimeInYears now result := by
  have htx := h.field "transaction" marketTransaction rfl
  have hsymbol : (∃ symbol, symbolColumn path = .ok symbol) ↔ ∃ ship, path = utf8Encode ship := by
    simp only [symbolColumn_ok]
    constructor
    · intro ⟨_, ship, hship, _⟩
      exact ⟨ship, hship⟩
    · intro ⟨ship, hship⟩
      exact ⟨_, ship, hship, rfl⟩
  rw [isSome_of_map, ← occurredAt_some (htx.field "timestamp" .time rfl), ← hsymbol, cargoTradeRow]
  cases symbolColumn path with
  | error err => simp
  | ok symbol =>
    cases occurredAt ((result.field "transaction").field "timestamp") now with
    | error err => simp
    | ok time => exact iff_of_true ⟨_, rfl⟩ ⟨⟨symbol, rfl⟩, time, rfl⟩

/-- The row of a trade has the columns of its record. -/
theorem tradeRow_records (h : Fits marketTransactionResultSchema result)
    (hst : ((cargoTradeRow type path result now).map NewTransaction.insert).toOption = some st)
    {name : String}
    (hname : type.name = js name) : RecordsTrade now name path result st := by
  have htx := h.field "transaction" marketTransaction rfl
  obtain ⟨row, hrow, rfl⟩ := eq_of_map hst
  obtain ⟨symbol, hsymbol, hrow⟩ := bind_eq_ok.mp hrow
  obtain ⟨time, htime, hrow⟩ := bind_eq_ok.mp hrow
  obtain ⟨ship, hship, rfl⟩ := symbolColumn_ok.mp hsymbol
  cases hrow
  unfold NewTransaction.insert
  dsimp only
  rw [hname]
  exact .mk hship (htx.field "waypointSymbol" .text rfl).asText
    (htx.field "tradeSymbol" .text rfl).asText (htx.field "units" .int64 rfl).asInt
    (htx.field "pricePerUnit" .int64 rfl).asInt
    (htx.field "totalPrice" .int64 rfl).asInt ((h.field "agent" agentSchema rfl).field "credits"
      .int64 rfl).asInt
    (occurredAt_records (htx.field "timestamp" .time rfl) htime)

end

/-! ## The routes -/

namespace WriteRoute
variable (env : Env) (req : WriteRequest)

/-- The shape of the `data` a route is answered. -/
def schema : WriteRoute → Schema
  | acceptContract | fulfillContract => contractAndAgentSchema
  | purchaseShip => purchaseShipResultSchema
  | purchaseCargo | sellCargo => marketTransactionResultSchema

/-- The statement a route executes for a result, when its row can be built. -/
def statement (result : Value) : WriteRoute → Option Statement
  | acceptContract | fulfillContract =>
    contractStatement env.node.toDoubles (result.field "contract") env.now
  | purchaseShip => ((shipPurchaseRow result env.now).map NewTransaction.insert).toOption
  | purchaseCargo =>
    ((cargoTradeRow .purchase (segmentFromEnd req.routed 1) result env.now).map
      NewTransaction.insert).toOption
  | sellCargo => ((cargoTradeRow .sell (segmentFromEnd req.routed 1) result env.now).map
    NewTransaction.insert).toOption

/-- The row can be built: a cargo trade's path symbol is UTF-8, the time to record has a year of the
calendar's 1 to 9999, a contract holds no time that cannot be written. -/
def RowExists (result : Value) : WriteRoute → Prop
  | acceptContract | fulfillContract =>
    hasUnencodable (result.field "contract") = false ∧ (instantOfDate env.now).InYears
  | purchaseShip => TimeInYears env.now result
  | purchaseCargo | sellCargo => (∃ ship, segmentFromEnd req.routed 1 = utf8Encode ship) ∧
      TimeInYears env.now result

/-- The same when the clock is within the years: the answer's timestamp decides. -/
def AnswerHasRow (result : Value) : WriteRoute → Prop
  | acceptContract | fulfillContract => hasUnencodable (result.field "contract") = false
  | purchaseShip => StampInYears result
  | purchaseCargo | sellCargo => (∃ ship, segmentFromEnd req.routed 1 = utf8Encode ship) ∧
      StampInYears result

/-- What the statement of a route records. -/
def Records (result : Value) : WriteRoute → Statement → Prop
  | acceptContract | fulfillContract =>
    RecordsContract env.node.toDoubles env.now (result.field "contract")
  | purchaseShip => RecordsPurchase env.now result
  | purchaseCargo => RecordsTrade env.now "PURCHASE" (segmentFromEnd req.routed 1) result
  | sellCargo => RecordsTrade env.now "SELL" (segmentFromEnd req.routed 1) result

variable {env req} {route : WriteRoute} {result : Value}

/-- What a call resolves with fits the part of the schema that is returned. -/
theorem ask_fits {fields : List (String × Schema)} {part : Schema}
    (hdata : getMember (js "data") (fields.map fun f => (js f.1, f.2)) = some part) {call : Call}
    (h : env.ask (struct fields) call = .ok result) : Fits part result := by
  obtain ⟨v, hv, rfl⟩ := map_eq_ok.mp h
  obtain ⟨body, -, hbody⟩ := bind_eq_ok.mp hv
  unfold decodeAnswer at hbody
  split at hbody
  · rename_i w hdecode
    cases hbody
    exact (fits_decode hdecode).field "data" part hdata
  · cases hbody
  · cases hbody

theorem askWith_fits {fields : List (String × Schema)} {part : Schema}
    (hdata : getMember (js "data") (fields.map fun f => (js f.1, f.2)) = some part)
    {call : Except TypeError Call}
    (h : env.askWith (struct fields) call = .ok result) : Fits part result := by
  obtain ⟨c, -, hc⟩ := bind_eq_ok.mp h
  exact ask_fits hdata hc

/-- What the gateway resolves with has the route's shape. -/
theorem fits_upstream (h : route.upstream env req = .ok result) : Fits route.schema result := by
  have hcargo {call : Doubles → JsString → Bytes → JsString → Int → Except TypeError Call}
      (h : ShipsController.cargoTraded env req call = .ok result) :
      Fits marketTransactionResultSchema result := by
    obtain ⟨body, -, h⟩ := bind_eq_ok.mp h
    dsimp only at h
    split at h
    · cases h
    · exact askWith_fits (by rfl) h
  cases route with
  | acceptContract => exact ask_fits (by rfl) h
  | fulfillContract => exact ask_fits (by rfl) h
  | purchaseShip =>
    obtain ⟨body, -, h⟩ := bind_eq_ok.mp h
    dsimp only at h
    split at h
    · cases h
    · exact askWith_fits (by rfl) h
  | purchaseCargo => exact hcargo h
  | sellCargo => exact hcargo h

/-- A write has a statement exactly where its row exists. -/
theorem statement_isSome (h : Fits route.schema result) :
    (route.statement env req result).isSome = true ↔ route.RowExists env req result := by
  cases route with
  | acceptContract => exact contractStatement_isSome (Fits.field h "contract" contractSchema rfl)
  | fulfillContract => exact contractStatement_isSome (Fits.field h "contract" contractSchema rfl)
  | purchaseShip => exact purchaseRow_isSome h
  | purchaseCargo => exact tradeRow_isSome h
  | sellCargo => exact tradeRow_isSome h

/-- The statement of a write records what the gateway answered. -/
theorem statement_records (h : Fits route.schema result) {st : Statement}
    (hst : route.statement env req result = some st) : route.Records env req result st := by
  cases route with
  | acceptContract =>
    exact contractStatement_records (Fits.field h "contract" contractSchema rfl) hst
  | fulfillContract =>
    exact contractStatement_records (Fits.field h "contract" contractSchema rfl) hst
  | purchaseShip => exact purchaseRow_records h hst
  | purchaseCargo => exact tradeRow_records h hst rfl
  | sellCargo => exact tradeRow_records h hst rfl

/-- Where the clock can be written, whether there is a row is up to the answer. -/
theorem rowExists_iff (hnow : (instantOfDate env.now).InYears) :
    route.RowExists env req result ↔ route.AnswerHasRow req result := by
  cases route with
  | acceptContract => exact and_iff_left hnow
  | fulfillContract => exact and_iff_left hnow
  | purchaseShip => exact timeInYears_iff hnow result
  | purchaseCargo => exact and_congr_right fun _ => timeInYears_iff hnow result
  | sellCargo => exact and_congr_right fun _ => timeInYears_iff hnow result

theorem persist_attempted (result : Value) (s : Trace) :
    ∃ s', route.persist env req result s = (.ok (), s') ∧
      Attempted env.db (route.statement env req result) s s' := by
  cases route with
  | acceptContract => exact persistContract_attempted env.db _ _ _ s
  | fulfillContract => exact persistContract_attempted env.db _ _ _ s
  | purchaseShip => exact AgentService.persist_attempted env.db _ _ _ s
  | purchaseCargo => exact AgentService.persist_attempted env.db _ _ _ s
  | sellCargo => exact AgentService.persist_attempted env.db _ _ _ s

/-- Every handler asks the gateway, records what it answered, and returns it. -/
theorem handler_eq : route.handler env req = (do
    let result ← Effect.ofExcept (route.upstream env req)
    route.persist env req result
    return result) := by
  cases route <;> rfl

/-- A call that fails is answered with its failure, and nothing is recorded. -/
theorem serve_error {f : Failure} (h : route.upstream env req = .error f) :
    route.serve env req = (onError false f, ⟨[], []⟩) := by
  have hrun : route.handler env req ⟨[], []⟩ = (.error f, ⟨[], []⟩) := by
    rw [handler_eq, h]
    rfl
  rw [serve, hrun]
  rfl

/-- A call that resolves is answered with its result, whatever becomes of the record. -/
theorem serve_ok (h : route.upstream env req = .ok result) :
    ∃ trace, route.serve env req = (respond env.node.toDoubles (.ok result), trace) ∧
      Attempted env.db (route.statement env req result) ⟨[], []⟩ trace := by
  obtain ⟨trace, hpersist, hattempted⟩ := @persist_attempted env req route result ⟨[], []⟩
  have hrun : route.handler env req ⟨[], []⟩ = (.ok result, trace) := by
    rw [handler_eq, h]
    exact Effect.bind_ok hpersist
  refine ⟨trace, ?_, hattempted⟩
  rw [serve, hrun]

end WriteRoute

/-- What holds of a request to a route that writes. -/
structure IsBestEffort (env : Env) (route : WriteRoute) (req : WriteRequest) : Prop where
  /-- Without a result nothing is executed. -/
  unresolved : ∀ f, route.upstream env req = .error f →
    route.serve env req = (onError false f, ⟨[], []⟩)
  /-- With one there is at most one statement, and what it records. -/
  records : ∀ result, route.upstream env req = .ok result →
    (route.serve env req).2.statements = [] ∨
      ∃ st, (route.serve env req).2.statements = [st] ∧ route.Records env req result st
  /-- There is one exactly when the row can be built. -/
  recorded : ∀ result, route.upstream env req = .ok result →
    ((route.serve env req).2.statements.length = 1 ↔ route.RowExists env req result) ∧
      ((instantOfDate env.now).InYears → (route.RowExists env req result ↔
        route.AnswerHasRow req result))
  /-- The log has one line, or none when the statement went through. -/
  logged : ∀ result, route.upstream env req = .ok result → (route.serve env req).2.log.length ≤ 1 ∧
    ((route.serve env req).2.log = [] ↔
      ∃ st ∈ (route.serve env req).2.statements, ∃ rows, env.db [] st = .ok rows)
  /-- The step after the gateway's answer does not reject, and the answer is the
  gateway's, a 200. -/
  answered : ∀ result, route.upstream env req = .ok result →
    (∀ s, (route.persist env req result s).1 = .ok ()) ∧
      (route.serve env req).1 = respond env.node.toDoubles (.ok result) ∧
      ∃ res, (route.serve env req).1 = .answered res ∧ res.status = 200
  /-- Neither the database nor the clock changes the answer. -/
  unchanged : ∀ db now, (route.serve { env with db := db, now := now } req).1 =
    (route.serve env req).1
  /-- Of the request only the path is recorded. -/
  unread : ∀ req', req'.routed = req.routed → route.upstream env req' = route.upstream env req →
    route.serve env req' = route.serve env req

/-- History is written on a best-effort basis, whatever the gateway and the database do. -/
theorem history_best_effort (env : Env) (route : WriteRoute) (req : WriteRequest) :
    IsBestEffort env route req where
  unresolved f h := WriteRoute.serve_error h
  records result h := by
    obtain ⟨trace, hserve, hstatements, -⟩ := WriteRoute.serve_ok h
    rw [hserve]
    cases hst : route.statement env req result with
    | none =>
      rw [hst] at hstatements
      exact .inl hstatements
    | some st =>
      rw [hst] at hstatements
      exact .inr ⟨st, hstatements, WriteRoute.statement_records (WriteRoute.fits_upstream h) hst⟩
  recorded result h := by
    obtain ⟨trace, hserve, hstatements, -⟩ := WriteRoute.serve_ok h
    refine ⟨?_, WriteRoute.rowExists_iff⟩
    rw [hserve, ← WriteRoute.statement_isSome (WriteRoute.fits_upstream h)]
    show trace.statements.length = 1 ↔ _
    rw [hstatements]
    cases route.statement env req result with
    | none => simp
    | some st => simp
  logged result h := by
    obtain ⟨trace, hserve, hstatements, lines, hlog, hone, hempty⟩ := WriteRoute.serve_ok h
    rw [hserve]
    show trace.log.length ≤ 1 ∧ (trace.log = [] ↔ ∃ st ∈ trace.statements, _)
    rw [hlog, hstatements]
    refine ⟨hone, hempty.trans ?_⟩
    cases route.statement env req result with
    | none => simp
    | some st => simp
  answered result h := by
    obtain ⟨trace, hserve, -⟩ := WriteRoute.serve_ok h
    obtain ⟨res, hres, hstatus⟩ := sendJson_ok env.node.toDoubles (WriteRoute.fits_upstream h)
    refine ⟨fun s => ?_, by rw [hserve], res, ?_, hstatus⟩
    · obtain ⟨s', hpersist, -⟩ := @WriteRoute.persist_attempted env req route result s
      rw [hpersist]
    · rw [hserve]
      show respond env.node.toDoubles (.ok result) = _
      rw [respond, hres]
  unchanged db now := by
    have hsame : route.upstream { env with db := db, now := now } req = route.upstream env req := by
      cases route <;> rfl
    cases h : route.upstream env req with
    | error f => rw [WriteRoute.serve_error h, WriteRoute.serve_error (hsame.trans h)]
    | ok result =>
      obtain ⟨trace, hserve, -⟩ := WriteRoute.serve_ok h
      obtain ⟨trace', hserve', -⟩ := WriteRoute.serve_ok (hsame.trans h)
      rw [hserve, hserve']
  unread req' hrouted hsame := by
    have hhandler : route.handler env req' = route.handler env req := by
      rw [WriteRoute.handler_eq, WriteRoute.handler_eq, hsame]
      have hpersist (result : Value) :
          route.persist env req' result = route.persist env req result := by
        cases route <;> simp only [WriteRoute.persist, hrouted]
      simp only [hpersist]
    rw [WriteRoute.serve, WriteRoute.serve, hhandler]

/-- An accepted contract, an empty answer of the gateway, and a database that is down. -/
def refusedEnv : Env where
  node := plainNode
  base := js "http://gw.test/proxy"
  gateway := fun _ _ => ⟨some ⟨204, fun _ => none, ⟨[], true⟩⟩, false⟩
  db := fun _ _ => .error (js "connection refused")
  now := 0

def refusedRequest : WriteRequest := ⟨⟨latin1Encode (js "/contracts/C-1/accept"), []⟩, none, none⟩

theorem history_best_effort_refused : ∃ result res,
    WriteRoute.acceptContract.upstream refusedEnv refusedRequest = .ok result ∧
      WriteRoute.acceptContract.RowExists refusedEnv refusedRequest result ∧
      (WriteRoute.acceptContract.serve refusedEnv refusedRequest).1 = .answered res ∧
      res.status = 200 ∧
      (WriteRoute.acceptContract.serve refusedEnv refusedRequest).2.log ≠ [] := by
  have h := history_best_effort refusedEnv .acceptContract refusedRequest
  have hok : (WriteRoute.acceptContract.upstream refusedEnv refusedRequest).isOk = true := by
    decide +kernel
  have hwritten : (WriteRoute.acceptContract.serve refusedEnv refusedRequest).2.statements.length =
      1 := by
    decide +kernel
  cases hresult : WriteRoute.acceptContract.upstream refusedEnv refusedRequest with
  | error f =>
    rw [hresult] at hok
    cases hok
  | ok result =>
    obtain ⟨-, -, res, hres, hstatus⟩ := h.answered _ hresult
    refine ⟨result, res, rfl, (h.recorded _ hresult).1.mp hwritten, hres, hstatus, ?_⟩
    intro hnil
    obtain ⟨st, -, rows, hrows⟩ := (h.logged _ hresult).2.mp hnil
    cases hrows

end AgentService
