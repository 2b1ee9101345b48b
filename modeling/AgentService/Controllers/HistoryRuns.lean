import AgentService.Controllers.BestEffort
import AgentService.Controllers.History
import AgentService.Db.LedgerReads

/-!
# The history over a run of requests

Every request executes at most one statement, so that requests in any interleaving come to one
sequence, in the order of their statements. After any such run the tables represent the ledger of
what was recorded: each entry MySQL accepted, once and in order, and no other.
-/

namespace AgentService
open Lib

/-- A request that writes to the history or reads it, with what its handler finds around it. -/
inductive HistoryCall where
  | write (route : WriteRoute) (env : Env) (req : WriteRequest)
  | deliver (env : Env) (req : WriteRequest)
  | deliveries (req : RoutedRequest)
  | transactions (req : RoutedRequest)

/-- The environment, with MySQL for its database. -/
def Env.on (env : Env) (m : Mysql) : Env := { env with db := m.database }

/-! ## What a request tells of -/

/-- The entry of a contract, where its JSON and its time can be written. -/
def contractEntry (doubles : Doubles) (contract : Value) (now : Int) : Option Entry :=
  (stringifyJson doubles contract).toOption.bind fun rawJson =>
    ((contractRow contract rawJson now).map Entry.contract).toOption

/-- The entry of a result of the gateway. -/
def WriteRoute.entry (env : Env) (req : WriteRequest) (result : Value) : WriteRoute → Option Entry
  | acceptContract | fulfillContract =>
    contractEntry env.node.toDoubles (result.field "contract") env.now
  | purchaseShip => ((shipPurchaseRow result env.now).map Entry.transaction).toOption
  | purchaseCargo => ((cargoTradeRow .purchase (segmentFromEnd req.routed 1) result env.now).map
    Entry.transaction).toOption
  | sellCargo => ((cargoTradeRow .sell (segmentFromEnd req.routed 1) result env.now).map
    Entry.transaction).toOption

/-- The delivery a body tells of. -/
def deliveryTold (env : Env) (req : WriteRequest) : Option Delivery := do
  let body ← (decodeBody env.node.toUnicode env.node.toDoubles deliveryRequestSchema
    req.body).toOption
  let shipSymbol := (body.field "shipSymbol").asText
  let tradeSymbol := (body.field "tradeSymbol").asText
  let units := (body.field "units").asInt
  if shipSymbol = [] ∨ tradeSymbol = [] ∨ units ≤ 0 then none
  else
    let id ← (symbolColumn (segmentFromEnd req.routed 1)).toOption
    let stored ← (toSqlTime (instantOfDate env.now)).toOption
    return ⟨id, shipSymbol, tradeSymbol, units, stored⟩

namespace HistoryCall

/-- What the history is to be told by a request, if anything. -/
def entry : HistoryCall → Option Entry
  | write route env req => (route.upstream env req).toOption.bind (route.entry env req)
  | deliver env req => (deliveryTold env req).map Entry.delivery
  | deliveries _ => none
  | transactions _ => none

variable (m : Mysql)

/-- What a request leaves behind. -/
def run (s : Trace) : HistoryCall → Trace
  | write route env req => (route.handler (env.on m) req s).2
  | deliver env req => (ContractsController.recordDelivery (env.on m) req s).2
  | deliveries req => (HistoryController.getDeliveries m.database req s).2
  | transactions req => (HistoryController.getTransactions m.database req s).2

/-- The entry of a request that MySQL accepts. -/
def recorded (s : Trace) (call : HistoryCall) : Option Entry :=
  call.entry.filter fun e => (m.database s.statements e.statement).isOk

end HistoryCall

/-- What some requests leave behind, one after another. -/
def runCalls (m : Mysql) (calls : List HistoryCall) : Trace :=
  calls.foldl (fun s call => call.run m s) ⟨[], []⟩

/-- What was recorded of some requests. -/
def recordedFrom (m : Mysql) (s : Trace) : List HistoryCall → List Entry
  | [] => []
  | call :: calls => (call.recorded m s).toList ++ recordedFrom m (call.run m s) calls

/-! ## One request -/

theorem WriteRoute.entry_statement (env : Env) (req : WriteRequest) (route : WriteRoute)
    (result : Value) :
    (route.entry env req result).map Entry.statement = route.statement env req result := by
  have hrow {α : Type} (row : Except JsString α) (mk : α → Entry) :
      (row.map mk).toOption.map Entry.statement = (row.map fun a => (mk a).statement).toOption := by
    cases row <;> rfl
  have hcontract : (contractEntry env.node.toDoubles (result.field "contract") env.now).map
    Entry.statement =
      contractStatement env.node.toDoubles (result.field "contract") env.now := by
    unfold contractEntry contractStatement
    cases stringifyJson env.node.toDoubles (result.field "contract") with
    | error err => rfl
    | ok rawJson => exact hrow _ Entry.contract
  cases route with
  | acceptContract => exact hcontract
  | fulfillContract => exact hcontract
  | purchaseShip => exact hrow _ Entry.transaction
  | purchaseCargo => exact hrow _ Entry.transaction
  | sellCargo => exact hrow _ Entry.transaction

/-- A delivery is answered, or told why not; without one nothing is executed. -/
theorem recordDelivery_cases (env : Env) (req : WriteRequest) (s : Trace) :
    (deliveryTold env req = none ∧
        (∃ f, ContractsController.recordDelivery env req s = (.error f, s))) ∨
      ∃ d shown, deliveryTold env req = some d ∧ toRfc3339 (instantOfDate env.now) = .ok shown ∧
        toSqlTime (instantOfDate env.now) = .ok d.deliveredAt ∧
        ContractsController.recordDelivery env req s =
          (match env.db s.statements d.insert with
            | .ok _ => .ok { d with deliveredAt := shown }
            | .error err => .error (.textAnswer 500 (js "failed to record delivery: " ++ err)),
          { s with statements := s.statements ++ [d.insert] }) := by
  unfold ContractsController.recordDelivery deliveryTold
  rw [Effect.ofExcept_bind]
  cases decodeBody env.node.toUnicode env.node.toDoubles deliveryRequestSchema req.body with
  | error f => exact .inl ⟨rfl, f, rfl⟩
  | ok body =>
    dsimp only [Except.toOption, Option.bind_eq_bind, Option.bind_some]
    split
    · exact .inl ⟨rfl, _, rfl⟩
    · unfold Effect.attempt
      rw [Effect.ofExcept_bind]
      cases symbolColumn (segmentFromEnd req.routed 1) with
      | error err => exact .inl ⟨rfl, _, rfl⟩
      | ok id =>
        dsimp only [Option.bind_some]
        rw [Effect.ofExcept_bind]
        cases hstored : toSqlTime (instantOfDate env.now) with
        | error err => exact .inl ⟨rfl, _, rfl⟩
        | ok stored =>
          obtain ⟨shown, hshown, -⟩ := Instant.toRfc3339_instant (isNormal_instantOfDate env.now)
            (toSqlTime_isSome.mp ⟨_, hstored⟩)
          refine .inr ⟨_, shown, rfl, hshown, rfl, ?_⟩
          dsimp only
          cases hdb : env.db s.statements (Delivery.insert ⟨id, (body.field "shipSymbol").asText,
              (body.field "tradeSymbol").asText, (body.field "units").asInt, stored⟩) with
          | error err => rw [Effect.bind_error (insertDelivery_error hdb)]; rfl
          | ok rows =>
            rw [Effect.bind_ok (insertDelivery_ok hdb), Effect.ofExcept_bind, hshown]; rfl

/-- A statement that reads. -/
def IsSelect (st : Statement) : Prop :=
  ∃ table columns filters order newestFirst limited,
    readHistorySql (js st.sql) = some (.select table columns filters order newestFirst limited)

theorem isSelect_deliveries (params : List SqlValue) : IsSelect ⟨SELECT_DELIVERIES_SQL, params⟩ :=
  ⟨_, _, _, _, _, _, readHistorySql_selectDeliveries⟩

theorem isSelect_transactions (q : TransactionQuery) : IsSelect ⟨q.sql, q.args⟩ :=
  ⟨_, _, _, _, _, _, readHistorySql_selectTransactions q⟩

namespace WriteRoute
variable {m : Mysql} {route : WriteRoute} {env : Env} {req : WriteRequest}

theorem upstream_on (m : Mysql) : route.upstream (env.on m) req = route.upstream env req := by
  cases route <;> rfl

theorem entry_on (m : Mysql) (result : Value) :
    route.entry (env.on m) req result = route.entry env req result := by
  cases route <;> rfl

theorem run_error {f : Failure} (h : route.upstream env req = .error f) (s : Trace) :
    (route.handler (env.on m) req s).2 = s := by
  rw [handler_eq, upstream_on, h]
  rfl

theorem run_ok {result : Value} (h : route.upstream env req = .ok result) (s : Trace) :
    Attempted m.database ((route.entry env req result).map Entry.statement) s
    (route.handler (env.on m) req s).2 := by
  obtain ⟨s', hpersist, hattempted⟩ := @persist_attempted (env.on m) req route result s
  have hrun : route.handler (env.on m) req s = (.ok result, s') := by
    rw [handler_eq, upstream_on, h]
    exact Effect.bind_ok hpersist
  rw [hrun, ← entry_on m, entry_statement]
  exact hattempted

end WriteRoute

namespace HistoryCall
variable {m : Mysql} {call : HistoryCall}

/-- What a request tells of is what it executes. -/
theorem run_told {e : Entry} (h : call.entry = some e) (s : Trace) :
    (call.run m s).statements = s.statements ++ [e.statement] := by
  cases call with
  | write route env req =>
    cases hup : route.upstream env req with
    | error f => simp [entry, hup, Except.toOption] at h
    | ok result =>
      have he : route.entry env req result = some e := by
        simpa [entry, hup, Except.toOption] using h
      rw [run, (WriteRoute.run_ok hup s).statements, he]
      rfl
  | deliver env req =>
    rcases recordDelivery_cases (env.on m) req s with ⟨hnone, -⟩ | ⟨d, shown, hsome, -, -, hrun⟩
    · have hnone' : deliveryTold env req = none := hnone
      simp [entry, hnone'] at h
    · have hsome' : deliveryTold env req = some d := hsome
      obtain rfl : Entry.delivery d = e := by simpa [entry, hsome'] using h
      rw [run, hrun]
      rfl
  | deliveries req => cases h
  | transactions req => cases h

/-- Any other request executes nothing but what reads. -/
theorem run_silent (h : call.entry = none) (s : Trace) :
    ∃ reads, (call.run m s).statements = s.statements ++ reads ∧ ∀ st ∈ reads, IsSelect st := by
  cases call with
  | write route env req =>
    cases hup : route.upstream env req with
    | error f => exact ⟨[], by rw [run, WriteRoute.run_error hup, List.append_nil], nofun⟩
    | ok result =>
      have he : route.entry env req result = none := by simpa [entry, hup, Except.toOption] using h
      refine ⟨[], ?_, nofun⟩
      rw [run, (WriteRoute.run_ok hup s).statements, he]
      rfl
  | deliver env req =>
    rcases recordDelivery_cases (env.on m) req s with ⟨-, f, hrun⟩ | ⟨d, shown, hsome, -⟩
    · exact ⟨[], by rw [run, hrun, List.append_nil], nofun⟩
    · have hsome' : deliveryTold env req = some d := hsome
      simp [entry, hsome'] at h
  | deliveries req =>
    refine ⟨_, getDeliveries_statement m.database req s, ?_⟩
    exact List.forall_mem_singleton.mpr (isSelect_deliveries _)
  | transactions req =>
    rw [run]
    by_cases htype : HistoryController.IsNoType (firstValue (rawQueryOf req.url) (js "type"))
    · rw [HistoryController.getTransactions_noType _ _ htype]
      exact ⟨[], (List.append_nil _).symm, nofun⟩
    by_cases hlimit : HistoryController.IsNoLimit (firstValue (rawQueryOf req.url) (js "limit"))
    · rw [HistoryController.getTransactions_noLimit _ _ htype hlimit]
      exact ⟨[], (List.append_nil _).symm, nofun⟩
    · obtain ⟨wanted, hwanted, -⟩ := HistoryController.wantedType_type htype
      obtain ⟨count, hcount, -⟩ := HistoryController.wantedCount_limit hlimit
      rw [HistoryController.getTransactions_select m.database req s hwanted hcount]
      exact ⟨_, rfl, List.forall_mem_singleton.mpr (isSelect_transactions _)⟩

theorem replay_reads {before reads : List Statement} (h : ∀ st ∈ reads, IsSelect st) :
    m.replay (before ++ reads) = m.replay before := by
  induction reads using List.reverseRecOn with
  | nil => rw [List.append_nil]
  | append_singleton reads st ih =>
    obtain ⟨_, _, _, _, _, _, hsql⟩ := h st (by simp)
    rw [← List.append_assoc, Mysql.replay_select hsql, ih fun st' hst' => h st' (by simp [hst'])]

/-- The tables after a request represent what they did, and what it recorded. -/
theorem run_represents {s : Trace} {l : Ledger} (h : m.Represents (m.replay s.statements) l) :
    m.Represents (m.replay (call.run m s).statements)
    ((call.recorded m s).toList.foldl (Ledger.enter m.same) l) := by
  unfold recorded
  cases hentry : call.entry with
  | none =>
    obtain ⟨reads, hreads, hselect⟩ := run_silent hentry s
    rw [hreads, replay_reads hselect]
    exact h
  | some e =>
    rw [run_told hentry]
    cases hdb : m.database s.statements e.statement with
    | error message =>
      rw [Mysql.database_error hdb]
      simpa [Option.filter, hdb, Except.isOk, Except.toBool] using h
    | ok rows =>
      obtain ⟨tables, hout, hreplay⟩ := Mysql.database_ok hdb
      rw [hreplay]
      simpa [Option.filter, hdb, Except.isOk, Except.toBool] using h.enter hout

end HistoryCall

/-! ## A run -/

theorem recordedFrom_append (m : Mysql) (s : Trace) (calls calls' : List HistoryCall) :
    recordedFrom m s (calls ++ calls') =
      recordedFrom m s calls ++ recordedFrom m (calls.foldl (fun s call => call.run m s) s)
      calls' := by
  induction calls generalizing s with
  | nil => rfl
  | cons call calls ih => simp [recordedFrom, ih]

/-- What was recorded over a run. -/
def recordedOver (m : Mysql) (calls : List HistoryCall) : List Entry :=
  recordedFrom m ⟨[], []⟩ calls

theorem runCalls_append (m : Mysql) (calls : List HistoryCall) (call : HistoryCall) :
    runCalls m (calls ++ [call]) = call.run m (runCalls m calls) := List.foldl_concat ..

theorem recordedOver_append (m : Mysql) (calls : List HistoryCall) (call : HistoryCall) :
    recordedOver m (calls ++ [call]) = recordedOver m calls ++
      (call.recorded m (runCalls m calls)).toList := by
  rw [recordedOver, recordedFrom_append]
  exact congrArg _ (List.append_nil _)

theorem represents_recordedOver (m : Mysql) (calls : List HistoryCall) :
    m.Represents (m.replay (runCalls m calls).statements)
    (Ledger.of m.same (recordedOver m calls)) := by
  induction calls using List.reverseRecOn with
  | nil => exact m.represents_empty
  | append_singleton calls call ih =>
    rw [runCalls_append, recordedOver_append, Ledger.of, List.foldl_append]
    exact call.run_represents ih

end AgentService
