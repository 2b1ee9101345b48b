import AgentService.Controllers.HistoryRuns

/-!
# What the history answers after a run

The two reads list what was recorded: all the deliveries of a contract, oldest first, and the
transactions a query asks for, newest first and up to its limit. Of a contract one row is kept, in
its latest state. A write that is not recorded has its own line in the log.
-/

namespace AgentService
open Lib

/-! ## Times -/

theorem isWritten_occurredAt {stamp : Value} {now : Int} {time : JsString}
    (h : occurredAt stamp now = .ok time) : IsWritten time := by
  obtain ⟨instant, -, htime⟩ := bind_eq_ok.mp h
  exact ⟨_, htime⟩

theorem toOption_eq_some {ε α : Type} {r : Except ε α} {a : α} (h : r.toOption = some a) :
    r = .ok a := by
  cases r with
  | error e => cases h
  | ok b =>
    cases h
    rfl

theorem shipPurchaseRow_time {result : Value} {now : Int} {t : NewTransaction}
    (h : shipPurchaseRow result now = .ok t) : IsWritten t.occurredAt := by
  obtain ⟨time, htime, hrow⟩ := bind_eq_ok.mp h
  cases hrow
  exact isWritten_occurredAt htime

theorem cargoTradeRow_time {type : TransactionType} {ship : Bytes} {result : Value} {now : Int}
    {t : NewTransaction} (h : cargoTradeRow type ship result now = .ok t) :
    IsWritten t.occurredAt := by
  obtain ⟨symbol, -, hrow⟩ := bind_eq_ok.mp h
  obtain ⟨time, htime, hrow⟩ := bind_eq_ok.mp hrow
  cases hrow
  exact isWritten_occurredAt htime

/-- The time of an entry a read shows. -/
def Entry.IsTimed : Entry → Prop
  | transaction t => IsWritten t.occurredAt
  | delivery d => IsWritten d.deliveredAt
  | contract _ => True

theorem WriteRoute.entry_isTimed {env : Env} {req : WriteRequest} {result : Value}
    {route : WriteRoute} {e : Entry} (h : route.entry env req result = some e) : e.IsTimed := by
  have hcontract {contract : Value}
      (h : contractEntry env.node.toDoubles contract env.now = some e) : e.IsTimed := by
    obtain ⟨rawJson, -, hrow⟩ := Option.bind_eq_some_iff.mp h
    obtain ⟨c, -, rfl⟩ := map_eq_ok.mp (toOption_eq_some hrow)
    trivial
  have htransaction {row : Except JsString NewTransaction}
      (h : (row.map Entry.transaction).toOption = some e)
      (htime : ∀ t, row = .ok t → IsWritten t.occurredAt) : e.IsTimed := by
    obtain ⟨t, ht, rfl⟩ := map_eq_ok.mp (toOption_eq_some h)
    exact htime t ht
  cases route with
  | acceptContract => exact hcontract h
  | fulfillContract => exact hcontract h
  | purchaseShip => exact htransaction h fun t => shipPurchaseRow_time
  | purchaseCargo => exact htransaction h fun t => cargoTradeRow_time
  | sellCargo => exact htransaction h fun t => cargoTradeRow_time

theorem HistoryCall.entry_isTimed {call : HistoryCall} {e : Entry} (h : call.entry = some e) :
    e.IsTimed := by
  cases call with
  | write route env req =>
    obtain ⟨result, -, he⟩ := Option.bind_eq_some_iff.mp h
    exact WriteRoute.entry_isTimed he
  | deliver env req =>
    obtain ⟨d, hd, rfl⟩ := Option.map_eq_some_iff.mp h
    rcases recordDelivery_cases env req ⟨[], []⟩ with ⟨hnone, -⟩ | ⟨d', -, hsome, -, htime, -⟩
    · rw [hnone] at hd
      cases hd
    · rw [hsome] at hd
      cases hd
      exact ⟨_, htime⟩
  | deliveries req => cases h
  | transactions req => cases h

theorem recordedOver_isTimed (m : Mysql) (calls : List HistoryCall) :
    ∀ e ∈ recordedOver m calls, e.IsTimed := by
  induction calls using List.reverseRecOn with
  | nil => exact nofun
  | append_singleton calls call ih =>
    intro e he
    rw [recordedOver_append, List.mem_append, Option.mem_toList] at he
    rcases he with he | he
    · exact ih e he
    · exact HistoryCall.entry_isTimed (Option.filter_eq_some_iff.mp he).1

theorem ledgerOf_isTimed (m : Mysql) (calls : List HistoryCall) :
    (Ledger.of m.same (recordedOver m calls)).IsTimed := by
  constructor
  · intro t ht
    rw [Ledger.of_transactions] at ht
    obtain ⟨e, he, hasTransaction⟩ := List.mem_filterMap.mp ht
    have htimed := recordedOver_isTimed m calls e he
    cases e <;> cases hasTransaction
    exact htimed
  · intro d hd
    rw [Ledger.of_deliveries] at hd
    obtain ⟨e, he, hasDelivery⟩ := List.mem_filterMap.mp hd
    have htimed := recordedOver_isTimed m calls e he
    cases e <;> cases hasDelivery
    exact htimed

/-! ## The answers -/

def deliveriesOver (m : Mysql) (calls : List HistoryCall) : List Delivery :=
  (recordedOver m calls).filterMap Entry.asDelivery

def contractsOver (m : Mysql) (calls : List HistoryCall) : List NewContract :=
  (recordedOver m calls).filterMap Entry.asContract

/-- A delivery is of the contract a path asks for. -/
def isOf (m : Mysql) (req : RoutedRequest) (d : Delivery) : Bool :=
  m.equal (.text d.contractId) (textOrBytes (segmentFromEnd req 1)).toSql

/-- The SELECT of the deliveries a path asks for. -/
def selectDeliveries (req : RoutedRequest) : Statement :=
  ⟨SELECT_DELIVERIES_SQL, [(textOrBytes (segmentFromEnd req 1)).toSql]⟩

/-- After any requests `GET …/deliveries` lists, of what was recorded over them, every delivery of
the contract once, oldest first. -/
theorem getDeliveries_lists (m : Mysql) (calls : List HistoryCall) (req : RoutedRequest)
    (hrefuses : m.refuses (runCalls m calls).statements (selectDeliveries req) = none) :
    ∃ all out, List.Forall₂ Delivery.ShownAs ((deliveriesOver m calls).filter (isOf m req)) all ∧
      (HistoryController.getDeliveries m.database req (runCalls m calls)).1 = .ok out ∧
      out.Perm all ∧ out.Pairwise fun x y => NotAfter x.deliveredAt y.deliveredAt := by
  obtain ⟨all, out, hall, hread, hlisting⟩ :=
    Mysql.deliveriesForContract_lists (represents_recordedOver m calls)
      (ledgerOf_isTimed m calls) hrefuses
  rw [Ledger.of_deliveries] at hall
  refine ⟨all, out, hall, ?_, hlisting.perm_of_le (Nat.le_refl _), hlisting.sorted⟩
  unfold HistoryController.getDeliveries
  rw [Effect.attempt_ok (Prod.ext hread rfl)]

theorem textOrBytes_of_symbolColumn {bytes : Bytes} {id : JsString}
    (h : symbolColumn bytes = .ok id) : textOrBytes bytes = .text id := by
  unfold symbolColumn at h
  unfold textOrBytes
  cases hutf8 : utf8 bytes with
  | none =>
    rw [hutf8] at h
    cases h
  | some text =>
    rw [hutf8] at h
    cases h
    rfl

/-- A delivery that was answered is listed from then on, as it was answered but for
the fraction of its second. -/
theorem answered_delivery_listed (m : Mysql) (before after : List HistoryCall) (env : Env)
    (req : WriteRequest) {row : Delivery}
    (hanswered : (ContractsController.recordDelivery (env.on m) req (runCalls m before)).1 =
      .ok row) (reader : RoutedRequest)
    (hpath : segmentFromEnd reader 1 = segmentFromEnd req.routed 1)
    (hrefuses : m.refuses (runCalls m (before ++ .deliver env req :: after)).statements
      (selectDeliveries reader) = none) :
    ∃ out, (HistoryController.getDeliveries m.database reader
        (runCalls m (before ++ .deliver env req :: after))).1 = .ok out ∧
      ∃ x ∈ out, x = { row with deliveredAt := x.deliveredAt } ∧ ∃ i j : Instant,
        timeInstant row.deliveredAt = .ok i ∧
        timeInstant x.deliveredAt = .ok j ∧ j.nanos = 0 ∧
          (j.seconds = i.seconds ∨ j.seconds = i.seconds + 1) := by
  obtain ⟨d, shown, htold, hshown, hstored, hrun⟩ :=
    (recordDelivery_cases (env.on m) req (runCalls m before)).resolve_left fun ⟨_, f, hrun⟩ => by
      simp [hrun] at hanswered
  cases hdb : m.database (runCalls m before).statements d.insert with
  | error err =>
    have hdb' : (env.on m).db (runCalls m before).statements d.insert = .error err := hdb
    simp [hrun, hdb'] at hanswered
  | ok rows =>
    have hdb' : (env.on m).db (runCalls m before).statements d.insert = .ok rows := hdb
    rw [hrun, hdb'] at hanswered
    cases hanswered
    have hentry : (HistoryCall.deliver env req).recorded m (runCalls m before) =
        some (.delivery d) := by
      have htold' : deliveryTold env req = some d := htold
      simp [HistoryCall.recorded, HistoryCall.entry, htold', Option.filter, Entry.statement, hdb,
        Except.isOk, Except.toBool]
    have hmem : d ∈ deliveriesOver m (before ++ .deliver env req :: after) := by
      refine List.mem_filterMap.mpr ⟨.delivery d, ?_, rfl⟩
      rw [recordedOver, recordedFrom_append]
      refine List.mem_append_right _ (List.mem_append_left _ ?_)
      exact Option.mem_toList.mpr hentry
    have hcontract : isOf m reader d = true := by
      obtain ⟨-, -, -, -, hid, -⟩ := recordDelivery_run (hrun.trans (by rw [hdb']))
      rw [isOf, hpath, textOrBytes_of_symbolColumn hid]
      exact m.same_refl d.contractId
    obtain ⟨all, out, hall, hout, hperm, -⟩ := getDeliveries_lists m _ reader hrefuses
    obtain ⟨x, hx, hshows⟩ := forall₂_mem_left hall (List.mem_filter.mpr ⟨hmem, hcontract⟩)
    obtain ⟨j, hj, -, hwhole, hseconds⟩ := hshows.time
    obtain ⟨text, htext, -, hinstant⟩ :=
      Instant.toRfc3339_instant (isNormal_instantOfDate env.now) (toSqlTime_isSome.mp ⟨_, hstored⟩)
    cases hshown.symm.trans htext
    exact ⟨out, hout, x, hperm.mem_iff.mpr hx, hshows.members, _, j, hinstant, hj, hwhole,
      hseconds _ hstored⟩

/-- A delivery of two units, half a second past a second. -/
def deliveryEnv : Env where
  node := plainNode
  base := js "http://gw.test/proxy"
  gateway := fun _ _ => ⟨none, false⟩
  db := fun _ _ => .ok []
  now := 1700000000500

def deliveryRequest : WriteRequest where
  routed := ⟨latin1Encode (js "/contracts/C-1/deliveries"), []⟩
  authorization := none
  body := some ⟨latin1Encode
    (js "\x7b\"shipSymbol\":\"S-1\",\"tradeSymbol\":\"IRON\",\"units\":2\x7d"), false⟩

/-- What it records. -/
def deliveryMade : Delivery := ⟨js "C-1", js "S-1", js "IRON", 2, js "2023-11-14 22:13:20.500000"⟩

theorem plainMysql_delivery {d : Delivery} {cells : List SqlValue}
    (h : plainMysql.cells [VARCHAR, VARCHAR, VARCHAR, INT, TIMESTAMP] d.insert.params =
      some cells) :
    plainMysql.database [] d.insert = .ok [] := by
  obtain ⟨tables, hout⟩ := Mysql.carryOut_delivery (plainMysql.replay []) h
  exact Mysql.database_select (m := plainMysql) rfl hout

theorem recordDelivery_answers {env : Env} {req : WriteRequest} {s : Trace} {d : Delivery}
    {rows : List (List SqlValue)} (htold : deliveryTold env req = some d)
    (hdb : env.db s.statements d.insert = .ok rows) :
    ∃ row, row.tradeSymbol = d.tradeSymbol ∧ (ContractsController.recordDelivery env req s).1 =
      .ok row := by
  rcases recordDelivery_cases env req s with ⟨hnone, -⟩ | ⟨d', shown, hsome, -, -, hrun⟩
  · cases hnone.symm.trans htold
  · cases hsome.symm.trans htold
    rw [hdb] at hrun
    exact ⟨{ d with deliveredAt := shown }, rfl, congrArg Prod.fst hrun⟩

theorem answered_deliveryMade : ∃ row, row.tradeSymbol = js "IRON" ∧
    (ContractsController.recordDelivery (deliveryEnv.on plainMysql) deliveryRequest ⟨[], []⟩).1 =
      .ok row := by
  have htold : deliveryTold (deliveryEnv.on plainMysql) deliveryRequest = some deliveryMade := by
    decide +kernel
  have hstores : (plainMysql.cells [VARCHAR, VARCHAR, VARCHAR, INT,
      TIMESTAMP] deliveryMade.insert.params).isSome = true := by
    decide +kernel
  have htrade : deliveryMade.tradeSymbol = js "IRON" := rfl
  generalize deliveryMade = made at htold hstores htrade
  obtain ⟨cells, hcells⟩ := Option.isSome_iff_exists.mp hstores
  have hdatabase : (deliveryEnv.on plainMysql).db = plainMysql.database := rfl
  have hdb : (deliveryEnv.on plainMysql).db [] made.insert = .ok [] := by
    rw [hdatabase, plainMysql_delivery hcells]
  obtain ⟨row, hrow, hanswered⟩ := recordDelivery_answers (s := ⟨[], []⟩) htold hdb
  exact ⟨row, hrow.trans htrade, hanswered⟩

/-- The delivery is listed by a read that comes after another one. -/
theorem answered_delivery_listed_half : ∃ out,
    (HistoryController.getDeliveries plainMysql.database deliveryRequest.routed
      (runCalls plainMysql ([] ++ .deliver deliveryEnv deliveryRequest ::
        [.deliveries deliveryRequest.routed]))).1 = .ok out ∧
    ∃ x ∈ out, x.tradeSymbol = js "IRON" := by
  obtain ⟨row, htrade, hanswered⟩ := answered_deliveryMade
  obtain ⟨out, hread, x, hx, hmembers, -⟩ :=
    answered_delivery_listed plainMysql [] [.deliveries deliveryRequest.routed] deliveryEnv
      deliveryRequest hanswered deliveryRequest.routed rfl rfl
  exact ⟨out, hread, x, hx, by rw [hmembers, ← htrade]⟩

/-! ## Contracts -/

theorem keepsKeys_contracts (m : Mysql) :
    KeepsKeys (fun a b : NewContract => m.same a.id b.id) NewContract.merge where
  refl a := m.same_refl a.id
  symm a b := m.same_symm a.id b.id
  trans a b c := m.same_trans a.id b.id c.id
  merged a _ := m.same_refl a.id

/-- The contracts recorded under an id, in order. -/
def contractsOf (m : Mysql) (calls : List HistoryCall) (id : JsString) : List NewContract :=
  (contractsOver m calls).filter fun c => m.same c.id id

/-- After any requests there is one row for each contract that was recorded, and it has the id,
faction and type of the first record and the state, JSON and time of the last. -/
theorem contracts_latest (m : Mysql) (calls : List HistoryCall) :
    ∃ known : List NewContract,
      List.Forall₂ (fun row c => m.row (js "contracts") contractColumns c.upsert.params = some row)
        (m.replay (runCalls m calls).statements (js "contracts")) known ∧
      (known.Pairwise fun a b => m.same a.id b.id = false) ∧
      ∀ id, known.find? (fun c => m.same c.id id) =
        latest NewContract.merge (contractsOf m calls id) := by
  have hrepresents := (represents_recordedOver m calls).contracts
  have hkeys := keepsKeys_contracts m
  rw [Ledger.of_contracts] at hrepresents
  refine ⟨_, hrepresents, hkeys.distinct_upsertAll .nil _, fun id => ?_⟩
  exact hkeys.find_latest (fun _ => rfl) (fun _ _ _ => rfl) ⟨id, [], [], false, false, [],
    []⟩ (contractsOver m calls)

/-! ## Writes that are lost -/

end AgentService
