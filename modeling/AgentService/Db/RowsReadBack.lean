import AgentService.Controllers.BestEffort
import AgentService.Controllers.History
import AgentService.Db.Readback
import AgentService.Db.Rows

/-!
# A history row reads back as it was recorded

The row a SELECT returns for an INSERT is read cell by cell: a column that was stored as NULL is an
absent member and no other is, numbers are exact, and a time of whole seconds is the same instant.
The answer's JSON is decoded again.
-/

namespace AgentService
open Lib

/-! ## Transactions -/

/-- A row as the API shows it, its time in RFC 3339. -/
def NewTransaction.shown (t : NewTransaction) (occurredAt : JsString) : Transaction where
  type := t.type.name
  shipSymbol := t.shipSymbol
  waypointSymbol := t.waypointSymbol
  shipType := t.shipType
  tradeSymbol := t.tradeSymbol
  units := t.units
  pricePerUnit := t.pricePerUnit
  totalPrice := t.totalPrice
  agentCredits := t.agentCredits
  occurredAt := occurredAt

/-- The members of a transaction, in the documented order, as the columns are. -/
def transactionMembers : List JsString :=
  [js "type", js "shipSymbol", js "waypointSymbol", js "shipType", js "tradeSymbol", js "units",
    js "pricePerUnit", js "totalPrice", js "agentCredits", js "occurredAt"]

/-- The names whose cells are not NULL. -/
def presentNames (names : List JsString) (row : List SqlValue) : List JsString :=
  ((names.zip row).filter fun e => e.2 ≠ .null).map Prod.fst

section
variable {name : JsString} {names : List JsString} {cell : SqlValue} {cells : List SqlValue}

theorem presentNames_present (h : cell ≠ .null) :
    presentNames (name :: names) (cell :: cells) = name :: presentNames names cells := by
  simp [presentNames, h]

theorem presentNames_optional {α : Type} {member : String} {write : α → Value} {v : Option α}
    (h : cell = .null ↔ v = none) :
    presentNames (js member :: names) (cell :: cells) =
      (optionalMember member write v).map Prod.fst ++ presentNames names cells := by
  cases v with
  | none => simp [presentNames, optionalMember, h]
  | some a =>
    have hne : cell ≠ .null := by simp [h]
    simp [presentNames, optionalMember, hne]

end

theorem unlessNull_text {v : Option JsString} {cell : SqlValue}
    (h : returnedCell VARCHAR (textOrNull v) = some cell) :
    unlessNull (fun v => .ok (asText v)) (some cell) = .ok v ∧ (cell = .null ↔ v = none) := by
  cases v with
  | none =>
    cases h
    exact ⟨rfl, by simp⟩
  | some s =>
    cases h
    exact ⟨rfl, by simp⟩

theorem unlessNull_int {v : Option Int} {cell : SqlValue}
    (h : returnedCell INT (orNull v) = some cell) :
    unlessNull asInt (some cell) = .ok v ∧ (cell = .null ↔ v = none) ∧ ∀ n, v = some n →
      INT64_MIN ≤ n ∧ n ≤ INT64_MAX := by
  cases v with
  | none =>
    cases h
    exact ⟨rfl, by simp, by simp⟩
  | some n =>
    obtain ⟨rfl, hlo, hhi⟩ := returnedCell_int h
    refine ⟨rfl, by simp, ?_⟩
    rintro _ ⟨⟩
    unfold INT64_MIN INT64_MAX
    omega

theorem asInt_bigint {v : Int} {cell : SqlValue}
    (h : returnedCell BIGINT (.text (bigintText v)) = some cell) :
    asInt (some cell) = .ok v ∧ cell ≠ .null ∧ INT64_MIN ≤ v ∧ v ≤ INT64_MAX := by
  obtain ⟨rfl, hlo, hhi⟩ := returnedCell_bigint h
  refine ⟨?_, by simp, ?_, ?_⟩
  · simp only [asInt, bigIntOfText_bigint]
  · unfold INT64_MIN
    omega
  · unfold INT64_MAX
    omega

/-- The numbers of a transaction are integers of 64 bits. -/
structure Transaction.InRange (x : Transaction) : Prop where
  units : ∀ n, x.units = some n → INT64_MIN ≤ n ∧ n ≤ INT64_MAX
  pricePerUnit : ∀ n, x.pricePerUnit = some n → INT64_MIN ≤ n ∧ n ≤ INT64_MAX
  totalPrice : INT64_MIN ≤ x.totalPrice ∧ x.totalPrice ≤ INT64_MAX
  agentCredits : INT64_MIN ≤ x.agentCredits ∧ x.agentCredits ≤ INT64_MAX

/-- The returned row of a transaction is read as the transaction. -/
theorem readTransaction_returned {t : NewTransaction} {q : TransactionQuery} {row : List SqlValue}
    {back : JsString} (h : returnedRow t.insert q.sql = some row)
    (hback : fromSqlTime t.occurredAt = .ok back) :
    readTransaction row = .ok (t.shown back) ∧ (t.shown back).InRange ∧
      ∃ members, (t.shown back).value = .struct members ∧
      members.map Prod.fst = presentNames transactionMembers row := by
  rw [returnedRow_transaction] at h
  simp only [NewTransaction.insert, List.zip_cons_cons, List.zip_nil_right, List.mapM_cons,
    List.mapM_nil, Option.bind_eq_bind, Option.pure_def, Option.bind_eq_some_iff,
    Option.some.injEq] at h
  obtain ⟨type, htype, _, ⟨ship, hship, _,
    ⟨waypoint, hwaypoint, _, ⟨shipType, hshipType, _,
      ⟨trade, htrade, _, ⟨units, hunits, _,
        ⟨price, hprice, _, ⟨total, htotal, _,
          ⟨credits, hcredits, _, ⟨occurred, hoccurred, _, rfl, rfl⟩, rfl⟩, rfl⟩, rfl⟩, rfl⟩,
    rfl⟩, rfl⟩, rfl⟩, rfl⟩, rfl⟩ := h
  cases htype
  cases hship
  cases hwaypoint
  obtain ⟨hreadShipType, hnullShipType⟩ := unlessNull_text hshipType
  obtain ⟨hreadTrade, hnullTrade⟩ := unlessNull_text htrade
  obtain ⟨hreadUnits, hnullUnits, hrangeUnits⟩ := unlessNull_int hunits
  obtain ⟨hreadPrice, hnullPrice, hrangePrice⟩ := unlessNull_int hprice
  obtain ⟨hreadTotal, hneTotal, hrangeTotal⟩ := asInt_bigint htotal
  obtain ⟨hreadCredits, hneCredits, hrangeCredits⟩ := asInt_bigint hcredits
  cases returnedCell_timestamp hoccurred
  refine ⟨?_, ⟨hrangeUnits, hrangePrice, hrangeTotal, hrangeCredits⟩, ?_⟩
  · unfold readTransaction
    simp only [List.getElem?_cons_succ, List.getElem?_cons_zero]
    rw [hreadShipType, ok_bind, hreadTrade, ok_bind, hreadUnits, ok_bind, hreadPrice, ok_bind,
      hreadTotal, ok_bind, hreadCredits, ok_bind]
    change (fromSqlTime t.occurredAt >>= _) = _
    rw [hback]
    rfl
  · refine ⟨_, rfl, ?_⟩
    unfold transactionMembers
    rw [presentNames_present (by simp), presentNames_present (by simp),
      presentNames_present (by simp), presentNames_optional hnullShipType,
      presentNames_optional hnullTrade, presentNames_optional hnullUnits,
      presentNames_optional hnullPrice, presentNames_present hneTotal,
        presentNames_present hneCredits,
      presentNames_present (by simp)]
    simp only [List.map_append, List.map_cons, List.map_nil, List.append_assoc, List.cons_append,
      List.nil_append, NewTransaction.shown]
    rfl

/-! ## The answer's JSON -/

/-- A member that is there when the value is. -/
def optionalField {α : Type} (name : String) (schema : Schema) (v : Option α) :
    List (JsString × Schema) :=
  (v.map fun _ => (js name, schema)).toList

/-- The shape of a transaction's answer: of the members that may be absent, those that are there. -/
def Transaction.schema (x : Transaction) : Schema :=
  .struct ([(js "type", .text), (js "shipSymbol", .text), (js "waypointSymbol", .text)] ++
    optionalField "shipType" .text x.shipType ++ optionalField "tradeSymbol" .text x.tradeSymbol ++
    optionalField "units" .int64 x.units ++ optionalField "pricePerUnit" .int64 x.pricePerUnit ++
    [(js "totalPrice", .int64), (js "agentCredits", .int64), (js "occurredAt", .time)])

def deliverySchema : Schema := struct [
  ("contractId", .text), ("shipSymbol", .text), ("tradeSymbol", .text), ("units", .int64),
    ("deliveredAt", .time)]

theorem FitsFields.append {fields fields' : List (JsString × Schema)}
    {members members' : List (JsString × Value)} (h : FitsFields fields members)
    (h' : FitsFields fields' members') : FitsFields (fields ++ fields') (members ++ members') := by
  induction fields generalizing members with
  | nil =>
    cases h
    exact h'
  | cons f fields ih =>
    cases h with
    | cons hv hs => exact .cons hv (ih hs)

theorem fits_optional {α : Type} {name : String} {schema : Schema} {write : α → Value}
    {v : Option α} (h : ∀ a, v = some a → Fits schema (write a)) :
    FitsFields (optionalField name schema v) (optionalMember name write v) := by
  cases v with
  | none => exact .nil
  | some a => exact .cons (h a rfl) .nil

theorem fits_text {t : JsString} (h : IsText t) : Fits .text (.text t) := by
  obtain ⟨cs, rfl⟩ := h
  exact .text cs

/-- The texts of a transaction are texts. -/
structure Transaction.IsTexts (x : Transaction) : Prop where
  type : IsText x.type
  shipSymbol : IsText x.shipSymbol
  waypointSymbol : IsText x.waypointSymbol
  shipType : ∀ s, x.shipType = some s → IsText s
  tradeSymbol : ∀ s, x.tradeSymbol = some s → IsText s

theorem Transaction.fits {x : Transaction} (htexts : x.IsTexts) (hrange : x.InRange)
    (htime : normaliseTime x.occurredAt = .ok (.text x.occurredAt)) : Fits x.schema x.value := by
  have hfirst : FitsFields [(js "type", .text), (js "shipSymbol", .text),
    (js "waypointSymbol", .text)]
      [(js "type", .text x.type), (js "shipSymbol", .text x.shipSymbol),
          (js "waypointSymbol", .text x.waypointSymbol)] :=
    .cons (fits_text htexts.type)
      (.cons (fits_text htexts.shipSymbol) (.cons (fits_text htexts.waypointSymbol) .nil))
  have hlast : FitsFields [(js "totalPrice", .int64), (js "agentCredits", .int64),
    (js "occurredAt", .time)]
      [(js "totalPrice", .int x.totalPrice), (js "agentCredits", .int x.agentCredits),
          (js "occurredAt", .text x.occurredAt)] :=
    .cons (.int64 hrange.totalPrice.1 hrange.totalPrice.2)
      (.cons (.int64 hrange.agentCredits.1 hrange.agentCredits.2) (.cons (.time htime) .nil))
  have hshipType := @fits_optional _ "shipType" _ _ _ fun s hs => fits_text (htexts.shipType s hs)
  have htrade := @fits_optional _ "tradeSymbol" _ _ _ fun s hs =>
    fits_text (htexts.tradeSymbol s hs)
  have hunits := @fits_optional _ "units" _ _ _ fun n hn =>
    Fits.int64 (hrange.units n hn).1 (hrange.units n hn).2
  have hprice := @fits_optional _ "pricePerUnit" _ _ _ fun n hn =>
    Fits.int64 (hrange.pricePerUnit n hn).1 (hrange.pricePerUnit n hn).2
  exact .struct (((((hfirst.append hshipType).append htrade).append hunits).append hprice).append
    hlast)

/-- The text of a transaction is read as the transaction. -/
theorem Transaction.readsBack (unicode : Unicode) {doubles : Doubles} (hdoubles : doubles.IsExact)
    {x : Transaction} (h : Fits x.schema x.value) :
    ∃ text, stringifyJson doubles x.value = .ok text ∧
      ReadsBack unicode doubles x.schema text x.value := by
  have hnames : x.schema.hasPlainNames = true ∧ x.schema.nesting = 1 := by
    obtain ⟨_, _, _, shipType, trade, units, price, _, _, _⟩ := x
    cases shipType <;> cases trade <;> cases units <;> cases price <;> exact ⟨rfl, rfl⟩
  have hno : hasUnencodable x.value = false := by
    obtain ⟨_, _, _, shipType, trade, units, price, _, _, _⟩ := x
    cases shipType <;> cases trade <;> cases units <;> cases price <;> rfl
  obtain ⟨text, htext, hreads, -⟩ := fits_readsBack unicode hdoubles h hno hnames.1
  have hshallow : x.value.nesting ≤ 1 := hnames.2 ▸ h.nesting_le
  exact ⟨text, htext, hreads (hshallow.trans (by decide))⟩

/-! ## The rows that are built -/

/-- A row that `persistShipPurchase` or `persistCargoTrade` builds of an answer. -/
inductive IsBuilt (now : Int) : NewTransaction → Prop
  | shipPurchase {result t} (hfits : Fits purchaseShipResultSchema result)
      (h : shipPurchaseRow result now = .ok t) : IsBuilt now t
  | cargoTrade {type path result t} (hfits : Fits marketTransactionResultSchema result)
      (h : cargoTradeRow type path result now = .ok t) : IsBuilt now t

theorem Fits.isText {v : Value} (h : Fits .text v) : IsText v.asText := by
  cases h with
  | text cs => exact ⟨cs, rfl⟩

theorem isText_name (type : TransactionType) : IsText type.name := by
  have hascii (s : String) (h : (js s).all (· < 0x80) = true) : IsText (js s) := by
    obtain ⟨hdecode, hbytes⟩ := latin1_of_ascii fun u hu =>
      of_decide_eq_true (List.all_eq_true.mp h u hu)
    rw [← hdecode]
    exact isText_ascii hbytes
  cases type with
  | shipPurchase => exact hascii "SHIP_PURCHASE" (by decide)
  | purchase => exact hascii "PURCHASE" (by decide)
  | sell => exact hascii "SELL" (by decide)

theorem occurredAt_instant {stamp : Value} (h : Fits .time stamp) {now : Int} {time : JsString}
    (htime : occurredAt stamp now = .ok time) :
    ∃ i : Instant, i.IsNormal ∧ toSqlTime i = .ok time := by
  obtain ⟨i, hi, hnormal⟩ := h.instant
  rw [occurredAt_eq hi] at htime
  exact ⟨_, isNormal_recordedInstant hnormal now, htime⟩

/-- Its texts are texts, and its time is an instant's. -/
theorem IsBuilt.spec {now : Int} {t : NewTransaction} (h : IsBuilt now t) :
    (∀ back, (t.shown back).IsTexts) ∧ ∃ i : Instant, i.IsNormal ∧
      toSqlTime i = .ok t.occurredAt := by
  cases h with
  | @shipPurchase result _ hfits hrow =>
    have htx := hfits.field "transaction" shipyardTransaction rfl
    obtain ⟨time, htime, hrow⟩ := bind_eq_ok.mp hrow
    cases hrow
    refine ⟨fun back => ⟨isText_name .shipPurchase, ?_, ?_, ?_, nofun⟩,
      occurredAt_instant (htx.field "timestamp" .time rfl) htime⟩
    · exact ((hfits.field "ship" shipSchema rfl).field "symbol" .text rfl).isText
    · exact (htx.field "waypointSymbol" .text rfl).isText
    · rintro _ ⟨⟩
      exact (htx.field "shipType" .text rfl).isText
  | @cargoTrade type path result _ hfits hrow =>
    have htx := hfits.field "transaction" marketTransaction rfl
    obtain ⟨symbol, hsymbol, hrow⟩ := bind_eq_ok.mp hrow
    obtain ⟨time, htime, hrow⟩ := bind_eq_ok.mp hrow
    cases hrow
    obtain ⟨ship, -, rfl⟩ := symbolColumn_ok.mp hsymbol
    refine ⟨fun back => ⟨isText_name type, ⟨ship, rfl⟩, ?_, nofun, ?_⟩,
      occurredAt_instant (htx.field "timestamp" .time rfl) htime⟩
    · exact (htx.field "waypointSymbol" .text rfl).isText
    · rintro _ ⟨⟩
      exact (htx.field "tradeSymbol" .text rfl).isText

/-- What a row of whole seconds is read as: the same values, NULL and only NULL absent, in the
documented order, and a JSON text that decodes to them. -/
structure ReadsAs (unicode : Unicode) (doubles : Doubles) (t : NewTransaction) (i : Instant)
    (row : List SqlValue) (x : Transaction) : Prop where
  shown : x = t.shown x.occurredAt
  time : toRfc3339 i = .ok x.occurredAt ∧ timeInstant x.occurredAt = .ok i
  members : ∃ members, x.value = .struct members ∧
    members.map Prod.fst = presentNames transactionMembers row
  json : ∃ text, stringifyJson doubles x.value = .ok text ∧
    ReadsBack unicode doubles x.schema text x.value

section
variable (unicode : Unicode) {doubles : Doubles} (hdoubles : doubles.IsExact)
include hdoubles

theorem transaction_row_readsAs {t : NewTransaction} {i : Instant} {q : TransactionQuery}
    {row : List SqlValue} (hbuilt : ∃ now, IsBuilt now t) (htime : toSqlTime i = .ok t.occurredAt)
    (hwhole : i.nanos = 0)
    (hrow : returnedRow t.insert q.sql = some row) :
    ∃ x, readTransaction row = .ok x ∧ ReadsAs unicode doubles t i row x := by
  obtain ⟨now, hbuilt⟩ := hbuilt
  have hnormal : i.IsNormal := by
    rw [Instant.IsNormal, hwhole]
    exact Nat.zero_lt_succ _
  obtain ⟨back, hback, hnormalised, hinstant⟩ :=
    Instant.toRfc3339_instant hnormal (toSqlTime_isSome.mp ⟨_, htime⟩)
  have hseconds : (⟨i.seconds, 0⟩ : Instant) = i := by rw [← hwhole]
  have hread : fromSqlTime t.occurredAt = .ok back := by
    rw [fromSqlTime_toSqlTime (by omega) htime, hseconds, hback]
  obtain ⟨hx, hrange, hmembers⟩ := readTransaction_returned hrow hread
  have hfits := Transaction.fits (hbuilt.spec.1 back) hrange hnormalised
  exact ⟨_, hx, rfl, ⟨hback, hinstant⟩, hmembers, Transaction.readsBack unicode hdoubles hfits⟩

/-- A list of rows, one by one. -/
theorem transaction_rows_readAs {q : TransactionQuery} {recorded : List (NewTransaction × Instant)}
    {rows : List (List SqlValue)} (hrecorded : ∀ r ∈ recorded, (∃ now, IsBuilt now r.1) ∧
      toSqlTime r.2 = .ok r.1.occurredAt ∧ r.2.nanos = 0)
    (hrows : recorded.mapM (fun r => returnedRow r.1.insert q.sql) = some rows) :
    ∃ shown, rows.mapM readTransaction = .ok shown ∧
      List.Forall₂ (fun r x => ReadsAs unicode doubles r.1.1 r.1.2 r.2 x)
      (recorded.zip rows) shown := by
  induction recorded generalizing rows with
  | nil =>
    cases hrows
    exact ⟨[], rfl, .nil⟩
  | cons r recorded ih =>
    simp only [List.mapM_cons, Option.bind_eq_bind, Option.bind_eq_some_iff, Option.pure_def,
      Option.some.injEq] at hrows
    obtain ⟨row, hrow, rows, hrows, rfl⟩ := hrows
    obtain ⟨hbuilt, htime, hwhole⟩ := hrecorded r List.mem_cons_self
    obtain ⟨x, hx, hreads⟩ := transaction_row_readsAs unicode hdoubles hbuilt htime hwhole hrow
    obtain ⟨shown, hshown, hall⟩ := ih (fun r hr => hrecorded r (List.mem_cons_of_mem _ hr)) hrows
    refine ⟨x :: shown, ?_, .cons hreads hall⟩
    rw [List.mapM_cons, hx, ok_bind, hshown]
    rfl

/-! ## Deliveries -/

omit hdoubles in
theorem decodeBody_fits {unicode : Unicode} {doubles : Doubles} {schema : Schema}
    {read : Option BodyRead} {v : Value} (h : decodeBody unicode doubles schema read = .ok v) :
    Fits schema v := by
  unfold decodeBody at h
  split at h
  · cases h
  · split at h
    · rename_i hdecode
      cases h
      exact fits_decodeFirstValue hdecode
    · cases h
    · cases h

omit hdoubles in
theorem deliveryFits {d : Delivery} (hid : IsText d.contractId) (hship : IsText d.shipSymbol)
    (htrade : IsText d.tradeSymbol) (hunits : INT64_MIN ≤ d.units ∧ d.units ≤ INT64_MAX)
    (htime : normaliseTime d.deliveredAt = .ok (.text d.deliveredAt)) :
    Fits deliverySchema d.value :=
  .struct (.cons (fits_text hid)
    (.cons (fits_text hship) (.cons (fits_text htrade)
      (.cons (.int64 hunits.1 hunits.2) (.cons (.time htime) .nil)))))

omit hdoubles in
/-- The returned row of a delivery is read as the delivery, with the time in RFC 3339. -/
theorem readDelivery_returned {d : Delivery} {row : List SqlValue} {back : JsString}
    (h : returnedRow d.insert SELECT_DELIVERIES_SQL = some row)
    (hback : fromSqlTime d.deliveredAt = .ok back) :
    readDelivery row = .ok { d with deliveredAt := back } ∧ INT64_MIN ≤ d.units ∧
      d.units ≤ INT64_MAX := by
  rw [returnedRow_delivery] at h
  simp only [Delivery.insert, List.zip_cons_cons, List.zip_nil_right, List.mapM_cons, List.mapM_nil,
    Option.bind_eq_bind, Option.pure_def, Option.bind_eq_some_iff, Option.some.injEq] at h
  obtain ⟨id, hid, _, ⟨ship, hship, _,
    ⟨trade, htrade, _, ⟨units, hunits, _, ⟨delivered, hdelivered, _, rfl, rfl⟩, rfl⟩, rfl⟩,
    rfl⟩, rfl⟩ := h
  cases hid
  cases hship
  cases htrade
  obtain ⟨rfl, hlo, hhi⟩ := returnedCell_int hunits
  cases returnedCell_timestamp hdelivered
  refine ⟨?_, ?_, ?_⟩
  · unfold readDelivery
    simp only [List.getElem?_cons_succ, List.getElem?_cons_zero, asInt]
    rw [ok_bind]
    change (fromSqlTime d.deliveredAt >>= _) = _
    rw [hback]
    rfl
  · unfold INT64_MIN
    omega
  · unfold INT64_MAX
    omega

/-- A delivery that was recorded at a whole second: its INSERT and its answer. -/
def IsRecorded (insert : Statement) (answered : Delivery) : Prop :=
  ∃ env req s s', ContractsController.recordDelivery env req s = (.ok answered, s') ∧
    s'.statements = s.statements ++ [insert] ∧ (instantOfDate env.now).nanos = 0

/-- What a recorded delivery is read as: what it was answered with. -/
theorem delivery_row_reads {insert : Statement} {answered : Delivery} {row : List SqlValue}
    (h : IsRecorded insert answered) (hrow : returnedRow insert SELECT_DELIVERIES_SQL = some row) :
    readDelivery row = .ok answered ∧
      ∃ text, stringifyJson doubles answered.value = .ok text ∧
      ReadsBack unicode doubles deliverySchema text answered.value := by
  obtain ⟨env, req, s, s', hrun, hstatements, hwhole⟩ := h
  obtain ⟨stored, rfl, hstored, hwritten, hid, body, hbody, hship, htrade⟩ :=
    recordDelivery_run hrun
  cases List.append_cancel_left hstatements
  obtain ⟨back, hback, hnormalised, -⟩ := Instant.toRfc3339_instant (isNormal_instantOfDate env.now)
    (toSqlTime_isSome.mp ⟨_, hstored⟩)
  rw [hwritten] at hback
  cases hback
  have hseconds : (⟨(instantOfDate env.now).seconds, 0⟩ : Instant) = instantOfDate env.now := by
    rw [← hwhole]
  have hread : fromSqlTime stored = .ok answered.deliveredAt := by
    rw [fromSqlTime_toSqlTime (by omega) hstored, hseconds, hwritten]
  obtain ⟨hx, hunits⟩ := readDelivery_returned hrow hread
  refine ⟨hx, ?_⟩
  have hbodyFits := decodeBody_fits hbody
  obtain ⟨cs, -, hcs⟩ := symbolColumn_ok.mp hid
  have hfits : Fits deliverySchema answered.value := by
    apply deliveryFits ⟨cs, hcs⟩ _ _ hunits hnormalised
    · rw [hship]
      exact (hbodyFits.field "shipSymbol" .text rfl).isText
    · rw [htrade]
      exact (hbodyFits.field "tradeSymbol" .text rfl).isText
  obtain ⟨text, htext, hreads, -⟩ := fits_readsBack unicode hdoubles hfits rfl rfl
  exact ⟨text, htext, hreads (hfits.nesting_le.trans (by decide))⟩

theorem delivery_rows_read {recorded : List (Statement × Delivery)} {rows : List (List SqlValue)}
    (hrecorded : ∀ r ∈ recorded, IsRecorded r.1 r.2)
    (hrows : recorded.mapM (fun r => returnedRow r.1 SELECT_DELIVERIES_SQL) = some rows) :
    rows.mapM readDelivery = .ok (recorded.map Prod.snd) ∧ ∀ r ∈ recorded,
      ∃ text, stringifyJson doubles r.2.value = .ok text ∧
        ReadsBack unicode doubles deliverySchema text r.2.value := by
  induction recorded generalizing rows with
  | nil =>
    cases hrows
    exact ⟨rfl, nofun⟩
  | cons r recorded ih =>
    simp only [List.mapM_cons, Option.bind_eq_bind, Option.bind_eq_some_iff, Option.pure_def,
      Option.some.injEq] at hrows
    obtain ⟨row, hrow, rows, hrows, rfl⟩ := hrows
    obtain ⟨hx, hjson⟩ := delivery_row_reads unicode hdoubles (hrecorded r List.mem_cons_self) hrow
    obtain ⟨hall, hjsons⟩ := ih (fun r hr => hrecorded r (List.mem_cons_of_mem _ hr)) hrows
    constructor
    · rw [List.mapM_cons, hx, ok_bind, hall]
      rfl
    · exact List.forall_mem_cons.mpr ⟨hjson, hjsons⟩

end

theorem deliveriesForContract_run (db : Database) (contractId : TextOrBytes) (s : Trace) :
    deliveriesForContract db contractId s =
      ((db s.statements ⟨SELECT_DELIVERIES_SQL, [contractId.toSql]⟩).bind fun rows =>
        rows.mapM readDelivery,
        { s with
          statements := s.statements ++ [⟨SELECT_DELIVERIES_SQL, [contractId.toSql]⟩] }) := by
  rw [deliveriesForContract]
  cases hrows : db s.statements ⟨SELECT_DELIVERIES_SQL, [contractId.toSql]⟩ with
  | error err =>
    apply Effect.bind_error
    rw [execute, hrows]
  | ok rows =>
    apply Effect.bind_ok
    rw [execute, hrows]

/-- A path whose segment is UTF-8 names one contract, stored and asked for. -/
theorem contract_named {bytes : Bytes} {id : List Char} (h : bytes = utf8Encode id) :
    symbolColumn bytes = .ok (utf16 id) ∧ textOrBytes bytes = .text (utf16 id) := by
  have hutf8 : utf8 bytes = some (utf16 id) := utf8_eq_some.mpr ⟨id, h, rfl⟩
  constructor
  · exact symbolColumn_ok.mpr ⟨id, h, rfl⟩
  · rw [textOrBytes, hutf8]

theorem getDeliveries_statement (db : Database) (req : RoutedRequest) (t : Trace) :
    (HistoryController.getDeliveries db req t).2.statements =
      t.statements ++ [⟨SELECT_DELIVERIES_SQL, [(textOrBytes (segmentFromEnd req 1)).toSql]⟩] := by
  have hrun := deliveriesForContract_run db (textOrBytes (segmentFromEnd req 1)) t
  unfold HistoryController.getDeliveries
  cases hrows : (db t.statements ⟨SELECT_DELIVERIES_SQL,
    [(textOrBytes (segmentFromEnd req 1)).toSql]⟩).bind
      fun rows => rows.mapM readDelivery with
  | ok rows =>
    rw [hrows] at hrun
    rw [Effect.attempt_ok hrun]
  | error err =>
    rw [hrows] at hrun
    rw [Effect.attempt_error hrun]
    rfl

/-- Every row that is built or recorded is read back as it was, by both readers, and the contract a
POST stores is the one a GET of the same path asks for. -/
theorem history_rows_read_back (unicode : Unicode) {doubles : Doubles}
    (hdoubles : doubles.IsExact) :
    (∀ now t, IsBuilt now t → ∃ i : Instant, i.IsNormal ∧ toSqlTime i = .ok t.occurredAt) ∧
    (∀ (db : Database) (q : TransactionQuery) (s : Trace)
      (recorded : List (NewTransaction × Instant)) (rows : List (List SqlValue)),
        (∀ r ∈ recorded, (∃ now, IsBuilt now r.1) ∧ toSqlTime r.2 = .ok r.1.occurredAt ∧
          r.2.nanos = 0) →
      recorded.mapM (fun r => returnedRow r.1.insert q.sql) = some rows →
        db s.statements ⟨q.sql, q.args⟩ = .ok rows →
      ∃ shown, (listTransactions db q s).1 = .ok shown ∧
        List.Forall₂ (fun r x => ReadsAs unicode doubles r.1.1 r.1.2 r.2 x)
        (recorded.zip rows) shown) ∧
    (∀ (db : Database) (contractId : TextOrBytes) (s : Trace)
      (recorded : List (Statement × Delivery)) (rows : List (List SqlValue)),
        (∀ r ∈ recorded, IsRecorded r.1 r.2) →
      recorded.mapM (fun r => returnedRow r.1 SELECT_DELIVERIES_SQL) = some rows →
      db s.statements ⟨SELECT_DELIVERIES_SQL, [contractId.toSql]⟩ = .ok rows →
      (deliveriesForContract db contractId s).1 = .ok (recorded.map Prod.snd) ∧ ∀ r ∈ recorded,
        ∃ text, stringifyJson doubles r.2.value = .ok text ∧
          ReadsBack unicode doubles deliverySchema text r.2.value) ∧
    (∀ env req s s' answered, ContractsController.recordDelivery env req s = (.ok answered, s') →
      (∃ values, s'.statements = s.statements ++
        [⟨INSERT_DELIVERY_SQL, .text answered.contractId :: values⟩]) ∧
      ∀ (get : RoutedRequest) (db : Database) (t : Trace),
        get.decodedPath = req.routed.decodedPath →
        (HistoryController.getDeliveries db get t).2.statements =
          t.statements ++ [⟨SELECT_DELIVERIES_SQL, [.text answered.contractId]⟩]) ∧
    (∀ (req : RoutedRequest) (id : List Char), segmentFromEnd req 1 = utf8Encode id →
      symbolColumn (segmentFromEnd req 1) = .ok (utf16 id) ∧ textOrBytes (segmentFromEnd req 1) =
        .text (utf16 id)) := by
  refine ⟨fun now t h => h.spec.2, ?_, ?_, ?_, fun req id => contract_named⟩
  · intro db q s recorded rows hrecorded hrows hdb
    obtain ⟨shown, hshown, hall⟩ := transaction_rows_readAs unicode hdoubles hrecorded hrows
    refine ⟨shown, ?_, hall⟩
    rw [HistoryController.listTransactions_run, hdb]
    exact hshown
  · intro db contractId s recorded rows hrecorded hrows hdb
    obtain ⟨hshown, hjson⟩ := delivery_rows_read unicode hdoubles hrecorded hrows
    refine ⟨?_, hjson⟩
    rw [deliveriesForContract_run, hdb]
    exact hshown
  · intro env req s s' answered hrun
    obtain ⟨stored, rfl, -, -, hid, -⟩ := recordDelivery_run hrun
    refine ⟨⟨_, rfl⟩, fun get db t hpath => ?_⟩
    have hsegment : segmentFromEnd get 1 = segmentFromEnd req.routed 1 := by
      rw [segmentFromEnd, segmentFromEnd, hpath]
    obtain ⟨id, hbytes, hsymbol⟩ := symbolColumn_ok.mp hid
    rw [getDeliveries_statement, hsegment, (contract_named hbytes).2, hsymbol]
    rfl

/-- A sale of nothing for nothing, at the time of the clock. -/
theorem history_rows_read_back_zeros :
    let t : NewTransaction :=
      ⟨.sell, js "S-1", [], none, some [], some 0, some 0, 0, 0, js "2023-11-14 22:13:20"⟩
    let row : List SqlValue := [.text (js "SELL"), .text (js "S-1"), .text [], .null, .text [],
      .number 0, .number 0,
      .text (js "0"), .text (js "0"), .text (js "2023-11-14 22:13:20")]
    ∃ x, (listTransactions (fun _ _ => .ok [row]) ⟨.text [], none, 100⟩ ⟨[], []⟩).1 = .ok [x] ∧
      ReadsAs plainUnicode plainDoubles t ⟨1700000000, 0⟩ row x := by
  intro t row
  have hbuilt : IsBuilt 1700000000000 t :=
    @IsBuilt.cargoTrade _ .sell (latin1Encode (js "S-1")) _ t
      (fits_zero marketTransactionResultSchema) (by decide +kernel)
  obtain ⟨-, hlist, -⟩ := history_rows_read_back plainUnicode plainDoubles_exact
  obtain ⟨shown, hshown, hall⟩ :=
    hlist (fun _ _ => .ok [row]) ⟨.text [], none, 100⟩ ⟨[], []⟩ [(t, ⟨1700000000, 0⟩)] [row] (by
      intro r hr
      cases List.mem_singleton.mp hr
      exact ⟨⟨_, hbuilt⟩, by decide +kernel, rfl⟩)
    (by
      rw [List.mapM_cons, List.mapM_nil, returnedRow_transaction]
      decide +kernel) rfl
  cases hall with
  | cons hx hrest =>
    cases hrest
    exact ⟨_, hshown, hx⟩

end AgentService
