import AgentService.Db.Ledger

/-!
# What the reads list of a ledger

On tables that represent a ledger a SELECT returns the entries that match, in the order of their
times and up to the limit. A row shows its entry; its time is the second the entry's falls into, or
the next one, where MySQL rounds.
-/

namespace AgentService
open Lib

/-- The times of two RFC 3339 texts, the first not after the second. -/
def NotAfter (a b : JsString) : Prop :=
  ∀ i j : Instant, timeInstant a = .ok i → timeInstant b = .ok j → i.seconds ≤ j.seconds

/-- How the time of an entry is shown. -/
def ShowsTime (recorded shown : JsString) : Prop :=
  ∃ j : Instant, timeInstant shown = .ok j ∧ toRfc3339 j = .ok shown ∧ j.nanos = 0 ∧
    ∀ i : Instant, toSqlTime i = .ok recorded → j.seconds = i.seconds ∨ j.seconds = i.seconds + 1

/-- A transaction as a read shows it. -/
structure NewTransaction.ShownAs (t : NewTransaction) (x : Transaction) : Prop where
  members : x = t.shown x.occurredAt
  time : ShowsTime t.occurredAt x.occurredAt

/-- A delivery as a read shows it. -/
structure Delivery.ShownAs (d x : Delivery) : Prop where
  members : x = { d with deliveredAt := x.deliveredAt }
  time : ShowsTime d.deliveredAt x.deliveredAt

/-- The time of an entry is one that was written for a TIMESTAMP column. -/
def IsWritten (time : JsString) : Prop := ∃ i : Instant, toSqlTime i = .ok time

/-- The times of a ledger. -/
structure Ledger.IsTimed (l : Ledger) : Prop where
  transactions : ∀ t ∈ l.transactions, IsWritten t.occurredAt
  deliveries : ∀ d ∈ l.deliveries, IsWritten d.deliveredAt

/-! ## Stored times -/

theorem noDot_pad (n width : Nat) : (0x2e : UInt16) ∉ pad n width := by
  intro h
  rw [pad, List.leftpad, List.mem_append] at h
  rcases h with h | h
  · exact absurd (List.eq_of_mem_replicate h) (by decide)
  · obtain ⟨b, hb, heq⟩ := List.mem_map.mp h
    have hdigit := (isDigitByte_iff.mp (decimal_digits n b hb)).1
    have hnat : b.toNat = 0x2e := by simpa using congrArg UInt16.toNat heq
    omega

/-- A time of whole seconds has no fraction. -/
theorem noDot_toSqlTime {j : Instant} {stored : JsString} (hwhole : j.nanos = 0)
    (h : toSqlTime j = .ok stored) : stored.contains 0x2e = false := by
  have hnone : ¬ 0 < j.nanos / 1000 := by omega
  rw [toSqlTime_text (toSqlTime_isSome.mp ⟨stored, h⟩), if_neg hnone, List.append_nil] at h
  cases h
  rw [← Bool.not_eq_true, List.contains_iff_mem]
  have hmarks : (0x2e : UInt16) ∉ js "-" ∧ (0x2e : UInt16) ∉ js ":" ∧ (0x2e : UInt16) ∉ js " " := by
    decide
  simp only [dateText, clockText, List.mem_append, noDot_pad, hmarks, or_self, not_false_eq_true]

/-- A row's text of a time, and what it is shown as. -/
structure StoresTime (stored shown : JsString) (j : Instant) : Prop where
  text : toSqlTime j = .ok stored
  read : fromSqlTime stored = .ok shown
  instant : timeInstant shown = .ok j
  written : toRfc3339 j = .ok shown
  whole : j.nanos = 0

namespace Mysql
variable {m : Mysql}

/-- The text of whole seconds is read, as the instant it was. -/
theorem storesTime_of {j : Instant} {stored : JsString} (h : toSqlTime j = .ok stored)
    (hwhole : j.nanos = 0) : ∃ shown, StoresTime stored shown j := by
  have hnormal : j.IsNormal := by
    rw [Instant.IsNormal, hwhole]
    exact Nat.zero_lt_succ _
  obtain ⟨shown, hshown, -, hinstant⟩ :=
    Instant.toRfc3339_instant hnormal (toSqlTime_isSome.mp ⟨_, h⟩)
  have hsame : (⟨j.seconds, 0⟩ : Instant) = j := by rw [← hwhole]
  have hread : fromSqlTime stored = .ok shown := by
    rw [fromSqlTime_toSqlTime (by omega) h, hsame, hshown]
  exact ⟨shown, h, hread, hinstant, hshown, hwhole⟩

theorem stores_shown {recorded : JsString} (htime : IsWritten recorded) {cell : SqlValue}
    (h : m.stores TIMESTAMP (.text recorded) = some cell) :
    ∃ stored shown j, cell = .text stored ∧ StoresTime stored shown j ∧ ShowsTime recorded shown ∧
      returnedCell TIMESTAMP (.text stored) = some (.text stored) := by
  obtain ⟨i, hi⟩ := htime
  obtain ⟨j, stored, rfl, hj, hwhole, -⟩ := m.stores_time i _ _ hi h
  obtain ⟨shown, hstores⟩ := storesTime_of hj hwhole
  refine ⟨stored, shown, j, rfl, hstores, ⟨j, hstores.instant, hstores.written, hwhole,
    fun i' hi' => ?_⟩, ?_⟩
  · -- the row has one text, and the text one instant
    obtain ⟨j', stored', hcell, hj', hwhole', hseconds⟩ := m.stores_time i' _ _ hi' h
    cases hcell
    obtain ⟨shown', hstores'⟩ := storesTime_of hj' hwhole'
    cases hstores.read.symm.trans hstores'.read
    cases hstores.instant.symm.trans hstores'.instant
    exact hseconds
  · rw [returnedCell, if_neg types_distinct.2.2.2.1, if_neg types_distinct.2.2.2.2.1,
      if_neg types_distinct.2.2.2.2.2, if_pos rfl,
      if_neg (by rw [noDot_toSqlTime hwhole hj]; exact Bool.false_ne_true)]

/-- Texts of stored times come in the order of the times. -/
theorem storesTime_lt {stored stored' shown shown' : JsString} {j j' : Instant}
    (h : StoresTime stored shown j) (h' : StoresTime stored' shown' j') :
    stored < stored' ↔ j.seconds < j'.seconds := by
  have hnormal (j : Instant) (hwhole : j.nanos = 0) : j.IsNormal := by
    rw [Instant.IsNormal, hwhole]
    exact Nat.zero_lt_succ _
  rw [isSqlTime_lt (toSqlTime_spec (hnormal j h.whole) h.text)
    (toSqlTime_spec (hnormal j' h'.whole) h'.text), h.whole, h'.whole]
  simp

/-! ## The rows of a SELECT -/

theorem orderLe_total (column : JsString) (newestFirst : Bool) (a b : Row) :
    orderLe column newestFirst a b = true ∨ orderLe column newestFirst b a = true := by
  unfold orderLe
  cases newestFirst with
  | true => simpa using List.le_total (Row.cell b column).orderText (Row.cell a column).orderText
  | false => simpa using List.le_total (Row.cell a column).orderText (Row.cell b column).orderText

theorem orderLe_trans (column : JsString) (newestFirst : Bool) (a b c : Row)
    (hab : orderLe column newestFirst a b = true) (hbc : orderLe column newestFirst b c = true) :
    orderLe column newestFirst a c = true := by
  unfold orderLe at hab hbc ⊢
  cases newestFirst with
  | true =>
    simp only [if_true, decide_eq_true_eq] at hab hbc ⊢
    exact List.le_trans hbc hab
  | false =>
    simp only [Bool.false_eq_true, if_false, decide_eq_true_eq] at hab hbc ⊢
    exact List.le_trans hab hbc

/-- What is selected is the first few of what passes the filters. -/
theorem selected_listing (rows : List Row) (filters : List JsString) (order : JsString)
    (newestFirst : Bool) (values : List SqlValue) (limit : Option Nat) :
    IsListing (fun a b => orderLe order newestFirst a b = true)
      (limit.getD (rows.filter (m.passes filters values)).length)
      (rows.filter (m.passes filters values)) (m.selected rows filters order newestFirst values
        limit) := by
  generalize hfound : rows.filter (m.passes filters values) = found
  have hperm := m.arrange_perm (orderLe order newestFirst) found
  have hsorted :=
    m.arrange_sorted (orderLe order newestFirst) found (orderLe_total order newestFirst)
      (orderLe_trans order newestFirst)
  have hselected : m.selected rows filters order newestFirst values limit =
      (m.arrange (orderLe order newestFirst) found).take (limit.getD found.length) := by
    rw [← hperm.length_eq, ← hfound]
    rfl
  rw [hselected]
  exact .of_sorted hperm hsorted

/-- A SELECT that is carried out, with as many values as it has filters, and a limit. -/
theorem carryOut_select (tables : Tables) {statement : Statement} {table order : JsString}
    {columns filters : List JsString} {newestFirst limited : Bool} (values : List SqlValue)
    (limit : Option Nat)
    (hsql : readHistorySql (js statement.sql) =
      some (.select table columns filters order newestFirst limited))
    (hparams : statement.params = values ++ (limit.map fun n =>
      .text (latin1Decode (decimal n))).toList)
    (hvalues : values.length = filters.length) (hlimited : limited = limit.isSome) :
    m.carryOut tables statement =
      some ((m.selected (tables table) filters order newestFirst values limit).map fun row =>
        columns.map (Row.cell row), tables) := by
  subst hlimited
  have hnumber (n : Nat) : groupNumber (latin1Decode (decimal n)) = n := by
    simpa using groupNumber_leftpad n 0
  rw [carryOut, hsql, hparams]
  simp only [Option.bind_eq_bind, Option.bind_some, ← hvalues, List.take_left, List.drop_left]
  have hlimit : limitAsked limit.isSome (limit.map fun n =>
    SqlValue.text (latin1Decode (decimal n))).toList = some limit := by
    cases limit with
    | none => rfl
    | some n =>
      have hne : latin1Decode (decimal n) ≠ [] := by simp [latin1Decode, decimal_ne_nil]
      simp [limitAsked, limitOf, decimal_units, hne, hnumber]
  rw [hlimit]
  simp

/-! ## Rows as they are shown -/

/-- Cells before a time come back as they were given, and the time in whole seconds. -/
theorem cells_returned (types : List DataType) (values : List SqlValue) {cells : List SqlValue}
    {recorded : JsString} (h : m.cells (types ++ [TIMESTAMP]) (values ++ [.text recorded]) =
      some cells) (hlength : types.length = values.length)
    (hkept : ∀ type ∈ types, type ≠ TIMESTAMP ∧ (type = VARCHAR ∨ type = INT ∨ type = BIGINT))
    (htime : IsWritten recorded) :
    ∃ kept stored shown j, cells = kept ++ [.text stored] ∧ kept.length = types.length ∧
      StoresTime stored shown j ∧
      ShowsTime recorded shown ∧ ((types ++ [TIMESTAMP]).zip (values ++ [.text stored])).mapM
        (fun e => returnedCell e.1 e.2) = some cells := by
  unfold Mysql.cells at h
  induction types generalizing values cells with
  | nil =>
    obtain rfl := List.eq_nil_of_length_eq_zero hlength.symm
    simp only [List.nil_append, List.zip_cons_cons, List.zip_nil_right, List.mapM_cons,
      List.mapM_nil, Option.bind_eq_bind, Option.pure_def, Option.bind_eq_some_iff,
      Option.some.injEq] at h
    obtain ⟨cell, hcell, -, rfl, rfl⟩ := h
    obtain ⟨stored, shown, j, rfl, hstores, hshows, hback⟩ := stores_shown htime hcell
    exact ⟨[], stored, shown, j, rfl, rfl, hstores, hshows, by simp [hback]⟩
  | cons type types ih =>
    cases values with
    | nil => cases hlength
    | cons value values =>
      obtain ⟨hhead, htail⟩ := List.forall_mem_cons.mp hkept
      simp only [List.cons_append, List.zip_cons_cons, List.mapM_cons, Option.bind_eq_bind,
        Option.pure_def, Option.bind_eq_some_iff, Option.some.injEq] at h
      obtain ⟨cell, hcell, cells, hcells, rfl⟩ := h
      obtain ⟨kept, stored, shown, j, rfl, hkept, hstores, hshows, hback⟩ :=
        ih values hcells (Nat.succ.inj hlength) htail
      refine ⟨cell :: kept, stored, shown, j, rfl, congrArg Nat.succ hkept, hstores, hshows, ?_⟩
      rw [List.cons_append, List.cons_append, List.zip_cons_cons, List.mapM_cons, hback,
        m.stores_kept _ _ _ hhead.1 hcell hhead.2]
      rfl

/-- A text column comes back at its place. -/
theorem cells_text {types : List DataType} {values cells : List SqlValue}
    (h : m.cells types values = some cells) {i : Nat} {text : JsString}
    (htype : types[i]? = some VARCHAR) (hvalue : values[i]? = some (.text text)) :
    cells[i]? = some (.text text) := by
  unfold Mysql.cells at h
  induction types generalizing values cells i with
  | nil => cases htype
  | cons type types ih =>
    cases values with
    | nil => cases hvalue
    | cons value values =>
      simp only [List.zip_cons_cons, List.mapM_cons, Option.bind_eq_bind, Option.pure_def,
        Option.bind_eq_some_iff, Option.some.injEq] at h
      obtain ⟨cell, hcell, cells, hcells, rfl⟩ := h
      cases i with
      | zero =>
        cases htype
        cases hvalue
        rw [stores_varchar hcell]
        rfl
      | succ i => exact ih hcells htype hvalue

theorem cell_at {row : Row} {columns : List JsString} {cells : List SqlValue}
    (hmap : columns.map (Row.cell row) = cells) {i : Nat} {column : JsString} {value : SqlValue}
    (hcolumn : columns[i]? = some column) (hvalue : cells[i]? = some value) :
    Row.cell row column = value := by
  rw [← hmap, List.getElem?_map, hcolumn] at hvalue
  exact Option.some.inj hvalue

/-- A row is read as an answer's element, at a time it is ordered by. -/
structure ReadsRow {β : Type} (columns : List JsString) (order : JsString)
    (read : List SqlValue → Except JsString β) (timeOf : β → JsString) (row : Row) (x : β) :
    Prop where
  read : read (columns.map (Row.cell row)) = .ok x
  time : ∃ stored j, Row.cell row order = .text stored ∧ StoresTime stored (timeOf x) j

theorem delivery_reads {d : Delivery} {row : Row} (htime : IsWritten d.deliveredAt)
    (h : m.row (js "contract_deliveries") deliveryColumns d.insert.params = some row) :
    Row.cell row (js "contract_id") = .text d.contractId ∧
      ∃ x, ReadsRow deliveryColumns (js "delivered_at") readDelivery Delivery.deliveredAt row x ∧
      d.ShownAs x := by
  rw [row_eq declared_deliveries] at h
  obtain ⟨cells, hcells, rfl⟩ := Option.map_eq_some_iff.mp h
  have hcontract := cells_text hcells (i := 0) rfl rfl
  obtain ⟨kept, stored, shown, j, hkept, hlength, hstores, hshows, hback⟩ :=
    cells_returned [VARCHAR, VARCHAR, VARCHAR, INT] d.insert.params.dropLast hcells rfl
      (by decide) htime
  have hrow : returnedRow (Delivery.insert { d with deliveredAt := stored }) SELECT_DELIVERIES_SQL =
      some cells := by
    rw [returnedRow_delivery]
    exact hback
  have hlast : cells[4]? = some (.text stored) := by
    have hfour : kept.length = 4 := hlength
    simp [hkept, hfour]
  have hmap : deliveryColumns.map (Row.cell (deliveryColumns.zip cells)) = cells := by
    apply map_cell_zip (by decide)
    rw [hkept, List.length_append, hlength]
    rfl
  refine ⟨cell_at hmap rfl hcontract, { d with deliveredAt := shown },
    ⟨?_, stored, j, cell_at hmap rfl hlast, hstores⟩, rfl, hshows⟩
  rw [hmap]
  exact (readDelivery_returned hrow hstores.read).1

/-- The order of a listing, by the times shown. -/
def InOrder (newestFirst : Bool) (a b : JsString) : Prop :=
  if newestFirst then NotAfter b a else NotAfter a b

section
variable {α β : Type} {columns : List JsString} {order : JsString}
    {read : List SqlValue → Except JsString β}
variable {timeOf : β → JsString} {ShownAs : α → β → Prop}

/-- Rows in the order of a column are read in the order of the times. -/
theorem ReadsRow.inOrder {newestFirst : Bool} {row row' : Row} {x x' : β}
    (h : ReadsRow columns order read timeOf row x) (h' : ReadsRow columns order read timeOf row' x')
    (hle : orderLe order newestFirst row row' = true) :
    InOrder newestFirst (timeOf x) (timeOf x') := by
  obtain ⟨stored, j, hcell, hstores⟩ := h.time
  obtain ⟨stored', j', hcell', hstores'⟩ := h'.time
  unfold orderLe at hle
  rw [hcell, hcell'] at hle
  unfold InOrder NotAfter
  cases newestFirst with
  | true =>
    intro i i' hi hi'
    simp only [if_true, decide_eq_true_eq, SqlValue.orderText, storesTime_lt hstores hstores',
      not_lt] at hle
    cases hstores'.instant.symm.trans hi
    cases hstores.instant.symm.trans hi'
    exact hle
  | false =>
    intro i i' hi hi'
    simp only [Bool.false_eq_true, if_false, decide_eq_true_eq, SqlValue.orderText,
      storesTime_lt hstores' hstores, not_lt] at hle
    cases hstores.instant.symm.trans hi
    cases hstores'.instant.symm.trans hi'
    exact hle

theorem mapM_reads {rows : List Row} {out : List β}
    (h : List.Forall₂ (ReadsRow columns order read timeOf) rows out) :
    (rows.map fun row => columns.map (Row.cell row)).mapM read = .ok out := by
  induction h with
  | nil => rfl
  | cons hrow _ ih =>
    rw [List.map_cons, List.mapM_cons, hrow.read, ok_bind, ih]
    rfl

/-- What a SELECT of rows that stand for entries is read as: those that match, in
order and up to the limit. -/
theorem selected_reads {rows : List Row} {entries : List α} {wanted : α → Bool}
    {filters : List JsString} {values : List SqlValue} (newestFirst : Bool) (limit : Option Nat)
    (h : List.Forall₂ (fun row a => m.passes filters values row = wanted a ∧
      ∃ x, ReadsRow columns order read timeOf row x ∧ ShownAs a x) rows entries) :
    ∃ all out, List.Forall₂ ShownAs (entries.filter wanted) all ∧
      ((m.selected rows filters order newestFirst values limit).map fun row =>
        columns.map (Row.cell row)).mapM read = .ok out ∧
      IsListing (fun x y => InOrder newestFirst (timeOf x) (timeOf y)) (limit.getD all.length)
        all out := by
  have hfound : ∃ all, List.Forall₂ (ReadsRow columns order read timeOf)
    (rows.filter (m.passes filters values)) all ∧
      List.Forall₂ ShownAs (entries.filter wanted) all := by
    induction h with
    | nil => exact ⟨[], .nil, .nil⟩
    | @cons row a rows entries hrow _ ih =>
      obtain ⟨hwanted, x, hreads, hshown⟩ := hrow
      obtain ⟨all, hrows, hentries⟩ := ih
      by_cases ha : wanted a = true
      · rw [List.filter_cons_of_pos (hwanted.trans ha), List.filter_cons_of_pos ha]
        exact ⟨x :: all, .cons hreads hrows, .cons hshown hentries⟩
      · rw [List.filter_cons_of_neg (by rwa [hwanted]), List.filter_cons_of_neg ha]
        exact ⟨all, hrows, hentries⟩
  obtain ⟨all, hrows, hentries⟩ := hfound
  have hlisting := selected_listing (m := m) rows filters order newestFirst values limit
  rw [hrows.length_eq] at hlisting
  obtain ⟨out, hout, hreads⟩ := hlisting.transport hrows fun row row' x x' hx hx' hle =>
    hx.inOrder hx' hle
  exact ⟨all, out, hentries, mapM_reads hreads, hout⟩

end

/-! ## The two reads -/

/-- A transaction is one of those a query asks for. -/
def wants (m : Mysql) (q : TransactionQuery) (t : NewTransaction) : Bool :=
  (q.shipSymbol.isEmpty || m.equal (.text t.shipSymbol) q.shipSymbol.toSql) &&
    q.type.all fun type => m.same t.type.name type.name

variable {s : Trace} {l : Ledger}

/-- A SELECT changes nothing. -/
theorem replay_select {statement : Statement} {table order : JsString}
    {columns filters : List JsString} {newestFirst limited : Bool}
    (hsql : readHistorySql (js statement.sql) =
      some (.select table columns filters order newestFirst limited))
    (before : List Statement) : m.replay (before ++ [statement]) = m.replay before := by
  cases h : m.database before statement with
  | error message => exact database_error h
  | ok rows =>
    obtain ⟨tables, hout, rfl⟩ := database_ok h
    rw [carryOut, hsql] at hout
    simp only [Option.bind_eq_bind, Option.bind_some, Option.pure_def] at hout
    split at hout
    · obtain ⟨limit, -, heq⟩ := Option.bind_eq_some_iff.mp hout
      exact (Prod.mk.inj (Option.some.inj heq)).2.symm
    · cases hout

/-- A SELECT that is carried out is answered, unless it is refused. -/
theorem database_select {before : List Statement} {statement : Statement}
    {rows : List (List SqlValue)} {tables : Tables} (hrefuses : m.refuses before statement = none)
    (hout : m.carryOut (m.replay before) statement = some (rows, tables)) :
    m.database before statement = .ok rows := by
  rw [database, hrefuses, hout]

/-- The deliveries a ledger lists for a contract. -/
theorem deliveriesForContract_lists (h : m.Represents (m.replay s.statements) l)
    (htimed : l.IsTimed) {contract : TextOrBytes}
    (hrefuses : m.refuses s.statements ⟨SELECT_DELIVERIES_SQL, [contract.toSql]⟩ = none) :
    ∃ all out, List.Forall₂ Delivery.ShownAs (l.deliveries.filter fun d =>
        m.equal (.text d.contractId) contract.toSql) all ∧
      (deliveriesForContract m.database contract s).1 = .ok out ∧
      IsListing (fun x y => InOrder false x.deliveredAt y.deliveredAt) all.length all out := by
  have hsql : readHistorySql (js (⟨SELECT_DELIVERIES_SQL, [contract.toSql]⟩ : Statement).sql) = _ :=
    readHistorySql_selectDeliveries
  have hout :=
    carryOut_select (m := m) (m.replay s.statements) [contract.toSql] none hsql rfl rfl rfl
  have hrows : List.Forall₂ (fun row d => m.passes [js "contract_id"] [contract.toSql] row =
      m.equal (.text d.contractId) contract.toSql ∧
      ∃ x, ReadsRow deliveryColumns (js "delivered_at") readDelivery Delivery.deliveredAt row x ∧
        d.ShownAs x)
      (m.replay s.statements (js "contract_deliveries")) l.deliveries := by
    refine (forall₂_with_right h.deliveries htimed.deliveries).imp fun row d ⟨hrow, htime⟩ => ?_
    obtain ⟨hcontract, hreads⟩ := delivery_reads htime hrow
    exact ⟨by simp [passes, hcontract], hreads⟩
  obtain ⟨all, out, hall, hread, hlisting⟩ := selected_reads false none hrows
  refine ⟨all, out, hall, ?_, hlisting⟩
  rw [deliveriesForContract_run, database_select hrefuses hout]
  exact hread

/-! ## A MySQL that refuses nothing -/

/-- A value as it is stored where a fraction of a second is cut off. -/
def cutCell (type : DataType) (v : SqlValue) : Option SqlValue :=
  if type = VARCHAR ∨ type = INT ∨ type = BIGINT then returnedCell type v
  else
    match v with
    | .text v => some (.text (if type = TIMESTAMP then v.takeWhile (· ≠ 0x2e) else v))
    | v => some v

/-- A time as it is written is that of its whole seconds, and a fraction. -/
theorem toSqlTime_whole {i : Instant} {text : JsString} (h : toSqlTime i = .ok text) :
    ∃ whole fraction, text = whole ++ fraction ∧ toSqlTime ⟨i.seconds, 0⟩ = .ok whole ∧
      (fraction = [] ∨ ∃ digits, fraction = 0x2e :: digits) := by
  have hyears : i.InYears := toSqlTime_isSome.mp ⟨_, h⟩
  have hwhole : toSqlTime ⟨i.seconds, 0⟩ =
      .ok (dateText i.date ++ js " " ++ clockText i.clock) := by
    have htext := toSqlTime_text (t := ⟨i.seconds, 0⟩) hyears
    rwa [if_neg (by simp), List.append_nil] at htext
  rw [toSqlTime_text hyears] at h
  refine ⟨_, _, (Except.ok.inj h).symm, hwhole, ?_⟩
  by_cases hmicros : 0 < i.nanos / 1000
  · exact .inr ⟨_, if_pos hmicros⟩
  · exact .inl (if_neg hmicros)

theorem takeWhile_noDot {whole fraction : JsString} (hwhole : whole.contains 0x2e = false)
    (hfraction : fraction = [] ∨ ∃ digits, fraction = 0x2e :: digits) :
    (whole ++ fraction).takeWhile (· ≠ 0x2e) = whole := by
  have hall : ∀ u ∈ whole, decide (u ≠ 0x2e) = true := by
    intro u hu
    rw [decide_eq_true_eq]
    rintro rfl
    rw [List.contains_iff_mem.mpr hu] at hwhole
    cases hwhole
  rw [List.takeWhile_append_of_pos hall]
  rcases hfraction with rfl | ⟨digits, rfl⟩
  · exact List.append_nil _
  · exact List.append_nil _

theorem cutCell_time {i : Instant} {text : JsString} {cell : SqlValue} (h : toSqlTime i = .ok text)
    (hcell : cutCell TIMESTAMP (.text text) = some cell) :
    ∃ stored, cell = .text stored ∧ toSqlTime ⟨i.seconds, 0⟩ = .ok stored := by
  obtain ⟨whole, fraction, rfl, hwhole, hfraction⟩ := toSqlTime_whole h
  have hother : ¬ (TIMESTAMP = VARCHAR ∨ TIMESTAMP = INT ∨ TIMESTAMP = BIGINT) := by
    simp [types_distinct]
  rw [cutCell, if_neg hother, if_pos rfl,
    takeWhile_noDot (noDot_toSqlTime rfl hwhole) hfraction] at hcell
  exact ⟨whole, (Option.some.inj hcell).symm, hwhole⟩

end Mysql

/-- It compares texts as they are and sorts stably. -/
def plainMysql : Mysql where
  refuses _ _ := none
  same a b := a == b
  same_refl a := beq_self_eq_true a
  same_symm a b h := by rw [eq_of_beq h]; exact beq_self_eq_true b
  same_trans a b c hab hbc := by rw [eq_of_beq hab]; exact hbc
  sameBytes _ _ := false
  stores := Mysql.cutCell
  stores_kept type v cell _ h hkept := by
    unfold Mysql.cutCell at h
    rwa [if_pos hkept] at h
  stores_time i text cell h hcell := by
    obtain ⟨stored, hstored, htext⟩ := Mysql.cutCell_time h hcell
    exact ⟨_, stored, hstored, htext, rfl, .inl rfl⟩
  arrange le rows := rows.mergeSort le
  arrange_perm le rows := List.mergeSort_perm rows le
  arrange_sorted le rows htotal htrans :=
    List.pairwise_mergeSort htrans (fun a b => by simpa using htotal a b) rows

end AgentService
