import AgentService.Db.HistoryReads
import AgentService.Db.Migrate
import AgentService.Gateway.RoundTrip

/-!
# A row, from the INSERT to the SELECT

Which value stands in which column is read off the statements' texts, and a column's type off the
schema's. MySQL returns what was inserted: a text as it is, an INT as a number, a BIGINT as its
digits, NULL as NULL. A TIMESTAMP keeps whole seconds, so one with a fraction is left open here.
-/

namespace AgentService
open Lib

/-! ## Whose column is it -/

/-- The names of a list, up to the word that ends it. -/
def listed (stop : JsString) (ws : List JsString) : List JsString :=
  (ws.takeWhile (· ≠ stop)).filter (· ≠ js ",")

/-- What comes after the word that ends a list. -/
def behind (stop : JsString) (ws : List JsString) : List JsString :=
  (ws.dropWhile (· ≠ stop)).drop 1

/-- The table and the columns of an INSERT, which has a placeholder for each column. -/
def insertInto (sql : JsString) : Option (JsString × List JsString) :=
  match words [] sql with
  | insert :: into :: table :: bracket :: ws =>
    let columns := listed (js ")") ws
    let values := behind (js ")") ws
    if [insert, into, bracket] = [js "INSERT", js "INTO", js "("] ∧
      values.take 2 = [js "VALUES", js "("] ∧
        listed (js ")") (values.drop 2) = List.replicate columns.length (js "?") then
      some (table, columns)
    else none
  | _ => none

/-- The table and the columns of a SELECT. -/
def selectFrom (sql : JsString) : Option (JsString × List JsString) :=
  match words [] sql with
  | select :: ws =>
    if select = js "SELECT" then (behind (js "FROM") ws).head?.map fun table =>
      (table, listed (js "FROM") ws) else none
  | [] => none

/-- The type the schema gives a column. -/
def declared (table column : JsString) : Option DataType :=
  SCHEMA.findSome? fun statement =>
    match readDdl (js statement) with
    | some (.createTable name columns _) => if name = table then columns.lookup column else none
    | _ => none

/-! ## What comes back -/

/-- What is returned of a value in a column; none where MySQL refuses the value. -/
def returnedCell (type : DataType) : SqlValue → Option SqlValue
  | .null => some .null
  | .text v =>
    if type = VARCHAR then some (.text v)
    else if type = INT then
      (bigIntOfText v).bind fun n =>
        if -(2 ^ 31) ≤ n ∧ n < 2 ^ 31 then some (.number n) else none
    else if type = BIGINT then
      (bigIntOfText v).bind fun n =>
        if -(2 ^ 63) ≤ n ∧ n < 2 ^ 63 then some (.text (bigintText n)) else none
    else if type = TIMESTAMP then if v.contains 0x2e then none else some (.text v)
    else none
  | _ => none

/-- The row a SELECT returns for an INSERT into its table. -/
def returnedRow (insert : Statement) (select : String) : Option (List SqlValue) := do
  let (table, inserted) ← insertInto (js insert.sql)
  let (source, selected) ← selectFrom (js select)
  if table = source ∧ inserted.length = insert.params.length then
    selected.mapM fun column => do
      let type ← declared table column
      let value ← getMember column (inserted.zip insert.params)
      returnedCell type value
  else none

/-! ## The statements of the history -/

/-- The type of a column is the one its CREATE TABLE declares. -/
theorem declared_eq (table column : JsString) :
    declared table column = TABLES.findSome? fun t => if t.name = table then t.columns.lookup column
      else none := by
  have hschema : declared table column = (SCHEMA.map fun statement =>
    readDdl (js statement)).findSome? fun ddl =>
      match ddl with
      | some (.createTable name columns _) => if name = table then columns.lookup column else none
      | _ => none := by
    rw [List.findSome?_map]
    rfl
  rw [hschema, readDdl_schema, List.findSome?_map]
  rfl

/-- The columns of a row of the transactions, in the order of both statements. -/
def transactionColumns : List JsString :=
  [js "type", js "ship_symbol", js "waypoint_symbol", js "ship_type", js "trade_symbol", js "units",
    js "price_per_unit", js "total_price", js "agent_credits", js "occurred_at"]

def deliveryColumns : List JsString :=
  [js "contract_id", js "ship_symbol", js "trade_symbol", js "units", js "delivered_at"]

theorem insertInto_transactions :
    insertInto (js INSERT_TRANSACTION_SQL) = some (js "transactions", transactionColumns) := by
  unfold INSERT_TRANSACTION_SQL TRANSACTION_COLUMNS
  simp only [js_append]
  rfl

theorem insertInto_deliveries :
    insertInto (js INSERT_DELIVERY_SQL) = some (js "contract_deliveries", deliveryColumns) := by
  unfold INSERT_DELIVERY_SQL
  simp only [js_append]
  rfl

theorem selectFrom_deliveries :
    selectFrom (js SELECT_DELIVERIES_SQL) = some (js "contract_deliveries", deliveryColumns) := by
  unfold SELECT_DELIVERIES_SQL
  simp only [js_append]
  rfl

/-- However the transactions are narrowed, the columns are the same. -/
theorem selectFrom_transactions (q : TransactionQuery) :
    selectFrom (js q.sql) = some (js "transactions", transactionColumns) := by
  unfold TransactionQuery.sql TransactionQuery.conditions TRANSACTION_COLUMNS
  simp only [js_append]
  cases q.shipSymbol.isEmpty <;> cases q.type.isSome <;> rfl

/-- The types of the columns of a transaction. -/
theorem declared_transactions : transactionColumns.map (declared (js "transactions")) =
    [VARCHAR, VARCHAR, VARCHAR, VARCHAR, VARCHAR, INT, INT, BIGINT, BIGINT,
      TIMESTAMP].map some := by
  simp only [transactionColumns, List.map_cons, List.map_nil, declared_eq]
  rfl

/-- The types of the columns of a delivery. -/
theorem declared_deliveries : deliveryColumns.map (declared (js "contract_deliveries")) =
    [VARCHAR, VARCHAR, VARCHAR, INT, TIMESTAMP].map some := by
  simp only [deliveryColumns, List.map_cons, List.map_nil, declared_eq]
  rfl

theorem mapM_congr {α β : Type} {f g : α → Option β} {l : List α} (h : ∀ a ∈ l, f a = g a) :
    l.mapM f = l.mapM g := by
  induction l with
  | nil => rfl
  | cons a l ih =>
    rw [List.mapM_cons, List.mapM_cons, h a List.mem_cons_self, ih fun b hb =>
      h b (List.mem_cons_of_mem a hb)]

/-- Where both statements list the same columns, each value comes back by itself. -/
theorem returnedRow_columns {insert : Statement} {select : String} {table : JsString}
    {columns : List JsString} (hinsert : insertInto (js insert.sql) = some (table, columns))
    (hselect : selectFrom (js select) = some (table, columns))
    (hlength : columns.length = insert.params.length) (hnodup : columns.Nodup) :
    returnedRow insert select = (columns.zip insert.params).mapM fun e =>
      (declared table e.1).bind fun type => returnedCell type e.2 := by
  have hkeys : (columns.zip insert.params).map Prod.fst = columns :=
    List.map_fst_zip (Nat.le_of_eq hlength)
  unfold returnedRow
  rw [hinsert, hselect]
  dsimp only [Option.bind_eq_bind, Option.bind_some]
  rw [if_pos ⟨rfl, hlength⟩]
  generalize declared table = typeOf
  refine (congrArg (List.mapM _) hkeys.symm).trans ?_
  rw [List.mapM_map]
  apply mapM_congr
  intro e he
  have hlookup : getMember e.1 (columns.zip insert.params) = some e.2 :=
    getMember_of_nodup (by rwa [hkeys]) he
  rw [Function.comp_apply, hlookup]
  rfl

/-- A value for each of the columns, by the types of these. -/
theorem mapM_types {table : JsString} {columns : List JsString} {types : List DataType}
    {values : List SqlValue} (htypes : columns.map (declared table) = types.map some) :
    ((columns.zip values).mapM fun e => (declared table e.1).bind fun type =>
      returnedCell type e.2) =
      (types.zip values).mapM fun e => returnedCell e.1 e.2 := by
  induction columns generalizing types values with
  | nil =>
    cases types with
    | nil => rfl
    | cons type types => cases htypes
  | cons column columns ih =>
    cases types with
    | nil => cases htypes
    | cons type types =>
      obtain ⟨htype, htypes⟩ := List.cons.inj htypes
      cases values with
      | nil => rfl
      | cons value values =>
        rw [List.zip_cons_cons, List.zip_cons_cons, List.mapM_cons, List.mapM_cons, ih htypes,
          htype, Option.bind_some]

/-- What MySQL returns for the row of a transaction, column by column. -/
theorem returnedRow_transaction (t : NewTransaction) (q : TransactionQuery) :
    returnedRow t.insert q.sql = ([VARCHAR, VARCHAR, VARCHAR, VARCHAR, VARCHAR, INT, INT, BIGINT,
      BIGINT, TIMESTAMP].zip t.insert.params).mapM fun e => returnedCell e.1 e.2 := by
  have hnodup : transactionColumns.Nodup := by decide
  have hsql : t.insert.sql = INSERT_TRANSACTION_SQL := rfl
  have hinsert : insertInto (js t.insert.sql) = some (js "transactions", transactionColumns) := by
    rw [hsql, insertInto_transactions]
  rw [returnedRow_columns hinsert (selectFrom_transactions q) rfl hnodup,
    mapM_types declared_transactions]

/-- What MySQL returns for the row of a delivery, column by column. -/
theorem returnedRow_delivery (d : Delivery) :
    returnedRow d.insert SELECT_DELIVERIES_SQL = ([VARCHAR, VARCHAR, VARCHAR, INT, TIMESTAMP].zip
      d.insert.params).mapM fun e => returnedCell e.1 e.2 := by
  have hnodup : deliveryColumns.Nodup := by decide
  have hsql : d.insert.sql = INSERT_DELIVERY_SQL := rfl
  have hinsert : insertInto (js d.insert.sql) = some (js "contract_deliveries",
      deliveryColumns) := by
    rw [hsql, insertInto_deliveries]
  rw [returnedRow_columns hinsert selectFrom_deliveries rfl hnodup, mapM_types declared_deliveries]

/-! ## The cells -/

theorem bigIntOfText_bigint (v : Int) : bigIntOfText (bigintText v) = some v :=
  bigIntOfText_integer v

theorem types_distinct : INT ≠ VARCHAR ∧ BIGINT ≠ VARCHAR ∧ BIGINT ≠ INT ∧ TIMESTAMP ≠ VARCHAR ∧
    TIMESTAMP ≠ INT ∧
    TIMESTAMP ≠ BIGINT := by decide

/-- An `INT` comes back as a number of 32 bits, -/
theorem returnedCell_int {v : Int} {cell : SqlValue}
    (h : returnedCell INT (.text (bigintText v)) = some cell) :
    cell = .number v ∧ -(2 ^ 31) ≤ v ∧ v < 2 ^ 31 := by
  rw [returnedCell, if_neg types_distinct.1, if_pos rfl, bigIntOfText_bigint, Option.bind_some] at h
  split at h
  · rename_i hrange
    exact ⟨(Option.some.inj h).symm, hrange⟩
  · cases h

/-- a `BIGINT` as its digits, in 64 bits, -/
theorem returnedCell_bigint {v : Int} {cell : SqlValue}
    (h : returnedCell BIGINT (.text (bigintText v)) = some cell) :
    cell = .text (bigintText v) ∧ -(2 ^ 63) ≤ v ∧ v < 2 ^ 63 := by
  rw [returnedCell, if_neg types_distinct.2.1, if_neg types_distinct.2.2.1, if_pos rfl,
    bigIntOfText_bigint, Option.bind_some] at h
  split at h
  · rename_i hrange
    exact ⟨(Option.some.inj h).symm, hrange⟩
  · cases h

/-- and a `TIMESTAMP` as its text. -/
theorem returnedCell_timestamp {v : JsString} {cell : SqlValue}
    (h : returnedCell TIMESTAMP (.text v) = some cell) : cell = .text v := by
  rw [returnedCell, if_neg types_distinct.2.2.2.1, if_neg types_distinct.2.2.2.2.1,
    if_neg types_distinct.2.2.2.2.2, if_pos rfl] at h
  split at h
  · cases h
  · exact (Option.some.inj h).symm

end AgentService
