import AgentService.Db.Rows
import AgentService.Lib.Upsert

/-!
# MySQL, as far as the history sees it

The statements of `src/db/history.ts` are read off their texts and carried out on tables of rows.
What MySQL does not promise is left open in `Mysql`: which statements it refuses, how its collation
compares texts, what becomes of a fraction of a second, and which of two rows with one time comes
first.
-/

namespace AgentService
open Lib

/-- The cells of a row, by their columns. -/
abbrev Row := List (JsString × SqlValue)

abbrev Tables := JsString → List Row

def Row.cell (row : Row) (column : JsString) : SqlValue := (getMember column row).getD .null

/-- The row that keeps its cells but those of some columns. -/
def Row.update (updated : List JsString) (old new : Row) : Row :=
  old.map fun e => if updated.contains e.1 = true then (e.1, Row.cell new e.1) else e

/-! ## The statements, read -/

inductive HistorySql where
  /-- `updated` are the columns a row of the same key takes over. -/
  | insert (table : JsString) (columns updated : List JsString)
  | select (table : JsString) (columns filters : List JsString) (order : JsString)
      (newestFirst limited : Bool)
  deriving DecidableEq, Repr

/-- `c = VALUES(c), …` -/
def readAssignments : List JsString → Option (List JsString)
  | column :: eq :: values :: bracket :: column' :: bracket' :: ws =>
    if [eq, values, bracket, bracket'] = [js "=", js "VALUES", js "(", js ")"] ∧
      column = column' then
      match ws with
      | [] => some [column]
      | comma :: ws => if comma = js "," then (readAssignments ws).map (column :: ·) else none
    else none
  | _ => none

def readUpdated (ws : List JsString) : Option (List JsString) :=
  if ws = [] then some []
  else if ws.take 4 = [js "ON", js "DUPLICATE", js "KEY", js "UPDATE"] then
    readAssignments (ws.drop 4)
  else none

/-- `c = ? AND …`, and what follows. -/
def readConditions : List JsString → Option (List JsString × List JsString)
  | column :: eq :: mark :: ws =>
    if [eq, mark] = [js "=", js "?"] then
      match ws with
      | [] => some ([column], [])
      | w :: rest => if w = js "AND" then (readConditions rest).map fun r => (column :: r.1, r.2)
          else some ([column], w :: rest)
    else none
  | _ => none

def readFilters (ws : List JsString) : Option (List JsString × List JsString) :=
  if ws.head? = some (js "WHERE") then readConditions ws.tail else some ([], ws)

/-- `ORDER BY c ASC|DESC [LIMIT ?]`: the column, whether the latest is first, and
whether there is a limit. -/
def readOrder : List JsString → Option (JsString × Bool × Bool)
  | order :: by' :: column :: direction :: limit =>
    if [order, by'] = [js "ORDER", js "BY"] ∧ (direction = js "ASC" ∨ direction = js "DESC") ∧
        (limit = [] ∨ limit = [js "LIMIT", js "?"]) then
      some (column, direction == js "DESC", limit != [])
    else none
  | _ => none

/-- The statement a text is. -/
def readHistorySql (text : JsString) : Option HistorySql :=
  let ws := words [] text
  match insertInto text with
  | some (table, columns) =>
    (readUpdated (behind (js ")") (behind (js ")") ws))).map (.insert table columns)
  | none => do
    let (table, columns) ← selectFrom text
    let (filters, rest) ← readFilters ((behind (js "FROM") ws).drop 1)
    let (order, newestFirst, limited) ← readOrder rest
    return .select table columns filters order newestFirst limited

/-- The primary key the schema gives a table. -/
def primaryOf (table : JsString) : List JsString :=
  (SCHEMA.findSome? fun statement =>
    match readDdl (js statement) with
    | some (.createTable name _ primary) => if name = table then primary.map (·.columns) else none
    | _ => none).getD []

/-! ## What they do -/

/-- What a TIMESTAMP is ordered by: its text has a fixed width. -/
def SqlValue.orderText : SqlValue → JsString
  | .text v => v
  | _ => []

/-- What MySQL leaves open. -/
structure Mysql where
  /-- A statement that fails for a reason of its own, by the statements before it. -/
  refuses : List Statement → Statement → Option JsString
  /-- Two texts are one under the collation. -/
  same : JsString → JsString → Bool
  same_refl : ∀ a, same a a = true
  same_symm : ∀ a b, same a b = true → same b a = true
  same_trans : ∀ a b c, same a b = true → same b c = true → same a c = true
  /-- A text, compared with bytes that are none. -/
  sameBytes : JsString → Bytes → Bool
  /-- What is stored of a value in a column; none where the value is refused. -/
  stores : DataType → SqlValue → Option SqlValue
  stores_kept : ∀ type v cell, type ≠ TIMESTAMP → stores type v = some cell → type = VARCHAR ∨
    type = INT ∨ type = BIGINT →
    returnedCell type v = some cell
  /-- A TIMESTAMP keeps whole seconds: a fraction is cut off or rounded. -/
  stores_time : ∀ (i : Instant) text cell, toSqlTime i = .ok text →
    stores TIMESTAMP (.text text) = some cell →
    ∃ (j : Instant) (stored : JsString), cell = .text stored ∧ toSqlTime j = .ok stored ∧
      j.nanos = 0 ∧
      (j.seconds = i.seconds ∨ j.seconds = i.seconds + 1)
  /-- Rows in an order; nothing is said of equal ones. -/
  arrange : (Row → Row → Bool) → List Row → List Row
  arrange_perm : ∀ le rows, (arrange le rows).Perm rows
  arrange_sorted : ∀ le rows, (∀ a b, le a b = true ∨ le b a = true) →
    (∀ a b c, le a b = true → le b c = true → le a c = true) →
    (arrange le rows).Pairwise fun a b => le a b = true

namespace Mysql
variable (m : Mysql)

/-- `=` of a column and a parameter. -/
def equal : SqlValue → SqlValue → Bool
  | .text a, .text b => m.same a b
  | .text a, .buffer b => m.sameBytes a b
  | .number a, .number b => a == b
  | _, _ => false

/-- The row of some values, if each of them is accepted. -/
def row (table : JsString) (columns : List JsString) (values : List SqlValue) : Option Row :=
  (columns.zip values).mapM fun e => (declared table e.1).bind fun type =>
    (m.stores type e.2).map fun cell => (e.1, cell)

/-- Two rows have one primary key; a row without one has none in common. -/
def sameKey (table : JsString) (a b : Row) : Bool :=
  primaryOf table != [] && (primaryOf table).all fun column =>
    m.equal (Row.cell a column) (Row.cell b column)

/-- The rows after one was inserted; a duplicate is merged, or refused. -/
def insertRow (table : JsString) (updated : List JsString) (new : Row) (rows : List Row) :
    Option (List Row) :=
  if rows.any (fun old => m.sameKey table old new) = true ∧ updated = [] then none
  else some (upsert (m.sameKey table) (Row.update updated) new rows)

/-- The order of a column, by its texts. -/
def orderLe (column : JsString) (newestFirst : Bool) (a b : Row) : Bool :=
  let x := (Row.cell a column).orderText
  let y := (Row.cell b column).orderText
  if newestFirst then decide (¬ x < y) else decide (¬ y < x)

/-- The number a LIMIT is given as text. -/
def limitOf : SqlValue → Option Nat
  | .text v => if v.all isDigitUnit = true ∧ v ≠ [] then some (groupNumber v) else none
  | _ => none

/-- The limit that is asked for, if one is. -/
def limitAsked (limited : Bool) (last : List SqlValue) : Option (Option Nat) :=
  match limited, last with
  | false, [] => some none
  | true, [v] => (limitOf v).map some
  | _, _ => none

/-- `WHERE c = ? AND …` -/
def passes (filters : List JsString) (values : List SqlValue) (row : Row) : Bool :=
  (filters.zip values).all fun e => m.equal (Row.cell row e.1) e.2

/-- The rows that pass the filters, in order and up to the limit. -/
def selected (rows : List Row) (filters : List JsString) (order : JsString) (newestFirst : Bool)
    (values : List SqlValue) (limit : Option Nat) : List Row :=
  let sorted := m.arrange (orderLe order newestFirst) (rows.filter (m.passes filters values))
  sorted.take (limit.getD sorted.length)

/-- What a statement comes to: the rows it returns and the tables after it. -/
def carryOut (tables : Tables) (statement : Statement) :
    Option (List (List SqlValue) × Tables) := do
  match ← readHistorySql (js statement.sql) with
  | .insert table columns updated =>
    if columns.length = statement.params.length then
      let new ← m.row table columns statement.params
      let rows ← m.insertRow table updated new (tables table)
      return ([], Function.update tables table rows)
    else none
  | .select table columns filters order newestFirst limited =>
    let values := statement.params.take filters.length
    if values.length = filters.length then
      let limit ← limitAsked limited (statement.params.drop filters.length)
      return ((m.selected (tables table) filters order newestFirst values limit).map fun row =>
        columns.map (Row.cell row), tables)
    else none

/-- The tables after a statement: one that fails changes nothing. -/
def after (before : List Statement) (tables : Tables) (statement : Statement) : Tables :=
  match m.refuses before statement with
  | some _ => tables
  | none => ((m.carryOut tables statement).map Prod.snd).getD tables

def replayFrom (before : List Statement) (tables : Tables) : List Statement → Tables
  | [] => tables
  | statement :: statements =>
    replayFrom (before ++ [statement]) (m.after before tables statement) statements

/-- The tables after some statements, which were empty before. -/
def replay (statements : List Statement) : Tables := m.replayFrom [] (fun _ => []) statements

/-- The database a handler is given: its tables are what the statements so far have made of them. -/
def database : Database := fun before statement =>
  match m.refuses before statement with
  | some message => .error message
  | none =>
    match m.carryOut (m.replay before) statement with
    | some (rows, _) => .ok rows
    | none => .error (js "MySQL refuses the statement")

theorem replayFrom_append (before : List Statement) (tables : Tables) (statements : List Statement)
    (last : Statement) :
    m.replayFrom before tables (statements ++ [last]) =
      m.after (before ++ statements) (m.replayFrom before tables statements) last := by
  induction statements generalizing before tables with
  | nil => simp [replayFrom]
  | cons statement statements ih => simp [replayFrom, ih]

theorem replay_append (statements : List Statement) (last : Statement) :
    m.replay (statements ++ [last]) = m.after statements (m.replay statements) last := by
  rw [replay, replay, replayFrom_append, List.nil_append]

variable {m}

/-- A statement is answered exactly when it is carried out. -/
theorem database_ok {before : List Statement} {statement : Statement} {rows : List (List SqlValue)}
    (h : m.database before statement = .ok rows) :
    ∃ tables, m.carryOut (m.replay before) statement = some (rows, tables) ∧
      m.replay (before ++ [statement]) = tables := by
  rw [replay_append, after]
  unfold database at h
  split at h
  · cases h
  · split at h
    · rename_i rows' tables hout
      cases h
      exact ⟨tables, hout, by rw [hout]; rfl⟩
    · cases h

theorem database_error {before : List Statement} {statement : Statement} {message : JsString}
    (h : m.database before statement = .error message) :
    m.replay (before ++ [statement]) = m.replay before := by
  rw [replay_append, after]
  unfold database at h
  split at h
  · rfl
  · split at h
    · cases h
    · rename_i hout
      rw [hout]
      rfl

end Mysql

/-! ## The statements of the history -/

/-- An INSERT is what stands before its values, and behind them what a duplicate takes over. -/
theorem readHistorySql_insert {text table : JsString} {columns updated rest : List JsString}
    (hinsert : insertInto text = some (table, columns))
    (hrest : behind (js ")") (behind (js ")") (words [] text)) = rest)
    (hupdated : readUpdated rest = some updated) :
    readHistorySql text = some (.insert table columns updated) := by
  rw [readHistorySql, hinsert]
  dsimp only
  rw [hrest, hupdated]
  rfl

theorem readHistorySql_insertTransaction :
    readHistorySql (js INSERT_TRANSACTION_SQL) =
      some (.insert (js "transactions") transactionColumns []) := by
  refine readHistorySql_insert insertInto_transactions (?_ : _ = []) rfl
  unfold INSERT_TRANSACTION_SQL TRANSACTION_COLUMNS
  simp only [js_append]
  decide +kernel

theorem readHistorySql_insertDelivery :
    readHistorySql (js INSERT_DELIVERY_SQL) =
      some (.insert (js "contract_deliveries") deliveryColumns []) := by
  refine readHistorySql_insert insertInto_deliveries (?_ : _ = []) rfl
  unfold INSERT_DELIVERY_SQL
  simp only [js_append]
  decide +kernel

/-- The columns of a contract, in the order of its statement. -/
def contractColumns : List JsString :=
  [js "id", js "faction_symbol", js "type", js "accepted", js "fulfilled", js "raw_json",
    js "updated_at"]

/-- What a contract that is known already takes over. -/
def contractUpdated : List JsString :=
  [js "accepted", js "fulfilled", js "raw_json", js "updated_at"]

theorem readHistorySql_upsertContract :
    readHistorySql (js UPSERT_CONTRACT_SQL) =
      some (.insert (js "contracts") contractColumns contractUpdated) := by
  have hinsert : insertInto (js UPSERT_CONTRACT_SQL) = some (js "contracts", contractColumns) := by
    unfold UPSERT_CONTRACT_SQL
    simp only [js_append]
    decide +kernel
  have hrest : behind (js ")") (behind (js ")") (words [] (js UPSERT_CONTRACT_SQL))) =
      ["ON", "DUPLICATE", "KEY", "UPDATE", "accepted", "=", "VALUES", "(", "accepted", ")", ",",
        "fulfilled", "=", "VALUES", "(", "fulfilled", ")", ",", "raw_json", "=", "VALUES", "(",
        "raw_json", ")", ",", "updated_at", "=", "VALUES", "(",
        "updated_at", ")"].map js := by
    unfold UPSERT_CONTRACT_SQL
    simp only [js_append]
    decide +kernel
  exact readHistorySql_insert hinsert hrest (by decide +kernel)

/-- A SELECT is its columns, and behind its table the filters and the order. -/
theorem readHistorySql_select {text table order : JsString}
    {columns filters rest behindTable : List JsString} {newestFirst limited : Bool}
    (hno : insertInto text = none) (hselect : selectFrom text = some (table, columns))
    (hbehind : (behind (js "FROM") (words [] text)).drop 1 = behindTable)
    (hfilters : readFilters behindTable = some (filters, rest))
    (horder : readOrder rest = some (order, newestFirst, limited)) :
    readHistorySql text = some (.select table columns filters order newestFirst limited) := by
  rw [readHistorySql, hno]
  dsimp only
  rw [hselect, hbehind]
  simp [hfilters, horder]

/-- What begins with another word is no INSERT. -/
theorem insertInto_none {text : JsString} {columns : JsString × List JsString}
    (h : selectFrom text = some columns) : insertInto text = none := by
  unfold selectFrom at h
  unfold insertInto
  split at h
  · rename_i hwords
    split at h
    · rename_i hselect
      rw [hwords]
      split
      · rename_i heq
        obtain ⟨rfl, -⟩ := List.cons.inj heq
        rw [hselect]
        have hne : js "SELECT" ≠ js "INSERT" := by decide
        simp [hne]
      · rfl
    · cases h
  · cases h

theorem readHistorySql_selectDeliveries : readHistorySql (js SELECT_DELIVERIES_SQL) =
    some (.select (js "contract_deliveries") deliveryColumns [js "contract_id"] (js "delivered_at")
      false false) := by
  have hbehind : (behind (js "FROM") (words [] (js SELECT_DELIVERIES_SQL))).drop 1 =
      ["WHERE", "contract_id", "=", "?", "ORDER", "BY", "delivered_at", "ASC"].map js := by
    unfold SELECT_DELIVERIES_SQL
    simp only [js_append]
    decide +kernel
  have hfilters : readFilters (["WHERE", "contract_id", "=", "?", "ORDER", "BY", "delivered_at",
    "ASC"].map js) =
      some ([js "contract_id"], ["ORDER", "BY", "delivered_at", "ASC"].map js) := by decide +kernel
  exact readHistorySql_select (insertInto_none selectFrom_deliveries) selectFrom_deliveries hbehind
    hfilters (by decide +kernel)

/-- The columns a query is narrowed by. -/
def TransactionQuery.filters (q : TransactionQuery) : List JsString :=
  (if q.shipSymbol.isEmpty then [] else [js "ship_symbol"]) ++
    if q.type.isSome then [js "type"] else []

theorem readHistorySql_selectTransactions (q : TransactionQuery) : readHistorySql (js q.sql) =
    some (.select (js "transactions") transactionColumns q.filters (js "occurred_at")
      true true) := by
  have hbehind : (behind (js "FROM") (words [] (js q.sql))).drop 1 =
      (if q.conditions = [] then []
        else js "WHERE" :: [js "AND"].intercalate (q.filters.map fun c => [c, js "=", js "?"])) ++
            ["ORDER", "BY", "occurred_at", "DESC", "LIMIT", "?"].map js := by
    unfold TransactionQuery.sql TransactionQuery.conditions TransactionQuery.filters
      TRANSACTION_COLUMNS
    simp only [js_append]
    cases q.shipSymbol.isEmpty <;> cases q.type.isSome <;> decide +kernel
  have hfilters : readFilters
      ((if q.conditions = [] then []
        else js "WHERE" :: [js "AND"].intercalate (q.filters.map fun c => [c, js "=", js "?"])) ++
          ["ORDER", "BY", "occurred_at", "DESC", "LIMIT", "?"].map js) =
      some (q.filters, ["ORDER", "BY", "occurred_at", "DESC", "LIMIT", "?"].map js) := by
    unfold TransactionQuery.conditions TransactionQuery.filters
    cases q.shipSymbol.isEmpty <;> cases q.type.isSome <;> decide +kernel
  exact readHistorySql_select (insertInto_none (selectFrom_transactions q))
    (selectFrom_transactions q) hbehind hfilters (by decide +kernel)

theorem primaryOf_eq (table : JsString) : primaryOf table =
    (TABLES.findSome? fun t => if t.name = table then some [js "id"] else none).getD [] := by
  have hschema : primaryOf table =
    ((SCHEMA.map fun statement => readDdl (js statement)).findSome? fun ddl =>
      match ddl with
      | some (.createTable name _ primary) => if name = table then primary.map (·.columns) else none
      | _ => none).getD [] := by
    rw [List.findSome?_map]
    rfl
  rw [hschema, readDdl_schema, List.findSome?_map]
  rfl

/-- Every table of the schema has its `id` for a primary key. -/
theorem primaryOf_table {table : JsString} (h : table ∈ TABLES.map TableSpec.name) :
    primaryOf table = [js "id"] := by
  obtain ⟨t, ht, rfl⟩ := List.mem_map.mp h
  rw [primaryOf_eq]
  cases hfound : TABLES.findSome? fun t' => if t'.name = t.name then some [js "id"] else none with
  | none =>
    rw [List.findSome?_eq_none_iff] at hfound
    simpa using hfound t ht
  | some key =>
    obtain ⟨t', -, hkey⟩ := List.exists_of_findSome?_eq_some hfound
    split at hkey
    · exact (Option.some.inj hkey).symm
    · cases hkey

end AgentService
