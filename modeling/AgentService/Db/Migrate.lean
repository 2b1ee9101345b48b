import AgentService.Db.Catalogue
import AgentService.Gateway.TimeText

/-!
# The schema and its migration (`src/db/migrate.ts`)

A run talks to one database. Any statement of it may fail for a reason of its own, and a failed
statement changes nothing.
-/

namespace AgentService
open Lib

def SCHEMA : List String := [
  "CREATE TABLE IF NOT EXISTS contracts (" ++
    "\n\t\tid             VARCHAR(64) PRIMARY KEY," ++
    "\n\t\tfaction_symbol VARCHAR(64) NOT NULL," ++
    "\n\t\ttype           VARCHAR(32) NOT NULL," ++
    "\n\t\taccepted       BOOLEAN NOT NULL DEFAULT FALSE," ++
    "\n\t\tfulfilled      BOOLEAN NOT NULL DEFAULT FALSE," ++
    "\n\t\traw_json       JSON NOT NULL," ++
    "\n\t\tupdated_at     TIMESTAMP NOT NULL" ++
    "\n\t)",
  "CREATE TABLE IF NOT EXISTS contract_deliveries (" ++
    "\n\t\tid            INT AUTO_INCREMENT PRIMARY KEY," ++
    "\n\t\tcontract_id   VARCHAR(64) NOT NULL," ++
    "\n\t\tship_symbol   VARCHAR(64) NOT NULL," ++
    "\n\t\ttrade_symbol  VARCHAR(64) NOT NULL," ++
    "\n\t\tunits         INT NOT NULL," ++
    "\n\t\tdelivered_at  TIMESTAMP NOT NULL" ++
    "\n\t)",
  "CREATE TABLE IF NOT EXISTS transactions (" ++
    "\n\t\tid              INT AUTO_INCREMENT PRIMARY KEY," ++
    "\n\t\ttype            VARCHAR(32) NOT NULL," ++
    "\n\t\tship_symbol     VARCHAR(64) NOT NULL," ++
    "\n\t\twaypoint_symbol VARCHAR(64) NOT NULL," ++
    "\n\t\tship_type       VARCHAR(64) NULL," ++
    "\n\t\ttrade_symbol    VARCHAR(64) NULL," ++
    "\n\t\tunits           INT NULL," ++
    "\n\t\tprice_per_unit  INT NULL," ++
    "\n\t\ttotal_price     BIGINT NOT NULL," ++
    "\n\t\tagent_credits   BIGINT NOT NULL," ++
    "\n\t\toccurred_at     TIMESTAMP NOT NULL" ++
    "\n\t)"]

structure WidenedColumn where
  table : String
  column : String
  definition : String
  deriving DecidableEq, Repr

/-- Money columns created as INT by earlier versions. -/
def WIDENED_COLUMNS : List WidenedColumn :=
  [⟨"transactions", "total_price", "BIGINT NOT NULL"⟩,
    ⟨"transactions", "agent_credits", "BIGINT NOT NULL"⟩]

structure IndexSpec where
  table : String
  name : String
  columns : String
  deriving DecidableEq, Repr

def INDEXES : List IndexSpec := [
  ⟨"contract_deliveries", "idx_deliveries_contract", "(contract_id, delivered_at)"⟩,
  ⟨"transactions", "idx_transactions_occurred", "(occurred_at)"⟩,
  ⟨"transactions", "idx_transactions_ship", "(ship_symbol, occurred_at)"⟩]

def COLUMN_TYPE_SQL : String :=
  "\n\t\tSELECT DATA_TYPE FROM information_schema.COLUMNS" ++
  "\n\t\tWHERE TABLE_SCHEMA = DATABASE() AND TABLE_NAME = ? AND COLUMN_NAME = ?" ++
  "\n\t"

def INDEX_EXISTS_SQL : String :=
  "\n\t\tSELECT COUNT(*) FROM information_schema.STATISTICS" ++
  "\n\t\tWHERE TABLE_SCHEMA = DATABASE() AND TABLE_NAME = ? AND INDEX_NAME = ?" ++
  "\n\t"

/-! ## The database -/

namespace Catalogue

/-- The rows of `information_schema.COLUMNS`: at most one. -/
def columnRows (c : Catalogue) (table column : JsString) : List (List SqlValue) :=
  (((c table).bind (·.columns column)).map fun type => [.text type.name]).toList

/-- The count of `information_schema.STATISTICS`, which has a row for each column of an index. -/
def indexCount (c : Catalogue) (table name : JsString) : Nat :=
  (((c table).bind (·.indexes name)).map (·.columns.length)).getD 0

/-- What MySQL does with a statement of the migration: the rows and the catalogue after it, or none
when it refuses the statement. A count comes back as its digits. -/
def respond (c : Catalogue) (statement : Statement) : Option (List (List SqlValue) × Catalogue) :=
  match statement.params with
  | [.text table, .text name] =>
    if statement.sql = COLUMN_TYPE_SQL then some (c.columnRows table name, c)
    else if statement.sql = INDEX_EXISTS_SQL then
      some ([[.text (latin1Decode (decimal (c.indexCount table name)))]], c)
    else none
  | [] => do
    let ddl ← readDdl (js statement.sql)
    return ([], ← ddl.apply c)
  | _ => none

end Catalogue

/-- The database, and what a run has sent it and logged. -/
structure Session where
  catalogue : Catalogue
  statements : List Statement
  log : List JsString

def Session.sent (s : Session) (statement : Statement) : Session :=
  { s with statements := s.statements ++ [statement] }

/-- The failures of a run, by the number of the statements before: a connection lost,
a lock not granted. -/
abbrev Faults := Nat → Option JsString

section
variable (faults : Faults)

/-- `sql.execute` -/
def Session.execute (statement : Statement) : Effect Session JsString (List (List SqlValue)) :=
  fun s =>
  match faults s.statements.length with
  | some message => (.error message, s.sent statement)
  | none =>
    match s.catalogue.respond statement with
    | none => (.error (js "MySQL refuses the statement"), s.sent statement)
    | some (rows, c) => (.ok rows, { s.sent statement with catalogue := c })

/-- `String(value)` of what the catalogue's text columns arrive as; a missing one is empty. -/
def catalogueText : Option SqlValue → JsString
  | none | some .null => []
  | some (.text v) => v
  | some (.number v) => bigintText v
  | some (.buffer v) => utf8ToString v

def typeLookup (table column : String) : Statement :=
  ⟨COLUMN_TYPE_SQL, [.text (js table), .text (js column)]⟩

def indexLookup (table name : String) : Statement :=
  ⟨INDEX_EXISTS_SQL, [.text (js table), .text (js name)]⟩

/-- `columnType`: the declared type of a column, or `""`. -/
def columnType (table column : String) : Effect Session JsString JsString := do
  let rows ← Session.execute faults (typeLookup table column)
  return catalogueText (rows.head?.bind List.head?)

/-- `Number` of a count, which is digits or a number. -/
def countOf : Option SqlValue → Int
  | some (.text v) => groupNumber v
  | some (.number v) => v
  | _ => 0

def indexExists (table name : String) : Effect Session JsString Bool := do
  let rows ← Session.execute faults (indexLookup table name)
  return 0 < countOf (rows.head?.bind List.head?)

def WidenedColumn.alter (c : WidenedColumn) : Statement where
  sql := "ALTER TABLE " ++ c.table ++ " MODIFY " ++ c.column ++ " " ++ c.definition
  params := []

def IndexSpec.create (ix : IndexSpec) : Statement where
  sql := "CREATE INDEX " ++ ix.name ++ " ON " ++ ix.table ++ " " ++ ix.columns
  params := []

/-- The first loop of `migrate`, at one statement. -/
def createTable (statement : String) : Effect Session JsString Unit := do
  let _ ← Session.execute faults ⟨statement, []⟩

/-- The second loop of `migrate`, at one column. -/
def widenColumn (c : WidenedColumn) : Effect Session JsString Unit := do
  let type ← columnType faults c.table c.column
  if type = [] ∨ type = js "bigint" then return ()
  else
    Effect.change fun s =>
      { s with
        log := s.log ++ [js "widening " ++ js c.table ++ js "." ++ js c.column ++ js " from " ++
          type ++ js " to " ++ js c.definition] }
    let _ ← Session.execute faults c.alter

/-- The third loop of `migrate`, at one index. -/
def createIndex (ix : IndexSpec) : Effect Session JsString Unit := do
  if ← indexExists faults ix.table ix.name then return ()
  else
    let _ ← Session.execute faults ix.create

def migrate : Effect Session JsString Unit := do
  SCHEMA.forM (createTable faults)
  WIDENED_COLUMNS.forM (widenColumn faults)
  INDEXES.forM (createIndex faults)

end

/-! ## What the statements say -/

theorem js_append (a b : String) : js (a ++ b) = js a ++ js b := by
  unfold js
  rw [String.toList_append, List.map_append]

def VARCHAR : DataType := ⟨js "varchar", by decide⟩

def JSON : DataType := ⟨js "json", by decide⟩

def TIMESTAMP : DataType := ⟨js "timestamp", by decide⟩

def INT : DataType := ⟨js "int", by decide⟩

def BIGINT : DataType := ⟨js "bigint", by decide⟩

/-- A table the schema has. -/
structure TableSpec where
  name : JsString
  columns : List (JsString × DataType)

/-- The tables of the schema: every one has its `id` for a primary key. -/
def TABLES : List TableSpec := [
  ⟨js "contracts", [(js "id", VARCHAR), (js "faction_symbol", VARCHAR), (js "type", VARCHAR),
    (js "accepted", TINYINT), (js "fulfilled", TINYINT), (js "raw_json", JSON),
    (js "updated_at", TIMESTAMP)]⟩,
  ⟨js "contract_deliveries", [(js "id", INT), (js "contract_id", VARCHAR),
    (js "ship_symbol", VARCHAR), (js "trade_symbol", VARCHAR), (js "units", INT),
    (js "delivered_at", TIMESTAMP)]⟩,
  ⟨js "transactions", [(js "id", INT), (js "type", VARCHAR), (js "ship_symbol", VARCHAR),
    (js "waypoint_symbol", VARCHAR), (js "ship_type", VARCHAR), (js "trade_symbol", VARCHAR),
    (js "units", INT), (js "price_per_unit", INT),
    (js "total_price", BIGINT), (js "agent_credits", BIGINT), (js "occurred_at", TIMESTAMP)]⟩]

def TableSpec.create (t : TableSpec) : Ddl :=
  .createTable t.name t.columns (some ⟨[js "id"], by simp⟩)

/-- The statements of `SCHEMA` are read as the tables they create. -/
theorem readDdl_schema : SCHEMA.map (fun statement => readDdl (js statement)) = TABLES.map fun t =>
    some t.create := by
  simp only [SCHEMA, List.map_cons, List.map_nil, js_append]
  decide +kernel

/-- The two lookups are no DDL. -/
theorem readDdl_lookups :
    readDdl (js COLUMN_TYPE_SQL) = none ∧ readDdl (js INDEX_EXISTS_SQL) = none := by
  unfold COLUMN_TYPE_SQL INDEX_EXISTS_SQL
  simp only [js_append]
  decide +kernel

/-- Each statement of `SCHEMA` creates one of the tables, -/
theorem readDdl_createTable {statement : String} (h : statement ∈ SCHEMA) :
    ∃ t ∈ TABLES, readDdl (js statement) = some t.create := by
  have hmem := List.mem_map_of_mem (f := fun statement => readDdl (js statement)) h
  rw [readDdl_schema] at hmem
  obtain ⟨t, ht, heq⟩ := List.mem_map.mp hmem
  exact ⟨t, ht, heq.symm⟩

/-- and each of the tables is created by one. -/
theorem createTable_of_mem {t : TableSpec} (h : t ∈ TABLES) :
    ∃ statement ∈ SCHEMA, readDdl (js statement) = some t.create := by
  have hmem := List.mem_map_of_mem (f := fun t => some t.create) h
  rw [← readDdl_schema] at hmem
  exact List.mem_map.mp hmem

/-- Each ALTER widens its column to `BIGINT`. -/
theorem readDdl_alter : ∀ c ∈ WIDENED_COLUMNS,
    readDdl (js c.alter.sql) = some (.modifyColumn (js c.table) (js c.column) BIGINT) := by
      decide +kernel

/-- The columns the indexes are on are in the schema. -/
theorem readDdl_create : ∀ ix ∈ INDEXES, ∃ key : Key,
    readDdl (js ix.create.sql) = some (.createIndex (js ix.table) (js ix.name) key) ∧
    ∃ t ∈ TABLES, t.name = js ix.table ∧ ∀ column ∈ key.columns, column ∈ t.columns.map (·.1) := by
  intro ix h
  rcases (show ix ∈ [_, _, _] from h) with _ | ⟨_, _ | ⟨_, _ | ⟨_, h⟩⟩⟩
  · exact ⟨⟨[js "contract_id", js "delivered_at"], by simp⟩, by decide +kernel, _,
      List.mem_cons_of_mem _ List.mem_cons_self, rfl, by decide +kernel⟩
  · exact ⟨⟨[js "occurred_at"], by simp⟩, by decide +kernel,
      _, List.mem_cons_of_mem _ (List.mem_cons_of_mem _ List.mem_cons_self), rfl, by decide +kernel⟩
  · exact ⟨⟨[js "ship_symbol", js "occurred_at"], by simp⟩, by decide +kernel,
      _, List.mem_cons_of_mem _ (List.mem_cons_of_mem _ List.mem_cons_self), rfl, by decide +kernel⟩
  · cases h

/-- The widened columns are in the schema. -/
theorem widened_mem : ∀ c ∈ WIDENED_COLUMNS, ∃ t ∈ TABLES, t.name = js c.table ∧
    js c.column ∈ t.columns.map (·.1) := by
  decide +kernel

end AgentService
