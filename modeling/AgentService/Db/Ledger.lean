import AgentService.Db.Mysql
import AgentService.Db.RowsReadBack
import AgentService.Lib.Listing
import Mathlib.Tactic.Simps.Basic

/-!
# The history as a ledger

What the three tables are for: every purchase and sale and every delivery, in the order they were
told of, and of each contract the latest state. A ledger has no rows and no texts; MySQL's tables
represent one, and each statement that is carried out enters what it says.
-/

namespace AgentService
open Lib

structure Ledger where
  transactions : List NewTransaction
  deliveries : List Delivery
  contracts : List NewContract

/-- What a ledger is told. -/
inductive Entry where
  | transaction (t : NewTransaction)
  | delivery (d : Delivery)
  | contract (c : NewContract)

def Entry.statement : Entry → Statement
  | transaction t => t.insert
  | delivery d => d.insert
  | contract c => c.upsert

def Entry.asTransaction : Entry → Option NewTransaction
  | transaction t => some t
  | _ => none

def Entry.asDelivery : Entry → Option Delivery
  | delivery d => some d
  | _ => none

def Entry.asContract : Entry → Option NewContract
  | contract c => some c
  | _ => none

/-- The contract that is known, in its latest state. -/
def NewContract.merge (known latest : NewContract) : NewContract :=
  { known with
    accepted := latest.accepted
    fulfilled := latest.fulfilled
    rawJson := latest.rawJson
    updatedAt := latest.updatedAt }

def Ledger.empty : Ledger := ⟨[], [], []⟩

/-- `same` says when two ids are one. -/
def Ledger.enter (same : JsString → JsString → Bool) (l : Ledger) : Entry → Ledger
  | .transaction t => { l with transactions := l.transactions ++ [t] }
  | .delivery d => { l with deliveries := l.deliveries ++ [d] }
  | .contract c =>
    { l with contracts := upsert (fun a b => same a.id b.id) NewContract.merge c l.contracts }

/-- The ledger of some entries. -/
def Ledger.of (same : JsString → JsString → Bool) (entries : List Entry) : Ledger :=
  entries.foldl (Ledger.enter same) Ledger.empty

section
variable {same : JsString → JsString → Bool}

theorem Ledger.of_append (entries : List Entry) (e : Entry) :
    Ledger.of same (entries ++ [e]) = (Ledger.of same entries).enter same e := List.foldl_concat ..

/-- The transactions of a ledger are those entered, -/
theorem Ledger.of_transactions (entries : List Entry) :
    (Ledger.of same entries).transactions = entries.filterMap Entry.asTransaction := by
  induction entries using List.reverseRecOn with
  | nil => rfl
  | append_singleton entries e ih =>
    rw [Ledger.of_append, List.filterMap_append, ← ih]
    cases e <;> simp [Ledger.enter, Entry.asTransaction]

/-- and so are its deliveries, -/
theorem Ledger.of_deliveries (entries : List Entry) :
    (Ledger.of same entries).deliveries = entries.filterMap Entry.asDelivery := by
  induction entries using List.reverseRecOn with
  | nil => rfl
  | append_singleton entries e ih =>
    rw [Ledger.of_append, List.filterMap_append, ← ih]
    cases e <;> simp [Ledger.enter, Entry.asDelivery]

/-- while its contracts are upserted. -/
theorem Ledger.of_contracts (entries : List Entry) : (Ledger.of same entries).contracts =
    upsertAll (fun a b => same a.id b.id) NewContract.merge []
    (entries.filterMap Entry.asContract) := by
  induction entries using List.reverseRecOn with
  | nil => rfl
  | append_singleton entries e ih =>
    rw [Ledger.of_append, List.filterMap_append, upsertAll_append, ← ih]
    cases e <;> rfl

end

/-! ## Rows of values -/

theorem declared_contracts : contractColumns.map (declared (js "contracts")) =
    [VARCHAR, VARCHAR, VARCHAR, TINYINT, TINYINT, JSON, TIMESTAMP].map some := by
  simp only [contractColumns, List.map_cons, List.map_nil, declared_eq]
  rfl

namespace Mysql
variable {m : Mysql}

/-- What is stored of some values. -/
def cells (m : Mysql) (types : List DataType) (values : List SqlValue) : Option (List SqlValue) :=
  (types.zip values).mapM fun e => m.stores e.1 e.2

/-- The row of an insert has its cells by the types of its columns. -/
theorem row_eq {table : JsString} {columns : List JsString} {types : List DataType}
    {values : List SqlValue} (htypes : columns.map (declared table) = types.map some) :
    m.row table columns values = (m.cells types values).map fun cells => columns.zip cells := by
  unfold row cells
  induction columns generalizing types values with
  | nil => cases types <;> cases htypes; rfl
  | cons column columns ih =>
    cases types with
    | nil => cases htypes
    | cons type types =>
      obtain ⟨htype, htypes⟩ := List.cons.inj htypes
      cases values with
      | nil => rfl
      | cons value values =>
        rw [List.zip_cons_cons, List.zip_cons_cons, List.mapM_cons, List.mapM_cons, ih htypes,
          htype, Option.bind_some]
        cases m.stores type value with
        | none => rfl
        | some cell =>
          cases (types.zip values).mapM fun e => m.stores e.1 e.2 with
          | none => rfl
          | some cells => rfl

/-- Columns that are all different give the cells back. -/
theorem map_cell_zip {columns : List JsString} {cells : List SqlValue} (hnodup : columns.Nodup)
    (hlength : columns.length = cells.length) :
    columns.map (Row.cell (columns.zip cells)) = cells := by
  have hkeys : (columns.zip cells).map Prod.fst = columns := List.map_fst_zip (Nat.le_of_eq hlength)
  have hrow : ∀ row : Row, (row.map Prod.fst).Nodup → (row.map Prod.fst).map (Row.cell row) =
      row.map Prod.snd := by
    intro row hrow
    rw [List.map_map]
    apply List.map_congr_left
    intro e he
    rw [Function.comp_apply, Row.cell, getMember_of_nodup hrow he]
    rfl
  have hcells := hrow (columns.zip cells) (by rwa [hkeys])
  rwa [hkeys, List.map_snd_zip (Nat.le_of_eq hlength.symm)] at hcells

/-- The rows of the tables are the entries of the ledger, in their order. -/
structure Represents (m : Mysql) (tables : Tables) (l : Ledger) : Prop where
  transactions : List.Forall₂ (fun row t =>
    m.row (js "transactions") transactionColumns t.insert.params = some row)
    (tables (js "transactions")) l.transactions
  deliveries : List.Forall₂ (fun row d =>
    m.row (js "contract_deliveries") deliveryColumns d.insert.params = some row)
    (tables (js "contract_deliveries")) l.deliveries
  contracts : List.Forall₂ (fun row c =>
    m.row (js "contracts") contractColumns c.upsert.params = some row)
    (tables (js "contracts")) l.contracts

/-- Empty tables represent the empty ledger. -/
theorem represents_empty (m : Mysql) : m.Represents (fun _ => []) Ledger.empty := ⟨.nil, .nil, .nil⟩

/-! ## What a statement enters -/

theorem tables_named : TABLES.map TableSpec.name = [js "contracts", js "contract_deliveries",
    js "transactions"] := rfl

theorem tables_apart : js "contract_deliveries" ≠ js "transactions" ∧
    js "contracts" ≠ js "transactions" ∧
    js "contracts" ≠ js "contract_deliveries" := by decide

/-- A statement that inserts, carried out. -/
theorem carryOut_insert {tables tables' : Tables} {statement : Statement} {table : JsString}
    {columns updated : List JsString} {rows : List (List SqlValue)}
    (hsql : readHistorySql (js statement.sql) = some (.insert table columns updated))
    (h : m.carryOut tables statement = some (rows, tables')) :
    rows = [] ∧ ∃ new rows', m.row table columns statement.params = some new ∧
      m.insertRow table updated new (tables table) = some rows' ∧
      tables' = Function.update tables table rows' := by
  rw [carryOut, hsql] at h
  simp only [Option.bind_eq_bind, Option.bind_some] at h
  split at h
  · simp only [Option.bind_eq_some_iff, Option.pure_def, Option.some.injEq, Prod.mk.injEq] at h
    obtain ⟨new, hnew, rows', hrows', rfl, rfl⟩ := h
    exact ⟨rfl, new, rows', hnew, hrows', rfl⟩
  · cases h

/-- A row that can be inserted is. -/
theorem carryOut_insert_ok {tables : Tables} {statement : Statement} {table : JsString}
    {columns updated : List JsString} {new : Row} {rows : List Row}
    (hsql : readHistorySql (js statement.sql) = some (.insert table columns updated))
    (hlength : columns.length = statement.params.length)
    (hnew : m.row table columns statement.params = some new)
    (hrows : m.insertRow table updated new (tables table) = some rows) :
    m.carryOut tables statement = some ([], Function.update tables table rows) := by
  rw [carryOut, hsql]
  simp only [Option.bind_eq_bind, Option.bind_some, if_pos hlength, hnew, hrows]
  rfl

/-- An insert that is carried out is an upsert. -/
theorem insertRow_eq {table : JsString} {updated : List JsString} {new : Row}
    {rows rows' : List Row} (h : m.insertRow table updated new rows = some rows') :
    rows' = upsert (m.sameKey table) (Row.update updated) new rows := by
  unfold insertRow at h
  split at h
  · cases h
  · exact (Option.some.inj h).symm

/-- A row without the key is new. -/
theorem sameKey_keyless {table : JsString} (ht : table ∈ TABLES.map TableSpec.name) {new : Row}
    (h : getMember (js "id") new = none) (old : Row) : m.sameKey table old new = false := by
  rw [sameKey, primaryOf_table ht]
  have hnull : Row.cell new (js "id") = .null := by rw [Row.cell, h]; rfl
  simp only [List.all_cons, List.all_nil, hnull]
  cases Row.cell old (js "id") <;> rfl

/-- A row without an id is appended. -/
theorem append_keyless {table : JsString} (ht : table ∈ TABLES.map TableSpec.name)
    {updated : List JsString} {new : Row} {rows rows' : List Row}
    (hkey : getMember (js "id") new = none) (h : m.insertRow table updated new rows = some rows') :
    rows' = rows ++ [new] := by
  rw [insertRow_eq h, upsert_append fun old _ => sameKey_keyless ht hkey old]

theorem getMember_zip_none {column : JsString} {columns : List JsString} {cells : List SqlValue}
    (h : column ∉ columns) : getMember column (columns.zip cells) = none := by
  induction columns generalizing cells with
  | nil => rfl
  | cons c columns ih =>
    cases cells with
    | nil => rfl
    | cons cell cells =>
      rw [List.mem_cons, not_or] at h
      rw [List.zip_cons_cons, getMember, if_neg (Ne.symm h.1)]
      exact ih h.2

/-- The insert of a transaction enters it, -/
theorem Represents.enter_transaction {tables tables' : Tables} {l : Ledger}
    (h : m.Represents tables l) {t : NewTransaction} {rows : List (List SqlValue)}
    (hout : m.carryOut tables t.insert = some (rows, tables')) :
    m.Represents tables' (l.enter m.same (.transaction t)) := by
  have hsql : readHistorySql (js t.insert.sql) = _ := readHistorySql_insertTransaction
  obtain ⟨-, new, rows', hnew, hrows', rfl⟩ := carryOut_insert hsql hout
  have hkey : getMember (js "id") new = none := by
    rw [row_eq declared_transactions] at hnew
    obtain ⟨cells, -, rfl⟩ := Option.map_eq_some_iff.mp hnew
    exact getMember_zip_none (by decide)
  obtain rfl := append_keyless (by simp [tables_named]) hkey hrows'
  refine ⟨?_, ?_, ?_⟩
  · rw [Function.update_self]
    exact List.rel_append h.transactions (.cons hnew .nil)
  · rw [Function.update_of_ne tables_apart.1]
    exact h.deliveries
  · rw [Function.update_of_ne tables_apart.2.1]
    exact h.contracts

/-- that of a delivery enters that, -/
theorem Represents.enter_delivery {tables tables' : Tables} {l : Ledger} (h : m.Represents tables l)
    {d : Delivery} {rows : List (List SqlValue)}
    (hout : m.carryOut tables d.insert = some (rows, tables')) :
    m.Represents tables' (l.enter m.same (.delivery d)) := by
  have hsql : readHistorySql (js d.insert.sql) = _ := readHistorySql_insertDelivery
  obtain ⟨-, new, rows', hnew, hrows', rfl⟩ := carryOut_insert hsql hout
  have hkey : getMember (js "id") new = none := by
    rw [row_eq declared_deliveries] at hnew
    obtain ⟨cells, -, rfl⟩ := Option.map_eq_some_iff.mp hnew
    exact getMember_zip_none (by decide)
  obtain rfl := append_keyless (by simp [tables_named]) hkey hrows'
  refine ⟨?_, ?_, ?_⟩
  · rw [Function.update_of_ne tables_apart.1.symm]
    exact h.transactions
  · rw [Function.update_self]
    exact List.rel_append h.deliveries (.cons hnew .nil)
  · rw [Function.update_of_ne tables_apart.2.2]
    exact h.contracts

/-- A delivery whose values can be stored is inserted. -/
theorem carryOut_delivery (tables : Tables) {d : Delivery} {cells : List SqlValue}
    (h : m.cells [VARCHAR, VARCHAR, VARCHAR, INT, TIMESTAMP] d.insert.params = some cells) :
    ∃ tables', m.carryOut tables d.insert = some ([], tables') := by
  have hsql : readHistorySql (js d.insert.sql) = _ := readHistorySql_insertDelivery
  have hnew : m.row (js "contract_deliveries") deliveryColumns d.insert.params =
      some (deliveryColumns.zip cells) := by
    rw [row_eq declared_deliveries, h]
    rfl
  have hkey : getMember (js "id") (deliveryColumns.zip cells) = none :=
    getMember_zip_none (by decide)
  have hfresh : ¬ ((tables (js "contract_deliveries")).any
      (fun old => m.sameKey (js "contract_deliveries") old (deliveryColumns.zip cells)) = true ∧
          ([] : List JsString) = []) := by
    rintro ⟨hany, -⟩
    obtain ⟨old, -, hsame⟩ := List.any_eq_true.mp hany
    rw [sameKey_keyless (by simp [tables_named]) hkey old] at hsame
    cases hsame
  exact ⟨_, carryOut_insert_ok hsql rfl hnew (if_neg hfresh)⟩
/-- The row of a contract, cell by cell. -/
theorem contract_row {c : NewContract} {new : Row} :
    m.row (js "contracts") contractColumns c.upsert.params = some new ↔
    ∃ id faction type accepted fulfilled json time, m.stores VARCHAR (.text c.id) = some id ∧
      m.stores VARCHAR (.text c.factionSymbol) = some faction ∧
      m.stores VARCHAR (.text c.type) = some type ∧
      m.stores TINYINT (.number (if c.accepted then 1 else 0)) = some accepted ∧
      m.stores TINYINT (.number (if c.fulfilled then 1 else 0)) = some fulfilled ∧
      m.stores JSON (.text c.rawJson) = some json ∧
        m.stores TIMESTAMP (.text c.updatedAt) = some time ∧
      new = contractColumns.zip [id, faction, type, accepted, fulfilled, json, time] := by
  rw [row_eq declared_contracts, cells]
  simp only [NewContract.upsert, List.zip_cons_cons, List.zip_nil_right, List.mapM_cons,
    List.mapM_nil, Option.bind_eq_bind, Option.pure_def, Option.map_eq_some_iff,
    Option.bind_eq_some_iff, Option.some.injEq]
  constructor
  · rintro ⟨_, ⟨id, hid, _,
      ⟨faction, hfaction, _, ⟨type, htype, _,
        ⟨accepted, haccepted, _, ⟨fulfilled, hfulfilled, _,
          ⟨json, hjson, _, ⟨time, htime, _, rfl, rfl⟩, rfl⟩, rfl⟩, rfl⟩, rfl⟩, rfl⟩, rfl⟩, rfl⟩
    exact ⟨id, faction, type, accepted, fulfilled, json, time, hid, hfaction, htype, haccepted,
      hfulfilled, hjson, htime, rfl⟩
  · rintro ⟨id, faction, type, accepted, fulfilled, json, time, hid, hfaction, htype, haccepted,
      hfulfilled, hjson, htime, rfl⟩
    exact ⟨_, ⟨id, hid, _, ⟨faction, hfaction, _,
      ⟨type, htype, _, ⟨accepted, haccepted, _,
        ⟨fulfilled, hfulfilled, _, ⟨json, hjson, _, ⟨time, htime, _, rfl, rfl⟩, rfl⟩, rfl⟩, rfl⟩,
        rfl⟩, rfl⟩, rfl⟩, rfl⟩

theorem stores_varchar {text : JsString} {cell : SqlValue}
    (h : m.stores VARCHAR (.text text) = some cell) : cell = .text text := by
  have hne : VARCHAR ≠ TIMESTAMP := types_distinct.2.2.2.1.symm
  have hback := m.stores_kept _ _ _ hne h (.inl rfl)
  rw [returnedCell, if_pos rfl] at hback
  exact (Option.some.inj hback).symm

/-- Rows of contracts have one key where MySQL takes their ids for one. -/
theorem sameKey_contracts {c c' : NewContract} {row new : Row}
    (hrow : m.row (js "contracts") contractColumns c.upsert.params = some row)
    (hnew : m.row (js "contracts") contractColumns c'.upsert.params = some new) :
    m.sameKey (js "contracts") row new = m.same c.id c'.id := by
  obtain ⟨id, _, _, _, _, _, _, hid, -, -, -, -, -, -, rfl⟩ := contract_row.mp hrow
  obtain ⟨id', _, _, _, _, _, _, hid', -, -, -, -, -, -, rfl⟩ := contract_row.mp hnew
  obtain rfl := stores_varchar hid
  obtain rfl := stores_varchar hid'
  rw [sameKey, primaryOf_table (by simp [tables_named])]
  simp [contractColumns, Row.cell, getMember, equal]

/-- The row after an upsert is the row of the merged contract. -/
theorem update_contracts {c c' : NewContract} {row new : Row}
    (hrow : m.row (js "contracts") contractColumns c.upsert.params = some row)
    (hnew : m.row (js "contracts") contractColumns c'.upsert.params = some new) :
    m.row (js "contracts") contractColumns (c.merge c').upsert.params =
      some (Row.update contractUpdated row new) := by
  obtain ⟨id, faction, type, _, _, _, _, hid, hfaction, htype, -, -, -, -, rfl⟩ :=
    contract_row.mp hrow
  obtain ⟨_, _, _, accepted, fulfilled, json, time, -, -, -, haccepted, hfulfilled, hjson, htime,
    rfl⟩ := contract_row.mp hnew
  exact contract_row.mpr
    ⟨id, faction, type, accepted, fulfilled, json, time, hid, hfaction, htype, haccepted,
      hfulfilled, hjson, htime, rfl⟩

/-- and the upsert of a contract enters that. -/
theorem Represents.enter_contract {tables tables' : Tables} {l : Ledger} (h : m.Represents tables l)
    {c : NewContract} {rows : List (List SqlValue)}
    (hout : m.carryOut tables c.upsert = some (rows, tables')) :
    m.Represents tables' (l.enter m.same (.contract c)) := by
  have hsql : readHistorySql (js c.upsert.sql) = _ := readHistorySql_upsertContract
  obtain ⟨-, new, rows', hnew, hrows', rfl⟩ := carryOut_insert hsql hout
  obtain rfl := insertRow_eq hrows'
  refine ⟨?_, ?_, ?_⟩
  · rw [Function.update_of_ne tables_apart.2.1.symm]
    exact h.transactions
  · rw [Function.update_of_ne tables_apart.2.2.symm]
    exact h.deliveries
  · rw [Function.update_self]
    exact forall₂_upsert h.contracts hnew (fun row c' hrow => sameKey_contracts hrow hnew)
      fun row c' hrow => update_contracts hrow hnew

/-- A statement that is carried out enters what it says, and nothing else changes. -/
theorem Represents.enter {tables tables' : Tables} {l : Ledger}
    (h : m.Represents tables l) {e : Entry} {rows : List (List SqlValue)}
    (hout : m.carryOut tables e.statement = some (rows, tables')) :
    m.Represents tables' (l.enter m.same e) := by
  cases e with
  | transaction t => exact h.enter_transaction hout
  | delivery d => exact h.enter_delivery hout
  | contract c => exact h.enter_contract hout

end Mysql

end AgentService
