import AgentService.Db.Sql
import Mathlib.Logic.Function.Basic

/-!
# MySQL's catalogue, and the statements that change it

As much of MySQL as a migration sees: the columns and indexes of the tables of the database, what
three DDL statements do to them, and the text these are sent as. A statement MySQL refuses changes
nothing.
-/

namespace AgentService
open Lib

/-- A `DATA_TYPE`, which is never empty. -/
structure DataType where
  name : JsString
  named : name ≠ []
  deriving DecidableEq, Repr

/-- The columns of an index, of which there is at least one. -/
structure Key where
  columns : List JsString
  nonempty : columns ≠ []
  deriving DecidableEq, Repr

structure Table where
  columns : JsString → Option DataType
  indexes : JsString → Option Key

/-- The tables of the database. -/
abbrev Catalogue := JsString → Option Table

inductive Ddl where
  | createTable (table : JsString) (columns : List (JsString × DataType)) (primary : Option Key)
  | modifyColumn (table column : JsString) (type : DataType)
  | createIndex (table name : JsString) (key : Key)
  deriving DecidableEq, Repr

/-- A table as it is created, indexed by its primary key alone. -/
def Table.new (columns : List (JsString × DataType)) (primary : Option Key) : Table where
  columns name := columns.lookup name
  indexes name := if name = js "PRIMARY" then primary else none

/-- What a statement does, if MySQL does not refuse it. -/
def Ddl.apply (c : Catalogue) : Ddl → Option Catalogue
  | createTable table columns primary =>
    match c table with
    | some _ => some c
    | none => some (Function.update c table (some (.new columns primary)))
  | modifyColumn table column type => do
    let t ← c table
    if (t.columns column).isSome then
      some (Function.update c table
        (some { t with columns := Function.update t.columns column (some type) }))
    else none
  | createIndex table name key => do
    let t ← c table
    if t.indexes name = none ∧ key.columns.all (fun column => (t.columns column).isSome) = true then
      some (Function.update c table
        (some { t with indexes := Function.update t.indexes name (some key) }))
    else none

/-! ## Statements as text -/

def isBlank (u : UInt16) : Bool := u == 0x20 || u == 0x09 || u == 0x0a || u == 0x0d

/-- Parentheses and commas are words of their own. -/
def isPunctuation (u : UInt16) : Bool := u == 0x28 || u == 0x29 || u == 0x2c

/-- The words of a text, of which the first has begun. -/
def words (word : JsString) : JsString → List JsString
  | [] => if word = [] then [] else [word]
  | u :: s =>
    let before := if word = [] then [] else [word]
    if isBlank u then before ++ words [] s
    else if isPunctuation u then before ++ [u] :: words [] s
    else words (word ++ [u]) s

/-- What stands between parentheses, cut at its commas; the first one has been opened. -/
def enclosed (depth : Nat) (current : List JsString) : List JsString → Option (List (List JsString))
  | [] => none
  | w :: ws =>
    if w = js "(" then enclosed (depth + 1) (current ++ [w]) ws
    else if w = js ")" then
      match depth with
      | 0 => if ws = [] then some [current] else none
      | depth + 1 => enclosed depth (current ++ [w]) ws
    else if w = js "," ∧ depth = 0 then (enclosed 0 [] ws).map (current :: ·)
    else enclosed depth (current ++ [w]) ws

def TINYINT : DataType := ⟨js "tinyint", by decide⟩

/-- The `DATA_TYPE` of a type: in lower case, and `BOOLEAN` is an integer. -/
def dataType (word : JsString) : Option DataType :=
  if word = js "BOOLEAN" then some TINYINT
  else
    let name := word.map fun u => if 0x41 ≤ u ∧ u ≤ 0x5a then u + 0x20 else u
    if h : name ≠ [] then some ⟨name, h⟩ else none

/-- A column and its type. -/
def columnDefinition : List JsString → Option (JsString × DataType)
  | name :: type :: _ => (dataType type).map (name, ·)
  | _ => none

/-- The column a definition makes the primary key. -/
def primaryKey (definition : List JsString) : Option JsString :=
  if definition.contains (js "PRIMARY") then definition.head? else none

def Key.ofColumns (columns : List JsString) : Option Key := if h :
    columns ≠ [] then some ⟨columns, h⟩ else none

def readCreateTable : List JsString → Option Ddl
  | table :: bracket :: rest => do
    let definitions ← if bracket = js "(" then enclosed 0 [] rest else none
    let columns ← definitions.mapM columnDefinition
    return .createTable table columns (Key.ofColumns (definitions.filterMap primaryKey))
  | _ => none

def readModifyColumn : List JsString → Option Ddl
  | table :: modify :: column :: type :: _ =>
    if modify = js "MODIFY" then (dataType type).map (.modifyColumn table column) else none
  | _ => none

def readCreateIndex : List JsString → Option Ddl
  | name :: on :: table :: bracket :: rest => do
    let columns ← if on = js "ON" ∧ bracket = js "(" then enclosed 0 [] rest else none
    return .createIndex table name (← Key.ofColumns columns.flatten)
  | _ => none

/-- The statement a text is. -/
def readDdl (text : JsString) : Option Ddl :=
  let ws := words [] text
  if ws.take 5 = [js "CREATE", js "TABLE", js "IF", js "NOT", js "EXISTS"] then
    readCreateTable (ws.drop 5)
  else if ws.take 2 = [js "ALTER", js "TABLE"] then readModifyColumn (ws.drop 2)
  else if ws.take 2 = [js "CREATE", js "INDEX"] then readCreateIndex (ws.drop 2)
  else none

end AgentService
