import AgentService.Lib.Effect
import AgentService.Lib.JsString

/-!
# Statements and what a request leaves behind (`src/db/sql.ts`, as an interface)

A `Database` is what `Sql.execute` comes to: rows, or an error of which only the text is ever
looked at. The statements a request has executed and the lines it has logged are its trace.
-/

namespace AgentService
open Lib

inductive SqlValue where
  | null
  | text (v : JsString)
  | number (v : Int)
  | buffer (v : Bytes)
  deriving DecidableEq, Repr

structure Statement where
  sql : String
  params : List SqlValue
  deriving DecidableEq, Repr

/-- What a statement resolves or rejects with, given those executed before it. -/
abbrev Database := List Statement → Statement → Except JsString (List (List SqlValue))

structure Trace where
  statements : List Statement
  log : List JsString
  deriving DecidableEq, Repr

/-- The statement is executed, whatever comes of it. -/
def execute (db : Database) (statement : Statement) :
    Effect Trace JsString (List (List SqlValue)) := fun s =>
  (db s.statements statement, { s with statements := s.statements ++ [statement] })

/-- One line of the error log. -/
def logLine {ε : Type} (line : JsString) : Effect Trace ε Unit :=
  Effect.change fun s => { s with log := s.log ++ [line] }

end AgentService
