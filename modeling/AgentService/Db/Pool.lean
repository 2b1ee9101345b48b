import AgentService.Db.Sql
import AgentService.Lib.Machine
import Mathlib.Logic.Function.Basic
import Mathlib.Tactic.Simps.Basic

/-!
# Operations on the pool (`MysqlSql` of `src/db/sql.ts`)

Any number of `execute` and `ping` calls on one pool, each of which stands at one of its awaits.
mysql2 and the clock are the environment: its actions say which promise settles next, with which
connection or error, and what the clock reads. An operation that is resumed runs up to its next
await in one step, and what it and the handler of `connection` do to connections goes to a log.
-/

namespace AgentService
open Lib

def CONN_MAX_LIFETIME_MS : Int := 3 * 60 * 1000

/-- What an operation asks of the connection it took. -/
inductive SqlRequest where
  | execute (statement : Statement)
  | ping
  deriving DecidableEq, Repr

/-- What becomes of that; `noRows` is an answer that is no array of rows. -/
inductive SqlAnswer where
  | rows (rows : List (List SqlValue))
  | noRows
  | failed (e : JsString)
  deriving DecidableEq, Repr

/-- What an operation settles with. -/
inductive SqlOutcome where
  | rows (rows : List (List SqlValue))
  | pinged
  | failed (e : JsString)
  deriving DecidableEq, Repr

/-- The end of `execute` and of `ping`, behind the `finally`. -/
def SqlRequest.outcome : SqlRequest → SqlAnswer → SqlOutcome
  | _, .failed e => .failed e
  | .ping, _ => .pinged
  | .execute _, .rows rows => .rows rows
  | .execute _, .noRows => .rows []

/-- What `getConnection` resolves with: a new object each time, around a connection of the pool. -/
structure PoolConnection (κ : Type) where
  id : Nat
  connection : κ
  deriving DecidableEq, Repr

/-- Where an operation stands: not called yet, at `getConnection`, with what `take` returned, at its
statement or ping, or done. -/
inductive SqlPhase (κ : Type) where
  | idle
  | waiting (request : SqlRequest)
  | taken (request : SqlRequest) (handle : PoolConnection κ)
  | asking (request : SqlRequest) (handle : PoolConnection κ)
  | settled (outcome : SqlOutcome)
  deriving DecidableEq, Repr

/-- What happens to connections and operations. The first three are the handler's: the time at which
a connection was announced, its time zone query, and its end where that failed. -/
inductive PoolEvent (ι κ : Type) where
  | opened (c : κ) (t : Int)
  | setsTimeZone (c : κ)
  | dropped (c : κ)
  | handed (i : ι) (handle : PoolConnection κ) (t : Int)
  | destroyed (i : ι) (handle : PoolConnection κ)
  | asked (i : ι) (handle : PoolConnection κ) (request : SqlRequest)
  | released (i : ι) (handle : PoolConnection κ)
  | settled (i : ι) (outcome : SqlOutcome)
  deriving DecidableEq, Repr

/-- The pool and its operations; `out` is what `getConnection` has handed out and not got back,
`made` how many objects it has made for that. -/
structure PoolState (ι κ : Type) where
  phase : ι → SqlPhase κ
  born : κ → Option Int
  clock : Int
  made : Nat
  out : List (PoolConnection κ)
  log : List (PoolEvent ι κ)

/-- The environment's next move. -/
inductive PoolAction (ι κ : Type) where
  | connection (c : κ) (now : Int)
  | timeZone (c : κ) (failed : Bool)
  | call (i : ι) (request : SqlRequest)
  | refuse (i : ι) (e : JsString)
  | hand (i : ι) (c : κ) (bornNow now : Int)
  | resume (i : ι)
  | answer (i : ι) (a : SqlAnswer)

section
variable {ι κ : Type} [DecidableEq ι] [DecidableEq κ]

/-- An operation goes on to its next await, and has done this on the way. -/
@[simps] def PoolState.act (s : PoolState ι κ) (i : ι) (phase : SqlPhase κ)
    (events : List (PoolEvent ι κ)) : PoolState ι κ :=
  { s with phase := Function.update s.phase i phase, log := s.log ++ events }

/-- The constructor's handler of `connection`. -/
@[simps] def PoolState.onConnection (s : PoolState ι κ) (c : κ) (now : Int) : PoolState ι κ :=
  { s with
    born := Function.update s.born c (some now), clock := now,
    log := s.log ++ [.opened c now, .setsTimeZone c] }

/-- One turn of the loop of `take`, from what `getConnection` resolved with. The first reading of
the clock is that of `?? this.now()`. -/
def PoolState.takeTurn (s : PoolState ι κ) (i : ι) (request : SqlRequest) (c : κ)
    (bornNow now : Int) : PoolState ι κ :=
  let handle : PoolConnection κ := ⟨s.made, c⟩
  let s := { s with clock := now, made := s.made + 1 }
  let born := (s.born c).getD bornNow
  if now - born ≤ CONN_MAX_LIFETIME_MS then
    { s.act i (.taken request handle) [.handed i handle now] with out := handle :: s.out }
  else s.act i (.waiting request) [.handed i handle now, .destroyed i handle]

/-- The `finally` of an operation, and its end. -/
@[simps] def PoolState.finish (s : PoolState ι κ) (i : ι) (handle : PoolConnection κ)
    (outcome : SqlOutcome) : PoolState ι κ :=
  { s.act i (.settled outcome) [.released i handle, .settled i outcome] with
    out := s.out.filter fun h => h ≠ handle }

/-- `none` where the environment cannot move so: a promise settles only while it is awaited,
a connection is announced once and before it is handed out, no one else holds it then, and
the clock does not go back. -/
def PoolState.step (s : PoolState ι κ) : PoolAction ι κ → Option (PoolState ι κ)
  | .connection c now => if s.born c = none ∧ s.clock ≤ now then some (s.onConnection c now)
      else none
  | .timeZone c failed =>
    if s.born c = none then none
    else some (if failed then { s with log := s.log ++ [.dropped c] } else s)
  | .call i request =>
    match s.phase i with
    | .idle => some (s.act i (.waiting request) [])
    | _ => none
  | .refuse i e =>
    match s.phase i with
    | .waiting _ => some (s.act i (.settled (.failed e)) [.settled i (.failed e)])
    | _ => none
  | .hand i c bornNow now =>
    match s.phase i with
    | .waiting request =>
      if s.born c ≠ none ∧ (s.out.map PoolConnection.connection).contains c = false ∧
        s.clock ≤ bornNow ∧
          bornNow ≤ now then
        some (s.takeTurn i request c bornNow now)
      else none
    | _ => none
  | .resume i =>
    match s.phase i with
    | .taken request handle => some (s.act i (.asking request handle) [.asked i handle request])
    | _ => none
  | .answer i a =>
    match s.phase i with
    | .asking request handle => some (s.finish i handle (request.outcome a))
    | _ => none

variable (ι κ) in
/-- A new `MysqlSql` at some time, with any number of operations on it. -/
def mysqlSql (clock : Int) : Machine (PoolState ι κ) (PoolAction ι κ) where
  start := ⟨fun _ => .idle, fun _ => none, clock, 0, [], []⟩
  step := PoolState.step

end

end AgentService
