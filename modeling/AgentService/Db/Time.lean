import AgentService.Gateway.Decode
import AgentService.Gateway.Instant

/-!
# Times on their way into and out of MySQL (`src/db/time.ts`)

A `Date` is its milliseconds since the epoch. What is thrown here is an `Error`, of which
only the message is ever looked at.
-/

namespace AgentService
open Lib

/-- Seconds from the epoch to 0001-01-01T00:00:00Z, Go's zero time. -/
def ZERO_SECONDS : Int := -62135596800

def instantOfDate (date : Int) : Instant :=
  ⟨date / 1000, ((date - date / 1000 * 1000) * 1000000).toNat⟩

/-- `instantOfTime`: of a time's text, or of the source of an `UnencodableTime`. -/
def instantOfTime (value : Value) : Except JsString Instant :=
  let text := match value with
    | .unencodable source => source
    | value => value.asText
  (timeInstant text).mapError (·.message)

def isZeroTime (t : Instant) : Bool := t.seconds == ZERO_SECONDS && t.nanos == 0

def pad (n width : Nat) : JsString := (latin1Decode (decimal n)).leftpad width 0x30

namespace Instant

/-- `getUTCFullYear` and its like. -/
def date (t : Instant) : CivilDate := civilOfDay (t.seconds / 86400)

/-- The seconds since midnight. -/
def clock (t : Instant) : Nat := (t.seconds % 86400).toNat

end Instant

def dateText (d : CivilDate) : JsString :=
  pad d.year.toNat 4 ++ js "-" ++ pad d.month 2 ++ js "-" ++ pad d.day 2

def clockText (clock : Nat) : JsString :=
  pad (clock / 3600) 2 ++ js ":" ++ pad (clock / 60 % 60) 2 ++ js ":" ++ pad (clock % 60) 2

/-- `fields`: the UTC date and clock of an instant. -/
def fields (t : Instant) : Except JsString (JsString × JsString) :=
  let year := t.date.year
  if year < 1 ∨ 9999 < year then
    .error (js "time.Time year must be in range [1,9999], got " ++ bigintText year)
  else .ok (dateText t.date, clockText t.clock)

/-- `toSqlTime`: the parameter text for a TIMESTAMP column. -/
def toSqlTime (t : Instant) : Except JsString JsString := do
  let (date, clock) ← fields t
  let micro := t.nanos / 1000
  return date ++ js " " ++ clock ++ if 0 < micro then js "." ++ pad micro 6 else []

/-- `toRfc3339`: `Z`, and the shortest exact fraction. -/
def toRfc3339 (t : Instant) : Except JsString JsString := do
  let (date, clock) ← fields t
  let fraction := (pad t.nanos 9).rdropWhile (· == 0x30)
  return date ++ js "T" ++ clock ++ (if fraction = [] then [] else js "." ++ fraction) ++ js "Z"

/-- `(?:\.0+)?$` -/
def isZeroFraction : JsString → Bool
  | [] => true
  | c :: s => c == 0x2e && !s.isEmpty && s.all (· == 0x30)

/-- The two groups of the pattern in `fromSqlTime`. -/
def matchSqlTime (text : JsString) : Option (JsString × JsString) := do
  let (year, s) ← digitGroup 4 text
  let s ← expect 0x2d s
  let (month, s) ← digitGroup 2 s
  let s ← expect 0x2d s
  let (day, s) ← digitGroup 2 s
  let s ← expect 0x20 s
  let (hour, s) ← digitGroup 2 s
  let s ← expect 0x3a s
  let (min, s) ← digitGroup 2 s
  let s ← expect 0x3a s
  let (sec, s) ← digitGroup 2 s
  if isZeroFraction s then
    some (year ++ js "-" ++ month ++ js "-" ++ day, hour ++ js ":" ++ min ++ js ":" ++ sec)
  else none

/-- `fromSqlTime`: a TIMESTAMP as it comes out of MySQL, in RFC 3339. -/
def fromSqlTime (text : JsString) : Except JsString JsString :=
  match matchSqlTime text with
  | none => .error (js "unexpected TIMESTAMP value " ++ quote text)
  | some (date, clock) => .ok (date ++ js "T" ++ clock ++ js "Z")

end AgentService
