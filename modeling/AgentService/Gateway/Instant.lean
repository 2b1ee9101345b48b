import AgentService.Gateway.Time
import AgentService.Lib.Calendar

/-!
# The instant a time names (`timeInstant` of `src/gateway/decode.ts`)

`Date`'s UTC setters are the proleptic Gregorian calendar; a month or a day out of range
counts on from the date's start, as they have it.
-/

namespace AgentService
open Lib

/-- An instant: whole seconds since the Unix epoch, and the nanoseconds. -/
structure Instant where
  seconds : Int
  nanos : Nat
  deriving DecidableEq, Repr

/-- The day `setUTCFullYear` sets; months count from zero. -/
def utcDay (year month day : Int) : Int :=
  (CivilDate.mk ((year * 12 + month) / 12) ((year * 12 + month) % 12).toNat.succ 1).toDay +
    (day - 1)

namespace TimeGroups

/-- The zone offset in seconds. -/
def signedOffset (m : TimeGroups) : Int :=
  m.zone.elim 0 fun z => (groupNumber z.2.1 * 60 + groupNumber z.2.2) * 60 * if z.1 = 0x2b then 1
    else -1

/-- Days and clock, as seconds since the epoch. -/
def wallSeconds (m : TimeGroups) : Int :=
  utcDay (groupNumber m.year) (groupNumber m.month - 1) (groupNumber m.day) * 86400 +
    (groupNumber m.hour * 3600 + groupNumber m.min * 60 + groupNumber m.sec)

/-- `slice(0, 9).padEnd(9, "0")` of the fraction, as a number. -/
def nanos (m : TimeGroups) : Nat := groupNumber ((m.fraction.take 9).rightpad 9 0x30)

end TimeGroups

def timeInstant (text : JsString) : Except DecodeError Instant :=
  match matchTime text with
  | none => .error ⟨js "parsing time " ++ quote text ++ js " as RFC 3339: not an RFC 3339 time"⟩
  | some m => .ok ⟨m.wallSeconds - m.signedOffset, m.nanos⟩

/-- The instant of a text that matches: its clock less its offset. -/
theorem timeInstant_match {text : JsString} {m : TimeGroups} (h : matchTime text = some m) :
    timeInstant text = .ok ⟨m.wallSeconds - m.signedOffset, m.nanos⟩ := by
  rw [timeInstant, h]

end AgentService
