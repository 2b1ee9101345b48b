import AgentService.Gateway.Location
import AgentService.Gateway.Value
import Mathlib.Data.List.DropRight

/-!
# RFC 3339 times (`normaliseTime` of `src/gateway/decode.ts`)

`TIME_RE` as a function on the text: each of its groups is a run of digits whose end is
known from the next character, so matching never goes back. Times are normalised as text;
nothing here looks at a clock.
-/

namespace AgentService
open Lib

structure DecodeError where
  message : JsString
  deriving DecidableEq, Repr

/-- `(\d{n})` at the front. -/
def digitGroup (n : Nat) (s : JsString) : Option (JsString × JsString) :=
  if (s.take n).length = n ∧ (s.take n).all isDigitUnit = true then some (s.take n, s.drop n)
  else none

/-- A run of digits at the front, `lo` to `hi` of them. -/
def digitRun (lo : Nat) (hi : Option Nat) (s : JsString) : Option (JsString × JsString) :=
  let run := s.takeWhile isDigitUnit
  if lo ≤ run.length ∧ hi.all (run.length ≤ ·) = true then some (run, s.dropWhile isDigitUnit)
  else none

/-- One character at the front. -/
def expect (c : UInt16) : JsString → Option JsString
  | [] => none
  | d :: s => if d = c then some s else none

/-- The groups of `TIME_RE`: the fraction is empty where there is none, the zone `none` for `Z`. -/
structure TimeGroups where
  year : JsString
  month : JsString
  day : JsString
  hour : JsString
  min : JsString
  sec : JsString
  fraction : JsString
  zone : Option (UInt16 × JsString × JsString)
  deriving DecidableEq, Repr

/-- `(?:[.,](\d+))?` -/
def fractionGroup : JsString → Option (JsString × JsString)
  | c :: s => if c = 0x2e ∨ c = 0x2c then digitRun 1 none s else some ([], c :: s)
  | [] => some ([], [])

/-- `(?:Z|([+-])(\d{2}):(\d{2}))$` -/
def zoneGroup : JsString → Option (Option (UInt16 × JsString × JsString))
  | [] => none
  | c :: s =>
    if c = 0x5a then if s = [] then some none else none
    else if c = 0x2b ∨ c = 0x2d then do
      let (hour, s) ← digitGroup 2 s
      let s ← expect 0x3a s
      let (min, s) ← digitGroup 2 s
      if s = [] then some (some (c, hour, min)) else none
    else none

/-- `TIME_RE.exec` -/
def matchTime (text : JsString) : Option TimeGroups := do
  let (year, s) ← digitGroup 4 text
  let s ← expect 0x2d s
  let (month, s) ← digitGroup 2 s
  let s ← expect 0x2d s
  let (day, s) ← digitGroup 2 s
  let s ← expect 0x54 s
  let (hour, s) ← digitRun 1 (some 2) s
  let s ← expect 0x3a s
  let (min, s) ← digitGroup 2 s
  let s ← expect 0x3a s
  let (sec, s) ← digitGroup 2 s
  let (fraction, s) ← fractionGroup s
  let zone ← zoneGroup s
  return ⟨year, month, day, hour, min, sec, fraction, zone⟩

/-- `Number` of a run of digits. -/
def groupNumber (s : JsString) : Nat := readDecimal (latin1Encode s)

def isLeap (y : Nat) : Bool := y % 4 == 0 && (y % 100 != 0 || y % 400 == 0)

def daysIn (month year : Nat) : Nat :=
  if month = 2 then if isLeap year then 29 else 28 else if [4, 6, 9, 11].contains month then 30
  else 31

/-- `String(n).padStart(2, "0")` -/
def two (n : Nat) : JsString := (latin1Decode (decimal n)).leftpad 2 0x30

namespace TimeGroups

def offHour (m : TimeGroups) : Nat := m.zone.elim 0 fun z => groupNumber z.2.1

def offMin (m : TimeGroups) : Nat := m.zone.elim 0 fun z => groupNumber z.2.2

/-- The zone offset in seconds, without its sign. -/
def offset (m : TimeGroups) : Nat := (m.offHour * 60 + m.offMin) * 60

/-- The fields are in range, leap seconds apart. -/
def inRange (m : TimeGroups) : Bool :=
  1 ≤ groupNumber m.month && groupNumber m.month ≤ 12 && 1 ≤ groupNumber m.day &&
    groupNumber m.day ≤ daysIn (groupNumber m.month) (groupNumber m.year) &&
      groupNumber m.hour ≤ 23 &&
    groupNumber m.min ≤ 59 && groupNumber m.sec ≤ 59 && m.offHour ≤ 24 && m.offMin ≤ 60

/-- The first nine digits of the fraction without the zeros at their end. -/
def shortFraction (m : TimeGroups) : JsString := (m.fraction.take 9).rdropWhile (· == 0x30)

/-- The zone as it is written. -/
def zoneText (m : TimeGroups) : JsString :=
  match m.zone with
  | none => js "Z"
  | some (sign, _) =>
    if m.offset = 0 then js "Z" else sign :: two (m.offset / 3600) ++ js ":" ++
      two (m.offset % 3600 / 60)

/-- The text a time is written as. -/
def text (m : TimeGroups) : JsString :=
  m.year ++ js "-" ++ m.month ++ js "-" ++ m.day ++ js "T" ++ two (groupNumber m.hour) ++
    js ":" ++ m.min ++ js ":" ++ m.sec ++ (if m.shortFraction = [] then []
      else js "." ++ m.shortFraction) ++ m.zoneText

end TimeGroups

/-- `normaliseTime`: the text as Go writes it, or an `UnencodableTime`. -/
def normaliseTime (text : JsString) : Except DecodeError Value :=
  match matchTime text with
  | none => .error ⟨js "parsing time " ++ quote text ++ js " as RFC 3339: not an RFC 3339 time"⟩
  | some m =>
    if m.inRange = false then .error ⟨js "parsing time " ++ quote text ++ js ": field out of range"⟩
    else if 86400 ≤ m.offset then .ok (.unencodable text)
    else .ok (.text m.text)

end AgentService
