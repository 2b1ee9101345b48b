import AgentService.Lib.Decimal
import AgentService.Lib.Except

/-!
# Values and the JSON writer (`src/gateway/json.ts`, second half)

A decoded value as the writer tells them apart: bigints are integers of any size, numbers
are doubles (their 64 bits), a time is its text or an `UnencodableTime`. The text of a
double is Node's, one half of a `Doubles`; the other half, `Number` of a text, is what the
decoder reads with.
-/

namespace AgentService
open Lib

inductive Value where
  | null
  | bool (v : Bool)
  | int (v : Int)
  | float (bits : UInt64)
  | text (v : JsString)
  | unencodable (source : JsString)
  | list (items : List Value)
  | struct (members : List (JsString × Value))

/-- Node's conversions between a number and its text: `Number(text)` and `String(v)`. -/
structure Doubles where
  number : JsString → UInt64
  string : UInt64 → JsString

/-- `Number.isFinite`: not every exponent bit is set. -/
def isFiniteDouble (bits : UInt64) : Bool := bits &&& 0x7ff0000000000000 != 0x7ff0000000000000

/-- `-0` -/
def NEGATIVE_ZERO : UInt64 := 0x8000000000000000

/-- A pairing of doubles with texts that is Node's for 0, -0 and 1: the bits in decimal, those of 1
swapped with 1. -/
def plainDoubles : Doubles :=
  let swap (bits : UInt64) :=
    if bits = 1 then 0x3ff0000000000000 else if bits = 0x3ff0000000000000 then 1 else bits
  { number := fun text =>
      if text = js "-0" then NEGATIVE_ZERO
      else swap (UInt64.ofNat (readDecimal (latin1Encode text)))
    string := fun bits => latin1Decode (decimal (swap bits).toNat) }

/-- A `TypeError`. -/
structure TypeError where
  message : JsString
  deriving DecidableEq, Repr

def goFloat (doubles : Doubles) (v : UInt64) : Except TypeError JsString :=
  if isFiniteDouble v = false then .error ⟨js "json: unsupported value: " ++ doubles.string v⟩
  else .ok (if v = NEGATIVE_ZERO then js "-0" else doubles.string v)

/-- A lower-case hex digit. -/
def lowerHex (n : Nat) : UInt16 := UInt16.ofNat (if n < 10 then 0x30 + n else 0x57 + n)

/-- `\uXXXX` -/
def unicodeEscapeOf (u : UInt16) : JsString :=
  js "\\u" ++ [lowerHex (u.toNat / 4096), lowerHex (u.toNat / 256 % 16),
    lowerHex (u.toNat / 16 % 16), lowerHex (u.toNat % 16)]

/-- One code unit between the quotes that `JSON.stringify` writes, when it is not half of a pair. -/
def quoteUnit (u : UInt16) : JsString :=
  if u = 0x22 then js "\\\"" else if u = 0x5c then js "\\\\" else if u = 0x08 then js "\\b"
  else if u = 0x0c then js "\\f" else if u = 0x0a then js "\\n" else if u = 0x0d then js "\\r"
  else if u = 0x09 then js "\\t"
  else if u < 0x20 ∨ isHighSurrogate u = true ∨ isLowSurrogate u = true then unicodeEscapeOf u
  else [u]

/-- What `JSON.stringify` writes between the quotes. -/
def quoteUnits : JsString → JsString
  | [] => []
  | [u] => quoteUnit u
  | u :: v :: s =>
    if isHighSurrogate u && isLowSurrogate v then u :: v :: quoteUnits s
    else quoteUnit u ++ quoteUnits (v :: s)

/-- `JSON.stringify` of a string. -/
def quote (s : JsString) : JsString := js "\"" ++ quoteUnits s ++ js "\""

/-- `toString` of a bigint. -/
def bigintText (v : Int) : JsString :=
  (if v < 0 then js "-" else []) ++ latin1Decode (decimal v.natAbs)

mutual

def jsonPieces (doubles : Doubles) : Value → Except TypeError (List JsString)
  | .null => .ok [js "null"]
  | .int v => .ok [bigintText v]
  | .float v => return [← goFloat doubles v]
  | .bool v => .ok [if v then js "true" else js "false"]
  | .text v => .ok [quote v]
  | .unencodable _ => .error ⟨js "a time Go cannot encode: zone offset of a day or more"⟩
  | .list items => return [js "["] ++ (← itemPieces doubles true items) ++ [js "]"]
  | .struct members => return [js "\x7b"] ++ (← memberPieces doubles true members) ++ [js "\x7d"]

/-- The loop over an array's items; `first` says that none is written yet. -/
def itemPieces (doubles : Doubles) (first : Bool) : List Value → Except TypeError (List JsString)
  | [] => .ok []
  | v :: vs =>
    return (if first then [] else [js ","]) ++ (← jsonPieces doubles v) ++
      (← itemPieces doubles false vs)

/-- The loop over an object's entries. -/
def memberPieces (doubles : Doubles) (first : Bool) :
    List (JsString × Value) → Except TypeError (List JsString)
  | [] => .ok []
  | (k, v) :: ms =>
    return [(if first then [] else js ",") ++ quote k ++ js ":"] ++ (← jsonPieces doubles v) ++
      (← memberPieces doubles false ms)

end

def stringifyJson (doubles : Doubles) (v : Value) : Except TypeError JsString :=
  return (← jsonPieces doubles v).flatten

mutual

def hasUnencodable : Value → Bool
  | .unencodable _ => true
  | .list items => anyUnencodable items
  | .struct members => anyMemberUnencodable members
  | _ => false

def anyUnencodable : List Value → Bool
  | [] => false
  | v :: vs => hasUnencodable v || anyUnencodable vs

def anyMemberUnencodable : List (JsString × Value) → Bool
  | [] => false
  | (_, v) :: ms => hasUnencodable v || anyMemberUnencodable ms

end

end AgentService
