import AgentService.Gateway.Json
import AgentService.Gateway.Time

/-!
# Typed decoding (`src/gateway/decode.ts`)

A schema says which value a JSON tree is bound to. `bind` follows the tree: what an earlier
repeat of a member has left is its third argument, `none` for JavaScript's `undefined`. Case
mapping is Node's, the `Unicode` argument; a double's text is the `Doubles`'.
-/

namespace AgentService
open Lib

inductive Schema where
  | text
  | int64
  | float64
  | bool
  | time
  | list (of : Schema)
  | struct (fields : List (JsString × Schema))

/-- Node's case mapping. -/
structure Unicode where
  toUpperCase : JsString → JsString
  toLowerCase : JsString → JsString

/-- Case mapping of ASCII texts. -/
def plainUnicode : Unicode where
  toUpperCase s := s.map fun u => if 0x61 ≤ u ∧ u ≤ 0x7a then u - 0x20 else u
  toLowerCase s := s.map fun u => if 0x41 ≤ u ∧ u ≤ 0x5a then u + 0x20 else u

/-! ## Member names -/

/-- The code points of a string, each as the string it is. -/
def codePoints : JsString → List JsString
  | [] => []
  | [u] => [[u]]
  | u :: v :: s =>
    if isHighSurrogate u && isLowSurrogate v then [u, v] :: codePoints s
    else [u] :: codePoints (v :: s)

/-- `single`: the string, when it is one code point. -/
def single (s : JsString) : Option JsString :=
  match s with
  | [_] => some s
  | [u, v] => if isHighSurrogate u && isLowSurrogate v then some s else none
  | _ => none

/-- `foldRune`; U+0131 stays as it is. -/
def foldRune (unicode : Unicode) (ch : JsString) : JsString :=
  if ch = [0x131] then ch
  else
    let upper := (single (unicode.toUpperCase ch)).getD ch
    (single (unicode.toLowerCase upper)).getD upper

def foldName (unicode : Unicode) (name : JsString) : JsString :=
  (codePoints name).flatMap (foldRune unicode)

/-- `schema.lookup`: the name itself, or the last one that folds to the same. -/
def lookupName (unicode : Unicode) (fields : List (JsString × Schema)) (key : JsString) :
    Option JsString :=
  let names := fields.map Prod.fst
  if key ∈ names then some key else names.reverse.find? fun n =>
    foldName unicode n == foldName unicode key

/-- `into[name]` -/
def getMember {α : Type} (name : JsString) : List (JsString × α) → Option α
  | [] => none
  | (k, v) :: ms => if k = name then some v else getMember name ms

/-- `into[name] = v` -/
def setMember (name : JsString) (v : Value) : List (JsString × Value) → List (JsString × Value)
  | [] => [(name, v)]
  | (k, w) :: ms => if k = name then (k, v) :: ms else (k, w) :: setMember name v ms

/-! ## Scalars -/

def ZERO_TIME : JsString := js "0001-01-01T00:00:00Z"

def INT64_MIN : Int := -9223372036854775808

def INT64_MAX : Int := 9223372036854775807

/-- `/^-?\d+$/`, and the integer such a text writes. -/
def integerText (raw : JsString) : Option Int :=
  match raw with
  | 0x2d :: digits =>
    if digits ≠ [] ∧ allDigits digits = true then some (-(groupNumber digits : Int)) else none
  | digits =>
    if digits ≠ [] ∧ allDigits digits = true then some (groupNumber digits : Int) else none

def parseInt64 (raw : JsString) : Except DecodeError Int :=
  match integerText raw with
  | none => .error ⟨js "cannot unmarshal number " ++ raw ++ js " into an int64"⟩
  | some v =>
    if v < INT64_MIN ∨ INT64_MAX < v then
      .error ⟨js "cannot unmarshal number " ++ raw ++ js " into an int64: out of range"⟩
    else .ok v

def parseFloat64 (doubles : Doubles) (raw : JsString) : Except DecodeError UInt64 :=
  if isFiniteDouble (doubles.number raw) then .ok (doubles.number raw)
  else .error ⟨js "cannot unmarshal number " ++ raw ++ js " into a float64"⟩

/-! ## Binding -/

mutual

def zero : Schema → Value
  | .text => .text []
  | .int64 => .int 0
  | .float64 => .float 0
  | .bool => .bool false
  | .time => .text ZERO_TIME
  | .list _ => .null
  | .struct fields => .struct (zeroFields fields)

def zeroFields : List (JsString × Schema) → List (JsString × Value)
  | [] => []
  | (name, field) :: fields => (name, zero field) :: zeroFields fields

end

/-- `NODE_NAMES` -/
def nodeName : JsonNode → String
  | .null => "null"
  | .bool _ => "bool"
  | .num _ => "number"
  | .str _ _ => "string"
  | .arr _ => "array"
  | .obj _ => "object"

def mismatch {α : Type} (node : JsonNode) (want : String) : Except DecodeError α :=
  .error ⟨js "cannot unmarshal " ++ js (nodeName node) ++ js " into a value of type " ++ js want⟩

/-- `existing ?? zero(schema)` -/
def orZero (existing : Option Value) (schema : Schema) : Value :=
  match existing with
  | none => zero schema
  | some .null => zero schema
  | some v => v

/-- `Array.isArray(existing) ? existing : []` -/
def itemsOf : Option Value → List Value
  | some (.list items) => items
  | _ => []

/-- The members of an object. -/
def Value.members : Value → List (JsString × Value)
  | .struct members => members
  | _ => []

/-- A property of an object, and what it is as a string, a bigint or a boolean. -/
def Value.field (name : String) (v : Value) : Value := (getMember (js name) v.members).getD .null

def Value.asText : Value → JsString
  | .text v => v
  | _ => []

def Value.asInt : Value → Int
  | .int v => v
  | _ => 0

def Value.asBool : Value → Bool
  | .bool v => v
  | _ => false

mutual

def bind (unicode : Unicode) (doubles : Doubles) :
    JsonNode → Schema → (existing : Option Value) → Except DecodeError Value
  | .null, .list _, _ => .ok .null
  | .null, schema, existing => .ok (orZero existing schema)
  | .str v _, .text, _ => .ok (.text v)
  | node, .text, _ => mismatch node "string"
  | .bool v, .bool, _ => .ok (.bool v)
  | node, .bool, _ => mismatch node "bool"
  | .num raw, .int64, _ => (parseInt64 raw).map .int
  | node, .int64, _ => mismatch node "int64"
  | .num raw, .float64, _ => (parseFloat64 doubles raw).map .float
  | node, .float64, _ => mismatch node "float64"
  | .str v plain, .time, _ =>
    if plain then normaliseTime v
    else .error ⟨js "parsing time: an escape or a non-ASCII character is not RFC 3339"⟩
  | node, .time, _ => mismatch node "time.Time"
  | .arr items, .list of, existing =>
    (bindItems unicode doubles items of (itemsOf existing)).map .list
  | node, .list _, _ => mismatch node "array"
  | .obj members, .struct fields, existing =>
    (bindMembers unicode doubles members fields (orZero existing (.struct fields)).members).map
      .struct
  | node, .struct _, _ => mismatch node "object"

/-- The items of an array, each over what stands in its place in `before`. -/
def bindItems (unicode : Unicode) (doubles : Doubles) :
    List JsonNode → Schema → (before : List Value) → Except DecodeError (List Value)
  | [], _, _ => .ok []
  | item :: items, of, before => do
    let v ← bind unicode doubles item of before.head?
    return v :: (← bindItems unicode doubles items of before.tail)

/-- The loop over an object's members; unknown names are dropped. -/
def bindMembers (unicode : Unicode) (doubles : Doubles) :
    List (JsString × JsonNode) → List (JsString × Schema) → (into : List (JsString × Value)) →
      Except DecodeError (List (JsString × Value))
  | [], _, into => .ok into
  | (key, node) :: ms, fields, into =>
    match (lookupName unicode fields key).bind fun name =>
      (getMember name fields).map (name, ·) with
    | none => bindMembers unicode doubles ms fields into
    | some (name, field) => do
      let v ← bind unicode doubles node field (getMember name into)
      bindMembers unicode doubles ms fields (setMember name v into)

end

/-- What decoding can throw. -/
inductive DecodeThrown where
  | decodeError (e : DecodeError)
  | rangeError
  deriving DecidableEq, Repr

/-- An exception of the reader, with its syntax errors read as `explain` says. -/
def Thrown.decodeThrown (explain : JsonSyntaxError → JsString) : Thrown → DecodeThrown
  | .syntaxError e => .decodeError ⟨explain e⟩
  | .rangeError => .rangeError

/-- `decode`: an empty body is the zero value. -/
def decode (unicode : Unicode) (doubles : Doubles) (schema : Schema) (body : Bytes) :
    Except DecodeThrown Value :=
  if body = [] then .ok (zero schema)
  else do
    let node ← (parseJson body).mapError (Thrown.decodeThrown (·.message))
    (bind unicode doubles node schema none).mapError .decodeError

/-- `decodeFirstValue`: the first JSON value of a request body. -/
def decodeFirstValue (unicode : Unicode) (doubles : Doubles) (schema : Schema) (body : Bytes) :
    Except DecodeThrown Value := do
  let explain (e : JsonSyntaxError) : JsString :=
    if e.eof then if body.all isWs then js "EOF" else js "unexpected EOF" else e.message
  let node ← (parseFirstJson body).mapError (Thrown.decodeThrown explain)
  (bind unicode doubles node schema none).mapError .decodeError

end AgentService
