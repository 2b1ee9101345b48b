import AgentService.Gateway.Decode
import AgentService.Gateway.Follow

/-!
# The gateway's errors (`src/gateway/errors.ts`)

From an answer of 400 or more to the error that carries the gateway's status, sentence and
pacing headers. What the error is written out as is with the other answers.
-/

namespace AgentService
open Lib

/-! ## `goTrimSpace` (`src/config.ts`) -/

/-- `isGoSpace`: Go's unicode.IsSpace. -/
def isGoSpace (code : UInt16) : Bool :=
  (0x09 ≤ code && code ≤ 0x0d) || code == 0x20 || code == 0x85 || code == 0xa0 || code == 0x1680 ||
    (0x2000 ≤ code && code ≤ 0x200a) || code == 0x2028 || code == 0x2029 || code == 0x202f ||
      code == 0x205f ||
    code == 0x3000

/-- A code point of two units is beyond every space. -/
def isSpacePoint (cp : JsString) : Bool :=
  match cp with
  | [u] => isGoSpace u
  | _ => false

def goTrimSpace (s : JsString) : JsString :=
  (((codePoints s).dropWhile isSpacePoint).rdropWhile isSpacePoint).flatten

/-! ## The sentence of an error body -/

/-- `FORWARDED_HEADERS` -/
def FORWARDED_HEADERS : List String :=
  ["Retry-After", "X-RateLimit-Limit", "X-RateLimit-Remaining", "X-RateLimit-Reset"]

def MAX_ERROR_BODY : Nat := 65536

def MAX_MESSAGE_LENGTH : Nat := 500

def NO_ANSWER : JsString := js "st-gateway did not answer"

def NO_MESSAGE : JsString := js "st-gateway returned an error with no message"

structure UpstreamError where
  statusCode : Nat
  message : JsString
  endpoint : JsString
  headers : List (String × JsString)
  raw : Option Bytes
  deriving DecidableEq

/-- `envelope` -/
def envelope : Schema := .struct [(js "error", .struct [(js "message", .text)])]

/-- The text member `message` of the struct member `error`. -/
def errorMessage (v : Value) : JsString :=
  match (getMember (js "error") v.members).bind fun e => getMember (js "message") e.members with
  | some (.text message) => message
  | _ => []

section
variable (unicode : Unicode) (doubles : Doubles)

/-- `envelopeMessage`: `none` when the body is no envelope. -/
def envelopeMessage (body : Bytes) : Except DecodeThrown (Option JsString) :=
  match decode unicode doubles envelope body with
  | .ok v => .ok (some (errorMessage v))
  | .error (.decodeError _) => .ok none
  | .error e => .error e

/-- The loop over an error body: a well-formed sequence is one character, any other byte is U+FFFD;
`skip` bytes still belong to the character before. -/
def runesFrom (skip : Nat) : Bytes → List (JsString × Bool)
  | [] => []
  | b :: bs =>
    match skip with
    | k + 1 => runesFrom k bs
    | 0 =>
      let len := validLength (b :: bs)
      (if len = 0 then ([0xfffd], false) else (utf8ToString ((b :: bs).take len), true)) ::
        runesFrom (max len 1 - 1) bs

/-- `upstreamMessageOf`: the sentence, and the body itself where it goes out
untouched and is no UTF-8. -/
def upstreamMessageOf (body : Bytes) : Except DecodeThrown (JsString × Option Bytes) := do
  let lifted ← envelopeMessage unicode doubles body
  match lifted.filter fun message => goTrimSpace message ≠ [] with
  | some message => return (message, none)
  | none =>
    let runes := runesFrom 0 body
    let text := (runes.map Prod.fst).flatten
    if goTrimSpace text = [] then return (NO_MESSAGE, none)
    else if MAX_MESSAGE_LENGTH < runes.length then
      return (((runes.take MAX_MESSAGE_LENGTH).map Prod.fst).flatten, none)
    else return (text, if runes.all Prod.snd then none else some body)

/-- `pacingHeaders`: those that are there and not empty. -/
def pacingHeaders (header : String → Option JsString) : List (String × JsString) :=
  FORWARDED_HEADERS.filterMap fun name =>
    ((header name).filter fun value => value ≠ []).map fun value => (name, value)

/-- The loop of `readCapped`: chunks as long as fewer than `limit` bytes are in. -/
def readChunks (limit size : Nat) : List Bytes → List Bytes
  | [] => []
  | chunk :: chunks => if size < limit then chunk :: readChunks limit (size + chunk.length) chunks
      else []

/-- `readCapped`: at most `limit` bytes; what came before a failure is kept. -/
def readCapped (body : BodyStream) (limit : Nat) : Bytes :=
  (readChunks limit 0 body.chunks).flatten.take limit

/-- `${method} ${endpoint}` -/
def Call.name (call : Call) : JsString := call.method ++ js " " ++ call.endpoint

/-- `gatewayDidNotAnswer` -/
def gatewayDidNotAnswer (call : Call) : UpstreamError := ⟨504, NO_ANSWER, call.name, [], none⟩

/-- `upstreamErrorFrom` -/
def upstreamErrorFrom (res : Response) (call : Call) : Except DecodeThrown UpstreamError := do
  let (message, raw) ← upstreamMessageOf unicode doubles (readCapped res.body MAX_ERROR_BODY)
  return ⟨res.status, message, call.name, pacingHeaders res.header, raw⟩

end

end AgentService
