import AgentService.Http.Answers

/-!
# Decoding a request body (`decodeBody` of `src/http/body.ts`)

What `readBody` comes to is an argument: the bytes it kept, or nothing when the caller hung
up before the body was in.
-/

namespace AgentService
open Lib

/-- `BodyRead`: at most the limit's bytes, and whether the caller sent more. -/
structure BodyRead where
  bytes : Bytes
  exceeded : Bool
  deriving DecidableEq, Repr

def MAX_BODY_BYTES : Nat := 1048576

def TOO_LARGE : JsString := js "http: request body too large"

section
variable (unicode : Unicode) (doubles : Doubles) (schema : Schema)

/-- The sentence of a body the decoder refuses; one that is cut short by the cap is too large. -/
def bodyExplanation (exceeded : Bool) (message : JsString) : JsString :=
  if exceeded && message == js "unexpected EOF" then TOO_LARGE else message

/-- `decodeBody` -/
def decodeBody : (read : Option BodyRead) → Except Failure Value
  | none => .error .callerGone
  | some ⟨bytes, exceeded⟩ =>
    match decodeFirstValue unicode doubles schema bytes with
    | .ok v => .ok v
    | .error (.decodeError err) =>
      .error (.textAnswer 400 (js "invalid request body: " ++ bodyExplanation exceeded err.message))
    | .error .rangeError => .error .other

end

end AgentService
