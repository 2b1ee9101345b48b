import AgentService.Gateway.Errors
import AgentService.Http.MuxCompat

/-!
# Writing answers (`src/http/json.ts`, `writeUpstreamError`, `onError` of `src/server.ts`)

What a handler returns or throws becomes an `Answer` here. A `Failure` is everything that can
be thrown on the way: the gateway's errors, a `TextAnswer`, a caller who has gone, and
anything else, of which only the fact is kept.
-/

namespace AgentService
open Lib

inductive Failure where
  | upstream (e : UpstreamError)
  /-- `UnreadableAnswer`, by its detail. -/
  | unreadable (detail : JsString)
  | callerGone
  | textAnswer (status : Nat) (message : JsString)
  | other

/-- What a text answer is written from: a string, or bytes that go out as they are. -/
inductive TextBody where
  | string (message : JsString)
  | buffer (bytes : Bytes)

/-- `sendText`, after the headers that are set already. -/
def sendText (headers : List (String × JsString)) (status : Nat) (message : TextBody) : Answer :=
  ⟨status, headers ++ [("Content-Type", js "text/plain; charset=utf-8"),
    ("X-Content-Type-Options", js "nosniff")], match message with
    | .string message => stringToUtf8 (message ++ js "\n")
    | .buffer bytes => bytes ++ latin1Encode (js "\n")⟩

/-- `sendJson`, all pieces together: a value Go could not encode is an empty 200. -/
def sendJson (doubles : Doubles) (v : Value) : Except TypeError Answer :=
  let headers := [("Content-Type", js "application/json")]
  if hasUnencodable v then .ok ⟨200, headers, []⟩
  else do
    let text ← stringifyJson doubles v
    return ⟨200, headers, stringToUtf8 (text ++ js "\n")⟩

/-- The message of an `UnreadableAnswer`. -/
def unreadableMessage (detail : JsString) : JsString :=
  js "st-gateway answered with something unreadable: " ++ detail

/-- `writeUpstreamError` of an `UpstreamError`. -/
def writeUpstream (e : UpstreamError) : Answer :=
  let status := if e.statusCode < 400 ∨ 599 < e.statusCode then 502 else e.statusCode
  sendText e.headers status (match e.raw with
    | some bytes => .buffer bytes
    | none => .string e.message)

/-- What the error handler does. -/
inductive Handled where
  /-- `next(err)` -/
  | passedOn
  | nothing
  | answered (res : Answer)

/-- `onError`; the log lines are left out. -/
def onError (headersSent : Bool) (err : Failure) : Handled :=
  if headersSent then .passedOn
  else
    match err with
    | .callerGone => .nothing
    | .textAnswer status message => .answered (sendText [] status (.string message))
    | .upstream e => .answered (writeUpstream e)
    | .unreadable detail => .answered (sendText [] 502 (.string (unreadableMessage detail)))
    | .other => .answered (sendText [] 500 (.string (js "Internal Server Error")))

/-- A handler's result as the app answers it: a value is written, a failure is handled. The writer
throws for a number that is not finite only, which no decoder returns. -/
def respond (doubles : Doubles) : Except Failure Value → Handled
  | .error err => onError false err
  | .ok v =>
    match sendJson doubles v with
    | .ok res => .answered res
    | .error _ => onError false .other

end AgentService
