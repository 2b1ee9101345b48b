import AgentService.Gateway.Calls
import AgentService.Gateway.Schemas
import AgentService.Http.Answers

/-!
# The gateway client (`request`, `send` and `follow` of `src/gateway/client.ts`)

The redirect loop is `hopRun`; here is what becomes of its end. The deadline of `send` and a
caller who hangs up reach the client as a fetch that rejects or a body that breaks off, so
both are part of the answers.
-/

namespace AgentService
open Lib

/-- What Node and the environment provide: URLs, case mapping and the text of doubles. -/
structure Node extends Web, Unicode, Doubles

/-- Node for plain texts. -/
def plainNode : Node := { plainWeb, plainUnicode, plainDoubles with }

section
variable (node : Node)

/-- `noAnswer`: not hearing back is the gateway's fault, unless the caller left first. -/
def noAnswer (call : Call) (callerGone : Bool) : Failure :=
  if callerGone then .callerGone else .upstream (gatewayDidNotAnswer call)

/-- An exception of the decoder that is not handled where it arises. -/
def failureOf : DecodeThrown → Failure
  | _ => .other

/-- What `follow` makes of the answer the loop stops at. -/
def finish (call : Call) : HopEnd → Except Failure Bytes
  | .noAnswer callerGone => .error (noAnswer call callerGone)
  | .answered res callerGone =>
    if 400 ≤ res.status then
      match upstreamErrorFrom node.toUnicode node.toDoubles res call with
      | .ok e => .error (.upstream e)
      | .error e => .error (failureOf e)
    else if res.body.ended then .ok res.body.chunks.flatten
    else .error (noAnswer call callerGone)

/-- `follow` -/
def follow (base : JsString) (call : Call) (answers : Nat → Fetched) : Except Failure Bytes :=
  match firstTarget node.toWeb base call with
  | none =>
    .error (.upstream ⟨502, js "st-gateway address is not a usable URL", call.name, [], none⟩)
  | some first => finish node call (hopRun node.toWeb first call answers).2

/-- The decoding at the end of `request`. -/
def decodeAnswer (schema : Schema) (body : Bytes) : Except Failure Value :=
  match decode node.toUnicode node.toDoubles schema body with
  | .ok v => .ok v
  | .error (.decodeError e) => .error (.unreadable e.message)
  | .error e => .error (failureOf e)

/-- `request`: the answer's body, decoded. -/
def request (base : JsString) (call : Call) (schema : Schema) (answers : Nat → Fetched) :
    Except Failure Value := do
  decodeAnswer node schema (← follow node base call answers)

/-- `.data` of an answer. -/
def dataOf (v : Value) : Value := (getMember (js "data") v.members).getD .null

/-- One gateway call of a handler and what it answers: the answer's `data`, or the failure. -/
def relay (base : JsString) (call : Call) (schema : Schema) (answers : Nat → Fetched) : Handled :=
  respond node.toDoubles ((request node base call schema answers).map dataOf)

end

end AgentService
