import AgentService.Lib.Machine
import Mathlib.Tactic.Common

/-!
# A body that is left unread (`closeWhenBodyUnread` of `src/server.ts`)

One request on its connection. Its answer is out at some time, with the body in or not; from then on
the socket's bytes are watched by a poll, until the body is in, the socket is gone, or an allowance
or a wait is used up. The environment is the caller and the clock; `late` bounds how long a timer
that is due has to wait for its turn.
-/

namespace AgentService
open Lib

def UNREAD_BODY_ALLOWANCE : Nat := 256 * 1024

def UNREAD_BODY_WAIT_MS : Nat := 1000

def CLOSE_WAIT_MS : Nat := 500

/-- The interval of the poll. -/
def POLL_MS : Nat := 5

/-- Where the answer's handler stands: the answer is not out, it polls since `t0` and
`start`, with the next poll due, it has sent the FIN and waits to destroy the socket,
or it has nothing left to do. -/
inductive UnreadPhase where
  | answering
  | polling (start t0 due : Nat)
  | ending (endedAt : Nat)
  | left
  deriving DecidableEq, Repr

/-- `socket.end()` at a poll, and `socket.destroy()` of the timer. -/
inductive UnreadEvent where
  | ended (start t0 bytesRead now : Nat)
  | destroyed (now : Nat)
  deriving DecidableEq, Repr

structure UnreadBody where
  clock : Nat
  bytesRead : Nat
  /-- `req.complete` -/
  complete : Bool
  /-- `socket.destroyed` -/
  destroyed : Bool
  phase : UnreadPhase
  log : List UnreadEvent
  deriving DecidableEq, Repr

/-- What happens next. -/
inductive UnreadAction where
  | tick (ms : Nat)
  /-- The socket reads bytes; `last` says that the request is parsed with them. -/
  | data (count : Nat) (last : Bool)
  /-- The socket is gone. -/
  | close
  /-- The answer is out: the response's `finish`. -/
  | finish
  /-- The poll's interval. -/
  | poll
  /-- The timer that destroys the socket. -/
  | timeout

namespace UnreadBody
variable (late : Nat)

/-- The time no timer of the phase lets pass. -/
def deadline : UnreadPhase → Option Nat
  | .polling _ _ due => some (due + late)
  | .ending endedAt => some (endedAt + CLOSE_WAIT_MS + late)
  | _ => none

def step (s : UnreadBody) : UnreadAction → Option UnreadBody
  | .tick ms =>
    if (deadline late s.phase).all (s.clock + ms ≤ ·) then some { s with clock := s.clock + ms }
    else none
  | .data count last =>
    if s.destroyed then none else
      some { s with bytesRead := s.bytesRead + count, complete := s.complete || last }
  | .close => some { s with destroyed := true }
  | .finish =>
    match s.phase with
    | .answering =>
      if s.complete then some { s with phase := .left }
      else some { s with phase := .polling s.bytesRead s.clock (s.clock + POLL_MS) }
    | _ => none
  | .poll =>
    match s.phase with
    | .polling start t0 due =>
      if s.clock < due then none
      else if s.complete || s.destroyed then some { s with phase := .left }
      else if s.bytesRead - start ≤ UNREAD_BODY_ALLOWANCE ∧ s.clock - t0 < UNREAD_BODY_WAIT_MS then
        some { s with phase := .polling start t0 (s.clock + POLL_MS) }
      else
        some { s with
          phase := .ending s.clock, log := s.log ++ [.ended start t0 s.bytesRead s.clock] }
    | _ => none
  | .timeout =>
    match s.phase with
    | .ending endedAt =>
      if s.clock < endedAt + CLOSE_WAIT_MS then none
      else some { s with destroyed := true, phase := .left, log := s.log ++ [.destroyed s.clock] }
    | _ => none

end UnreadBody

namespace UnreadBody
variable {late : Nat} {s s' : UnreadBody} {action : UnreadAction}

end UnreadBody

end AgentService
