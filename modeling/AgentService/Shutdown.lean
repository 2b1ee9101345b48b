import AgentService.Lib.Machine
import AgentService.Startup

/-!
# From the port to the exit (`main` of `src/server.ts`, once it listens)

The process after its port is bound. Its environment is the callers, the signals and the clock, and
it says when the server's `close`, the end of the pool and the timers come; `late` bounds how long a
timer that is due has to wait for its turn. What Node does to connections at `close` is given by its
documentation.
-/

namespace AgentService
open Lib

/-- The timer of `shutdown`. -/
def SHUTDOWN_WAIT_MS : Nat := 10000

/-- The signals with a listener. -/
inductive Signal where
  | sigterm
  | sigint
  deriving DecidableEq, Repr

def Signal.name : Signal → JsString
  | sigterm => js "SIGTERM"
  | sigint => js "SIGINT"

/-- How a process ends: at `process.exit`, or by a signal without a listener. -/
inductive Ending where
  | exit (code : Nat)
  | killed (signal : Signal)
  deriving DecidableEq, Repr

/-- What happens on connections, the signals that came to a listener, and an `error`
of the server. -/
inductive ServerEvent (κ : Type) where
  | accepted (c : κ)
  /-- The first bytes of another request. -/
  | asked (c : κ)
  /-- The answer is out. -/
  | answered (c : κ)
  /-- Closed by `closeIdleConnections`. -/
  | closedIdle (c : κ)
  /-- Closed by its caller, or behind its last answer. -/
  | ended (c : κ)
  | received (signal : Signal) (now : Nat)
  | failed (err : JsString)
  deriving DecidableEq, Repr

namespace ServerEvent
variable {κ : Type}

def connection : ServerEvent κ → Option κ
  | accepted c | asked c | answered c | closedIdle c | ended c => some c
  | received _ _ | failed _ => none

end ServerEvent

/-- `main` behind `server.listen`. A connection is active from the start, and idle behind an
answer until its next request. -/
structure Serving (κ : Type) where
  clock : Nat
  listening : Bool
  active : List κ
  idle : List κ
  /-- The listeners of `process.once` that are still there. -/
  listeners : List Signal
  /-- The callbacks of `server.close` that wait for the server's `close`. -/
  closers : Nat
  /-- The calls of `sql.close` that have not settled. -/
  closing : Nat
  /-- When the timers were set. -/
  timers : List Nat
  lines : List JsString
  ending : Option Ending
  log : List (ServerEvent κ)

inductive ServingAction (κ : Type) where
  | tick (ms : Nat)
  | accept (c : κ)
  | ask (c : κ)
  | answer (c : κ)
  | gone (c : κ)
  | signal (signal : Signal)
  /-- The server's `close`. -/
  | close
  /-- `sql.close` settles, either way. -/
  | closed
  | timeout
  /-- The server's `error`. -/
  | error (err : JsString)
  /-- Nothing is left to wait for; the timers do not count. -/
  | emptied

namespace Serving
variable {κ : Type} [DecidableEq κ]

/-- `shutdown`, and `process.once` that has taken its listener away. -/
def shutdown (s : Serving κ) (signal : Signal) : Serving κ :=
  { s with
    listeners := s.listeners.erase signal
    lines := s.lines ++ [js "received " ++ signal.name ++ js ", shutting down"]
    listening := false
    closers := s.closers + 1
    idle := []
    timers := s.timers ++ [s.clock]
    log := s.log ++ .received signal s.clock :: s.idle.map .closedIdle }

def onSignal (s : Serving κ) (signal : Signal) : Serving κ :=
  if s.listeners.contains signal then s.shutdown signal
  else { s with ending := some (.killed signal) }

variable (late : Nat)

/-- `none` where the process is over, or what happens cannot. -/
def step (s : Serving κ) (action : ServingAction κ) : Option (Serving κ) :=
  if s.ending.isSome then none
  else match action with
  | .tick ms =>
    if s.timers.all (s.clock + ms ≤ · + SHUTDOWN_WAIT_MS + late) then
      some { s with clock := s.clock + ms }
    else none
  | .accept c =>
    if s.listening = true ∧ s.log.contains (.accepted c) = false then
      some { s with active := c :: s.active, log := s.log ++ [.accepted c] }
    else none
  | .ask c =>
    if s.idle.contains c then
      some { s with
        active := c :: s.active, idle := s.idle.filter (· ≠ c), log := s.log ++ [.asked c] }
    else none
  | .answer c =>
    if s.active.contains c then
      some { s with
        active := s.active.filter (· ≠ c), idle := c :: s.idle, log := s.log ++ [.answered c] }
    else none
  | .gone c =>
    if s.active.contains c || s.idle.contains c then
      some { s with
        active := s.active.filter (· ≠ c), idle := s.idle.filter (· ≠ c),
        log := s.log ++ [.ended c] }
    else none
  | .signal signal => some (s.onSignal signal)
  | .close =>
    if s.listening = false ∧ s.active = [] ∧ s.idle = [] ∧ 0 < s.closers then
      some { s with closers := 0, closing := s.closing + s.closers }
    else none
  | .closed => if 0 < s.closing then some { s with ending := some (.exit 0) } else none
  | .timeout =>
    if s.timers.any (· + SHUTDOWN_WAIT_MS ≤ s.clock) then some { s with ending := some (.exit 1) }
    else none
  | .error err => some { s with ending := some (.exit 1), log := s.log ++ [.failed err] }
  | .emptied =>
    if s.listening = false ∧ s.active = [] ∧ s.idle = [] ∧ s.closers = 0 then
      some { s with ending := some (.exit 0) }
    else none

end Serving

namespace Serving
variable {κ : Type} [DecidableEq κ] {late : Nat} {s s' : Serving κ}

/-! ## Its steps -/

/-- What a step can do. -/
inductive Step (late : Nat) (s : Serving κ) : Serving κ → Prop
  | tick (ms : Nat) (hdeadline : ∀ t ∈ s.timers, s.clock + ms ≤ t + SHUTDOWN_WAIT_MS + late) :
      Step late s { s with clock := s.clock + ms }
  | accepted (c : κ) (hlistening : s.listening = true) (hnew : .accepted c ∉ s.log) :
      Step late s { s with active := c :: s.active, log := s.log ++ [.accepted c] }
  | asked (c : κ) (hidle : c ∈ s.idle) :
      Step late s { s with
        active := c :: s.active, idle := s.idle.filter (· ≠ c), log := s.log ++ [.asked c] }
  | answered (c : κ) (hactive : c ∈ s.active) :
      Step late s { s with
        active := s.active.filter (· ≠ c), idle := c :: s.idle, log := s.log ++ [.answered c] }
  | gone (c : κ) (hopen : c ∈ s.active ∨ c ∈ s.idle) :
      Step late s { s with
        active := s.active.filter (· ≠ c), idle := s.idle.filter (· ≠ c),
        log := s.log ++ [.ended c] }
  | shutdown (signal : Signal) (hlistens : signal ∈ s.listeners) : Step late s (s.shutdown signal)
  | drained (hlistening : s.listening = false) (hactive : s.active = []) (hidle : s.idle = []) :
      Step late s { s with closers := 0, closing := s.closing + s.closers }
  | killed (signal : Signal) (hlistens : signal ∉ s.listeners) :
      Step late s { s with ending := some (.killed signal) }
  | closed (hclosing : 0 < s.closing) : Step late s { s with ending := some (.exit 0) }
  | timedOut (t : Nat) (ht : t ∈ s.timers) (hdue : t + SHUTDOWN_WAIT_MS ≤ s.clock) :
      Step late s { s with ending := some (.exit 1) }
  | failed (err : JsString) :
      Step late s { s with ending := some (.exit 1), log := s.log ++ [.failed err] }
  | emptied (hlistening : s.listening = false) (hactive : s.active = []) (hidle : s.idle = []) :
      Step late s { s with ending := some (.exit 0) }

theorem step_cases {action : ServingAction κ} (h : step late s action = some s') :
    s.ending = none ∧ Step late s s' := by
  unfold step at h
  split at h
  · cases h
  rename_i hover
  refine ⟨by simpa using hover, ?_⟩
  cases action with
  | tick ms =>
    obtain ⟨hdeadline, h⟩ := Option.ite_none_right_eq_some.mp h
    cases h
    exact .tick ms (by simpa using hdeadline)
  | accept c =>
    obtain ⟨⟨hlistening, hnew⟩, h⟩ := Option.ite_none_right_eq_some.mp h
    cases h
    exact .accepted c hlistening (by simpa using hnew)
  | ask c =>
    obtain ⟨hidle, h⟩ := Option.ite_none_right_eq_some.mp h
    cases h
    exact .asked c (by simpa using hidle)
  | answer c =>
    obtain ⟨hactive, h⟩ := Option.ite_none_right_eq_some.mp h
    cases h
    exact .answered c (by simpa using hactive)
  | gone c =>
    obtain ⟨hopen, h⟩ := Option.ite_none_right_eq_some.mp h
    cases h
    exact .gone c (by simpa using hopen)
  | signal signal =>
    cases h
    unfold onSignal
    split
    · rename_i hlistens
      exact .shutdown signal (by simpa using hlistens)
    · rename_i hlistens
      exact .killed signal (by simpa using hlistens)
  | close =>
    obtain ⟨⟨hlistening, hactive, hidle, -⟩, h⟩ := Option.ite_none_right_eq_some.mp h
    cases h
    exact .drained hlistening hactive hidle
  | closed =>
    obtain ⟨hclosing, h⟩ := Option.ite_none_right_eq_some.mp h
    cases h
    exact .closed hclosing
  | timeout =>
    obtain ⟨hdue, h⟩ := Option.ite_none_right_eq_some.mp h
    cases h
    obtain ⟨t, ht, hdue⟩ := List.any_eq_true.mp hdue
    exact .timedOut t ht (of_decide_eq_true hdue)
  | error err =>
    cases h
    exact .failed err
  | emptied =>
    obtain ⟨⟨hlistening, hactive, hidle, -⟩, h⟩ := Option.ite_none_right_eq_some.mp h
    cases h
    exact .emptied hlistening hactive hidle

/-! ## Connections -/

/-- What happened on one connection. -/
def onConnection (c : κ) (log : List (ServerEvent κ)) : List (ServerEvent κ) :=
  log.filter (·.connection = some c)

theorem onConnection_append (c : κ) (log es : List (ServerEvent κ)) :
    onConnection c (log ++ es) = onConnection c log ++ onConnection c es := List.filter_append ..

/-- Where a connection stands, as its events tell it. -/
structure Stands (s : Serving κ) (c : κ) : Prop where
  accepted : c ∈ s.active ∨ c ∈ s.idle ∨ .closedIdle c ∈ s.log → .accepted c ∈ s.log
  apart : c ∈ s.active → c ∉ s.idle
  answered : c ∈ s.idle → ∃ before, onConnection c s.log = before ++ [.answered c]
  cut : .closedIdle c ∈ s.log → (c ∉ s.active ∧ c ∉ s.idle) ∧
    ∃ before, onConnection c s.log = before ++ [.answered c, .closedIdle c]
  accounted : .accepted c ∈ s.log → (c ∈ s.active ∨ c ∈ s.idle) ∨ .ended c ∈ s.log ∨
    .closedIdle c ∈ s.log

/-- What happens elsewhere leaves a connection where it stands. -/
theorem Stands.frame {c : κ} (hs : Stands s c) {es : List (ServerEvent κ)}
    (hlog : s'.log = s.log ++ es) (hes : ∀ e ∈ es, e.connection ≠ some c)
    (hactive : c ∈ s'.active ↔ c ∈ s.active) (hidle : c ∈ s'.idle ↔ c ∈ s.idle) : Stands s' c := by
  have hmem {e : ServerEvent κ} (he : e.connection = some c) : e ∈ s'.log ↔ e ∈ s.log := by
    rw [hlog, List.mem_append]
    exact or_iff_left fun hin => hes e hin he
  have hown : onConnection c s'.log = onConnection c s.log := by
    have hnone : onConnection c es = [] := List.filter_eq_nil_iff.mpr fun e he => by
      simpa using hes e he
    rw [hlog, onConnection_append, hnone, List.append_nil]
  constructor
  · rw [hactive, hidle, hmem rfl, hmem rfl]
    exact hs.accepted
  · rw [hactive, hidle]
    exact hs.apart
  · rw [hidle, hown]
    exact hs.answered
  · rw [hactive, hidle, hown, hmem rfl]
    exact hs.cut
  · rw [hactive, hidle, hmem rfl, hmem rfl, hmem rfl]
    exact hs.accounted

/-- What a step does on one connection, it does on no other. -/
theorem Stands.other {c x : κ} (hne : c ≠ x) (hs : Stands s c) {active idle : List κ}
    {e : ServerEvent κ} (he : e.connection = some x) (hactive : c ∈ active ↔ c ∈ s.active)
    (hidle : c ∈ idle ↔ c ∈ s.idle) :
    Stands { s with active := active, idle := idle, log := s.log ++ [e] } c := by
  refine hs.frame rfl ?_ hactive hidle
  rw [List.forall_mem_singleton, he]
  simpa using Ne.symm hne

end Serving

end AgentService
