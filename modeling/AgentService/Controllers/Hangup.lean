import AgentService.Controllers.Writes
import AgentService.Http.ReadBody
import Mathlib.Data.List.Induction

/-!
# A caller who hangs up (`callerOf` of `src/controllers/support.ts`, `send` of the client)

One request, from the moment auth-service is asked on. Its steps are what arrives from outside and
what the handler does next, in any order; between two steps of the handler anything else may happen.
Every fetch is listed with whether the connection had been closed when it was started.
-/

namespace AgentService
open Lib

/-- The routes that call the gateway. -/
inductive GatewayRoute where
  | getCurrentAgent
  | getAgent
  | getShips
  | getShip
  | getContracts
  | getContract
  | acceptContract
  | fulfillContract
  | purchaseShip
  | purchaseCargo
  | sellCargo
  deriving DecidableEq, Repr

/-- A call, and what its answer is decoded into. -/
structure Ask where
  call : Call
  schema : Schema

namespace GatewayRoute

/-- What the handler reads before it asks for the caller. -/
def bodySchema : GatewayRoute → Option Schema
  | purchaseShip => some purchaseShipRequestSchema
  | purchaseCargo | sellCargo => some cargoTransactionRequestSchema
  | _ => none

/-- The one call of `purchaseShip`. -/
def purchaseAsk (node : Node) (caller : JsString) (body : Value) : Except Failure Ask :=
  let shipType := (body.field "shipType").asText
  let waypointSymbol := (body.field "waypointSymbol").asText
  if shipType = [] ∨ waypointSymbol = [] then
    .error (.textAnswer 400 (js "shipType and waypointSymbol are required"))
  else do
    let call ← (AgentService.purchaseShip node.toDoubles caller shipType waypointSymbol).mapError
      fun _ => .other
    return ⟨call, purchaseShipResponse⟩

/-- The one call of `tradeCargo`. -/
def tradeAsk (node : Node) (routed : RoutedRequest) (caller : JsString)
    (call : Doubles → JsString → Bytes → JsString → Int → Except TypeError Call) (body : Value) :
    Except Failure Ask :=
  let symbol := (body.field "symbol").asText
  let units := (body.field "units").asInt
  if symbol = [] ∨ units ≤ 0 then .error (.textAnswer 400 (js "symbol and units (>0) are required"))
  else do
    let call ← (call node.toDoubles caller (segmentFromEnd routed 1) symbol units).mapError fun _ =>
      .other
    return ⟨call, marketTransactionResponse⟩

/-- The calls of a handler, each made when the one before it has been answered. -/
def asks (node : Node) (routed : RoutedRequest) (caller : JsString) :
    GatewayRoute → Value → Except Failure (List Ask)
  | getCurrentAgent, _ =>
    .ok [⟨getMyAgent caller, getMyAgentResponse⟩, ⟨getMyShips caller, getMyShipsResponse⟩,
      ⟨getMyContracts caller, getMyContractsResponse⟩]
  | getAgent, _ => .ok [⟨getMyAgent caller, getMyAgentResponse⟩]
  | getShips, _ => .ok [⟨getMyShips caller, getMyShipsResponse⟩]
  | getShip, _ => .ok [⟨getMyShip caller (lastSegmentOf routed), getMyShipResponse⟩]
  | getContracts, _ => .ok [⟨getMyContracts caller, getMyContractsResponse⟩]
  | getContract, _ => .ok [⟨getMyContract caller (lastSegmentOf routed), getMyContractResponse⟩]
  | acceptContract, _ =>
    .ok [⟨AgentService.acceptContract caller (segmentFromEnd routed 1), acceptContractResponse⟩]
  | fulfillContract, _ =>
    .ok [⟨AgentService.fulfillContract caller (segmentFromEnd routed 1), fulfillContractResponse⟩]
  | purchaseShip, body => (purchaseAsk node caller body).map ([·])
  | purchaseCargo, body => (tradeAsk node routed caller AgentService.purchaseCargo body).map ([·])
  | sellCargo, body => (tradeAsk node routed caller AgentService.sellCargo body).map ([·])

end GatewayRoute

/-- The routes of the writes among them. -/
def WriteRoute.gatewayRoute : WriteRoute → GatewayRoute
  | .acceptContract => .acceptContract
  | .fulfillContract => .fulfillContract
  | .purchaseShip => .purchaseShip
  | .purchaseCargo => .purchaseCargo
  | .sellCargo => .sellCargo

/-- A fetch, and whether the caller's connection had been closed when it was started. -/
structure Started where
  fetch : Fetch
  late : Bool
  deriving DecidableEq

/-- Where the request is. -/
inductive Phase where
  /-- auth-service is asked. -/
  | asking
  /-- It has accepted, and the handler is about to start. -/
  | handedOver
  /-- `readBody` waits, or has settled and the handler is about to go on. -/
  | reading (schema : Schema) (reader : Reader)
  /-- A fetch is out. -/
  | fetching (ask : Ask) (first : Target) (hop : HopState) (rest : List Ask)
  /-- A redirect is about to be followed. -/
  | hopping (ask : Ask) (first : Target) (hop : HopState) (rest : List Ask)
  /-- A call has been answered, and the next one is about to be made. -/
  | between (rest : List Ask)
  | left

/-- The response, the two abort controllers and the handler. -/
structure Exchange where
  phase : Phase
  /-- `close` has been emitted on the response. -/
  closed : Bool
  writableFinished : Bool
  /-- The listener of `callerOf`. -/
  closeListener : Bool
  /-- `gone.signal.aborted` -/
  gone : Bool
  /-- The listener `onGone` of the call that is being made. -/
  onGone : Bool
  /-- `deadline.signal.aborted`, of that call. -/
  deadline : Bool
  started : List Started

/-- What can happen next. -/
inductive Happening where
  | authAnswers (accepted : Bool)
  /-- The handler starts, or goes on behind an `await` that is settled. -/
  | handlerGoesOn
  /-- Something of the request's body. -/
  | stream (e : StreamEvent)
  | callerCloses
  /-- A fetch resolves, or rejects. -/
  | gatewayAnswers (response : Option Response)
  /-- The timer of the call that is being made. -/
  | deadlinePasses
  /-- The answer has been written. -/
  | answerIsOut

namespace Exchange

/-- The request when auth-service is asked. -/
def start : Exchange := ⟨.asking, false, false, false, false, false, false, []⟩

/-- `callerOf` -/
def callerOf (x : Exchange) : Exchange := { x with closeListener := true }

/-- `gone.abort()`, and what listens to it. -/
def abort (x : Exchange) : Exchange := { x with gone := true, deadline := x.deadline || x.onGone }

/-- The handler is left, with an answer or an exception. -/
def leave (x : Exchange) : Exchange := { x with onGone := false, phase := .left }

section
variable (node : Node) (base : JsString) (routed : RoutedRequest) (caller : JsString)
    (route : GatewayRoute)

/-- `fetch`: with an aborted signal it rejects, and nothing is started. -/
def fetch (ask : Ask) (first : Target) (hop : HopState) (rest : List Ask) (x : Exchange) :
    Exchange :=
  if x.deadline then x.leave
  else { x with
    phase := .fetching ask first hop rest,
    started := x.started ++ [⟨ask.call.fetch hop, x.closed⟩] }

/-- `send`, up to the first fetch. -/
def send (ask : Ask) (rest : List Ask) (x : Exchange) : Exchange :=
  let x := { x with deadline := x.gone, onGone := true }
  match firstTarget node.toWeb base ask.call with
  | none => x.leave
  | some first => x.fetch ask first (ask.call.start first) rest

/-- The handler's next call, if there is one. -/
def proceed (asks : List Ask) (x : Exchange) : Exchange :=
  match asks with
  | [] => x.leave
  | ask :: rest => x.send node base ask rest

/-- The handler from `callerOf` on. -/
def call (body : Value) (x : Exchange) : Exchange :=
  match route.asks node routed caller body with
  | .error _ => x.leave
  | .ok asks => x.callerOf.proceed node base asks

/-- The handler, where it does not wait. -/
def goOn (x : Exchange) : Exchange :=
  match x.phase with
  | .handedOver =>
    match route.bodySchema with
    | none => x.call node base routed caller route .null
    | some schema => { x with phase := .reading schema .start }
  | .reading schema reader =>
    match reader.promise with
    | none => x
    | some read =>
      match decodeBody node.toUnicode node.toDoubles schema read with
      | .error _ => x.leave
      | .ok body => x.call node base routed caller route body
  | .hopping ask first hop rest => x.fetch ask first hop rest
  | .between rest => x.proceed node base rest
  | _ => x

/-- What `follow` does with what a fetch came to. -/
def answered (response : Option Response) (x : Exchange) : Exchange :=
  match x.phase with
  | .fetching ask first hop rest =>
    match hopTurn node.toWeb first hop ⟨response, x.gone⟩ with
    | .again hop => { x with phase := .hopping ask first hop rest }
    | .done ending =>
      match finish node ask.call ending >>= decodeAnswer node ask.schema with
      | .error _ => x.leave
      | .ok _ => { x with onGone := false, phase := .between rest }
  | _ => x

/-- The body's events reach `readBody` while it waits. -/
def emit (e : StreamEvent) (x : Exchange) : Exchange :=
  match x.phase with
  | .reading schema reader => { x with phase := .reading schema (reader.emit MAX_BODY_BYTES e) }
  | _ => x

/-- `close` is emitted once, on the response and on the request. -/
def close (x : Exchange) : Exchange :=
  if x.closed then x
  else
    let x := { x with closed := true }
    (if x.closeListener ∧ x.writableFinished = false then x.abort else x).emit .close

def step (x : Exchange) : Happening → Exchange
  | .authAnswers accepted =>
    match x.phase with
    | .asking => if accepted then { x with phase := .handedOver } else x.leave
    | _ => x
  | .handlerGoesOn => x.goOn node base routed caller route
  | .stream e => x.emit e
  | .callerCloses => x.close
  | .gatewayAnswers response => x.answered node response
  | .deadlinePasses => { x with deadline := true }
  | .answerIsOut =>
    match x.phase with
    | .left => { x with writableFinished := true }
    | _ => x

/-- A request, after what has happened to it. -/
def run (happenings : List Happening) : Exchange :=
  happenings.foldl (step node base routed caller route) start

end

section
variable {node : Node} {base : JsString} {routed : RoutedRequest} {caller : JsString}
    {route : GatewayRoute}
variable {x : Exchange}

/-- Nothing of the handler would hear the caller's connection close: auth-service is being asked, or
the handler has not come to `callerOf` and does not wait for the body either. -/
def IsDeaf (x : Exchange) : Prop :=
  match x.phase with
  | .asking => True
  | .handedOver => True
  | .reading _ reader => ∃ read, reader.promise = some (some read)
  | _ => False

/-- What keeps the handler from starting a fetch once the connection has closed. -/
def PhaseHears (x : Exchange) : Prop :=
  match x.phase with
  | .asking => x.closed = false
  | .handedOver => x.closed = false
  | .reading _ reader => reader.IsSound ∧ (x.closed = true → reader.promise = some none)
  | .fetching .. => (x.closeListener = true ∧ (x.closed = true → x.gone = true)) ∧ x.onGone = true ∧
      (x.gone = true → x.deadline = true)
  | .hopping .. => (x.closeListener = true ∧ (x.closed = true → x.gone = true)) ∧ x.onGone = true ∧
      (x.gone = true → x.deadline = true)
  | .between _ => x.closeListener = true ∧ (x.closed = true → x.gone = true)
  | .left => True

/-- The invariant of a request whose caller has not closed the connection unheard. -/
structure Hears (x : Exchange) : Prop where
  onTime : ∀ f ∈ x.started, f.late = false
  finished : x.writableFinished = true → x.phase = .left
  phase : x.PhaseHears

/-- Nothing is listened for before the handler starts, and nothing has been started. -/
theorem hears_start : start.Hears := ⟨nofun, nofun, rfl⟩

theorem hears_leave (h : ∀ f ∈ x.started, f.late = false) : x.leave.Hears :=
  ⟨h, fun _ => rfl, trivial⟩

/-- A fetch is started by a handler that hears: it is not late, and it can be stopped. -/
theorem hears_fetch {ask : Ask} {first : Target} {hop : HopState} {rest : List Ask}
    (hstarted : ∀ f ∈ x.started, f.late = false) (hfinished : x.writableFinished = false)
    (hlistens : x.closeListener = true ∧ (x.closed = true → x.gone = true))
    (hcalls : x.onGone = true ∧ (x.gone = true → x.deadline = true)) :
    (x.fetch ask first hop rest).Hears := by
  unfold fetch
  split_ifs with hdeadline
  · exact hears_leave hstarted
  · refine ⟨fun f hf => ?_, fun h => absurd (hfinished.symm.trans h) Bool.false_ne_true,
      hlistens, hcalls⟩
    rcases List.mem_append.mp hf with hf | hf
    · exact hstarted f hf
    · rw [List.mem_singleton.mp hf]
      -- a closed connection has aborted the signal
      have hopen : ¬ x.closed = true := fun hclosed => hdeadline (hcalls.2 (hlistens.2 hclosed))
      simpa using hopen

/-- The next call, or the answer once there is none. -/
theorem hears_proceed {asks : List Ask} (hstarted : ∀ f ∈ x.started, f.late = false)
    (hfinished : x.writableFinished = false)
    (hlistens : x.closeListener = true ∧ (x.closed = true → x.gone = true)) :
    (x.proceed node base asks).Hears := by
  cases asks with
  | nil => exact hears_leave hstarted
  | cons ask rest =>
    show (x.send node base ask rest).Hears
    unfold send
    dsimp only
    cases firstTarget node.toWeb base ask.call with
    | none => exact hears_leave hstarted
    | some first => exact hears_fetch hstarted hfinished hlistens ⟨rfl, id⟩

/-- `callerOf` puts its listener on while the connection is open, so it hears from then on. -/
theorem hears_call {body : Value} (hstarted : ∀ f ∈ x.started, f.late = false)
    (hfinished : x.writableFinished = false) (hopen : x.closed = false) :
    (x.call node base routed caller route body).Hears := by
  unfold call
  cases route.asks node routed caller body with
  | error err => exact hears_leave hstarted
  | ok asks => exact hears_proceed hstarted hfinished ⟨rfl, fun h =>
    absurd (hopen.symm.trans h) Bool.false_ne_true⟩

/-- The answer is written at the end only. -/
theorem Hears.unfinished (h : x.Hears) (hphase : x.phase ≠ .left) : x.writableFinished = false := by
  cases hfinished : x.writableFinished with
  | false => rfl
  | true => exact absurd (h.finished hfinished) hphase

/-- Whatever the handler waits for, going on keeps what it hears. -/
theorem hears_goOn (h : x.Hears) : (x.goOn node base routed caller route).Hears := by
  have hphase := h.phase
  unfold PhaseHears at hphase
  unfold goOn
  cases hx : x.phase with
  | asking => exact h
  | handedOver =>
    rw [hx] at hphase
    have hfinished := h.unfinished (by rw [hx]; nofun)
    cases route.bodySchema with
    | none => exact hears_call h.onTime hfinished hphase
    | some schema =>
      refine ⟨h.onTime, fun hf => absurd (hfinished.symm.trans hf) Bool.false_ne_true,
        Reader.isSound_start, fun hclosed => ?_⟩
      exact absurd (Eq.symm hphase |>.trans hclosed) Bool.false_ne_true
  | reading schema reader =>
    rw [hx] at hphase
    have hfinished := h.unfinished (by rw [hx]; nofun)
    dsimp only
    cases hread : reader.promise with
    | none => exact h
    | some read =>
      dsimp only
      cases hbody : decodeBody node.toUnicode node.toDoubles schema read with
      | error err => exact hears_leave h.onTime
      | ok body =>
        refine hears_call h.onTime hfinished ?_
        by_contra hclosed
        rw [Bool.not_eq_false] at hclosed
        -- a caller who is gone leaves no body
        rw [hphase.2 hclosed] at hread
        cases hread
        cases hbody
  | fetching ask first hop rest => exact h
  | hopping ask first hop rest =>
    rw [hx] at hphase
    exact hears_fetch h.onTime (h.unfinished (by rw [hx]; nofun)) hphase.1 hphase.2
  | between rest =>
    rw [hx] at hphase
    exact hears_proceed h.onTime (h.unfinished (by rw [hx]; nofun)) hphase
  | left => exact h

/-- An answer of the gateway leads to the next hop, the next call or the answer. -/
theorem hears_answered (h : x.Hears) (response : Option Response) :
    (x.answered node response).Hears := by
  have hphase := h.phase
  unfold PhaseHears at hphase
  unfold answered
  cases hx : x.phase with
  | fetching ask first hop rest =>
    rw [hx] at hphase
    have hfinished := h.unfinished (by rw [hx]; nofun)
    have hnot {p : Prop} (hf : x.writableFinished = true) : p :=
      absurd (hfinished.symm.trans hf) Bool.false_ne_true
    dsimp only
    cases hopTurn node.toWeb first hop ⟨response, x.gone⟩ with
    | again hop => exact ⟨h.onTime, hnot, hphase⟩
    | done ending =>
      dsimp only
      cases finish node ask.call ending >>= decodeAnswer node ask.schema with
      | error err => exact hears_leave h.onTime
      | ok v => exact ⟨h.onTime, hnot, hphase.1⟩
  | _ => exact h

/-- The stream of the body moves the reader only. -/
theorem hears_emit (h : x.Hears) (e : StreamEvent) : (x.emit e).Hears := by
  have hphase := h.phase
  unfold PhaseHears at hphase
  unfold emit
  cases hx : x.phase with
  | reading schema reader =>
    rw [hx] at hphase
    have hfinished := h.unfinished (by rw [hx]; nofun)
    exact ⟨h.onTime, fun hf => absurd (hfinished.symm.trans hf) Bool.false_ne_true, hphase.1.emit e,
      fun hclosed => hphase.1.promise_emit (hphase.2 hclosed) e⟩
  | _ => exact h

/-- The state in which `close` reaches the body's listeners. -/
def closing (x : Exchange) : Exchange :=
  if x.closeListener ∧ x.writableFinished = false then { x with closed := true }.abort
  else { x with closed := true }

/-- The first close: what `callerOf` listens for, then the `close` of the stream. -/
theorem close_eq (h : x.closed = false) : x.close = x.closing.emit .close := by
  unfold close closing
  rw [if_neg (by simp [h])]

@[simp] theorem closing_phase (x : Exchange) : x.closing.phase = x.phase := by
  unfold closing
  split_ifs <;> rfl

@[simp] theorem closing_started (x : Exchange) : x.closing.started = x.started := by
  unfold closing
  split_ifs <;> rfl

@[simp] theorem closing_writableFinished (x : Exchange) :
    x.closing.writableFinished = x.writableFinished := by
  unfold closing
  split_ifs <;> rfl

@[simp] theorem closing_closed (x : Exchange) : x.closing.closed = true := by
  unfold closing
  split_ifs <;> rfl

/-- With the listener of `callerOf` in place, both signals are aborted. -/
theorem closing_listening (hlistens : x.closeListener = true)
    (hfinished : x.writableFinished = false) :
    x.closing = { x with closed := true }.abort := if_pos ⟨hlistens, hfinished⟩

/-- A handler that waits with the listener in place has its signals aborted and goes on waiting. -/
theorem hears_listening (h : x.Hears) (hleft : x.phase ≠ .left)
    (hidle : x.closing.emit .close = x.closing) (hlistens : x.closeListener = true)
    (hphase : ({ x with closed := true } : Exchange).abort.PhaseHears) :
    (x.closing.emit .close).Hears := by
  have hfinished := h.unfinished hleft
  rw [hidle, closing_listening hlistens hfinished]
  exact ⟨h.onTime, fun hf => absurd (hfinished.symm.trans hf) Bool.false_ne_true, hphase⟩

/-- Where the handler is not deaf, it hears the connection close. -/
theorem hears_close (h : x.Hears) (hdeaf : x.closed = false → ¬ x.IsDeaf) : x.close.Hears := by
  by_cases hclosed : x.closed = true
  · unfold close
    rw [if_pos hclosed]
    exact h
  rw [Bool.not_eq_true] at hclosed
  have hphase := h.phase
  have hhears := hdeaf hclosed
  have honTime : ∀ f ∈ x.closing.started, f.late = false := by
    rw [closing_started]
    exact h.onTime
  rw [close_eq hclosed]
  unfold PhaseHears at hphase
  unfold IsDeaf at hhears
  have hidle (hx : ∀ schema reader, x.phase ≠ .reading schema reader) :
      x.closing.emit .close = x.closing := by
    unfold emit
    split
    · rename_i schema reader hreading
      rw [closing_phase] at hreading
      exact absurd hreading (hx schema reader)
    · rfl
  cases hx : x.phase with
  | asking =>
    rw [hx] at hhears
    exact absurd trivial hhears
  | handedOver =>
    rw [hx] at hhears
    exact absurd trivial hhears
  | reading schema reader =>
    rw [hx] at hphase hhears
    have hfinished := h.unfinished (by rw [hx]; nofun)
    unfold emit
    rw [closing_phase, hx]
    refine ⟨honTime, fun hf => ?_, hphase.1.emit .close, fun _ => ?_⟩
    · change x.closing.writableFinished = true at hf
      rw [closing_writableFinished, hfinished] at hf
      cases hf
    · show (reader.emit MAX_BODY_BYTES .close).promise = some none
      cases hread : reader.promise with
      | none => exact hphase.1.promise_close hread
      | some read =>
        cases read with
        | none => exact hphase.1.promise_emit hread .close
        | some read => exact absurd ⟨read, hread⟩ hhears
  | fetching ask first hop rest =>
    rw [hx] at hphase
    refine hears_listening h (by rw [hx]; nofun) (hidle (by rw [hx]; nofun)) hphase.1.1 ?_
    unfold PhaseHears
    simp [abort, hx, hphase.1.1, hphase.2.1]
  | hopping ask first hop rest =>
    rw [hx] at hphase
    refine hears_listening h (by rw [hx]; nofun) (hidle (by rw [hx]; nofun)) hphase.1.1 ?_
    unfold PhaseHears
    simp [abort, hx, hphase.1.1, hphase.2.1]
  | between rest =>
    rw [hx] at hphase
    refine hears_listening h (by rw [hx]; nofun) (hidle (by rw [hx]; nofun)) hphase.1 ?_
    unfold PhaseHears
    simp [abort, hx, hphase.1]
  | left =>
    rw [hidle (by rw [hx]; nofun)]
    refine ⟨honTime, fun _ => by rw [closing_phase, hx], ?_⟩
    unfold PhaseHears
    rw [closing_phase, hx]
    trivial

theorem hears_deadline (h : x.Hears) : { x with deadline := true }.Hears := by
  obtain ⟨phase, closed, finished, closeListener, gone, onGone, deadline, started⟩ := x
  have hphase := h.phase
  refine ⟨h.onTime, h.finished, ?_⟩
  cases phase with
  | fetching ask first hop rest => exact ⟨hphase.1, hphase.2.1, fun _ => rfl⟩
  | hopping ask first hop rest => exact ⟨hphase.1, hphase.2.1, fun _ => rfl⟩
  | _ => exact hphase

/-- One step of a request keeps the invariant, unless it closes the connection unheard. -/
theorem hears_step (h : x.Hears) (e : Happening) (hdeaf : e = .callerCloses → x.closed = false →
    ¬ x.IsDeaf) :
    (x.step node base routed caller route e).Hears := by
  have hphase := h.phase
  unfold PhaseHears at hphase
  cases e with
  | authAnswers accepted =>
    unfold step
    cases hx : x.phase with
    | asking =>
      rw [hx] at hphase
      cases accepted with
      | true => exact ⟨h.onTime, fun hf => absurd (h.finished hf) (by rw [hx]; nofun), hphase⟩
      | false => exact hears_leave h.onTime
    | _ => exact h
  | handlerGoesOn => exact hears_goOn h
  | stream e => exact hears_emit h e
  | callerCloses => exact hears_close h (hdeaf rfl)
  | gatewayAnswers response => exact hears_answered h response
  | deadlinePasses => exact hears_deadline h
  | answerIsOut =>
    unfold step
    cases hx : x.phase with
    | left => exact ⟨h.onTime, fun _ => rfl, trivial⟩
    | _ => exact h

variable (node base routed caller route)

/-- The connection closes in some step, and nothing of the handler hears it. -/
def ClosesUnheard (happenings : List Happening) : Prop :=
  ∃ before after, happenings = before ++ .callerCloses :: after ∧
    (run node base routed caller route before).closed = false ∧
    (run node base routed caller route before).IsDeaf

variable {node base routed caller route}

/-- A run by its last happening. -/
theorem run_append (happenings : List Happening) (e : Happening) :
    run node base routed caller route (happenings ++ [e]) =
      (run node base routed caller route happenings).step node base routed caller route e := by
  rw [run, List.foldl_append]
  rfl

/-- A run in which the connection does not close unheard. -/
theorem hears_run {happenings : List Happening}
    (h : ¬ ClosesUnheard node base routed caller route happenings) :
    (run node base routed caller route happenings).Hears := by
  induction happenings using List.reverseRec with
  | nil => exact hears_start
  | append_singleton happenings e ih =>
    rw [run_append]
    refine hears_step (ih fun ⟨before, after, heq, hunheard⟩ =>
      h ⟨before, after ++ [e], ?_, hunheard⟩) e ?_
    · rw [heq, List.append_assoc, List.cons_append]
    · rintro rfl hopen hdeaf
      exact h ⟨happenings, [], rfl, hopen, hdeaf⟩

/-! ## Once the connection has closed unheard -/

/-- A connection that has closed, with nothing started but what was started after that. -/
structure IsLate (x : Exchange) : Prop where
  closed : x.closed = true
  late : ∀ f ∈ x.started, f.late = true

/-- Once the connection was closed unheard, every fetch that is started is late. -/
theorem isLate_fetch {ask : Ask} {first : Target} {hop : HopState} {rest : List Ask}
    (h : x.IsLate) : (x.fetch ask first hop rest).IsLate := by
  unfold fetch
  split_ifs
  · exact ⟨h.closed, h.late⟩
  · refine ⟨h.closed, fun f hf => ?_⟩
    rcases List.mem_append.mp hf with hf | hf
    · exact h.late f hf
    · rw [List.mem_singleton.mp hf]
      exact h.closed

theorem isLate_proceed {asks : List Ask} (h : x.IsLate) : (x.proceed node base asks).IsLate := by
  cases asks with
  | nil => exact ⟨h.closed, h.late⟩
  | cons ask rest =>
    show (x.send node base ask rest).IsLate
    unfold send
    dsimp only
    cases firstTarget node.toWeb base ask.call with
    | none => exact ⟨h.closed, h.late⟩
    | some first => exact isLate_fetch ⟨h.closed, h.late⟩

theorem isLate_call {body : Value} (h : x.IsLate) :
    (x.call node base routed caller route body).IsLate := by
  unfold call
  cases route.asks node routed caller body with
  | error err => exact ⟨h.closed, h.late⟩
  | ok asks => exact isLate_proceed ⟨h.closed, h.late⟩

theorem isLate_goOn (h : x.IsLate) : (x.goOn node base routed caller route).IsLate := by
  unfold goOn
  cases x.phase with
  | handedOver =>
    cases route.bodySchema with
    | none => exact isLate_call h
    | some schema => exact ⟨h.closed, h.late⟩
  | reading schema reader =>
    dsimp only
    cases reader.promise with
    | none => exact ⟨h.closed, h.late⟩
    | some read =>
      dsimp only
      cases decodeBody node.toUnicode node.toDoubles schema read with
      | error err => exact ⟨h.closed, h.late⟩
      | ok body => exact isLate_call h
  | hopping ask first hop rest => exact isLate_fetch h
  | between rest => exact isLate_proceed h
  | _ => exact ⟨h.closed, h.late⟩

theorem isLate_answered (h : x.IsLate) (response : Option Response) :
    (x.answered node response).IsLate := by
  unfold answered
  cases x.phase with
  | fetching ask first hop rest =>
    dsimp only
    cases hopTurn node.toWeb first hop ⟨response, x.gone⟩ with
    | again hop => exact ⟨h.closed, h.late⟩
    | done ending =>
      dsimp only
      cases finish node ask.call ending >>= decodeAnswer node ask.schema with
      | error err => exact ⟨h.closed, h.late⟩
      | ok v => exact ⟨h.closed, h.late⟩
  | _ => exact ⟨h.closed, h.late⟩

theorem isLate_emit (h : x.IsLate) (e : StreamEvent) : (x.emit e).IsLate := by
  unfold emit
  split
  · exact ⟨h.closed, h.late⟩
  · exact ⟨h.closed, h.late⟩

/-- No happening makes a late request an early one. -/
theorem isLate_step (h : x.IsLate) (e : Happening) :
    (x.step node base routed caller route e).IsLate := by
  unfold step
  cases e with
  | authAnswers accepted =>
    dsimp only
    split
    · split_ifs <;> exact ⟨h.closed, h.late⟩
    · exact ⟨h.closed, h.late⟩
  | handlerGoesOn => exact isLate_goOn h
  | stream e => exact isLate_emit h e
  | callerCloses =>
    show x.close.IsLate
    unfold close
    rw [if_pos h.closed]
    exact ⟨h.closed, h.late⟩
  | gatewayAnswers response => exact isLate_answered h response
  | deadlinePasses => exact ⟨h.closed, h.late⟩
  | answerIsOut =>
    dsimp only
    split <;> exact ⟨h.closed, h.late⟩

theorem isLate_steps (h : x.IsLate) (happenings : List Happening) :
    (happenings.foldl (step node base routed caller route) x).IsLate := by
  induction happenings generalizing x with
  | nil => exact ⟨h.closed, h.late⟩
  | cons e happenings ih => exact ih (isLate_step h e)

/-- The phases before the handler calls. -/
def IsEarly (x : Exchange) : Prop :=
  match x.phase with
  | .asking => True
  | .handedOver => True
  | .reading .. => True
  | _ => False

/-- A handler that does not hear is one that has not called yet. -/
theorem isEarly_of_isDeaf (h : x.IsDeaf) : x.IsEarly := by
  unfold IsDeaf at h
  unfold IsEarly
  cases hx : x.phase with
  | asking => trivial
  | handedOver => trivial
  | reading schema reader => trivial
  | _ =>
    rw [hx] at h
    exact h

/-- A handler that fetches is past the early phases. -/
theorem not_isEarly_fetch {ask : Ask} {first : Target} {hop : HopState} {rest : List Ask} :
    ¬ (x.fetch ask first hop rest).IsEarly := by
  unfold fetch
  split_ifs
  · exact id
  · exact id

theorem not_isEarly_proceed {asks : List Ask} : ¬ (x.proceed node base asks).IsEarly := by
  cases asks with
  | nil => exact id
  | cons ask rest =>
    show ¬ (x.send node base ask rest).IsEarly
    unfold send
    dsimp only
    cases firstTarget node.toWeb base ask.call with
    | none => exact id
    | some first => exact not_isEarly_fetch

theorem not_isEarly_call {body : Value} :
    ¬ (x.call node base routed caller route body).IsEarly := by
  unfold call
  cases route.asks node routed caller body with
  | error err => exact id
  | ok asks => exact not_isEarly_proceed

/-- Before the handler calls, nothing has been started. -/
def StartsNothing (x : Exchange) : Prop := x.IsEarly → x.started = []

/-- Going on either stays before the calls or leaves those phases. -/
theorem startsNothing_goOn (h : x.StartsNothing) :
    (x.goOn node base routed caller route).StartsNothing := by
  unfold goOn
  cases hx : x.phase with
  | handedOver =>
    cases route.bodySchema with
    | none => exact fun hearly => absurd hearly not_isEarly_call
    | some schema =>
      refine fun _ => h ?_
      unfold IsEarly
      rw [hx]
      trivial
  | reading schema reader =>
    dsimp only
    cases reader.promise with
    | none => exact h
    | some read =>
      dsimp only
      cases decodeBody node.toUnicode node.toDoubles schema read with
      | error err => exact fun hearly => hearly.elim
      | ok body => exact fun hearly => absurd hearly not_isEarly_call
  | hopping ask first hop rest => exact fun hearly => absurd hearly not_isEarly_fetch
  | between rest => exact fun hearly => absurd hearly not_isEarly_proceed
  | _ => exact h

theorem startsNothing_answered (h : x.StartsNothing) (response : Option Response) :
    (x.answered node response).StartsNothing := by
  unfold answered
  cases x.phase with
  | fetching ask first hop rest =>
    dsimp only
    cases hopTurn node.toWeb first hop ⟨response, x.gone⟩ with
    | again hop => exact fun hearly => hearly.elim
    | done ending =>
      dsimp only
      cases finish node ask.call ending >>= decodeAnswer node ask.schema with
      | error err => exact fun hearly => hearly.elim
      | ok v => exact fun hearly => hearly.elim
  | _ => exact h

theorem startsNothing_emit (h : x.StartsNothing) (e : StreamEvent) : (x.emit e).StartsNothing := by
  unfold emit
  split
  · rename_i schema reader hx
    refine fun _ => h ?_
    unfold IsEarly
    rw [hx]
    trivial
  · exact h

theorem startsNothing_close (h : x.StartsNothing) : x.close.StartsNothing := by
  cases hclosed : x.closed with
  | true =>
    unfold close
    rw [if_pos hclosed]
    exact h
  | false =>
    rw [close_eq hclosed]
    apply startsNothing_emit
    unfold StartsNothing IsEarly at h ⊢
    rw [closing_phase, closing_started]
    exact h

/-- No happening starts a fetch and leaves the handler before its calls. -/
theorem startsNothing_step (h : x.StartsNothing) (e : Happening) :
    (x.step node base routed caller route e).StartsNothing := by
  unfold step
  cases e with
  | authAnswers accepted =>
    cases hx : x.phase with
    | asking =>
      cases accepted with
      | true =>
        refine fun _ => h ?_
        unfold IsEarly
        rw [hx]
        trivial
      | false => exact fun hearly => hearly.elim
    | _ => exact h
  | handlerGoesOn => exact startsNothing_goOn h
  | stream e => exact startsNothing_emit h e
  | callerCloses => exact startsNothing_close h
  | gatewayAnswers response => exact startsNothing_answered h response
  | deadlinePasses => exact h
  | answerIsOut =>
    cases x.phase with
    | left => exact fun hearly => hearly.elim
    | _ => exact h

/-- In any run nothing has been started before the handler calls. -/
theorem startsNothing_run (happenings : List Happening) :
    (run node base routed caller route happenings).StartsNothing := by
  induction happenings using List.reverseRec with
  | nil => exact fun _ => rfl
  | append_singleton happenings e ih =>
    rw [run_append]
    exact startsNothing_step ih e

/-- Whatever is started in a run in which the connection closed unheard is started too late. -/
theorem isLate_run {happenings : List Happening}
    (h : ClosesUnheard node base routed caller route happenings) :
    (run node base routed caller route happenings).IsLate := by
  obtain ⟨before, after, rfl, hopen, hdeaf⟩ := h
  have hnone := startsNothing_run before (isEarly_of_isDeaf hdeaf)
  rw [run, List.foldl_append, List.foldl_cons]
  apply isLate_steps
  show (run node base routed caller route before).close.IsLate
  rw [close_eq hopen]
  apply isLate_emit
  refine ⟨closing_closed _, fun f hf => ?_⟩
  rw [closing_started, hnone] at hf
  cases hf

end

end Exchange

/-- No request to the gateway is started after the caller's connection has closed,
unless that closes while nothing of the handler listens: then every request that is
started is started after it. -/
theorem on_time_iff (node : Node) (base : JsString) (routed : RoutedRequest) (caller : JsString)
    (route : GatewayRoute) (happenings : List Happening) :
    ∀ f ∈ (Exchange.run node base routed caller route happenings).started,
      (f.late = false ↔ ¬ Exchange.ClosesUnheard node base routed caller route happenings) := by
  intro f hf
  constructor
  · intro honTime hunheard
    have hlate := (Exchange.isLate_run hunheard).late f hf
    rw [honTime] at hlate
    cases hlate
  · intro h
    exact (Exchange.hears_run h).onTime f hf

/-- A contract is accepted for a caller who stays. -/
theorem on_time_accept :
    let path := js "/api/agent/v1/contracts/C1/accept"
    let routed : RoutedRequest := ⟨latin1Encode path, path⟩
    let happenings := [.authAnswers true, .handlerGoesOn, .callerCloses]
    let x := Exchange.run plainNode (js "http://gw.test/proxy") routed (js "Bearer t")
      .acceptContract happenings
    ∃ f ∈ x.started, (f.late = false ↔
      ¬ Exchange.ClosesUnheard plainNode (js "http://gw.test/proxy") routed (js "Bearer t")
      .acceptContract happenings) := by
  intro path routed happenings x
  have hstarted : x.started ≠ [] := by decide +kernel
  have hmem := List.head_mem hstarted
  exact ⟨_, hmem, on_time_iff plainNode (js "http://gw.test/proxy") routed (js "Bearer t")
    .acceptContract happenings _ hmem⟩

/-- The caller hangs up while auth-service is asked, and the contract is accepted all the same. -/
theorem late_start_accept :
    let path := js "/api/agent/v1/contracts/C1/accept"
    let x := Exchange.run plainNode (js "http://gw.test/proxy") ⟨latin1Encode path,
      path⟩ (js "Bearer t") .acceptContract
      [.callerCloses, .authAnswers true, .handlerGoesOn]
    x.started.map (fun f => (f.fetch.method, f.fetch.target.url.pathname, f.late)) =
        [(js "POST", js "/proxy/my/contracts/C1/accept", true)] ∧
      ¬ ∀ f ∈ x.started, f.late = false := by
  intro path x
  have hstarted : x.started.map (fun f => (f.fetch.method, f.fetch.target.url.pathname, f.late)) =
      [(js "POST", js "/proxy/my/contracts/C1/accept", true)] := by decide +kernel
  refine ⟨hstarted, fun h => ?_⟩
  cases hf : x.started with
  | nil =>
    rw [hf] at hstarted
    cases hstarted
  | cons f fs =>
    rw [hf] at hstarted
    have hlate : f.late = true := congrArg (·.2.2) (List.cons.inj hstarted).1
    rw [h f (by rw [hf]; exact List.mem_cons_self)] at hlate
    cases hlate

end AgentService
