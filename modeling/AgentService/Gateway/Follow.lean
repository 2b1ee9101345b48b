import AgentService.Gateway.Location
import AgentService.Lib.Loop

/-!
# Following redirects (`follow` of `src/gateway/client.ts`)

The loop of `GatewayClient.follow` up to the answer it stops at. What fetch does is the
environment: each turn is given a `Fetched`, which is a response or a failure, and whether
the caller has hung up by the time the turn is over. The loop's own variables are a
`HopState`; the requests that go out are read off the states.
-/

namespace AgentService
open Lib

/-- A response's body: the chunks that arrive, and whether its end does too. -/
structure BodyStream where
  chunks : List Bytes
  ended : Bool
  deriving DecidableEq, Repr

/-- What the service reads off a fetch `Response`; `header` is `headers.get`. -/
structure Response where
  status : Nat
  header : String → Option JsString
  body : BodyStream

/-- One turn of the environment: what fetch does (`none`: it rejects), and whether the caller is
gone when that has been dealt with. -/
structure Fetched where
  response : Option Response
  callerGone : Bool

/-- One call of the client: what `follow` is given apart from the signals. -/
structure Call where
  method : JsString
  endpoint : JsString
  authorization : JsString
  body : Option JsString
  deriving DecidableEq, Repr

/-- What one fetch is given. -/
structure Fetch where
  target : Target
  method : JsString
  authorization : Option JsString
  contentType : Option JsString
  body : Option JsString
  deriving DecidableEq, Repr

/-- Go's http.Client stops after ten requests. -/
def MAX_REQUESTS : Nat := 10

/-- `FOLLOWED` -/
def followed (status : Nat) : Bool := [301, 302, 303, 307, 308].contains status

/-- `split(", ", 1)[0]` -/
def beforeComma : JsString → JsString
  | [] => []
  | c :: s => if c = 0x2c ∧ s.head? = some 0x20 then [] else c :: beforeComma s

/-- The redirect target as the response names it, empty where it names none. -/
def Response.location (res : Response) : JsString := beforeComma ((res.header "Location").getD [])

/-- `firstName` -/
def goName (web : Web) (target : Target) : JsString := asciiHostname web (hostnameOf target.host)

/-- `/^[\d.]+$/` -/
def digitsAndDots (name : JsString) : Bool :=
  name ≠ [] ∧ name.all fun c => isDigitUnit c || c == 0x2e

/-- `exactOnly`: a single label or an IP literal has no subdomains worth the name. -/
def exactOnly (firstName : JsString) : Bool :=
  !firstName.contains 0x2e || digitsAndDots firstName || firstName.contains 0x3a

/-- `sameDomain` -/
def sameDomain (firstName name parent : JsString) : Bool :=
  if exactOnly firstName then name == parent else isDomainOrSubdomain name parent

/-- The variables of the loop. -/
structure HopState where
  requests : Nat
  target : Target
  verb : JsString
  payload : Option JsString
  stripped : Bool
  deriving DecidableEq, Repr

/-- Whether Authorization may go on from `target` to `next`. -/
def mayCarry (web : Web) (first target next : Target) : Bool :=
  let firstName := goName web first
  let goSame := next.host == first.host || sameDomain firstName (goName web next) firstName
  let fetchedSame := sameDomain firstName next.url.hostname first.url.hostname
  let downgrade := target.url.protocol == js "https:" && next.url.protocol == js "http:"
  goSame && fetchedSame && !downgrade

/-- The state of the hop that follows a redirect with `status` to `next`. -/
def HopState.hop (web : Web) (first : Target) (s : HopState) (status : Nat) (next : Target) :
    HopState where
  requests := s.requests + 1
  target := next
  verb := if status ≤ 303 ∧ s.verb ≠ js "GET" ∧ s.verb ≠ js "HEAD" then js "GET" else s.verb
  payload := if status ≤ 303 then none else s.payload
  stripped := s.stripped || !mayCarry web first s.target next

/-- How the loop ends: with the answer that is not followed, or with none. -/
inductive HopEnd where
  | answered (res : Response) (callerGone : Bool)
  | noAnswer (callerGone : Bool)

/-- One turn of the loop, from the fetch on. -/
def hopTurn (web : Web) (first : Target) (s : HopState) (a : Fetched) : Turn HopState HopEnd :=
  match a.response with
  | none => .done (.noAnswer a.callerGone)
  | some res =>
    if followed res.status = false ∨ res.location = [] then .done (.answered res a.callerGone)
    else
      match resolveReference web (some s.target) (fromHeaderValue res.location) with
      | none => .done (.noAnswer a.callerGone)
      | some next =>
        if MAX_REQUESTS ≤ s.requests then .done (.noAnswer a.callerGone)
        else .again (s.hop web first res.status next)

/-- When and to where the loop goes round again. -/
theorem hopTurn_again {web : Web} {first : Target} {s s' : HopState} {a : Fetched} :
    hopTurn web first s a = .again s' ↔
      ∃ res next, a.response = some res ∧ followed res.status = true ∧ res.location ≠ [] ∧
        resolveReference web (some s.target) (fromHeaderValue res.location) = some next ∧
        s.requests < MAX_REQUESTS ∧ s' = s.hop web first res.status next := by
  constructor
  · intro h
    unfold hopTurn at h
    split at h
    · cases h
    · rename_i res hres
      split at h
      · cases h
      · rename_i hstop
        rw [not_or, Bool.not_eq_false] at hstop
        split at h
        · cases h
        · rename_i next hnext
          split at h
          · cases h
          · rename_i hmax
            cases h
            exact ⟨res, next, hres, hstop.1, hstop.2, hnext, Nat.lt_of_not_le hmax, rfl⟩
  · rintro ⟨res, next, hres, hf, hl, hnext, hmax, rfl⟩
    simp [hopTurn, hres, hf, hl, hnext, Nat.not_le.mpr hmax]

/-- The loop of `follow`: at most `MAX_REQUESTS` requests bound it. -/
def hops (web : Web) (first : Target) : Loop HopState Fetched HopEnd where
  turn := hopTurn web first
  rank s := MAX_REQUESTS - s.requests
  rank_lt h := by
    obtain ⟨res, next, -, -, -, -, hmax, rfl⟩ := hopTurn_again.mp h
    exact Nat.sub_succ_lt_self _ _ hmax

/-- The first target: the gateway's base with the endpoint behind it. -/
def firstTarget (web : Web) (base : JsString) (call : Call) : Option Target :=
  resolveReference web none (base ++ call.endpoint)

/-- The state before the first request. -/
def Call.start (call : Call) (first : Target) : HopState :=
  ⟨1, first, call.method, call.body, false⟩

/-- What fetch is given in a state. -/
def Call.fetch (call : Call) (s : HopState) : Fetch where
  target := s.target
  method := s.verb
  authorization :=
    if call.authorization ≠ [] ∧ s.stripped = false then some call.authorization else none
  contentType := if call.body.isSome then some (js "application/json") else none
  body := s.payload

/-- The run of the loop from the first target. -/
def hopRun (web : Web) (first : Target) (call : Call) (answers : Nat → Fetched) :
    List HopState × HopEnd :=
  (hops web first).run (call.start first) answers

/-- All fetches of one call, in order. -/
def fetches (web : Web) (base : JsString) (call : Call) (answers : Nat → Fetched) : List Fetch :=
  match firstTarget web base call with
  | none => []
  | some first => (hopRun web first call answers).1.map call.fetch

end AgentService
