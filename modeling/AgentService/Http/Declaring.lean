import AgentService.Lib.JsString
import AgentService.Lib.Except

/-!
# Which credential a route requires (`src/auth.ts`)

The policy is a table, and every registration goes through it: a route is registered with the
declaration its entry names, or the process refuses to start. What a declaration accepts is
auth-service's.
-/

namespace AgentService
open Lib

/-- The verbs a router registers. -/
inductive Verb where
  | get
  | post
  | put
  | patch
  | delete
  | head
  | options
  deriving DecidableEq, Repr

/-- `verb.toUpperCase()` -/
def Verb.method : Verb → JsString
  | get => js "GET"
  | post => js "POST"
  | put => js "PUT"
  | patch => js "PATCH"
  | delete => js "DELETE"
  | head => js "HEAD"
  | options => js "OPTIONS"

/-- A tier is a word of the vocabulary or a scope. -/
abbrev Policy := List (JsString × JsString)

def SCOPE_FLEET_CONTROL : JsString := js "fleet:control"

def routePolicy : Policy := [
  (js "GET /health", js "ignore"),
  (js "GET /api/agent/health", js "ignore"),
  (js "GET /api/agent/v1/current-agent", js "session"),
  (js "GET /api/agent/v1/agent", js "session"),
  (js "GET /api/agent/v1/ships", js "session"),
  (js "GET /api/agent/v1/ships/:shipSymbol", js "session"),
  (js "GET /api/agent/v1/contracts", js "session"),
  (js "GET /api/agent/v1/contracts/:contractId", js "session"),
  (js "POST /api/agent/v1/contracts/:contractId/accept", SCOPE_FLEET_CONTROL),
  (js "POST /api/agent/v1/contracts/:contractId/fulfill", SCOPE_FLEET_CONTROL),
  (js "POST /api/agent/v1/ships/purchase", SCOPE_FLEET_CONTROL),
  (js "POST /api/agent/v1/ships/:shipSymbol/purchase", SCOPE_FLEET_CONTROL),
  (js "POST /api/agent/v1/ships/:shipSymbol/sell", SCOPE_FLEET_CONTROL),
  (js "POST /api/agent/v1/contracts/:contractId/deliveries", SCOPE_FLEET_CONTROL),
  (js "GET /api/agent/v1/contracts/:contractId/deliveries", js "none"),
  (js "GET /api/agent/v1/transactions", js "none")]

/-- `SAFE` -/
def Verb.isSafe : Verb → Bool
  | get | head | options => true
  | _ => false

/-- What clerk-client is told to ask of a caller. -/
inductive Declaration where
  | ignoreCredentials
  | allowPublic
  | requireSession
  | requireScope (scope : JsString)
  deriving DecidableEq, Repr

def declarationOf (tier : JsString) : Declaration :=
  if tier = js "ignore" then .ignoreCredentials
  else if tier = js "none" then .allowPublic
  else if tier = js "session" then .requireSession
  else .requireScope tier

/-- A route as tsoa registers it. -/
structure Route (α : Type) where
  verb : Verb
  path : JsString
  handler : α
  deriving DecidableEq

/-- The key of a route in the policy. -/
def Route.key {α : Type} (r : Route α) : JsString := r.verb.method ++ js " " ++ r.path

/-- A route with the declaration that stands before its handler. -/
structure DeclaredRoute (α : Type) extends Route α where
  declaration : Declaration
  deriving DecidableEq

section
variable {α : Type} (policy : Policy)

/-- One registration of `declaring`: an error is what it throws. -/
def register (r : Route α) : Except JsString (DeclaredRoute α) :=
  match policy.lookup r.key with
  | none =>
    .error (js "refusing to start: route " ++ r.key ++
      js " declares no credential requirement (add it to routePolicy in auth.ts)")
  | some tier =>
    if (tier = js "ignore" ∨ tier = js "none") ∧ r.verb.isSafe = false then
      .error (js "refusing to start: route " ++ r.key ++
        js " answers a mutating method but declares no session or scope")
    else .ok { r with declaration := declarationOf tier }

/-- `RegisterRoutes`, through the declaring registrar. -/
def registerRoutes (routes : List (Route α)) : Except JsString (List (DeclaredRoute α)) :=
  routes.mapM (register policy)

/-! ## What a registered route declares -/

/-- The entry of a route says what its declaration does; without a session or a scope
only a safe method is declared. -/
structure Declares (d : DeclaredRoute α) : Prop where
  entry : ∃ tier, policy.lookup d.key = some tier ∧ d.declaration = declarationOf tier
  safe : d.declaration = .ignoreCredentials ∨ d.declaration = .allowPublic → d.verb.isSafe = true

variable {policy}

theorem declarationOf_public {tier : JsString}
    (h : declarationOf tier = .ignoreCredentials ∨ declarationOf tier = .allowPublic) :
    tier = js "ignore" ∨ tier = js "none" := by
  unfold declarationOf at h
  split at h
  · exact .inl ‹_›
  split at h
  · exact .inr ‹_›
  split at h <;> simp at h

theorem register_ok {r : Route α} {d : DeclaredRoute α} (h : register policy r = .ok d) :
    d.toRoute = r ∧ Declares policy d := by
  unfold register at h
  cases htier : policy.lookup r.key with
  | none =>
    rw [htier] at h
    cases h
  | some tier =>
    rw [htier] at h
    dsimp only at h
    split_ifs at h with hpublic
    cases h
    refine ⟨rfl, ⟨tier, htier, rfl⟩, fun hdeclared => ?_⟩
    by_contra hunsafe
    exact hpublic ⟨declarationOf_public hdeclared, by simpa using hunsafe⟩

/-- With all of them registered, each has its declaration, in its place. -/
theorem registerRoutes_ok {routes : List (Route α)} {declared : List (DeclaredRoute α)}
    (h : registerRoutes policy routes = .ok declared) :
    declared.map DeclaredRoute.toRoute = routes ∧ ∀ d ∈ declared, Declares policy d := by
  unfold registerRoutes at h
  induction routes generalizing declared with
  | nil =>
    cases h
    exact ⟨rfl, nofun⟩
  | cons r routes ih =>
    rw [List.mapM_cons] at h
    obtain ⟨d, hd, h⟩ := bind_eq_ok.mp h
    obtain ⟨ds, hds, h⟩ := bind_eq_ok.mp h
    cases h
    obtain ⟨hroute, hdeclares⟩ := register_ok hd
    obtain ⟨hroutes, hall⟩ := ih hds
    exact ⟨by rw [List.map_cons, hroute, hroutes], List.forall_mem_cons.mpr ⟨hdeclares, hall⟩⟩

/-- A route the process does not start with. -/
def RefusesStart (policy : Policy) (r : Route α) : Prop :=
  policy.lookup r.key = none ∨
    (policy.lookup r.key = some (js "ignore") ∨ policy.lookup r.key = some (js "none")) ∧
      r.verb.isSafe = false

theorem register_isOk {r : Route α} :
    (∃ d, register policy r = .ok d) ↔ ¬ RefusesStart policy r := by
  unfold register RefusesStart
  cases policy.lookup r.key with
  | none => simp
  | some tier =>
    dsimp only
    split
    · rename_i hpublic
      simp [hpublic]
    · rename_i hdeclared
      simpa using hdeclared

/-- The process starts exactly with the routes none of which is refused. -/
theorem registerRoutes_isOk {routes : List (Route α)} :
    (∃ declared, registerRoutes policy routes = .ok declared) ↔ ∀ r ∈ routes,
      ¬ RefusesStart policy r := by
  unfold registerRoutes
  induction routes with
  | nil => exact iff_of_true ⟨[], rfl⟩ nofun
  | cons r routes ih =>
    rw [List.mapM_cons, List.forall_mem_cons, ← register_isOk, ← ih]
    constructor
    · rintro ⟨declared, h⟩
      obtain ⟨d, hd, h⟩ := bind_eq_ok.mp h
      obtain ⟨ds, hds, -⟩ := bind_eq_ok.mp h
      exact ⟨⟨d, hd⟩, ds, hds⟩
    · rintro ⟨⟨d, hd⟩, ds, hds⟩
      exact ⟨d :: ds, by rw [hd, ok_bind, hds]; rfl⟩

end

end AgentService
