import AgentService.Controllers.Writes
import AgentService.Http.Declaring
import AgentService.Http.RoutedPath

/-!
# The app, from a request target to a handler (`createApp` of `src/server.ts`)

A request passes `muxCompat`, then the CORS headers, then the routes, each behind its declaration;
what no route takes is the docs' or gets a terminal answer. Express matches a path segment by
segment. What a declaration rejects and what a handler answers are given.
-/

namespace AgentService
open Lib

/-! ## Matching a path -/

/-- A variable of a path takes any segment that is not empty, a literal only itself. -/
def takesSegment (pattern segment : JsString) : Bool :=
  if pattern.head? = some 0x3a then segment != [] else pattern == segment

/-- Express' match of a path, strict and case sensitive. -/
def takesPath (pattern path : JsString) : Bool :=
  let patterns := pattern.splitOn 0x2f
  let segments := path.splitOn 0x2f
  patterns.length == segments.length && (patterns.zip segments).all fun e => takesSegment e.1 e.2

/-- A GET route answers HEAD as well. -/
def Verb.takes (verb : Verb) (method : JsString) : Bool :=
  verb.method == method || (verb == .get && method == js "HEAD")

def Route.takes {α : Type} (r : Route α) (method path : JsString) : Bool :=
  r.verb.takes method && takesPath r.path path

/-! ## Headers -/

/-- What `corsHeaders` sets. -/
def corsHeaders (allowedOrigin : JsString) : List (String × JsString) := [
  ("Access-Control-Allow-Origin", allowedOrigin),
  ("Access-Control-Allow-Methods", js "GET, POST, OPTIONS"),
  ("Access-Control-Allow-Headers", js "Content-Type, Authorization"),
  ("Access-Control-Expose-Headers",
    js "Retry-After, X-RateLimit-Limit, X-RateLimit-Remaining, X-RateLimit-Reset")]

def CORS_HEADER_NAMES : List String :=
  ["Access-Control-Allow-Origin", "Access-Control-Allow-Methods", "Access-Control-Allow-Headers",
    "Access-Control-Expose-Headers"]

/-- An answer behind the headers that are set already. -/
def Answer.behind (headers : List (String × JsString)) (res : Answer) : Answer :=
  { res with headers := headers ++ res.headers }

def Handled.behind (headers : List (String × JsString)) : Handled → Handled
  | answered res => answered (res.behind headers)
  | h => h

deriving instance DecidableEq for Handled

/-- `pageNotFound`: the CORS headers are removed. -/
def pageNotFound (headers : List (String × JsString)) : Answer :=
  ⟨404, (headers.filter fun h => !CORS_HEADER_NAMES.contains h.1) ++
    [("Content-Type", js "text/plain; charset=utf-8"), ("X-Content-Type-Options", js "nosniff")],
    latin1Encode (js "404 page not found\n")⟩

/-- `terminalAnswer` -/
def terminalAnswer (headers : List (String × JsString)) (path : JsString) : Answer :=
  if (js "/api/agent").isPrefixOf path = true then pageNotFound headers
  else ⟨405, headers.filter fun h => !CORS_HEADER_NAMES.contains h.1, []⟩

/-! ## The docs (`src/swagger.ts`) -/

def SWAGGER_PATH : JsString := js "/api/agent/swagger"

def ASSETS : List JsString :=
  [js "/swagger-ui.css", js "/swagger-ui-bundle.js", js "/swagger-ui-standalone-preset.js",
    js "/favicon-16x16.png", js "/favicon-32x32.png"]

/-- The path under the mount, if the mount takes the path. -/
def underSwagger (path : JsString) : Option JsString :=
  if SWAGGER_PATH.isPrefixOf path = true then
    let rest := path.drop SWAGGER_PATH.length
    if rest = [] then some (js "/") else if rest.head? = some 0x2f then some rest else none
  else none

/-- What the docs serve: the page, its script and the files it references. -/
def isDoc (path : JsString) : Bool :=
  ([js "/", js "/index.html", js "/swagger-ui-init.js"] ++ ASSETS).contains path

/-! ## A request -/

structure Incoming where
  method : JsString
  /-- The request target. -/
  url : JsString
  authorization : Option JsString
  body : Option BodyRead

structure App (α : Type) where
  corsAllowedOrigin : JsString
  routes : List (DeclaredRoute α)
  /-- The answer a declaration rejects a request with; none lets it through. -/
  auth : Declaration → Incoming → Option Answer
  /-- What a handler answers, or what the error handler answers for it. -/
  handle : α → RoutedRequest → Incoming → Handled
  /-- A page or a file of the docs. -/
  docs : JsString → Answer

/-- What a request comes to, and the route whose handler ran, with the request as it is routed. -/
structure Served (α : Type) where
  handled : Handled
  reached : Option (RoutedRequest × DeclaredRoute α)

namespace App
variable {α : Type} (app : App α)

/-- The path Express routes on. -/
def pathOf (routed : RoutedRequest) : JsString := before 0x3f routed.url

/-- What no route takes. -/
def unrouted (method : JsString) (routed : RoutedRequest) : Answer :=
  let cors := corsHeaders app.corsAllowedOrigin
  match underSwagger (pathOf routed) with
  | some path =>
    if latin1Decode routed.decodedPath = SWAGGER_PATH ∨ (method ≠ js "GET" ∧ method ≠ js "HEAD") ∨
        isDoc path = false then
      pageNotFound cors
    else (app.docs path).behind cors
  | none => terminalAnswer cors (pathOf routed)

/-- The route that takes a request. -/
def routeOf (method : JsString) (routed : RoutedRequest) : Option (DeclaredRoute α) :=
  app.routes.find? fun r => r.takes method (pathOf routed)

def serve (req : Incoming) : Served α :=
  let cors := corsHeaders app.corsAllowedOrigin
  match muxCompat req.url with
  | .answered res => ⟨.answered res, none⟩
  | .next routed =>
    if req.method = js "OPTIONS" then ⟨.answered ⟨204, cors, []⟩, none⟩
    else
      match app.routeOf req.method routed with
      | none => ⟨.answered (app.unrouted req.method routed), none⟩
      | some r =>
        match app.auth r.declaration req with
        | some rejection => ⟨.answered (rejection.behind cors), none⟩
        | none => ⟨(app.handle r.handler routed req).behind cors, some (routed, r)⟩

/-- The five ways a request can go. -/
inductive Serves (req : Incoming) : Served α → Prop
  | refused {res : Answer} (hmux : muxCompat req.url = .answered res) :
      Serves req ⟨.answered res, none⟩
  | preflight {routed : RoutedRequest} (hmux : muxCompat req.url = .next routed)
      (hmethod : req.method = js "OPTIONS") :
      Serves req ⟨.answered ⟨204, corsHeaders app.corsAllowedOrigin, []⟩, none⟩
  | unrouted {routed : RoutedRequest} (hmux : muxCompat req.url = .next routed)
      (hmethod : req.method ≠ js "OPTIONS") (hroute : app.routeOf req.method routed = none) :
      Serves req ⟨.answered (app.unrouted req.method routed), none⟩
  | rejected {routed : RoutedRequest} {r : DeclaredRoute α} {rejection : Answer}
      (hmux : muxCompat req.url = .next routed) (hmethod : req.method ≠ js "OPTIONS")
      (hroute : app.routeOf req.method routed = some r)
      (hauth : app.auth r.declaration req = some rejection) :
      Serves req ⟨.answered (rejection.behind (corsHeaders app.corsAllowedOrigin)), none⟩
  | reached {routed : RoutedRequest} {r : DeclaredRoute α} (hmux : muxCompat req.url = .next routed)
      (hmethod : req.method ≠ js "OPTIONS") (hroute : app.routeOf req.method routed = some r)
      (hauth : app.auth r.declaration req = none) :
      Serves req ⟨(app.handle r.handler routed req).behind (corsHeaders app.corsAllowedOrigin),
        some (routed, r)⟩

theorem serve_serves (req : Incoming) : app.Serves req (app.serve req) := by
  unfold serve
  cases hmux : muxCompat req.url with
  | answered res => exact .refused hmux
  | next routed =>
    dsimp only
    split
    · exact .preflight hmux ‹_›
    · cases hroute : app.routeOf req.method routed with
      | none => exact .unrouted hmux ‹_› hroute
      | some r =>
        dsimp only
        cases hauth : app.auth r.declaration req with
        | some rejection => exact .rejected hmux ‹_› hroute hauth
        | none => exact .reached hmux ‹_› hroute hauth

/-! ## What was checked when a handler runs -/

/-- Everything a request has passed when its handler runs. -/
structure Admits (policy : Policy) (req : Incoming) (routed : RoutedRequest) (r : DeclaredRoute α) :
    Prop where
  clean : muxCompat req.url = .next routed
  notPreflight : req.method ≠ js "OPTIONS"
  registered : r ∈ app.routes
  taken : r.takes req.method (pathOf routed) = true
  declares : Declares policy r
  accepted : app.auth r.declaration req = none
  /-- Without a session or a scope it only reads. -/
  reads : r.declaration = .ignoreCredentials ∨ r.declaration = .allowPublic →
    req.method = js "GET" ∨ req.method = js "HEAD"

variable {app} {policy : Policy} {routes : List (Route α)} {req : Incoming} {routed : RoutedRequest}
    {r : DeclaredRoute α}

/-- A safe verb that is no preflight answers reads only. -/
theorem reads_of_isSafe {verb : Verb} {method : JsString} (hsafe : verb.isSafe = true)
    (htakes : verb.takes method = true) (hmethod : method ≠ js "OPTIONS") :
    method = js "GET" ∨ method = js "HEAD" := by
  unfold Verb.takes at htakes
  simp only [Bool.or_eq_true, Bool.and_eq_true, beq_iff_eq] at htakes
  cases verb with
  | get =>
    rcases htakes with rfl | ⟨-, rfl⟩
    · exact .inl rfl
    · exact .inr rfl
  | head =>
    rcases htakes with rfl | ⟨hget, -⟩
    · exact .inr rfl
    · cases hget
  | options =>
    rcases htakes with rfl | ⟨hget, -⟩
    · exact absurd rfl hmethod
    · cases hget
  | _ => cases hsafe

/-- A handler runs for no request but one that was routed as it is, taken by a registered route, and
let through by what the route's entry in the policy declares. -/
theorem reached_admits (hroutes : registerRoutes policy routes = .ok app.routes)
    (hreached : (app.serve req).reached = some (routed, r)) : app.Admits policy req routed r := by
  have hserves := app.serve_serves req
  generalize app.serve req = served at hserves hreached
  cases hserves with
  | reached hmux hmethod hroute hauth =>
    cases hreached
    have hmem := List.mem_of_find?_eq_some hroute
    have htaken := List.find?_some hroute
    have hdeclares := (registerRoutes_ok hroutes).2 r hmem
    refine ⟨hmux, hmethod, hmem, htaken, hdeclares, hauth, fun hpublic => ?_⟩
    simp only [Route.takes, Bool.and_eq_true] at htaken
    exact reads_of_isSafe (hdeclares.safe hpublic) htaken.1 hmethod
  | _ => cases hreached

/-! ## The CORS headers -/

/-- The docs have nothing for a path under their mount: the mount itself, another
method, another file. -/
def IsNoDoc (method : JsString) (routed : RoutedRequest) (path : JsString) : Prop :=
  latin1Decode routed.decodedPath = SWAGGER_PATH ∨ (method ≠ js "GET" ∧ method ≠ js "HEAD") ∨
    isDoc path = false

/-- Nothing matched: `muxCompat` answered, or no route takes the request and the docs
do not serve it. -/
def IsForNone (app : App α) (req : Incoming) : Prop :=
  (∃ res, muxCompat req.url = .answered res) ∨
    ∃ routed, muxCompat req.url = .next routed ∧ req.method ≠ js "OPTIONS" ∧
      app.routeOf req.method routed = none ∧
      ∀ path, underSwagger (pathOf routed) = some path → IsNoDoc req.method routed path

def HasNoCors (res : Answer) : Prop := ∀ h ∈ res.headers, CORS_HEADER_NAMES.contains h.1 = false

theorem hasNoCors_filter (headers : List (String × JsString)) :
    ∀ h ∈ headers.filter fun h => !CORS_HEADER_NAMES.contains h.1,
      CORS_HEADER_NAMES.contains h.1 = false := by
  intro h hmem
  simpa using (List.mem_filter.mp hmem).2

theorem hasNoCors_pageNotFound (headers : List (String × JsString)) :
    HasNoCors (pageNotFound headers) := by
  refine List.forall_mem_append.mpr ⟨hasNoCors_filter headers, ?_⟩
  simp [CORS_HEADER_NAMES]

theorem hasNoCors_terminalAnswer (headers : List (String × JsString)) (path : JsString) :
    HasNoCors (terminalAnswer headers path) := by
  unfold terminalAnswer
  split
  · exact hasNoCors_pageNotFound headers
  · exact hasNoCors_filter headers

theorem hasNoCors_muxCompat {url : JsString} {res : Answer} (h : muxCompat url = .answered res) :
    HasNoCors res := by
  rcases muxCompat_cases url with hbad | ⟨target, decoded, -, -, ⟨-, hmoved⟩ | ⟨-, hnext⟩⟩
  · rw [hbad] at h
    cases h
    simp [HasNoCors, badRequest, CORS_HEADER_NAMES]
  · rw [hmoved] at h
    cases h
    simp [HasNoCors, movedTo, CORS_HEADER_NAMES]
  · rw [hnext] at h
    cases h

/-- What no route takes has the CORS headers where the docs serve it, and nowhere else. -/
theorem unrouted_cors (app : App α) (method : JsString) (routed : RoutedRequest) :
    ((∀ path, underSwagger (pathOf routed) = some path → IsNoDoc method routed path) ∧
        HasNoCors (app.unrouted method routed)) ∨
      ((∃ path, underSwagger (pathOf routed) = some path ∧ ¬ IsNoDoc method routed path) ∧
        corsHeaders app.corsAllowedOrigin <+: (app.unrouted method routed).headers) := by
  unfold unrouted
  cases hunder : underSwagger (pathOf routed) with
  | none => exact .inl ⟨nofun, hasNoCors_terminalAnswer _ _⟩
  | some path =>
    dsimp only
    split
    · refine .inl ⟨fun path' hpath => ?_, hasNoCors_pageNotFound _⟩
      cases hpath
      assumption
    · exact .inr ⟨⟨path, rfl, ‹_›⟩, List.prefix_append _ _⟩

/-- The CORS headers come first in every answer a matched route, the docs or a preflight gets, and
none of them is in an answer for nothing that matched. -/
theorem cors_iff_matched (app : App α) (req : Incoming) (res : Answer)
    (h : (app.serve req).handled = .answered res) :
    (app.IsForNone req ∧ HasNoCors res) ∨
      (¬ app.IsForNone req ∧ corsHeaders app.corsAllowedOrigin <+: res.headers) := by
  have hmatched {routed : RoutedRequest} (hmux : muxCompat req.url = .next routed)
      (hother : req.method = js "OPTIONS" ∨ app.routeOf req.method routed ≠ none ∨
        ∃ path, underSwagger (pathOf routed) = some path ∧ ¬ IsNoDoc req.method routed path) :
      ¬ app.IsForNone req := by
    rintro (⟨res, hanswered⟩ | ⟨routed', hnext, hmethod, hroute, hdocs⟩)
    · cases hmux.symm.trans hanswered
    · cases hmux.symm.trans hnext
      rcases hother with hoptions | hsome | ⟨path, hunder, hdoc⟩
      · exact hmethod hoptions
      · exact hsome hroute
      · exact hdoc (hdocs path hunder)
  have hserves := app.serve_serves req
  generalize app.serve req = served at hserves h
  cases hserves with
  | refused hmux =>
    cases h
    exact .inl ⟨.inl ⟨_, hmux⟩, hasNoCors_muxCompat hmux⟩
  | preflight hmux hmethod =>
    cases h
    exact .inr ⟨hmatched hmux (.inl hmethod), List.prefix_refl _⟩
  | unrouted hmux hmethod hroute =>
    cases h
    rcases app.unrouted_cors req.method _ with ⟨hdocs, hplain⟩ | ⟨hdoc, hcors⟩
    · exact .inl ⟨.inr ⟨_, hmux, hmethod, hroute, hdocs⟩, hplain⟩
    · exact .inr ⟨hmatched hmux (.inr (.inr hdoc)), hcors⟩
  | rejected hmux hmethod hroute hauth =>
    cases h
    exact .inr ⟨hmatched hmux (.inr (.inl (by rw [hroute]; exact Option.some_ne_none _))),
      List.prefix_append _ _⟩
  | reached hmux hmethod hroute hauth =>
    refine .inr ⟨hmatched hmux (.inr (.inl (by rw [hroute]; exact Option.some_ne_none _))), ?_⟩
    dsimp only at h
    unfold Handled.behind at h
    split at h
    · cases h
      exact List.prefix_append _ _
    · rename_i hno
      exact absurd h (hno res)

/-- An app without routes, asked for a page its docs do not have. -/
theorem cors_iff_matched_swagger :
    let app : App Unit :=
      ⟨js "*", [], fun _ _ => none, fun _ _ _ => .nothing, fun _ => ⟨200, [], []⟩⟩
    ∃ res, (app.serve ⟨js "GET", js "/api/agent/swagger/README", none, none⟩).handled =
        .answered res ∧ HasNoCors res := by
  intro app
  have hanswered : (app.serve ⟨js "GET", js "/api/agent/swagger/README", none, none⟩).handled =
    .answered (pageNotFound (corsHeaders (js "*"))) := by decide +kernel
  refine ⟨_, hanswered, ?_⟩
  rcases cors_iff_matched app _ _ hanswered with ⟨-, h⟩ | ⟨-, h⟩
  · exact h
  · exact absurd h (by decide +kernel)

end App

end AgentService
