import AgentService.App
import AgentService.Controllers.HistoryAnswers
import Mathlib.Data.List.Find

/-!
# The routes of the controllers (`src/controllers/*.ts`)

The decorators name every route; tsoa joins them into Express paths and registers them, in an order
of its own. No two routes take the same request, so the order does not matter, and what a route's
variable takes is what its handler cuts out of the decoded path.
-/

namespace AgentService
open Lib

/-! ## A path in bytes -/

def isVariable (pattern : JsString) : Bool := pattern.head? = some 0x3a

/-- A literal that the escape leaves as it is. -/
def isPlain (pattern : JsString) : Bool :=
  pattern.all fun u => decide (u < 0x80) && isUnreserved u.toUInt8

/-- A segment of the decoded path is what a segment of a route asks for. -/
def FitsSegment (pattern : JsString) (segment : Bytes) : Prop :=
  if isVariable pattern = true then segment ≠ [] else segment = latin1Encode pattern

/-- Without a percent sign nothing is decoded. -/
theorem percentDecode_plain {bs : Bytes} (h : ∀ b ∈ bs, b ≠ 0x25) : percentDecode bs = some bs := by
  induction bs with
  | nil => rfl
  | cons b bs ih =>
    obtain ⟨hb, hbs⟩ := List.forall_mem_cons.mp h
    rw [percentDecode_cons hb, ih hbs, Option.map_some]

theorem percentEncode_plain {keep : UInt8 → Bool} {bs : Bytes} (h : ∀ b ∈ bs, keep b = true) :
    percentEncode keep bs = bs := by
  induction bs with
  | nil => rfl
  | cons b bs ih =>
    obtain ⟨hb, hbs⟩ := List.forall_mem_cons.mp h
    rw [percentEncode_cons, if_pos hb, ih hbs, List.singleton_append]

/-- The escape of a segment is a plain literal for that literal's bytes only. -/
theorem escapeForRouting_eq_iff {lit : JsString} (h : isPlain lit = true) (s : Bytes) :
    escapeForRouting (lossyUtf8 s) = lit ↔ s = latin1Encode lit := by
  simp only [isPlain, List.all_eq_true, Bool.and_eq_true, decide_eq_true_eq] at h
  have hlatin := (latin1_of_ascii fun u hu => (h u hu).1).1
  have hunreserved : ∀ b ∈ latin1Encode lit, isUnreserved b = true := by
    intro b hb
    obtain ⟨u, hu, rfl⟩ := List.mem_map.mp hb
    exact (h u hu).2
  have hbyte : ∀ b : UInt8, isUnreserved b = true → b ≠ 0 ∧ b < 0x80 ∧ b ≠ 0x25 :=
    forall_byte (by decide +kernel)
  rw [← lossyUtf8_eq_iff (fun b hb => ⟨(hbyte b (hunreserved b hb)).1,
    (hbyte b (hunreserved b hb)).2.1⟩) s, escapeForRouting, escapeWith]
  constructor
  · intro heq
    have henc := congrArg latin1Encode heq
    rw [latin1Encode_decode] at henc
    have hdec := @percentDecode_encode (fun c => isUnreserved c ||
      (js "/!$&'()*+,;=:@").contains c.toUInt16) (by decide) (lossyUtf8 s)
    rw [henc, percentDecode_plain fun b hb => (hbyte b (hunreserved b hb)).2.2] at hdec
    exact (Option.some.inj hdec).symm
  · intro heq
    rw [heq, percentEncode_plain (fun b hb => by simp [hunreserved b hb]), hlatin]

/-- A route's segment takes the routed URL exactly where it fits the decoded bytes. -/
theorem takesSegment_iff {pattern : JsString}
    (h : isVariable pattern = true ∨ isPlain pattern = true) (s : Bytes) :
    takesSegment pattern (escapeForRouting (lossyUtf8 s)) = true ↔ FitsSegment pattern s := by
  unfold takesSegment FitsSegment isVariable at *
  by_cases hvar : pattern.head? = some 0x3a
  · simp only [hvar, if_true, decide_true, bne_iff_ne, ne_eq]
    refine not_congr ⟨fun hnil => ?_, ?_⟩
    · have hnone : ∀ b ∈ ([] : Bytes), b ≠ 0 ∧ b < 0x80 := by simp
      exact (lossyUtf8_eq_iff hnone s).mp (percentEncode_eq_nil (List.map_eq_nil_iff.mp hnil))
    · rintro rfl
      rfl
  · simp only [hvar, if_false, decide_false, beq_iff_eq, Bool.false_eq_true]
    rw [eq_comm]
    exact escapeForRouting_eq_iff (h.resolve_left (by simpa using hvar)) s

/-- The path of a route: literals the escape keeps, and variables. -/
def IsRoutePath (path : JsString) : Prop :=
  ∀ p ∈ path.splitOn 0x2f, isVariable p = true ∨ isPlain p = true

/-- The router's match of the rewritten URL is a match of the bytes the handlers read. -/
theorem takesPath_iff {url path : JsString} {routed : RoutedRequest}
    (hmux : muxCompat url = .next routed) (hpath : IsRoutePath path) :
    takesPath path (App.pathOf routed) = true ↔
      List.Forall₂ FitsSegment (path.splitOn 0x2f) (routed.decodedPath.splitOn 0x2f) := by
  unfold takesPath App.pathOf
  rw [routed_segments hmux, Bool.and_eq_true, beq_iff_eq, List.length_map, List.zip_map_right,
    List.all_map, List.all_eq_true, List.forall₂_iff_zip]
  refine and_congr_right fun _ => ⟨fun h p s hmem => ?_, fun h e hmem => ?_⟩
  · exact (takesSegment_iff (hpath p (List.of_mem_zip hmem).1) s).mp (h (p, s) hmem)
  · exact (takesSegment_iff (hpath e.1 (List.of_mem_zip hmem).1) e.2).mpr (h hmem)

/-! ## The symbol of a path -/

/-- A route's path with a symbol for its variable. -/
def withSymbol (path : JsString) (symbol : Bytes) : Bytes :=
  [0x2f].intercalate ((path.splitOn 0x2f).map fun p => if isVariable p = true then symbol
    else latin1Encode p)

/-- The one variable of a path is where a handler looks for its symbol, if it looks for one. -/
structure VariableAt (path : JsString) (fromEnd : Option Nat) : Prop where
  only : ∀ i < (path.splitOn 0x2f).length, isVariable ((path.splitOn 0x2f).reverse.getD i []) =
    decide (fromEnd = some i)
  inside : ∀ k ∈ fromEnd, k < (path.splitOn 0x2f).length

/-- The symbol of a request. -/
def symbolOf (routed : RoutedRequest) (fromEnd : Option Nat) : Bytes :=
  (fromEnd.map (segmentFromEnd routed)).getD []

section
variable {path : JsString} {routed : RoutedRequest} {fromEnd : Option Nat}

/-- Counted from the end, a segment of the path fits its pattern. -/
theorem fits_fromEnd (hfits : List.Forall₂ FitsSegment (path.splitOn 0x2f)
    (routed.decodedPath.splitOn 0x2f)) {i : Nat} (hi : i < (path.splitOn 0x2f).length) :
    FitsSegment ((path.splitOn 0x2f).reverse.getD i []) (segmentFromEnd routed i) := by
  have hsegment : segmentFromEnd routed i =
      ((routed.decodedPath.splitOn 0x2f).reverse[i]?).getD [] :=
    segmentBefore_eq i routed.decodedPath
  have hrev := List.forall₂_reverse_iff.mpr hfits
  have hp : i < (path.splitOn 0x2f).reverse.length := by simpa using hi
  have hs : i < (routed.decodedPath.splitOn 0x2f).reverse.length := hrev.length_eq ▸ hp
  have hfit := hrev.get hp hs
  rw [List.get_eq_getElem, List.get_eq_getElem] at hfit
  rwa [hsegment, List.getElem?_eq_getElem hs, Option.getD_some, List.getD_eq_getElem?_getD,
    List.getElem?_eq_getElem hp, Option.getD_some]

/-- The decoded path is the route's, with what the handler reads in place of the variable. -/
theorem decodedPath_eq_withSymbol
    (hfits : List.Forall₂ FitsSegment (path.splitOn 0x2f) (routed.decodedPath.splitOn 0x2f))
    (hvar : VariableAt path fromEnd) :
    routed.decodedPath = withSymbol path (symbolOf routed fromEnd) := by
  have hjoined : [0x2f].intercalate (routed.decodedPath.splitOn 0x2f) = routed.decodedPath :=
    List.intercalate_splitOn 0x2f
  conv_lhs => rw [← hjoined]
  rw [withSymbol]
  congr 1
  rw [← List.reverse_inj, ← List.map_reverse]
  have hlength := hfits.length_eq
  refine List.ext_getElem (by simp [hlength]) fun i hs hp => ?_
  rw [List.length_map, List.length_reverse] at hp
  have hfit := fits_fromEnd hfits hp
  have honly := hvar.only i hp
  have hsegment : (routed.decodedPath.splitOn 0x2f).reverse[i] = segmentFromEnd routed i := by
    rw [segmentFromEnd, segmentBefore_eq, List.getElem?_eq_getElem hs, Option.getD_some]
  rw [List.getD_eq_getElem?_getD, List.getElem?_eq_getElem (by simpa using hp),
    Option.getD_some] at hfit honly
  rw [List.getElem_map, hsegment]
  unfold FitsSegment at hfit
  split_ifs at hfit ⊢ with hvariable
  · rw [honly, decide_eq_true_eq] at hvariable
    rw [symbolOf, hvariable]
    rfl
  · exact hfit

/-- A symbol is never empty. -/
theorem symbolOf_ne_nil (hfits : List.Forall₂ FitsSegment (path.splitOn 0x2f)
    (routed.decodedPath.splitOn 0x2f)) (hvar : VariableAt path fromEnd) (hsome : fromEnd ≠ none) :
    symbolOf routed fromEnd ≠ [] := by
  obtain ⟨k, rfl⟩ := Option.ne_none_iff_exists'.mp hsome
  have hk := hvar.inside k rfl
  have hfit := fits_fromEnd hfits hk
  have honly : isVariable ((path.splitOn 0x2f).reverse.getD k []) = true :=
    (hvar.only k hk).trans (decide_eq_true rfl)
  rwa [FitsSegment, if_pos honly] at hfit

end

/-! ## The operations -/

/-- The methods of the controllers. -/
inductive Operation where
  | health
  | apiHealth
  | getCurrentAgent
  | getAgent
  | getShips
  | getShip
  | getContracts
  | getContract
  | write (route : WriteRoute)
  | recordDelivery
  | getDeliveries
  | getTransactions
  deriving DecidableEq, Repr

namespace Operation

/-- `@Get` or `@Post`. -/
def verb : Operation → Verb
  | write _ | recordDelivery => .post
  | _ => .get

/-- `@Route` and the path of the method, as tsoa registers them. -/
def path : Operation → JsString
  | health => js "/health"
  | apiHealth => js "/api/agent/health"
  | getCurrentAgent => js "/api/agent/v1/current-agent"
  | getAgent => js "/api/agent/v1/agent"
  | getShips => js "/api/agent/v1/ships"
  | getShip => js "/api/agent/v1/ships/:shipSymbol"
  | getContracts => js "/api/agent/v1/contracts"
  | getContract => js "/api/agent/v1/contracts/:contractId"
  | write .acceptContract => js "/api/agent/v1/contracts/:contractId/accept"
  | write .fulfillContract => js "/api/agent/v1/contracts/:contractId/fulfill"
  | write .purchaseShip => js "/api/agent/v1/ships/purchase"
  | write .purchaseCargo => js "/api/agent/v1/ships/:shipSymbol/purchase"
  | write .sellCargo => js "/api/agent/v1/ships/:shipSymbol/sell"
  | recordDelivery => js "/api/agent/v1/contracts/:contractId/deliveries"
  | getDeliveries => js "/api/agent/v1/contracts/:contractId/deliveries"
  | getTransactions => js "/api/agent/v1/transactions"

def route (op : Operation) : Route Operation := ⟨op.verb, op.path, op⟩

def all : List Operation :=
  [health, apiHealth, getCurrentAgent, getAgent, getShips, getShip, getContracts, getContract,
    write .acceptContract, write .fulfillContract, recordDelivery, getDeliveries, getTransactions,
    write .purchaseShip,
  write .purchaseCargo, write .sellCargo]

/-- The segment a handler reads its symbol from, counted from the end. -/
def symbolFromEnd : Operation → Option Nat
  | getShip | getContract => some 0
  | write .acceptContract | write .fulfillContract | write .purchaseCargo | write .sellCargo =>
    some 1
  | recordDelivery | getDeliveries => some 1
  | _ => none

end Operation

/-- What `RegisterRoutes` registers, in the order of the controllers. -/
def ROUTES : List (Route Operation) := Operation.all.map Operation.route

theorem isRoutePath_path (op : Operation) : IsRoutePath op.path := by
  cases op with
  | write route => cases route <;> unfold IsRoutePath <;> decide +kernel
  | _ => unfold IsRoutePath; decide +kernel

theorem variableAt_path (op : Operation) : VariableAt op.path op.symbolFromEnd := by
  cases op with
  | write route => cases route <;> exact ⟨by decide +kernel, by decide +kernel⟩
  | _ => exact ⟨by decide +kernel, by decide +kernel⟩

/-! ## Every order of registration -/

/-- A verb and another that answer one method. -/
def Verb.meets (v w : Verb) : Bool :=
  v == w || (v == .get && w == .head) || (v == .head && w == .get)

/-- Two verbs that take one method meet. -/
theorem Verb.meets_of_takes {v w : Verb} {method : JsString} (hv : v.takes method = true)
    (hw : w.takes method = true) : v.meets w = true := by
  have hmethod : ∀ u : Verb, u.takes method = true → method = u.method ∨ u = .get ∧
      method = Verb.head.method := by
    intro u hu
    unfold Verb.takes at hu
    simp only [Bool.or_eq_true, Bool.and_eq_true, beq_iff_eq] at hu
    exact hu.imp Eq.symm id
  have hinjective : Function.Injective Verb.method := by
    intro u u' heq
    cases u <;> cases u' <;> first | rfl | exact absurd heq (by decide)
  unfold Verb.meets
  rcases hmethod v hv with h | ⟨rfl, h⟩ <;> rcases hmethod w hw with h' | ⟨rfl, h'⟩
  · rw [hinjective (h.symm.trans h')]
    simp
  · rw [hinjective (h.symm.trans h')]
    simp
  · rw [← hinjective (h.symm.trans h')]
    simp
  · simp

/-- Two routes that take no request both: another method, another number of segments,
or two literals that differ. -/
def apart {α β : Type} (r : Route α) (s : Route β) : Bool :=
  let patterns := r.path.splitOn 0x2f
  let patterns' := s.path.splitOn 0x2f
  !r.verb.meets s.verb || patterns.length != patterns'.length ||
    (patterns.zip patterns').any fun e => !isVariable e.1 && !isVariable e.2 && e.1 != e.2

theorem takesSegment_literals {p q s : JsString} (hp : takesSegment p s = true)
    (hq : takesSegment q s = true) : (!isVariable p && !isVariable q && p != q) = false := by
  unfold takesSegment at hp hq
  unfold isVariable
  split_ifs at hp hq with hpvar hqvar
  · simp [hpvar]
  · simp [hpvar]
  · rename_i hqvar
    simp [hqvar]
  · rw [beq_iff_eq] at hp hq
    simp [hp, hq]

/-- Two routes that take one path differ in a variable only. -/
theorem takesPath_zip {segments : List JsString} : ∀ {ps qs : List JsString},
    ps.length = segments.length → qs.length = segments.length →
      ((ps.zip segments).all fun e => takesSegment e.1 e.2) = true →
      ((qs.zip segments).all fun e => takesSegment e.1 e.2) = true →
        ((ps.zip qs).any fun e => !isVariable e.1 && !isVariable e.2 && e.1 != e.2) = false := by
  induction segments with
  | nil =>
    intro ps qs hps hqs _ _
    rw [List.length_eq_zero_iff.mp hps]
    rfl
  | cons s segments ih =>
    intro ps qs hps hqs hp hq
    obtain ⟨p, ps, rfl⟩ := List.exists_cons_of_length_eq_add_one hps
    obtain ⟨q, qs, rfl⟩ := List.exists_cons_of_length_eq_add_one hqs
    simp only [List.zip_cons_cons, List.all_cons, Bool.and_eq_true, List.length_cons,
      Nat.add_right_cancel_iff] at hp hq hps hqs
    rw [List.zip_cons_cons, List.any_cons, ih hps hqs hp.2 hq.2, takesSegment_literals hp.1 hq.1]
    rfl

/-- Routes that are apart take no request both. -/
theorem not_apart {α β : Type} {r : Route α} {s : Route β} {method path : JsString}
    (hr : r.takes method path = true) (hs : s.takes method path = true) : apart r s = false := by
  unfold Route.takes takesPath at hr hs
  simp only [Bool.and_eq_true, beq_iff_eq] at hr hs
  unfold apart
  simp only [Verb.meets_of_takes hr.1 hs.1, hr.2.1, hs.2.1,
    takesPath_zip hr.2.1 hs.2.1 hr.2.2 hs.2.2, Bool.not_true, bne_self_eq_false, Bool.or_self]

/-- A route with what its entry declares. -/
def declare {α : Type} (policy : Policy) (r : Route α) : DeclaredRoute α :=
  { r with declaration := declarationOf ((policy.lookup r.key).getD []) }

/-- What is registered are the routes with their declarations, in their order. -/
theorem registerRoutes_eq_map {α : Type} {policy : Policy} {routes : List (Route α)}
    {declared : List (DeclaredRoute α)} (h : registerRoutes policy routes = .ok declared) :
    declared = routes.map (declare policy) := by
  obtain ⟨hroutes, hdeclares⟩ := registerRoutes_ok h
  rw [← hroutes, List.map_map]
  refine ((List.map_congr_left fun d hd => ?_).trans (List.map_id declared)).symm
  obtain ⟨tier, htier, hdeclaration⟩ := (hdeclares d hd).entry
  rw [Function.comp_apply, id_eq, declare, htier, Option.getD_some, ← hdeclaration]

/-- Where no two routes meet, their order does not matter. -/
theorem find?_declared {α : Type} {policy : Policy} {routes routes' : List (Route α)}
    (hperm : routes.Perm routes') (hapart : routes.Pairwise fun r s => apart r s = true)
    (method path : JsString) :
    ((routes.map (declare policy)).find? fun r => r.takes method path) =
      (routes'.map (declare policy)).find? fun r => r.takes method path := by
  refine List.find?_eq_find?_of_perm (hperm.map _) ?_
  rintro _ ⟨hmem, htaken⟩ _ ⟨hmem', htaken'⟩
  obtain ⟨r, hr, rfl⟩ := List.mem_map.mp hmem
  obtain ⟨s, hs, rfl⟩ := List.mem_map.mp hmem'
  have hpairwise :=
    hapart.imp (S := fun r s => ¬ (r.takes method path = true ∧ s.takes method path = true))
      fun h htakes => Bool.false_ne_true ((not_apart htakes.1 htakes.2).symm.trans h)
  have hsymm : Std.Symm fun r s : Route α =>
    ¬ (r.takes method path = true ∧ s.takes method path = true) :=
    ⟨fun _ _ h h' => h h'.symm⟩
  by_contra hne
  exact hpairwise.forall hr hs (fun h => hne (congrArg _ h)) ⟨htaken, htaken'⟩

/-- No request is taken by two of the service's routes. -/
theorem routes_apart : ROUTES.Pairwise fun r s => apart r s = true := by decide +kernel

/-- And each of them has what it needs to be registered. -/
theorem routes_declared : ∀ r ∈ ROUTES, ¬ RefusesStart routePolicy r := by
  unfold RefusesStart
  decide +kernel

theorem registerRoutes_routes :
    registerRoutes routePolicy ROUTES = .ok (ROUTES.map (declare routePolicy)) := by
  obtain ⟨declared, hdeclared⟩ := registerRoutes_isOk.mpr routes_declared
  rw [hdeclared, registerRoutes_eq_map hdeclared]

/-- An app whose auth-service lets everyone through. -/
def openApp : App Operation where
  corsAllowedOrigin := js "*"
  routes := ROUTES.map (declare routePolicy)
  auth _ _ := none
  handle _ _ _ := .answered ⟨200, [], []⟩
  docs _ := ⟨200, [], []⟩

section
variable {app : App Operation} {routes : List (Route Operation)}

/-- In whatever order the routes are registered, the process starts and every request
is served alike. -/
theorem registration_order (app : App Operation) (hperm : routes.Perm ROUTES) :
    ∃ declared, registerRoutes routePolicy routes = .ok declared ∧
      ∀ req, ({ app with routes := declared } : App Operation).serve req =
        ({ app with routes := ROUTES.map (declare routePolicy) } : App Operation).serve req := by
  obtain ⟨declared, hdeclared⟩ := registerRoutes_isOk.mpr fun r hr =>
    routes_declared r (hperm.mem_iff.mp hr)
  refine ⟨declared, hdeclared, fun req => ?_⟩
  have hroute (method : JsString) (routed : RoutedRequest) :
      ({ app with routes := declared } : App Operation).routeOf method routed =
        ({ app with routes := ROUTES.map (declare routePolicy) } : App Operation).routeOf method
        routed := by
    unfold App.routeOf
    rw [registerRoutes_eq_map hdeclared]
    exact (find?_declared hperm.symm routes_apart method _).symm
  unfold App.serve
  simp only [hroute]
  rfl

theorem registration_order_reverse :
    ∃ declared, registerRoutes routePolicy ROUTES.reverse = .ok declared ∧
      ∀ req, ({ openApp with routes := declared } : App Operation).serve req = openApp.serve req :=
  registration_order openApp (List.reverse_perm ROUTES)

/-! ## What an operation runs for -/

/-- What the entry of an operation declares. -/
def Operation.declaration (op : Operation) : Declaration :=
  (declare routePolicy op.route).declaration

/-- A piece of a clean path. -/
structure IsSymbol (s : Bytes) : Prop where
  notEmpty : s ≠ []
  noSlash : 0x2f ∉ s
  noDots : latin1Decode s ≠ js "." ∧ latin1Decode s ≠ js ".."

/-- What a request has passed when an operation runs for it, and what the operation
reads of its path. -/
structure Runs (app : App Operation) (op : Operation) (req : Incoming) (routed : RoutedRequest) :
    Prop where
  clean : muxCompat req.url = .next routed
  method : op.verb.takes req.method = true
  accepted : app.auth op.declaration req = none
  path : routed.decodedPath = withSymbol op.path (symbolOf routed op.symbolFromEnd)
  symbol : op.symbolFromEnd ≠ none → IsSymbol (symbolOf routed op.symbolFromEnd)

theorem mem_segments {routed : RoutedRequest} {k : Nat} (h : segmentFromEnd routed k ≠ []) :
    segmentFromEnd routed k ∈ routed.decodedPath.splitOn 0x2f := by
  rw [segmentFromEnd, segmentBefore_eq] at h ⊢
  cases hget : (routed.decodedPath.splitOn 0x2f).reverse[k]? with
  | none => exact absurd (by rw [hget]; rfl) h
  | some s => exact List.mem_reverse.mp (List.mem_of_getElem? hget)

/-- An operation runs for the requests of its own method and path that its entry in the
policy lets through, and the symbol its handler cuts out of the decoded path is what stands
for the variable of its route. -/
theorem runs_of_reached (hroutes : registerRoutes routePolicy routes = .ok app.routes)
    (hperm : routes.Perm ROUTES) {req : Incoming} {routed : RoutedRequest}
    {r : DeclaredRoute Operation} (hreached : (app.serve req).reached = some (routed, r)) :
    Runs app r.handler req routed := by
  have hadmits := App.reached_admits hroutes hreached
  have hmem := hadmits.registered
  rw [registerRoutes_eq_map hroutes] at hmem
  obtain ⟨r', hr', rfl⟩ := List.mem_map.mp hmem
  obtain ⟨op, -, rfl⟩ := List.mem_map.mp (hperm.mem_iff.mp hr')
  show Runs app op req routed
  have htaken : op.verb.takes req.method = true ∧ takesPath op.path (App.pathOf routed) = true :=
    (Bool.and_eq_true _ _).mp hadmits.taken
  rw [takesPath_iff hadmits.clean (isRoutePath_path op)] at htaken
  have hsymbol := symbolOf_ne_nil htaken.2 (variableAt_path op)
  refine ⟨hadmits.clean, htaken.1, hadmits.accepted,
    decodedPath_eq_withSymbol htaken.2 (variableAt_path op), fun hsome => ?_⟩
  have hne := hsymbol hsome
  obtain ⟨k, hk⟩ := Option.ne_none_iff_exists'.mp hsome
  rw [hk] at hne ⊢
  have hmem := mem_segments hne
  exact ⟨hne, notMem_of_mem_splitOn hmem, routed_no_dots hadmits.clean _ hmem⟩

end

end AgentService
