import AgentService.Gateway.Client
import AgentService.Gateway.DecodedShape
import AgentService.Gateway.RedirectRun

/-!
# What a caller is answered for a gateway's behaviour

The classification is spread over the redirect loop, the reader of error bodies, the
decoder's exceptions and the error handler. Each is followed to its end here, and together
they come to one table (`IsVerdict`): which status answers which run.
-/

namespace AgentService
open Lib

/-! ## The writer does not fail on what is decoded -/

section
variable (doubles : Doubles)

/-- The writer throws for a decoded value exactly when it holds a time Go could not encode. -/
theorem stringifyJson_isSome {schema : Schema} {v : Value} (h : Fits schema v) :
    (∃ text, stringifyJson doubles v = .ok text) ↔ hasUnencodable v = false := by
  have hok := jsonPieces_isOk doubles v
  rw [h.isFinite, Bool.and_true] at hok
  cases hpieces : jsonPieces doubles v with
  | ok ps =>
    rw [hpieces] at hok
    rw [stringifyJson, hpieces]
    refine iff_of_true ⟨_, rfl⟩ ?_
    simpa [Except.isOk, Except.toBool] using hok.symm
  | error e =>
    rw [hpieces] at hok
    rw [stringifyJson, hpieces]
    refine iff_of_false (fun ⟨_, ht⟩ => nomatch ht) ?_
    simpa [Except.isOk, Except.toBool] using hok.symm

/-- A decoded value is answered with a 200. -/
theorem sendJson_ok {schema : Schema} {v : Value} (h : Fits schema v) :
    ∃ res, sendJson doubles v = .ok res ∧ res.status = 200 := by
  unfold sendJson
  cases hno : hasUnencodable v with
  | true => exact ⟨_, rfl, rfl⟩
  | false =>
    obtain ⟨text, htext⟩ := (stringifyJson_isSome doubles h).mpr hno
    rw [htext]
    exact ⟨_, rfl, rfl⟩

end

/-- What is taken out of a decoded value fits some schema too. -/
theorem fits_dataOf {schema : Schema} {v : Value} (h : Fits schema v) :
    ∃ part, Fits part (dataOf v) := by
  unfold dataOf
  cases hget : getMember (js "data") v.members with
  | none => exact ⟨.list .text, .null _⟩
  | some e =>
    cases h with
    | struct hs =>
      obtain ⟨field, hfits⟩ := hs.member hget
      exact ⟨field, hfits⟩
    | time hv => rcases normaliseTime_ok hv with ⟨t, rfl⟩ | rfl <;> cases hget
    | _ => cases hget

/-! ## The reader of error bodies does not fail -/

section
variable (unicode : Unicode) (doubles : Doubles)

theorem upstreamMessageOf_ok (body : Bytes) :
    ∃ r, upstreamMessageOf unicode doubles body = .ok r := by
  have hlifted : ∃ lifted, envelopeMessage unicode doubles body = .ok lifted := by
    unfold envelopeMessage
    cases hdecode : decode unicode doubles envelope body with
    | ok v => exact ⟨_, rfl⟩
    | error e =>
      obtain ⟨d, rfl⟩ := decode_error hdecode
      exact ⟨_, rfl⟩
  obtain ⟨lifted, hlifted⟩ := hlifted
  rw [upstreamMessageOf, hlifted, ok_bind]
  cases lifted.filter fun message => goTrimSpace message ≠ [] with
  | some message => exact ⟨_, rfl⟩
  | none =>
    dsimp only
    split_ifs <;> exact ⟨_, rfl⟩

/-- The error of an answer carries its status. -/
theorem upstreamErrorFrom_ok (res : Response) (call : Call) :
    ∃ e, upstreamErrorFrom unicode doubles res call = .ok e ∧ e.statusCode = res.status := by
  obtain ⟨r, hr⟩ := upstreamMessageOf_ok unicode doubles (readCapped res.body MAX_ERROR_BODY)
  exact ⟨_, by rw [upstreamErrorFrom, hr]; rfl, rfl⟩

end

/-! ## How a run ends -/

section
variable {web : Web} {first : Target} {call : Call} {answers : Nat → Fetched}

/-- The states of a run end with the `i`-th. -/
def IsLastTurn (web : Web) (first : Target) (call : Call) (answers : Nat → Fetched) (i : Nat)
    (s : HopState) : Prop :=
  (hopRun web first call answers).1.length = i + 1 ∧ (hopRun web first call answers).1[i]? = some s

/-- A redirect with a Location. -/
def IsRedirect (res : Response) : Prop := followed res.status = true ∧ res.location ≠ []

/-- Why a run ends the way it does: with the answer of its last turn, or without one because a fetch
failed, a Location was refused, or the tenth answer was a redirect still. -/
inductive EndsBy (web : Web) (first : Target) (call : Call) (answers : Nat → Fetched) :
    HopEnd → Prop
  | final {i s res} (hlast : IsLastTurn web first call answers i s)
      (hres : (answers i).response = some res) (hstop : ¬ IsRedirect res) :
      EndsBy web first call answers (.answered res (answers i).callerGone)
  | failed {i s} (hlast : IsLastTurn web first call answers i s)
      (hres : (answers i).response = none) :
      EndsBy web first call answers (.noAnswer (answers i).callerGone)
  | refused {i s res} (hlast : IsLastTurn web first call answers i s)
      (hres : (answers i).response = some res) (hredirect : IsRedirect res)
      (href : resolveReference web (some s.target) (fromHeaderValue res.location) = none) :
      EndsBy web first call answers (.noAnswer (answers i).callerGone)
  | tenth {i s res} (hlast : IsLastTurn web first call answers i s)
      (hres : (answers i).response = some res) (hredirect : IsRedirect res)
      (hi : i + 1 = MAX_REQUESTS) :
      EndsBy web first call answers (.noAnswer (answers i).callerGone)

theorem hopRun_endsBy (web : Web) (first : Target) (call : Call) (answers : Nat → Fetched) :
    EndsBy web first call answers (hopRun web first call answers).2 := by
  obtain ⟨i, s, hlen, hs, hturn⟩ := (hops web first).run_last (call.start first) answers
  have hlast : IsLastTurn web first call answers i s := ⟨hlen, hs⟩
  change hopTurn web first s (answers i) = .done (hopRun web first call answers).2 at hturn
  generalize (hopRun web first call answers).2 = e at hturn
  unfold hopTurn at hturn
  split at hturn
  · rename_i hres
    cases hturn
    exact .failed hlast hres
  · rename_i res hres
    split at hturn
    · rename_i hstop
      cases hturn
      exact .final hlast hres fun h => hstop.elim (fun hf => by simp [h.1] at hf) h.2
    · rename_i hredirect
      rw [not_or, Bool.not_eq_false] at hredirect
      split at hturn
      · rename_i href
        cases hturn
        exact .refused hlast hres hredirect href
      · split at hturn
        · rename_i hmax
          cases hturn
          refine .tenth hlast hres hredirect ?_
          have hcount := requests_of_run hs
          have hbound : i + 1 ≤ MAX_REQUESTS :=
            hlen ▸ (hops web first).run_length (call.start first) answers
          omega
        · cases hturn

end

/-! ## The table -/

/-- Which status answers which end of a run. -/
structure IsVerdict (node : Node) (schema : Schema) (hopEnd : HopEnd) (res : Answer) : Prop where
  ok : res.status = 200 ↔ ∃ final gone v, hopEnd = .answered final gone ∧ final.status < 400 ∧
    final.body.ended = true ∧
    decode node.toUnicode node.toDoubles schema final.body.chunks.flatten = .ok v
  relayed : ∀ {final gone}, hopEnd = .answered final gone → 400 ≤ final.status →
    final.status ≤ 599 →
    res.status = final.status
  beyond : ∀ {final gone}, hopEnd = .answered final gone → 600 ≤ final.status → res.status = 502
  unreadable : ∀ {final gone e}, hopEnd = .answered final gone → final.status < 400 →
    final.body.ended = true →
    decode node.toUnicode node.toDoubles schema final.body.chunks.flatten = .error e →
      res.status = 502
  broken : ∀ {final gone}, hopEnd = .answered final gone → final.status < 400 →
    final.body.ended = false →
    res.status = 504
  noAnswer : ∀ {gone}, hopEnd = .noAnswer gone → res.status = 504

/-- What may leave the client while the caller is there. -/
def IsGatewayFailure (f : Failure) : Prop :=
  (∃ e, f = .upstream e) ∨ ∃ detail, f = .unreadable detail

/-- A result of the client as the caller sees it: the answer, and what has been thrown for it. -/
def Relays (node : Node) (schema : Schema) (hopEnd : HopEnd) (result : Except Failure Value) :
    Prop :=
  (∃ res, respond node.toDoubles (result.map dataOf) = .answered res ∧
    IsVerdict node schema hopEnd res) ∧
    ∀ f, result = .error f → IsGatewayFailure f

section
variable {node : Node} {schema : Schema} {call : Call}

theorem writeUpstream_status (e : UpstreamError) :
    (writeUpstream e).status = if e.statusCode < 400 ∨ 599 < e.statusCode then 502
      else e.statusCode := rfl

/-- An `UpstreamError` is relayed as the table says if its status is the table's. -/
theorem relays_upstream {hopEnd : HopEnd} {e : UpstreamError}
    (h : IsVerdict node schema hopEnd (writeUpstream e)) :
    Relays node schema hopEnd (.error (.upstream e)) :=
  ⟨⟨writeUpstream e, rfl, h⟩, fun _ hf => .inl ⟨e, (Except.error.inj hf).symm⟩⟩

theorem relays_noAnswer : Relays node schema (.noAnswer false) (.error (noAnswer call false)) := by
  apply relays_upstream
  refine ⟨⟨fun h => absurd (show 504 = 200 from h) (by decide), ?_⟩, ?_, ?_, ?_, ?_, fun _ => rfl⟩
  · rintro ⟨final, gone, v, h, -⟩
    cases h
  · intro _ _ h
    cases h
  · intro _ _ h
    cases h
  · intro _ _ _ h
    cases h
  · intro _ _ h
    cases h

theorem relays_failing {final : Response} (h : 400 ≤ final.status) :
    Relays node schema (.answered final false) (finish node call (.answered final false) >>=
      decodeAnswer node schema) := by
  obtain ⟨e, he, hstatus⟩ := upstreamErrorFrom_ok node.toUnicode node.toDoubles final call
  rw [finish, if_pos h, he]
  apply relays_upstream
  have hwritten := writeUpstream_status e
  rw [hstatus] at hwritten
  refine ⟨⟨fun h200 => ?_, ?_⟩, ?_, ?_, ?_, ?_, fun h => nomatch h⟩
  · rw [hwritten] at h200
    split at h200 <;> omega
  · rintro ⟨_, _, v, heq, hlt, -⟩
    cases heq
    omega
  · intro _ _ heq _ hle
    cases heq
    rw [hwritten, if_neg (by omega)]
  · intro _ _ heq hle
    cases heq
    rw [hwritten, if_pos (by omega)]
  · intro _ _ _ heq hlt
    cases heq
    omega
  · intro _ _ heq hlt
    cases heq
    omega

theorem relays_broken {final : Response} (h : final.status < 400)
    (hended : final.body.ended = false) :
    Relays node schema (.answered final false) (finish node call (.answered final false) >>=
      decodeAnswer node schema) := by
  rw [finish, if_neg (by omega), if_neg (by simp [hended])]
  apply relays_upstream
  refine ⟨⟨fun h => absurd (show 504 = 200 from h) (by decide), ?_⟩, ?_, ?_, ?_, fun _ _ _ => rfl,
    fun h => nomatch h⟩
  · rintro ⟨_, _, v, heq, -, hwhole, -⟩
    cases heq
    rw [hended] at hwhole
    cases hwhole
  · intro _ _ heq hle
    cases heq
    omega
  · intro _ _ heq hle
    cases heq
    omega
  · intro _ _ _ heq _ hwhole
    cases heq
    rw [hended] at hwhole
    cases hwhole

theorem relays_whole {final : Response} (h : final.status < 400)
    (hended : final.body.ended = true) :
    Relays node schema (.answered final false) (finish node call (.answered final false) >>=
      decodeAnswer node schema) := by
  rw [finish, if_neg (by omega), if_pos hended, ok_bind, decodeAnswer]
  cases hdecode : decode node.toUnicode node.toDoubles schema final.body.chunks.flatten with
  | ok v =>
    obtain ⟨part, hpart⟩ := fits_dataOf (fits_decode hdecode)
    obtain ⟨res, hres, h200⟩ := sendJson_ok node.toDoubles hpart
    refine ⟨⟨res, ?_, ⟨fun _ => ⟨final, false, v, rfl, h, hended, hdecode⟩, fun _ => h200⟩,
      ?_, ?_, ?_, ?_, fun h => nomatch h⟩, fun f hf => nomatch hf⟩
    · change respond node.toDoubles (.ok (dataOf v)) = _
      rw [respond, hres]
    · intro _ _ heq hle
      cases heq
      omega
    · intro _ _ heq hle
      cases heq
      omega
    · intro _ _ e heq _ _ he
      cases heq
      rw [hdecode] at he
      cases he
    · intro _ _ heq _ hbroken
      cases heq
      rw [hended] at hbroken
      cases hbroken
  | error e =>
    obtain ⟨d, rfl⟩ := decode_error hdecode
    refine ⟨⟨_, rfl, ⟨fun h => absurd (show 502 = 200 from h) (by decide), ?_⟩, ?_, ?_,
      fun _ _ _ _ => rfl, ?_, fun h => nomatch h⟩,
      fun f hf => .inr ⟨d.message, (Except.error.inj hf).symm⟩⟩
    · rintro ⟨_, _, v, heq, -, -, hok⟩
      cases heq
      rw [hdecode] at hok
      cases hok
    · intro _ _ heq hle
      cases heq
      omega
    · intro _ _ heq hle
      cases heq
      omega
    · intro _ _ heq _ hbroken
      cases heq
      rw [hended] at hbroken
      cases hbroken

/-- What `request` and the error handler make of the end of a run, while the caller is there. -/
theorem relays_finish (hopEnd : HopEnd)
    (hgone : ∀ gone, (hopEnd = .noAnswer gone ∨ ∃ final, hopEnd = .answered final gone) →
      gone = false) :
    Relays node schema hopEnd (finish node call hopEnd >>= decodeAnswer node schema) := by
  cases hopEnd with
  | noAnswer gone =>
    obtain rfl := hgone gone (.inl rfl)
    exact relays_noAnswer
  | answered final gone =>
    obtain rfl := hgone gone (.inr ⟨final, rfl⟩)
    by_cases hstatus : 400 ≤ final.status
    · exact relays_failing hstatus
    · cases hended : final.body.ended with
      | false => exact relays_broken (Nat.lt_of_not_le hstatus) hended
      | true => exact relays_whole (Nat.lt_of_not_le hstatus) hended

end

/-- For every run with the caller connected and a usable base there is exactly one answer, its
status is the table's, and only `UpstreamError` and `UnreadableAnswer` escape the client. -/
theorem gateway_verdict {node : Node} {base : JsString} {call : Call} {schema : Schema}
    {answers : Nat → Fetched} {first : Target}
    (hbase : firstTarget node.toWeb base call = some first)
    (hcaller : ∀ i, (answers i).callerGone = false) :
    (∃ res, relay node base call schema answers = .answered res ∧
      IsVerdict node schema (hopRun node.toWeb first call answers).2 res) ∧
    EndsBy node.toWeb first call answers (hopRun node.toWeb first call answers).2 ∧
    ∀ f, request node base call schema answers = .error f → IsGatewayFailure f := by
  have hends := hopRun_endsBy node.toWeb first call answers
  have hrequest : request node base call schema answers =
      finish node call (hopRun node.toWeb first call answers).2 >>= decodeAnswer node schema := by
    rw [request, follow, hbase]
  rw [relay, hrequest]
  generalize (hopRun node.toWeb first call answers).2 = hopEnd at hends ⊢
  have hgone : ∀ gone, (hopEnd = .noAnswer gone ∨ ∃ final, hopEnd = .answered final gone) →
      gone = false := by
    intro gone h
    cases hends <;> rcases h with h | ⟨_, h⟩ <;> cases h <;> exact hcaller _
  obtain ⟨hres, hfailure⟩ := relays_finish hopEnd hgone
  exact ⟨hres, hends, hfailure⟩

/-- The gateway's 404 behind a redirect is the caller's 404. -/
theorem gateway_verdict_missing :
    let call := getMyShip (js "Bearer t") (latin1Encode (js "S-1"))
    let missing : Response := ⟨404, fun _ => none, ⟨[latin1Encode (js "gone")], false⟩⟩
    let answers i := if i = 0 then redirectTo 302 (js "/elsewhere") else ⟨some missing, false⟩
    ∃ res, relay plainNode (js "http://gw.test/proxy") call getMyShipResponse answers =
      .answered res ∧ res.status = 404 := by
  intro call missing answers
  have hfirst : firstTarget plainWeb (js "http://gw.test/proxy") call =
      some ⟨⟨js "http:", js "gw.test", js "gw.test", [], [], js "/proxy/my/ships/S-1", [], []⟩,
          js "gw.test"⟩ := by
    decide +kernel
  have hpresent (i : Nat) : (answers i).callerGone = false := by
    show (if i = 0 then _ else _ : Fetched).callerGone = false
    split <;> rfl
  have hend : (hopRun plainWeb ⟨⟨js "http:", js "gw.test", js "gw.test", [], [],
    js "/proxy/my/ships/S-1", [], []⟩,
      js "gw.test"⟩ call answers).2 = .answered missing false := rfl
  obtain ⟨⟨res, hres, hverdict⟩, -, -⟩ :=
    @gateway_verdict plainNode (js "http://gw.test/proxy") call getMyShipResponse answers _
      hfirst hpresent
  exact ⟨res, hres, hverdict.relayed hend (by decide) (by decide)⟩

end AgentService
