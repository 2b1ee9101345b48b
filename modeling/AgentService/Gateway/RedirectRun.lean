import AgentService.Gateway.Follow

/-!
# What a whole redirect run sends

One hop changes the state as `HopState.hop` says; everything here follows from that by
induction along the run. Two laws: where the caller's Authorization goes, and when a
request is made again with its method and body.
-/

namespace AgentService
open Lib

variable {web : Web} {base : JsString} {call : Call} {answers : Nat → Fetched} {first : Target}

/-- A fetch of a call is read off a state of its run. -/
theorem fetches_eq_some {i : Nat} {f : Fetch} (h : (fetches web base call answers)[i]? = some f) :
    ∃ first s, firstTarget web base call = some first ∧
      (hopRun web first call answers).1[i]? = some s ∧ f = call.fetch s := by
  unfold fetches at h
  split at h
  · simp at h
  · rename_i first hfirst
    rw [List.getElem?_map, Option.map_eq_some_iff] at h
    obtain ⟨s, hs, rfl⟩ := h
    exact ⟨first, s, hfirst, hs, rfl⟩

theorem fetches_of_first (h : firstTarget web base call = some first) :
    fetches web base call answers = (hopRun web first call answers).1.map call.fetch := by
  rw [fetches, h]

/-- Before a state of a run stand the states of the hops that led to it. -/
theorem hopRun_earlier {i j : Nat} {s : HopState}
    (h : (hopRun web first call answers).1[i]? = some s) (hj : j ≤ i) :
    ∃ t, (hopRun web first call answers).1[j]? = some t := by
  have hi := (List.getElem?_eq_some_iff.mp h).1
  exact ⟨_, List.getElem?_eq_getElem (Nat.lt_of_le_of_lt hj hi)⟩

theorem hopRun_head {s : HopState} (h : (hopRun web first call answers).1[0]? = some s) :
    s = call.start first := by
  have hhead := (hops web first).run_head (call.start first) answers
  rw [List.head?_eq_getElem?] at hhead
  exact Option.some.inj (h.symm.trans hhead)

/-- Why a run has a next state, and which. -/
theorem hopRun_next {i : Nat} {s s' : HopState} (h : (hopRun web first call answers).1[i]? = some s)
    (h' : (hopRun web first call answers).1[i + 1]? = some s') :
    ∃ res next, (answers i).response = some res ∧ followed res.status = true ∧ res.location ≠ [] ∧
      resolveReference web (some s.target) (fromHeaderValue res.location) = some next ∧
      s.requests < MAX_REQUESTS ∧ s' = s.hop web first res.status next :=
  hopTurn_again.mp ((hops web first).run_step (call.start first) answers i s s' h h')

/-- The induction along a run: what holds at its start and is kept by each hop holds
at each place. -/
theorem hopRun_induction {P : Nat → HopState → Prop} (start : P 0 (call.start first))
    (hop : ∀ i s res next, P i s → (answers i).response = some res → followed res.status = true →
      resolveReference web (some s.target) (fromHeaderValue res.location) = some next →
      P (i + 1) (s.hop web first res.status next)) :
    ∀ i s, (hopRun web first call answers).1[i]? = some s → P i s := by
  intro i
  induction i with
  | zero => intro s hs; rw [hopRun_head hs]; exact start
  | succ i ih =>
    intro s' hs'
    obtain ⟨s, hs⟩ := hopRun_earlier hs' (Nat.le_succ i)
    obtain ⟨res, next, hres, hf, -, hnext, -, rfl⟩ := hopRun_next hs hs'
    exact hop i s res next (ih s hs) hres hf hnext

/-! ## Where Authorization goes -/

/-- `name` stands under `parent` in the DNS: a label or more, a dot, and `parent`. -/
def IsDotSubdomain (name parent : JsString) : Prop := ∃ label, name = label ++ 0x2e :: parent

/-- Only names with a dot that are no IP literal have subdomains worth the name. -/
def HasSubdomains (name : JsString) : Prop :=
  0x2e ∈ name ∧ 0x3a ∉ name ∧ ¬ ∀ c ∈ name, isDigitUnit c = true ∨ c = 0x2e

/-- `name` is `parent`, or a subdomain of it where the first host may have some. -/
def WithinDomain (firstName name parent : JsString) : Prop :=
  name = parent ∨ (HasSubdomains firstName ∧ IsDotSubdomain name parent)

theorem isDotSubdomain_of_isDomainOrSubdomain {name parent : JsString}
    (h : isDomainOrSubdomain name parent = true) : name = parent ∨ IsDotSubdomain name parent := by
  unfold isDomainOrSubdomain at h
  split_ifs at h with heq hmarks
  · exact .inl heq
  · rw [Bool.and_eq_true, Bool.and_eq_true, List.isSuffixOf_iff_suffix, decide_eq_true_eq,
      beq_iff_eq] at h
    obtain ⟨⟨pre, rfl⟩, hlen, hdot⟩ := h
    -- the character in front of the suffix is the last one of what precedes it
    obtain ⟨label, c, rfl⟩ : ∃ label c, pre = label ++ [c] := by
      refine ⟨pre.dropLast, pre.getLast ?_, (List.dropLast_append_getLast _).symm⟩
      rintro rfl
      simp at hlen
    refine .inr ⟨label, ?_⟩
    have hidx : (label ++ [c] ++ parent).length - parent.length - 1 = label.length := by
      simp only [List.length_append, List.length_cons, List.length_nil]
      omega
    rw [hidx, List.append_assoc, List.getElem?_append_right (Nat.le_refl _), Nat.sub_self] at hdot
    cases hdot
    simp

theorem hasSubdomains_of_exactOnly {name : JsString} (h : exactOnly name = false) :
    HasSubdomains name := by
  simp only [exactOnly, Bool.or_eq_false_iff, Bool.not_eq_eq_eq_not, Bool.not_false,
    List.contains_eq_mem, decide_eq_true_eq, decide_eq_false_iff_not] at h
  obtain ⟨⟨hdot, hdigits⟩, hcolon⟩ := h
  refine ⟨hdot, hcolon, fun hall => ?_⟩
  have hne : name ≠ [] := List.ne_nil_of_mem hdot
  rw [digitsAndDots, decide_eq_false_iff_not] at hdigits
  refine hdigits ⟨hne, List.all_eq_true.mpr fun c hc => ?_⟩
  rcases hall c hc with h | rfl
  · simp [h]
  · rfl

theorem withinDomain_of_sameDomain {firstName name parent : JsString}
    (h : sameDomain firstName name parent = true) : WithinDomain firstName name parent := by
  unfold sameDomain at h
  split_ifs at h with hexact
  · exact .inl (beq_iff_eq.mp h)
  · rw [Bool.not_eq_true] at hexact
    exact (isDotSubdomain_of_isDomainOrSubdomain h).imp_right fun hsub =>
      ⟨hasSubdomains_of_exactOnly hexact, hsub⟩

/-- A target that Authorization may be sent to: both readings of its host stay within
the first one's. -/
structure StaysWithin (web : Web) (first target : Target) : Prop where
  asWritten : WithinDomain (goName web first) (goName web target) (goName web first)
  asFetched : WithinDomain (goName web first) target.url.hostname first.url.hostname

def IsDowngrade (target next : Target) : Prop :=
  target.url.protocol = js "https:" ∧ next.url.protocol = js "http:"

theorem mayCarry_spec {target next : Target} (h : mayCarry web first target next = true) :
    StaysWithin web first next ∧ ¬ IsDowngrade target next := by
  unfold mayCarry at h
  simp only [Bool.and_eq_true, Bool.or_eq_true, beq_iff_eq, Bool.not_eq_true',
    Bool.and_eq_false_iff, beq_eq_false_iff_ne] at h
  obtain ⟨⟨hgo, hfetched⟩, hdown⟩ := h
  refine ⟨⟨?_, withinDomain_of_sameDomain hfetched⟩, fun hd => ?_⟩
  · rcases hgo with heq | hsame
    · exact .inl (by rw [goName, heq, goName])
    · exact withinDomain_of_sameDomain hsame
  · exact hdown.elim (fun h => h hd.1) (fun h => h hd.2)

/-- As long as nothing is stripped the target is one that Authorization may go to. -/
theorem staysWithin_of_not_stripped {i : Nat} {s : HopState}
    (hs : (hopRun web first call answers).1[i]? = some s) (hstay : s.stripped = false) :
    StaysWithin web first s.target := by
  refine hopRun_induction (P := fun _ s => s.stripped = false → StaysWithin web first s.target)
    ?_ ?_ i s hs hstay
  · exact fun _ => ⟨.inl rfl, .inl rfl⟩
  · intro i s res next _ _ _ _ hstay
    simp only [HopState.hop, Bool.or_eq_false_iff, Bool.not_eq_eq_eq_not, Bool.not_false] at hstay
    exact (mayCarry_spec hstay.2).1

/-- A hop after which nothing is stripped is no downgrade. -/
theorem not_isDowngrade_of_not_stripped {i : Nat} {s s' : HopState}
    (hs : (hopRun web first call answers).1[i]? = some s)
    (hs' : (hopRun web first call answers).1[i + 1]? = some s') (hstay : s'.stripped = false) :
    ¬ IsDowngrade s.target s'.target := by
  obtain ⟨res, next, -, -, -, -, -, rfl⟩ := hopRun_next hs hs'
  simp only [HopState.hop, Bool.or_eq_false_iff, Bool.not_eq_eq_eq_not, Bool.not_false] at hstay
  exact (mayCarry_spec hstay.2).2

/-- Once stripped, stripped for good. -/
theorem stripped_mono {i j : Nat} (hij : i ≤ j) {s t : HopState}
    (hs : (hopRun web first call answers).1[i]? = some s)
    (ht : (hopRun web first call answers).1[j]? = some t) (h : s.stripped = true) :
    t.stripped = true := by
  refine (hops web first).run_relates (R := fun a b => a.stripped = true → b.stripped = true)
    (fun _ h => h) (fun hab hbc h => hbc (hab h)) ?_ (call.start first) answers i j s t hij hs ht h
  intro s a s' hturn h
  obtain ⟨res, next, -, -, -, -, -, rfl⟩ := hopTurn_again.mp hturn
  simp [HopState.hop, h]

theorem fetch_authorization {s : HopState} {v : JsString}
    (h : (call.fetch s).authorization = some v) : v = call.authorization ∧ s.stripped = false := by
  simp only [Call.fetch, ite_eq_iff, Option.some.injEq, reduceCtorEq, and_false, or_false] at h
  exact ⟨h.2.symm, h.1.2⟩

/-- What a fetch with Authorization says about the run up to it: the value is the caller's, every
target so far stays within the first one's domain, no hop so far is a downgrade. -/
structure Confined (web : Web) (call : Call) (sent : List Fetch) (k : Nat) (value : JsString) :
    Prop where
  verbatim : value = call.authorization
  within : ∀ first, sent[0]? = some first → ∀ j ≤ k, ∀ f, sent[j]? = some f →
    StaysWithin web first.target f.target
  noDowngrade : ∀ j < k, ∀ f f', sent[j]? = some f → sent[j + 1]? = some f' →
    ¬ IsDowngrade f.target f'.target

/-- Authorization is confined over a whole run: it goes, verbatim, only where both readings of every
host so far stay in the first domain, and a fetch without it is followed by none with it. -/
theorem authorization_confined (web : Web) (base : JsString) (call : Call)
    (answers : Nat → Fetched) :
    (∀ k f value, (fetches web base call answers)[k]? = some f → f.authorization = some value →
      Confined web call (fetches web base call answers) k value) ∧
    ∀ (i k : Nat) (f f' : Fetch), i ≤ k → (fetches web base call answers)[i]? = some f →
      (fetches web base call answers)[k]? = some f' → f.authorization = none →
      f'.authorization = none := by
  constructor
  · intro k f value hf hvalue
    obtain ⟨first, s, hfirst, hs, rfl⟩ := fetches_eq_some hf
    obtain ⟨hverbatim, hstay⟩ := fetch_authorization hvalue
    have hearlier : ∀ j ≤ k, ∀ t, (hopRun web first call answers).1[j]? = some t →
        t.stripped = false := by
      intro j hj t ht
      by_contra hstripped
      rw [Bool.not_eq_false] at hstripped
      rw [stripped_mono hj ht hs hstripped] at hstay
      cases hstay
    rw [fetches_of_first hfirst]
    refine ⟨hverbatim, ?_, ?_⟩
    · simp only [List.getElem?_map, Option.map_eq_some_iff]
      rintro _ ⟨s₀, hs₀, rfl⟩ j hj _ ⟨t, ht, rfl⟩
      rw [hopRun_head hs₀]
      exact staysWithin_of_not_stripped ht (hearlier j hj t ht)
    · simp only [List.getElem?_map, Option.map_eq_some_iff]
      rintro j hj _ _ ⟨t, ht, rfl⟩ ⟨t', ht', rfl⟩
      exact not_isDowngrade_of_not_stripped ht ht' (hearlier (j + 1) hj t' ht')
  · intro i k f f' hik hf hf' hnone
    obtain ⟨first, s, hfirst, hs, rfl⟩ := fetches_eq_some hf
    obtain ⟨first', t, hfirst', ht, rfl⟩ := fetches_eq_some hf'
    cases hfirst.symm.trans hfirst'
    by_contra hsome
    obtain ⟨v, hv⟩ := Option.ne_none_iff_exists'.mp hsome
    obtain ⟨-, hstay⟩ := fetch_authorization hv
    by_cases hs' : s.stripped = true
    · rw [stripped_mono hik hs ht hs'] at hstay
      cases hstay
    · simp only [Call.fetch, hstay, hs'] at hv hnone
      rw [hnone] at hv
      cases hv

/-- A redirect answer to `location`. -/
def redirectTo (status : Nat) (location : JsString) : Fetched where
  response := some ⟨status, fun name => if name = "Location" then some location else none, [], true⟩
  callerGone := false

/-- A 307 to a subdomain of the gateway: Authorization goes there. -/
theorem authorization_confined_subdomain :
    let call : Call := ⟨js "GET", js "/my/ships", js "Bearer t", none⟩
    let sent := fetches plainWeb (js "http://gw.test/proxy") call fun i =>
      if i = 0 then redirectTo 307 (js "http://a.gw.test/x") else redirectTo 200 []
    let second : Fetch :=
      ⟨⟨⟨js "http:", js "a.gw.test", js "a.gw.test", [], [], js "/x", [], []⟩, js "a.gw.test"⟩,
      js "GET", some (js "Bearer t"), none, none⟩
    sent[1]? = some second ∧ Confined plainWeb call sent 1 (js "Bearer t") := by
  intro call sent second
  have hsecond : sent[1]? = some second := by decide +kernel
  exact ⟨hsecond, (authorization_confined plainWeb _ call _).1 1 second _ hsecond rfl⟩

/-! ## What is made again -/

/-- The answer to request `i` is one that keeps method and body: 307 or 308. -/
def Keeps (answers : Nat → Fetched) (i : Nat) : Prop :=
  ∃ res, (answers i).response = some res ∧ (res.status = 307 ∨ res.status = 308)

/-- Every answer before request `i` kept method and body. -/
def KeptUpTo (answers : Nat → Fetched) (i : Nat) : Prop := ∀ j < i, Keeps answers j

theorem keptUpTo_succ {i : Nat} :
    KeptUpTo answers (i + 1) ↔ KeptUpTo answers i ∧ Keeps answers i := by
  constructor
  · exact fun h => ⟨fun j hj => h j (Nat.lt_succ_of_lt hj), h i (Nat.lt_succ_self i)⟩
  · rintro ⟨h, hi⟩ j hj
    rcases Nat.lt_succ_iff_lt_or_eq.mp hj with hj | rfl
    · exact h j hj
    · exact hi

/-- Of the redirects that are followed, those above 303 keep method and body. -/
theorem keeps_iff {i : Nat} {res : Response} (hres : (answers i).response = some res)
    (hf : followed res.status = true) : Keeps answers i ↔ ¬ res.status ≤ 303 := by
  have hcases : res.status = 301 ∨ res.status = 302 ∨ res.status = 303 ∨ res.status = 307 ∨
      res.status = 308 := by
    simpa [followed] using hf
  constructor
  · rintro ⟨res', hres', h⟩
    cases hres.symm.trans hres'
    omega
  · intro h
    exact ⟨res, hres, by omega⟩

/-- The body that request `i` of a run carries. -/
theorem payload_of_run {i : Nat} {s : HopState}
    (hs : (hopRun web first call answers).1[i]? = some s) :
    (KeptUpTo answers i → s.payload = call.body) ∧ (¬ KeptUpTo answers i → s.payload = none) := by
  refine hopRun_induction (P := fun i s => (KeptUpTo answers i → s.payload = call.body) ∧
    (¬ KeptUpTo answers i → s.payload = none)) ?_ ?_ i s hs
  · exact ⟨fun _ => rfl, fun h => absurd (fun j hj => absurd hj (Nat.not_lt_zero j)) h⟩
  · rintro i s res next ⟨ihkept, ihlost⟩ hres hf -
    rw [keptUpTo_succ, keeps_iff hres hf, HopState.hop]
    constructor
    · rintro ⟨hkept, hstatus⟩
      rw [if_neg hstatus, ihkept hkept]
    · intro h
      dsimp only
      split_ifs with hstatus
      · rfl
      · exact ihlost fun hkept => h ⟨hkept, hstatus⟩

/-- The method of request `i` of a run. -/
theorem verb_of_run {i : Nat} {s : HopState} (hs : (hopRun web first call answers).1[i]? = some s) :
    (call.method = js "GET" ∨ call.method = js "HEAD" ∨ KeptUpTo answers i → s.verb = call.method) ∧
    (¬ (call.method = js "GET" ∨ call.method = js "HEAD" ∨ KeptUpTo answers i) →
      s.verb = js "GET") := by
  refine hopRun_induction (P := fun i s =>
    (call.method = js "GET" ∨ call.method = js "HEAD" ∨ KeptUpTo answers i → s.verb = call.method) ∧
    (¬ (call.method = js "GET" ∨ call.method = js "HEAD" ∨ KeptUpTo answers i) →
      s.verb = js "GET")) ?_ ?_ i s hs
  · exact ⟨fun _ => rfl, fun h => absurd (.inr (.inr fun j hj => absurd hj (Nat.not_lt_zero j))) h⟩
  · rintro i s res next ⟨ihsame, ihget⟩ hres hf -
    rw [keptUpTo_succ, keeps_iff hres hf, HopState.hop]
    dsimp only
    constructor
    · rintro (hget | hhead | ⟨hkept, hstatus⟩)
      · rw [ihsame (.inl hget), if_neg (fun h => h.2.1 hget)]
      · rw [ihsame (.inr (.inl hhead)), if_neg (fun h => h.2.2 hhead)]
      · rw [if_neg (fun h => hstatus h.1), ihsame (.inr (.inr hkept))]
    · intro h
      rw [not_or, not_or] at h
      split_ifs with hturn
      · rfl
      · by_cases hkept : KeptUpTo answers i
        · -- the method was still the call's own, so only a 307 or 308 leaves it
          have hverb := ihsame (.inr (.inr hkept))
          rw [hverb] at hturn
          exact absurd ⟨hkept, fun hstatus => hturn ⟨hstatus, h.1, h.2.1⟩⟩ h.2.2
        · exact ihget (by rw [not_or, not_or]; exact ⟨h.1, h.2.1, hkept⟩)

/-- What fetch `i` of a call sends, given the answers before it. -/
structure IsResend (call : Call) (answers : Nat → Fetched) (i : Nat) (f : Fetch) : Prop where
  body_iff : f.body.isSome ↔ call.body.isSome ∧ KeptUpTo answers i
  body_eq : ∀ b, f.body = some b → call.body = some b
  method_iff : f.method = call.method ↔
    call.method = js "GET" ∨ call.method = js "HEAD" ∨ KeptUpTo answers i
  method_get : f.method ≠ call.method → f.method = js "GET"
  contentType_iff : f.contentType.isSome ↔ call.body.isSome
  get_bare : f.method = js "GET" → (call.method = js "GET" → call.body = none) → f.body = none
  post_kept : f.method = js "POST" → call.method = js "POST" ∧ KeptUpTo answers i

theorem isResend_of_run {i : Nat} {s : HopState}
    (hs : (hopRun web first call answers).1[i]? = some s) :
    IsResend call answers i (call.fetch s) := by
  obtain ⟨hkept, hlost⟩ := payload_of_run hs
  obtain ⟨hsame, hget⟩ := verb_of_run hs
  have hmethod : s.verb = call.method ↔ call.method = js "GET" ∨ call.method = js "HEAD" ∨
      KeptUpTo answers i := by
    refine ⟨fun h => ?_, hsame⟩
    by_contra hc
    exact hc (.inl (h.symm.trans (hget hc)))
  have hbody : ∀ b, s.payload = some b → call.body = some b ∧ KeptUpTo answers i := by
    intro b hb
    by_cases hk : KeptUpTo answers i
    · exact ⟨(hkept hk).symm.trans hb, hk⟩
    · rw [hlost hk] at hb
      cases hb
  refine ⟨⟨fun h => ?_, fun ⟨h, hk⟩ => ?_⟩, fun b hb => (hbody b hb).1, hmethod, fun hne =>
    ?_, ?_, ?_, ?_⟩
  · obtain ⟨b, hb⟩ := Option.isSome_iff_exists.mp h
    exact ⟨Option.isSome_iff_exists.mpr ⟨b, (hbody b hb).1⟩, (hbody b hb).2⟩
  · exact (congrArg Option.isSome (hkept hk)).trans h
  · exact hget fun h => hne (hsame h)
  · cases hb : call.body <;> simp [Call.fetch, hb]
  · intro hverb hcall
    refine Option.eq_none_iff_forall_ne_some.mpr fun b hb => ?_
    obtain ⟨hb', hk⟩ := hbody b hb
    have hcallGet : call.method = js "GET" := (hsame (.inr (.inr hk))).symm.trans hverb
    rw [hcall hcallGet] at hb'
    cases hb'
  · intro hpost
    have hsameVerb : s.verb = call.method := by
      by_contra hne
      have hgetPost : js "GET" = js "POST" := (hget fun h => hne (hsame h)).symm.trans hpost
      exact absurd hgetPost (by decide)
    have hcall : call.method = js "POST" := hsameVerb.symm.trans hpost
    refine ⟨hcall, ?_⟩
    rcases hmethod.mp hsameVerb with h | h | h
    · rw [hcall] at h
      exact absurd h (by decide)
    · rw [hcall] at h
      exact absurd h (by decide)
    · exact h

/-- The loop counts its requests. -/
theorem requests_of_run {i : Nat} {s : HopState}
    (hs : (hopRun web first call answers).1[i]? = some s) : s.requests = i + 1 :=
  hopRun_induction (P := fun i s => s.requests = i + 1) rfl
    (fun _ _ _ _ ih _ _ _ => congrArg (· + 1) ih) i s hs

/-- A redirect run resends a write only as told: at most `MAX_REQUESTS` fetches, each after the
first for a redirect that names a target, method and body kept through 307 and 308 alone. -/
theorem redirects_resend (web : Web) (base : JsString) (call : Call) (answers : Nat → Fetched) :
    (fetches web base call answers).length ≤ MAX_REQUESTS ∧
    (∀ (i : Nat) (f' : Fetch), (fetches web base call answers)[i + 1]? = some f' →
      i + 1 < MAX_REQUESTS ∧ ∃ f res, (fetches web base call answers)[i]? = some f ∧
        (answers i).response = some res ∧ followed res.status = true ∧ res.location ≠ [] ∧
        resolveReference web (some f.target) (fromHeaderValue res.location) = some f'.target) ∧
    ∀ (i : Nat) (f : Fetch), (fetches web base call answers)[i]? = some f →
      IsResend call answers i f := by
  refine ⟨?_, ?_, ?_⟩
  · unfold fetches
    split
    · exact Nat.zero_le _
    · rename_i first hfirst
      rw [List.length_map]
      exact (hops web first).run_length (call.start first) answers
  · intro i f' hf'
    obtain ⟨first, s', hfirst, hs', rfl⟩ := fetches_eq_some hf'
    obtain ⟨s, hs⟩ := hopRun_earlier hs' (Nat.le_succ i)
    obtain ⟨res, next, hres, hf, hloc, hnext, hmax, rfl⟩ := hopRun_next hs hs'
    refine ⟨requests_of_run hs ▸ hmax, call.fetch s, res, ?_, hres, hf, hloc, hnext⟩
    rw [fetches_of_first hfirst, List.getElem?_map, hs]
    rfl
  · intro i f hf
    obtain ⟨first, s, -, hs, rfl⟩ := fetches_eq_some hf
    exact isResend_of_run hs

/-- HEAD, too, is kept by a 302, and a GET that is given a body starts out with it. -/
theorem redirects_resend_head :
    let answers i := if i = 0 then redirectTo 302 (js "/x") else redirectTo 200 []
    let sent method := fetches plainWeb (js "http://gw.test") ⟨js method, js "/", [],
      some (js "{}")⟩ answers
    ((sent "HEAD")[1]?.map Fetch.method = some (js "HEAD") ∧
      ¬ (js "HEAD" = js "GET" ∨ KeptUpTo answers 1)) ∧
    ((sent "GET")[0]?.map fun f => (f.method, f.body)) = some (js "GET", some (js "{}")) := by
  refine ⟨⟨by decide +kernel, ?_⟩, by decide +kernel⟩
  rintro (h | h)
  · exact absurd h (by decide)
  · obtain ⟨res, hres, hstatus⟩ := h 0 Nat.one_pos
    cases hres
    exact absurd hstatus (by decide)

/-- A 307 after a 303 finds the method and the body gone already. -/
theorem redirects_resend_mixed :
    let call : Call := ⟨js "POST", js "/", [], some (js "{}")⟩
    let answers i :=
      if i = 0 then redirectTo 303 (js "/x")
      else if i = 1 then redirectTo 307 (js "/y")
      else redirectTo 200 []
    let sent := fetches plainWeb (js "http://gw.test") call answers
    let last : Fetch :=
      ⟨⟨⟨js "http:", js "gw.test", js "gw.test", [], [], js "/y", [], []⟩, js "gw.test"⟩,
      js "GET", none, some (js "application/json"), none⟩
    sent[2]? = some last ∧ IsResend call answers 2 last := by
  intro call answers sent last
  have hlast : sent[2]? = some last := by decide +kernel
  exact ⟨hlast, (redirects_resend plainWeb _ call answers).2.2 2 last hlast⟩

end AgentService
