import AgentService.Gateway.SymbolPath

/-!
# The host behind a symbol

Where `decodeHost` keeps the host of the configured base, whatever bytes a symbol has it stays one
segment under that base. Where it does not, a URL class that follows the same rules fetches from a
host that it would not read in the base itself.
-/

namespace AgentService
open Lib

/-! ## A URL class that knows one host -/

instance (h : JsString) : Decidable (IsEscapedHost h) :=
  decidable_of_iff (hostAcceptable h = true ∧ h.all (· < 0x80) = true ∧ ¬ js "%25" <:+: h)
    ⟨fun ⟨haccepted, hascii, hpercent⟩ => ⟨haccepted, by simpa using hascii, hpercent⟩,
      fun h => ⟨h.accepted, by simpa using h.ascii, h.no_percent⟩⟩

/-- The host in a text, with its escapes decoded where they are of bytes beyond ASCII. -/
def readHost (h : JsString) : JsString := if IsEscapedHost h then decodedHost h else h

/-- A URL class that knows one host: the text from there on to the next slash has to be read as it,
and the path is kept. -/
def readingWeb (host : JsString) : Web where
  parseUrl text :=
    if readHost (before 0x2f ((fromFirst 0x3a text).drop 3)) = host then
      some ⟨before 0x3a text ++ js ":", host, host, [], [],
        fromFirst 0x2f ((fromFirst 0x3a text).drop 3), [], []⟩
    else none
  domainToASCII name := name

theorem readingWeb_parseUrl (host : JsString) {scheme : JsString}
    (hscheme : scheme = js "http" ∨ scheme = js "https") (rest : JsString) :
    (readingWeb host).parseUrl (scheme ++ js "://" ++ rest) =
      if readHost (before 0x2f rest) = host then some ⟨scheme ++ js ":", host, host, [], [],
        fromFirst 0x2f rest, [], []⟩
      else none := by
  have hcolon : 0x3a ∉ scheme := by rcases hscheme with rfl | rfl <;> decide
  have hrest : (fromFirst 0x3a (scheme ++ js "://" ++ rest)).drop 3 = rest := by
    rw [List.append_assoc, fromFirst_append hcolon]
    rfl
  have hbefore : before 0x3a (scheme ++ js "://" ++ rest) = scheme := by
    rw [List.append_assoc, before_append hcolon]
    exact List.append_nil _
  simp only [readingWeb, hrest, hbefore]

theorem keepsPlainPaths_readingWeb (host : JsString) : KeepsPlainPaths (readingWeb host) id where
  path := by
    intro scheme h path url hscheme _ hends hpath _ hparse
    have hslash : 0x2f ∉ h := fun hm => absurd (hends _ hm) (by decide)
    rw [List.append_assoc, readingWeb_parseUrl host hscheme,
      (before_unique hslash (.inr hpath.rooted)).2] at hparse
    obtain ⟨-, hurl⟩ := Option.ite_none_right_eq_some.mp hparse
    cases hurl
    exact ⟨by simp, rfl, rfl⟩
  plain _ := rfl
  no_dots h := h

theorem readHost_decodedHost {h : JsString} (hescaped : IsEscapedHost h) :
    readHost (decodedHost h) = decodedHost h := by
  unfold readHost
  split
  · rename_i hagain
    rw [← decodeHost_eq_decodedHost hagain, decodeHost, if_neg]
    simpa using percent_notMem_decodedHost hescaped
  · rfl

/-- What stands in front of the first slash, if a slash follows. -/
theorem before_append_rooted (h : JsString) {path : JsString} (hroot : path.head? = some 0x2f) :
    before 0x2f (h ++ path) = before 0x2f h := by
  by_cases hm : 0x2f ∈ h
  · exact (before_append_of_mem hm path).1
  · rw [(before_unique hm (.inr hroot)).1, before_of_notMem hm]

theorem readsEscapedHosts_readingWeb (host : JsString) : ReadsEscapedHosts (readingWeb host) := by
  intro scheme h hscheme hescaped
  obtain ⟨hslash, hslash'⟩ := endsHost_notMem hescaped (u := 0x2f) (by decide)
  have hread : readHost h = decodedHost h := if_pos hescaped
  rw [originText, originText, List.append_assoc, List.append_assoc _ (decodedHost h),
    readingWeb_parseUrl host hscheme, readingWeb_parseUrl host hscheme, before_append_rooted h rfl,
    before_append_rooted (decodedHost h) rfl,
    before_of_notMem hslash', before_of_notMem hslash, hread, readHost_decodedHost hescaped]
  split <;> rfl

theorem length_readHost_le (h : JsString) : (readHost h).length ≤ h.length := by
  unfold readHost
  split
  · rename_i hescaped
    rw [← decodeHost_eq_decodedHost hescaped]
    exact length_decodeHost_le hescaped.accepted
  · exact Nat.le_refl _

/-- An authority that is not kept is no host that its decoding is read as. -/
theorem readHost_ne_of_not_keepsHost {authority : JsString} (hok : hostAcceptable authority = true)
    (hkeeps : ¬ KeepsHost authority) :
    readHost authority ≠ readHost (before 0x2f (decodeHost authority)) := by
  have hescaped : 0x25 ∈ authority := by
    by_contra hnone
    exact hkeeps (.inl hnone)
  have hsame : readHost authority = authority := if_neg fun h => hkeeps h.keepsHost
  rw [hsame]
  intro he
  have hlength := length_readHost_le (before 0x2f (decodeHost authority))
  have hbefore : (before 0x2f (decodeHost authority)).length ≤ (decodeHost authority).length :=
    (List.takeWhile_sublist _).length_le
  have hshorter := length_decodeHost_lt hok hescaped
  rw [← he] at hlength
  omega

/-! ## A host that is not kept -/

/-- The base is one the client can call: with the endpoint behind it, Go's rules read a scheme. -/
def IsReadable (base endpoint : JsString) : Prop :=
  ∃ r, parseReference (base ++ endpoint) = some r ∧ r.scheme ≠ []

theorem parseReference_scheme {ref : JsString} {r : Reference} (h : parseReference ref = some r) :
    r.scheme = [] ∨ r.scheme = js "http" ∨ r.scheme = js "https" := by
  unfold parseReference at h
  split at h
  · cases h
  split at h
  · cases h
  split at h
  · cases h
  dsimp only at h
  split at h
  · cases h
  · rename_i hscheme
    have hone := not_and_or.mp hscheme
    split_ifs at h <;> cases h <;> tauto

/-- A URL class that follows the rules fetches from a base whose host is not kept, though it reads
no host in the base's own authority. -/
theorem firstTarget_readingWeb {stGatewayUrl : JsString}
    (hbase : IsPlainBase (gatewayProxyUrl stGatewayUrl)) {route : SymbolRoute} {symbol : Bytes}
    (hdots : symbol ≠ [0x2e] ∧ symbol ≠ [0x2e, 0x2e])
    {doubles : Doubles} {call : Call} (hasks : route.Asks doubles symbol call)
    (hreadable : IsReadable (gatewayProxyUrl stGatewayUrl) call.endpoint)
    (hkeeps : ¬ KeepsHost (baseAuthority (gatewayProxyUrl stGatewayUrl))) :
    ∃ host t, firstTarget (readingWeb host) (gatewayProxyUrl stGatewayUrl) call = some t ∧
      (readingWeb host).parseUrl
      (originText (asciiLower (baseScheme (gatewayProxyUrl stGatewayUrl)))
        (baseAuthority (gatewayProxyUrl stGatewayUrl))) = none := by
  obtain ⟨r, hparsed, hscheme⟩ := hreadable
  have hhttp := (parseReference_scheme hparsed).resolve_left hscheme
  have hr := parseReference_over_base hbase (endpoint_cons route _)
    (endpoint_units route (pathEscape_plain symbol) (pathEscape_not_dot hdots))
    (SymbolRoute.endpoint_of_asks hasks ▸ hparsed) hscheme
  obtain ⟨hpath, -⟩ := isPlainPath_over_base hbase hdots hr
  have hself : resolvePath r.path [] = r.path :=
    resolvePath_self hpath.rooted fun e he => ne_dots_of_not_dotSegment (hpath.no_dots e he)
  have hpathne : r.path ≠ [] := fun hnil => by simpa [hnil] using hpath.rooted
  let host := readHost (before 0x2f r.host)
  -- the text of the target and that of its origin have one host
  have htext : (readingWeb host).parseUrl (Reference.text ⟨r.scheme, r.host, r.path, r.query⟩) =
      some ⟨r.scheme ++ js ":", host, host, [], [], fromFirst 0x2f (r.host ++ r.path), [], []⟩ := by
    rw [Reference.text, if_neg hpathne, hr.query, List.append_nil, List.append_assoc,
      readingWeb_parseUrl host hhttp, before_append_rooted r.host hpath.rooted, if_pos rfl]
  have horigin : (readingWeb host).parseUrl (originText r.scheme r.host) =
      some ⟨r.scheme ++ js ":", host, host, [], [], fromFirst 0x2f (r.host ++ js "/"), [], []⟩ := by
    rw [originText, List.append_assoc, readingWeb_parseUrl host hhttp,
      before_append_rooted r.host rfl, if_pos rfl]
  have hassemble : assemble (readingWeb host) ⟨r.scheme, r.host, r.path, r.query⟩ =
      some ⟨⟨r.scheme ++ js ":", host, host, [], [], fromFirst 0x2f (r.host ++ r.path), [], []⟩,
          r.host⟩ := by
    have hgo : ¬ (r.scheme ≠ js "http" ∧ r.scheme ≠ js "https") := by tauto
    rw [assemble, if_neg hgo, htext, horigin]
    exact if_neg (by simp)
  have hintended : r.intended none = some ⟨r.scheme, r.host, r.path, r.query⟩ := by
    rw [Reference.intended, if_pos (.inl hscheme), if_neg hscheme, hself]
  refine ⟨host, _, resolveReference_eq_some.mpr ⟨r, _, hparsed, hintended, hassemble⟩, ?_⟩
  have hslash : 0x2f ∉ baseAuthority (gatewayProxyUrl stGatewayUrl) := notMem_before _ _
  rw [originText, List.append_assoc, readingWeb_parseUrl host (hr.scheme ▸ hhttp),
    before_append_rooted _ rfl, before_of_notMem hslash, if_neg]
  simpa only [host, hr.host] using readHost_ne_of_not_keepsHost hr.accepted hkeeps

/-- For every base and every request that reaches its route, whatever bytes stand for the symbol:
the first URL fetched is the base's with the endpoint's segments behind it, one of which decodes to
exactly those bytes, unless the base is one the client can call and `decodeHost` may not find the
host that its authority names. -/
theorem symbol_stays_one_segment_iff {stGatewayUrl : JsString}
    (hbase : IsPlainBase (gatewayProxyUrl stGatewayUrl)) {url : JsString} {req : RoutedRequest}
    (hmux : muxCompat url = .next req) {route : SymbolRoute}
    (hroute : route.Handles req) {doubles : Doubles} {call : Call}
    (hasks : route.Asks doubles (route.symbolOf req) call) :
    (∀ (web : Web) (written : JsString → JsString), KeepsPlainPaths web written →
        ReadsEscapedHosts web →
      ∀ (answers : Nat → Fetched) (f : Fetch),
        (fetches web (gatewayProxyUrl stGatewayUrl) call answers).head? = some f →
        IsUnderBase web written (gatewayProxyUrl stGatewayUrl) route
          (route.symbolOf req) f.target) ↔
      (IsReadable (gatewayProxyUrl stGatewayUrl) call.endpoint →
        KeepsHost (baseAuthority (gatewayProxyUrl stGatewayUrl))) := by
  constructor
  · intro hall hreadable
    by_contra hkeeps
    obtain ⟨hmem, hne⟩ := symbolOf_spec hmux hroute
    obtain ⟨hdot, hdots⟩ := routed_no_dots hmux _ hmem
    have hsymbol : route.symbolOf req ≠ [0x2e] ∧ route.symbolOf req ≠ [0x2e, 0x2e] :=
      ⟨fun he => hdot (by rw [he]; rfl), fun he => hdots (by rw [he]; rfl)⟩
    obtain ⟨host, t, ht, hnone⟩ := firstTarget_readingWeb hbase hsymbol hasks hreadable hkeeps
    have hf : (fetches (readingWeb host) (gatewayProxyUrl stGatewayUrl) call fun _ =>
      ⟨none, false⟩).head? =
        some (call.fetch (call.start t)) := by rw [fetches_head, ht, Option.map_some]
    obtain ⟨own, hown, -⟩ :=
      (hall _ id (keepsPlainPaths_readingWeb host) (readsEscapedHosts_readingWeb host) _ _ hf).host
    rw [hnone] at hown
    cases hown
  · intro hkeeps web written hweb hhosts answers f hf
    have hreadable : IsReadable (gatewayProxyUrl stGatewayUrl) call.endpoint := by
      have hfirst := hf
      rw [fetches_head, Option.map_eq_some_iff] at hfirst
      obtain ⟨t, ht, -⟩ := hfirst
      obtain ⟨r, i, hparsed, hi, hassemble⟩ := resolveReference_eq_some.mp ht
      exact ⟨r, hparsed, (intended_none hi hassemble).1⟩
    exact firstFetch_isUnderBase hweb hhosts hbase (hkeeps hreadable) hmux hroute hasks hf

/-- A double encoding of `..` sells cargo of a ship that is called `%2E%2E`. -/
theorem symbol_stays_one_segment_iff_encoded :
    let target : Target := ⟨⟨js "http:", js "gw.test", js "gw.test", [], [],
      js "/proxy/my/ships/%252E%252E/sell", [], []⟩, js "gw.test"⟩
    IsUnderBase (readingWeb (js "gw.test")) id (js "http://gw.test/proxy") .sellCargo
      (latin1Encode (js "%2E%2E")) target := by
  intro target
  let call : Call := ⟨js "POST", js "/my/ships/%252E%252E/sell", js "Bearer t",
    some (js "\x7b\"symbol\":\"FUEL\",\"units\":3\x7d")⟩
  have hbase : IsPlainBase (gatewayProxyUrl (js "http://gw.test/")) :=
    ⟨by decide +kernel, by decide +kernel⟩
  have hmux : muxCompat (js "/api/agent/v1/ships/%252E%252E/sell?x=../..") =
      .next ⟨latin1Encode (js "/api/agent/v1/ships/%2E%2E/sell"),
        js "/api/agent/v1/ships/%252E%252E/sell?x=../.."⟩ := by decide +kernel
  have hroute : SymbolRoute.sellCargo.Handles ⟨latin1Encode (js "/api/agent/v1/ships/%2E%2E/sell"),
      js "/api/agent/v1/ships/%252E%252E/sell?x=../.."⟩ := by decide +kernel
  have hcall : sellCargo ⟨fun _ => 0, fun _ => []⟩ (js "Bearer t") (latin1Encode (js "%2E%2E"))
    (js "FUEL") 3 =
      .ok call := by decide +kernel
  have htarget : firstTarget (readingWeb (js "gw.test")) (js "http://gw.test/proxy") call =
    some target := by decide +kernel
  have hf : (fetches (readingWeb (js "gw.test")) (gatewayProxyUrl (js "http://gw.test/")) call
    fun _ => ⟨none, false⟩).head? =
      some (call.fetch (call.start target)) := by
    rw [fetches_head]
    exact congrArg _ htarget
  exact (symbol_stays_one_segment_iff hbase hmux hroute (.sellCargo hcall)).mpr (fun _ =>
    .inl (by decide +kernel)) _ _
    (keepsPlainPaths_readingWeb _) (readsEscapedHosts_readingWeb _) _ _ hf

/-- Node's URL class on the two texts a host `é?` is written into: the query begins there. -/
def queryInHostWeb : Web where
  parseUrl text :=
    if text = js "http://é?/proxy/my/ships/A" then
      some ⟨js "http:", js "xn--9ca", js "xn--9ca", [], [], js "/", js "?/proxy/my/ships/A", []⟩
    else if text = js "http://é?/" then some ⟨js "http:", js "xn--9ca", js "xn--9ca", [], [],
      js "/", js "?/", []⟩
    else none
  domainToASCII name := name

theorem keepsPlainPaths_queryInHostWeb : KeepsPlainPaths queryInHostWeb id where
  path := by
    intro scheme host path url hscheme _ hhost hpath _ hparse
    have hquery : 0x3f ∉ scheme ++ js "://" ++ host ++ path := by
      simp only [List.mem_append, not_or]
      refine ⟨⟨⟨?_, by decide⟩, fun hm => absurd (hhost _ hm) (by decide)⟩, hpath.ends.1⟩
      rcases hscheme with rfl | rfl <;> decide
    simp only [queryInHostWeb] at hparse
    split at hparse
    · rename_i he
      exact absurd (he ▸ hquery) (by decide +kernel)
    · split at hparse
      · rename_i he
        exact absurd (he ▸ hquery) (by decide +kernel)
      · cases hparse
  plain _ := rfl
  no_dots h := h

/-- Neither text is that of a host with escapes, nor of one decoded from it: no `?`
is left of those. -/
theorem readsEscapedHosts_queryInHostWeb : ReadsEscapedHosts queryInHostWeb := by
  have hnone {scheme h : JsString} (hscheme : scheme = js "http" ∨ scheme = js "https")
      (hquery : 0x3f ∉ h) :
      queryInHostWeb.parseUrl (originText scheme h) = none := by
    have htext : 0x3f ∉ originText scheme h := by
      simp only [originText, List.mem_append, not_or]
      refine ⟨⟨⟨?_, by decide⟩, hquery⟩, by decide⟩
      rcases hscheme with rfl | rfl <;> decide
    simp only [queryInHostWeb]
    rw [if_neg fun he => absurd (he ▸ htext) (by decide +kernel), if_neg fun he =>
      absurd (he ▸ htext) (by decide +kernel)]
  intro scheme h hscheme hescaped
  obtain ⟨hquery, hdecoded⟩ := endsHost_notMem hescaped (u := 0x3f) (by decide)
  rw [hnone hscheme hquery, hnone hscheme hdecoded]

/-- A base host that mixes an escape with a character beyond U+00FF is cut to bytes, and U+013F
becomes a `?`: everything behind the host is fetched as a query. -/
theorem symbol_leaves_cut_host :
    KeepsPlainPaths queryInHostWeb id ∧ ReadsEscapedHosts queryInHostWeb ∧
      IsPlainBase (gatewayProxyUrl (js "http://%C3%A9Ŀ")) ∧
      muxCompat (js "/api/agent/v1/ships/A") =
        .next ⟨latin1Encode (js "/api/agent/v1/ships/A"), js "/api/agent/v1/ships/A"⟩ ∧
      SymbolRoute.getShip.Handles ⟨latin1Encode (js "/api/agent/v1/ships/A"),
        js "/api/agent/v1/ships/A"⟩ ∧
      ∃ f, (fetches queryInHostWeb (gatewayProxyUrl (js "http://%C3%A9Ŀ"))
        (getMyShip [] (latin1Encode (js "A")))
          fun _ => ⟨none, false⟩).head? = some f ∧
        f.target.url.pathname = js "/" ∧ f.target.url.search = js "?/proxy/my/ships/A" ∧
        ¬ IsUnderBase queryInHostWeb id (gatewayProxyUrl (js "http://%C3%A9Ŀ")) .getShip
          (latin1Encode (js "A")) f.target := by
  refine ⟨keepsPlainPaths_queryInHostWeb, readsEscapedHosts_queryInHostWeb,
    ⟨by decide +kernel, by decide +kernel⟩, by decide +kernel, by decide +kernel, ?_⟩
  have htarget : firstTarget queryInHostWeb (gatewayProxyUrl (js "http://%C3%A9Ŀ"))
    (getMyShip [] (latin1Encode (js "A"))) =
      some ⟨⟨js "http:", js "xn--9ca", js "xn--9ca", [], [], js "/", js "?/proxy/my/ships/A", []⟩,
          js "é?"⟩ := by
    decide +kernel
  rw [fetches_head, htarget]
  exact ⟨_, rfl, rfl, rfl, fun hunder => absurd hunder.search (by decide)⟩

end AgentService
