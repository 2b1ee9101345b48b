import AgentService.Gateway.BaseHost
import AgentService.Gateway.BaseReference

/-!
# A symbol is one segment of the gateway's path

A symbol goes through four rewritings that know nothing of each other: it is cut out of the
decoded path, escaped, resolved by Go's rules and parsed by the URL class. What the last one
does to a path is assumed segment by segment (`KeepsPlainPaths`); that the others leave it
exactly the endpoint's segments, with one for the symbol, is proved.
-/

namespace AgentService
open Lib

/-- `.` and `..` as the URL class reads them, with `%2e` for a dot in either case. -/
def isDotSegment (seg : JsString) : Bool :=
  [js ".", js "..", js "%2e", js ".%2e", js "%2e.", js "%2e%2e"].contains (asciiLower seg)

/-- A segment of letters, digits, `-_.~$&+=:@` and well-formed escapes. -/
def IsPlainPiece (seg : JsString) : Prop :=
  (∀ u ∈ seg, isPlainPathUnit u = true ∧ u ≠ 0x2f) ∧ hasBadEscape seg = false

/-- The path of an absolute text: rooted, without query, fragment, backslash, control character or
dot segment. -/
structure IsPlainPath (path : JsString) : Prop where
  rooted : path.head? = some 0x2f
  ends : EndsNothing path
  control : hasControl path = false
  no_dots : ∀ seg ∈ path.splitOn 0x2f, isDotSegment seg = false

/-- What the URL class does to the path of an `http` or `https` text without query
and fragment: each segment is written by itself, as it stands when it is plain, and
never becomes a dot segment. -/
structure KeepsPlainPaths (web : Web) (written : JsString → JsString) : Prop where
  path : ∀ {scheme host path url}, scheme = js "http" ∨ scheme = js "https" → host ≠ [] →
    (∀ u ∈ host, endsHost u = false) → IsPlainPath path → path.getLast? ≠ some 0x20 →
    web.parseUrl (scheme ++ js "://" ++ host ++ path) = some url →
    url.pathname.splitOn 0x2f = (path.splitOn 0x2f).map written ∧ url.search = [] ∧ url.hash = []
  plain : ∀ {seg}, IsPlainPiece seg → written seg = seg
  no_dots : ∀ {seg}, isDotSegment seg = false → isDotSegment (written seg) = false

/-- No `?`, `#`, backslash or dot segment. -/
structure IsPlainBase (base : JsString) : Prop where
  ends : EndsNothing base
  no_dots : ∀ seg ∈ (basePath base).splitOn 0x2f, isDotSegment seg = false

/-! ## The symbol's segment -/

theorem pathEscape_cons (b : UInt8) (s : Bytes) :
    pathEscape (b :: s) = pathEscape [b] ++ pathEscape s := by
  simp [pathEscape, escapeWith, latin1Decode, percentEncode]

/-- One byte is escaped to one plain character, or to an escape. -/
theorem pathEscape_byte (b : UInt8) :
    (∃ u, pathEscape [b] = [u] ∧ u ≠ 0x25) ∨
      ∃ h l, pathEscape [b] = [0x25, h, l] ∧ isHexUnit h = true ∧ isHexUnit l = true := by
  have hshape := forall_byte (p := fun b =>
    ((pathEscape [b]).length == 1 && (pathEscape [b]).head? != some 0x25 ||
      (pathEscape [b]).head? == some 0x25 && (pathEscape [b]).length == 3 &&
        (pathEscape [b]).tail.all isHexUnit) = true) (by decide +kernel) b
  simp only [Bool.or_eq_true, Bool.and_eq_true, beq_iff_eq, bne_iff_ne, ne_eq] at hshape
  rcases hshape with ⟨hlen, hne⟩ | ⟨⟨hhead, hlen⟩, hhex⟩
  · obtain ⟨u, hu⟩ := List.length_eq_one_iff.mp hlen
    rw [hu] at hne
    exact .inl ⟨u, hu, fun h => hne (congrArg some h)⟩
  · obtain ⟨c, h, l, hc⟩ := List.length_eq_three.mp hlen
    rw [hc] at hhead hhex
    obtain rfl := Option.some.inj hhead
    simp only [List.tail_cons, List.all_cons, List.all_nil, Bool.and_true, Bool.and_eq_true] at hhex
    exact .inr ⟨h, l, hc, hhex⟩

theorem pathEscape_plain (s : Bytes) : IsPlainPiece (pathEscape s) := by
  constructor
  · intro u hu
    obtain ⟨b, rfl, hb⟩ := mem_escapeWith hu
    have hplain :=
      forall_byte (p := fun b => (isUnreserved b || (js "$&+=:@").contains b.toUInt16 ||
        isPercentUnit b) = true → (isPlainPathUnit b.toUInt16 && b.toUInt16 != 0x2f) =
          true) (by decide +kernel) b
    have hb' : (isUnreserved b || (js "$&+=:@").contains b.toUInt16 || isPercentUnit b) = true := by
      simpa [or_assoc] using hb
    simpa using hplain hb'
  · induction s with
    | nil => rfl
    | cons b s ih =>
      rw [pathEscape_cons]
      rcases pathEscape_byte b with ⟨u, hu, hne⟩ | ⟨h, l, hesc, hh, hl⟩
      · rw [hu]
        simp [hasBadEscape, hne, ih]
      · rw [hesc]
        have hne : h ≠ 0x25 ∧ l ≠ 0x25 := by
          constructor <;> rintro rfl <;> simp_all [isHexUnit, isDigitUnit]
        simp [hasBadEscape, hh, hl, hne, ih]

/-- The characters that a lower-case one may have been. -/
theorem eq_of_lower {c d : UInt16} (h : (if 0x41 ≤ c ∧ c ≤ 0x5a then c + 0x20 else c) = d) :
    c = d ∨ 0x41 ≤ d - 0x20 ∧ c = d - 0x20 := by
  split at h
  · rename_i hupper
    have hc : c = d - 0x20 := by rw [← h]; simp
    exact .inr ⟨hc ▸ hupper.1, hc⟩
  · exact .inl h

/-- One dot at the front, in either spelling, is decoded to one. -/
theorem unescapeBytes_dot {seg t : JsString}
    (h : asciiLower seg = 0x2e :: t ∨ asciiLower seg = 0x25 :: 0x32 :: 0x65 :: t) :
    ∃ rest, asciiLower rest = t ∧ unescapeBytes seg = (unescapeBytes rest).map (0x2e :: ·) := by
  rcases h with h | h
  · obtain ⟨c, rest, rfl, hc, hrest⟩ := List.map_eq_cons_iff.mp h
    refine ⟨rest, hrest, ?_⟩
    rcases eq_of_lower hc with rfl | ⟨hle, -⟩
    · rw [unescapeBytes, latin1Encode, List.map_cons, percentDecode.eq_def]
      rfl
    · exact absurd hle (by decide)
  · obtain ⟨c, rest, rfl, hc, h⟩ := List.map_eq_cons_iff.mp h
    obtain ⟨d, rest, rfl, hd, h⟩ := List.map_eq_cons_iff.mp h
    obtain ⟨e, rest, rfl, he, hrest⟩ := List.map_eq_cons_iff.mp h
    refine ⟨rest, hrest, ?_⟩
    obtain rfl := (eq_of_lower hc).resolve_right fun h => absurd h.1 (by decide)
    obtain rfl := (eq_of_lower hd).resolve_right fun h => absurd h.1 (by decide)
    rcases eq_of_lower he with rfl | ⟨-, rfl⟩ <;>
    · simp only [unescapeBytes, latin1Encode, List.map_cons, percentDecode]
      rfl

/-- What the spellings of a dot segment decode to. -/
theorem unescapeBytes_of_isDotSegment {seg : JsString} (h : isDotSegment seg = true) :
    unescapeBytes seg = some [0x2e] ∨ unescapeBytes seg = some [0x2e, 0x2e] := by
  have hone {t : JsString} (h : asciiLower t = [0x2e] ∨ asciiLower t = [0x25, 0x32, 0x65]) :
      unescapeBytes t = some [0x2e] := by
    obtain ⟨rest, hnil, he⟩ := unescapeBytes_dot h
    rw [he, List.map_eq_nil_iff.mp hnil]
    rfl
  have htwo {t u : JsString} (hu : u = [0x2e] ∨ u = [0x25, 0x32, 0x65])
      (h : asciiLower t = 0x2e :: u ∨ asciiLower t = 0x25 :: 0x32 :: 0x65 :: u) :
      unescapeBytes t = some [0x2e, 0x2e] := by
    obtain ⟨rest, hrest, he⟩ := unescapeBytes_dot h
    rw [he, hone (hrest ▸ hu)]
    rfl
  have hlist : asciiLower seg ∈ [js ".", js "..", js "%2e", js ".%2e", js "%2e.", js "%2e%2e"] := by
    simpa [isDotSegment] using h
  simp only [List.mem_cons, List.not_mem_nil, or_false] at hlist
  rcases hlist with he | he | he | he | he | he
  · exact .inl (hone (.inl he))
  · exact .inr (htwo (.inl rfl) (.inl he))
  · exact .inl (hone (.inr he))
  · exact .inr (htwo (.inr rfl) (.inl he))
  · exact .inr (htwo (.inl rfl) (.inr he))
  · exact .inr (htwo (.inr rfl) (.inr he))

theorem pathEscape_not_dot {s : Bytes} (h : s ≠ [0x2e] ∧ s ≠ [0x2e, 0x2e]) :
    isDotSegment (pathEscape s) = false := by
  by_contra hdot
  rw [Bool.not_eq_false] at hdot
  have hround : unescapeBytes (pathEscape s) = some s := unescapeBytes_escapeWith (by decide) s
  rcases unescapeBytes_of_isDotSegment hdot with he | he
  · exact h.1 (Option.some.inj (hround.symm.trans he))
  · exact h.2 (Option.some.inj (hround.symm.trans he))

/-- The symbol of a request that reaches its route is a segment of the decoded path,
and not empty. -/
theorem symbolOf_spec {url : JsString} {req : RoutedRequest} (hmux : muxCompat url = .next req)
    {route : SymbolRoute} (hroute : route.Handles req) :
    route.symbolOf req ∈ req.decodedPath.splitOn 0x2f ∧ route.symbolOf req ≠ [] := by
  obtain ⟨k, hk, hsymbol⟩ : ∃ k,
    (((js route.path).splitOn 0x2f).reverse[k]?).any (·.head? == some 0x3a) = true ∧
      route.symbolOf req = segmentFromEnd req k := by
    cases route with
    | getShip => exact ⟨0, by decide +kernel, rfl⟩
    | getContract => exact ⟨0, by decide +kernel, rfl⟩
    | _ => exact ⟨1, by decide +kernel, rfl⟩
  obtain ⟨pattern, hpattern, hvar⟩ := (Option.any_eq_true _ _).mp hk
  -- the same place in the URL, and there the same place in the decoded path
  have hmatch := List.forall₂_reverse_iff.mpr hroute
  rw [routed_segments hmux, ← List.map_reverse] at hmatch
  obtain ⟨hlen, hpattern⟩ := List.getElem?_eq_some_iff.mp hpattern
  have hlen' := hmatch.length_eq ▸ hlen
  have hseg := hmatch.get hlen hlen'
  rw [List.length_map] at hlen'
  rw [List.get_eq_getElem, List.get_eq_getElem, hpattern, List.getElem_map,
    SymbolRoute.MatchesSegment, if_pos (by simpa using hvar)] at hseg
  have hcut : route.symbolOf req = (req.decodedPath.splitOn 0x2f).reverse[k] := by
    rw [hsymbol, segmentFromEnd, segmentBefore_eq, List.getElem?_eq_getElem hlen', Option.getD_some]
  rw [hcut]
  refine ⟨List.mem_reverse.mp (List.getElem_mem hlen'), fun hnil => hseg ?_⟩
  rw [hnil]
  rfl

/-! ## The first fetch -/

/-- A URL under the base: its scheme and host, its path with the endpoint's segments behind it, one
of which decodes to the symbol, and nothing else. -/
structure IsUnderBase (web : Web) (written : JsString → JsString) (base : JsString)
    (route : SymbolRoute) (symbol : Bytes) (t : Target) : Prop where
  scheme : t.url.protocol = asciiLower (baseScheme base) ++ js ":"
  /-- The host that the URL class reads in the base's own authority. -/
  host : ∃ own,
    web.parseUrl (originText (asciiLower (baseScheme base)) (baseAuthority base)) = some own ∧
      t.url.host = own.host
  addressed : IsAddressed web t
  segments : ∃ seg, seg ≠ [] ∧ unescapeBytes seg = some symbol ∧
    t.url.pathname.splitOn 0x2f = ((basePath base).splitOn 0x2f).map written ++
      route.endpointSegments seg
  no_dots : ∀ seg ∈ t.url.pathname.splitOn 0x2f, isDotSegment seg = false
  search : t.url.search = []
  hash : t.url.hash = []

/-- The words of the endpoints. -/
def endpointWords : List JsString :=
  [js "my", js "ships", js "contracts", js "accept", js "fulfill", js "purchase", js "sell"]

theorem mem_endpointSegments {route : SymbolRoute} {seg s : JsString}
    (h : s ∈ route.endpointSegments seg) : s = seg ∨ s ∈ endpointWords := by
  unfold endpointWords
  cases route <;> simp only [SymbolRoute.endpointSegments, List.mem_cons, List.not_mem_nil,
    or_false] at h ⊢ <;> tauto

/-- The endpoint's segments are plain and no dot segments when the symbol's is. -/
theorem endpointSegments_plain {route : SymbolRoute} {seg : JsString} (hplain : IsPlainPiece seg)
    (hdot : isDotSegment seg = false) :
    ∀ s ∈ route.endpointSegments seg, IsPlainPiece s ∧ isDotSegment s = false := by
  intro s hs
  rcases mem_endpointSegments hs with rfl | hword
  · exact ⟨hplain, hdot⟩
  · have hall := List.all_eq_true.mp (show (endpointWords.all fun w =>
      w.all (fun u => isPlainPathUnit u && u != 0x2f) && !hasBadEscape w &&
          !isDotSegment w) = true by
        decide +kernel) s hword
    simpa [IsPlainPiece, and_assoc] using hall

theorem isPlainPathUnit_ne_space {u : UInt16} (h : isPlainPathUnit u = true) : u ≠ 0x20 := by
  rintro rfl
  exact absurd h (by decide)

/-- The path of the first reference: the base's with the endpoint's segments behind it. -/
theorem splitOn_endpoint {route : SymbolRoute} {symbol : Bytes} (path : JsString) :
    (path ++ (route.endpointSegments (pathEscape symbol)).flatMap (0x2f :: ·)).splitOn 0x2f =
      path.splitOn 0x2f ++ route.endpointSegments (pathEscape symbol) := by
  refine splitOn_append_flatMap (fun s hs hm => ?_) path
  rcases mem_endpointSegments hs with rfl | hword
  · exact ((pathEscape_plain symbol).1 _ hm).2 rfl
  · have hall := List.all_eq_true.mp (show (endpointWords.all fun w => !w.contains 0x2f) = true by
        decide +kernel)
      s hword
    simp [hm] at hall

/-- What the endpoint is made of. -/
theorem endpoint_units (route : SymbolRoute) {seg : JsString} (hplain : IsPlainPiece seg)
    (hdot : isDotSegment seg = false) :
    ∀ u ∈ (route.endpointSegments seg).flatMap (0x2f :: ·), isPlainPathUnit u = true := by
  intro u hu
  obtain ⟨s, hs, hm⟩ := List.mem_flatMap.mp hu
  rcases List.mem_cons.mp hm with rfl | hm
  · rfl
  · exact ((endpointSegments_plain hplain hdot s hs).1.1 u hm).1

theorem isPlainPathUnit_ends {s : JsString} (h : ∀ u ∈ s, isPlainPathUnit u = true) :
    EndsNothing s := by
  refine ⟨?_, ?_, ?_⟩ <;> intro hm <;> exact absurd (h _ hm) (by decide)

theorem EndsNothing.append {s t : JsString} (hs : EndsNothing s) (ht : EndsNothing t) :
    EndsNothing (s ++ t) := by
  simp only [EndsNothing, List.mem_append, not_or]
  exact ⟨⟨hs.1, ht.1⟩, ⟨hs.2.1, ht.2.1⟩, hs.2.2, ht.2.2⟩

theorem EndsNothing.subset {s t : JsString} (ht : EndsNothing t) (h : s ⊆ t) : EndsNothing s :=
  ⟨fun hm => ht.1 (h hm), fun hm => ht.2.1 (h hm), fun hm => ht.2.2 (h hm)⟩

theorem hasControl_subset {s t : JsString} (ht : hasControl t = false) (h : s ⊆ t) :
    hasControl s = false := by
  rw [hasControl, List.any_eq_false] at ht ⊢
  exact fun u hu => ht u (h hu)

theorem ne_dots_of_not_dotSegment {seg : JsString} (h : isDotSegment seg = false) :
    seg ≠ js "." ∧ seg ≠ js ".." := by
  constructor <;> rintro rfl <;> exact absurd h (by decide)

/-- Without a base only a reference with a scheme can be put together, from its own parts. -/
theorem intended_none {web : Web} {r i : Reference} {t : Target} (hi : r.intended none = some i)
    (ht : assemble web i = some t) :
    r.scheme ≠ [] ∧ i = ⟨r.scheme, r.host, resolvePath r.path [], r.query⟩ := by
  unfold Reference.intended at hi
  split at hi
  · by_cases hs : r.scheme = []
    · rw [if_pos hs] at hi
      cases hi
      rcases (assemble_spec ht).2.2.1 with h | h <;> cases h
    · rw [if_neg hs] at hi
      exact ⟨hs, (Option.some.inj hi).symm⟩
  · cases hi

theorem endpoint_cons (route : SymbolRoute) (seg : JsString) :
    ∃ rest, (route.endpointSegments seg).flatMap (0x2f :: ·) = 0x2f :: rest := by
  cases route <;> exact ⟨_, rfl⟩

/-- The base with the endpoint behind it, read by Go's rules: all but the path is the base's own. -/
structure IsOverBase (base endpoint : JsString) (r : Reference) : Prop where
  scheme : r.scheme = asciiLower (baseScheme base)
  host : r.host = decodeHost (baseAuthority base)
  host_ne : r.host ≠ []
  accepted : hostAcceptable (baseAuthority base) = true
  path : r.path = basePath base ++ endpoint
  query : r.query = []
  control : hasControl r.path = false

section
variable {stGatewayUrl : JsString} (hbase : IsPlainBase (gatewayProxyUrl stGatewayUrl))
include hbase

theorem parseReference_over_base {endpoint : JsString} (hroot : ∃ rest, endpoint = 0x2f :: rest)
    (hunits : ∀ u ∈ endpoint, isPlainPathUnit u = true) {r : Reference}
    (hr : parseReference (gatewayProxyUrl stGatewayUrl ++ endpoint) = some r) (hs : r.scheme ≠ []) :
    IsOverBase (gatewayProxyUrl stGatewayUrl) endpoint r := by
  obtain ⟨rest, rfl⟩ := hroot
  obtain ⟨scheme, authority, habs, hlower, hhost, hquery, hcontrol, hok, hne⟩ :=
    parseReference_absolute (hbase.ends.append (isPlainPathUnit_ends hunits)) hr hs
  obtain ⟨rfl, rfl, hpath⟩ := absolute_over_base habs
  refine ⟨hlower, hhost, hne, hok, hpath, hquery, hasControl_subset hcontrol fun u hu => ?_⟩
  rw [habs.text]
  exact List.mem_append_right _ hu

variable {route : SymbolRoute} {symbol : Bytes} (hdots : symbol ≠ [0x2e] ∧ symbol ≠ [0x2e, 0x2e])
include hdots

/-- The path the URL class is given is one it keeps. -/
theorem isPlainPath_over_base {r : Reference} (hr : IsOverBase (gatewayProxyUrl stGatewayUrl)
    ((route.endpointSegments (pathEscape symbol)).flatMap (0x2f :: ·)) r) :
    IsPlainPath r.path ∧ r.path.getLast? ≠ some 0x20 := by
  have hplain := pathEscape_plain symbol
  have hdot := pathEscape_not_dot hdots
  have hunits := endpoint_units route hplain hdot
  obtain ⟨rest, hrest⟩ := endpoint_cons route (pathEscape symbol)
  have hpathEnds : EndsNothing (basePath (gatewayProxyUrl stGatewayUrl)) :=
    hbase.ends.subset fun u hu =>
      mem_of_mem_fromFirst (List.mem_of_mem_drop (mem_of_mem_fromFirst hu))
  refine ⟨⟨?_, ?_, hr.control, ?_⟩, ?_⟩
  · rw [hr.path, hrest]
    rcases fromFirst_eq 0x2f (baseRest (gatewayProxyUrl stGatewayUrl)) with h |
      ⟨post, h⟩ <;> rw [basePath, h] <;> rfl
  · rw [hr.path]
    exact hpathEnds.append (isPlainPathUnit_ends hunits)
  · intro s hs
    rw [hr.path, splitOn_endpoint] at hs
    rcases List.mem_append.mp hs with hs | hs
    · exact hbase.no_dots s hs
    · exact (endpointSegments_plain hplain hdot s hs).2
  · intro hlast
    rw [hr.path, List.getLast?_append_of_ne_nil _ (hrest ▸ List.cons_ne_nil _ _)] at hlast
    exact isPlainPathUnit_ne_space (hunits _ (List.mem_of_getLast? hlast)) rfl

/-- The first target of a call for a symbol is the base's URL with the endpoint behind its path. -/
theorem firstTarget_isUnderBase {web : Web} {written : JsString → JsString}
    (hweb : KeepsPlainPaths web written) (hhosts : ReadsEscapedHosts web)
    (hkeeps : KeepsHost (baseAuthority (gatewayProxyUrl stGatewayUrl))) (hne : symbol ≠ [])
    {doubles : Doubles} {call : Call} (hasks : route.Asks doubles symbol call) {t : Target}
    (ht : firstTarget web (gatewayProxyUrl stGatewayUrl) call = some t) :
    IsUnderBase web written (gatewayProxyUrl stGatewayUrl) route symbol t := by
  have hplain := pathEscape_plain symbol
  have hdot := pathEscape_not_dot hdots
  rw [firstTarget, SymbolRoute.endpoint_of_asks hasks] at ht
  obtain ⟨r, i, hparsed, hi, hassemble⟩ := resolveReference_eq_some.mp ht
  obtain ⟨hscheme, rfl⟩ := intended_none hi hassemble
  have hr := parseReference_over_base hbase (endpoint_cons route _)
    (endpoint_units route hplain hdot) hparsed hscheme
  obtain ⟨hpath, hlast⟩ := isPlainPath_over_base hbase hdots hr
  have hself : resolvePath r.path [] = r.path :=
    resolvePath_self hpath.rooted fun e he => ne_dots_of_not_dotSegment (hpath.no_dots e he)
  have hpathne : r.path ≠ [] := fun hnil => by simpa [hnil] using hpath.rooted
  -- what the URL class makes of it
  obtain ⟨-, hprotocol, hhttp, -, -, hparse, origin, horigin, hsame⟩ := assemble_spec hassemble
  rw [Reference.text, hself, if_neg hpathne, hr.query, List.append_nil] at hparse
  obtain ⟨hsegments, hsearch, hhash⟩ := hweb.path hhttp hr.host_ne
    (hr.host ▸ decodeHost_units hr.accepted hkeeps) hpath hlast hparse
  have hwritten : (route.endpointSegments (pathEscape symbol)).map written =
      route.endpointSegments (pathEscape symbol) :=
    (List.map_congr_left (g := id) fun s hs =>
      hweb.plain (endpointSegments_plain hplain hdot s hs).1).trans
      (List.map_id _)
  rw [hr.path, splitOn_endpoint, List.map_append, hwritten] at hsegments
  obtain ⟨own, hown, hreads⟩ := exists_own_host hhosts hr.accepted hkeeps hhttp (hr.host ▸ horigin)
  refine ⟨by rw [hprotocol, hr.scheme], ⟨own, hr.scheme ▸ hown, hsame.trans hreads⟩,
    isAddressed_of_assemble hassemble,
    ⟨pathEscape symbol, ?_, unescapeBytes_escapeWith (by decide) symbol, hsegments⟩, ?_,
    hsearch, hhash⟩
  · exact fun hnil => hne (percentEncode_eq_nil (List.map_eq_nil_iff.mp hnil))
  · intro s hs
    rw [hsegments] at hs
    rcases List.mem_append.mp hs with hs | hs
    · obtain ⟨b, hb, rfl⟩ := List.mem_map.mp hs
      exact hweb.no_dots (hbase.no_dots b hb)
    · exact (endpointSegments_plain hplain hdot s hs).2

end

/-- The first fetch goes to the first target. -/
theorem fetches_head (web : Web) (base : JsString) (call : Call) (answers : Nat → Fetched) :
    (fetches web base call answers).head? = (firstTarget web base call).map fun t =>
      call.fetch (call.start t) := by
  unfold fetches
  cases firstTarget web base call with
  | none => rfl
  | some t => exact (List.head?_map ..).trans (congrArg _ (Loop.run_head _ _))

/-- Whatever bytes stand for the symbol in a request that reaches its route, the first URL fetched
is the base with the endpoint's segments behind it, one of which decodes to exactly those bytes. -/
theorem firstFetch_isUnderBase {web : Web} {written : JsString → JsString}
    (hweb : KeepsPlainPaths web written) (hhosts : ReadsEscapedHosts web) {stGatewayUrl : JsString}
    (hbase : IsPlainBase (gatewayProxyUrl stGatewayUrl))
    (hkeeps : KeepsHost (baseAuthority (gatewayProxyUrl stGatewayUrl)))
    {url : JsString} {req : RoutedRequest} (hmux : muxCompat url = .next req) {route : SymbolRoute}
    (hroute : route.Handles req) {doubles : Doubles} {call : Call}
    (hasks : route.Asks doubles (route.symbolOf req) call) {answers : Nat → Fetched} {f : Fetch}
    (hf : (fetches web (gatewayProxyUrl stGatewayUrl) call answers).head? = some f) :
    IsUnderBase web written (gatewayProxyUrl stGatewayUrl) route (route.symbolOf req) f.target := by
  obtain ⟨hmem, hne⟩ := symbolOf_spec hmux hroute
  obtain ⟨hdot, hdots⟩ := routed_no_dots hmux _ hmem
  rw [fetches_head, Option.map_eq_some_iff] at hf
  obtain ⟨t, ht, rfl⟩ := hf
  refine firstTarget_isUnderBase hbase ⟨?_, ?_⟩ hweb hhosts hkeeps hne hasks ht
  · exact fun he => hdot (by rw [he]; rfl)
  · exact fun he => hdots (by rw [he]; rfl)

end AgentService
