import AgentService.Http.Redirect

/-!
# Two readings of one path

The router matches the rewritten URL, the handlers cut their symbol out of the decoded
bytes. Segment by segment, what the router decodes is the lossy UTF-8 reading of what a
handler cuts out, and counting from the end finds the same segment in both.
-/

namespace AgentService
open Lib

/-- `segmentFromEnd` walks back over the same pieces a cut at every slash gives. -/
theorem segmentBefore_eq (k : Nat) :
    ∀ path : Bytes, segmentBefore path k = ((path.splitOn 0x2f).reverse[k]?).getD [] := by
  induction k with
  | zero =>
    intro path
    unfold segmentBefore
    split_ifs with hp
    · subst hp; rfl
    · rcases lastIndexOf_cases 0x2f path with ⟨hm, hnone⟩ | ⟨pre, post, rfl, hpost, hlast⟩
      · rw [hnone, List.splitOn_eq_singleton hm]
        rfl
      · rw [hlast, splitOn_last hpost]
        simp
  | succ k ih =>
    intro path
    unfold segmentBefore
    split_ifs with hp
    · subst hp; rfl
    · rcases lastIndexOf_cases 0x2f path with ⟨hm, hnone⟩ | ⟨pre, post, rfl, hpost, hlast⟩
      · rw [hnone, List.splitOn_eq_singleton hm]
        rfl
      · rw [hlast, splitOn_last hpost]
        simpa using ih pre

/-- The lossy UTF-8 reading of bytes, as UTF-8 again: what the rewritten URL escapes. -/
def lossyUtf8 (bytes : Bytes) : Bytes := stringToUtf8 (utf8ToString bytes)

theorem lossyUtf8_eq (bytes : Bytes) : lossyUtf8 bytes = utf8Encode (utf8Decode bytes) := by
  rw [lossyUtf8, utf8ToString, stringToUtf8_utf16]

/-- The lossy reading is ASCII for ASCII bytes only, and leaves them as they are. -/
theorem lossyUtf8_eq_iff {lit : Bytes} (hlit : ∀ b ∈ lit, b ≠ 0 ∧ b < 0x80) (s : Bytes) :
    lossyUtf8 s = lit ↔ s = lit := by
  have hsame {bs : Bytes} (h : ∀ b ∈ bs, b < 0x80) : lossyUtf8 bs = bs := by
    rw [lossyUtf8, utf8ToString_ascii h, stringToUtf8_ascii h]
  constructor
  · intro h
    have hascii : ∀ b ∈ s, b < 0x80 := by
      refine ascii_of_utf8Decode fun c hc => ?_
      rw [lossyUtf8_eq, utf8Encode] at h
      have hmem : ∀ b ∈ String.utf8EncodeChar c, b ≠ 0 ∧ b < 0x80 := fun b hb =>
        hlit b (h ▸ List.mem_flatMap.mpr ⟨c, hc, hb⟩)
      rcases Utf8.encodeChar_shape c with ⟨hlow, heq⟩ | ⟨b, bs, heq, hlead, -⟩
      · refine ⟨fun hzero => ?_, hlow⟩
        rw [heq, hzero] at hmem
        exact (hmem _ (List.mem_singleton_self _)).1 rfl
      · have hb : b.toNat < 0x80 := UInt8.lt_iff_toNat_lt.mp (hmem b (heq ▸ List.mem_cons_self)).2
        unfold Utf8.IsLead at hlead
        omega
    rw [← hsame hascii, h]
  · rintro rfl
    exact hsame fun b hb => (hlit b hb).2

/-- The lossy reading is made segment by segment. -/
theorem splitOn_lossyUtf8 (bytes : Bytes) :
    (lossyUtf8 bytes).splitOn 0x2f = (bytes.splitOn 0x2f).map lossyUtf8 := by
  have hslash : (0x2f : UInt8) < 0x80 := by decide
  refine splitOn_of_distributes ?_ ?_ bytes
  · intro as bs
    simp only [lossyUtf8_eq, utf8Decode_append_ascii as hslash, utf8Encode_append, utf8Encode_cons]
    rfl
  · intro as has hmem
    rw [lossyUtf8_eq] at hmem
    exact has (mem_utf8Decode_ascii (by decide) (by decide) (mem_utf8Encode_ascii hslash hmem))

theorem toUInt16_injective : Function.Injective UInt8.toUInt16 :=
  Function.LeftInverse.injective (g := UInt16.toUInt8) UInt8.toUInt8_toUInt16

/-- An escape that keeps slashes is made segment by segment. -/
theorem splitOn_escapeWith {keep : String} (hk : 0x2f ∈ js keep) (bytes : Bytes) :
    (escapeWith bytes keep).splitOn 0x2f = (bytes.splitOn 0x2f).map (escapeWith · keep) := by
  have hslash : (0x2f : UInt16) = UInt8.toUInt16 0x2f := rfl
  rw [escapeWith, latin1Decode, hslash, splitOn_map toUInt16_injective,
    splitOn_percentEncode (by simpa [isUnreserved] using hk) (by decide), List.map_map]
  rfl

/-- What the router decodes a rewritten segment to. -/
theorem decodeURIComponent_escapeForRouting (bytes : Bytes) :
    decodeURIComponent (escapeForRouting (lossyUtf8 bytes)) = some (utf8ToString bytes) := by
  have hkeep : ∀ b : UInt8, isUnreserved b = true ∨
    (js "/!$&'()*+,;=:@").contains b.toUInt16 = true →
      b < 0x80 ∧ b ≠ 0x25 := forall_byte (by decide +kernel)
  rw [escapeForRouting, escapeWith, lossyUtf8_eq, utf8ToString]
  refine decodeURIComponent_percentEncode (fun b hb => hkeep b ?_) _
  simpa using hb

/-- How the URL the router matches and the bytes the handlers read belong together. -/
structure IsRoutedFrom (url : JsString) (req : RoutedRequest) : Prop where
  decoded : ∃ target, targetOf url = some target ∧
    unescapeBytes (before 0x3f target) = some req.decodedPath
  same_count : ((before 0x3f req.url).splitOn 0x2f).length = (req.decodedPath.splitOn 0x2f).length
  same_segments : ((before 0x3f req.url).splitOn 0x2f).map decodeURIComponent =
    (req.decodedPath.splitOn 0x2f).map fun s => some (utf8ToString s)
  from_end : ∀ k, segmentFromEnd req k = ((req.decodedPath.splitOn 0x2f).reverse[k]?).getD []
  query : (0x3f ∉ url ∧ rawQueryOf req.url = []) ∨
    ∃ pre, url = pre ++ 0x3f :: rawQueryOf req.url ∧ 0x3f ∉ pre

theorem before_routedUrl (decoded : Bytes) (url : JsString) :
    before 0x3f (escapeForRouting (lossyUtf8 decoded) ++ fromFirst 0x3f url) =
      escapeForRouting (lossyUtf8 decoded) := by
  rw [escapeForRouting, before_append (notMem_escapeWith routingKeep_units), before_fromFirst,
    List.append_nil]

/-- What `muxCompat` hands on when it does: a clean path, in bytes and escaped again. -/
theorem muxCompat_next {url : JsString} {req : RoutedRequest} (h : muxCompat url = .next req) :
    ∃ target, targetOf url = some target ∧ unescapeBytes (before 0x3f target) =
      some req.decodedPath ∧
      cleanPath (latin1Decode req.decodedPath) = latin1Decode req.decodedPath ∧
      req.url = escapeForRouting (lossyUtf8 req.decodedPath) ++ fromFirst 0x3f url := by
  rcases muxCompat_cases url with hbad | ⟨target, decoded, ht, hd, ⟨-, hmoved⟩ | ⟨hclean, hnext⟩⟩
  · rw [hbad] at h; cases h
  · rw [hmoved] at h; cases h
  rw [hnext] at h
  cases h
  exact ⟨target, ht, hd, hclean, rfl⟩

/-- The URL's path has the decoded path's segments, each escaped by itself. -/
theorem routed_segments {url : JsString} {req : RoutedRequest} (h : muxCompat url = .next req) :
    (before 0x3f req.url).splitOn 0x2f =
      (req.decodedPath.splitOn 0x2f).map fun s => escapeForRouting (lossyUtf8 s) := by
  obtain ⟨target, -, -, -, hurl⟩ := muxCompat_next h
  rw [hurl, before_routedUrl, escapeForRouting, splitOn_escapeWith (by decide), splitOn_lossyUtf8,
    List.map_map]
  rfl

/-- A path that is passed on has no dot segment left. -/
theorem routed_no_dots {url : JsString} {req : RoutedRequest} (h : muxCompat url = .next req) :
    ∀ s ∈ req.decodedPath.splitOn 0x2f, latin1Decode s ≠ js "." ∧ latin1Decode s ≠ js ".." := by
  obtain ⟨target, -, -, hclean, -⟩ := muxCompat_next h
  obtain ⟨c, hc⟩ := cleanPath_eq_render (latin1Decode req.decodedPath)
  have hsplit : (req.decodedPath.splitOn 0x2f).map latin1Decode = [] :: c.pieces := by
    rw [← c.splitOn_render, ← hc, hclean]
    exact (splitOn_map toUInt16_injective _).symm
  have hplain : ∀ s ∈ [] :: c.pieces, s ≠ js "." ∧ s ≠ js ".." := by
    intro s hs
    have hnil : ([] : JsString) ≠ js "." ∧ ([] : JsString) ≠ js ".." := by decide
    rcases List.mem_cons.mp hs with rfl | hs
    · exact hnil
    · unfold RootedPath.pieces at hs
      split at hs
      · rw [List.mem_singleton.mp hs]
        exact hnil
      · rcases List.mem_append.mp hs with hs | hs
        · exact ⟨(c.plain s hs).ne_dot, (c.plain s hs).ne_dots⟩
        · split at hs
          · rw [List.mem_singleton.mp hs]
            exact hnil
          · cases hs
  intro s hs
  exact hplain _ (hsplit ▸ List.mem_map_of_mem hs)

/-- For every target that is passed on, the URL the router matches and the bytes the handlers read
describe the same path, and the query is what the caller sent. -/
theorem routed_views_agree {url : JsString} {req : RoutedRequest} (h : muxCompat url = .next req) :
    IsRoutedFrom url req := by
  obtain ⟨target, ht, hd, -, hurl⟩ := muxCompat_next h
  have hsplit := routed_segments h
  refine ⟨⟨target, ht, hd⟩, ?_, ?_, fun k => segmentBefore_eq k req.decodedPath, ?_⟩
  · rw [hsplit, List.length_map]
  · rw [hsplit, List.map_map]
    exact List.map_congr_left fun s _ => decodeURIComponent_escapeForRouting s
  · have hq : rawQueryOf req.url = (fromFirst 0x3f url).drop 1 := by
      rw [hurl, rawQueryOf, escapeForRouting,
        fromFirst_append (notMem_escapeWith routingKeep_units), fromFirst_fromFirst]
    rw [hq]
    have hurl := before_append_fromFirst 0x3f url
    rcases fromFirst_eq (0x3f : UInt16) url with hnone | ⟨post, hpost⟩
    · refine .inl ⟨?_, by rw [hnone]; rfl⟩
      rw [hnone, List.append_nil] at hurl
      rw [← hurl]
      exact notMem_before 0x3f url
    · refine .inr ⟨before 0x3f url, ?_, notMem_before 0x3f url⟩
      conv_lhs => rw [← hurl, hpost]
      rw [hpost]
      rfl

/-- A symbol with a byte that is no UTF-8 and an escaped slash, in front of a query. -/
theorem routed_views_agree_raw :
    IsRoutedFrom (js "/a/b%2Fc%FF/sell?x=%zz")
      ⟨latin1Encode (js "/a/b/c") ++ 0xff :: latin1Encode (js "/sell"),
        js "/a/b/c%EF%BF%BD/sell?x=%zz"⟩ :=
  routed_views_agree (by decide +kernel)

end AgentService
