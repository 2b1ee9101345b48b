import AgentService.Config

/-!
# An accepted introspection URL

The text of a URL that the service starts with has a scheme, an authority, a path and perhaps a `#`,
in one way only. Both readings of `src/config.ts` find these parts, and `fetch` sends them.
-/

namespace AgentService.Config
open Lib

/-! ## Control characters -/

theorem isControl_surrogate {u : UInt16} (h : 0xd800 ≤ u) : isControl u = false := by
  rw [isControl, Bool.or_eq_false_iff]
  constructor
  · rw [decide_eq_false_iff_not, UInt16.lt_iff_toNat_lt]
    rw [UInt16.le_iff_toNat_le] at h
    have : (0xd800 : UInt16).toNat = 0xd800 := rfl
    have : (0x20 : UInt16).toNat = 0x20 := rfl
    omega
  · rw [beq_eq_false_iff_ne]
    rintro rfl
    exact absurd h (by decide)

/-- A string is read by code points, and none of two units is a control character. -/
theorem holdsControl_eq (s : JsString) : holdsControl s = s.any isControl := by
  unfold holdsControl
  induction s using codePoints.induct with
  | case1 => rfl
  | case2 u => simp [codePoints]
  | case3 u v s hpair ih =>
    rw [codePoints, if_pos hpair, List.any_cons, ih]
    simp only [Bool.and_eq_true, isHighSurrogate, isLowSurrogate, decide_eq_true_eq] at hpair
    have hlow : 0xd800 ≤ v := UInt16.le_trans (by decide) hpair.2.1
    simp [isControl_surrogate hpair.1.1, isControl_surrogate hlow]
  | case4 u v s hpair ih =>
    rw [codePoints, if_neg hpair, List.any_cons, ih]
    simp

/-! ## Escapes -/

/-- Every `%` stands before two hex digits. -/
inductive WellEscaped : JsString → Prop
  | nil : WellEscaped []
  | unit {u : UInt16} {s : JsString} (hu : u ≠ 0x25) (hs : WellEscaped s) : WellEscaped (u :: s)
  | escape {h l : UInt16} {s : JsString} (hh : isHexUnit h = true) (hl : isHexUnit l = true)
      (hs : WellEscaped s) :
      WellEscaped (0x25 :: h :: l :: s)

theorem WellEscaped.append {s t : JsString} (hs : ∀ u ∈ s, u ≠ 0x25) (ht : WellEscaped t) :
    WellEscaped (s ++ t) := by
  induction s with
  | nil => exact ht
  | cons u s ih =>
    rw [List.forall_mem_cons] at hs
    exact .unit hs.1 (ih hs.2)

theorem codePoints_flatten (s : JsString) : (codePoints s).flatten = s := by
  induction s using codePoints.induct with
  | case1 => rfl
  | case2 u => rfl
  | case3 u v s hpair ih =>
    rw [codePoints, if_pos hpair, List.flatten_cons, ih]
    rfl
  | case4 u v s hpair ih =>
    rw [codePoints, if_neg hpair, List.flatten_cons, ih]
    rfl

/-- A percent sign is a code point of its own. -/
theorem percent_codePoint {s c : JsString} (hc : c ∈ codePoints s) (h : c ≠ [0x25]) :
    ∀ u ∈ c, u ≠ 0x25 := by
  induction s using codePoints.induct with
  | case1 => cases hc
  | case2 u =>
    cases List.mem_singleton.mp hc
    simpa using h
  | case3 u v s hpair ih =>
    rw [codePoints, if_pos hpair] at hc
    rcases List.mem_cons.mp hc with rfl | hc
    · simp only [Bool.and_eq_true, isHighSurrogate, isLowSurrogate, decide_eq_true_eq] at hpair
      simp only [List.forall_mem_cons, List.not_mem_nil, false_imp_iff, implies_true, and_true]
      constructor
      · rintro rfl
        exact absurd hpair.1.1 (by decide)
      · rintro rfl
        exact absurd hpair.2.1 (by decide)
    · exact ih hc
  | case4 u v s hpair ih =>
    rw [codePoints, if_neg hpair] at hc
    rcases List.mem_cons.mp hc with rfl | hc
    · simpa using h
    · exact ih hc

theorem isHexUnit_of_escapedUnit {h l byte : UInt16} (hbyte : escapedUnit h l = some byte) :
    isHexUnit h = true ∧ isHexUnit l = true := by
  unfold escapedUnit at hbyte
  split at hbyte
  · rename_i hhex
    simpa using hhex
  · cases hbyte

/-- The loop accepts no `%` that does not escape. -/
theorem wellEscaped_flatten {mode : EscapeMode} {chars : List JsString}
    (h : validEscapesFrom mode chars = true) (hchars : ∀ c ∈ chars, c ≠ [0x25] → ∀ u ∈ c,
      u ≠ 0x25) : WellEscaped chars.flatten := by
  fun_induction validEscapesFrom mode chars with
  | case1 => exact .nil
  | case2 first second chars byte hbyte ih =>
    rw [Bool.and_eq_true] at h
    obtain ⟨hfirst, hsecond⟩ := isHexUnit_of_escapedUnit hbyte
    apply WellEscaped.escape hfirst hsecond
    apply ih h.2
    intro c hc
    exact hchars c (List.mem_cons_of_mem _ (List.mem_cons_of_mem _ (List.mem_cons_of_mem _ hc)))
  | case3 => cases h
  | case4 => cases h
  | case5 chars u hu ih =>
    rw [Bool.and_eq_true] at h
    rw [List.forall_mem_cons] at hchars
    exact (ih h.2 hchars.2).append (hchars.1 hu)
  | case6 c chars hc _ ih =>
    rw [List.forall_mem_cons] at hchars
    exact (ih h hchars.2).append (hchars.1 hc)

theorem wellEscaped_of_validEscapes {s : JsString} {mode : EscapeMode}
    (h : validEscapes s mode = true) : WellEscaped s := by
  rw [← codePoints_flatten s]
  exact wellEscaped_flatten h fun c hc => percent_codePoint hc

/-! ## The parts of an endpoint -/

/-- The texts an endpoint is written with; `mark` is an empty fragment. -/
structure Endpoint where
  scheme : JsString
  authority : JsString
  path : JsString
  mark : JsString

namespace Endpoint

/-- `url` is written with these texts, each without what would end it. -/
structure Splits (e : Endpoint) (url : JsString) : Prop where
  text : url = e.scheme ++ js "://" ++ e.authority ++ e.path ++ e.mark
  scheme : asciiLower e.scheme = js "http" ∨ asciiLower e.scheme = js "https"
  authority_ne : e.authority ≠ []
  authority : ∀ u ∈ e.authority, u ∉ js "/?#@"
  path_root : e.path = [] ∨ e.path.head? = some 0x2f
  path : ∀ u ∈ e.path, u ∉ js "?#"
  mark : e.mark = [] ∨ e.mark = js "#"

end Endpoint

theorem isLetter_of_asciiLower {s : JsString} (h : ∀ u ∈ asciiLower s, isLetter u = true) :
    ∀ u ∈ s, isLetter u = true := by
  intro u hu
  have hlower := h _ (List.mem_map_of_mem hu)
  split at hlower
  · rename_i hupper
    simp [isLetter, hupper]
  · exact hlower

/-- Letters do not end a scheme. -/
theorem getScheme_append {s : JsString} (hs : ∀ u ∈ s, isLetter u = true) (seen rest : JsString) :
    getScheme seen (s ++ rest) = getScheme (seen ++ s) rest := by
  induction s generalizing seen with
  | nil => rw [List.nil_append, List.append_nil]
  | cons u s ih =>
    rw [List.forall_mem_cons] at hs
    rw [List.cons_append, getScheme, if_pos hs.1, ih hs.2, List.append_assoc]
    rfl

/-- The scheme stands before a colon. -/
theorem getScheme_eq_some {s scheme rest : JsString} {seen : JsString}
    (h : getScheme seen s = some (scheme, rest)) : seen ++ s = scheme ++ 0x3a :: rest := by
  induction s generalizing seen with
  | nil => cases h
  | cons c s ih =>
    rw [getScheme] at h
    split at h
    · simpa using ih h
    · split at h
      · simpa using ih h
      · split at h
        · rename_i hcolon
          cases h
          rw [hcolon.1]
        · cases h

namespace Endpoint.Splits
variable {e e' : Endpoint} {url : JsString}

theorem scheme_letters (h : e.Splits url) : ∀ u ∈ e.scheme, isLetter u = true := by
  apply isLetter_of_asciiLower
  rw [← List.all_eq_true]
  rcases h.scheme with hscheme | hscheme
  · rw [hscheme]
    rfl
  · rw [hscheme]
    rfl

theorem scheme_ne (h : e.Splits url) : e.scheme ≠ [] := by
  intro hnil
  have hscheme := h.scheme
  rw [hnil] at hscheme
  revert hscheme
  decide

theorem mark_head (h : e.Splits url) : e.mark = [] ∨ e.mark.head? = some 0x23 := by
  rcases h.mark with hmark | hmark
  · exact .inl hmark
  · rw [hmark]
    exact .inr rfl

/-- What follows the authority is empty or ends it. -/
theorem tail_head (h : e.Splits url) {u : UInt16} (hu : (e.path ++ e.mark).head? = some u) :
    u = 0x2f ∨ u = 0x23 := by
  rcases h.path_root with hpath | hpath
  · rw [hpath, List.nil_append] at hu
    rcases h.mark_head with hmark | hmark
    · rw [hmark] at hu
      cases hu
    · rw [hmark] at hu
      cases hu
      exact .inr rfl
  · rw [List.head?_append, hpath] at hu
    cases hu
    exact .inl rfl

theorem text_eq (h : e.Splits url) :
    url = e.scheme ++ 0x3a :: 0x2f :: 0x2f :: (e.authority ++ (e.path ++ e.mark)) := by
  rw [h.text]
  simp [js]

/-- The pattern finds the parts. -/
theorem matchUrl (h : e.Splits url) :
    matchUrl url = some (e.scheme, e.authority, e.path ++ e.mark) := by
  obtain ⟨htake, hdrop⟩ : url.takeWhile isSchemeTailUnit = e.scheme ∧
      url.dropWhile isSchemeTailUnit = 0x3a :: 0x2f :: 0x2f ::
          (e.authority ++ (e.path ++ e.mark)) := by
    rw [h.text_eq]
    apply takeWhile_dropWhile_append
    · intro u hu
      simp [isSchemeTailUnit, h.scheme_letters u hu]
    · rintro u ⟨⟩
      decide
  obtain ⟨hauthority, hrest⟩ :
      (e.authority ++ (e.path ++ e.mark)).takeWhile (fun u => !(js "/?#").contains u) =
        e.authority ∧
      (e.authority ++ (e.path ++ e.mark)).dropWhile (fun u => !(js "/?#").contains u) =
          e.path ++ e.mark := by
    apply takeWhile_dropWhile_append
    · intro u hu
      have hsubset : js "/?#" ⊆ js "/?#@" := by decide
      have hnot : u ∉ js "/?#" := fun hmem => h.authority u hu (hsubset hmem)
      simp [hnot]
    · intro u hu
      rcases h.tail_head hu with rfl | rfl
      · decide
      · decide
  have hletter : (url.head?.any isLetter) = true := by
    obtain ⟨u, s, hscheme⟩ := List.exists_cons_of_ne_nil h.scheme_ne
    rw [h.text_eq, hscheme]
    exact h.scheme_letters u (by simp [hscheme])
  unfold Config.matchUrl
  rw [if_pos hletter, htake, hdrop]
  simp only [hauthority, hrest]

/-- The parts are the only ones. -/
theorem unique (h : e.Splits url) (h' : e'.Splits url) : e' = e := by
  have hparts := h'.matchUrl.symm.trans h.matchUrl
  simp only [Option.some.injEq, Prod.mk.injEq] at hparts
  obtain ⟨hscheme, hauthority, htail⟩ := hparts
  have hcut {e : Endpoint} (h : e.Splits url) :
      before 0x23 (e.path ++ e.mark) = e.path ∧ fromFirst 0x23 (e.path ++ e.mark) = e.mark := by
    apply before_unique
    · intro hmem
      exact h.path _ hmem (by decide)
    · exact h.mark_head
  obtain ⟨hpath, hmark⟩ := hcut h
  obtain ⟨hpath', hmark'⟩ := hcut h'
  rw [htail] at hpath' hmark'
  cases e
  cases e'
  simp_all

/-- The index finds the scheme, in the case it is written in. -/
theorem getScheme (h : e.Splits url) :
    getScheme [] url = some (e.scheme, 0x2f :: 0x2f :: (e.authority ++ (e.path ++ e.mark))) := by
  rw [h.text_eq, getScheme_append h.scheme_letters, List.nil_append, Config.getScheme,
    if_neg (by decide), if_neg fun hsign => absurd hsign.1 (by decide), if_pos ⟨rfl, h.scheme_ne⟩]

/-- The variables of the first reading are the parts. -/
theorem urlParts (h : e.Splits url) :
    urlParts url = ⟨asciiLower e.scheme, 0x2f :: 0x2f :: (e.authority ++ e.path), [], e.authority,
      e.path⟩ := by
  have hslash : (0x2f : UInt16) ∉ e.authority := fun hmem => h.authority _ hmem (by decide)
  have hhash : (0x23 : UInt16) ∉ 0x2f :: 0x2f :: (e.authority ++ e.path) := by
    simp only [List.mem_cons, List.mem_append, not_or]
    exact ⟨by decide, by decide, fun hmem => h.authority _ hmem (by decide), fun hmem =>
      h.path _ hmem (by decide)⟩
  obtain ⟨hrest, hfragment⟩ := before_unique hhash h.mark_head
  obtain ⟨hauthority, hpath⟩ := before_unique hslash h.path_root
  have hempty : e.mark.drop 1 = [] := by
    rcases h.mark with hmark | hmark <;> rw [hmark] <;> rfl
  have htext : 0x2f :: 0x2f :: (e.authority ++ (e.path ++ e.mark)) =
      0x2f :: 0x2f :: (e.authority ++ e.path) ++ e.mark := by
    simp
  unfold Config.urlParts
  rw [h.getScheme, htext, Option.getD_some]
  simp only [hrest, hfragment, hempty, List.drop_succ_cons, List.drop_zero, hauthority, hpath]

end Endpoint.Splits

/-! ## What is accepted -/

section
variable {node : UrlNode} {raw : JsString}

/-- What the variables of the first reading are, where nothing is wrong with them. -/
theorem urlProblem_eq_none : urlProblem node raw = none ↔
    holdsControl raw = false ∧ js "//" <+: (urlParts raw).rest ∧
    ((urlParts raw).scheme = js "http" ∨ (urlParts raw).scheme = js "https") ∧
    0x3f ∉ (urlParts raw).rest ∧ (urlParts raw).fragment = [] ∧ 0x40 ∉ (urlParts raw).authority ∧
    (urlParts raw).authority ≠ [] ∧ validHost node.isIPv6 (urlParts raw).authority = true ∧
    validEscapes (urlParts raw).path .path = true := by
  unfold urlProblem
  generalize urlParts raw = url
  have hscheme : url.scheme = js "http" ∨ url.scheme = js "https" → url.scheme ≠ [] := by
    rintro (h | h) <;> rw [h] <;> decide
  simp only [ite_eq_iff, reduceCtorEq, and_false, false_or, and_true, not_or,
    List.isPrefixOf_iff_prefix, List.contains_iff_mem, not_and_or, not_not, Bool.not_eq_true,
    Bool.not_eq_false]
  tauto

/-- What has a scheme and starts with `//` behind it is written with the parts that
the first reading found. -/
theorem splits_urlParts {scheme rest : JsString} (hscheme : getScheme [] raw = some (scheme, rest))
    (h : urlProblem node raw = none) :
    Endpoint.Splits ⟨scheme, (urlParts raw).authority, (urlParts raw).path,
      fromFirst 0x23 rest⟩ raw := by
  obtain ⟨-, hslashes, hhttp, hquery, hfragment, hat, hne, -, -⟩ := urlProblem_eq_none.mp h
  have htext : raw = scheme ++ 0x3a :: rest := getScheme_eq_some hscheme
  unfold urlParts at *
  rw [hscheme, Option.getD_some] at *
  dsimp only at *
  obtain ⟨t, ht⟩ := hslashes
  have hhash : (0x23 : UInt16) ∉ before 0x23 rest := notMem_before 0x23 rest
  have hrest : rest = before 0x23 rest ++ fromFirst 0x23 rest :=
    (before_append_fromFirst 0x23 rest).symm
  rw [← ht] at hhash hquery hrest hat hne ⊢
  have htail : (js "//" ++ t).drop 2 = t := rfl
  rw [htail] at *
  have hunit {u : UInt16} (hu : u ∈ t) : u ≠ 0x3f ∧ u ≠ 0x23 := by
    constructor
    · rintro rfl
      exact hquery (List.mem_append_right _ hu)
    · rintro rfl
      exact hhash (List.mem_append_right _ hu)
  refine ⟨?_, hhttp, hne, ?_, ?_, ?_, ?_⟩
  · calc raw
        = scheme ++ 0x3a :: (js "//" ++ (before 0x2f t ++ fromFirst 0x2f t) ++
            fromFirst 0x23 rest) := by
          rw [before_append_fromFirst, ← hrest, ← htext]
      _ = scheme ++ js "://" ++ before 0x2f t ++ fromFirst 0x2f t ++ fromFirst 0x23 rest := by
          simp [js]
  · intro u hu hmem
    have hends : u = 0x2f ∨ u = 0x3f ∨ u = 0x23 ∨ u = 0x40 := by simpa [js] using hmem
    have ht : u ∈ t := (List.takeWhile_sublist _).subset hu
    rcases hends with rfl | rfl | rfl | rfl
    · exact notMem_before 0x2f t hu
    · exact (hunit ht).1 rfl
    · exact (hunit ht).2 rfl
    · exact hat hu
  · exact (fromFirst_eq 0x2f t).imp_right fun ⟨post, hpost⟩ => by rw [hpost]; rfl
  · intro u hu hmem
    have hends : u = 0x3f ∨ u = 0x23 := by simpa [js] using hmem
    have ht : u ∈ t := (List.dropWhile_sublist _).subset hu
    exact hends.elim (hunit ht).1 (hunit ht).2
  · rcases fromFirst_eq 0x23 rest with hnone | ⟨post, hpost⟩
    · exact .inl hnone
    · rw [hpost, List.drop_succ_cons, List.drop_zero] at hfragment
      rw [hpost, hfragment]
      exact .inr rfl

/-- The first reading accepts the endpoints with a good host and good escapes, and nothing else. -/
theorem urlProblem_eq_none_iff : urlProblem node raw = none ↔
    holdsControl raw = false ∧ ∃ e : Endpoint, e.Splits raw ∧
      validHost node.isIPv6 e.authority = true ∧
      validEscapes e.path .path = true := by
  constructor
  · intro h
    obtain ⟨hcontrol, -, hhttp, -, -, -, -, hhost, hescapes⟩ := urlProblem_eq_none.mp h
    cases hscheme : getScheme [] raw with
    | none =>
      have hnone : (urlParts raw).scheme = [] := by
        rw [urlParts, hscheme]
        rfl
      rw [hnone] at hhttp
      exact absurd hhttp (by decide)
    | some found =>
      exact ⟨hcontrol, _, splits_urlParts hscheme h, hhost, hescapes⟩
  · rintro ⟨hcontrol, e, hsplits, hhost, hescapes⟩
    rw [urlProblem_eq_none, hsplits.urlParts]
    refine ⟨hcontrol, ⟨_, rfl⟩, hsplits.scheme, ?_, rfl, ?_, hsplits.authority_ne, hhost, hescapes⟩
    · simp only [List.mem_cons, List.mem_append, not_or]
      exact ⟨by decide, by decide, fun hmem => hsplits.authority _ hmem (by decide),
        fun hmem => hsplits.path _ hmem (by decide)⟩
    · exact fun hmem => hsplits.authority _ hmem (by decide)

/-- The second reading accepts what the URL class writes as it is, but for the case of the scheme
and the authority and a `/` for an empty path. -/
theorem fetchProblem_eq_none_iff {e : Endpoint} (hsplits : e.Splits raw) :
    fetchProblem node raw = none ↔
    node.href raw = some (asciiLower e.scheme ++ js "://" ++ node.toLowerCase e.authority ++
      (if e.path = [] then js "/" else e.path) ++ e.mark) := by
  have hpath : (if e.path ++ e.mark = [] ∨ (e.path ++ e.mark).head? = some 0x23 then
    js "/" ++ (e.path ++ e.mark)
      else e.path ++ e.mark) = (if e.path = [] then js "/" else e.path) ++ e.mark := by
    rcases hsplits.path_root with hpath | hpath
    · rw [hpath, List.nil_append, if_pos hsplits.mark_head, if_pos rfl]
    · have hne : e.path ≠ [] := by
        intro hnil
        rw [hnil] at hpath
        cases hpath
      have hhead : (e.path ++ e.mark).head? = some 0x2f := by
        rw [List.head?_append, hpath, Option.some_or]
      rw [if_neg hne, if_neg]
      rw [hhead, List.append_eq_nil_iff, not_or]
      exact ⟨fun hnil => hne hnil.1, by decide⟩
  unfold fetchProblem
  rw [hsplits.matchUrl]
  dsimp only
  rw [hpath, List.append_assoc _ _ e.mark]
  generalize htext : asciiLower e.scheme ++ js "://" ++ node.toLowerCase e.authority ++
    ((if e.path = [] then js "/" else e.path) ++ e.mark) = text
  have hne : text ≠ [] := by
    rw [← htext]
    simp [js]
  cases node.href raw with
  | none => simp
  | some href =>
    rw [Option.getD_some, Option.some_inj]
    constructor
    · intro h
      by_contra hnot
      rw [if_neg fun hboth => hnot hboth.2] at h
      cases h
    · rintro rfl
      exact if_pos ⟨hne, rfl⟩

end

/-! ## The configuration -/

theorem loadAuthConfig_eq_ok {node : UrlNode} {env : Env} {accepted : IntrospectionConfig}
    (h : loadAuthConfig node env = .ok accepted) :
    urlProblem node accepted.url = none ∧ fetchProblem node accepted.url = none ∧
    accepted.secret ≠ [] ∧ goTrimSpace accepted.secret = accepted.secret ∧
      holdsControl accepted.secret = false := by
  unfold loadAuthConfig at h
  dsimp only at h
  split_ifs at h with hurl hsecret hplain
  rw [not_or, not_not, Bool.not_eq_true] at hplain
  split at h
  · cases h
  · rename_i hproblem
    cases h
    obtain ⟨hindex, hpattern⟩ := Option.or_eq_none_iff.mp hproblem
    refine ⟨hindex, hpattern, ?_, hplain.1.symm, hplain.2⟩
    rw [hplain.1]
    exact hsecret

/-- An accepted introspection URL means the same to both readings: they find the parts it is written
with, in the only way it can be, and the URL class writes these parts. -/
theorem introspection_url_parts (node : UrlNode) (env : Env) (accepted : IntrospectionConfig)
    (h : loadAuthConfig node env = .ok accepted) :
    (∀ u ∈ accepted.url, isControl u = false) ∧
    (∃ e : Endpoint, e.Splits accepted.url ∧ (∀ e' : Endpoint, e'.Splits accepted.url → e' = e) ∧
      validHost node.isIPv6 e.authority = true ∧ WellEscaped e.path ∧
      (∃ rest, getScheme [] accepted.url = some (e.scheme, rest)) ∧
      urlParts accepted.url = ⟨asciiLower e.scheme, js "//" ++ (e.authority ++ e.path), [],
        e.authority, e.path⟩ ∧
      matchUrl accepted.url = some (e.scheme, e.authority, e.path ++ e.mark) ∧
      node.href accepted.url = some (asciiLower e.scheme ++ js "://" ++
        node.toLowerCase e.authority ++ (if e.path = [] then js "/" else e.path) ++ e.mark)) ∧
    accepted.secret ≠ [] ∧ goTrimSpace accepted.secret = accepted.secret ∧
    ∀ u ∈ accepted.secret, isControl u = false := by
  obtain ⟨hindex, hpattern, hsecret, htrimmed, hsecretControl⟩ := loadAuthConfig_eq_ok h
  obtain ⟨hcontrol, e, hsplits, hhost, hescapes⟩ := urlProblem_eq_none_iff.mp hindex
  rw [holdsControl_eq, List.any_eq_false] at hcontrol hsecretControl
  refine ⟨?_, ⟨e, hsplits, ?_, hhost, ?_, ?_, ?_, ?_, ?_⟩, hsecret, htrimmed, ?_⟩
  · intro u hu
    exact Bool.eq_false_of_not_eq_true (hcontrol u hu)
  · intro e' hsplits'
    exact hsplits.unique hsplits'
  · exact wellEscaped_of_validEscapes hescapes
  · exact ⟨_, hsplits.getScheme⟩
  · exact hsplits.urlParts
  · exact hsplits.matchUrl
  · exact (fetchProblem_eq_none_iff hsplits).mp hpattern
  · intro u hu
    exact Bool.eq_false_of_not_eq_true (hsecretControl u hu)

/-- A URL class that writes one text for every URL. -/
def centerNode : UrlNode where
  toUnicode := plainUnicode
  href _ := some (js "http://center/x#")
  isIPv6 _ := false

def centerEnv : Env := fun name =>
  if name = ENV_URL then some (js "HTTP://Center/x#")
  else if name = ENV_SECRET then some (js "s3cret")
  else none

theorem introspection_url_parts_center :
    ∃ e : Endpoint, e.Splits (js "HTTP://Center/x#") ∧
      matchUrl (js "HTTP://Center/x#") = some (e.scheme, e.authority, e.path ++ e.mark) := by
  have hok : loadAuthConfig centerNode centerEnv = .ok ⟨js "HTTP://Center/x#", js "s3cret"⟩ := by
    decide +kernel
  obtain ⟨-, ⟨e, hsplits, -, -, -, -, -, hmatch, -⟩, -⟩ :=
    introspection_url_parts centerNode centerEnv _ hok
  exact ⟨e, hsplits, hmatch⟩

end AgentService.Config
