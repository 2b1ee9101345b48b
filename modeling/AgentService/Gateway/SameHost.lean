import AgentService.Gateway.RedirectRun

/-!
# The host a resolved reference names

Whatever `resolveReference` returns has been compared with the URL of its own scheme and
host (`IsAddressed`), and a reference without an authority gets both from its base. Over a
run the first is an invariant of every target, and with it the second applies at each hop.
-/

namespace AgentService
open Lib

variable {web : Web}

/-- Both readings of a target name the same host: the URL that is fetched has the host of
`protocol://host/`, is plain http or https and carries no credentials. -/
structure IsAddressed (web : Web) (t : Target) : Prop where
  protocol : t.url.protocol = js "http:" ∨ t.url.protocol = js "https:"
  username : t.url.username = []
  password : t.url.password = []
  host : ∃ origin, web.parseUrl (t.url.protocol ++ js "//" ++ t.host ++ js "/") = some origin ∧
    t.url.host = origin.host

theorem assemble_spec {r : Reference} {t : Target} (h : assemble web r = some t) :
    t.host = r.host ∧ t.url.protocol = r.scheme ++ js ":" ∧
      (r.scheme = js "http" ∨ r.scheme = js "https") ∧ t.url.username = [] ∧ t.url.password = [] ∧
      web.parseUrl r.text = some t.url ∧
      ∃ origin, web.parseUrl (originText r.scheme r.host) = some origin ∧
        t.url.host = origin.host := by
  unfold assemble at h
  split at h
  · cases h
  · rename_i hscheme
    split at h
    · cases h
    · rename_i url hurl
      split at h
      · cases h
      · rename_i origin horigin
        split at h
        · cases h
        · rename_i hsame
          cases h
          simp only [not_or, not_not] at hsame
          refine ⟨rfl, hsame.1, ?_, hsame.2.2.1, hsame.2.2.2, hurl, origin, horigin, hsame.2.1⟩
          by_contra hne
          exact hscheme (not_or.mp hne)

theorem originText_eq (scheme host : JsString) :
    originText scheme host = scheme ++ js ":" ++ js "//" ++ host ++ js "/" := by
  rw [originText, List.append_assoc scheme (js ":")]
  rfl

theorem isAddressed_of_assemble {r : Reference} {t : Target} (h : assemble web r = some t) :
    IsAddressed web t := by
  obtain ⟨hhost, hprotocol, hscheme, huser, hpass, -, origin, horigin, heq⟩ := assemble_spec h
  refine ⟨?_, huser, hpass, origin, ?_, heq⟩
  · rw [hprotocol]
    exact hscheme.imp (by rintro h; rw [h]; rfl) (by rintro h; rw [h]; rfl)
  · rw [hprotocol, hhost, ← originText_eq, horigin]

/-- A resolved reference has been taken apart, given what it lacks, and put together. -/
theorem resolveReference_eq_some {base : Option Target} {ref : JsString} {t : Target} :
    resolveReference web base ref = some t ↔
      ∃ r i, parseReference ref = some r ∧ r.intended base = some i ∧ assemble web i = some t := by
  simp only [resolveReference, Option.bind_eq_some_iff]
  exact ⟨fun ⟨r, hr, i, hi, h⟩ => ⟨r, i, hr, hi, h⟩, fun ⟨r, i, hr, hi, h⟩ => ⟨r, hr, i, hi, h⟩⟩

theorem isAddressed_of_resolveReference {base : Option Target} {ref : JsString} {t : Target}
    (h : resolveReference web base ref = some t) : IsAddressed web t := by
  obtain ⟨r, i, -, -, ht⟩ := resolveReference_eq_some.mp h
  exact isAddressed_of_assemble ht

/-! ## References without a scheme or an authority -/

/-- A scheme's characters after its first letter. -/
def isSchemeTailUnit (c : UInt16) : Bool :=
  isLetter c || isDigitUnit c || c == 0x2b || c == 0x2d || c == 0x2e

/-- A letter, scheme characters and a colon stand at the front. -/
def HasScheme (ref : JsString) : Prop :=
  ∃ letter tail rest, isLetter letter = true ∧ (∀ c ∈ tail, isSchemeTailUnit c = true) ∧
    ref = letter :: tail ++ 0x3a :: rest

/-- What `schemeOf` finds beyond what it has seen stands in front of a colon. -/
theorem schemeLoop_spec {ref : JsString} : ∀ {seen s : JsString}, schemeLoop seen ref = some s →
    s = [] ∨ ∃ tail rest, s = seen ++ tail ∧ ref = tail ++ 0x3a :: rest ∧
      (∀ c ∈ tail, isSchemeTailUnit c = true) ∧ s ≠ [] ∧
      (seen = [] → ∃ letter tail', tail = letter :: tail' ∧ isLetter letter = true) := by
  induction ref with
  | nil => intro seen s h; cases h; exact .inl rfl
  | cons c rest ih =>
    intro seen s h
    unfold schemeLoop at h
    split_ifs at h with hletter hother hseen hcolon hfirst
    · refine (ih h).imp_right ?_
      rintro ⟨tail, rest', rfl, rfl, htail, hne, -⟩
      refine ⟨c :: tail, rest', by simp, rfl, ?_, hne, fun _ => ⟨c, tail, rfl, hletter⟩⟩
      rintro d (_ | ⟨_, hd⟩)
      · simp [isSchemeTailUnit, hletter]
      · exact htail d hd
    · cases h; exact .inl rfl
    · refine (ih h).imp_right ?_
      rintro ⟨tail, rest', rfl, rfl, htail, hne, -⟩
      refine ⟨c :: tail, rest', by simp, rfl, ?_, hne, fun h => absurd h hseen⟩
      rintro d (_ | ⟨_, hd⟩)
      · simpa [isSchemeTailUnit, Bool.or_assoc, hletter] using hother
      · exact htail d hd
    · cases h
      refine .inr ⟨[], rest, by simp, by simp [hcolon], by simp, hfirst, fun h => absurd h hfirst⟩
    · cases h; exact .inl rfl

theorem schemeOf_of_not_hasScheme {ref s : JsString} (hno : ¬ HasScheme ref)
    (h : schemeOf ref = some s) : s = [] := by
  rcases schemeLoop_spec h with hs | ⟨tail, rest, -, rfl, htail, -, hletter⟩
  · exact hs
  · obtain ⟨letter, tail', rfl, hl⟩ := hletter rfl
    exact absurd ⟨letter, tail', rest, hl, fun c hc => htail c (List.mem_cons_of_mem _ hc), rfl⟩ hno

/-- A scheme stands before any `?` and `#`. -/
theorem hasScheme_of_pathPart {ref : JsString} (h : HasScheme (pathPart ref)) : HasScheme ref := by
  obtain ⟨letter, tail, rest, hl, htail, heq⟩ := h
  refine ⟨letter, tail, rest ++ queryPart ref ++ fromFirst 0x23 ref, hl, htail, ?_⟩
  calc ref
      = before 0x23 ref ++ fromFirst 0x23 ref := (before_append_fromFirst _ _).symm
    _ = pathPart ref ++ queryPart ref ++ fromFirst 0x23 ref := by
        rw [pathPart, queryPart, before_append_fromFirst 0x3f]
    _ = letter :: tail ++ 0x3a :: (rest ++ queryPart ref ++ fromFirst 0x23 ref) := by
        rw [heq]
        simp [List.append_assoc]

/-- The text before `?` and `#` opens no authority, or an empty one. -/
def LacksAuthority (ref : JsString) : Prop :=
  ¬ js "//" <+: pathPart ref ∨ js "///" <+: pathPart ref ∨ pathPart ref = js "//"

/-- A reference without scheme and authority names neither. -/
theorem parseReference_relative {ref : JsString} {r : Reference} (hno : ¬ HasScheme ref)
    (hauth : LacksAuthority ref) (h : parseReference ref = some r) :
    r.scheme = [] ∧ r.host = [] := by
  unfold parseReference at h
  split at h
  · cases h
  · split at h
    · cases h
    · split at h
      · cases h
      · rename_i s hs
        obtain rfl := schemeOf_of_not_hasScheme (fun hp => hno (hasScheme_of_pathPart hp)) hs
        have hhost : (if opensAuthority [] (pathPart ref) then
            decodeHost (if opensAuthority [] (pathPart ref) then before 0x2f ((pathPart ref).drop 2)
              else [])
            else []) = [] := by
          split_ifs with hopens
          · rw [opensAuthority, Bool.and_eq_true, Bool.or_eq_true,
              List.isPrefixOf_iff_prefix] at hopens
            rcases hauth with hnot | hthree | heq
            · exact absurd hopens.1 hnot
            · simp [List.isPrefixOf_iff_prefix.mpr hthree] at hopens
            · rw [heq]
              rfl
          · rfl
        have hlower : asciiLower ([] : JsString) = [] := rfl
        simp only [hlower, ne_eq, not_true_eq_false, false_and, if_false, if_true,
          List.drop_zero, hhost] at h
        split_ifs at h <;> cases h <;> exact ⟨rfl, rfl⟩

/-- `a:` is `a` and a colon again. -/
theorem scheme_of_isAddressed {t : Target} (h : IsAddressed web t) :
    t.url.scheme ++ js ":" = t.url.protocol := by
  rcases h.protocol with h | h <;> rw [Url.scheme, h] <;> rfl

/-- A reference without scheme and authority stays on its base's host. -/
theorem resolveReference_relative {base t : Target} {ref : JsString} (hbase : IsAddressed web base)
    (hno : ¬ HasScheme ref) (hauth : LacksAuthority ref)
    (h : resolveReference web (some base) ref = some t) :
    t.host = base.host ∧ t.url.protocol = base.url.protocol ∧ t.url.host = base.url.host := by
  obtain ⟨r, i, hr, hi, ht⟩ := resolveReference_eq_some.mp h
  obtain ⟨hscheme, hhost⟩ := parseReference_relative hno hauth hr
  simp only [Reference.intended, hscheme, hhost, ne_eq, not_true_eq_false, or_self, if_false,
    Option.some.injEq] at hi
  subst hi
  obtain ⟨hhost', hprotocol, -, -, -, -, origin, horigin, heq⟩ := assemble_spec ht
  dsimp only at hhost' hprotocol horigin
  refine ⟨hhost', hprotocol.trans (scheme_of_isAddressed hbase), ?_⟩
  -- both were compared with the URL of one text
  obtain ⟨origin', horigin', heq'⟩ := hbase.host
  rw [originText_eq, scheme_of_isAddressed hbase] at horigin
  rw [heq, heq', Option.some.inj (horigin.symm.trans horigin')]

/-! ## Runs -/

/-- Every target of a run is addressed the way it was meant. -/
theorem isAddressed_of_run {base : JsString} {call : Call} {answers : Nat → Fetched} {f : Fetch}
    (h : f ∈ fetches web base call answers) : IsAddressed web f.target := by
  obtain ⟨i, hi⟩ := List.mem_iff_getElem?.mp h
  obtain ⟨first, s, hfirst, hs, rfl⟩ := fetches_eq_some hi
  exact hopRun_induction (P := fun _ s => IsAddressed web s.target)
    (isAddressed_of_resolveReference hfirst)
    (fun _ _ _ _ _ _ _ hnext => isAddressed_of_resolveReference hnext) i s hs

/-- A Location without an authority never leaves the host, and no result of `resolveReference` has
two hosts, not along any run either. -/
theorem location_keeps_host (web : Web) :
    (∀ before ref₀ base ref t, resolveReference web before ref₀ = some base → ¬ HasScheme ref →
      LacksAuthority ref → resolveReference web (some base) ref = some t →
      t.host = base.host ∧ t.url.protocol = base.url.protocol ∧ t.url.host = base.url.host) ∧
    (∀ base ref t, resolveReference web base ref = some t → IsAddressed web t) ∧
    ∀ base call answers f, f ∈ fetches web base call answers → IsAddressed web f.target :=
  ⟨fun _ _ _ _ _ hbase hno hauth h =>
      resolveReference_relative (isAddressed_of_resolveReference hbase) hno hauth h,
    fun _ _ _ h => isAddressed_of_resolveReference h,
    fun _ _ _ _ h => isAddressed_of_run h⟩

/-- Three slashes open a path, not a host. -/
theorem location_keeps_host_slashes :
    let base : Target := ⟨⟨js "http:", js "gw.test", js "gw.test", [], [], js "/proxy", [], []⟩,
      js "gw.test"⟩
    let t : Target :=
      ⟨⟨js "http:", js "gw.test", js "gw.test", [], [], js "///evil.test/x", [], []⟩, js "gw.test"⟩
    resolveReference plainWeb (some base) (js "///evil.test/x") = some t ∧
        t.url.host = base.url.host := by
  intro base t
  have hbase : resolveReference plainWeb none (js "http://gw.test/proxy") = some base := by
    decide +kernel
  have ht : resolveReference plainWeb (some base) (js "///evil.test/x") = some t := by
    decide +kernel
  have hno : ¬ HasScheme (js "///evil.test/x") := by
    rintro ⟨letter, tail, rest, hl, -, heq⟩
    cases (List.cons.inj heq).1
    exact absurd hl (by decide)
  have hauth : LacksAuthority (js "///evil.test/x") :=
    .inr (.inl (List.isPrefixOf_iff_prefix.mp (by decide +kernel)))
  exact ⟨ht, ((location_keeps_host plainWeb).1 none _ base _ t hbase hno hauth ht).2.2⟩

end AgentService
