import AgentService.Gateway.Calls
import AgentService.Gateway.SameHost

/-!
# References over the configured base

The first reference of a call is the base with an endpoint behind it. Read by Go's rules it
has the base's scheme and host, and a path that starts with the base's and is resolved
already, unless it holds a dot segment.
-/

namespace AgentService
open Lib

/-- None of the characters that end a path. -/
def EndsNothing (s : JsString) : Prop := 0x3f ∉ s ∧ 0x23 ∉ s ∧ 0x5c ∉ s

instance (s : JsString) : Decidable (EndsNothing s) := by
  unfold EndsNothing
  infer_instance

/-! ## The configured base -/

def baseScheme (base : JsString) : JsString := before 0x3a base

/-- What follows `scheme://`. -/
def baseRest (base : JsString) : JsString := (fromFirst 0x3a base).drop 3

def baseAuthority (base : JsString) : JsString := before 0x2f (baseRest base)

def basePath (base : JsString) : JsString := fromFirst 0x2f (baseRest base)

/-! ## Paths without dots are resolved already -/

theorem resolveElement_of_not_dot {st : JsString × Bool} {elem : JsString}
    (h : elem ≠ js "." ∧ elem ≠ js "..") :
    resolveElement st elem = ((if st.2 then st.1 else st.1 ++ [0x2f]) ++ elem, false) := by
  rw [resolveElement, if_neg h.1, if_neg h.2]

theorem foldl_resolveElement {elems : List JsString} (h : ∀ e ∈ elems, e ≠ js "." ∧ e ≠ js "..") :
    ∀ dst : JsString, elems.foldl resolveElement (dst, false) = (dst ++ elems.flatMap (0x2f :: ·),
      false) := by
  induction elems with
  | nil => intro dst; simp
  | cons e elems ih =>
    intro dst
    rw [List.foldl_cons, resolveElement_of_not_dot (h e List.mem_cons_self),
      if_neg (by simp), ih (fun x hx => h x (List.mem_cons_of_mem _ hx))]
    simp

/-- A rooted path without dot segments resolves to itself. -/
theorem resolvePath_self {p : JsString} (hroot : p.head? = some 0x2f)
    (h : ∀ e ∈ p.splitOn 0x2f, e ≠ js "." ∧ e ≠ js "..") : resolvePath p [] = p := by
  obtain ⟨q, rfl⟩ : ∃ q, p = 0x2f :: q := by
    cases p with
    | nil => cases hroot
    | cons c q => exact ⟨q, by rw [Option.some.inj hroot]⟩
  rw [splitOn_self] at h
  have hfold : ((0x2f :: q : JsString).splitOn 0x2f).foldl resolveElement (js "/", true) =
      (0x2f :: 0x2f :: q, false) := by
    rw [splitOn_self, List.foldl_cons, resolveElement_of_not_dot (h [] List.mem_cons_self),
      if_pos rfl, foldl_resolveElement (fun e he => h e (List.mem_cons_of_mem _ he)),
      flatMap_splitOn]
    rfl
  have hlast : ((0x2f :: q : JsString).splitOn 0x2f).getLast?.getD [] ≠ js "." ∧
      ((0x2f :: q : JsString).splitOn 0x2f).getLast?.getD [] ≠ js ".." := by
    rw [splitOn_self, List.getLast?_eq_getLast_of_ne_nil (List.cons_ne_nil _ _), Option.getD_some]
    exact h _ (List.getLast_mem _)
  rw [resolvePath, if_pos rfl, if_neg (List.cons_ne_nil _ _)]
  simp only [hfold, if_neg (not_or.mpr hlast)]
  rw [if_pos ⟨by simp, by simp⟩]
  rfl

/-! ## References with a scheme and a host -/

/-- A reference that names a scheme and has no query, fragment or backslash, taken apart. -/
structure IsAbsolute (ref scheme authority path : JsString) : Prop where
  text : ref = scheme ++ js "://" ++ authority ++ path
  scheme : 0x3a ∉ scheme ∧ 0x2f ∉ scheme
  authority : 0x2f ∉ authority
  path : path = [] ∨ path.head? = some 0x2f

theorem schemeTail_notMem {tail : JsString} (h : ∀ c ∈ tail, isSchemeTailUnit c = true) :
    0x3a ∉ tail ∧ 0x2f ∉ tail := by
  constructor <;> intro hm <;> exact absurd (h _ hm) (by decide)

theorem asciiLower_length (s : JsString) : (asciiLower s).length = s.length := List.length_map _

theorem mem_of_mem_fromFirst {sep c : UInt16} {s : JsString} (h : c ∈ fromFirst sep s) : c ∈ s :=
  List.dropWhile_subset _ h

/-- Backslashes are escaped where there are any. -/
theorem flatMap_backslash {s : JsString} (h : 0x5c ∉ s) :
    s.flatMap (fun c => if c = 0x5c then js "%5C" else [c]) = s := by
  induction s with
  | nil => rfl
  | cons c s ih =>
    rw [List.mem_cons, not_or] at h
    rw [List.flatMap_cons, if_neg (Ne.symm h.1), ih h.2, List.singleton_append]

/-- What `parseReference` reads of a reference without query, fragment and backslash
that names a scheme. -/
theorem parseReference_absolute {ref : JsString} {r : Reference} (hends : EndsNothing ref)
    (h : parseReference ref = some r) (hs : r.scheme ≠ []) :
    ∃ scheme authority, IsAbsolute ref scheme authority r.path ∧ r.scheme = asciiLower scheme ∧
      r.host = decodeHost authority ∧ r.query = [] ∧ hasControl ref = false ∧
      hostAcceptable authority = true ∧
      r.host ≠ [] := by
  obtain ⟨hq, hf, hb⟩ := hends
  have hpath : pathPart ref = ref := by rw [pathPart, before_of_notMem hf, before_of_notMem hq]
  have hquery : queryPart ref = [] := by rw [queryPart, before_of_notMem hf, fromFirst_of_notMem hq]
  unfold parseReference at h
  rw [hpath, hquery] at h
  split at h
  · cases h
  · rename_i hcontrol
    split at h
    · cases h
    · split at h
      · cases h
      · rename_i s hscheme
        rcases schemeLoop_spec hscheme with rfl | ⟨tail, rest, hst, htext, htail, hne, -⟩
        · -- without a scheme the reference would have none
          refine absurd ?_ hs
          have hlower : asciiLower ([] : JsString) = [] := rfl
          simp only [hlower, ne_eq, not_true_eq_false, false_and, if_false, if_true] at h
          split_ifs at h <;> cases h <;> rfl
        · obtain rfl : s = tail := hst
          have hlower : asciiLower s ≠ [] := by simpa [asciiLower] using hne
          have hrest : ref.drop ((asciiLower s).length + 1) = rest := by
            rw [asciiLower_length, htext, List.drop_append]
            simp
          simp only [hlower, if_false, false_and, hrest] at h
          cases hopens : opensAuthority (asciiLower s) rest with
          | false =>
            simp only [hopens, Bool.false_eq_true, false_and, if_false, hlower, ne_eq,
              not_false_eq_true, true_and, if_true] at h
            split_ifs at h
          | true =>
            simp only [hopens, if_true] at h
            obtain ⟨more, hmore⟩ : ∃ more, rest = js "//" ++ more := by
              rw [opensAuthority, Bool.and_eq_true, List.isPrefixOf_iff_prefix] at hopens
              obtain ⟨more, hmore⟩ := hopens.1
              exact ⟨more, hmore.symm⟩
            have hdrop : rest.drop 2 = more := by rw [hmore]; rfl
            rw [hdrop] at h
            have hback : 0x5c ∉ fromFirst 0x2f more := fun hm =>
              hb (by simp [htext, hmore, mem_of_mem_fromFirst hm])
            rw [flatMap_backslash hback] at h
            split_ifs at h with _ hok hhost
            cases h
            refine ⟨s, before 0x2f more, ⟨?_, schemeTail_notMem htail, notMem_before _ _, ?_⟩,
              rfl, rfl, rfl, Bool.not_eq_true _ ▸ hcontrol, by
                simpa using hok, fun hnil => hhost ⟨hlower, hnil⟩⟩
            · rw [htext, hmore, List.append_assoc, before_append_fromFirst]
              simp [js]
            · rcases fromFirst_eq 0x2f more with hnone | ⟨post, hpost⟩
              · exact .inl hnone
              · exact .inr (by rw [hpost]; rfl)

/-- A text that starts with the configured base names the base's scheme and host, and its
path starts with the base's. -/
theorem absolute_over_base {stGatewayUrl rest scheme authority path : JsString}
    (h : IsAbsolute (gatewayProxyUrl stGatewayUrl ++ 0x2f :: rest) scheme authority path) :
    baseScheme (gatewayProxyUrl stGatewayUrl) = scheme ∧
      baseAuthority (gatewayProxyUrl stGatewayUrl) = authority ∧
      path = basePath (gatewayProxyUrl stGatewayUrl) ++ 0x2f :: rest := by
  obtain ⟨htext, ⟨hcolon, hslash⟩, hauth, hpath⟩ := h
  set raw := stGatewayUrl.rdropWhile (· == 0x2f) with hraw
  have hbase : gatewayProxyUrl stGatewayUrl = raw ++ js "/proxy" := rfl
  have htext : raw ++ (js "/proxy" ++ 0x2f :: rest) = (scheme ++ [0x3a]) ++ 0x2f :: 0x2f ::
      (authority ++ path) := by
    rw [← List.append_assoc, ← hbase, htext]
    simp [js]
  have hfirst : 0x2f ∉ scheme ++ [0x3a] := by simpa using hslash
  -- the first slash of the text
  have hcut := congrArg (fromFirst 0x2f) htext
  have hcut' := congrArg (before 0x2f) htext
  rw [(before_unique hfirst (.inr rfl)).2] at hcut
  rw [(before_unique hfirst (.inr rfl)).1] at hcut'
  by_cases hmem : 0x2f ∈ raw
  · rw [(before_append_of_mem hmem _).2] at hcut
    rw [(before_append_of_mem hmem _).1] at hcut'
    have hsplit := before_append_fromFirst 0x2f raw
    obtain ⟨b, hb⟩ := (fromFirst_eq 0x2f raw).resolve_left (by
      intro hnil
      rw [hnil, List.append_nil] at hsplit
      exact notMem_before 0x2f raw (hsplit.symm ▸ hmem))
    rw [hb] at hcut hsplit
    have hcut := (List.cons.inj hcut).2
    cases b with
    | nil =>
      -- the base would end in a slash that has been trimmed
      exfalso
      have hne : raw ≠ [] := List.ne_nil_of_mem hmem
      have hlast := List.rdropWhile_last_not (fun u : UInt16 => u == 0x2f) stGatewayUrl (hraw ▸ hne)
      refine hlast ?_
      have : raw.getLast hne = 0x2f := by
        have := congrArg List.getLast? hsplit
        rw [List.getLast?_eq_getLast_of_ne_nil hne] at this
        simpa using this.symm
      simpa [← hraw] using this
    | cons c b =>
      obtain ⟨rfl, hbehind⟩ := List.cons.inj hcut
      have hraw' : raw = scheme ++ 0x3a :: 0x2f :: 0x2f :: b := by
        rw [← hsplit, hcut']
        simp
      have hrest : baseRest (gatewayProxyUrl stGatewayUrl) = b ++ js "/proxy" := by
        rw [baseRest, hbase, hraw', List.append_assoc, fromFirst_append hcolon]
        simp [fromFirst]
      have hin : (0x2f : UInt16) ∈ b ++ js "/proxy" := by simp [js]
      have hboth := before_append_of_mem hin (0x2f :: rest)
      rw [List.append_assoc, show b ++ (js "/proxy" ++ 0x2f :: rest) = authority ++
        path from hbehind, (before_unique hauth hpath).1, (before_unique hauth hpath).2] at hboth
      refine ⟨?_, ?_, ?_⟩
      · rw [baseScheme, hbase, hraw', List.append_assoc, before_append hcolon]
        simp [before]
      · rw [baseAuthority, hrest, hboth.1]
      · rw [basePath, hrest, hboth.2]
  · -- without a slash of its own the base would be a scheme, and the path no authority
    rw [fromFirst_append hmem] at hcut
    have := congrArg (fun s : JsString => s[1]?) hcut
    simp [js, fromFirst] at this

end AgentService
