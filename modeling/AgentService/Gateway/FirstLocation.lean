import AgentService.Gateway.RedirectRun

/-!
# The first of several Location headers

An answer may carry more than one Location header, and fetch hands them over as one text,
joined with a comma and a space. `follow` cuts that text at the first such separator. That
gives the first value back unless the value holds the separator itself: then the hop goes to
a shortened address, or to none.
-/

namespace AgentService
open Lib

/-- A character that a header value may hold: a byte, but no end of line and no NUL. -/
def isHeaderUnit (u : UInt16) : Bool := u ≤ 0xff && u != 0x00 && u != 0x0a && u != 0x0d

def isHeaderBlank (u : UInt16) : Bool := u == 0x20 || u == 0x09

/-- A legal header value that is not empty, as fetch hands it over. -/
structure HeaderValue where
  text : JsString
  ne_nil : text ≠ []
  legal : text.all isHeaderUnit = true
  noLeading : text.head?.any isHeaderBlank = false
  noTrailing : text.getLast?.any isHeaderBlank = false

/-- What `headers.get` gives for a header that came with these values. -/
def joinedHeader (values : List HeaderValue) : JsString :=
  (js ", ").intercalate (values.map HeaderValue.text)

/-- The reference that an answer sends the loop to, if it does. -/
def Response.reference (res : Response) : Option JsString :=
  if followed res.status = false ∨ res.location = [] then none
  else some (fromHeaderValue res.location)

/-- A turn resolves `reference` and nothing else. -/
theorem hopTurn_reference (web : Web) (first : Target) (s : HopState) (res : Response)
    (callerGone : Bool) :
    hopTurn web first s ⟨some res, callerGone⟩ =
      match res.reference with
      | none => .done (.answered res callerGone)
      | some ref =>
        match resolveReference web (some s.target) ref with
        | none => .done (.noAnswer callerGone)
        | some next =>
          if MAX_REQUESTS ≤ s.requests then .done (.noAnswer callerGone)
          else .again (s.hop web first res.status next) := by
  unfold hopTurn Response.reference
  by_cases hstop : followed res.status = false ∨ res.location = []
  · simp [hstop]
  · cases hnext : resolveReference web (some s.target) (fromHeaderValue res.location) with
    | none => simp [hstop, hnext]
    | some next => simp [hstop, hnext]

/-! ## Cutting at the separator -/

theorem joinedHeader_cons (v : HeaderValue) (vs : List HeaderValue) :
    ∃ rest, joinedHeader (v :: vs) = v.text ++ rest ∧ (rest = [] ∨ ∃ r, rest = js ", " ++ r) := by
  cases vs with
  | nil => exact ⟨[], by simp [joinedHeader], .inl rfl⟩
  | cons w vs =>
    refine ⟨js ", " ++ joinedHeader (w :: vs), ?_, .inr ⟨_, rfl⟩⟩
    simp [joinedHeader, List.intercalate_cons_cons]

/-- A text without the separator is what stands in front of the first one behind it. -/
theorem beforeComma_append {s rest : JsString} (h : ¬ js ", " <:+: s)
    (hrest : rest = [] ∨ ∃ r, rest = js ", " ++ r) : beforeComma (s ++ rest) = s := by
  induction s with
  | nil =>
    rcases hrest with rfl | ⟨r, rfl⟩
    · rfl
    · exact if_pos ⟨rfl, rfl⟩
  | cons c s ih =>
    rw [List.infix_cons_iff, not_or] at h
    have hkeep : ¬ (c = 0x2c ∧ (s ++ rest).head? = some 0x20) := by
      rintro ⟨rfl, hhead⟩
      cases s with
      | nil =>
        -- what follows is the separator's comma, not its space
        rcases hrest with rfl | ⟨r, rfl⟩ <;> simp [js] at hhead
      | cons d s =>
        obtain rfl : d = 0x20 := by simpa using hhead
        exact h.1 ⟨s, rfl⟩
    rw [List.cons_append, beforeComma, if_neg hkeep, ih h.2]

/-- A text with the separator is cut short, whatever stands behind it. -/
theorem beforeComma_shortens {s : JsString} (h : js ", " <:+: s) (rest : JsString) :
    ∃ lost, lost ≠ [] ∧ s = beforeComma (s ++ rest) ++ lost := by
  induction s with
  | nil => simp [js] at h
  | cons c s ih =>
    rw [List.cons_append, beforeComma]
    split
    · exact ⟨c :: s, by simp, rfl⟩
    · rename_i hkeep
      rcases List.infix_cons_iff.mp h with ⟨t, ht⟩ | h
      · refine absurd ?_ hkeep
        obtain ⟨rfl, rfl⟩ : (0x2c = c) ∧ 0x20 :: t = s := by simpa [js] using ht
        exact ⟨rfl, rfl⟩
      · obtain ⟨lost, hne, hlost⟩ := ih h
        exact ⟨lost, hne, congrArg (c :: ·) hlost⟩

theorem fromHeaderValue_append (s t : JsString) :
    fromHeaderValue (s ++ t) = fromHeaderValue s ++ fromHeaderValue t := by
  simp [fromHeaderValue]

theorem fromHeaderValue_ne_nil {s : JsString} (h : s ≠ []) : fromHeaderValue s ≠ [] := by
  cases s with
  | nil => exact absurd rfl h
  | cons c s =>
    rw [← List.singleton_append, fromHeaderValue_append]
    apply List.append_ne_nil_of_left_ne_nil
    simp only [fromHeaderValue, latin1Encode, List.map_cons, List.map_nil, List.flatMap_cons,
      List.flatMap_nil, List.append_nil]
    split
    · exact List.cons_ne_nil _ _
    · simp [latin1Decode, percentByte]

/-! ## The reference that is followed -/

theorem location_of_header {res : Response} {v : HeaderValue} {vs : List HeaderValue}
    (h : res.header "Location" = some (joinedHeader (v :: vs))) :
    ∃ rest, res.location = beforeComma (v.text ++ rest) ∧
      (rest = [] ∨ ∃ r, rest = js ", " ++ r) := by
  obtain ⟨rest, hjoin, hrest⟩ := joinedHeader_cons v vs
  exact ⟨rest, by rw [Response.location, h, Option.getD_some, hjoin], hrest⟩

/-- The first value is the location that is followed, unless it holds the separator. -/
theorem location_eq_first {res : Response} {v : HeaderValue} {vs : List HeaderValue}
    (h : res.header "Location" = some (joinedHeader (v :: vs))) (hplain : ¬ js ", " <:+: v.text) :
    res.location = v.text := by
  obtain ⟨rest, hlocation, hrest⟩ := location_of_header h
  rw [hlocation, beforeComma_append hplain hrest]

/-- A redirect is followed to its first Location exactly where that value does not
hold the separator. -/
theorem reference_eq_first_iff {res : Response} {v : HeaderValue} {vs : List HeaderValue}
    (hstatus : followed res.status = true)
    (hheader : res.header "Location" = some (joinedHeader (v :: vs))) :
    res.reference = some (fromHeaderValue v.text) ↔ ¬ js ", " <:+: v.text := by
  have hfollowed : ¬ followed res.status = false := by simp [hstatus]
  constructor
  · intro href hinside
    obtain ⟨rest, hlocation, -⟩ := location_of_header hheader
    obtain ⟨lost, hne, hlost⟩ := beforeComma_shortens hinside rest
    rw [← hlocation] at hlost
    unfold Response.reference at href
    split at href
    · cases href
    · rw [hlost, fromHeaderValue_append, Option.some_inj, List.self_eq_append_right] at href
      exact fromHeaderValue_ne_nil hne href
  · intro hplain
    rw [Response.reference, location_eq_first hheader hplain,
      if_neg (not_or.mpr ⟨hfollowed, v.ne_nil⟩)]

/-- The value of one Location header, for a path with a query. -/
def queryLocation : HeaderValue := ⟨js "/a?q=x, y", by decide, by decide, by decide, by decide⟩

def otherLocation : HeaderValue := ⟨js "/first", by decide, by decide, by decide, by decide⟩

/-- A redirect with these Location headers, as fetch hands it over. -/
def redirectWith (values : List HeaderValue) : Response where
  status := 302
  header name := if name = "Location" then some (joinedHeader values) else none
  body := ⟨[], true⟩

theorem reference_eq_first_iff_at_repeated :
    followed (redirectWith [otherLocation, queryLocation]).status = true ∧
      ((redirectWith [otherLocation, queryLocation]).reference =
          some (fromHeaderValue (js "/first")) ↔
        ¬ js ", " <:+: js "/first") :=
  ⟨rfl, @reference_eq_first_iff (redirectWith [otherLocation, queryLocation]) otherLocation
    [queryLocation] rfl rfl⟩

/-- One header whose query holds the separator: the address followed lacks its end. -/
theorem reference_shortened :
    ¬ ∀ (res : Response) (v : HeaderValue) (vs : List HeaderValue), followed res.status = true →
      res.header "Location" = some (joinedHeader (v :: vs)) →
      res.reference = some (fromHeaderValue v.text) := by
  intro hclaim
  have href := hclaim (redirectWith [queryLocation]) queryLocation [] rfl rfl
  have hshort : (redirectWith [queryLocation]).reference = some (js "/a?q=x") := by decide
  rw [hshort] at href
  exact absurd href (by decide)

/-! ## Whole runs -/

/-- A hop whose answer's first Location does not hold the separator goes where that value
points from where the loop stood. -/
theorem hopRun_follows_first {web : Web} {call : Call} {answers : Nat → Fetched}
    {first : Target} {i : Nat} {s s' : HopState}
    (h : (hopRun web first call answers).1[i]? = some s)
    (h' : (hopRun web first call answers).1[i + 1]? = some s') {res : Response}
    (hres : (answers i).response = some res) {v : HeaderValue} {vs : List HeaderValue}
    (hheader : res.header "Location" = some (joinedHeader (v :: vs)))
    (hplain : ¬ js ", " <:+: v.text) :
    resolveReference web (some s.target) (fromHeaderValue v.text) = some s'.target := by
  obtain ⟨_, next, hanswer, hstatus, hlocation, hnext, -, rfl⟩ := hopRun_next h h'
  obtain rfl := Option.some.inj (hanswer.symm.trans hres)
  rw [location_eq_first hheader hplain] at hnext
  exact hnext

end AgentService
