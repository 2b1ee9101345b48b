import AgentService.Gateway.Decode
import AgentService.Gateway.JsonViable

/-!
# The three ways a first value is refused

`decodeFirstValue` says that its input ended too early, names a byte, or says that a whole value
does not fit the schema. Which of them it is can be told from how the sentence begins.
-/

namespace AgentService
open Lib

/-- The binder's sentences begin `cannot` or `parsing`. -/
def DecodeError.IsMisfit (e : DecodeError) : Prop :=
  e.message.head? = some 0x63 ∨ e.message.head? = some 0x70

section
variable {unicode : Unicode} {doubles : Doubles}

theorem mismatch_isMisfit {α : Type} {node : JsonNode} {want : String} {e : DecodeError}
    (h : mismatch (α := α) node want = .error e) : e.IsMisfit := by
  cases h
  exact .inl rfl

theorem parseInt64_isMisfit {raw : JsString} {e : DecodeError} (h : parseInt64 raw = .error e) :
    e.IsMisfit := by
  unfold parseInt64 at h
  split at h
  · cases h
    exact .inl rfl
  · split_ifs at h
    cases h
    exact .inl rfl

theorem parseFloat64_isMisfit {raw : JsString} {e : DecodeError}
    (h : parseFloat64 doubles raw = .error e) : e.IsMisfit := by
  unfold parseFloat64 at h
  split_ifs at h
  cases h
  exact .inl rfl

theorem normaliseTime_isMisfit {text : JsString} {e : DecodeError}
    (h : normaliseTime text = .error e) : e.IsMisfit := by
  unfold normaliseTime at h
  split at h
  · cases h
    exact .inr rfl
  · split_ifs at h
    cases h
    exact .inr rfl

mutual

/-- Binding fails with misfits only, by induction on the tree. -/
theorem bind_isMisfit (node : JsonNode) :
    ∀ {schema : Schema} {existing : Option Value} {e : DecodeError},
      bind unicode doubles node schema existing = .error e → e.IsMisfit := by
  intro schema existing e h
  match node with
  | .null => cases schema <;> cases h
  | .bool b =>
    cases schema with
    | bool => cases h
    | _ => exact mismatch_isMisfit h
  | .num raw =>
    cases schema with
    | int64 => exact parseInt64_isMisfit (map_eq_error.mp h)
    | float64 => exact parseFloat64_isMisfit (map_eq_error.mp h)
    | _ => exact mismatch_isMisfit h
  | .str t plain =>
    cases schema with
    | text => cases h
    | time =>
      change (if plain then normaliseTime t else _) = _ at h
      split_ifs at h
      · exact normaliseTime_isMisfit h
      · cases h
        exact .inr rfl
    | _ => exact mismatch_isMisfit h
  | .arr items =>
    cases schema with
    | list of => exact bindItems_isMisfit items (map_eq_error.mp h)
    | _ => exact mismatch_isMisfit h
  | .obj members =>
    cases schema with
    | struct fields => exact bindMembers_isMisfit members (map_eq_error.mp h)
    | _ => exact mismatch_isMisfit h

theorem bindItems_isMisfit (items : List JsonNode) :
    ∀ {of : Schema} {before : List Value} {e : DecodeError},
      bindItems unicode doubles items of before = .error e → e.IsMisfit := by
  intro of before e h
  match items with
  | [] => cases h
  | item :: items =>
    rw [bindItems] at h
    rcases bind_eq_error.mp h with h | ⟨v, -, h⟩
    · exact bind_isMisfit item h
    · rcases bind_eq_error.mp h with h | ⟨vs, -, h⟩
      · exact bindItems_isMisfit items h
      · cases h

theorem bindMembers_isMisfit (members : List (JsString × JsonNode)) :
    ∀ {fields : List (JsString × Schema)} {into : List (JsString × Value)} {e : DecodeError},
    bindMembers unicode doubles members fields into = .error e → e.IsMisfit := by
  intro fields into e h
  match members with
  | [] => cases h
  | (key, node) :: ms =>
    rw [bindMembers] at h
    split at h
    · exact bindMembers_isMisfit ms h
    · rcases bind_eq_error.mp h with h | ⟨v, -, h⟩
      · exact bind_isMisfit node h
      · exact bindMembers_isMisfit ms h

end

/-- The sentence of an input that ended too early. -/
def endOfInput (body : Bytes) : JsString := if body.all isWs then js "EOF" else js "unexpected EOF"

variable {schema : Schema} {body : Bytes}

/-- A body that is cut is answered with the end of the input. -/
theorem decodeFirstValue_cut (h : IsCut (parseFirstJson body)) :
    decodeFirstValue unicode doubles schema body = .error (.decodeError ⟨endOfInput body⟩) := by
  obtain ⟨e, he, heof⟩ := h
  rw [decodeFirstValue, he]
  show Except.error (DecodeThrown.decodeError ⟨if e.eof then endOfInput body else e.message⟩) = _
  rw [if_pos heof]

/-- A body that is wrong is answered with the parser's message. -/
theorem decodeFirstValue_wrong {e : JsonSyntaxError}
    (h : parseFirstJson body = .error (.syntaxError e)) (heof : e.eof = false) :
    decodeFirstValue unicode doubles schema body = .error (.decodeError ⟨e.message⟩) := by
  rw [decodeFirstValue, h]
  show Except.error (DecodeThrown.decodeError ⟨if e.eof then endOfInput body else e.message⟩) = _
  rw [if_neg (by simp [heof])]

/-- A value that is whole is bound, whatever follows it. -/
theorem decodeFirstValue_whole {node : JsonNode} (h : parseFirstJson body = .ok node) :
    decodeFirstValue unicode doubles schema body = (bind unicode doubles node schema none).mapError
    .decodeError := by
  rw [decodeFirstValue, h]
  rfl

/-- The sentence of a wrong byte. -/
theorem wrong_report {e : JsonSyntaxError} (h : parseFirstJson body = .error (.syntaxError e))
    (heof : e.eof = false) :
    ∃ c what, e.message = js "invalid character 0x" ++ hexText c ++ js " " ++ js what := by
  obtain ⟨e', he', hreport⟩ := reports_parse body _ h
  cases he'
  rcases hreport with rfl | ⟨c, what, rfl⟩
  · cases heof
  · exact ⟨c, what, rfl⟩

/-- What a first value is refused for. -/
theorem decodeFirstValue_error {t : DecodeThrown}
    (h : decodeFirstValue unicode doubles schema body = .error t) :
    (IsCut (parseFirstJson body) ∧ t = .decodeError ⟨endOfInput body⟩) ∨
      (IsWrong (parseFirstJson body) ∧ ∃ c what,
        t = .decodeError ⟨js "invalid character 0x" ++ hexText c ++ js " " ++ js what⟩) ∨
      ∃ node e, parseFirstJson body = .ok node ∧ t = .decodeError e ∧ e.IsMisfit := by
  cases hparse : parseFirstJson body with
  | ok node =>
    rw [decodeFirstValue_whole hparse] at h
    cases hbind : bind unicode doubles node schema none with
    | ok v =>
      rw [hbind] at h
      cases h
    | error e =>
      rw [hbind] at h
      cases h
      exact .inr (.inr ⟨node, e, rfl, rfl, bind_isMisfit node hbind⟩)
  | error thrown =>
    obtain ⟨e, rfl, -⟩ := reports_parse body thrown hparse
    cases heof : e.eof with
    | true =>
      have hcut : IsCut (parseFirstJson body) := ⟨e, hparse, heof⟩
      rw [decodeFirstValue_cut hcut] at h
      cases h
      exact .inl ⟨⟨e, rfl, heof⟩, rfl⟩
    | false =>
      obtain ⟨c, what, hmessage⟩ := wrong_report hparse heof
      rw [decodeFirstValue_wrong hparse heof, hmessage] at h
      cases h
      exact .inr (.inl ⟨⟨e, rfl, heof⟩, c, what, rfl⟩)

end

end AgentService
