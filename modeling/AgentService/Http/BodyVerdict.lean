import AgentService.Gateway.FirstValue
import AgentService.Gateway.JsonByte
import AgentService.Gateway.Schemas
import AgentService.Http.ReadBody

/-!
# What a request body is refused for

The sentences about the end of the input are kept for bodies that could have gone on to be valid,
and a wrong byte is named whatever follows it. A body over the cap is judged by its first MiB, with
one sentence of its own where that is cut off inside a value.
-/

namespace AgentService
open Lib

section
variable {unicode : Unicode} {doubles : Doubles} {schema : Schema}

/-- The 400 for a body the decoder refuses. -/
def refusedBody (explanation : JsString) : Except Failure Value :=
  .error (.textAnswer 400 (js "invalid request body: " ++ explanation))

theorem decodeBody_error {bytes : Bytes} {exceeded : Bool} {e : DecodeError}
    (h : decodeFirstValue unicode doubles schema bytes = .error (.decodeError e)) :
    decodeBody unicode doubles schema (some ⟨bytes, exceeded⟩) =
      refusedBody (bodyExplanation exceeded e.message) := by
  simp only [decodeBody, h]
  rfl

theorem decodeBody_ok {bytes : Bytes} {exceeded : Bool} {v : Value}
    (h : decodeFirstValue unicode doubles schema bytes = .ok v) :
    decodeBody unicode doubles schema (some ⟨bytes, exceeded⟩) = .ok v := by
  simp only [decodeBody, h]

theorem bodyExplanation_of_ne {exceeded : Bool} {message : JsString}
    (h : message ≠ js "unexpected EOF") : bodyExplanation exceeded message = message := by
  unfold bodyExplanation
  rw [if_neg (by simp [h])]

theorem refusedBody_inj {m m' : JsString} (h : refusedBody m = refusedBody m') : m = m' := by
  unfold refusedBody at h
  injection h with h
  injection h with _ h
  exact List.append_cancel_left h

/-- The sentences that say the body ended, or was cut off, too early. -/
def endSentences : List JsString := [js "EOF", js "unexpected EOF", TOO_LARGE]

theorem endSentences_head {m : JsString} (h : m ∈ endSentences) :
    m.head? = some 0x45 ∨ m.head? = some 0x75 ∨ m.head? = some 0x68 := by
  simp only [endSentences, List.mem_cons, List.not_mem_nil, or_false] at h
  rcases h with rfl | rfl | rfl
  · exact .inl rfl
  · exact .inr (.inl rfl)
  · exact .inr (.inr rfl)

/-- A sentence that begins otherwise is not changed by the cap, and says nothing about the end. -/
theorem bodyExplanation_head {exceeded : Bool} {m : JsString}
    (h : m.head? = some 0x63 ∨ m.head? = some 0x70 ∨ m.head? = some 0x69) :
    bodyExplanation exceeded m = m ∧ m ∉ endSentences := by
  constructor
  · apply bodyExplanation_of_ne
    rintro rfl
    rcases h with h | h | h <;> exact absurd h (by decide)
  · intro hmem
    rcases endSentences_head hmem with hend | hend | hend
    all_goals
      rw [hend] at h
      rcases h with h | h | h <;> exact absurd h (by decide)

/-- Only a body that is cut off is told so. -/
theorem cut_of_endSentence {bytes : Bytes} {exceeded : Bool} {m : JsString}
    (h : decodeBody unicode doubles schema (some ⟨bytes, exceeded⟩) = refusedBody m)
    (hm : m ∈ endSentences) : IsCut (parseFirstJson bytes) := by
  cases hdecode : decodeFirstValue unicode doubles schema bytes with
  | ok v =>
    rw [decodeBody_ok hdecode] at h
    cases h
  | error t =>
    rcases decodeFirstValue_error hdecode with ⟨hcut, -⟩ | ⟨-, c, what, rfl⟩ |
      ⟨node, e, -, rfl, hmisfit⟩
    · exact hcut
    · have hhead : (js "invalid character 0x" ++ hexText c ++ js " " ++ js what).head? =
        some 0x69 := rfl
      obtain ⟨hsame, hnot⟩ := @bodyExplanation_head exceeded _ (.inr (.inr hhead))
      rw [decodeBody_error hdecode, hsame] at h
      exact absurd (refusedBody_inj h ▸ hm) hnot
    · obtain ⟨hsame, hnot⟩ := @bodyExplanation_head exceeded _ (hmisfit.imp_right .inl)
      rw [decodeBody_error hdecode, hsame] at h
      exact absurd (refusedBody_inj h ▸ hm) hnot

/-- The first wrong byte is what the body is refused for, however much more of it there is. -/
theorem decodeBody_wrong {p : Bytes} {c : UInt8} (hgood : ¬ IsWrong (parseFirstJson p))
    (hwrong : IsWrong (parseFirstJson (p ++ [c]))) :
    ∃ what, ∀ (s : Bytes) (exceeded : Bool),
      decodeBody unicode doubles schema (some ⟨p ++ c :: s, exceeded⟩) =
        refusedBody (js "invalid character 0x" ++ hexText c ++ js " " ++ js what) := by
  obtain ⟨e, he, heof⟩ := hwrong
  obtain ⟨what, hnames⟩ := parse_next hgood c e he heof
  refine ⟨what, fun s exceeded => ?_⟩
  have hmore : parseFirstJson (p ++ c :: s) = .error (.syntaxError e) := by
    rw [List.append_cons]
    exact (parse_wrong ⟨e, he, heof⟩ s).trans he
  rw [decodeBody_error (decodeFirstValue_wrong hmore heof), hnames]
  exact congrArg refusedBody (bodyExplanation_head (.inr (.inr rfl))).1

end

/-- The flag `eof` of the reader's error says whether the input could still become a JSON text, for
either reader; the sentences about the end of a body are given to such bodies only, and any other
body is answered with the first byte that makes it one. -/
theorem eof_viable (unicode : Unicode) (doubles : Doubles) :
    (∀ b e, parseJson b = .error (.syntaxError e) →
      (e.eof = true ↔ ∃ s node, parseJson (b ++ s) = .ok node)) ∧
    (∀ b, (∃ e, parseFirstJson b = .error (.syntaxError e) ∧ e.eof = true) ↔
      ∃ e, parseJson b = .error (.syntaxError e) ∧ e.eof = true) ∧
    (∀ schema b exceeded m, decodeBody unicode doubles schema (some ⟨b, exceeded⟩) = refusedBody m →
        m ∈ endSentences →
      ∃ s node, parseJson (b ++ s) = .ok node) ∧
    ∀ schema b, (∀ s node, parseFirstJson (b ++ s) ≠ .ok node) →
      ∃ p c t, b = p ++ c :: t ∧ (∃ s node, parseFirstJson (p ++ s) = .ok node) ∧
        (∀ s node, parseFirstJson (p ++ c :: s) ≠ .ok node) ∧
        ∃ what, ∀ (s : Bytes) (exceeded : Bool),
          decodeBody unicode doubles schema (some ⟨p ++ c :: s, exceeded⟩) =
            refusedBody (js "invalid character 0x" ++ hexText c ++ js " " ++ js what) := by
  refine ⟨fun b e h => parse_eof h, parseFirstJson_cut, fun schema b exceeded m h hm => ?_,
    fun schema b h => ?_⟩
  · exact viable_of_cut (cut_of_endSentence h hm)
  · have hwrong : IsWrong (parseFirstJson b) := by
      by_contra hgood
      obtain ⟨s, node, hnode⟩ := exists_more hgood
      exact h s node hnode
    obtain ⟨p, c, t, rfl, hgood, hbyte⟩ := first_wrong hwrong
    refine ⟨p, c, t, rfl, exists_more hgood, fun s node hnode => ?_, decodeBody_wrong hgood hbyte⟩
    rw [List.append_cons] at hnode
    exact not_wrong_of_more hnode hbyte

/-! ## The cap -/

section
variable (unicode : Unicode) (doubles : Doubles) (schema : Schema)

/-- What `decodeBody` comes to for a body that arrives in these chunks. -/
def decodeArriving (chunks : List Bytes) : Option (Except Failure Value) :=
  (readBody MAX_BODY_BYTES (arriving chunks)).promise.map (decodeBody unicode doubles schema)

/-- What the cap is to do: it does not matter how the body is cut; a body that fits is judged whole;
of a larger one the first MiB is judged, where that holds a value or a wrong byte, and it is too
large where that holds neither. -/
structure CapKept (chunks : List Bytes) : Prop where
  cutting : ∀ chunks', chunks'.flatten = chunks.flatten →
    decodeArriving unicode doubles schema chunks' = decodeArriving unicode doubles schema chunks
  fits : chunks.flatten.length ≤ MAX_BODY_BYTES →
    decodeArriving unicode doubles schema chunks =
      some (decodeBody unicode doubles schema (some ⟨chunks.flatten, false⟩))
  judged : MAX_BODY_BYTES < chunks.flatten.length →
    ((∃ node, parseFirstJson (chunks.flatten.take MAX_BODY_BYTES) = .ok node) ∨
      ∀ s node, parseFirstJson (chunks.flatten.take MAX_BODY_BYTES ++ s) ≠ .ok node) →
    decodeArriving unicode doubles schema chunks =
      decodeArriving unicode doubles schema [chunks.flatten.take MAX_BODY_BYTES]
  tooLarge : MAX_BODY_BYTES < chunks.flatten.length →
    (∀ node, parseFirstJson (chunks.flatten.take MAX_BODY_BYTES) ≠ .ok node) →
    (∃ s node, parseFirstJson (chunks.flatten.take MAX_BODY_BYTES ++ s) = .ok node) →
    decodeArriving unicode doubles schema chunks =
      some (.error (.textAnswer 400 (js "invalid request body: http: request body too large")))

variable {unicode doubles schema}

theorem decodeArriving_eq (chunks : List Bytes) :
    decodeArriving unicode doubles schema chunks = some (decodeBody unicode doubles schema
      (some ⟨chunks.flatten.take MAX_BODY_BYTES,
        decide (MAX_BODY_BYTES < chunks.flatten.length)⟩)) := by
  rw [decodeArriving, readBody_arriving]
  rfl

theorem decodeArriving_first (bytes : Bytes) :
    decodeArriving unicode doubles schema [bytes.take MAX_BODY_BYTES] =
      some (decodeBody unicode doubles schema (some ⟨bytes.take MAX_BODY_BYTES, false⟩)) := by
  have hlen : (bytes.take MAX_BODY_BYTES).length ≤ MAX_BODY_BYTES := List.length_take_le _ _
  rw [decodeArriving_eq, List.flatten_singleton, List.take_of_length_le hlen,
    decide_eq_false (Nat.not_lt.mpr hlen)]

/-- The cap matters only to what is cut off. -/
theorem decodeBody_exceeded {bytes : Bytes} (h : ¬ IsCut (parseFirstJson bytes)) (exceeded : Bool) :
    decodeBody unicode doubles schema (some ⟨bytes, exceeded⟩) = decodeBody unicode doubles schema
    (some ⟨bytes, false⟩) := by
  cases hdecode : decodeFirstValue unicode doubles schema bytes with
  | ok v => rw [decodeBody_ok hdecode, decodeBody_ok hdecode]
  | error t =>
    rcases decodeFirstValue_error hdecode with ⟨hcut, -⟩ | ⟨-, c, what, rfl⟩ |
      ⟨node, e, -, rfl, hmisfit⟩
    · exact absurd hcut h
    · have hhead : (js "invalid character 0x" ++ hexText c ++ js " " ++ js what).head? =
        some 0x69 := rfl
      rw [decodeBody_error hdecode, decodeBody_error hdecode,
        (bodyExplanation_head (.inr (.inr hhead))).1, (bodyExplanation_head (.inr (.inr hhead))).1]
    · rw [decodeBody_error hdecode, decodeBody_error hdecode,
        (bodyExplanation_head (hmisfit.imp_right .inl)).1,
        (bodyExplanation_head (hmisfit.imp_right .inl)).1]

/-- What is cut off by the cap is too large, if it is more than whitespace. -/
theorem decodeBody_cut {bytes : Bytes} (h : IsCut (parseFirstJson bytes)) :
    decodeBody unicode doubles schema (some ⟨bytes, true⟩) =
      refusedBody (if bytes.all isWs then js "EOF" else js "http: request body too large") := by
  rw [decodeBody_error (decodeFirstValue_cut h), endOfInput]
  split_ifs
  · rfl
  · rfl

theorem cut_of_viable {bytes : Bytes} (hno : ∀ node, parseFirstJson bytes ≠ .ok node)
    (hmore : ∃ s node, parseFirstJson (bytes ++ s) = .ok node) : IsCut (parseFirstJson bytes) := by
  obtain ⟨s, node, hnode⟩ := hmore
  cases hparse : parseFirstJson bytes with
  | ok node => exact absurd hparse (hno node)
  | error t =>
    rw [← hparse]
    exact (parse_error hparse).resolve_right (not_wrong_of_more hnode)

/-- Whitespace alone is cut off. -/
theorem cut_of_ws {bytes : Bytes} (h : bytes.all isWs = true) : IsCut (parseFirstJson bytes) := by
  have hws : Ws bytes := fun b hb => isWs_iff.mp (List.all_eq_true.mp h b hb)
  have hturn : parseTurn true ⟨[], bytes, none⟩ () =
      .done (fail "looking for beginning of value" []) := by
    simp only [parseTurn, begin, skipWs_ws hws]
    rfl
  have hresult : parseFirstJson bytes = fail "looking for beginning of value" [] :=
    Loop.result_done (L := parseLoop true) hturn
  rw [hresult]
  exact ⟨_, rfl, rfl⟩

/-- Nothing but whitespace up to the cap, and the answer is not the one for a body
that is too large. -/
theorem not_capKept {chunks : List Bytes} (hlt : MAX_BODY_BYTES < chunks.flatten.length)
    (hws : (chunks.flatten.take MAX_BODY_BYTES).all isWs = true) :
    ¬ CapKept unicode doubles schema chunks := by
  intro h
  have hcut := cut_of_ws hws
  have hno : ∀ node, parseFirstJson (chunks.flatten.take MAX_BODY_BYTES) ≠ .ok node := by
    intro node hnode
    rw [hnode] at hcut
    exact not_cut_ok node hcut
  have hlarge := h.tooLarge hlt hno (parse_cut hcut)
  rw [decodeArriving_eq, decide_eq_true hlt, decodeBody_cut hcut, if_pos hws] at hlarge
  exact absurd (refusedBody_inj (Option.some.inj hlarge)) (by decide)

end

/-- The cap does what it is to do unless the first MiB of a larger body is whitespace: then the
body is said to have ended. -/
theorem cap_kept_iff (unicode : Unicode) (doubles : Doubles) (schema : Schema)
    (chunks : List Bytes) :
    CapKept unicode doubles schema chunks ↔
      ¬ (MAX_BODY_BYTES < chunks.flatten.length ∧
        (chunks.flatten.take MAX_BODY_BYTES).all isWs = true) := by
  constructor
  · rintro h ⟨hlt, hws⟩
    exact not_capKept hlt hws h
  · intro h
    refine ⟨fun chunks' heq => ?_, fun hle => ?_, fun hlt hfirst => ?_, fun hlt hno hmore => ?_⟩
    · rw [decodeArriving_eq, decodeArriving_eq, heq]
    · rw [decodeArriving_eq, List.take_of_length_le hle, decide_eq_false (Nat.not_lt.mpr hle)]
    · have hcut : ¬ IsCut (parseFirstJson (chunks.flatten.take MAX_BODY_BYTES)) := by
        intro hcut
        rcases hfirst with ⟨node, hnode⟩ | hnone
        · rw [hnode] at hcut
          exact not_cut_ok node hcut
        · obtain ⟨s, node, hnode⟩ := parse_cut hcut
          exact hnone s node hnode
      rw [decodeArriving_eq, decodeArriving_first, decodeBody_exceeded hcut]
    · have hws : ¬ (chunks.flatten.take MAX_BODY_BYTES).all isWs = true := fun hws => h ⟨hlt, hws⟩
      rw [decodeArriving_eq, decide_eq_true hlt,
        decodeBody_cut (cut_of_viable hno hmore), if_neg hws]
      rfl

/-- A space more than fits: the body is said to have ended, where it is too large. -/
theorem cap_missed_spaces :
    decodeArriving plainUnicode plainDoubles cargoTransactionRequestSchema
    [List.replicate (MAX_BODY_BYTES + 1) 0x20] =
        some (.error (.textAnswer 400 (js "invalid request body: EOF"))) ∧
      ¬ CapKept plainUnicode plainDoubles cargoTransactionRequestSchema
        [List.replicate (MAX_BODY_BYTES + 1) 0x20] := by
  have hlt : MAX_BODY_BYTES <
      [List.replicate (MAX_BODY_BYTES + 1) (0x20 : UInt8)].flatten.length := by
    rw [List.flatten_singleton, List.length_replicate]
    exact Nat.lt_succ_self _
  have hws : ([List.replicate (MAX_BODY_BYTES + 1) (0x20 : UInt8)].flatten.take MAX_BODY_BYTES).all
      isWs = true := by
    rw [List.flatten_singleton, List.take_replicate, List.all_eq_true]
    intro b hb
    rw [List.eq_of_mem_replicate hb]
    rfl
  refine ⟨?_, not_capKept hlt hws⟩
  rw [decodeArriving_eq, decide_eq_true hlt, decodeBody_cut (cut_of_ws hws), if_pos hws]
  rfl

end AgentService
