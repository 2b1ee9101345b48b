import AgentService.Gateway.JsonParse
import Mathlib.Data.List.Induction

/-!
# The first value and the whole document

Both readers run the same loop and part only where a value has no container around it. A value's
text ends with a byte that is no whitespace, and no value but a number can go on behind it, so an
input holds its first value in one place.
-/

namespace AgentService
open Lib

/-- `rest` is what follows the value in the input. -/
def FollowsValue (bytes : Bytes) (v : JsonNode) (rest : Bytes) : Prop :=
  ∃ w t, bytes = w ++ t ++ rest ∧ Ws w ∧ ValueText MAX_DEPTH t v

/-! ## The last byte of a value -/

/-- The last byte is no whitespace. -/
def EndsSolid (t : Bytes) : Prop := ∃ s c, t = s ++ [c] ∧ isWs c = false

theorem EndsSolid.append {t : Bytes} (h : EndsSolid t) (s : Bytes) : EndsSolid (s ++ t) := by
  obtain ⟨t, c, rfl, hc⟩ := h
  exact ⟨s ++ t, c, (List.append_assoc s t [c]).symm, hc⟩

theorem endsSolid_arrayRest {d : Nat} {t : Bytes} {vs : List JsonNode} (h : ArrayRest d t vs) :
    EndsSolid t := by
  induction vs generalizing t with
  | nil =>
    cases h with
    | @close d w _ => exact ⟨w, 0x5d, rfl, by decide⟩
  | cons v vs ih =>
    cases h with
    | item _ _ _ ht => exact (ih ht).append _

theorem endsSolid_objectRest {d : Nat} {t : Bytes} {ms : List (JsString × JsonNode)}
    (h : ObjectRest d t ms) : EndsSolid t := by
  induction ms generalizing t with
  | nil =>
    cases h with
    | @close d w _ => exact ⟨w, 0x7d, rfl, by decide⟩
  | cons m ms ih =>
    cases h with
    | member _ _ _ _ ht => exact (ih ht).append _

theorem endsSolid_valueText {d : Nat} {t : Bytes} {v : JsonNode} (h : ValueText d t v)
    (hnum : ∀ raw, v ≠ .num raw) : EndsSolid t := by
  cases h with
  | null => exact ⟨[0x6e, 0x75, 0x6c], 0x6c, rfl, by decide⟩
  | true => exact ⟨[0x74, 0x72, 0x75], 0x65, rfl, by decide⟩
  | false => exact ⟨[0x66, 0x61, 0x6c, 0x73], 0x65, rfl, by decide⟩
  | number _ => exact absurd rfl (hnum _)
  | @string d s v _ => exact ⟨0x22 :: s, 0x22, rfl, by decide⟩
  | @emptyArray d w _ => exact ⟨0x5b :: w, 0x5d, rfl, by decide⟩
  | array _ _ ht => exact (endsSolid_arrayRest ht).append _
  | @emptyObject d w _ => exact ⟨0x7b :: w, 0x7d, rfl, by decide⟩
  | object _ _ _ ht => exact (endsSolid_objectRest ht).append _

/-- What is solid at its end has no whitespace behind it. -/
theorem EndsSolid.ws_nil {t u : Bytes} (h : EndsSolid (t ++ u)) (hu : Ws u) : u = [] := by
  obtain ⟨s, c, heq, hc⟩ := h
  induction u using List.reverseRecOn with
  | nil => rfl
  | append_singleton u b _ =>
    rw [← List.append_assoc] at heq
    obtain ⟨-, hb⟩ := List.append_inj' heq rfl
    cases hb
    rw [isWs_iff.mpr (hu c (by simp))] at hc
    cases hc

/-! ## Where the value is -/

/-- With a value at hand and no container around it, only whitespace may be left. -/
theorem result_last {v node : JsonNode} {rest : Bytes}
    (h : (parseLoop false).result ⟨[], rest, some v⟩ = .ok node) : Ws rest := by
  have hturn : (parseLoop false).turn ⟨[], rest, some v⟩ () = place false [] v rest := rfl
  rw [place] at hturn
  by_cases hws : skipWs rest = []
  · obtain ⟨w, hw, hall⟩ := ws_skipWs rest
    rw [hws, List.append_nil] at hw
    rw [hw]
    exact hall
  · rw [if_neg (by simp), if_pos hws] at hturn
    rw [Loop.result_done hturn] at h
    exact absurd h fail_ne_ok

theorem result_first {v : JsonNode} {rest : Bytes} :
    (parseLoop true).result ⟨[], rest, some v⟩ = .ok v :=
  Loop.result_done (L := parseLoop true) rfl

/-- A number's text can be told from its node. -/
theorem valueText_num {d : Nat} {t : Bytes} {raw : JsString} (h : ValueText d t (.num raw)) :
    t = latin1Encode raw := by
  cases h with
  | number _ => rw [latin1Encode_decode]

/-- A longer text of the same value is the same text. -/
theorem valueText_shorter {t u : Bytes} {v : JsonNode} (h : ValueText MAX_DEPTH t v)
    (h' : ValueText MAX_DEPTH (t ++ u) v) : u = [] := by
  by_cases hnum : ∀ raw, v ≠ .num raw
  · have hwhole : parseJson (t ++ u) = .ok v := by
      have htext : JsonText MAX_DEPTH ([] ++ (t ++ u) ++ []) v := .mk ws_nil h' ws_nil
      rw [List.nil_append, List.append_nil] at htext
      exact parse_of_jsonText htext
    have haccepted := @value_accepted false MAX_DEPTH t v h [] [] u (by simp) ws_nil (.inl hnum)
    rw [List.nil_append] at haccepted
    have hlast := haccepted.symm.trans hwhole
    exact (endsSolid_valueText h' hnum).ws_nil (result_last hlast)
  · obtain ⟨raw, rfl⟩ := not_forall_not.mp hnum
    have heq := (valueText_num h').trans (valueText_num h).symm
    simpa using heq

theorem valueText_unique {t t' r r' : Bytes} {v : JsonNode} (h : ValueText MAX_DEPTH t v)
    (h' : ValueText MAX_DEPTH t' v) (heq : t ++ r = t' ++ r') : t = t' := by
  rcases List.append_eq_append_iff.mp heq with ⟨u, rfl, -⟩ | ⟨u, rfl, -⟩
  · rw [valueText_shorter h h', List.append_nil]
  · rw [valueText_shorter h' h, List.append_nil]

/-- An input has one value in front, in one place. -/
theorem followsValue_unique {bytes rest rest' : Bytes} {v : JsonNode}
    (h : FollowsValue bytes v rest) (h' : FollowsValue bytes v rest') : rest = rest' := by
  obtain ⟨w, t, rfl, hw, ht⟩ := h
  obtain ⟨w', t', heq, hw', ht'⟩ := h'
  have hskip {w t : Bytes} (hw : Ws w) (ht : ValueText MAX_DEPTH t v) (r : Bytes) :
      skipWs (w ++ t ++ r) = t ++ r := by
    obtain ⟨c, s, rfl, hc, -⟩ := valueText_head ht
    rw [List.append_assoc, skipWs_append hw, List.cons_append, skipWs_cons hc]
  have hrest : t ++ rest = t' ++ rest' := by
    rw [← hskip hw ht, ← hskip hw' ht', heq]
  cases valueText_unique ht ht' hrest
  exact List.append_cancel_left hrest

theorem followsValue_of_parseFirstJson {bytes : Bytes} {v : JsonNode}
    (h : parseFirstJson bytes = .ok v) : ∃ rest, FollowsValue bytes v rest := by
  have haccounted : Accounted true v ⟨[], bytes, none⟩ := accounted_of_result _ h
  obtain ⟨w, t, v', rest, hsplit, hw, hv, hclose⟩ := haccounted
  cases hclose with
  | done _ => exact ⟨rest, w, t, hsplit, hw, hv⟩

theorem parseFirstJson_of_followsValue {bytes rest : Bytes} {v : JsonNode}
    (h : FollowsValue bytes v rest) (hrest : MayFollow v rest) : parseFirstJson bytes = .ok v := by
  obtain ⟨w, t, rfl, hw, ht⟩ := h
  exact (value_accepted ht [] w rest (by simp) hw hrest).trans result_first

theorem parseJson_iff_followsValue {bytes : Bytes} {v : JsonNode} :
    parseJson bytes = .ok v ↔ ∃ rest, FollowsValue bytes v rest ∧ Ws rest := by
  constructor
  · intro h
    obtain @⟨w, t, _, w', hw, ht, hw'⟩ := jsonText_of_parseJson h
    exact ⟨w', ⟨w, t, rfl, hw, ht⟩, hw'⟩
  · rintro ⟨rest, ⟨w, t, rfl, hw, ht⟩, hrest⟩
    exact parse_of_jsonText (.mk hw ht hrest)

theorem mayFollow_append {v : JsonNode} {w s : Bytes} (hw : Ws w) (h : MayFollow v s) :
    MayFollow v (w ++ s) := by
  rcases h with h | h
  · exact .inl h
  · cases w with
    | nil => exact .inr h
    | cons b w =>
      right
      rcases hw b List.mem_cons_self with rfl | rfl | rfl |
        rfl <;> exact ⟨rfl, by simp, by simp, by simp⟩

/-- The two readers agree: what follows a whole document is not read, unless it goes on with a
number; a first value is a document of its own, up to the whitespace behind it; and a document is a
first value with nothing but whitespace behind it. -/
theorem first_and_whole (b : Bytes) (v : JsonNode) :
    (∀ s, parseJson b = .ok v → ((∀ raw, v ≠ .num raw) ∨ EndsNumber s) →
      parseFirstJson (b ++ s) = .ok v) ∧
    (parseFirstJson b = .ok v →
      (∃ p s, b = p ++ s ∧ parseJson p = .ok v) ∧
      ∀ p s p' s', b = p ++ s → b = p' ++ s' → parseJson p = .ok v → parseJson p' = .ok v →
        ∃ q w w', p = q ++ w ∧ p' = q ++ w' ∧ Ws w ∧ Ws w') ∧
    (parseFirstJson b = .ok v → ∃! rest, FollowsValue b v rest) ∧
    (parseJson b = .ok v ↔ parseFirstJson b = .ok v ∧ ∃ rest, FollowsValue b v rest ∧ Ws rest) := by
  refine ⟨?_, ?_, ?_, ?_⟩
  · intro s h hs
    obtain ⟨rest, ⟨w, t, rfl, hw, ht⟩, hrest⟩ := parseJson_iff_followsValue.mp h
    exact parseFirstJson_of_followsValue ⟨w, t, by rw [List.append_assoc], hw,
      ht⟩ (mayFollow_append hrest hs)
  · intro h
    refine ⟨?_, ?_⟩
    · obtain ⟨rest, w, t, rfl, hw, ht⟩ := followsValue_of_parseFirstJson h
      exact ⟨w ++ t, rest, rfl,
        parseJson_iff_followsValue.mpr ⟨[], ⟨w, t, by simp, hw, ht⟩, ws_nil⟩⟩
    · intro p s p' s' hb hb' hp hp'
      obtain ⟨r, ⟨w, t, rfl, hw, ht⟩, hr⟩ := parseJson_iff_followsValue.mp hp
      obtain ⟨r', ⟨w', t', rfl, hw', ht'⟩, hr'⟩ := parseJson_iff_followsValue.mp hp'
      have hfollows : FollowsValue b v (r ++ s) := ⟨w, t, by rw [hb, List.append_assoc], hw, ht⟩
      have hfollows' : FollowsValue b v (r' ++ s') :=
        ⟨w', t', by rw [hb', List.append_assoc], hw', ht'⟩
      have hrest := followsValue_unique hfollows hfollows'
      have hcore : w ++ t = w' ++ t' := by
        have heq := hb.symm.trans hb'
        rw [List.append_assoc _ r, List.append_assoc _ r', hrest] at heq
        exact List.append_cancel_right heq
      exact ⟨w ++ t, r, r', rfl, by rw [hcore], hr, hr'⟩
  · intro h
    obtain ⟨rest, hrest⟩ := followsValue_of_parseFirstJson h
    exact ⟨rest, hrest, fun _ h' => followsValue_unique h' hrest⟩
  · rw [parseJson_iff_followsValue]
    constructor
    · rintro ⟨rest, hfollows, hrest⟩
      exact ⟨parseFirstJson_of_followsValue hfollows (.inr (endsNumber_of_ws hrest)), rest,
        hfollows, hrest⟩
    · rintro ⟨-, h⟩
      exact h

end AgentService
