import AgentService.Gateway.JsonParse

/-!
# How deep a tree nests

The reader counts the containers it is inside of and refuses one too many. So of a text that
the grammar derives at some depth, the tree's own nesting decides whether it is read.
-/

namespace AgentService
open Lib

mutual

/-- Containers inside containers. -/
def JsonNode.nesting : JsonNode → Nat
  | .arr items => itemsNesting items + 1
  | .obj members => membersNesting members + 1
  | _ => 0

def itemsNesting : List JsonNode → Nat
  | [] => 0
  | v :: vs => max v.nesting (itemsNesting vs)

def membersNesting : List (JsString × JsonNode) → Nat
  | [] => 0
  | (_, v) :: ms => max v.nesting (membersNesting ms)

end

/-! ## A text is derived at its own nesting -/

mutual

theorem valueText_at {d : Nat} {t : Bytes} {v : JsonNode} (h : ValueText d t v) {e : Nat}
    (he : v.nesting ≤ e) : ValueText e t v := by
  match h with
  | .null => exact .null
  | .true => exact .true
  | .false => exact .false
  | .number hn => exact .number hn
  | .string hs => exact .string hs
  | .emptyArray hw =>
    obtain ⟨e, rfl⟩ := Nat.exists_eq_add_of_le' (Nat.le_of_add_left_le he)
    exact .emptyArray hw
  | .emptyObject hw =>
    obtain ⟨e, rfl⟩ := Nat.exists_eq_add_of_le' (Nat.le_of_add_left_le he)
    exact .emptyObject hw
  | .array hw hv ht =>
    obtain ⟨e, rfl⟩ := Nat.exists_eq_add_of_le' (Nat.le_of_add_left_le he)
    obtain ⟨hfirst, hrest⟩ := Nat.max_le.mp (Nat.le_of_add_le_add_right he)
    exact .array hw (valueText_at hv hfirst) (arrayRest_at ht hrest)
  | .object hk hw hv ht =>
    obtain ⟨e, rfl⟩ := Nat.exists_eq_add_of_le' (Nat.le_of_add_left_le he)
    obtain ⟨hfirst, hrest⟩ := Nat.max_le.mp (Nat.le_of_add_le_add_right he)
    exact .object hk hw (valueText_at hv hfirst) (objectRest_at ht hrest)

theorem arrayRest_at {d : Nat} {t : Bytes} {vs : List JsonNode} (h : ArrayRest d t vs) {e : Nat}
    (he : itemsNesting vs ≤ e) : ArrayRest e t vs := by
  match h with
  | .close hw => exact .close hw
  | .item hw hw' hv ht =>
    obtain ⟨hfirst, hrest⟩ := Nat.max_le.mp he
    exact .item hw hw' (valueText_at hv hfirst) (arrayRest_at ht hrest)

theorem objectRest_at {d : Nat} {t : Bytes} {ms : List (JsString × JsonNode)}
    (h : ObjectRest d t ms) {e : Nat} (he : membersNesting ms ≤ e) : ObjectRest e t ms := by
  match h with
  | .close hw => exact .close hw
  | .member hw hk hw' hv ht =>
    obtain ⟨hfirst, hrest⟩ := Nat.max_le.mp he
    exact .member hw hk hw' (valueText_at hv hfirst) (objectRest_at ht hrest)

end

/-! ## One container too many -/

section
variable {ignoreRest : Bool}

/-- The reader gives up in this state. -/
def Refuses (ignoreRest : Bool) (st : ParseState) : Prop :=
  ∃ e, (parseLoop ignoreRest).result st = .error e

/-- A bracket is refused where `MAX_DEPTH` containers are open. -/
theorem refuses_bracket {c : UInt8} (hc : c = 0x7b ∨ c = 0x5b) {w : Bytes} (hw : Ws w)
    {stack : List Frame} (hd : MAX_DEPTH ≤ stack.length) (s : Bytes) :
    Refuses ignoreRest ⟨stack, w ++ c :: s, none⟩ := by
  have hws : isWs c = false := by rcases hc with rfl | rfl <;> rfl
  obtain ⟨e, hbegin⟩ : ∃ e, begin stack.length (w ++ c :: s) = .error e := by
    rw [begin, skipWs_append hw, skipWs_cons hws]
    dsimp only
    rw [if_pos hc, if_pos hd]
    exact ⟨_, rfl⟩
  refine ⟨e, Loop.result_done ?_⟩
  change parseTurn ignoreRest ⟨stack, w ++ c :: s, none⟩ () = _
  simp only [parseTurn, hbegin]

mutual

theorem value_refused {d : Nat} {t : Bytes} {v : JsonNode} (h : ValueText d t v) :
    ∀ (stack : List Frame) (w rest : Bytes), stack.length ≤ MAX_DEPTH →
      MAX_DEPTH < stack.length + v.nesting →
      Ws w → Refuses ignoreRest ⟨stack, w ++ t ++ rest, none⟩ := by
  intro stack w rest hstack hd hw
  rw [List.append_assoc]
  by_cases hopen : stack.length < MAX_DEPTH
  · match h with
    | .null | .true | .false | .number _ | .string _ => exact absurd hd (Nat.not_lt.mpr hstack)
    | .emptyArray _ | .emptyObject _ => exact absurd hd (Nat.not_lt.mpr hopen)
    | .array (w := w₀) (s := s) (t := t) (v := v') hw₀ hv ht =>
      obtain ⟨c, s', hs, hws, hc⟩ := valueText_head hv
      have heq : 0x5b :: w₀ ++ s ++ t ++ rest = 0x5b :: (w₀ ++ c :: (s' ++ (t ++ rest))) := by
        simp [hs]
      have hs' : c :: (s' ++ (t ++ rest)) = [] ++ s ++ (t ++ rest) := by simp [hs]
      rw [Refuses, heq, result_of_opened ((begin_bracket (.inr rfl) hw hopen _).trans
        (openFrame_array hw₀ hws hc _)), hs']
      by_cases hfirst : MAX_DEPTH < stack.length + 1 + v'.nesting
      · exact value_refused hv _ [] (t ++ rest) hopen hfirst ws_nil
      · rw [value_accepted (valueText_at hv le_rfl) (_ :: stack) [] (t ++ rest)
          (Nat.not_lt.mp hfirst) ws_nil (.inr (endsNumber_arrayRest ht rest))]
        refine arrayRest_refused ht stack [] _ rest hopen ?_
        simp only [JsonNode.nesting, itemsNesting] at hd
        omega
    | .object (k := k) (w := w₀) (s := s) (t := t) (v := v') hk hw₀ hv ht =>
      have heq : 0x7b :: k ++ w₀ ++ s ++ t ++ rest = 0x7b :: (k ++ (w₀ ++ s ++ (t ++ rest))) := by
        simp
      rw [Refuses, heq, result_of_opened ((begin_bracket (.inl rfl) hw hopen _).trans
        (openFrame_object hk _))]
      by_cases hfirst : MAX_DEPTH < stack.length + 1 + v'.nesting
      · exact value_refused hv _ w₀ (t ++ rest) hopen hfirst hw₀
      · rw [value_accepted (valueText_at hv le_rfl) (_ :: stack) w₀ (t ++ rest)
          (Nat.not_lt.mp hfirst) hw₀ (.inr (endsNumber_objectRest ht rest))]
        refine objectRest_refused ht stack [] _ _ rest hopen ?_
        simp only [JsonNode.nesting, membersNesting] at hd
        omega
  · have hfull : MAX_DEPTH ≤ stack.length := Nat.not_lt.mp hopen
    match h with
    | .null | .true | .false | .number _ | .string _ => exact absurd hd (Nat.not_lt.mpr hstack)
    | .emptyArray _ | .array _ _ _ => exact refuses_bracket (.inr rfl) hw hfull _
    | .emptyObject _ | .object _ _ _ _ => exact refuses_bracket (.inl rfl) hw hfull _

theorem arrayRest_refused {d : Nat} {t : Bytes} {vs : List JsonNode} (h : ArrayRest d t vs) :
    ∀ (below : List Frame) (items : List JsonNode) (v : JsonNode) (rest : Bytes),
      below.length < MAX_DEPTH →
      MAX_DEPTH < below.length + 1 + itemsNesting vs →
      Refuses ignoreRest ⟨⟨false, [], items, []⟩ :: below, t ++ rest, some v⟩ := by
  intro below items v rest hbelow hd
  match h with
  | .close _ => exact absurd hd (Nat.not_lt.mpr hbelow)
  | @ArrayRest.item _ w w' s v' t _ hw hw' hv ht =>
    have heq : w ++ 0x2c :: w' ++ s ++ t ++ rest = w ++ 0x2c :: (w' ++ s ++ (t ++ rest)) := by simp
    have hplaced : Placed ⟨false, [], items, []⟩ below v (w ++ 0x2c :: (w' ++ s ++ (t ++ rest)))
      _ := .item rfl hw
    rw [Refuses, heq, result_of_placed hplaced]
    by_cases hfirst : MAX_DEPTH < below.length + 1 + v'.nesting
    · exact value_refused hv _ w' (t ++ rest) hbelow hfirst hw'
    · rw [value_accepted (valueText_at hv le_rfl) (_ :: below) w' (t ++ rest)
        (Nat.not_lt.mp hfirst) hw' (.inr (endsNumber_arrayRest ht rest))]
      refine arrayRest_refused ht below _ _ rest hbelow ?_
      simp only [itemsNesting] at hd
      omega

theorem objectRest_refused {d : Nat} {t : Bytes} {ms : List (JsString × JsonNode)}
    (h : ObjectRest d t ms) :
    ∀ (below : List Frame) (members : List (JsString × JsonNode)) (name : JsString) (v : JsonNode)
      (rest : Bytes), below.length < MAX_DEPTH → MAX_DEPTH < below.length + 1 + membersNesting ms →
      Refuses ignoreRest ⟨⟨true, members, [], name⟩ :: below, t ++ rest, some v⟩ := by
  intro below members name v rest hbelow hd
  match h with
  | .close _ => exact absurd hd (Nat.not_lt.mpr hbelow)
  | @ObjectRest.member _ w k key' w' s v' t _ hw hk hw' hv ht =>
    have heq : w ++ 0x2c :: k ++ w' ++ s ++ t ++ rest = w ++ 0x2c :: k ++
      (w' ++ s ++ (t ++ rest)) := by simp
    have hplaced : Placed ⟨true, members, [],
        name⟩ below v (w ++ 0x2c :: k ++ (w' ++ s ++ (t ++ rest))) _ :=
      .member rfl hw hk
    rw [Refuses, heq, result_of_placed hplaced]
    by_cases hfirst : MAX_DEPTH < below.length + 1 + v'.nesting
    · exact value_refused hv _ w' (t ++ rest) hbelow hfirst hw'
    · rw [value_accepted (valueText_at hv le_rfl) (_ :: below) w' (t ++ rest)
        (Nat.not_lt.mp hfirst) hw' (.inr (endsNumber_objectRest ht rest))]
      refine objectRest_refused ht below _ _ _ rest hbelow ?_
      simp only [membersNesting] at hd
      omega

end

/-- Of a value's text, its nesting decides whether it is read. -/
theorem parse_valueText {d : Nat} {t : Bytes} {v : JsonNode} (h : ValueText d t v) :
    (v.nesting ≤ MAX_DEPTH → parse t ignoreRest = .ok v) ∧
      (MAX_DEPTH < v.nesting → ∃ e, parse t ignoreRest = .error e) := by
  constructor
  · intro hd
    have htext : JsonText MAX_DEPTH ([] ++ t ++ []) v := .mk ws_nil (valueText_at h hd) ws_nil
    rw [List.nil_append, List.append_nil] at htext
    exact parse_of_jsonText htext
  · intro hd
    have hrefused : Refuses ignoreRest ⟨[], [] ++ t ++ [], none⟩ :=
      value_refused h [] [] [] (Nat.zero_le _) (by rwa [List.length_nil, Nat.zero_add]) ws_nil
    rw [List.nil_append, List.append_nil] at hrefused
    exact hrefused

end

end AgentService
