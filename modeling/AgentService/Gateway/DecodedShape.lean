import AgentService.Gateway.Decode
import AgentService.Gateway.JsonParse
import AgentService.Gateway.Pieces

/-!
# What decoding returns

`Fits` is the shape a schema promises: every member in its place, integers in range, doubles
finite, times normalised, strings without lone surrogates. The zero value has it, and binding
keeps it, whatever an earlier repeat of a member has left behind.
-/

namespace AgentService
open Lib

mutual

inductive Fits : Schema → Value → Prop
  | text (cs) : Fits .text (.text (utf16 cs))
  | int64 {v} (hlo : INT64_MIN ≤ v) (hhi : v ≤ INT64_MAX) : Fits .int64 (.int v)
  | float64 {bits} (h : isFiniteDouble bits = true) : Fits .float64 (.float bits)
  | bool (v) : Fits .bool (.bool v)
  | time {source v} (h : normaliseTime source = .ok v) : Fits .time v
  | null (of) : Fits (.list of) .null
  | list {of items} (h : FitsItems of items) : Fits (.list of) (.list items)
  | struct {fields members} (h : FitsFields fields members) :
      Fits (.struct fields) (.struct members)

inductive FitsItems : Schema → List Value → Prop
  | nil (of) : FitsItems of []
  | cons {of v items} (h : Fits of v) (hs : FitsItems of items) : FitsItems of (v :: items)

inductive FitsFields : List (JsString × Schema) → List (JsString × Value) → Prop
  | nil : FitsFields [] []
  | cons {name field v fields members} (h : Fits field v) (hs : FitsFields fields members) :
      FitsFields ((name, field) :: fields) ((name, v) :: members)

end

/-- A time is decoded to a text or kept as one that cannot be written. -/
theorem normaliseTime_ok {source : JsString} {v : Value} (h : normaliseTime source = .ok v) :
    (∃ t, v = .text t) ∨ v = .unencodable source := by
  unfold normaliseTime at h
  split at h
  · cases h
  · split_ifs at h
    · exact .inr (Except.ok.inj h).symm
    · exact .inl ⟨_, (Except.ok.inj h).symm⟩

/-! ## The zero value -/

mutual

/-- Every zero value fits its schema. -/
theorem fits_zero : ∀ schema : Schema, Fits schema (zero schema)
  | .text => .text []
  | .int64 => .int64 (by decide) (by decide)
  | .float64 => .float64 (by decide)
  | .bool => .bool false
  | .time => @Fits.time ZERO_TIME _ (by rfl)
  | .list of => .null of
  | .struct fields => .struct (fits_zeroFields fields)

theorem fits_zeroFields : ∀ fields : List (JsString × Schema), FitsFields fields (zeroFields fields)
  | [] => .nil
  | (_, field) :: fields => .cons (fits_zero field) (fits_zeroFields fields)

end

/-! ## Members by name -/

/-- A field of a record that fits is there, and fits. -/
theorem FitsFields.get {fields : List (JsString × Schema)} {members : List (JsString × Value)}
    (h : FitsFields fields members) {name : JsString} {field : Schema}
    (hf : getMember name fields = some field) :
    ∃ v, getMember name members = some v ∧ Fits field v := by
  induction fields generalizing members with
  | nil => cases hf
  | cons f fields ih =>
    cases h with
    | cons hv hs =>
      unfold getMember at hf ⊢
      split at hf
      · rename_i heq
        cases hf
        exact ⟨_, if_pos heq, hv⟩
      · rename_i hne
        obtain ⟨v, hget, hfits⟩ := ih hs hf
        exact ⟨v, by rw [if_neg hne, hget], hfits⟩

/-- Every member fits the field in its place. -/
theorem FitsFields.member {fields : List (JsString × Schema)} {members : List (JsString × Value)}
    (h : FitsFields fields members) {name : JsString} {v : Value}
    (hv : getMember name members = some v) : ∃ field, Fits field v := by
  induction fields generalizing members with
  | nil => cases h; cases hv
  | cons f fields ih =>
    cases h with
    | cons hw hs =>
      unfold getMember at hv
      split at hv
      · cases hv
        exact ⟨_, hw⟩
      · exact ih hs hv

/-- A record fits again once a field is set to what fits. -/
theorem FitsFields.set {fields : List (JsString × Schema)} {members : List (JsString × Value)}
    (h : FitsFields fields members) {name : JsString} {field : Schema}
    (hf : getMember name fields = some field)
    {v : Value} (hv : Fits field v) : FitsFields fields (setMember name v members) := by
  induction fields generalizing members with
  | nil => cases hf
  | cons f fields ih =>
    cases h with
    | cons hw hs =>
      unfold getMember at hf
      unfold setMember
      split at hf
      · rename_i heq
        cases hf
        rw [if_pos heq]
        exact .cons hv hs
      · rename_i hne
        rw [if_neg hne]
        exact .cons hw (ih hs hf)

/-! ## Trees whose strings are well-formed -/

mutual

/-- No lone surrogate in any string; member names do not matter. -/
def JsonNode.IsWellFormed : JsonNode → Prop
  | .str v _ => ∃ cs, v = utf16 cs
  | .arr items => IsWellFormedItems items
  | .obj members => IsWellFormedMembers members
  | _ => True

def IsWellFormedItems : List JsonNode → Prop
  | [] => True
  | v :: vs => v.IsWellFormed ∧ IsWellFormedItems vs

def IsWellFormedMembers : List (JsString × JsonNode) → Prop
  | [] => True
  | (_, v) :: ms => v.IsWellFormed ∧ IsWellFormedMembers ms

end

theorem codePointUnits_eq_utf16 {n : Nat} (h : n < 0xd800 ∨ 0xdfff < n ∧ n < 0x110000) :
    codePointUnits n = utf16 [Char.ofNat n] := by
  rw [utf16, List.flatMap_cons, List.flatMap_nil, List.append_nil, Utf8.toNat_ofNat_valid h]

theorem hexText_lt {hex : Bytes} {n : Nat} (h : HexText hex n) : n < 0x10000 := by
  have hlt {b : UInt8} {x : Nat} (h : hexValue b = some x) : x < 16 := by
    have hall := forall_byte (p := fun b => (hexValue b).all (· < 16) = true) (by decide +kernel) b
    rw [h] at hall
    simpa using hall
  obtain @⟨a, b, c, d, x, y, z, w, ha, hb, hc, hd⟩ := h
  have := hlt ha
  have := hlt hb
  have := hlt hc
  have := hlt hd
  omega

/-- The text between quotes is a sequence of characters. -/
theorem wellFormed_stringText {s : Bytes} {v : JsString} (h : StringText s v) :
    ∃ cs, v = utf16 cs := by
  have hcons {c : Char} {u v : JsString} (hu : u = utf16 [c]) (ih : ∃ cs, v = utf16 cs) :
      ∃ cs, u ++ v = utf16 cs := by
    obtain ⟨cs, rfl⟩ := ih
    exact ⟨c :: cs, by rw [hu, ← utf16_append, List.singleton_append]⟩
  induction h with
  | nil => exact ⟨[], rfl⟩
  | char c _ _ _ _ ih => exact hcons (c := c) (by simp [utf16]) ih
  | stray _ _ _ ih => exact hcons (c := Utf8.replacement) (u := [0xfffd]) (by decide) ih
  | @short e u _ _ he _ ih =>
    refine hcons (c := Char.ofNat u.toNat) (u := [u]) ?_ ih
    have hall := List.all_eq_true.mp (show (shortEscapes.all fun p =>
      [p.2] == utf16 [Char.ofNat p.2.toNat]) = true
      by decide +kernel) _ he
    simpa using hall
  | @unicode hex n _ _ hx hn _ ih =>
    have hlt := hexText_lt hx
    obtain ⟨hhigh, hlow⟩ := hn
    unfold IsHigh at hhigh
    unfold IsLow at hlow
    exact hcons (codePointUnits_eq_utf16 (by omega)) ih
  | @pair hex hex' hi lo _ _ hx hhi hx' hlo _ ih =>
    obtain ⟨h₁, h₂⟩ := hhi
    obtain ⟨h₃, h₄⟩ := hlo
    refine hcons (codePointUnits_eq_utf16 ?_) ih
    unfold pairCodePoint
    omega
  | lone _ _ _ ih => exact hcons (c := Utf8.replacement) (u := [0xfffd]) (by decide) ih

mutual

/-- A value of the grammar has no lone surrogate and no number but by the grammar, by induction on
the derivation. -/
theorem wellFormed_valueText {d : Nat} {s : Bytes} {v : JsonNode} (h : ValueText d s v) :
    v.IsWellFormed := by
  match h with
  | .null | .true | .false | .number _ | .emptyArray _ | .emptyObject _ =>
    simp [JsonNode.IsWellFormed, IsWellFormedItems, IsWellFormedMembers]
  | .string h => exact wellFormed_stringText h
  | .array _ hv ht => exact ⟨wellFormed_valueText hv, wellFormed_arrayRest ht⟩
  | .object _ _ hv ht => exact ⟨wellFormed_valueText hv, wellFormed_objectRest ht⟩

theorem wellFormed_arrayRest {d : Nat} {s : Bytes} {vs : List JsonNode} (h : ArrayRest d s vs) :
    IsWellFormedItems vs := by
  match h with
  | .close _ => trivial
  | .item _ _ hv ht => exact ⟨wellFormed_valueText hv, wellFormed_arrayRest ht⟩

theorem wellFormed_objectRest {d : Nat} {s : Bytes} {ms : List (JsString × JsonNode)}
    (h : ObjectRest d s ms) : IsWellFormedMembers ms := by
  match h with
  | .close _ => trivial
  | .member _ _ _ hv ht => exact ⟨wellFormed_valueText hv, wellFormed_objectRest ht⟩

end

/-- The tree the reader returns is one of a text. -/
theorem wellFormed_of_parse {ignoreRest : Bool} {bytes : Bytes} {node : JsonNode}
    (h : parse bytes ignoreRest = .ok node) : node.IsWellFormed := by
  have haccounted : Accounted ignoreRest node ⟨[], bytes, none⟩ := accounted_of_result _ h
  obtain ⟨_, _, v, _, -, -, hv, hclose⟩ := haccounted
  cases hclose with
  | done => exact wellFormed_valueText hv

/-! ## Binding -/

/-- An int64 that is parsed is in its range. -/
theorem parseInt64_range {raw : JsString} {v : Int} (h : parseInt64 raw = .ok v) :
    INT64_MIN ≤ v ∧ v ≤ INT64_MAX := by
  unfold parseInt64 at h
  split at h
  · cases h
  · split at h
    · cases h
    · rename_i hrange
      cases h
      omega

theorem fits_orZero {schema : Schema} {existing : Option Value}
    (h : ∀ e ∈ existing, Fits schema e) : Fits schema (orZero existing schema) := by
  unfold orZero
  split
  · exact fits_zero schema
  · exact fits_zero schema
  · exact h _ rfl

theorem FitsItems.mem {of : Schema} {items : List Value} (h : FitsItems of items) :
    ∀ v ∈ items, Fits of v := by
  induction items with
  | nil => intro v hv; cases hv
  | cons w items ih =>
    cases h with
    | cons hw hs =>
      intro v hv
      rcases List.mem_cons.mp hv with rfl | hv
      · exact hw
      · exact ih hs v hv

theorem fits_itemsOf {of : Schema} {existing : Option Value}
    (h : ∀ e ∈ existing, Fits (.list of) e) : ∀ v ∈ itemsOf existing, Fits of v := by
  unfold itemsOf
  split
  · cases h _ rfl with
    | list hitems => exact hitems.mem
  · intro v hv
    cases hv

section
variable {unicode : Unicode} {doubles : Doubles}

mutual

/-- What is bound fits, if what it is merged into does, by induction on the tree. -/
theorem fits_bind (node : JsonNode) : ∀ {schema : Schema} {existing : Option Value} {v : Value},
    node.IsWellFormed → (∀ e ∈ existing, Fits schema e) →
      bind unicode doubles node schema existing = .ok v →
      Fits schema v := by
  intro schema existing v hnode hexisting h
  match node with
  | .null =>
    cases schema with
    | list of => cases h; exact .null of
    | _ => cases h; exact fits_orZero hexisting
  | .bool b =>
    cases schema with
    | bool => cases h; exact .bool b
    | _ => cases h
  | .num raw =>
    cases schema with
    | int64 =>
      obtain ⟨n, hn, rfl⟩ := map_eq_ok.mp h
      obtain ⟨hlo, hhi⟩ := parseInt64_range hn
      exact .int64 hlo hhi
    | float64 =>
      obtain ⟨bits, hbits, rfl⟩ := map_eq_ok.mp h
      unfold parseFloat64 at hbits
      split at hbits
      · rename_i hfinite
        cases hbits
        exact .float64 hfinite
      · cases hbits
    | _ => cases h
  | .str t plain =>
    cases schema with
    | text =>
      cases h
      obtain ⟨cs, rfl⟩ := hnode
      exact .text cs
    | time =>
      change (if plain then normaliseTime t else _) = _ at h
      split at h
      · exact .time h
      · cases h
    | _ => cases h
  | .arr items =>
    cases schema with
    | list of =>
      obtain ⟨vs, hvs, rfl⟩ := map_eq_ok.mp h
      exact .list (fits_bindItems items hnode (fits_itemsOf hexisting) hvs)
    | _ => cases h
  | .obj members =>
    cases schema with
    | struct fields =>
      obtain ⟨ms, hms, rfl⟩ := map_eq_ok.mp h
      refine .struct (fits_bindMembers members hnode ?_ hms)
      have hzero := fits_orZero hexisting
      revert hzero
      cases orZero existing (.struct fields) with
      | struct into => exact fun hzero => by cases hzero; assumption
      | _ => exact fun hzero => nomatch hzero
    | _ => cases h

theorem fits_bindItems (items : List JsonNode) : ∀ {of : Schema} {before vs : List Value},
    IsWellFormedItems items → (∀ e ∈ before, Fits of e) →
      bindItems unicode doubles items of before = .ok vs →
      FitsItems of vs := by
  intro of before vs hitems hbefore h
  match items with
  | [] =>
    cases h
    exact .nil of
  | item :: items =>
    obtain ⟨v, hv, h⟩ := bind_eq_ok.mp h
    obtain ⟨rest, hrest, h⟩ := bind_eq_ok.mp h
    cases h
    refine .cons (fits_bind item hitems.1 (fun e he => hbefore e (List.mem_of_head? he)) hv)
      (fits_bindItems items hitems.2 (fun e he => hbefore e (List.mem_of_mem_tail he)) hrest)

theorem fits_bindMembers (members : List (JsString × JsonNode)) :
    ∀ {fields : List (JsString × Schema)} {into ms : List (JsString × Value)},
      IsWellFormedMembers members →
      FitsFields fields into → bindMembers unicode doubles members fields into = .ok ms →
        FitsFields fields ms := by
  intro fields into ms hmembers hinto h
  match members with
  | [] =>
    cases h
    exact hinto
  | (key, node) :: rest =>
    unfold bindMembers at h
    split at h
    · exact fits_bindMembers rest hmembers.2 hinto h
    · rename_i name field hname
      obtain ⟨v, hv, h⟩ := bind_eq_ok.mp h
      obtain ⟨n, -, hmap⟩ := Option.bind_eq_some_iff.mp hname
      obtain ⟨f, hget, heq⟩ := Option.map_eq_some_iff.mp hmap
      cases heq
      obtain ⟨e, he, hfits⟩ := hinto.get hget
      refine fits_bindMembers rest hmembers.2 (hinto.set hget (fits_bind node hmembers.1 ?_ hv)) h
      rw [he]
      exact fun e he => Option.some.inj he ▸ hfits

end

/-- Both decoders return values of the schema's shape. -/
theorem fits_decode {schema : Schema} {body : Bytes} {v : Value}
    (h : decode unicode doubles schema body = .ok v) : Fits schema v := by
  unfold decode at h
  split at h
  · cases h
    exact fits_zero schema
  · obtain ⟨node, hnode, hv⟩ := bind_eq_ok.mp h
    exact fits_bind node (wellFormed_of_parse (mapError_eq_ok.mp hnode)) (by simp)
      (mapError_eq_ok.mp hv)

/-- What the body of a request is decoded to fits its schema. -/
theorem fits_decodeFirstValue {schema : Schema} {body : Bytes} {v : Value}
    (h : decodeFirstValue unicode doubles schema body = .ok v) : Fits schema v := by
  obtain ⟨node, hnode, hv⟩ := bind_eq_ok.mp h
  exact fits_bind node (wellFormed_of_parse (mapError_eq_ok.mp hnode)) (by simp)
    (mapError_eq_ok.mp hv)

/-- The reader throws nothing but syntax errors, so decoding throws nothing but `DecodeError`s. -/
theorem decode_error {schema : Schema} {body : Bytes} {e : DecodeThrown}
    (h : decode unicode doubles schema body = .error e) : ∃ d, e = .decodeError d := by
  unfold decode at h
  split at h
  · cases h
  · rcases bind_eq_error.mp h with hparse | ⟨node, -, hbind⟩
    · cases hresult : parseJson body with
      | ok node =>
        rw [hresult] at hparse
        cases hparse
      | error t =>
        rw [hresult] at hparse
        obtain ⟨se, rfl⟩ := (parseJson_exact body).2 t hresult
        cases hparse
        exact ⟨_, rfl⟩
    · cases hresult : AgentService.bind unicode doubles node schema none with
      | ok v =>
        rw [hresult] at hbind
        cases hbind
      | error d =>
        rw [hresult] at hbind
        cases hbind
        exact ⟨d, rfl⟩

end

/-! ## Decoded values are written -/

mutual

/-- A value that fits a schema has finite numbers only. -/
theorem Fits.isFinite {schema : Schema} {v : Value} (h : Fits schema v) : v.isFinite = true := by
  match h with
  | .text _ | .int64 _ _ | .bool _ | .null _ => rfl
  | .float64 hfinite => exact hfinite
  | .time hv => rcases normaliseTime_ok hv with ⟨t, rfl⟩ | rfl <;> rfl
  | .list hs => exact hs.isFinite
  | .struct hs => exact hs.isFinite

/-- No item that fits holds a number that is not finite. -/
theorem FitsItems.isFinite {of : Schema} {items : List Value} (h : FitsItems of items) :
    allFinite items = true := by
  match h with
  | .nil _ => rfl
  | .cons hv hs => exact Bool.and_eq_true_iff.mpr ⟨hv.isFinite, hs.isFinite⟩

theorem FitsFields.isFinite {fields : List (JsString × Schema)} {members : List (JsString × Value)}
    (h : FitsFields fields members) : allMembersFinite members = true := by
  match h with
  | .nil => rfl
  | .cons hv hs => exact Bool.and_eq_true_iff.mpr ⟨hv.isFinite, hs.isFinite⟩

end

end AgentService
