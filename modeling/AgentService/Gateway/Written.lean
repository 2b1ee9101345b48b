import AgentService.Gateway.DecodedShape
import AgentService.Gateway.JsonNesting
import AgentService.Gateway.Quote
import AgentService.Gateway.TimeText

/-!
# What the writer writes

A value that fits a schema is written as a text of the JSON grammar. `treeOf` is the tree of
that text, and it nests as deep as the value does.
-/

namespace AgentService
open Lib

/-! ## Names and nesting -/

mutual

/-- All names are ASCII letters, distinct in each struct when case is ignored. -/
def Schema.hasPlainNames : Schema → Bool
  | .list of => of.hasPlainNames
  | .struct fields => (fields.map fun f => asciiLower f.1).Nodup && fieldsHavePlainNames fields
  | _ => true

def fieldsHavePlainNames : List (JsString × Schema) → Bool
  | [] => true
  | (name, field) :: fields => name.all isLetter && field.hasPlainNames &&
      fieldsHavePlainNames fields

end

mutual

/-- How deep the values of a schema may nest. -/
def Schema.nesting : Schema → Nat
  | .list of => of.nesting + 1
  | .struct fields => fieldsNesting fields + 1
  | _ => 0

def fieldsNesting : List (JsString × Schema) → Nat
  | [] => 0
  | (_, field) :: fields => max field.nesting (fieldsNesting fields)

end

mutual

/-- How deep a value nests. -/
def Value.nesting : Value → Nat
  | .list items => valuesNesting items + 1
  | .struct members => entriesNesting members + 1
  | _ => 0

def valuesNesting : List Value → Nat
  | [] => 0
  | v :: vs => max v.nesting (valuesNesting vs)

def entriesNesting : List (JsString × Value) → Nat
  | [] => 0
  | (_, v) :: ms => max v.nesting (entriesNesting ms)

end

mutual

theorem Fits.nesting_le {schema : Schema} {v : Value} (h : Fits schema v) :
    v.nesting ≤ schema.nesting := by
  match h with
  | .text _ | .int64 _ _ | .float64 _ | .bool _ | .null _ => exact Nat.zero_le _
  | .time hv =>
    rcases normaliseTime_ok hv with ⟨t, rfl⟩ | rfl <;> exact Nat.zero_le _
  | .list hs => exact Nat.succ_le_succ hs.nesting_le
  | .struct hs => exact Nat.succ_le_succ hs.nesting_le

theorem FitsItems.nesting_le {of : Schema} {items : List Value} (h : FitsItems of items) :
    valuesNesting items ≤ of.nesting := by
  match h with
  | .nil _ => exact Nat.zero_le _
  | .cons hv hs => exact Nat.max_le.mpr ⟨hv.nesting_le, hs.nesting_le⟩

theorem FitsFields.nesting_le {fields : List (JsString × Schema)}
    {members : List (JsString × Value)} (h : FitsFields fields members) :
    entriesNesting members ≤ fieldsNesting fields := by
  match h with
  | .nil => exact Nat.zero_le _
  | .cons hv hs => exact max_le_max hv.nesting_le hs.nesting_le

end

/-! ## The tree of what is written -/

section
variable (doubles : Doubles)

mutual

/-- The tree a value is written as; an `UnencodableTime` is not written. -/
def treeOf : Value → JsonNode
  | .null => .null
  | .bool v => .bool v
  | .int v => .num (bigintText v)
  | .float v => .num (if v = NEGATIVE_ZERO then js "-0" else doubles.string v)
  | .text v => .str v (IsPlainText (stringToUtf8 (quoteUnits v)))
  | .unencodable source => .str source false
  | .list items => .arr (itemTrees items)
  | .struct members => .obj (memberTrees members)

def itemTrees : List Value → List JsonNode
  | [] => []
  | v :: vs => treeOf v :: itemTrees vs

def memberTrees : List (JsString × Value) → List (JsString × JsonNode)
  | [] => []
  | (k, v) :: ms => (k, treeOf v) :: memberTrees ms

end

mutual

theorem nesting_treeOf (v : Value) : (treeOf doubles v).nesting = v.nesting := by
  match v with
  | .null | .bool _ | .int _ | .float _ | .text _ | .unencodable _ => rfl
  | .list items => exact congrArg (· + 1) (nesting_itemTrees items)
  | .struct members => exact congrArg (· + 1) (nesting_memberTrees members)

theorem nesting_itemTrees (items : List Value) :
    itemsNesting (itemTrees doubles items) = valuesNesting items := by
  match items with
  | [] => rfl
  | v :: vs => exact congrArg₂ max (nesting_treeOf v) (nesting_itemTrees vs)

theorem nesting_memberTrees (members : List (JsString × Value)) :
    membersNesting (memberTrees doubles members) = entriesNesting members := by
  match members with
  | [] => rfl
  | (_, v) :: ms => exact congrArg₂ max (nesting_treeOf v) (nesting_memberTrees ms)

end

end

/-! ## The writer -/

/-- What is relied on of Node's conversions: a finite double is written as a JSON number that is
read as the same double, and `-0` is read as what it says. -/
structure Doubles.IsExact (doubles : Doubles) : Prop where
  text : ∀ bits, isFiniteDouble bits = true → ∃ s, NumberText s ∧
    doubles.string bits = latin1Decode s
  number : ∀ bits, isFiniteDouble bits = true → bits ≠ NEGATIVE_ZERO →
    doubles.number (doubles.string bits) = bits
  negative_zero : doubles.number (js "-0") = NEGATIVE_ZERO

/-- Pieces that spell a text with a property. -/
def Spells (pieces : List JsString) (P : Bytes → Prop) : Prop :=
  IsText pieces.flatten ∧ P (stringToUtf8 pieces.flatten)

theorem isText_letters {name : JsString} (h : name.all isLetter = true) : IsText name := by
  have hlow : ∀ u ∈ name, u < 0x80 := by
    intro u hu
    have hletter := List.all_eq_true.mp h u hu
    simp only [isLetter, Bool.or_eq_true, Bool.and_eq_true, decide_eq_true_eq,
      UInt16.le_iff_toNat_le, UInt16.reduceToNat] at hletter
    simp only [UInt16.lt_iff_toNat_lt, UInt16.reduceToNat]
    omega
  obtain ⟨heq, hbytes⟩ := latin1_of_ascii hlow
  exact heq ▸ isText_ascii hbytes

/-- A normalised time goes out as it is. -/
theorem time_text {t : JsString} (h : t.all isTimeUnit = true) :
    IsText t ∧ quoteUnits t = t ∧ IsPlainText (stringToUtf8 t) = true := by
  have hrange : ∀ u ∈ t, 0x22 < u ∧ u < 0x5c := fun u hu =>
    isTimeUnit_range (List.all_eq_true.mp h u hu)
  have hlow : ∀ u ∈ t, u < 0x80 := fun u hu => UInt16.lt_trans (hrange u hu).2 (by decide)
  obtain ⟨heq, hbytes⟩ := latin1_of_ascii hlow
  refine ⟨heq ▸ isText_ascii hbytes, quoteUnits_plain hrange, ?_⟩
  have hutf8 : stringToUtf8 t = latin1Encode t := by
    conv_lhs => rw [← heq]
    exact stringToUtf8_ascii hbytes
  rw [hutf8]
  apply List.all_eq_true.mpr
  intro b hb
  have hlt := hbytes b hb
  obtain ⟨u, hu, rfl⟩ := List.mem_map.mp hb
  have hne : u.toUInt8 ≠ 0x5c := by
    intro he
    have hu' := UInt16.lt_iff_toNat_lt.mp (hrange u hu).2
    have hn := congrArg UInt8.toNat he
    simp only [UInt16.toNat_toUInt8, UInt8.reduceToNat, UInt16.reduceToNat] at hn hu'
    omega
  simp [hlt, hne]

/-- A text behind an ASCII character. -/
theorem spells_behind {o : UInt8} (ho : o < 0x80) {body : JsString} (h : IsText body) :
    IsText (latin1Decode [o] ++ body) ∧ stringToUtf8 (latin1Decode [o] ++ body) =
      o :: stringToUtf8 body := by
  have hopen : ∀ b ∈ [o], b < 0x80 := by simpa using ho
  refine ⟨(isText_ascii hopen).append h, ?_⟩
  rw [(isText_ascii hopen).stringToUtf8_append h, stringToUtf8_ascii hopen]
  rfl

/-- A text between two ASCII characters. -/
theorem spells_between {o c : UInt8} (ho : o < 0x80) (hc : c < 0x80) {body : JsString}
    (h : IsText body) :
    IsText (latin1Decode [o] ++ body ++ latin1Decode [c]) ∧
      stringToUtf8 (latin1Decode [o] ++ body ++ latin1Decode [c]) =
        o :: stringToUtf8 body ++ [c] := by
  have hclose : ∀ b ∈ [c], b < 0x80 := by simpa using hc
  obtain ⟨hstart, hbytes⟩ := spells_behind ho h
  refine ⟨hstart.append (isText_ascii hclose), ?_⟩
  rw [hstart.stringToUtf8_append (isText_ascii hclose), hbytes, stringToUtf8_ascii hclose]

theorem quote_text {t : JsString} (h : IsText t) :
    IsText (quote t) ∧ stringToUtf8 (quote t) = 0x22 :: stringToUtf8 (quoteUnits t) ++ [0x22] :=
  spells_between (o := 0x22) (c := 0x22) (by decide) (by decide) (quoteUnits_text h).1

/-- A member's name and the colon. -/
theorem key_text {name : JsString} (h : IsText name) :
    IsText (quote name ++ js ":") ∧ KeyText (stringToUtf8 (quote name ++ js ":")) name := by
  have hcolon : ∀ b ∈ [0x3a], b < (0x80 : UInt8) := by simp
  obtain ⟨htext, hbytes⟩ := quote_text h
  refine ⟨htext.append (isText_ascii hcolon), ?_⟩
  have hjs : js ":" = latin1Decode [0x3a] := rfl
  have heq : 0x22 :: stringToUtf8 (quoteUnits name) ++ [0x22] ++ [0x3a] =
      [] ++ 0x22 :: stringToUtf8 (quoteUnits name) ++ 0x22 :: [] ++ [0x3a] := by simp
  rw [hjs, htext.stringToUtf8_append (isText_ascii hcolon), hbytes, stringToUtf8_ascii hcolon, heq]
  exact .mk ws_nil (quoteUnits_text h).2 ws_nil

theorem spells_word {ps : List JsString} (bs : Bytes) (hps : ps.flatten = latin1Decode bs)
    (hbs : ∀ b ∈ bs, b < 0x80) {P : Bytes → Prop} (hp : P bs) : Spells ps P := by
  rw [Spells, hps, stringToUtf8_ascii hbs]
  exact ⟨isText_ascii hbs, hp⟩

theorem text_written (doubles : Doubles) {t : JsString} (h : IsText t) :
    Spells [quote t] fun s => ∀ d, ValueText d s (treeOf doubles (.text t)) := by
  obtain ⟨htext, hbytes⟩ := quote_text h
  rw [Spells, List.flatten_cons, List.flatten_nil, List.append_nil, hbytes]
  exact ⟨htext, fun _ => .string (quoteUnits_text h).2⟩

section
variable {doubles : Doubles}

theorem float_written (hdoubles : doubles.IsExact) {bits : UInt64}
    (h : isFiniteDouble bits = true) :
    ∃ s, NumberText s ∧ (if bits = NEGATIVE_ZERO then js "-0" else doubles.string bits) =
      latin1Decode s := by
  split_ifs
  · exact ⟨[0x2d, 0x30], .mk (.inr rfl) .zero .none .none, rfl⟩
  · exact hdoubles.text bits h

mutual

/-- A value without an `UnencodableTime` is written as a text of its tree. -/
theorem value_written (hdoubles : doubles.IsExact) {schema : Schema} {v : Value} (h : Fits schema v)
    (hno : hasUnencodable v = false) (hnames : schema.hasPlainNames = true) :
    ∃ ps, jsonPieces doubles v = .ok ps ∧ Spells ps fun s =>
      ∀ d, v.nesting ≤ d → ValueText d s (treeOf doubles v) := by
  match h with
  | .null _ => exact ⟨_, rfl, spells_word [0x6e, 0x75, 0x6c, 0x6c] rfl (by simp) fun _ _ => .null⟩
  | .bool true =>
    exact ⟨_, rfl, spells_word [0x74, 0x72, 0x75, 0x65] rfl (by simp) fun _ _ => .true⟩
  | .bool false =>
    exact ⟨_, rfl, spells_word [0x66, 0x61, 0x6c, 0x73, 0x65] rfl (by simp) fun _ _ => .false⟩
  | @Fits.int64 n _ _ =>
    refine ⟨[bigintText n], rfl, ?_⟩
    rw [treeOf, bigintText_eq]
    exact spells_word _ (by simp) (numberText_ascii (numberText_bigint n)) fun _ _ =>
      .number (numberText_bigint n)
  | @Fits.float64 bits hfinite =>
    obtain ⟨s, hs, heq⟩ := float_written hdoubles hfinite
    refine ⟨[latin1Decode s], ?_, ?_⟩
    · rw [jsonPieces, goFloat, if_neg (by simp [hfinite]), heq]
      rfl
    · rw [treeOf, heq]
      exact spells_word _ (by simp) (numberText_ascii hs) fun _ _ => .number hs
  | .text cs =>
    obtain ⟨htext, hvalue⟩ := text_written doubles ⟨cs, rfl⟩
    exact ⟨[quote (utf16 cs)], rfl, htext, fun d _ => hvalue d⟩
  | .time hv =>
    rcases normaliseTime_ok hv with ⟨t, rfl⟩ | rfl
    · obtain ⟨htext, hvalue⟩ := text_written doubles (time_text (normaliseTime_normal hv).2).1
      exact ⟨[quote t], rfl, htext, fun d _ => hvalue d⟩
    · cases hno
  | .list (.nil of) =>
    refine ⟨[js "[", js "]"], rfl, spells_word [0x5b, 0x5d] rfl (by simp) fun d hd => ?_⟩
    obtain ⟨d, rfl⟩ := Nat.exists_eq_add_of_le' hd
    exact .emptyArray ws_nil
  | .list (@FitsItems.cons of v items hv hs) =>
    rw [hasUnencodable, anyUnencodable, Bool.or_eq_false_iff] at hno
    obtain ⟨ps, hps, htext, hvalue⟩ := value_written hdoubles hv hno.1 hnames
    obtain ⟨qs, hqs, hrest, hitems⟩ := items_written hdoubles hs hno.2 hnames
    refine ⟨[js "["] ++ (ps ++ qs) ++ [js "]"], by rw [jsonPieces, itemPieces, hps, hqs]; rfl, ?_⟩
    obtain ⟨hwhole, hbytes⟩ :=
      spells_between (o := 0x5b) (c := 0x5d) (by decide) (by decide) (htext.append hrest)
    have hflat : ([js "["] ++ (ps ++ qs) ++ [js "]"]).flatten =
        latin1Decode [0x5b] ++ (ps.flatten ++ qs.flatten) ++ latin1Decode [0x5d] := by
          simp [js, latin1Decode]
    rw [Spells, hflat, hbytes, htext.stringToUtf8_append hrest]
    refine ⟨hwhole, fun d hd => ?_⟩
    obtain ⟨d, rfl⟩ := Nat.exists_eq_add_of_le' (Nat.le_of_add_left_le hd)
    obtain ⟨hd₁, hd₂⟩ := Nat.max_le.mp (Nat.le_of_add_le_add_right hd)
    have harray : ValueText (d + 1) (0x5b :: [] ++ stringToUtf8 ps.flatten ++
      (stringToUtf8 qs.flatten ++ [0x5d]))
        (treeOf doubles (.list (v :: items))) := .array ws_nil (hvalue d hd₁) (hitems d hd₂)
    simpa using harray
  | .struct .nil =>
    refine ⟨[js "\x7b", js "\x7d"], rfl, spells_word [0x7b, 0x7d] rfl (by simp) fun d hd => ?_⟩
    obtain ⟨d, rfl⟩ := Nat.exists_eq_add_of_le' hd
    exact .emptyObject ws_nil
  | .struct (@FitsFields.cons name field v fields members hv hs) =>
    rw [hasUnencodable, anyMemberUnencodable, Bool.or_eq_false_iff] at hno
    rw [Schema.hasPlainNames, fieldsHavePlainNames, Bool.and_eq_true, Bool.and_eq_true,
      Bool.and_eq_true] at hnames
    obtain ⟨-, ⟨hname, hfield⟩, hfields⟩ := hnames
    obtain ⟨hkey, hkeyText⟩ := key_text (isText_letters hname)
    obtain ⟨ps, hps, htext, hvalue⟩ := value_written hdoubles hv hno.1 hfield
    obtain ⟨qs, hqs, hrest, hmembers⟩ := members_written hdoubles hs hno.2 hfields
    refine ⟨[js "\x7b"] ++ ([quote name ++ js ":"] ++ ps ++ qs) ++ [js "\x7d"], by
      rw [jsonPieces, memberPieces, hps, hqs]; rfl, ?_⟩
    have hbody := (hkey.append htext).append hrest
    obtain ⟨hwhole, hbytes⟩ := spells_between (o := 0x7b) (c := 0x7d) (by decide) (by decide) hbody
    have hflat : ([js "\x7b"] ++ ([quote name ++ js ":"] ++ ps ++ qs) ++ [js "\x7d"]).flatten =
        latin1Decode [0x7b] ++ ((quote name ++ js ":") ++ ps.flatten ++ qs.flatten) ++
            latin1Decode [0x7d] := by
      simp [js, latin1Decode]
    rw [Spells, hflat, hbytes, (hkey.append htext).stringToUtf8_append hrest,
      hkey.stringToUtf8_append htext]
    refine ⟨hwhole, fun d hd => ?_⟩
    obtain ⟨d, rfl⟩ := Nat.exists_eq_add_of_le' (Nat.le_of_add_left_le hd)
    obtain ⟨hd₁, hd₂⟩ := Nat.max_le.mp (Nat.le_of_add_le_add_right hd)
    have hobject : ValueText (d + 1) (0x7b :: stringToUtf8 (quote name ++ js ":") ++ [] ++
      stringToUtf8 ps.flatten ++
        (stringToUtf8 qs.flatten ++ [0x7d])) (treeOf doubles (.struct ((name, v) :: members))) :=
      .object hkeyText ws_nil (hvalue d hd₁) (hmembers d hd₂)
    simpa using hobject

/-- The rest of a list, each item behind its comma. -/
theorem items_written (hdoubles : doubles.IsExact) {of : Schema} {items : List Value}
    (h : FitsItems of items) (hno : anyUnencodable items = false)
    (hnames : of.hasPlainNames = true) :
    ∃ ps, itemPieces doubles false items = .ok ps ∧
      Spells ps fun s => ∀ d, valuesNesting items ≤ d →
        ArrayRest d (s ++ [0x5d]) (itemTrees doubles items) := by
  match h with
  | .nil _ => exact ⟨[], rfl, isText_nil, fun _ _ => .close ws_nil⟩
  | @FitsItems.cons of v items hv hs =>
    rw [anyUnencodable, Bool.or_eq_false_iff] at hno
    obtain ⟨ps, hps, htext, hvalue⟩ := value_written hdoubles hv hno.1 hnames
    obtain ⟨qs, hqs, hrest, hitems⟩ := items_written hdoubles hs hno.2 hnames
    refine ⟨[js ","] ++ ps ++ qs, by rw [itemPieces, hps, hqs]; rfl, ?_⟩
    obtain ⟨hwhole, hbytes⟩ := spells_behind (o := 0x2c) (by decide) (htext.append hrest)
    have hflat : ([js ","] ++ ps ++ qs).flatten = latin1Decode [0x2c] ++
        (ps.flatten ++ qs.flatten) := by
      simp [js, latin1Decode]
    rw [Spells, hflat, hbytes, htext.stringToUtf8_append hrest]
    refine ⟨hwhole, fun d hd => ?_⟩
    obtain ⟨hd₁, hd₂⟩ := Nat.max_le.mp hd
    have hitem : ArrayRest d ([] ++ 0x2c :: [] ++ stringToUtf8 ps.flatten ++
      (stringToUtf8 qs.flatten ++ [0x5d]))
        (itemTrees doubles (v :: items)) := .item ws_nil ws_nil (hvalue d hd₁) (hitems d hd₂)
    simpa using hitem

theorem members_written (hdoubles : doubles.IsExact) {fields : List (JsString × Schema)}
    {members : List (JsString × Value)} (h : FitsFields fields members)
    (hno : anyMemberUnencodable members = false)
    (hnames : fieldsHavePlainNames fields = true) :
    ∃ ps, memberPieces doubles false members = .ok ps ∧
      Spells ps fun s => ∀ d, entriesNesting members ≤ d →
        ObjectRest d (s ++ [0x7d]) (memberTrees doubles members) := by
  match h with
  | .nil => exact ⟨[], rfl, isText_nil, fun _ _ => .close ws_nil⟩
  | @FitsFields.cons name field v fields members hv hs =>
    rw [anyMemberUnencodable, Bool.or_eq_false_iff] at hno
    rw [fieldsHavePlainNames, Bool.and_eq_true, Bool.and_eq_true] at hnames
    obtain ⟨⟨hname, hfield⟩, hfields⟩ := hnames
    obtain ⟨hkey, hkeyText⟩ := key_text (isText_letters hname)
    obtain ⟨ps, hps, htext, hvalue⟩ := value_written hdoubles hv hno.1 hfield
    obtain ⟨qs, hqs, hrest, hmembers⟩ := members_written hdoubles hs hno.2 hfields
    refine ⟨[js "," ++ quote name ++ js ":"] ++ ps ++ qs, by rw [memberPieces, hps, hqs]; rfl, ?_⟩
    have hbody := (hkey.append htext).append hrest
    obtain ⟨hwhole, hbytes⟩ := spells_behind (o := 0x2c) (by decide) hbody
    have hflat : ([js "," ++ quote name ++ js ":"] ++ ps ++ qs).flatten =
        latin1Decode [0x2c] ++ ((quote name ++ js ":") ++ ps.flatten ++ qs.flatten) := by
          simp [js, latin1Decode]
    rw [Spells, hflat, hbytes, (hkey.append htext).stringToUtf8_append hrest,
      hkey.stringToUtf8_append htext]
    refine ⟨hwhole, fun d hd => ?_⟩
    obtain ⟨hd₁, hd₂⟩ := Nat.max_le.mp hd
    have hmember : ObjectRest d ([] ++ 0x2c :: stringToUtf8 (quote name ++ js ":") ++ [] ++
      stringToUtf8 ps.flatten ++
        (stringToUtf8 qs.flatten ++ [0x7d])) (memberTrees doubles ((name, v) :: members)) :=
      .member ws_nil hkeyText ws_nil (hvalue d hd₁) (hmembers d hd₂)
    simpa using hmember

end

end

end AgentService
