import AgentService.Http.MuxCompat
import AgentService.Lib.JsText
import AgentService.Lib.OrderedMap

/-!
# The query string the way Go reads it (`src/http/query.ts`)

Pairs are separated by `&` only, and one that holds a `;` or does not decode is dropped. A name
keeps the first value it was given, empty or not.
-/

namespace AgentService
open Lib

/-- `unescapeQuery`: `+` is a space, `%XX` a byte; `none` for a malformed escape. -/
def unescapeQuery (s : JsString) : Option Bytes :=
  unescapeBytes (s.map fun u => if u = 0x2b then 0x20 else u)

/-- The values of a query by their names, the name a byte per unit. -/
abbrev Query := OrderedMap JsString Bytes

namespace Query

/-- The loop of the constructor: `values` after one more pair. -/
def readPair (values : Query) (pair : JsString) : Query :=
  if pair = [] ∨ pair.contains 0x3b = true then values
  else
    let key := unescapeQuery (before 0x3d pair)
    let value := unescapeQuery ((fromFirst 0x3d pair).drop 1)
    match key, value with
    | some key, some value => values.addNew (latin1Decode key) value
    | _, _ => values

/-- `new Query` -/
def ofRaw (raw : JsString) : Query := (raw.splitOn 0x26).foldl readPair OrderedMap.empty

/-- `get` -/
def get (values : Query) (name : JsString) : Bytes := (values.get? name).getD []

end Query

/-! ## Integers -/

def Query.INT64_MIN : Int := -(2 ^ 63)

def Query.INT64_MAX : Int := 2 ^ 63 - 1

/-- `/^[+-]?[0-9]+$/` -/
def isSignedDigits (text : JsString) : Bool :=
  let digits := match text with
    | [] => []
    | u :: t => if u = 0x2b ∨ u = 0x2d then t else u :: t
  digits ≠ [] && digits.all fun u => 0x30 ≤ u && u ≤ 0x39

/-- `atoi` -/
def atoi (raw : Bytes) : Option Int :=
  let text := latin1Decode raw
  if isSignedDigits text then
    (bigIntOfText text).bind fun v =>
      if v < Query.INT64_MIN ∨ Query.INT64_MAX < v then none else some v
  else none

/-- A sign or none, and one digit or more: the integer they write. -/
inductive SignedDigits : Bytes → Int → Prop
  | bare {digits : Bytes} :
      digits ≠ [] → (∀ b ∈ digits, IsDigitByte b) → SignedDigits digits (readDecimal digits)
  | plus {digits : Bytes} : digits ≠ [] → (∀ b ∈ digits, IsDigitByte b) →
      SignedDigits (0x2b :: digits) (readDecimal digits)
  | minus {digits : Bytes} : digits ≠ [] → (∀ b ∈ digits, IsDigitByte b) →
      SignedDigits (0x2d :: digits) (-readDecimal digits)

theorem SignedDigits.bigInt {raw : Bytes} {v : Int} (h : SignedDigits raw v) :
    bigIntOfText (latin1Decode raw) = some v := by
  cases h with
  | bare hne hdigits => exact bigIntOfText_digits hne hdigits
  | plus hne hdigits => exact bigIntOfText_plus hne hdigits
  | minus hne hdigits => exact bigIntOfText_minus hne hdigits

/-- What the pattern asks of units, on bytes. -/
theorem all_digits (s : Bytes) :
    (latin1Decode s).all (fun u => 0x30 ≤ u && u ≤ 0x39) = true ↔ ∀ b ∈ s, IsDigitByte b := by
  rw [latin1Decode, List.all_map, List.all_eq_true]
  have hunit (b : UInt8) : ((fun u : UInt16 => decide (0x30 ≤ u) && decide (u ≤ 0x39)) ∘
      UInt8.toUInt16) b = true ↔
      IsDigitByte b := by
    simp only [Function.comp_apply, Bool.and_eq_true, decide_eq_true_eq, UInt16.le_iff_toNat_le,
      UInt8.toNat_toUInt16, UInt16.reduceToNat, isDigitByte_iff]
  exact forall₂_congr fun b _ => hunit b

/-- The pattern holds of the texts of integers. -/
theorem isSignedDigits_iff (raw : Bytes) :
    isSignedDigits (latin1Decode raw) = true ↔ ∃ v, SignedDigits raw v := by
  cases raw with
  | nil =>
    constructor
    · intro h
      cases h
    · rintro ⟨v, hv⟩
      cases hv
      contradiction
  | cons b s =>
    have hsign {c : UInt8} : b.toUInt16 = c.toUInt16 ↔ b = c := by
      rw [← UInt16.toNat_inj, ← UInt8.toNat_inj, UInt8.toNat_toUInt16, UInt8.toNat_toUInt16]
    have hne (t : Bytes) : (latin1Decode t ≠ []) ↔ t ≠ [] := by simp [latin1Decode]
    have hplus : b.toUInt16 = 0x2b ↔ b = 0x2b := @hsign 0x2b
    have hminus : b.toUInt16 = 0x2d ↔ b = 0x2d := @hsign 0x2d
    have hread : isSignedDigits (latin1Decode (b :: s)) = true ↔
        (if b = 0x2b ∨ b = 0x2d then s else b :: s) ≠ [] ∧
          ∀ d ∈ (if b = 0x2b ∨ b = 0x2d then s else b :: s), IsDigitByte d := by
      unfold isSignedDigits
      rw [latin1Decode, List.map_cons]
      dsimp only
      simp only [Bool.and_eq_true, decide_eq_true_eq, hplus, hminus]
      split
      · exact and_congr (hne s) (all_digits s)
      · exact and_congr (hne (b :: s)) (all_digits (b :: s))
    rw [hread]
    constructor
    · rintro ⟨hsome, hdigits⟩
      split at hsome
      · rename_i hcase
        rw [if_pos hcase] at hdigits
        rcases hcase with rfl | rfl
        · exact ⟨_, .plus hsome hdigits⟩
        · exact ⟨_, .minus hsome hdigits⟩
      · rename_i hcase
        rw [if_neg hcase] at hdigits
        exact ⟨_, .bare hsome hdigits⟩
    · rintro ⟨v, hv⟩
      cases hv with
      | bare hsome hdigits =>
        have hb := isDigitByte_iff.mp (hdigits b List.mem_cons_self)
        have hcase : ¬ (b = 0x2b ∨ b = 0x2d) := by
          rintro (rfl | rfl)
          · exact absurd hb.1 (by decide)
          · exact absurd hb.1 (by decide)
        rw [if_neg hcase]
        exact ⟨hsome, hdigits⟩
      | plus hsome hdigits => exact ⟨hsome, hdigits⟩
      | minus hsome hdigits => exact ⟨hsome, hdigits⟩

/-- `atoi` reads what writes an integer of 64 bits, as that integer. -/
theorem atoi_eq_some {raw : Bytes} {v : Int} :
    atoi raw = some v ↔ SignedDigits raw v ∧ Query.INT64_MIN ≤ v ∧ v ≤ Query.INT64_MAX := by
  rw [atoi]
  split
  · rename_i hsigned
    obtain ⟨w, hw⟩ := (isSignedDigits_iff raw).mp hsigned
    have hunique : SignedDigits raw v ↔ v = w := by
      constructor
      · intro hv
        exact Option.some.inj (hv.bigInt.symm.trans hw.bigInt)
      · rintro rfl
        exact hw
    rw [hw.bigInt, Option.bind_some, hunique]
    split
    · constructor
      · intro h
        cases h
      · rintro ⟨rfl, hmin, hmax⟩
        omega
    · rw [Option.some_inj]
      constructor
      · rintro rfl
        exact ⟨rfl, by omega, by omega⟩
      · intro h
        exact h.1.symm
  · rename_i hsigned
    constructor
    · intro h
      cases h
    · intro h
      exact absurd ((isSignedDigits_iff raw).mpr ⟨v, h.1⟩) hsigned

/-! ## What a name is given -/

/-- What a pair gives a name. -/
def valueIn (name : JsString) (pair : JsString) : Option Bytes :=
  if pair.contains 0x3b then none
  else
    match unescapeQuery (before 0x3d pair), unescapeQuery ((fromFirst 0x3d pair).drop 1) with
    | some key, some value => if latin1Decode key = name then some value else none
    | _, _ => none

/-- What the first pair that gives a name anything gives it. -/
def firstValue (raw : JsString) (name : JsString) : Bytes :=
  ((raw.splitOn 0x26).findSome? (valueIn name)).getD []

theorem valueIn_nil {name : JsString} (hname : name ≠ []) : valueIn name [] = none := by
  have hne : latin1Decode [] ≠ name := Ne.symm hname
  simpa [valueIn, unescapeQuery, unescapeBytes, percentDecode, latin1Encode, before,
    fromFirst] using hne

namespace Query

variable {name : JsString}

/-- A pair is kept where its name is new. -/
theorem get?_readPair (hname : name ≠ []) (values : Query) (pair : JsString) :
    (values.readPair pair).get? name = (values.get? name).or (valueIn name pair) := by
  unfold readPair
  split
  · rename_i hdropped
    have hnone : valueIn name pair = none := by
      rcases hdropped with rfl | hsemi
      · exact valueIn_nil hname
      · rw [valueIn, if_pos hsemi]
    rw [hnone, Option.or_none]
  · rename_i hkept
    rw [not_or] at hkept
    rw [valueIn, if_neg hkept.2]
    dsimp only
    split
    · rename_i key value hkey hvalue
      by_cases hmem : latin1Decode key ∈ values.keys
      · rw [OrderedMap.addNew_of_mem hmem]
        split
        · rename_i heq
          obtain ⟨v, hv⟩ := OrderedMap.mem_keys.mp (heq ▸ hmem)
          rw [OrderedMap.get?_eq_some.mpr hv, Option.some_or]
        · rw [Option.or_none]
      · rw [OrderedMap.get?_addNew hmem]
        by_cases heq : latin1Decode key = name
        · have hget : values.get? name = none := OrderedMap.get?_eq_none.mpr (heq ▸ hmem)
          rw [if_pos heq.symm, if_pos heq, hget, Option.none_or]
        · rw [if_neg (Ne.symm heq), if_neg heq, Option.or_none]
    · rw [Option.or_none]

/-- The constructor's loop looks a name up in the pairs it has read. -/
theorem get?_foldl (hname : name ≠ []) (pairs : List JsString) (values : Query) :
    (pairs.foldl readPair values).get? name =
      (values.get? name).or (pairs.findSome? (valueIn name)) := by
  induction pairs generalizing values with
  | nil => rw [List.foldl_nil, List.findSome?_nil, Option.or_none]
  | cons pair pairs ih =>
    rw [List.foldl_cons, ih, get?_readPair hname, Option.or_assoc, List.findSome?_cons]
    cases valueIn name pair with
    | some v => rw [Option.some_or]
    | none => rw [Option.none_or]

/-- `get` of a query is the first value its string gives. -/
theorem get_ofRaw (hname : name ≠ []) (raw : JsString) :
    (ofRaw raw).get name = firstValue raw name := by
  have hempty : (OrderedMap.empty : Query).get? name = none := rfl
  rw [get, ofRaw, get?_foldl hname, hempty, Option.none_or, firstValue]

end Query

/-- The pairs of a query string that was put together from pairs. -/
theorem firstValue_intercalate {name : JsString} (hname : name ≠ []) {pairs : List JsString}
    (h : ∀ p ∈ pairs, 0x26 ∉ p) :
    firstValue ([0x26].intercalate pairs) name = (pairs.findSome? (valueIn name)).getD [] := by
  cases pairs with
  | nil => simp [firstValue, List.intercalate, valueIn_nil hname]
  | cons p ps => rw [firstValue, List.splitOn_intercalate 0x26 h (List.cons_ne_nil p ps)]

/-- Pairs that give a name nothing, or come after one that does, are as good as absent. -/
theorem firstValue_insert {name : JsString} (hname : name ≠ []) {pre mid post : List JsString}
    (hpairs : ∀ q ∈ pre ++ mid ++ post, 0x26 ∉ q)
    (hmid : ∀ p ∈ mid, valueIn name p = none ∨ ∃ q ∈ pre, (valueIn name q).isSome = true) :
    firstValue ([0x26].intercalate (pre ++ mid ++ post)) name =
      firstValue ([0x26].intercalate (pre ++ post)) name := by
  have hrest : ∀ q ∈ pre ++ post, 0x26 ∉ q := by
    intro q hq
    apply hpairs
    rcases List.mem_append.mp hq with hq | hq
    · exact List.mem_append_left post (List.mem_append_left mid hq)
    · exact List.mem_append_right (pre ++ mid) hq
  rw [firstValue_intercalate hname hpairs, firstValue_intercalate hname hrest,
    List.findSome?_append, List.findSome?_append, List.findSome?_append]
  by_cases hpre : ∃ q ∈ pre, (valueIn name q).isSome = true
  · have hsome : (pre.findSome? (valueIn name)).isSome = true := by
      rw [List.isSome_findSome?, List.any_eq_true]
      exact hpre
    obtain ⟨v, hv⟩ := Option.isSome_iff_exists.mp hsome
    rw [hv, Option.or_assoc, Option.some_or, Option.some_or]
  · have hnone : mid.findSome? (valueIn name) = none :=
      List.findSome?_eq_none_iff.mpr fun p hp => (hmid p hp).resolve_right hpre
    rw [hnone, Option.or_none]

end AgentService
