import AgentService.Gateway.JsonParse
import AgentService.Gateway.Value

/-!
# Strings and numbers as the writer writes them

Between the quotes of `JSON.stringify` stands a text of the grammar that is read back as the
string, and a bigint is written as a number of the grammar.
-/

namespace AgentService
open Lib

/-! ## Hex digits -/

/-- The byte of `lowerHex`. -/
def lowerHexByte (n : Nat) : UInt8 := UInt8.ofNat (if n < 10 then 0x30 + n else 0x57 + n)

theorem lowerHex_spec {n : Nat} (h : n < 16) :
    lowerHex n = (lowerHexByte n).toUInt16 ∧ hexValue (lowerHexByte n) = some n ∧
      lowerHexByte n < 0x80 := by
  interval_cases n <;> decide

/-- The four digits of a `\uXXXX`. -/
def lowerHexBytes (u : UInt16) : Bytes :=
  [lowerHexByte (u.toNat / 4096), lowerHexByte (u.toNat / 256 % 16),
    lowerHexByte (u.toNat / 16 % 16), lowerHexByte (u.toNat % 16)]

theorem hexText_lowerHexBytes (u : UInt16) : HexText (lowerHexBytes u) u.toNat := by
  have hu := u.toNat_lt
  have hsum : ((u.toNat / 4096 * 16 + u.toNat / 256 % 16) * 16 + u.toNat / 16 % 16) * 16 +
      u.toNat % 16 = u.toNat := by
    omega
  have htext := HexText.mk (lowerHex_spec (n := u.toNat / 4096) (by omega)).2.1
    (lowerHex_spec (n := u.toNat / 256 % 16) (by omega)).2.1 (lowerHex_spec (n := u.toNat / 16 % 16)
      (by omega)).2.1
    (lowerHex_spec (n := u.toNat % 16) (by omega)).2.1
  rwa [hsum] at htext

theorem unicodeEscapeOf_eq (u : UInt16) :
    unicodeEscapeOf u = latin1Decode (0x5c :: 0x75 :: lowerHexBytes u) ∧
      ∀ b ∈ 0x5c :: 0x75 :: lowerHexBytes u, b < 0x80 := by
  have hu := u.toNat_lt
  obtain ⟨h₁, -, l₁⟩ := lowerHex_spec (n := u.toNat / 4096) (by omega)
  obtain ⟨h₂, -, l₂⟩ := lowerHex_spec (n := u.toNat / 256 % 16) (by omega)
  obtain ⟨h₃, -, l₃⟩ := lowerHex_spec (n := u.toNat / 16 % 16) (by omega)
  obtain ⟨h₄, -, l₄⟩ := lowerHex_spec (n := u.toNat % 16) (by omega)
  constructor
  · rw [unicodeEscapeOf, h₁, h₂, h₃, h₄]
    rfl
  · simp [lowerHexBytes, l₁, l₂, l₃, l₄]

/-! ## Strings -/

theorem quoteUnits_cons {u : UInt16} (h : isHighSurrogate u = false) (s : JsString) :
    quoteUnits (u :: s) = quoteUnit u ++ quoteUnits s := by
  cases s with
  | nil => simp [quoteUnits]
  | cons v s => rw [quoteUnits, h, Bool.false_and, if_neg Bool.false_ne_true]

/-- What is written for a character: a text, which is read back as the character. -/
structure Quoted (c : Char) (piece : JsString) : Prop where
  text : IsText piece
  reads : ∀ {s v}, StringText s v →
    StringText (stringToUtf8 piece ++ s) (codePointUnits c.toNat ++ v)

theorem quoted_ascii {c : Char} {bs : Bytes} (h : ∀ b ∈ bs, b < 0x80)
    (hreads : ∀ {s v}, StringText s v → StringText (bs ++ s) (codePointUnits c.toNat ++ v)) :
    Quoted c (latin1Decode bs) :=
  ⟨isText_ascii h, fun hs => by rw [stringToUtf8_ascii h]; exact hreads hs⟩

theorem quoted_self {c : Char} (hc : 0x20 ≤ c.toNat) (hq : c.toNat ≠ 0x22) (hb : c.toNat ≠ 0x5c) :
    Quoted c (codePointUnits c.toNat) := by
  have heq : codePointUnits c.toNat = utf16 [c] := by simp
  refine ⟨⟨[c], heq⟩, fun hs => ?_⟩
  rw [heq, stringToUtf8_utf16, utf8Encode_cons, utf8Encode_nil, List.append_nil, ← heq]
  exact .char c hc hq hb hs

theorem quoted_short {c : Char} {e : UInt8} {u : UInt16} (he : (e, u) ∈ shortEscapes)
    (hlt : e < 0x80) (hc : codePointUnits c.toNat = [u]) : Quoted c (latin1Decode [0x5c, e]) := by
  apply quoted_ascii
  · simp [hlt]
  · intro s v hs
    rw [hc]
    exact .short he hs

/-- One unit that is a character by itself. -/
theorem quoted_unit {c : Char} {u : UInt16} (hc : codePointUnits c.toNat = [u])
    (hn : c.toNat = u.toNat) (hh : isHighSurrogate u = false) (hl : isLowSurrogate u = false) :
    Quoted c (quoteUnit u) := by
  have hsame (x : UInt16) (h : u ≠ x) :
      c.toNat ≠ x.toNat := fun he => h (UInt16.toNat_inj.mp (hn.symm.trans he))
  unfold quoteUnit
  by_cases h22 : u = 0x22
  · rw [if_pos h22]
    exact quoted_short (e := 0x22) (by decide) (by decide) (h22 ▸ hc)
  rw [if_neg h22]
  by_cases h5c : u = 0x5c
  · rw [if_pos h5c]
    exact quoted_short (e := 0x5c) (by decide) (by decide) (h5c ▸ hc)
  rw [if_neg h5c]
  by_cases h08 : u = 0x08
  · rw [if_pos h08]
    exact quoted_short (e := 0x62) (by decide) (by decide) (h08 ▸ hc)
  rw [if_neg h08]
  by_cases h0c : u = 0x0c
  · rw [if_pos h0c]
    exact quoted_short (e := 0x66) (by decide) (by decide) (h0c ▸ hc)
  rw [if_neg h0c]
  by_cases h0a : u = 0x0a
  · rw [if_pos h0a]
    exact quoted_short (e := 0x6e) (by decide) (by decide) (h0a ▸ hc)
  rw [if_neg h0a]
  by_cases h0d : u = 0x0d
  · rw [if_pos h0d]
    exact quoted_short (e := 0x72) (by decide) (by decide) (h0d ▸ hc)
  rw [if_neg h0d]
  by_cases h09 : u = 0x09
  · rw [if_pos h09]
    exact quoted_short (e := 0x74) (by decide) (by decide) (h09 ▸ hc)
  rw [if_neg h09]
  simp only [hh, hl, Bool.false_eq_true, or_false]
  by_cases h20 : u < 0x20
  · rw [if_pos h20, (unicodeEscapeOf_eq u).1]
    apply quoted_ascii (unicodeEscapeOf_eq u).2
    intro s v hs
    have hlt : u.toNat < 0x20 := UInt16.lt_iff_toNat_lt.mp h20
    rw [hn]
    exact .unicode (hexText_lowerHexBytes u) ⟨fun h => absurd h.1 (by omega), fun h =>
      absurd h.1 (by omega)⟩ hs
  · rw [if_neg h20, ← hc]
    have hge : 0x20 ≤ u.toNat := UInt16.le_iff_toNat_le.mp (UInt16.not_lt.mp h20)
    exact quoted_self (hn ▸ hge) (hsame 0x22 h22) (hsame 0x5c h5c)

/-- A character is written by itself, whatever follows. -/
theorem quoteUnits_char (c : Char) (s : JsString) :
    ∃ piece, quoteUnits (codePointUnits c.toNat ++ s) = piece ++ quoteUnits s ∧ Quoted c piece := by
  have hv : c.toNat < 0xd800 ∨ 0xdfff < c.toNat ∧ c.toNat < 0x110000 := c.valid
  by_cases hn : c.toNat < 0x10000
  · have hc : codePointUnits c.toNat = [UInt16.ofNat c.toNat] := by rw [codePointUnits, if_pos hn]
    have he : (UInt16.ofNat c.toNat).toNat = c.toNat := by rw [UInt16.toNat_ofNat']; omega
    have hh : isHighSurrogate (UInt16.ofNat c.toNat) = false := by
      simp only [isHighSurrogate, UInt16.le_iff_toNat_le, UInt16.lt_iff_toNat_lt, he,
        UInt16.reduceToNat, Bool.and_eq_false_iff, decide_eq_false_iff_not]
      omega
    have hl : isLowSurrogate (UInt16.ofNat c.toNat) = false := by
      simp only [isLowSurrogate, UInt16.le_iff_toNat_le, UInt16.lt_iff_toNat_lt, he,
        UInt16.reduceToNat, Bool.and_eq_false_iff, decide_eq_false_iff_not]
      omega
    refine ⟨_, ?_, quoted_unit hc he.symm hh hl⟩
    rw [hc, List.singleton_append, quoteUnits_cons hh]
  · refine ⟨codePointUnits c.toNat, ?_, quoted_self (by omega) (by omega) (by omega)⟩
    have hh : isHighSurrogate (UInt16.ofNat (0xd800 + (c.toNat - 0x10000) / 0x400)) = true := by
      have he : (UInt16.ofNat (0xd800 + (c.toNat - 0x10000) / 0x400)).toNat =
          0xd800 + (c.toNat - 0x10000) / 0x400 := by
        rw [UInt16.toNat_ofNat']; omega
      simp only [isHighSurrogate, UInt16.le_iff_toNat_le, UInt16.lt_iff_toNat_lt, he,
        UInt16.reduceToNat, Bool.and_eq_true, decide_eq_true_eq]
      omega
    have hl : isLowSurrogate (UInt16.ofNat (0xdc00 + (c.toNat - 0x10000) % 0x400)) = true := by
      have he : (UInt16.ofNat (0xdc00 + (c.toNat - 0x10000) % 0x400)).toNat =
          0xdc00 + (c.toNat - 0x10000) % 0x400 := by
        rw [UInt16.toNat_ofNat']; omega
      simp only [isLowSurrogate, UInt16.le_iff_toNat_le, UInt16.lt_iff_toNat_lt, he,
        UInt16.reduceToNat, Bool.and_eq_true, decide_eq_true_eq]
      omega
    rw [codePointUnits, if_neg hn, List.cons_append, List.cons_append, List.nil_append,
      quoteUnits, hh, hl]
    rfl

/-- What is written between the quotes for a text. -/
theorem quoteUnits_text {t : JsString} (h : IsText t) :
    IsText (quoteUnits t) ∧ StringText (stringToUtf8 (quoteUnits t)) t := by
  obtain ⟨cs, rfl⟩ := h
  induction cs with
  | nil => exact ⟨isText_nil, .nil⟩
  | cons c cs ih =>
    obtain ⟨htext, hreads⟩ := ih
    obtain ⟨piece, heq, hpiece⟩ := quoteUnits_char c (utf16 cs)
    rw [utf16_cons, heq]
    refine ⟨hpiece.text.append htext, ?_⟩
    rw [hpiece.text.stringToUtf8_append htext]
    exact hpiece.reads hreads

/-- Nothing is escaped in ASCII between the quotation mark and the backslash. -/
theorem quoteUnits_plain {t : JsString} (h : ∀ u ∈ t, 0x22 < u ∧ u < 0x5c) : quoteUnits t = t := by
  induction t with
  | nil => rfl
  | cons u t ih =>
    obtain ⟨hlo, hhi⟩ := h u List.mem_cons_self
    rw [UInt16.lt_iff_toNat_lt] at hlo hhi
    have hne (x : UInt16) (hx : x.toNat ≤ 0x22 ∨ 0x5c ≤ x.toNat) : u ≠ x := by
      rintro rfl
      rcases hx with hx | hx
      · exact absurd hlo (Nat.not_lt.mpr hx)
      · exact absurd hhi (Nat.not_lt.mpr hx)
    have hsurrogate : isHighSurrogate u = false ∧ isLowSurrogate u = false := by
      simp only [UInt16.reduceToNat] at hhi
      simp only [isHighSurrogate, isLowSurrogate, UInt16.le_iff_toNat_le, UInt16.lt_iff_toNat_lt,
        UInt16.reduceToNat, Bool.and_eq_false_iff, decide_eq_false_iff_not]
      omega
    have hcontrol : ¬ (u < 0x20 ∨ isHighSurrogate u = true ∨ isLowSurrogate u = true) := by
      simp only [hsurrogate.1, hsurrogate.2, Bool.false_eq_true, or_false, UInt16.lt_iff_toNat_lt,
        UInt16.reduceToNat]
      simp only [UInt16.reduceToNat] at hlo
      omega
    have hunit : quoteUnit u = [u] := by
      rw [quoteUnit, if_neg (hne 0x22 (.inl (by decide))), if_neg (hne 0x5c (.inr (by decide))),
        if_neg (hne 0x08 (.inl (by decide))), if_neg (hne 0x0c (.inl (by decide))),
        if_neg (hne 0x0a (.inl (by decide))),
        if_neg (hne 0x0d (.inl (by decide))), if_neg (hne 0x09 (.inl (by decide))), if_neg hcontrol]
    rw [quoteUnits_cons hsurrogate.1, hunit, ih fun x hx => h x (List.mem_cons_of_mem u hx)]
    rfl

/-! ## Numbers -/

theorem intText_decimal (n : Nat) : IntText (decimal n) := by
  by_cases hn : n = 0
  · rw [hn]
    exact .zero
  · exact .digits ⟨decimal_ne_nil n, decimal_digits n⟩ (decimal_head hn)

theorem numberText_decimal (n : Nat) : NumberText (decimal n) := by
  have htext := NumberText.mk (.inl rfl) (intText_decimal n) .none .none
  rwa [List.append_nil, List.append_nil] at htext

/-- The bytes of a bigint's text. -/
def bigintBytes (v : Int) : Bytes := (if v < 0 then [0x2d] else []) ++ decimal v.natAbs

theorem bigintText_eq (v : Int) : bigintText v = latin1Decode (bigintBytes v) := by
  rw [bigintText, bigintBytes, latin1Decode_append]
  split_ifs <;> rfl

theorem numberText_bigint (v : Int) : NumberText (bigintBytes v) := by
  have hminus : (if v < 0 then [0x2d] else [] : Bytes) = [] ∨
      (if v < 0 then [0x2d] else [] : Bytes) = [0x2d] := by
    split_ifs
    · exact .inr rfl
    · exact .inl rfl
  have htext := NumberText.mk hminus (intText_decimal v.natAbs) .none .none
  rwa [List.append_nil, List.append_nil] at htext

theorem digits_ascii {s : Bytes} (h : Digits s) : ∀ b ∈ s, b < 0x80 :=
  fun b hb => IsDigitByte.ascii (h.2 b hb)

/-- A number is written in ASCII. -/
theorem numberText_ascii {s : Bytes} (h : NumberText s) : ∀ b ∈ s, b < 0x80 := by
  obtain @⟨minus, int, frac, exp, hm, hi, hf, he⟩ := h
  have hminus : ∀ b ∈ minus, b < 0x80 := by rcases hm with rfl | rfl <;> simp
  have hint : ∀ b ∈ int, b < 0x80 := by
    cases hi with
    | zero => simp
    | digits hd _ => exact digits_ascii hd
  have hfrac : ∀ b ∈ frac, b < 0x80 := by
    cases hf with
    | none => simp
    | digits hd => exact List.forall_mem_cons.mpr ⟨by decide, digits_ascii hd⟩
  have hexp : ∀ b ∈ exp, b < 0x80 := by
    cases he with
    | none => simp
    | @digits e sign s he hsign hd =>
      have hmark : e < 0x80 := by rcases he with rfl | rfl <;> decide
      have hs : ∀ b ∈ sign, b < 0x80 := by rcases hsign with rfl | rfl | rfl <;> simp
      exact List.forall_mem_append.mpr ⟨List.forall_mem_cons.mpr ⟨hmark, hs⟩, digits_ascii hd⟩
  exact List.forall_mem_append.mpr ⟨List.forall_mem_append.mpr ⟨List.forall_mem_append.mpr ⟨hminus,
    hint⟩, hfrac⟩, hexp⟩

end AgentService
