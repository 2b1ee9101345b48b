import AgentService.Gateway.JsonLeaves

/-!
# The reader's strings against the grammar

The slow path keeps a run of text it has not cut out yet. Such a run is always the encoding
of some characters, so cutting it out reads exactly these; with that the two paths accept
what `StringText` derives and give the text it names.
-/

namespace AgentService
open Lib

/-! ## Well-formed sequences -/

/-- A continuation byte in its bounds. -/
theorem cont_iff {s : Bytes} {k : Nat} {lo hi : UInt8} :
    cont s k lo hi = true ↔ ∃ x, s[k]? = some x ∧ Within lo.toNat hi.toNat x := by
  simp only [cont, List.head?_drop, Option.any_eq_true, Bool.and_eq_true, decide_eq_true_eq, Within,
    UInt8.le_iff_toNat_le]

/-- The bounds `validLength` has for a second byte, of three or of four. -/
theorem second_three {b : UInt8} (h : Within 0xe0 0xef b) :
    (if b = 0xe0 then (0xa0 : UInt8) else 0x80).toNat = secondLower b ∧
      (if b = 0xed then (0x9f : UInt8) else 0xbf).toNat = secondUpper b := by
  have h1 : b ≠ 0xf0 := by rintro rfl; exact absurd h (by decide)
  have h2 : b ≠ 0xf4 := by rintro rfl; exact absurd h (by decide)
  simp only [secondLower, secondUpper, h1, h2, if_false]
  constructor <;> split_ifs <;> rfl

theorem second_four {b : UInt8} (h : Within 0xf0 0xf4 b) :
    (if b = 0xf0 then (0x90 : UInt8) else 0x80).toNat = secondLower b ∧
      (if b = 0xf4 then (0x8f : UInt8) else 0xbf).toNat = secondUpper b := by
  have h1 : b ≠ 0xe0 := by rintro rfl; exact absurd h (by decide)
  have h2 : b ≠ 0xed := by rintro rfl; exact absurd h (by decide)
  simp only [secondLower, secondUpper, h1, h2, if_false]
  constructor <;> split_ifs <;> rfl

/-- ASCII. -/
theorem validLength_one {b : UInt8} (h : b.toNat < 0x80) (s : Bytes) : validLength (b :: s) = 1 :=
  if_pos (UInt8.lt_iff_toNat_lt.mpr h)

/-- A lead byte of two is judged by its continuation byte. -/
theorem validLength_two {b : UInt8} (h : Within 0xc2 0xdf b) (s : Bytes) :
    validLength (b :: s) = if cont (b :: s) 1 0x80 0xbf then 2 else 0 := by
  unfold Within at h
  unfold validLength
  simp only [UInt8.lt_iff_toNat_lt, UInt8.le_iff_toNat_le, UInt8.reduceToNat]
  rw [if_neg (by omega), if_pos h]

theorem validLength_three {b : UInt8} (h : Within 0xe0 0xef b) (s : Bytes) :
    validLength (b :: s) =
      if cont (b :: s) 1 (if b = 0xe0 then 0xa0 else 0x80) (if b = 0xed then 0x9f else 0xbf) &&
        cont (b :: s) 2 0x80 0xbf then 3 else 0 := by
  unfold Within at h
  unfold validLength
  simp only [UInt8.lt_iff_toNat_lt, UInt8.le_iff_toNat_le, UInt8.reduceToNat]
  rw [if_neg (by omega), if_neg (by omega), if_pos h]

theorem validLength_four {b : UInt8} (h : Within 0xf0 0xf4 b) (s : Bytes) :
    validLength (b :: s) =
      if cont (b :: s) 1 (if b = 0xf0 then 0x90 else 0x80) (if b = 0xf4 then 0x8f else 0xbf) &&
        cont (b :: s) 2 0x80 0xbf && cont (b :: s) 3 0x80 0xbf then 4 else 0 := by
  unfold Within at h
  unfold validLength
  simp only [UInt8.lt_iff_toNat_lt, UInt8.le_iff_toNat_le, UInt8.reduceToNat]
  rw [if_neg (by omega), if_neg (by omega), if_neg (by omega), if_pos h]

/-- Every other lead byte. -/
theorem validLength_none {b : UInt8} (h : ¬ b.toNat < 0x80) (h2 : ¬ Within 0xc2 0xdf b)
    (h3 : ¬ Within 0xe0 0xef b) (h4 : ¬ Within 0xf0 0xf4 b) (s : Bytes) :
    validLength (b :: s) = 0 := by
  unfold Within at h2 h3 h4
  unfold validLength
  simp only [UInt8.lt_iff_toNat_lt, UInt8.le_iff_toNat_le, UInt8.reduceToNat]
  rw [if_neg h, if_neg h2, if_neg h3, if_neg h4]

/-- A well-formed sequence is measured whatever follows it. -/
theorem validLength_append {bs : Bytes} (h : IsSequence bs) (t : Bytes) :
    validLength (bs ++ t) = bs.length := by
  cases h with
  | one h => exact validLength_one h t
  | @two b b₁ h h₁ =>
    have hc : cont (b :: b₁ :: t) 1 0x80 0xbf = true := cont_iff.mpr ⟨b₁, rfl, h₁⟩
    exact (validLength_two h _).trans (if_pos hc)
  | @three b b₁ b₂ h h₁ h₂ =>
    rw [← (second_three h).1, ← (second_three h).2] at h₁
    have hc₁ := cont_iff (s := b :: b₁ :: b₂ :: t) (k := 1) |>.mpr ⟨b₁, rfl, h₁⟩
    have hc₂ : cont (b :: b₁ :: b₂ :: t) 2 0x80 0xbf = true := cont_iff.mpr ⟨b₂, rfl, h₂⟩
    exact (validLength_three h _).trans (if_pos ((Bool.and_eq_true _ _).mpr ⟨hc₁, hc₂⟩))
  | @four b b₁ b₂ b₃ h h₁ h₂ h₃ =>
    rw [← (second_four h).1, ← (second_four h).2] at h₁
    have hc₁ := cont_iff (s := b :: b₁ :: b₂ :: b₃ :: t) (k := 1) |>.mpr ⟨b₁, rfl, h₁⟩
    have hc₂ : cont (b :: b₁ :: b₂ :: b₃ :: t) 2 0x80 0xbf = true := cont_iff.mpr ⟨b₂, rfl, h₂⟩
    have hc₃ : cont (b :: b₁ :: b₂ :: b₃ :: t) 3 0x80 0xbf = true := cont_iff.mpr ⟨b₃, rfl, h₃⟩
    have hc₁₂ := (Bool.and_eq_true _ _).mpr ⟨hc₁, hc₂⟩
    exact (validLength_four h _).trans (if_pos ((Bool.and_eq_true _ _).mpr ⟨hc₁₂, hc₃⟩))

theorem of_ite_pos {c : Prop} [Decidable c] {n : Nat} (h : 0 < if c then n else 0) : c := by
  by_contra hc
  rw [if_neg hc] at h
  exact Nat.lt_irrefl _ h

/-- Where `validLength` finds a sequence there is one. -/
theorem isSequence_of_validLength {s : Bytes} (h : 0 < validLength s) :
    ∃ bs t, s = bs ++ t ∧ IsSequence bs := by
  cases s with
  | nil => exact absurd h (Nat.lt_irrefl _)
  | cons b s =>
    by_cases hone : b.toNat < 0x80
    · exact ⟨[b], s, rfl, .one hone⟩
    by_cases htwo : Within 0xc2 0xdf b
    · rw [validLength_two htwo] at h
      obtain ⟨x, hx, hw⟩ := cont_iff.mp (of_ite_pos h)
      match s, hx with
      | b₁ :: s, hx =>
        cases hx
        exact ⟨[b, x], s, rfl, .two htwo hw⟩
    by_cases hthree : Within 0xe0 0xef b
    · rw [validLength_three hthree] at h
      have hc := (Bool.and_eq_true _ _).mp (of_ite_pos h)
      obtain ⟨x, hx, hw⟩ := cont_iff.mp hc.1
      obtain ⟨y, hy, hw'⟩ := cont_iff.mp hc.2
      rw [(second_three hthree).1, (second_three hthree).2] at hw
      match s, hx, hy with
      | b₁ :: b₂ :: s, hx, hy =>
        cases hx
        cases hy
        exact ⟨[b, x, y], s, rfl, .three hthree hw hw'⟩
    by_cases hfour : Within 0xf0 0xf4 b
    · rw [validLength_four hfour] at h
      have hc := (Bool.and_eq_true _ _).mp (of_ite_pos h)
      have hc' := (Bool.and_eq_true _ _).mp hc.1
      obtain ⟨x, hx, hw⟩ := cont_iff.mp hc'.1
      obtain ⟨y, hy, hw'⟩ := cont_iff.mp hc'.2
      obtain ⟨z, hz, hw''⟩ := cont_iff.mp hc.2
      rw [(second_four hfour).1, (second_four hfour).2] at hw
      match s, hx, hy, hz with
      | b₁ :: b₂ :: b₃ :: s, hx, hy, hz =>
        cases hx
        cases hy
        cases hz
        exact ⟨[b, x, y, z], s, rfl, .four hfour hw hw' hw''⟩
    · rw [validLength_none hone htwo hthree hfour] at h
      exact absurd h (Nat.lt_irrefl _)

/-- `validLength` in terms of characters. -/
theorem validLength_encodeChar (c : Char) (t : Bytes) :
    validLength (String.utf8EncodeChar c ++ t) = (String.utf8EncodeChar c).length :=
  validLength_append (isSequence_encodeChar c) t

/-- `validLength` finds a sequence exactly where one starts. -/
theorem validLength_pos {s : Bytes} : 0 < validLength s ↔ StartsWellFormed s := by
  constructor
  · intro h
    obtain ⟨bs, t, rfl, hbs⟩ := isSequence_of_validLength h
    obtain ⟨c, rfl⟩ := hbs.exists_char
    exact ⟨c, t, rfl⟩
  · rintro ⟨c, t, rfl⟩
    rw [validLength_encodeChar, String.length_utf8EncodeChar]
    exact c.utf8Size_pos

/-! ## Escapes -/

/-- The one-letter escapes are the grammar's. -/
theorem escapes_eq_some {e : UInt8} {u : UInt16} : escapes e = some u ↔ (e, u) ∈ shortEscapes := by
  constructor
  · intro h
    unfold escapes at h
    split_ifs at h with h1 h2 h3 h4 h5 h6 h7 h8 <;> cases h <;> subst e <;> decide
  · intro h
    simp only [shortEscapes, List.mem_cons, List.not_mem_nil, or_false, Prod.mk.injEq] at h
    rcases h with ⟨rfl, rfl⟩ | ⟨rfl, rfl⟩ | ⟨rfl, rfl⟩ | ⟨rfl, rfl⟩ | ⟨rfl, rfl⟩ | ⟨rfl, rfl⟩ |
      ⟨rfl, rfl⟩ | ⟨rfl, rfl⟩ <;> rfl

theorem short_ne_u {e : UInt8} {u : UInt16} (h : (e, u) ∈ shortEscapes) : e ≠ 0x75 := by
  rintro rfl
  exact absurd (escapes_eq_some.mpr h) (by simp [escapes])

/-- Four hex digits are read whatever follows. -/
theorem hex4_append {hex : Bytes} {n : Nat} (h : HexText hex n) (s : Bytes) :
    hex4 (hex ++ s) = .ok n := by
  obtain ⟨ha, hb, hc, hd⟩ := h
  simp [hex4, hexLoop, ha, hb, hc, hd]

theorem hexLoop_ok {k v n : Nat} {s : Bytes} (h : hexLoop (k + 1) v s = .ok n) :
    ∃ c d s', s = c :: s' ∧ hexValue c = some d ∧ hexLoop k (v * 16 + d) s' = .ok n := by
  cases s with
  | nil => exact absurd (show fail _ [] = _ from h) fail_ne_ok
  | cons c s =>
    unfold hexLoop at h
    split at h
    · rename_i d hd
      exact ⟨c, d, s, rfl, hd, h⟩
    · exact absurd h fail_ne_ok

/-- And what is read are four hex digits. -/
theorem hex4_ok {s : Bytes} {n : Nat} (h : hex4 s = .ok n) :
    ∃ hex t, s = hex ++ t ∧ HexText hex n := by
  obtain ⟨a, x, s, rfl, ha, h⟩ := hexLoop_ok h
  obtain ⟨b, y, s, rfl, hb, h⟩ := hexLoop_ok h
  obtain ⟨c, z, s, rfl, hc, h⟩ := hexLoop_ok h
  obtain ⟨d, w, s, rfl, hd, h⟩ := hexLoop_ok h
  cases h
  refine ⟨[a, b, c, d], s, rfl, ?_⟩
  rw [Nat.zero_mul, Nat.zero_add]
  exact .mk ha hb hc hd

theorem HexText.length {hex : Bytes} {n : Nat} (h : HexText hex n) : hex.length = 4 := by
  cases h
  rfl

theorem hexValue_lt {b : UInt8} {n : Nat} (h : hexValue b = some n) : n < 16 :=
  forall_byte (p := fun b => ∀ n, hexValue b = some n → n < 16) (by
    intro k hk n hn
    have hd : ∀ k < 256, (hexValue (UInt8.ofNat k)).all (· < 16) = true := by decide +kernel
    have hall := hd k hk
    rw [hn] at hall
    simpa using hall) b n h

theorem HexText.lt {hex : Bytes} {n : Nat} (h : HexText hex n) : n < 0x10000 := by
  obtain ⟨ha, hb, hc, hd⟩ := h
  have h1 := hexValue_lt ha
  have h2 := hexValue_lt hb
  have h3 := hexValue_lt hc
  have h4 := hexValue_lt hd
  omega

/-- What the four digits write is written by no others. -/
theorem HexText.unique {hex hex' s s' : Bytes} {n n' : Nat} (h : HexText hex n)
    (h' : HexText hex' n') (heq : hex ++ s = hex' ++ s') : n = n' :=
  Except.ok.inj ((hex4_append h s).symm.trans ((congrArg hex4 heq).trans (hex4_append h' s')))

theorem fromCodePoint_ok {n : Nat} (h : n < 0x110000) : fromCodePoint n = .ok (codePointUnits n) :=
  if_pos (Nat.le_of_lt_succ h)

/-- A surrogate pair is one code point of the astral planes. -/
theorem fromCodePoint_pair {hi lo : Nat} (hhi : IsHigh hi) (hlo : IsLow lo) :
    fromCodePoint (pairCodePoint hi lo) = .ok (codePointUnits (pairCodePoint hi lo)) := by
  apply fromCodePoint_ok
  unfold IsHigh at hhi
  unfold IsLow at hlo
  unfold pairCodePoint
  omega

/-- The escape behind a high surrogate is taken only if it is a low one. -/
theorem lowEscape_ok {n : Nat} {s : Bytes} {low : Option Nat} (h : lowEscape n s = .ok low) :
    (∃ hex lo t, low = some lo ∧ n < 0xdc00 ∧ s = 0x5c :: 0x75 :: hex ++ t ∧
        HexText hex lo ∧ IsLow lo) ∨
      low = none ∧ (n < 0xdc00 → ¬ StartsLow s) := by
  unfold lowEscape at h
  split_ifs at h with hc
  · obtain ⟨hn, h0, h1⟩ := hc
    obtain ⟨lo, hlo, hlow⟩ := bind_eq_ok.mp h
    obtain rfl := Except.ok.inj hlow
    obtain ⟨s, rfl⟩ : ∃ t, s = 0x5c :: 0x75 :: t := by
      match s, h0, h1 with
      | _ :: _ :: t, h0, h1 =>
        cases h0
        cases h1
        exact ⟨t, rfl⟩
    obtain ⟨hex, t, rfl, hhex⟩ := hex4_ok hlo
    split_ifs with hlow
    · exact .inl ⟨hex, lo, t, rfl, hn, rfl, hhex, hlow⟩
    · refine .inr ⟨rfl, fun _ => ?_⟩
      rintro ⟨hex', n', t', heq, hhex', hlow'⟩
      have heq' : hex ++ t = hex' ++ t' := by simpa using heq
      rw [HexText.unique hhex hhex' heq'] at hlow
      exact hlow hlow'
  · cases h
    refine .inr ⟨rfl, fun hn => ?_⟩
    rintro ⟨hex, n', t, rfl, -, -⟩
    exact hc ⟨hn, rfl, rfl⟩

/-- What stands behind a backslash and a `u`, and the text it gives. -/
inductive UnicodeEscape : Bytes → Bytes → JsString → Prop
  | unicode {hex n} (s : Bytes) (hx : HexText hex n) (hn : ¬ IsHigh n ∧ ¬ IsLow n) :
      UnicodeEscape (hex ++ s) s (codePointUnits n)
  | pair {hex hex' hi lo} (s : Bytes) (hx : HexText hex hi) (hhi : IsHigh hi)
      (hx' : HexText hex' lo) (hlo : IsLow lo) :
      UnicodeEscape (hex ++ 0x5c :: 0x75 :: hex' ++ s) s (codePointUnits (pairCodePoint hi lo))
  | lone {hex n} (s : Bytes) (hx : HexText hex n) (hn : IsHigh n ∧ ¬ StartsLow s ∨ IsLow n) :
      UnicodeEscape (hex ++ s) s [0xfffd]

/-- What `unicodeEscape` accepts is an escape of the grammar. -/
theorem unicodeEscape_ok {s after : Bytes} {text : JsString}
    (h : unicodeEscape (0x5c :: 0x75 :: s) = .ok (text, after)) : UnicodeEscape s after text := by
  unfold unicodeEscape at h
  obtain ⟨n, hn, h⟩ := bind_eq_ok.mp h
  obtain ⟨hex, s, rfl, hx⟩ := hex4_ok hn
  have hdrop : List.drop 6 (0x5c :: 0x75 :: (hex ++ s)) = s := by
    rw [List.drop_succ_cons, List.drop_succ_cons, ← hx.length, List.drop_left]
  rw [hdrop] at h
  split_ifs at h with hsurrogate
  · obtain ⟨low, hlow, h⟩ := bind_eq_ok.mp h
    rcases lowEscape_ok hlow with ⟨hex', lo, t, rfl, hhi, rfl, hx', hlo⟩ | ⟨rfl, hnot⟩
    · have hpair : IsHigh n := ⟨hsurrogate.1, hhi⟩
      dsimp only at h
      rw [fromCodePoint_pair hpair hlo] at h
      obtain ⟨rfl, rfl⟩ := Prod.mk.inj (Except.ok.inj h)
      have hdrop' : List.drop 12 (0x5c :: 0x75 :: (hex ++ (0x5c :: 0x75 :: hex' ++ t))) = t := by
        have h12 : 12 = 2 + (hex.length + (2 + hex'.length)) := by rw [hx.length, hx'.length]
        rw [h12, ← List.drop_drop, ← List.drop_drop, ← List.drop_drop]
        simp
      rw [hdrop', ← List.append_assoc]
      exact .pair t hx hpair hx' hlo
    · dsimp only at h
      rw [fromCodePoint_ok (by decide)] at h
      obtain ⟨rfl, rfl⟩ := Prod.mk.inj (Except.ok.inj h)
      refine .lone _ hx ?_
      by_cases hhi : n < 0xdc00
      · exact .inl ⟨⟨hsurrogate.1, hhi⟩, hnot hhi⟩
      · exact .inr ⟨Nat.le_of_not_lt hhi, hsurrogate.2⟩
  · rw [fromCodePoint_ok (Nat.lt_trans hx.lt (by decide))] at h
    cases h
    exact .unicode _ hx ⟨fun hc => hsurrogate ⟨hc.1, Nat.lt_trans hc.2 (by decide)⟩,
      fun hc => hsurrogate ⟨Nat.le_trans (by decide) hc.1, hc.2⟩⟩

theorem lowEscape_low {n lo : Nat} (hn : IsHigh n) {hex : Bytes} (hx : HexText hex lo)
    (hlo : IsLow lo) (s : Bytes) : lowEscape n (0x5c :: 0x75 :: hex ++ s) = .ok (some lo) := by
  have hdrop : List.drop 2 (0x5c :: 0x75 :: hex ++ s) = hex ++ s := rfl
  rw [lowEscape, if_pos ⟨hn.2, rfl, rfl⟩, hdrop, hex4_append hx, ok_bind]
  exact congrArg Except.ok (if_pos hlo)

/-- And every escape of the grammar is accepted, if no low one is found behind a high surrogate. -/
theorem unicodeEscape_of {s after : Bytes} {text : JsString} (h : UnicodeEscape s after text)
    (hnext : ∀ n, IsHigh n → ¬ StartsLow after → lowEscape n after = .ok none) :
    unicodeEscape (0x5c :: 0x75 :: s) = .ok (text, after) := by
  have hdrop : ∀ {hex : Bytes} {n : Nat} (s : Bytes), HexText hex n →
      List.drop 6 (0x5c :: 0x75 :: (hex ++ s)) = s := by
    intro hex n s hx
    rw [List.drop_succ_cons, List.drop_succ_cons, ← hx.length, List.drop_left]
  have hdrop2 : ∀ s : Bytes, List.drop 2 (0x5c :: 0x75 :: s) = s := fun _ => rfl
  cases h with
  | unicode _ hx hn =>
    rw [unicodeEscape, hdrop2, hex4_append hx, ok_bind, if_neg, hdrop after hx,
      fromCodePoint_ok (Nat.lt_trans hx.lt (by decide))]
    · rfl
    · unfold IsHigh IsLow at hn
      omega
  | @pair hex hex' hi lo _ hx hhi hx' hlo =>
    have hsurrogate : 0xd800 ≤ hi ∧ hi < 0xe000 := ⟨hhi.1, Nat.lt_trans hhi.2 (by decide)⟩
    have hdrop12 : List.drop 12 (0x5c :: 0x75 :: (hex ++ (0x5c :: 0x75 :: hex' ++ after))) =
        after := by
      have h12 : 12 = 2 + (hex.length + (2 + hex'.length)) := by rw [hx.length, hx'.length]
      rw [h12, ← List.drop_drop, ← List.drop_drop, ← List.drop_drop]
      simp
    rw [unicodeEscape, hdrop2, List.append_assoc, hex4_append hx, ok_bind,
      if_pos hsurrogate, hdrop _ hx, lowEscape_low hhi hx' hlo, ok_bind]
    dsimp only
    rw [hdrop12, fromCodePoint_pair hhi hlo]
    rfl
  | @lone hex n _ hx hn =>
    have hsurrogate : 0xd800 ≤ n ∧ n < 0xe000 := by
      unfold IsHigh IsLow at hn
      omega
    have hlow : lowEscape n after = .ok none := by
      rcases hn with ⟨hhi, hnot⟩ | hlo
      · exact hnext n hhi hnot
      · exact if_neg fun hc => absurd hc.1 (Nat.not_lt.mpr hlo.1)
    rw [unicodeEscape, hdrop2, hex4_append hx, ok_bind, if_pos hsurrogate, hdrop after hx,
      hlow, ok_bind]
    rfl

/-! ## The slow path -/

/-- One turn of the slow path that goes on. -/
inductive StrStep (st : StrState) : Bytes → StrState → Prop
  | char (c : Char) (hc : 0x20 ≤ c.toNat) (hq : c.toNat ≠ 0x22) (hb : c.toNat ≠ 0x5c) (s : Bytes) :
      StrStep st (String.utf8EncodeChar c ++ s) ⟨st.parts, st.run ++ String.utf8EncodeChar c, s⟩
  | stray {b s} (hb : 0x80 ≤ b) (hs : ¬ StartsWellFormed (b :: s)) :
      StrStep st (b :: s) ⟨st.flush ++ [0xfffd], [], s⟩
  | short {e u} (s : Bytes) (he : (e, u) ∈ shortEscapes) :
      StrStep st (0x5c :: e :: s) ⟨st.flush ++ [u], [], s⟩
  | unicode {s text after} (h : unicodeEscape (0x5c :: 0x75 :: s) = .ok (text, after)) :
      StrStep st (0x5c :: 0x75 :: s) ⟨st.flush ++ text, [], after⟩

/-- A turn of the slow path is a step of the grammar. -/
theorem strStep_of_turn {st st' : StrState} (h : strTurn st () = .again st') :
    StrStep st st.rest st' := by
  unfold strTurn at h
  split at h
  · cases h
  · rename_i c rest hrest
    rw [hrest]
    split at h
    · cases h
    rename_i hquote
    split at h
    · cases h
    rename_i hcontrol
    split at h
    · rename_i hslash
      split at h
      · cases h
      · rename_i e rest'
        subst hslash
        split at h
        · rename_i hu
          subst hu
          split at h
          · cases h
          · rename_i text after hesc
            cases h
            exact .unicode hesc
        · split at h
          · rename_i u hu
            cases h
            exact .short rest' (escapes_eq_some.mp hu)
          · cases h
    · rename_i hslash
      simp only [UInt8.not_lt, UInt8.le_iff_toNat_le, ← UInt8.toNat_inj,
        UInt8.reduceToNat] at hcontrol hquote hslash
      split at h
      · rename_i hascii
        cases h
        obtain ⟨ch, hn, henc⟩ := encodeChar_ascii hascii
        rw [← hn] at hcontrol hquote hslash
        have hstep : StrStep st _ _ := .char ch hcontrol hquote hslash rest
        rwa [henc] at hstep
      · rename_i hascii
        split at h
        · rename_i hvalid
          obtain ⟨ch, t, heq⟩ := validLength_pos.mp hvalid
          rw [heq, validLength_encodeChar, List.take_left, List.drop_left] at h
          cases h
          rw [heq]
          obtain ⟨b, bs, henc, ⟨hlt, -, hb⟩ | ⟨hge, -⟩⟩ := encodeChar_head ch
          · rw [henc] at heq
            cases heq
            rw [hb] at hcontrol hquote hslash
            exact .char ch hcontrol hquote hslash t
          · exact .char ch (by omega) (by omega) (by omega) t
        · rename_i hvalid
          cases h
          exact .stray (UInt8.not_lt.mp hascii) fun hs => hvalid (validLength_pos.mpr hs)

/-- A byte above 0x7f is no quote, no backslash and no control character. -/
theorem high_ne {b : UInt8} (h : 0x80 ≤ b) : b ≠ 0x22 ∧ b ≠ 0x5c ∧ ¬ b < 0x20 := by
  rw [UInt8.not_lt]
  refine ⟨?_, ?_, UInt8.le_trans (by decide) h⟩
  · rintro rfl
    exact absurd h (by decide)
  · rintro rfl
    exact absurd h (by decide)

/-- And a step of the grammar is a turn. -/
theorem turn_of_strStep {st st' : StrState} (h : StrStep st st.rest st') :
    strTurn st () = .again st' := by
  generalize hrest : st.rest = rest at h
  unfold strTurn
  rw [hrest]
  cases h with
  | char c hc hq hb s =>
    obtain ⟨b, bs, henc, ⟨hlt, rfl, hn⟩ | ⟨hge, hhigh⟩⟩ := encodeChar_head c
    · have h1 : b ≠ 0x22 := fun h => hq (by rw [← hn, h]; rfl)
      have h2 : b ≠ 0x5c := fun h => hb (by rw [← hn, h]; rfl)
      have h3 : ¬ b < 0x20 := by rw [UInt8.not_lt, UInt8.le_iff_toNat_le, hn]; exact hc
      have h4 : b < 0x80 := by rw [UInt8.lt_iff_toNat_lt, hn]; exact hlt
      rw [henc, List.cons_append]
      dsimp only
      rw [if_neg h1, if_neg h3, if_neg h2, if_pos h4]
      rfl
    · obtain ⟨h1, h2, h3⟩ := high_ne hhigh
      have hvalid := validLength_encodeChar c s
      have hpos : 0 < validLength (String.utf8EncodeChar c ++ s) := validLength_pos.mpr ⟨c, s, rfl⟩
      rw [henc, List.cons_append] at hvalid hpos ⊢
      dsimp only
      rw [if_neg h1, if_neg h3, if_neg h2, if_neg (UInt8.not_lt.mpr hhigh), if_pos hpos, hvalid]
      simp
  | @stray b s hb hs =>
    obtain ⟨h1, h2, h3⟩ := high_ne hb
    dsimp only
    rw [if_neg h1, if_neg h3, if_neg h2, if_neg (UInt8.not_lt.mpr hb),
      if_neg (mt validLength_pos.mp hs)]
  | short s he =>
    dsimp only
    rw [if_neg (by decide), if_neg (by decide), if_pos rfl, if_neg (short_ne_u he),
      escapes_eq_some.mpr he]
  | unicode hesc =>
    dsimp only
    rw [if_neg (by decide), if_neg (by decide), if_pos rfl, if_pos rfl, hesc]

/-- The slow path is over at a quote, with what it has. -/
theorem strTurn_done_ok {st : StrState} {v : JsString} {rest : Bytes} :
    strTurn st () = .done (.ok (v, rest)) ↔ st.rest = 0x22 :: rest ∧ v = st.flush := by
  constructor
  · intro h
    unfold strTurn at h
    split at h
    · simp at h
    · rename_i c s hrest
      split_ifs at h with hquote
      · cases h
        exact ⟨hquote ▸ hrest, rfl⟩
      · simp at h
      · split at h
        · simp at h
        · split_ifs at h
          · split at h <;> cases h
          · split at h <;> simp at h
  · rintro ⟨hrest, rfl⟩
    rw [strTurn, hrest]
    rfl

theorem startsWellFormed_append {s : Bytes} (h : StartsWellFormed s) (t : Bytes) :
    StartsWellFormed (s ++ t) := by
  obtain ⟨c, s', rfl⟩ := h
  exact ⟨c, s' ++ t, List.append_assoc _ _ _⟩

theorem startsLow_append {s : Bytes} (h : StartsLow s) (t : Bytes) : StartsLow (s ++ t) := by
  obtain ⟨hex, n, s', rfl, hx⟩ := h
  exact ⟨hex, n, s' ++ t, by simp, hx⟩

/-- An escape in front of a string's text is part of that text. -/
theorem stringText_escape {s body t : Bytes} {text v : JsString}
    (h : UnicodeEscape s (body ++ t) text) (hv : StringText body v) :
    ∃ s', s = s' ++ t ∧ StringText (0x5c :: 0x75 :: s') (text ++ v) := by
  generalize hafter : body ++ t = after at h
  cases h with
  | @unicode hex n _ hx hn =>
    subst hafter
    exact ⟨hex ++ body, by simp, .unicode hx hn hv⟩
  | @pair hex hex' hi lo _ hx hhi hx' hlo =>
    subst hafter
    exact ⟨hex ++ 0x5c :: 0x75 :: hex' ++ body, by simp, .pair hx hhi hx' hlo hv⟩
  | @lone hex n _ hx hn =>
    subst hafter
    exact ⟨hex ++ body, by simp,
      .lone hx (hn.imp_left fun h => ⟨h.1, fun hl => h.2 (startsLow_append hl t)⟩) hv⟩

/-- What the slow path reads is a string's text, behind the run it starts with. -/
theorem strSlow_ok {st : StrState} {v : JsString} {rest : Bytes}
    (h : strSlow.result st = .ok (v, rest)) :
    ∀ cs, st.run = utf8Encode cs → ∃ body v', st.rest = body ++ 0x22 :: rest ∧ StringText body v' ∧
      v = st.parts ++ utf16 cs ++ v' := by
  refine Loop.result_induction (L := strSlow) (P := fun st r => r = .ok (v, rest) → ∀ cs,
    st.run = utf8Encode cs →
    ∃ body v', st.rest = body ++ 0x22 :: rest ∧ StringText body v' ∧
      v = st.parts ++ utf16 cs ++ v') ?_ ?_ st h
  · rintro st _ hturn rfl cs hrun
    obtain ⟨hrest, rfl⟩ := strTurn_done_ok.mp hturn
    exact ⟨[], [], hrest, .nil, by rw [StrState.flush, hrun, utf8ToString_encode, List.append_nil]⟩
  · intro st st' hturn ih hr cs hrun
    have hflush : st.flush = st.parts ++ utf16 cs := by
      rw [StrState.flush, hrun, utf8ToString_encode]
    have hstep := strStep_of_turn hturn
    generalize st.rest = bytes at hstep
    cases hstep with
    | char c hc hq hb s =>
      obtain ⟨body, v', rfl, hv, rfl⟩ := ih hr (cs ++ [c]) (by simp [hrun])
      exact ⟨String.utf8EncodeChar c ++ body, codePointUnits c.toNat ++ v', by simp,
        .char c hc hq hb hv, by simp⟩
    | @stray b s hb hs =>
      obtain ⟨body, v', rfl, hv, rfl⟩ := ih hr [] rfl
      refine ⟨b :: body, 0xfffd :: v', rfl,
        .stray hb (fun h => hs (startsWellFormed_append h _)) hv, ?_⟩
      simp [hflush]
    | @short e u s he =>
      obtain ⟨body, v', rfl, hv, rfl⟩ := ih hr [] rfl
      exact ⟨0x5c :: e :: body, u :: v', rfl, .short he hv, by simp [hflush]⟩
    | @unicode s text after hesc =>
      obtain ⟨body, v', rfl, hv, rfl⟩ := ih hr [] rfl
      obtain ⟨s', rfl, hs'⟩ := stringText_escape (unicodeEscape_ok hesc) hv
      exact ⟨0x5c :: 0x75 :: s', text ++ v', rfl, hs', by simp [hflush]⟩

/-- The quote behind a string's text is part of no sequence. -/
theorem startsWellFormed_quote {b : UInt8} {s rest : Bytes}
    (h : StartsWellFormed (b :: s ++ 0x22 :: rest)) : StartsWellFormed (b :: s) := by
  obtain ⟨c, t, heq⟩ := h
  rcases List.append_eq_append_iff.mp heq with ⟨as, hc, hquote⟩ | ⟨as, hs, -⟩
  · cases as with
    | nil => exact ⟨c, [], by simpa using hc.symm⟩
    | cons a as =>
      cases hquote
      -- the quote would be a continuation byte
      have hmem : (0x22 : UInt8) ∈ utf8Encode [c] := by simp [utf8Encode, hc]
      have hascii := mem_utf8Encode_ascii (by decide) hmem
      rw [List.mem_singleton] at hascii
      have hlen : (String.utf8EncodeChar c).length = 1 := by rw [← hascii]; rfl
      rw [hc] at hlen
      simp at hlen
  · exact ⟨c, as, hs⟩

theorem lowEscape_none {n : Nat} {s : Bytes}
    (h : ¬ (s.head? = some 0x5c ∧ s.tail.head? = some 0x75)) : lowEscape n s = .ok none :=
  if_neg fun hc => h hc.2

theorem lowEscape_notLow {n m : Nat} {hex : Bytes} (hx : HexText hex m) (hm : ¬ IsLow m)
    (s : Bytes) : lowEscape n (0x5c :: 0x75 :: hex ++ s) = .ok none := by
  unfold lowEscape
  split_ifs
  · have hdrop : List.drop 2 (0x5c :: 0x75 :: hex ++ s) = hex ++ s := rfl
    rw [hdrop, hex4_append hx, ok_bind]
    exact congrArg Except.ok (if_neg hm)
  · rfl

/-- Behind a high surrogate the reader looks for a low one only where one is written out. -/
theorem lowEscape_stringText {body : Bytes} {v : JsString} (h : StringText body v)
    (hlow : ¬ StartsLow body) (n : Nat) (rest : Bytes) :
    lowEscape n (body ++ 0x22 :: rest) = .ok none := by
  cases h with
  | nil => exact lowEscape_none (by simp)
  | char c hc hq hb hv =>
    refine lowEscape_none fun hc' => ?_
    obtain ⟨b, bs, henc, ⟨-, -, hn⟩ | ⟨-, hhigh⟩⟩ := encodeChar_head c
    · rw [henc] at hc'
      cases hc'.1
      exact hb hn.symm
    · rw [henc] at hc'
      cases hc'.1
      exact (high_ne hhigh).2.1 rfl
  | stray hb hs hv =>
    refine lowEscape_none fun hc' => ?_
    cases hc'.1
    exact (high_ne hb).2.1 rfl
  | short he hv =>
    refine lowEscape_none fun hc' => ?_
    cases hc'.2
    exact short_ne_u he rfl
  | unicode hx hn hv =>
    rw [List.append_assoc]
    exact lowEscape_notLow hx hn.2 _
  | pair hx hhi hx' hlo hv =>
    rw [List.append_assoc, List.append_assoc]
    exact lowEscape_notLow hx (fun hl => absurd hhi.2 (Nat.not_lt.mpr hl.1)) _
  | lone hx hn hv =>
    rw [List.append_assoc]
    refine lowEscape_notLow hx (fun hl => hlow ⟨_, _, _, rfl, hx, hl⟩) _

/-- A step does not change what the string comes to. -/
theorem strSlow_step {st st' : StrState} (h : StrStep st st.rest st') :
    strSlow.result st = strSlow.result st' :=
  Loop.result_again (turn_of_strStep h)

/-- Kept bytes that are UTF-8 are flushed as their characters. -/
theorem flush_encoded (parts : JsString) (cs : List Char) (s : Bytes) :
    StrState.flush ⟨parts, utf8Encode cs, s⟩ = parts ++ utf16 cs := by
  rw [StrState.flush, utf8ToString_encode]

theorem not_startsLow_quote {body : Bytes} {v : JsString} (h : StringText body v)
    (hlow : ¬ StartsLow body) (rest : Bytes) : ¬ StartsLow (body ++ 0x22 :: rest) := by
  rintro ⟨hex, n, t, heq, hx, hn⟩
  have hhigh : IsHigh 0xd800 := ⟨Nat.le_refl _, by decide⟩
  have hnone := lowEscape_stringText h hlow 0xd800 rest
  rw [heq, lowEscape_low hhigh hx hn] at hnone
  cases hnone

/-- An escape in front of a string's text is read as one. -/
theorem strSlow_escape {s body rest : Bytes} {text v : JsString} (h : StringText body v)
    (hesc : UnicodeEscape s (body ++ 0x22 :: rest) text) (parts : JsString) (cs : List Char) :
    strSlow.result ⟨parts, utf8Encode cs, 0x5c :: 0x75 :: s⟩ =
      strSlow.result ⟨parts ++ utf16 cs ++ text, utf8Encode [], body ++ 0x22 :: rest⟩ := by
  rw [← flush_encoded parts cs (0x5c :: 0x75 :: s)]
  refine strSlow_step (.unicode (unicodeEscape_of hesc fun n _ hnot => ?_))
  exact lowEscape_stringText h (fun hl => hnot (startsLow_append hl _)) n rest

theorem strSlow_done {st : StrState} {r : Except Thrown (JsString × Bytes)}
    (h : strTurn st () = .done r) : strSlow.result st = r :=
  Loop.result_done (L := strSlow) h

/-- The slow path reads every string's text. -/
theorem strSlow_append {body : Bytes} {v : JsString} (h : StringText body v) :
    ∀ (parts : JsString) (cs : List Char) (rest : Bytes),
      strSlow.result ⟨parts, utf8Encode cs, body ++ 0x22 :: rest⟩ =
        .ok (parts ++ utf16 cs ++ v, rest) := by
  induction h with
  | nil =>
    intro parts cs rest
    rw [List.nil_append, strSlow_done (strTurn_done_ok.mpr ⟨rfl, rfl⟩), flush_encoded,
      List.append_nil]
  | @char s v c hc hq hb hv ih =>
    intro parts cs rest
    rw [List.append_assoc, strSlow_step (.char c hc hq hb _)]
    have hrun : utf8Encode cs ++ String.utf8EncodeChar c = utf8Encode (cs ++ [c]) := by simp
    rw [hrun, ih]
    simp
  | @stray b s v hb hs hv ih =>
    intro parts cs rest
    rw [List.cons_append, strSlow_step (.stray hb fun h => hs (startsWellFormed_quote h)),
      flush_encoded]
    refine (ih _ [] rest).trans ?_
    simp
  | @short e u s v he hv ih =>
    intro parts cs rest
    rw [List.cons_append, List.cons_append, strSlow_step (.short _ he), flush_encoded]
    refine (ih _ [] rest).trans ?_
    simp
  | @unicode hex n s v hx hn hv ih =>
    intro parts cs rest
    have hesc : UnicodeEscape (hex ++ (s ++ 0x22 :: rest)) (s ++ 0x22 :: rest) (codePointUnits n) :=
      .unicode _ hx hn
    have heq : 0x5c :: 0x75 :: hex ++ s ++ 0x22 :: rest =
      0x5c :: 0x75 :: (hex ++ (s ++ 0x22 :: rest)) := by simp
    rw [heq, strSlow_escape hv hesc, ih]
    simp
  | @pair hex hex' hi lo s v hx hhi hx' hlo hv ih =>
    intro parts cs rest
    have hesc := UnicodeEscape.pair (s ++ 0x22 :: rest) hx hhi hx' hlo
    have heq : 0x5c :: 0x75 :: hex ++ 0x5c :: 0x75 :: hex' ++ s ++ 0x22 :: rest =
        0x5c :: 0x75 :: (hex ++ 0x5c :: 0x75 :: hex' ++ (s ++ 0x22 :: rest)) := by simp
    rw [heq, strSlow_escape hv hesc, ih]
    simp
  | @lone hex n s v hx hn hv ih =>
    intro parts cs rest
    have hesc : UnicodeEscape (hex ++ (s ++ 0x22 :: rest)) (s ++ 0x22 :: rest) [0xfffd] :=
      .lone _ hx (hn.imp_left fun h => ⟨h.1, not_startsLow_quote hv h.2 rest⟩)
    have heq : 0x5c :: 0x75 :: hex ++ s ++ 0x22 :: rest =
      0x5c :: 0x75 :: (hex ++ (s ++ 0x22 :: rest)) := by simp
    rw [heq, strSlow_escape hv hesc, ih]
    simp

/-! ## Strings -/

/-- A byte of the fast path is a character of its own. -/
theorem isFast_char {b : UInt8} (h : isFast b = true) : ∃ c : Char, String.utf8EncodeChar c = [b] ∧
    codePointUnits c.toNat = [b.toUInt16] ∧ 0x20 ≤ c.toNat ∧ c.toNat ≠ 0x22 ∧ c.toNat ≠ 0x5c := by
  simp only [isFast, Bool.and_eq_true, decide_eq_true_eq, bne_iff_ne, ne_eq] at h
  obtain ⟨⟨⟨hlow, hascii⟩, hquote⟩, hslash⟩ := h
  obtain ⟨c, hn, henc⟩ := encodeChar_ascii hascii
  refine ⟨c, henc, ?_, ?_⟩
  · have hb : b.toNat < 0x80 := UInt8.lt_iff_toNat_lt.mp hascii
    rw [hn, codePointUnits, if_pos (Nat.lt_trans hb (by decide)), UInt16.ofNat_uInt8ToNat]
  · simp only [UInt8.le_iff_toNat_le, ← UInt8.toNat_inj, UInt8.reduceToNat] at hlow hquote hslash
    rw [hn]
    exact ⟨hlow, hquote, hslash⟩

/-- A run of the fast path, as characters. -/
theorem fast_encoded {run : Bytes} (h : ∀ b ∈ run, isFast b = true) :
    ∃ cs : List Char, run = utf8Encode cs ∧ latin1Decode run = utf16 cs := by
  induction run with
  | nil => exact ⟨[], rfl, rfl⟩
  | cons b run ih =>
    obtain ⟨c, henc, hunits, -⟩ := isFast_char (h b List.mem_cons_self)
    obtain ⟨cs, hrun, hlatin⟩ := ih fun x hx => h x (List.mem_cons_of_mem b hx)
    refine ⟨c :: cs, ?_, ?_⟩
    · rw [utf8Encode_cons, henc, ← hrun]
      rfl
    · rw [utf16_cons, hunits, ← hlatin]
      rfl

/-- The bytes of the fast path stand for themselves. -/
theorem stringText_fast {run s : Bytes} {v : JsString} (hrun : ∀ b ∈ run, isFast b = true)
    (h : StringText s v) : StringText (run ++ s) (latin1Decode run ++ v) := by
  induction run with
  | nil => exact h
  | cons b run ih =>
    obtain ⟨c, henc, hunits, hc, hq, hb⟩ := isFast_char (hrun b List.mem_cons_self)
    have htext := StringText.char c hc hq hb (ih fun x hx => hrun x (List.mem_cons_of_mem b hx))
    rw [henc, hunits] at htext
    exact htext

/-- A string's text is a run of the fast path, and after it nothing or a byte that is not plain. -/
theorem stringText_split {body : Bytes} {v : JsString} (h : StringText body v) :
    ∃ run s v', body = run ++ s ∧ v = latin1Decode run ++ v' ∧ (∀ b ∈ run, isFast b = true) ∧
      StringText s v' ∧
      (s = [] ∨ ∃ b t, s = b :: t ∧ (b = 0x5c ∨ 0x80 ≤ b)) := by
  have hstop : ∀ {s : Bytes} {v : JsString} {b : UInt8} {t : Bytes}, StringText s v → s = b :: t →
    (b = 0x5c ∨ 0x80 ≤ b) →
      ∃ run s' v', s = run ++ s' ∧ v = latin1Decode run ++ v' ∧ (∀ b ∈ run, isFast b = true) ∧
        StringText s' v' ∧
        (s' = [] ∨ ∃ b t, s' = b :: t ∧ (b = 0x5c ∨ 0x80 ≤ b)) :=
    fun {s v b t} hs heq hb => ⟨[], s, v, rfl, rfl, by simp, hs, .inr ⟨b, t, heq, hb⟩⟩
  induction h with
  | nil => exact ⟨[], [], [], rfl, rfl, by simp, .nil, .inl rfl⟩
  | @char s v c hc hq hb hv ih =>
    obtain ⟨b, bs, henc, ⟨hlt, rfl, hn⟩ | ⟨-, hhigh⟩⟩ := encodeChar_head c
    · have hfast : isFast b = true := by
        simp only [isFast, Bool.and_eq_true, decide_eq_true_eq, bne_iff_ne, ne_eq,
          UInt8.le_iff_toNat_le, UInt8.lt_iff_toNat_lt, ← UInt8.toNat_inj, UInt8.reduceToNat, hn]
        exact ⟨⟨⟨hc, hlt⟩, hq⟩, hb⟩
      obtain ⟨c', henc', hunits, -⟩ := isFast_char hfast
      have hunits' : codePointUnits c.toNat = [b.toUInt16] := by
        have hcc : utf8Encode [c] = utf8Encode [c'] := by simp [utf8Encode, henc, henc']
        rwa [List.cons.inj (utf8Encode_injective hcc) |>.1]
      obtain ⟨run, s', v', rfl, rfl, hrun, hs', hend⟩ := ih
      refine ⟨b :: run, s', v', by rw [henc]; rfl, by rw [hunits']; rfl, ?_, hs', hend⟩
      rintro x (_ | ⟨_, hx⟩)
      · exact hfast
      · exact hrun x hx
    · exact hstop (.char c hc hq hb hv) (by rw [henc]; rfl) (.inr hhigh)
  | stray hb hs hv => exact hstop (.stray hb hs hv) rfl (.inr hb)
  | short he hv => exact hstop (.short he hv) rfl (.inl rfl)
  | unicode hx hn hv => exact hstop (.unicode hx hn hv) rfl (.inl rfl)
  | pair hx hhi hx' hlo hv => exact hstop (.pair hx hhi hx' hlo hv) rfl (.inl rfl)
  | lone hx hn hv => exact hstop (.lone hx hn hv) rfl (.inl rfl)

theorem isPlainText_fast {run : Bytes} (h : ∀ b ∈ run, isFast b = true) :
    IsPlainText run = true := by
  refine List.all_eq_true.mpr fun b hb => ?_
  have hfast := h b hb
  simp only [isFast, Bool.and_eq_true] at hfast ⊢
  exact ⟨hfast.1.1.2, hfast.2⟩

theorem isPlainText_slow {b : UInt8} (h : b = 0x5c ∨ 0x80 ≤ b) (s t : Bytes) :
    IsPlainText (s ++ b :: t) = false := by
  refine List.all_eq_false.mpr ⟨b, by simp, ?_⟩
  rcases h with rfl | h
  · decide
  · simp [UInt8.not_lt.mpr h]

theorem notFast {b : UInt8} (h : b = 0x5c ∨ 0x80 ≤ b) : isFast b = false := by
  rcases h with rfl | h
  · rfl
  · simp [isFast, UInt8.not_lt.mpr h]

/-- `str` reads every string. -/
theorem str_append {body : Bytes} {v : JsString} (h : StringText body v) (rest : Bytes) :
    str (0x22 :: body ++ 0x22 :: rest) = .ok (v, IsPlainText body, rest) := by
  obtain ⟨run, s, v', rfl, rfl, hrun, hs, rfl | ⟨b, t, rfl, hb⟩⟩ := stringText_split h
  · have hv' : v' = [] := by
      generalize hnil : ([] : Bytes) = s at hs
      cases hs with
      | nil => rfl
      | char c =>
        obtain ⟨b, bs, henc, -⟩ := encodeChar_head c
        rw [henc] at hnil
        cases hnil
      | _ => cases hnil
    have htake : (run ++ 0x22 :: rest).takeWhile isFast = run := by
      rw [List.takeWhile_append_of_pos hrun, List.takeWhile_cons_of_neg (by decide),
        List.append_nil]
    have hdrop : (run ++ 0x22 :: rest).dropWhile isFast = 0x22 :: rest := by
      rw [List.dropWhile_append_of_pos hrun, List.dropWhile_cons_of_neg (by decide)]
    simp only [str, List.append_nil, List.cons_append, List.drop_succ_cons, List.drop_zero, htake,
      hdrop, if_true, isPlainText_fast hrun, hv']
  · have hfast := notFast hb
    have htake : (run ++ b :: (t ++ 0x22 :: rest)).takeWhile isFast = run := by
      rw [List.takeWhile_append_of_pos hrun, List.takeWhile_cons_of_neg (by simp [hfast]),
        List.append_nil]
    have hdrop : (run ++ b :: (t ++ 0x22 :: rest)).dropWhile isFast = b :: (t ++ 0x22 :: rest) := by
      rw [List.dropWhile_append_of_pos hrun, List.dropWhile_cons_of_neg (by simp [hfast])]
    have hquote : b ≠ 0x22 := by rintro rfl; exact absurd hb (by decide)
    have hcontrol : ¬ (b ≠ 0x5c ∧ b < 0x20) := by
      rintro ⟨hslash, hlow⟩
      rcases hb with h | h
      · exact hslash h
      · exact (high_ne h).2.2 hlow
    obtain ⟨cs, hcs, hlatin⟩ := fast_encoded hrun
    have hslow := strSlow_append hs [] cs rest
    rw [← hcs] at hslow
    have hbody : 0x22 :: (run ++ b :: t) ++ 0x22 :: rest =
      0x22 :: (run ++ b :: (t ++ 0x22 :: rest)) := by simp
    rw [hbody]
    simp only [str, List.drop_succ_cons, List.drop_zero, htake, hdrop]
    rw [if_neg hquote, if_neg hcontrol, ← List.cons_append, hslow, ok_bind,
      isPlainText_slow hb, hlatin]
    rfl

/-- What `str` reads is a string. -/
theorem str_ok {s rest : Bytes} {v : JsString} {plain : Bool} (hs : s.head? = some 0x22)
    (h : str s = .ok (v, plain, rest)) :
    ∃ body, s = 0x22 :: body ++ 0x22 :: rest ∧ StringText body v ∧ plain = IsPlainText body := by
  cases s with
  | nil => cases hs
  | cons q start =>
    cases hs
    have hrun : ∀ b ∈ start.takeWhile isFast, isFast b = true := fun b hb =>
      List.mem_takeWhile_imp hb
    have hsplit : start = start.takeWhile isFast ++ start.dropWhile isFast :=
      List.takeWhile_append_dropWhile.symm
    obtain ⟨cs, hcs, hlatin⟩ := fast_encoded hrun
    simp only [str, List.drop_succ_cons, List.drop_zero] at h
    generalize start.takeWhile isFast = run at hrun hsplit hcs hlatin h
    split at h
    · rename_i c after hafter
      have hnot : isFast c = false := by
        have hhead := List.head?_dropWhile_not isFast start
        rw [hafter] at hhead
        simpa using hhead
      rw [hafter] at hsplit
      split_ifs at h with hquote hcontrol
      · cases h
        subst hquote
        refine ⟨run, by rw [hsplit]; rfl, ?_, (isPlainText_fast hrun).symm⟩
        have htext := stringText_fast hrun .nil
        rwa [List.append_nil, List.append_nil] at htext
      · exact absurd h fail_ne_ok
      · obtain ⟨⟨v', rest'⟩, hslow, h⟩ := bind_eq_ok.mp h
        cases h
        obtain ⟨body, v', hbody, htext, rfl⟩ := strSlow_ok hslow cs hcs
        dsimp only at hbody
        refine ⟨run ++ body, by rw [hsplit, hbody]; simp, ?_, ?_⟩
        · rw [List.nil_append, ← hlatin]
          exact stringText_fast hrun htext
        · cases body with
          | nil => cases hbody; exact absurd rfl hquote
          | cons b body =>
            cases hbody
            have hb : c = 0x5c ∨ 0x80 ≤ c := by
              by_contra hc
              rw [not_or, UInt8.not_le] at hc
              rw [not_and, UInt8.not_lt] at hcontrol
              simp [isFast, hcontrol hc.1, hc.2, hquote, hc.1] at hnot
            exact (isPlainText_slow hb run body).symm
    · obtain ⟨⟨v', rest'⟩, hslow, h⟩ := bind_eq_ok.mp h
      obtain ⟨body, v', hbody, -⟩ := strSlow_ok hslow cs hcs
      cases body <;> cases hbody

/-- `key` reads every member's name. -/
theorem key_append {k : Bytes} {name : JsString} (h : KeyText k name) (rest : Bytes) :
    key (k ++ rest) = .ok (name, rest) := by
  obtain @⟨w, s, w', _, hw, hs, hw'⟩ := h
  have heq : w ++ 0x22 :: s ++ 0x22 :: w' ++ [0x3a] ++ rest =
    w ++ (0x22 :: s ++ 0x22 :: (w' ++ 0x3a :: rest)) := by simp
  rw [heq, key, skipWs_append hw, List.cons_append, skipWs_cons (by decide), ← List.cons_append]
  dsimp only
  rw [if_neg (by simp), str_append hs, ok_bind]
  dsimp only
  rw [skipWs_append hw', skipWs_cons (by decide), if_neg (by simp)]
  rfl

/-- A key that is read is a string of the grammar with its colon. -/
theorem key_ok {s rest : Bytes} {name : JsString} (h : key s = .ok (name, rest)) :
    ∃ k, s = k ++ rest ∧ KeyText k name := by
  obtain ⟨w, hsplit, hw⟩ := ws_skipWs s
  unfold key at h
  dsimp only at h
  split_ifs at h with hquote
  · exact absurd h fail_ne_ok
  · rw [not_not] at hquote
    obtain ⟨⟨name', plain, after⟩, hstr, h⟩ := bind_eq_ok.mp h
    obtain ⟨w', hsplit', hw'⟩ := ws_skipWs after
    dsimp only at h
    split_ifs at h with hcolon
    · exact absurd h fail_ne_ok
    · rw [not_not] at hcolon
      cases h
      obtain ⟨body, hbody, htext, -⟩ := str_ok hquote hstr
      have hafter : skipWs after = 0x3a :: (skipWs after).tail := by
        cases hws : skipWs after with
        | nil => rw [hws] at hcolon; cases hcolon
        | cons c t => rw [hws] at hcolon; cases hcolon; rfl
      refine ⟨w ++ 0x22 :: body ++ 0x22 :: w' ++ [0x3a], ?_, .mk hw htext hw'⟩
      calc s = w ++ skipWs s := hsplit
        _ = w ++ (0x22 :: body ++ 0x22 :: after) := by rw [← hbody]
        _ = w ++ (0x22 :: body ++ 0x22 :: (w' ++ 0x3a :: (skipWs after).tail)) := by
          rw [← hafter, ← hsplit']
        _ = w ++ 0x22 :: body ++ 0x22 :: w' ++ [0x3a] ++ (skipWs after).tail := by simp

end AgentService
