import AgentService.Lib.Utf8

/-!
# The byte patterns of UTF-8

Which byte strings are the encoding of one character, by the values of their bytes:
shortest form only, no surrogates, nothing above U+10FFFF.
-/

namespace Lib

/-- `b` stands between the bounds. -/
def Within (lo hi : Nat) (b : UInt8) : Prop := lo ≤ b.toNat ∧ b.toNat ≤ hi

instance (lo hi : Nat) (b : UInt8) : Decidable (Within lo hi b) := by unfold Within; infer_instance

/-- The bounds of the byte behind a lead byte. -/
def secondLower (b : UInt8) : Nat := if b = 0xe0 then 0xa0 else if b = 0xf0 then 0x90 else 0x80

def secondUpper (b : UInt8) : Nat := if b = 0xed then 0x9f else if b = 0xf4 then 0x8f else 0xbf

/-- One row of the table for each length. -/
inductive IsSequence : Bytes → Prop
  | one {b} (h : b.toNat < 0x80) : IsSequence [b]
  | two {b b₁} (h : Within 0xc2 0xdf b) (h₁ : Within 0x80 0xbf b₁) : IsSequence [b, b₁]
  | three {b b₁ b₂} (h : Within 0xe0 0xef b) (h₁ : Within (secondLower b) (secondUpper b) b₁)
      (h₂ : Within 0x80 0xbf b₂) : IsSequence [b, b₁, b₂]
  | four {b b₁ b₂ b₃} (h : Within 0xf0 0xf4 b) (h₁ : Within (secondLower b) (secondUpper b) b₁)
      (h₂ : Within 0x80 0xbf b₂) (h₃ : Within 0x80 0xbf b₃) : IsSequence [b, b₁, b₂, b₃]

/-- The bounds of a second byte, by the value of the first. -/
theorem within_second {b b₁ : UInt8} :
    Within (secondLower b) (secondUpper b) b₁ ↔
      (if b.toNat = 0xe0 then 0xa0 else if b.toNat = 0xf0 then 0x90 else 0x80) ≤ b₁.toNat ∧
      b₁.toNat ≤ if b.toNat = 0xed then 0x9f else if b.toNat = 0xf4 then 0x8f else 0xbf := by
  simp only [Within, secondLower, secondUpper, ← UInt8.toNat_inj, UInt8.reduceToNat]

theorem isSequence_encodeChar (c : Char) : IsSequence (String.utf8EncodeChar c) := by
  have hv : c.val.toNat < 0xd800 ∨ 0xdfff < c.val.toNat ∧ c.val.toNat < 0x110000 := c.valid
  generalize hn : c.val.toNat = n at hv
  unfold String.utf8EncodeChar
  simp only [hn]
  have e1 := Utf8.toNat_continuation n
  have e2 := Utf8.toNat_continuation (n / 64)
  have e3 := Utf8.toNat_continuation (n / 4096)
  split_ifs with c1 c2 c3
  · exact .one (by rw [Utf8.toNat_ofNat_lt (by omega)]; omega)
  · have e0 : (UInt8.ofNat (n / 64 % 0x20 + 0xc0)).toNat = n / 64 % 0x20 + 0xc0 :=
      Utf8.toNat_ofNat_lt (by omega)
    exact .two (by unfold Within; omega) (by unfold Within; omega)
  · have e0 : (UInt8.ofNat (n / 4096 % 0x10 + 0xe0)).toNat = n / 4096 % 0x10 + 0xe0 :=
      Utf8.toNat_ofNat_lt (by omega)
    refine .three (by unfold Within; omega) (within_second.mpr ?_) (by unfold Within; omega)
    rw [e0, e2]
    split_ifs <;> omega
  · have e0 : (UInt8.ofNat (n / 262144 % 0x08 + 0xf0)).toNat = n / 262144 % 0x08 + 0xf0 :=
      Utf8.toNat_ofNat_lt (by omega)
    refine .four (by unfold Within; omega) (within_second.mpr ?_) (by unfold Within; omega)
      (by unfold Within; omega)
    rw [e0, e3]
    split_ifs <;> omega

/-- A character of a given number. -/
theorem exists_char {n : Nat} (h : n < 0xd800 ∨ 0xdfff < n ∧ n < 0x110000) :
    ∃ c : Char, c.val.toNat = n :=
  ⟨Char.ofNat n, Utf8.toNat_ofNat_valid h⟩

theorem ofNat_eq {b : UInt8} {n : Nat} (h : b.toNat = n) : UInt8.ofNat n = b := by
  rw [← h, UInt8.ofNat_toNat]

/-- Every row of the table is the encoding of a character. -/
theorem IsSequence.exists_char {bs : Bytes} (h : IsSequence bs) :
    ∃ c, String.utf8EncodeChar c = bs := by
  cases h with
  | @one b h =>
    obtain ⟨c, hc⟩ := Lib.exists_char (n := b.toNat) (by omega)
    refine ⟨c, ?_⟩
    unfold String.utf8EncodeChar
    simp only [hc]
    rw [if_pos (by omega), ofNat_eq rfl]
  | @two b b₁ h h₁ =>
    unfold Within at h h₁
    obtain ⟨c, hc⟩ := Lib.exists_char (n := b.toNat % 0x20 * 0x40 + b₁.toNat % 0x40) (by omega)
    refine ⟨c, ?_⟩
    unfold String.utf8EncodeChar
    simp only [hc]
    rw [if_neg (by omega), if_pos (by omega), ofNat_eq (b := b) (by omega),
      ofNat_eq (b := b₁) (by omega)]
  | @three b b₁ b₂ h h₁ h₂ =>
    rw [within_second] at h₁
    unfold Within at h h₂
    obtain ⟨c, hc⟩ := Lib.exists_char
      (n := (b.toNat % 0x10 * 0x40 + b₁.toNat % 0x40) * 0x40 + b₂.toNat % 0x40)
      (by split_ifs at h₁ <;> omega)
    refine ⟨c, ?_⟩
    unfold String.utf8EncodeChar
    simp only [hc]
    rw [if_neg (by split_ifs at h₁ <;> omega), if_neg (by split_ifs at h₁ <;> omega),
      if_pos (by omega), ofNat_eq (b := b) (by omega),
      ofNat_eq (b := b₁) (by split_ifs at h₁ <;> omega), ofNat_eq (b := b₂) (by omega)]
  | @four b b₁ b₂ b₃ h h₁ h₂ h₃ =>
    rw [within_second] at h₁
    unfold Within at h h₂ h₃
    obtain ⟨c, hc⟩ := Lib.exists_char
      (n := ((b.toNat % 0x08 * 0x40 + b₁.toNat % 0x40) * 0x40 + b₂.toNat % 0x40) * 0x40 +
        b₃.toNat % 0x40)
      (by split_ifs at h₁ <;> omega)
    refine ⟨c, ?_⟩
    unfold String.utf8EncodeChar
    simp only [hc]
    rw [if_neg (by split_ifs at h₁ <;> omega), if_neg (by split_ifs at h₁ <;> omega),
      if_neg (by split_ifs at h₁ <;> omega), ofNat_eq (b := b) (by omega),
      ofNat_eq (b := b₁) (by split_ifs at h₁ <;> omega), ofNat_eq (b := b₂) (by omega),
      ofNat_eq (b := b₃) (by omega)]

/-- The encoding of an ASCII character is its byte, that of any other starts with a high byte. -/
theorem encodeChar_head (c : Char) : ∃ b bs, String.utf8EncodeChar c = b :: bs ∧
    (c.toNat < 0x80 ∧ bs = [] ∧ b.toNat = c.toNat ∨ 0x80 ≤ c.toNat ∧ 0x80 ≤ b) := by
  by_cases hc : c.toNat < 0x80
  · refine ⟨UInt8.ofNat c.toNat, [], ?_, .inl ⟨hc, rfl, Utf8.toNat_ofNat_lt (by omega)⟩⟩
    unfold String.utf8EncodeChar
    exact if_pos (Nat.le_of_lt_succ hc)
  · rcases Utf8.encodeChar_shape c with ⟨h, -⟩ | ⟨b, bs, heq, hlead, -⟩
    · exact absurd h hc
    · refine ⟨b, bs, heq, .inr ⟨Nat.le_of_not_lt hc, ?_⟩⟩
      unfold Utf8.IsLead at hlead
      simp only [UInt8.le_iff_toNat_le, UInt8.reduceToNat]
      omega

theorem encodeChar_ascii {b : UInt8} (h : b < 0x80) :
    ∃ c : Char, c.toNat = b.toNat ∧ String.utf8EncodeChar c = [b] :=
  ⟨_, Utf8.toNat_ofNat_valid (.inl (by have hb := UInt8.lt_iff_toNat_lt.mp h; simp at hb; omega)),
    Utf8.encodeChar_ascii h⟩

end Lib
