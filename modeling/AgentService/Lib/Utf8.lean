import Mathlib.Data.Char
import Mathlib.Data.List.Basic

/-!
# UTF-8 with replacement

Encoding is core's `String.utf8EncodeChar`. Decoding is the WHATWG decoder in its
replacement mode: a sequence that breaks off (a wrong byte, or the end of the input)
is one U+FFFD, and the byte that broke it is read again as a lead byte. The machine
below keeps the sequence it is in the middle of as its state, so that "read again" is
one step and the recursion is on the input alone.
-/

namespace Lib

abbrev Bytes := List UInt8

/-- The UTF-8 encoding of a text. -/
def utf8Encode (cs : List Char) : Bytes := cs.flatMap String.utf8EncodeChar

namespace Utf8

/-- U+FFFD REPLACEMENT CHARACTER. -/
def replacement : Char := Char.ofNat 0xfffd

/-- The middle of a sequence: the code point so far, how many bytes are still owed, and
the bounds of the next one. -/
structure Partial where
  codePoint : Nat
  owed : Nat
  lower : UInt8
  upper : UInt8
  deriving DecidableEq, Repr

/-- What a lead byte does: what it puts out, and the sequence it opens. -/
def lead (b : UInt8) : List Char × Option Partial :=
  if b < 0x80 then ([Char.ofNat b.toNat], none)
  else if 0xc2 ≤ b ∧ b ≤ 0xdf then ([], some ⟨b.toNat % 0x20, 1, 0x80, 0xbf⟩)
  else if 0xe0 ≤ b ∧ b ≤ 0xef then
    ([], some ⟨b.toNat % 0x10, 2, if b = 0xe0 then 0xa0 else 0x80, if b = 0xed then 0x9f else 0xbf⟩)
  else if 0xf0 ≤ b ∧ b ≤ 0xf4 then
    ([], some ⟨b.toNat % 0x08, 3, if b = 0xf0 then 0x90 else 0x80, if b = 0xf4 then 0x8f else 0xbf⟩)
  else ([replacement], none)

/-- What one more byte does inside a sequence. -/
def Partial.next (p : Partial) (b : UInt8) : List Char × Option Partial :=
  if p.lower ≤ b ∧ b ≤ p.upper then
    if p.owed ≤ 1 then ([Char.ofNat (p.codePoint * 0x40 + b.toNat % 0x40)], none)
    else ([], some ⟨p.codePoint * 0x40 + b.toNat % 0x40, p.owed - 1, 0x80, 0xbf⟩)
  else (replacement :: (lead b).1, (lead b).2)

def step : Option Partial → UInt8 → List Char × Option Partial
  | none, b => lead b
  | some p, b => p.next b

/-- What the end of the input puts out. -/
def finish : Option Partial → List Char
  | none => []
  | some _ => [replacement]

def run : Option Partial → Bytes → List Char
  | q, [] => finish q
  | q, b :: bs => (step q b).1 ++ run (step q b).2 bs

end Utf8

/-- The text of a byte string, with U+FFFD where it is not UTF-8. -/
def utf8Decode (bs : Bytes) : List Char := Utf8.run none bs

namespace Utf8

theorem toNat_ofNat_lt {n : Nat} (h : n < 256) : (UInt8.ofNat n).toNat = n := by
  simp; omega

theorem run_cons (q : Option Partial) (b : UInt8) (bs : Bytes) :
    run q (b :: bs) = (step q b).1 ++ run (step q b).2 bs := rfl

section
variable {b : UInt8} {bs : Bytes}

theorem run_ascii (h : b < 0x80) : run none (b :: bs) = Char.ofNat b.toNat :: run none bs := by
  simp [run_cons, step, lead, h]

theorem run_lead_two (h : 0xc2 ≤ b.toNat) (h' : b.toNat ≤ 0xdf) :
    run none (b :: bs) = run (some ⟨b.toNat % 0x20, 1, 0x80, 0xbf⟩) bs := by
  have hl : lead b = ([], some ⟨b.toNat % 0x20, 1, 0x80, 0xbf⟩) := by
    simp only [lead, UInt8.lt_iff_toNat_lt, UInt8.le_iff_toNat_le, UInt8.reduceToNat]
    rw [if_neg (by omega), if_pos ⟨h, h'⟩]
  simp only [run_cons, step, hl, List.nil_append]

theorem run_lead_three (h : 0xe0 ≤ b.toNat) (h' : b.toNat ≤ 0xef) :
    run none (b :: bs) = run (some ⟨b.toNat % 0x10, 2, if b = 0xe0 then 0xa0 else 0x80,
      if b = 0xed then 0x9f else 0xbf⟩) bs := by
  have hl : lead b = ([], some ⟨b.toNat % 0x10, 2, if b = 0xe0 then 0xa0 else 0x80,
      if b = 0xed then 0x9f else 0xbf⟩) := by
    simp only [lead, UInt8.lt_iff_toNat_lt, UInt8.le_iff_toNat_le, UInt8.reduceToNat]
    rw [if_neg (by omega), if_neg (by omega), if_pos ⟨h, h'⟩]
  simp only [run_cons, step, hl, List.nil_append]

theorem run_lead_four (h : 0xf0 ≤ b.toNat) (h' : b.toNat ≤ 0xf4) :
    run none (b :: bs) = run (some ⟨b.toNat % 0x08, 3, if b = 0xf0 then 0x90 else 0x80,
      if b = 0xf4 then 0x8f else 0xbf⟩) bs := by
  have hl : lead b = ([], some ⟨b.toNat % 0x08, 3, if b = 0xf0 then 0x90 else 0x80,
      if b = 0xf4 then 0x8f else 0xbf⟩) := by
    simp only [lead, UInt8.lt_iff_toNat_lt, UInt8.le_iff_toNat_le, UInt8.reduceToNat]
    rw [if_neg (by omega), if_neg (by omega), if_neg (by omega), if_pos ⟨h, h'⟩]
  simp only [run_cons, step, hl, List.nil_append]

variable {n owed : Nat} {lo hi : UInt8}

theorem run_continue (hl : lo ≤ b) (hh : b ≤ hi) (ho : 1 < owed) :
    run (some ⟨n, owed, lo, hi⟩) (b :: bs) =
      run (some ⟨n * 0x40 + b.toNat % 0x40, owed - 1, 0x80, 0xbf⟩) bs := by
  simp only [run_cons, step, Partial.next, if_pos (And.intro hl hh), if_neg (Nat.not_le.mpr ho),
    List.nil_append]

theorem run_last (hl : lo ≤ b) (hh : b ≤ hi) :
    run (some ⟨n, 1, lo, hi⟩) (b :: bs) =
      Char.ofNat (n * 0x40 + b.toNat % 0x40) :: run none bs := by
  simp only [run_cons, step, Partial.next, if_pos (And.intro hl hh), Nat.le_refl, if_true,
    List.cons_append, List.nil_append]

end

/-- A continuation byte of an encoding, by its value. -/
theorem toNat_continuation (n : Nat) : (UInt8.ofNat (n % 0x40 + 0x80)).toNat = n % 0x40 + 0x80 :=
  toNat_ofNat_lt (by omega)

/-- The encoding of a character is read back as that character. -/
theorem run_encodeChar (c : Char) (bs : Bytes) :
    run none (String.utf8EncodeChar c ++ bs) = c :: run none bs := by
  have hv : c.val.toNat < 0xd800 ∨ 0xdfff < c.val.toNat ∧ c.val.toNat < 0x110000 := c.valid
  have hc : Char.ofNat c.val.toNat = c := Char.ofNat_toNat c
  generalize hn : c.val.toNat = n at hv hc
  unfold String.utf8EncodeChar
  simp only [hn]
  have e1 := toNat_continuation n
  have e2 := toNat_continuation (n / 64)
  have e3 := toNat_continuation (n / 4096)
  generalize UInt8.ofNat (n % 0x40 + 0x80) = b1 at e1
  generalize UInt8.ofNat (n / 64 % 0x40 + 0x80) = b2 at e2
  generalize UInt8.ofNat (n / 4096 % 0x40 + 0x80) = b3 at e3
  have h1 : 0x80 ≤ b1 ∧ b1 ≤ 0xbf := by
    simp only [UInt8.le_iff_toNat_le, UInt8.reduceToNat]; omega
  split_ifs with c1 c2 c3
  · have hb : (UInt8.ofNat n).toNat = n := toNat_ofNat_lt (by omega)
    rw [List.cons_append, List.nil_append, run_ascii, hb, hc]
    rw [UInt8.lt_iff_toNat_lt, hb]
    exact Nat.lt_succ_of_le c1
  · have hb : (UInt8.ofNat (n / 64 % 0x20 + 0xc0)).toNat = n / 64 % 0x20 + 0xc0 :=
      toNat_ofNat_lt (by omega)
    rw [List.cons_append, List.cons_append, List.nil_append, run_lead_two (by omega) (by omega),
      run_last h1.1 h1.2, hb, e1]
    rw [show (n / 64 % 0x20 + 0xc0) % 0x20 * 0x40 + (n % 0x40 + 0x80) % 0x40 = n by omega, hc]
  · have hb : (UInt8.ofNat (n / 4096 % 0x10 + 0xe0)).toNat = n / 4096 % 0x10 + 0xe0 :=
      toNat_ofNat_lt (by omega)
    generalize UInt8.ofNat (n / 4096 % 0x10 + 0xe0) = b0 at hb
    have hl : (if b0 = 0xe0 then 0xa0 else 0x80) ≤ b2 := by
      split <;> simp only [← UInt8.toNat_inj, UInt8.le_iff_toNat_le, UInt8.reduceToNat] at * <;>
        omega
    have hh : b2 ≤ (if b0 = 0xed then 0x9f else 0xbf) := by
      split <;> simp only [← UInt8.toNat_inj, UInt8.le_iff_toNat_le, UInt8.reduceToNat] at * <;>
        omega
    simp only [List.cons_append, List.nil_append]
    rw [run_lead_three (by omega) (by omega), run_continue hl hh (by omega), run_last h1.1 h1.2,
      hb, e1, e2]
    rw [show ((n / 4096 % 0x10 + 0xe0) % 0x10 * 0x40 + (n / 64 % 0x40 + 0x80) % 0x40) * 0x40 +
      (n % 0x40 + 0x80) % 0x40 = n by omega, hc]
  · have hb : (UInt8.ofNat (n / 262144 % 0x08 + 0xf0)).toNat = n / 262144 % 0x08 + 0xf0 :=
      toNat_ofNat_lt (by omega)
    generalize UInt8.ofNat (n / 262144 % 0x08 + 0xf0) = b0 at hb
    have hl : (if b0 = 0xf0 then 0x90 else 0x80) ≤ b3 := by
      split <;> simp only [← UInt8.toNat_inj, UInt8.le_iff_toNat_le, UInt8.reduceToNat] at * <;>
        omega
    have hh : b3 ≤ (if b0 = 0xf4 then 0x8f else 0xbf) := by
      split <;> simp only [← UInt8.toNat_inj, UInt8.le_iff_toNat_le, UInt8.reduceToNat] at * <;>
        omega
    have h2 : 0x80 ≤ b2 ∧ b2 ≤ 0xbf := by
      simp only [UInt8.le_iff_toNat_le, UInt8.reduceToNat]; omega
    simp only [List.cons_append, List.nil_append]
    rw [run_lead_four (by omega) (by omega), run_continue hl hh (by omega),
      run_continue h2.1 h2.2 (by omega), run_last h1.1 h1.2, hb, e1, e2, e3]
    rw [show (((n / 262144 % 0x08 + 0xf0) % 0x08 * 0x40 + (n / 4096 % 0x40 + 0x80) % 0x40) * 0x40 +
      (n / 64 % 0x40 + 0x80) % 0x40) * 0x40 + (n % 0x40 + 0x80) % 0x40 = n by omega, hc]

/-- A continuation byte. -/
def IsContinuation (b : UInt8) : Prop := 0x80 ≤ b ∧ b < 0xc0

/-- The lead byte of a sequence with `n` continuation bytes. -/
def IsLead (b : UInt8) (n : Nat) : Prop :=
  (0xc2 ≤ b.toNat ∧ b.toNat ≤ 0xdf ∧ n = 1) ∨ (0xe0 ≤ b.toNat ∧ b.toNat ≤ 0xef ∧ n = 2) ∨
    (0xf0 ≤ b.toNat ∧ b.toNat ≤ 0xf4 ∧ n = 3)

theorem isContinuation_ofNat (n : Nat) : IsContinuation (UInt8.ofNat (n % 0x40 + 0x80)) := by
  simp only [IsContinuation, UInt8.le_iff_toNat_le, UInt8.lt_iff_toNat_lt, toNat_continuation,
    UInt8.reduceToNat]
  omega

/-- The two shapes of an encoding: one ASCII byte, or a lead byte and its continuation bytes. -/
theorem encodeChar_shape (c : Char) :
    (c.toNat < 0x80 ∧ String.utf8EncodeChar c = [UInt8.ofNat c.toNat]) ∨
    ∃ b bs, String.utf8EncodeChar c = b :: bs ∧ IsLead b bs.length ∧ ∀ x ∈ bs,
      IsContinuation x := by
  have hv : c.val.toNat < 0xd800 ∨ 0xdfff < c.val.toNat ∧ c.val.toNat < 0x110000 := c.valid
  have hc : c.toNat = c.val.toNat := rfl
  generalize hn : c.val.toNat = n at hv hc
  unfold String.utf8EncodeChar
  simp only [hn, hc]
  split_ifs with c1 c2 c3
  · exact .inl ⟨by omega, rfl⟩
  · refine .inr ⟨_, _, rfl, .inl ?_, ?_⟩
    · rw [toNat_ofNat_lt (by omega)]
      exact ⟨by omega, by omega, rfl⟩
    · simpa using isContinuation_ofNat n
  · refine .inr ⟨_, _, rfl, .inr (.inl ?_), ?_⟩
    · rw [toNat_ofNat_lt (by omega)]
      exact ⟨by omega, by omega, rfl⟩
    · intro x hx
      rcases List.mem_cons.mp hx with rfl | hx
      · exact isContinuation_ofNat (n / 64)
      · rw [List.mem_singleton.mp hx]; exact isContinuation_ofNat n
  · refine .inr ⟨_, _, rfl, .inr (.inr ?_), ?_⟩
    · rw [toNat_ofNat_lt (by omega)]
      exact ⟨by omega, by omega, rfl⟩
    · intro x hx
      rcases List.mem_cons.mp hx with rfl | hx
      · exact isContinuation_ofNat (n / 4096)
      rcases List.mem_cons.mp hx with rfl | hx
      · exact isContinuation_ofNat (n / 64)
      · rw [List.mem_singleton.mp hx]; exact isContinuation_ofNat n

/-- An ASCII byte is never part of a sequence: an open one ends in U+FFFD before it. -/
theorem run_ascii_any (q : Option Partial) (hq : ∀ p, q = some p → 0x80 ≤ p.lower) {b : UInt8}
    (h : b < 0x80) (bs : Bytes) :
    run q (b :: bs) = finish q ++ Char.ofNat b.toNat :: run none bs := by
  have hlead : lead b = ([Char.ofNat b.toNat], none) := by simp [lead, h]
  cases q with
  | none => simp [run_cons, step, hlead, finish]
  | some p =>
    have hlow := hq p rfl
    have hout : ¬(p.lower ≤ b ∧ b ≤ p.upper) := fun hb =>
      absurd (UInt8.lt_of_lt_of_le h (UInt8.le_trans hlow hb.1)) (UInt8.lt_irrefl b)
    simp [run_cons, step, Partial.next, hout, hlead, finish]

/-- The states a run passes through keep their lower bound above ASCII. -/
theorem step_lower (q : Option Partial) (b : UInt8) :
    ∀ p, (step q b).2 = some p → 0x80 ≤ p.lower := by
  have hlead : ∀ p, (lead b).2 = some p → 0x80 ≤ p.lower := by
    intro p hp
    unfold lead at hp
    split_ifs at hp <;> simp only [Option.some.injEq] at hp <;> subst hp <;>
      dsimp only <;> decide
  cases q with
  | none => exact hlead
  | some p₀ =>
    intro p hp
    simp only [step, Partial.next] at hp
    by_cases hin : p₀.lower ≤ b ∧ b ≤ p₀.upper
    · rw [if_pos hin] at hp
      split_ifs at hp
      cases hp
      dsimp only; decide
    · rw [if_neg hin] at hp
      exact hlead p hp

/-- An ASCII byte cuts the decoding of a byte string in two. -/
theorem run_append_ascii {b : UInt8} (h : b < 0x80) (bs : Bytes) :
    ∀ (as : Bytes) (q : Option Partial), (∀ p, q = some p → 0x80 ≤ p.lower) →
      run q (as ++ b :: bs) = run q as ++ Char.ofNat b.toNat :: run none bs := by
  intro as
  induction as with
  | nil => intro q hq; rw [List.nil_append, run_ascii_any q hq h]; rfl
  | cons a as ih =>
    intro q _
    rw [List.cons_append, run_cons, run_cons, ih _ (step_lower q a), List.append_assoc]

end Utf8

@[simp] theorem utf8Encode_nil : utf8Encode [] = [] := rfl

@[simp] theorem utf8Encode_cons (c : Char) (cs : List Char) :
    utf8Encode (c :: cs) = String.utf8EncodeChar c ++ utf8Encode cs := rfl

@[simp] theorem utf8Encode_append (as bs : List Char) :
    utf8Encode (as ++ bs) = utf8Encode as ++ utf8Encode bs := List.flatMap_append

@[simp] theorem utf8Decode_nil : utf8Decode [] = [] := rfl

/-- Text goes through UTF-8 and back unchanged, whatever follows it. -/
theorem utf8Decode_encode_append (cs : List Char) (bs : Bytes) :
    utf8Decode (utf8Encode cs ++ bs) = cs ++ utf8Decode bs := by
  induction cs with
  | nil => rfl
  | cons c cs ih =>
    rw [utf8Encode_cons, List.append_assoc]
    simp only [utf8Decode] at ih ⊢
    rw [Utf8.run_encodeChar, ih, List.cons_append]

@[simp] theorem utf8Decode_encode (cs : List Char) : utf8Decode (utf8Encode cs) = cs := by
  simpa using utf8Decode_encode_append cs []

theorem utf8Encode_injective : Function.Injective utf8Encode :=
  Function.LeftInverse.injective utf8Decode_encode

/-- An ASCII byte stands for itself and splits the text where it splits the bytes. -/
theorem utf8Decode_append_ascii (as : Bytes) {b : UInt8} (h : b < 0x80) (bs : Bytes) :
    utf8Decode (as ++ b :: bs) = utf8Decode as ++ Char.ofNat b.toNat :: utf8Decode bs :=
  Utf8.run_append_ascii h bs as none (by simp)

theorem utf8Decode_ascii {bs : Bytes} (h : ∀ b ∈ bs, b < 0x80) :
    utf8Decode bs = bs.map fun b => Char.ofNat b.toNat := by
  induction bs with
  | nil => rfl
  | cons b bs ih =>
    rw [← List.nil_append (b :: bs), utf8Decode_append_ascii [] (h b (by simp)),
      ih fun x hx => h x (List.mem_cons_of_mem _ hx)]
    rfl

/-! ## ASCII stays where it was -/

namespace Utf8

/-- What keeps an open sequence from ending in an ASCII character: the code point it can still
reach is at least U+0080 (no overlong form). -/
def Partial.Long (p : Partial) : Prop :=
  p.upper ≤ 0xbf ∧
  ((p.owed = 1 ∧ 2 ≤ p.codePoint) ∨ (p.owed = 2 ∧ (1 ≤ p.codePoint ∨ 0xa0 ≤ p.lower)) ∨
    (p.owed = 3 ∧ (1 ≤ p.codePoint ∨ 0x90 ≤ p.lower)))

theorem lead_long {b : UInt8} {p : Partial} (h : (lead b).2 = some p) : p.Long := by
  have hb : ∀ b : UInt8, ∀ p ∈ (lead b).2, p.upper ≤ 0xbf ∧
      ((p.owed = 1 ∧ 2 ≤ p.codePoint) ∨ (p.owed = 2 ∧ (1 ≤ p.codePoint ∨ 0xa0 ≤ p.lower)) ∨
        (p.owed = 3 ∧ (1 ≤ p.codePoint ∨ 0x90 ≤ p.lower))) := by
    intro b
    have hall : ∀ n < 256, ∀ p ∈ (lead (UInt8.ofNat n)).2, p.upper ≤ 0xbf ∧
        ((p.owed = 1 ∧ 2 ≤ p.codePoint) ∨ (p.owed = 2 ∧ (1 ≤ p.codePoint ∨ 0xa0 ≤ p.lower)) ∨
          (p.owed = 3 ∧ (1 ≤ p.codePoint ∨ 0x90 ≤ p.lower))) := by decide +kernel
    have := hall b.toNat b.toNat_lt
    rwa [UInt8.ofNat_toNat] at this
  exact hb b p h

theorem next_long {p p' : Partial} {b : UInt8} (hp : p.Long) (h : (p.next b).2 = some p') :
    p'.Long := by
  unfold Partial.next at h
  split_ifs at h with hin ho
  · simp only [Option.some.injEq] at h
    subst h
    obtain ⟨hu, hown⟩ := hp
    have h1 : p.lower.toNat ≤ b.toNat := UInt8.le_iff_toNat_le.mp hin.1
    have h2 : b.toNat ≤ 0xbf := UInt8.le_iff_toNat_le.mp (UInt8.le_trans hin.2 hu)
    refine ⟨UInt8.le_refl 0xbf, ?_⟩
    rcases hown with ⟨h3, -⟩ | ⟨h3, h4⟩ | ⟨h3, h4⟩
    · omega
    · refine .inl ⟨by simp [h3], ?_⟩
      dsimp only
      rcases h4 with h4 | h4
      · omega
      · have : 0xa0 ≤ p.lower.toNat := UInt8.le_iff_toNat_le.mp h4
        omega
    · refine .inr (.inl ⟨by simp [h3], .inl ?_⟩)
      dsimp only
      rcases h4 with h4 | h4
      · omega
      · have : 0x90 ≤ p.lower.toNat := UInt8.le_iff_toNat_le.mp h4
        omega
  · exact lead_long h

theorem toNat_ofNat_valid {n : Nat} (h : n.isValidChar) : (Char.ofNat n).toNat = n := by
  unfold Char.ofNat
  rw [dif_pos h]
  rfl

theorem encodeChar_ascii {b : UInt8} (h : b < 0x80) :
    String.utf8EncodeChar (Char.ofNat b.toNat) = [b] := by
  have hb : b.toNat < 0x80 := UInt8.lt_iff_toNat_lt.mp h
  have hn : (Char.ofNat b.toNat).val.toNat = b.toNat := toNat_ofNat_valid (.inl (by omega))
  rw [String.utf8EncodeChar]
  simp only [hn]
  rw [if_pos (by omega), UInt8.ofNat_toNat]

/-- The end of a sequence is no ASCII character. -/
theorem ofNat_high {n : Nat} (h : 0x80 ≤ n) {c : Char} (h0 : c.toNat ≠ 0) (hc : c.toNat < 0x80) :
    Char.ofNat n ≠ c := by
  rintro rfl
  by_cases hv : n.isValidChar
  · rw [toNat_ofNat_valid hv] at hc
    omega
  · simp [Char.ofNat, hv, Char.toNat] at h0

variable {c : Char}

theorem lead_high {b : UInt8} (h : ¬b < 0x80) : (lead b).1 = [] ∨ (lead b).1 = [replacement] := by
  unfold lead
  rw [if_neg h]
  split_ifs
  all_goals simp

theorem mem_lead (hc : c.toNat < 0x80) {b : UInt8} (h : c ∈ (lead b).1) :
    b = UInt8.ofNat c.toNat := by
  by_cases hb : b < 0x80
  · have hlt : b.toNat < 0x80 := UInt8.lt_iff_toNat_lt.mp hb
    rw [lead, if_pos hb] at h
    rw [List.mem_singleton.mp h]
    rw [toNat_ofNat_valid (Or.inl (by omega)), UInt8.ofNat_toNat]
  · rcases lead_high hb with he | he
    · simp [he] at h
    · rw [he] at h
      rw [List.mem_singleton.mp h] at hc
      exact absurd hc (by decide)

theorem mem_run (h0 : c.toNat ≠ 0) (hc : c.toNat < 0x80) (bs : Bytes) :
    ∀ q : Option Partial, (∀ p, q = some p → p.Long) → c ∈ run q bs → UInt8.ofNat c.toNat ∈ bs := by
  induction bs with
  | nil =>
    intro q _ h
    cases q with
    | none => simp [run, finish] at h
    | some p =>
      rw [List.mem_singleton.mp h] at hc
      exact absurd hc (by decide)
  | cons b bs ih =>
    intro q hq h
    rw [run_cons] at h
    rcases List.mem_append.mp h with h | h
    · cases q with
      | none => rw [mem_lead hc h]; simp
      | some p =>
        obtain ⟨hu, hown⟩ := hq p rfl
        simp only [step, Partial.next] at h
        split_ifs at h with hin ho
        · have hlong : 2 ≤ p.codePoint := by omega
          exact absurd (List.mem_singleton.mp h).symm (ofNat_high (by omega) h0 hc)
        · simp at h
        · rcases List.mem_cons.mp h with h | h
          · rw [h] at hc
            exact absurd hc (by decide)
          · rw [mem_lead hc h]; simp
    · refine List.mem_cons_of_mem _ (ih _ ?_ h)
      intro p hp
      cases q with
      | none => exact lead_long hp
      | some p₀ => exact next_long (hq p₀ rfl) hp

/-- Only ASCII bytes are decoded to nothing but ASCII characters. -/
theorem ascii_of_run (bs : Bytes) :
    ∀ q : Option Partial, (∀ p, q = some p → p.Long) →
      (∀ c ∈ run q bs, c.toNat ≠ 0 ∧ c.toNat < 0x80) →
      q = none ∧ ∀ b ∈ bs, b < 0x80 := by
  have hreplacement : ¬ replacement.toNat < 0x80 := by decide
  induction bs with
  | nil =>
    intro q _ h
    cases q with
    | none => simp
    | some p => exact absurd (h replacement (List.mem_singleton_self _)).2 hreplacement
  | cons b bs ih =>
    intro q hq h
    rw [run_cons] at h
    obtain ⟨hput, hrest⟩ := List.forall_mem_append.mp h
    cases q with
    | none =>
      obtain ⟨hnone, hbs⟩ := ih _ (fun p hp => lead_long hp) hrest
      refine ⟨rfl, List.forall_mem_cons.mpr ⟨?_, hbs⟩⟩
      by_contra hb
      simp only [step, lead, if_neg hb] at hput hnone
      split_ifs at hput hnone
      exact absurd (hput replacement (List.mem_singleton_self _)).2 hreplacement
    | some p =>
      obtain ⟨hnone, -⟩ := ih _ (fun p' hp' => next_long (hq p rfl) hp') hrest
      obtain ⟨hu, hown⟩ := hq p rfl
      simp only [step, Partial.next] at hput hnone
      split_ifs at hput hnone with hin ho
      · have hlong : 2 ≤ p.codePoint := by omega
        obtain ⟨hzero, hlow⟩ := hput _ (List.mem_singleton_self _)
        exact absurd rfl (ofNat_high (by omega) hzero hlow)
      · exact absurd (hput replacement List.mem_cons_self).2 hreplacement

end Utf8

/-- Decoding makes no ASCII character that was not there as a byte. -/
theorem mem_utf8Decode_ascii {c : Char} (h0 : c.toNat ≠ 0) (hc : c.toNat < 0x80) {bs : Bytes}
    (h : c ∈ utf8Decode bs) : UInt8.ofNat c.toNat ∈ bs :=
  Utf8.mem_run h0 hc bs none (by simp) h

/-- What is decoded to ASCII characters was ASCII. -/
theorem ascii_of_utf8Decode {bs : Bytes} (h : ∀ c ∈ utf8Decode bs, c.toNat ≠ 0 ∧ c.toNat < 0x80) :
    ∀ b ∈ bs, b < 0x80 :=
  (Utf8.ascii_of_run bs none nofun h).2

/-- Encoding makes no ASCII byte that was not there as a character. -/
theorem mem_utf8Encode_ascii {b : UInt8} (hb : b < 0x80) {cs : List Char} (h : b ∈ utf8Encode cs) :
    Char.ofNat b.toNat ∈ cs := by
  obtain ⟨c, hc, hm⟩ := List.mem_flatMap.mp h
  rcases Utf8.encodeChar_shape c with ⟨hn, he⟩ | ⟨l, ls, he, hl, hls⟩
  · rw [he] at hm
    rw [List.mem_singleton.mp hm, Utf8.toNat_ofNat_lt (by omega), Char.ofNat_toNat]
    exact hc
  · have hlt : b.toNat < 0x80 := UInt8.lt_iff_toNat_lt.mp hb
    rw [he] at hm
    rcases List.mem_cons.mp hm with rfl | hm
    · rcases hl with hl | hl | hl <;> omega
    · exact absurd (UInt8.lt_of_lt_of_le hb (hls b hm).1) (UInt8.lt_irrefl b)

end Lib
