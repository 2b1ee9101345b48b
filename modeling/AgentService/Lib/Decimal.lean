import AgentService.Lib.JsString
import Mathlib.Data.Nat.Digits.Lemmas

/-!
# Decimal numbers as text

`decimal` writes a natural number, `readDecimal` reads any run of digits. Both go through
Mathlib's `Nat.digits`, which lists the digits from the last to the first.
-/

namespace Lib

def digitByte (d : Nat) : UInt8 := UInt8.ofNat (0x30 + d)

def digitValue (b : UInt8) : Nat := b.toNat - 0x30

def IsDigitByte (b : UInt8) : Prop := 0x30 ≤ b ∧ b ≤ 0x39

instance (b : UInt8) : Decidable (IsDigitByte b) := by unfold IsDigitByte; infer_instance

/-- No leading zero, and `0` for zero. -/
def decimal (n : Nat) : Bytes := if n = 0 then [0x30] else ((Nat.digits 10 n).map digitByte).reverse

/-- The number a run of digits writes. -/
def readDecimal (s : Bytes) : Nat := Nat.ofDigits 10 (s.map digitValue).reverse

theorem toNat_digitByte {d : Nat} (h : d < 10) : (digitByte d).toNat = 0x30 + d := by
  rw [digitByte, UInt8.toNat_ofNat']
  omega

theorem digitValue_digitByte {d : Nat} (h : d < 10) : digitValue (digitByte d) = d := by
  rw [digitValue, toNat_digitByte h]
  omega

/-- The digits are a range of bytes. -/
theorem isDigitByte_iff {b : UInt8} : IsDigitByte b ↔ 0x30 ≤ b.toNat ∧ b.toNat ≤ 0x39 := by
  simp only [IsDigitByte, UInt8.le_iff_toNat_le, UInt8.reduceToNat]

theorem isDigitByte_digitByte {d : Nat} (h : d < 10) : IsDigitByte (digitByte d) := by
  rw [isDigitByte_iff, toNat_digitByte h]
  omega

theorem digitValue_lt {b : UInt8} (h : IsDigitByte b) : digitValue b < 10 := by
  rw [isDigitByte_iff] at h
  rw [digitValue]
  omega

theorem IsDigitByte.ascii {b : UInt8} (h : IsDigitByte b) : b < 0x80 := by
  rw [isDigitByte_iff] at h
  simp only [UInt8.lt_iff_toNat_lt, UInt8.reduceToNat]
  omega

/-! ## Reading -/

@[simp] theorem readDecimal_nil : readDecimal [] = 0 := rfl

theorem readDecimal_singleton (b : UInt8) : readDecimal [b] = digitValue b := by simp [readDecimal]

/-- The digits in front count for as many tens as digits follow. -/
theorem readDecimal_append (s t : Bytes) :
    readDecimal (s ++ t) = readDecimal s * 10 ^ t.length + readDecimal t := by
  simp only [readDecimal, List.map_append, List.reverse_append, Nat.ofDigits_append,
    List.length_reverse, List.length_map]
  ring

theorem readDecimal_cons (b : UInt8) (s : Bytes) :
    readDecimal (b :: s) = digitValue b * 10 ^ s.length + readDecimal s := by
  rw [← readDecimal_singleton, ← readDecimal_append, List.singleton_append]

/-- A number of so many digits is below that power of ten. -/
theorem readDecimal_lt {s : Bytes} (h : ∀ b ∈ s, IsDigitByte b) :
    readDecimal s < 10 ^ s.length := by
  have hlt :=
    Nat.ofDigits_lt_base_pow_length (b := 10) (l := (s.map digitValue).reverse) (by norm_num) (by
    intro d hd
    obtain ⟨b, hb, rfl⟩ := List.mem_map.mp (List.mem_reverse.mp hd)
    exact digitValue_lt (h b hb))
  simpa [readDecimal] using hlt

/-- Zeros in front do not count. -/
theorem readDecimal_replicate (k : Nat) (s : Bytes) :
    readDecimal (List.replicate k 0x30 ++ s) = readDecimal s := by
  have hzero : readDecimal (List.replicate k 0x30) = 0 := by
    induction k with
    | zero => rfl
    | succ k ih =>
      rw [List.replicate_succ, readDecimal_cons, ih]
      simp [digitValue]
  rw [readDecimal_append, hzero, Nat.zero_mul, Nat.zero_add]

/-! ## Writing -/

theorem decimal_ne_nil (n : Nat) : decimal n ≠ [] := by
  unfold decimal
  split_ifs with h
  · simp
  · simpa using Nat.digits_ne_nil_iff_ne_zero.mpr h

/-- Decimals are made of digits. -/
theorem decimal_digits (n : Nat) : ∀ b ∈ decimal n, IsDigitByte b := by
  intro b hb
  unfold decimal at hb
  split_ifs at hb with h
  · rw [List.mem_singleton.mp hb]
    decide
  · obtain ⟨d, hd, rfl⟩ := List.mem_map.mp (List.mem_reverse.mp hb)
    exact isDigitByte_digitByte (Nat.digits_lt_base (by norm_num) hd)

/-- A number is read from its own digits. -/
theorem readDecimal_decimal (n : Nat) : readDecimal (decimal n) = n := by
  unfold decimal
  split_ifs with h
  · rw [h]
    rfl
  · have hdigits : ((Nat.digits 10 n).map digitByte).map digitValue = Nat.digits 10 n := by
      rw [List.map_map, List.map_congr_left (g := id) fun d hd => ?_, List.map_id]
      exact digitValue_digitByte (Nat.digits_lt_base (by norm_num) hd)
    rw [readDecimal, List.map_reverse, List.reverse_reverse, hdigits, Nat.ofDigits_digits]

/-- Only zero starts with a zero. -/
theorem decimal_head {n : Nat} (h : n ≠ 0) : (decimal n).head? ≠ some 0x30 := by
  rw [decimal, if_neg h, List.head?_reverse, List.getLast?_map]
  have hne : Nat.digits 10 n ≠ [] := Nat.digits_ne_nil_iff_ne_zero.mpr h
  rw [List.getLast?_eq_getLast_of_ne_nil hne, Option.map_some]
  intro he
  have hlt := Nat.digits_lt_base (by norm_num) (List.getLast_mem hne)
  have hval := digitValue_digitByte hlt
  rw [Option.some.inj he] at hval
  exact Nat.getLast_digit_ne_zero 10 h hval.symm

/-- A number below a power of ten has no more digits than its exponent says. -/
theorem decimal_length {n k : Nat} (hk : 0 < k) (h : n < 10 ^ k) : (decimal n).length ≤ k := by
  unfold decimal
  split_ifs
  · exact hk
  · rw [List.length_reverse, List.length_map]
    exact (Nat.digits_length_le_iff (by norm_num) n).mpr h

end Lib
