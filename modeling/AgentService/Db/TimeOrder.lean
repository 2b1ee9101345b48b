import AgentService.Db.SqlTime

/-!
# Times for MySQL in the order of their texts

Texts of fixed width that only differ in their digits compare as the numbers in them do, the first
that differs deciding; and the dates and clocks of instants come in the order of the instants.
-/

namespace AgentService
open Lib

theorem append_lt_append_iff {α : Type} [LT α] {x y : List α} :
    ∀ {a b : List α}, a.length = b.length →
    (a ++ x < b ++ y ↔ a < b ∨ a = b ∧ x < y) := by
  intro a
  induction a with
  | nil =>
    intro b h
    cases List.eq_nil_of_length_eq_zero h.symm
    simp
  | cons u a ih =>
    intro b h
    cases b with
    | nil => cases h
    | cons v b =>
      have hrest := ih (Nat.succ.inj h)
      rw [List.cons_append, List.cons_append, List.cons_lt_cons_iff, List.cons_lt_cons_iff, hrest,
        List.cons.injEq]
      tauto

theorem groupNumber_cons {u : UInt16} (hu : isDigitUnit u = true) (g : JsString) :
    groupNumber (u :: g) = (u.toNat - 0x30) * 10 ^ g.length + groupNumber g := by
  have hrange : u.toNat < 256 := by
    simp only [isDigitUnit, Bool.and_eq_true, decide_eq_true_eq, UInt16.le_iff_toNat_le,
      UInt16.reduceToNat] at hu
    omega
  unfold groupNumber
  rw [latin1Encode, List.map_cons, readDecimal_cons, List.length_map, digitValue,
    UInt16.toNat_toUInt8, Nat.mod_eq_of_lt hrange]
  rfl

/-- The first digit decides, unless it is the same. -/
theorem leading_digit {a b p x y : Nat} (hx : x < p) (hy : y < p) :
    (a * p + x < b * p + y ↔ a < b ∨ a = b ∧ x < y) ∧ (a * p + x = b * p + y ↔ a = b ∧ x = y) := by
  rcases Nat.lt_trichotomy a b with h | rfl | h
  · have hle : (a + 1) * p ≤ b * p := Nat.mul_le_mul_right p h
    rw [Nat.add_mul, Nat.one_mul] at hle
    constructor <;> constructor <;> omega
  · constructor <;> constructor <;> omega
  · have hle : (b + 1) * p ≤ a * p := Nat.mul_le_mul_right p h
    rw [Nat.add_mul, Nat.one_mul] at hle
    constructor <;> constructor <;> omega

/-- Digits in the same number of places compare as the numbers. -/
theorem digits_compare : ∀ {g g' : JsString}, g.length = g'.length → g.all isDigitUnit = true →
    g'.all isDigitUnit = true →
    (g < g' ↔ groupNumber g < groupNumber g') ∧ (g = g' ↔ groupNumber g = groupNumber g') := by
  intro g
  induction g with
  | nil =>
    intro g' h _ _
    cases List.eq_nil_of_length_eq_zero h.symm
    simp
  | cons u g ih =>
    intro g' h hg hg'
    cases g' with
    | nil => cases h
    | cons v g' =>
      rw [List.all_cons, Bool.and_eq_true] at hg hg'
      have hlength := Nat.succ.inj h
      obtain ⟨hlt, heq⟩ := ih hlength hg.2 hg'.2
      have hbelow := groupNumber_lt ⟨rfl, hg.2⟩
      have hbelow' := groupNumber_lt ⟨hlength.symm, hg'.2⟩
      obtain ⟨hhead, hhead'⟩ :=
        leading_digit (a := u.toNat - 0x30) (b := v.toNat - 0x30) hbelow hbelow'
      have hdigit (w : UInt16) (h : isDigitUnit w = true) : 0x30 ≤ w.toNat := by
        simp only [isDigitUnit, Bool.and_eq_true, decide_eq_true_eq, UInt16.le_iff_toNat_le,
          UInt16.reduceToNat] at h
        exact h.1
      have hu := hdigit u hg.1
      have hv := hdigit v hg'.1
      rw [groupNumber_cons hg.1, groupNumber_cons hg'.1, ← hlength, hhead, hhead',
        List.cons_lt_cons_iff, List.cons.injEq, hlt, heq, UInt16.lt_iff_toNat_lt,
        ← UInt16.toNat_inj]
      constructor <;> omega

/-- What is written in the same number of digits compares as what is written. -/
theorem writes_append_lt {w n n' : Nat} {g g' x y : JsString} (h : Writes w n g)
    (h' : Writes w n' g') : g ++ x < g' ++ y ↔ n < n' ∨ n = n' ∧ x < y := by
  obtain ⟨⟨hlength, hdigits⟩, rfl⟩ := h
  obtain ⟨⟨hlength', hdigits'⟩, rfl⟩ := h'
  have hsame := hlength.trans hlength'.symm
  obtain ⟨hlt, heq⟩ := digits_compare hsame hdigits hdigits'
  rw [append_lt_append_iff hsame, hlt, heq]

theorem js_dash : js "-" = [0x2d] := rfl

theorem js_colon : js ":" = [0x3a] := rfl

theorem js_space : js " " = [0x20] := rfl

theorem mark_append_lt (c : UInt16) (x y : JsString) : [c] ++ x < [c] ++ y ↔ x < y :=
  List.cons_lt_cons_self

/-- The fraction, or none, compares as the microseconds. -/
theorem microText_lt {n n' : Nat} {x y : JsString} (hx : IsMicroText n x) (hy : IsMicroText n' y) :
    x < y ↔ n / 1000 < n' / 1000 := by
  cases hx with
  | none h =>
    cases hy with
    | none h' =>
      rw [h, h']
      simp
    | some h' hg =>
      rw [h]
      exact iff_of_true (List.nil_lt_cons _ _) h'
  | some h hg =>
    cases hy with
    | none h' =>
      rw [h']
      simp
    | some h' hg' =>
      have hlt := writes_append_lt (x := []) (y := []) hg hg'
      rw [List.append_nil, List.append_nil] at hlt
      refine (mark_append_lt 0x2e _ _).trans (hlt.trans ?_)
      simp

/-- The texts of instants compare as the instants do, to the microsecond. -/
theorem isSqlTime_lt {t t' : Instant} {text text' : JsString} (h : IsSqlTime t text)
    (h' : IsSqlTime t' text') :
    text < text' ↔ t.seconds < t'.seconds ∨ t.seconds = t'.seconds ∧
      t.nanos / 1000 < t'.nanos / 1000 := by
  obtain ⟨hdate, hyears, hclock, hseconds, hyear, hmonth, hday, hhh, hmm, hss, hmicro⟩ := h
  obtain ⟨hdate', hyears', hclock', hseconds', hyear', hmonth', hday', hhh', hmm', hss', hmicro'⟩ :=
    h'
  rename_i d hour min sec _ _ _ _ _ _ _ d' hour' min' sec' _ _ _ _ _ _ _
  have hdays := CivilDate.toDay_lt_iff hdate hdate'
  have hdays' := CivilDate.toDay_lt_iff hdate' hdate
  unfold CivilDate.Before at hdays hdays'
  simp only [List.append_assoc, js_dash, js_colon, js_space]
  rw [writes_append_lt hyear hyear', mark_append_lt, writes_append_lt hmonth hmonth',
    mark_append_lt, writes_append_lt hday hday', mark_append_lt, writes_append_lt hhh hhh',
    mark_append_lt, writes_append_lt hmm hmm',
    mark_append_lt, writes_append_lt hss hss', microText_lt hmicro hmicro', hseconds, hseconds']
  have hy : d.year.toNat < d'.year.toNat ↔ d.year < d'.year := by omega
  have hy' : d.year.toNat = d'.year.toNat ↔ d.year = d'.year := by omega
  rw [hy, hy']
  omega

end AgentService
