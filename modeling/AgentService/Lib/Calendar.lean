import Mathlib.Algebra.BigOperators.Group.List.Basic
import Mathlib.Algebra.Order.Ring.Nat
import Mathlib.Data.Int.Order.Basic

/-!
# The proleptic Gregorian calendar

Days are counted from 1970-01-01, dates before it and before the calendar was introduced
included. Every day is that of a valid date, and valid dates come in the order of their days.
-/

namespace Lib

def isLeapYear (y : Int) : Bool := y % 4 == 0 && (y % 100 != 0 || y % 400 == 0)

def monthLengths (leap : Bool) : List Nat :=
  [31, if leap then 29 else 28, 31, 30, 31, 30, 31, 31, 30, 31, 30, 31]

/-- The first day of a year. -/
def dayOfYear (y : Int) : Int :=
  365 * (y - 1970) + (y - 1969) / 4 - (y - 1901) / 100 + (y - 1601) / 400

/-- Months and days count from one. -/
structure CivilDate where
  year : Int
  month : Nat
  day : Nat
  deriving DecidableEq, Repr

namespace CivilDate

def monthLength (d : CivilDate) : Nat := (monthLengths (isLeapYear d.year)).getD (d.month - 1) 0

def IsValid (d : CivilDate) : Prop := 1 ≤ d.month ∧ d.month ≤ 12 ∧ 1 ≤ d.day ∧ d.day ≤ d.monthLength

def toDay (d : CivilDate) : Int :=
  dayOfYear d.year + ((monthLengths (isLeapYear d.year)).take (d.month - 1)).sum + (d.day - 1)

end CivilDate

/-- The year a day is in: the mean length of a year leaves three candidates. -/
def yearOfDay (n : Int) : Int :=
  let y := 1970 + n * 400 / 146097
  if n < dayOfYear y then y - 1 else if dayOfYear (y + 1) ≤ n then y + 1 else y

/-- How many of the stretches are over after `k` days, and the days since. -/
def splitDays : List Nat → Nat → Nat × Nat
  | [], k => (0, k)
  | l :: ls, k => if k < l then (0, k) else ((splitDays ls (k - l)).1 + 1, (splitDays ls (k - l)).2)

def civilOfDay (n : Int) : CivilDate :=
  let y := yearOfDay n
  let split := splitDays (monthLengths (isLeapYear y)) (n - dayOfYear y).toNat
  ⟨y, split.1 + 1, split.2 + 1⟩

/-! ## Years -/

theorem isLeapYear_iff {y : Int} :
    isLeapYear y = true ↔ y % 4 = 0 ∧ (y % 100 ≠ 0 ∨ y % 400 = 0) := by
  simp [isLeapYear]

theorem dayOfYear_succ (y : Int) :
    dayOfYear (y + 1) = dayOfYear y + (monthLengths (isLeapYear y)).sum := by
  by_cases h : isLeapYear y = true
  · rw [h]
    rw [isLeapYear_iff] at h
    show dayOfYear (y + 1) = dayOfYear y + (366 : Int)
    unfold dayOfYear
    omega
  · have hleap : isLeapYear y = false := by simpa using h
    rw [hleap]
    rw [isLeapYear_iff] at h
    show dayOfYear (y + 1) = dayOfYear y + (365 : Int)
    unfold dayOfYear
    omega

theorem dayOfYear_mono {x y : Int} (h : x ≤ y) : dayOfYear x ≤ dayOfYear y := by
  unfold dayOfYear
  omega

theorem yearOfDay_spec (n : Int) :
    dayOfYear (yearOfDay n) ≤ n ∧ n < dayOfYear (yearOfDay n + 1) := by
  unfold yearOfDay
  dsimp only
  generalize hy : 1970 + n * 400 / 146097 = y
  split_ifs with h₁ h₂
  · rw [Int.sub_add_cancel]
    refine ⟨?_, h₁⟩
    unfold dayOfYear
    omega
  · refine ⟨h₂, ?_⟩
    unfold dayOfYear
    omega
  · exact ⟨Int.not_lt.mp h₁, Int.not_le.mp h₂⟩

/-! ## Stretches of days -/

theorem splitDays_spec (ls : List Nat) :
    ∀ k < ls.sum, (splitDays ls k).2 < ls.getD (splitDays ls k).1 0 ∧
    (ls.take (splitDays ls k).1).sum + (splitDays ls k).2 = k := by
  induction ls with
  | nil => simp
  | cons l ls ih =>
    intro k hk
    rw [splitDays]
    by_cases hl : k < l
    · simp [hl]
    · rw [if_neg hl]
      obtain ⟨h₁, h₂⟩ := ih (k - l) (by rw [List.sum_cons] at hk; omega)
      refine ⟨by simpa using h₁, ?_⟩
      simp only [List.take_succ_cons, List.sum_cons]
      omega

/-- What is within a stretch is before the end of it, and so of every later one. -/
theorem sum_take_add_lt_take (ls : List Nat) : ∀ {m m' r}, m < m' → r < ls.getD m 0 →
    (ls.take m).sum + r < (ls.take m').sum := by
  induction ls with
  | nil => simp
  | cons l ls ih =>
    intro m m' r hm h
    obtain ⟨k, rfl⟩ := Nat.exists_eq_add_one_of_ne_zero (Nat.ne_zero_of_lt hm)
    cases m with
    | zero =>
      have hr : r < l := by simpa using h
      simp only [List.take_zero, List.sum_nil, List.take_succ_cons, List.sum_cons]
      omega
    | succ m =>
      have hr := ih (Nat.lt_of_succ_lt_succ hm) (r := r) (by simpa using h)
      simp only [List.take_succ_cons, List.sum_cons]
      omega

theorem sum_take_add_lt (ls : List Nat) (m r : Nat) (h : r < ls.getD m 0) :
    (ls.take m).sum + r < ls.sum := by
  have hm : m < ls.length := by
    by_contra hlen
    rw [List.getD_eq_getElem?_getD, List.getElem?_eq_none (Nat.not_lt.mp hlen)] at h
    exact Nat.not_lt_zero _ h
  have hlt := sum_take_add_lt_take ls hm h
  rwa [List.take_length] at hlt

/-! ## Days and dates -/

theorem civilOfDay_spec (n : Int) : (civilOfDay n).IsValid ∧ (civilOfDay n).toDay = n := by
  obtain ⟨hlo, hhi⟩ := yearOfDay_spec n
  rw [dayOfYear_succ] at hhi
  have hk : (n - dayOfYear (yearOfDay n)).toNat <
    (monthLengths (isLeapYear (yearOfDay n))).sum := by omega
  obtain ⟨hday, hsum⟩ := splitDays_spec _ _ hk
  unfold civilOfDay
  dsimp only
  generalize splitDays (monthLengths (isLeapYear (yearOfDay n)))
    (n - dayOfYear (yearOfDay n)).toNat = split at hday hsum
  obtain ⟨m, r⟩ := split
  refine ⟨⟨Nat.succ_pos m, ?_, Nat.succ_pos r, hday⟩, ?_⟩
  · show m + 1 ≤ 12
    by_contra hm
    have hlen : (monthLengths (isLeapYear (yearOfDay n))).length ≤ m := by
      show 12 ≤ m
      omega
    rw [List.getD_eq_getElem?_getD, List.getElem?_eq_none hlen] at hday
    exact absurd hday (Nat.not_lt_zero _)
  · show dayOfYear (yearOfDay n) + (((monthLengths (isLeapYear (yearOfDay n))).take m).sum : Int) +
      ((r + 1 : Nat) - 1 : Int) = n
    dsimp only at hsum
    omega

theorem CivilDate.IsValid.day_lt {d : CivilDate} (h : d.IsValid) :
    d.day - 1 < (monthLengths (isLeapYear d.year)).getD (d.month - 1) 0 := by
  obtain ⟨-, -, hday, hlast⟩ := h
  show d.day - 1 < d.monthLength
  omega

/-- A valid date is within its year. -/
theorem toDay_mem_year {d : CivilDate} (h : d.IsValid) :
    dayOfYear d.year ≤ d.toDay ∧ d.toDay < dayOfYear (d.year + 1) := by
  have hlt := sum_take_add_lt _ _ _ h.day_lt
  have hday := h.2.2.1
  rw [dayOfYear_succ]
  unfold CivilDate.toDay
  omega

namespace CivilDate

/-- The order of dates. -/
def Before (d e : CivilDate) : Prop :=
  d.year < e.year ∨ d.year = e.year ∧ (d.month < e.month ∨ d.month = e.month ∧ d.day < e.day)

theorem Before.toDay_lt {d e : CivilDate} (hd : d.IsValid) (he : e.IsValid) (h : d.Before e) :
    d.toDay < e.toDay := by
  rcases h with hyear | ⟨hyear, hmonth | ⟨hmonth, hday⟩⟩
  · calc d.toDay < dayOfYear (d.year + 1) := (toDay_mem_year hd).2
      _ ≤ dayOfYear e.year := dayOfYear_mono hyear
      _ ≤ e.toDay := (toDay_mem_year he).1
  · have hm : d.month - 1 < e.month - 1 := by
      have hpos := hd.1
      omega
    have hlt := sum_take_add_lt_take (monthLengths (isLeapYear d.year)) hm hd.day_lt
    have hpos := hd.2.2.1
    have hpos' := he.2.2.1
    unfold toDay
    rw [← hyear]
    omega
  · unfold toDay
    rw [← hyear, ← hmonth]
    omega

/-- Days are counted in the order of the dates. -/
theorem toDay_lt_iff {d e : CivilDate} (hd : d.IsValid) (he : e.IsValid) :
    d.toDay < e.toDay ↔ d.Before e := by
  constructor
  · intro h
    by_contra hnot
    have hback : d = e ∨ e.Before d := by
      obtain ⟨y, m, k⟩ := d
      obtain ⟨y', m', k'⟩ := e
      simp only [Before, CivilDate.mk.injEq] at hnot ⊢
      omega
    rcases hback with rfl | hback
    · exact Int.lt_irrefl _ h
    · exact Int.lt_asymm h (hback.toDay_lt he hd)
  · exact Before.toDay_lt hd he

end CivilDate

end Lib
