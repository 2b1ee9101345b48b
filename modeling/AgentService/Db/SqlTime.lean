import AgentService.Db.Time
import AgentService.Gateway.DecodedShape
import AgentService.Gateway.TimeText

/-!
# What a time is written as for a TIMESTAMP column

`IsSqlTime` says it without the writer: the date and the clock of the instant in UTC, field
by field, and the fraction cut off after the microseconds. An instant has such a text when its
year has four digits and is not zero.
-/

namespace AgentService
open Lib

/-- A number is written with zeros in front. -/
theorem writes_pad {w n : Nat} (hw : 0 < w) (h : n < 10 ^ w) : Writes w n (pad n w) :=
  ⟨isGroup_leftpad hw h, groupNumber_leftpad n w⟩

namespace Instant

/-- The nanoseconds are less than a second. -/
def IsNormal (t : Instant) : Prop := t.nanos < 1000000000

/-- The UTC year is one a TIMESTAMP parameter is written for. -/
def InYears (t : Instant) : Prop := 1 ≤ t.date.year ∧ t.date.year ≤ 9999

instance (t : Instant) : Decidable t.InYears := by
  unfold InYears
  infer_instance

end Instant

/-- The fraction of a second, to the microsecond. -/
inductive IsMicroText (nanos : Nat) : JsString → Prop
  | none (h : nanos / 1000 = 0) : IsMicroText nanos []
  | some {g} (h : 0 < nanos / 1000) (hg : Writes 6 (nanos / 1000) g) :
      IsMicroText nanos (js "." ++ g)

/-- The text is the instant in UTC, to the microsecond. -/
inductive IsSqlTime (t : Instant) : JsString → Prop
  | mk {d : CivilDate} {hour min sec : Nat} {year month day hh mm ss micro : JsString}
      (hdate : d.IsValid) (hyears : 1 ≤ d.year ∧ d.year ≤ 9999)
      (hclock : hour < 24 ∧ min < 60 ∧ sec < 60)
      (hseconds : t.seconds = d.toDay * 86400 + (hour * 3600 + min * 60 + sec : Nat))
      (hyear : Writes 4 d.year.toNat year) (hmonth : Writes 2 d.month month)
      (hday : Writes 2 d.day day)
      (hhh : Writes 2 hour hh) (hmm : Writes 2 min mm) (hss : Writes 2 sec ss)
      (hmicro : IsMicroText t.nanos micro) :
      IsSqlTime t (year ++ js "-" ++ month ++ js "-" ++ day ++ js " " ++
        (hh ++ js ":" ++ mm ++ js ":" ++ ss) ++ micro)

theorem monthLength_le (d : CivilDate) : d.monthLength ≤ 31 := by
  unfold CivilDate.monthLength
  generalize isLeapYear d.year = leap
  rw [List.getD_eq_getElem?_getD]
  cases hget : (monthLengths leap)[d.month - 1]? with
  | none => exact Nat.zero_le 31
  | some l =>
    have hmem := List.mem_of_getElem? hget
    have hall : (monthLengths leap).all (· ≤ 31) = true := by cases leap <;> rfl
    simpa using List.all_eq_true.mp hall l hmem

/-- The clock of an instant, taken apart. -/
theorem clock_lt (t : Instant) : t.clock < 86400 := by
  unfold Instant.clock
  omega

theorem microText_pad {nanos : Nat} (h : nanos < 1000000000) :
    IsMicroText nanos (if 0 < nanos / 1000 then js "." ++ pad (nanos / 1000) 6 else []) := by
  by_cases hmicro : 0 < nanos / 1000
  · rw [if_pos hmicro]
    exact .some hmicro (writes_pad (by norm_num) (by norm_num; omega))
  · rw [if_neg hmicro]
    exact .none (by omega)

/-- The fields of an instant whose year has four digits. -/
theorem fields_ok {t : Instant} (h : t.InYears) :
    fields t = .ok (dateText t.date, clockText t.clock) := by
  obtain ⟨h₁, h₂⟩ := h
  unfold fields
  exact if_neg (by omega)

/-- The text of an instant: its date, its clock, and its microseconds where it has any. -/
theorem toSqlTime_text {t : Instant} (h : t.InYears) :
    toSqlTime t = .ok (dateText t.date ++ js " " ++ clockText t.clock ++
      if 0 < t.nanos / 1000 then js "." ++ pad (t.nanos / 1000) 6 else []) := by
  unfold toSqlTime
  rw [fields_ok h]
  rfl

/-- `toSqlTime` writes an instant within the years, and throws for any other. -/
theorem toSqlTime_isSome {t : Instant} : (∃ text, toSqlTime t = .ok text) ↔ t.InYears := by
  constructor
  · intro ⟨text, h⟩
    obtain ⟨parts, hparts, -⟩ := bind_eq_ok.mp h
    unfold fields at hparts
    by_contra hyears
    rw [if_pos (by unfold Instant.InYears at hyears; omega)] at hparts
    cases hparts
  · intro h
    exact ⟨_, toSqlTime_text h⟩

/-- What is written is the time of the instant, cut to microseconds. -/
theorem toSqlTime_spec {t : Instant} {text : JsString} (hnanos : t.IsNormal)
    (h : toSqlTime t = .ok text) : IsSqlTime t text := by
  have hyears := toSqlTime_isSome.mp ⟨text, h⟩
  rw [toSqlTime_text hyears] at h
  cases h
  obtain ⟨hvalid, hday⟩ := civilOfDay_spec (t.seconds / 86400)
  have hclock := clock_lt t
  have hdate : t.date.IsValid := hvalid
  have hmonths := hdate.2.1
  have hdays := hdate.2.2.2.trans (monthLength_le t.date)
  have hyear := hyears.2
  unfold dateText clockText
  refine .mk hdate hyears ⟨?_, ?_, ?_⟩ ?_ (writes_pad (by norm_num) ?_)
    (writes_pad (by norm_num) ?_) (writes_pad (by norm_num) ?_) (writes_pad (by norm_num) ?_)
    (writes_pad (by norm_num) ?_)
    (writes_pad (by norm_num) ?_) (microText_pad hnanos)
  all_goals norm_num
  all_goals try omega
  change t.seconds = (civilOfDay (t.seconds / 86400)).toDay * 86400 + _
  rw [hday]
  unfold Instant.clock
  omega

theorem isNormal_instantOfDate (date : Int) : (instantOfDate date).IsNormal := by
  show ((date - date / 1000 * 1000) * 1000000).toNat < 1000000000
  omega

/-! ## The instant of a decoded time -/

theorem isNormal_nanos {m : TimeGroups} (h : m.fraction.all isDigitUnit = true) :
    m.nanos < 1000000000 := by
  have hdigits : ((m.fraction.take 9).rightpad 9 0x30).all isDigitUnit = true := by
    rw [List.rightpad, List.all_append, List.all_replicate]
    apply Bool.and_eq_true_iff.mpr
    refine ⟨?_, by simp [isDigitUnit]⟩
    exact List.all_eq_true.mpr fun u hu => List.all_eq_true.mp h u (List.mem_of_mem_take hu)
  have hlen : ((m.fraction.take 9).rightpad 9 0x30).length = 9 := by
    rw [List.rightpad, List.length_append, List.length_replicate, List.length_take]
    omega
  exact groupNumber_lt ⟨hlen, hdigits⟩

/-- Every time the decoder accepts has an instant. -/
theorem instantOfTime_ok {source : JsString} {v : Value} (h : normaliseTime source = .ok v) :
    ∃ t, instantOfTime v = .ok t ∧ t.IsNormal := by
  have hinstant {text : JsString} {m : TimeGroups} (hm : matchTime text = some m) :
      ∃ t, (timeInstant text).mapError DecodeError.message = .ok t ∧ t.IsNormal := by
    rw [timeInstant_match hm]
    exact ⟨_, rfl, isNormal_nanos (isMatch_of_matchTime hm).fraction⟩
  rcases normaliseTime_ok h with ⟨t, rfl⟩ | rfl
  · obtain ⟨m, -, -, -, -, hm⟩ := normaliseTime_groups h
    exact hinstant hm
  · cases hmatch : matchTime source with
    | none =>
      rw [normaliseTime, hmatch] at h
      cases h
    | some m => exact hinstant hmatch

end AgentService
