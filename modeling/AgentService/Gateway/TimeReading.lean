import AgentService.Gateway.Instant
import AgentService.Gateway.TimeText

/-!
# What a time text says

`ReadsTime` is the time texts of Go 1.25 and what each of them says, without the code that reads
them: a date and a clock, and how far that clock is ahead of UTC. `IsRfc3339` is the strict form
among them. Normalising keeps what a text says, and `timeInstant` is the instant of it.
-/

namespace AgentService
open Lib

/-- A date, a clock, and the seconds that clock is ahead of UTC. -/
structure Moment where
  date : CivilDate
  hour : Nat
  min : Nat
  sec : Nat
  nanos : Nat
  offset : Int
  date_valid : date.IsValid
  date_years : 0 ≤ date.year ∧ date.year ≤ 9999
  clock : hour < 24 ∧ min < 60 ∧ sec < 60

namespace Moment

/-- The clock's seconds since midnight. -/
def seconds (r : Moment) : Nat := r.hour * 3600 + r.min * 60 + r.sec

/-- The wall time less the offset. -/
def instant (r : Moment) : Instant := ⟨r.date.toDay * 86400 + r.seconds - r.offset, r.nanos⟩

end Moment

/-- The texts made of a date, a clock, a fraction and a zone, in the forms given. -/
inductive TimeShape (Hour Fraction : Nat → JsString → Prop) (Zone : Int → JsString → Prop)
    (r : Moment) : JsString → Prop
  | mk {year month day hour min sec fraction zone : JsString}
      (hyear : Writes 4 r.date.year.toNat year) (hmonth : Writes 2 r.date.month month)
      (hday : Writes 2 r.date.day day) (hhour : Hour r.hour hour)
      (hmin : Writes 2 r.min min) (hsec : Writes 2 r.sec sec)
      (hfraction : Fraction r.nanos fraction)
      (hzone : Zone r.offset zone) :
      TimeShape Hour Fraction Zone r
        (year ++ js "-" ++ month ++ js "-" ++ day ++ js "T" ++ hour ++ js ":" ++ min ++ js ":" ++
          sec ++ fraction ++ zone)

/-- The hour has one digit or two. -/
def ReadsHour (n : Nat) (g : JsString) : Prop := Writes 1 n g ∨ Writes 2 n g

/-- The first nine digits behind a point or a comma, as nanoseconds. -/
inductive ReadsFraction : Nat → JsString → Prop
  | none : ReadsFraction 0 []
  | some {mark : UInt16} {digits : JsString} (hmark : mark = 0x2e ∨ mark = 0x2c) (hne : digits ≠ [])
      (hdigits : digits.all isDigitUnit = true) :
      ReadsFraction (groupNumber (digits.take 9) * 10 ^ (9 - (digits.take 9).length))
        (mark :: digits)

/-- `Z`, or hours up to 24 and minutes up to 60. -/
inductive ReadsZone : Int → JsString → Prop
  | utc : ReadsZone 0 (js "Z")
  | east {h m : Nat} {hh mm : JsString} (hhour : Writes 2 h hh) (hmin : Writes 2 m mm)
      (hrange : h ≤ 24 ∧ m ≤ 60) :
      ReadsZone ((h * 60 + m) * 60) (js "+" ++ hh ++ js ":" ++ mm)
  | west {h m : Nat} {hh mm : JsString} (hhour : Writes 2 h hh) (hmin : Writes 2 m mm)
      (hrange : h ≤ 24 ∧ m ≤ 60) :
      ReadsZone (-((h * 60 + m) * 60)) (js "-" ++ hh ++ js ":" ++ mm)

/-- The text is a time, and this is what it says. -/
def ReadsTime (r : Moment) (text : JsString) : Prop :=
  TimeShape ReadsHour ReadsFraction ReadsZone r text

/-- Up to nine digits behind a point, the last of them not zero. -/
inductive ShortFraction : Nat → JsString → Prop
  | none : ShortFraction 0 []
  | some {digits : JsString} {last : UInt16} (hlength : digits.length < 9)
      (hdigits : (digits ++ [last]).all isDigitUnit = true) (hlast : last ≠ 0x30) :
      ShortFraction (groupNumber (digits ++ [last]) * 10 ^ (8 - digits.length))
        (js "." ++ digits ++ [last])

/-- `Z` for a zero offset, or hours below 24 and minutes below 60. -/
inductive StrictZone : Int → JsString → Prop
  | utc : StrictZone 0 (js "Z")
  | east {h m : Nat} {hh mm : JsString} (hhour : Writes 2 h hh) (hmin : Writes 2 m mm)
      (hrange : h < 24 ∧ m < 60) (hne : h ≠ 0 ∨ m ≠ 0) :
      StrictZone ((h * 60 + m) * 60) (js "+" ++ hh ++ js ":" ++ mm)
  | west {h m : Nat} {hh mm : JsString} (hhour : Writes 2 h hh) (hmin : Writes 2 m mm)
      (hrange : h < 24 ∧ m < 60) (hne : h ≠ 0 ∨ m ≠ 0) :
      StrictZone (-((h * 60 + m) * 60)) (js "-" ++ hh ++ js ":" ++ mm)

/-- The text is what RFC 3339 has for the moment, in its shortest form. -/
def IsRfc3339 (r : Moment) (text : JsString) : Prop :=
  TimeShape (Writes 2) ShortFraction StrictZone r text

/-! ## The groups of a text -/

/-- The text of the groups, with this in front of the fraction. -/
def TimeGroups.sourceWith (m : TimeGroups) (mark : UInt16) : JsString :=
  m.year ++ js "-" ++ m.month ++ js "-" ++ m.day ++ js "T" ++ m.hour ++ js ":" ++ m.min ++
    js ":" ++ m.sec ++ (if m.fraction = [] then [] else mark :: m.fraction) ++ zoneSource m.zone

theorem fractionGroup_text {s g r : JsString} (h : fractionGroup s = some (g, r)) :
    ∃ mark : UInt16, (mark = 0x2e ∨ mark = 0x2c) ∧ s = (if g = [] then [] else mark :: g) ++ r := by
  unfold fractionGroup at h
  split at h
  · rename_i c s
    split at h
    · rename_i hc
      obtain ⟨rfl, -, hlength, -⟩ := digitRun_ok h
      have hg : g ≠ [] := List.ne_nil_of_length_pos hlength
      exact ⟨c, hc, by rw [if_neg hg, List.cons_append]⟩
    · cases h
      exact ⟨0x2e, .inl rfl, rfl⟩
  · cases h
    exact ⟨0x2e, .inl rfl, rfl⟩

theorem zoneGroup_text {s : JsString} {zone : Option (UInt16 × JsString × JsString)}
    (h : zoneGroup s = some zone) : s = zoneSource zone := by
  unfold zoneGroup at h
  split at h
  · cases h
  · rename_i c s
    split at h
    · rename_i hc
      split at h
      · rename_i hs
        cases h
        rw [hc, hs]
        rfl
      · cases h
    · split at h
      · obtain ⟨⟨hour, s₁⟩, hhour, h⟩ := Option.bind_eq_some_iff.mp h
        obtain ⟨s₂, hcolon, h⟩ := Option.bind_eq_some_iff.mp h
        obtain ⟨⟨min, s₃⟩, hmin, h⟩ := Option.bind_eq_some_iff.mp h
        dsimp only at h hcolon hmin
        split at h
        · rename_i hs
          cases h
          rw [(digitGroup_ok hhour).1, expect_ok hcolon, (digitGroup_ok hmin).1, hs,
            List.append_nil]
          rfl
        · cases h
      · cases h

/-- The text that matches is the text of its groups. -/
theorem matchTime_text {text : JsString} {m : TimeGroups} (h : matchTime text = some m) :
    ∃ mark : UInt16, (mark = 0x2e ∨ mark = 0x2c) ∧ text = m.sourceWith mark := by
  unfold matchTime at h
  obtain ⟨⟨year, s₁⟩, hyear, h⟩ := Option.bind_eq_some_iff.mp h
  obtain ⟨s₂, hdash, h⟩ := Option.bind_eq_some_iff.mp h
  obtain ⟨⟨month, s₃⟩, hmonth, h⟩ := Option.bind_eq_some_iff.mp h
  obtain ⟨s₄, hdash', h⟩ := Option.bind_eq_some_iff.mp h
  obtain ⟨⟨day, s₅⟩, hday, h⟩ := Option.bind_eq_some_iff.mp h
  obtain ⟨s₆, hmark, h⟩ := Option.bind_eq_some_iff.mp h
  obtain ⟨⟨hour, s₇⟩, hhour, h⟩ := Option.bind_eq_some_iff.mp h
  obtain ⟨s₈, hcolon, h⟩ := Option.bind_eq_some_iff.mp h
  obtain ⟨⟨min, s₉⟩, hmin, h⟩ := Option.bind_eq_some_iff.mp h
  obtain ⟨s₁₀, hcolon', h⟩ := Option.bind_eq_some_iff.mp h
  obtain ⟨⟨sec, s₁₁⟩, hsec, h⟩ := Option.bind_eq_some_iff.mp h
  obtain ⟨⟨fraction, s₁₂⟩, hfraction, h⟩ := Option.bind_eq_some_iff.mp h
  obtain ⟨zone, hzone, h⟩ := Option.bind_eq_some_iff.mp h
  cases h
  obtain ⟨mark, hpoint, htext⟩ := fractionGroup_text hfraction
  refine ⟨mark, hpoint, ?_⟩
  rw [zoneGroup_text hzone] at htext
  rw [(digitGroup_ok hyear).1, expect_ok hdash, (digitGroup_ok hmonth).1, expect_ok hdash',
    (digitGroup_ok hday).1, expect_ok hmark, (digitRun_ok hhour).1, expect_ok hcolon,
    (digitGroup_ok hmin).1, expect_ok hcolon',
    (digitGroup_ok hsec).1, htext]
  simp [TimeGroups.sourceWith, js]

/-! ## The groups as a moment -/

theorem groupNumber_rightpad (g : JsString) (w : Nat) :
    groupNumber (g.rightpad w 0x30) = groupNumber g * 10 ^ (w - g.length) := by
  unfold groupNumber
  rw [List.rightpad, latin1Encode_append, readDecimal_append]
  have hzeros (k : Nat) : latin1Encode (List.replicate k 0x30) = List.replicate k 0x30 := by
    rw [latin1Encode, List.map_replicate]
    rfl
  rw [hzeros, List.length_replicate, ← List.append_nil (List.replicate _ _), readDecimal_replicate]
  rfl

theorem isLeap_eq (y : Nat) : isLeap y = isLeapYear y := by
  rw [Bool.eq_iff_iff, isLeapYear_iff]
  simp only [isLeap, Bool.and_eq_true, Bool.or_eq_true, beq_iff_eq, bne_iff_ne]
  omega

/-- `daysIn` is the calendar's. -/
theorem daysIn_eq {month : Nat} (hlo : 1 ≤ month) (hhi : month ≤ 12) (year day : Nat) :
    daysIn month year = (CivilDate.mk year month day).monthLength := by
  unfold daysIn CivilDate.monthLength
  dsimp only
  rw [isLeap_eq]
  interval_cases month <;> cases isLeapYear year <;> rfl

/-- The day `setUTCFullYear` sets is the date's. -/
theorem utcDay_eq (year : Int) {month : Nat} (day : Nat) (hlo : 1 ≤ month) (hhi : month ≤ 12) :
    utcDay year (month - 1) day = (CivilDate.mk year month day).toDay := by
  have hyear : (year * 12 + (month - 1)) / 12 = year := by omega
  have hmonth : ((year * 12 + ((month : Int) - 1)) % 12).toNat.succ = month := by omega
  unfold utcDay
  rw [hyear, hmonth]
  unfold CivilDate.toDay
  dsimp only
  omega

namespace TimeGroups

/-- The date of the groups. -/
def date (m : TimeGroups) : CivilDate :=
  ⟨groupNumber m.year, groupNumber m.month, groupNumber m.day⟩

/-- What the checks of `normaliseTime` say. -/
structure Checked (m : TimeGroups) : Prop where
  date : m.date.IsValid
  clock : groupNumber m.hour < 24 ∧ groupNumber m.min < 60 ∧ groupNumber m.sec < 60
  zone : m.offHour ≤ 24 ∧ m.offMin ≤ 60

theorem inRange_iff {m : TimeGroups} : m.inRange = true ↔ m.Checked := by
  have hlength {month : Nat} (hlo : 1 ≤ month) (hhi : month ≤ 12) :=
    daysIn_eq hlo hhi (groupNumber m.year) (groupNumber m.day)
  simp only [inRange, Bool.and_eq_true, decide_eq_true_eq]
  constructor
  · rintro ⟨⟨⟨⟨⟨⟨⟨⟨hlo, hhi⟩, hday⟩, hlast⟩, hhour⟩, hmin⟩, hsec⟩, hoffHour⟩, hoffMin⟩
    rw [hlength hlo hhi] at hlast
    exact ⟨⟨hlo, hhi, hday, hlast⟩, ⟨by omega, by omega, by omega⟩, hoffHour, hoffMin⟩
  · rintro ⟨⟨hlo, hhi, hday, hlast⟩, ⟨hhour, hmin, hsec⟩, hoffHour, hoffMin⟩
    change groupNumber m.day ≤ _ at hlast
    exact ⟨⟨⟨⟨⟨⟨⟨⟨hlo, hhi⟩, hday⟩, (hlength hlo hhi).symm ▸ hlast⟩, by omega⟩, by omega⟩,
      by omega⟩, hoffHour⟩, hoffMin⟩

/-- The moment the groups say. -/
def moment (m : TimeGroups) (hmatch : m.IsMatch) (h : m.Checked) : Moment where
  date := m.date
  hour := groupNumber m.hour
  min := groupNumber m.min
  sec := groupNumber m.sec
  nanos := m.nanos
  offset := m.signedOffset
  date_valid := h.date
  date_years :=
    ⟨Int.natCast_nonneg _, Int.ofNat_le.mpr (Nat.le_of_lt_succ (groupNumber_lt hmatch.year))⟩
  clock := h.clock

theorem wallSeconds_eq {m : TimeGroups} (h : m.Checked) : m.wallSeconds =
    m.date.toDay * 86400 + (groupNumber m.hour * 3600 + groupNumber m.min * 60 +
      groupNumber m.sec : Nat) := by
  have hday : utcDay (groupNumber m.year) (groupNumber m.month - 1) (groupNumber m.day) =
      m.date.toDay :=
    utcDay_eq _ _ h.date.1 h.date.2.1
  unfold wallSeconds
  rw [hday]
  rfl

theorem instant_moment {m : TimeGroups} (hmatch : m.IsMatch) (h : m.Checked) :
    (m.moment hmatch h).instant = ⟨m.wallSeconds - m.signedOffset, m.nanos⟩ := by
  rw [wallSeconds_eq h]
  rfl

theorem nanos_eq (m : TimeGroups) :
    m.nanos = groupNumber (m.fraction.take 9) * 10 ^ (9 - (m.fraction.take 9).length) :=
  groupNumber_rightpad _ _

/-- A fraction without its zeros is the same number of nanoseconds. -/
theorem nanos_shortFraction (m : TimeGroups) :
    m.shortFraction.rightpad 9 0x30 = (m.fraction.take 9).rightpad 9 0x30 := by
  have hzeros : (m.fraction.take 9).rtakeWhile (· == 0x30) =
      List.replicate ((m.fraction.take 9).rtakeWhile (· == 0x30)).length 0x30 := by
    apply List.eq_replicate_of_mem
    intro u hu
    simpa using List.mem_rtakeWhile_imp hu
  have hsplit := @List.rdropWhile_append_rtakeWhile _ (· == 0x30) (m.fraction.take 9)
  rw [hzeros] at hsplit
  have hlength := List.length_take_le 9 m.fraction
  unfold shortFraction
  conv_rhs => rw [← hsplit]
  conv at hlength => rw [← hsplit]
  rw [List.length_append, List.length_replicate] at hlength
  rw [List.rightpad, List.rightpad, List.append_assoc, List.replicate_append_replicate,
    List.length_append, List.length_replicate]
  congr 2
  omega

theorem signedOffset_abs (m : TimeGroups) :
    m.signedOffset = m.offset ∨ m.signedOffset = -m.offset := by
  unfold signedOffset offset offHour offMin
  cases m.zone with
  | none => exact .inl rfl
  | some z =>
    simp only [Option.elim_some]
    split_ifs
    · left
      push_cast
      ring
    · right
      push_cast
      ring

end TimeGroups

/-! ## What the groups' texts say -/

theorem writes_of_isGroup {w : Nat} {g : JsString} (h : IsGroup w g) :
    Writes w (groupNumber g) g := ⟨h, rfl⟩

theorem readsFraction_groups {m : TimeGroups} (h : m.IsMatch) {mark : UInt16}
    (hmark : mark = 0x2e ∨ mark = 0x2c) :
    ReadsFraction m.nanos (if m.fraction = [] then [] else mark :: m.fraction) := by
  rw [m.nanos_eq]
  by_cases hnil : m.fraction = []
  · rw [if_pos hnil, hnil]
    exact .none
  · rw [if_neg hnil]
    exact .some hmark hnil h.fraction

theorem signedOffset_east {m : TimeGroups} {hour min : JsString}
    (h : m.zone = some (0x2b, hour, min)) :
    m.signedOffset = (groupNumber hour * 60 + groupNumber min) * 60 := by
  unfold TimeGroups.signedOffset
  rw [h]
  exact Int.mul_one _

theorem signedOffset_west {m : TimeGroups} {hour min : JsString}
    (h : m.zone = some (0x2d, hour, min)) :
    m.signedOffset = -((groupNumber hour * 60 + groupNumber min) * 60) := by
  unfold TimeGroups.signedOffset
  rw [h]
  exact Int.mul_neg_one _

theorem readsZone_groups {m : TimeGroups} (h : m.IsMatch) (hchecked : m.Checked) :
    ReadsZone m.signedOffset (zoneSource m.zone) := by
  have hrange := hchecked.zone
  unfold TimeGroups.offHour TimeGroups.offMin at hrange
  cases hzone : m.zone with
  | none =>
    unfold TimeGroups.signedOffset
    rw [hzone]
    exact .utc
  | some z =>
    obtain ⟨sign, hour, min⟩ := z
    obtain ⟨hsign, hhour, hmin⟩ := h.zone _ hzone
    rw [hzone] at hrange
    rcases hsign with hsign | hsign <;> cases hsign
    · rw [signedOffset_east hzone]
      have hreads := ReadsZone.east (writes_of_isGroup hhour) (writes_of_isGroup hmin) hrange
      simpa [js, zoneSource] using hreads
    · rw [signedOffset_west hzone]
      have hreads := ReadsZone.west (writes_of_isGroup hhour) (writes_of_isGroup hmin) hrange
      simpa [js, zoneSource] using hreads

theorem readsHour_groups {m : TimeGroups} (h : m.IsMatch) :
    ReadsHour (groupNumber m.hour) m.hour := by
  obtain ⟨hdigits, hlo, hhi⟩ := h.hour
  by_cases hone : m.hour.length = 1
  · exact .inl ⟨⟨hone, hdigits⟩, rfl⟩
  · exact .inr ⟨⟨by omega, hdigits⟩, rfl⟩

/-- The text of the groups says their moment. -/
theorem readsTime_groups {m : TimeGroups} (h : m.IsMatch) (hchecked : m.Checked) {mark : UInt16}
    (hmark : mark = 0x2e ∨ mark = 0x2c) : ReadsTime (m.moment h hchecked) (m.sourceWith mark) :=
  .mk (writes_of_isGroup h.year) (writes_of_isGroup h.month) (writes_of_isGroup h.day)
    (readsHour_groups h) (writes_of_isGroup h.min) (writes_of_isGroup h.sec)
    (readsFraction_groups h hmark) (readsZone_groups h hchecked)

theorem shortFraction_groups {m : TimeGroups} (h : m.IsMatch) :
    ShortFraction m.nanos (if m.shortFraction = [] then [] else js "." ++ m.shortFraction) := by
  have hnanos : m.nanos = groupNumber m.shortFraction * 10 ^ (9 - m.shortFraction.length) := by
    unfold TimeGroups.nanos
    rw [← m.nanos_shortFraction]
    exact groupNumber_rightpad _ _
  by_cases hnil : m.shortFraction = []
  · rw [hnanos, if_pos hnil, hnil]
    exact .none
  · rw [if_neg hnil]
    have hlast := List.rdropWhile_last_not (· == 0x30) (m.fraction.take 9) hnil
    have hlength := (List.rdropWhile_prefix (· == 0x30) (m.fraction.take 9)).length_le.trans
      (List.length_take_le 9 _)
    have hdigits : m.shortFraction.all isDigitUnit = true := by
      apply List.all_eq_true.mpr
      intro u hu
      have hmem := (List.rdropWhile_prefix _ _).subset hu
      exact List.all_eq_true.mp h.fraction u (List.mem_of_mem_take hmem)
    change ¬ (m.shortFraction.getLast hnil == 0x30) = true at hlast
    change m.shortFraction.length ≤ 9 at hlength
    have hsplit := List.dropLast_append_getLast hnil
    generalize m.shortFraction.getLast hnil = last at hsplit hlast
    generalize m.shortFraction.dropLast = digits at hsplit
    rw [← hsplit] at hnanos hdigits hlength ⊢
    rw [List.length_append, List.length_singleton] at hnanos hlength
    rw [hnanos, ← List.append_assoc, show 9 - (digits.length + 1) = 8 - digits.length by omega]
    exact .some (by omega) hdigits (by simpa using hlast)

/-- An offset below a day, taken apart again. -/
theorem offset_parts {m : TimeGroups} (hoffset : m.offset < 86400) :
    m.offset / 3600 < 24 ∧ m.offset % 3600 / 60 < 60 ∧
      m.offset = (m.offset / 3600 * 60 + m.offset % 3600 / 60) * 60 := by
  have hminutes : m.offset % 60 = 0 := Nat.mul_mod_left _ 60
  omega

theorem strictZone_groups {m : TimeGroups} (h : m.IsMatch) (hoffset : m.offset < 86400) :
    StrictZone m.signedOffset m.zoneText := by
  obtain ⟨hhours, hminutes, hparts⟩ := offset_parts hoffset
  have hhour :=
    And.intro (isGroup_two (hhours.trans (by omega))) (groupNumber_two (m.offset / 3600))
  have hmin :=
    And.intro (isGroup_two (hminutes.trans (by omega))) (groupNumber_two (m.offset % 3600 / 60))
  by_cases hz : m.offset = 0
  · have hzero : m.signedOffset = 0 := by
      rcases m.signedOffset_abs with h | h <;> rw [h, hz] <;> rfl
    have htext : m.zoneText = js "Z" := by
      unfold TimeGroups.zoneText
      split
      · rfl
      · exact if_pos hz
    rw [hzero, htext]
    exact .utc
  · obtain ⟨⟨sign, hour, min⟩, hzone⟩ := zone_of_offset m hz
    have hne : m.offset / 3600 ≠ 0 ∨ m.offset % 3600 / 60 ≠ 0 := by omega
    have htext : m.zoneText = sign :: two (m.offset / 3600) ++ js ":" ++
        two (m.offset % 3600 / 60) := by
      unfold TimeGroups.zoneText
      rw [hzone]
      exact if_neg hz
    have hsum : m.offset = (groupNumber hour * 60 + groupNumber min) * 60 := by
      unfold TimeGroups.offset TimeGroups.offHour TimeGroups.offMin
      rw [hzone]
      rfl
    have hseconds : ((groupNumber hour : Int) * 60 + groupNumber min) * 60 =
        ((m.offset / 3600 : Nat) * 60 + (m.offset % 3600 / 60 : Nat)) * 60 := by omega
    rw [htext]
    rcases (h.zone _ hzone).1 with hsign | hsign <;> cases hsign
    · rw [signedOffset_east hzone, hseconds]
      exact .east hhour hmin ⟨hhours, hminutes⟩ hne
    · rw [signedOffset_west hzone, hseconds]
      exact .west hhour hmin ⟨hhours, hminutes⟩ hne

/-- The text a time is written as is the strict one of its moment. -/
theorem isRfc3339_text {m : TimeGroups} (h : m.IsMatch) (hchecked : m.Checked)
    (hoffset : m.offset < 86400) : IsRfc3339 (m.moment h hchecked) m.text :=
  .mk (writes_of_isGroup h.year) (writes_of_isGroup h.month) (writes_of_isGroup h.day)
    ⟨isGroup_two (hchecked.clock.1.trans (by omega)), groupNumber_two _⟩ (writes_of_isGroup h.min)
    (writes_of_isGroup h.sec)
    (shortFraction_groups h) (strictZone_groups h hoffset)

/-! ## Normalising keeps the moment -/

theorem signedOffset_normal (m : TimeGroups) (hoffset : m.offset < 86400) :
    m.normal.signedOffset = m.signedOffset := by
  have hnormal := m.normal.signedOffset_abs
  rw [offset_normal] at hnormal
  by_cases hz : m.offset = 0
  · rcases hnormal with h | h <;> rcases m.signedOffset_abs with h' | h' <;> rw [h, h', hz] <;> rfl
  · obtain ⟨⟨sign, hour, min⟩, hzone⟩ := zone_of_offset m hz
    obtain ⟨-, -, hparts⟩ := offset_parts hoffset
    have hsum : m.offset = (groupNumber hour * 60 + groupNumber min) * 60 := by
      unfold TimeGroups.offset TimeGroups.offHour TimeGroups.offMin
      rw [hzone]
      rfl
    unfold TimeGroups.signedOffset TimeGroups.normal
    rw [hzone, if_neg hz]
    simp only [Option.map_some, Option.elim_some, groupNumber_two]
    congr 1
    omega

theorem nanos_normal (m : TimeGroups) : m.normal.nanos = m.nanos := by
  have hlength := (List.rdropWhile_prefix (· == 0x30) (m.fraction.take 9)).length_le.trans
    (List.length_take_le 9 _)
  have htake : m.normal.fraction.take 9 = m.shortFraction := List.take_of_length_le hlength
  unfold TimeGroups.nanos
  rw [htake, m.nanos_shortFraction]

theorem wallSeconds_normal (m : TimeGroups) : m.normal.wallSeconds = m.wallSeconds := by
  unfold TimeGroups.wallSeconds TimeGroups.normal
  rw [groupNumber_two]

/-- What a time text that is accepted says, and that a text it is normalised to says
the same in the strict form. -/
theorem normaliseTime_reads {t : JsString} {v : Value} (h : normaliseTime t = .ok v) :
    ∃ r : Moment, ReadsTime r t ∧ timeInstant t = .ok r.instant ∧
      ((∃ s, v = .text s ∧ IsRfc3339 r s) ∨
        (v = .unencodable t ∧ (86400 ≤ r.offset ∨ r.offset ≤ -86400))) := by
  cases hmatch : matchTime t with
  | none =>
    rw [normaliseTime, hmatch] at h
    cases h
  | some m =>
    have hgroups := isMatch_of_matchTime hmatch
    obtain ⟨mark, hmark, htext⟩ := matchTime_text hmatch
    rw [normaliseTime, hmatch] at h
    dsimp only at h
    split_ifs at h with hrange hoffset
    · have hchecked := TimeGroups.inRange_iff.mp (by simpa using hrange)
      refine ⟨m.moment hgroups hchecked, htext ▸ readsTime_groups hgroups hchecked hmark, ?_, ?_⟩
      · rw [timeInstant_match hmatch, m.instant_moment]
      · cases h
        right
        refine ⟨rfl, ?_⟩
        change 86400 ≤ m.signedOffset ∨ m.signedOffset ≤ -86400
        rcases m.signedOffset_abs with h | h <;> omega
    · have hchecked := TimeGroups.inRange_iff.mp (by simpa using hrange)
      refine ⟨m.moment hgroups hchecked, htext ▸ readsTime_groups hgroups hchecked hmark, ?_, ?_⟩
      · rw [timeInstant_match hmatch, m.instant_moment]
      · cases h
        left
        exact ⟨m.text, rfl, isRfc3339_text hgroups hchecked (Nat.not_le.mp hoffset)⟩

/-- A text that is normalised stays as it is from then on, and names the instant it named. -/
theorem normaliseTime_text {t s : JsString} (h : normaliseTime t = .ok (.text s)) :
    normaliseTime s = .ok (.text s) ∧ timeInstant s = timeInstant t := by
  cases hmatch : matchTime t with
  | none =>
    rw [normaliseTime, hmatch] at h
    cases h
  | some m =>
    have hgroups := isMatch_of_matchTime hmatch
    have hnormalised := h
    rw [normaliseTime, hmatch] at h
    dsimp only at h
    split_ifs at h with hrange hoffset
    · cases h
    · cases h
      have hchecked := TimeGroups.inRange_iff.mp (by simpa using hrange)
      have hbelow := Nat.not_le.mp hoffset
      refine ⟨(normaliseTime_normal hnormalised).1, ?_⟩
      have hnormal :=
        matchTime_source (isMatch_normal hgroups (by have := hchecked.clock.1; omega) hbelow)
      rw [source_normal] at hnormal
      rw [timeInstant_match hmatch, timeInstant_match hnormal, wallSeconds_normal,
        signedOffset_normal m hbelow, nanos_normal]

/-- A time text the decoder accepts says something; normalising keeps what it says, and
`timeInstant` is the instant of that. -/
theorem normaliseTime_keeps {t : JsString} {v : Value} (h : normaliseTime t = .ok v) :
    ∃ r : Moment, ReadsTime r t ∧ timeInstant t = .ok r.instant ∧
      ((∃ s, v = .text s ∧ normaliseTime s = .ok (.text s) ∧ timeInstant s = timeInstant t ∧
          IsRfc3339 r s) ∨
        (v = .unencodable t ∧ (86400 ≤ r.offset ∨ r.offset ≤ -86400))) := by
  obtain ⟨r, hreads, hinstant, ⟨s, rfl, hstrict⟩ | hunencodable⟩ := normaliseTime_reads h
  · obtain ⟨hagain, hsame⟩ := normaliseTime_text h
    exact ⟨r, hreads, hinstant, .inl ⟨s, rfl, hagain, hsame, hstrict⟩⟩
  · exact ⟨r, hreads, hinstant, .inr hunencodable⟩

/-- A one-digit hour, a comma, a zero to drop and a minute 60. -/
theorem normaliseTime_keeps_lenient :
    ∃ r : Moment, ReadsTime r (js "2026-03-04T5:06:07,120-00:60") ∧
      IsRfc3339 r (js "2026-03-04T05:06:07.12-01:00") ∧
      r.instant = ⟨1772604367, 120000000⟩ := by
  have h : normaliseTime (js "2026-03-04T5:06:07,120-00:60") =
      .ok (.text (js "2026-03-04T05:06:07.12-01:00")) := by
    rfl
  have hinstant : timeInstant (js "2026-03-04T5:06:07,120-00:60") = .ok ⟨1772604367,
    120000000⟩ := by decide +kernel
  obtain ⟨r, hreads, hr, ⟨s, hs, -, -, hstrict⟩ | ⟨hv, -⟩⟩ := normaliseTime_keeps h
  · cases hs
    rw [hinstant] at hr
    exact ⟨r, hreads, hstrict, (Except.ok.inj hr).symm⟩
  · cases hv

end AgentService
