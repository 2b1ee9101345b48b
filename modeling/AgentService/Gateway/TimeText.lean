import AgentService.Gateway.Time

/-!
# Normalised times are normal

What `normaliseTime` returns has the groups of `TIME_RE` again, with the hour, the fraction
and the zone in the one form it writes them in, so normalising it once more changes nothing.
-/

namespace AgentService
open Lib

/-! ## Digits -/

/-- `\d{n}` -/
def IsGroup (n : Nat) (g : JsString) : Prop := g.length = n ∧ g.all isDigitUnit = true

/-- A group of the right length is taken whole. -/
theorem digitGroup_append {n : Nat} {g : JsString} (h : IsGroup n g) (s : JsString) :
    digitGroup n (g ++ s) = some (g, s) := by
  have htake : (g ++ s).take n = g := by rw [← h.1, List.take_left]
  have hdrop : (g ++ s).drop n = s := by rw [← h.1, List.drop_left]
  rw [digitGroup, htake, hdrop]
  exact if_pos h

/-- What is taken is a group of that length. -/
theorem digitGroup_ok {n : Nat} {s g r : JsString} (h : digitGroup n s = some (g, r)) :
    s = g ++ r ∧ IsGroup n g := by
  unfold digitGroup at h
  split at h
  · rename_i hg
    cases h
    exact ⟨(List.take_append_drop n s).symm, hg⟩
  · cases h

/-- A run of digits ends where no digit follows. -/
theorem takeWhile_digits {g s : JsString} (hg : g.all isDigitUnit = true)
    (hs : ∀ u ∈ s.head?, isDigitUnit u = false) :
    (g ++ s).takeWhile isDigitUnit = g ∧ (g ++ s).dropWhile isDigitUnit = s := by
  have hall := List.all_eq_true.mp hg
  rw [List.takeWhile_append_of_pos hall, List.dropWhile_append_of_pos hall]
  cases s with
  | nil => simp
  | cons u s => simp [hs u rfl]

/-- A run within its bounds is taken whole where no digit follows. -/
theorem digitRun_append {lo : Nat} {hi : Option Nat} {g s : JsString}
    (hg : g.all isDigitUnit = true) (hlo : lo ≤ g.length) (hhi : hi.all (g.length ≤ ·) = true)
    (hs : ∀ u ∈ s.head?, isDigitUnit u = false) : digitRun lo hi (g ++ s) = some (g, s) := by
  obtain ⟨htake, hdrop⟩ := takeWhile_digits hg hs
  rw [digitRun, htake, hdrop]
  exact if_pos ⟨hlo, hhi⟩

/-- What is taken is a run of digits within the bounds. -/
theorem digitRun_ok {lo : Nat} {hi : Option Nat} {s g r : JsString}
    (h : digitRun lo hi s = some (g, r)) :
    s = g ++ r ∧ g.all isDigitUnit = true ∧ lo ≤ g.length ∧ hi.all (g.length ≤ ·) = true := by
  unfold digitRun at h
  dsimp only at h
  split at h
  · rename_i hg
    cases h
    exact ⟨List.takeWhile_append_dropWhile.symm, List.all_takeWhile, hg⟩
  · cases h

theorem expect_ok {c : UInt16} {s r : JsString} (h : expect c s = some r) : s = c :: r := by
  unfold expect at h
  split at h
  · cases h
  · split at h
    · rename_i hc
      cases h
      rw [hc]
    · cases h

theorem expect_cons (c : UInt16) (s : JsString) :
    expect c (c :: s) = some s := by rw [expect, if_pos rfl]

theorem isDigitUnit_digit {b : UInt8} (h : IsDigitByte b) : isDigitUnit b.toUInt16 = true := by
  rw [isDigitByte_iff] at h
  simp only [isDigitUnit, Bool.and_eq_true, decide_eq_true_eq, UInt16.le_iff_toNat_le,
    UInt8.toNat_toUInt16, UInt16.reduceToNat]
  exact h

theorem decimal_units (n : Nat) : (latin1Decode (decimal n)).all isDigitUnit = true := by
  apply List.all_eq_true.mpr
  intro u hu
  obtain ⟨b, hb, rfl⟩ := List.mem_map.mp hu
  exact isDigitUnit_digit (decimal_digits n b hb)

/-- A number below a power of ten, padded to its exponent, is a group of that length. -/
theorem isGroup_leftpad {n w : Nat} (hw : 0 < w) (h : n < 10 ^ w) :
    IsGroup w ((latin1Decode (decimal n)).leftpad w 0x30) := by
  have hlen : (latin1Decode (decimal n)).length ≤ w := by
    rw [latin1Decode, List.length_map]
    exact decimal_length hw h
  constructor
  · rw [List.length_leftpad]
    omega
  · rw [List.leftpad, List.all_append, decimal_units, Bool.and_true]
    simp [List.all_replicate, isDigitUnit]

/-- Zeros in front do not count. -/
theorem groupNumber_leftpad (n w : Nat) :
    groupNumber ((latin1Decode (decimal n)).leftpad w 0x30) = n := by
  rw [groupNumber, List.leftpad, latin1Encode_append, latin1Encode_decode]
  have hzeros (k : Nat) : latin1Encode (List.replicate k 0x30) = List.replicate k 0x30 := by
    rw [latin1Encode, List.map_replicate]
    rfl
  rw [hzeros, readDecimal_replicate, readDecimal_decimal]

/-- A group of so many digits is below that power of ten. -/
theorem groupNumber_lt {n : Nat} {g : JsString} (h : IsGroup n g) : groupNumber g < 10 ^ n := by
  have hlt := @readDecimal_lt (latin1Encode g) ?_
  · rw [latin1Encode, List.length_map, h.1] at hlt
    exact hlt
  · intro b hb
    obtain ⟨u, hu, rfl⟩ := List.mem_map.mp hb
    have hdigit := List.all_eq_true.mp h.2 u hu
    simp only [isDigitUnit, Bool.and_eq_true, decide_eq_true_eq, UInt16.le_iff_toNat_le,
      UInt16.reduceToNat] at hdigit
    rw [isDigitByte_iff, UInt16.toNat_toUInt8]
    omega

/-- `g` is `n`, written in `w` digits. -/
def Writes (w n : Nat) (g : JsString) : Prop := IsGroup w g ∧ groupNumber g = n

/-- Two digits write a number below a hundred. -/
theorem isGroup_two {n : Nat} (h : n < 100) : IsGroup 2 (two n) := isGroup_leftpad Nat.two_pos h

theorem groupNumber_two (n : Nat) : groupNumber (two n) = n := groupNumber_leftpad n 2

/-! ## The groups -/

/-- `[+-]` and the two groups behind it. -/
def IsZone (z : UInt16 × JsString × JsString) : Prop :=
  (z.1 = 0x2b ∨ z.1 = 0x2d) ∧ IsGroup 2 z.2.1 ∧ IsGroup 2 z.2.2

/-- The groups are ones `TIME_RE` finds. -/
structure TimeGroups.IsMatch (m : TimeGroups) : Prop where
  year : IsGroup 4 m.year
  month : IsGroup 2 m.month
  day : IsGroup 2 m.day
  hour : m.hour.all isDigitUnit = true ∧ 1 ≤ m.hour.length ∧ m.hour.length ≤ 2
  min : IsGroup 2 m.min
  sec : IsGroup 2 m.sec
  fraction : m.fraction.all isDigitUnit = true
  zone : ∀ z ∈ m.zone, IsZone z

/-- The zone as it is. -/
def zoneSource (zone : Option (UInt16 × JsString × JsString)) : JsString :=
  match zone with
  | none => [0x5a]
  | some (sign, hour, min) => sign :: (hour ++ 0x3a :: min)

/-- The text of the groups as they are. -/
def TimeGroups.source (m : TimeGroups) : JsString :=
  m.year ++ 0x2d :: (m.month ++ 0x2d ::
    (m.day ++ 0x54 :: (m.hour ++ 0x3a ::
      (m.min ++ 0x3a :: (m.sec ++ ((if m.fraction = [] then [] else 0x2e :: m.fraction) ++
        zoneSource m.zone))))))

/-- What is taken as the fraction is digits. -/
theorem fractionGroup_ok {s g r : JsString} (h : fractionGroup s = some (g, r)) :
    g.all isDigitUnit = true := by
  unfold fractionGroup at h
  split at h
  · split at h
    · exact (digitRun_ok h).2.1
    · cases h
      rfl
  · cases h
    rfl

/-- What is taken as the zone has its groups. -/
theorem zoneGroup_ok {s : JsString} {zone : Option (UInt16 × JsString × JsString)}
    (h : zoneGroup s = some zone) : ∀ z ∈ zone, IsZone z := by
  unfold zoneGroup at h
  split at h
  · cases h
  · split at h
    · split at h
      · cases h
        simp
      · cases h
    · split at h
      · rename_i hsign
        obtain ⟨⟨hour, s₁⟩, hhour, h⟩ := Option.bind_eq_some_iff.mp h
        obtain ⟨s₂, -, h⟩ := Option.bind_eq_some_iff.mp h
        obtain ⟨⟨min, s₃⟩, hmin, h⟩ := Option.bind_eq_some_iff.mp h
        dsimp only at h
        split at h
        · cases h
          intro z hz
          cases hz
          exact ⟨hsign, (digitGroup_ok hhour).2, (digitGroup_ok hmin).2⟩
        · cases h
      · cases h

/-- What the expression matches has its groups. -/
theorem isMatch_of_matchTime {text : JsString} {m : TimeGroups} (h : matchTime text = some m) :
    m.IsMatch := by
  unfold matchTime at h
  obtain ⟨⟨year, s₁⟩, hyear, h⟩ := Option.bind_eq_some_iff.mp h
  obtain ⟨s₂, -, h⟩ := Option.bind_eq_some_iff.mp h
  obtain ⟨⟨month, s₃⟩, hmonth, h⟩ := Option.bind_eq_some_iff.mp h
  obtain ⟨s₄, -, h⟩ := Option.bind_eq_some_iff.mp h
  obtain ⟨⟨day, s₅⟩, hday, h⟩ := Option.bind_eq_some_iff.mp h
  obtain ⟨s₆, -, h⟩ := Option.bind_eq_some_iff.mp h
  obtain ⟨⟨hour, s₇⟩, hhour, h⟩ := Option.bind_eq_some_iff.mp h
  obtain ⟨s₈, -, h⟩ := Option.bind_eq_some_iff.mp h
  obtain ⟨⟨min, s₉⟩, hmin, h⟩ := Option.bind_eq_some_iff.mp h
  obtain ⟨s₁₀, -, h⟩ := Option.bind_eq_some_iff.mp h
  obtain ⟨⟨sec, s₁₁⟩, hsec, h⟩ := Option.bind_eq_some_iff.mp h
  obtain ⟨⟨fraction, s₁₂⟩, hfraction, h⟩ := Option.bind_eq_some_iff.mp h
  obtain ⟨zone, hzone, h⟩ := Option.bind_eq_some_iff.mp h
  cases h
  obtain ⟨-, hdigits, hlo, hhi⟩ := digitRun_ok hhour
  exact ⟨(digitGroup_ok hyear).2, (digitGroup_ok hmonth).2, (digitGroup_ok hday).2,
    ⟨hdigits, hlo, by simpa using hhi⟩, (digitGroup_ok hmin).2, (digitGroup_ok hsec).2,
    fractionGroup_ok hfraction,
    zoneGroup_ok hzone⟩

theorem zoneGroup_some {sign : UInt16} {hour min : JsString} (h : IsZone (sign, hour, min)) :
    zoneGroup (sign :: (hour ++ 0x3a :: min)) = some (some (sign, hour, min)) := by
  obtain ⟨hsign, hhour, hmin⟩ := h
  have hz : sign ≠ 0x5a := by rcases hsign with h | h <;> rw [show sign = _ from h] <;> decide
  have hmin' := digitGroup_append hmin []
  rw [List.append_nil] at hmin'
  rw [zoneGroup, if_neg hz, if_pos hsign, digitGroup_append hhour]
  dsimp only [Option.bind_eq_bind, Option.bind_some]
  rw [expect_cons, Option.bind_some, hmin']
  rfl

/-- A zone that is written out is taken whole, and begins with nothing that goes on with a fraction.
-/
theorem zoneGroup_source {zone : Option (UInt16 × JsString × JsString)} (h : ∀ z ∈ zone, IsZone z) :
    zoneGroup (zoneSource zone) = some zone ∧
      ∃ c s, zoneSource zone = c :: s ∧ isDigitUnit c = false ∧ ¬ (c = 0x2e ∨ c = 0x2c) := by
  cases zone with
  | none => exact ⟨rfl, 0x5a, [], rfl, by decide, by decide⟩
  | some z =>
    obtain ⟨sign, hour, min⟩ := z
    have hz := h _ rfl
    refine ⟨zoneGroup_some hz, sign, _, rfl, ?_⟩
    rcases hz.1 with hs | hs <;> rw [show sign = _ from hs] <;> decide

/-- A fraction that is written out is taken whole. -/
theorem fractionGroup_append {fraction s : JsString} {c : UInt16}
    (h : fraction.all isDigitUnit = true) (hc : isDigitUnit c = false)
    (hpoint : ¬ (c = 0x2e ∨ c = 0x2c)) :
    fractionGroup ((if fraction = [] then [] else 0x2e :: fraction) ++ c :: s) = some (fraction,
      c :: s) := by
  by_cases hnil : fraction = []
  · rw [if_pos hnil, hnil, List.nil_append, fractionGroup, if_neg hpoint]
  · rw [if_neg hnil, List.cons_append, fractionGroup, if_pos (.inl rfl)]
    exact digitRun_append h (List.length_pos_iff.mpr hnil) rfl (by simpa using hc)

/-- Groups that are written out are matched again. -/
theorem matchTime_source {m : TimeGroups} (h : m.IsMatch) : matchTime m.source = some m := by
  obtain ⟨hzone, c, s, hz, hc, hpoint⟩ := zoneGroup_source h.zone
  have hhour (s : JsString) :
      digitRun 1 (some 2) (m.hour ++ 0x3a :: s) = some (m.hour, 0x3a :: s) :=
    digitRun_append h.hour.1 h.hour.2.1 (by simpa using h.hour.2.2) (by simp [isDigitUnit])
  have hfraction := fractionGroup_append (s := s) h.fraction hc hpoint
  rw [← hz] at hfraction
  simp only [matchTime, TimeGroups.source, digitGroup_append h.year, digitGroup_append h.month,
    digitGroup_append h.day, hhour, digitGroup_append h.min, digitGroup_append h.sec, expect_cons,
    hfraction, hzone,
    Option.bind_eq_bind, Option.bind_some]
  rfl

/-! ## The form times are written in -/

/-- The groups of the text a time is written as. -/
def TimeGroups.normal (m : TimeGroups) : TimeGroups where
  year := m.year
  month := m.month
  day := m.day
  hour := two (groupNumber m.hour)
  min := m.min
  sec := m.sec
  fraction := m.shortFraction
  zone := if m.offset = 0 then none else m.zone.map fun z =>
    (z.1, two (m.offset / 3600), two (m.offset % 3600 / 60))

section
variable (m : TimeGroups)

theorem zone_of_offset (h : m.offset ≠ 0) : ∃ z, m.zone = some z := by
  cases hzone : m.zone with
  | none => simp [TimeGroups.offset, TimeGroups.offHour, TimeGroups.offMin, hzone] at h
  | some z => exact ⟨z, rfl⟩

/-- Normalising keeps the offset, -/
theorem offset_normal : m.normal.offset = m.offset := by
  by_cases hz : m.offset = 0
  · have hnormal : m.normal.zone = none := by rw [TimeGroups.normal, if_pos hz]
    rw [hz, TimeGroups.offset, TimeGroups.offHour, TimeGroups.offMin, hnormal]
    rfl
  · obtain ⟨z, hzone⟩ := zone_of_offset m hz
    have hnormal : m.normal.zone = some (z.1, two (m.offset / 3600),
        two (m.offset % 3600 / 60)) := by
      simp [TimeGroups.normal, hz, hzone]
    have hminutes : m.offset % 60 = 0 := by
      rw [TimeGroups.offset]
      exact Nat.mul_mod_left _ 60
    rw [TimeGroups.offset, TimeGroups.offHour, TimeGroups.offMin, hnormal]
    simp only [Option.elim_some, groupNumber_two]
    omega

theorem zoneSource_normal : zoneSource m.normal.zone = m.zoneText := by
  rw [TimeGroups.zoneText]
  by_cases hz : m.offset = 0
  · have hnormal : m.normal.zone = none := by rw [TimeGroups.normal, if_pos hz]
    rw [hnormal]
    cases m.zone with
    | none => rfl
    | some z =>
      dsimp only
      rw [if_pos hz]
      rfl
  · obtain ⟨z, hzone⟩ := zone_of_offset m hz
    have hnormal : m.normal.zone = some (z.1, two (m.offset / 3600),
        two (m.offset % 3600 / 60)) := by
      simp [TimeGroups.normal, hz, hzone]
    rw [hnormal, hzone]
    dsimp only [zoneSource]
    rw [if_neg hz]
    simp [js]

/-- and what it writes is the text of the normal groups. -/
theorem source_normal : m.normal.source = m.text := by
  rw [TimeGroups.source, zoneSource_normal, TimeGroups.text]
  by_cases hnone : m.shortFraction = [] <;> simp [TimeGroups.normal, js, hnone]

theorem shortFraction_normal : m.normal.shortFraction = m.shortFraction := by
  have hlen : m.shortFraction.length ≤ 9 :=
    (List.rdropWhile_prefix _ _).length_le.trans (List.length_take_le 9 m.fraction)
  have htake : m.normal.fraction.take 9 = m.shortFraction := List.take_of_length_le hlen
  rw [TimeGroups.shortFraction, htake]
  exact List.rdropWhile_idempotent _ _

theorem zoneText_normal : m.normal.zoneText = m.zoneText := by
  rw [TimeGroups.zoneText, TimeGroups.zoneText, offset_normal]
  by_cases hz : m.offset = 0
  · simp only [hz, if_true]
    cases m.zone <;> cases m.normal.zone <;> rfl
  · obtain ⟨z, hzone⟩ := zone_of_offset m hz
    simp [TimeGroups.normal, hz, hzone]

/-- Writing the text's own groups gives the text. -/
theorem text_normal : m.normal.text = m.text := by
  rw [TimeGroups.text, TimeGroups.text, shortFraction_normal, zoneText_normal]
  have hhour : two (groupNumber m.normal.hour) = two (groupNumber m.hour) := by
    rw [TimeGroups.normal, groupNumber_two]
  rw [hhour]
  rfl

/-- A time in range is in range once it is normalised. -/
theorem inRange_normal (hrange : m.inRange = true) (hoffset : m.offset < 86400) :
    m.normal.inRange = true := by
  have hoff : m.normal.offHour ≤ 24 ∧ m.normal.offMin ≤ 60 := by
    by_cases hz : m.offset = 0
    · have hnormal : m.normal.zone = none := by rw [TimeGroups.normal, if_pos hz]
      rw [TimeGroups.offHour, TimeGroups.offMin, hnormal]
      exact ⟨Nat.zero_le _, Nat.zero_le _⟩
    · obtain ⟨z, hzone⟩ := zone_of_offset m hz
      have hnormal : m.normal.zone = some (z.1, two (m.offset / 3600),
          two (m.offset % 3600 / 60)) := by
        simp [TimeGroups.normal, hz, hzone]
      rw [TimeGroups.offHour, TimeGroups.offMin, hnormal]
      simp only [Option.elim_some, groupNumber_two]
      omega
  simp only [TimeGroups.inRange, Bool.and_eq_true, decide_eq_true_eq] at hrange ⊢
  obtain ⟨⟨hfields, -⟩, -⟩ := hrange
  refine ⟨⟨?_, hoff.1⟩, hoff.2⟩
  simpa only [TimeGroups.normal, groupNumber_two] using hfields

end

/-- The normal groups are groups of the expression. -/
theorem isMatch_normal {m : TimeGroups} (h : m.IsMatch) (hhour : groupNumber m.hour ≤ 23)
    (hoffset : m.offset < 86400) : m.normal.IsMatch := by
  have htwo := isGroup_two (n := groupNumber m.hour) (by omega)
  refine ⟨h.year, h.month, h.day, ⟨htwo.2, ?_, ?_⟩, h.min, h.sec, ?_, ?_⟩
  · exact Nat.le_of_lt (Nat.lt_of_lt_of_eq Nat.one_lt_two htwo.1.symm)
  · exact Nat.le_of_eq htwo.1
  · apply List.all_eq_true.mpr
    intro u hu
    have hmem := (List.rdropWhile_prefix _ _).subset hu
    exact List.all_eq_true.mp h.fraction u (List.mem_of_mem_take hmem)
  · intro z hz
    simp only [TimeGroups.normal] at hz
    split at hz
    · cases hz
    · obtain ⟨z', hz', rfl⟩ := Option.map_eq_some_iff.mp hz
      exact ⟨(h.zone z' hz').1, isGroup_two (by omega), isGroup_two (by omega)⟩

/-- The characters of a time: digits and `-T:.Z+`. -/
def isTimeUnit (u : UInt16) : Bool := isDigitUnit u || (js "-T:.Z+").contains u

/-- A time text is written in few characters, -/
theorem source_units {m : TimeGroups} (h : m.IsMatch) : m.source.all isTimeUnit = true := by
  have hdigits {g : JsString} (hg : g.all isDigitUnit = true) : g.all isTimeUnit = true :=
    List.all_eq_true.mpr fun u hu => Bool.or_eq_true_iff.mpr (.inl (List.all_eq_true.mp hg u hu))
  have hfraction : (if m.fraction = [] then [] else 0x2e :: m.fraction).all isTimeUnit = true := by
    split
    · rfl
    · rw [List.all_cons, hdigits h.fraction]
      rfl
  have hzone : (zoneSource m.zone).all isTimeUnit = true := by
    cases hz : m.zone with
    | none => rfl
    | some z =>
      obtain ⟨sign, hour, min⟩ := z
      obtain ⟨hsign, hhour, hmin⟩ := h.zone _ hz
      have hunit : isTimeUnit sign = true := by
        rcases hsign with hs | hs <;> rw [show sign = _ from hs] <;> rfl
      rw [zoneSource, List.all_cons, List.all_append, List.all_cons, hunit, hdigits hhour.2,
        hdigits hmin.2]
      rfl
  have hmark : isTimeUnit 0x2d = true ∧ isTimeUnit 0x54 = true ∧ isTimeUnit 0x3a = true :=
    ⟨rfl, rfl, rfl⟩
  simp only [TimeGroups.source, List.all_append, List.all_cons, hdigits h.year.2, hdigits h.month.2,
    hdigits h.day.2, hdigits h.hour.1, hdigits h.min.2, hdigits h.sec.2, hfraction, hzone, hmark,
    Bool.and_self]

/-- A normalised time has the groups of its source, written out. -/
theorem normaliseTime_groups {source t : JsString} (h : normaliseTime source = .ok (.text t)) :
    ∃ m : TimeGroups, m.inRange = true ∧ m.offset < 86400 ∧ m.normal.IsMatch ∧ m.text = t ∧
      matchTime t = some m.normal := by
  unfold normaliseTime at h
  split at h
  · cases h
  · rename_i m hm
    split at h
    · cases h
    · rename_i hrange
      rw [Bool.not_eq_false] at hrange
      split at h
      · cases h
      · rename_i hoffset
        rw [Nat.not_le] at hoffset
        cases h
        have hhour : groupNumber m.hour ≤ 23 := by
          simp only [TimeGroups.inRange, Bool.and_eq_true, decide_eq_true_eq] at hrange
          omega
        have hnormal := isMatch_normal (isMatch_of_matchTime hm) hhour hoffset
        have hmatch := matchTime_source hnormal
        rw [source_normal] at hmatch
        exact ⟨m, hrange, hoffset, hnormal, rfl, hmatch⟩

/-- A normalised time is normalised to itself, and written in digits and `-T:.Z+`. -/
theorem normaliseTime_normal {source t : JsString} (h : normaliseTime source = .ok (.text t)) :
    normaliseTime t = .ok (.text t) ∧ t.all isTimeUnit = true := by
  obtain ⟨m, hrange, hoffset, hnormal, rfl, hmatch⟩ := normaliseTime_groups h
  constructor
  · rw [normaliseTime, hmatch]
    dsimp only
    rw [if_neg (by simp [inRange_normal m hrange hoffset]), offset_normal,
      if_neg (Nat.not_le.mpr hoffset), text_normal]
  · rw [← source_normal]
    exact source_units hnormal

/-- none of which JSON escapes. -/
theorem isTimeUnit_range {u : UInt16} (h : isTimeUnit u = true) : 0x22 < u ∧ u < 0x5c := by
  simp only [isTimeUnit, isDigitUnit, Bool.or_eq_true, Bool.and_eq_true, decide_eq_true_eq,
    List.contains_iff_mem] at h
  rcases h with ⟨hlo, hhi⟩ | h
  · exact ⟨UInt16.lt_of_lt_of_le (by decide) hlo, UInt16.lt_of_le_of_lt hhi (by decide)⟩
  · rcases (show u ∈ [0x2d, 0x54, 0x3a, 0x2e, 0x5a, 0x2b] from h) with _ |
      ⟨_, _ | ⟨_, _ | ⟨_, _ | ⟨_, _ | ⟨_, _ | ⟨_, h⟩⟩⟩⟩⟩⟩
    all_goals first | exact ⟨by decide, by decide⟩ | cases h

end AgentService
