import AgentService.Controllers.Writes
import AgentService.Db.TimeOrder
import AgentService.Gateway.TimeReading

/-!
# A recorded time reads back as the instant it named

An instant within the years is written three ways: for a TIMESTAMP, in RFC 3339, and, of what a
TIMESTAMP comes back as, in RFC 3339 again. The groups of the second are at hand, so that reading
it is what is known of normalised times.
-/

namespace AgentService
open Lib

namespace Instant
variable (t : Instant)

/-- The groups of an instant's time in UTC, every digit of the fraction written. -/
def groups : TimeGroups where
  year := pad t.date.year.toNat 4
  month := pad t.date.month 2
  day := pad t.date.day 2
  hour := pad (t.clock / 3600) 2
  min := pad (t.clock / 60 % 60) 2
  sec := pad (t.clock % 60) 2
  fraction := pad t.nanos 9
  zone := none

variable {t}

theorem date_valid : t.date.IsValid := (civilOfDay_spec _).1

/-- Date and clock make the seconds up. -/
theorem seconds_eq : t.seconds = t.date.toDay * 86400 + t.clock := by
  have hday : t.date.toDay = t.seconds / 86400 := (civilOfDay_spec _).2
  rw [hday]
  unfold clock
  omega

theorem groups_isMatch (hnanos : t.IsNormal) (hyears : t.InYears) : t.groups.IsMatch := by
  have hclock := clock_lt t
  have hmonth := (date_valid (t := t)).2.1
  have hday := (date_valid (t := t)).2.2.2.trans (monthLength_le t.date)
  have hyear : t.date.year.toNat < 10 ^ 4 := by
    have h := hyears.2
    omega
  have hhour := isGroup_leftpad (n := t.clock / 3600) Nat.two_pos (by omega)
  refine ⟨isGroup_leftpad (by omega) hyear, isGroup_leftpad Nat.two_pos (by omega),
    isGroup_leftpad Nat.two_pos (by omega), ⟨hhour.2, ?_, ?_⟩,
    isGroup_leftpad Nat.two_pos (by omega), isGroup_leftpad Nat.two_pos (by omega),
    (isGroup_leftpad (by omega) hnanos).2, nofun⟩
  · exact Nat.le_of_lt (Nat.lt_of_lt_of_eq Nat.one_lt_two hhour.1.symm)
  · exact Nat.le_of_eq hhour.1

theorem groups_date (hyears : t.InYears) : t.groups.date = t.date := by
  have hyear : (t.date.year.toNat : Int) = t.date.year :=
    Int.toNat_of_nonneg (Int.le_of_lt hyears.1)
  unfold TimeGroups.date groups pad
  rw [groupNumber_leftpad, groupNumber_leftpad, groupNumber_leftpad, hyear]

theorem groups_checked (hyears : t.InYears) : t.groups.Checked := by
  have hclock := clock_lt t
  refine ⟨groups_date hyears ▸ date_valid, ?_, Nat.zero_le _, Nat.zero_le _⟩
  unfold groups pad
  rw [groupNumber_leftpad, groupNumber_leftpad, groupNumber_leftpad]
  omega

theorem groups_wallSeconds (hyears : t.InYears) : t.groups.wallSeconds = t.seconds := by
  have hclock : groupNumber t.groups.hour * 3600 + groupNumber t.groups.min * 60 +
      groupNumber t.groups.sec = t.clock := by
    unfold groups pad
    rw [groupNumber_leftpad, groupNumber_leftpad, groupNumber_leftpad]
    omega
  rw [TimeGroups.wallSeconds_eq (groups_checked hyears), groups_date hyears, hclock]
  exact seconds_eq.symm

theorem groups_nanos (hnanos : t.IsNormal) : t.groups.nanos = t.nanos := by
  have hgroup : IsGroup 9 t.groups.fraction := isGroup_leftpad (by omega) hnanos
  have htake : t.groups.fraction.take 9 = t.groups.fraction :=
    List.take_of_length_le (Nat.le_of_eq hgroup.1)
  rw [TimeGroups.nanos_eq, htake, hgroup.1, Nat.sub_self, Nat.pow_zero, Nat.mul_one]
  exact groupNumber_leftpad _ _

/-- `toRfc3339` writes the groups. -/
theorem toRfc3339_groups (hnanos : t.IsNormal) (hyears : t.InYears) :
    toRfc3339 t = .ok t.groups.text := by
  have hgroup : IsGroup 9 (pad t.nanos 9) := isGroup_leftpad (by omega) hnanos
  have hfraction : t.groups.shortFraction = (pad t.nanos 9).rdropWhile (· == 0x30) := by
    unfold TimeGroups.shortFraction
    exact congrArg _ (List.take_of_length_le (Nat.le_of_eq hgroup.1))
  have hhour : two (groupNumber t.groups.hour) = pad (t.clock / 3600) 2 := by
    unfold groups pad
    rw [groupNumber_leftpad]
    rfl
  unfold toRfc3339 TimeGroups.text
  rw [fields_ok hyears, hfraction, hhour]
  apply congrArg Except.ok
  show dateText t.date ++ js "T" ++ clockText t.clock ++ _ ++ js "Z" = _
  unfold dateText clockText
  simp only [List.append_assoc]
  rfl

/-- The RFC 3339 text of an instant is a normal time, and is that instant. -/
theorem toRfc3339_instant (hnanos : t.IsNormal) (hyears : t.InYears) :
    ∃ text, toRfc3339 t = .ok text ∧ normaliseTime text = .ok (.text text) ∧
      timeInstant text = .ok t := by
  have hmatch := matchTime_source (groups_isMatch hnanos hyears)
  have hchecked := groups_checked hyears
  have hnormal : normaliseTime t.groups.source = .ok (.text t.groups.text) := by
    rw [normaliseTime, hmatch]
    dsimp only
    have hoffset : t.groups.offset = 0 := rfl
    rw [if_neg (by simp [TimeGroups.inRange_iff.mpr hchecked]), hoffset, if_neg (by omega)]
  have hinstant : timeInstant t.groups.source = .ok t := by
    have hoffset : t.groups.signedOffset = 0 := rfl
    rw [timeInstant_match hmatch, groups_wallSeconds hyears, groups_nanos hnanos, hoffset,
      Int.sub_zero]
  obtain ⟨htext, hsame⟩ := normaliseTime_text hnormal
  exact ⟨_, toRfc3339_groups hnanos hyears, htext, hsame.trans hinstant⟩

end Instant

/-! ## What comes back -/

theorem matchSqlTime_text {d : CivilDate} {clock : Nat} (hdate : d.IsValid) (hyear : d.year ≤ 9999)
    (hclock : clock < 86400) :
    matchSqlTime (dateText d ++ js " " ++ clockText clock) = some (dateText d,
      clockText clock) := by
  have hmonth := hdate.2.1
  have hday := hdate.2.2.2.trans (monthLength_le d)
  have hgroup (n : Nat) (h : n < 100) (s : JsString) :
      digitGroup 2 (pad n 2 ++ s) = some (pad n 2, s) :=
    digitGroup_append (isGroup_leftpad Nat.two_pos h) s
  have hyears (s : JsString) :
      digitGroup 4 (pad d.year.toNat 4 ++ s) = some (pad d.year.toNat 4, s) :=
    digitGroup_append (isGroup_leftpad (by omega) (by omega)) s
  have hlast := hgroup (clock % 60) (by omega) []
  rw [List.append_nil] at hlast
  have hmark (c : UInt16) (s : JsString) : expect c ([c] ++ s) = some s := expect_cons c s
  unfold matchSqlTime dateText clockText
  simp only [List.append_assoc, js_dash, js_colon, js_space, hyears, hgroup d.month (by omega),
    hgroup d.day (by omega), hgroup (clock / 3600) (by omega), hgroup (clock / 60 % 60) (by omega),
    hlast, hmark, Option.bind_eq_bind,
    Option.bind_some]
  rfl

/-- Whole seconds come back as they were. -/
theorem fromSqlTime_toSqlTime {t : Instant} {text : JsString} (hmicros : t.nanos < 1000)
    (h : toSqlTime t = .ok text) : fromSqlTime text = toRfc3339 ⟨t.seconds, 0⟩ := by
  have hyears := toSqlTime_isSome.mp ⟨text, h⟩
  have hnone : ¬ 0 < t.nanos / 1000 := by omega
  rw [toSqlTime_text hyears, if_neg hnone, List.append_nil] at h
  cases h
  have hfields : fields ⟨t.seconds, 0⟩ = .ok (dateText t.date, clockText t.clock) :=
    fields_ok hyears
  unfold fromSqlTime toRfc3339
  rw [matchSqlTime_text Instant.date_valid hyears.2 (clock_lt t), hfields]
  have hzeros : (pad 0 9).rdropWhile (· == 0x30) = [] := by rfl
  show _ = Except.ok (dateText t.date ++ js "T" ++ clockText t.clock ++
    (if (pad 0 9).rdropWhile (· == 0x30) = [] then []
      else js "." ++ (pad 0 9).rdropWhile (· == 0x30)) ++ js "Z")
  rw [if_pos hzeros, List.append_nil]

/-- The instant of a decoded time is the one its text names. -/
theorem instantOfTime_source {source : JsString} {v : Value} (h : normaliseTime source = .ok v) :
    ∃ t, instantOfTime v = .ok t ∧ timeInstant source = .ok t ∧ t.IsNormal := by
  obtain ⟨t, ht, hnanos⟩ := instantOfTime_ok h
  refine ⟨t, ht, ?_, hnanos⟩
  obtain ⟨r, -, hinstant, ⟨s, rfl, -⟩ | ⟨rfl, -⟩⟩ := normaliseTime_reads h
  · change (timeInstant s).mapError DecodeError.message = .ok t at ht
    rw [(normaliseTime_text h).2, hinstant] at ht
    rw [hinstant, Except.ok.inj ht]
  · change (timeInstant source).mapError DecodeError.message = .ok t at ht
    rw [hinstant] at ht
    rw [hinstant, Except.ok.inj ht]

theorem instantOfDate_millis (date : Int) :
    (instantOfDate date).seconds * 1000 + ((instantOfDate date).nanos / 1000000 : Nat) = date := by
  show date / 1000 * 1000 + (((date - date / 1000 * 1000) * 1000000).toNat / 1000000 : Nat) = date
  omega

theorem insertDelivery_ok {db : Database} {d : Delivery} {s : Trace} {rows : List (List SqlValue)}
    (h : db s.statements d.insert = .ok rows) :
    insertDelivery db d s = (.ok (), { s with statements := s.statements ++ [d.insert] }) := by
  have hexecute : execute db d.insert s = (.ok rows,
      { s with statements := s.statements ++ [d.insert] }) := by
    rw [execute, h]
  exact Effect.bind_ok hexecute

theorem insertDelivery_error {db : Database} {d : Delivery} {s : Trace} {err : JsString}
    (h : db s.statements d.insert = .error err) :
    insertDelivery db d s = (.error err, { s with statements := s.statements ++ [d.insert] }) := by
  have hexecute : execute db d.insert s = (.error err,
      { s with statements := s.statements ++ [d.insert] }) := by
    rw [execute, h]
  exact Effect.bind_error hexecute

/-- A delivery that is recorded is answered as it was stored, the time apart, and that is the
clock's in both; its contract is the path's, and what was delivered is the body's. -/
theorem recordDelivery_run {env : Env} {req : WriteRequest} {s s' : Trace} {row : Delivery}
    (h : ContractsController.recordDelivery env req s = (.ok row, s')) : ∃ stored,
      s' = { s with statements := s.statements ++ [{ row with deliveredAt := stored }.insert] } ∧
        toSqlTime (instantOfDate env.now) = .ok stored ∧ toRfc3339 (instantOfDate env.now) =
          .ok row.deliveredAt ∧
        symbolColumn (segmentFromEnd req.routed 1) = .ok row.contractId ∧
        ∃ body, decodeBody env.node.toUnicode env.node.toDoubles deliveryRequestSchema req.body =
          .ok body ∧
          row.shipSymbol = (body.field "shipSymbol").asText ∧
            row.tradeSymbol = (body.field "tradeSymbol").asText := by
  unfold ContractsController.recordDelivery at h
  rw [Effect.ofExcept_bind] at h
  cases hbody : decodeBody env.node.toUnicode env.node.toDoubles deliveryRequestSchema req.body with
  | error err =>
    rw [hbody] at h
    cases h
  | ok body =>
    rw [hbody] at h
    dsimp only at h
    split_ifs at h
    · cases h
    · unfold Effect.attempt at h
      rw [Effect.ofExcept_bind] at h
      cases hid : symbolColumn (segmentFromEnd req.routed 1) with
      | error err =>
        rw [hid] at h
        cases h
      | ok id =>
        rw [hid] at h
        dsimp only at h
        rw [Effect.ofExcept_bind] at h
        cases hstored : toSqlTime (instantOfDate env.now) with
        | error err =>
          rw [hstored] at h
          cases h
        | ok stored =>
          rw [hstored] at h
          dsimp only at h
          cases hdb : env.db s.statements (Delivery.insert ⟨id, (body.field "shipSymbol").asText,
              (body.field "tradeSymbol").asText, (body.field "units").asInt, stored⟩) with
          | error err =>
            rw [Effect.bind_error (insertDelivery_error hdb)] at h
            cases h
          | ok rows =>
            rw [Effect.bind_ok (insertDelivery_ok hdb), Effect.ofExcept_bind] at h
            cases hwritten : toRfc3339 (instantOfDate env.now) with
            | error err =>
              rw [hwritten] at h
              cases h
            | ok written =>
              rw [hwritten] at h
              cases h
              exact ⟨stored, rfl, rfl, rfl, rfl, body, rfl, rfl, rfl⟩

/-- Every time the decoder accepts is recorded as its instant in UTC to the microsecond, or refused
for its year; what is recorded sorts as the instants do and, where it is whole seconds, reads back
as them; and the RFC 3339 text of an instant is that instant, so that a delivery is answered with
the time it is stored with. -/
theorem recorded_time_kept :
    (∀ source v, normaliseTime source = .ok v → ∃ t, instantOfTime v = .ok t ∧
        timeInstant source = .ok t ∧ t.IsNormal ∧
      ((t.InYears ∧ ∃ text, toSqlTime t = .ok text ∧ IsSqlTime t text ∧
          (t.nanos < 1000 → ∃ back, fromSqlTime text = .ok back ∧
              toRfc3339 ⟨t.seconds, 0⟩ = .ok back ∧
            timeInstant back = .ok ⟨t.seconds, 0⟩)) ∨
        (¬ t.InYears ∧ ∃ message, toSqlTime t = .error message))) ∧
    (∀ t t' text text', t.IsNormal → t'.IsNormal → toSqlTime t = .ok text →
        toSqlTime t' = .ok text' →
      (text < text' ↔ t.seconds < t'.seconds ∨ t.seconds = t'.seconds ∧
        t.nanos / 1000 < t'.nanos / 1000)) ∧
    (∀ t : Instant, t.IsNormal → t.InYears →
      ∃ text, toRfc3339 t = .ok text ∧ normaliseTime text = .ok (.text text) ∧
        timeInstant text = .ok t) ∧
    (∀ date : Int, (instantOfDate date).IsNormal ∧
      (instantOfDate date).seconds * 1000 + ((instantOfDate date).nanos / 1000000 : Nat) = date) ∧
    (∀ env req s s' row, ContractsController.recordDelivery env req s = (.ok row, s') →
      ∃ stored, s'.statements = s.statements ++ [{ row with deliveredAt := stored }.insert] ∧
        IsSqlTime (instantOfDate env.now) stored ∧ timeInstant row.deliveredAt =
          .ok (instantOfDate env.now)) := by
  refine ⟨fun source v h => ?_, fun t t' text text' hnanos hnanos' htext htext' => ?_, fun t =>
    Instant.toRfc3339_instant,
    fun date => ⟨isNormal_instantOfDate date, instantOfDate_millis date⟩, fun env req s s' row h =>
      ?_⟩
  · obtain ⟨t, ht, hsource, hnanos⟩ := instantOfTime_source h
    refine ⟨t, ht, hsource, hnanos, ?_⟩
    by_cases hyears : t.InYears
    · obtain ⟨text, htext⟩ := toSqlTime_isSome.mpr hyears
      refine .inl ⟨hyears, text, htext, toSqlTime_spec hnanos htext, fun hmicros => ?_⟩
      have hwhole : (⟨t.seconds, 0⟩ : Instant).IsNormal := Nat.zero_lt_succ _
      obtain ⟨back, hback, -, hinstant⟩ := Instant.toRfc3339_instant hwhole hyears
      exact ⟨back, (fromSqlTime_toSqlTime hmicros htext).trans hback, hback, hinstant⟩
    · refine .inr ⟨hyears, ?_⟩
      cases htext : toSqlTime t with
      | error message => exact ⟨message, rfl⟩
      | ok text => exact absurd (toSqlTime_isSome.mp ⟨text, htext⟩) hyears
  · exact isSqlTime_lt (toSqlTime_spec hnanos htext) (toSqlTime_spec hnanos' htext')
  · obtain ⟨stored, rfl, hstored, hwritten, -⟩ := recordDelivery_run h
    have hnanos := isNormal_instantOfDate env.now
    obtain ⟨text, htext, -, hinstant⟩ :=
      Instant.toRfc3339_instant hnanos (toSqlTime_isSome.mp ⟨stored, hstored⟩)
    rw [hwritten] at htext
    cases htext
    exact ⟨stored, rfl, toSqlTime_spec hnanos hstored, hinstant⟩

end AgentService
