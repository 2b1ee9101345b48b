import AgentService.Db.Migrated
import Mathlib.Tactic.Simps.Basic

/-!
# Setting the database up (`src/db/setup.ts`)

A boot opens the pool, waits for MySQL and migrates. What the boot meets on the way is given:
whether the pool opens, what each ping comes to and which statements fail. A boot that throws has
closed what it opened.
-/

namespace AgentService
open Lib

def PING_ATTEMPTS : Nat := 15

def PING_DELAY_MS : Nat := 2000

/-- What a boot has done so far. -/
structure Boot where
  session : Session
  opened : Nat
  closed : Nat
  pings : Nat
  slept : List Nat

namespace Boot

/-- A process that has just started, on a database. -/
@[simps] def on (c : Catalogue) : Boot := ⟨⟨c, [], []⟩, 0, 0, 0, []⟩

/-- `log` -/
def line (text : JsString) : Effect Boot JsString Unit :=
  Effect.change fun s => { s with session := { s.session with log := s.session.log ++ [text] } }

/-- `sql.close()`, whatever comes of it. -/
def close : Effect Boot JsString Unit := Effect.change fun s => { s with closed := s.closed + 1 }

/-- `DB not ready yet …` -/
def notReady (attempt : Nat) (err : JsString) : JsString :=
  js "DB not ready yet (attempt " ++ latin1Decode (decimal attempt) ++ js "/" ++
    latin1Decode (decimal PING_ATTEMPTS) ++ js "): " ++ err

/-- An attempt that failed: its line is logged and, but for the last, there is a pause. -/
@[simps] def failed (s : Boot) (err : JsString) : Boot where
  session := { s.session with log := s.session.log ++ [notReady (s.pings + 1) err] }
  opened := s.opened
  closed := s.closed
  pings := s.pings + 1
  slept := if s.pings + 1 < PING_ATTEMPTS then s.slept ++ [PING_DELAY_MS] else s.slept

end Boot

/-- The loop of `waitForDatabase`, with some attempts to go; every ping has its own number. -/
def pingAgain (pings : Nat → Option JsString) (last : JsString) : Nat → Effect Boot JsString Unit
  | 0 => Effect.ofExcept (.error last)
  | attempts + 1 => fun s =>
    match pings s.pings with
    | none => (.ok (), { s with pings := s.pings + 1 })
    | some err => pingAgain pings err attempts (s.failed err)

/-- `waitForDatabase` -/
def waitForDatabase (pings : Nat → Option JsString) : Effect Boot JsString Unit :=
  pingAgain pings [] PING_ATTEMPTS

/-- Some pings failed, one after another. -/
inductive Boot.Fails (pings : Nat → Option JsString) : Nat → Boot → Boot → Prop
  | start (s : Boot) : Fails pings 0 s s
  | more {k : Nat} {s t : Boot} {err : JsString} (herr : pings s.pings = some err)
      (h : Fails pings k (s.failed err) t) :
      Fails pings (k + 1) s t

namespace Boot.Fails
variable {pings : Nat → Option JsString} {k : Nat} {s t : Boot}

theorem pings_eq (h : Fails pings k s t) : t.pings = s.pings + k := by
  induction h with
  | start s => rfl
  | more _ _ ih =>
    rw [ih, failed_pings]
    omega

/-- Nothing but the log, the pings and the pauses changes. -/
theorem kept (h : Fails pings k s t) : t.session.catalogue = s.session.catalogue ∧
    t.session.statements = s.session.statements ∧ t.opened = s.opened ∧ t.closed = s.closed := by
  induction h with
  | start s => exact ⟨rfl, rfl, rfl, rfl⟩
  | more _ _ ih => exact ih

/-- There is a pause after every attempt but the last. -/
theorem slept_eq (h : Fails pings k s t) :
    t.slept = s.slept ++ List.replicate (min k (PING_ATTEMPTS - 1 - s.pings)) PING_DELAY_MS := by
  induction h with
  | start s => simp
  | @more k s t err _ _ ih =>
    rw [ih, failed_slept, failed_pings]
    by_cases hlast : s.pings + 1 < PING_ATTEMPTS
    · have hcount : min (k + 1) (PING_ATTEMPTS - 1 - s.pings) =
        min k (PING_ATTEMPTS - 1 - (s.pings + 1)) + 1 := by omega
      rw [if_pos hlast, hcount, List.replicate_succ, List.append_assoc]
      rfl
    · rw [if_neg hlast]
      congr 2
      omega

/-- Each of them has a line. -/
theorem log_eq (h : Fails pings k s t) : ∃ errors : List JsString, errors.length = k ∧
    (∀ i, (hi : i < errors.length) → pings (s.pings + i) = some errors[i]) ∧
    t.session.log = s.session.log ++ errors.mapIdx fun i err => notReady (s.pings + i + 1) err := by
  induction h with
  | start s => exact ⟨[], rfl, fun i hi => absurd hi (Nat.not_lt_zero i), by simp⟩
  | @more k s t err herr _ ih =>
    obtain ⟨errors, hlength, hpings, hlog⟩ := ih
    refine ⟨err :: errors, by rw [List.length_cons, hlength], fun i hi => ?_, ?_⟩
    · cases i with
      | zero => exact herr
      | succ i =>
        rw [List.getElem_cons_succ, ← hpings i (Nat.lt_of_succ_lt_succ hi), failed_pings]
        congr 1
        omega
    · rw [hlog, List.mapIdx_cons, failed_session_log]
      simp only [failed_pings, Nat.add_zero, List.append_assoc, List.singleton_append,
        Nat.add_assoc, Nat.add_comm 1]

end Boot.Fails

theorem pingAgain_ready {pings : Nat → Option JsString} {s : Boot} (h : pings s.pings = none)
    (last : JsString) (attempts : Nat) :
    pingAgain pings last (attempts + 1) s = (.ok (), { s with pings := s.pings + 1 }) := by
  show (match pings s.pings with
    | none => _
    | some err => _) = _
  rw [h]

theorem pingAgain_failed {pings : Nat → Option JsString} {s : Boot} {err : JsString}
    (h : pings s.pings = some err) (last : JsString) (attempts : Nat) :
    pingAgain pings last (attempts + 1) s = pingAgain pings err attempts (s.failed err) := by
  show (match pings s.pings with
    | none => _
    | some err => _) = _
  rw [h]

/-- The loop ends at the first ping that succeeds, or with the error of the last. -/
theorem pingAgain_cases (pings : Nat → Option JsString) (last : JsString) (attempts : Nat)
    (s : Boot) :
    ∃ k t, Boot.Fails pings k s t ∧
      ((k < attempts ∧ pings t.pings = none ∧ pingAgain pings last attempts s = (.ok (),
          { t with pings := t.pings + 1 })) ∨
        (k = attempts ∧ ∃ err, pingAgain pings last attempts s = (.error err, t) ∧
          (err = last ∧ attempts = 0 ∨ pings (s.pings + attempts - 1) = some err))) := by
  induction attempts generalizing last s with
  | zero => exact ⟨0, s, .start s, .inr ⟨rfl, last, rfl, .inl ⟨rfl, rfl⟩⟩⟩
  | succ attempts ih =>
    cases hping : pings s.pings with
    | none =>
      exact ⟨0, s, .start s, .inl ⟨Nat.succ_pos _, hping, pingAgain_ready hping last attempts⟩⟩
    | some err =>
      rw [pingAgain_failed hping]
      obtain ⟨k, t, hfails, ⟨hk, hready, hok⟩ | ⟨rfl, thrown, herr, hthrown⟩⟩ :=
        ih err (s.failed err)
      · exact ⟨k + 1, t, .more hping hfails, .inl ⟨Nat.succ_lt_succ hk, hready, hok⟩⟩
      · refine ⟨k + 1, t, .more hping hfails, .inr ⟨rfl, thrown, herr, .inr ?_⟩⟩
        rcases hthrown with ⟨rfl, rfl⟩ | hthrown
        · exact hping
        · rw [Boot.failed_pings] at hthrown
          rwa [show s.pings + (k + 1) - 1 = s.pings + 1 + k - 1 from by omega]

/-- Waiting ends at the first ping that succeeds, with two seconds before each further attempt and a
line for each that failed; after fifteen that failed it throws what the last did. -/
theorem waitForDatabase_waits (pings : Nat → Option JsString) (s : Boot) (hs : s.pings = 0) :
    ∃ k t, Boot.Fails pings k s t ∧ k ≤ 15 ∧
      t.slept = s.slept ++ List.replicate (min k 14) 2000 ∧
      (k < 15 ∧ pings k = none ∧ waitForDatabase pings s = (.ok (), { t with pings := k + 1 }) ∨
        k = 15 ∧ ∃ err, pings 14 = some err ∧ waitForDatabase pings s = (.error err, t)) := by
  obtain ⟨k, t, hfails, hends⟩ := pingAgain_cases pings [] PING_ATTEMPTS s
  have hslept := hfails.slept_eq
  have hpings := hfails.pings_eq
  rw [hs, Nat.zero_add] at hpings
  rw [hs] at hslept
  refine ⟨k, t, hfails, ?_, hslept, ?_⟩
  · rcases hends with ⟨hk, -⟩ | ⟨rfl, -⟩
    · exact Nat.le_of_lt hk
    · exact Nat.le_refl _
  · rcases hends with ⟨hk, hready, hok⟩ | ⟨rfl, err, herr, ⟨-, hnone⟩ | hlast⟩
    · rw [hpings] at hready hok
      exact .inl ⟨hk, hready, hok⟩
    · cases hnone
    · rw [hs] at hlast
      exact .inr ⟨rfl, err, hlast, herr⟩

/-- Waiting takes up to fifteen pings: each that fails has its line in the log and, but for
the last, a pause of two seconds after it; the first that succeeds ends it, and after fifteen
it throws what the last did. -/
theorem startup_window (pings : Nat → Option JsString) {s : Boot} (hs : s.pings = 0) :
    ∃ errors : List JsString, (∀ i, (hi : i < errors.length) → pings i = some errors[i]) ∧
      (waitForDatabase pings s).2.session.log = s.session.log ++ errors.mapIdx (fun i err =>
        Boot.notReady (i + 1) err) ∧
      (waitForDatabase pings s).2.slept = s.slept ++ List.replicate (min errors.length 14) 2000 ∧
      (errors.length < 15 ∧ pings errors.length = none ∧ (waitForDatabase pings s).1 = .ok () ∧
          (waitForDatabase pings s).2.pings = errors.length + 1 ∨
        errors.length = 15 ∧ (waitForDatabase pings s).2.pings = 15 ∧
          ∃ err, pings 14 = some err ∧ (waitForDatabase pings s).1 = .error err) := by
  obtain ⟨k, t, hfails, hk, hslept, hends⟩ := waitForDatabase_waits pings s hs
  obtain ⟨errors, hlength, herrors, hlog⟩ := hfails.log_eq
  simp only [hs, Nat.zero_add] at herrors hlog
  have hpings := hfails.pings_eq
  rw [hs, Nat.zero_add] at hpings
  subst hlength
  refine ⟨errors, herrors, ?_⟩
  rcases hends with ⟨hlt, hready, hok⟩ | ⟨hall, err, herr, herror⟩
  · rw [hok]
    exact ⟨hlog, hslept, .inl ⟨hlt, hready, rfl, rfl⟩⟩
  · rw [herror]
    exact ⟨hlog, hslept, .inr ⟨hall, hpings.trans hall, err, herr, rfl⟩⟩

/-- MySQL that is up at the third ping. -/
theorem startup_window_third : ∃ errors : List JsString, errors.length = 2 ∧
    (waitForDatabase (fun n => if n < 2 then some (js "refused") else none) (.on fun _ =>
      none)).2.slept = [2000, 2000] := by
  obtain ⟨errors, herrors, -, hslept, hends⟩ :=
    startup_window (fun n => if n < 2 then some (js "refused")
      else none) (s := .on fun _ => none) rfl
  have htwo : errors.length = 2 := by
    rcases hends with ⟨-, hready, -⟩ | ⟨-, -, err, herr, -⟩
    · have hle : 2 ≤ errors.length := by
        by_contra hlt
        rw [if_pos (by omega)] at hready
        cases hready
      by_contra hne
      have hthird := herrors 2 (by omega)
      simp at hthird
    · cases herr
  refine ⟨errors, htwo, ?_⟩
  rw [hslept, htwo]
  rfl

/-! ## One boot -/

theorem Boot.Fails.errors {pings : Nat → Option JsString} {k : Nat} {s t : Boot}
    (h : Boot.Fails pings k s t) : ∀ i < k, pings (s.pings + i) ≠ none := by
  intro i hi hnone
  obtain ⟨errors, hlength, herrors, -⟩ := h.log_eq
  rw [herrors i (by omega)] at hnone
  cases hnone

end AgentService
