import AgentService.Gateway.JsonGrammar
import AgentService.Lib.Utf8Table

/-!
# The reader's leaves against the grammar

For each function that reads a token: what it accepts is derived by the grammar, with the
bytes it leaves, and what the grammar derives it accepts, where what follows cannot be taken
for more of the same token.
-/

namespace AgentService
open Lib

/-! ## Whitespace and literals -/

theorem isWs_iff {b : UInt8} : isWs b = true ↔ b = 0x20 ∨ b = 0x09 ∨ b = 0x0a ∨ b = 0x0d := by
  simp only [isWs, Bool.or_eq_true, beq_iff_eq, or_assoc]

theorem ws_nil : Ws [] := by simp [Ws]

/-- What is skipped is whitespace. -/
theorem ws_skipWs (s : Bytes) : ∃ w, s = w ++ skipWs s ∧ Ws w :=
  ⟨s.takeWhile isWs, List.takeWhile_append_dropWhile.symm,
    fun _ hb => isWs_iff.mp (List.mem_takeWhile_imp hb)⟩

/-- Whitespace is skipped, however much of it there is. -/
theorem skipWs_append {w : Bytes} (hw : Ws w) (s : Bytes) : skipWs (w ++ s) = skipWs s :=
  List.dropWhile_append_of_pos fun b hb => isWs_iff.mpr (hw b hb)

/-- Nothing is skipped where no whitespace stands. -/
theorem skipWs_cons {c : UInt8} (h : isWs c = false) (s : Bytes) : skipWs (c :: s) = c :: s :=
  List.dropWhile_cons_of_neg (by simp [h])

theorem skipWs_ws {w : Bytes} (hw : Ws w) : skipWs w = [] := by
  simpa [skipWs] using skipWs_append hw []

/-- A literal is read off the front of whatever follows it. -/
theorem literal_append (what : String) (node : JsonNode) (word s : Bytes) :
    literal word what node (word ++ s) = .ok (node, s) := by
  induction word with
  | nil => rfl
  | cons w word ih =>
    change (if w = w then literal word what node (word ++ s) else fail what (w :: (word ++ s))) = _
    rw [if_pos rfl, ih]

/-- What is read as a literal is its word. -/
theorem literal_ok {word : Bytes} {what : String} {node v : JsonNode} {rest : Bytes} :
    ∀ {s : Bytes}, literal word what node s = .ok (v, rest) → s = word ++ rest ∧ v = node := by
  induction word with
  | nil => intro s h; cases h; exact ⟨rfl, rfl⟩
  | cons w word ih =>
    intro s h
    cases s with
    | nil => exact absurd (show fail what [] = _ from h) fail_ne_ok
    | cons c s =>
      change (if c = w then literal word what node s else fail what (c :: s)) = _ at h
      split_ifs at h with hc
      · obtain ⟨rfl, hv⟩ := ih h
        exact ⟨by rw [hc]; rfl, hv⟩
      · exact absurd h fail_ne_ok

/-! ## Numbers -/

theorem isDigit_iff {b : UInt8} : isDigit b = true ↔ 0x30 ≤ b ∧ b ≤ 0x39 := by
  simp [isDigit]

/-- A run of digits is taken whole, and begins with the byte that was looked at. -/
theorem digits_split {s : Bytes} (h : digitNext s = true) :
    ∃ ds, s = ds ++ s.dropWhile isDigit ∧ Digits ds ∧ ds.head? = s.head? := by
  refine ⟨s.takeWhile isDigit, List.takeWhile_append_dropWhile.symm, ⟨?_, ?_⟩, ?_⟩
  · cases s with
    | nil => cases h
    | cons c s =>
      have hc : isDigit c = true := h
      simp [List.takeWhile_cons_of_pos hc]
  · exact fun b hb => isDigit_iff.mp (List.mem_takeWhile_imp hb)
  · cases s with
    | nil => rfl
    | cons c s =>
      have hc : isDigit c = true := h
      simp [List.takeWhile_cons_of_pos hc]

theorem digitNext_append {ds : Bytes} (h : Digits ds) (s : Bytes) : digitNext (ds ++ s) = true := by
  obtain ⟨hne, hall⟩ := h
  cases ds with
  | nil => exact absurd rfl hne
  | cons d ds => exact isDigit_iff.mpr (hall d List.mem_cons_self)

/-- A run of digits ends where a byte that is no digit follows. -/
theorem dropDigits_append {ds : Bytes} (h : Digits ds) {s : Bytes} (hs : digitNext s = false) :
    (ds ++ s).dropWhile isDigit = s := by
  rw [List.dropWhile_append_of_pos fun b hb => isDigit_iff.mpr (h.2 b hb)]
  cases s with
  | nil => rfl
  | cons c s => exact List.dropWhile_cons_of_neg (by simpa [digitNext] using hs)

/-- What is taken as the integer part has the grammar's form of one. -/
theorem intPart_ok {s rest : Bytes} (h : intPart s = .ok rest) :
    ∃ int, s = int ++ rest ∧ IntText int := by
  unfold intPart at h
  split_ifs at h with hzero hdigit
  · cases h
    cases s with
    | nil => cases hzero
    | cons c s =>
      cases hzero
      exact ⟨[0x30], rfl, .zero⟩
  · cases h
    obtain ⟨ds, hs, hds, hhead⟩ := digits_split hdigit
    exact ⟨ds, hs, .digits hds (hhead ▸ hzero)⟩
  · exact absurd h fail_ne_ok

/-- An integer part is taken whole where no digit follows. -/
theorem intPart_append {int : Bytes} (h : IntText int) {s : Bytes} (hs : digitNext s = false) :
    intPart (int ++ s) = .ok s := by
  cases h with
  | zero => rfl
  | @digits int hds hz =>
    have hhead : (int ++ s).head? = int.head? := by
      obtain ⟨b, t, rfl⟩ := List.exists_cons_of_ne_nil hds.1
      rfl
    rw [intPart, if_neg (hhead ▸ hz), if_pos (digitNext_append hds s), dropDigits_append hds hs]

/-- What is taken as the fraction has the grammar's form of one, or is nothing. -/
theorem fracPart_ok {s rest : Bytes} (h : fracPart s = .ok rest) :
    ∃ frac, s = frac ++ rest ∧ FracText frac := by
  unfold fracPart at h
  split_ifs at h with hdot hdigit
  · cases h
    cases s with
    | nil => cases hdot
    | cons c s =>
      cases hdot
      obtain ⟨ds, hs, hds, -⟩ := digits_split hdigit
      exact ⟨0x2e :: ds, congrArg (0x2e :: ·) hs, .digits hds⟩
  · exact absurd h fail_ne_ok
  · cases h
    exact ⟨[], rfl, .none⟩

/-- A fraction is taken whole where neither digit nor point follows. -/
theorem fracPart_append {frac : Bytes} (h : FracText frac) {s : Bytes} (hs : digitNext s = false)
    (hdot : s.head? ≠ some 0x2e) : fracPart (frac ++ s) = .ok s := by
  cases h with
  | none => exact if_neg hdot
  | @digits ds hds =>
    have htail : (0x2e :: ds ++ s).tail = ds ++ s := rfl
    rw [fracPart, if_pos (by rfl), htail, if_pos (digitNext_append hds s), dropDigits_append hds hs]

/-- A sign, or none, in front of what is no sign. -/
theorem skipSign_split (s : Bytes) :
    ∃ sign, s = sign ++ skipSign s ∧ (sign = [] ∨ sign = [0x2b] ∨ sign = [0x2d]) := by
  unfold skipSign
  split_ifs with h
  · cases s with
    | nil => exact ⟨[], rfl, .inl rfl⟩
    | cons c s =>
      refine ⟨[c], rfl, .inr ?_⟩
      simpa using h
  · exact ⟨[], rfl, .inl rfl⟩

/-- A sign in front of digits is skipped. -/
theorem skipSign_append {sign : Bytes} (h : sign = [] ∨ sign = [0x2b] ∨ sign = [0x2d]) {ds : Bytes}
    (hds : Digits ds) (s : Bytes) : skipSign (sign ++ (ds ++ s)) = ds ++ s := by
  rcases h with rfl | rfl | rfl
  · obtain ⟨b, t, rfl⟩ := List.exists_cons_of_ne_nil hds.1
    have hb := hds.2 b List.mem_cons_self
    refine if_neg ?_
    simp only [List.nil_append, List.cons_append, List.head?_cons, Option.some.injEq]
    rintro (rfl | rfl)
    · exact absurd hb.1 (by decide)
    · exact absurd hb.1 (by decide)
  · rfl
  · rfl

/-- What is taken as the exponent has the grammar's form of one, or is nothing. -/
theorem expPart_ok {s rest : Bytes} (h : expPart s = .ok rest) :
    ∃ exp, s = exp ++ rest ∧ ExpText exp := by
  unfold expPart at h
  split_ifs at h with he hdigit
  · cases h
    cases s with
    | nil => simp at he
    | cons e s =>
      rw [List.tail_cons] at hdigit ⊢
      obtain ⟨sign, hsplit, hsign⟩ := skipSign_split s
      obtain ⟨ds, hs, hds, -⟩ := digits_split hdigit
      refine ⟨e :: sign ++ ds, ?_, .digits (by simpa using he) hsign hds⟩
      rw [List.append_assoc, ← hs]
      exact congrArg (e :: ·) hsplit
  · exact absurd h fail_ne_ok
  · cases h
    exact ⟨[], rfl, .none⟩

/-- An exponent is taken whole where neither digit nor `e` follows. -/
theorem expPart_append {exp : Bytes} (h : ExpText exp) {s : Bytes} (hs : digitNext s = false)
    (he : s.head? ≠ some 0x65 ∧ s.head? ≠ some 0x45) : expPart (exp ++ s) = .ok s := by
  cases h with
  | none => exact if_neg (not_or.mpr he)
  | @digits e sign ds he' hsign hds =>
    have htail : ((e :: sign ++ ds) ++ s).tail = sign ++ (ds ++ s) := by simp
    rw [expPart, if_pos (by simpa using he'), htail, skipSign_append hsign hds,
      if_pos (digitNext_append hds s), dropDigits_append hds hs]

/-- Bytes that cannot go on with a number. -/
def EndsNumber (s : Bytes) : Prop :=
  digitNext s = false ∧ s.head? ≠ some 0x2e ∧ s.head? ≠ some 0x65 ∧ s.head? ≠ some 0x45

/-- What is read as a number has the grammar's form, and is kept as its text. -/
theorem number_ok {s rest : Bytes} {v : JsonNode} (h : number s = .ok (v, rest)) :
    ∃ n, s = n ++ rest ∧ NumberText n ∧ v = .num (latin1Decode n) := by
  obtain ⟨s₁, s₂, hint, hfrac, hexp, rfl⟩ := number_parts h
  obtain ⟨int, hi, hintText⟩ := intPart_ok hint
  obtain ⟨frac, rfl, hfracText⟩ := fracPart_ok hfrac
  obtain ⟨exp, rfl, hexpText⟩ := expPart_ok hexp
  obtain ⟨minus, hs, hminus⟩ : ∃ minus, s = minus ++ (int ++ (frac ++ (exp ++ rest))) ∧
      (minus = [] ∨ minus = [0x2d]) := by
    split_ifs at hi with hm
    · cases s with
      | nil => cases hm
      | cons c s =>
        cases hm
        exact ⟨[0x2d], congrArg (0x2d :: ·) hi, .inr rfl⟩
    · exact ⟨[], hi, .inl rfl⟩
  have hsplit : s = (minus ++ int ++ frac ++ exp) ++ rest := by simp [hs]
  refine ⟨minus ++ int ++ frac ++ exp, hsplit, .mk hminus hintText hfracText hexpText, ?_⟩
  rw [hsplit, List.length_append, Nat.add_sub_cancel, List.take_left']
  rfl

/-- A number is read whole where none of its characters follows. -/
theorem number_append {n : Bytes} (h : NumberText n) {s : Bytes} (hs : EndsNumber s) :
    number (n ++ s) = .ok (.num (latin1Decode n), s) := by
  obtain @⟨minus, int, frac, exp, hminus, hint, hfrac, hexp⟩ := h
  obtain ⟨hdigit, hdot, hexp'⟩ := hs
  -- what follows each part cannot go on with it
  have hexpNext : digitNext (exp ++ s) = false ∧ (exp ++ s).head? ≠ some 0x2e := by
    cases hexp with
    | none => exact ⟨hdigit, hdot⟩
    | digits he _ _ => rcases he with rfl | rfl <;> exact ⟨rfl, by simp⟩
  have hfracNext : digitNext (frac ++ (exp ++ s)) = false := by
    cases hfrac with
    | none => exact hexpNext.1
    | digits _ => rfl
  have hstart : (if (minus ++ int ++ frac ++ exp ++ s).head? = some 0x2d then
      (minus ++ int ++ frac ++ exp ++ s).tail else minus ++ int ++ frac ++ exp ++ s) =
          int ++ (frac ++ (exp ++ s)) := by
    rcases hminus with rfl | rfl
    · have hhead : ([] ++ int ++ frac ++ exp ++ s).head? ≠ some 0x2d := by
        cases hint with
        | zero => simp
        | digits hds hz =>
          obtain ⟨b, t, rfl⟩ := List.exists_cons_of_ne_nil hds.1
          rintro heq
          cases heq
          exact absurd (hds.2 0x2d List.mem_cons_self).1 (by decide)
      rw [if_neg hhead]
      simp
    · rw [if_pos (by rfl)]
      simp
  rw [number, hstart, intPart_append hint hfracNext, ok_bind,
    fracPart_append hfrac hexpNext.1 hexpNext.2, ok_bind, expPart_append hexp hdigit hexp', ok_bind,
    List.length_append, Nat.add_sub_cancel, List.take_left']
  · rfl
  · rfl

end AgentService
