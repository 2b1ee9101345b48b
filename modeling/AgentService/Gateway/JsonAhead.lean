import AgentService.Gateway.JsonParse

/-!
# What input still to come can change

A scanner that stops in front of a byte, or fails at one, has settled: whatever is put behind its
input, it does the same again. Only where it has come to the end of the input can more of it make a
difference. This holds piece by piece and is put together along the binds of the reader.
-/

namespace AgentService
open Lib

/-- Results that leave some of the input, which more input is put behind. -/
class Leaves (β : Type) where
  left : β → Bytes
  ahead : β → Bytes → β

instance : Leaves Bytes where
  left s := s
  ahead s t := s ++ t

instance {α β : Type} [Leaves β] : Leaves (α × β) where
  left p := Leaves.left p.2
  ahead p t := (p.1, Leaves.ahead p.2 t)

/-- More input behind what has begun. -/
def Begun.ahead : Begun → Bytes → Begun
  | .value v rest, t => .value v (rest ++ t)
  | .opened frame rest, t => .opened frame (rest ++ t)

instance : Leaves Begun where
  left := Begun.rest
  ahead := Begun.ahead

/-- More input does not change the result: something is left, or the failure is at a byte. -/
def Settled {β : Type} [Leaves β] : Except Thrown β → Prop
  | .ok b => Leaves.left b ≠ []
  | .error (.syntaxError e) => e.eof = false
  | .error .rangeError => False

/-- At the end of the input nothing is settled; before it, more input changes nothing. -/
structure Scanner {β γ : Type} [Leaves β] [Leaves γ] (f : β → Except Thrown γ) : Prop where
  ahead : ∀ b t, Settled (f b) → f (Leaves.ahead b t) = (f b).map (Leaves.ahead · t)
  nil : ∀ b, Leaves.left b = [] → ¬ Settled (f b)

section
variable {α β γ δ : Type} [Leaves β] [Leaves γ] [Leaves δ]

theorem not_settled_fail (what : String) : ¬ Settled (fail what [] : Except Thrown β) :=
  Bool.noConfusion

/-- It does not matter what would have been returned. -/
theorem settled_error {err : Thrown} (h : Settled (.error err : Except Thrown β)) :
    Settled (.error err : Except Thrown γ) := by
  cases err with
  | syntaxError e => exact h
  | rangeError => exact h

/-- Scanners one after another. -/
theorem Scanner.bind {f : β → Except Thrown γ} {g : γ → Except Thrown δ} (hf : Scanner f)
    (hg : Scanner g) :
    Scanner fun b => f b >>= g where
  ahead b t h := by
    have hfb := hf.ahead b t
    cases hb : f b with
    | error err =>
      rw [hb] at h hfb
      rw [hfb (settled_error h)]
      rfl
    | ok c =>
      rw [hb] at h hfb
      have hc : Leaves.left c ≠ [] := fun hnil => hg.nil c hnil h
      rw [hfb hc]
      exact hg.ahead c t h
  nil b hb h := by
    have hfb := hf.nil b hb
    cases hc : f b with
    | error err =>
      rw [hc] at h hfb
      exact hfb (settled_error h)
    | ok c =>
      rw [hc] at h hfb
      exact hfb fun hnil => hg.nil c hnil h

theorem Scanner.uncurry {f : α → β → Except Thrown γ} (hf : ∀ a, Scanner (f a)) :
    Scanner fun p : α × β => f p.1 p.2 where
  ahead p t h := (hf p.1).ahead p.2 t h
  nil p hp h := (hf p.1).nil p.2 hp h

end

section
variable {β : Type} [Leaves β]

/-- A complaint about the byte at hand does not depend on what follows. -/
theorem scanner_fail (what : String) : Scanner (fail what : Bytes → Except Thrown β) where
  ahead s t h := by
    cases s with
    | nil => exact absurd h (not_settled_fail what)
    | cons c s => rfl
  nil s hs h := by
    cases hs
    exact not_settled_fail what h

/-- What a result does not show of the input is not needed. -/
theorem scanner_ok {f : Bytes → β} (hf : ∀ s t, Leaves.left (f s) ≠ [] →
    f (s ++ t) = Leaves.ahead (f s) t) (hnil : Leaves.left (f []) = []) :
    Scanner fun s : Bytes => (.ok (f s) : Except Thrown β) where
  ahead s t h := congrArg Except.ok (hf s t h)
  nil s hs h := by
    cases hs
    exact h hnil

/-- A test that looks at the first byte only. -/
theorem Scanner.ite {p : Bytes → Prop} [DecidablePred p]
    (hp : ∀ c s t, p (c :: s ++ t) ↔ p (c :: s)) {f g : Bytes → Except Thrown β} (hf : Scanner f)
    (hg : Scanner g) : Scanner fun s => if p s then f s else g s where
  ahead s t h := by
    cases s with
    | nil =>
      split at h
      · exact absurd h (hf.nil [] rfl)
      · exact absurd h (hg.nil [] rfl)
    | cons c s =>
      by_cases hps : p (c :: s)
      · simp only [if_pos hps] at h ⊢
        exact (if_pos ((hp c s t).mpr hps)).trans (hf.ahead _ t h)
      · simp only [if_neg hps] at h ⊢
        exact (if_neg (mt (hp c s t).mp hps)).trans (hg.ahead _ t h)
  nil s hs h := by
    split at h
    · exact hf.nil s hs h
    · exact hg.nil s hs h

/-- Where something is left, the bytes dropped are the same with more behind them. -/
theorem dropWhile_append {p : UInt8 → Bool} {s : Bytes} (h : s.dropWhile p ≠ []) (t : Bytes) :
    (s ++ t).dropWhile p = s.dropWhile p ++ t := by
  induction s with
  | nil => exact absurd rfl h
  | cons c s ih =>
    by_cases hc : p c = true
    · rw [List.dropWhile_cons_of_pos hc] at h ⊢
      rw [List.cons_append, List.dropWhile_cons_of_pos hc, ih h]
    · rw [List.dropWhile_cons_of_neg hc, List.cons_append, List.dropWhile_cons_of_neg hc]

theorem skipWs_ahead {s : Bytes} (h : skipWs s ≠ []) (t : Bytes) :
    skipWs (s ++ t) = skipWs s ++ t :=
  dropWhile_append h t

theorem Scanner.skipWs {f : Bytes → Except Thrown β} (hf : Scanner f) :
    Scanner fun s => f (skipWs s) where
  ahead s t h := by
    have hs : AgentService.skipWs s ≠ [] := fun hnil => hf.nil _ hnil h
    show f (AgentService.skipWs (s ++ t)) = _
    rw [skipWs_ahead hs]
    exact hf.ahead _ t h
  nil s hs h := by
    cases hs
    exact hf.nil [] rfl h

end

/-! ## Literals and numbers -/

/-- A word is settled once its last byte is in, or at the first byte that differs. -/
theorem scanner_literal {word : Bytes} (what : String) (node : JsonNode) (hword : word ≠ []) :
    Scanner (literal word what node) := by
  constructor
  · intro s t h
    clear hword
    induction word generalizing s with
    | nil => rfl
    | cons w word ih =>
      cases s with
      | nil => exact absurd h (not_settled_fail what)
      | cons c s =>
        change Settled (if c = w then literal word what node s else fail what (c :: s)) at h
        show (if c = w then literal word what node (s ++ t) else fail what (c :: (s ++ t))) =
          (if c = w then literal word what node s else fail what (c :: s)).map _
        by_cases hc : c = w
        · simp only [if_pos hc] at h ⊢
          exact ih s h
        · simp only [if_neg hc] at h ⊢
          rfl
  · intro s hs h
    cases hs
    cases word with
    | nil => exact hword rfl
    | cons w word => exact not_settled_fail what h

/-- A run of digits ends at a byte that is none. -/
theorem scanner_digits : Scanner fun s : Bytes =>
    (.ok (s.dropWhile isDigit) : Except Thrown Bytes) :=
  scanner_ok (fun _ t h => dropWhile_append h t) rfl

theorem scanner_tail : Scanner fun s : Bytes => (.ok s.tail : Except Thrown Bytes) := by
  refine scanner_ok (fun s t h => ?_) rfl
  cases s with
  | nil => exact absurd rfl h
  | cons c s => rfl

theorem scanner_rest : Scanner fun s : Bytes => (.ok s : Except Thrown Bytes) :=
  scanner_ok (fun _ _ _ => rfl) rfl

theorem scanner_intPart : Scanner intPart := by
  unfold intPart
  refine .ite ?_ scanner_tail (.ite ?_ scanner_digits (scanner_fail _))
  · exact fun _ _ _ => Iff.rfl
  · exact fun _ _ _ => Iff.rfl

/-- A digit is needed, and then all that follow. -/
theorem scanner_someDigits (what : String) :
    Scanner fun s : Bytes =>
      (if digitNext s then .ok (s.dropWhile isDigit) else fail what s : Except Thrown Bytes) :=
  .ite (fun _ _ _ => Iff.rfl) scanner_digits (scanner_fail what)

/-- A byte is skipped. -/
theorem Scanner.tail {β : Type} [Leaves β] {f : Bytes → Except Thrown β} (hf : Scanner f) :
    Scanner fun s : Bytes => f s.tail where
  ahead s t h := by
    cases s with
    | nil => exact absurd h (hf.nil [] rfl)
    | cons c s => exact hf.ahead s t h
  nil s hs h := by
    cases hs
    exact hf.nil [] rfl h

theorem scanner_fracPart : Scanner fracPart := by
  unfold fracPart
  refine .ite ?_ (scanner_someDigits _).tail scanner_rest
  exact fun _ _ _ => Iff.rfl

theorem scanner_sign {β : Type} [Leaves β] {f : Bytes → Except Thrown β} (hf : Scanner f) :
    Scanner fun s => f (skipSign s) := by
  simp only [apply_skipSign f]
  exact .ite (fun _ _ _ => Iff.rfl) hf.tail hf

theorem scanner_expPart : Scanner expPart := by
  unfold expPart
  refine .ite ?_ (scanner_sign (scanner_someDigits _)).tail scanner_rest
  exact fun _ _ _ => Iff.rfl

/-- What `number` walks over. -/
def numberEnd (start : Bytes) : Except Thrown Bytes :=
  intPart (if start.head? = some 0x2d then start.tail else start) >>= fracPart >>= expPart

/-- A number is where its end is: the text is what lies in front of it. -/
theorem number_eq (start : Bytes) : number start = numberEnd start >>= fun s =>
    .ok (.num (latin1Decode (start.take (start.length - s.length))), s) := by
  unfold number numberEnd
  cases intPart (if start.head? = some 0x2d then start.tail else start) with
  | error err => rfl
  | ok s =>
    cases hfrac : fracPart s with
    | error err => simp [hfrac]
    | ok s => simp [hfrac]; rfl

theorem scanner_numberEnd : Scanner numberEnd := by
  have hminus : Scanner fun s : Bytes => intPart (if s.head? = some 0x2d then s.tail else s) := by
    have hif (s : Bytes) : intPart (if s.head? = some 0x2d then s.tail else s) =
        if s.head? = some 0x2d then intPart s.tail else intPart s := by
      split <;> rfl
    simp only [hif]
    exact .ite (fun _ _ _ => Iff.rfl) scanner_intPart.tail scanner_intPart
  exact (hminus.bind scanner_fracPart).bind scanner_expPart

theorem scanner_number : Scanner number where
  ahead s t h := by
    rw [number_eq] at h
    have hend := scanner_numberEnd.ahead s t
    rw [number_eq, number_eq]
    cases hs : numberEnd s with
    | error err =>
      rw [hs] at h hend
      have hfail := hend (settled_error h)
      change numberEnd (s ++ t) = _ at hfail
      show numberEnd (s ++ t) >>= _ = _
      rw [hfail]
      rfl
    | ok rest =>
      rw [hs] at h hend
      have hrest : numberEnd (s ++ t) = .ok (rest ++ t) := hend h
      have hnumber : number s = .ok (.num (latin1Decode (s.take (s.length - rest.length))),
          rest) := by
        rw [number_eq, hs]
        rfl
      have hlen := number_length hnumber
      show numberEnd (s ++ t) >>= _ = _
      rw [hrest]
      show Except.ok (JsonNode.num
        (latin1Decode ((s ++ t).take ((s ++ t).length - (rest ++ t).length))),
          rest ++ t) = Except.ok (JsonNode.num (latin1Decode (s.take (s.length - rest.length))),
            rest ++ t)
      rw [List.length_append, List.length_append, Nat.add_sub_add_right,
        List.take_append_of_le_length (Nat.sub_le _ _)]
  nil s hs h := by
    cases hs
    exact not_settled_fail "in numeric literal" h

/-! ## Strings -/

/-- Hex digits are settled when they are all in, or at the first byte that is none. -/
theorem hexLoop_ahead (t : Bytes) (k : Nat) :
    ∀ (v : Nat) (s : Bytes), (∀ n, hexLoop k v s = .ok n → hexLoop k v (s ++ t) = .ok n) ∧
    ∀ e, hexLoop k v s = .error (.syntaxError e) → e.eof = false →
      hexLoop k v (s ++ t) = .error (.syntaxError e) := by
  induction k with
  | zero => exact fun v s => ⟨fun n h => h, fun e h _ => nomatch h⟩
  | succ k ih =>
    intro v s
    cases s with
    | nil =>
      refine ⟨fun n h => absurd h fail_ne_ok, fun e h heof => ?_⟩
      cases h
      cases heof
    | cons c s =>
      rw [List.cons_append]
      unfold hexLoop
      cases hexValue c with
      | none => exact ⟨fun n h => absurd h fail_ne_ok, fun e h _ => h⟩
      | some d => exact ih _ s

/-- More input does not make a second escape of what stands behind a surrogate. -/
def LooksPast (s t : Bytes) : Prop :=
  ((s ++ t).head? = some 0x5c ∧ (s ++ t).tail.head? = some 0x75) ↔ s.head? = some 0x5c ∧
    s.tail.head? = some 0x75

/-- A string reader looks past a high surrogate only at a backslash and a `u`. -/
theorem looksPast_of {s t : Bytes} (h : s ≠ [] ∧ s ≠ [0x5c] ∨ t.head? ≠ some 0x5c ∧
    t.head? ≠ some 0x75) : LooksPast s t := by
  cases s with
  | nil =>
    rcases h with h | h
    · exact absurd rfl h.1
    · exact iff_of_false (fun hc => h.1 hc.1) (by simp)
  | cons a s =>
    cases s with
    | nil =>
      rcases h with h | h
      · have ha : a ≠ 0x5c := fun ha => h.2 (by rw [ha])
        exact iff_of_false (fun hc => ha (Option.some.inj hc.1)) (fun hc =>
          ha (Option.some.inj hc.1))
      · exact iff_of_false (fun hc => h.2 hc.2) (by simp)
    | cons b s => exact Iff.rfl

theorem drop_two_append {s t : Bytes} (h : s.tail.head? = some 0x75) :
    (s ++ t).drop 2 = s.drop 2 ++ t := by
  match s, h with
  | a :: b :: s, _ => rfl

/-- The escape behind a high surrogate, with more bytes behind what it looked at. -/
theorem lowEscape_ahead {n : Nat} {s t : Bytes} {low : Option Nat} (h : lowEscape n s = .ok low)
    (ht : LooksPast s t) : lowEscape n (s ++ t) = .ok low := by
  unfold lowEscape at h ⊢
  by_cases hc : n < 0xdc00 ∧ s.head? = some 0x5c ∧ s.tail.head? = some 0x75
  · rw [if_pos hc] at h
    obtain ⟨lo, hlo, h⟩ := bind_eq_ok.mp h
    rw [if_pos ⟨hc.1, ht.mpr hc.2⟩, drop_two_append hc.2.2, hex4,
      ((hexLoop_ahead t 4 0 _).1 lo hlo), ok_bind]
    exact h
  · rw [if_neg hc] at h
    rw [if_neg fun hc' => hc ⟨hc'.1, ht.mp hc'.2⟩]
    exact h

/-- A pair of escapes is looked at whole. -/
theorem looksPast_of_low {n lo : Nat} {s : Bytes} (h : lowEscape n s = .ok (some lo)) (t : Bytes) :
    LooksPast s t := by
  refine looksPast_of (.inl ⟨?_, ?_⟩)
  · intro hs
    rw [hs, lowEscape_none (by simp)] at h
    cases h
  · intro hs
    rw [hs, lowEscape_none (by simp)] at h
    cases h

theorem lowEscape_fails {n : Nat} {s t : Bytes} {e : JsonSyntaxError}
    (h : lowEscape n s = .error (.syntaxError e)) (heof : e.eof = false) :
    lowEscape n (s ++ t) = .error (.syntaxError e) := by
  unfold lowEscape at h ⊢
  split_ifs at h with hc
  have hlooks : LooksPast s t := by
    refine looksPast_of (.inl ⟨?_, ?_⟩)
    · intro hs
      rw [hs] at hc
      simp at hc
    · intro hs
      rw [hs] at hc
      simp at hc
  rw [if_pos ⟨hc.1, hlooks.mpr hc.2⟩, drop_two_append hc.2.2]
  rcases bind_eq_error.mp h with h | ⟨lo, -, h⟩
  · rw [hex4, (hexLoop_ahead t 4 0 _).2 e h heof]
    rfl
  · cases h

/-- The number an escape writes, and what stands behind it. -/
theorem unicodeEscape_hex {s hex : Bytes} {n : Nat} (hx : HexText hex n) :
    unicodeEscape (0x5c :: 0x75 :: (hex ++ s)) =
      (if 0xd800 ≤ n ∧ n < 0xe000 then
        lowEscape n s >>= fun low => match low with
          | some lo => (fromCodePoint (pairCodePoint n lo)).map (·, s.drop 6)
          | none => (fromCodePoint 0xfffd).map (·, s)
      else (fromCodePoint n).map (·, s)) := by
  have hdrop (k : Nat) : (0x5c :: 0x75 :: (hex ++ s)).drop (k + 6) = s.drop k := by
    rw [Nat.add_comm, ← List.drop_drop, List.drop_succ_cons, List.drop_succ_cons, ← hx.length,
      List.drop_left]
  have hdrop6 := hdrop 0
  have hdrop12 := hdrop 6
  have hhex : hex4 ((0x5c :: 0x75 :: (hex ++ s)).drop 2) = .ok n := hex4_append hx s
  rw [Nat.zero_add, List.drop_zero] at hdrop6
  unfold unicodeEscape
  rw [hhex, ok_bind, hdrop6, hdrop12]
  split_ifs
  · cases lowEscape n s with
    | error err => rw [error_bind, error_bind]
    | ok low =>
      cases low with
      | none =>
        rw [ok_bind, ok_bind]
        dsimp only
        rw [fromCodePoint_ok (by decide)]
        rfl
      | some lo =>
        rw [ok_bind, ok_bind]
        dsimp only
        cases fromCodePoint (pairCodePoint n lo) <;> rfl
  · cases fromCodePoint n <;> rfl

/-- A `\u` escape is the same with more bytes behind it. -/
theorem unicodeEscape_ahead {s after t : Bytes} {text : JsString}
    (h : unicodeEscape (0x5c :: 0x75 :: s) = .ok (text, after)) (ht : LooksPast after t) :
    unicodeEscape (0x5c :: 0x75 :: s ++ t) = .ok (text, after ++ t) := by
  obtain ⟨n, hn, -⟩ := bind_eq_ok.mp h
  obtain ⟨hex, s, rfl, hx⟩ := hex4_ok hn
  have hassoc : 0x5c :: 0x75 :: (hex ++ s) ++ t = 0x5c :: 0x75 :: (hex ++ (s ++ t)) := by simp
  rw [unicodeEscape_hex hx] at h
  rw [hassoc, unicodeEscape_hex hx]
  split_ifs at h ⊢
  · obtain ⟨low, hlow, h⟩ := bind_eq_ok.mp h
    cases low with
    | none =>
      obtain ⟨text', htext, heq⟩ := map_eq_ok.mp h
      cases heq
      rw [lowEscape_ahead hlow ht, ok_bind]
      dsimp only
      rw [htext]
      rfl
    | some lo =>
      obtain ⟨text', htext, heq⟩ := map_eq_ok.mp h
      cases heq
      rw [lowEscape_ahead hlow (looksPast_of_low hlow t), ok_bind]
      dsimp only
      rw [htext]
      rcases lowEscape_ok hlow with ⟨hex', lo', s, -, -, rfl, hx', -⟩ | ⟨hnone, -⟩
      · have hlen : (0x5c :: 0x75 :: hex').length = 6 := congrArg (· + 2) hx'.length
        rw [List.append_assoc, ← hlen, List.drop_left, List.drop_left]
        rfl
      · cases hnone
  · obtain ⟨text', htext, heq⟩ := map_eq_ok.mp h
    cases heq
    rw [htext]
    rfl

theorem unicodeEscape_fails {s t : Bytes} {e : JsonSyntaxError}
    (h : unicodeEscape (0x5c :: 0x75 :: s) = .error (.syntaxError e)) (heof : e.eof = false) :
    unicodeEscape (0x5c :: 0x75 :: s ++ t) = .error (.syntaxError e) := by
  rcases bind_eq_error.mp h with hhex | ⟨n, hn, -⟩
  · have hfail : hex4 ((0x5c :: 0x75 :: s ++ t).drop 2) = .error (.syntaxError e) :=
      (hexLoop_ahead t 4 0 s).2 e hhex heof
    rw [unicodeEscape, hfail]
    rfl
  · obtain ⟨hex, s, rfl, hx⟩ := hex4_ok hn
    have hassoc : 0x5c :: 0x75 :: (hex ++ s) ++ t = 0x5c :: 0x75 :: (hex ++ (s ++ t)) := by simp
    have hpoint {cp : Nat} {rest : Bytes}
        (h : (fromCodePoint cp).map (·, rest) = .error (.syntaxError e)) : False := by
      unfold fromCodePoint at h
      split_ifs at h <;> cases h
    rw [unicodeEscape_hex hx] at h
    rw [hassoc, unicodeEscape_hex hx]
    split_ifs at h ⊢
    · rcases bind_eq_error.mp h with hlow | ⟨low, -, h⟩
      · rw [lowEscape_fails hlow heof]
        rfl
      · cases low with
        | none => exact absurd h fun h => hpoint h
        | some lo => exact absurd h fun h => hpoint h
    · exact absurd h fun h => hpoint h

instance : Leaves StrState where
  left st := st.rest
  ahead st t := ⟨st.parts, st.run, st.rest ++ t⟩

/-- Both parts of a sequence that is cut in two are beyond ASCII. -/
theorem high_of_cut {c : Char} {as bs : Bytes} (h : String.utf8EncodeChar c = as ++ bs)
    (has : as ≠ []) (hbs : bs ≠ []) : ∀ b ∈ as ++ bs, 0x80 ≤ b := by
  intro b hb
  by_contra hlow
  have hmem : b ∈ utf8Encode [c] := by rwa [utf8Encode_cons, utf8Encode_nil, List.append_nil, h]
  have hascii := mem_utf8Encode_ascii (UInt8.not_le.mp hlow) hmem
  rw [List.mem_singleton] at hascii
  have hlen : (String.utf8EncodeChar c).length = 1 := by
    rw [← hascii, Utf8.encodeChar_ascii (UInt8.not_le.mp hlow)]
    rfl
  rw [h, List.length_append] at hlen
  have := List.length_pos_iff.mpr has
  have := List.length_pos_iff.mpr hbs
  omega

/-- A sequence that more input completes is cut off inside. -/
theorem startsWellFormed_cut {s t : Bytes} (hs : s ≠ []) (h : StartsWellFormed (s ++ t)) :
    StartsWellFormed s ∨ (∀ b ∈ s, 0x80 ≤ b) ∧ ∃ b ∈ t.head?, 0x80 ≤ b := by
  obtain ⟨c, rest, heq⟩ := h
  rcases List.append_eq_append_iff.mp heq with ⟨as, hc, ht⟩ | ⟨as, hs', -⟩
  · cases as with
    | nil => exact .inl ⟨c, [], by simpa using hc.symm⟩
    | cons a as =>
      have hhigh := high_of_cut hc hs (List.cons_ne_nil a as)
      refine .inr ⟨fun b hb => hhigh b (List.mem_append_left _ hb), a, ?_, hhigh a (by simp)⟩
      rw [ht]
      rfl
  · exact .inl ⟨c, as, hs'⟩

/-- Only strays are read from bytes beyond ASCII, and then the input is at its end. -/
theorem not_settled_high {st : StrState} (h : ∀ b ∈ st.rest, 0x80 ≤ b) :
    ¬ Settled (strSlow.result st) := by
  refine Loop.result_induction (L := strSlow) (P := fun st r => (∀ b ∈ st.rest, 0x80 ≤ b) →
    ¬ Settled r) ?_ ?_ st h
  · intro st r hturn h
    change strTurn st () = .done r at hturn
    unfold strTurn at hturn
    split at hturn
    · cases hturn
      exact not_settled_fail _
    · rename_i c rest hrest
      have hc : 0x80 ≤ c := h c (by rw [hrest]; exact List.mem_cons_self)
      obtain ⟨hquote, hslash, hcontrol⟩ := high_ne hc
      rw [if_neg hquote, if_neg hcontrol, if_neg hslash, if_neg (UInt8.not_lt.mpr hc)] at hturn
      split_ifs at hturn
  · intro st st' hturn ih h
    apply ih
    intro b hb
    have hstep := strStep_of_turn hturn
    generalize st.rest = bytes at hstep h
    cases hstep with
    | char c hc hq hb' s => exact h b (List.mem_append_right _ hb)
    | stray hb' hs => exact h b (List.mem_cons_of_mem _ hb)
    | short s he => exact absurd (h 0x5c List.mem_cons_self) (by decide)
    | unicode hesc => exact absurd (h 0x5c List.mem_cons_self) (by decide)

/-- A string whose end or fault is reached has looked at all it looks for. -/
theorem settled_looksPast {st : StrState} (h : Settled (strSlow.result st)) (t : Bytes) :
    LooksPast st.rest t := by
  refine looksPast_of (.inl ⟨?_, ?_⟩)
  · intro hrest
    have hturn : strTurn st () = .done (fail "in string literal" []) := by rw [strTurn, hrest]
    rw [strSlow_done hturn] at h
    exact not_settled_fail _ h
  · intro hrest
    have hturn : strTurn st () = .done (fail "in string escape code" []) := by
      rw [strTurn, hrest]; rfl
    rw [strSlow_done hturn] at h
    exact not_settled_fail _ h

/-- The first byte to come is ASCII, and neither a backslash nor a `u`. -/
def StartsPlain (t : Bytes) : Prop := ∀ b ∈ t.head?, b < 0x80 ∧ b ≠ 0x5c ∧ b ≠ 0x75

/-- A turn is the same with more input, if that is plain or does not matter later. -/
theorem strTurn_ahead {st st' : StrState} (h : strTurn st () = .again st') (t : Bytes)
    (ht : Settled (strSlow.result st') ∨ StartsPlain t) :
    strTurn (Leaves.ahead st t) () = .again (Leaves.ahead st' t) := by
  have hlooks : LooksPast st'.rest t := by
    rcases ht with ht | ht
    · exact settled_looksPast ht t
    · exact looksPast_of (.inr ⟨fun hb => (ht _ hb).2.1 rfl, fun hb => (ht _ hb).2.2 rfl⟩)
  apply turn_of_strStep
  have hstep := strStep_of_turn h
  show StrStep _ (st.rest ++ t) _
  generalize st.rest = bytes at hstep
  cases hstep with
  | char c hc hq hb s =>
    have hchar := @StrStep.char (Leaves.ahead st t) c hc hq hb (s ++ t)
    rw [← List.append_assoc] at hchar
    exact hchar
  | @stray b s hb hs =>
    refine .stray hb fun hwell => ?_
    rcases startsWellFormed_cut (List.cons_ne_nil b s) hwell with hwell | ⟨hhigh, b', hb', hlow⟩
    · exact hs hwell
    · rcases ht with ht | ht
      · exact not_settled_high (fun x hx => hhigh x (List.mem_cons_of_mem b hx)) ht
      · exact absurd (ht b' hb').1 (UInt8.not_lt.mpr hlow)
  | short s he => exact .short (s ++ t) he
  | unicode hesc => exact .unicode (unicodeEscape_ahead hesc hlooks)

/-- So a string that is settled stays what it is, with the rest moved on. -/
theorem settled_result {st : StrState} (t : Bytes) (h : Settled (strSlow.result st)) :
    strSlow.result (Leaves.ahead st t) = (strSlow.result st).map (Leaves.ahead · t) := by
  refine Loop.result_induction (L := strSlow) (P := fun st r => Settled r →
    strSlow.result (Leaves.ahead st t) = r.map (Leaves.ahead · t)) ?_ ?_ st h
  · intro st r hturn h
    refine strSlow_done ?_
    change strTurn st () = .done r at hturn
    show strTurn ⟨st.parts, st.run, st.rest ++ t⟩ () = _
    unfold strTurn at hturn ⊢
    split at hturn
    · cases hturn
      exact absurd h (not_settled_fail _)
    · rename_i c rest hrest
      simp only [hrest, List.cons_append]
      split_ifs at hturn ⊢ with hquote hcontrol hslash
      · cases hturn
        rfl
      · cases hturn
        rfl
      · cases rest with
        | nil =>
          cases hturn
          exact absurd h (not_settled_fail _)
        | cons e rest =>
          subst hslash
          simp only [List.cons_append]
          dsimp only at hturn
          split_ifs at hturn ⊢ with hu
          · subst hu
            cases hesc : unicodeEscape (0x5c :: 0x75 :: rest) with
            | ok p =>
              rw [hesc] at hturn
              cases hturn
            | error err =>
              rw [hesc] at hturn
              cases hturn
              cases err with
              | rangeError => exact h.elim
              | syntaxError e =>
                have hfails := @unicodeEscape_fails rest t e hesc h
                rw [List.cons_append, List.cons_append] at hfails
                rw [hfails]
                rfl
          · cases hescape : escapes e with
            | some u =>
              rw [hescape] at hturn
              cases hturn
            | none =>
              rw [hescape] at hturn
              cases hturn
              rfl
  · intro st st' hturn ih h
    rw [Loop.result_again (L := strSlow) (strTurn_ahead hturn t (.inl h))]
    exact ih h

theorem takeWhile_append {p : UInt8 → Bool} {s : Bytes} (h : s.dropWhile p ≠ []) (t : Bytes) :
    (s ++ t).takeWhile p = s.takeWhile p := by
  induction s with
  | nil => exact absurd rfl h
  | cons c s ih =>
    by_cases hc : p c = true
    · rw [List.dropWhile_cons_of_pos hc] at h
      rw [List.cons_append, List.takeWhile_cons_of_pos hc, List.takeWhile_cons_of_pos hc, ih h]
    · rw [List.cons_append, List.takeWhile_cons_of_neg hc, List.takeWhile_cons_of_neg hc]

/-- Without a byte that ends the fast path a string is cut off. -/
theorem str_fast {s : Bytes} (h : (s.drop 1).dropWhile isFast = []) :
    str s = fail "in string literal" [] := by
  have hslow : strSlow.result ⟨[], (s.drop 1).takeWhile isFast, []⟩ = fail "in string literal" [] :=
    strSlow_done rfl
  rw [str]
  simp only [h, hslow]
  rfl

/-- A string, on either path of the reader. -/
theorem scanner_str : Scanner str where
  ahead s t h := by
    cases s with
    | nil => exact absurd h (not_settled_fail "in string literal")
    | cons q start =>
      by_cases hend : start.dropWhile isFast = []
      · rw [str_fast (s := q :: start) hend] at h
        exact absurd h (not_settled_fail _)
      · obtain ⟨c, rest, hc⟩ := List.exists_cons_of_ne_nil hend
        have hdrop := dropWhile_append hend t
        have htake := takeWhile_append hend t
        rw [hc, List.cons_append] at hdrop
        show str (q :: (start ++ t)) = _
        unfold str at h ⊢
        simp only [List.drop_succ_cons, List.drop_zero, hdrop, htake, hc] at h ⊢
        split_ifs at h ⊢
        · rfl
        · rfl
        · have hslow : Settled (strSlow.result ⟨[], start.takeWhile isFast, c :: rest⟩) := by
            cases hresult : strSlow.result ⟨[], start.takeWhile isFast, c :: rest⟩ with
            | ok p =>
              rw [hresult] at h
              exact h
            | error err =>
              rw [hresult] at h
              exact settled_error h
          have hahead := settled_result t hslow
          change strSlow.result ⟨[], start.takeWhile isFast, c :: (rest ++ t)⟩ = _ at hahead
          rw [hahead]
          cases strSlow.result ⟨[], start.takeWhile isFast, c :: rest⟩ <;> rfl
  nil s hs h := by
    cases hs
    exact not_settled_fail "in string literal" h

/-! ## Values -/

theorem scanner_key : Scanner key := by
  have hcolon (k : JsString) : Scanner fun s : Bytes =>
      (if s.head? ≠ some 0x3a then fail "after object key" s
        else .ok (k, s.tail) : Except Thrown (JsString × Bytes)) := by
    refine .ite (fun _ _ _ => Iff.rfl) (scanner_fail _) (scanner_ok (fun s t h => ?_) rfl)
    cases s with
    | nil => exact absurd rfl h
    | cons c s => rfl
  have hname : Scanner fun s : Bytes =>
    (if s.head? ≠ some 0x22 then fail "looking for beginning of object key string" s
      else str s >>= fun p =>
        if (skipWs p.2.2).head? ≠ some 0x3a then fail "after object key" (skipWs p.2.2)
        else .ok (p.1, (skipWs p.2.2).tail) : Except Thrown (JsString × Bytes)) :=
    .ite (fun _ _ _ => Iff.rfl) (scanner_fail _)
      (scanner_str.bind (.uncurry fun k => .uncurry fun _ => (hcolon k).skipWs))
  exact hname.skipWs

theorem scanner_openFrame (obj : Bool) : Scanner (openFrame obj) := by
  have htail : Scanner fun s : Bytes =>
    (.ok (.value (container obj [] []) s.tail) : Except Thrown Begun) := by
    refine scanner_ok (fun s t h => ?_) rfl
    cases s with
    | nil => exact absurd rfl h
    | cons c s => rfl
  have hmember : Scanner fun s : Bytes =>
    (if obj then key s >>= fun p => .ok (.opened ⟨true, [], [], p.1⟩ p.2)
      else .ok (.opened ⟨false, [], [], []⟩ s) : Except Thrown Begun) := by
    have hopened (k : JsString) :
        Scanner fun s : Bytes => (.ok (.opened ⟨true, [], [], k⟩ s) : Except Thrown Begun) :=
      scanner_ok (fun _ _ _ => rfl) rfl
    refine .ite (fun _ _ _ => Iff.rfl) (scanner_key.bind (.uncurry hopened)) ?_
    exact scanner_ok (fun _ _ _ => rfl) rfl
  have hbracket : Scanner fun s : Bytes =>
    (if s.head? = some (closer obj) then .ok (.value (container obj [] []) s.tail)
      else if obj then key s >>= fun p => .ok (.opened ⟨true, [], [], p.1⟩ p.2)
        else .ok (.opened ⟨false, [], [], []⟩ s) :
        Except Thrown Begun) := .ite (fun _ _ _ => Iff.rfl) htail hmember
  exact hbracket.skipWs

theorem scanner_scalar : Scanner scalar where
  ahead s t h := by
    cases s with
    | nil => exact absurd h (not_settled_fail "looking for beginning of value")
    | cons c s =>
      show scalar (c :: (s ++ t)) = _
      have hnode (v : JsString) (plain : Bool) :
          Scanner fun s : Bytes => (.ok (.str v plain, s) : Except Thrown (JsonNode × Bytes)) :=
        scanner_ok (fun _ _ _ => rfl) rfl
      have hstr : Scanner fun s : Bytes => str s >>= fun p =>
        (.ok (.str p.1 p.2.1, p.2.2) : Except Thrown (JsonNode × Bytes)) :=
        scanner_str.bind (.uncurry fun v => .uncurry (hnode v))
      unfold scalar at h ⊢
      dsimp only at h ⊢
      split_ifs at h ⊢
      · exact hstr.ahead (c :: s) t h
      · exact (scanner_literal _ _ (List.cons_ne_nil _ _)).ahead (c :: s) t h
      · exact (scanner_literal _ _ (List.cons_ne_nil _ _)).ahead (c :: s) t h
      · exact (scanner_literal _ _ (List.cons_ne_nil _ _)).ahead (c :: s) t h
      · exact scanner_number.ahead (c :: s) t h
      · rfl
  nil s hs h := by
    cases hs
    exact not_settled_fail "looking for beginning of value" h

/-- What a value begins with. -/
theorem scanner_begin (depth : Nat) : Scanner (begin depth) where
  ahead s t h := by
    unfold begin at h
    cases hs : skipWs s with
    | nil =>
      rw [hs] at h
      exact absurd h (not_settled_fail _)
    | cons c rest =>
      have hskip := skipWs_ahead (s := s) (by rw [hs]; exact List.cons_ne_nil c rest) t
      rw [hs, List.cons_append] at hskip
      rw [hs] at h
      show begin depth (s ++ t) = _
      unfold begin
      rw [hskip, hs]
      dsimp only at h ⊢
      split_ifs at h ⊢
      · rfl
      · exact (scanner_openFrame _).ahead rest t h
      · have hvalue : Scanner fun p : JsonNode × Bytes =>
          (.ok (.value p.1 p.2) : Except Thrown Begun) :=
          .uncurry fun v => scanner_ok (fun _ _ _ => rfl) rfl
        exact (scanner_scalar.bind hvalue).ahead (c :: rest) t h
  nil s hs h := by
    cases hs
    exact not_settled_fail "looking for beginning of value" h

/-! ## The loop -/

instance : Leaves ParseState where
  left st := st.rest
  ahead st t := ⟨st.stack, st.rest ++ t, st.value⟩

/-- The result is a failure at a byte. -/
def IsWrong (r : Except Thrown JsonNode) : Prop := ∃ e, r = .error (.syntaxError e) ∧ e.eof = false

/-- At the end of the bytes nothing is wrong yet. -/
theorem not_wrong_fail (what : String) : ¬ IsWrong (fail what []) := by
  intro ⟨e, he, heof⟩
  cases he
  cases heof

section
variable {ignoreRest : Bool} {stack : List Frame} {v : JsonNode} {s : Bytes}

/-- At the end of the input there is no wrong byte any more. -/
theorem place_nil {r : Except Thrown JsonNode} (h : place ignoreRest stack v [] = .done r) :
    ¬ IsWrong r := by
  intro ⟨e, he, heof⟩
  subst he
  unfold place at h
  split at h
  · split_ifs at h with hrest hnil
    · cases h
    · exact hnil rfl
    · cases h
  · cases h
    cases heof

/-- A wrong byte behind a value is found whatever follows. -/
theorem place_wrong {r : Except Thrown JsonNode} (h : place ignoreRest stack v s = .done r)
    (hr : IsWrong r) (t : Bytes) : place ignoreRest stack v (s ++ t) = .done r := by
  unfold place at h ⊢
  cases stack with
  | nil =>
    dsimp only at h ⊢
    split_ifs at h with hrest hs
    · cases h
      obtain ⟨e, he, -⟩ := hr
      cases he
    · rw [skipWs_ahead hs, if_neg hrest, if_pos (by simp [hs])]
      cases h
      cases hskip : skipWs s with
      | nil => exact absurd hskip hs
      | cons c rest => rfl
    · cases h
      obtain ⟨e, he, -⟩ := hr
      cases he
  | cons top below =>
    dsimp only at h ⊢
    cases hs : skipWs s with
    | nil =>
      rw [hs] at h
      cases h
      exact absurd hr (not_wrong_fail _)
    | cons c rest =>
      rw [skipWs_ahead (by rw [hs]; exact List.cons_ne_nil c rest), hs, List.cons_append]
      rw [hs] at h
      dsimp only at h ⊢
      split_ifs at h ⊢
      · cases hkey : key rest with
        | ok p =>
          rw [hkey] at h
          cases h
        | error err =>
          rw [hkey] at h
          cases h
          obtain ⟨e, he, heof⟩ := hr
          cases he
          have hfails := scanner_key.ahead rest t (by rw [hkey]; exact heof)
          rw [hkey] at hfails
          rw [show key (rest ++ t) = _ from hfails]
          rfl
      · exact h
      · exact h

/-- Where a value is followed by something, its place is the same with more bytes behind. -/
theorem place_again {st : ParseState} (h : place ignoreRest stack v s = .again st)
    (hrest : st.rest ≠ []) (t : Bytes) :
    place ignoreRest stack v (s ++ t) = .again (Leaves.ahead st t) := by
  unfold place at h ⊢
  cases stack with
  | nil =>
    dsimp only at h
    split_ifs at h
  | cons top below =>
    dsimp only at h ⊢
    cases hs : skipWs s with
    | nil =>
      rw [hs] at h
      cases h
    | cons c rest =>
      rw [skipWs_ahead (by rw [hs]; exact List.cons_ne_nil c rest), hs, List.cons_append]
      rw [hs] at h
      dsimp only at h ⊢
      split_ifs at h ⊢
      · cases hkey : key rest with
        | error err =>
          rw [hkey] at h
          cases h
        | ok p =>
          rw [hkey] at h
          cases h
          have hahead := scanner_key.ahead rest t (by rw [hkey]; exact hrest)
          rw [hkey] at hahead
          rw [show key (rest ++ t) = _ from hahead]
          rfl
      · cases h
        rfl
      · cases h
        rfl

end

section
variable {ignoreRest : Bool} {st st' : ParseState}

theorem parseTurn_nil {r : Except Thrown JsonNode} (hst : st.rest = [])
    (h : parseTurn ignoreRest st () = .done r) : ¬ IsWrong r := by
  unfold parseTurn at h
  rw [hst] at h
  split at h
  · exact place_nil h
  · cases h
    exact not_wrong_fail "looking for beginning of value"

theorem parseTurn_again_nil (hst : st.rest = []) (h : parseTurn ignoreRest st () = .again st') :
    False := by
  have hlt := parseTurn_rank h
  rw [hst] at hlt
  exact Nat.not_lt_zero _ hlt

/-- What has begun with something left begins the same way with more input. -/
theorem begin_ahead {depth : Nat} {s : Bytes} {b : Begun} (h : begin depth s = .ok b)
    (hrest : b.rest ≠ []) (t : Bytes) : begin depth (s ++ t) = .ok (b.ahead t) := by
  have hahead := (scanner_begin depth).ahead s t (by rw [h]; exact hrest)
  rw [h] at hahead
  exact hahead

/-- A turn that finds a wrong byte finds it whatever follows. -/
theorem parseTurn_wrong {r : Except Thrown JsonNode} (h : parseTurn ignoreRest st () = .done r)
    (hr : IsWrong r) (t : Bytes) : parseTurn ignoreRest (Leaves.ahead st t) () = .done r := by
  obtain ⟨stack, s, value⟩ := st
  cases value with
  | some v => exact place_wrong h hr t
  | none =>
    unfold parseTurn at h ⊢
    dsimp only [Leaves.ahead] at h ⊢
    cases hbegin : begin stack.length s with
    | error err =>
      rw [hbegin] at h
      cases h
      obtain ⟨e, he, heof⟩ := hr
      cases he
      have hfails := (scanner_begin stack.length).ahead s t (by rw [hbegin]; exact heof)
      rw [hbegin] at hfails
      rw [show begin stack.length (s ++ t) = _ from hfails]
      rfl
    | ok b =>
      rw [hbegin] at h
      cases b with
      | opened frame rest => cases h
      | value v rest =>
        have hrest : rest ≠ [] := by
          intro hnil
          rw [hnil] at h
          exact place_nil h hr
        rw [begin_ahead hbegin hrest t]
        exact place_wrong h hr t

theorem parseTurn_again (h : parseTurn ignoreRest st () = .again st') (hst : st'.rest ≠ [])
    (t : Bytes) : parseTurn ignoreRest (Leaves.ahead st t) () = .again (Leaves.ahead st' t) := by
  obtain ⟨stack, s, value⟩ := st
  cases value with
  | some v => exact place_again h hst t
  | none =>
    unfold parseTurn at h ⊢
    dsimp only [Leaves.ahead] at h ⊢
    cases hbegin : begin stack.length s with
    | error err =>
      rw [hbegin] at h
      cases h
    | ok b =>
      rw [hbegin] at h
      cases b with
      | opened frame rest =>
        cases h
        rw [begin_ahead hbegin hst t]
        rfl
      | value v rest =>
        have hrest : rest ≠ [] := by
          intro hnil
          have hlt := place_length h
          rw [hnil] at hlt
          exact Nat.not_lt_zero _ hlt
        rw [begin_ahead hbegin hrest t]
        exact place_again h hst t

/-- A wrong byte stays wrong, and what is thrown for it stays the same. -/
theorem result_wrong (t : Bytes) (h : IsWrong ((parseLoop ignoreRest).result st)) :
    (parseLoop ignoreRest).result (Leaves.ahead st t) = (parseLoop ignoreRest).result st := by
  refine Loop.result_induction (L := parseLoop ignoreRest)
    (P := fun st r => IsWrong r → (parseLoop ignoreRest).result (Leaves.ahead st t) = r) ?_ ?_ st h
  · intro st r hturn h
    exact Loop.result_done (L := parseLoop ignoreRest) (parseTurn_wrong hturn h t)
  · intro st st' hturn ih h
    have hrest : st'.rest ≠ [] := by
      intro hnil
      cases hnext : parseTurn ignoreRest st' () with
      | done r =>
        rw [Loop.result_done (L := parseLoop ignoreRest) hnext] at h
        exact parseTurn_nil hnil hnext h
      | again st'' => exact parseTurn_again_nil hnil hnext
    rw [Loop.result_again (L := parseLoop ignoreRest) (parseTurn_again hturn hrest t)]
    exact ih h

end

/-- The parser's complaint about a byte is the same whatever follows. -/
theorem parse_wrong {ignoreRest : Bool} {bytes : Bytes} (h : IsWrong (parse bytes ignoreRest))
    (t : Bytes) :
    parse (bytes ++ t) ignoreRest = parse bytes ignoreRest := result_wrong t h

end AgentService
