import AgentService.Gateway.JsonViable

/-!
# The byte that is named

Where one more byte turns input that was cut off into input that is wrong, the error names that
byte. Again this is said of each scanner and put together along the binds: with one more byte a
scanner that had not settled reads up to the end, leaves that byte, or fails at it.
-/

namespace AgentService
open Lib

/-- The sentence for a byte that stands where it may not. -/
def JsonSyntaxError.Names (e : JsonSyntaxError) (c : UInt8) : Prop :=
  ∃ what, e = ⟨js "invalid character 0x" ++ hexText c ++ js " " ++ js what, false⟩

/-- Nothing but the byte is left, if that, or it is the one that is wrong. -/
def Reaches {β : Type} [Leaves β] (c : UInt8) : Except Thrown β → Prop
  | .ok b => Leaves.left b = [] ∨ Leaves.left b = [c]
  | .error (.syntaxError e) => e.eof = false → e.Names c
  | .error .rangeError => True

/-- What leaves a byte is what leaves nothing, with the byte put behind it. -/
class LawfulLeaves (β : Type) [Leaves β] : Prop where
  last : ∀ {b : β} {c : UInt8}, Leaves.left b = [c] → ∃ b', Leaves.left b' = [] ∧
    Leaves.ahead b' [c] = b

instance : LawfulLeaves Bytes where
  last h := ⟨[], rfl, h.symm⟩

instance {α β : Type} [Leaves β] [LawfulLeaves β] : LawfulLeaves (α × β) where
  last {p c} h := by
    obtain ⟨b, hb, heq⟩ := LawfulLeaves.last (b := p.2) h
    exact ⟨(p.1, b), hb, Prod.ext rfl heq⟩

instance : LawfulLeaves Begun where
  last {b c} h := by
    cases b with
    | value v rest =>
      cases h
      exact ⟨.value v [], rfl, rfl⟩
    | opened frame rest =>
      cases h
      exact ⟨.opened frame [], rfl, rfl⟩

/-- A scanner that fails at the next byte if it fails at any. -/
structure Pointed {β γ : Type} [Leaves β] [Leaves γ] (f : β → Except Thrown γ) :
    Prop extends Scanner f where
  next : ∀ b c, ¬ Settled (f b) → Reaches c (f (Leaves.ahead b [c]))

section
variable {α β γ δ : Type} [Leaves β] [Leaves γ] [Leaves δ]

/-- What is not settled yet reaches any byte that comes next. -/
theorem reaches_of_not_settled {x : Except Thrown β} (h : ¬ Settled x) (c : UInt8) :
    Reaches c x := by
  cases x with
  | ok b => exact .inl (not_not.mp h)
  | error t =>
    cases t with
    | syntaxError e => exact fun heof => absurd heof h
    | rangeError => trivial

theorem reaches_error {err : Thrown} {c : UInt8} (h : Reaches c (.error err : Except Thrown β)) :
    Reaches c (.error err : Except Thrown γ) := by
  cases err with
  | syntaxError e => exact h
  | rangeError => trivial

theorem reaches_fail (what : String) (c : UInt8) : Reaches c (fail what [c] : Except Thrown β) :=
  fun _ => ⟨what, rfl⟩

/-- A step that is pointed reaches a byte it is alone with. -/
theorem Pointed.one [LawfulLeaves β] {f : β → Except Thrown γ} (hf : Pointed f) {b : β} {c : UInt8}
    (h : Leaves.left b = [] ∨ Leaves.left b = [c]) : Reaches c (f b) := by
  rcases h with h | h
  · exact reaches_of_not_settled (hf.nil b h) c
  · obtain ⟨b', hb', rfl⟩ := LawfulLeaves.last h
    exact hf.next b' c (hf.nil b' hb')

/-- A sequence reaches a byte if its first half does and its second is pointed. -/
theorem Reaches.bind [LawfulLeaves γ] {x : Except Thrown γ} {g : γ → Except Thrown δ} {c : UInt8}
    (hx : Reaches c x) (hg : Pointed g) : Reaches c (x >>= g) := by
  cases x with
  | ok b => exact hg.one hx
  | error err => exact reaches_error hx

/-- Two steps that are pointed are so one after the other. -/
theorem Pointed.bind [LawfulLeaves γ] {f : β → Except Thrown γ} {g : γ → Except Thrown δ}
    (hf : Pointed f) (hg : Pointed g) :
    Pointed fun b => f b >>= g where
  toScanner := hf.toScanner.bind hg.toScanner
  next b c h := by
    by_cases hfb : Settled (f b)
    · have hahead := hf.ahead b [c] hfb
      cases hb : f b with
      | error err =>
        rw [hb] at h hfb
        exact absurd (settled_error hfb) h
      | ok b' =>
        rw [hb] at h hahead
        show Reaches c (f (Leaves.ahead b [c]) >>= g)
        rw [hahead]
        exact hg.next b' c h
    · exact (hf.next b c hfb).bind hg

theorem Pointed.uncurry {f : α → β → Except Thrown γ} (hf : ∀ a, Pointed (f a)) :
    Pointed fun p : α × β => f p.1 p.2 where
  toScanner := .uncurry fun a => (hf a).toScanner
  next p c h := (hf p.1).next p.2 c h

end

section
variable {β : Type} [Leaves β]

theorem pointed_fail (what : String) : Pointed (fail what : Bytes → Except Thrown β) where
  toScanner := scanner_fail what
  next s c h := by
    cases s with
    | nil => exact reaches_fail what c
    | cons b s => exact absurd rfl h

/-- What is left of one more byte is nothing or that byte, where nothing was left before. -/
theorem pointed_ok {f : Bytes → β} (hf : Scanner fun s : Bytes => (.ok (f s) : Except Thrown β))
    (hnext : ∀ s c, Leaves.left (f s) = [] → Leaves.left (f (s ++ [c])) = [] ∨
      Leaves.left (f (s ++ [c])) = [c]) :
    Pointed fun s : Bytes => (.ok (f s) : Except Thrown β) where
  toScanner := hf
  next s c h := hnext s c (not_not.mp h)

/-- A choice that looks at the first byte alone is pointed where both of its branches are. -/
theorem Pointed.ite {p : Bytes → Prop} [DecidablePred p]
    (hp : ∀ c s t, p (c :: s ++ t) ↔ p (c :: s)) {f g : Bytes → Except Thrown β} (hf : Pointed f)
    (hg : Pointed g) : Pointed fun s => if p s then f s else g s where
  toScanner := .ite hp hf.toScanner hg.toScanner
  next s c h := by
    cases s with
    | nil =>
      show Reaches c (if p [c] then f [c] else g [c])
      split
      · exact hf.one (.inr rfl)
      · exact hg.one (.inr rfl)
    | cons b s =>
      show Reaches c (if p (b :: s ++ [c]) then f (b :: s ++ [c]) else g (b :: s ++ [c]))
      by_cases hps : p (b :: s)
      · rw [if_pos ((hp b s [c]).mpr hps)]
        rw [if_pos hps] at h
        exact hf.next (b :: s) c h
      · rw [if_neg (mt (hp b s [c]).mp hps)]
        rw [if_neg hps] at h
        exact hg.next (b :: s) c h

/-- A run that goes to the end either takes the next byte or stops at it. -/
theorem dropWhile_next {p : UInt8 → Bool} {s : Bytes} (h : s.dropWhile p = []) (c : UInt8) :
    (s ++ [c]).dropWhile p = [] ∨ (s ++ [c]).dropWhile p = [c] := by
  have hall : ∀ b ∈ s, p b = true := List.dropWhile_eq_nil_iff.mp h
  rw [List.dropWhile_append_of_pos hall]
  cases hc : p c with
  | true => exact .inl (List.dropWhile_cons_of_pos hc)
  | false => exact .inr (List.dropWhile_cons_of_neg (by simp [hc]))

/-- Whitespace may be skipped in front, -/
theorem Pointed.skipWs {f : Bytes → Except Thrown β} (hf : Pointed f) :
    Pointed fun s => f (skipWs s) where
  toScanner := hf.toScanner.skipWs
  next s c h := by
    show Reaches c (f (AgentService.skipWs (s ++ [c])))
    by_cases hs : AgentService.skipWs s = []
    · exact hf.one (dropWhile_next hs c)
    · rw [skipWs_ahead hs]
      exact hf.next _ c h

/-- and so may one byte. -/
theorem Pointed.tail {f : Bytes → Except Thrown β} (hf : Pointed f) :
    Pointed fun s : Bytes => f s.tail where
  toScanner := hf.toScanner.tail
  next s c h := by
    cases s with
    | nil => exact hf.one (.inl rfl)
    | cons b s => exact hf.next s c h

end

/-! ## Literals and numbers -/

/-- A literal that is cut goes on with the next byte or is wrong there. -/
theorem literal_next {word : Bytes} {what : String} {node : JsonNode} (c : UInt8) :
    ∀ {s : Bytes}, ¬ Settled (literal word what node s) →
      Reaches c (literal word what node (s ++ [c])) := by
  induction word with
  | nil =>
    intro s h
    have hs : s = [] := not_not.mp h
    rw [hs]
    exact .inr rfl
  | cons w word ih =>
    intro s h
    cases s with
    | nil =>
      show Reaches c (if c = w then literal word what node [] else fail what [c])
      split
      · cases word with
        | nil => exact .inl rfl
        | cons w' word => exact reaches_of_not_settled (not_settled_fail what) c
      · exact reaches_fail what c
    | cons b s =>
      change ¬ Settled (if b = w then literal word what node s else fail what (b :: s)) at h
      show Reaches c (if b = w then literal word what node (s ++ [c])
        else fail what (b :: (s ++ [c])))
      split_ifs at h ⊢
      · exact ih h
      · exact absurd rfl h

/-- A literal is wrong at the byte it first differs from. -/
theorem pointed_literal {word : Bytes} (what : String) (node : JsonNode) (hword : word ≠ []) :
    Pointed (literal word what node) where
  toScanner := scanner_literal what node hword
  next _ c h := literal_next c h

theorem pointed_digits : Pointed fun s : Bytes =>
    (.ok (s.dropWhile isDigit) : Except Thrown Bytes) :=
  pointed_ok scanner_digits fun _ c h => dropWhile_next h c

theorem pointed_rest : Pointed fun s : Bytes => (.ok s : Except Thrown Bytes) := by
  refine pointed_ok scanner_rest fun s c h => .inr ?_
  have hs : s = [] := h
  rw [hs]
  rfl

/-- The parts of a number are pointed: the integer part, -/
theorem pointed_intPart : Pointed intPart := by
  unfold intPart
  refine .ite ?_ pointed_rest.tail (.ite ?_ pointed_digits (pointed_fail _))
  · exact fun _ _ _ => Iff.rfl
  · exact fun _ _ _ => Iff.rfl

theorem pointed_someDigits (what : String) :
    Pointed fun s : Bytes =>
      (if digitNext s then .ok (s.dropWhile isDigit) else fail what s : Except Thrown Bytes) :=
  .ite (fun _ _ _ => Iff.rfl) pointed_digits (pointed_fail what)

/-- the fraction, -/
theorem pointed_fracPart : Pointed fracPart := by
  unfold fracPart
  refine .ite ?_ (pointed_someDigits _).tail pointed_rest
  exact fun _ _ _ => Iff.rfl

theorem pointed_sign {β : Type} [Leaves β] {f : Bytes → Except Thrown β} (hf : Pointed f) :
    Pointed fun s => f (skipSign s) := by
  simp only [apply_skipSign f]
  exact .ite (fun _ _ _ => Iff.rfl) hf.tail hf

/-- and the exponent. -/
theorem pointed_expPart : Pointed expPart := by
  unfold expPart
  refine .ite ?_ (pointed_sign (pointed_someDigits _)).tail pointed_rest
  exact fun _ _ _ => Iff.rfl

theorem pointed_numberEnd : Pointed numberEnd := by
  have hminus : Pointed fun s : Bytes => intPart (if s.head? = some 0x2d then s.tail else s) := by
    have hif (s : Bytes) : intPart (if s.head? = some 0x2d then s.tail else s) =
        if s.head? = some 0x2d then intPart s.tail else intPart s := by
      split <;> rfl
    simp only [hif]
    exact .ite (fun _ _ _ => Iff.rfl) pointed_intPart.tail pointed_intPart
  exact (hminus.bind pointed_fracPart).bind pointed_expPart

/-- A number is wrong at the byte that does not go on with it. -/
theorem pointed_number : Pointed number where
  toScanner := scanner_number
  next s c h := by
    have hend : ¬ Settled (numberEnd s) := by
      intro hsettled
      rw [number_eq] at h
      cases hs : numberEnd s with
      | ok rest =>
        rw [hs] at h hsettled
        exact h hsettled
      | error err =>
        rw [hs] at h hsettled
        exact h (settled_error hsettled)
    have hnext := pointed_numberEnd.next s c hend
    show Reaches c (number (s ++ [c]))
    rw [number_eq]
    change Reaches c (numberEnd (s ++ [c])) at hnext
    cases hs : numberEnd (s ++ [c]) with
    | ok rest =>
      rw [hs] at hnext
      exact hnext
    | error err =>
      rw [hs] at hnext
      exact reaches_error hnext

/-! ## Strings -/

/-- A `\u` escape that is cut is wrong at a byte that is no hex digit. -/
theorem hexLoop_next {k : Nat} (c : UInt8) : ∀ {v : Nat} {s : Bytes}, IsCut (hexLoop k v s) →
    (∀ n, hexLoop k v (s ++ [c]) = .ok n → (s ++ [c]).length = k) ∧
      ∀ e, hexLoop k v (s ++ [c]) = .error (.syntaxError e) → e.eof = false → e.Names c := by
  induction k with
  | zero => exact fun h => absurd h (not_cut_ok _)
  | succ k ih =>
    intro v s h
    cases s with
    | nil =>
      unfold hexLoop
      rw [List.nil_append]
      dsimp only
      cases hexValue c with
      | none => exact ⟨fun n hn => absurd hn fail_ne_ok, fun e he _ => by cases he; exact ⟨_, rfl⟩⟩
      | some d =>
        cases k with
        | zero =>
          refine ⟨fun _ _ => rfl, fun e he _ => ?_⟩
          cases he
        | succ k =>
          refine ⟨fun n hn => absurd hn fail_ne_ok, fun e he heof => ?_⟩
          cases he
          cases heof
    | cons b s =>
      unfold hexLoop at h ⊢
      rw [List.cons_append]
      dsimp only at h ⊢
      cases hb : hexValue b with
      | none =>
        rw [hb] at h
        exact absurd h (not_cut_fail _ b s)
      | some d =>
        rw [hb] at h
        exact ⟨fun n hn => congrArg (· + 1) ((ih h).1 n hn), (ih h).2⟩

theorem hex4_next {s : Bytes} (h : IsCut (hex4 s)) (c : UInt8) :
    (∀ n, hex4 (s ++ [c]) = .ok n → HexText (s ++ [c]) n) ∧
      ∀ e, hex4 (s ++ [c]) = .error (.syntaxError e) → e.eof = false → e.Names c := by
  refine ⟨fun n hn => ?_, (hexLoop_next c h).2⟩
  have hlen := (hexLoop_next c h).1 n hn
  obtain ⟨hex, t, hsplit, hx⟩ := hex4_ok hn
  rw [hsplit, List.length_append, hx.length] at hlen
  have ht : t = [] := List.eq_nil_of_length_eq_zero (by omega)
  rwa [hsplit, ht, List.append_nil]

/-- The escape of a low surrogate that one more byte completes ends there, and the
byte that spoils one is named. -/
theorem lowEscape_next {n : Nat} {s : Bytes} (h : IsCut (lowEscape n s)) (c : UInt8) :
    (∀ low, lowEscape n (s ++ [c]) = .ok low → ∃ hex n', s ++ [c] = 0x5c :: 0x75 :: hex ∧
        HexText hex n') ∧
      ∀ e, lowEscape n (s ++ [c]) = .error (.syntaxError e) → e.eof = false → e.Names c := by
  obtain ⟨hhigh, s', rfl, hcut⟩ := lowEscape_cut h
  obtain ⟨hok, herror⟩ := hex4_next hcut c
  have hread : lowEscape n (0x5c :: 0x75 :: s' ++ [c]) =
      (hex4 (s' ++ [c])).map fun lo => if 0xdc00 ≤ lo ∧ lo < 0xe000 then some lo else none := by
    rw [lowEscape, if_pos ⟨hhigh, rfl, rfl⟩]
    change hex4 (s' ++ [c]) >>= _ = _
    cases hex4 (s' ++ [c]) <;> rfl
  rw [hread]
  constructor
  · intro low hlow
    obtain ⟨n', hn', -⟩ := map_eq_ok.mp hlow
    exact ⟨s' ++ [c], n', rfl, hok n' hn'⟩
  · intro e he
    exact herror e (map_eq_error.mp he)

/-- An escape that one more byte completes is the last thing there is, or the one ahead of it is. -/
theorem unicodeEscape_next {s : Bytes} (h : IsCut (unicodeEscape (0x5c :: 0x75 :: s))) (c : UInt8) :
    (∀ text after, unicodeEscape (0x5c :: 0x75 :: (s ++ [c])) = .ok (text, after) →
      after = [] ∨ ∃ hex n, after = 0x5c :: 0x75 :: hex ∧ HexText hex n) ∧
      ∀ e, unicodeEscape (0x5c :: 0x75 :: (s ++ [c])) = .error (.syntaxError e) → e.eof = false →
        e.Names c := by
  have hpoint {cp : Nat} {rest : Bytes} {e : JsonSyntaxError}
      (h : (fromCodePoint cp).map (·, rest) = .error (.syntaxError e)) : False := by
    unfold fromCodePoint at h
    split_ifs at h <;> cases h
  have hleft {cp : Nat} {rest after : Bytes} {text : JsString}
      (h : (fromCodePoint cp).map (·, rest) = .ok (text, after)) :
      after = rest := by
    obtain ⟨_, -, heq⟩ := map_eq_ok.mp h
    cases heq
    rfl
  rcases h.cases_bind with hhex | ⟨n, hn, -⟩
  · change IsCut (hex4 s) at hhex
    obtain ⟨hok, herror⟩ := hex4_next hhex c
    cases hmore : hex4 (s ++ [c]) with
    | error t =>
      have hfail : unicodeEscape (0x5c :: 0x75 :: (s ++ [c])) = .error t := by
        unfold unicodeEscape
        show hex4 (s ++ [c]) >>= _ = _
        rw [hmore]
        rfl
      rw [hfail]
      refine ⟨fun text after h => ?_, fun e he heof => herror e ?_ heof⟩
      · cases h
      · cases he
        exact hmore
    | ok n =>
      have heq := unicodeEscape_hex (s := []) (hok n hmore)
      rw [List.append_nil] at heq
      rw [heq, lowEscape_none (by simp), ok_bind]
      refine ⟨fun text after h => .inl ?_, fun e h => ?_⟩
      · split_ifs at h <;> exact hleft h
      · split_ifs at h <;> exact (hpoint h).elim
  · obtain ⟨hex, s, rfl, hx⟩ := hex4_ok hn
    rw [unicodeEscape_hex hx] at h
    rw [List.append_assoc, unicodeEscape_hex hx]
    split_ifs at h ⊢ with hsurrogate
    · rcases h.cases_bind with hlow | ⟨low, -, h⟩
      · obtain ⟨hok, herror⟩ := lowEscape_next hlow c
        cases hmore : lowEscape n (s ++ [c]) with
        | error t =>
          rw [error_bind]
          refine ⟨fun text after h => ?_, fun e he heof => herror e ?_ heof⟩
          · cases h
          · cases he
            exact hmore
        | ok low =>
          obtain ⟨hex', n', hsplit, hx'⟩ := hok low hmore
          rw [ok_bind]
          cases low with
          | none => exact ⟨fun text after h => .inr ⟨hex', n', (hleft h).trans hsplit, hx'⟩,
            fun e h => (hpoint h).elim⟩
          | some lo =>
            refine ⟨fun text after h => .inl ((hleft h).trans ?_), fun e h => (hpoint h).elim⟩
            have hlen : (0x5c :: 0x75 :: hex').length = 6 := congrArg (· + 2) hx'.length
            rw [hsplit, ← hlen, List.drop_length]
      · cases low with
        | none => exact absurd h (not_cut_fromCodePoint _ _)
        | some lo => exact absurd h (not_cut_fromCodePoint _ _)
    · exact absurd h (not_cut_fromCodePoint _ _)

theorem not_settled_end {st : StrState} (h : st.rest = []) : ¬ Settled (strSlow.result st) := by
  have hturn : strTurn st () = .done (fail "in string literal" []) := by rw [strTurn, h]
  rw [strSlow_done hturn]
  exact not_settled_fail _

/-- The last byte of a string that is cut off. -/
theorem strSlow_one {st : StrState} {c : UInt8} (h : st.rest = [c]) :
    Reaches c (strSlow.result st) := by
  cases hturn : strTurn st () with
  | again st' =>
    have hlt := strTurn_rank hturn
    rw [h] at hlt
    have hrest : st'.rest = [] := List.eq_nil_of_length_eq_zero (Nat.lt_one_iff.mp hlt)
    rw [Loop.result_again (L := strSlow) hturn]
    exact reaches_of_not_settled (not_settled_end hrest) c
  | done r =>
    rw [strSlow_done hturn]
    unfold strTurn at hturn
    rw [h] at hturn
    dsimp only at hturn
    split_ifs at hturn
    · cases hturn
      exact .inl rfl
    · cases hturn
      exact reaches_fail _ c
    · cases hturn
      exact reaches_of_not_settled (not_settled_fail _) c

/-- An escape that stands alone says nothing about what follows it. -/
theorem not_settled_escape {st : StrState} {hex : Bytes} {n : Nat} (hx : HexText hex n)
    (h : st.rest = 0x5c :: 0x75 :: hex) : ¬ Settled (strSlow.result st) := by
  have hesc := unicodeEscape_hex (s := []) hx
  rw [List.append_nil, lowEscape_none (by simp), ok_bind] at hesc
  have hok : ∃ text, unicodeEscape (0x5c :: 0x75 :: hex) = .ok (text, []) := by
    rw [hesc]
    split_ifs
    · exact ⟨_, by rw [fromCodePoint_ok (by decide)]; rfl⟩
    · exact ⟨_, by rw [fromCodePoint_ok (Nat.lt_trans hx.lt (by decide))]; rfl⟩
  obtain ⟨text, hok⟩ := hok
  have hstep : StrStep st st.rest ⟨st.flush ++ text, [], []⟩ := by
    rw [h]
    exact .unicode hok
  rw [strSlow_step hstep]
  exact not_settled_end rfl

theorem looksPast_byte {s : Bytes} {c : UInt8} (h : ¬ (s = [0x5c] ∧ c = 0x75)) :
    LooksPast s [c] := by
  cases s with
  | nil => exact iff_of_false (fun hc => by simp at hc) (by simp)
  | cons a s =>
    cases s with
    | cons b s => exact Iff.rfl
    | nil =>
      refine iff_of_false (fun hc => h ?_) (by simp)
      simpa using hc

/-- A `u` behind a backslash begins an escape, and where a low surrogate may stand
that is needed whole. -/
theorem unicodeEscape_u {s : Bytes} {text : JsString}
    (h : unicodeEscape (0x5c :: 0x75 :: s) = .ok (text, [0x5c])) :
    unicodeEscape (0x5c :: 0x75 :: s ++ [0x75]) = .ok (text, [0x5c, 0x75]) ∨
      IsCut (unicodeEscape (0x5c :: 0x75 :: s ++ [0x75])) := by
  obtain ⟨n, hn, -⟩ := bind_eq_ok.mp h
  obtain ⟨hex, s, rfl, hx⟩ := hex4_ok hn
  have hassoc : 0x5c :: 0x75 :: (hex ++ s) ++ [0x75] = 0x5c :: 0x75 :: (hex ++ (s ++ [0x75])) := by
    simp
  rw [unicodeEscape_hex hx] at h
  rw [hassoc, unicodeEscape_hex hx]
  split_ifs at h ⊢
  · obtain ⟨low, hlow, h⟩ := bind_eq_ok.mp h
    cases low with
    | none =>
      obtain ⟨text', htext, heq⟩ := map_eq_ok.mp h
      cases heq
      by_cases hhigh : n < 0xdc00
      · have hcut : lowEscape n ([0x5c] ++ [0x75]) =
            fail "in \\u hexadecimal character escape" [] := by
          rw [lowEscape, if_pos ⟨hhigh, rfl, rfl⟩]
          rfl
        rw [hcut]
        exact .inr ⟨_, rfl, rfl⟩
      · have hnone : lowEscape n ([0x5c] ++ [0x75]) = .ok none := by
          rw [lowEscape, if_neg fun hc => hhigh hc.1]
        rw [hnone, ok_bind]
        dsimp only
        rw [htext]
        exact .inl rfl
    | some lo =>
      obtain ⟨text', htext, heq⟩ := map_eq_ok.mp h
      rw [lowEscape_ahead hlow (looksPast_of_low hlow _), ok_bind]
      dsimp only
      rw [htext]
      rcases lowEscape_ok hlow with ⟨hex', lo', t, -, -, rfl, hx', -⟩ | ⟨hnone, -⟩
      · have hlen : (0x5c :: 0x75 :: hex').length = 6 := congrArg (· + 2) hx'.length
        rw [← hlen, List.drop_left] at heq
        rw [List.append_assoc, ← hlen, List.drop_left]
        cases heq
        exact .inl rfl
      · cases hnone
  · obtain ⟨text', htext, heq⟩ := map_eq_ok.mp h
    cases heq
    rw [htext]
    exact .inl rfl

/-- With one more byte the turns are the same until the string is over, unless that byte is read
with what has been taken for strays, or makes an escape. -/
theorem strTurn_next {st st' : StrState} (h : strTurn st () = .again st') (c : UInt8) :
    strTurn (Leaves.ahead st [c]) () = .again (Leaves.ahead st' [c]) ∨
      ¬ Settled (strSlow.result (Leaves.ahead st [c])) := by
  have hstep := strStep_of_turn h
  have hahead (hs : StrStep (Leaves.ahead st [c]) (st.rest ++ [c]) (Leaves.ahead st' [c])) :
      strTurn (Leaves.ahead st [c]) () = .again (Leaves.ahead st' [c]) := turn_of_strStep hs
  generalize hrest : st.rest = bytes at hstep hahead
  cases hstep with
  | char c' hc hq hb s =>
    left
    apply hahead
    have hchar := @StrStep.char (Leaves.ahead st [c]) c' hc hq hb (s ++ [c])
    rw [← List.append_assoc] at hchar
    exact hchar
  | short s he => exact .inl (hahead (.short (s ++ [c]) he))
  | @stray b s hb hs =>
    by_cases hwell : StartsWellFormed (b :: s ++ [c])
    · rcases startsWellFormed_cut (List.cons_ne_nil b s) hwell with hwell | ⟨hhigh, b', hb', hlow⟩
      · exact absurd hwell hs
      · right
        apply not_settled_high
        intro x hx
        change x ∈ st.rest ++ [c] at hx
        rw [hrest] at hx
        cases hb'
        rcases List.mem_append.mp hx with hx | hx
        · exact hhigh x hx
        · rwa [List.mem_singleton.mp hx]
    · exact .inl (hahead (.stray hb hwell))
  | @unicode s text after hesc =>
    by_cases hlast : after = [0x5c] ∧ c = 0x75
    · obtain ⟨rfl, rfl⟩ := hlast
      rcases unicodeEscape_u hesc with hmore | hcut
      · exact .inl (hahead (.unicode hmore))
      · right
        obtain ⟨e, he, heof⟩ := hcut
        have hturn : strTurn (Leaves.ahead st [0x75]) () = .done (.error (.syntaxError e)) := by
          show strTurn ⟨st.parts, st.run, st.rest ++ [0x75]⟩ () = _
          rw [strTurn, hrest]
          dsimp only [List.cons_append]
          rw [if_neg (by decide), if_neg (by decide), if_pos rfl, if_pos rfl]
          rw [List.cons_append, List.cons_append] at he
          rw [he]
        rw [strSlow_done hturn]
        exact fun hsettled => Bool.noConfusion (heof.symm.trans hsettled)
    · exact .inl (hahead (.unicode (unicodeEscape_ahead hesc (looksPast_byte hlast))))

/-- The letter of an escape, at the end of the input. -/
theorem strSlow_letter {st : StrState} {c : UInt8} (h : st.rest = [0x5c, c]) :
    Reaches c (strSlow.result st) := by
  cases hturn : strTurn st () with
  | again st' =>
    rw [Loop.result_again (L := strSlow) hturn]
    have hstep := strStep_of_turn hturn
    rw [h] at hstep
    generalize hbytes : [0x5c, c] = bytes at hstep
    cases hstep with
    | char c' hc hq hb s =>
      obtain ⟨b, bs, henc, ⟨-, -, hn⟩ | ⟨-, hhigh⟩⟩ := encodeChar_head c'
      · rw [henc] at hbytes
        have hslash := (List.cons.inj hbytes).1
        rw [← hslash] at hn
        exact absurd hn.symm hb
      · rw [henc] at hbytes
        have hslash := (List.cons.inj hbytes).1
        rw [← hslash] at hhigh
        exact absurd rfl (high_ne hhigh).2.1
    | stray hb hs =>
      cases hbytes
      exact absurd rfl (high_ne hb).2.1
    | short s he =>
      cases hbytes
      exact reaches_of_not_settled (not_settled_end rfl) c
    | unicode hesc =>
      cases hbytes
      cases hesc
  | done r =>
    rw [strSlow_done hturn]
    unfold strTurn at hturn
    rw [h] at hturn
    dsimp only at hturn
    rw [if_neg (by decide), if_neg (by decide), if_pos rfl] at hturn
    split_ifs at hturn with hu
    · subst hu
      cases hturn
      exact reaches_of_not_settled (not_settled_fail "in \\u hexadecimal character escape") _
    · cases hescape : escapes c with
      | some u =>
        rw [hescape] at hturn
        cases hturn
      | none =>
        rw [hescape] at hturn
        cases hturn
        exact reaches_fail _ c

/-- An escape of four digits, with the byte that completes it or is wrong in it. -/
theorem strSlow_digits {st : StrState} {s : Bytes} {c : UInt8}
    (hcut : IsCut (unicodeEscape (0x5c :: 0x75 :: s))) (h : st.rest = 0x5c :: 0x75 :: (s ++ [c])) :
    Reaches c (strSlow.result st) := by
  obtain ⟨hok, herror⟩ := unicodeEscape_next hcut c
  cases hmore : unicodeEscape (0x5c :: 0x75 :: (s ++ [c])) with
  | ok p =>
    obtain ⟨text, after⟩ := p
    have hstep : StrStep st st.rest ⟨st.flush ++ text, [], after⟩ := by
      rw [h]
      exact .unicode hmore
    rw [strSlow_step hstep]
    rcases hok text after hmore with rfl | ⟨hex, n, rfl, hx⟩
    · exact reaches_of_not_settled (not_settled_end rfl) c
    · exact reaches_of_not_settled (not_settled_escape hx rfl) c
  | error t =>
    have hturn : strTurn st () = .done (.error t) := by
      rw [strTurn, h]
      dsimp only
      rw [if_neg (by decide), if_neg (by decide), if_pos rfl, if_pos rfl, hmore]
    rw [strSlow_done hturn]
    cases t with
    | syntaxError e => exact herror e hmore
    | rangeError => trivial

/-- A string that is cut reaches the next byte, whatever that is. -/
theorem strSlow_next {st : StrState} (c : UInt8) (h : ¬ Settled (strSlow.result st)) :
    Reaches c (strSlow.result (Leaves.ahead st [c])) := by
  refine Loop.result_induction (L := strSlow)
    (P := fun st r => ¬ Settled r → Reaches c (strSlow.result (Leaves.ahead st [c]))) ?_ ?_ st h
  · intro st r hturn h
    change strTurn st () = .done r at hturn
    unfold strTurn at hturn
    split at hturn
    · rename_i hrest
      exact strSlow_one (congrArg (· ++ [c]) hrest)
    · rename_i b rest hrest
      have hmore : (Leaves.ahead st [c]).rest = b :: (rest ++ [c]) := congrArg (· ++ [c]) hrest
      split_ifs at hturn with hquote hcontrol hslash
      · cases hturn
        have hnil : rest = [] := not_not.mp h
        rw [hnil, hquote] at hmore
        rw [strSlow_done (strTurn_done_ok.mpr ⟨hmore, rfl⟩)]
        exact .inr rfl
      · cases hturn
        exact absurd rfl h
      · subst hslash
        cases rest with
        | nil => exact strSlow_letter hmore
        | cons e rest =>
          dsimp only at hturn
          split_ifs at hturn with hu
          · subst hu
            cases hesc : unicodeEscape (0x5c :: 0x75 :: rest) with
            | ok p =>
              rw [hesc] at hturn
              cases hturn
            | error err =>
              rw [hesc] at hturn
              cases hturn
              obtain ⟨e, rfl, -⟩ := reports_unicodeEscape _ err hesc
              exact strSlow_digits ⟨e, hesc, by simpa [Settled] using h⟩ hmore
          · cases hescape : escapes e with
            | some u =>
              rw [hescape] at hturn
              cases hturn
            | none =>
              rw [hescape] at hturn
              cases hturn
              exact absurd rfl h
  · intro st st' hturn ih h
    rcases strTurn_next hturn c with hmore | hnot
    · rw [Loop.result_again (L := strSlow) hmore]
      exact ih h
    · exact reaches_of_not_settled hnot c

/-- A string is pointed, on either path. -/
theorem pointed_str : Pointed str where
  toScanner := scanner_str
  next s c h := by
    have hcut (s : Bytes) (hend : (s.drop 1).dropWhile isFast = []) : Reaches c (str s) := by
      rw [str_fast hend]
      exact reaches_of_not_settled (not_settled_fail _) c
    have hslow {run rest : Bytes} {parts : JsString}
        (h : Reaches c (strSlow.result ⟨parts, run, rest⟩)) :
        Reaches c (strSlow.result ⟨parts, run, rest⟩ >>= fun p =>
          (.ok (p.1, false, p.2) : Except Thrown (JsString × Bool × Bytes))) := by
      cases hresult : strSlow.result ⟨parts, run, rest⟩ with
      | ok p =>
        rw [hresult] at h
        exact h
      | error err =>
        rw [hresult] at h
        exact reaches_error h
    cases s with
    | nil => exact hcut [c] rfl
    | cons q start =>
      show Reaches c (str (q :: (start ++ [c])))
      by_cases hend : start.dropWhile isFast = []
      · rcases dropWhile_next hend c with hmore | hmore
        · exact hcut (q :: (start ++ [c])) hmore
        · unfold str
          simp only [List.drop_succ_cons, List.drop_zero, hmore]
          split_ifs
          · exact .inl rfl
          · exact reaches_fail _ c
          · exact hslow (strSlow_one rfl)
      · obtain ⟨b, rest, hb⟩ := List.exists_cons_of_ne_nil hend
        have hdrop := dropWhile_append hend [c]
        have htake := takeWhile_append hend [c]
        rw [hb, List.cons_append] at hdrop
        unfold str at h ⊢
        simp only [List.drop_succ_cons, List.drop_zero, hdrop, htake, hb] at h ⊢
        split_ifs at h ⊢
        · have hrest : rest = [] := not_not.mp h
          rw [hrest]
          exact .inr rfl
        · exact absurd rfl h
        · refine hslow (@strSlow_next ⟨[], start.takeWhile isFast, b :: rest⟩ c fun hsettled => ?_)
          cases hresult : strSlow.result ⟨[], start.takeWhile isFast, b :: rest⟩ with
          | ok p =>
            rw [hresult] at h hsettled
            exact h hsettled
          | error err =>
            rw [hresult] at h hsettled
            exact h (settled_error hsettled)

/-! ## Values -/

/-- A result that leaves all there is. -/
theorem pointed_leave {β : Type} [Leaves β] {g : Bytes → β}
    (hg : ∀ s t, g (s ++ t) = Leaves.ahead (g s) t) (hleft : ∀ s, Leaves.left (g s) = s) :
    Pointed fun s : Bytes => (.ok (g s) : Except Thrown β) := by
  refine pointed_ok (scanner_ok (fun s t _ => hg s t) (hleft [])) fun s c h => .inr ?_
  rw [hleft] at h ⊢
  rw [h]
  rfl

theorem pointed_key : Pointed key := by
  have hcolon (k : JsString) : Pointed fun s : Bytes =>
      (if s.head? ≠ some 0x3a then fail "after object key" s
        else .ok (k, s.tail) : Except Thrown (JsString × Bytes)) :=
    .ite (fun _ _ _ => Iff.rfl) (pointed_fail _) (pointed_leave (g := fun s => (k, s)) (fun _ _ =>
      rfl) fun _ => rfl).tail
  have hname : Pointed fun s : Bytes =>
    (if s.head? ≠ some 0x22 then fail "looking for beginning of object key string" s
      else str s >>= fun p =>
        if (skipWs p.2.2).head? ≠ some 0x3a then fail "after object key" (skipWs p.2.2)
        else .ok (p.1, (skipWs p.2.2).tail) : Except Thrown (JsString × Bytes)) :=
    .ite (fun _ _ _ => Iff.rfl) (pointed_fail _)
      (pointed_str.bind (.uncurry fun k => .uncurry fun _ => (hcolon k).skipWs))
  exact hname.skipWs

theorem pointed_openFrame (obj : Bool) : Pointed (openFrame obj) := by
  have hvalue : Pointed fun s : Bytes =>
    (.ok (.value (container obj [] []) s) : Except Thrown Begun) :=
    pointed_leave (fun _ _ => rfl) fun _ => rfl
  have hopened (frame : Frame) :
      Pointed fun s : Bytes => (.ok (.opened frame s) : Except Thrown Begun) :=
    pointed_leave (fun _ _ => rfl) fun _ => rfl
  have hmember : Pointed fun s : Bytes =>
    (if obj then key s >>= fun p => .ok (.opened ⟨true, [], [], p.1⟩ p.2)
      else .ok (.opened ⟨false, [], [], []⟩ s) : Except Thrown Begun) :=
    .ite (fun _ _ _ => Iff.rfl) (pointed_key.bind (.uncurry fun k => hopened ⟨true, [], [], k⟩))
      (hopened _)
  have hbracket : Pointed fun s : Bytes =>
    (if s.head? = some (closer obj) then .ok (.value (container obj [] []) s.tail)
      else if obj then key s >>= fun p => .ok (.opened ⟨true, [], [], p.1⟩ p.2)
        else .ok (.opened ⟨false, [], [], []⟩ s) :
        Except Thrown Begun) := .ite (fun _ _ _ => Iff.rfl) hvalue.tail hmember
  exact hbracket.skipWs

theorem pointed_scalar : Pointed scalar where
  toScanner := scanner_scalar
  next s c h := by
    have hstr : Pointed fun s : Bytes => str s >>= fun p =>
      (.ok (.str p.1 p.2.1, p.2.2) : Except Thrown (JsonNode × Bytes)) :=
      pointed_str.bind (.uncurry fun v => .uncurry fun plain =>
        pointed_leave (g := fun s => (JsonNode.str v plain, s)) (fun _ _ => rfl) fun _ => rfl)
    have hliteral (word : Bytes) (what : String) (node : JsonNode) (hword : word ≠ []) :=
      pointed_literal what node hword
    cases s with
    | nil =>
      show Reaches c (scalar [c])
      unfold scalar
      dsimp only
      split_ifs
      · exact hstr.one (.inr rfl)
      · exact (hliteral _ _ _ (List.cons_ne_nil _ _)).one (.inr rfl)
      · exact (hliteral _ _ _ (List.cons_ne_nil _ _)).one (.inr rfl)
      · exact (hliteral _ _ _ (List.cons_ne_nil _ _)).one (.inr rfl)
      · exact pointed_number.one (.inr rfl)
      · exact reaches_fail _ c
    | cons b s =>
      show Reaches c (scalar (b :: (s ++ [c])))
      unfold scalar at h ⊢
      dsimp only at h ⊢
      split_ifs at h ⊢
      · exact hstr.next (b :: s) c h
      · exact (hliteral _ _ _ (List.cons_ne_nil _ _)).next (b :: s) c h
      · exact (hliteral _ _ _ (List.cons_ne_nil _ _)).next (b :: s) c h
      · exact (hliteral _ _ _ (List.cons_ne_nil _ _)).next (b :: s) c h
      · exact pointed_number.next (b :: s) c h
      · exact absurd rfl h

/-- The start of a value is pointed at every depth. -/
theorem pointed_begin (depth : Nat) : Pointed (begin depth) where
  toScanner := scanner_begin depth
  next s c h := by
    have hscalar : Pointed fun s : Bytes => scalar s >>= fun p =>
      (.ok (.value p.1 p.2) : Except Thrown Begun) :=
      pointed_scalar.bind (.uncurry fun v => pointed_leave (fun _ _ => rfl) fun _ => rfl)
    show Reaches c (begin depth (s ++ [c]))
    by_cases hs : skipWs s = []
    · unfold begin
      rcases dropWhile_next hs c with hmore | hmore
      · rw [show skipWs (s ++ [c]) = [] from hmore]
        exact reaches_of_not_settled (not_settled_fail _) c
      · rw [show skipWs (s ++ [c]) = [c] from hmore]
        dsimp only
        split_ifs
        · exact reaches_fail _ c
        · exact (pointed_openFrame _).one (.inl rfl)
        · exact hscalar.one (.inr rfl)
    · obtain ⟨b, rest, hb⟩ := List.exists_cons_of_ne_nil hs
      have hmore := skipWs_ahead hs [c]
      rw [hb, List.cons_append] at hmore
      unfold begin at h ⊢
      rw [hb] at h
      rw [hmore]
      dsimp only at h ⊢
      split_ifs at h ⊢
      · exact absurd rfl h
      · exact (pointed_openFrame _).next rest c h
      · exact hscalar.next (b :: rest) c h

/-! ## The loop -/

section
variable {ignoreRest : Bool}

/-- The byte is named where one is. -/
def NamesWrong (c : UInt8) (r : Except Thrown JsonNode) : Prop :=
  ∀ e, r = .error (.syntaxError e) → e.eof = false → e.Names c

/-- A failure at a byte names that byte. -/
theorem namesWrong_fail (what : String) (c : UInt8) : NamesWrong c (fail what [c]) := by
  intro e he _
  cases he
  exact ⟨what, rfl⟩

theorem namesWrong_end (what : String) (c : UInt8) : NamesWrong c (fail what []) :=
  fun e he heof => absurd ⟨e, he, heof⟩ (not_wrong_fail what)

theorem namesWrong_reaches {β : Type} [Leaves β] {c : UInt8} {err : Thrown}
    (h : Reaches c (.error err : Except Thrown β)) : NamesWrong c (.error err) := by
  intro e he heof
  cases he
  exact h heof

/-- A turn after which nothing but the byte can be wrong. -/
def TurnReaches (c : UInt8) : Turn ParseState (Except Thrown JsonNode) → Prop
  | .done r => NamesWrong c r
  | .again st => st.rest = [] ∨ st.rest = [c]

variable {stack : List Frame} {v : JsonNode} {s : Bytes} {c : UInt8} {st st' : ParseState}
    {r : Except Thrown JsonNode}

/-- One byte behind a value is put to use or named. -/
theorem place_one (h : skipWs s = [] ∨ skipWs s = [c]) :
    TurnReaches c (place ignoreRest stack v s) := by
  have hok (v : JsonNode) : NamesWrong c (.ok v) := fun e he _ => nomatch he
  unfold place
  cases stack with
  | nil =>
    dsimp only
    split_ifs with hignore hs
    · exact hok v
    · rw [h.resolve_left hs]
      exact namesWrong_fail _ c
    · exact hok v
  | cons top below =>
    dsimp only
    rcases h with h | h
    · rw [h]
      exact namesWrong_end _ c
    · rw [h]
      dsimp only
      split_ifs
      · have hkey := pointed_key.one (c := c) (b := []) (.inl rfl)
        cases hk : key [] with
        | ok p =>
          rw [hk] at hkey
          exact hkey
        | error err =>
          rw [hk] at hkey
          exact namesWrong_reaches hkey
      · exact .inl rfl
      · exact .inl rfl
      · exact namesWrong_fail _ c
      · exact namesWrong_fail _ c

theorem skipWs_one (h : s = [] ∨ s = [c]) : skipWs s = [] ∨ skipWs s = [c] := by
  rcases h with rfl | rfl
  · exact .inl rfl
  · exact dropWhile_next (s := []) rfl c

theorem not_settled_of_not_wrong {β : Type} [Leaves β] {err : Thrown} (h : ¬ IsWrong (.error err)) :
    ¬ Settled (.error err : Except Thrown β) := by
  intro hsettled
  cases err with
  | syntaxError e => exact h ⟨e, rfl, hsettled⟩
  | rangeError => exact hsettled

/-- A value that could be placed, or was cut off where it was to be. -/
theorem place_next (h : place ignoreRest stack v s = .done r) (hr : ¬ IsWrong r) (c : UInt8) :
    TurnReaches c (place ignoreRest stack v (s ++ [c])) := by
  by_cases hs : skipWs s = []
  · exact place_one (dropWhile_next hs c)
  · obtain ⟨b, rest, hb⟩ := List.exists_cons_of_ne_nil hs
    have hmore := skipWs_ahead hs [c]
    rw [hb, List.cons_append] at hmore
    unfold place at h ⊢
    cases stack with
    | nil =>
      dsimp only at h ⊢
      rw [hb] at h
      split_ifs at h with hignore hne
      · rw [if_pos hignore]
        exact fun e he _ => nomatch he
      · cases h
        exact absurd ⟨_, rfl, rfl⟩ hr
      · exact absurd (List.cons_ne_nil b rest) hne
    | cons top below =>
      dsimp only at h ⊢
      rw [hb] at h
      rw [hmore]
      dsimp only at h ⊢
      split_ifs at h ⊢
      · cases hkey : key rest with
        | ok p =>
          rw [hkey] at h
          cases h
        | error err =>
          rw [hkey] at h
          cases h
          have hnext := pointed_key.next rest c (by rw [hkey]; exact not_settled_of_not_wrong hr)
          change Reaches c (key (rest ++ [c])) at hnext
          cases hk : key (rest ++ [c]) with
          | ok p =>
            rw [hk] at hnext
            exact hnext
          | error err' =>
            rw [hk] at hnext
            exact namesWrong_reaches hnext
      · cases h
        exact absurd ⟨_, rfl, rfl⟩ hr
      · cases h
        exact absurd ⟨_, rfl, rfl⟩ hr

/-- What has begun when nothing but the byte is left. -/
theorem begun_one {depth : Nat} (h : Reaches c (begin depth s)) :
    TurnReaches c (match begin depth s with
      | .error err => .done (.error err)
      | .ok (.opened frame rest) => .again ⟨frame :: stack, rest, none⟩
      | .ok (.value v rest) => place ignoreRest stack v rest) := by
  cases hbegin : begin depth s with
  | error err =>
    rw [hbegin] at h
    exact namesWrong_reaches h
  | ok b =>
    rw [hbegin] at h
    cases b with
    | opened frame rest => exact h
    | value v rest => exact place_one (skipWs_one h)

/-- A turn that has one byte left reaches it. -/
theorem parseTurn_one (h : st.rest = [] ∨ st.rest = [c]) :
    TurnReaches c (parseTurn ignoreRest st ()) := by
  obtain ⟨stack, s, value⟩ := st
  cases value with
  | some v => exact place_one (skipWs_one h)
  | none => exact begun_one ((pointed_begin stack.length).one h)

/-- A run that has one byte left ends at the end of it or names it. -/
theorem result_one (h : st.rest = [] ∨ st.rest = [c]) :
    NamesWrong c ((parseLoop ignoreRest).result st) := by
  refine Loop.result_induction (L := parseLoop ignoreRest)
    (P := fun st r => (st.rest = [] ∨ st.rest = [c]) → NamesWrong c r) ?_ ?_ st h
  · intro st r hturn h
    have hreaches : TurnReaches c (parseTurn ignoreRest st ()) := parseTurn_one h
    rw [show parseTurn ignoreRest st () = _ from hturn] at hreaches
    exact hreaches
  · intro st st' hturn ih h
    have hreaches : TurnReaches c (parseTurn ignoreRest st ()) := parseTurn_one h
    rw [show parseTurn ignoreRest st () = _ from hturn] at hreaches
    exact ih hreaches

theorem result_of_turnReaches (h : TurnReaches c (parseTurn ignoreRest st ())) :
    NamesWrong c ((parseLoop ignoreRest).result st) := by
  cases hturn : parseTurn ignoreRest st () with
  | done r =>
    rw [hturn] at h
    rw [Loop.result_done (L := parseLoop ignoreRest) hturn]
    exact h
  | again st' =>
    rw [hturn] at h
    rw [Loop.result_again (L := parseLoop ignoreRest) hturn]
    exact result_one h

/-- A turn that ended for want of a byte reaches the byte that comes. -/
theorem parseTurn_next (h : parseTurn ignoreRest st () = .done r) (hr : ¬ IsWrong r) (c : UInt8) :
    TurnReaches c (parseTurn ignoreRest (Leaves.ahead st [c]) ()) := by
  obtain ⟨stack, s, value⟩ := st
  cases value with
  | some v => exact place_next h hr c
  | none =>
    have hnext := (pointed_begin stack.length).next s c
    unfold parseTurn at h
    dsimp only at h
    cases hbegin : begin stack.length s with
    | error err =>
      rw [hbegin] at h hnext
      cases h
      exact begun_one (hnext (not_settled_of_not_wrong hr))
    | ok b =>
      rw [hbegin] at h hnext
      cases b with
      | opened frame rest => cases h
      | value v rest =>
        by_cases hrest : rest = []
        · exact begun_one (hnext (not_not.mpr hrest))
        · show TurnReaches c (parseTurn ignoreRest ⟨stack, s ++ [c], none⟩ ())
          simp only [parseTurn, begin_ahead hbegin hrest [c]]
          exact place_next h hr c

/-- A turn that uses up the input goes on with the byte alone. -/
theorem parseTurn_last (h : parseTurn ignoreRest st () = .again st') (hrest : st'.rest = [])
    (c : UInt8) : TurnReaches c (parseTurn ignoreRest (Leaves.ahead st [c]) ()) := by
  have hplace {stack : List Frame} {v : JsonNode} {s : Bytes}
      (h : place ignoreRest stack v s = .again st') :
      TurnReaches c (place ignoreRest stack v (s ++ [c])) := by
    rw [place_more h [c]]
    exact .inr (congrArg (· ++ [c]) hrest)
  obtain ⟨stack, s, value⟩ := st
  cases value with
  | some v => exact hplace h
  | none =>
    have hnext := (pointed_begin stack.length).next s c
    unfold parseTurn at h
    dsimp only at h
    cases hbegin : begin stack.length s with
    | error err =>
      rw [hbegin] at h
      cases h
    | ok b =>
      rw [hbegin] at h hnext
      cases b with
      | opened frame rest =>
        cases h
        exact begun_one (hnext (not_not.mpr hrest))
      | value v rest =>
        have hne : rest ≠ [] := by
          intro hnil
          have hlt := place_length h
          rw [hnil] at hlt
          exact Nat.not_lt_zero _ hlt
        show TurnReaches c (parseTurn ignoreRest ⟨stack, s ++ [c], none⟩ ())
        simp only [parseTurn, begin_ahead hbegin hne [c]]
        exact hplace h

/-- Where one more byte makes input wrong, that byte is named. -/
theorem result_next (h : ¬ IsWrong ((parseLoop ignoreRest).result st)) (c : UInt8) :
    NamesWrong c ((parseLoop ignoreRest).result (Leaves.ahead st [c])) := by
  refine Loop.result_induction (L := parseLoop ignoreRest)
    (P := fun st r => ¬ IsWrong r →
      NamesWrong c ((parseLoop ignoreRest).result (Leaves.ahead st [c]))) ?_ ?_ st h
  · exact fun st r hturn hr => result_of_turnReaches (parseTurn_next hturn hr c)
  · intro st st' hturn ih hr
    by_cases hrest : st'.rest = []
    · exact result_of_turnReaches (parseTurn_last hturn hrest c)
    · rw [Loop.result_again (L := parseLoop ignoreRest) (parseTurn_again hturn hrest [c])]
      exact ih hr

/-- A text that is not wrong yet stays so with one byte more, or that byte is named. -/
theorem parse_next {bytes : Bytes} (h : ¬ IsWrong (parse bytes ignoreRest)) (c : UInt8) :
    NamesWrong c (parse (bytes ++ [c]) ignoreRest) := result_next h c

end

end AgentService
