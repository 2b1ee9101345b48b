import AgentService.Gateway.JsonAhead
import Mathlib.Data.List.Induction

/-!
# Input that was cut off can be completed

Where the reader reports the end of its input, there is more input with which it accepts. What is
missing of a token is put behind it, then `null` where a value is still needed, and then the bracket
of every container that is open. With the other half, that a wrong byte stays wrong, the `eof` flag
says which inputs could still have become valid.
-/

namespace AgentService
open Lib

/-- The result is a failure at the end of the input. -/
def IsCut {α : Type} (r : Except Thrown α) : Prop := ∃ e, r = .error (.syntaxError e) ∧ e.eof = true

section
variable {α β : Type}

@[simp] theorem not_cut_ok (a : α) : ¬ IsCut (.ok a : Except Thrown α) := by simp [IsCut]

@[simp] theorem not_cut_fail (what : String) (c : UInt8) (s : Bytes) :
    ¬ IsCut (fail what (c :: s) : Except Thrown α) := by
  simp [IsCut, fail]

theorem cut_of_fail {what : String} {s : Bytes} (h : IsCut (fail what s : Except Thrown α)) :
    s = [] := by
  cases s with
  | nil => rfl
  | cons c s => exact absurd h (not_cut_fail what c s)

theorem IsCut.cases_bind {x : Except Thrown α} {f : α → Except Thrown β} (h : IsCut (x >>= f)) :
    IsCut x ∨ ∃ a, x = .ok a ∧ IsCut (f a) := by
  obtain ⟨e, he, heof⟩ := h
  rcases bind_eq_error.mp he with he | ⟨a, ha, he⟩
  · exact .inl ⟨e, he, heof⟩
  · exact .inr ⟨a, ha, e, he, heof⟩

/-- It does not matter what would have been returned. -/
theorem cut_error {err : Thrown} (h : IsCut (.error err : Except Thrown α)) :
    IsCut (.error err : Except Thrown β) := by
  obtain ⟨e, he, heof⟩ := h
  cases he
  exact ⟨e, rfl, heof⟩

end

/-! ## Strings -/

/-- Bytes that go on with an escape and are no part of anything else: `n`, and the digit `0`. -/
def Filler (u : Bytes) : Prop := ∀ b ∈ u, b = 0x6e ∨ b = 0x30

theorem filler_nil : Filler [] := by simp [Filler]

theorem Filler.startsPlain {u : Bytes} (h : Filler u) : StartsPlain u := by
  intro b hb
  rcases h b (List.mem_of_mem_head? hb) with rfl | rfl
  · exact ⟨by decide, by decide, by decide⟩
  · exact ⟨by decide, by decide, by decide⟩

theorem hexLoop_cut {k : Nat} : ∀ {v : Nat} {s : Bytes}, IsCut (hexLoop k v s) →
    ∃ u n, Filler u ∧ (s ++ u).length = k ∧ hexLoop k v (s ++ u) = .ok n := by
  induction k with
  | zero => exact fun h => absurd h (not_cut_ok _)
  | succ k ih =>
    intro v s h
    cases s with
    | nil =>
      -- nothing but zeros is missing
      have hzeros : ∀ (k v : Nat), ∃ n, hexLoop k v (List.replicate k 0x30) = .ok n := by
        intro k
        induction k with
        | zero => exact fun v => ⟨v, rfl⟩
        | succ k ih => exact fun v => ih (v * 16 + 0)
      obtain ⟨n, hn⟩ := hzeros (k + 1) v
      exact ⟨List.replicate (k + 1) 0x30, n, fun b hb => .inr (List.eq_of_mem_replicate hb),
        by simp, hn⟩
    | cons c s =>
      unfold hexLoop at h
      cases hc : hexValue c with
      | none =>
        rw [hc] at h
        exact absurd h (not_cut_fail _ c s)
      | some d =>
        rw [hc] at h
        obtain ⟨u, n, hu, hlen, hn⟩ := ih h
        refine ⟨u, n, hu, congrArg (· + 1) hlen, ?_⟩
        rw [List.cons_append, hexLoop, hc]
        exact hn

theorem hex4_cut {s : Bytes} (h : IsCut (hex4 s)) : ∃ u n, Filler u ∧ HexText (s ++ u) n := by
  obtain ⟨u, n, hu, hlen, hn⟩ := hexLoop_cut h
  obtain ⟨hex, t, hsplit, hx⟩ := hex4_ok hn
  rw [hsplit, List.length_append, hx.length] at hlen
  have ht : t = [] := List.eq_nil_of_length_eq_zero (by omega)
  refine ⟨u, n, hu, ?_⟩
  rwa [hsplit, ht, List.append_nil]

theorem not_startsLow_nil : ¬ StartsLow [] := by
  rintro ⟨hex, n, t, heq, -⟩
  cases heq

/-- A string may end behind any escape. -/
theorem stringText_hex {hex : Bytes} {n : Nat} (hx : HexText hex n) :
    ∃ v, StringText (0x5c :: 0x75 :: hex) v := by
  have heq : 0x5c :: 0x75 :: hex = 0x5c :: 0x75 :: hex ++ [] := by simp
  rw [heq]
  by_cases hhigh : IsHigh n
  · exact ⟨_, .lone hx (.inl ⟨hhigh, not_startsLow_nil⟩) .nil⟩
  by_cases hlow : IsLow n
  · exact ⟨_, .lone hx (.inr hlow) .nil⟩
  · exact ⟨_, .unicode hx ⟨hhigh, hlow⟩ .nil⟩

/-- Two escapes in a row, whatever they are. -/
theorem stringText_hex_hex {hex hex' : Bytes} {n n' : Nat} (hx : HexText hex n) (hhigh : IsHigh n)
    (hx' : HexText hex' n') : ∃ v, StringText (0x5c :: 0x75 :: hex ++ 0x5c :: 0x75 :: hex') v := by
  by_cases hlow : IsLow n'
  · have hpair := StringText.pair hx hhigh hx' hlow .nil
    rw [List.append_nil] at hpair
    exact ⟨_, hpair⟩
  · obtain ⟨v, hv⟩ := stringText_hex hx'
    refine ⟨_, .lone hx (.inl ⟨hhigh, ?_⟩) hv⟩
    rintro ⟨hex'', n'', t, heq, hx'', hlow''⟩
    have heq' : hex' ++ [] = hex'' ++ t := by simpa using heq
    exact hlow (HexText.unique hx' hx'' heq' ▸ hlow'')

theorem lowEscape_cut {n : Nat} {s : Bytes} (h : IsCut (lowEscape n s)) :
    n < 0xdc00 ∧ ∃ s', s = 0x5c :: 0x75 :: s' ∧ IsCut (hex4 s') := by
  unfold lowEscape at h
  split_ifs at h with hc
  · obtain ⟨hn, h0, h1⟩ := hc
    have hdrop : s.drop 2 = s.tail.tail := by rw [← List.drop_one, ← List.drop_one, List.drop_drop]
    refine ⟨hn, s.tail.tail, ?_, ?_⟩
    · rw [← head?_eq_cons h1]
      exact head?_eq_cons h0
    · rw [hdrop] at h
      rcases h.cases_bind with h | ⟨lo, -, h⟩
      · exact h
      · exact absurd h (not_cut_ok _)
  · exact absurd h (not_cut_ok _)

theorem not_cut_fromCodePoint {β : Type} (n : Nat) (f : JsString → β) :
    ¬ IsCut ((fromCodePoint n).map f) := by
  unfold fromCodePoint
  split_ifs <;> simp [IsCut, Except.map]

theorem unicodeEscape_cut {s : Bytes} (h : IsCut (unicodeEscape (0x5c :: 0x75 :: s))) :
    ∃ u v, Filler u ∧ StringText (0x5c :: 0x75 :: s ++ u) v := by
  rcases h.cases_bind with hhex | ⟨n, hn, -⟩
  · obtain ⟨u, n, hu, hx⟩ := hex4_cut (s := s) hhex
    obtain ⟨v, hv⟩ := stringText_hex hx
    exact ⟨u, v, hu, hv⟩
  · obtain ⟨hex, s, rfl, hx⟩ := hex4_ok hn
    rw [unicodeEscape_hex hx] at h
    split_ifs at h with hsurrogate
    · rcases h.cases_bind with hlow | ⟨low, -, h⟩
      · obtain ⟨hhigh, s', rfl, hcut⟩ := lowEscape_cut hlow
        obtain ⟨u, n', hu, hx'⟩ := hex4_cut hcut
        obtain ⟨v, hv⟩ := stringText_hex_hex hx ⟨hsurrogate.1, hhigh⟩ hx'
        exact ⟨u, v, hu, by simpa using hv⟩
      · cases low with
        | none => exact absurd h (not_cut_fromCodePoint _ _)
        | some lo => exact absurd h (not_cut_fromCodePoint _ _)
    · exact absurd h (not_cut_fromCodePoint _ _)

/-- A turn of the slow path backwards: what it reads stands in front of the rest of the text. -/
theorem stringText_of_step {st st' : StrState} {s : Bytes} (h : StrStep st s st') {v : JsString}
    (hv : StringText st'.rest v) : ∃ v', StringText s v' := by
  cases h with
  | char c hc hq hb s => exact ⟨_, .char c hc hq hb hv⟩
  | stray hb hs => exact ⟨_, .stray hb hs hv⟩
  | short s he => exact ⟨_, .short he hv⟩
  | @unicode s text after hesc =>
    have hafter := unicodeEscape_ok hesc
    rw [← List.append_nil after] at hafter
    obtain ⟨s', rfl, hs'⟩ := stringText_escape hafter hv
    rw [List.append_nil]
    exact ⟨_, hs'⟩

theorem strTurn_cut {st : StrState} {r : Except Thrown (JsString × Bytes)}
    (h : strTurn st () = .done r) (hr : IsCut r) :
    ∃ u v, Filler u ∧ StringText (st.rest ++ u) v := by
  unfold strTurn at h
  split at h
  · rename_i hrest
    exact ⟨[], [], filler_nil, by rw [hrest]; exact .nil⟩
  · rename_i c rest hrest
    rw [hrest]
    split_ifs at h with hquote hcontrol hslash
    · cases h
      exact absurd hr (not_cut_ok _)
    · cases h
      exact absurd hr (not_cut_fail _ _ _)
    · subst hslash
      cases rest with
      | nil =>
        have hshort : StringText [0x5c, 0x6e] [0x0a] := .short (by decide) .nil
        exact ⟨[0x6e], _, by simp [Filler], hshort⟩
      | cons e rest =>
        dsimp only at h
        split_ifs at h with hu
        · subst hu
          cases hesc : unicodeEscape (0x5c :: 0x75 :: rest) with
          | ok p =>
            rw [hesc] at h
            cases h
          | error err =>
            rw [hesc] at h
            cases h
            apply unicodeEscape_cut
            rw [hesc]
            exact hr
        · cases hescape : escapes e with
          | some u =>
            rw [hescape] at h
            cases h
          | none =>
            rw [hescape] at h
            cases h
            exact absurd hr (not_cut_fail _ _ _)

/-- A string that is cut off is completed by at most an escape. -/
theorem strSlow_cut {st : StrState} (h : IsCut (strSlow.result st)) :
    ∃ u v, Filler u ∧ StringText (st.rest ++ u) v := by
  refine Loop.result_induction (L := strSlow)
    (P := fun st r => IsCut r → ∃ u v, Filler u ∧ StringText (st.rest ++ u) v) ?_ ?_ st h
  · exact fun st r hturn hr => strTurn_cut hturn hr
  · intro st st' hturn ih hr
    obtain ⟨u, v, hu, hv⟩ := ih hr
    have hstep := strStep_of_turn (strTurn_ahead hturn u (.inr hu.startsPlain))
    obtain ⟨v', hv'⟩ := stringText_of_step hstep hv
    exact ⟨u, v', hu, hv'⟩

theorem str_cut {s : Bytes} (h : IsCut (str (0x22 :: s))) : ∃ u v, StringText (s ++ u) v := by
  have hrun : ∀ b ∈ s.takeWhile isFast, isFast b = true := fun b hb => List.mem_takeWhile_imp hb
  have hsplit : s = s.takeWhile isFast ++ s.dropWhile isFast := List.takeWhile_append_dropWhile.symm
  cases hend : s.dropWhile isFast with
  | nil =>
    rw [hend] at hsplit
    rw [hsplit]
    exact ⟨[], _, by rw [List.append_nil]; exact stringText_fast hrun .nil⟩
  | cons c rest =>
    rw [hend] at hsplit
    simp only [str, List.drop_succ_cons, List.drop_zero, hend] at h
    split_ifs at h with hquote hcontrol
    · exact absurd h (not_cut_ok _)
    · exact absurd h (not_cut_fail _ _ _)
    · rcases h.cases_bind with h | ⟨p, -, h⟩
      · obtain ⟨u, v, -, hv⟩ := strSlow_cut h
        have htext := stringText_fast hrun hv
        rw [← List.append_assoc, ← hsplit] at htext
        exact ⟨u, _, htext⟩
      · exact absurd h (not_cut_ok _)

/-! ## Values -/

theorem literal_cut {word : Bytes} {what : String} {node : JsonNode} :
    ∀ {s : Bytes}, IsCut (literal word what node s) → ∃ u, word = s ++ u := by
  induction word with
  | nil => exact fun h => absurd h (not_cut_ok _)
  | cons w word ih =>
    intro s h
    cases s with
    | nil => exact ⟨w :: word, rfl⟩
    | cons c s =>
      change IsCut (if c = w then literal word what node s else fail what (c :: s)) at h
      split_ifs at h with hc
      · obtain ⟨u, rfl⟩ := ih h
        exact ⟨u, by rw [hc]; rfl⟩
      · exact absurd h (not_cut_fail _ _ _)

theorem digits_zero : Digits [0x30] := ⟨List.cons_ne_nil _ _, by simp⟩

/-- A digit is all that a number can miss. -/
theorem number_cut {s : Bytes} (h : IsCut (number s)) : NumberText (s ++ [0x30]) := by
  unfold number at h
  obtain ⟨minus, hs, hminus⟩ : ∃ minus, s = minus ++ (if s.head? = some 0x2d then s.tail else s) ∧
      (minus = [] ∨ minus = [0x2d]) := by
    split_ifs with hm
    · exact ⟨[0x2d], head?_eq_cons hm, .inr rfl⟩
    · exact ⟨[], rfl, .inl rfl⟩
  generalize (if s.head? = some 0x2d then s.tail else s) = start at h hs
  rcases h.cases_bind with h | ⟨s₁, hint, h⟩
  · unfold intPart at h
    split_ifs at h
    · exact absurd h (not_cut_ok _)
    · exact absurd h (not_cut_ok _)
    · have hnumber := NumberText.mk hminus .zero .none .none
      rw [cut_of_fail h] at hs
      rw [hs]
      simpa using hnumber
  obtain ⟨int, hi, hintText⟩ := intPart_ok hint
  rcases h.cases_bind with h | ⟨s₂, hfrac, h⟩
  · unfold fracPart at h
    split_ifs at h with hdot
    · exact absurd h (not_cut_ok _)
    · have hnumber := NumberText.mk hminus hintText (.digits digits_zero) .none
      rw [head?_eq_cons hdot, cut_of_fail h] at hi
      rw [hs, hi]
      simpa using hnumber
    · exact absurd h (not_cut_ok _)
  obtain ⟨frac, hf, hfracText⟩ := fracPart_ok hfrac
  rcases h.cases_bind with h | ⟨s₃, -, h⟩
  · unfold expPart at h
    split_ifs at h with he
    · exact absurd h (not_cut_ok _)
    · obtain ⟨e, he', he⟩ : ∃ e, s₂.head? = some e ∧ (e = 0x65 ∨ e = 0x45) := by
        rcases he with he | he
        · exact ⟨_, he, .inl rfl⟩
        · exact ⟨_, he, .inr rfl⟩
      obtain ⟨sign, hsplit, hsign⟩ := skipSign_split s₂.tail
      have hnumber := NumberText.mk hminus hintText hfracText (.digits he hsign digits_zero)
      rw [cut_of_fail h, List.append_nil] at hsplit
      rw [head?_eq_cons he', hsplit] at hf
      rw [hs, hi, hf]
      simpa using hnumber
    · exact absurd h (not_cut_ok _)
  · exact absurd h (not_cut_ok _)

theorem key_cut {s : Bytes} (h : IsCut (key s)) : ∃ u name, KeyText (s ++ u) name := by
  obtain ⟨w, hsplit, hw⟩ := ws_skipWs s
  unfold key at h
  dsimp only at h
  split_ifs at h with hquote
  · -- not even the quote is there
    have hkey := KeyText.mk hw .nil ws_nil
    rw [cut_of_fail h, List.append_nil] at hsplit
    rw [hsplit]
    exact ⟨[0x22, 0x22, 0x3a], [], by simpa using hkey⟩
  · rw [not_not] at hquote
    have hhead := head?_eq_cons hquote
    rcases h.cases_bind with h | ⟨⟨name, plain, after⟩, hstr, h⟩
    · rw [hhead] at h
      obtain ⟨u, v, hv⟩ := str_cut h
      have hkey := KeyText.mk hw hv ws_nil
      rw [hsplit, hhead]
      exact ⟨u ++ [0x22, 0x3a], v, by simpa using hkey⟩
    · dsimp only at h
      split_ifs at h
      · obtain ⟨body, hbody, htext, -⟩ := str_ok hquote hstr
        obtain ⟨w', hafter, hw'⟩ := ws_skipWs after
        have hkey := KeyText.mk hw htext hw'
        rw [cut_of_fail h, List.append_nil] at hafter
        rw [hsplit, hbody, hafter]
        exact ⟨[0x3a], name, by simpa using hkey⟩
      · exact absurd h (not_cut_ok _)

theorem scalar_cut {s : Bytes} (h : IsCut (scalar s)) (d : Nat) :
    ∃ u v, ValueText d (s ++ u) v := by
  unfold scalar at h
  split at h
  · exact ⟨[0x6e, 0x75, 0x6c, 0x6c], _, .null⟩
  · rename_i c s
    split_ifs at h with hquote
    · subst hquote
      rcases h.cases_bind with h | ⟨p, -, h⟩
      · obtain ⟨u, v, hv⟩ := str_cut h
        have hvalue := ValueText.string (d := d) hv
        exact ⟨u ++ [0x22], _, by simpa using hvalue⟩
      · exact absurd h (not_cut_ok _)
    · obtain ⟨u, hu⟩ := literal_cut h
      exact ⟨u, .bool true, by rw [← hu]; exact .true⟩
    · obtain ⟨u, hu⟩ := literal_cut h
      exact ⟨u, .bool false, by rw [← hu]; exact .false⟩
    · obtain ⟨u, hu⟩ := literal_cut h
      exact ⟨u, .null, by rw [← hu]; exact .null⟩
    · exact ⟨[0x30], _, .number (number_cut h)⟩
    · exact absurd h (not_cut_fail _ _ _)

/-- What is cut off where a value begins: a value that needs no more input after it, or an
object up to its first value. -/
theorem begin_cut {depth : Nat} {s : Bytes} (h : IsCut (begin depth s)) :
    ∃ u w t, s ++ u = w ++ t ∧ Ws w ∧ ((∃ v, ValueText (MAX_DEPTH - depth) t v) ∨
      depth < MAX_DEPTH ∧ ∃ k name, t = 0x7b :: k ∧ KeyText k name) := by
  obtain ⟨w, hsplit, hw⟩ := ws_skipWs s
  unfold begin at h
  split at h
  · rename_i hs
    exact ⟨[0x6e, 0x75, 0x6c, 0x6c], w, _, by rw [hsplit, hs, List.append_nil], hw, .inl ⟨_, .null⟩⟩
  · rename_i c s' hs
    rw [hs] at hsplit
    split_ifs at h with hbracket hdepth
    · exact absurd h (not_cut_fail _ _ _)
    · unfold openFrame at h
      split_ifs at h with hclose hobj
      · exact absurd h (not_cut_ok _)
      · rcases h.cases_bind with h | ⟨p, -, h⟩
        · rw [key_skipWs] at h
          obtain ⟨u, name, hk⟩ := key_cut h
          rw [beq_iff_eq] at hobj
          rw [hsplit, hobj]
          exact ⟨u, w, 0x7b :: (s' ++ u), by simp, hw,
            .inr ⟨Nat.lt_of_not_le hdepth, _, name, rfl, hk⟩⟩
        · exact absurd h (not_cut_ok _)
      · exact absurd h (not_cut_ok _)
    · rcases h.cases_bind with h | ⟨p, -, h⟩
      · obtain ⟨u, v, hv⟩ := scalar_cut h (MAX_DEPTH - depth)
        rw [hsplit]
        exact ⟨u, w, c :: s' ++ u, by simp, hw, .inl ⟨v, hv⟩⟩
      · exact absurd h (not_cut_ok _)

/-! ## The loop -/

variable {ignoreRest : Bool}

/-- The brackets that close what is open. -/
def closers (stack : List Frame) : Bytes := stack.map fun top => closer top.obj

theorem endsNumber_closers (stack : List Frame) : EndsNumber (closers stack) := by
  cases stack with
  | nil => exact endsNumber_of_ws ws_nil
  | cons top below =>
    have hbracket : closer top.obj = 0x5d ∨ closer top.obj = 0x7d := by
      cases top.obj
      · exact .inl rfl
      · exact .inr rfl
    exact endsNumber_ws ws_nil (.inr hbracket) (closers below)

theorem result_closers (stack : List Frame) : ∀ (w : Bytes) (v : JsonNode), Ws w →
    ∃ node, (parseLoop ignoreRest).result ⟨stack, w ++ closers stack, some v⟩ = .ok node := by
  induction stack with
  | nil =>
    intro w v hw
    refine ⟨v, Loop.result_done (L := parseLoop ignoreRest) ?_⟩
    change place ignoreRest [] v (w ++ []) = _
    rw [place, List.append_nil, skipWs_ws hw]
    simp
  | cons top below ih =>
    intro w v hw
    have hplaced : Placed top below v (w ++ closers (top :: below)) _ := .close hw
    rw [result_of_placed hplaced]
    exact ih [] _ ws_nil

/-- Where a value is needed, `null` will do. -/
theorem result_null {stack : List Frame} (hdepth : stack.length ≤ MAX_DEPTH) :
    ∃ node, (parseLoop ignoreRest).result ⟨stack, [0x6e, 0x75, 0x6c, 0x6c] ++ closers stack, none⟩ =
      .ok node := by
  have hnull : ValueText 0 [0x6e, 0x75, 0x6c, 0x6c] .null := .null
  rw [← List.nil_append (_ ++ _), ← List.append_assoc,
    value_accepted hnull stack [] (closers stack) hdepth ws_nil (.inr (endsNumber_closers stack))]
  exact result_closers stack [] .null ws_nil

/-- A state that has come to the end of the input, completed. -/
theorem result_end {st : ParseState} (hrest : st.rest = []) (hdepth : st.stack.length ≤ MAX_DEPTH) :
    ∃ t node, (st.value = none → ∃ s, t = 0x6e :: s) ∧
      (parseLoop ignoreRest).result (Leaves.ahead st t) = .ok node := by
  obtain ⟨stack, rest, value⟩ := st
  cases hrest
  cases value with
  | none =>
    obtain ⟨node, hnode⟩ := @result_null ignoreRest stack hdepth
    exact ⟨_, node, fun _ => ⟨_, rfl⟩, hnode⟩
  | some v =>
    obtain ⟨node, hnode⟩ := @result_closers ignoreRest stack [] v ws_nil
    exact ⟨closers stack, node, nofun, hnode⟩

/-- What has been placed is placed the same way with more input. -/
theorem place_more {stack : List Frame} {v : JsonNode} {s : Bytes} {st : ParseState}
    (h : place ignoreRest stack v s = .again st) (t : Bytes) :
    place ignoreRest stack v (s ++ t) = .again (Leaves.ahead st t) := by
  obtain ⟨top, below, rfl, hplaced⟩ := placed_of_place h
  apply place_of_placed
  cases hplaced with
  | item hobj hw =>
    rw [List.append_assoc, List.cons_append]
    exact .item hobj hw
  | member hobj hw hk =>
    rw [List.append_assoc]
    exact .member hobj hw hk
  | close hw =>
    rw [List.append_assoc, List.cons_append]
    exact .close hw

/-- A turn at whose end nothing is left, with a value behind it where one is needed. -/
theorem parseTurn_end {st st' : ParseState} (h : parseTurn ignoreRest st () = .again st')
    (hrest : st'.rest = []) {t : Bytes} (ht : st'.value = none → ∃ s, t = 0x6e :: s) :
    parseTurn ignoreRest (Leaves.ahead st t) () = .again (Leaves.ahead st' t) := by
  obtain ⟨stack, s, value⟩ := st
  cases value with
  | some v => exact place_more h t
  | none =>
    unfold parseTurn at h ⊢
    dsimp only [Leaves.ahead] at h ⊢
    cases hbegin : begin stack.length s with
    | error err =>
      rw [hbegin] at h
      cases h
    | ok b =>
      rw [hbegin] at h
      rcases begin_ok hbegin with ⟨w, text, v, rest, rfl, -, -, -⟩ |
        ⟨w, text, frame, rest, rfl, rfl, hw, hopen, hdepth⟩
      · have hne : rest ≠ [] := by
          intro hnil
          have hlt := place_length h
          rw [hnil] at hlt
          exact Nat.not_lt_zero _ hlt
        rw [begin_ahead hbegin hne t]
        exact place_more h t
      · cases h
        cases hrest
        obtain ⟨s, rfl⟩ := ht rfl
        cases hopen with
        | array hw' =>
          have hframe := (begin_bracket (.inr rfl) hw hdepth _).trans
            (openFrame_array hw' (c := 0x6e) rfl (by decide) s)
          simp only [List.append_nil, List.append_assoc, List.cons_append] at hframe ⊢
          rw [hframe]
          rfl
        | object hk =>
          have hframe :=
            (begin_bracket (.inl rfl) hw hdepth _).trans (openFrame_object hk (0x6e :: s))
          simp only [List.append_nil, List.append_assoc, List.cons_append] at hframe ⊢
          rw [hframe]
          rfl

theorem parseTurn_depth {st st' : ParseState} (h : parseTurn ignoreRest st () = .again st')
    (hdepth : st.stack.length ≤ MAX_DEPTH) : st'.stack.length ≤ MAX_DEPTH := by
  have hplaced {stack : List Frame} {v : JsonNode} {s : Bytes} (hdepth : stack.length ≤ MAX_DEPTH)
      (h : place ignoreRest stack v s = .again st') : st'.stack.length ≤ MAX_DEPTH := by
    obtain ⟨top, below, rfl, hplaced⟩ := placed_of_place h
    cases hplaced with
    | item => exact hdepth
    | member => exact hdepth
    | close => exact Nat.le_of_succ_le hdepth
  unfold parseTurn at h
  split at h
  · exact hplaced hdepth h
  · split at h
    · cases h
    · rename_i frame rest hbegin
      cases h
      rcases begin_ok hbegin with ⟨_, _, _, _, hb, -⟩ | ⟨_, _, _, _, -, -, -, -, hlt⟩
      · cases hb
      · exact hlt
    · exact hplaced hdepth h

theorem place_cut {stack : List Frame} {v : JsonNode} {s : Bytes} {r : Except Thrown JsonNode}
    (h : place ignoreRest stack v s = .done r) (hr : IsCut r) (hdepth : stack.length ≤ MAX_DEPTH) :
    ∃ t node, (parseLoop ignoreRest).result ⟨stack, s ++ t, some v⟩ = .ok node := by
  obtain ⟨w, hsplit, hw⟩ := ws_skipWs s
  unfold place at h
  cases stack with
  | nil =>
    dsimp only at h
    split_ifs at h with hignore hs
    · cases h
      exact absurd hr (not_cut_ok _)
    · cases h
      exact absurd (cut_of_fail hr) hs
    · cases h
      exact absurd hr (not_cut_ok _)
  | cons top below =>
    dsimp only at h
    cases hs : skipWs s with
    | nil =>
      rw [hs, List.append_nil] at hsplit
      subst hsplit
      exact ⟨closers (top :: below), result_closers _ _ v hw⟩
    | cons c s' =>
      rw [hs] at hsplit h
      dsimp only at h
      have hbyte {what : String} (h : .done (fail what (c :: s')) = (.done r : Turn ParseState _)) :
          False := by
        cases h
        exact not_cut_fail _ _ _ hr
      by_cases hcomma : c = 0x2c
      · by_cases hobj : (top.push v).obj = true
        · rw [if_pos hcomma, if_pos hobj] at h
          cases hkey : key s' with
          | ok p =>
            rw [hkey] at h
            cases h
          | error err =>
            rw [hkey] at h
            cases h
            obtain ⟨u, name, hk⟩ := key_cut (s := s') (by rw [hkey]; exact cut_error hr)
            have hnext := @result_null ignoreRest ({ top.push v with key := name } :: below) hdepth
            generalize [0x6e, 0x75, 0x6c, 0x6c] ++ closers ({ top.push v with key := name } ::
              below) = t at hnext
            rw [Frame.push_obj] at hobj
            have hplaced : Placed top below v (w ++ 0x2c :: (s' ++ u) ++ t) _ := .member hobj hw hk
            refine ⟨u ++ t, ?_⟩
            have heq : s ++ (u ++ t) = w ++ 0x2c :: (s' ++ u) ++ t := by rw [hsplit, hcomma]; simp
            rw [heq, result_of_placed hplaced]
            exact hnext
        · rw [if_pos hcomma, if_neg hobj] at h
          cases h
      · rw [if_neg hcomma] at h
        by_cases hclose : c = closer (top.push v).obj
        · rw [if_pos hclose] at h
          cases h
        · rw [if_neg hclose] at h
          exact (hbyte h).elim

/-- A whole value where one is needed, and every container closed behind it. -/
theorem result_value {stack : List Frame} (hdepth : stack.length ≤ MAX_DEPTH) {w t : Bytes}
    {v : JsonNode} (hw : Ws w) (hv : ValueText (MAX_DEPTH - stack.length) t v) :
    ∃ node, (parseLoop ignoreRest).result ⟨stack, w ++ t ++ closers stack, none⟩ = .ok node := by
  rw [value_accepted hv stack w (closers stack) (Nat.add_sub_of_le hdepth).le hw
    (.inr (endsNumber_closers stack))]
  exact result_closers stack [] v ws_nil

/-- A turn that ends with the input is completed. -/
theorem parseTurn_cut {st : ParseState} {r : Except Thrown JsonNode}
    (h : parseTurn ignoreRest st () = .done r) (hr : IsCut r)
    (hdepth : st.stack.length ≤ MAX_DEPTH) :
    ∃ t node, (parseLoop ignoreRest).result (Leaves.ahead st t) = .ok node := by
  obtain ⟨stack, s, value⟩ := st
  cases value with
  | some v => exact place_cut h hr hdepth
  | none =>
    unfold parseTurn at h
    dsimp only [Leaves.ahead] at h hdepth ⊢
    cases hbegin : begin stack.length s with
    | ok b =>
      rw [hbegin] at h
      cases b with
      | opened frame rest => cases h
      | value v rest =>
        by_cases hrest : rest = []
        · rcases begin_ok hbegin with ⟨w, text, v', rest', hb, hsplit, hw, hv⟩ | ⟨_, _, _, _, hb, -⟩
          · cases hb
            rw [hsplit, hrest, List.append_nil]
            exact ⟨closers stack, result_value hdepth hw hv⟩
          · cases hb
        · obtain ⟨t, node, hnode⟩ := place_cut h hr hdepth
          refine ⟨t, node, ?_⟩
          rw [result_of_begin (begin_ahead hbegin hrest t)]
          exact hnode
    | error err =>
      rw [hbegin] at h
      cases h
      obtain ⟨u, w, text, hsplit, hw, ⟨v, hv⟩ | ⟨hlt, k, name, rfl, hk⟩⟩ :=
        begin_cut (s := s) (by rw [hbegin]; exact cut_error hr)
      · obtain ⟨node, hnode⟩ := @result_value ignoreRest _ hdepth _ _ _ hw hv
        refine ⟨u ++ closers stack, node, ?_⟩
        rw [← List.append_assoc, hsplit]
        exact hnode
      · obtain ⟨node, hnode⟩ := @result_null ignoreRest (⟨true, [], [], name⟩ :: stack) hlt
        generalize [0x6e, 0x75, 0x6c, 0x6c] ++ closers (⟨true, [], [], name⟩ :: stack) = t at hnode
        refine ⟨u ++ t, node, ?_⟩
        have hframe := (begin_bracket (.inl rfl) hw hlt _).trans (openFrame_object hk t)
        rw [← List.append_assoc, hsplit, List.append_assoc, List.cons_append,
          result_of_opened hframe]
        exact hnode

/-- Every state that is cut off can be completed. -/
theorem result_cut {st : ParseState} (h : IsCut ((parseLoop ignoreRest).result st))
    (hdepth : st.stack.length ≤ MAX_DEPTH) :
    ∃ t node, (parseLoop ignoreRest).result (Leaves.ahead st t) = .ok node := by
  refine Loop.result_induction (L := parseLoop ignoreRest) (P := fun st r => IsCut r →
    st.stack.length ≤ MAX_DEPTH →
    ∃ t node, (parseLoop ignoreRest).result (Leaves.ahead st t) = .ok node) ?_ ?_ st h hdepth
  · exact fun st r hturn hr hdepth => parseTurn_cut hturn hr hdepth
  · intro st st' hturn ih hr hdepth
    have hdepth' := parseTurn_depth hturn hdepth
    by_cases hrest : st'.rest = []
    · obtain ⟨t, node, ht, hnode⟩ := @result_end ignoreRest _ hrest hdepth'
      refine ⟨t, node, ?_⟩
      rw [Loop.result_again (L := parseLoop ignoreRest) (parseTurn_end hturn hrest ht)]
      exact hnode
    · obtain ⟨t, node, hnode⟩ := ih hr hdepth'
      refine ⟨t, node, ?_⟩
      rw [Loop.result_again (L := parseLoop ignoreRest) (parseTurn_again hturn hrest t)]
      exact hnode

/-! ## The two readers -/

/-- The input can still become a JSON text. -/
def Viable (bytes : Bytes) : Prop := ∃ s node, parseJson (bytes ++ s) = .ok node

/-- What a reader says of an input that is no JSON text yet. -/
theorem parse_error {bytes : Bytes} {t : Thrown} (h : parse bytes ignoreRest = .error t) :
    IsCut (parse bytes ignoreRest) ∨ IsWrong (parse bytes ignoreRest) := by
  obtain ⟨e, rfl, -⟩ := reports_parse bytes t h
  rw [h]
  cases heof : e.eof with
  | true => exact .inl ⟨e, rfl, heof⟩
  | false => exact .inr ⟨e, rfl, heof⟩

theorem parse_cut {bytes : Bytes} (h : IsCut (parse bytes ignoreRest)) :
    ∃ s node, parse (bytes ++ s) ignoreRest = .ok node :=
  @result_cut ignoreRest ⟨[], bytes, none⟩ h (Nat.zero_le _)

theorem not_cut_wrong {r : Except Thrown JsonNode} (h : IsCut r) : ¬ IsWrong r := by
  rintro ⟨e, he, heof⟩
  obtain ⟨e', he', heof'⟩ := h
  rw [he] at he'
  cases he'
  rw [heof] at heof'
  cases heof'

theorem not_wrong_of_more {bytes s : Bytes} {node : JsonNode}
    (h : parse (bytes ++ s) ignoreRest = .ok node) : ¬ IsWrong (parse bytes ignoreRest) := by
  intro hwrong
  rw [parse_wrong hwrong s] at h
  obtain ⟨e, he, -⟩ := hwrong
  rw [he] at h
  cases h

/-- The flag of the error is whether the input is viable. -/
theorem parse_eof {bytes : Bytes} {e : JsonSyntaxError}
    (h : parse bytes ignoreRest = .error (.syntaxError e)) :
    e.eof = true ↔ ∃ s node, parse (bytes ++ s) ignoreRest = .ok node := by
  constructor
  · intro heof
    exact parse_cut ⟨e, h, heof⟩
  · rintro ⟨s, node, hnode⟩
    by_contra heof
    exact not_wrong_of_more hnode ⟨e, h, by simpa using heof⟩

/-- The readers differ in what they do behind a whole value only. -/
theorem parseTurn_ignoreRest (st : ParseState) :
    parseTurn true st () = parseTurn false st () ∨
      ∃ v r, parseTurn true st () = .done (.ok v) ∧ parseTurn false st () = .done r ∧
        (r = .ok v ∨ IsWrong r) := by
  have hplace (stack : List Frame) (v : JsonNode) (s : Bytes) :
      place true stack v s = place false stack v s ∨
      ∃ v' r, place true stack v s = .done (.ok v') ∧ place false stack v s = .done r ∧
        (r = .ok v' ∨ IsWrong r) := by
    cases stack with
    | cons top below => exact .inl rfl
    | nil =>
      cases hs : skipWs s with
      | nil => exact .inr ⟨v, .ok v, rfl, by rw [place, hs]; rfl, .inl rfl⟩
      | cons c t => exact .inr ⟨v, fail "after top-level value" (c :: t), rfl,
        by rw [place, hs]; rfl, .inr ⟨_, rfl, rfl⟩⟩
  obtain ⟨stack, s, value⟩ := st
  cases value with
  | some v => exact hplace stack v s
  | none =>
    unfold parseTurn
    cases hbegin : begin stack.length s with
    | error err => exact .inl rfl
    | ok b =>
      cases b with
      | opened frame rest => exact .inl rfl
      | value v rest => exact hplace stack v rest

theorem result_ignoreRest (st : ParseState) :
    (parseLoop true).result st = (parseLoop false).result st ∨
      ∃ v, (parseLoop true).result st = .ok v ∧
        ((parseLoop false).result st = .ok v ∨ IsWrong ((parseLoop false).result st)) := by
  refine Loop.result_induction (L := parseLoop true) (P := fun st r =>
    r = (parseLoop false).result st ∨
    ∃ v, r = .ok v ∧ ((parseLoop false).result st = .ok v ∨
      IsWrong ((parseLoop false).result st))) ?_ ?_ st
  · intro st r hturn
    change parseTurn true st () = _ at hturn
    rcases parseTurn_ignoreRest st with heq | ⟨v, r', htrue, hfalse, hr'⟩
    · refine .inl (Eq.symm (Loop.result_done (L := parseLoop false) ?_))
      exact heq.symm.trans hturn
    · have hresult : (parseLoop false).result st = r' :=
        Loop.result_done (L := parseLoop false) hfalse
      rw [hturn] at htrue
      cases htrue
      exact .inr ⟨v, rfl, by rwa [hresult]⟩
  · intro st st' hturn ih
    change parseTurn true st () = _ at hturn
    rcases parseTurn_ignoreRest st with heq | ⟨v, r', htrue, -, -⟩
    · have hresult : (parseLoop false).result st = (parseLoop false).result st' :=
        Loop.result_again (L := parseLoop false) (heq.symm.trans hturn)
      rw [hresult]
      exact ih
    · rw [hturn] at htrue
      cases htrue

/-- Either both readers report the end of the input or neither does. -/
theorem parseFirstJson_cut (bytes : Bytes) :
    IsCut (parseFirstJson bytes) ↔ IsCut (parseJson bytes) := by
  rcases result_ignoreRest ⟨[], bytes, none⟩ with heq | ⟨v, hfirst, hwhole⟩
  · exact iff_of_eq (congrArg IsCut heq)
  · refine iff_of_false (fun h => ?_) fun h => ?_
    · change IsCut ((parseLoop true).result _) at h
      rw [hfirst] at h
      exact not_cut_ok v h
    · change IsCut ((parseLoop false).result _) at h
      rcases hwhole with hwhole | hwrong
      · rw [hwhole] at h
        exact not_cut_ok v h
      · exact not_cut_wrong h hwrong

theorem viable_of_cut {bytes : Bytes} (h : IsCut (parseFirstJson bytes)) : Viable bytes :=
  parse_cut ((parseFirstJson_cut bytes).mp h)

/-- An input that no more input can help has a first byte that makes it so. -/
theorem first_wrong {bytes : Bytes} (h : IsWrong (parse bytes ignoreRest)) :
    ∃ p c t, bytes = p ++ c :: t ∧ ¬ IsWrong (parse p ignoreRest) ∧
      IsWrong (parse (p ++ [c]) ignoreRest) := by
  induction bytes using List.reverseRec with
  | nil => exact absurd h (not_cut_wrong ⟨_, rfl, rfl⟩)
  | append_singleton p c ih =>
    by_cases hp : IsWrong (parse p ignoreRest)
    · obtain ⟨p', c', t, rfl, hgood, hwrong⟩ := ih hp
      exact ⟨p', c', t ++ [c], by simp, hgood, hwrong⟩
    · exact ⟨p, c, [], rfl, hp, h⟩

/-- An input that is not wrong can go on to one that is accepted. -/
theorem exists_more {bytes : Bytes} (h : ¬ IsWrong (parse bytes ignoreRest)) :
    ∃ s node, parse (bytes ++ s) ignoreRest = .ok node := by
  cases hparse : parse bytes ignoreRest with
  | ok node => exact ⟨[], node, by rwa [List.append_nil]⟩
  | error t => exact parse_cut ((parse_error hparse).resolve_right h)

end AgentService
