import AgentService.Db.Columns
import AgentService.Gateway.ErrorBody

/-!
# One reading of UTF-8

A string of a JSON text, an error body and a column value are read by three loops that cut, copy and
replace differently. On bytes that may stand between quotes as they are, all of them find the
`Characters` of the bytes: the well-formed sequences, and the other bytes one by one.
-/

namespace AgentService
open Lib

/-- Bytes that stand between quotes without an escape. -/
def IsUnescaped (bytes : Bytes) : Prop := ∀ b ∈ bytes, 0x20 ≤ b ∧ b ≠ 0x22 ∧ b ≠ 0x5c

/-- The text that characters stand for: a code point each, U+FFFD for a byte. -/
def shownText (cs : List Character) : JsString := utf16 (cs.map Character.shown)

theorem IsUnescaped.of_append {s t : Bytes} (h : IsUnescaped (s ++ t)) :
    IsUnescaped s ∧ IsUnescaped t :=
  ⟨fun b hb => h b (List.mem_append_left t hb), fun b hb => h b (List.mem_append_right s hb)⟩

/-! ## Strings -/

theorem high_of_not_startsWellFormed {b : UInt8} {bs : Bytes} (h : ¬ StartsWellFormed (b :: bs)) :
    0x80 ≤ b := by
  by_contra hlow
  obtain ⟨c, -, henc⟩ := encodeChar_ascii (UInt8.not_le.mp hlow)
  exact h ⟨c, bs, by rw [henc]; rfl⟩

/-- The characters of such bytes are a string's text. -/
theorem Characters.stringText {bytes : Bytes} {cs : List Character} (h : Characters bytes cs)
    (hplain : IsUnescaped bytes) : StringText bytes (shownText cs) := by
  induction h with
  | nil => exact .nil
  | @sequence bs cs c _ ih =>
    obtain ⟨hchar, hrest⟩ := hplain.of_append
    obtain ⟨b, tail, henc, ⟨-, rfl, hn⟩ | ⟨hhigh, -⟩⟩ := encodeChar_head c
    · obtain ⟨hlow, hquote, hslash⟩ := hchar b (by simp [henc])
      simp only [UInt8.le_iff_toNat_le, ne_eq, ← UInt8.toNat_inj, UInt8.reduceToNat,
        hn] at hlow hquote hslash
      exact .char c hlow hquote hslash (ih hrest)
    · exact .char c (by omega) (by omega) (by omega) (ih hrest)
  | @byte b bs cs hbad _ ih =>
    exact .stray (high_of_not_startsWellFormed hbad) hbad (ih fun x hx =>
      hplain x (List.mem_cons_of_mem b hx))

theorem isPlainText_iff {bytes : Bytes} (h : IsUnescaped bytes) :
    IsPlainText bytes = true ↔ ∀ b ∈ bytes, b < 0x80 := by
  rw [IsPlainText, List.all_eq_true]
  constructor
  · intro hall b hb
    have hb := hall b hb
    rw [Bool.and_eq_true, decide_eq_true_eq] at hb
    exact hb.1
  · intro hall b hb
    simp [hall b hb, (h b hb).2.2]

/-- A string's bytes are read as one text. -/
theorem StringText.unique {bytes : Bytes} {v v' : JsString} (h : StringText bytes v)
    (h' : StringText bytes v') : v' = v := by
  have hread := (str_append h' []).symm.trans (str_append h [])
  exact congrArg Prod.fst (Except.ok.inj hread)

/-- The slow path reads the same text wherever it takes over from the fast one. -/
theorem strSlow_from {run s : Bytes} {v : JsString} (h : StringText (run ++ s) v) {v' : JsString}
    (hs : StringText s v') (hrun : ∀ b ∈ run, isFast b = true) (rest : Bytes) :
    strSlow.result ⟨[], run, s ++ 0x22 :: rest⟩ = .ok (v, rest) := by
  obtain ⟨cs, hencoded, hlatin⟩ := fast_encoded hrun
  have htext : v = utf16 cs ++ v' := by rw [← hlatin]; exact (stringText_fast hrun hs).unique h
  rw [hencoded, strSlow_append hs, htext]
  rfl

/-! ## Error bodies -/

theorem keyText_quote {k : Bytes} {name : JsString} (h : KeyText k name) : 0x22 ∈ k := by
  cases h with
  | mk hw hs hw' => simp

section
variable {unicode : Unicode} {doubles : Doubles}

/-- An envelope that is read from a body without a quote has no members. -/
theorem envelope_of_noQuote {body : Bytes} {v : Value} (hquote : 0x22 ∉ body)
    (h : decode unicode doubles envelope body = .ok v) : v = zero envelope := by
  unfold decode at h
  split at h
  · exact (Except.ok.inj h).symm
  · obtain ⟨node, hnode, hbind⟩ := bind_eq_ok.mp h
    obtain @⟨w, s, _, w', hw, hs, hw'⟩ := jsonText_of_parseJson (mapError_eq_ok.mp hnode)
    have hbind := mapError_eq_ok.mp hbind
    rw [envelope] at hbind
    cases node with
    | null =>
      rw [bind] at hbind
      · exact (Except.ok.inj hbind).symm
      · simp
    | obj ms =>
      cases ms with
      | nil =>
        rw [bind, bindMembers] at hbind
        exact (Except.ok.inj hbind).symm
      | cons m ms =>
        obtain ⟨key, value⟩ := m
        cases hs with
        | object hk => exact absurd (keyText_quote hk) (fun hmem => hquote (by simp [hmem]))
    | _ => simp [bind, mismatch] at hbind

theorem not_lifts_of_noQuote {body : Bytes} (hquote : 0x22 ∉ body) (message : List Char) :
    ¬ Lifts unicode doubles body message := by
  rintro ⟨⟨v, hdecode, hmessage⟩, c, hc, hspace⟩
  rw [envelope_of_noQuote hquote hdecode] at hmessage
  have hblank : goTrimSpace (utf16 message) = [] := by
    rw [← hmessage]
    rfl
  exact hspace ((goTrimSpace_utf16 message).mp hblank c hc)

end

/-! ## Column values -/

/-- A text's UTF-8 holds its sequences and nothing else. -/
theorem characters_encode (cs : List Char) : Characters (utf8Encode cs) (cs.map .sequence) := by
  induction cs with
  | nil => exact .nil
  | cons c cs ih =>
    rw [utf8Encode_cons]
    exact .sequence c ih

/-- A column value is the text of its bytes, unless a byte belongs to no sequence. -/
theorem Characters.utf8 {bytes : Bytes} {cs : List Character} (h : Characters bytes cs) :
    utf8 bytes = if cs.all Character.isSequence = true then some (shownText cs) else none := by
  by_cases hall : cs.all Character.isSequence = true
  · rw [if_pos hall]
    exact utf8_eq_some.mpr ⟨cs.map Character.shown, h.bytes_eq_encode hall, rfl⟩
  · rw [if_neg hall, Option.eq_none_iff_forall_ne_some]
    intro text htext
    obtain ⟨ds, rfl, -⟩ := utf8_eq_some.mp htext
    apply hall
    rw [(characters_encode ds).unique h, List.all_map]
    exact List.all_eq_true.mpr fun _ _ => rfl

/-! ## All readers -/

/-- What every reader makes of bytes with these characters: the string reader on
either path, the document reader, the loop over an error body with the sentence it
leads to, and the column reader. -/
structure ReadAlike (unicode : Unicode) (doubles : Doubles) (bytes : Bytes) (cs : List Character) :
    Prop where
  string : ∀ rest, str (0x22 :: bytes ++ 0x22 :: rest) = .ok (shownText cs, IsPlainText bytes, rest)
  slow : ∀ run s rest, bytes = run ++ s → (∀ b ∈ run, isFast b = true) →
    strSlow.result ⟨[], run, s ++ 0x22 :: rest⟩ = .ok (shownText cs, rest)
  document : parseJson (0x22 :: bytes ++ [0x22]) = .ok (.str (shownText cs) (IsPlainText bytes))
  plain : IsPlainText bytes = true ↔ ∀ b ∈ bytes, b < 0x80
  ascii : IsPlainText bytes = true → shownText cs = latin1Decode bytes
  runes : (runesFrom 0 bytes).map Prod.fst = cs.map fun c => codePointUnits c.shown.toNat
  message : upstreamMessageOf unicode doubles bytes =
    if goTrimSpace (shownText cs) = [] then .ok (NO_MESSAGE, none)
    else if MAX_MESSAGE_LENGTH < cs.length then .ok (shownText (cs.take MAX_MESSAGE_LENGTH), none)
    else .ok (shownText cs, if cs.all Character.isSequence then none else some bytes)
  column : utf8 bytes = if cs.all Character.isSequence then some (shownText cs) else none
  encoded : ∀ text, utf8 bytes = some text → stringToUtf8 text = bytes

/-- Bytes that stand between quotes as they are have their characters in one way, and every reader
finds these. -/
theorem utf8_read_alike (unicode : Unicode) (doubles : Doubles) {bytes : Bytes}
    (h : IsUnescaped bytes) :
    ∃ cs, Characters bytes cs ∧ (∀ cs', Characters bytes cs' → cs' = cs) ∧
      ReadAlike unicode doubles bytes cs := by
  obtain ⟨cs, hcs⟩ := exists_characters bytes
  have htext : StringText bytes (shownText cs) := hcs.stringText h
  have hquote : 0x22 ∉ bytes := fun hmem => (h _ hmem).2.1 rfl
  refine ⟨cs, hcs, fun cs' => hcs.unique, ?_⟩
  constructor
  case string => exact str_append htext
  case slow =>
    rintro run s rest rfl hrun
    obtain ⟨ds, hds⟩ := exists_characters s
    exact strSlow_from htext (hds.stringText h.of_append.2) hrun rest
  case document =>
    have hws : Ws [] := by simp [Ws]
    have hparse : parseJson ([] ++ (0x22 :: bytes ++ [0x22]) ++ []) = _ :=
      parse_of_jsonText (.mk hws (.string htext) hws)
    simpa using hparse
  case plain => exact isPlainText_iff h
  case ascii =>
    intro hplain
    have hfast : ∀ b ∈ bytes, isFast b = true := by
      intro b hb
      simp [isFast, (isPlainText_iff h).mp hplain b hb, h b hb]
    have hlatin := stringText_fast hfast .nil
    rw [List.append_nil, List.append_nil] at hlatin
    exact hlatin.unique htext
  case runes =>
    rw [hcs.runes, List.map_map]
    apply List.map_congr_left
    intro c _
    cases c <;> rfl
  case message => exact upstreamMessageOf_characters (not_lifts_of_noQuote hquote) hcs
  case column => exact hcs.utf8
  case encoded =>
    intro text hsome
    obtain ⟨ds, rfl, rfl⟩ := utf8_eq_some.mp hsome
    exact stringToUtf8_utf16 ds

/-- A letter of two bytes, and a byte that no sequence starts with. -/
theorem utf8_read_alike_at_stray :
    ReadAlike plainUnicode plainDoubles [0x61, 0xc3, 0xa9, 0xff]
      [.sequence 'a', .sequence (Char.ofNat 0xe9), .byte 0xff] := by
  obtain ⟨cs, -, hunique, halike⟩ :=
    @utf8_read_alike plainUnicode plainDoubles [0x61, 0xc3, 0xa9, 0xff] (by simp [IsUnescaped])
  have hstray : ¬ StartsWellFormed [0xff] := fun hstarts =>
    absurd (validLength_pos.mpr hstarts) (by decide)
  have hcs : Characters [0x61, 0xc3, 0xa9, 0xff] [.sequence 'a', .sequence (Char.ofNat 0xe9),
      .byte 0xff] :=
    .sequence 'a' (.sequence (Char.ofNat 0xe9) (.byte hstray .nil))
  rw [hunique _ hcs]
  exact halike

end AgentService
