import AgentService.Gateway.JsonStrings
import AgentService.Persistence

/-!
# Bytes as column values

The bytes `utf8` reads are the UTF-8 of exactly one text; what a symbol is stored as and what a
query asks for are read off that.
-/

namespace AgentService
open Lib

theorem allValid_skip (as bs : Bytes) : allValid as.length (as ++ bs) = allValid 0 bs := by
  induction as with
  | nil => rfl
  | cons a as ih => exact ih

theorem allValid_encodeChar (c : Char) (bs : Bytes) :
    allValid 0 (String.utf8EncodeChar c ++ bs) = allValid 0 bs := by
  have hlen := validLength_encodeChar c bs
  obtain ⟨b, tail, hchar, -⟩ := encodeChar_head c
  rw [hchar, List.cons_append] at hlen ⊢
  rw [allValid]
  simp only [hlen, List.length_cons]
  exact allValid_skip tail bs

/-- The bytes `utf8` reads are the UTF-8 of a text. -/
theorem allValid_iff (bytes : Bytes) : allValid 0 bytes = true ↔ ∃ cs, bytes = utf8Encode cs := by
  constructor
  · intro h
    induction hn : bytes.length using Nat.strong_induction_on generalizing bytes with
    | h n ih =>
      cases bytes with
      | nil => exact ⟨[], rfl⟩
      | cons b bs =>
        have hpos : 0 < validLength (b :: bs) := by
          by_contra hzero
          rw [allValid] at h
          simp [Nat.eq_zero_of_not_pos hzero] at h
        obtain ⟨seq, rest, heq, hseq⟩ := isSequence_of_validLength hpos
        obtain ⟨c, rfl⟩ := hseq.exists_char
        rw [heq, allValid_encodeChar] at h
        have hlt : rest.length < n := by
          rw [← hn, heq, List.length_append, String.length_utf8EncodeChar]
          exact Nat.lt_add_of_pos_left (Char.utf8Size_pos c)
        obtain ⟨cs, rfl⟩ := ih _ hlt rest h rfl
        exact ⟨c :: cs, heq⟩
  · intro ⟨cs, hcs⟩
    rw [hcs]
    clear hcs
    induction cs with
    | nil => rfl
    | cons c cs ih => rw [utf8Encode_cons, allValid_encodeChar, ih]

theorem utf8_eq_some {bytes : Bytes} {text : JsString} :
    utf8 bytes = some text ↔ ∃ cs, bytes = utf8Encode cs ∧ text = utf16 cs := by
  unfold utf8
  by_cases h : allValid 0 bytes = true
  · rw [if_pos h]
    obtain ⟨cs, rfl⟩ := (allValid_iff bytes).mp h
    rw [utf8ToString_encode]
    constructor
    · intro heq
      cases heq
      exact ⟨cs, rfl, rfl⟩
    · intro ⟨ds, hds, htext⟩
      rw [htext, utf8Encode_injective hds]
  · rw [if_neg h]
    constructor
    · intro heq
      cases heq
    · intro ⟨cs, hcs, _⟩
      exact absurd ((allValid_iff bytes).mpr ⟨cs, hcs⟩) h

theorem symbolColumn_ok {bytes : Bytes} {symbol : JsString} :
    symbolColumn bytes = .ok symbol ↔ ∃ cs, bytes = utf8Encode cs ∧ symbol = utf16 cs := by
  rw [← utf8_eq_some, symbolColumn]
  cases utf8 bytes with
  | none => simp
  | some text => simp

/-- Whether there is a filter does not depend on whether it is UTF-8. -/
theorem textOrBytes_isEmpty (bytes : Bytes) : (textOrBytes bytes).isEmpty = bytes.isEmpty := by
  unfold textOrBytes
  cases hutf8 : utf8 bytes with
  | none => rfl
  | some text =>
    obtain ⟨cs, rfl, rfl⟩ := utf8_eq_some.mp hutf8
    cases cs with
    | nil => rfl
    | cons c cs =>
      obtain ⟨b, bs, hchar, -⟩ := encodeChar_head c
      rw [utf8Encode_cons, hchar]
      simp [TextOrBytes.isEmpty, codePointUnits_ne_nil]

end AgentService
