import AgentService.Lib.Utf8

/-!
# JavaScript strings

A string is its UTF-16 code units. A text (a list of Unicode scalar values) has exactly
one spelling, `utf16`; a string that is no spelling of a text holds a lone surrogate,
which UTF-8 encoding writes as U+FFFD. The Latin-1 views are the ones a byte buffer has:
one unit per byte out, the low byte of each unit in.
-/

namespace Lib

abbrev JsString := List UInt16

/-- A string written down in ASCII. -/
def js (s : String) : JsString := s.toList.map fun c => UInt16.ofNat c.toNat

/-- The units of one code point (`String.fromCodePoint`). -/
def codePointUnits (n : Nat) : JsString :=
  if n < 0x10000 then [UInt16.ofNat n]
  else [UInt16.ofNat (0xd800 + (n - 0x10000) / 0x400),
    UInt16.ofNat (0xdc00 + (n - 0x10000) % 0x400)]

/-- The string that spells a text. -/
def utf16 (cs : List Char) : JsString := cs.flatMap fun c => codePointUnits c.toNat

def isHighSurrogate (u : UInt16) : Bool := 0xd800 ≤ u && u < 0xdc00

def isLowSurrogate (u : UInt16) : Bool := 0xdc00 ≤ u && u < 0xe000

/-- The code point of a surrogate pair. -/
def pairCodePoint (hi lo : Nat) : Nat := 0x10000 + (hi - 0xd800) * 0x400 + (lo - 0xdc00)

/-- The text a string is written out as: a lone surrogate becomes U+FFFD. -/
def toWellFormed : JsString → List Char
  | [] => []
  | [u] => if isHighSurrogate u || isLowSurrogate u then [Utf8.replacement]
      else [Char.ofNat u.toNat]
  | u :: v :: us =>
    if isHighSurrogate u then
      if isLowSurrogate v then Char.ofNat (pairCodePoint u.toNat v.toNat) :: toWellFormed us
      else Utf8.replacement :: toWellFormed (v :: us)
    else if isLowSurrogate u then Utf8.replacement :: toWellFormed (v :: us)
    else Char.ofNat u.toNat :: toWellFormed (v :: us)

/-- A buffer as a string and back, one unit per byte. -/
def latin1Decode (bs : Bytes) : JsString := bs.map UInt8.toUInt16

def latin1Encode (s : JsString) : Bytes := s.map UInt16.toUInt8

/-- A buffer as a string and back, through UTF-8. -/
def utf8ToString (bs : Bytes) : JsString := utf16 (utf8Decode bs)

def stringToUtf8 (s : JsString) : Bytes := utf8Encode (toWellFormed s)

@[simp] theorem latin1Encode_decode (bs : Bytes) : latin1Encode (latin1Decode bs) = bs := by
  simp [latin1Encode, latin1Decode, Function.comp_def]

@[simp] theorem latin1Decode_append (as bs : Bytes) :
    latin1Decode (as ++ bs) = latin1Decode as ++ latin1Decode bs := List.map_append

@[simp] theorem latin1Encode_append (s t : JsString) :
    latin1Encode (s ++ t) = latin1Encode s ++ latin1Encode t := List.map_append

@[simp] theorem utf16_nil : utf16 [] = [] := rfl

@[simp] theorem utf16_cons (c : Char) (cs : List Char) :
    utf16 (c :: cs) = codePointUnits c.toNat ++ utf16 cs := rfl

@[simp] theorem utf16_append (as bs : List Char) : utf16 (as ++ bs) = utf16 as ++ utf16 bs :=
  List.flatMap_append

theorem codePointUnits_ne_nil (n : Nat) : codePointUnits n ≠ [] := by
  unfold codePointUnits
  split <;> simp

/-- A character is spelled by one unit that is no surrogate, or by a pair. -/
theorem codePointUnits_cases (c : Char) :
    (∃ u, codePointUnits c.toNat = [u] ∧ isHighSurrogate u = false ∧ isLowSurrogate u = false ∧
      Char.ofNat u.toNat = c) ∨
    (∃ u v, codePointUnits c.toNat = [u, v] ∧ isHighSurrogate u = true ∧ isLowSurrogate v = true ∧
      Char.ofNat (pairCodePoint u.toNat v.toNat) = c) := by
  have hv : c.toNat < 0xd800 ∨ 0xdfff < c.toNat ∧ c.toNat < 0x110000 := c.valid
  have hc : Char.ofNat c.toNat = c := Char.ofNat_toNat c
  generalize c.toNat = n at hv hc
  unfold codePointUnits
  split_ifs with hn
  · have e : (UInt16.ofNat n).toNat = n := by simp; omega
    refine .inl ⟨UInt16.ofNat n, rfl, ?_, ?_, by rw [e, hc]⟩
    · simp only [isHighSurrogate, UInt16.le_iff_toNat_le, UInt16.lt_iff_toNat_lt, e,
        UInt16.reduceToNat, Bool.and_eq_false_iff, decide_eq_false_iff_not]
      omega
    · simp only [isLowSurrogate, UInt16.le_iff_toNat_le, UInt16.lt_iff_toNat_lt, e,
        UInt16.reduceToNat, Bool.and_eq_false_iff, decide_eq_false_iff_not]
      omega
  · have e1 : (UInt16.ofNat (0xd800 + (n - 0x10000) / 0x400)).toNat =
        0xd800 + (n - 0x10000) / 0x400 := by
      rw [UInt16.toNat_ofNat']; omega
    have e2 : (UInt16.ofNat (0xdc00 + (n - 0x10000) % 0x400)).toNat =
        0xdc00 + (n - 0x10000) % 0x400 := by
      rw [UInt16.toNat_ofNat']; omega
    generalize UInt16.ofNat (0xd800 + (n - 0x10000) / 0x400) = u at e1 ⊢
    generalize UInt16.ofNat (0xdc00 + (n - 0x10000) % 0x400) = v at e2 ⊢
    refine .inr ⟨u, v, rfl, ?_, ?_, ?_⟩
    · simp only [isHighSurrogate, UInt16.le_iff_toNat_le, UInt16.lt_iff_toNat_lt, e1,
        UInt16.reduceToNat, Bool.and_eq_true, decide_eq_true_eq]
      omega
    · simp only [isLowSurrogate, UInt16.le_iff_toNat_le, UInt16.lt_iff_toNat_lt, e2,
        UInt16.reduceToNat, Bool.and_eq_true, decide_eq_true_eq]
      omega
    · have hp : pairCodePoint u.toNat v.toNat = n := by
        unfold pairCodePoint
        omega
      rw [hp, hc]

/-- A surrogate never opens the spelling of a text, except in a pair. -/
theorem toWellFormed_codePoint (c : Char) (s : JsString) :
    toWellFormed (codePointUnits c.toNat ++ s) = c :: toWellFormed s := by
  rcases codePointUnits_cases c with ⟨u, hunits, hh, hl, hc⟩ | ⟨u, v, hunits, hh, hl, hc⟩
  · rw [hunits]
    cases s with
    | nil => simp [toWellFormed, hh, hl, hc]
    | cons v s => simp [toWellFormed, hh, hl, hc]
  · rw [hunits]
    simp [toWellFormed, hh, hl, hc]

theorem toWellFormed_utf16_append (cs : List Char) (s : JsString) :
    toWellFormed (utf16 cs ++ s) = cs ++ toWellFormed s := by
  induction cs with
  | nil => rfl
  | cons c cs ih => rw [utf16_cons, List.append_assoc, toWellFormed_codePoint, ih, List.cons_append]

@[simp] theorem toWellFormed_utf16 (cs : List Char) : toWellFormed (utf16 cs) = cs := by
  have h := toWellFormed_utf16_append cs []
  rwa [List.append_nil, toWellFormed, List.append_nil] at h

/-- A text goes through a string's UTF-8 unchanged. -/
@[simp] theorem stringToUtf8_utf16 (cs : List Char) : stringToUtf8 (utf16 cs) = utf8Encode cs := by
  rw [stringToUtf8, toWellFormed_utf16]

@[simp] theorem utf8ToString_encode (cs : List Char) : utf8ToString (utf8Encode cs) = utf16 cs := by
  rw [utf8ToString, utf8Decode_encode]

theorem toNat_charOfNat {n : Nat} (h : n < 0xd800) : (Char.ofNat n).toNat = n :=
  Utf8.toNat_ofNat_valid (Or.inl h)

theorem codePointUnits_ascii {b : UInt8} (h : b < 0x80) :
    codePointUnits (Char.ofNat b.toNat).toNat = [b.toUInt16] := by
  have hb : b.toNat < 128 := UInt8.lt_iff_toNat_lt.mp h
  have hn : (Char.ofNat b.toNat).toNat = b.toNat := by
    exact toNat_charOfNat (by omega)
  rw [hn, codePointUnits, if_pos (by omega)]
  simp

/-- ASCII bytes read alike as Latin-1 and as UTF-8. -/
theorem utf8ToString_ascii {bs : Bytes} (h : ∀ b ∈ bs, b < 0x80) :
    utf8ToString bs = latin1Decode bs := by
  rw [utf8ToString, utf8Decode_ascii h]
  induction bs with
  | nil => rfl
  | cons b bs ih =>
    simp only [List.map_cons, utf16_cons, codePointUnits_ascii (h b (by simp)), latin1Decode]
    rw [ih fun x hx => h x (List.mem_cons_of_mem _ hx)]
    rfl

/-- Reading bytes as UTF-8 makes no ASCII unit that was not there as a byte. -/
theorem mem_utf8ToString_ascii {bs : Bytes} {u : UInt16} (h0 : u ≠ 0) (hu : u < 0x80)
    (h : u ∈ utf8ToString bs) : u.toUInt8 ∈ bs := by
  obtain ⟨c, hc, hm⟩ := List.mem_flatMap.mp h
  have hlt : u.toNat < 128 := UInt16.lt_iff_toNat_lt.mp hu
  have hne : u.toNat ≠ 0 := fun he => h0 (UInt16.toNat_inj.mp he)
  have hnat : c.toNat = u.toNat := by
    unfold codePointUnits at hm
    split at hm
    · rename_i hc
      rw [List.mem_singleton.mp hm, UInt16.toNat_ofNat']
      omega
    · have hmax : c.toNat < 0xd800 ∨ 0xdfff < c.toNat ∧ c.toNat < 0x110000 := c.valid
      rcases List.mem_cons.mp hm with rfl | hm
      · rw [UInt16.toNat_ofNat'] at hlt
        omega
      · rw [List.mem_singleton.mp hm, UInt16.toNat_ofNat'] at hlt
        omega
  have hbyte := mem_utf8Decode_ascii (by omega) (by omega) hc
  rw [hnat] at hbyte
  rwa [show u.toUInt8 = UInt8.ofNat u.toNat from UInt8.toNat_inj.mp (by simp)]

/-! ## Lengths -/

theorem length_codePointUnits_le (n : Nat) : (codePointUnits n).length ≤ 2 := by
  unfold codePointUnits
  split <;> simp

/-- A lead byte puts out one unit, or opens a sequence. -/
theorem length_lead (b : UInt8) :
    (utf16 (Utf8.lead b).1).length = 1 ∧ (Utf8.lead b).2 = none ∨ (Utf8.lead b).1 = [] := by
  unfold Utf8.lead
  split
  · rename_i hascii
    exact .inl ⟨by simp [codePointUnits_ascii hascii], rfl⟩
  split
  · exact .inr rfl
  split
  · exact .inr rfl
  split
  · exact .inr rfl
  · exact .inl ⟨by decide, rfl⟩

/-- Bytes are read as no more units than there are bytes, and one for the sequence
they go on with. -/
theorem length_run_le (bs : Bytes) (q : Option Utf8.Partial) :
    (utf16 (Utf8.run q bs)).length ≤ bs.length + q.elim 0 fun _ => 1 := by
  have hreplaced : (codePointUnits Utf8.replacement.toNat).length = 1 := by decide
  induction bs generalizing q with
  | nil =>
    cases q with
    | none => exact Nat.le_refl _
    | some p =>
      simp only [Utf8.run, Utf8.finish, utf16_cons, utf16_nil, List.append_nil, hreplaced]
      exact Nat.le_refl _
  | cons b bs ih =>
    have hnone : (utf16 (Utf8.run none bs)).length ≤ bs.length := ih none
    have hsome (p : Utf8.Partial) :
        (utf16 (Utf8.run (some p) bs)).length ≤ bs.length + 1 := ih (some p)
    have hlead : (utf16 ((Utf8.lead b).1 ++ Utf8.run (Utf8.lead b).2 bs)).length ≤
        bs.length + 1 := by
      rw [utf16_append, List.length_append]
      rcases length_lead b with ⟨hone, hend⟩ | hnil
      · rw [hend, hone]
        omega
      · rw [hnil]
        cases (Utf8.lead b).2 with
        | none => simpa using Nat.le_succ_of_le hnone
        | some p => simpa using hsome p
    cases q with
    | none => exact hlead
    | some p =>
      rw [Utf8.run_cons, Utf8.step, Utf8.Partial.next]
      simp only [Option.elim_some, List.length_cons]
      split
      · split
        · have hunits :=
            length_codePointUnits_le (Char.ofNat (p.codePoint * 0x40 + b.toNat % 0x40)).toNat
          rw [List.singleton_append, utf16_cons, List.length_append]
          dsimp only
          omega
        · have hrest := hsome ⟨p.codePoint * 0x40 + b.toNat % 0x40, p.owed - 1, 0x80, 0xbf⟩
          rw [List.nil_append]
          dsimp only
          omega
      · rw [List.cons_append, utf16_cons, List.length_append, hreplaced]
        dsimp only
        omega

theorem length_utf8ToString_le (bs : Bytes) : (utf8ToString bs).length ≤ bs.length :=
  length_run_le bs none

/-! ## Strings that spell a text -/

/-- No lone surrogate. -/
def IsText (s : JsString) : Prop := ∃ cs, s = utf16 cs

theorem isText_nil : IsText [] := ⟨[], rfl⟩

theorem IsText.append {s t : JsString} (hs : IsText s) (ht : IsText t) : IsText (s ++ t) := by
  obtain ⟨cs, rfl⟩ := hs
  obtain ⟨ds, rfl⟩ := ht
  exact ⟨cs ++ ds, (utf16_append cs ds).symm⟩

theorem IsText.stringToUtf8_append {s t : JsString} (hs : IsText s) (ht : IsText t) :
    stringToUtf8 (s ++ t) = stringToUtf8 s ++ stringToUtf8 t := by
  obtain ⟨cs, rfl⟩ := hs
  obtain ⟨ds, rfl⟩ := ht
  rw [← utf16_append, stringToUtf8_utf16, stringToUtf8_utf16, stringToUtf8_utf16, utf8Encode_append]

/-- ASCII bytes are the text of the characters they number. -/
theorem utf16_ascii {bs : Bytes} (h : ∀ b ∈ bs, b < 0x80) :
    latin1Decode bs = utf16 (bs.map fun b => Char.ofNat b.toNat) := by
  rw [← utf8ToString_ascii h, utf8ToString, utf8Decode_ascii h]

theorem isText_ascii {bs : Bytes} (h : ∀ b ∈ bs, b < 0x80) : IsText (latin1Decode bs) :=
  ⟨_, utf16_ascii h⟩

theorem stringToUtf8_ascii {bs : Bytes} (h : ∀ b ∈ bs, b < 0x80) :
    stringToUtf8 (latin1Decode bs) = bs := by
  rw [utf16_ascii h, stringToUtf8_utf16]
  induction bs with
  | nil => rfl
  | cons b bs ih =>
    rw [List.map_cons, utf8Encode_cons, ih fun x hx => h x (List.mem_cons_of_mem b hx),
      Utf8.encodeChar_ascii (h b List.mem_cons_self), List.singleton_append]

/-- A string of ASCII units is the text of their bytes. -/
theorem latin1_of_ascii {s : JsString} (h : ∀ u ∈ s, u < 0x80) :
    latin1Decode (latin1Encode s) = s ∧ ∀ b ∈ latin1Encode s, b < 0x80 := by
  have hlow (u : UInt16) (hu : u ∈ s) : u.toNat < 0x80 := UInt16.lt_iff_toNat_lt.mp (h u hu)
  constructor
  · rw [latin1Decode, latin1Encode, List.map_map]
    refine (List.map_congr_left fun u hu => ?_).trans (List.map_id s)
    have hlt := hlow u hu
    apply UInt16.toNat_inj.mp
    simp only [Function.comp_apply, UInt8.toNat_toUInt16, UInt16.toNat_toUInt8, id_eq]
    omega
  · intro b hb
    obtain ⟨u, hu, rfl⟩ := List.mem_map.mp hb
    have hlt := hlow u hu
    simp only [UInt8.lt_iff_toNat_lt, UInt16.toNat_toUInt8, UInt8.reduceToNat]
    omega

end Lib
