import AgentService.Lib.JsString
import AgentService.Lib.Split

/-!
# Percent-encoding

Bytes written as `%XX` unless a set keeps them, the strict reading back (every `%` must
stand before two hex digits), and ECMAScript's `decodeURIComponent`, which additionally
wants the escaped bytes to be UTF-8 and hands everything else through.
-/

namespace Lib

/-- A property of bytes is a property of 256 numbers. -/
theorem forall_byte {p : UInt8 → Prop} (h : ∀ n < 256, p (UInt8.ofNat n)) (b : UInt8) : p b := by
  have hb := h b.toNat b.toNat_lt
  rwa [UInt8.ofNat_toNat] at hb

/-- An upper-case hex digit. -/
def hexDigit (n : Nat) : UInt8 := UInt8.ofNat (if n < 10 then 0x30 + n else 0x37 + n)

def hexValue (b : UInt8) : Option Nat :=
  if 0x30 ≤ b ∧ b ≤ 0x39 then some (b.toNat - 0x30)
  else if 0x41 ≤ b ∧ b ≤ 0x46 then some (b.toNat - 0x37)
  else if 0x61 ≤ b ∧ b ≤ 0x66 then some (b.toNat - 0x57)
  else none

/-- The byte two hex digits stand for. -/
def hexPair (h l : UInt8) : Option UInt8 :=
  match hexValue h, hexValue l with
  | some x, some y => some (UInt8.ofNat (x * 16 + y))
  | _, _ => none

def percentByte (b : UInt8) : Bytes := [0x25, hexDigit (b.toNat / 16), hexDigit (b.toNat % 16)]

def percentEncode (keep : UInt8 → Bool) (bs : Bytes) : Bytes :=
  bs.flatMap fun b => if keep b then [b] else percentByte b

def percentDecode : Bytes → Option Bytes
  | [] => some []
  | b :: bs =>
    if b = 0x25 then
      match bs with
      | h :: l :: bs => (hexPair h l).bind fun x => (percentDecode bs).map (x :: ·)
      | _ => none
    else (percentDecode bs).map (b :: ·)

theorem hexPair_hexDigit (b : UInt8) :
    hexPair (hexDigit (b.toNat / 16)) (hexDigit (b.toNat % 16)) = some b :=
  forall_byte (p := fun b => hexPair (hexDigit (b.toNat / 16)) (hexDigit (b.toNat % 16)) = some b)
    (by decide +kernel) b

/-- What an encoding may hold besides the bytes that are kept. -/
def isPercentUnit (b : UInt8) : Bool := b == 0x25 || (hexValue b).isSome

theorem percentByte_units (b : UInt8) : ∀ u ∈ percentByte b, isPercentUnit u = true :=
  List.all_eq_true.mp
    (forall_byte (p := fun b => (percentByte b).all isPercentUnit = true) (by decide +kernel) b)

variable {keep : UInt8 → Bool}

@[simp] theorem percentEncode_nil : percentEncode keep [] = [] := rfl

theorem percentEncode_cons (b : UInt8) (bs : Bytes) :
    percentEncode keep (b :: bs) =
      (if keep b then [b] else percentByte b) ++ percentEncode keep bs := rfl

@[simp] theorem percentEncode_append (as bs : Bytes) :
    percentEncode keep (as ++ bs) = percentEncode keep as ++ percentEncode keep bs :=
  List.flatMap_append

theorem mem_percentEncode {bs : Bytes} {u : UInt8} (h : u ∈ percentEncode keep bs) :
    (keep u = true ∧ u ∈ bs) ∨ isPercentUnit u = true := by
  obtain ⟨b, hb, hu⟩ := List.mem_flatMap.mp h
  split at hu
  · rename_i hk
    cases List.mem_singleton.mp hu
    exact .inl ⟨hk, hb⟩
  · exact .inr (percentByte_units b u hu)

theorem percentEncode_eq_nil {bs : Bytes} (h : percentEncode keep bs = []) : bs = [] := by
  cases bs with
  | nil => rfl
  | cons b bs =>
    rw [percentEncode_cons] at h
    split at h <;> simp [percentByte] at h

theorem percentDecode_percentByte (b : UInt8) (bs : Bytes) :
    percentDecode (percentByte b ++ bs) = (percentDecode bs).map (b :: ·) := by
  simp only [percentByte, List.cons_append, List.nil_append, percentDecode, if_true,
    hexPair_hexDigit, Option.bind_some]

theorem percentDecode_cons {b : UInt8} (h : b ≠ 0x25) (bs : Bytes) :
    percentDecode (b :: bs) = (percentDecode bs).map (b :: ·) := by
  rw [percentDecode.eq_def]
  exact if_neg h

/-- What is encoded is read back, whatever bytes are kept, unless `%` is one of them. -/
theorem percentDecode_encode (hk : keep 0x25 = false) (bs : Bytes) :
    percentDecode (percentEncode keep bs) = some bs := by
  induction bs with
  | nil => rfl
  | cons b bs ih =>
    rw [percentEncode_cons]
    split
    · rename_i hb
      have hne : b ≠ 0x25 := by rintro rfl; rw [hk] at hb; cases hb
      rw [List.cons_append, List.nil_append, percentDecode_cons hne, ih, Option.map_some]
    · rw [percentDecode_percentByte, ih, Option.map_some]

/-- A separator that is kept cuts the encoding where it cuts the bytes. -/
theorem splitOn_percentEncode {sep : UInt8} (hk : keep sep = true) (hp : isPercentUnit sep = false)
    (bs : Bytes) :
    (percentEncode keep bs).splitOn sep = (bs.splitOn sep).map (percentEncode keep) := by
  induction bs with
  | nil => simp
  | cons b bs ih =>
    rw [percentEncode_cons, List.splitOn_cons_eq_if_modifyHead]
    by_cases hb : b = sep
    · subst hb
      simp [hk, List.splitOn_cons_eq_if_modifyHead, ih]
    · have hout : sep ∉ (if keep b then [b] else percentByte b) := by
        split
        · simpa using Ne.symm hb
        · intro hm
          rw [percentByte_units b sep hm] at hp
          cases hp
      rw [splitOn_append_of_notMem hout, ih]
      obtain ⟨s, ss, hs⟩ := List.exists_cons_of_ne_nil (List.splitOn_ne_nil sep bs)
      simp [hs, hb, percentEncode_cons]

/-! ## `decodeURIComponent` -/

/-- How many continuation bytes the lead byte of an escaped character asks for. -/
def owedAfter (b : UInt8) : Option Nat :=
  if 0xc0 ≤ b ∧ b < 0xe0 then some 1
  else if 0xe0 ≤ b ∧ b < 0xf0 then some 2
  else if 0xf0 ≤ b ∧ b < 0xf8 then some 3
  else none

/-- The character a byte sequence is the UTF-8 encoding of. -/
def decodeOctets (octets : Bytes) : Option Char :=
  match utf8Decode octets with
  | [c] => if String.utf8EncodeChar c = octets then some c else none
  | _ => none

/-- The state is the octets of the character being read and how many are owed. -/
def decodeURIFrom : Option (Bytes × Nat) → JsString → Option JsString
  | none, [] => some []
  | some _, [] => none
  | st, u :: s =>
    if u = 0x25 then
      match s with
      | h :: l :: s =>
        -- a unit above 0xff is no hex digit
        if 0xff < h ∨ 0xff < l then none
        else
        (hexPair h.toUInt8 l.toUInt8).bind fun b =>
          match st with
          | none =>
            if b < 0x80 then (decodeURIFrom none s).map (b.toUInt16 :: ·)
            else (owedAfter b).bind fun n => decodeURIFrom (some ([b], n)) s
          | some (octets, n) =>
            if 0x80 ≤ b ∧ b < 0xc0 then
              if n ≤ 1 then
                (decodeOctets (octets ++ [b])).bind fun c =>
                  (decodeURIFrom none s).map (codePointUnits c.toNat ++ ·)
              else decodeURIFrom (some (octets ++ [b], n - 1)) s
            else none
      | _ => none
    else
      match st with
      | none => (decodeURIFrom none s).map (u :: ·)
      | some _ => none

/-- ECMAScript's `decodeURIComponent`; `none` is its `URIError`. -/
def decodeURIComponent (s : JsString) : Option JsString := decodeURIFrom none s

theorem toUInt16_ne_percent {b : UInt8} (h : b ≠ 0x25) : b.toUInt16 ≠ 0x25 := by
  intro he
  apply h
  have := congrArg UInt16.toUInt8 he
  simpa using this

theorem decodeURIFrom_cons {b : UInt8} (h : b ≠ 0x25) (s : JsString) :
    decodeURIFrom none (b.toUInt16 :: s) = (decodeURIFrom none s).map (b.toUInt16 :: ·) := by
  rw [decodeURIFrom.eq_def]
  exact if_neg (toUInt16_ne_percent h)

theorem toUInt16_le (b : UInt8) : ¬ (0xff : UInt16) < b.toUInt16 := by
  have := b.toNat_lt
  simp only [UInt16.lt_iff_toNat_lt, UInt8.toNat_toUInt16, UInt16.reduceToNat]
  omega

/-- One escaped byte, between characters or inside one. -/
theorem decodeURIFrom_percentByte (st : Option (Bytes × Nat)) (b : UInt8) (s : JsString) :
    decodeURIFrom st (latin1Decode (percentByte b) ++ s) =
      match st with
      | none =>
        if b < 0x80 then (decodeURIFrom none s).map (b.toUInt16 :: ·)
        else (owedAfter b).bind fun n => decodeURIFrom (some ([b], n)) s
      | some (octets, n) =>
        if 0x80 ≤ b ∧ b < 0xc0 then
          if n ≤ 1 then
            (decodeOctets (octets ++ [b])).bind fun c =>
              (decodeURIFrom none s).map (codePointUnits c.toNat ++ ·)
          else decodeURIFrom (some (octets ++ [b], n - 1)) s
        else none := by
  have hpct : (0x25 : UInt8).toUInt16 = 0x25 := rfl
  cases st <;>
    simp only [percentByte, latin1Decode, List.map_cons, List.map_nil, List.cons_append,
      List.nil_append, decodeURIFrom, hpct, if_true, toUInt16_le, or_self, if_false,
      UInt8.toUInt8_toUInt16, hexPair_hexDigit, Option.bind_some]

theorem owedAfter_lead {b : UInt8} {n : Nat} (h : Utf8.IsLead b n) :
    owedAfter b = some n ∧ ¬b < 0x80 ∧ 1 ≤ n := by
  simp only [owedAfter, UInt8.le_iff_toNat_le, UInt8.lt_iff_toNat_lt, UInt8.reduceToNat]
  rcases h with ⟨h1, h2, rfl⟩ | ⟨h1, h2, rfl⟩ | ⟨h1, h2, rfl⟩
  · rw [if_pos (by omega)]
    exact ⟨rfl, by omega, by omega⟩
  · rw [if_neg (by omega), if_pos (by omega)]
    exact ⟨rfl, by omega, by omega⟩
  · rw [if_neg (by omega), if_neg (by omega), if_pos (by omega)]
    exact ⟨rfl, by omega, by omega⟩

theorem decodeOctets_encode (c : Char) : decodeOctets (String.utf8EncodeChar c) = some c := by
  have h := utf8Decode_encode [c]
  rw [utf8Encode, List.flatMap_cons, List.flatMap_nil, List.append_nil] at h
  simp [decodeOctets, h]

/-- The continuation bytes a character still owes, each escaped. -/
theorem decodeURIFrom_continuations (bs : Bytes) (s : JsString) :
    ∀ octets : Bytes, bs ≠ [] → (∀ b ∈ bs, Utf8.IsContinuation b) →
      decodeURIFrom (some (octets, bs.length)) (latin1Decode (bs.flatMap percentByte) ++ s) =
        (decodeOctets (octets ++ bs)).bind fun c =>
          (decodeURIFrom none s).map (codePointUnits c.toNat ++ ·) := by
  induction bs with
  | nil => intro _ h; exact absurd rfl h
  | cons b bs ih =>
    intro octets _ hc
    have hb : 0x80 ≤ b ∧ b < 0xc0 := hc b (by simp)
    rw [List.flatMap_cons, latin1Decode_append, List.append_assoc, decodeURIFrom_percentByte]
    simp only [if_pos hb]
    cases bs with
    | nil => simp [latin1Decode]
    | cons b' bs =>
      have hn : ¬(b :: b' :: bs).length ≤ 1 := by simp
      rw [if_neg hn, List.append_cons octets b (b' :: bs)]
      exact ih (octets ++ [b]) (by simp) fun x hx => hc x (List.mem_cons_of_mem _ hx)

/-- A character whose bytes are escaped, or kept where they are ASCII, is read as itself. -/
theorem decodeURIFrom_encodeChar (hk : ∀ b, keep b = true → b < 0x80 ∧ b ≠ 0x25) (c : Char)
    (s : JsString) :
    decodeURIFrom none (latin1Decode (percentEncode keep (String.utf8EncodeChar c)) ++ s) =
      (decodeURIFrom none s).map (codePointUnits c.toNat ++ ·) := by
  have hself := decodeOctets_encode c
  rcases Utf8.encodeChar_shape c with ⟨hc, he⟩ | ⟨b, bs, he, hlead, hcont⟩
  · have hn : (UInt8.ofNat c.toNat).toNat = c.toNat := Utf8.toNat_ofNat_lt (by omega)
    have hlt : UInt8.ofNat c.toNat < 0x80 := by rw [UInt8.lt_iff_toNat_lt, hn]; exact hc
    have hu := codePointUnits_ascii hlt
    rw [hn, Char.ofNat_toNat] at hu
    rw [he, hu, percentEncode_cons, percentEncode_nil, List.append_nil]
    split
    · rename_i hkeep
      exact decodeURIFrom_cons (hk _ hkeep).2 s
    · rw [decodeURIFrom_percentByte]
      simp only [hlt, if_true]
      rfl
  · obtain ⟨howed, hhigh, hpos⟩ := owedAfter_lead hlead
    have hout : ∀ x, ¬x < 0x80 → keep x = false := by
      intro x hx
      by_contra hkx
      exact hx (hk x (by simpa using hkx)).1
    have hall : percentEncode keep (b :: bs) = percentByte b ++ bs.flatMap percentByte := by
      have hmap : ∀ xs : Bytes, (∀ x ∈ xs, Utf8.IsContinuation x) →
          percentEncode keep xs = xs.flatMap percentByte := by
        intro xs hxs
        refine List.flatMap_congr fun x hx => ?_
        rw [hout x (UInt8.not_lt.mpr (hxs x hx).1)]
        rfl
      rw [percentEncode_cons, hout b hhigh, hmap bs hcont]
      rfl
    have hne : bs ≠ [] := by rintro rfl; simp at hpos
    rw [he, hall, latin1Decode_append, List.append_assoc, decodeURIFrom_percentByte]
    simp only [if_neg hhigh, howed, Option.bind_some]
    rw [decodeURIFrom_continuations bs s [b] hne hcont, List.singleton_append, ← he, hself,
      Option.bind_some]

/-- `decodeURIComponent` undoes an encoding that escapes everything outside ASCII, and `%`. -/
theorem decodeURIComponent_percentEncode (hk : ∀ b, keep b = true → b < 0x80 ∧ b ≠ 0x25)
    (cs : List Char) :
    decodeURIComponent (latin1Decode (percentEncode keep (utf8Encode cs))) = some (utf16 cs) := by
  unfold decodeURIComponent
  induction cs with
  | nil => simp [latin1Decode, decodeURIFrom]
  | cons c cs ih =>
    rw [utf8Encode_cons, percentEncode_append, latin1Decode_append, decodeURIFrom_encodeChar hk, ih]
    rfl

end Lib
