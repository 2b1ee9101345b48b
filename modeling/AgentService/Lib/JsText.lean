import AgentService.Lib.Decimal
import AgentService.Lib.JsString
import Mathlib.Data.List.DropRight

/-!
# Lines, words and numbers in a JavaScript string

`trim`, `split(/\r?\n/)`, `split(/\s+/)` and `BigInt`. A text that was put together from lines, or a
line from words, is cut into them again, and the decimal text of an integer is read as it.
-/

namespace Lib

/-- `\s`: the white space and line terminators of the language. -/
def isSpaceUnit (u : UInt16) : Bool :=
  (0x09 ≤ u && u ≤ 0x0d) || u == 0x20 || u == 0xa0 || u == 0x1680 || (0x2000 ≤ u && u ≤ 0x200a) ||
    u == 0x2028 || u == 0x2029 || u == 0x202f || u == 0x205f || u == 0x3000 || u == 0xfeff

def trim (s : JsString) : JsString := (s.dropWhile isSpaceUnit).rdropWhile isSpaceUnit

/-- `split(/\r?\n/)` -/
def splitLines : JsString → List JsString
  | [] => [[]]
  | [c] => if c = 0x0a then [[], []] else [[c]]
  | c :: d :: s =>
    if c = 0x0a then [] :: splitLines (d :: s)
    else if c = 0x0d ∧ d = 0x0a then [] :: splitLines s
    else (splitLines (d :: s)).modifyHead (c :: ·)

/-- The words from inside a run of white space, or from outside of one. -/
def splitSpacesFrom (inRun : Bool) : JsString → List JsString
  | [] => [[]]
  | c :: s =>
    if isSpaceUnit c = true then if inRun then splitSpacesFrom true s
    else [] :: splitSpacesFrom true s
    else (splitSpacesFrom false s).modifyHead (c :: ·)

/-- `split(/\s+/)` -/
def splitSpaces (s : JsString) : List JsString := splitSpacesFrom false s

/-- A word: not empty, and no white space in it. -/
structure IsWord (s : JsString) : Prop where
  nonempty : s ≠ []
  noSpace : ∀ u ∈ s, isSpaceUnit u = false

instance (s : JsString) : Decidable (IsWord s) :=
  decidable_of_iff (s ≠ [] ∧ s.all (fun u => !isSpaceUnit u) = true) (by
    rw [List.all_eq_true]
    simp only [Bool.not_eq_true']
    exact ⟨fun h => ⟨h.1, h.2⟩, fun h => ⟨h.nonempty, h.noSpace⟩⟩)

namespace IsWord

variable {s t : JsString}

theorem append (hs : IsWord s) (ht : ∀ u ∈ t, isSpaceUnit u = false) : IsWord (s ++ t) := by
  constructor
  · exact List.append_ne_nil_of_left_ne_nil hs.nonempty t
  · intro u hu
    rcases List.mem_append.mp hu with hu | hu
    · exact hs.noSpace u hu
    · exact ht u hu

theorem notMem_space (hs : IsWord s) : (0x20 : UInt16) ∉ s := by
  intro h
  have := hs.noSpace _ h
  revert this
  decide

end IsWord

/-- Nothing is trimmed off a text between two words. -/
theorem trim_between {s t : JsString} (mid : JsString) (hs : IsWord s) (ht : IsWord t) :
    trim (s ++ (mid ++ t)) = s ++ (mid ++ t) := by
  obtain ⟨c, s, rfl⟩ := List.exists_cons_of_ne_nil hs.nonempty
  have hc : ¬ isSpaceUnit c = true := by
    rw [hs.noSpace c List.mem_cons_self]
    exact Bool.false_ne_true
  rw [trim, List.cons_append, List.dropWhile_cons_of_neg hc, List.rdropWhile_eq_self_iff]
  intro hne hlast
  have hend : (c :: (s ++ (mid ++ t))).getLast hne = t.getLast ht.nonempty := by
    rw [List.getLast_congr hne (List.append_ne_nil_of_right_ne_nil (c :: s ++ mid) ht.nonempty)
      (by simp), List.getLast_append_of_ne_nil _ ht.nonempty]
  rw [hend, ht.noSpace _ (List.getLast_mem ht.nonempty)] at hlast
  cases hlast

/-! ## Lines -/

theorem splitLines_cons {c : UInt16} (hlf : c ≠ 0x0a) (hcr : c ≠ 0x0d) (s : JsString) :
    splitLines (c :: s) = (splitLines s).modifyHead (c :: ·) := by
  cases s with
  | nil => simp [splitLines, hlf]
  | cons d s => rw [splitLines, if_neg hlf, if_neg fun h => hcr h.1]

/-- A line and its end, in front of the others. -/
theorem splitLines_append {l : JsString} (h : ∀ u ∈ l, u ≠ 0x0a ∧ u ≠ 0x0d) (s : JsString) :
    splitLines (l ++ 0x0a :: s) = l :: splitLines s := by
  induction l with
  | nil =>
    cases s with
    | nil => rfl
    | cons d s => rw [List.nil_append, splitLines, if_pos rfl]
  | cons c l ih =>
    have hc := h c List.mem_cons_self
    rw [List.cons_append, splitLines_cons hc.1 hc.2, ih fun u hu => h u (List.mem_cons_of_mem c hu)]
    rfl

theorem splitLines_flatMap {ls : List JsString} (h : ∀ l ∈ ls, ∀ u ∈ l, u ≠ 0x0a ∧ u ≠ 0x0d)
    (s : JsString) : splitLines (ls.flatMap (· ++ [0x0a]) ++ s) = ls ++ splitLines s := by
  induction ls with
  | nil => rfl
  | cons l ls ih =>
    rw [List.flatMap_cons, List.append_assoc, List.append_assoc, List.singleton_append,
      splitLines_append (h l List.mem_cons_self), ih fun l' hl' =>
        h l' (List.mem_cons_of_mem l hl')]
    rfl

/-! ## Words -/

/-- A word is no line end. -/
theorem IsWord.noLineEnd {s : JsString} (hs : IsWord s) : ∀ u ∈ s, u ≠ 0x0a ∧ u ≠ 0x0d := by
  intro u hu
  have hspace := hs.noSpace u hu
  constructor
  · rintro rfl
    exact absurd hspace (by decide)
  · rintro rfl
    exact absurd hspace (by decide)

theorem splitSpacesFrom_append {w : JsString} (h : ∀ u ∈ w, isSpaceUnit u = false) (s : JsString) :
    splitSpacesFrom false (w ++ 0x20 :: s) = w :: splitSpacesFrom true s := by
  induction w with
  | nil => rfl
  | cons c w ih =>
    have hc : ¬ isSpaceUnit c = true := by
      rw [h c List.mem_cons_self]
      exact Bool.false_ne_true
    rw [List.cons_append, splitSpacesFrom, if_neg hc, ih fun u hu =>
      h u (List.mem_cons_of_mem c hu)]
    rfl

theorem splitSpacesFrom_word (b : Bool) {w : JsString} (hw : IsWord w) (s : JsString) :
    splitSpacesFrom b (w ++ s) = splitSpacesFrom false (w ++ s) := by
  obtain ⟨c, w, rfl⟩ := List.exists_cons_of_ne_nil hw.nonempty
  have hc : ¬ isSpaceUnit c = true := by
    rw [hw.noSpace c List.mem_cons_self]
    exact Bool.false_ne_true
  rw [List.cons_append, splitSpacesFrom, if_neg hc, splitSpacesFrom, if_neg hc]

theorem splitSpaces_word {w : JsString} (hw : IsWord w) : splitSpaces w = [w] := by
  have h : ∀ v : JsString, (∀ u ∈ v, isSpaceUnit u = false) → splitSpacesFrom false v = [v] := by
    intro v hv
    induction v with
    | nil => rfl
    | cons c v ih =>
      have hc : ¬ isSpaceUnit c = true := by
        rw [hv c List.mem_cons_self]
        exact Bool.false_ne_true
      rw [splitSpacesFrom, if_neg hc, ih fun u hu => hv u (List.mem_cons_of_mem c hu)]
      rfl
  exact h w hw.noSpace

/-- A word and a space, in front of another word. -/
theorem splitSpaces_cons {w v : JsString} (hw : IsWord w) (hv : IsWord v) (s : JsString) :
    splitSpaces (w ++ 0x20 :: (v ++ s)) = w :: splitSpaces (v ++ s) := by
  rw [splitSpaces, splitSpacesFrom_append hw.noSpace, splitSpacesFrom_word true hv s, splitSpaces]

/-- Three words of a line. -/
theorem splitSpaces_three {a b c : JsString} (ha : IsWord a) (hb : IsWord b) (hc : IsWord c) :
    splitSpaces (a ++ 0x20 :: (b ++ 0x20 :: c)) = [a, b, c] := by
  rw [splitSpaces_cons ha hb, ← List.append_nil c, splitSpaces_cons hb hc, List.append_nil,
    splitSpaces_word hc]

/-! ## `BigInt` of a string -/

/-- A digit of a number in this base. -/
def digitIn (base : Nat) (u : UInt16) : Option Nat :=
  let n :=
    if 0x30 ≤ u ∧ u ≤ 0x39 then u.toNat - 0x30
    else if 0x61 ≤ u ∧ u ≤ 0x7a then u.toNat - 0x57
    else if 0x41 ≤ u ∧ u ≤ 0x5a then u.toNat - 0x37
    else base
  if n < base then some n else none

/-- One or more digits, behind what is read already. -/
def digitsFrom (base : Nat) (v : Nat) : JsString → Option Nat
  | [] => some v
  | u :: s => (digitIn base u).bind fun d => digitsFrom base (v * base + d) s

def digitsIn (base : Nat) (s : JsString) : Option Nat :=
  if s = [] then none else digitsFrom base 0 s

/-- `BigInt` of a string: nothing is 0, a sign stands before decimal digits only;
`none` for a `SyntaxError`. -/
def bigIntOfText (s : JsString) : Option Int :=
  match trim s with
  | [] => some 0
  | u :: t =>
    if u = 0x2b then (digitsIn 10 t).map (↑·)
    else if u = 0x2d then (digitsIn 10 t).map fun n => -↑n
    else
      let base := if u = 0x30 then
          match t.head? with
          | some x =>
            if x = 0x78 ∨ x = 0x58 then 16
            else if x = 0x6f ∨ x = 0x4f then 8
            else if x = 0x62 ∨ x = 0x42 then 2
            else 10
          | none => 10
        else 10
      (if base = 10 then digitsIn 10 (u :: t) else digitsIn base t.tail).map (↑·)

theorem digitIn_digit {b : UInt8} (h : IsDigitByte b) :
    digitIn 10 b.toUInt16 = some (digitValue b) := by
  have hall := List.all_eq_true.mp (show ((List.range 10).all fun n =>
    decide (digitIn 10 (UInt8.ofNat (0x30 + n)).toUInt16 =
        some (digitValue (UInt8.ofNat (0x30 + n))))) = true by
      decide +kernel) (b.toNat - 0x30) (by
      have := isDigitByte_iff.mp h
      exact List.mem_range.mpr (by omega))
  have hb : UInt8.ofNat (0x30 + (b.toNat - 0x30)) = b := by
    have := isDigitByte_iff.mp h
    rw [Nat.add_sub_cancel' this.1]
    exact UInt8.ofNat_toNat
  rw [hb] at hall
  exact of_decide_eq_true hall

theorem digitsFrom_decimal {s : Bytes} (h : ∀ b ∈ s, IsDigitByte b) : ∀ v : Nat,
    digitsFrom 10 v (latin1Decode s) = some (v * 10 ^ s.length + readDecimal s) := by
  induction s with
  | nil => simp [digitsFrom, latin1Decode]
  | cons b s ih =>
    intro v
    have hb := digitIn_digit (h b List.mem_cons_self)
    have hs := ih (fun b hb => h b (List.mem_cons_of_mem _ hb)) (v * 10 + digitValue b)
    rw [latin1Decode, List.map_cons, digitsFrom, hb, Option.bind_some]
    rw [latin1Decode] at hs
    rw [hs, readDecimal_cons, List.length_cons]
    congr 1
    ring

theorem digitsIn_digits {s : Bytes} (hne : s ≠ []) (h : ∀ b ∈ s, IsDigitByte b) :
    digitsIn 10 (latin1Decode s) = some (readDecimal s) := by
  have hunits : latin1Decode s ≠ [] := by simpa [latin1Decode] using hne
  rw [digitsIn, if_neg hunits, digitsFrom_decimal h, Nat.zero_mul, Nat.zero_add]

/-- No digit is white space. -/
theorem isWord_digits {s : Bytes} (hne : s ≠ []) (h : ∀ b ∈ s, IsDigitByte b) :
    IsWord (latin1Decode s) where
  nonempty := by simpa [latin1Decode] using hne
  noSpace := by
    intro u hu
    obtain ⟨b, hb, rfl⟩ := List.mem_map.mp hu
    have hdigit := isDigitByte_iff.mp (h b hb)
    have hall := List.all_eq_true.mp (show ((List.range 10).all fun n =>
      !isSpaceUnit (UInt8.ofNat (0x30 + n)).toUInt16) = true
      by decide +kernel) (b.toNat - 0x30) (List.mem_range.mpr (by omega))
    have hb : UInt8.ofNat (0x30 + (b.toNat - 0x30)) = b := by
      rw [Nat.add_sub_cancel' hdigit.1]
      exact UInt8.ofNat_toNat
    rw [hb] at hall
    simpa using hall

/-- Nor is a sign. -/
theorem isWord_signed {u : UInt16} (hu : isSpaceUnit u = false) {s : Bytes}
    (h : ∀ b ∈ s, IsDigitByte b) : IsWord (u :: latin1Decode s) := by
  constructor
  · exact List.cons_ne_nil u (latin1Decode s)
  · intro v hv
    rcases List.mem_cons.mp hv with rfl | hv
    · exact hu
    · exact (isWord_digits (by rintro rfl; cases hv) h).noSpace v hv

theorem trim_word {s : JsString} (h : IsWord s) : trim s = s := by
  unfold trim
  rw [List.dropWhile_eq_self_iff.mpr ?_, List.rdropWhile_eq_self_iff.mpr ?_]
  · intro hne
    simp [h.noSpace _ (List.getLast_mem hne)]
  · intro hlen
    simp [h.noSpace _ (List.getElem_mem hlen)]

/-- Digits are read as the number they write, leading zeros or none. -/
theorem bigIntOfText_digits {s : Bytes} (hne : s ≠ []) (h : ∀ b ∈ s, IsDigitByte b) :
    bigIntOfText (latin1Decode s) = some (readDecimal s : Int) := by
  have hdigits := digitsIn_digits hne h
  rw [bigIntOfText, trim_word (isWord_digits hne h)]
  cases s with
  | nil => exact absurd rfl hne
  | cons b s =>
    have hdigit {b' : UInt8} (hb' : b' ∈ b :: s) {c : UInt16}
        (hc : c.toNat < 0x30 ∨ 0x39 < c.toNat) : b'.toUInt16 ≠ c := by
      have hb := isDigitByte_iff.mp (h b' hb')
      have hunit : b'.toUInt16.toNat = b'.toNat := UInt8.toNat_toUInt16 b'
      rintro rfl
      omega
    -- after a leading zero no letter names a base
    have hbase : (match (latin1Decode s).head? with
        | some x => if x = 0x78 ∨ x = 0x58 then 16 else if x = 0x6f ∨ x = 0x4f then 8
            else if x = 0x62 ∨ x = 0x42 then 2 else 10
        | none => 10) = 10 := by
      cases s with
      | nil => rfl
      | cons d s =>
        have hd : d ∈ b :: d :: s := by simp
        simp [latin1Decode, hdigit hd]
    rw [latin1Decode, List.map_cons]
    dsimp only
    rw [if_neg (hdigit List.mem_cons_self (by decide)),
      if_neg (hdigit List.mem_cons_self (by decide))]
    rw [latin1Decode] at hbase
    rw [latin1Decode, List.map_cons] at hdigits
    rw [hbase, ite_self, if_pos rfl, hdigits]
    rfl

theorem bigIntOfText_minus {s : Bytes} (hne : s ≠ []) (h : ∀ b ∈ s, IsDigitByte b) :
    bigIntOfText (0x2d :: latin1Decode s) = some (-(readDecimal s : Int)) := by
  rw [bigIntOfText, trim_word (isWord_signed (by decide) h)]
  dsimp only
  rw [if_neg (by decide), if_pos rfl, digitsIn_digits hne h]
  rfl

theorem bigIntOfText_plus {s : Bytes} (hne : s ≠ []) (h : ∀ b ∈ s, IsDigitByte b) :
    bigIntOfText (0x2b :: latin1Decode s) = some (readDecimal s : Int) := by
  rw [bigIntOfText, trim_word (isWord_signed (by decide) h)]
  dsimp only
  rw [if_pos rfl, digitsIn_digits hne h]
  rfl

/-- The text of an integer is read as it, at any size. -/
theorem bigIntOfText_integer (v : Int) :
    bigIntOfText ((if v < 0 then js "-" else []) ++ latin1Decode (decimal v.natAbs)) = some v := by
  have hne := decimal_ne_nil v.natAbs
  have hdigits := decimal_digits v.natAbs
  split
  · have hread := bigIntOfText_minus hne hdigits
    rw [readDecimal_decimal] at hread
    exact hread.trans (congrArg some (by omega))
  · have hread := bigIntOfText_digits hne hdigits
    rw [readDecimal_decimal] at hread
    exact hread.trans (congrArg some (by omega))

end Lib
