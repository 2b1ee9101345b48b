import AgentService.Gateway.Json

/-!
# The grammar of JSON texts

RFC 8259 over bytes, with the tree each text stands for. A string's text is read off its
bytes piece by piece: a well-formed UTF-8 sequence is its character, any other byte above
0x7f is U+FFFD, a pair of surrogate escapes is one character and any other surrogate escape
is U+FFFD. Containers are written without left recursion: `ArrayRest` and `ObjectRest` are
what stands behind an element, up to the closing bracket. The first argument of `ValueText`
bounds how deep containers may nest.
-/

namespace AgentService
open Lib

/-- Insignificant whitespace: space, tab, line feed, carriage return. -/
def Ws (s : Bytes) : Prop := ∀ b ∈ s, b = 0x20 ∨ b = 0x09 ∨ b = 0x0a ∨ b = 0x0d

def Digits (s : Bytes) : Prop := s ≠ [] ∧ ∀ b ∈ s, 0x30 ≤ b ∧ b ≤ 0x39

/-- No leading zero, unless it is the only digit. -/
inductive IntText : Bytes → Prop
  | zero : IntText [0x30]
  | digits {s} (h : Digits s) (hz : s.head? ≠ some 0x30) : IntText s

inductive FracText : Bytes → Prop
  | none : FracText []
  | digits {s} (h : Digits s) : FracText (0x2e :: s)

inductive ExpText : Bytes → Prop
  | none : ExpText []
  | digits {e sign s} (he : e = 0x65 ∨ e = 0x45) (hsign : sign = [] ∨ sign = [0x2b] ∨ sign = [0x2d])
      (h : Digits s) : ExpText (e :: sign ++ s)

inductive NumberText : Bytes → Prop
  | mk {minus int frac exp} (hm : minus = [] ∨ minus = [0x2d]) (hi : IntText int)
      (hf : FracText frac) (he : ExpText exp) : NumberText (minus ++ int ++ frac ++ exp)

/-- Four hex digits, and the number they write. -/
inductive HexText : Bytes → Nat → Prop
  | mk {a b c d x y z w} (ha : hexValue a = some x) (hb : hexValue b = some y)
      (hc : hexValue c = some z) (hd : hexValue d = some w) :
      HexText [a, b, c, d] (((x * 16 + y) * 16 + z) * 16 + w)

/-- The eight short escapes: the letter behind the backslash, and its character. -/
def shortEscapes : List (UInt8 × UInt16) :=
  [(0x22, 0x22), (0x5c, 0x5c), (0x2f, 0x2f), (0x62, 0x08), (0x66, 0x0c), (0x6e, 0x0a), (0x72, 0x0d),
    (0x74, 0x09)]

def IsHigh (n : Nat) : Prop := 0xd800 ≤ n ∧ n < 0xdc00

def IsLow (n : Nat) : Prop := 0xdc00 ≤ n ∧ n < 0xe000

/-- A well-formed UTF-8 sequence stands at the front. -/
def StartsWellFormed (s : Bytes) : Prop := ∃ c t, s = String.utf8EncodeChar c ++ t

/-- The escape of a low surrogate stands at the front. -/
def StartsLow (s : Bytes) : Prop :=
  ∃ hex n t, s = 0x5c :: 0x75 :: hex ++ t ∧ HexText hex n ∧ IsLow n

/-- What may stand between quotes, and the text it stands for. -/
inductive StringText : Bytes → JsString → Prop
  | nil : StringText [] []
  | char {s v} (c : Char) (hc : 0x20 ≤ c.toNat) (hq : c.toNat ≠ 0x22) (hb : c.toNat ≠ 0x5c)
      (h : StringText s v) : StringText (String.utf8EncodeChar c ++ s) (codePointUnits c.toNat ++ v)
  | stray {b s v} (hb : 0x80 ≤ b) (hs : ¬ StartsWellFormed (b :: s)) (h : StringText s v) :
      StringText (b :: s) (0xfffd :: v)
  | short {e u s v} (he : (e, u) ∈ shortEscapes) (h : StringText s v) :
      StringText (0x5c :: e :: s) (u :: v)
  | unicode {hex n s v} (hx : HexText hex n) (hn : ¬ IsHigh n ∧ ¬ IsLow n) (h : StringText s v) :
      StringText (0x5c :: 0x75 :: hex ++ s) (codePointUnits n ++ v)
  | pair {hex hex' hi lo s v} (hx : HexText hex hi) (hhi : IsHigh hi) (hx' : HexText hex' lo)
      (hlo : IsLow lo) (h : StringText s v) :
      StringText (0x5c :: 0x75 :: hex ++ 0x5c :: 0x75 :: hex' ++ s)
        (codePointUnits (pairCodePoint hi lo) ++ v)
  | lone {hex n s v} (hx : HexText hex n) (hn : IsHigh n ∧ ¬ StartsLow s ∨ IsLow n)
      (h : StringText s v) :
      StringText (0x5c :: 0x75 :: hex ++ s) (0xfffd :: v)

/-- No escape, and no byte above 0x7f. -/
def IsPlainText (s : Bytes) : Bool := s.all fun b => b < 0x80 && b != 0x5c

/-- A member's name with the colon behind it. -/
inductive KeyText : Bytes → JsString → Prop
  | mk {w s w' k} (hw : Ws w) (h : StringText s k) (hw' : Ws w') :
      KeyText (w ++ 0x22 :: s ++ 0x22 :: w' ++ [0x3a]) k

mutual

inductive ValueText : Nat → Bytes → JsonNode → Prop
  | null {d} : ValueText d [0x6e, 0x75, 0x6c, 0x6c] .null
  | true {d} : ValueText d [0x74, 0x72, 0x75, 0x65] (.bool true)
  | false {d} : ValueText d [0x66, 0x61, 0x6c, 0x73, 0x65] (.bool false)
  | number {d s} (h : NumberText s) : ValueText d s (.num (latin1Decode s))
  | string {d s v} (h : StringText s v) : ValueText d (0x22 :: s ++ [0x22]) (.str v (IsPlainText s))
  | emptyArray {d w} (hw : Ws w) : ValueText (d + 1) (0x5b :: w ++ [0x5d]) (.arr [])
  | array {d w s v t vs} (hw : Ws w) (hv : ValueText d s v) (ht : ArrayRest d t vs) :
      ValueText (d + 1) (0x5b :: w ++ s ++ t) (.arr (v :: vs))
  | emptyObject {d w} (hw : Ws w) : ValueText (d + 1) (0x7b :: w ++ [0x7d]) (.obj [])
  | object {d k key w s v t ms} (hk : KeyText k key) (hw : Ws w) (hv : ValueText d s v)
      (ht : ObjectRest d t ms) :
      ValueText (d + 1) (0x7b :: k ++ w ++ s ++ t) (.obj ((key, v) :: ms))

inductive ArrayRest : Nat → Bytes → List JsonNode → Prop
  | close {d w} (hw : Ws w) : ArrayRest d (w ++ [0x5d]) []
  | item {d w w' s v t vs} (hw : Ws w) (hw' : Ws w') (hv : ValueText d s v)
      (ht : ArrayRest d t vs) :
      ArrayRest d (w ++ 0x2c :: w' ++ s ++ t) (v :: vs)

inductive ObjectRest : Nat → Bytes → List (JsString × JsonNode) → Prop
  | close {d w} (hw : Ws w) : ObjectRest d (w ++ [0x7d]) []
  | member {d w k key w' s v t ms} (hw : Ws w) (hk : KeyText k key) (hw' : Ws w')
      (hv : ValueText d s v) (ht : ObjectRest d t ms) :
      ObjectRest d (w ++ 0x2c :: k ++ w' ++ s ++ t) ((key, v) :: ms)

end

/-- A JSON text: one value with whitespace around it. -/
inductive JsonText : Nat → Bytes → JsonNode → Prop
  | mk {d w s v w'} (hw : Ws w) (h : ValueText d s v) (hw' : Ws w') : JsonText d (w ++ s ++ w') v

end AgentService
