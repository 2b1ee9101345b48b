import AgentService.Lib.Except
import AgentService.Lib.Loop
import AgentService.Lib.Percent

/-!
# The JSON reader (`src/gateway/json.ts`)

The source walks one index through a buffer; here every function takes what is left of the
buffer from that index on and returns what it leaves. Its two loops that do more than skip
bytes, over a string with escapes and over the values of a document, are `Loop`s whose rank
is the number of bytes left: reading ends on every input.

An exception is a `Thrown`: the reader's own `JsonSyntaxError`, or the `RangeError` of
`String.fromCodePoint`.
-/

namespace AgentService
open Lib

structure JsonSyntaxError where
  message : JsString
  /-- The input ended where more was needed. -/
  eof : Bool
  deriving DecidableEq, Repr

inductive Thrown where
  | syntaxError (e : JsonSyntaxError)
  | rangeError
  deriving DecidableEq, Repr

inductive JsonNode where
  | null
  | bool (v : Bool)
  | num (raw : JsString)
  | str (v : JsString) (plain : Bool)
  | arr (items : List JsonNode)
  | obj (members : List (JsString × JsonNode))
  deriving Repr

/-- encoding/json's maxNestingDepth. -/
def MAX_DEPTH : Nat := 10000

/-- `b.toString(16)` -/
def hexText (b : UInt8) : JsString :=
  let digit (n : Nat) : UInt16 := UInt16.ofNat (if n < 10 then 0x30 + n else 0x57 + n)
  if b < 0x10 then [digit b.toNat] else [digit (b.toNat / 16), digit (b.toNat % 16)]

/-- `fail`, at what is left. -/
def fail {α : Type} (what : String) : Bytes → Except Thrown α
  | [] => .error (.syntaxError ⟨js "unexpected end of JSON input", true⟩)
  | c :: _ =>
    .error (.syntaxError ⟨js "invalid character 0x" ++ hexText c ++ js " " ++ js what, false⟩)

@[simp] theorem fail_ne_ok {α : Type} {what : String} {s : Bytes} {a : α} :
    fail what s ≠ .ok a := by
  cases s <;> simp [fail]

def isWs (c : UInt8) : Bool := c == 0x20 || c == 0x09 || c == 0x0a || c == 0x0d

def isDigit (c : UInt8) : Bool := 0x30 ≤ c && c ≤ 0x39

/-- `ws` -/
def skipWs (s : Bytes) : Bytes := s.dropWhile isWs

/-- `cont`: the next byte stands between the bounds. -/
def cont (s : Bytes) (k : Nat) (lo hi : UInt8) : Bool :=
  (s.drop k).head?.any fun x => lo ≤ x && x ≤ hi

/-- `validLength`: the length of the well-formed UTF-8 sequence at the front, 0 where none is. -/
def validLength (s : Bytes) : Nat :=
  match s with
  | [] => 0
  | b0 :: _ =>
    if b0 < 0x80 then 1
    else if 0xc2 ≤ b0 ∧ b0 ≤ 0xdf then if cont s 1 0x80 0xbf then 2 else 0
    else if 0xe0 ≤ b0 ∧ b0 ≤ 0xef then
      if cont s 1 (if b0 = 0xe0 then 0xa0 else 0x80) (if b0 = 0xed then 0x9f else 0xbf) &&
        cont s 2 0x80 0xbf
      then 3 else 0
    else if 0xf0 ≤ b0 ∧ b0 ≤ 0xf4 then
      if cont s 1 (if b0 = 0xf0 then 0x90 else 0x80) (if b0 = 0xf4 then 0x8f else 0xbf) &&
        cont s 2 0x80 0xbf && cont s 3 0x80 0xbf
      then 4 else 0
    else 0

/-- `ESCAPES` -/
def escapes (e : UInt8) : Option UInt16 :=
  if e = 0x22 then some 0x22 else if e = 0x5c then some 0x5c else if e = 0x2f then some 0x2f
  else if e = 0x62 then some 0x08 else if e = 0x66 then some 0x0c else if e = 0x6e then some 0x0a
  else if e = 0x72 then some 0x0d else if e = 0x74 then some 0x09 else none

/-- The loop of `hex4`, with `k` digits still to read. -/
def hexLoop : (k : Nat) → (v : Nat) → Bytes → Except Thrown Nat
  | 0, v, _ => .ok v
  | _ + 1, _, [] => fail "in \\u hexadecimal character escape" []
  | k + 1, v, c :: s =>
    match hexValue c with
    | some d => hexLoop k (v * 16 + d) s
    | none => fail "in \\u hexadecimal character escape" (c :: s)

def hex4 (s : Bytes) : Except Thrown Nat := hexLoop 4 0 s

/-- `String.fromCodePoint` -/
def fromCodePoint (cp : Nat) : Except Thrown JsString :=
  if cp ≤ 0x10ffff then .ok (codePointUnits cp) else .error .rangeError

/-- The slow path's variables: what has been read, the run of text not yet cut out, what is left. -/
structure StrState where
  parts : JsString
  run : Bytes
  rest : Bytes

/-- `flush` -/
def StrState.flush (s : StrState) : JsString := s.parts ++ utf8ToString s.run

/-- `lo`: the low surrogate that is escaped at the front, `none` where none is. -/
def lowEscape (cp : Nat) (s : Bytes) : Except Thrown (Option Nat) :=
  if cp < 0xdc00 ∧ s.head? = some 0x5c ∧ s.tail.head? = some 0x75 then do
    let lo ← hex4 (s.drop 2)
    return if 0xdc00 ≤ lo ∧ lo < 0xe000 then some lo else none
  else .ok none

/-- An escape `\u....` at the front: its text, and what follows it. -/
def unicodeEscape (s : Bytes) : Except Thrown (JsString × Bytes) := do
  let cp ← hex4 (s.drop 2)
  if 0xd800 ≤ cp ∧ cp < 0xe000 then
    match ← lowEscape cp (s.drop 6) with
    | some lo => return (← fromCodePoint (pairCodePoint cp lo), s.drop 12)
    | none => return (← fromCodePoint 0xfffd, s.drop 6)
  else return (← fromCodePoint cp, s.drop 6)

/-- One turn of the slow path. -/
def strTurn (s : StrState) (_ : Unit) : Turn StrState (Except Thrown (JsString × Bytes)) :=
  match s.rest with
  | [] => .done (fail "in string literal" [])
  | c :: rest =>
    if c = 0x22 then .done (.ok (s.flush, rest))
    else if c < 0x20 then .done (fail "in string literal" (c :: rest))
    else if c = 0x5c then
      match rest with
      | [] => .done (fail "in string escape code" [])
      | e :: rest' =>
        if e = 0x75 then
          match unicodeEscape (c :: rest) with
          | .error err => .done (.error err)
          | .ok (text, after) => .again ⟨s.flush ++ text, [], after⟩
        else
          match escapes e with
          | some u => .again ⟨s.flush ++ [u], [], rest'⟩
          | none => .done (fail "in string escape code" (e :: rest'))
    else if c < 0x80 then .again ⟨s.parts, s.run ++ [c], rest⟩
    else if 0 < validLength (c :: rest) then
      .again ⟨s.parts, s.run ++ (c :: rest).take (validLength (c :: rest)),
        (c :: rest).drop (validLength (c :: rest))⟩
    else .again ⟨s.flush ++ [0xfffd], [], rest⟩

/-- An escape takes six bytes, or twelve as a surrogate pair. -/
theorem unicodeEscape_rest {s after : Bytes} {text : JsString}
    (h : unicodeEscape s = .ok (text, after)) : after = s.drop 6 ∨ after = s.drop 12 := by
  unfold unicodeEscape at h
  obtain ⟨cp, -, h⟩ := bind_eq_ok.mp h
  split at h
  · obtain ⟨lo, -, h⟩ := bind_eq_ok.mp h
    split at h
    · obtain ⟨t, -, h⟩ := bind_eq_ok.mp h
      cases h
      exact .inr rfl
    · obtain ⟨t, -, h⟩ := bind_eq_ok.mp h
      cases h
      exact .inl rfl
  · obtain ⟨t, -, h⟩ := bind_eq_ok.mp h
    cases h
    exact .inl rfl

/-- Each turn of the loop over a string takes bytes. -/
theorem strTurn_rank {s s' : StrState} {a : Unit} (h : strTurn s a = .again s') :
    s'.rest.length < s.rest.length := by
  unfold strTurn at h
  split at h
  · cases h
  · rename_i c rest hrest
    rw [hrest]
    split_ifs at h with hquote hcontrol hbackslash hascii hvalid
    · split at h
      · cases h
      · rename_i e rest'
        split_ifs at h
        · split at h
          · cases h
          · rename_i text after hesc
            cases h
            rcases unicodeEscape_rest hesc with rfl | rfl
            · simp only [List.length_drop, List.length_cons]
              omega
            · simp only [List.length_drop, List.length_cons]
              omega
        · split at h
          · cases h
            simp only [List.length_cons]
            omega
          · cases h
    · cases h
      simp
    · cases h
      simp only [List.length_drop, List.length_cons]
      omega
    · cases h
      simp

/-- The slow path. -/
def strSlow : Loop StrState Unit (Except Thrown (JsString × Bytes)) where
  turn := strTurn
  rank s := s.rest.length
  rank_lt := strTurn_rank

/-- What the fast path walks over: printable ASCII but `"` and `\`. -/
def isFast (c : UInt8) : Bool := 0x20 ≤ c && c < 0x80 && c != 0x22 && c != 0x5c

/-- `str`, from the opening quote on: the text, whether it is `plain`, and what is left. -/
def str (s : Bytes) : Except Thrown (JsString × Bool × Bytes) :=
  let start := s.drop 1
  let run := start.takeWhile isFast
  match start.dropWhile isFast with
  | c :: rest =>
    if c = 0x22 then .ok (latin1Decode run, true, rest)
    else if c ≠ 0x5c ∧ c < 0x20 then fail "in string literal" (c :: rest)
    else do
      let (v, rest) ← strSlow.result ⟨[], run, c :: rest⟩
      return (v, false, rest)
  | [] => do
    let (v, rest) ← strSlow.result ⟨[], run, []⟩
    return (v, false, rest)

/-- `literal` -/
def literal (word : Bytes) (what : String) (node : JsonNode) :
    Bytes → Except Thrown (JsonNode × Bytes) :=
  match word with
  | [] => fun s => .ok (node, s)
  | w :: word => fun
    | [] => fail what []
    | c :: s => if c = w then literal word what node s else fail what (c :: s)

/-- `isDigit(buf[i])` -/
def digitNext (s : Bytes) : Bool := s.head?.any isDigit

/-- The integer part of `number`, after the sign. -/
def intPart (s : Bytes) : Except Thrown Bytes :=
  if s.head? = some 0x30 then .ok s.tail
  else if digitNext s then .ok (s.dropWhile isDigit)
  else fail "in numeric literal" s

def fracPart (s : Bytes) : Except Thrown Bytes :=
  if s.head? = some 0x2e then
    if digitNext s.tail then .ok (s.tail.dropWhile isDigit)
    else fail "after decimal point in numeric literal" s.tail
  else .ok s

def skipSign (s : Bytes) : Bytes := if s.head? = some 0x2b ∨ s.head? = some 0x2d then s.tail else s

def expPart (s : Bytes) : Except Thrown Bytes :=
  if s.head? = some 0x65 ∨ s.head? = some 0x45 then
    if digitNext (skipSign s.tail) then .ok ((skipSign s.tail).dropWhile isDigit)
    else fail "in exponent of numeric literal" (skipSign s.tail)
  else .ok s

def number (start : Bytes) : Except Thrown (JsonNode × Bytes) := do
  let s ← intPart (if start.head? = some 0x2d then start.tail else start)
  let s ← fracPart s
  let s ← expPart s
  return (.num (latin1Decode (start.take (start.length - s.length))), s)

def key (s : Bytes) : Except Thrown (JsString × Bytes) := do
  let s := skipWs s
  if s.head? ≠ some 0x22 then fail "looking for beginning of object key string" s
  else
    let (k, _, s) ← str s
    let s := skipWs s
    if s.head? ≠ some 0x3a then fail "after object key" s
    else return (k, s.tail)

structure Frame where
  obj : Bool
  members : List (JsString × JsonNode)
  items : List JsonNode
  key : JsString

/-- A value is put into the container it stands in. -/
def Frame.push (top : Frame) (value : JsonNode) : Frame :=
  if top.obj then { top with members := top.members ++ [(top.key, value)] }
  else { top with items := top.items ++ [value] }

/-- A container with what it holds. -/
def container (obj : Bool) (members : List (JsString × JsonNode)) (items : List JsonNode) :
    JsonNode :=
  if obj then .obj members else .arr items

/-- The container, closed. -/
def Frame.node (top : Frame) : JsonNode := container top.obj top.members top.items

/-- The variables of `parse`; the innermost frame is the first of the stack. -/
structure ParseState where
  stack : List Frame
  rest : Bytes
  value : Option JsonNode

/-- What stands where a value is needed: a whole value, or the start of a container. -/
inductive Begun where
  | value (v : JsonNode) (rest : Bytes)
  | opened (frame : Frame) (rest : Bytes)

/-- The bracket that closes a container. -/
def closer (obj : Bool) : UInt8 := if obj then 0x7d else 0x5d

/-- What follows an opening bracket: the other bracket, or what the container holds. -/
def openFrame (obj : Bool) (s : Bytes) : Except Thrown Begun :=
  if (skipWs s).head? = some (closer obj) then
    .ok (.value (container obj [] []) (skipWs s).tail)
  else if obj then do
    let (k, s) ← key (skipWs s)
    return .opened ⟨true, [], [], k⟩ s
  else .ok (.opened ⟨false, [], [], []⟩ (skipWs s))

/-- A value that stands at the front, with what is left behind it. -/
def scalar (s : Bytes) : Except Thrown (JsonNode × Bytes) :=
  match s with
  | [] => fail "looking for beginning of value" []
  | c :: _ =>
    if c = 0x22 then do
      let (v, plain, rest) ← str s
      return (.str v plain, rest)
    else if c = 0x74 then literal [0x74, 0x72, 0x75, 0x65] "in literal true" (.bool true) s
    else if c = 0x66 then literal [0x66, 0x61, 0x6c, 0x73, 0x65] "in literal false" (.bool false) s
    else if c = 0x6e then literal [0x6e, 0x75, 0x6c, 0x6c] "in literal null" .null s
    else if c = 0x2d ∨ isDigit c then number s
    else fail "looking for beginning of value" s

/-- The upper half of the loop, where there is no value yet; `depth` is the size of the stack. -/
def begin (depth : Nat) (s : Bytes) : Except Thrown Begun :=
  match skipWs s with
  | [] => fail "looking for beginning of value" []
  | c :: s =>
    if c = 0x7b ∨ c = 0x5b then
      if MAX_DEPTH ≤ depth then fail "(exceeded max depth)" (c :: s) else openFrame (c == 0x7b) s
    else do
      let (v, rest) ← scalar (c :: s)
      return .value v rest

/-- The lower half of the loop, with a value at hand. -/
def place (ignoreRest : Bool) (stack : List Frame) (value : JsonNode) (s : Bytes) :
    Turn ParseState (Except Thrown JsonNode) :=
  match stack with
  | [] =>
    if ignoreRest then .done (.ok value)
    else if skipWs s ≠ [] then .done (fail "after top-level value" (skipWs s))
    else .done (.ok value)
  | top :: below =>
    let top := top.push value
    let stop := fail (if top.obj then "after object key:value pair" else "after array element")
    match skipWs s with
    | [] => .done (stop [])
    | c :: s =>
      if c = 0x2c then
        if top.obj then
          match key s with
          | .error err => .done (.error err)
          | .ok (k, s) => .again ⟨{ top with key := k } :: below, s, none⟩
        else .again ⟨top :: below, s, none⟩
      else if c = closer top.obj then .again ⟨below, s, some top.node⟩
      else .done (stop (c :: s))

/-- One turn of the loop of `parse`. -/
def parseTurn (ignoreRest : Bool) (st : ParseState) (_ : Unit) :
    Turn ParseState (Except Thrown JsonNode) :=
  match st.value with
  | some v => place ignoreRest st.stack v st.rest
  | none =>
    match begin st.stack.length st.rest with
    | .error err => .done (.error err)
    | .ok (.opened frame rest) => .again ⟨frame :: st.stack, rest, none⟩
    | .ok (.value v rest) => place ignoreRest st.stack v rest

/-! ## Reading only ever goes forward -/

theorem skipWs_length (s : Bytes) : (skipWs s).length ≤ s.length :=
  (List.dropWhile_suffix isWs).length_le

/-- A string that is read takes its closing quote at least. -/
theorem strSlow_length {st : StrState} {v : JsString} {rest : Bytes}
    (h : strSlow.result st = .ok (v, rest)) : rest.length < st.rest.length := by
  refine Loop.result_induction (L := strSlow) (P := fun st r => r = .ok (v, rest) →
    rest.length < st.rest.length) ?_ ?_ st h
  · rintro st _ hturn rfl
    change strTurn st () = _ at hturn
    unfold strTurn at hturn
    split at hturn
    · simp at hturn
    · rename_i c rest' hrest
      split_ifs at hturn with hquote
      · cases hturn
        simp [hrest]
      · simp at hturn
      · split at hturn
        · simp at hturn
        · split_ifs at hturn
          · split at hturn <;> cases hturn
          · split at hturn <;> simp at hturn
  · intro st st' hturn ih hr
    exact Nat.lt_trans (ih hr) (strTurn_rank (a := ()) hturn)

/-- A string takes bytes, on either path. -/
theorem str_length {s rest : Bytes} {v : JsString} {plain : Bool}
    (h : str s = .ok (v, plain, rest)) : rest.length < s.length := by
  have hdrop := (List.dropWhile_suffix (l := s.drop 1) isFast).length_le
  rw [List.length_drop] at hdrop
  unfold str at h
  dsimp only at h
  split at h
  · rename_i c rest' heq
    rw [heq, List.length_cons] at hdrop
    split_ifs at h
    · cases h
      omega
    · exact absurd h fail_ne_ok
    · obtain ⟨⟨v', rest''⟩, hslow, h⟩ := bind_eq_ok.mp h
      cases h
      have hlt := strSlow_length hslow
      rw [List.length_cons] at hlt
      dsimp only
      omega
  · obtain ⟨⟨v', rest''⟩, hslow, h⟩ := bind_eq_ok.mp h
    exact absurd (strSlow_length hslow) (Nat.not_lt_zero _)

/-- A literal takes exactly its word. -/
theorem literal_length {word : Bytes} {what : String} {node v : JsonNode} :
    ∀ {s rest : Bytes}, literal word what node s = .ok (v, rest) →
      rest.length + word.length = s.length := by
  induction word with
  | nil => intro s rest h; cases h; rfl
  | cons w word ih =>
    intro s rest h
    cases s with
    | nil => exact absurd (show fail what [] = _ from h) fail_ne_ok
    | cons c s =>
      change (if c = w then literal word what node s else fail what (c :: s)) = _ at h
      split_ifs at h
      · rw [List.length_cons, List.length_cons, ← ih h]
        omega
      · exact absurd h fail_ne_ok

/-- A run of digits that was announced takes one at least. -/
theorem digits_length {s : Bytes} (h : digitNext s = true) :
    (s.dropWhile isDigit).length < s.length := by
  cases s with
  | nil => cases h
  | cons c s =>
    have hc : isDigit c = true := h
    rw [List.dropWhile_cons_of_pos hc]
    exact Nat.lt_succ_of_le (List.dropWhile_suffix isDigit).length_le

theorem tail_length_lt {s : Bytes} {c : UInt8} (h : s.head? = some c) :
    s.tail.length < s.length := by
  cases s with
  | nil => cases h
  | cons c s => exact Nat.lt_succ_self _

/-- An integer part takes bytes. -/
theorem intPart_length {s rest : Bytes} (h : intPart s = .ok rest) : rest.length < s.length := by
  unfold intPart at h
  split_ifs at h with hzero hdigit
  · cases h
    exact tail_length_lt hzero
  · cases h
    exact digits_length hdigit
  · exact absurd h fail_ne_ok

theorem fracPart_length {s rest : Bytes} (h : fracPart s = .ok rest) : rest.length ≤ s.length := by
  unfold fracPart at h
  split_ifs at h with hdot hdigit
  · cases h
    exact Nat.le_of_lt (Nat.lt_trans (digits_length hdigit) (tail_length_lt hdot))
  · exact absurd h fail_ne_ok
  · cases h
    exact Nat.le_refl _

/-- A reader behind an optional sign. -/
theorem apply_skipSign {α : Type} (f : Bytes → α) (s : Bytes) :
    f (skipSign s) = if s.head? = some 0x2b ∨ s.head? = some 0x2d then f s.tail else f s := by
  unfold skipSign
  exact apply_ite f _ _ _

theorem skipSign_length (s : Bytes) : (skipSign s).length ≤ s.length := by
  unfold skipSign
  split_ifs <;> simp

theorem expPart_length {s rest : Bytes} (h : expPart s = .ok rest) : rest.length ≤ s.length := by
  unfold expPart at h
  split_ifs at h with hexp hdigit
  · cases h
    have h1 := digits_length hdigit
    have h2 := skipSign_length s.tail
    have h3 : s.tail.length ≤ s.length := by simp
    omega
  · exact absurd h fail_ne_ok
  · cases h
    exact Nat.le_refl _

/-- A number is read in three parts, behind its sign. -/
theorem number_parts {s rest : Bytes} {v : JsonNode} (h : number s = .ok (v, rest)) :
    ∃ s₁ s₂, intPart (if s.head? = some 0x2d then s.tail else s) = .ok s₁ ∧ fracPart s₁ = .ok s₂ ∧
      expPart s₂ = .ok rest ∧ v = .num (latin1Decode (s.take (s.length - rest.length))) := by
  unfold number at h
  obtain ⟨s₁, hint, h⟩ := bind_eq_ok.mp h
  obtain ⟨s₂, hfrac, h⟩ := bind_eq_ok.mp h
  obtain ⟨s₃, hexp, h⟩ := bind_eq_ok.mp h
  cases h
  exact ⟨s₁, s₂, hint, hfrac, hexp, rfl⟩

/-- A number takes bytes. -/
theorem number_length {s rest : Bytes} {v : JsonNode} (h : number s = .ok (v, rest)) :
    rest.length < s.length := by
  obtain ⟨s₁, s₂, hint, hfrac, hexp, -⟩ := number_parts h
  have h1 := intPart_length hint
  have h2 := fracPart_length hfrac
  have h3 := expPart_length hexp
  have h4 : (if s.head? = some 0x2d then s.tail else s).length ≤ s.length := by split_ifs <;> simp
  omega

/-- A key takes bytes. -/
theorem key_length {s rest : Bytes} {k : JsString} (h : key s = .ok (k, rest)) :
    rest.length < s.length := by
  unfold key at h
  dsimp only at h
  split_ifs at h with hquote
  · exact absurd h fail_ne_ok
  · obtain ⟨⟨k', plain, s'⟩, hstr, h⟩ := bind_eq_ok.mp h
    dsimp only at h
    split_ifs at h with hcolon
    · exact absurd h fail_ne_ok
    · cases h
      have h1 := skipWs_length s
      have h2 := str_length hstr
      have h3 := skipWs_length s'
      have h4 : (skipWs s').tail.length ≤ (skipWs s').length := by simp
      omega

/-- What is left once a value has begun. -/
def Begun.rest : Begun → Bytes
  | .value _ rest => rest
  | .opened _ rest => rest

/-- Opening an array or an object gives nothing back. -/
theorem openFrame_length {obj : Bool} {s : Bytes} {b : Begun} (h : openFrame obj s = .ok b) :
    b.rest.length ≤ s.length := by
  have hws := skipWs_length s
  have htail : (skipWs s).tail.length ≤ (skipWs s).length := by simp
  unfold openFrame at h
  split_ifs at h
  · cases h
    exact Nat.le_trans htail hws
  · obtain ⟨⟨k, s₂⟩, hkey, h⟩ := bind_eq_ok.mp h
    cases h
    exact Nat.le_of_lt (Nat.lt_of_lt_of_le (key_length hkey) hws)
  · cases h
    exact hws

/-- A scalar takes bytes. -/
theorem scalar_length {s rest : Bytes} {v : JsonNode} (h : scalar s = .ok (v, rest)) :
    rest.length < s.length := by
  unfold scalar at h
  split at h
  · cases h
  · split_ifs at h
    · obtain ⟨⟨v', plain, s₂⟩, hstr, h⟩ := bind_eq_ok.mp h
      cases h
      exact str_length hstr
    · exact Nat.lt_of_lt_of_eq (by simp) (literal_length h)
    · exact Nat.lt_of_lt_of_eq (by simp) (literal_length h)
    · exact Nat.lt_of_lt_of_eq (by simp) (literal_length h)
    · exact number_length h
    · exact absurd h fail_ne_ok

/-- Each value takes bytes from its start. -/
theorem begin_length {depth : Nat} {s : Bytes} {b : Begun} (h : begin depth s = .ok b) :
    b.rest.length < s.length := by
  have hws := skipWs_length s
  unfold begin at h
  split at h
  · cases h
  · rename_i c s' hs
    rw [hs, List.length_cons] at hws
    split_ifs at h
    · exact absurd h fail_ne_ok
    · exact Nat.lt_of_le_of_lt (openFrame_length h) hws
    · obtain ⟨⟨v, s₂⟩, hscalar, h⟩ := bind_eq_ok.mp h
      cases h
      exact Nat.lt_of_lt_of_le (scalar_length hscalar) (by rwa [List.length_cons])

/-- Where a value is put away and the parse goes on, a comma has been taken too. -/
theorem place_length {ignoreRest : Bool} {stack : List Frame} {v : JsonNode} {s : Bytes}
    {st : ParseState} (h : place ignoreRest stack v s = .again st) : st.rest.length < s.length := by
  have hws := skipWs_length s
  unfold place at h
  split at h
  · split_ifs at h
  · dsimp only at h
    split at h
    · cases h
    · rename_i c s' hs
      rw [hs, List.length_cons] at hws
      split_ifs at h
      · split at h
        · cases h
        · rename_i k s₂ hkey
          cases h
          have := key_length hkey
          dsimp only
          omega
      · cases h
        exact Nat.lt_of_succ_le hws
      · cases h
        exact Nat.lt_of_succ_le hws

/-- Each turn of the parser takes bytes, so that it ends. -/
theorem parseTurn_rank {ignoreRest : Bool} {st st' : ParseState} {a : Unit}
    (h : parseTurn ignoreRest st a = .again st') : st'.rest.length < st.rest.length := by
  unfold parseTurn at h
  split at h
  · exact place_length h
  · split at h
    · cases h
    · rename_i frame rest hbegin
      cases h
      exact begin_length hbegin
    · rename_i v rest hbegin
      exact Nat.lt_trans (place_length h) (begin_length hbegin)

/-- The loop of `parse`. -/
def parseLoop (ignoreRest : Bool) : Loop ParseState Unit (Except Thrown JsonNode) where
  turn := parseTurn ignoreRest
  rank st := st.rest.length
  rank_lt := parseTurn_rank

/-- `parse` -/
def parse (bytes : Bytes) (ignoreRest : Bool) : Except Thrown JsonNode :=
  (parseLoop ignoreRest).result ⟨[], bytes, none⟩

/-- `parseJson`: exactly one JSON value. -/
def parseJson (bytes : Bytes) : Except Thrown JsonNode := parse bytes false

/-- `parseFirstJson`: the first JSON value, and whatever follows it. -/
def parseFirstJson (bytes : Bytes) : Except Thrown JsonNode := parse bytes true

/-! ## Trees compared -/

mutual

/-- The trees are the same. -/
def JsonNode.same : JsonNode → JsonNode → Bool
  | .null, .null => true
  | .bool v, .bool w => v == w
  | .num raw, .num raw' => raw == raw'
  | .str v plain, .str w plain' => v == w && plain == plain'
  | .arr items, .arr items' => sameItems items items'
  | .obj members, .obj members' => sameEntries members members'
  | _, _ => false

def sameItems : List JsonNode → List JsonNode → Bool
  | [], [] => true
  | v :: vs, w :: ws => v.same w && sameItems vs ws
  | _, _ => false

def sameEntries : List (JsString × JsonNode) → List (JsString × JsonNode) → Bool
  | [], [] => true
  | (k, v) :: ms, (k', w) :: ms' => k == k' && v.same w && sameEntries ms ms'
  | _, _ => false

end

mutual

/-- `same` is equality, by induction on the tree. -/
theorem JsonNode.same_iff (node node' : JsonNode) : node.same node' = true ↔ node = node' := by
  match node with
  | .null => cases node' <;> simp [JsonNode.same]
  | .bool v => cases node' <;> simp [JsonNode.same]
  | .num raw => cases node' <;> simp [JsonNode.same]
  | .str v plain => cases node' <;> simp [JsonNode.same]
  | .arr items => cases node' <;> simp [JsonNode.same, sameItems_iff items]
  | .obj members => cases node' <;> simp [JsonNode.same, sameEntries_iff members]

theorem sameItems_iff (items items' : List JsonNode) :
    sameItems items items' = true ↔ items = items' := by
  match items with
  | [] => cases items' <;> simp [sameItems]
  | v :: vs => cases items' <;> simp [sameItems, JsonNode.same_iff v, sameItems_iff vs]

theorem sameEntries_iff (members members' : List (JsString × JsonNode)) :
    sameEntries members members' = true ↔ members = members' := by
  match members with
  | [] => cases members' <;> simp [sameEntries]
  | (k, v) :: ms =>
    cases members' with
    | nil => simp [sameEntries]
    | cons m ms' =>
      obtain ⟨k', w⟩ := m
      simp [sameEntries, JsonNode.same_iff v, sameEntries_iff ms, and_assoc]

end

instance : DecidableEq JsonNode :=
  fun node node' => decidable_of_iff _ (JsonNode.same_iff node node')

end AgentService
