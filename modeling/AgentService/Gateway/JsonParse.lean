import AgentService.Gateway.JsonStrings

/-!
# The reader against the grammar

The loop of `parse` alternates between needing a value and placing one, with the open
containers on a stack. What such a stack still takes is written down as `Closes`: an
accepting run has it behind every state, so the whole document has a derivation. The other
way round every derivation drives the loop over its text, one case for each rule.
-/

namespace AgentService
open Lib

variable {ignoreRest : Bool}

/-! ## Nothing but syntax errors -/

/-- The two sentences of `fail`: the input ended, or a byte is named. -/
def JsonSyntaxError.IsReport (e : JsonSyntaxError) : Prop :=
  e = ⟨js "unexpected end of JSON input", true⟩ ∨
    ∃ c what, e = ⟨js "invalid character 0x" ++ hexText c ++ js " " ++ js what, false⟩

/-- The only exception is the reader's own, thrown by `fail`. -/
def Reports {α : Type} (x : Except Thrown α) : Prop :=
  ∀ t, x = .error t → ∃ e, t = .syntaxError e ∧ e.IsReport

theorem reports_ok {α : Type} (a : α) : Reports (.ok a) := fun _ h => by cases h

theorem reports_fail {α : Type} (what : String) (s : Bytes) :
    Reports (fail what s : Except Thrown α) := by
  intro t h
  cases s with
  | nil =>
    cases h
    exact ⟨_, rfl, .inl rfl⟩
  | cons c s =>
    cases h
    exact ⟨_, rfl, .inr ⟨c, what, rfl⟩⟩

/-- A sequence reports syntax errors where both of its halves do. -/
theorem Reports.bind {α β : Type} {x : Except Thrown α} {f : α → Except Thrown β} (hx : Reports x)
    (hf : ∀ a, x = .ok a → Reports (f a)) : Reports (x >>= f) := by
  intro t h
  rcases bind_eq_error.mp h with h | ⟨a, ha, h⟩
  · exact hx t h
  · exact hf a ha t h

theorem reports_hexLoop (k : Nat) : ∀ (v : Nat) (s : Bytes), Reports (hexLoop k v s) := by
  induction k with
  | zero => exact fun v s => reports_ok v
  | succ k ih =>
    intro v s
    cases s with
    | nil => exact reports_fail _ []
    | cons c s =>
      unfold hexLoop
      split
      · exact ih _ s
      · exact reports_fail _ _

theorem reports_lowEscape (n : Nat) (s : Bytes) : Reports (lowEscape n s) := by
  unfold lowEscape
  split_ifs
  · exact (reports_hexLoop 4 0 _).bind fun _ _ => reports_ok _
  · exact reports_ok _

/-- Four hex digits and a pair of surrogates never leave the range of `String.fromCodePoint`. -/
theorem reports_unicodeEscape (s : Bytes) : Reports (unicodeEscape s) := by
  refine (reports_hexLoop 4 0 _).bind fun n hn => ?_
  obtain ⟨hex, t, -, hx⟩ := hex4_ok hn
  split_ifs with hsurrogate
  · refine (reports_lowEscape n _).bind fun low hlow => ?_
    rcases lowEscape_ok hlow with ⟨hex', lo, t, rfl, hhi, -, -, hlo⟩ | ⟨rfl, -⟩
    · dsimp only
      rw [fromCodePoint_pair ⟨hsurrogate.1, hhi⟩ hlo]
      exact reports_ok _
    · exact reports_ok _
  · rw [fromCodePoint_ok (Nat.lt_trans hx.lt (by decide))]
    exact reports_ok _

/-- The slow path of a string reports nothing but syntax errors, turn by turn. -/
theorem reports_strSlow (st : StrState) : Reports (strSlow.result st) := by
  refine Loop.result_induction (L := strSlow) (P := fun _ r => Reports r) ?_ (fun _ _ _ ih => ih) st
  intro st r h
  change strTurn st () = .done r at h
  unfold strTurn at h
  split at h
  · cases h; exact reports_fail _ _
  · split_ifs at h
    · cases h; exact reports_ok _
    · cases h; exact reports_fail _ _
    · split at h
      · cases h; exact reports_fail _ _
      · split_ifs at h
        · split at h
          · rename_i err herr
            cases h
            intro t ht
            cases ht
            exact reports_unicodeEscape _ _ herr
          · cases h
        · split at h
          · cases h
          · cases h; exact reports_fail _ _

theorem reports_str (s : Bytes) : Reports (str s) := by
  unfold str
  dsimp only
  split
  · split_ifs
    · exact reports_ok _
    · exact reports_fail _ _
    · exact (reports_strSlow _).bind fun _ _ => reports_ok _
  · exact (reports_strSlow _).bind fun _ _ => reports_ok _

theorem reports_literal (word : Bytes) (what : String) (node : JsonNode) :
    ∀ s, Reports (literal word what node s) := by
  induction word with
  | nil => exact fun s => reports_ok _
  | cons w word ih =>
    intro s
    cases s with
    | nil => exact reports_fail what []
    | cons c s =>
      change Reports (if c = w then literal word what node s else fail what (c :: s))
      split_ifs
      · exact ih s
      · exact reports_fail _ _

/-- A number that is refused is reported, -/
theorem reports_number (s : Bytes) : Reports (number s) := by
  refine Reports.bind ?_ fun s₁ _ => Reports.bind ?_ fun s₂ _ => Reports.bind ?_ fun _ _ =>
    reports_ok _
  · unfold intPart
    split_ifs <;> first | exact reports_ok _ | exact reports_fail _ _
  · unfold fracPart
    split_ifs <;> first | exact reports_ok _ | exact reports_fail _ _
  · unfold expPart
    split_ifs <;> first | exact reports_ok _ | exact reports_fail _ _

/-- and so is a key, -/
theorem reports_key (s : Bytes) : Reports (key s) := by
  unfold key
  dsimp only
  split_ifs
  · exact reports_fail _ _
  · refine (reports_str _).bind fun _ _ => ?_
    split_ifs
    · exact reports_fail _ _
    · exact reports_ok _

/-- the start of a value, -/
theorem reports_begin (depth : Nat) (s : Bytes) : Reports (begin depth s) := by
  unfold begin
  split
  · exact reports_fail _ _
  · split_ifs
    · exact reports_fail _ _
    · unfold openFrame
      split_ifs
      · exact reports_ok _
      · exact (reports_key _).bind fun _ _ => reports_ok _
      · exact reports_ok _
    · refine Reports.bind ?_ fun _ _ => reports_ok _
      unfold scalar
      dsimp only
      split_ifs
      · exact (reports_str _).bind fun _ _ => reports_ok _
      · exact reports_literal _ _ _ _
      · exact reports_literal _ _ _ _
      · exact reports_literal _ _ _ _
      · exact reports_number _
      · exact reports_fail _ _

/-- and what stands behind one. -/
theorem reports_place {stack : List Frame} {v : JsonNode} {s : Bytes} {r : Except Thrown JsonNode}
    (h : place ignoreRest stack v s = .done r) : Reports r := by
  unfold place at h
  split at h
  · split_ifs at h <;> cases h
    · exact reports_ok _
    · exact reports_fail _ _
    · exact reports_ok _
  · dsimp only at h
    split at h
    · cases h; exact reports_fail _ _
    · split_ifs at h
      · split at h
        · rename_i err herr
          cases h
          intro t ht
          cases ht
          exact reports_key _ _ herr
        · cases h
      · cases h; exact reports_fail _ _
      · cases h; exact reports_fail _ _

/-- `parse` throws nothing but its own error. -/
theorem reports_parse (bytes : Bytes) : Reports (parse bytes ignoreRest) := by
  refine Loop.result_induction (L := parseLoop ignoreRest) (P := fun _ r =>
    Reports r) ?_ (fun _ _ _ ih => ih) _
  intro st r h
  change parseTurn ignoreRest st () = .done r at h
  unfold parseTurn at h
  split at h
  · exact reports_place h
  · split at h
    · rename_i err herr
      cases h
      intro t ht
      cases ht
      exact reports_begin _ _ _ herr
    · cases h
    · exact reports_place h

/-! ## What is accepted is derived -/

/-- What a stack of frames still takes around a value: the rest of each container, innermost
first, and nothing but whitespace in the end. -/
inductive Closes (ignoreRest : Bool) (node : JsonNode) : List Frame → JsonNode → Bytes → Prop
  | done {rest} (h : ignoreRest = true ∨ Ws rest) : Closes ignoreRest node [] node rest
  | array {top below v t vs rest} (hobj : top.obj = false)
      (ht : ArrayRest (MAX_DEPTH - (below.length + 1)) t vs)
      (h : Closes ignoreRest node below (.arr (top.items ++ v :: vs)) rest) :
      Closes ignoreRest node (top :: below) v (t ++ rest)
  | object {top below v t ms rest} (hobj : top.obj = true)
      (ht : ObjectRest (MAX_DEPTH - (below.length + 1)) t ms)
      (h : Closes ignoreRest node below (.obj (top.members ++ (top.key, v) :: ms)) rest) :
      Closes ignoreRest node (top :: below) v (t ++ rest)

theorem ws_append {w w' : Bytes} (h : Ws w) (h' : Ws w') : Ws (w ++ w') := by
  intro b hb
  rcases List.mem_append.mp hb with hb | hb
  · exact h b hb
  · exact h' b hb

/-- Whitespace may stand in front of a key. -/
theorem ws_keyText {w k : Bytes} {name : JsString} (hw : Ws w) (h : KeyText k name) :
    KeyText (w ++ k) name := by
  obtain @⟨w₀, s, w', _, hw₀, hs, hw'⟩ := h
  have heq : w ++ (w₀ ++ 0x22 :: s ++ 0x22 :: w' ++ [0x3a]) = (w ++ w₀) ++ 0x22 :: s ++ 0x22 ::
    w' ++ [0x3a] := by simp
  rw [heq]
  exact .mk (ws_append hw hw₀) hs hw'

/-- A scalar at the front is a value. -/
theorem scalar_ok {s rest : Bytes} {v : JsonNode} (h : scalar s = .ok (v, rest)) (d : Nat) :
    ∃ t, s = t ++ rest ∧ ValueText d t v := by
  unfold scalar at h
  split at h
  · cases h
  · rename_i c s'
    split_ifs at h with hquote
    · obtain ⟨⟨v', plain, after⟩, hstr, h⟩ := bind_eq_ok.mp h
      cases h
      obtain ⟨body, hbody, htext, rfl⟩ := str_ok (by rw [hquote]; rfl) hstr
      exact ⟨0x22 :: body ++ [0x22], by rw [hbody]; simp, .string htext⟩
    · obtain ⟨hs, rfl⟩ := literal_ok h
      exact ⟨_, hs, .true⟩
    · obtain ⟨hs, rfl⟩ := literal_ok h
      exact ⟨_, hs, .false⟩
    · obtain ⟨hs, rfl⟩ := literal_ok h
      exact ⟨_, hs, .null⟩
    · obtain ⟨n, hs, hn, rfl⟩ := number_ok h
      exact ⟨n, hs, .number hn⟩
    · exact absurd h fail_ne_ok

/-- The start of a container, up to where its first value is needed. -/
inductive OpenText : Bytes → Frame → Prop
  | array {w} (hw : Ws w) : OpenText (0x5b :: w) ⟨false, [], [], []⟩
  | object {k name} (hk : KeyText k name) : OpenText (0x7b :: k) ⟨true, [], [], name⟩

theorem head?_eq_cons {s : Bytes} {c : UInt8} (h : s.head? = some c) : s = c :: s.tail := by
  cases s with
  | nil => cases h
  | cons b s => cases h; rfl

/-- What opens is an empty container, or the front of one that goes on. -/
theorem openFrame_ok {obj : Bool} {s : Bytes} {b : Begun} {d : Nat} (h : openFrame obj s = .ok b) :
    (∃ t v rest, b = .value v rest ∧ s = t ++ rest ∧
        ValueText (d + 1) ((if obj then 0x7b else 0x5b) :: t) v) ∨
      ∃ t frame rest, b = .opened frame rest ∧ s = t ++ rest ∧
        OpenText ((if obj then 0x7b else 0x5b) :: t) frame := by
  obtain ⟨w, hsplit, hw⟩ := ws_skipWs s
  unfold openFrame at h
  split_ifs at h with hclose hobj
  · cases h
    refine .inl ⟨w ++ [closer obj], _, _, rfl, ?_, ?_⟩
    · rw [List.append_assoc, List.singleton_append, ← head?_eq_cons hclose, ← hsplit]
    · cases obj with
      | true => exact .emptyObject hw
      | false => exact .emptyArray hw
  · obtain ⟨⟨name, after⟩, hkey, h⟩ := bind_eq_ok.mp h
    cases h
    obtain ⟨k, hk, hname⟩ := key_ok hkey
    refine .inr ⟨w ++ k, _, _, rfl, by rw [List.append_assoc, ← hk, ← hsplit], ?_⟩
    rw [if_pos hobj]
    exact .object (ws_keyText hw hname)
  · cases h
    refine .inr ⟨w, _, _, rfl, hsplit, ?_⟩
    rw [if_neg hobj]
    exact .array hw

/-- What begins is a value that is whole, or the front of a container. -/
theorem begin_ok {depth : Nat} {s : Bytes} {b : Begun} (h : begin depth s = .ok b) :
    (∃ w t v rest, b = .value v rest ∧ s = w ++ t ++ rest ∧ Ws w ∧
        ValueText (MAX_DEPTH - depth) t v) ∨
      ∃ w t frame rest, b = .opened frame rest ∧ s = w ++ t ++ rest ∧ Ws w ∧ OpenText t frame ∧
        depth < MAX_DEPTH := by
  obtain ⟨w, hsplit, hw⟩ := ws_skipWs s
  unfold begin at h
  split at h
  · cases h
  · rename_i c s' hs
    rw [hs] at hsplit
    split_ifs at h with hbracket hdepth
    · exact absurd h fail_ne_ok
    · have hc : c = if (c == 0x7b) then 0x7b else 0x5b := by
        rcases hbracket with rfl | rfl <;> rfl
      have hd : MAX_DEPTH - depth = (MAX_DEPTH - (depth + 1)) + 1 := by omega
      rcases openFrame_ok (d := MAX_DEPTH - (depth + 1)) h with ⟨t, v, rest, rfl, rfl, ht⟩ |
        ⟨t, frame, rest, rfl, rfl, ht⟩
      · rw [← hc] at ht
        exact .inl ⟨w, c :: t, v, rest, rfl, by rw [hsplit]; simp, hw, hd ▸ ht⟩
      · rw [← hc] at ht
        exact .inr ⟨w, c :: t, frame, rest, rfl, by rw [hsplit]; simp, hw, ht,
          Nat.lt_of_not_le hdepth⟩
    · obtain ⟨⟨v, rest⟩, hscalar, h⟩ := bind_eq_ok.mp h
      cases h
      obtain ⟨t, ht, hv⟩ := scalar_ok hscalar (MAX_DEPTH - depth)
      exact .inl ⟨w, t, v, rest, rfl, by rw [hsplit, ht, List.append_assoc], hw, hv⟩

/-- Where the lower half of the loop goes on: a value is placed, and what follows it says where the
next one stands. -/
inductive Placed (top : Frame) (below : List Frame) (v : JsonNode) : Bytes → ParseState → Prop
  | item {w s} (hobj : top.obj = false) (hw : Ws w) :
      Placed top below v (w ++ 0x2c :: s) ⟨top.push v :: below, s, none⟩
  | member {w k name s} (hobj : top.obj = true) (hw : Ws w) (hk : KeyText k name) :
      Placed top below v (w ++ 0x2c :: k ++ s) ⟨{ top.push v with key := name } :: below, s, none⟩
  | close {w s} (hw : Ws w) :
      Placed top below v (w ++ closer top.obj :: s) ⟨below, s, some (top.push v).node⟩

@[simp] theorem Frame.push_obj (top : Frame) (v : JsonNode) : (top.push v).obj = top.obj := by
  unfold Frame.push
  split <;> rfl

/-- Where the parse goes on, the value was put into the top frame, and what stood behind it is
known, -/
theorem placed_of_place {stack : List Frame} {v : JsonNode} {s : Bytes} {st : ParseState}
    (h : place ignoreRest stack v s = .again st) :
    ∃ top below, stack = top :: below ∧ Placed top below v s st := by
  obtain ⟨w, hsplit, hw⟩ := ws_skipWs s
  unfold place at h
  split at h
  · split_ifs at h
  · rename_i top below
    refine ⟨top, below, rfl, ?_⟩
    dsimp only at h
    split at h
    · cases h
    · rename_i c s' hs
      rw [hs] at hsplit
      split_ifs at h with hcomma hobj hclose
      · split at h
        · cases h
        · rename_i name after hkey
          cases h
          obtain ⟨k, rfl, hk⟩ := key_ok hkey
          rw [hsplit, hcomma]
          have heq : w ++ 0x2c :: (k ++ after) = w ++ 0x2c :: k ++ after := by simp
          rw [heq]
          exact .member (by simpa using hobj) hw hk
      · cases h
        rw [hsplit, hcomma]
        exact .item (by simpa using hobj) hw
      · cases h
        rw [hsplit, hclose, Frame.push_obj]
        exact .close hw

/-- and that is all there is to it. -/
theorem place_of_placed {top : Frame} {below : List Frame} {v : JsonNode} {s : Bytes}
    {st : ParseState} (h : Placed top below v s st) :
    place ignoreRest (top :: below) v s = .again st := by
  unfold place
  cases h with
  | item hobj hw =>
    dsimp only
    rw [skipWs_append hw, skipWs_cons (by decide)]
    simp [hobj]
  | member hobj hw hk =>
    dsimp only
    rw [List.append_assoc, skipWs_append hw, List.cons_append, skipWs_cons (by decide)]
    simp [hobj, key_append hk]
  | close hw =>
    dsimp only
    have hcloser : isWs (closer top.obj) = false ∧ closer top.obj ≠ 0x2c := by
      cases top.obj <;> exact ⟨rfl, by decide⟩
    rw [skipWs_append hw, skipWs_cons hcloser.1]
    simp [hcloser.2]

/-- What stands behind a state from which the loop accepts: the value at hand, or the one that is
still to be read, is taken by the stack. -/
def Accounted (ignoreRest : Bool) (node : JsonNode) (st : ParseState) : Prop :=
  match st.value with
  | some v => Closes ignoreRest node st.stack v st.rest
  | none => ∃ w t v rest, st.rest = w ++ t ++ rest ∧ Ws w ∧
      ValueText (MAX_DEPTH - st.stack.length) t v ∧
      Closes ignoreRest node st.stack v rest

/-- A value is taken by the stack if the state after it is accounted for. -/
theorem closes_of_placed {node : JsonNode} {top : Frame} {below : List Frame}
    {v : JsonNode} {s : Bytes} {st : ParseState} (h : Placed top below v s st)
    (hst : Accounted ignoreRest node st) : Closes ignoreRest node (top :: below) v s := by
  cases h with
  | @item w s hobj hw =>
    obtain ⟨w', t, v', rest, rfl, hw', hv', hclose⟩ := hst
    cases hclose with
    | @array _ _ _ t' vs rest' _ ht' hbelow =>
      have heq : w ++ 0x2c :: (w' ++ t ++ (t' ++ rest')) = (w ++ 0x2c :: w' ++ t ++ t') ++
        rest' := by simp
      rw [heq]
      refine .array hobj (.item hw hw' hv' ht') ?_
      simpa [Frame.push, hobj] using hbelow
    | object hobj' => simp [hobj] at hobj'
  | @member w k name s hobj hw hk =>
    obtain ⟨w', t, v', rest, rfl, hw', hv', hclose⟩ := hst
    cases hclose with
    | @object _ _ _ t' ms rest' _ ht' hbelow =>
      have heq : w ++ 0x2c :: k ++ (w' ++ t ++ (t' ++ rest')) = (w ++ 0x2c :: k ++ w' ++ t ++ t') ++
        rest' := by simp
      rw [heq]
      refine .object hobj (.member hw hk hw' hv' ht') ?_
      simpa [Frame.push, hobj] using hbelow
    | array hobj' => simp [hobj] at hobj'
  | @close w s hw =>
    have heq : w ++ closer top.obj :: s = (w ++ [closer top.obj]) ++ s := by simp
    rw [heq]
    have hst' : Closes ignoreRest node below (top.push v).node s := hst
    cases hobj : top.obj with
    | false =>
      refine .array hobj (.close hw) ?_
      simpa [Frame.node, Frame.push, container, hobj] using hst'
    | true =>
      refine .object hobj (.close hw) ?_
      simpa [Frame.node, Frame.push, container, hobj] using hst'

/-- The parse ends well only with an empty stack, and behind nothing that matters. -/
theorem place_done_ok {stack : List Frame} {v node : JsonNode} {s : Bytes}
    (h : place ignoreRest stack v s = .done (.ok node)) :
    stack = [] ∧ v = node ∧ (ignoreRest = true ∨ Ws s) := by
  unfold place at h
  split at h
  · split_ifs at h with hignore hrest
    · cases h
      exact ⟨rfl, rfl, .inl hignore⟩
    · simp at h
    · cases h
      rw [ne_eq, not_not] at hrest
      obtain ⟨w, hsplit, hw⟩ := ws_skipWs s
      rw [hrest, List.append_nil] at hsplit
      exact ⟨rfl, rfl, .inr (hsplit ▸ hw)⟩
  · dsimp only at h
    split at h
    · simp at h
    · split_ifs at h
      · split at h <;> cases h
      · simp at h
      · simp at h

/-- What is accounted for before a value is put away is accounted for behind it. -/
theorem accounted_of_place {stack : List Frame} {v node : JsonNode} {s : Bytes}
    (hdone : place ignoreRest stack v s = .done (.ok node) ∨
      ∃ st, place ignoreRest stack v s = .again st ∧ Accounted ignoreRest node st) :
    Closes ignoreRest node stack v s := by
  rcases hdone with h | ⟨st, h, hst⟩
  · obtain ⟨rfl, rfl, hrest⟩ := place_done_ok h
    exact .done hrest
  · obtain ⟨top, below, rfl, hplaced⟩ := placed_of_place h
    exact closes_of_placed hplaced hst

/-- One turn back: a state is accounted for if the loop accepts at once, or the next state is. -/
theorem accounted_of_turn {node : JsonNode} {st : ParseState}
    (h : parseTurn ignoreRest st () = .done (.ok node) ∨
      ∃ st', parseTurn ignoreRest st () = .again st' ∧ Accounted ignoreRest node st') :
    Accounted ignoreRest node st := by
  obtain ⟨stack, bytes, value⟩ := st
  cases value with
  | some v => exact accounted_of_place h
  | none =>
    change ∃ w t v rest, bytes = w ++ t ++ rest ∧ Ws w ∧ ValueText (MAX_DEPTH - stack.length) t v ∧
      Closes ignoreRest node stack v rest
    unfold parseTurn at h
    dsimp only at h
    split at h
    · rcases h with h | ⟨st', h, -⟩ <;> cases h
    · rename_i frame rest hbegin
      rcases h with h | ⟨st', h, hst'⟩
      · cases h
      · cases h
        rcases begin_ok hbegin with ⟨_, _, _, _, hb, -⟩ |
          ⟨w, t, frame', rest', hb, hsplit, hw, hopen, hdepth⟩
        · cases hb
        · cases hb
          obtain ⟨w', t', v, rest', rfl, hw', hv, hclose⟩ := hst'
          have hd : MAX_DEPTH - stack.length = (MAX_DEPTH - (stack.length + 1)) + 1 := by omega
          cases hopen with
          | @array w₀ hw₀ =>
            cases hclose with
            | @array _ _ _ t'' vs rest'' _ ht'' hbelow =>
              refine ⟨w, 0x5b :: (w₀ ++ w') ++ t' ++ t'', _, rest'', by rw [hsplit]; simp,
                hw, ?_, hbelow⟩
              rw [hd]
              exact .array (ws_append hw₀ hw') hv ht''
            | object hobj => cases hobj
          | @object k name hk =>
            cases hclose with
            | @object _ _ _ t'' ms rest'' _ ht'' hbelow =>
              refine ⟨w, 0x7b :: k ++ w' ++ t' ++ t'', _, rest'', by rw [hsplit]; simp,
                hw, ?_, hbelow⟩
              rw [hd]
              exact .object hk hw' hv ht''
            | array hobj => cases hobj
    · rename_i v rest hbegin
      rcases begin_ok hbegin with ⟨w, t, v', rest', hb, hsplit, hw, hv⟩ | ⟨_, _, _, _, hb, -⟩
      · cases hb
        exact ⟨w, t, v, rest, hsplit, hw, hv, accounted_of_place h⟩
      · cases hb

/-- A run that ends well has been given the text of what it returns, by induction on the run. -/
theorem accounted_of_result {node : JsonNode} (st : ParseState) :
    (parseLoop ignoreRest).result st = .ok node → Accounted ignoreRest node st := by
  refine Loop.result_induction (L := parseLoop ignoreRest) (P := fun st r => r = .ok node →
    Accounted ignoreRest node st) ?_ ?_ st
  · rintro st _ hturn rfl
    exact accounted_of_turn (.inl hturn)
  · intro st st' hturn ih h
    exact accounted_of_turn (.inr ⟨st', hturn, ih h⟩)

/-- What `parseJson` accepts the grammar derives, with the same tree. -/
theorem jsonText_of_parseJson {bytes : Bytes} {node : JsonNode} (h : parseJson bytes = .ok node) :
    JsonText MAX_DEPTH bytes node := by
  have haccounted : Accounted false node ⟨[], bytes, none⟩ := accounted_of_result _ h
  obtain ⟨w, t, v, rest, hsplit, hw, hv, hclose⟩ := haccounted
  cases hclose with
  | done hrest =>
    rcases hrest with hrest | hrest
    · cases hrest
    · change bytes = _ at hsplit
      rw [hsplit]
      exact .mk hw hv hrest

/-! ## What is derived is accepted -/

/-- The run goes on behind a value that was read whole, -/
theorem result_of_begin {stack : List Frame} {s rest : Bytes} {v : JsonNode}
    (h : begin stack.length s = .ok (.value v rest)) :
    (parseLoop ignoreRest).result ⟨stack, s, none⟩ = (parseLoop ignoreRest).result ⟨stack, rest,
      some v⟩ := by
  apply Loop.result_congr
  change parseTurn ignoreRest ⟨stack, s, none⟩ () = parseTurn ignoreRest ⟨stack, rest, some v⟩ ()
  simp only [parseTurn, h]

/-- within a container that was opened, -/
theorem result_of_opened {stack : List Frame} {s rest : Bytes} {frame : Frame}
    (h : begin stack.length s = .ok (.opened frame rest)) :
    (parseLoop ignoreRest).result ⟨stack, s, none⟩ = (parseLoop ignoreRest).result ⟨frame :: stack,
      rest, none⟩ := by
  apply Loop.result_again
  change parseTurn ignoreRest ⟨stack, s, none⟩ () = _
  simp only [parseTurn, h]

/-- and with the stack a value was put into. -/
theorem result_of_placed {top : Frame} {below : List Frame} {v : JsonNode} {s : Bytes}
    {st : ParseState} (h : Placed top below v s st) :
    (parseLoop ignoreRest).result ⟨top :: below, s, some v⟩ = (parseLoop ignoreRest).result st := by
  apply Loop.result_again
  change place ignoreRest (top :: below) v s = _
  exact place_of_placed h

/-- A scalar is read behind whitespace. -/
theorem begin_scalar {c : UInt8} {s rest : Bytes} {v : JsonNode} (hws : isWs c = false)
    (hc : ¬ (c = 0x7b ∨ c = 0x5b)) (h : scalar (c :: s) = .ok (v, rest)) {w : Bytes} (hw : Ws w)
    (depth : Nat) : begin depth (w ++ c :: s) = .ok (.value v rest) := by
  rw [begin, skipWs_append hw, skipWs_cons hws]
  dsimp only
  rw [if_neg hc, h]
  rfl

/-- Whitespace, a comma or a bracket ends a number. -/
theorem endsNumber_ws {w : Bytes} (hw : Ws w) {c : UInt8} (hc : c = 0x2c ∨ c = 0x5d ∨ c = 0x7d)
    (s : Bytes) : EndsNumber (w ++ c :: s) := by
  cases w with
  | nil => rcases hc with rfl | rfl | rfl <;> exact ⟨rfl, by simp, by simp, by simp⟩
  | cons b w => rcases hw b List.mem_cons_self with rfl | rfl | rfl | rfl <;> exact ⟨rfl, by simp,
    by simp, by simp⟩

/-- Nothing that whitespace begins with goes on with a number, -/
theorem endsNumber_of_ws {w : Bytes} (hw : Ws w) : EndsNumber w := by
  cases w with
  | nil => exact ⟨rfl, by simp, by simp, by simp⟩
  | cons b w => rcases hw b List.mem_cons_self with rfl | rfl | rfl | rfl <;> exact ⟨rfl, by simp,
    by simp, by simp⟩

/-- nor does the rest of an array, -/
theorem endsNumber_arrayRest {d : Nat} {t : Bytes} {vs : List JsonNode} (h : ArrayRest d t vs)
    (rest : Bytes) : EndsNumber (t ++ rest) := by
  cases h with
  | close hw => simpa using endsNumber_ws hw (.inr (.inl rfl)) rest
  | item hw _ _ _ => simpa using endsNumber_ws hw (.inl rfl) _

/-- nor that of an object. -/
theorem endsNumber_objectRest {d : Nat} {t : Bytes} {ms : List (JsString × JsonNode)}
    (h : ObjectRest d t ms) (rest : Bytes) : EndsNumber (t ++ rest) := by
  cases h with
  | close hw => simpa using endsNumber_ws hw (.inr (.inr rfl)) rest
  | member hw _ _ _ _ => simpa using endsNumber_ws hw (.inl rfl) _

/-- A number starts with a digit or a minus sign. -/
theorem numberText_head {n : Bytes} (h : NumberText n) :
    ∃ c s, n = c :: s ∧ (c = 0x2d ∨ isDigit c = true) := by
  obtain @⟨minus, int, frac, exp, hm, hi, hf, he⟩ := h
  rcases hm with rfl | rfl
  · cases hi with
    | zero => exact ⟨0x30, _, rfl, .inr rfl⟩
    | digits hds _ =>
      obtain ⟨b, t, rfl⟩ := List.exists_cons_of_ne_nil hds.1
      exact ⟨b, _, rfl, .inr (isDigit_iff.mpr (hds.2 b List.mem_cons_self))⟩
  · exact ⟨0x2d, _, rfl, .inl rfl⟩

/-- A number is read where none of its characters follows. -/
theorem scalar_number {n : Bytes} (h : NumberText n) {rest : Bytes} (hrest : EndsNumber rest) :
    scalar (n ++ rest) = .ok (.num (latin1Decode n), rest) := by
  have hnumber := number_append h hrest
  obtain ⟨c, s, rfl, hc⟩ := numberText_head h
  have hne : c ≠ 0x22 ∧ c ≠ 0x74 ∧ c ≠ 0x66 ∧ c ≠ 0x6e := by
    refine ⟨?_, ?_, ?_, ?_⟩ <;> rintro rfl <;> exact absurd hc (by decide)
  rw [List.cons_append] at hnumber ⊢
  unfold scalar
  dsimp only
  rw [if_neg hne.1, if_neg hne.2.1, if_neg hne.2.2.1, if_neg hne.2.2.2, if_pos hc, hnumber]

/-- A string is read up to its closing quote. -/
theorem scalar_string {body : Bytes} {v : JsString} (h : StringText body v) (rest : Bytes) :
    scalar (0x22 :: body ++ 0x22 :: rest) = .ok (.str v (IsPlainText body), rest) := by
  have hstr := str_append h rest
  rw [List.cons_append] at hstr ⊢
  unfold scalar
  dsimp only
  rw [if_pos rfl, hstr]
  rfl

theorem scalar_null (rest : Bytes) :
    scalar ([0x6e, 0x75, 0x6c, 0x6c] ++ rest) = .ok (.null, rest) :=
  literal_append "in literal null" _ [0x6e, 0x75, 0x6c, 0x6c] rest

theorem scalar_true (rest : Bytes) :
    scalar ([0x74, 0x72, 0x75, 0x65] ++ rest) = .ok (.bool true, rest) :=
  literal_append "in literal true" _ [0x74, 0x72, 0x75, 0x65] rest

theorem scalar_false (rest : Bytes) :
    scalar ([0x66, 0x61, 0x6c, 0x73, 0x65] ++ rest) = .ok (.bool false, rest) :=
  literal_append "in literal false" _ [0x66, 0x61, 0x6c, 0x73, 0x65] rest

/-- Behind whitespace and a bracket a container begins. -/
theorem begin_bracket {c : UInt8} (hc : c = 0x7b ∨ c = 0x5b) {w : Bytes} (hw : Ws w) {depth : Nat}
    (hd : depth < MAX_DEPTH) (s : Bytes) : begin depth (w ++ c :: s) = openFrame (c == 0x7b) s := by
  have hws : isWs c = false := by rcases hc with rfl | rfl <;> rfl
  rw [begin, skipWs_append hw, skipWs_cons hws]
  dsimp only
  rw [if_pos hc, if_neg (Nat.not_le.mpr hd)]

/-- An empty container is read whole. -/
theorem openFrame_empty (obj : Bool) {w : Bytes} (hw : Ws w) (rest : Bytes) :
    openFrame obj (w ++ closer obj :: rest) = .ok (.value (container obj [] []) rest) := by
  have hws : isWs (closer obj) = false := by cases obj <;> rfl
  rw [openFrame, skipWs_append hw, skipWs_cons hws, if_pos (by simp), List.tail_cons]

/-- An array opens in front of its first item, -/
theorem openFrame_array {w : Bytes} (hw : Ws w) {c : UInt8} (hws : isWs c = false) (hc : c ≠ 0x5d)
    (s : Bytes) : openFrame false (w ++ c :: s) = .ok (.opened ⟨false, [], [], []⟩ (c :: s)) := by
  rw [openFrame, skipWs_append hw, skipWs_cons hws, if_neg (by simpa [closer] using hc)]
  simp

theorem key_skipWs (s : Bytes) : key (skipWs s) = key s := by
  obtain ⟨w, hsplit, hw⟩ := ws_skipWs s
  have hidem := skipWs_append hw (skipWs s)
  rw [← hsplit] at hidem
  unfold key
  rw [← hidem]

/-- and an object behind its first key. -/
theorem openFrame_object {k : Bytes} {name : JsString} (hk : KeyText k name) (rest : Bytes) :
    openFrame true (k ++ rest) = .ok (.opened ⟨true, [], [], name⟩ rest) := by
  have hhead : (skipWs (k ++ rest)).head? = some 0x22 := by
    obtain ⟨hw, _, _⟩ := hk
    rw [List.append_assoc, List.append_assoc, List.append_assoc, skipWs_append hw, List.cons_append,
      skipWs_cons (by decide)]
    rfl
  rw [openFrame, hhead, if_neg (by decide), if_pos rfl, key_skipWs, key_append hk]
  rfl

/-- A value starts with a byte that is neither whitespace nor closes anything. -/
theorem valueText_head {d : Nat} {t : Bytes} {v : JsonNode} (h : ValueText d t v) :
    ∃ c s, t = c :: s ∧ isWs c = false ∧ c ≠ 0x5d := by
  cases h with
  | number hn =>
    obtain ⟨c, s, rfl, hc⟩ := numberText_head hn
    refine ⟨c, s, rfl, ?_, by rintro rfl; exact absurd hc (by decide)⟩
    rw [← Bool.not_eq_true, isWs_iff]
    rintro (rfl | rfl | rfl | rfl) <;> exact absurd hc (by decide)
  | _ => exact ⟨_, _, rfl, by decide, by decide⟩

/-- What may follow a value: anything, but only the end of a number may follow a number. -/
def MayFollow (v : JsonNode) (rest : Bytes) : Prop := (∀ raw, v ≠ .num raw) ∨ EndsNumber rest

mutual

/-- The run reads every value of the grammar, by induction on its derivation, -/
theorem value_accepted {d : Nat} {t : Bytes} {v : JsonNode} (h : ValueText d t v) :
    ∀ (stack : List Frame) (w rest : Bytes), stack.length + d ≤ MAX_DEPTH → Ws w →
      MayFollow v rest →
      (parseLoop ignoreRest).result ⟨stack, w ++ t ++ rest, none⟩ =
        (parseLoop ignoreRest).result ⟨stack, rest, some v⟩ := by
  intro stack w rest hd hw hrest
  rw [List.append_assoc]
  match h with
  | .null => exact result_of_begin (begin_scalar (by decide) (by decide) (scalar_null rest) hw _)
  | .true => exact result_of_begin (begin_scalar (by decide) (by decide) (scalar_true rest) hw _)
  | .false => exact result_of_begin (begin_scalar (by decide) (by decide) (scalar_false rest) hw _)
  | .number hn =>
    have hscalar := scalar_number hn (hrest.resolve_left fun h => h _ rfl)
    obtain ⟨c, s, rfl, hc⟩ := numberText_head hn
    have hws : isWs c = false := by
      rw [← Bool.not_eq_true, isWs_iff]
      rintro (rfl | rfl | rfl | rfl) <;> exact absurd hc (by decide)
    have hbracket : ¬ (c = 0x7b ∨ c = 0x5b) := by rintro (rfl | rfl) <;> exact absurd hc (by decide)
    exact result_of_begin (begin_scalar hws hbracket hscalar hw _)
  | .string (s := s) hs =>
    have heq : 0x22 :: s ++ [0x22] ++ rest = 0x22 :: (s ++ 0x22 :: rest) := by simp
    rw [heq]
    exact result_of_begin (begin_scalar (by decide) (by decide) (scalar_string hs rest) hw _)
  | .emptyArray (w := w₀) hw₀ =>
    have heq : 0x5b :: w₀ ++ [0x5d] ++ rest = 0x5b :: (w₀ ++ closer false :: rest) := by
      simp [closer]
    rw [heq]
    exact result_of_begin ((begin_bracket (.inr rfl) hw (by omega) _).trans
      (openFrame_empty false hw₀ rest))
  | .emptyObject (w := w₀) hw₀ =>
    have heq : 0x7b :: w₀ ++ [0x7d] ++ rest = 0x7b :: (w₀ ++ closer true :: rest) := by
      simp [closer]
    rw [heq]
    exact result_of_begin ((begin_bracket (.inl rfl) hw (by omega) _).trans
      (openFrame_empty true hw₀ rest))
  | .array (w := w₀) (s := s) (t := t) hw₀ hv ht =>
    obtain ⟨c, s', hs, hws, hc⟩ := valueText_head hv
    have heq : 0x5b :: w₀ ++ s ++ t ++ rest = 0x5b :: (w₀ ++ c :: (s' ++ (t ++ rest))) := by
      simp [hs]
    have hs' : c :: (s' ++ (t ++ rest)) = [] ++ s ++ (t ++ rest) := by simp [hs]
    rw [heq, result_of_opened ((begin_bracket (.inr rfl) hw (by omega) _).trans
      (openFrame_array hw₀ hws hc _)), hs',
        value_accepted hv _ [] (t ++ rest) (by simp only [List.length_cons]; omega) ws_nil
        (.inr (endsNumber_arrayRest ht rest))]
    exact arrayRest_accepted ht stack [] _ rest (by omega)
  | .object (k := k) (w := w₀) (s := s) (t := t) hk hw₀ hv ht =>
    have heq : 0x7b :: k ++ w₀ ++ s ++ t ++ rest = 0x7b :: (k ++ (w₀ ++ s ++ (t ++ rest))) := by
      simp
    rw [heq, result_of_opened ((begin_bracket (.inl rfl) hw (by omega) _).trans
      (openFrame_object hk _)),
        value_accepted hv _ w₀ (t ++ rest) (by simp only [List.length_cons]; omega) hw₀
        (.inr (endsNumber_objectRest ht rest))]
    exact objectRest_accepted ht stack [] _ _ rest (by omega)

/-- every rest of an array, -/
theorem arrayRest_accepted {d : Nat} {t : Bytes} {vs : List JsonNode} (h : ArrayRest d t vs) :
    ∀ (below : List Frame) (items : List JsonNode) (v : JsonNode) (rest : Bytes),
      below.length + 1 + d ≤ MAX_DEPTH →
      (parseLoop ignoreRest).result ⟨⟨false, [], items, []⟩ :: below, t ++ rest, some v⟩ =
        (parseLoop ignoreRest).result ⟨below, rest, some (.arr (items ++ v :: vs))⟩ := by
  intro below items v rest hd
  match h with
  | .close (w := w) hw =>
    have heq : w ++ [0x5d] ++ rest = w ++ closer false :: rest := by simp [closer]
    have hplaced : Placed ⟨false, [], items, []⟩ below v (w ++ closer false :: rest) _ := .close hw
    rw [heq, result_of_placed hplaced]
    rfl
  | @ArrayRest.item _ w w' s _ t _ hw hw' hv ht =>
    have heq : w ++ 0x2c :: w' ++ s ++ t ++ rest = w ++ 0x2c :: (w' ++ s ++ (t ++ rest)) := by simp
    have hplaced : Placed ⟨false, [], items, []⟩ below v (w ++ 0x2c :: (w' ++ s ++ (t ++ rest)))
      _ := .item rfl hw
    rw [heq, result_of_placed hplaced,
      value_accepted hv _ w' (t ++ rest) (by simp only [List.length_cons]; omega) hw'
      (.inr (endsNumber_arrayRest ht rest))]
    refine (arrayRest_accepted ht below (items ++ [v]) _ rest hd).trans ?_
    simp

/-- and every rest of an object. -/
theorem objectRest_accepted {d : Nat} {t : Bytes} {ms : List (JsString × JsonNode)}
    (h : ObjectRest d t ms) :
    ∀ (below : List Frame) (members : List (JsString × JsonNode)) (name : JsString) (v : JsonNode)
      (rest : Bytes), below.length + 1 + d ≤ MAX_DEPTH →
      (parseLoop ignoreRest).result ⟨⟨true, members, [], name⟩ :: below, t ++ rest, some v⟩ =
        (parseLoop ignoreRest).result ⟨below, rest, some (.obj (members ++ (name, v) :: ms))⟩ := by
  intro below members name v rest hd
  match h with
  | .close (w := w) hw =>
    have heq : w ++ [0x7d] ++ rest = w ++ closer true :: rest := by simp [closer]
    have hplaced : Placed ⟨true, members, [], name⟩ below v (w ++ closer true :: rest) _ :=
      .close hw
    rw [heq, result_of_placed hplaced]
    rfl
  | @ObjectRest.member _ w k key' w' s _ t _ hw hk hw' hv ht =>
    have heq : w ++ 0x2c :: k ++ w' ++ s ++ t ++ rest = w ++ 0x2c :: k ++
      (w' ++ s ++ (t ++ rest)) := by simp
    have hplaced : Placed ⟨true, members, [],
        name⟩ below v (w ++ 0x2c :: k ++ (w' ++ s ++ (t ++ rest))) _ :=
      .member rfl hw hk
    rw [heq, result_of_placed hplaced,
      value_accepted hv _ w' (t ++ rest) (by simp only [List.length_cons]; omega) hw'
      (.inr (endsNumber_objectRest ht rest))]
    refine (objectRest_accepted ht below (members ++ [(name, v)]) key' _ rest hd).trans ?_
    simp

end

/-- What the grammar derives both readers accept, with its tree. -/
theorem parse_of_jsonText {bytes : Bytes} {node : JsonNode} (h : JsonText MAX_DEPTH bytes node) :
    parse bytes ignoreRest = .ok node := by
  obtain @⟨w, s, v, w', hw, hv, hw'⟩ := h
  have hdepth : ([] : List Frame).length + MAX_DEPTH ≤ MAX_DEPTH := by simp
  rw [parse, value_accepted hv [] w w' hdepth hw (.inr (endsNumber_of_ws hw'))]
  apply Loop.result_done
  change place ignoreRest [] node w' = _
  rw [place, skipWs_ws hw']
  simp

/-- `parseJson` accepts exactly the grammar, with the tree the grammar derives, and what it throws
otherwise is a `JsonSyntaxError`. -/
theorem parseJson_exact (bytes : Bytes) :
    (∀ node, parseJson bytes = .ok node ↔ JsonText MAX_DEPTH bytes node) ∧
      ∀ t, parseJson bytes = .error t → ∃ e, t = .syntaxError e :=
  ⟨fun _ => ⟨jsonText_of_parseJson, fun h => parse_of_jsonText h⟩, fun t h =>
    (reports_parse bytes t h).imp fun _ he => he.1⟩

end AgentService
