import AgentService.Gateway.DecodedShape
import AgentService.Http.Answers

/-!
# What an error body is relayed as

A body is read as characters: the well-formed UTF-8 sequences, and the other bytes one by one. The
sentence of an error is chosen and cut by characters; the bytes it is sent as are compared here with
the bytes that were read.
-/

namespace AgentService
open Lib

/-! ## The characters of a body -/

/-- A well-formed sequence, or a byte that starts none. -/
inductive Character where
  | sequence (c : Char)
  | byte (b : UInt8)
  deriving DecidableEq, Repr

namespace Character

def bytes : Character → Bytes
  | sequence c => String.utf8EncodeChar c
  | byte b => [b]

/-- What it is in a text. -/
def shown : Character → Char
  | sequence c => c
  | byte _ => Utf8.replacement

def isSequence : Character → Bool
  | sequence _ => true
  | byte _ => false

end Character

/-- The characters of a body, from the left. -/
inductive Characters : Bytes → List Character → Prop
  | nil : Characters [] []
  | sequence {bs cs} (c : Char) (h : Characters bs cs) :
      Characters (String.utf8EncodeChar c ++ bs) (.sequence c :: cs)
  | byte {b bs cs} (hbad : ¬ StartsWellFormed (b :: bs)) (h : Characters bs cs) :
      Characters (b :: bs) (.byte b :: cs)

/-- Every body has characters. -/
theorem exists_characters (bs : Bytes) : ∃ cs, Characters bs cs := by
  induction hn : bs.length using Nat.strong_induction_on generalizing bs with
  | h n ih =>
    cases bs with
    | nil => exact ⟨[], .nil⟩
    | cons b bs =>
      by_cases hstarts : StartsWellFormed (b :: bs)
      · obtain ⟨c, t, heq⟩ := hstarts
        have hlt : t.length < n := by
          rw [← hn, heq, List.length_append, String.length_utf8EncodeChar]
          exact Nat.lt_add_of_pos_left (Char.utf8Size_pos c)
        obtain ⟨cs, hcs⟩ := ih _ hlt t rfl
        rw [heq]
        exact ⟨_, .sequence c hcs⟩
      · have hlt : bs.length < n := by
          rw [← hn]
          exact Nat.lt_succ_self _
        obtain ⟨cs, hcs⟩ := ih _ hlt bs rfl
        exact ⟨_, .byte hstarts hcs⟩

namespace Characters

variable {bs : Bytes} {cs : List Character}

/-- The characters are the body, cut up. -/
theorem flatMap_bytes (h : Characters bs cs) : cs.flatMap Character.bytes = bs := by
  induction h with
  | nil => rfl
  | sequence c _ ih => rw [List.flatMap_cons, ih, Character.bytes]
  | byte _ _ ih => rw [List.flatMap_cons, ih, Character.bytes, List.singleton_append]

/-- A body has its characters in one way. -/
theorem unique {cs' : List Character} (h : Characters bs cs) (h' : Characters bs cs') :
    cs' = cs := by
  induction h generalizing cs' with
  | nil =>
    generalize hbody : ([] : Bytes) = body at h'
    cases h' with
    | nil => rfl
    | sequence c _ =>
      obtain ⟨b, tail, hchar, -⟩ := encodeChar_head c
      rw [hchar] at hbody
      cases hbody
    | byte _ _ => cases hbody
  | @sequence bs cs c _ ih =>
    generalize hbody : String.utf8EncodeChar c ++ bs = body at h'
    cases h' with
    | nil =>
      obtain ⟨b, tail, hchar, -⟩ := encodeChar_head c
      rw [hchar] at hbody
      cases hbody
    | @sequence bs' cs' c' hcs' =>
      have hlen : (String.utf8EncodeChar c).length = (String.utf8EncodeChar c').length := by
        rw [← validLength_encodeChar c bs, hbody, validLength_encodeChar]
      obtain ⟨hchar, hrest⟩ := List.append_inj hbody hlen
      have hsame : [c] = [c'] := utf8Encode_injective (by simpa using hchar)
      rw [← hrest] at hcs'
      rw [(List.cons.inj hsame).1, ih hcs']
    | byte hbad _ => exact absurd ⟨c, bs, hbody.symm⟩ hbad
  | @byte b bs cs hbad _ ih =>
    generalize hbody : b :: bs = body at h'
    cases h' with
    | nil => cases hbody
    | @sequence bs' cs' c' _ => exact absurd ⟨c', bs', hbody⟩ hbad
    | byte _ hcs' =>
      cases hbody
      rw [ih hcs']

/-- A body of sequences only is the UTF-8 of its text. -/
theorem bytes_eq_encode (h : Characters bs cs) (hall : cs.all Character.isSequence = true) :
    bs = utf8Encode (cs.map Character.shown) := by
  rw [← h.flatMap_bytes]
  clear h
  induction cs with
  | nil => rfl
  | cons c cs ih =>
    rw [List.all_cons, Bool.and_eq_true] at hall
    rw [List.flatMap_cons, List.map_cons, utf8Encode_cons, ih hall.2]
    cases c with
    | sequence c => rfl
    | byte b => cases hall.1

end Characters

/-- The loop's entry for a character. -/
def Character.rune : Character → JsString × Bool
  | sequence c => (codePointUnits c.toNat, true)
  | byte _ => ([0xfffd], false)

theorem runesFrom_skip (as bs : Bytes) : runesFrom as.length (as ++ bs) = runesFrom 0 bs := by
  induction as with
  | nil => rfl
  | cons a as ih => exact ih

/-- The loop finds the characters. -/
theorem Characters.runes {bs : Bytes} {cs : List Character} (h : Characters bs cs) :
    runesFrom 0 bs = cs.map Character.rune := by
  induction h with
  | nil => rfl
  | @sequence bs cs c _ ih =>
    have hlen := validLength_encodeChar c bs
    have htext : utf8ToString (String.utf8EncodeChar c) = codePointUnits c.toNat := by
      have := utf8ToString_encode [c]
      simpa using this
    have htake := @List.take_left _ (String.utf8EncodeChar c) bs
    obtain ⟨b, tail, hchar, -⟩ := encodeChar_head c
    rw [List.map_cons, ← ih, Character.rune, ← htext]
    rw [hchar, List.cons_append] at hlen htake ⊢
    rw [runesFrom, hlen, htake, if_neg (by simp), List.length_cons, Nat.max_eq_left (by omega),
      Nat.add_sub_cancel, runesFrom_skip]
  | @byte b bs cs hbad _ ih =>
    have hzero : validLength (b :: bs) = 0 := by
      by_contra hne
      exact hbad (validLength_pos.mp (Nat.pos_of_ne_zero hne))
    rw [List.map_cons, ← ih, runesFrom, hzero]
    rfl

theorem runes_text (cs : List Character) :
    ((cs.map Character.rune).map Prod.fst).flatten = utf16 (cs.map Character.shown) := by
  induction cs with
  | nil => rfl
  | cons c cs ih =>
    rw [List.map_cons, List.map_cons, List.flatten_cons, ih, List.map_cons, utf16_cons]
    cases c <;> rfl

theorem runes_valid (cs : List Character) :
    (cs.map Character.rune).all Prod.snd = cs.all Character.isSequence := by
  rw [List.all_map]
  congr 1
  funext c
  cases c <;> rfl

/-! ## White space -/

/-- A character that `goTrimSpace` takes off. -/
def IsGoSpace (c : Char) : Prop := isSpacePoint (codePointUnits c.toNat) = true

theorem codePoints_codePoint (c : Char) (s : JsString) :
    codePoints (codePointUnits c.toNat ++ s) = codePointUnits c.toNat :: codePoints s := by
  rcases codePointUnits_cases c with ⟨u, hunits, hhigh, -, -⟩ | ⟨u, v, hunits, hhigh, hlow, -⟩
  · rw [hunits]
    cases s with
    | nil => simp [codePoints]
    | cons v s => simp [codePoints, hhigh]
  · rw [hunits]
    simp [codePoints, hhigh, hlow]

/-- A text is read by its characters. -/
theorem codePoints_utf16 (cs : List Char) : codePoints (utf16 cs) = cs.map fun c =>
    codePointUnits c.toNat := by
  induction cs with
  | nil => rfl
  | cons c cs ih => rw [utf16_cons, codePoints_codePoint, ih, List.map_cons]

/-- Nothing is left of a text of spaces, and of no other. -/
theorem goTrimSpace_utf16 (cs : List Char) :
    goTrimSpace (utf16 cs) = [] ↔ ∀ c ∈ cs, IsGoSpace c := by
  rw [goTrimSpace, codePoints_utf16]
  constructor
  · intro h c hc
    generalize hpoints : (cs.map fun c => codePointUnits c.toNat) = points at h
    have hne : ∀ p ∈ points, p ≠ [] := by
      rw [← hpoints]
      intro p hp
      obtain ⟨d, -, rfl⟩ := List.mem_map.mp hp
      exact codePointUnits_ne_nil d.toNat
    have hdropped : (points.dropWhile isSpacePoint).rdropWhile isSpacePoint = [] := by
      apply List.eq_nil_iff_forall_not_mem.mpr
      intro p hp
      have hmem := (List.dropWhile_sublist isSpacePoint).subset
        ((List.rdropWhile_prefix isSpacePoint _).subset hp)
      exact hne p hmem (List.flatten_eq_nil_iff.mp h p hp)
    have hmem : codePointUnits c.toNat ∈ points := by
      rw [← hpoints]
      exact List.mem_map_of_mem hc
    rw [← @List.takeWhile_append_dropWhile _ isSpacePoint points] at hmem
    rcases List.mem_append.mp hmem with hmem | hmem
    · exact List.mem_takeWhile_imp hmem
    · exact List.rdropWhile_eq_nil_iff.mp hdropped _ hmem
  · intro h
    have hall : (cs.map fun c => codePointUnits c.toNat).dropWhile isSpacePoint = [] := by
      rw [List.dropWhile_eq_nil_iff]
      intro u hu
      obtain ⟨c, hc, rfl⟩ := List.mem_map.mp hu
      exact h c hc
    rw [hall]
    rfl

/-! ## The sentence -/

section
variable (unicode : Unicode) (doubles : Doubles)

/-- The body is an envelope whose message is the text, which is not blank. -/
def Lifts (body : Bytes) (message : List Char) : Prop :=
  (∃ v, decode unicode doubles envelope body = .ok v ∧ errorMessage v = utf16 message) ∧
    ∃ c ∈ message, ¬ IsGoSpace c

/-- The message of an envelope is a text. -/
theorem errorMessage_text {body : Bytes} {v : Value}
    (h : decode unicode doubles envelope body = .ok v) :
    ∃ message, errorMessage v = utf16 message := by
  obtain ⟨members, rfl, hmembers⟩ : ∃ members, v = .struct members ∧
      FitsFields [(js "error", .struct [(js "message", .text)])] members := by
    cases fits_decode h with
    | struct hs => exact ⟨_, rfl, hs⟩
  obtain ⟨e, herror, he⟩ :=
    hmembers.get (show getMember (js "error") _ = some (.struct [(js "message", .text)]) from rfl)
  obtain ⟨inner, rfl, hinner⟩ : ∃ inner, e = .struct inner ∧
      FitsFields [(js "message", .text)] inner := by
    cases he with
    | struct hs => exact ⟨_, rfl, hs⟩
  obtain ⟨m, hmessage, hm⟩ := hinner.get (show getMember (js "message") _ = some .text from rfl)
  cases hm with
  | text cs =>
    refine ⟨cs, ?_⟩
    unfold errorMessage Value.members
    rw [herror, Option.bind_some]
    dsimp only
    rw [hmessage]

variable {unicode doubles}

theorem upstreamMessageOf_lifted {body : Bytes} {message : List Char}
    (h : Lifts unicode doubles body message) :
    upstreamMessageOf unicode doubles body = .ok (utf16 message, none) := by
  obtain ⟨⟨v, hdecode, hmessage⟩, c, hc, hspace⟩ := h
  have hne : goTrimSpace (utf16 message) ≠ [] := fun heq =>
    hspace ((goTrimSpace_utf16 message).mp heq c hc)
  rw [upstreamMessageOf, envelopeMessage, hdecode]
  dsimp only
  rw [ok_bind, Option.filter_some, hmessage, if_pos (by simpa using hne)]
  rfl

/-- Any other body is read by its characters. -/
theorem upstreamMessageOf_characters {body : Bytes} {cs : List Character}
    (h : ∀ message, ¬ Lifts unicode doubles body message) (hcs : Characters body cs) :
    upstreamMessageOf unicode doubles body =
      if goTrimSpace (utf16 (cs.map Character.shown)) = [] then .ok (NO_MESSAGE, none)
      else if MAX_MESSAGE_LENGTH < cs.length then
        .ok (utf16 ((cs.take MAX_MESSAGE_LENGTH).map Character.shown), none)
      else .ok (utf16 (cs.map Character.shown), if cs.all Character.isSequence then none
        else some body) := by
  have hlifted : ∃ lifted, envelopeMessage unicode doubles body = .ok lifted ∧
      lifted.filter (fun message => goTrimSpace message ≠ []) = none := by
    unfold envelopeMessage
    cases hdecode : decode unicode doubles envelope body with
    | ok v =>
      obtain ⟨message, hmessage⟩ := errorMessage_text unicode doubles hdecode
      refine ⟨_, rfl, ?_⟩
      by_contra hne
      refine h message ⟨⟨v, hdecode, hmessage⟩, ?_⟩
      by_contra hspace
      have hblank : goTrimSpace (errorMessage v) = [] := by
        rw [hmessage, goTrimSpace_utf16]
        intro c hc
        by_contra hnot
        exact hspace ⟨c, hc, hnot⟩
      apply hne
      rw [Option.filter_some, if_neg (by simpa using hblank)]
    | error e =>
      obtain ⟨d, rfl⟩ := decode_error hdecode
      exact ⟨none, rfl, rfl⟩
  obtain ⟨lifted, hlifted, hnone⟩ := hlifted
  rw [upstreamMessageOf, hlifted, ok_bind]
  dsimp only
  rw [hnone]
  dsimp only
  rw [hcs.runes, runes_text, List.length_map, ← List.map_take, runes_text, runes_valid]
  split
  · rfl
  · split
    · rfl
    · rfl

/-! ## What was read -/

theorem readChunks_take (limit : Nat) (chunks : List Bytes) (size : Nat) (before : Bytes)
    (hsize : before.length = size) :
    (before ++ (readChunks limit size chunks).flatten).take limit =
      (before ++ chunks.flatten).take limit := by
  induction chunks generalizing size before with
  | nil => rfl
  | cons chunk chunks ih =>
    rw [readChunks]
    split
    · rw [List.flatten_cons, List.flatten_cons, ← List.append_assoc, ← List.append_assoc]
      exact ih (size + chunk.length) (before ++ chunk) (by rw [List.length_append, hsize])
    · rename_i hfull
      have hlimit : limit ≤ before.length := by omega
      rw [List.take_append_of_le_length hlimit, List.take_append_of_le_length hlimit]

/-- However a body comes in, its first bytes are read. -/
theorem readCapped_eq (body : BodyStream) (limit : Nat) :
    readCapped body limit = body.chunks.flatten.take limit :=
  readChunks_take limit body.chunks 0 [] rfl

variable (unicode doubles)

/-- A body that comes out blank: no envelope's message, and nothing but space up to the cut, beyond
which something else stands. -/
def IsCutBlank (body : Bytes) : Prop :=
  (∀ message, ¬ Lifts unicode doubles body message) ∧
    ∃ cs, Characters body cs ∧ (∀ c ∈ cs.take 500, IsGoSpace c.shown) ∧ ∃ c ∈ cs.drop 500,
      ¬ IsGoSpace c.shown

theorem goTrimSpace_shown (cs : List Character) :
    goTrimSpace (utf16 (cs.map Character.shown)) = [] ↔ ∀ c ∈ cs, IsGoSpace c.shown := by
  rw [goTrimSpace_utf16]
  exact List.forall_mem_map

variable {unicode doubles}

/-- The sentence of such a body is blank. -/
theorem IsCutBlank.message {body : Bytes} (h : IsCutBlank unicode doubles body) :
    ∃ message, upstreamMessageOf unicode doubles body = .ok (message, none) ∧
      goTrimSpace message = [] := by
  obtain ⟨hlifts, cs, hcs, hspace, c, hc, hnot⟩ := h
  have hlong : 500 < cs.length := by
    by_contra hshort
    rw [List.drop_eq_nil_of_le (by omega)] at hc
    cases hc
  refine ⟨_, ?_, (goTrimSpace_shown (cs.take 500)).mpr hspace⟩
  rw [upstreamMessageOf_characters hlifts hcs, if_neg, MAX_MESSAGE_LENGTH, if_pos hlong]
  rw [goTrimSpace_shown]
  exact fun hall => hnot (hall c (List.mem_of_mem_drop hc))

/-- The sentence of any other is not. -/
theorem message_of_not_cutBlank {body : Bytes} (h : ¬ IsCutBlank unicode doubles body) :
    ∃ message raw, upstreamMessageOf unicode doubles body = .ok (message, raw) ∧
      goTrimSpace message ≠ [] := by
  by_cases hlifts : ∃ message, Lifts unicode doubles body message
  · obtain ⟨message, hmessage⟩ := hlifts
    refine ⟨_, _, upstreamMessageOf_lifted hmessage, ?_⟩
    obtain ⟨-, c, hc, hspace⟩ := hmessage
    exact fun heq => hspace ((goTrimSpace_utf16 message).mp heq c hc)
  · rw [not_exists] at hlifts
    obtain ⟨cs, hcs⟩ := exists_characters body
    rw [upstreamMessageOf_characters hlifts hcs]
    split
    · exact ⟨_, _, rfl, by decide⟩
    · rename_i hblank
      rw [goTrimSpace_shown] at hblank
      split
      · refine ⟨_, _, rfl, ?_⟩
        rw [Ne, goTrimSpace_shown]
        intro hspace
        refine h ⟨hlifts, cs, hcs, hspace, ?_⟩
        by_contra hrest
        apply hblank
        intro c hc
        rw [← List.take_append_drop 500 cs] at hc
        rcases List.mem_append.mp hc with hc | hc
        · exact hspace c hc
        · by_contra hnot
          exact hrest ⟨c, hc, hnot⟩
      · refine ⟨_, _, rfl, ?_⟩
        rw [Ne, goTrimSpace_shown]
        exact hblank

/-- A gateway's error has a sentence, unless nothing but space is left of its body by the cut. -/
theorem upstreamMessage_nonblank_iff (unicode : Unicode) (doubles : Doubles) (body : BodyStream) :
    ∃ message raw, upstreamMessageOf unicode doubles (readCapped body MAX_ERROR_BODY) =
      .ok (message, raw) ∧
      (goTrimSpace message ≠ [] ↔
        ¬ IsCutBlank unicode doubles (body.chunks.flatten.take 65536)) := by
  rw [readCapped_eq, MAX_ERROR_BODY]
  by_cases hblank : IsCutBlank unicode doubles (body.chunks.flatten.take 65536)
  · obtain ⟨message, hmessage, htrim⟩ := hblank.message
    exact ⟨message, none, hmessage, fun hne => absurd htrim hne, fun hnot => absurd hblank hnot⟩
  · obtain ⟨message, raw, hmessage, htrim⟩ := message_of_not_cutBlank hblank
    exact ⟨message, raw, hmessage, fun _ => hblank, fun _ => htrim⟩

/-- 500 spaces and a letter. -/
def spacesBody : BodyStream := ⟨[List.replicate 500 0x20 ++ [0x78]], true⟩

theorem spacesBody_blank : ¬ ∀ (unicode : Unicode) (doubles : Doubles) (body : BodyStream),
    ∃ message raw, upstreamMessageOf unicode doubles (readCapped body MAX_ERROR_BODY) =
      .ok (message, raw) ∧ goTrimSpace message ≠ [] := by
  intro h
  obtain ⟨message, raw, hmessage, htrim⟩ := h plainUnicode plainDoubles spacesBody
  have hrun : upstreamMessageOf plainUnicode plainDoubles (readCapped spacesBody MAX_ERROR_BODY) =
      .ok (List.replicate 500 0x20, none) := by decide +kernel
  rw [hrun] at hmessage
  cases hmessage
  exact htrim (by decide +kernel)

/-! ## The bytes that are sent -/

theorem stringToUtf8_line (message : List Char) :
    stringToUtf8 (utf16 message ++ js "\n") = utf8Encode message ++ [0x0a] := by
  have hline : js "\n" = utf16 ['\n'] := by decide
  rw [hline, ← utf16_append, stringToUtf8_utf16, utf8Encode_append]
  rfl

/-- A relayed error's body is its bytes, where it carries any, or its message, on a line. -/
theorem writeUpstream_body (e : UpstreamError) :
    (writeUpstream e).body = match e.raw with
      | some bytes => bytes ++ [0x0a]
      | none => stringToUtf8 (e.message ++ js "\n") := by
  unfold writeUpstream sendText
  cases e.raw with
  | none => rfl
  | some bytes => rfl

theorem upstreamErrorFrom_eq {res : Response} {call : Call} {message : JsString}
    {raw : Option Bytes} (h : upstreamMessageOf unicode doubles
      (readCapped res.body MAX_ERROR_BODY) = .ok (message, raw)) :
    upstreamErrorFrom unicode doubles res call = .ok ⟨res.status, message, call.name,
      pacingHeaders res.header, raw⟩ := by
  rw [upstreamErrorFrom, h]
  rfl

/-- A body of at most 500 characters goes out as it came, whichever of the two carries it. -/
theorem short_body_sent {body : Bytes} {cs : List Character} (hcs : Characters body cs)
    {e : UpstreamError} (hmessage : e.message = utf16 (cs.map Character.shown))
    (hraw : e.raw = if cs.all Character.isSequence then none else some body) :
    (writeUpstream e).body = body ++ [0x0a] := by
  rw [writeUpstream_body, hraw]
  by_cases hall : cs.all Character.isSequence = true
  · rw [if_pos hall]
    dsimp only
    rw [hmessage, stringToUtf8_line, ← hcs.bytes_eq_encode hall]
  · rw [if_neg hall]

/-- What is sent of an error body: an envelope's message whole; any other body that is not blank as
it came, up to 500 characters, and beyond them its first 500 as UTF-8. -/
theorem error_body_relayed (unicode : Unicode) (doubles : Doubles) (res : Response) (call : Call) :
    let body := res.body.chunks.flatten.take 65536
    ∃ e cs, upstreamErrorFrom unicode doubles res call = .ok e ∧ Characters body cs ∧
      (∀ cs', Characters body cs' → cs' = cs) ∧
      (∀ message, Lifts unicode doubles body message →
        (writeUpstream e).body = utf8Encode message ++ [0x0a]) ∧
      ((∀ message, ¬ Lifts unicode doubles body message) → (∃ c ∈ cs, ¬ IsGoSpace c.shown) →
        (cs.length ≤ 500 → (writeUpstream e).body = body ++ [0x0a]) ∧
        (500 < cs.length → (writeUpstream e).body =
          utf8Encode ((cs.take 500).map Character.shown) ++ [0x0a])) := by
  intro body
  have hread : readCapped res.body MAX_ERROR_BODY = body := readCapped_eq res.body MAX_ERROR_BODY
  obtain ⟨cs, hcs⟩ := exists_characters body
  by_cases hlifts : ∃ message, Lifts unicode doubles body message
  · obtain ⟨message, hmessage⟩ := hlifts
    have hrun := upstreamMessageOf_lifted hmessage
    rw [← hread] at hrun
    refine ⟨_, cs, upstreamErrorFrom_eq hrun, hcs, fun _ => hcs.unique, ?_, fun hnot =>
      absurd hmessage (hnot message)⟩
    intro message' hmessage'
    have hsame : utf16 message' = utf16 message := by
      rw [hread, upstreamMessageOf_lifted hmessage'] at hrun
      exact congrArg Prod.fst (Except.ok.inj hrun)
    rw [writeUpstream_body]
    dsimp only
    rw [← hsame, stringToUtf8_line]
  · rw [not_exists] at hlifts
    have hrun := upstreamMessageOf_characters hlifts hcs
    by_cases hblank : goTrimSpace (utf16 (cs.map Character.shown)) = []
    · rw [if_pos hblank, ← hread] at hrun
      refine ⟨_, cs, upstreamErrorFrom_eq hrun, hcs, fun _ => hcs.unique, fun message h =>
        absurd h (hlifts message), ?_⟩
      rintro - ⟨c, hc, hspace⟩
      exact absurd ((goTrimSpace_shown cs).mp hblank c hc) hspace
    · rw [if_neg hblank, MAX_MESSAGE_LENGTH] at hrun
      by_cases hlong : 500 < cs.length
      · rw [if_pos hlong, ← hread] at hrun
        refine ⟨_, cs, upstreamErrorFrom_eq hrun, hcs, fun _ => hcs.unique, fun message h =>
          absurd h (hlifts message), ?_⟩
        rintro - -
        refine ⟨fun hshort => absurd hshort (by omega), fun _ => ?_⟩
        rw [writeUpstream_body]
        exact stringToUtf8_line _
      · rw [if_neg hlong, ← hread] at hrun
        refine ⟨_, cs, upstreamErrorFrom_eq hrun, hcs, fun _ => hcs.unique, fun message h =>
          absurd h (hlifts message), ?_⟩
        rintro - -
        refine ⟨fun _ => ?_, fun hlong' => absurd hlong' hlong⟩
        exact short_body_sent hcs rfl (by rw [hread])

end

end AgentService
