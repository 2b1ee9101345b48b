import AgentService.Db.HistoryReads
import AgentService.Gateway.DecodedShape
import AgentService.Http.Answers

/-!
# Writing an answer in pieces (`sendJson` of `src/http/json.ts`)

The pieces come from the generator one by one and go out a megabyte at a time. What the response
says to a `write`, and how a wait for room ends, is given by the environment. `sendJson` of the
answers is what this comes to on a response that stays open.
-/

namespace AgentService
open Lib

/-- `CHUNK`: about how much is written to the socket at a time. -/
def CHUNK : Nat := 1048576

/-- What a `write` meets with. -/
structure WriteAnswer where
  /-- What `write` returns: there is room for more. -/
  full : Bool
  /-- The response is destroyed in the call. -/
  destroyed : Bool
  /-- Where there is no room, how `drained` resolves: whether the response is destroyed by then. It
  never resolves when neither 'drain' nor 'close' comes. -/
  drained : Option Bool

/-- A `write` or an `end`, by its chunk; `late` says that the response was destroyed already. -/
inductive ResponseCall where
  | write (chunk : JsString) (late : Bool)
  | finish (chunk : Option JsString) (late : Bool)
  deriving DecidableEq, Repr

namespace ResponseCall

def chunk : ResponseCall → JsString
  | write chunk _ => chunk
  | finish chunk _ => chunk.getD []

def late : ResponseCall → Bool
  | write _ late => late
  | finish _ late => late

end ResponseCall

/-- How `sendJson` ends. -/
inductive SendEnd where
  | returned
  | threw (e : TypeError)
  /-- It waits for room that never comes. -/
  | waiting
  deriving DecidableEq, Repr

structure Sent where
  calls : List ResponseCall
  ends : SendEnd
  deriving DecidableEq, Repr

/-- Everything written. -/
def Sent.text (s : Sent) : JsString := s.calls.flatMap ResponseCall.chunk

/-- The variables of the loop, with the pieces still to come. -/
structure Sending where
  left : List JsString
  pending : List JsString
  size : Nat
  calls : List ResponseCall
  destroyed : Bool

/-- One turn of the loop over the pieces; `thrown` is what the generator throws
behind its last one. -/
def sendTurn (thrown : Option TypeError) (s : Sending) (answer : WriteAnswer) : Turn Sending Sent :=
  match s.left with
  | [] =>
    match thrown with
    | some e => .done ⟨s.calls, .threw e⟩
    | none =>
      .done ⟨s.calls ++ [.finish (some (s.pending ++ [js "\n"]).flatten) s.destroyed], .returned⟩
  | piece :: left =>
    let pending := s.pending ++ [piece]
    let size := s.size + piece.length
    if size < CHUNK then .again { s with left, pending, size }
    else
      let calls := s.calls ++ [.write pending.flatten s.destroyed]
      let destroyed := s.destroyed || answer.destroyed
      if destroyed then .done ⟨calls, .returned⟩
      else if answer.full then .again ⟨left, [], 0, calls, destroyed⟩
      else
        match answer.drained with
        | none => .done ⟨calls, .waiting⟩
        | some destroyed => .again ⟨left, [], 0, calls, destroyed⟩

/-- Each turn takes a piece. -/
theorem sendTurn_rank {thrown : Option TypeError} {s s' : Sending} {answer : WriteAnswer}
    (h : sendTurn thrown s answer = .again s') : s'.left.length < s.left.length := by
  unfold sendTurn at h
  split at h
  · split at h <;> cases h
  · rename_i piece left hleft
    rw [hleft, List.length_cons]
    dsimp only at h
    split_ifs at h
    · cases h
      exact Nat.lt_succ_self _
    · cases h
      exact Nat.lt_succ_self _
    · split at h
      · cases h
      · cases h
        exact Nat.lt_succ_self _

def sendLoop (thrown : Option TypeError) : Loop Sending WriteAnswer Sent where
  turn := sendTurn thrown
  rank s := s.left.length
  rank_lt := sendTurn_rank

namespace Streaming

/-- `sendJson`, call by call. -/
def sendJson (doubles : Doubles) (value : Value) (answers : Nat → WriteAnswer) : Sent :=
  if hasUnencodable value then ⟨[.finish none false], .returned⟩
  else
    let pieces := Generators.jsonPieces doubles value
    ((sendLoop pieces.thrown).run ⟨pieces.yields, [], 0, [], false⟩ answers).2

end Streaming

/-! ## The loop -/

/-- Nothing is lost and nothing is written twice, and nothing has been written too late. -/
structure Sending.IsSound (text : JsString) (s : Sending) : Prop where
  text : s.calls.flatMap ResponseCall.chunk ++ s.pending.flatten ++ s.left.flatten = text
  late : ∀ call ∈ s.calls, call.late = false

/-- What the loop comes to: a prefix of the text and its newline, with at most one
late call behind the others. -/
structure Sent.IsPrefix (text : JsString) (s : Sent) : Prop where
  text : s.text <+: text ++ js "\n"
  late : ∃ before last, s.calls = before ++ last ∧ (∀ call ∈ before, call.late = false) ∧
    last.length ≤ 1
  ends : ∀ e, s.ends ≠ .threw e

/-- The response takes what it is given: it is not destroyed, and each wait ends with room. -/
def WriteAnswer.IsOpen (answer : WriteAnswer) : Prop :=
  answer.destroyed = false ∧ (answer.full = false → answer.drained = some false)

theorem isPrefix_call {text : JsString} {calls : List ResponseCall} {call : ResponseCall}
    {ends : SendEnd} (htext : (calls ++ [call]).flatMap ResponseCall.chunk <+: text ++ js "\n")
    (hlate : ∀ c ∈ calls, c.late = false)
    (hends : ∀ e, ends ≠ .threw e) : Sent.IsPrefix text ⟨calls ++ [call], ends⟩ :=
  ⟨htext, ⟨calls, [call], rfl, hlate, Nat.le_refl 1⟩, hends⟩

theorem sendTurn_again {text : JsString} {thrown : Option TypeError} {s s' : Sending}
    {answer : WriteAnswer} (hs : s.IsSound text) (h : sendTurn thrown s answer = .again s') :
    s'.IsSound text ∧ (answer.IsOpen → s.destroyed = false → s'.destroyed = false) := by
  unfold sendTurn at h
  split at h
  · split at h <;> cases h
  · rename_i piece left hleft
    have htext := hs.text
    rw [hleft, List.flatten_cons] at htext
    have hwritten (destroyed : Bool) :
        (⟨left, [], 0, s.calls ++ [.write (s.pending ++ [piece]).flatten s.destroyed], destroyed⟩ :
            Sending).IsSound text ↔
          ∀ call ∈ s.calls ++ [.write (s.pending ++ [piece]).flatten s.destroyed],
            call.late = false := by
      refine ⟨fun h => h.late, fun h => ⟨?_, h⟩⟩
      simpa [ResponseCall.chunk] using htext
    have hlate (halive : s.destroyed = false) :
        ∀ call ∈ s.calls ++ [.write (s.pending ++ [piece]).flatten s.destroyed],
          call.late = false := by
      intro call hcall
      rcases List.mem_append.mp hcall with hcall | hcall
      · exact hs.late call hcall
      · rw [List.mem_singleton.mp hcall]
        exact halive
    dsimp only at h
    split_ifs at h with hsize hdestroyed hfull
    · cases h
      refine ⟨⟨?_, hs.late⟩, fun _ halive => halive⟩
      simpa using htext
    · obtain ⟨halive, -⟩ := Bool.or_eq_false_iff.mp (Bool.not_eq_true _ ▸ hdestroyed)
      cases h
      refine ⟨(hwritten _).mpr (hlate halive), fun hopen _ => ?_⟩
      rw [halive, hopen.1]
      rfl
    · obtain ⟨halive, -⟩ := Bool.or_eq_false_iff.mp (Bool.not_eq_true _ ▸ hdestroyed)
      split at h
      · cases h
      · rename_i destroyed hdrained
        cases h
        refine ⟨(hwritten _).mpr (hlate halive), fun hopen _ => ?_⟩
        have hroom := hopen.2 (Bool.not_eq_true _ ▸ hfull)
        rw [hdrained] at hroom
        exact Option.some.inj hroom

theorem sendTurn_done {text : JsString} {s : Sending} {answer : WriteAnswer} {sent : Sent}
    (hs : s.IsSound text) (h : sendTurn none s answer = .done sent) :
    sent.IsPrefix text ∧ (answer.IsOpen → s.destroyed = false →
      sent.ends = .returned ∧ sent.text = text ++ js "\n") := by
  have htext := hs.text
  unfold sendTurn at h
  split at h
  · rename_i hleft
    rw [hleft, List.flatten_nil, List.append_nil] at htext
    have hall : (s.calls ++ [ResponseCall.finish (some (s.pending ++ [js "\n"]).flatten)
      s.destroyed]).flatMap ResponseCall.chunk =
        text ++ js "\n" := by
      simp [ResponseCall.chunk, ← htext]
    cases h
    exact ⟨isPrefix_call (hall ▸ List.prefix_refl _) hs.late (by simp), fun _ _ => ⟨rfl, hall⟩⟩
  · rename_i piece left hleft
    rw [hleft, List.flatten_cons] at htext
    have hpre : (s.calls ++ [ResponseCall.write (s.pending ++ [piece]).flatten s.destroyed]).flatMap
      ResponseCall.chunk <+:
        text ++ js "\n" := by
      refine ⟨left.flatten ++ js "\n", ?_⟩
      simp [ResponseCall.chunk, ← htext]
    dsimp only at h
    split_ifs at h with hsize hdestroyed hfull
    · cases h
      refine ⟨isPrefix_call hpre hs.late (by simp), fun hopen halive => ?_⟩
      rw [halive, hopen.1] at hdestroyed
      cases hdestroyed
    · split at h
      · rename_i hdrained
        cases h
        refine ⟨isPrefix_call hpre hs.late (by simp), fun hopen _ => ?_⟩
        have hroom := hopen.2 (Bool.not_eq_true _ ▸ hfull)
        rw [hdrained] at hroom
        cases hroom
      · cases h

theorem sendLoop_run {text : JsString} {s : Sending} (answers : Nat → WriteAnswer)
    (hs : s.IsSound text) :
    ((sendLoop none).run s answers).2.IsPrefix text ∧
      ((∀ i, (answers i).IsOpen) → s.destroyed = false →
        ((sendLoop none).run s answers).2.ends = .returned ∧
          ((sendLoop none).run s answers).2.text = text ++ js "\n") := by
  refine Loop.run_induction (L := sendLoop none)
    (P := fun s answers r => s.IsSound text → r.2.IsPrefix text ∧
      ((∀ i, (answers i).IsOpen) → s.destroyed = false →
      r.2.ends = .returned ∧ r.2.text = text ++ js "\n")) ?_ ?_ s answers hs
  · intro s answers sent hturn hs
    change sendTurn none s (answers 0) = _ at hturn
    obtain ⟨hpre, hall⟩ := sendTurn_done hs hturn
    exact ⟨hpre, fun hopen => hall (hopen 0)⟩
  · intro s answers s' hturn ih hs
    change sendTurn none s (answers 0) = _ at hturn
    obtain ⟨hs', halive⟩ := sendTurn_again hs hturn
    obtain ⟨hpre, hall⟩ := ih hs'
    exact ⟨hpre, fun hopen hs => hall (fun i => hopen (i + 1)) (halive (hopen 0) hs)⟩

/-! ## Answers -/

theorem HistoryValue.isFinite {v : Value} (h : HistoryValue v) : v.isFinite = true := by
  have hall {α : Type} (value : α → Value) (hvalue : ∀ a, (value a).isFinite = true)
      (rows : List α) :
      (Value.list (rows.map value)).isFinite = true := by
    change allFinite (rows.map value) = true
    induction rows with
    | nil => rfl
    | cons a rows ih =>
      rw [List.map_cons, allFinite, hvalue, ih]
      rfl
  cases h with
  | deliveries rows =>
    apply hall
    intro d
    rfl
  | transactions rows =>
    apply hall
    intro t
    obtain ⟨type, shipSymbol, waypointSymbol, shipType, tradeSymbol, units, pricePerUnit,
      totalPrice, agentCredits, occurredAt⟩ := t
    cases shipType <;> cases tradeSymbol <;> cases units <;> cases pricePerUnit <;> rfl

/-- What is answered: a decoded value, or what the history is read as. -/
inductive Answered (doubles : Doubles) (v : Value) : Prop
  | decoded {unicode schema body} (h : decode unicode doubles schema body = .ok v)
  | first {unicode schema body} (h : decodeFirstValue unicode doubles schema body = .ok v)
  | history (h : HistoryValue v)

theorem Answered.isFinite {doubles : Doubles} {v : Value} (h : Answered doubles v) :
    v.isFinite = true := by
  cases h with
  | decoded h => exact (fits_decode h).isFinite
  | first h => exact (fits_decodeFirstValue h).isFinite
  | history h => exact h.isFinite

theorem sendJson_finite {doubles : Doubles} {v : Value} (h : v.isFinite = true) :
    ((Generators.jsonPieces doubles v).thrown.isSome = true ↔ hasUnencodable v = true) ∧
    (hasUnencodable v = true → ∀ answers, Streaming.sendJson doubles v answers =
      ⟨[.finish none false], .returned⟩) ∧
    (hasUnencodable v = false → ∃ text, stringifyJson doubles v = .ok text ∧
      ∀ answers, (Streaming.sendJson doubles v answers).IsPrefix text ∧
        ((∀ i, (answers i).IsOpen) → (Streaming.sendJson doubles v answers).ends = .returned ∧
          (Streaming.sendJson doubles v answers).text = text ++ js "\n")) := by
  have hok : (Generators.jsonPieces doubles v).thrown.isNone = !hasUnencodable v := by
    rw [← Generator.collect_isOk, collect_jsonPieces, jsonPieces_isOk, h, Bool.and_true]
  refine ⟨?_, ?_, ?_⟩
  · rw [← Option.not_isNone, hok, Bool.not_not]
  · intro hno answers
    exact if_pos hno
  · intro hno
    rw [hno] at hok
    have hcollect := Generator.collect_eq_ok.mpr ⟨Option.isNone_iff_eq_none.mp hok, rfl⟩
    have hpieces := (collect_jsonPieces doubles v).symm.trans hcollect
    refine ⟨(Generators.jsonPieces doubles v).yields.flatten, by rw [stringifyJson, hpieces]; rfl,
      fun answers => ?_⟩
    have hstart : Sending.IsSound (Generators.jsonPieces doubles v).yields.flatten
        ⟨(Generators.jsonPieces doubles v).yields, [], 0, [], false⟩ := ⟨rfl, by simp⟩
    have hsend : Streaming.sendJson doubles v answers =
        ((sendLoop none).run ⟨(Generators.jsonPieces doubles v).yields, [], 0, [],
            false⟩ answers).2 := by
      rw [Streaming.sendJson, if_neg (by simp [hno])]
      dsimp only
      rw [Option.isNone_iff_eq_none.mp hok]
    obtain ⟨hpre, hall⟩ := sendLoop_run answers hstart
    rw [hsend]
    exact ⟨hpre, fun hopen => hall hopen rfl⟩

/-- On a response that stays open the pieces are the answer as it is written in one. -/
theorem sendJson_pieces {doubles : Doubles} {v : Value} (h : v.isFinite = true)
    {answers : Nat → WriteAnswer} (hopen : ∀ i, (answers i).IsOpen) : sendJson doubles v =
      .ok ⟨200, [("Content-Type", js "application/json")],
        stringToUtf8 (Streaming.sendJson doubles v answers).text⟩ := by
  obtain ⟨-, hempty, hwhole⟩ := @sendJson_finite doubles v h
  cases hno : hasUnencodable v with
  | true =>
    rw [hempty hno, sendJson, if_pos hno]
    rfl
  | false =>
    obtain ⟨text, htext, hsent⟩ := hwhole hno
    rw [((hsent answers).2 hopen).2, sendJson, if_neg (by simp [hno]), htext]
    rfl

/-- An answer is whole or empty: the generator throws exactly when the check says so, and then
nothing is written; otherwise what is written is the text and its newline, or a prefix of it on a
response that is destroyed, with at most one call behind that. -/
theorem sendJson_whole {doubles : Doubles} {v : Value} (h : Answered doubles v) :
    ((Generators.jsonPieces doubles v).thrown.isSome = true ↔ hasUnencodable v = true) ∧
    (hasUnencodable v = true → ∀ answers, Streaming.sendJson doubles v answers =
      ⟨[.finish none false], .returned⟩) ∧
    (hasUnencodable v = false → ∃ text, stringifyJson doubles v = .ok text ∧
      ∀ answers, (Streaming.sendJson doubles v answers).IsPrefix text ∧
        ((∀ i, (answers i).IsOpen) → (Streaming.sendJson doubles v answers).ends = .returned ∧
          (Streaming.sendJson doubles v answers).text = text ++ js "\n")) :=
  sendJson_finite h.isFinite

/-- A list of two. It is too short for a `write` and goes out with the `end`, on a
response without room too. -/
theorem sendJson_whole_list :
    ∃ v, decode plainUnicode plainDoubles (.list .int64) (latin1Encode (js "[1,-2]")) = .ok v ∧
      (Streaming.sendJson plainDoubles v fun _ => ⟨false, false, some true⟩).text <+:
        js "[1,-2]\n" := by
  have hrun : ((decode plainUnicode plainDoubles (.list .int64)
    (latin1Encode (js "[1,-2]"))).toOption.bind fun v =>
      (stringifyJson plainDoubles v).toOption) = some (js "[1,-2]") := by decide +kernel
  have hno : (decode plainUnicode plainDoubles (.list .int64)
    (latin1Encode (js "[1,-2]"))).toOption.any
      (fun v => !hasUnencodable v) = true := by decide +kernel
  cases hdecode : decode plainUnicode plainDoubles (.list .int64) (latin1Encode (js "[1,-2]")) with
  | error e =>
    rw [hdecode] at hrun
    cases hrun
  | ok v =>
    rw [hdecode] at hrun hno
    obtain ⟨text, htext, hsent⟩ :=
      (sendJson_whole (.decoded hdecode)).2.2 (by simpa [Except.toOption] using hno)
    change (stringifyJson plainDoubles v).toOption = some (js "[1,-2]") at hrun
    rw [htext] at hrun
    cases hrun
    exact ⟨v, rfl, (hsent _).1.text⟩

end AgentService
