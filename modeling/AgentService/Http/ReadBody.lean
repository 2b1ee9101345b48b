import AgentService.Http.Body

/-!
# Reading a request body (`readBody` of `src/http/body.ts`)

The four callbacks share the chunks, the size and the `settled` flag, and are handed one event after
the other, in any order. `arrival` says what they are for: the promise settles at the first event
that decides it, by what has come in until then.
-/

namespace AgentService
open Lib

/-- What the request's stream emits. -/
inductive StreamEvent where
  | data (chunk : Bytes)
  /-- `end` -/
  | finish
  | close
  | error
  deriving DecidableEq

/-- The callbacks of `readBody`. -/
inductive Listener where
  | onData
  | onEnd
  | onClose
  | onError
  deriving DecidableEq

/-- The callback an event is for. -/
def StreamEvent.listener : StreamEvent → Listener
  | .data _ => .onData
  | .finish => .onEnd
  | .close => .onClose
  | .error => .onError

/-- The variables of `readBody`, the listeners it has on the request, and its promise: pending, or
settled with a body or, for `CallerGone`, without one. -/
structure Reader where
  chunks : List Bytes
  size : Nat
  settled : Bool
  listeners : List Listener
  paused : Bool
  promise : Option (Option BodyRead)

namespace Reader

/-- A promise is settled once. -/
def resolve (result : Option BodyRead) (r : Reader) : Reader :=
  { r with promise := r.promise.or (some result) }

/-- `req.off` -/
def off (l : Listener) (r : Reader) : Reader := { r with listeners := r.listeners.erase l }

/-- `settle`: whether this call is the first. -/
def settle (r : Reader) : Bool × Reader :=
  if r.settled then (false, r)
  else (true, ((({ r with settled := true }.off .onData).off .onEnd).off .onClose).off .onError)

def onData (limit : Nat) (chunk : Bytes) (r : Reader) : Reader :=
  let r := { r with size := r.size + chunk.length, chunks := r.chunks ++ [chunk] }
  if r.size ≤ limit then r
  else
    let (first, r) := r.settle
    if first then { r with paused := true }.resolve (some ⟨r.chunks.flatten.take limit, true⟩)
    else r

def onEnd (r : Reader) : Reader :=
  let (first, r) := r.settle
  if first then r.resolve (some ⟨r.chunks.flatten, false⟩) else r

/-- `onClose` and `onError` -/
def onClose (r : Reader) : Reader :=
  let (first, r) := r.settle
  if first then r.resolve none else r

/-- An event is handed to its listener, if that is still there. -/
def emit (limit : Nat) (r : Reader) (e : StreamEvent) : Reader :=
  if e.listener ∈ r.listeners then
    match e with
    | .data chunk => r.onData limit chunk
    | .finish => r.onEnd
    | .close => r.onClose
    | .error => r.onClose
  else r

/-- What `readBody` starts with. -/
def start : Reader := ⟨[], 0, false, [.onData, .onEnd, .onClose, .onError], false, none⟩

end Reader

/-- `readBody`, after these events. -/
def readBody (limit : Nat) (events : List StreamEvent) : Reader :=
  events.foldl (Reader.emit limit) .start

/-- What the events come to, with some bytes in already. -/
def arrival (limit : Nat) (before : Bytes) : List StreamEvent → Option (Option BodyRead)
  | [] => none
  | .data chunk :: events =>
    if (before ++ chunk).length ≤ limit then arrival limit (before ++ chunk) events
    else some (some ⟨(before ++ chunk).take limit, true⟩)
  | .finish :: _ => some (some ⟨before, false⟩)
  | .close :: _ => some none
  | .error :: _ => some none

namespace Reader

/-- Nothing has been decided yet. -/
structure IsOpen (r : Reader) (before : Bytes) : Prop where
  chunks : r.chunks.flatten = before
  size : r.size = before.length
  settled : r.settled = false
  listeners : r.listeners = [.onData, .onEnd, .onClose, .onError]
  promise : r.promise = none

/-- The promise is settled, and no listener is left. -/
structure IsSettled (r : Reader) (result : Option BodyRead) : Prop where
  settled : r.settled = true
  listeners : r.listeners = []
  promise : r.promise = some result

theorem isOpen_start : start.IsOpen [] := ⟨rfl, rfl, rfl, rfl, rfl⟩

theorem settle_open {r : Reader} {before : Bytes} (h : r.IsOpen before) :
    r.settle = (true, { r with settled := true, listeners := [] }) := by
  rw [settle, h.settled]
  simp [off, h.listeners]

/-- The first event that decides settles the promise; no other does anything to it. -/
theorem emit_open {limit : Nat} {r : Reader} {before : Bytes} (h : r.IsOpen before)
    (e : StreamEvent) :
    (∃ chunk, e = .data chunk ∧ (before ++ chunk).length ≤ limit ∧
        (r.emit limit e).IsOpen (before ++ chunk)) ∨
      ∃ result, (∀ events, arrival limit before (e :: events) = some result) ∧
        (r.emit limit e).IsSettled result := by
  have hmem : e.listener ∈ r.listeners := by
    rw [h.listeners]
    cases e <;> simp [StreamEvent.listener]
  unfold emit
  rw [if_pos hmem]
  cases e with
  | data chunk =>
    dsimp only [onData]
    have hsize : r.size + chunk.length = (before ++ chunk).length := by
      rw [h.size, List.length_append]
    have hchunks : (r.chunks ++ [chunk]).flatten = before ++ chunk := by simp [h.chunks]
    by_cases hlimit : (before ++ chunk).length ≤ limit
    · rw [if_pos (by rw [hsize]; exact hlimit)]
      exact .inl ⟨chunk, rfl, hlimit, hchunks, hsize, h.settled, h.listeners, h.promise⟩
    · rw [if_neg (by rw [hsize]; exact hlimit), settle, h.settled]
      refine .inr ⟨some ⟨(before ++ chunk).take limit, true⟩, fun events => if_neg hlimit, ?_⟩
      rw [← hchunks]
      exact ⟨rfl, by simp [off, resolve, h.listeners], by simp [off, resolve, h.promise]⟩
  | finish =>
    refine .inr ⟨some ⟨before, false⟩, fun _ => rfl, ?_⟩
    dsimp only [onEnd]
    rw [settle_open h, ← h.chunks]
    exact ⟨rfl, rfl, by simp [resolve, h.promise]⟩
  | close =>
    refine .inr ⟨none, fun _ => rfl, ?_⟩
    dsimp only [onClose]
    rw [settle_open h]
    exact ⟨rfl, rfl, by simp [resolve, h.promise]⟩
  | error =>
    refine .inr ⟨none, fun _ => rfl, ?_⟩
    dsimp only [onClose]
    rw [settle_open h]
    exact ⟨rfl, rfl, by simp [resolve, h.promise]⟩

theorem emit_settled {limit : Nat} {r : Reader} {result : Option BodyRead} (h : r.IsSettled result)
    (e : StreamEvent) : r.emit limit e = r := by
  unfold emit
  rw [h.listeners, if_neg List.not_mem_nil]

theorem foldl_settled {limit : Nat} {r : Reader} {result : Option BodyRead} (h : r.IsSettled result)
    (events : List StreamEvent) : events.foldl (emit limit) r = r := by
  induction events with
  | nil => rfl
  | cons e events ih => rw [List.foldl_cons, emit_settled h, ih]

theorem promise_foldl {limit : Nat} (events : List StreamEvent) :
    ∀ {r : Reader} {before : Bytes}, r.IsOpen before →
    (events.foldl (emit limit) r).promise = arrival limit before events := by
  induction events with
  | nil => exact fun h => h.promise
  | cons e events ih =>
    intro r before h
    rw [List.foldl_cons]
    rcases emit_open h e with ⟨chunk, rfl, hlimit, hopen⟩ | ⟨result, hresult, hsettled⟩
    · rw [ih hopen, arrival, if_pos hlimit]
    · rw [foldl_settled hsettled, hresult, hsettled.promise]

/-- What events leave of a reader: it waits with all its listeners, or has settled. -/
def IsSound (r : Reader) : Prop := (∃ before, r.IsOpen before) ∨ ∃ result, r.IsSettled result

theorem isSound_start : start.IsSound := .inl ⟨[], isOpen_start⟩

theorem IsSound.emit {limit : Nat} {r : Reader} (h : r.IsSound) (e : StreamEvent) :
    (r.emit limit e).IsSound := by
  rcases h with ⟨before, h⟩ | ⟨result, h⟩
  · rcases @emit_open limit _ _ h e with ⟨chunk, -, -, hopen⟩ | ⟨result, -, hsettled⟩
    · exact .inl ⟨_, hopen⟩
    · exact .inr ⟨result, hsettled⟩
  · rw [emit_settled h]
    exact .inr ⟨result, h⟩

/-- Once settled, the promise stays as it is. -/
theorem IsSound.promise_emit {limit : Nat} {r : Reader} (h : r.IsSound) {result : Option BodyRead}
    (hr : r.promise = some result) (e : StreamEvent) : (r.emit limit e).promise = some result := by
  rcases h with ⟨before, h⟩ | ⟨result', h⟩
  · rw [h.promise] at hr
    cases hr
  · rw [emit_settled h]
    exact hr

/-- A reader that waits hears the connection close. -/
theorem IsSound.promise_close {limit : Nat} {r : Reader} (h : r.IsSound) (hr : r.promise = none) :
    (r.emit limit .close).promise = some none := by
  rcases h with ⟨before, h⟩ | ⟨result', h⟩
  · rcases @emit_open limit _ _ h .close with ⟨chunk, he, -⟩ | ⟨result, hresult, hsettled⟩
    · cases he
    · rw [hsettled.promise, ← hresult []]
      rfl
  · rw [h.promise] at hr
    cases hr

end Reader

/-- The promise is what the events come to. -/
theorem readBody_promise (limit : Nat) (events : List StreamEvent) :
    (readBody limit events).promise = arrival limit [] events :=
  Reader.promise_foldl events Reader.isOpen_start

/-- The events of a body that comes in whole, in these chunks. -/
def arriving (chunks : List Bytes) : List StreamEvent := chunks.map .data ++ [.finish]

theorem arrival_arriving (limit : Nat) (chunks : List Bytes) : ∀ before : Bytes,
    before.length ≤ limit → arrival limit before (arriving chunks) =
      some (some ⟨(before ++ chunks.flatten).take limit,
        decide (limit < (before ++ chunks.flatten).length)⟩) := by
  induction chunks with
  | nil =>
    intro before hbefore
    rw [List.flatten_nil, List.append_nil, List.take_of_length_le hbefore,
      decide_eq_false (Nat.not_lt.mpr hbefore)]
    rfl
  | cons chunk chunks ih =>
    intro before hbefore
    rw [List.flatten_cons, ← List.append_assoc]
    by_cases hlimit : (before ++ chunk).length ≤ limit
    · rw [← ih _ hlimit]
      exact if_pos hlimit
    · have hlt : limit < (before ++ chunk ++ chunks.flatten).length := by
        rw [List.length_append]
        exact Nat.lt_of_lt_of_le (Nat.lt_of_not_le hlimit) (Nat.le_add_right _ _)
      rw [decide_eq_true hlt, List.take_append_of_le_length (Nat.le_of_not_le hlimit)]
      exact if_neg hlimit

/-- However a body is cut, it is its first bytes up to the limit, and whether there are more. -/
theorem readBody_arriving (limit : Nat) (chunks : List Bytes) :
    (readBody limit (arriving chunks)).promise =
      some (some ⟨chunks.flatten.take limit, decide (limit < chunks.flatten.length)⟩) := by
  rw [readBody_promise, arrival_arriving limit chunks [] (Nat.zero_le limit), List.nil_append]

/-! ## The first event that decides -/

/-- An event that settles the promise, and with what, where these bytes are in. -/
inductive Decides (limit : Nat) (before : Bytes) : StreamEvent → Option BodyRead → Prop
  | exceeded {chunk} (h : limit < (before ++ chunk).length) :
      Decides limit before (.data chunk) (some ⟨(before ++ chunk).take limit, true⟩)
  | whole : Decides limit before .finish (some ⟨before, false⟩)
  | closed : Decides limit before .close none
  | failed : Decides limit before .error none

theorem arrival_decides {limit : Nat} {before : Bytes} {e : StreamEvent} {result : Option BodyRead}
    (h : Decides limit before e result) (rest : List StreamEvent) :
    arrival limit before (e :: rest) = some result := by
  cases h with
  | exceeded hlimit => exact if_neg (Nat.not_le.mpr hlimit)
  | whole => rfl
  | closed => rfl
  | failed => rfl

/-- Chunks within the limit only add up. -/
theorem arrival_data {limit : Nat} {chunks : List Bytes} (rest : List StreamEvent) :
    ∀ {before : Bytes}, (before ++ chunks.flatten).length ≤ limit →
      arrival limit before (chunks.map .data ++ rest) =
        arrival limit (before ++ chunks.flatten) rest := by
  induction chunks with
  | nil =>
    intro before _
    simp
  | cons chunk chunks ih =>
    intro before h
    rw [List.flatten_cons, ← List.append_assoc] at h ⊢
    have hchunk : (before ++ chunk).length ≤ limit := Nat.le_trans (by simp) h
    rw [← ih h]
    exact if_pos hchunk

/-- Chunks beyond the limit settle the promise, whatever follows. -/
theorem arrival_exceeded {limit : Nat} {chunks : List Bytes} (rest : List StreamEvent) :
    ∀ {before : Bytes}, before.length ≤ limit → limit < (before ++ chunks.flatten).length →
      arrival limit before (chunks.map .data ++ rest) =
        some (some ⟨(before ++ chunks.flatten).take limit, true⟩) := by
  induction chunks with
  | nil =>
    intro before hbefore h
    rw [List.flatten_nil, List.append_nil] at h
    exact absurd h (Nat.not_lt.mpr hbefore)
  | cons chunk chunks ih =>
    intro before _ h
    rw [List.flatten_cons, ← List.append_assoc] at h ⊢
    by_cases hchunk : (before ++ chunk).length ≤ limit
    · rw [← ih hchunk h]
      exact if_pos hchunk
    · rw [List.take_append_of_le_length (Nat.le_of_not_le hchunk)]
      exact if_neg hchunk

/-- Events go on within the limit, or up to a first one that decides. -/
theorem events_split (limit : Nat) (events : List StreamEvent) :
    ∀ before : Bytes, before.length ≤ limit →
    (∃ chunks : List Bytes, events = chunks.map .data ∧ (before ++ chunks.flatten).length ≤ limit) ∨
      ∃ (chunks : List Bytes) (e : StreamEvent) (rest : List StreamEvent)
      (result : Option BodyRead),
        events = chunks.map .data ++ e :: rest ∧ (before ++ chunks.flatten).length ≤ limit ∧
          Decides limit (before ++ chunks.flatten) e result := by
  induction events with
  | nil => exact fun before hbefore => .inl ⟨[], rfl, by simpa using hbefore⟩
  | cons e events ih =>
    intro before hbefore
    have hnow {result : Option BodyRead} (h : Decides limit before e result) :
        ∃ (chunks : List Bytes) (e' : StreamEvent) (rest : List StreamEvent)
        (result : Option BodyRead),
          e :: events = chunks.map .data ++ e' :: rest ∧ (before ++ chunks.flatten).length ≤ limit ∧
            Decides limit (before ++ chunks.flatten) e' result :=
      ⟨[], e, events, result, rfl, by simpa using hbefore, by simpa using h⟩
    cases e with
    | finish => exact .inr (hnow .whole)
    | close => exact .inr (hnow .closed)
    | error => exact .inr (hnow .failed)
    | data chunk =>
      by_cases hchunk : (before ++ chunk).length ≤ limit
      · rcases ih (before ++ chunk) hchunk with ⟨chunks, rfl, hlimit⟩ |
          ⟨chunks, e, rest, result, rfl, hlimit, hdecides⟩
        · exact .inl ⟨chunk :: chunks, rfl, by simpa using hlimit⟩
        · exact .inr ⟨chunk :: chunks, e, rest, result, rfl, by simpa using hlimit,
            by simpa using hdecides⟩
      · exact .inr (hnow (.exceeded (Nat.lt_of_not_le hchunk)))

/-- The reader settles at the first event that decides, with what was in until then, and never
again; how the bytes were cut does not matter, and no listener is left. -/
theorem readBody_settles (limit : Nat) :
    (∀ events,
      (∃ chunks : List Bytes, events = chunks.map .data ∧ chunks.flatten.length ≤ limit ∧
          (readBody limit events).promise = none) ∨
        ∃ (chunks : List Bytes) (e : StreamEvent) (rest : List StreamEvent)
          (result : Option BodyRead), events = chunks.map .data ++ e :: rest ∧
            chunks.flatten.length ≤ limit ∧ Decides limit chunks.flatten e result ∧
            (readBody limit events).promise = some result) ∧
    (∀ events more result, (readBody limit events).promise = some result →
      (readBody limit (events ++ more)).promise = some result ∧
        (readBody limit (events ++ more)).listeners = []) ∧
    ∀ (chunks chunks' : List Bytes) rest, chunks.flatten = chunks'.flatten →
      (readBody limit (chunks.map .data ++ rest)).promise =
        (readBody limit (chunks'.map .data ++ rest)).promise := by
  refine ⟨?_, ?_, ?_⟩
  · intro events
    simp only [readBody_promise]
    rcases events_split limit events [] (Nat.zero_le limit) with ⟨chunks, rfl, hlimit⟩ |
      ⟨chunks, e, rest, result, rfl, hlimit, hdecides⟩
    · have hdata := arrival_data [] hlimit
      rw [List.append_nil] at hdata
      exact .inl ⟨chunks, rfl, hlimit, hdata⟩
    · exact .inr ⟨chunks, e, rest, result, rfl, hlimit, hdecides,
        (arrival_data (e :: rest) hlimit).trans (arrival_decides hdecides rest)⟩
  · intro events more result h
    have hsound : (readBody limit events).IsSound := by
      clear h
      induction events using List.reverseRec with
      | nil => exact Reader.isSound_start
      | append_singleton events e ih =>
        unfold readBody at ih ⊢
        rw [List.foldl_append]
        exact ih.emit e
    rcases hsound with ⟨before, hopen⟩ | ⟨result', hsettled⟩
    · rw [hopen.promise] at h
      cases h
    · rw [hsettled.promise] at h
      cases h
      have hmore : readBody limit (events ++ more) = readBody limit events := by
        unfold readBody at hsettled ⊢
        rw [List.foldl_append, Reader.foldl_settled hsettled]
      rw [hmore]
      exact ⟨hsettled.promise, hsettled.listeners⟩
  · intro chunks chunks' rest h
    rw [readBody_promise, readBody_promise]
    by_cases hlimit : ([] ++ chunks.flatten).length ≤ limit
    · rw [arrival_data rest hlimit, arrival_data rest (h ▸ hlimit), h]
    · rw [arrival_exceeded rest (Nat.zero_le limit) (Nat.lt_of_not_le hlimit),
        arrival_exceeded rest (Nat.zero_le limit) (Nat.lt_of_not_le (h ▸ hlimit)), h]

end AgentService
