import AgentService.Db.Columns
import AgentService.Http.Query

/-!
# The two public reads (`src/controllers/history.controller.ts`)

Served from this service's own history. The query string is read by the handler: a `type` that is
none is reported before a `limit` that is none, and both before the database is asked.
-/

namespace AgentService
open Lib

namespace HistoryController

def DEFAULT_TRANSACTION_LIMIT : Nat := 100

def MAX_TRANSACTION_LIMIT : Nat := 1000

variable (db : Database) (req : RoutedRequest)

/-- `getDeliveries` -/
def getDeliveries : Effect Trace Failure (List Delivery) :=
  Effect.attempt (deliveriesForContract db (textOrBytes (segmentFromEnd req 1))) fun err =>
    Effect.ofExcept (.error (.textAnswer 500 (js "failed to load deliveries: " ++ err)))

def typeRefused : Failure := .textAnswer 400 (js "type must be one of: " ++ transactionTypeNames)

def limitRefused : Failure := .textAnswer 400 (js "limit must be a positive integer")

/-- The type that is wanted, if one is. -/
def wantedType (rawType : Bytes) : Except Failure (Option TransactionType) :=
  if 0 < rawType.length then
    match isTransactionType (latin1Decode rawType) with
    | none => .error typeRefused
    | some name => .ok (some name)
  else .ok none

/-- How many rows are wanted. -/
def wantedCount (rawLimit : Bytes) : Except Failure Nat :=
  if 0 < rawLimit.length then
    match atoi rawLimit with
    | none => .error limitRefused
    | some parsed =>
      if parsed ≤ 0 then .error limitRefused
      else .ok (if parsed < MAX_TRANSACTION_LIMIT then parsed.toNat else MAX_TRANSACTION_LIMIT)
  else .ok DEFAULT_TRANSACTION_LIMIT

/-- `getTransactions` -/
def getTransactions : Effect Trace Failure (List Transaction) := do
  let query := Query.ofRaw (rawQueryOf req.url)
  let wanted ← Effect.ofExcept (wantedType (query.get (js "type")))
  let count ← Effect.ofExcept (wantedCount (query.get (js "limit")))
  Effect.attempt (listTransactions db ⟨textOrBytes (query.get (js "shipSymbol")), wanted, count⟩)
    fun err =>
    Effect.ofExcept (.error (.textAnswer 500 (js "failed to load transactions: " ++ err)))

/-! ## What the parameters say -/

/-- A type that is given and is none. -/
def IsNoType (rawType : Bytes) : Prop :=
  rawType ≠ [] ∧ rawType ≠ latin1Encode (js "SHIP_PURCHASE") ∧
    rawType ≠ latin1Encode (js "PURCHASE") ∧
    rawType ≠ latin1Encode (js "SELL")

/-- A limit that is given and is no positive integer of 64 bits. -/
def IsNoLimit (rawLimit : Bytes) : Prop :=
  rawLimit ≠ [] ∧ ∀ n : Int, SignedDigits rawLimit n → ¬ (1 ≤ n ∧ n ≤ 2 ^ 63 - 1)

/-- How many rows a limit asks for. -/
def IsCount (rawLimit : Bytes) (count : Nat) : Prop :=
  rawLimit = [] ∧ count = 100 ∨ ∃ n : Nat, SignedDigits rawLimit n ∧ 1 ≤ n ∧ n ≤ 2 ^ 63 - 1 ∧
    count = min n 1000

theorem isTransactionType_eq_some {s : JsString} {t : TransactionType} :
    isTransactionType s = some t ↔ s = t.name := by
  constructor
  · intro h
    have hfound := List.find?_some h
    exact (of_decide_eq_true hfound).symm
  · rintro rfl
    cases t <;> decide

theorem latin1Decode_eq_name {rawType : Bytes} {t : TransactionType} :
    latin1Decode rawType = t.name ↔ rawType = latin1Encode t.name := by
  constructor
  · intro h
    rw [← h, latin1Encode_decode]
  · rintro rfl
    cases t <;> decide

theorem wantedType_noType {rawType : Bytes} (h : IsNoType rawType) :
    wantedType rawType = .error typeRefused := by
  have hnone : isTransactionType (latin1Decode rawType) = none := by
    cases hfind : isTransactionType (latin1Decode rawType) with
    | none => rfl
    | some t =>
      have hname := latin1Decode_eq_name.mp (isTransactionType_eq_some.mp hfind)
      cases t with
      | shipPurchase => exact absurd hname h.2.1
      | purchase => exact absurd hname h.2.2.1
      | sell => exact absurd hname h.2.2.2
  rw [wantedType, if_pos (List.length_pos_of_ne_nil h.1), hnone]

/-- Any other type is the one it names, or none. -/
theorem wantedType_type {rawType : Bytes} (h : ¬ IsNoType rawType) :
    ∃ wanted, wantedType rawType = .ok wanted ∧ wanted.isSome = !rawType.isEmpty ∧
      ∀ t, wanted = some t → t.name = latin1Decode rawType := by
  by_cases hempty : rawType = []
  · subst hempty
    exact ⟨none, rfl, rfl, nofun⟩
  · have hname : ∃ t : TransactionType, rawType = latin1Encode t.name := by
      by_contra hno
      rw [not_exists] at hno
      exact h ⟨hempty, hno .shipPurchase, hno .purchase, hno .sell⟩
    obtain ⟨t, ht⟩ := hname
    have hdecode := latin1Decode_eq_name.mpr ht
    refine ⟨some t, ?_, ?_, ?_⟩
    · rw [wantedType, if_pos (List.length_pos_of_ne_nil hempty),
        isTransactionType_eq_some.mpr hdecode]
    · simpa using hempty
    · rintro _ ⟨⟩
      exact hdecode.symm

theorem wantedCount_noLimit {rawLimit : Bytes} (h : IsNoLimit rawLimit) :
    wantedCount rawLimit = .error limitRefused := by
  rw [wantedCount, if_pos (List.length_pos_of_ne_nil h.1)]
  cases hatoi : atoi rawLimit with
  | none => rfl
  | some parsed =>
    obtain ⟨hdigits, -, hmax⟩ := atoi_eq_some.mp hatoi
    have hrange := h.2 parsed hdigits
    dsimp only
    rw [if_pos]
    rw [Query.INT64_MAX] at hmax
    omega

/-- Any other limit asks for so many rows. -/
theorem wantedCount_limit {rawLimit : Bytes} (h : ¬ IsNoLimit rawLimit) :
    ∃ count, wantedCount rawLimit = .ok count ∧ IsCount rawLimit count := by
  by_cases hempty : rawLimit = []
  · subst hempty
    exact ⟨100, rfl, .inl ⟨rfl, rfl⟩⟩
  · have hint : ∃ n, SignedDigits rawLimit n ∧ 1 ≤ n ∧ n ≤ 2 ^ 63 - 1 := by
      by_contra hno
      rw [not_exists] at hno
      exact h ⟨hempty, fun n hn hrange => hno n ⟨hn, hrange⟩⟩
    obtain ⟨n, hdigits, hmin, hmax⟩ := hint
    obtain ⟨n, rfl⟩ := Int.eq_ofNat_of_zero_le (by omega : 0 ≤ n)
    have hatoi : atoi rawLimit = some (n : Int) := by
      apply atoi_eq_some.mpr
      refine ⟨hdigits, ?_, ?_⟩
      · rw [Query.INT64_MIN]
        omega
      · rw [Query.INT64_MAX]
        omega
    refine ⟨min n 1000, ?_, .inr ⟨n, hdigits, by omega, by omega, rfl⟩⟩
    rw [wantedCount, if_pos (List.length_pos_of_ne_nil hempty), hatoi]
    dsimp only
    rw [if_neg (by omega), MAX_TRANSACTION_LIMIT]
    apply congrArg Except.ok
    split <;> omega

theorem IsCount.range {rawLimit : Bytes} {count : Nat} (h : IsCount rawLimit count) :
    1 ≤ count ∧ count ≤ 1000 := by
  rcases h with ⟨-, rfl⟩ | ⟨n, -, hmin, -, rfl⟩
  · omega
  · omega

/-! ## The one statement -/

/-- What stands before each `?` of the SELECT, by whether it is narrowed to a ship and to a type. -/
def selectTexts (byShip byType : Bool) : List String :=
  let select := "SELECT " ++ TRANSACTION_COLUMNS ++ " FROM transactions"
  let order := " ORDER BY occurred_at DESC LIMIT "
  match byShip, byType with
  | true, true => [select ++ " WHERE ship_symbol = ", " AND type = ", order]
  | true, false => [select ++ " WHERE ship_symbol = ", order]
  | false, true => [select ++ " WHERE type = ", order]
  | false, false => [select ++ order]

/-- The arguments of the SELECT. -/
def selectArgs (shipSymbol rawType : Bytes) (count : Nat) : List SqlValue :=
  (if shipSymbol = [] then [] else [(textOrBytes shipSymbol).toSql]) ++
    (if rawType = [] then [] else [.text (latin1Decode rawType)]) ++
      [.text (latin1Decode (decimal count))]

/-- The SELECT of the rows a query string asks for. -/
def select (shipSymbol rawType : Bytes) (count : Nat) : Statement where
  sql := String.join ((selectTexts (!shipSymbol.isEmpty) (!rawType.isEmpty)).map (· ++ "?"))
  params := selectArgs shipSymbol rawType count

/-- The text of a query, by what it is narrowed to. -/
theorem sql_eq (q : TransactionQuery) :
    q.sql = String.join ((selectTexts (!q.shipSymbol.isEmpty) q.type.isSome).map (· ++ "?")) := by
  unfold TransactionQuery.sql TransactionQuery.conditions
  cases q.shipSymbol.isEmpty <;> cases q.type.isSome <;> rfl

theorem noPlaceholder_append {s t : String} (hs : '?' ∉ s.toList) (ht : '?' ∉ t.toList) :
    '?' ∉ (s ++ t).toList := by
  rw [String.toList_append, List.mem_append, not_or]
  exact ⟨hs, ht⟩

theorem noPlaceholder (byShip byType : Bool) :
    ∀ text ∈ selectTexts byShip byType, '?' ∉ text.toList := by
  have hcolumns : '?' ∉ TRANSACTION_COLUMNS.toList :=
    noPlaceholder_append (by decide +kernel) (by decide +kernel)
  have hselect : '?' ∉ ("SELECT " ++ TRANSACTION_COLUMNS ++ " FROM transactions").toList :=
    noPlaceholder_append (noPlaceholder_append (by decide) hcolumns) (by decide)
  have horder : '?' ∉ " ORDER BY occurred_at DESC LIMIT ".toList := by decide +kernel
  cases byShip with
  | true =>
    have hship := noPlaceholder_append hselect (by decide : '?' ∉ " WHERE ship_symbol = ".toList)
    cases byType with
    | true =>
      have htype : '?' ∉ " AND type = ".toList := by decide
      exact List.forall_mem_cons.mpr ⟨hship,
        List.forall_mem_cons.mpr ⟨htype, List.forall_mem_singleton.mpr horder⟩⟩
    | false => exact List.forall_mem_cons.mpr ⟨hship, List.forall_mem_singleton.mpr horder⟩
  | false =>
    cases byType with
    | true =>
      have htype := noPlaceholder_append hselect (by decide : '?' ∉ " WHERE type = ".toList)
      exact List.forall_mem_cons.mpr ⟨htype, List.forall_mem_singleton.mpr horder⟩
    | false => exact List.forall_mem_singleton.mpr (noPlaceholder_append hselect horder)

theorem selectArgs_length (shipSymbol rawType : Bytes) (count : Nat) :
    (selectArgs shipSymbol rawType count).length =
      (selectTexts (!shipSymbol.isEmpty) (!rawType.isEmpty)).length := by
  cases shipSymbol <;> cases rawType <;> rfl

/-- What the rows come to. -/
def loaded (rows : Except JsString (List (List SqlValue))) : Except Failure (List Transaction) :=
  (rows.bind fun rows => rows.mapM readTransaction).mapError fun err =>
    .textAnswer 500 (js "failed to load transactions: " ++ err)

theorem listTransactions_run (q : TransactionQuery) (s : Trace) :
    listTransactions db q s = ((db s.statements ⟨q.sql, q.args⟩).bind fun rows =>
      rows.mapM readTransaction,
      { s with statements := s.statements ++ [⟨q.sql, q.args⟩] }) := by
  rw [listTransactions]
  cases hrows : db s.statements ⟨q.sql, q.args⟩ with
  | error err =>
    apply Effect.bind_error
    rw [execute, hrows]
  | ok rows =>
    apply Effect.bind_ok
    rw [execute, hrows]

/-- With both parameters read, the statement is executed and its rows are the answer. -/
theorem getTransactions_select (s : Trace) {wanted : Option TransactionType} {count : Nat}
    (htype : wantedType (firstValue (rawQueryOf req.url) (js "type")) = .ok wanted)
    (hlimit : wantedCount (firstValue (rawQueryOf req.url) (js "limit")) = .ok count) :
    let q : TransactionQuery := ⟨textOrBytes (firstValue (rawQueryOf req.url) (js "shipSymbol")),
      wanted, count⟩
    getTransactions db req s =
      (loaded (db s.statements ⟨q.sql, q.args⟩),
        { s with statements := s.statements ++ [⟨q.sql, q.args⟩] }) := by
  intro q
  unfold getTransactions
  rw [Query.get_ofRaw (by decide), Query.get_ofRaw (by decide), Query.get_ofRaw (by decide),
    htype, hlimit, Effect.ofExcept_bind]
  dsimp only
  rw [Effect.ofExcept_bind]
  dsimp only
  have hrun := listTransactions_run db q s
  unfold loaded
  cases hrows : (db s.statements ⟨q.sql, q.args⟩).bind fun rows => rows.mapM readTransaction with
  | ok rows =>
    rw [hrows] at hrun
    exact Effect.attempt_ok hrun
  | error err =>
    rw [hrows] at hrun
    exact Effect.attempt_error hrun

theorem getTransactions_noType {s : Trace}
    (h : IsNoType (firstValue (rawQueryOf req.url) (js "type"))) :
    getTransactions db req s = (.error typeRefused, s) := by
  unfold getTransactions
  rw [Query.get_ofRaw (by decide), wantedType_noType h, Effect.ofExcept_bind]

theorem getTransactions_noLimit {s : Trace}
    (htype : ¬ IsNoType (firstValue (rawQueryOf req.url) (js "type")))
    (h : IsNoLimit (firstValue (rawQueryOf req.url) (js "limit"))) :
    getTransactions db req s = (.error limitRefused, s) := by
  obtain ⟨wanted, hwanted, -⟩ := wantedType_type htype
  unfold getTransactions
  rw [Query.get_ofRaw (by decide), hwanted, Effect.ofExcept_bind]
  dsimp only
  rw [Query.get_ofRaw (by decide), wantedCount_noLimit h, Effect.ofExcept_bind]

/-- Where neither is refused, the statement is the SELECT of what the query string says. -/
theorem getTransactions_asked (s : Trace)
    (htype : ¬ IsNoType (firstValue (rawQueryOf req.url) (js "type")))
    (hlimit : ¬ IsNoLimit (firstValue (rawQueryOf req.url) (js "limit"))) :
    ∃ count, IsCount (firstValue (rawQueryOf req.url) (js "limit")) count ∧
      let statement := select (firstValue (rawQueryOf req.url) (js "shipSymbol"))
        (firstValue (rawQueryOf req.url) (js "type")) count
      getTransactions db req s =
        (loaded (db s.statements statement),
          { s with statements := s.statements ++ [statement] }) := by
  obtain ⟨wanted, hwanted, hsome, hname⟩ := wantedType_type htype
  obtain ⟨count, hcount, hiscount⟩ := wantedCount_limit hlimit
  refine ⟨count, hiscount, ?_⟩
  have hrun := getTransactions_select db req s hwanted hcount
  generalize firstValue (rawQueryOf req.url) (js "shipSymbol") = ship at hrun ⊢
  generalize firstValue (rawQueryOf req.url) (js "type") = rawType at hrun hsome hname ⊢
  have hstatement : (⟨(⟨textOrBytes ship, wanted, count⟩ : TransactionQuery).sql,
      (⟨textOrBytes ship, wanted, count⟩ : TransactionQuery).args⟩ : Statement) =
          select ship rawType count := by
    have hargs : (⟨textOrBytes ship, wanted, count⟩ : TransactionQuery).args =
        selectArgs ship rawType count := by
      unfold TransactionQuery.args selectArgs
      dsimp only
      rw [textOrBytes_isEmpty]
      cases wanted with
      | none =>
        have hempty : rawType = [] := by simpa using hsome
        simp [hempty]
      | some t =>
        have hne : rawType ≠ [] := by
          rintro rfl
          cases hsome
        simp [hne, hname t rfl]
    rw [select, sql_eq, hargs, textOrBytes_isEmpty]
    dsimp only
    rw [hsome]
  rw [← hstatement]
  exact hrun

/-- A refusal leaves no statement behind, so what is asked for is not refused. -/
theorem getTransactions_notRefused {s : Trace} {answer : Except Failure (List Transaction)}
    (h : getTransactions db req s = (answer, s)) :
    IsNoType (firstValue (rawQueryOf req.url) (js "type")) ∨
      IsNoLimit (firstValue (rawQueryOf req.url) (js "limit")) := by
  by_contra hasked
  rw [not_or] at hasked
  obtain ⟨count, -, hselect⟩ := getTransactions_asked db req s hasked.1 hasked.2
  rw [hselect] at h
  simpa using congrArg (·.2.statements.length) h

theorem typeRefused_ne_limitRefused : typeRefused ≠ limitRefused := by
  intro h
  have hmessage : js "type must be one of: " ++ transactionTypeNames =
      js "limit must be a positive integer" := by
    injection h
  exact absurd hmessage (by decide)

/-! ## The query string as a whole -/

def parameters : List JsString := [js "type", js "limit", js "shipSymbol"]

/-- Pairs that give no parameter anything a pair before them did not. -/
def Irrelevant (pre mid : List JsString) : Prop :=
  ∀ name ∈ parameters, ∀ p ∈ mid, valueIn name p = none ∨ ∃ q ∈ pre, (valueIn name q).isSome = true

/-- The answer is a function of the first values. -/
theorem getTransactions_congr {req req' : RoutedRequest}
    (h : ∀ name ∈ parameters, firstValue (rawQueryOf req.url) name =
      firstValue (rawQueryOf req'.url) name) (s : Trace) :
    getTransactions db req s = getTransactions db req' s := by
  have htype := h (js "type") List.mem_cons_self
  have hlimit := h (js "limit") (List.mem_cons_of_mem _ List.mem_cons_self)
  have hship :=
    h (js "shipSymbol") (List.mem_cons_of_mem _ (List.mem_cons_of_mem _ List.mem_cons_self))
  unfold getTransactions
  rw [Query.get_ofRaw (by decide), Query.get_ofRaw (by decide), Query.get_ofRaw (by decide),
    Query.get_ofRaw (by decide), Query.get_ofRaw (by decide), Query.get_ofRaw (by decide), htype,
    hlimit, hship]

theorem parameters_ne_nil : ∀ name ∈ parameters, name ≠ [] := by decide

/-- Only the first well-formed `type`, `limit` and `shipSymbol` of a query string are read, and the
values go to the database as arguments only. -/
theorem getTransactions_first_values :
    (∀ (req : RoutedRequest) (s : Trace),
      let value := firstValue (rawQueryOf req.url)
      (getTransactions db req s = (.error typeRefused, s) ↔ IsNoType (value (js "type"))) ∧
      (getTransactions db req s = (.error limitRefused, s) ↔ ¬ IsNoType (value (js "type")) ∧
        IsNoLimit (value (js "limit"))) ∧
      (¬ IsNoType (value (js "type")) → ¬ IsNoLimit (value (js "limit")) →
        ∃ count, IsCount (value (js "limit")) count ∧ 1 ≤ count ∧ count ≤ 1000 ∧
          let statement := select (value (js "shipSymbol")) (value (js "type")) count
          getTransactions db req s =
            (loaded (db s.statements statement),
              { s with statements := s.statements ++ [statement] }))) ∧
    (∀ byShip byType, ∀ text ∈ selectTexts byShip byType, '?' ∉ text.toList) ∧
    (∀ shipSymbol rawType count,
      (selectArgs shipSymbol rawType count).length =
        (selectTexts (!shipSymbol.isEmpty) (!rawType.isEmpty)).length) ∧
    (∀ (pre mid mid' post : List JsString) (req req' : RoutedRequest),
      (∀ p ∈ pre ++ mid ++ post, 0x26 ∉ p) → (∀ p ∈ pre ++ mid' ++ post, 0x26 ∉ p) →
      Irrelevant pre mid → Irrelevant pre mid' →
      rawQueryOf req.url = [0x26].intercalate (pre ++ mid ++ post) →
      rawQueryOf req'.url = [0x26].intercalate (pre ++ mid' ++ post) →
      ∀ s, getTransactions db req s = getTransactions db req' s) := by
  refine ⟨fun req s => ⟨⟨?_, getTransactions_noType db req⟩,
    ⟨?_, fun h => getTransactions_noLimit db req h.1 h.2⟩, ?_⟩, noPlaceholder,
    selectArgs_length, ?_⟩
  · intro hrun
    by_contra htype
    have hlimit := (getTransactions_notRefused db req hrun).resolve_left htype
    rw [getTransactions_noLimit db req htype hlimit] at hrun
    injection hrun with hfailure
    injection hfailure with hfailure
    exact typeRefused_ne_limitRefused hfailure.symm
  · intro hrun
    by_cases htype : IsNoType (firstValue (rawQueryOf req.url) (js "type"))
    · rw [getTransactions_noType db req htype] at hrun
      injection hrun with hfailure
      injection hfailure with hfailure
      exact absurd hfailure typeRefused_ne_limitRefused
    · exact ⟨htype, (getTransactions_notRefused db req hrun).resolve_left htype⟩
  · intro htype hlimit
    obtain ⟨count, hcount, hselect⟩ := getTransactions_asked db req s htype hlimit
    exact ⟨count, hcount, hcount.range.1, hcount.range.2, hselect⟩
  · intro pre mid mid' post req req' hpairs hpairs' hmid hmid' hraw hraw' s
    apply getTransactions_congr
    intro name hname
    have hne := parameters_ne_nil name hname
    rw [hraw, hraw', firstValue_insert hne hpairs (hmid name hname),
      firstValue_insert hne hpairs' (hmid' name hname)]

end HistoryController

end AgentService
