import AgentService.Gateway.Calls
import AgentService.Gateway.Schemas
import AgentService.Gateway.Written

/-!
# What is written is read back

Every value the decoder returns, written by `stringifyJson`, is decoded to itself again: the
writer's text has the value's tree (`value_written`), and binding that tree over a fresh
value gives the value back (`bind_treeOf`).
-/

namespace AgentService
open Lib

/-! ## Scalars -/

theorem integerText_bigint (v : Int) : integerText (bigintText v) = some v := by
  have hdigits : (latin1Decode (decimal v.natAbs)) ≠ [] ∧
      allDigits (latin1Decode (decimal v.natAbs)) = true :=
    ⟨by simpa [latin1Decode] using decimal_ne_nil v.natAbs, decimal_units v.natAbs⟩
  have hnumber : groupNumber (latin1Decode (decimal v.natAbs)) = v.natAbs := by
    rw [groupNumber, latin1Encode_decode, readDecimal_decimal]
  rw [bigintText]
  by_cases hv : v < 0
  · rw [if_pos hv]
    have htext : integerText (js "-" ++ latin1Decode (decimal v.natAbs)) =
        some (-(groupNumber (latin1Decode (decimal v.natAbs)) : Int)) := if_pos hdigits
    rw [htext, hnumber]
    congr 1
    omega
  · rw [if_neg hv, List.nil_append]
    obtain ⟨u, s, hs⟩ := List.exists_cons_of_ne_nil hdigits.1
    have hu : u ≠ 0x2d := by
      rintro rfl
      have hall := hdigits.2
      rw [hs, allDigits, List.all_cons] at hall
      exact absurd (Bool.and_eq_true_iff.mp hall).1 (by decide)
    unfold integerText
    split
    · rename_i heq
      rw [hs] at heq
      exact absurd (List.cons.inj heq).1 hu
    · rw [if_pos hdigits, hnumber]
      congr 1
      omega

theorem parseInt64_bigint {v : Int} (hlo : INT64_MIN ≤ v) (hhi : v ≤ INT64_MAX) :
    parseInt64 (bigintText v) = .ok v := by
  rw [parseInt64, integerText_bigint]
  dsimp only
  rw [if_neg (by omega)]

theorem parseFloat64_written {doubles : Doubles} (hdoubles : doubles.IsExact) {bits : UInt64}
    (h : isFiniteDouble bits = true) :
    parseFloat64 doubles (if bits = NEGATIVE_ZERO then js "-0" else doubles.string bits) =
      .ok bits := by
  have hnumber : doubles.number (if bits = NEGATIVE_ZERO then js "-0"
      else doubles.string bits) = bits := by
    by_cases hzero : bits = NEGATIVE_ZERO
    · rw [if_pos hzero, hdoubles.negative_zero, hzero]
    · rw [if_neg hzero, hdoubles.number bits h hzero]
  rw [parseFloat64, hnumber, if_pos h]

/-! ## Members -/

theorem getMember_of_nodup {α : Type} {fields : List (JsString × α)}
    (h : (fields.map Prod.fst).Nodup) {name : JsString} {field : α} (hf : (name, field) ∈ fields) :
    getMember name fields = some field := by
  induction fields with
  | nil => cases hf
  | cons f fields ih =>
    obtain ⟨k, e⟩ := f
    rw [List.map_cons, List.nodup_cons] at h
    rw [getMember]
    rcases List.mem_cons.mp hf with heq | hf
    · cases heq
      exact if_pos rfl
    · have hne : k ≠ name := by
        rintro rfl
        exact h.1 (List.mem_map.mpr ⟨_, hf, rfl⟩)
      rw [if_neg hne, ih h.2 hf]

theorem mem_of_getMember {α : Type} {fields : List (JsString × α)} {name : JsString} {field : α}
    (h : getMember name fields = some field) : name ∈ fields.map Prod.fst := by
  induction fields with
  | nil => cases h
  | cons f fields ih =>
    rw [getMember] at h
    split at h
    · rename_i heq
      exact List.mem_cons.mpr (.inl heq.symm)
    · exact List.mem_cons_of_mem _ (ih h)

section
variable {name : JsString} {done : List (JsString × Value)} (h : name ∉ done.map Prod.fst)
include h

theorem getMember_append (v : Value) (rest : List (JsString × Value)) :
    getMember name (done ++ (name, v) :: rest) = some v := by
  induction done with
  | nil => exact if_pos rfl
  | cons m done ih =>
    rw [List.map_cons, List.mem_cons, not_or] at h
    rw [List.cons_append, getMember, if_neg (Ne.symm h.1), ih h.2]

theorem setMember_append (v w : Value) (rest : List (JsString × Value)) :
    setMember name w (done ++ (name, v) :: rest) = done ++ (name, w) :: rest := by
  induction done with
  | nil => exact if_pos rfl
  | cons m done ih =>
    rw [List.map_cons, List.mem_cons, not_or] at h
    rw [List.cons_append, setMember, if_neg (Ne.symm h.1), ih h.2]
    rfl

end

theorem names_nodup {fields : List (JsString × Schema)}
    (h : (Schema.struct fields).hasPlainNames = true) : (fields.map Prod.fst).Nodup := by
  rw [Schema.hasPlainNames, Bool.and_eq_true, decide_eq_true_eq] at h
  have hmap : fields.map (fun f => asciiLower f.1) = (fields.map Prod.fst).map asciiLower := by
    rw [List.map_map]; rfl
  rw [hmap] at h
  exact h.1.of_map

/-! ## Binding -/

/-- No earlier repeat of a member has left anything. -/
def IsFresh (schema : Schema) (existing : Option Value) : Prop :=
  existing = none ∨ existing = some (zero schema)

section
variable {unicode : Unicode} {doubles : Doubles}

mutual

/-- Binding the tree a value is written as gives the value. -/
theorem bind_treeOf (hdoubles : doubles.IsExact) {schema : Schema} {v : Value} (h : Fits schema v)
    (hno : hasUnencodable v = false) (hnames : schema.hasPlainNames = true)
    {existing : Option Value}
    (hfresh : IsFresh schema existing) :
    bind unicode doubles (treeOf doubles v) schema existing = .ok v := by
  match h with
  | .null _ => rfl
  | .bool _ => rfl
  | .text _ => rfl
  | .int64 hlo hhi => exact map_eq_ok.mpr ⟨_, parseInt64_bigint hlo hhi, rfl⟩
  | .float64 hfinite => exact map_eq_ok.mpr ⟨_, parseFloat64_written hdoubles hfinite, rfl⟩
  | .time hv =>
    rcases normaliseTime_ok hv with ⟨t, rfl⟩ | rfl
    · obtain ⟨hnormal, hunits⟩ := normaliseTime_normal hv
      obtain ⟨-, hquote, hplain⟩ := time_text hunits
      change (if IsPlainText (stringToUtf8 (quoteUnits t)) = true then normaliseTime t else _) = _
      rw [hquote, if_pos hplain, hnormal]
    · cases hno
  | .list hs =>
    have hitems : itemsOf existing = [] := by rcases hfresh with rfl | rfl <;> rfl
    change (bindItems unicode doubles _ _ (itemsOf existing)).map Value.list = _
    rw [hitems]
    exact map_eq_ok.mpr ⟨_, bindItems_itemTrees hdoubles hs hno hnames, rfl⟩
  | @Fits.struct fields members hs =>
    have hmembers : (orZero existing (.struct fields)).members = zeroFields fields := by
      rcases hfresh with rfl | rfl <;> rfl
    change (bindMembers unicode doubles _ _ (orZero existing _).members).map Value.struct = _
    rw [hmembers]
    have hnodup := names_nodup hnames
    rw [Schema.hasPlainNames, Bool.and_eq_true] at hnames
    exact map_eq_ok.mpr ⟨_, bindMembers_memberTrees hdoubles hs hno hnames.2 _ []
      (fun f hf => getMember_of_nodup hnodup hf) (by simp) hnodup, rfl⟩

theorem bindItems_itemTrees (hdoubles : doubles.IsExact) {of : Schema} {items : List Value}
    (h : FitsItems of items) (hno : anyUnencodable items = false)
    (hnames : of.hasPlainNames = true) :
    bindItems unicode doubles (itemTrees doubles items) of [] = .ok items := by
  match h with
  | .nil _ => rfl
  | .cons hv hs =>
    rw [anyUnencodable, Bool.or_eq_false_iff] at hno
    rw [itemTrees, bindItems, List.head?_nil, bind_treeOf hdoubles hv hno.1 hnames (.inl rfl),
      List.tail_nil, bindItems_itemTrees hdoubles hs hno.2 hnames]
    rfl

/-- The members of `todo`, each found under its own name and none of them there yet. -/
theorem bindMembers_memberTrees (hdoubles : doubles.IsExact) {todo : List (JsString × Schema)}
    {members : List (JsString × Value)} (h : FitsFields todo members)
    (hno : anyMemberUnencodable members = false)
    (hnames : fieldsHavePlainNames todo = true) (fields : List (JsString × Schema))
    (done : List (JsString × Value))
    (hfound : ∀ f ∈ todo, getMember f.1 fields = some f.2)
    (hnew : ∀ f ∈ todo, f.1 ∉ done.map Prod.fst)
    (hnodup : (todo.map Prod.fst).Nodup) :
    bindMembers unicode doubles (memberTrees doubles members) fields (done ++ zeroFields todo) =
      .ok (done ++ members) := by
  match h with
  | .nil => rfl
  | @FitsFields.cons name field v todo members hv hs =>
    rw [anyMemberUnencodable, Bool.or_eq_false_iff] at hno
    rw [fieldsHavePlainNames, Bool.and_eq_true, Bool.and_eq_true] at hnames
    rw [List.map_cons, List.nodup_cons] at hnodup
    have hget : getMember name fields = some field := hfound _ List.mem_cons_self
    have hname : name ∉ done.map Prod.fst := hnew _ List.mem_cons_self
    have hlookup : ((lookupName unicode fields name).bind fun n =>
      (getMember n fields).map (n, ·)) =
        some (name, field) := by
      rw [lookupName, if_pos (mem_of_getMember hget), Option.bind_some, hget]
      rfl
    have hstep : bindMembers unicode doubles (memberTrees doubles ((name, v) :: members)) fields
        (done ++ zeroFields ((name, field) :: todo)) =
        bindMembers unicode doubles (memberTrees doubles members) fields ((done ++ [(name, v)]) ++
            zeroFields todo) := by
      rw [memberTrees, bindMembers, hlookup, zeroFields]
      dsimp only
      rw [getMember_append hname, bind_treeOf hdoubles hv hno.1 hnames.1.2 (.inr rfl), ok_bind,
        setMember_append hname, List.append_assoc, List.singleton_append]
    rw [hstep, bindMembers_memberTrees hdoubles hs hno.2 hnames.2 fields (done ++ [(name, v)])
      (fun f hf => hfound f (List.mem_cons_of_mem _ hf)) ?_ hnodup.2, List.append_assoc]
    · rfl
    · intro f hf hmem
      rw [List.map_append, List.mem_append, List.map_singleton, List.mem_singleton] at hmem
      rcases hmem with hmem | heq
      · exact hnew f (List.mem_cons_of_mem _ hf) hmem
      · exact hnodup.1 (List.mem_map.mpr ⟨f, hf, heq⟩)

end

end

/-! ## The round trip -/

mutual

/-- No time anywhere. -/
def Schema.hasTime : Schema → Bool
  | .time => true
  | .list of => of.hasTime
  | .struct fields => fieldsHaveTime fields
  | _ => false

def fieldsHaveTime : List (JsString × Schema) → Bool
  | [] => false
  | (_, field) :: fields => field.hasTime || fieldsHaveTime fields

end

mutual

theorem noUnencodable_of_fits {schema : Schema} {v : Value} (h : Fits schema v)
    (hno : schema.hasTime = false) : hasUnencodable v = false := by
  match h with
  | .text _ | .int64 _ _ | .float64 _ | .bool _ | .null _ => rfl
  | .time _ => cases hno
  | .list hs => exact noUnencodable_of_items hs hno
  | .struct hs => exact noUnencodable_of_fields hs hno

theorem noUnencodable_of_items {of : Schema} {items : List Value} (h : FitsItems of items)
    (hno : of.hasTime = false) : anyUnencodable items = false := by
  match h with
  | .nil _ => rfl
  | .cons hv hs =>
    exact Bool.or_eq_false_iff.mpr ⟨noUnencodable_of_fits hv hno, noUnencodable_of_items hs hno⟩

theorem noUnencodable_of_fields {fields : List (JsString × Schema)}
    {members : List (JsString × Value)} (h : FitsFields fields members)
    (hno : fieldsHaveTime fields = false) : anyMemberUnencodable members = false := by
  match h with
  | .nil => rfl
  | .cons hv hs =>
    obtain ⟨hfield, hfields⟩ := Bool.or_eq_false_iff.mp hno
    exact Bool.or_eq_false_iff.mpr ⟨noUnencodable_of_fits hv hfield,
      noUnencodable_of_fields hs hfields⟩

end

/-- Both decoders read the value from a text. -/
def ReadsBack (unicode : Unicode) (doubles : Doubles) (schema : Schema) (text : JsString)
    (v : Value) : Prop :=
  decode unicode doubles schema (stringToUtf8 text) = .ok v ∧
    decodeFirstValue unicode doubles schema (stringToUtf8 text) = .ok v

/-- Both decoders refuse a text. -/
def IsRefused (unicode : Unicode) (doubles : Doubles) (schema : Schema) (text : JsString) : Prop :=
  (∃ e, decode unicode doubles schema (stringToUtf8 text) = .error e) ∧
    ∃ e, decodeFirstValue unicode doubles schema (stringToUtf8 text) = .error e

section
variable (unicode : Unicode) {doubles : Doubles}

/-- A value of the schema's shape is read back, unless it nests deeper than the reader goes. -/
theorem fits_readsBack (hdoubles : doubles.IsExact) {schema : Schema} {v : Value}
    (h : Fits schema v) (hno : hasUnencodable v = false) (hnames : schema.hasPlainNames = true) :
    ∃ text, stringifyJson doubles v = .ok text ∧
      (v.nesting ≤ MAX_DEPTH → ReadsBack unicode doubles schema text v) ∧
      (MAX_DEPTH < v.nesting → IsRefused unicode doubles schema text) := by
  obtain ⟨ps, hps, -, hvalue⟩ := value_written hdoubles h hno hnames
  have htree := hvalue v.nesting le_rfl
  have hne : stringToUtf8 ps.flatten ≠ [] := by
    obtain ⟨c, s, hs, -⟩ := valueText_head htree
    rw [hs]
    exact List.cons_ne_nil c s
  have hbind : bind unicode doubles (treeOf doubles v) schema none = .ok v :=
    bind_treeOf hdoubles h hno hnames (.inl rfl)
  refine ⟨ps.flatten, by rw [stringifyJson, hps]; rfl, fun hd => ?_, fun hd => ?_⟩
  · rw [← nesting_treeOf doubles] at hd
    have hparse (ignoreRest : Bool) :
        parse (stringToUtf8 ps.flatten) ignoreRest = .ok (treeOf doubles v) :=
      (parse_valueText htree).1 hd
    constructor
    · rw [decode, if_neg hne, parseJson, hparse]
      exact mapError_eq_ok.mpr hbind
    · rw [decodeFirstValue, parseFirstJson, hparse]
      exact mapError_eq_ok.mpr hbind
  · rw [← nesting_treeOf doubles] at hd
    have hparse (ignoreRest : Bool) : ∃ e, parse (stringToUtf8 ps.flatten) ignoreRest = .error e :=
      (parse_valueText htree).2 hd
    constructor
    · obtain ⟨e, he⟩ := hparse false
      exact ⟨_, by rw [decode, if_neg hne, parseJson, he]; rfl⟩
    · obtain ⟨e, he⟩ := hparse true
      exact ⟨_, by rw [decodeFirstValue, parseFirstJson, he]; rfl⟩

theorem fits_of_decodes {schema : Schema} {body : Bytes} {v : Value}
    (h : decode unicode doubles schema body = .ok v ∨
      decodeFirstValue unicode doubles schema body = .ok v) :
    Fits schema v := by
  rcases h with h | h
  · exact fits_decode h
  · exact fits_decodeFirstValue h

section
variable {v : Value} {text : JsString} (htext : stringifyJson doubles v = .ok text)
    (authorization : JsString)
include htext

/-- The body of a ship purchase is the text of the caller's value. -/
theorem purchaseShip_body (h : Fits purchaseShipRequestSchema v) :
    purchaseShip doubles authorization (v.field "shipType").asText
    (v.field "waypointSymbol").asText =
      .ok ⟨js "POST", js "/my/ships", authorization, some text⟩ := by
  obtain ⟨t, w, rfl⟩ : ∃ t w, v = .struct [(js "shipType", .text t),
      (js "waypointSymbol", .text w)] := by
    cases h with
    | struct hs =>
      cases hs with
      | cons ht hs =>
        cases ht
        cases hs with
        | cons hw hs =>
          cases hw
          cases hs
          exact ⟨_, _, rfl⟩
  rw [purchaseShip]
  change (stringifyJson doubles (.struct [(js "shipType", .text t),
    (js "waypointSymbol", .text w)]) >>= _) = _
  rw [htext]
  rfl

/-- The body of a cargo trade is the text of the caller's value. -/
theorem tradeCargo_body (h : Fits cargoTransactionRequestSchema v) (ship : Bytes)
    (action : String) :
    tradeCargo doubles authorization ship action (v.field "symbol").asText (v.field "units").asInt =
      .ok ⟨js "POST", js "/my/ships/" ++ pathEscape ship ++ js "/" ++ js action, authorization,
        some text⟩ := by
  obtain ⟨t, n, rfl⟩ : ∃ t n, v = .struct [(js "symbol", .text t), (js "units", .int n)] := by
    cases h with
    | struct hs =>
      cases hs with
      | cons ht hs =>
        cases ht
        cases hs with
        | cons hn hs =>
          cases hn
          cases hs
          exact ⟨_, _, rfl⟩
  rw [tradeCargo]
  change (stringifyJson doubles (.struct [(js "symbol", .text t), (js "units", .int n)]) >>= _) = _
  rw [htext]
  rfl

end

end

/-- A call whose body both decoders read as the value. -/
def SendsBack (unicode : Unicode) (doubles : Doubles) (schema : Schema) (v : Value)
    (call : Except TypeError Call) : Prop :=
  ∃ sent text, call = .ok sent ∧ sent.body = some text ∧ ReadsBack unicode doubles schema text v

/-- A decoded value without an `UnencodableTime` is written as a text that both decoders read as the
value again, unless it nests deeper than the reader goes, which no value of a schema that does not
can. So the body of a purchase or a trade reads as what the caller's body was decoded to. The
engine's stack is taken to be deep enough for the value. -/
theorem decode_encode (unicode : Unicode) {doubles : Doubles} (hdoubles : doubles.IsExact) :
    (∀ (schema : Schema) (body : Bytes) (v : Value), schema.hasPlainNames = true →
      decode unicode doubles schema body = .ok v ∨
        decodeFirstValue unicode doubles schema body = .ok v →
      hasUnencodable v = false →
      (∃ text, stringifyJson doubles v = .ok text ∧ (ReadsBack unicode doubles schema text v ↔
          v.nesting ≤ MAX_DEPTH)) ∧
        v.nesting ≤ schema.nesting) ∧
    (∀ (body : Bytes) (v : Value) (authorization : JsString),
      decodeFirstValue unicode doubles purchaseShipRequestSchema body = .ok v →
      SendsBack unicode doubles purchaseShipRequestSchema v
        (purchaseShip doubles authorization (v.field "shipType").asText
          (v.field "waypointSymbol").asText)) ∧
    ∀ (body : Bytes) (v : Value) (authorization : JsString) (ship : Bytes),
      decodeFirstValue unicode doubles cargoTransactionRequestSchema body = .ok v →
      SendsBack unicode doubles cargoTransactionRequestSchema v
          (purchaseCargo doubles authorization ship (v.field "symbol").asText
            (v.field "units").asInt) ∧
        SendsBack unicode doubles cargoTransactionRequestSchema v
          (sellCargo doubles authorization ship (v.field "symbol").asText
            (v.field "units").asInt) := by
  refine ⟨?_, ?_, ?_⟩
  · intro schema body v hnames hdecodes hno
    have hfits := fits_of_decodes unicode hdecodes
    obtain ⟨text, htext, hreads, hrefused⟩ := fits_readsBack unicode hdoubles hfits hno hnames
    refine ⟨⟨text, htext, fun h => ?_, hreads⟩, hfits.nesting_le⟩
    by_contra hdeep
    obtain ⟨⟨e, he⟩, -⟩ := hrefused (Nat.not_le.mp hdeep)
    rw [h.1] at he
    cases he
  · intro body v authorization h
    have hfits := fits_decodeFirstValue h
    obtain ⟨text, htext, hreads, -⟩ :=
      fits_readsBack unicode hdoubles hfits (noUnencodable_of_fits hfits rfl) rfl
    exact ⟨_, text, purchaseShip_body htext authorization hfits, rfl,
      hreads (hfits.nesting_le.trans (by decide))⟩
  · intro body v authorization ship h
    have hfits := fits_decodeFirstValue h
    obtain ⟨text, htext, hreads, -⟩ :=
      fits_readsBack unicode hdoubles hfits (noUnencodable_of_fits hfits rfl) rfl
    have hback := hreads (hfits.nesting_le.trans (by decide))
    exact ⟨⟨_, text, tradeCargo_body htext authorization hfits ship "purchase", rfl, hback⟩,
      ⟨_, text, tradeCargo_body htext authorization hfits ship "sell", rfl, hback⟩⟩

/-- What the gateway answers is decoded with such schemas. -/
example : [getMyAgentResponse, getMyShipsResponse, getMyShipResponse, getMyContractsResponse,
    getMyContractResponse, acceptContractResponse, fulfillContractResponse, purchaseShipResponse,
    marketTransactionResponse].all
      (fun schema => schema.hasPlainNames && schema.nesting ≤ MAX_DEPTH) = true := by decide +kernel

theorem plainDoubles_exact : plainDoubles.IsExact := by
  have hswap (bits : UInt64) : plainDoubles.number (plainDoubles.string bits) = bits := by
    let swap (bits : UInt64) := if bits = 1 then 0x3ff0000000000000
      else if bits = 0x3ff0000000000000 then 1 else bits
    have hback : swap (swap bits) = bits := by
      dsimp only [swap]
      by_cases h₁ : bits = 1
      · rw [if_pos h₁, if_neg (by decide), if_pos rfl, h₁]
      · rw [if_neg h₁]
        by_cases h₂ : bits = 0x3ff0000000000000
        · rw [if_pos h₂, if_pos rfl, h₂]
        · rw [if_neg h₂, if_neg h₁, if_neg h₂]
    have hminus : latin1Decode (decimal (swap bits).toNat) ≠ js "-0" := by
      intro h
      have hmem : 0x2d ∈ decimal (swap bits).toNat := by
        rw [← latin1Encode_decode (decimal _), h]
        exact List.mem_cons_self
      exact absurd (decimal_digits _ _ hmem) (by decide)
    change (if latin1Decode (decimal (swap bits).toNat) = js "-0" then NEGATIVE_ZERO
      else swap (UInt64.ofNat (readDecimal
        (latin1Encode (latin1Decode (decimal (swap bits).toNat)))))) = bits
    rw [if_neg hminus, latin1Encode_decode, readDecimal_decimal, UInt64.ofNat_toNat, hback]
  exact ⟨fun bits _ => ⟨_, numberText_decimal _, rfl⟩, fun bits _ _ => hswap bits, by decide⟩

/-- A time and a double that come in another spelling than they go out in. -/
theorem decode_encode_times :
    let schema := struct [("items",
      .list (struct [("at", .time), ("n", .int64), ("f", .float64), ("b", .bool)]))]
    let body := latin1Encode
      (js "\x7b\"Items\":[\x7b\"at\":\"2024-02-29T7:05:06,120+00:00\",\"n\":-7,\"f\":-0\x7d]\x7d")
    let written :=
      js "\x7b\"items\":[\x7b\"at\":\"2024-02-29T07:05:06.12Z\",\"n\":-7,\"f\":-0,\"b\":false\x7d]\x7d"
    ∃ v, decode plainUnicode plainDoubles schema body = .ok v ∧ stringifyJson plainDoubles v =
      .ok written ∧
      ReadsBack plainUnicode plainDoubles schema written v := by
  intro schema body written
  have hrun : ((decode plainUnicode plainDoubles schema body).toOption.bind fun v =>
      (stringifyJson plainDoubles v).toOption) = some written := by decide +kernel
  have hno : (decode plainUnicode plainDoubles schema body).toOption.any (fun v =>
    !hasUnencodable v) = true := by
    decide +kernel
  cases hdecode : decode plainUnicode plainDoubles schema body with
  | error e =>
    rw [hdecode] at hrun
    cases hrun
  | ok v =>
    rw [hdecode] at hrun hno
    obtain ⟨⟨text, htext, hreads⟩, hle⟩ :=
      (decode_encode plainUnicode plainDoubles_exact).1 schema body v rfl (.inl hdecode)
        (by simpa [Except.toOption] using hno)
    have heq : text = written := by
      change (stringifyJson plainDoubles v).toOption = some written at hrun
      rw [htext] at hrun
      exact Option.some.inj hrun
    exact ⟨v, rfl, heq ▸ htext, heq ▸ hreads.mpr (hle.trans (by decide))⟩

/-! ## Too deep -/

/-- Structs in structs. -/
def nestedSchema : Nat → Schema
  | 0 => .struct []
  | n + 1 => .struct [(js "a", nestedSchema n)]

theorem nestedSchema_spec (n : Nat) :
    (nestedSchema n).hasPlainNames = true ∧ (nestedSchema n).hasTime = false ∧
      (zero (nestedSchema n)).nesting = n + 1 := by
  induction n with
  | zero => exact ⟨rfl, rfl, rfl⟩
  | succ n ih =>
    obtain ⟨hnames, htime, hnesting⟩ := ih
    refine ⟨?_, ?_, ?_⟩
    · simp [nestedSchema, Schema.hasPlainNames, fieldsHavePlainNames, hnames, js, isLetter]
    · simp [nestedSchema, Schema.hasTime, fieldsHaveTime, htime]
    · simp [nestedSchema, zero, zeroFields, Value.nesting, entriesNesting, hnesting]

/-- An empty body is the zero value of any schema; that of a schema deeper than the reader goes is
written as a text which the reader refuses. -/
theorem deep_not_read_back :
    let schema := nestedSchema MAX_DEPTH
    schema.hasPlainNames = true ∧ decode plainUnicode plainDoubles schema [] = .ok (zero schema) ∧
      hasUnencodable (zero schema) = false ∧
      ∃ text, stringifyJson plainDoubles (zero schema) = .ok text ∧
        IsRefused plainUnicode plainDoubles schema text := by
  intro schema
  obtain ⟨hnames, htime, hnesting⟩ := nestedSchema_spec MAX_DEPTH
  have hno := noUnencodable_of_fits (fits_zero schema) htime
  obtain ⟨text, htext, -, hrefused⟩ :=
    fits_readsBack plainUnicode plainDoubles_exact (fits_zero schema) hno hnames
  exact ⟨hnames, if_pos rfl, hno, text, htext,
    hrefused (Nat.lt_of_lt_of_eq (Nat.lt_succ_self _) hnesting.symm)⟩

end AgentService
