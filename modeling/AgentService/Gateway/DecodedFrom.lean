import AgentService.Gateway.FirstValue
import AgentService.Gateway.MemberOrder
import AgentService.Gateway.TimeReading

/-!
# Where a decoded value comes from

`Decoded` is the type of the same name in the source: the values of a schema. `ReadFrom` says which
of them a document comes to. Its second argument is everything the document holds at one place, in
document order: the repeats of a member, and the items that stand behind each other when a list is
repeated. A scalar is the last of these that is not `null`; a struct is read field by field from all
members its objects have; a list is what the last array makes of it, each item read from its column.
-/

namespace AgentService
open Lib

/-! ## The values of a schema -/

mutual

/-- `Decoded<S>` -/
def Decoded : Schema → Value → Prop
  | .text, .text v => ∃ cs, v = utf16 cs
  | .int64, .int v => INT64_MIN ≤ v ∧ v ≤ INT64_MAX
  | .float64, .float bits => isFiniteDouble bits = true
  | .bool, .bool _ => True
  | .time, .text t => ∃ r, IsRfc3339 r t
  | .time, .unencodable _ => True
  | .list _, .null => True
  | .list of, .list items => ∀ v ∈ items, Decoded of v
  | .struct fields, .struct members => DecodedMembers fields members
  | _, _ => False

/-- The fields in their order, and nothing else. -/
def DecodedMembers : List (JsString × Schema) → List (JsString × Value) → Prop
  | [], [] => True
  | (name, field) :: fields, (k, v) :: members => k = name ∧ Decoded field v ∧
      DecodedMembers fields members
  | _, _ => False

end

mutual

/-- What fits its schema is one of its values. -/
theorem decoded_of_fits (schema : Schema) : ∀ {v : Value}, Fits schema v → Decoded schema v := by
  intro v h
  match schema with
  | .text =>
    cases h with
    | text cs =>
      rw [Decoded]
      exact ⟨cs, rfl⟩
  | .int64 =>
    cases h with
    | int64 hlo hhi =>
      rw [Decoded]
      exact ⟨hlo, hhi⟩
  | .float64 =>
    cases h with
    | float64 hfinite =>
      rw [Decoded]
      exact hfinite
  | .bool =>
    cases h
    simp [Decoded]
  | .time =>
    cases h with
    | time hv =>
      obtain ⟨r, -, -, ⟨s, rfl, hs⟩ | ⟨rfl, -⟩⟩ := normaliseTime_reads hv
      · rw [Decoded]
        exact ⟨r, hs⟩
      · simp [Decoded]
  | .list of =>
    cases h with
    | null => simp [Decoded]
    | list hs =>
      rw [Decoded]
      intro v hv
      exact decoded_of_fits of (hs.mem v hv)
  | .struct fields =>
    cases h with
    | struct hs =>
      rw [Decoded]
      exact decoded_of_fitsFields fields hs

theorem decoded_of_fitsFields (fields : List (JsString × Schema)) :
    ∀ {members : List (JsString × Value)}, FitsFields fields members →
      DecodedMembers fields members := by
  intro members h
  match fields with
  | [] =>
    cases h
    simp [DecodedMembers]
  | (name, field) :: fields =>
    cases h with
    | cons hv hs =>
      rw [DecodedMembers]
      exact ⟨rfl, decoded_of_fits field hv, decoded_of_fitsFields fields hs⟩

end

/-! ## What a place holds -/

mutual

/-- A JavaScript object has each name once. -/
def Schema.isRecord : Schema → Bool
  | .list of => of.isRecord
  | .struct fields => (fields.map Prod.fst).Nodup && fieldsAreRecords fields
  | _ => true

def fieldsAreRecords : List (JsString × Schema) → Bool
  | [] => true
  | (_, field) :: fields => field.isRecord && fieldsAreRecords fields

end

def JsonNode.isNull : JsonNode → Bool
  | .null => true
  | _ => false

/-- The last node that is not `null`. -/
def lastSet (nodes : List JsonNode) : Option JsonNode :=
  (nodes.filter fun node => !node.isNull).getLast?

/-- The members of all objects, one object after the other. -/
def entriesOf (nodes : List JsonNode) : List (JsString × JsonNode) :=
  nodes.flatMap fun
    | .obj ms => ms
    | _ => []

/-- What the members bound to one name hold. -/
def fieldNodes (unicode : Unicode) (fields : List (JsString × Schema)) (name : JsString)
    (ms : List (JsString × JsonNode)) : List JsonNode :=
  (ms.filter fun m => lookupName unicode fields m.1 == some name).map Prod.snd

/-- The items of one more array, each behind what stands in its place so far. -/
def addRow : List (List JsonNode) → List JsonNode → List (List JsonNode)
  | _, [] => []
  | columns, item :: items => (columns.head?.getD [] ++ [item]) :: addRow columns.tail items

/-- The columns of a list that is repeated; `null` starts anew. -/
def columnsOf (nodes : List JsonNode) : List (List JsonNode) :=
  nodes.foldl (fun columns node =>
    match node with
    | .arr items => addRow columns items
    | _ => []) []

/-- An optional minus sign and digits. -/
def WritesInt (raw : JsString) (v : Int) : Prop :=
  ∃ digits, digits ≠ [] ∧ allDigits digits = true ∧
    (raw = digits ∧ v = groupNumber digits ∨ raw = 0x2d :: digits ∧ v = -(groupNumber digits : Int))

theorem writesInt_of_integerText {raw : JsString} {v : Int} (h : integerText raw = some v) :
    WritesInt raw v := by
  unfold integerText at h
  split at h
  · rename_i digits
    split_ifs at h with hdigits
    cases h
    exact ⟨digits, hdigits.1, hdigits.2, .inr ⟨rfl, rfl⟩⟩
  · split_ifs at h with hdigits
    cases h
    exact ⟨_, hdigits.1, hdigits.2, .inl ⟨rfl, rfl⟩⟩

/-- What a scalar node says under a schema. -/
inductive ScalarOf (doubles : Doubles) : Schema → JsonNode → Value → Prop
  | text (cs plain) : ScalarOf doubles .text (.str (utf16 cs) plain) (.text (utf16 cs))
  | bool (v) : ScalarOf doubles .bool (.bool v) (.bool v)
  | int64 {raw v} (h : WritesInt raw v) (hlo : INT64_MIN ≤ v) (hhi : v ≤ INT64_MAX) :
      ScalarOf doubles .int64 (.num raw) (.int v)
  | float64 {raw} (h : isFiniteDouble (doubles.number raw) = true) :
      ScalarOf doubles .float64 (.num raw) (.float (doubles.number raw))
  | time {t s r} (ht : ReadsTime r t) (hs : IsRfc3339 r s) :
      ScalarOf doubles .time (.str t true) (.text s)
  | unencodable {t r} (ht : ReadsTime r t) (hoffset : 86400 ≤ r.offset ∨ r.offset ≤ -86400) :
      ScalarOf doubles .time (.str t true) (.unencodable t)

def Schema.isScalar : Schema → Bool
  | .list _ => false
  | .struct _ => false
  | _ => true

section
variable (unicode : Unicode) (doubles : Doubles)

mutual

/-- The value that the nodes of one place come to. -/
inductive ReadFrom : Schema → List JsonNode → Value → Prop
  | zero {schema nodes} (hscalar : schema.isScalar = true) (h : lastSet nodes = none) :
      ReadFrom schema nodes (zero schema)
  | scalar {schema nodes node v} (h : lastSet nodes = some node)
      (hv : ScalarOf doubles schema node v) :
      ReadFrom schema nodes v
  | null {of nodes} (h : ∀ node ∈ nodes.getLast?, node = .null) : ReadFrom (.list of) nodes .null
  | list {of nodes items vs} (h : nodes.getLast? = some (.arr items))
      (hs : ReadItems of (columnsOf nodes) vs) :
      ReadFrom (.list of) nodes (.list vs)
  | struct {fields nodes members} (hs : ReadFields fields (entriesOf nodes) fields members) :
      ReadFrom (.struct fields) nodes (.struct members)

/-- Each item is read from its column. -/
inductive ReadItems : Schema → List (List JsonNode) → List Value → Prop
  | nil (of) : ReadItems of [] []
  | cons {of column columns v vs} (h : ReadFrom of column v) (hs : ReadItems of columns vs) :
      ReadItems of (column :: columns) (v :: vs)

/-- Each field is read from the members bound to its name. -/
inductive ReadFields : List (JsString × Schema) → List (JsString × JsonNode) →
    List (JsString × Schema) →
    List (JsString × Value) → Prop
  | nil (all ms) : ReadFields all ms [] []
  | cons {all ms name field v fields members}
      (h : ReadFrom field (fieldNodes unicode all name ms) v)
      (hs : ReadFields all ms fields members) :
      ReadFields all ms ((name, field) :: fields) ((name, v) :: members)

end

end

/-! ## One more node -/

/-- `null` does not set a scalar. -/
theorem lastSet_null {node : JsonNode} (h : node.isNull = true) (nodes : List JsonNode) :
    lastSet (nodes ++ [node]) = lastSet nodes := by
  simp [lastSet, h]

/-- Any other value sets it anew. -/
theorem lastSet_snoc {node : JsonNode} (h : node.isNull = false) (nodes : List JsonNode) :
    lastSet (nodes ++ [node]) = some node := by
  simp [lastSet, h]

theorem entriesOf_append (nodes nodes' : List JsonNode) :
    entriesOf (nodes ++ nodes') = entriesOf nodes ++ entriesOf nodes' :=
  List.flatMap_append

/-- One more list adds an entry to each column it reaches. -/
theorem columnsOf_snoc (nodes : List JsonNode) (items : List JsonNode) :
    columnsOf (nodes ++ [.arr items]) = addRow (columnsOf nodes) items := by
  simp [columnsOf]

/-- Where the last node is not an array there are no columns. -/
theorem columnsOf_null {nodes : List JsonNode} (h : ∀ node ∈ nodes.getLast?, node = .null) :
    columnsOf nodes = [] := by
  induction nodes using List.reverseRecOn with
  | nil => rfl
  | append_singleton nodes node _ =>
    obtain rfl := h node (by simp)
    simp [columnsOf]

section
variable {unicode : Unicode} {doubles : Doubles}

/-- A scalar is read from the node at hand, whatever was there. -/
theorem scalarOf_bind {schema : Schema} {node : JsonNode} {existing : Option Value} {v : Value}
    (hscalar : schema.isScalar = true) (hnull : node.isNull = false) (hnode : node.IsWellFormed)
    (h : bind unicode doubles node schema existing = .ok v) : ScalarOf doubles schema node v := by
  cases node with
  | null => cases hnull
  | bool b =>
    cases schema with
    | bool =>
      cases h
      exact .bool b
    | list _ => cases hscalar
    | struct _ => cases hscalar
    | _ => cases h
  | num raw =>
    cases schema with
    | int64 =>
      obtain ⟨n, hn, rfl⟩ := map_eq_ok.mp h
      obtain ⟨hlo, hhi⟩ := parseInt64_range hn
      unfold parseInt64 at hn
      split at hn
      · cases hn
      · rename_i hwrites
        split_ifs at hn
        cases hn
        exact .int64 (writesInt_of_integerText hwrites) hlo hhi
    | float64 =>
      obtain ⟨bits, hbits, rfl⟩ := map_eq_ok.mp h
      unfold parseFloat64 at hbits
      split_ifs at hbits with hfinite
      cases hbits
      exact .float64 hfinite
    | list _ => cases hscalar
    | struct _ => cases hscalar
    | _ => cases h
  | str t plain =>
    cases schema with
    | text =>
      cases h
      obtain ⟨cs, rfl⟩ := hnode
      exact .text cs plain
    | time =>
      change (if plain then normaliseTime t else _) = _ at h
      split_ifs at h with hplain
      subst hplain
      obtain ⟨r, hr, -, ⟨s, rfl, hs⟩ | ⟨rfl, hoffset⟩⟩ := normaliseTime_reads h
      · exact .time hr hs
      · exact .unencodable hr hoffset
    | list _ => cases hscalar
    | struct _ => cases hscalar
    | _ => cases h
  | arr items =>
    cases schema with
    | list _ => cases hscalar
    | _ => cases h
  | obj ms =>
    cases schema with
    | struct _ => cases hscalar
    | _ => cases h

/-! ## The zero value -/

mutual

/-- A field nobody names is zero. -/
theorem readFrom_zero (schema : Schema) : ReadFrom unicode doubles schema [] (zero schema) := by
  match schema with
  | .list of => exact .null (by simp)
  | .struct fields => exact .struct (readFields_zero fields fields)
  | .text | .int64 | .float64 | .bool | .time => exact .zero rfl rfl

theorem readFields_zero (all fields : List (JsString × Schema)) :
    ReadFields unicode doubles all [] fields (zeroFields fields) := by
  match fields with
  | [] => exact .nil all []
  | (name, field) :: fields => exact .cons (readFrom_zero field) (readFields_zero all fields)

end

/-! ## What is there already -/

/-- What an earlier repeat has left: nothing yet, or what the nodes so far come to. -/
def ReadSoFar (unicode : Unicode) (doubles : Doubles) (schema : Schema) (nodes : List JsonNode) :
    Option Value → Prop
  | none => nodes = []
  | some v => ReadFrom unicode doubles schema nodes v

/-- What was there before, or zero. -/
theorem readFrom_orZero {schema : Schema} {nodes : List JsonNode} {existing : Option Value}
    (h : ReadSoFar unicode doubles schema nodes existing) (hlist : ∀ of, schema ≠ .list of) :
    ReadFrom unicode doubles schema nodes (orZero existing schema) := by
  match existing with
  | none =>
    cases h
    exact readFrom_zero schema
  | some v =>
    cases h with
    | zero hscalar hlast =>
      cases schema with
      | list of => exact absurd rfl (hlist of)
      | struct _ => cases hscalar
      | _ => exact .zero hscalar hlast
    | scalar hlast hv =>
      cases hv with
      | text cs plain => exact .scalar hlast (.text cs plain)
      | bool v => exact .scalar hlast (.bool v)
      | int64 hw hlo hhi => exact .scalar hlast (.int64 hw hlo hhi)
      | float64 hfinite => exact .scalar hlast (.float64 hfinite)
      | time ht hs => exact .scalar hlast (.time ht hs)
      | unencodable ht hoffset => exact .scalar hlast (.unencodable ht hoffset)
    | null _ => exact absurd rfl (hlist _)
    | list _ _ => exact absurd rfl (hlist _)
    | struct hs => exact .struct hs

/-- A `null` leaves everything but a list as it is. -/
theorem readFrom_null {schema : Schema} {nodes : List JsonNode} {v : Value}
    (h : ReadFrom unicode doubles schema nodes v) (hlist : ∀ of, schema ≠ .list of) :
    ReadFrom unicode doubles schema (nodes ++ [.null]) v := by
  cases h with
  | zero hscalar hlast => exact .zero hscalar (by rw [lastSet_null rfl, hlast])
  | scalar hlast hv => exact .scalar (by rw [lastSet_null rfl, hlast]) hv
  | null _ => exact absurd rfl (hlist _)
  | list _ _ => exact absurd rfl (hlist _)
  | struct hs =>
    apply ReadFrom.struct
    rw [entriesOf_append]
    simpa [entriesOf] using hs

/-- The items that were there before, column by column. -/
theorem readItems_itemsOf {of : Schema} {nodes : List JsonNode} {existing : Option Value}
    (h : ReadSoFar unicode doubles (.list of) nodes existing) :
    ReadItems unicode doubles of (columnsOf nodes) (itemsOf existing) := by
  match existing with
  | none =>
    cases h
    exact .nil of
  | some v =>
    cases h with
    | zero hscalar _ => cases hscalar
    | scalar _ hv => cases hv
    | null hlast =>
      rw [columnsOf_null hlast]
      exact .nil of
    | list _ hs => exact hs

/-! ## The fields of a struct -/

theorem lookupName_mem {fields : List (JsString × Schema)} {key name : JsString}
    (h : lookupName unicode fields key = some name) : name ∈ fields.map Prod.fst := by
  unfold lookupName at h
  dsimp only at h
  split_ifs at h with hmem
  · cases h
    exact hmem
  · simpa using List.mem_of_find?_eq_some h

theorem getMember_isSome {α : Type} {name : JsString} {ms : List (JsString × α)}
    (h : name ∈ ms.map Prod.fst) : ∃ v, getMember name ms = some v := by
  induction ms with
  | nil => cases h
  | cons m ms ih =>
    unfold getMember
    split
    · exact ⟨_, rfl⟩
    · rename_i hne
      rcases List.mem_cons.mp h with heq | hmem
      · exact absurd heq.symm hne
      · exact ih hmem

/-- The nodes of a field, in the order of the members that name it. -/
theorem fieldNodes_append (all : List (JsString × Schema)) (name : JsString)
    (ms ms' : List (JsString × JsonNode)) :
    fieldNodes unicode all name (ms ++ ms') = fieldNodes unicode all name ms ++
      fieldNodes unicode all name ms' := by
  simp [fieldNodes]

/-- A member of no field, or of another one. -/
theorem fieldNodes_other {all : List (JsString × Schema)} {name : JsString}
    {m : JsString × JsonNode} (h : lookupName unicode all m.1 ≠ some name) :
    fieldNodes unicode all name [m] = [] := by
  simp [fieldNodes, h]

theorem fieldNodes_self {all : List (JsString × Schema)} {name : JsString} {m : JsString × JsonNode}
    (h : lookupName unicode all m.1 = some name) : fieldNodes unicode all name [m] = [m.2] := by
  simp [fieldNodes, h]

/-- One field of what was read so far. -/
theorem ReadFields.get {all fields : List (JsString × Schema)} {ms : List (JsString × JsonNode)}
    {members : List (JsString × Value)} (h : ReadFields unicode doubles all ms fields members)
    {name : JsString}
    {field : Schema} (hf : getMember name fields = some field) :
    ∃ v, getMember name members = some v ∧
      ReadFrom unicode doubles field (fieldNodes unicode all name ms) v := by
  induction fields generalizing members with
  | nil => cases hf
  | cons f fields ih =>
    cases h with
    | cons hv hs =>
      unfold getMember at hf ⊢
      split at hf
      · rename_i heq
        cases hf
        cases heq
        exact ⟨_, if_pos rfl, hv⟩
      · rename_i hne
        obtain ⟨v, hget, hread⟩ := ih hs hf
        exact ⟨v, by rw [if_neg hne, hget], hread⟩

/-- A member that no field is bound to. -/
theorem ReadFields.skip {all fields : List (JsString × Schema)} {ms : List (JsString × JsonNode)}
    {members : List (JsString × Value)} (h : ReadFields unicode doubles all ms fields members)
    {m : JsString × JsonNode} (hm : ∀ name ∈ fields.map Prod.fst,
      lookupName unicode all m.1 ≠ some name) :
    ReadFields unicode doubles all (ms ++ [m]) fields members := by
  induction fields generalizing members with
  | nil =>
    cases h
    exact .nil all _
  | cons f fields ih =>
    cases h with
    | cons hv hs =>
      refine .cons ?_ (ih hs fun name hname => hm name (List.mem_cons_of_mem _ hname))
      rw [fieldNodes_append, fieldNodes_other (hm _ (List.mem_cons_self ..)), List.append_nil]
      exact hv

/-- A member that is bound to a field. -/
theorem ReadFields.set {all fields : List (JsString × Schema)} {ms : List (JsString × JsonNode)}
    {members : List (JsString × Value)} (h : ReadFields unicode doubles all ms fields members)
    (hnodup : (fields.map Prod.fst).Nodup) {m : JsString × JsonNode} {name : JsString}
    {field : Schema}
    (hm : lookupName unicode all m.1 = some name)
    (hf : getMember name fields = some field) {v : Value}
    (hv : ReadFrom unicode doubles field (fieldNodes unicode all name ms ++ [m.2]) v) :
    ReadFields unicode doubles all (ms ++ [m]) fields (setMember name v members) := by
  induction fields generalizing members with
  | nil => cases hf
  | cons f fields ih =>
    obtain ⟨hnotin, hrest⟩ := List.nodup_cons.mp hnodup
    cases h with
    | cons hw hs =>
      unfold getMember at hf
      unfold setMember
      split at hf
      · rename_i heq
        cases hf
        cases heq
        rw [if_pos rfl]
        refine .cons ?_ (hs.skip ?_)
        · rw [fieldNodes_append, fieldNodes_self hm]
          exact hv
        · intro other hother heq
          rw [hm] at heq
          cases heq
          exact hnotin hother
      · rename_i hne
        rw [if_neg hne]
        refine .cons ?_ (ih hs hrest hf)
        rw [fieldNodes_append, fieldNodes_other, List.append_nil]
        · exact hw
        · rw [hm]
          exact fun heq => hne (Option.some.inj heq).symm

theorem isRecord_getMember {fields : List (JsString × Schema)} (h : fieldsAreRecords fields = true)
    {name : JsString} {field : Schema} (hf : getMember name fields = some field) :
    field.isRecord = true := by
  induction fields with
  | nil => cases hf
  | cons f fields ih =>
    obtain ⟨k, g⟩ := f
    rw [fieldsAreRecords, Bool.and_eq_true] at h
    unfold getMember at hf
    split at hf
    · cases hf
      exact h.1
    · exact ih h.2 hf

/-! ## Binding -/

mutual

/-- One more node read on top of what was read so far, for every schema. -/
theorem readFrom_bind (node : JsonNode) :
    ∀ {schema : Schema} {nodes : List JsonNode} {existing : Option Value} {v : Value},
      schema.isRecord = true → node.IsWellFormed → ReadSoFar unicode doubles schema nodes existing →
      bind unicode doubles node schema existing = .ok v →
        ReadFrom unicode doubles schema (nodes ++ [node]) v := by
  intro schema nodes existing v hrecord hnode hexisting h
  match node with
  | .null =>
    cases schema with
    | list of =>
      cases h
      exact .null (by simp)
    | _ =>
      cases h
      exact readFrom_null (readFrom_orZero hexisting (by simp)) (by simp)
  | .arr items =>
    cases schema with
    | list of =>
      obtain ⟨vs, hvs, rfl⟩ := map_eq_ok.mp h
      refine .list List.getLast?_concat ?_
      rw [columnsOf_snoc]
      exact readItems_bind items hrecord hnode (readItems_itemsOf hexisting) hvs
    | struct _ => cases h
    | _ => exact .scalar (lastSet_snoc rfl nodes) (scalarOf_bind rfl rfl hnode h)
  | .obj ms =>
    cases schema with
    | struct fields =>
      obtain ⟨members, hmembers, rfl⟩ := map_eq_ok.mp h
      have hzero := readFrom_orZero hexisting (by simp)
      cases hinto : orZero existing (.struct fields) with
      | struct into =>
        rw [hinto] at hzero hmembers
        cases hzero with
        | zero hscalar _ => cases hscalar
        | scalar _ hv => cases hv
        | struct hs =>
          apply ReadFrom.struct
          rw [entriesOf_append]
          simpa [entriesOf] using readFields_bind ms hrecord hnode hs hmembers
      | _ =>
        rw [hinto] at hzero
        cases hzero with
        | scalar _ hv => cases hv
    | list _ => cases h
    | _ => exact .scalar (lastSet_snoc rfl nodes) (scalarOf_bind rfl rfl hnode h)
  | .bool _ | .num _ | .str _ _ =>
    cases schema with
    | list _ => cases h
    | struct _ => cases h
    | _ => exact .scalar (lastSet_snoc rfl nodes) (scalarOf_bind rfl rfl hnode h)

/-- One more list, item by item. -/
theorem readItems_bind (items : List JsonNode) : ∀ {of : Schema} {columns : List (List JsonNode)}
    {before vs : List Value}, of.isRecord = true → IsWellFormedItems items →
      ReadItems unicode doubles of columns before →
      bindItems unicode doubles items of before = .ok vs →
      ReadItems unicode doubles of (addRow columns items) vs := by
  intro of columns before vs hrecord hitems hbefore h
  match items with
  | [] =>
    cases h
    exact .nil of
  | item :: items =>
    obtain ⟨v, hv, h⟩ := bind_eq_ok.mp h
    obtain ⟨rest, hrest, h⟩ := bind_eq_ok.mp h
    cases h
    cases hbefore with
    | nil =>
      have hread : ReadSoFar unicode doubles of [] none := rfl
      exact .cons (readFrom_bind item hrecord hitems.1 hread hv)
        (readItems_bind items hrecord hitems.2 (.nil of) hrest)
    | cons hw hs =>
      have hread : ReadSoFar unicode doubles of _ (some _) := hw
      exact .cons (readFrom_bind item hrecord hitems.1 hread hv)
        (readItems_bind items hrecord hitems.2 hs hrest)

/-- One more object, member by member. -/
theorem readFields_bind (ms : List (JsString × JsonNode)) : ∀ {fields : List (JsString × Schema)}
    {hist : List (JsString × JsonNode)} {into members : List (JsString × Value)},
      (Schema.struct fields).isRecord = true → IsWellFormedMembers ms →
      ReadFields unicode doubles fields hist fields into →
        bindMembers unicode doubles ms fields into = .ok members →
      ReadFields unicode doubles fields (hist ++ ms) fields members := by
  intro fields hist into members hrecord hms hinto h
  match ms with
  | [] =>
    cases h
    rw [List.append_nil]
    exact hinto
  | (key, node) :: rest =>
    rw [List.append_cons]
    cases hname : lookupName unicode fields key with
    | none =>
      have hresolve : resolve unicode fields key = none := by rw [resolve, hname, Option.bind_none]
      rw [bindMembers_unknown hresolve] at h
      refine readFields_bind rest hrecord hms.2 (hinto.skip ?_) h
      intro name _ heq
      rw [hname] at heq
      cases heq
    | some name =>
      obtain ⟨field, hfield⟩ := getMember_isSome (lookupName_mem hname)
      have hresolve : resolve unicode fields key = some (name, field) := by
        rw [resolve, hname, Option.bind_some, hfield, Option.map_some]
      rw [bindMembers_known hresolve] at h
      obtain ⟨v, hv, h⟩ := bind_eq_ok.mp h
      obtain ⟨w, hw, hread⟩ := hinto.get hfield
      rw [hw] at hv
      rw [Schema.isRecord, Bool.and_eq_true, decide_eq_true_iff] at hrecord
      have hrecord' : (Schema.struct fields).isRecord = true := by
        rw [Schema.isRecord, Bool.and_eq_true, decide_eq_true_iff]
        exact hrecord
      have hsoFar : ReadSoFar unicode doubles _ _ (some w) := hread
      exact readFields_bind rest hrecord' hms.2 (hinto.set hrecord.1 hname hfield
        (readFrom_bind node (isRecord_getMember hrecord.2 hfield) hms.1 hsoFar hv)) h

end

end

/-! ## Both decoders -/

/-- Decoding throws `DecodeError`s only, and what it returns is the value of the schema that the
document, or the lack of one, comes to. The engine's stack is taken to be deep enough for the
schema: what a stack that is used up does is no part of the language. -/
theorem decode_typed (unicode : Unicode) (doubles : Doubles) {schema : Schema}
    (h : schema.isRecord = true) (body : Bytes) :
    ((∃ e, decode unicode doubles schema body = .error (.decodeError e)) ∨
      ∃ v nodes, decode unicode doubles schema body = .ok v ∧ Decoded schema v ∧
        (body = [] ∧ nodes = [] ∨ ∃ node, parseJson body = .ok node ∧ nodes = [node]) ∧
        ReadFrom unicode doubles schema nodes v) ∧
    ((∃ e, decodeFirstValue unicode doubles schema body = .error (.decodeError e)) ∨
      ∃ v node, decodeFirstValue unicode doubles schema body = .ok v ∧ Decoded schema v ∧
        parseFirstJson body = .ok node ∧ ReadFrom unicode doubles schema [node] v) := by
  constructor
  · cases hdecode : decode unicode doubles schema body with
    | error t =>
      obtain ⟨e, rfl⟩ := decode_error hdecode
      exact .inl ⟨e, rfl⟩
    | ok v =>
      right
      have hdecoded := decoded_of_fits schema (fits_decode hdecode)
      unfold decode at hdecode
      split_ifs at hdecode with hempty
      · cases hdecode
        exact ⟨_, [], rfl, hdecoded, .inl ⟨hempty, rfl⟩, readFrom_zero schema⟩
      · obtain ⟨node, hnode, hv⟩ := bind_eq_ok.mp hdecode
        have hparse := mapError_eq_ok.mp hnode
        refine ⟨v, [node], rfl, hdecoded, .inr ⟨node, hparse, rfl⟩, ?_⟩
        have hread : ReadSoFar unicode doubles schema [] none := rfl
        exact readFrom_bind node h (wellFormed_of_parse hparse) hread (mapError_eq_ok.mp hv)
  · cases hdecode : decodeFirstValue unicode doubles schema body with
    | error t =>
      rcases decodeFirstValue_error hdecode with ⟨-, rfl⟩ | ⟨-, c, what, rfl⟩ | ⟨node, e, -, rfl, -⟩
      · exact .inl ⟨_, rfl⟩
      · exact .inl ⟨_, rfl⟩
      · exact .inl ⟨_, rfl⟩
    | ok v =>
      right
      have hdecoded := decoded_of_fits schema (fits_decodeFirstValue hdecode)
      obtain ⟨node, hnode, hv⟩ := bind_eq_ok.mp hdecode
      have hparse := mapError_eq_ok.mp hnode
      refine ⟨v, node, rfl, hdecoded, hparse, ?_⟩
      have hread : ReadSoFar unicode doubles schema [] none := rfl
      exact readFrom_bind node h (wellFormed_of_parse hparse) hread (mapError_eq_ok.mp hv)

/-- A member repeated under another case, and a list repeated with fewer items. -/
theorem decode_typed_repeats :
    let schema := Schema.struct [(js "units", .int64), (js "items", .list .bool)]
    let body :=
      latin1Encode (js "\x7b\"items\":[true,null],\"units\":1,\"UNITS\":-9223372036854775808,\"Items\":[null]\x7d")
    ∃ v node, decode plainUnicode plainDoubles schema body = .ok v ∧ Decoded schema v ∧
      parseJson body = .ok node ∧ ReadFrom plainUnicode plainDoubles schema [node] v := by
  intro schema body
  have hok : (decode plainUnicode plainDoubles schema body).isOk = true := by decide +kernel
  rcases (@decode_typed plainUnicode plainDoubles schema (by decide) body).1 with ⟨e, he⟩ |
    ⟨v, nodes, hv, hrest⟩
  · rw [he] at hok
    cases hok
  · obtain ⟨hdecoded, ⟨hempty, -⟩ | ⟨node, hnode, rfl⟩, hread⟩ := hrest
    · exact absurd hempty (by decide +kernel)
    · exact ⟨v, node, hv, hdecoded, hnode, hread⟩

end AgentService
