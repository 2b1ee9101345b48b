import AgentService.Gateway.DecodedShape

/-!
# Member order and noise

An object bound to a struct is a run over its members. Members of different fields commute, a member
of no field and a `null` for anything but a list leave everything as it is, and the objects of a
repeated field run one after the other. What holds of an object holds of the document around it: its
place is a context, and binding reads a context outside in.
-/

namespace AgentService
open Lib

/-! ## Reading and writing members -/

theorem getMember_setMember_self (name : JsString) (v : Value) (ms : List (JsString × Value)) :
    getMember name (setMember name v ms) = some v := by
  induction ms with
  | nil => exact if_pos rfl
  | cons m ms ih =>
    rw [setMember]
    split
    · rename_i heq
      exact if_pos heq
    · rename_i hne
      rw [getMember, if_neg hne, ih]

theorem getMember_setMember_ne {name other : JsString} (h : other ≠ name) (v : Value)
    (ms : List (JsString × Value)) :
    getMember other (setMember name v ms) = getMember other ms := by
  induction ms with
  | nil => exact if_neg h.symm
  | cons m ms ih =>
    rw [setMember]
    split
    · rename_i heq
      have hne : ¬ m.1 = other := fun ho => h (ho.symm.trans heq)
      rw [getMember, getMember, if_neg hne, if_neg hne]
    · rw [getMember, getMember, ih]

/-- Writing what is there changes nothing. -/
theorem setMember_getMember {name : JsString} {v : Value} {ms : List (JsString × Value)}
    (h : getMember name ms = some v) : setMember name v ms = ms := by
  induction ms with
  | nil => cases h
  | cons m ms ih =>
    rw [getMember] at h
    rw [setMember]
    split at h
    · rename_i heq
      cases h
      exact if_pos heq
    · rename_i hne
      rw [if_neg hne, ih h]

theorem setMember_setMember (name : JsString) (v w : Value) (ms : List (JsString × Value)) :
    setMember name w (setMember name v ms) = setMember name w ms := by
  induction ms with
  | nil => exact if_pos rfl
  | cons m ms ih =>
    rw [setMember]
    split
    · rename_i heq
      rw [setMember, setMember, if_pos heq, if_pos heq]
    · rename_i hne
      rw [setMember, setMember, if_neg hne, if_neg hne, ih]

/-- Writes to two members that are there commute. -/
theorem setMember_comm {name other : JsString} (h : other ≠ name) {ms : List (JsString × Value)}
    (hname : getMember name ms ≠ none) (hother : getMember other ms ≠ none) (v w : Value) :
    setMember other w (setMember name v ms) = setMember name v (setMember other w ms) := by
  induction ms with
  | nil => exact absurd rfl hname
  | cons m ms ih =>
    rw [getMember] at hname hother
    rw [setMember, setMember]
    by_cases hm : m.1 = name
    · have hne : ¬ m.1 = other := fun ho => h (ho.symm.trans hm)
      rw [if_pos hm, if_neg hne, setMember, setMember, if_neg hne, if_pos hm]
    · rw [if_neg hm] at hname ⊢
      by_cases ho : m.1 = other
      · rw [if_pos ho, setMember, setMember, if_pos ho, if_neg hm]
      · rw [if_neg ho] at hother ⊢
        rw [setMember, setMember, if_neg ho, if_neg hm, ih hname hother]

/-! ## The run over the members -/

/-- The field a member name is bound to: its name, and its schema. -/
def resolve (unicode : Unicode) (fields : List (JsString × Schema)) (key : JsString) :
    Option (JsString × Schema) :=
  (lookupName unicode fields key).bind fun name => (getMember name fields).map (name, ·)

theorem getMember_of_resolve {unicode : Unicode} {fields : List (JsString × Schema)}
    {key name : JsString} {field : Schema} (h : resolve unicode fields key = some (name, field)) :
    getMember name fields = some field := by
  obtain ⟨n, -, hmap⟩ := Option.bind_eq_some_iff.mp h
  obtain ⟨f, hget, heq⟩ := Option.map_eq_some_iff.mp hmap
  cases heq
  exact hget

section
variable {unicode : Unicode} {doubles : Doubles} {fields : List (JsString × Schema)}

theorem bindMembers_unknown {key : JsString} (h : resolve unicode fields key = none)
    (node : JsonNode) (ms : List (JsString × JsonNode)) (into : List (JsString × Value)) :
    bindMembers unicode doubles ((key, node) :: ms) fields into =
      bindMembers unicode doubles ms fields into := by
  rw [bindMembers]
  unfold resolve at h
  rw [h]

theorem bindMembers_known {key name : JsString} {field : Schema}
    (h : resolve unicode fields key = some (name, field)) (node : JsonNode)
    (ms : List (JsString × JsonNode)) (into : List (JsString × Value)) :
    bindMembers unicode doubles ((key, node) :: ms) fields into =
      bind unicode doubles node field (getMember name into) >>= fun v =>
        bindMembers unicode doubles ms fields (setMember name v into) := by
  rw [bindMembers]
  unfold resolve at h
  rw [h]

theorem bindMembers_append (as bs : List (JsString × JsonNode)) (into : List (JsString × Value)) :
    bindMembers unicode doubles (as ++ bs) fields into =
      bindMembers unicode doubles as fields into >>= bindMembers unicode doubles bs fields := by
  induction as generalizing into with
  | nil => rfl
  | cons m as ih =>
    obtain ⟨key, node⟩ := m
    rw [List.cons_append]
    cases h : resolve unicode fields key with
    | none => rw [bindMembers_unknown h, bindMembers_unknown h, ih]
    | some f =>
      obtain ⟨name, field⟩ := f
      rw [bindMembers_known h, bindMembers_known h]
      cases AgentService.bind unicode doubles node field (getMember name into) with
      | error e => rfl
      | ok v => exact ih (setMember name v into)

theorem bindItems_append (as bs : List JsonNode) (of : Schema) (before : List Value) :
    bindItems unicode doubles (as ++ bs) of before =
      bindItems unicode doubles as of before >>= fun vs =>
        (bindItems unicode doubles bs of (before.drop as.length)).map (vs ++ ·) := by
  induction as generalizing before with
  | nil =>
    rw [List.nil_append, bindItems, ok_bind, List.length_nil, List.drop_zero]
    cases bindItems unicode doubles bs of before <;> rfl
  | cons item as ih =>
    rw [List.cons_append, bindItems, bindItems]
    cases AgentService.bind unicode doubles item of before.head? with
    | error e => rfl
    | ok v =>
      rw [ok_bind, ok_bind, ih, List.length_cons, ← List.drop_tail]
      cases bindItems unicode doubles as of before.tail with
      | error e => rfl
      | ok vs =>
        rw [ok_bind, ok_bind]
        cases bindItems unicode doubles bs of (before.tail.drop as.length) <;> rfl

end

/-! ## Runs that come to the same -/

theorem wellFormedMembers_append {as bs : List (JsString × JsonNode)} :
    IsWellFormedMembers (as ++ bs) ↔ IsWellFormedMembers as ∧ IsWellFormedMembers bs := by
  induction as with
  | nil => exact ⟨fun h => ⟨trivial, h⟩, And.right⟩
  | cons m as ih =>
    rw [List.cons_append, IsWellFormedMembers, IsWellFormedMembers, ih, and_assoc]

theorem wellFormedItems_append {as bs : List JsonNode} :
    IsWellFormedItems (as ++ bs) ↔ IsWellFormedItems as ∧ IsWellFormedItems bs := by
  induction as with
  | nil => exact ⟨fun h => ⟨trivial, h⟩, And.right⟩
  | cons v as ih =>
    rw [List.cons_append, IsWellFormedItems, IsWellFormedItems, ih, and_assoc]

section
variable (unicode : Unicode) (doubles : Doubles) {ε : Type} (forget : DecodeError → ε)

/-- Two member lists come to the same members, or to errors that are the same after `forget`. -/
def SameMembers (fields : List (JsString × Schema)) (ms ms' : List (JsString × JsonNode)) : Prop :=
  ∀ into, FitsFields fields into →
    (bindMembers unicode doubles ms fields into).mapError forget =
      (bindMembers unicode doubles ms' fields into).mapError forget

def SameNode (schema : Schema) (node node' : JsonNode) : Prop :=
  ∀ existing, (∀ e ∈ existing, Fits schema e) →
    (bind unicode doubles node schema existing).mapError forget =
      (bind unicode doubles node' schema existing).mapError forget

variable {unicode doubles forget} {fields : List (JsString × Schema)}

namespace SameMembers

variable {ms ms' ms'' : List (JsString × JsonNode)}

theorem symm (h : SameMembers unicode doubles forget fields ms ms') :
    SameMembers unicode doubles forget fields ms' ms :=
  fun into hinto => (h into hinto).symm

theorem trans (h : SameMembers unicode doubles forget fields ms ms')
    (h' : SameMembers unicode doubles forget fields ms' ms'') :
    SameMembers unicode doubles forget fields ms ms'' :=
  fun into hinto => (h into hinto).trans (h' into hinto)

/-- Whatever stands before and behind. -/
theorem between (h : SameMembers unicode doubles forget fields ms ms')
    (pre post : List (JsString × JsonNode)) (hpre : IsWellFormedMembers pre) :
    SameMembers unicode doubles forget fields (pre ++ (ms ++ post)) (pre ++ (ms' ++ post)) := by
  intro into hinto
  rw [bindMembers_append pre, bindMembers_append pre]
  cases hrun : bindMembers unicode doubles pre fields into with
  | error e => rfl
  | ok into' =>
    have hinto' := fits_bindMembers pre hpre hinto hrun
    rw [ok_bind, ok_bind, bindMembers_append ms, bindMembers_append ms', mapError_bind,
      mapError_bind, h into' hinto']

end SameMembers

/-! ## Members that do not meet -/

/-- The members are of different fields, or one of them is of none. -/
def Apart (unicode : Unicode) (fields : List (JsString × Schema)) (m m' : JsString × JsonNode) :
    Prop :=
  ∀ f ∈ resolve unicode fields m.1, ∀ f' ∈ resolve unicode fields m'.1, f.1 ≠ f'.1

theorem same_swap {m m' : JsString × JsonNode} (h : Apart unicode fields m m') :
    SameMembers unicode doubles (fun _ => ()) fields [m, m'] [m', m] := by
  obtain ⟨key, node⟩ := m
  obtain ⟨key', node'⟩ := m'
  intro into hinto
  cases hr : resolve unicode fields key with
  | none =>
    cases hr' : resolve unicode fields key' with
    | none => rw [bindMembers_unknown hr, bindMembers_unknown hr', bindMembers_unknown hr',
      bindMembers_unknown hr]
    | some f' =>
      obtain ⟨name', field'⟩ := f'
      rw [bindMembers_unknown hr, bindMembers_known hr', bindMembers_known hr']
      simp only [bindMembers_unknown hr]
  | some f =>
    obtain ⟨name, field⟩ := f
    cases hr' : resolve unicode fields key' with
    | none =>
      rw [bindMembers_known hr, bindMembers_unknown hr', bindMembers_known hr]
      simp only [bindMembers_unknown hr']
    | some f' =>
      obtain ⟨name', field'⟩ := f'
      have hne : name ≠ name' := h _ hr _ hr'
      obtain ⟨e, he, -⟩ := hinto.get (getMember_of_resolve hr)
      obtain ⟨e', he', -⟩ := hinto.get (getMember_of_resolve hr')
      simp only [bindMembers_known hr, bindMembers_known hr']
      cases hv : AgentService.bind unicode doubles node field (getMember name into) with
      | error d =>
        -- the first one fails: so does the run that meets it second
        cases AgentService.bind unicode doubles node' field' (getMember name' into) with
        | error d' => rfl
        | ok v' =>
          rw [error_bind, ok_bind, getMember_setMember_ne hne, hv]
          rfl
      | ok v =>
        rw [ok_bind, getMember_setMember_ne hne.symm]
        cases AgentService.bind unicode doubles node' field' (getMember name' into) with
        | error d' => rfl
        | ok v' =>
          have hthere : getMember name into ≠ none := by
            rw [he]
            exact Option.some_ne_none e
          have hthere' : getMember name' into ≠ none := by
            rw [he']
            exact Option.some_ne_none e'
          rw [ok_bind, ok_bind, getMember_setMember_ne hne, hv, ok_bind,
            setMember_comm hne.symm hthere hthere']

/-- A member that changes nothing: of no field, or `null` for a field that is not a list. -/
def Noise (unicode : Unicode) (fields : List (JsString × Schema)) (m : JsString × JsonNode) :
    Prop :=
  resolve unicode fields m.1 = none ∨
    ∃ name field, resolve unicode fields m.1 = some (name, field) ∧ m.2 = .null ∧ ∀ of,
      field ≠ .list of

/-- Outside of lists, `null` keeps what is there. -/
theorem bind_null {schema : Schema} (h : ∀ of, schema ≠ .list of) {e : Value} (he : Fits schema e) :
    bind unicode doubles .null schema (some e) = .ok e := by
  have hkeep : bind unicode doubles .null schema (some e) = .ok (orZero (some e) schema) := by
    cases schema with
    | list of => exact absurd rfl (h of)
    | _ => rfl
  have hnull : e ≠ .null := by
    rintro rfl
    cases he with
    | time hs =>
      rcases normaliseTime_ok hs with ⟨t, ht⟩ | ht
      · cases ht
      · cases ht
    | null of => exact h of rfl
  rw [hkeep]
  cases e with
  | null => exact absurd rfl hnull
  | _ => rfl

theorem same_noise {m : JsString × JsonNode} (h : Noise unicode fields m) :
    SameMembers unicode doubles forget fields [m] [] := by
  obtain ⟨key, node⟩ := m
  intro into hinto
  rcases h with hr | ⟨name, field, hr, hnull, hlist⟩
  · rw [bindMembers_unknown hr]
  · obtain ⟨e, he, hfits⟩ := hinto.get (getMember_of_resolve hr)
    have hnode : node = .null := hnull
    rw [bindMembers_known hr, hnode, he, bind_null hlist hfits, ok_bind, setMember_getMember he]

/-- The objects of a repeated field run one after the other. -/
theorem same_merge {key key₁ key₂ name : JsString} {inner : List (JsString × Schema)}
    (h : resolve unicode fields key = some (name, .struct inner))
    (h₁ : resolve unicode fields key₁ = some (name, .struct inner))
    (h₂ : resolve unicode fields key₂ = some (name, .struct inner))
    (as bs : List (JsString × JsonNode)) :
    SameMembers unicode doubles forget fields [(key₁, .obj as),
      (key₂, .obj bs)] [(key, .obj (as ++ bs))] := by
  intro into hinto
  obtain ⟨e, he, hfits⟩ := hinto.get (getMember_of_resolve h)
  simp only [bindMembers_known h, bindMembers_known h₁, bindMembers_known h₂,
    getMember_setMember_self, setMember_setMember, he]
  have hobj (ms : List (JsString × JsonNode)) (members : List (JsString × Value)) :
      bind unicode doubles (.obj ms) (.struct inner) (some (.struct members)) =
        (bindMembers unicode doubles ms inner members).map .struct := rfl
  cases hfits with
  | @struct _ members _ =>
    rw [hobj, hobj, bindMembers_append]
    cases bindMembers unicode doubles as inner members with
    | error d => rfl
    | ok members' =>
      rw [ok_bind]
      change (bind unicode doubles (.obj bs) (.struct inner) (some (.struct members')) >>=
        _).mapError forget = _
      rw [hobj]

/-- A member moves past members of other fields. -/
theorem same_move {m : JsString × JsonNode} {mid : List (JsString × JsonNode)}
    (h : ∀ m' ∈ mid, Apart unicode fields m m') (hmid : IsWellFormedMembers mid) :
    SameMembers unicode doubles (fun _ => ()) fields (m :: mid) (mid ++ [m]) := by
  induction mid with
  | nil => exact fun _ _ => rfl
  | cons m' mid ih =>
    obtain ⟨key, node⟩ := m'
    have hrest := ih (fun d hd => h d (List.mem_cons_of_mem _ hd)) hmid.2
    have hswap :=
      (@same_swap unicode doubles fields _ _ (h _ List.mem_cons_self)).between [] mid trivial
    have hkeep := hrest.between [(key, node)] [] ⟨hmid.1, trivial⟩
    simp only [List.append_nil] at hkeep
    exact hswap.trans hkeep

end

end AgentService
