import AgentService.Gateway.MemberOrder

/-!
# Documents that decode alike

The place of an object in a document is a context that the schema binds down to a struct. Two lists
of members that come to the same in one object come to the same in the whole document, since what a
place is bound over always fits its schema.
-/

namespace AgentService
open Lib

/-- A place that a document of the second schema binds to the first one. -/
inductive Place (unicode : Unicode) (target : Schema) : Schema → (JsonNode → JsonNode) → Prop
  | here : Place unicode target target id
  | item {of : Schema} {C : JsonNode → JsonNode} (pre post : List JsonNode)
      (h : Place unicode target of C) :
      Place unicode target (.list of) fun node => .arr (pre ++ C node :: post)
  | member {fields : List (JsString × Schema)} {key name : JsString} {field : Schema}
      {C : JsonNode → JsonNode} (pre post : List (JsString × JsonNode))
      (hkey : resolve unicode fields key = some (name, field))
      (h : Place unicode target field C) :
      Place unicode target (.struct fields) fun node => .obj (pre ++ (key, C node) :: post)

theorem Place.wellFormed {unicode : Unicode} {target schema : Schema} {C : JsonNode → JsonNode}
    (hC : Place unicode target schema C) {node : JsonNode} (h : (C node).IsWellFormed) :
    node.IsWellFormed := by
  induction hC with
  | here => exact h
  | item pre post _ ih => exact ih (wellFormedItems_append.mp h).2.1
  | member pre post _ _ ih => exact ih (wellFormedMembers_append.mp h).2.1

section
variable {unicode : Unicode} {doubles : Doubles} {ε : Type} {forget : DecodeError → ε}

/-- What an object comes to is what its members come to. -/
theorem SameMembers.obj {fields : List (JsString × Schema)} {ms ms' : List (JsString × JsonNode)}
    (h : SameMembers unicode doubles forget fields ms ms') :
    SameNode unicode doubles forget (.struct fields) (.obj ms) (.obj ms') := by
  intro existing hexisting
  have hobj (ms : List (JsString × JsonNode)) :
      bind unicode doubles (.obj ms) (.struct fields) existing =
        (bindMembers unicode doubles ms fields (orZero existing (.struct fields)).members).map
        .struct := rfl
  have hfits : FitsFields fields (orZero existing (.struct fields)).members := by
    have hzero := fits_orZero hexisting
    cases hcase : orZero existing (.struct fields) with
    | struct into =>
      rw [hcase] at hzero
      cases hzero with
      | struct hs => exact hs
    | _ =>
      rw [hcase] at hzero
      cases hzero
  rw [hobj, hobj, mapError_map, mapError_map, h _ hfits]

theorem Place.same {target schema : Schema} {C : JsonNode → JsonNode}
    (hC : Place unicode target schema C) {node node' : JsonNode}
    (h : SameNode unicode doubles forget target node node') (hwell : (C node).IsWellFormed) :
    SameNode unicode doubles forget schema (C node) (C node') := by
  induction hC with
  | here => exact h
  | @item of C pre post _ ih =>
    have hnode := (wellFormedItems_append.mp hwell).2.1
    intro existing hexisting
    have harr (items : List JsonNode) : bind unicode doubles (.arr items) (.list of) existing =
        (bindItems unicode doubles items of (itemsOf existing)).map .list := rfl
    rw [harr, harr, bindItems_append, bindItems_append, mapError_map, mapError_map, mapError_bind,
      mapError_bind]
    congr 2
    funext vs
    have hbefore : ∀ e ∈ ((itemsOf existing).drop pre.length).head?, Fits of e := by
      intro e he
      exact fits_itemsOf hexisting e (List.mem_of_mem_drop (List.mem_of_head? he))
    rw [mapError_map, mapError_map, bindItems, bindItems, mapError_bind, mapError_bind,
      ih hnode _ hbefore]
  | @member fields key name field C pre post hkey _ ih =>
    obtain ⟨hpre, hnode, -⟩ := wellFormedMembers_append.mp hwell
    apply SameMembers.obj
    have hone : SameMembers unicode doubles forget fields [(key, C node)] [(key, C node')] := by
      intro into hinto
      obtain ⟨e, he, hfits⟩ := hinto.get (getMember_of_resolve hkey)
      rw [bindMembers_known hkey, bindMembers_known hkey, mapError_bind, mapError_bind, ih hnode]
      rw [he]
      rintro v ⟨⟩
      exact hfits
    exact hone.between pre post hpre

end

/-! ## The members of one object -/

section
variable {unicode : Unicode} {doubles : Doubles} {fields : List (JsString × Schema)}

/-- The objects of a repeated field, with members of other fields between them. -/
theorem same_repeat {key key₁ key₂ name : JsString} {inner : List (JsString × Schema)}
    {as bs mid₁ mid₂ : List (JsString × JsonNode)}
    (h : resolve unicode fields key = some (name, .struct inner))
    (h₁ : resolve unicode fields key₁ = some (name, .struct inner))
    (h₂ : resolve unicode fields key₂ = some (name, .struct inner))
    (hmid : ∀ m ∈ mid₁ ++ mid₂, ∀ f ∈ resolve unicode fields m.1, f.1 ≠ name)
    (hwell : IsWellFormedMembers ((key₁, .obj as) :: (mid₁ ++ (mid₂ ++ [(key₂, .obj bs)])))) :
    SameMembers unicode doubles (fun _ =>
      ()) fields ((key₁, .obj as) :: (mid₁ ++ (mid₂ ++ [(key₂, .obj bs)])))
      (mid₁ ++ ((key, .obj (as ++ bs)) :: mid₂)) := by
  obtain ⟨hwell₁, hrest⟩ := hwell
  obtain ⟨hmid₁, hrest⟩ := wellFormedMembers_append.mp hrest
  obtain ⟨hmid₂, hwell₂⟩ := wellFormedMembers_append.mp hrest
  have hapart (k : JsString) (node : JsonNode)
      (hk : resolve unicode fields k = some (name, .struct inner)) :
      ∀ m ∈ mid₁ ++ mid₂, Apart unicode fields (k, node) m := by
    intro m hm f hf f' hf'
    have hf : f = (name, .struct inner) := Option.some.inj (hf.symm.trans hk)
    rw [hf]
    exact (hmid m hm f' hf').symm
  -- the first object moves behind `mid₁`, the second one in front of `mid₂`
  have hfirst := (@same_move unicode doubles fields (key₁, .obj as) mid₁
    (fun m hm => hapart _ _ h₁ m (List.mem_append_left _ hm)) hmid₁).between []
    (mid₂ ++ [(key₂, .obj bs)]) trivial
  have hsecond := (@same_move unicode doubles fields (key₂, .obj bs) mid₂
    (fun m hm => hapart _ _ h₂ m (List.mem_append_right _ hm)) hmid₂).symm.between
    (mid₁ ++ [(key₁, .obj as)]) []
    (wellFormedMembers_append.mpr ⟨hmid₁, hwell₁, trivial⟩)
  have hmerge := (@same_merge unicode doubles _ (fun _ => ()) fields _ _ _ _ _ h h₁ h₂ as
    bs).between mid₁ mid₂ hmid₁
  simp only [List.nil_append, List.append_nil, List.append_assoc,
    List.cons_append] at hfirst hsecond hmerge
  exact (hfirst.trans hsecond).trans hmerge

end

/-! ## Failing -/

section
variable {unicode : Unicode} {doubles : Doubles}

theorem isOk_map {α β : Type} (r : Except DecodeError α) (f : α → β) : (r.map f).isOk = r.isOk := by
  cases r with
  | error e => rfl
  | ok a => rfl

theorem isOk_bind_congr {α β : Type} {r r' : Except DecodeError α} {f f' : α → Except DecodeError β}
    (h : r.isOk = r'.isOk) (hf : ∀ a a', (f a).isOk = (f' a').isOk) :
    (r >>= f).isOk = (r' >>= f').isOk := by
  cases r with
  | error e =>
    cases r' with
    | error e' => rfl
    | ok a' => cases h
  | ok a =>
    cases r' with
    | error e' => cases h
    | ok a' => exact hf a a'

mutual

/-- Whether binding fails does not depend on what an earlier repeat has bound. -/
theorem isOk_bind (node : JsonNode) : ∀ (schema : Schema) (existing existing' : Option Value),
    (bind unicode doubles node schema existing).isOk =
      (bind unicode doubles node schema existing').isOk := by
  intro schema existing existing'
  match node with
  | .null => cases schema <;> rfl
  | .bool _ => cases schema <;> rfl
  | .num _ => cases schema <;> rfl
  | .str _ _ => cases schema <;> rfl
  | .arr items =>
    cases schema with
    | list of =>
      change ((bindItems unicode doubles items of (itemsOf existing)).map _).isOk =
        ((bindItems unicode doubles items of (itemsOf existing')).map _).isOk
      rw [isOk_map, isOk_map]
      exact isOk_bindItems items of _ _
    | _ => rfl
  | .obj members =>
    cases schema with
    | struct fields =>
      change ((bindMembers unicode doubles members fields
        (orZero existing (.struct fields)).members).map _).isOk =
          ((bindMembers unicode doubles members fields
            (orZero existing' (.struct fields)).members).map _).isOk
      rw [isOk_map, isOk_map]
      exact isOk_bindMembers members fields _ _
    | _ => rfl

theorem isOk_bindItems (items : List JsonNode) : ∀ (of : Schema) (before before' : List Value),
    (bindItems unicode doubles items of before).isOk =
      (bindItems unicode doubles items of before').isOk := by
  intro of before before'
  match items with
  | [] => rfl
  | item :: items =>
    rw [bindItems, bindItems]
    apply isOk_bind_congr (isOk_bind item of _ _)
    intro v v'
    exact isOk_bind_congr (isOk_bindItems items of _ _) fun _ _ => rfl

theorem isOk_bindMembers (members : List (JsString × JsonNode)) :
    ∀ (fields : List (JsString × Schema)) (into into' : List (JsString × Value)),
      (bindMembers unicode doubles members fields into).isOk =
        (bindMembers unicode doubles members fields into').isOk := by
  intro fields into into'
  match members with
  | [] => rfl
  | (key, node) :: rest =>
    cases h : resolve unicode fields key with
    | none =>
      rw [bindMembers_unknown h, bindMembers_unknown h]
      exact isOk_bindMembers rest fields _ _
    | some f =>
      obtain ⟨name, field⟩ := f
      rw [bindMembers_known h, bindMembers_known h]
      exact isOk_bind_congr (isOk_bind node field _ _) fun v v' => isOk_bindMembers rest fields _ _

end

end

/-! ## Decoding -/

section
variable {unicode : Unicode} {doubles : Doubles}

theorem decode_of_parse {schema : Schema} {body : Bytes} {node : JsonNode}
    (h : parseJson body = .ok node) :
    decode unicode doubles schema body = (bind unicode doubles node schema none).mapError
      .decodeError := by
  have hne : body ≠ [] := by
    rintro rfl
    cases h
  rw [decode, if_neg hne, h]
  rfl

variable (unicode doubles) in
/-- Documents that hold the one list of members in a place, or the other, decode as `R` says. -/
def DecodeAlike (R : Except DecodeThrown Value → Except DecodeThrown Value → Prop) (schema : Schema)
    (C : JsonNode → JsonNode) (ms ms' : List (JsString × JsonNode)) : Prop :=
  ∀ body body', parseJson body = .ok (C (.obj ms)) → parseJson body' = .ok (C (.obj ms')) →
    R (decode unicode doubles schema body) (decode unicode doubles schema body')

/-- Both fail, or both return the same value. -/
def SameOutcome (r r' : Except DecodeThrown Value) : Prop := r.toOption = r'.toOption

variable {schema : Schema} {fields : List (JsString × Schema)} {C : JsonNode → JsonNode}

theorem SameMembers.decode_eq (hC : Place unicode (.struct fields) schema C)
    {ms ms' : List (JsString × JsonNode)}
    (h : IsWellFormedMembers ms → SameMembers unicode doubles id fields ms ms') :
    DecodeAlike unicode doubles Eq schema C ms ms' := by
  intro body body' hbody hbody'
  have hwell := wellFormed_of_parse hbody
  have hsame := hC.same (h (hC.wellFormed hwell)).obj hwell none nofun
  rw [mapError_id, mapError_id] at hsame
  rw [decode_of_parse hbody, decode_of_parse hbody', hsame]

theorem toOption_of_forget {α : Type} {r r' : Except DecodeError α}
    (h : r.mapError (fun _ => ()) = r'.mapError fun _ => ()) :
    (r.mapError DecodeThrown.decodeError).toOption =
      (r'.mapError DecodeThrown.decodeError).toOption := by
  have hforget (r : Except DecodeError α) :
      (r.mapError DecodeThrown.decodeError).toOption = (r.mapError fun _ => ()).toOption := by
    cases r with
    | error e => rfl
    | ok a => rfl
  rw [hforget, hforget, h]

theorem SameMembers.sameOutcome (hC : Place unicode (.struct fields) schema C)
    {ms ms' : List (JsString × JsonNode)}
    (h : IsWellFormedMembers ms → SameMembers unicode doubles (fun _ => ()) fields ms ms') :
    DecodeAlike unicode doubles SameOutcome schema C ms ms' := by
  intro body body' hbody hbody'
  have hwell := wellFormed_of_parse hbody
  have hsame := hC.same (h (hC.wellFormed hwell)).obj hwell none nofun
  rw [SameOutcome, decode_of_parse hbody, decode_of_parse hbody']
  exact toOption_of_forget hsame

/-- Member order and noise do not matter, repeated objects are read one after the other, and whether
decoding fails does not depend on what a repeat finds. -/
theorem decode_members (hC : Place unicode (.struct fields) schema C) :
    (∀ pre m m' post, Apart unicode fields m m' →
      DecodeAlike unicode doubles SameOutcome schema C (pre ++ m :: m' :: post)
      (pre ++ m' :: m :: post)) ∧
    (∀ pre m post, Noise unicode fields m →
      DecodeAlike unicode doubles Eq schema C (pre ++ m :: post) (pre ++ post)) ∧
    (∀ pre mid₁ mid₂ post key key₁ key₂ name inner as bs,
      (∀ k ∈ [key, key₁, key₂], resolve unicode fields k = some (name, .struct inner)) →
      (∀ m ∈ mid₁ ++ mid₂, ∀ f ∈ resolve unicode fields m.1, f.1 ≠ name) →
      DecodeAlike unicode doubles SameOutcome schema C
        (pre ++ ((key₁, .obj as) :: (mid₁ ++ (mid₂ ++ [(key₂, .obj bs)]))) ++ post)
        (pre ++ (mid₁ ++ (key, .obj (as ++ bs)) :: mid₂) ++ post)) ∧
    ∀ (node : JsonNode) (field : Schema) (existing existing' : Option Value),
      (bind unicode doubles node field existing).isOk =
        (bind unicode doubles node field existing').isOk := by
  refine ⟨?_, ?_, ?_, isOk_bind⟩
  · intro pre m m' post hapart
    apply SameMembers.sameOutcome hC
    intro hwell
    exact (same_swap hapart).between pre post (wellFormedMembers_append.mp hwell).1
  · intro pre m post hnoise
    apply SameMembers.decode_eq hC
    intro hwell
    exact (same_noise hnoise).between pre post (wellFormedMembers_append.mp hwell).1
  · intro pre mid₁ mid₂ post key key₁ key₂ name inner as bs hkeys hmid
    apply SameMembers.sameOutcome hC
    intro hwell
    rw [List.append_assoc] at hwell ⊢
    rw [List.append_assoc]
    obtain ⟨hpre, hrest⟩ := wellFormedMembers_append.mp hwell
    have hrepeat := @same_repeat unicode doubles fields _ _ _ _ _ _ _ _ _ (hkeys key (by simp))
      (hkeys key₁ (by simp)) (hkeys key₂ (by simp)) hmid (wellFormedMembers_append.mp hrest).1
    exact hrepeat.between pre post hpre

end

/-! ## One item of a list -/

def itemFields : List (JsString × Schema) := [(js "symbol", .text), (js "units", .int64)]

def holdSchema : Schema := .struct [(js "cargo", .list (.struct itemFields))]

/-- The one item of `cargo`. -/
def holdPlace (node : JsonNode) : JsonNode :=
  .obj ([] ++ (js "cargo", .arr ([] ++ node :: [])) :: [])

theorem holdPlace_place : Place plainUnicode (.struct itemFields) holdSchema holdPlace := by
  apply Place.member [] []
  · rfl
  · exact .item [] [] .here

def holdBody (members : String) : Bytes :=
  latin1Encode (js "\x7b\"cargo\":[\x7b" ++ js members ++ js "\x7d]\x7d")

theorem decode_members_hold :
    SameOutcome (decode plainUnicode plainDoubles holdSchema
      (holdBody "\"symbol\":\"A\",\"UNITS\":1"))
        (decode plainUnicode plainDoubles holdSchema (holdBody "\"UNITS\":1,\"symbol\":\"A\"")) ∧
      decode plainUnicode plainDoubles holdSchema (holdBody "\"symbol\":null,\"units\":1") =
        decode plainUnicode plainDoubles holdSchema (holdBody "\"units\":1") := by
  obtain ⟨hswap, hnoise, -⟩ :=
    @decode_members plainUnicode plainDoubles holdSchema itemFields holdPlace holdPlace_place
  constructor
  · apply hswap [] (js "symbol", .str (js "A") true) (js "UNITS", .num (js "1")) []
    · rintro f ⟨⟩ f' ⟨⟩
      decide
    · decide +kernel
    · decide +kernel
  · apply hnoise [] (js "symbol", .null) [(js "units", .num (js "1"))]
    · exact .inr ⟨js "symbol", .text, rfl, rfl, nofun⟩
    · decide +kernel
    · decide +kernel

end AgentService
