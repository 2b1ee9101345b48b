import AgentService.Db.Migrate

/-!
# The migration converges

What any statement of a run can do to the catalogue is `Follows`, and where a run comes to its end
each loop has left behind what it is there for, which nothing after it takes away. So it does not
matter where the runs before broke off.
-/

namespace AgentService
open Lib

/-! ## What a run can do to the catalogue -/

def IsWidened (table column : JsString) : Prop :=
  ∃ c ∈ WIDENED_COLUMNS, js c.table = table ∧ js c.column = column

def IsIndexed (table name : JsString) : Prop :=
  ∃ ix ∈ INDEXES, js ix.table = table ∧ js ix.name = name

/-- A table as it was, but for a money column that has been widened and an index that
has been added. -/
structure Table.Kept (table : JsString) (t t' : Table) : Prop where
  columns : ∀ column, t'.columns column = t.columns column ∨
    (IsWidened table column ∧ (t.columns column).isSome ∧ t'.columns column = some BIGINT)
  indexes : ∀ name, t'.indexes name = t.indexes name ∨
    (IsIndexed table name ∧ t.indexes name = none ∧ (t'.indexes name).isSome)

theorem Table.Kept.refl (table : JsString) (t : Table) : t.Kept table t :=
  ⟨fun _ => .inl rfl, fun _ => .inl rfl⟩

/-- What is kept twice is kept. -/
theorem Table.Kept.trans {table : JsString} {t t' t'' : Table} (h : t.Kept table t')
    (h' : t'.Kept table t'') : t.Kept table t'' := by
  constructor
  · intro column
    rcases h'.columns column with heq | ⟨hwidened, hsome, heq⟩
    · rw [heq]
      exact h.columns column
    · rcases h.columns column with hfirst | ⟨-, hfirst, -⟩
      · rw [hfirst] at hsome
        exact .inr ⟨hwidened, hsome, heq⟩
      · exact .inr ⟨hwidened, hfirst, heq⟩
  · intro name
    rcases h'.indexes name with heq | ⟨hindexed, hnone, hsome⟩
    · rw [heq]
      exact h.indexes name
    · rcases h.indexes name with hfirst | ⟨-, -, hfirst⟩
      · rw [hfirst] at hnone
        exact .inr ⟨hindexed, hnone, hsome⟩
      · rw [hnone] at hfirst
        cases hfirst

namespace Catalogue

/-- The tables of the schema that are there have its columns, of whatever types. -/
def Startable (c : Catalogue) : Prop :=
  ∀ spec ∈ TABLES, ∀ t, c spec.name = some t → ∀ column ∈ spec.columns.map (·.1),
    (t.columns column).isSome

/-- No table is lost, and none but the schema's is new. -/
structure Follows (c c' : Catalogue) : Prop where
  kept : ∀ table t, c table = some t → ∃ t', c' table = some t' ∧ t.Kept table t'
  absent : ∀ table, c table = none → (∀ spec ∈ TABLES, spec.name ≠ table) → c' table = none

theorem Follows.refl (c : Catalogue) : c.Follows c :=
  ⟨fun table t h => ⟨t, h, .refl table t⟩, fun _ h _ => h⟩

/-- A catalogue follows what the one before it follows. -/
theorem Follows.trans {c c' c'' : Catalogue} (h : c.Follows c') (h' : c'.Follows c'') :
    c.Follows c'' := by
  constructor
  · intro table t ht
    obtain ⟨t', ht', hkept⟩ := h.kept table t ht
    obtain ⟨t'', ht'', hkept'⟩ := h'.kept table t' ht'
    exact ⟨t'', ht'', hkept.trans hkept'⟩
  · intro table ht hother
    exact h'.absent table (h.absent table ht hother) hother

/-- What a run keeps: its catalogue stays startable, and follows the one before. -/
def Moved (c c' : Catalogue) : Prop := c.Startable → c'.Startable ∧ c.Follows c'

theorem Moved.refl (c : Catalogue) : c.Moved c := fun h => ⟨h, .refl c⟩

/-- Steps of a migration make up a migration's way. -/
theorem Moved.trans {c c' c'' : Catalogue} (h : c.Moved c') (h' : c'.Moved c'') : c.Moved c'' := by
  intro hstart
  obtain ⟨hstart', hfollows⟩ := h hstart
  obtain ⟨hstart'', hfollows'⟩ := h' hstart'
  exact ⟨hstart'', hfollows.trans hfollows'⟩

/-- A table replaced by one it is kept in. -/
theorem moved_update {c : Catalogue} {table : JsString} {t t' : Table} (ht : c table = some t)
    (hkept : t.Kept table t') : c.Moved (Function.update c table (some t')) := by
  intro hstart
  constructor
  · intro spec hspec u hu column hcolumn
    by_cases hname : spec.name = table
    · rw [hname, Function.update_self] at hu
      cases hu
      have hsome := hstart spec hspec t (hname ▸ ht) column hcolumn
      rcases hkept.columns column with heq | ⟨-, -, heq⟩
      · rwa [heq]
      · rw [heq]
        rfl
    · rw [Function.update_of_ne hname] at hu
      exact hstart spec hspec u hu column hcolumn
  · constructor
    · intro other u hu
      by_cases hname : other = table
      · rw [hname, ht] at hu
        cases hu
        exact ⟨t', by rw [hname, Function.update_self], hname ▸ hkept⟩
      · exact ⟨u, by rw [Function.update_of_ne hname, hu], .refl other u⟩
    · intro other hnone _
      have hname : other ≠ table := by
        rintro rfl
        rw [ht] at hnone
        cases hnone
      rw [Function.update_of_ne hname, hnone]

end Catalogue

/-- The tables of the schema have different names. -/
theorem tables_unique : ∀ s ∈ TABLES, ∀ t ∈ TABLES, s.name = t.name → s.columns = t.columns := by
  decide +kernel

/-- A CREATE TABLE moves the catalogue towards its table. -/
theorem moved_create {spec : TableSpec} (hspec : spec ∈ TABLES) {c c' : Catalogue}
    (h : spec.create.apply c = some c') : c.Moved c' ∧ (c' spec.name).isSome := by
  unfold TableSpec.create Ddl.apply at h
  dsimp only at h
  cases hc : c spec.name with
  | some t =>
    rw [hc] at h
    cases h
    exact ⟨.refl c, by rw [hc]; rfl⟩
  | none =>
    rw [hc] at h
    cases h
    refine ⟨fun hstart => ⟨?_, ?_, ?_⟩, by rw [Function.update_self]; rfl⟩
    · intro other hother t ht column hcolumn
      by_cases hname : other.name = spec.name
      · rw [hname, Function.update_self] at ht
        cases ht
        show (spec.columns.lookup column).isSome = true
        rw [← tables_unique other hother spec hspec hname]
        obtain ⟨p, hp, rfl⟩ := List.mem_map.mp hcolumn
        exact List.lookup_isSome_iff.mpr ⟨p, hp, beq_self_eq_true _⟩
      · rw [Function.update_of_ne hname] at ht
        exact hstart other hother t ht column hcolumn
    · intro table t ht
      have hname : table ≠ spec.name := by
        rintro rfl
        rw [hc] at ht
        cases ht
      exact ⟨t, by rw [Function.update_of_ne hname, ht], .refl table t⟩
    · intro table hnone hother
      rw [Function.update_of_ne (hother spec hspec).symm, hnone]

/-- An ALTER moves the catalogue towards its column's type. -/
theorem moved_alter {c : WidenedColumn} (hc : c ∈ WIDENED_COLUMNS) {cat cat' : Catalogue}
    (h : (Ddl.modifyColumn (js c.table) (js c.column) BIGINT).apply cat = some cat') :
    cat.Moved cat' ∧ ∃ t, cat' (js c.table) = some t ∧ t.columns (js c.column) = some BIGINT := by
  obtain ⟨t, ht, h⟩ := Option.bind_eq_some_iff.mp h
  split_ifs at h with hcolumn
  cases h
  refine ⟨Catalogue.moved_update ht ⟨fun column => ?_, fun _ => .inl rfl⟩, _,
    Function.update_self .., Function.update_self ..⟩
  by_cases hname : column = js c.column
  · rw [hname]
    exact .inr ⟨⟨c, hc, rfl, rfl⟩, hcolumn, Function.update_self ..⟩
  · exact .inl (Function.update_of_ne hname ..)

/-- A CREATE INDEX moves the catalogue towards its index. -/
theorem moved_index {ix : IndexSpec} (hix : ix ∈ INDEXES) {key : Key} {cat cat' : Catalogue}
    (h : (Ddl.createIndex (js ix.table) (js ix.name) key).apply cat = some cat') :
    cat.Moved cat' ∧ ∃ t, cat' (js ix.table) = some t ∧ (t.indexes (js ix.name)).isSome := by
  obtain ⟨t, ht, h⟩ := Option.bind_eq_some_iff.mp h
  split_ifs at h with hnew
  cases h
  refine ⟨Catalogue.moved_update ht ⟨fun _ => .inl rfl, fun name => ?_⟩, _,
    Function.update_self .., ?_⟩
  · by_cases hname : name = js ix.name
    · rw [hname]
      exact .inr ⟨⟨ix, hix, rfl, rfl⟩, hnew.1, by simp⟩
    · exact .inl (Function.update_of_ne hname ..)
  · simp

/-! ## What each turn of a loop can come to -/

namespace Catalogue
variable (c : Catalogue)

def typeName (table column : JsString) : JsString :=
  (((c table).bind (·.columns column)).map (·.name)).getD []

def HasTable (table : JsString) : Prop := (c table).isSome

def IsBigint (table column : JsString) : Prop :=
  ∃ t, c table = some t ∧ t.columns column = some BIGINT

def HasIndex (table name : JsString) : Prop := ∃ t, c table = some t ∧ (t.indexes name).isSome

end Catalogue

/-- Nothing fails but what MySQL refuses. -/
def Faultless (faults : Faults) : Prop := ∀ n, faults n = none

section
variable (faults : Faults) (s : Session)

theorem not_faultless {faults : Faults} {n : Nat} {message : JsString}
    (h : faults n = some message) : ¬ Faultless faults := by
  intro hnone
  rw [hnone n] at h
  cases h

/-- A statement that changes the catalogue does so, or has failed. -/
theorem execute_ddl {sql : String} {ddl : Ddl} (hddl : readDdl (js sql) = some ddl) : ∃ r c,
    Session.execute faults ⟨sql, []⟩ s = (r, { s.sent ⟨sql, []⟩ with catalogue := c }) ∧
      ((c = s.catalogue ∧ (∃ message, r = .error message) ∧
          (¬ Faultless faults ∨ ddl.apply s.catalogue = none)) ∨
        (ddl.apply s.catalogue = some c ∧ r = .ok [])) := by
  have hrespond : s.catalogue.respond ⟨sql, []⟩ = (ddl.apply s.catalogue).map (([], ·)) := by
    show (readDdl (js sql)).bind _ = _
    rw [hddl]
    show (ddl.apply s.catalogue).bind _ = _
    cases ddl.apply s.catalogue <;> rfl
  unfold Session.execute
  rw [hrespond]
  cases hfault : faults s.statements.length with
  | some message =>
    exact ⟨_, s.catalogue, rfl, .inl ⟨rfl, ⟨message, rfl⟩, .inl (not_faultless hfault)⟩⟩
  | none =>
    cases happly : ddl.apply s.catalogue with
    | none => exact ⟨_, s.catalogue, rfl, .inl ⟨rfl, ⟨_, rfl⟩, .inr rfl⟩⟩
    | some c => exact ⟨_, c, rfl, .inr ⟨rfl, rfl⟩⟩

/-- A lookup leaves the catalogue as it is. -/
theorem execute_lookup {statement : Statement} {rows : List (List SqlValue)}
    (h : s.catalogue.respond statement = some (rows, s.catalogue)) :
    (∃ message, Session.execute faults statement s = (.error message, s.sent statement) ∧
        ¬ Faultless faults) ∨
      Session.execute faults statement s = (.ok rows, s.sent statement) := by
  unfold Session.execute
  rw [h]
  cases hfault : faults s.statements.length with
  | some message => exact .inl ⟨message, rfl, not_faultless hfault⟩
  | none => exact .inr rfl

/-- A lookup of a type fails as it is told to, or reads the catalogue and changes nothing. -/
theorem columnType_cases (table column : String) :
    (∃ message, columnType faults table column s = (.error message,
        s.sent (typeLookup table column)) ∧ ¬ Faultless faults) ∨
      columnType faults table column s = (.ok (s.catalogue.typeName (js table) (js column)),
        s.sent (typeLookup table column)) := by
  have hrespond : s.catalogue.respond (typeLookup table column) =
    some (s.catalogue.columnRows (js table) (js column), s.catalogue) := rfl
  rcases execute_lookup faults s hrespond with ⟨message, h, hfaults⟩ | h
  · exact .inl ⟨message, Effect.bind_error h, hfaults⟩
  · right
    unfold columnType
    rw [Effect.bind_ok h, Effect.pure_run]
    unfold Catalogue.columnRows Catalogue.typeName
    cases (s.catalogue (js table)).bind (·.columns (js column)) <;> rfl

/-- A lookup of an index fails as it is told to, or reads the catalogue and changes nothing. -/
theorem indexExists_cases (table name : String) :
    (∃ message, indexExists faults table name s = (.error message,
        s.sent (indexLookup table name)) ∧ ¬ Faultless faults) ∨
      indexExists faults table name s =
        (.ok (decide (0 < s.catalogue.indexCount (js table) (js name))),
          s.sent (indexLookup table name)) := by
  have hrespond : s.catalogue.respond (indexLookup table name) =
      some ([[.text (latin1Decode (decimal (s.catalogue.indexCount (js table) (js name))))]],
          s.catalogue) := by
    have hother : INDEX_EXISTS_SQL ≠ COLUMN_TYPE_SQL := by decide
    unfold Catalogue.respond indexLookup
    dsimp only
    rw [if_neg hother, if_pos rfl]
  rcases execute_lookup faults s hrespond with ⟨message, h, hfaults⟩ | h
  · exact .inl ⟨message, Effect.bind_error h, hfaults⟩
  · right
    have hcount : groupNumber
      (latin1Decode (decimal (s.catalogue.indexCount (js table) (js name)))) =
        s.catalogue.indexCount (js table) (js name) := by
      have h := groupNumber_leftpad (s.catalogue.indexCount (js table) (js name)) 0
      rwa [List.leftpad, Nat.zero_sub, List.replicate_zero, List.nil_append] at h
    unfold indexExists
    rw [Effect.bind_ok h, Effect.pure_run]
    dsimp only [List.head?, Option.bind_some, countOf]
    simp only [hcount, Int.natCast_pos]

theorem indexCount_pos {c : Catalogue} {table name : JsString} :
    0 < c.indexCount table name ↔ c.HasIndex table name := by
  unfold Catalogue.indexCount Catalogue.HasIndex
  cases c table with
  | none => simp
  | some t =>
    cases hindex : t.indexes name with
    | none => simp [hindex]
    | some key => simp [hindex, List.length_pos_iff, key.nonempty]

theorem typeName_bigint {c : Catalogue} {table column : JsString}
    (h : c.typeName table column = js "bigint") : c.IsBigint table column := by
  unfold Catalogue.typeName at h
  unfold Catalogue.IsBigint
  cases hc : c table with
  | none =>
    rw [hc] at h
    cases h
  | some t =>
    rw [hc] at h
    cases ht : t.columns column with
    | none =>
      rw [Option.bind_some, ht] at h
      cases h
    | some type =>
      rw [Option.bind_some, ht] at h
      obtain ⟨name, named⟩ := type
      cases h
      exact ⟨t, rfl, ht⟩

theorem typeName_of_isBigint {c : Catalogue} {table column : JsString}
    (h : c.IsBigint table column) : c.typeName table column = js "bigint" := by
  obtain ⟨t, hc, ht⟩ := h
  unfold Catalogue.typeName
  rw [hc, Option.bind_some, ht]
  rfl

/-- A column that is there has a type. -/
theorem typeName_ne_nil {c : Catalogue} {table column : JsString} {t : Table}
    (hc : c table = some t) (ht : (t.columns column).isSome) : c.typeName table column ≠ [] := by
  obtain ⟨type, htype⟩ := Option.isSome_iff_exists.mp ht
  unfold Catalogue.typeName
  rw [hc, Option.bind_some, htype]
  exact type.named

/-- A CREATE TABLE fails as it is told to, or is carried out. -/
theorem createTable_cases {statement : String} {spec : TableSpec}
    (h : readDdl (js statement) = some spec.create) :
    ∃ r c, createTable faults statement s = (r, { s.sent ⟨statement, []⟩ with catalogue := c }) ∧
      ((c = s.catalogue ∧ (∃ message, r = .error message) ∧
          (¬ Faultless faults ∨ spec.create.apply s.catalogue = none)) ∨
        (spec.create.apply s.catalogue = some c ∧ r = .ok ())) := by
  obtain ⟨r, c, hrun, ⟨hc, ⟨message, rfl⟩, hfaults⟩ | ⟨hc, rfl⟩⟩ := execute_ddl faults s h
  · exact ⟨_, c, Effect.bind_error hrun, .inl ⟨hc, ⟨message, rfl⟩, hfaults⟩⟩
  · exact ⟨_, c, Effect.bind_ok hrun, .inr ⟨hc, rfl⟩⟩

/-- A column is left as it is, or altered. -/
theorem widenColumn_cases {c : WidenedColumn} (h : c ∈ WIDENED_COLUMNS) :
    (∃ r, widenColumn faults c s = (r, s.sent (typeLookup c.table c.column)) ∧
        (((∃ message, r = .error message) ∧ ¬ Faultless faults) ∨
          (r = .ok () ∧ (s.catalogue.typeName (js c.table) (js c.column) = [] ∨
            s.catalogue.typeName (js c.table) (js c.column) = js "bigint")))) ∨
      (s.catalogue.typeName (js c.table) (js c.column) ≠ [] ∧
          s.catalogue.typeName (js c.table) (js c.column) ≠ js "bigint" ∧
        ∃ r log cat, widenColumn faults c s =
            (r, ⟨cat, s.statements ++ [typeLookup c.table c.column, c.alter], log⟩) ∧
          ((cat = s.catalogue ∧ (∃ message, r = .error message) ∧ (¬ Faultless faults ∨
              (Ddl.modifyColumn (js c.table) (js c.column) BIGINT).apply s.catalogue = none)) ∨
            ((Ddl.modifyColumn (js c.table) (js c.column) BIGINT).apply s.catalogue = some cat ∧
              r = .ok ()))) := by
  unfold widenColumn
  rcases columnType_cases faults s c.table c.column with ⟨message, hrun, hfaults⟩ | hrun
  · exact .inl ⟨_, Effect.bind_error hrun, .inl ⟨⟨message, rfl⟩, hfaults⟩⟩
  · rw [Effect.bind_ok hrun]
    by_cases htype : s.catalogue.typeName (js c.table) (js c.column) = [] ∨
        s.catalogue.typeName (js c.table) (js c.column) = js "bigint"
    · rw [if_pos htype]
      exact .inl ⟨.ok (), rfl, .inr ⟨rfl, htype⟩⟩
    · rw [if_neg htype]
      obtain ⟨hnone, hother⟩ := not_or.mp htype
      refine .inr ⟨hnone, hother, ?_⟩
      generalize hlog : (js "widening " ++ js c.table ++ js "." ++ js c.column ++ js " from " ++
        s.catalogue.typeName (js c.table) (js c.column) ++ js " to " ++ js c.definition) = line
      rw [Effect.bind_ok (Effect.change_run _)]
      obtain ⟨r, cat, hrun', hcases⟩ := execute_ddl faults
        { s.sent (typeLookup c.table c.column) with log := s.log ++ [line] } (readDdl_alter c h)
      have hstatements : (s.sent (typeLookup c.table c.column)).statements ++ [c.alter] =
        s.statements ++ [typeLookup c.table c.column, c.alter] := List.append_assoc ..
      rcases hcases with ⟨hcat, ⟨message, rfl⟩, hfaults⟩ | ⟨hcat, rfl⟩
      · refine ⟨_, s.log ++ [line], cat, (Effect.bind_error hrun').trans ?_,
          .inl ⟨hcat, ⟨message, rfl⟩, hfaults⟩⟩
        rw [← hstatements]
        rfl
      · refine ⟨_, s.log ++ [line], cat, (Effect.bind_ok hrun').trans ?_, .inr ⟨hcat, rfl⟩⟩
        rw [← hstatements]
        rfl

/-- An index is there, or created. -/
theorem createIndex_cases {ix : IndexSpec} (h : ix ∈ INDEXES) :
    (∃ r, createIndex faults ix s = (r, s.sent (indexLookup ix.table ix.name)) ∧
        (((∃ message, r = .error message) ∧ ¬ Faultless faults) ∨
          (r = .ok () ∧ s.catalogue.HasIndex (js ix.table) (js ix.name)))) ∨
      (¬ s.catalogue.HasIndex (js ix.table) (js ix.name) ∧
        ∃ key : Key, (∃ t ∈ TABLES, t.name = js ix.table ∧ ∀ column ∈ key.columns,
            column ∈ t.columns.map (·.1)) ∧
          ∃ r cat, createIndex faults ix s =
            (r, ⟨cat, s.statements ++ [indexLookup ix.table ix.name, ix.create], s.log⟩) ∧
          ((cat = s.catalogue ∧ (∃ message, r = .error message) ∧ (¬ Faultless faults ∨
              (Ddl.createIndex (js ix.table) (js ix.name) key).apply s.catalogue = none)) ∨
            ((Ddl.createIndex (js ix.table) (js ix.name) key).apply s.catalogue = some cat ∧
              r = .ok ()))) := by
  unfold createIndex
  rcases indexExists_cases faults s ix.table ix.name with ⟨message, hrun, hfaults⟩ | hrun
  · exact .inl ⟨_, Effect.bind_error hrun, .inl ⟨⟨message, rfl⟩, hfaults⟩⟩
  · rw [Effect.bind_ok hrun]
    by_cases hindex : s.catalogue.HasIndex (js ix.table) (js ix.name)
    · rw [if_pos (decide_eq_true (indexCount_pos.mpr hindex))]
      exact .inl ⟨.ok (), rfl, .inr ⟨rfl, hindex⟩⟩
    · rw [if_neg (by simpa [indexCount_pos] using hindex)]
      obtain ⟨key, hread, hcolumns⟩ := readDdl_create ix h
      refine .inr ⟨hindex, key, hcolumns, ?_⟩
      obtain ⟨r, cat, hrun', hcases⟩ :=
        execute_ddl faults (s.sent (indexLookup ix.table ix.name)) hread
      have hstatements : (s.sent (indexLookup ix.table ix.name)).statements ++ [ix.create] =
        s.statements ++ [indexLookup ix.table ix.name, ix.create] := List.append_assoc ..
      rcases hcases with ⟨hcat, ⟨message, rfl⟩, hfaults⟩ | ⟨hcat, rfl⟩
      · refine ⟨_, cat, (Effect.bind_error hrun').trans ?_, .inl ⟨hcat, ⟨message, rfl⟩, hfaults⟩⟩
        rw [← hstatements]
        rfl
      · refine ⟨_, cat, (Effect.bind_ok hrun').trans ?_, .inr ⟨hcat, rfl⟩⟩
        rw [← hstatements]
        rfl

end

/-! ## What a run keeps -/

section
variable {faults : Faults} {s s' : Session}

def Session.Moved (s s' : Session) : Prop := s.catalogue.Moved s'.catalogue

theorem Session.Moved.refl (s : Session) : s.Moved s := Catalogue.Moved.refl s.catalogue

theorem Session.Moved.trans (s t u : Session) (h : s.Moved t) (h' : t.Moved u) : s.Moved u :=
  Catalogue.Moved.trans h h'

/-- Each step of the migration moves the catalogue: that of a table, -/
theorem moves_createTable {statement : String} (h : statement ∈ SCHEMA) :
    Effect.Moves Session.Moved (createTable faults statement) := by
  intro s
  obtain ⟨spec, hspec, hread⟩ := readDdl_createTable h
  obtain ⟨r, c, hrun, ⟨rfl, -, -⟩ | ⟨hc, -⟩⟩ := createTable_cases faults s hread
  · rw [hrun]
    exact Catalogue.Moved.refl _
  · rw [hrun]
    exact (moved_create hspec hc).1

/-- that of a column, -/
theorem moves_widenColumn {c : WidenedColumn} (h : c ∈ WIDENED_COLUMNS) :
    Effect.Moves Session.Moved (widenColumn faults c) := by
  intro s
  obtain ⟨r, hrun, -⟩ | ⟨-, -, r, log, cat, hrun, ⟨rfl, -, -⟩ | ⟨hcat, -⟩⟩ :=
    widenColumn_cases faults s h
  · rw [hrun]
    exact Catalogue.Moved.refl _
  · rw [hrun]
    exact Catalogue.Moved.refl _
  · rw [hrun]
    exact (moved_alter h hcat).1

/-- and that of an index. -/
theorem moves_createIndex {ix : IndexSpec} (h : ix ∈ INDEXES) :
    Effect.Moves Session.Moved (createIndex faults ix) := by
  intro s
  obtain ⟨r, hrun, -⟩ | ⟨-, key, -, r, cat, hrun, ⟨rfl, -, -⟩ | ⟨hcat, -⟩⟩ :=
    createIndex_cases faults s h
  · rw [hrun]
    exact Catalogue.Moved.refl _
  · rw [hrun]
    exact Catalogue.Moved.refl _
  · rw [hrun]
    exact (moved_index h hcat).1

variable (faults)

theorem moves_createTables : Effect.Moves Session.Moved (SCHEMA.forM (createTable faults)) :=
  Effect.moves_forM Session.Moved.refl Session.Moved.trans fun _ => moves_createTable

theorem moves_widenColumns :
    Effect.Moves Session.Moved (WIDENED_COLUMNS.forM (widenColumn faults)) :=
  Effect.moves_forM Session.Moved.refl Session.Moved.trans fun _ => moves_widenColumn

theorem moves_createIndexes : Effect.Moves Session.Moved (INDEXES.forM (createIndex faults)) :=
  Effect.moves_forM Session.Moved.refl Session.Moved.trans fun _ => moves_createIndex

/-- A run that breaks off anywhere has kept the tables. -/
theorem moves_migrate : Effect.Moves Session.Moved (migrate faults) := by
  apply Effect.moves_bind Session.Moved.trans
  · exact moves_createTables faults
  · intro _
    apply Effect.moves_bind Session.Moved.trans
    · exact moves_widenColumns faults
    · exact fun _ => moves_createIndexes faults

end

/-! ## What a whole run leaves -/

namespace Catalogue
variable {c c' : Catalogue} {table : JsString}

/-- What later catalogues keep: a table, -/
theorem HasTable.follows (h : c.HasTable table) (hfollows : c.Follows c') : c'.HasTable table := by
  obtain ⟨t, ht⟩ := Option.isSome_iff_exists.mp h
  obtain ⟨t', ht', -⟩ := hfollows.kept table t ht
  exact Option.isSome_iff_exists.mpr ⟨t', ht'⟩

/-- a widened column, -/
theorem IsBigint.follows {column : JsString} (h : c.IsBigint table column)
    (hfollows : c.Follows c') : c'.IsBigint table column := by
  obtain ⟨t, ht, hcolumn⟩ := h
  obtain ⟨t', ht', hkept⟩ := hfollows.kept table t ht
  rcases hkept.columns column with heq | ⟨-, -, heq⟩
  · exact ⟨t', ht', heq.trans hcolumn⟩
  · exact ⟨t', ht', heq⟩

/-- and an index. -/
theorem HasIndex.follows {name : JsString} (h : c.HasIndex table name) (hfollows : c.Follows c') :
    c'.HasIndex table name := by
  obtain ⟨t, ht, hindex⟩ := h
  obtain ⟨t', ht', hkept⟩ := hfollows.kept table t ht
  rcases hkept.indexes name with heq | ⟨-, -, hsome⟩
  · exact ⟨t', ht', by rw [heq]; exact hindex⟩
  · exact ⟨t', ht', hsome⟩

/-- The tables of the schema are there. -/
def HasTables (c : Catalogue) : Prop := ∀ spec ∈ TABLES, c.HasTable spec.name

/-- What the migration is for. -/
structure Migrated (c : Catalogue) : Prop where
  tables : c.HasTables
  columns : ∀ w ∈ WIDENED_COLUMNS, c.IsBigint (js w.table) (js w.column)
  indexes : ∀ ix ∈ INDEXES, c.HasIndex (js ix.table) (js ix.name)

/-- A column of the schema has a type. -/
theorem typeName_column (hstart : c.Startable) (htables : c.HasTables) {spec : TableSpec}
    (hspec : spec ∈ TABLES) {column : JsString} (hcolumn : column ∈ spec.columns.map (·.1)) :
    c.typeName spec.name column ≠ [] := by
  obtain ⟨t, ht⟩ := Option.isSome_iff_exists.mp (htables spec hspec)
  exact typeName_ne_nil ht (hstart spec hspec t ht column hcolumn)

end Catalogue

section
variable {faults : Faults} {s s' : Session}

/-- What a turn of a loop leaves behind, a loop that comes to its end does. -/
theorem loop_leaves {β : Type} {l : List β} {body : β → Effect Session JsString Unit}
    {P : Catalogue → Prop} (hmoves : ∀ b ∈ l, Effect.Moves Session.Moved (body b))
    (hstart : s.catalogue.Startable)
    (hrun : l.forM body s = (.ok (), s')) (hP : ∀ c c', P c → c.Follows c' → P c') {b : β}
    (hb : b ∈ l)
    (hbody : ∀ s₁ s₂, s₁.catalogue.Startable → s.catalogue.Follows s₁.catalogue →
      body b s₁ = (.ok (), s₂) → P s₂.catalogue) :
    P s'.catalogue := by
  obtain ⟨s₁, s₂, hbefore, hone, hafter⟩ :=
    Effect.forM_ok Session.Moved.refl Session.Moved.trans hmoves hrun b hb
  obtain ⟨hstart₁, hfollows⟩ := hbefore hstart
  have hmoved := hmoves b hb s₁
  rw [hone] at hmoved
  obtain ⟨hstart₂, -⟩ := hmoved hstart₁
  exact hP _ _ (hbody s₁ s₂ hstart₁ hfollows hone) (hafter hstart₂).2

/-- Behind the first loop all tables are there. -/
theorem createTables_ok (hstart : s.catalogue.Startable)
    (h : SCHEMA.forM (createTable faults) s = (.ok (), s')) : s'.catalogue.HasTables := by
  intro spec hspec
  obtain ⟨statement, hstatement, hread⟩ := createTable_of_mem hspec
  refine loop_leaves (fun _ => moves_createTable) hstart h (fun c c' =>
    Catalogue.HasTable.follows) hstatement ?_
  rintro s₁ s₂ - - hbody
  obtain ⟨r, c, hrun, ⟨-, ⟨message, rfl⟩, -⟩ | ⟨hc, -⟩⟩ := createTable_cases faults s₁ hread
  · rw [hrun] at hbody
    cases hbody
  · rw [hrun] at hbody
    cases hbody
    exact (moved_create hspec hc).2

/-- Behind the second every column is wide. -/
theorem widenColumns_ok (hstart : s.catalogue.Startable) (htables : s.catalogue.HasTables)
    (h : WIDENED_COLUMNS.forM (widenColumn faults) s = (.ok (), s')) {w : WidenedColumn}
    (hw : w ∈ WIDENED_COLUMNS) : s'.catalogue.IsBigint (js w.table) (js w.column) := by
  refine loop_leaves (fun _ => moves_widenColumn) hstart h (fun c c' =>
    Catalogue.IsBigint.follows) hw ?_
  intro s₁ s₂ hstart₁ hfollows hbody
  obtain ⟨spec, hspec, hname, hcolumn⟩ := widened_mem w hw
  have htype := Catalogue.typeName_column hstart₁ (fun spec hspec =>
    (htables spec hspec).follows hfollows) hspec hcolumn
  rw [hname] at htype
  obtain ⟨r, hrun, ⟨⟨message, rfl⟩, -⟩ | ⟨-, hnone | hbigint⟩⟩ |
      ⟨-, -, r, log, cat, hrun, ⟨-, ⟨message, rfl⟩, -⟩ | ⟨hcat, -⟩⟩ :=
        widenColumn_cases faults s₁ hw
  · rw [hrun] at hbody
    cases hbody
  · exact absurd hnone htype
  · rw [hrun] at hbody
    cases hbody
    exact typeName_bigint hbigint
  · rw [hrun] at hbody
    cases hbody
  · rw [hrun] at hbody
    cases hbody
    exact (moved_alter hw hcat).2

/-- Behind the third every index is there. -/
theorem createIndexes_ok (hstart : s.catalogue.Startable)
    (h : INDEXES.forM (createIndex faults) s = (.ok (), s')) {ix : IndexSpec} (hix : ix ∈ INDEXES) :
    s'.catalogue.HasIndex (js ix.table) (js ix.name) := by
  refine loop_leaves (fun _ => moves_createIndex) hstart h (fun c c' =>
    Catalogue.HasIndex.follows) hix ?_
  rintro s₁ s₂ - - hbody
  obtain ⟨r, hrun, ⟨⟨message, rfl⟩, -⟩ | ⟨-, hindex⟩⟩ |
      ⟨-, key, -, r, cat, hrun, ⟨-, ⟨message, rfl⟩, -⟩ | ⟨hcat, -⟩⟩ :=
        createIndex_cases faults s₁ hix
  · rw [hrun] at hbody
    cases hbody
  · rw [hrun] at hbody
    cases hbody
    exact hindex
  · rw [hrun] at hbody
    cases hbody
  · rw [hrun] at hbody
    cases hbody
    exact (moved_index hix hcat).2

/-- A run that comes to its end has migrated the database. -/
theorem migrate_ok (hstart : s.catalogue.Startable) (h : migrate faults s = (.ok (), s')) :
    s'.catalogue.Migrated := by
  obtain ⟨⟨⟩, s₁, htables, h⟩ := Effect.bind_eq_ok h
  obtain ⟨⟨⟩, s₂, hcolumns, hindexes⟩ := Effect.bind_eq_ok h
  have hmoved₁ := moves_createTables faults s
  rw [htables] at hmoved₁
  have hmoved₂ := moves_widenColumns faults s₁
  rw [hcolumns] at hmoved₂
  have hmoved₃ := moves_createIndexes faults s₂
  rw [hindexes] at hmoved₃
  obtain ⟨hstart₁, -⟩ := hmoved₁ hstart
  obtain ⟨hstart₂, hfollows₂⟩ := hmoved₂ hstart₁
  obtain ⟨-, hfollows₃⟩ := hmoved₃ hstart₂
  have htables₁ := createTables_ok hstart htables
  constructor
  · exact fun spec hspec => ((htables₁ spec hspec).follows hfollows₂).follows hfollows₃
  · exact fun w hw => (widenColumns_ok hstart₁ htables₁ hcolumns hw).follows hfollows₃
  · exact fun ix hix => createIndexes_ok hstart₂ hindexes hix

end

/-! ## The statements of a run -/

/-- The statement is an ALTER. -/
def Statement.Alters (statement : Statement) : Prop :=
  ∃ table column type, readDdl (js statement.sql) = some (.modifyColumn table column type)

/-- The statement is a CREATE INDEX. -/
def Statement.Indexes (statement : Statement) : Prop :=
  ∃ table name key, readDdl (js statement.sql) = some (.createIndex table name key)

/-- What is sent in between is of the kind. -/
def Session.Adds (p : Statement → Prop) (s s' : Session) : Prop :=
  ∃ new, s'.statements = s.statements ++ new ∧ ∀ statement ∈ new, p statement

section
variable {p : Statement → Prop}

theorem Session.Adds.refl (s : Session) : s.Adds p s := ⟨[], (List.append_nil _).symm, nofun⟩

theorem Session.Adds.trans (s t u : Session) (h : s.Adds p t) (h' : t.Adds p u) : s.Adds p u := by
  obtain ⟨new, heq, hp⟩ := h
  obtain ⟨new', heq', hp'⟩ := h'
  refine ⟨new ++ new', by rw [heq', heq, List.append_assoc], fun statement hmem => ?_⟩
  rcases List.mem_append.mp hmem with hmem | hmem
  · exact hp statement hmem
  · exact hp' statement hmem

/-- The lookups neither alter nor index. -/
theorem not_lookup {table name : String} :
    (¬ (typeLookup table name).Alters ∧ ¬ (typeLookup table name).Indexes) ∧
    (¬ (indexLookup table name).Alters ∧ ¬ (indexLookup table name).Indexes) := by
  obtain ⟨hcolumn, hindex⟩ := readDdl_lookups
  unfold Statement.Alters Statement.Indexes typeLookup indexLookup
  simp [hcolumn, hindex]

theorem not_schema {statement : String} (h : statement ∈ SCHEMA) :
    ¬ Statement.Alters ⟨statement, []⟩ ∧ ¬ Statement.Indexes ⟨statement, []⟩ := by
  obtain ⟨spec, -, hread⟩ := readDdl_createTable h
  unfold Statement.Alters Statement.Indexes
  simp [hread, TableSpec.create]

theorem not_indexes_alter {w : WidenedColumn} (h : w ∈ WIDENED_COLUMNS) : ¬ w.alter.Indexes := by
  unfold Statement.Indexes
  simp [readDdl_alter w h]

theorem not_alters_create {ix : IndexSpec} (h : ix ∈ INDEXES) : ¬ ix.create.Alters := by
  obtain ⟨key, hread, -⟩ := readDdl_create ix h
  unfold Statement.Alters
  simp [hread]

end

section
variable {faults : Faults}

/-- Before the last loop no index is created. -/
theorem adds_tables_columns :
    Effect.Moves (Session.Adds fun statement => ¬ statement.Indexes)
    (SCHEMA.forM (createTable faults)) ∧
    Effect.Moves (Session.Adds fun statement => ¬ statement.Indexes)
      (WIDENED_COLUMNS.forM (widenColumn faults)) := by
  constructor
  · apply Effect.moves_forM Session.Adds.refl Session.Adds.trans
    intro statement hmem s
    obtain ⟨spec, -, hread⟩ := readDdl_createTable hmem
    obtain ⟨r, c, hrun, -⟩ := createTable_cases faults s hread
    rw [hrun]
    refine ⟨_, rfl, fun statement h => ?_⟩
    rw [List.mem_singleton.mp h]
    exact (not_schema hmem).2
  · apply Effect.moves_forM Session.Adds.refl Session.Adds.trans
    intro w hw s
    obtain ⟨r, hrun, -⟩ | ⟨-, -, r, log, cat, hrun, -⟩ := widenColumn_cases faults s hw
    · rw [hrun]
      refine ⟨_, rfl, fun statement h => ?_⟩
      rw [List.mem_singleton.mp h]
      exact not_lookup.1.2
    · rw [hrun]
      refine ⟨_, rfl, fun statement h => ?_⟩
      rcases List.mem_pair.mp h with rfl | rfl
      · exact not_lookup.1.2
      · exact not_indexes_alter hw

/-- In the last loop nothing is altered. -/
theorem adds_indexes : Effect.Moves (Session.Adds fun statement => ¬ statement.Alters)
    (INDEXES.forM (createIndex faults)) := by
  apply Effect.moves_forM Session.Adds.refl Session.Adds.trans
  intro ix hix s
  obtain ⟨r, hrun, -⟩ | ⟨-, key, -, r, cat, hrun, -⟩ := createIndex_cases faults s hix
  · rw [hrun]
    refine ⟨_, rfl, fun statement h => ?_⟩
    rw [List.mem_singleton.mp h]
    exact not_lookup.2.1
  · rw [hrun]
    refine ⟨_, rfl, fun statement h => ?_⟩
    rcases List.mem_pair.mp h with rfl | rfl
    · exact not_lookup.2.1
    · exact not_alters_create hix

/-- Whatever is altered in a run is altered before the first index is created. -/
theorem migrate_order (s : Session) :
    ∃ first last, (migrate faults s).2.statements = s.statements ++ (first ++ last) ∧
    (∀ statement ∈ first, ¬ statement.Indexes) ∧ ∀ statement ∈ last, ¬ statement.Alters := by
  obtain ⟨htables, hcolumns⟩ := @adds_tables_columns faults
  unfold migrate
  obtain ⟨new₁, hnew₁, hfirst₁⟩ := htables s
  cases hrun₁ : SCHEMA.forM (createTable faults) s with
  | mk r₁ s₁ =>
    rw [hrun₁] at hnew₁
    cases r₁ with
    | error e =>
      rw [Effect.bind_error hrun₁]
      exact ⟨new₁, [], by rw [List.append_nil]; exact hnew₁, hfirst₁, nofun⟩
    | ok u =>
      rw [Effect.bind_ok hrun₁]
      obtain ⟨new₂, hnew₂, hfirst₂⟩ := hcolumns s₁
      have hfirst : ∀ statement ∈ new₁ ++ new₂, ¬ statement.Indexes := fun statement hmem =>
        (List.mem_append.mp hmem).elim (hfirst₁ statement) (hfirst₂ statement)
      cases hrun₂ : WIDENED_COLUMNS.forM (widenColumn faults) s₁ with
      | mk r₂ s₂ =>
        rw [hrun₂] at hnew₂
        dsimp only at hnew₁ hnew₂
        rw [hnew₁, List.append_assoc] at hnew₂
        cases r₂ with
        | error e =>
          rw [Effect.bind_error hrun₂]
          exact ⟨new₁ ++ new₂, [], by rw [List.append_nil]; exact hnew₂, hfirst, nofun⟩
        | ok u =>
          rw [Effect.bind_ok hrun₂]
          obtain ⟨new₃, hnew₃, hlast⟩ := @adds_indexes faults s₂
          exact ⟨new₁ ++ new₂, new₃, by rw [hnew₃, hnew₂, List.append_assoc], hfirst, hlast⟩

/-! ## A database that is migrated -/

/-- What a run does to one: nothing. -/
def Session.Quiet (s s' : Session) : Prop := s.catalogue.Migrated →
  s'.catalogue = s.catalogue ∧ s.Adds (fun statement => ¬ statement.Alters ∧ ¬ statement.Indexes) s'

theorem Session.Quiet.refl (s : Session) : s.Quiet s := fun _ => ⟨rfl, .refl s⟩

theorem Session.Quiet.trans (s t u : Session) (h : s.Quiet t) (h' : t.Quiet u) : s.Quiet u := by
  intro hmigrated
  obtain ⟨heq, hadds⟩ := h hmigrated
  obtain ⟨heq', hadds'⟩ := h' (heq ▸ hmigrated)
  exact ⟨heq'.trans heq, hadds.trans _ _ _ hadds'⟩

/-- On a migrated database no step changes anything: not that of a table, -/
theorem quiet_createTable {statement : String} (h : statement ∈ SCHEMA) :
    Effect.Moves Session.Quiet (createTable faults statement) := by
  intro s hmigrated
  obtain ⟨spec, hspec, hread⟩ := readDdl_createTable h
  have hadds (c : Catalogue) : s.Adds (fun statement => ¬ statement.Alters ∧ ¬ statement.Indexes)
      { s.sent ⟨statement, []⟩ with catalogue := c } := by
    refine ⟨_, rfl, fun statement hmem => ?_⟩
    rw [List.mem_singleton.mp hmem]
    exact not_schema h
  obtain ⟨r, c, hrun, ⟨rfl, -, -⟩ | ⟨hc, -⟩⟩ := createTable_cases faults s hread
  · rw [hrun]
    exact ⟨rfl, hadds _⟩
  · rw [hrun]
    obtain ⟨t, ht⟩ := Option.isSome_iff_exists.mp (hmigrated.tables spec hspec)
    unfold TableSpec.create Ddl.apply at hc
    dsimp only at hc
    rw [ht] at hc
    cases hc
    exact ⟨rfl, hadds _⟩

/-- not that of a column, -/
theorem quiet_widenColumn {w : WidenedColumn} (h : w ∈ WIDENED_COLUMNS) :
    Effect.Moves Session.Quiet (widenColumn faults w) := by
  intro s hmigrated
  obtain ⟨r, hrun, -⟩ | ⟨-, hother, -⟩ := widenColumn_cases faults s h
  · rw [hrun]
    refine ⟨rfl, _, rfl, fun statement hmem => ?_⟩
    rw [List.mem_singleton.mp hmem]
    exact not_lookup.1
  · exact absurd (typeName_of_isBigint (hmigrated.columns w h)) hother

/-- nor that of an index. -/
theorem quiet_createIndex {ix : IndexSpec} (h : ix ∈ INDEXES) :
    Effect.Moves Session.Quiet (createIndex faults ix) := by
  intro s hmigrated
  obtain ⟨r, hrun, -⟩ | ⟨hnone, -⟩ := createIndex_cases faults s h
  · rw [hrun]
    refine ⟨rfl, _, rfl, fun statement hmem => ?_⟩
    rw [List.mem_singleton.mp hmem]
    exact not_lookup.2
  · exact absurd (hmigrated.indexes ix h) hnone

theorem quiet_migrate : Effect.Moves Session.Quiet (migrate faults) := by
  apply Effect.moves_bind Session.Quiet.trans
  · exact Effect.moves_forM Session.Quiet.refl Session.Quiet.trans fun _ => quiet_createTable
  · intro _
    apply Effect.moves_bind Session.Quiet.trans
    · exact Effect.moves_forM Session.Quiet.refl Session.Quiet.trans fun _ => quiet_widenColumn
    · exact fun _ => Effect.moves_forM Session.Quiet.refl Session.Quiet.trans fun _ =>
        quiet_createIndex

end

/-! ## Runs one after another -/

section
variable {faults : Faults} {s : Session}

/-- Where nothing is refused a CREATE TABLE resolves, -/
theorem createTable_completes (hfaults : Faultless faults) {statement : String}
    (h : statement ∈ SCHEMA) : ∃ s', createTable faults statement s = (.ok (), s') := by
  obtain ⟨spec, -, hread⟩ := readDdl_createTable h
  obtain ⟨r, c, hrun, ⟨-, -, hnot | hnone⟩ | ⟨-, rfl⟩⟩ := createTable_cases faults s hread
  · exact absurd hfaults hnot
  · unfold TableSpec.create Ddl.apply at hnone
    dsimp only at hnone
    split at hnone <;> cases hnone
  · exact ⟨_, hrun⟩

/-- a column is widened, -/
theorem widenColumn_completes (hfaults : Faultless faults) {w : WidenedColumn}
    (h : w ∈ WIDENED_COLUMNS) : ∃ s', widenColumn faults w s = (.ok (), s') := by
  obtain ⟨r, hrun, ⟨-, hnot⟩ | ⟨rfl, -⟩⟩ |
      ⟨htype, -, r, log, cat, hrun, ⟨-, -, hnot | hnone⟩ | ⟨-, rfl⟩⟩ :=
    widenColumn_cases faults s h
  · exact absurd hfaults hnot
  · exact ⟨_, hrun⟩
  · exact absurd hfaults hnot
  · -- a column that has a type can be altered
    unfold Catalogue.typeName at htype
    cases ht : s.catalogue (js w.table) with
    | none =>
      rw [ht] at htype
      exact absurd rfl htype
    | some t =>
      cases hcolumn : t.columns (js w.column) with
      | none =>
        rw [ht, Option.bind_some, hcolumn] at htype
        exact absurd rfl htype
      | some type => simp [Ddl.apply, ht, hcolumn] at hnone
  · exact ⟨_, hrun⟩

/-- and an index is created. -/
theorem createIndex_completes (hfaults : Faultless faults) (hstart : s.catalogue.Startable)
    (htables : s.catalogue.HasTables) {ix : IndexSpec} (h : ix ∈ INDEXES) :
    ∃ s', createIndex faults ix s = (.ok (), s') := by
  obtain ⟨r, hrun, ⟨-, hnot⟩ | ⟨rfl, -⟩⟩ |
      ⟨hindex, key, ⟨spec, hspec, hname, hcolumns⟩, r, cat, hrun,
        ⟨-, -, hnot | hnone⟩ | ⟨-, rfl⟩⟩ := createIndex_cases faults s h
  · exact absurd hfaults hnot
  · exact ⟨_, hrun⟩
  · exact absurd hfaults hnot
  · obtain ⟨t, ht⟩ := Option.isSome_iff_exists.mp (htables spec hspec)
    have hthere := hstart spec hspec t ht
    rw [hname] at ht
    have hnew : t.indexes (js ix.name) = none := by
      apply Option.not_isSome_iff_eq_none.mp
      exact fun hsome => hindex ⟨t, ht, hsome⟩
    have hall : ∀ column ∈ key.columns, (t.columns column).isSome = true := fun column hmem =>
      hthere column (hcolumns column hmem)
    simp [Ddl.apply, ht, hnew] at hnone
    obtain ⟨column, hmem, hmissing⟩ := hnone
    have hsome := hall column hmem
    rw [hmissing] at hsome
    cases hsome
  · exact ⟨_, hrun⟩

/-- A run in which nothing fails by itself comes to its end. -/
theorem migrate_completes (hfaults : Faultless faults) (hstart : s.catalogue.Startable) :
    ∃ s', migrate faults s = (.ok (), s') := by
  -- the tables stay there and startable, whatever is executed
  have hkeep {x : Effect Session JsString Unit} (hmoves : Effect.Moves Session.Moved x)
      {t t' : Session} (hrun : x t = (.ok (), t'))
      (h : t.catalogue.Startable ∧ t.catalogue.HasTables) :
      t'.catalogue.Startable ∧ t'.catalogue.HasTables := by
    have hmoved := hmoves t
    rw [hrun] at hmoved
    obtain ⟨hstart', hfollows⟩ := hmoved h.1
    exact ⟨hstart', fun spec hspec => (h.2 spec hspec).follows hfollows⟩
  have hfirst : ∀ statement ∈ SCHEMA, ∀ t : Session, t.catalogue.Startable →
      ∃ t', createTable faults statement t = (.ok (), t') ∧ t'.catalogue.Startable := by
    intro statement hmem t hstart
    obtain ⟨t', hrun⟩ := @createTable_completes faults t hfaults statement hmem
    have hmoved := @moves_createTable faults statement hmem t
    rw [hrun] at hmoved
    exact ⟨t', hrun, (hmoved hstart).1⟩
  obtain ⟨s₁, hrun₁, hstart₁⟩ := Effect.forM_completes hfirst hstart
  have hsecond : ∀ w ∈ WIDENED_COLUMNS, ∀ t : Session, t.catalogue.Startable ∧
    t.catalogue.HasTables →
      ∃ t', widenColumn faults w t = (.ok (), t') ∧ t'.catalogue.Startable ∧
          t'.catalogue.HasTables := by
    intro w hw t h
    obtain ⟨t', hrun⟩ := @widenColumn_completes faults t hfaults w hw
    exact ⟨t', hrun, hkeep (moves_widenColumn hw) hrun h⟩
  obtain ⟨s₂, hrun₂, hstart₂⟩ :=
    Effect.forM_completes hsecond ⟨hstart₁, createTables_ok hstart hrun₁⟩
  have hthird : ∀ ix ∈ INDEXES, ∀ t : Session, t.catalogue.Startable ∧ t.catalogue.HasTables →
      ∃ t', createIndex faults ix t = (.ok (), t') ∧ t'.catalogue.Startable ∧
          t'.catalogue.HasTables := by
    intro ix hix t h
    obtain ⟨t', hrun⟩ := createIndex_completes hfaults h.1 h.2 hix
    exact ⟨t', hrun, hkeep (moves_createIndex hix) hrun h⟩
  obtain ⟨s₃, hrun₃, -⟩ := Effect.forM_completes hthird hstart₂
  unfold migrate
  rw [Effect.bind_ok hrun₁, Effect.bind_ok hrun₂]
  exact ⟨s₃, hrun₃⟩

end

/-- A run on a database, nothing sent yet. -/
def Session.on (c : Catalogue) : Session := ⟨c, [], []⟩

/-- The catalogue after some runs, each broken off or not. -/
def migrateAll (c : Catalogue) (runs : List Faults) : Catalogue :=
  runs.foldl (fun c faults => (migrate faults (.on c)).2.catalogue) c

/-- However many migrations were broken off, the catalogue has only moved. -/
theorem migrateAll_moved (c : Catalogue) (runs : List Faults) : c.Moved (migrateAll c runs) := by
  induction runs generalizing c with
  | nil => exact .refl c
  | cons faults runs ih => exact Catalogue.Moved.trans (moves_migrate faults (.on c)) (ih _)

/-- Whatever runs were broken off before it, a run that comes to its end leaves the database
migrated, with nothing lost or changed on the way but what the migration is for, and no run
after it changes anything. In every run the ALTERs come first, and one in which nothing fails by
itself does come to its end. -/
theorem migrate_converges {c : Catalogue} (hstart : c.Startable) (runs : List Faults) :
    (∀ faults s, migrate faults (.on (migrateAll c runs)) = (.ok (), s) →
      s.catalogue.Migrated ∧ c.Follows s.catalogue ∧
        ∀ faults', (migrate faults' (.on s.catalogue)).2.catalogue = s.catalogue ∧
          ∀ statement ∈ (migrate faults' (.on s.catalogue)).2.statements, ¬ statement.Alters ∧
          ¬ statement.Indexes) ∧
    (∀ faults c', ∃ first last, (migrate faults (.on c')).2.statements = first ++ last ∧
      (∀ statement ∈ first, ¬ statement.Indexes) ∧ ∀ statement ∈ last, ¬ statement.Alters) ∧
    (∀ faults, Faultless faults → ∃ s, migrate faults (.on (migrateAll c runs)) = (.ok (), s)) := by
  obtain ⟨hstart', hfollows⟩ := migrateAll_moved c runs hstart
  refine ⟨fun faults s h => ?_, fun faults c' => migrate_order _, fun faults hfaults =>
    migrate_completes hfaults hstart'⟩
  have hmigrated : s.catalogue.Migrated := migrate_ok hstart' h
  have hmoved := moves_migrate faults (.on (migrateAll c runs))
  rw [h] at hmoved
  refine ⟨hmigrated, hfollows.trans (hmoved hstart').2, fun faults' => ?_⟩
  obtain ⟨heq, new, hnew, hquiet⟩ := @quiet_migrate faults' (.on s.catalogue) hmigrated
  refine ⟨heq, fun statement hmem => hquiet statement ?_⟩
  rw [hnew] at hmem
  exact hmem

/-- A database of an earlier version, with INT money and one index, and a connection
that is lost twice. -/
theorem migrate_converges_int :
    let money (column : JsString) : Option DataType :=
      if column = js "total_price" ∨ column = js "agent_credits" then some INT else some VARCHAR
    let c : Catalogue := fun table =>
      if table = js "transactions" then
        some ⟨money, fun name => if name = js "PRIMARY" then Key.ofColumns [js "id"] else none⟩
      else none
    let lost (n : Nat) : Faults := fun k => if k = n then some (js "Connection lost") else none
    ∃ s, migrate (fun _ => none) (.on (migrateAll c [lost 5, lost 9])) = (.ok (), s) ∧
      s.catalogue.Migrated ∧
      c.Follows s.catalogue := by
  intro money c lost
  have hstart : c.Startable := by
    intro spec _ t ht column _
    change (if spec.name = js "transactions" then _ else none) = some t at ht
    split_ifs at ht
    cases ht
    show (money column).isSome = true
    change (if _ then _ else _ : Option DataType).isSome = true
    split_ifs <;> rfl
  obtain ⟨hends, -, hcompletes⟩ := migrate_converges hstart [lost 5, lost 9]
  obtain ⟨s, hs⟩ := hcompletes (fun _ => none) fun _ => rfl
  obtain ⟨hmigrated, hfollows, -⟩ := hends _ s hs
  exact ⟨s, hs, hmigrated, hfollows⟩

end AgentService
