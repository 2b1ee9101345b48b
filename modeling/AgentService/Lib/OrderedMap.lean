import Mathlib.Data.List.Nodup
import Mathlib.Data.List.Perm.Lattice

/-!
# Maps that remember the order their keys came in

What a JavaScript `Map`, `Set` and plain object are when they are enumerated: entries in order,
each key once. A key that is there already keeps its entry (`addNew`); building a map from a list
therefore keeps the first entry of each key.
-/

namespace Lib

structure OrderedMap (κ α : Type) where
  entries : List (κ × α)
  nodup : (entries.map Prod.fst).Nodup

/-- The keys of a map with nothing to look up. -/
abbrev OrderedSet (κ : Type) := OrderedMap κ Unit

namespace OrderedMap

variable {κ α β : Type}

def empty : OrderedMap κ α := ⟨[], List.nodup_nil⟩

instance : Inhabited (OrderedMap κ α) := ⟨empty⟩

def keys (m : OrderedMap κ α) : List κ := m.entries.map Prod.fst

@[simp] theorem entries_empty : (empty : OrderedMap κ α).entries = [] := rfl

@[simp] theorem keys_empty : (empty : OrderedMap κ α).keys = [] := rfl

theorem mem_keys_of_mem {m : OrderedMap κ α} {k : κ} {v : α} (h : (k, v) ∈ m.entries) :
    k ∈ m.keys :=
  List.mem_map_of_mem h

/-- A key is there with its value. -/
theorem mem_keys {m : OrderedMap κ α} {k : κ} : k ∈ m.keys ↔ ∃ v, (k, v) ∈ m.entries := by
  constructor
  · intro h
    obtain ⟨⟨k', v⟩, hv, rfl⟩ := List.mem_map.mp h
    exact ⟨v, hv⟩
  · rintro ⟨v, hv⟩
    exact mem_keys_of_mem hv

/-- A key has one value. -/
theorem value_unique {m : OrderedMap κ α} {k : κ} {v w : α} (hv : (k, v) ∈ m.entries)
    (hw : (k, w) ∈ m.entries) : v = w := by
  have hpair : (k, v) = (k, w) := List.inj_on_of_nodup_map m.nodup hv hw rfl
  exact congrArg Prod.snd hpair

variable [DecidableEq κ]

def has (m : OrderedMap κ α) (k : κ) : Bool := m.keys.contains k

def get? (m : OrderedMap κ α) (k : κ) : Option α := m.entries.lookup k

theorem has_iff {m : OrderedMap κ α} {k : κ} : m.has k = true ↔ k ∈ m.keys := List.contains_iff_mem

theorem has_eq_false {m : OrderedMap κ α} {k : κ} : m.has k = false ↔ k ∉ m.keys := by
  rw [← has_iff, Bool.not_eq_true]

/-- Looking up finds the entry of the key, as there is one. -/
theorem get?_eq_some {m : OrderedMap κ α} {k : κ} {v : α} :
    m.get? k = some v ↔ (k, v) ∈ m.entries := by
  constructor
  · intro h
    obtain ⟨pre, post, hsplit, -⟩ := List.lookup_eq_some_iff.mp h
    rw [hsplit]
    exact List.mem_append_right pre List.mem_cons_self
  · intro h
    cases hget : m.get? k with
    | some w =>
      obtain ⟨pre, post, hsplit, -⟩ := List.lookup_eq_some_iff.mp hget
      have hw : (k, w) ∈ m.entries := by
        rw [hsplit]
        exact List.mem_append_right pre List.mem_cons_self
      rw [value_unique hw h]
    | none =>
      have hne := List.lookup_eq_none_iff.mp hget (k, v) h
      simp at hne

/-- Looking up finds nothing for other keys. -/
theorem get?_eq_none {m : OrderedMap κ α} {k : κ} : m.get? k = none ↔ k ∉ m.keys := by
  rw [mem_keys]
  constructor
  · rintro h ⟨v, hv⟩
    rw [get?_eq_some.mpr hv] at h
    cases h
  · intro h
    cases hget : m.get? k with
    | none => rfl
    | some v => exact absurd ⟨v, get?_eq_some.mp hget⟩ h

/-- Maps with the same entries, in whatever order, look the same up. -/
theorem get?_congr {m m' : OrderedMap κ α} (h : ∀ e, e ∈ m.entries ↔ e ∈ m'.entries) (k : κ) :
    m.get? k = m'.get? k := by
  apply Option.ext
  intro v
  rw [get?_eq_some, get?_eq_some, h]

/-- An entry behind the others, where its key has none. -/
def addNew (m : OrderedMap κ α) (k : κ) (v : α) : OrderedMap κ α :=
  if h : k ∈ m.keys then m
  else ⟨m.entries ++ [(k, v)], by
    rw [List.map_append, List.nodup_append]
    refine ⟨m.nodup, List.nodup_singleton k, ?_⟩
    rintro a ha b hb rfl
    have hk : a = k := List.mem_singleton.mp hb
    rw [hk] at ha
    exact h ha⟩

/-- A key that is there keeps its value, -/
theorem addNew_of_mem {m : OrderedMap κ α} {k : κ} (h : k ∈ m.keys) (v : α) :
    m.addNew k v = m := dif_pos h

/-- and a new one goes to the end. -/
theorem addNew_of_notMem {m : OrderedMap κ α} {k : κ} (h : k ∉ m.keys) (v : α) :
    (m.addNew k v).entries = m.entries ++ [(k, v)] := by
  rw [addNew, dif_neg h]

theorem mem_keys_addNew {m : OrderedMap κ α} {k k' : κ} {v : α} :
    k' ∈ (m.addNew k v).keys ↔ k' ∈ m.keys ∨ k' = k := by
  by_cases h : k ∈ m.keys
  · rw [addNew_of_mem h]
    constructor
    · exact Or.inl
    · rintro (hk | rfl)
      · exact hk
      · exact h
  · rw [keys, addNew_of_notMem h, List.map_append, List.mem_append, List.map_singleton,
      List.mem_singleton]
    rfl

/-- The entries after adding one: those before, and the new one unless its key was there. -/
theorem mem_entries_addNew {m : OrderedMap κ α} {k k' : κ} {v v' : α} :
    (k', v') ∈ (m.addNew k v).entries ↔ (k', v') ∈ m.entries ∨ k ∉ m.keys ∧ k' = k ∧ v' = v := by
  by_cases h : k ∈ m.keys
  · simp [addNew_of_mem h, h]
  · simp [addNew_of_notMem h, h]

/-- Looking up behind an addition. -/
theorem get?_addNew {m : OrderedMap κ α} {k : κ} (h : k ∉ m.keys) (v : α) (k' : κ) :
    (m.addNew k v).get? k' = if k' = k then some v else m.get? k' := by
  apply Option.ext
  intro w
  rw [get?_eq_some, mem_entries_addNew]
  split
  · rename_i hk
    subst hk
    have hnot : (k', w) ∉ m.entries := fun hw => h (mem_keys_of_mem hw)
    simp [hnot, h, eq_comm]
  · rename_i hk
    simp [hk, get?_eq_some]

/-- The entries of a list, the first of each key. -/
def addAll (m : OrderedMap κ α) (es : List (κ × α)) : OrderedMap κ α :=
  es.foldl (fun m e => m.addNew e.1 e.2) m

theorem addAll_cons (m : OrderedMap κ α) (e : κ × α) (es : List (κ × α)) :
    m.addAll (e :: es) = (m.addNew e.1 e.2).addAll es := rfl

/-- The keys after many additions. -/
theorem mem_keys_addAll {es : List (κ × α)} {m : OrderedMap κ α} {k : κ} :
    k ∈ (m.addAll es).keys ↔ k ∈ m.keys ∨ ∃ v, (k, v) ∈ es := by
  induction es generalizing m with
  | nil => simp [addAll]
  | cons e es ih =>
    rw [addAll_cons, ih, mem_keys_addNew, or_assoc]
    constructor
    · rintro (h | rfl | ⟨v, h⟩)
      · exact .inl h
      · exact .inr ⟨e.2, List.mem_cons_self⟩
      · exact .inr ⟨v, List.mem_cons_of_mem e h⟩
    · rintro (h | ⟨v, h⟩)
      · exact .inl h
      · rcases List.mem_cons.mp h with rfl | h
        · exact .inr (.inl rfl)
        · exact .inr (.inr ⟨v, h⟩)

/-- Additions make up no entry. -/
theorem mem_of_mem_addAll {es : List (κ × α)} {m : OrderedMap κ α} {e : κ × α}
    (h : e ∈ (m.addAll es).entries) : e ∈ m.entries ∨ e ∈ es := by
  induction es generalizing m with
  | nil => exact .inl h
  | cons e' es ih =>
    rcases ih h with h | h
    · rcases mem_entries_addNew.mp h with h | ⟨-, hk, hv⟩
      · exact .inl h
      · exact .inr (List.mem_cons.mpr (.inl (Prod.ext hk hv)))
    · exact .inr (List.mem_cons_of_mem e' h)

/-- Where no key of the list has two values, its entries are all there. -/
theorem mem_addAll_of_mem {es : List (κ × α)} (hes : ∀ e ∈ es, ∀ e' ∈ es, e.1 = e'.1 → e.2 = e'.2)
    {e : κ × α} (h : e ∈ es) : e ∈ ((empty : OrderedMap κ α).addAll es).entries := by
  obtain ⟨v, hv⟩ := mem_keys.mp (mem_keys_addAll.mpr (.inr ⟨e.2, h⟩) : e.1 ∈
    ((empty : OrderedMap κ α).addAll es).keys)
  rcases mem_of_mem_addAll hv with hm | hm
  · cases hm
  · have : e.2 = v := hes e h (e.1, v) hm rfl
    rwa [← this] at hv

end OrderedMap

end Lib
