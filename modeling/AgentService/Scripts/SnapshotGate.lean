import AgentService.Lib.Split
import AgentService.Scripts.Snapshot
import Mathlib.Data.Set.Basic

/-!
# The snapshot gate is exact

A committed snapshot lets a lockfile through just when the lockfile installs what the one it was
computed from installs. The text is read back line by line: the lines of a section are the sorted
entries, and the parser returns them in that order.
-/

namespace AgentService.Dependencies
open Lib

/-- What the snapshot is about: section, name and version, integrity. -/
def triple (e : JsString × Entry) : JsString × JsString × Option JsString :=
  (sectionOfEntry e.2, nameVersion e.1 e.2, e.2.integrity)

def Lock.triples (lock : Lock) : Set (JsString × JsString × Option JsString) :=
  {t | ∃ e ∈ lock.installed, triple e = t}

/-- Every installed package has a name, a version and an integrity that are words. -/
structure Lock.Clean (lock : Lock) : Prop where
  name : ∀ e ∈ lock.installed, IsWord (installedName e.1 e.2)
  version : ∀ e ∈ lock.installed, ∃ v, e.2.version = some v ∧ IsWord v
  integrity : ∀ e ∈ lock.installed, ∃ i, e.2.integrity = some i ∧ IsWord i

/-- One name and version in one section has one integrity. -/
def OneIntegrity (es : List (JsString × Entry)) : Prop :=
  ∀ e ∈ es, ∀ e' ∈ es, (pin e).1 = (pin e').1 → (pin e).2 = (pin e').2

/-! ## Keys -/

theorem isWord_of_mem_sections {sect : JsString} (h : sect ∈ SNAPSHOT_SECTIONS) : IsWord sect := by
  rcases List.mem_pair.mp h with rfl | rfl
  · decide
  · decide

theorem sectionOfEntry_mem (entry : Entry) : sectionOfEntry entry ∈ SNAPSHOT_SECTIONS := by
  unfold sectionOfEntry SNAPSHOT_SECTIONS
  split
  · exact List.mem_cons_of_mem _ List.mem_cons_self
  · exact List.mem_cons_self

/-- A key says its section and the rest. -/
theorem sectionKey_inj {s s' nv nv' : JsString} (hs : IsWord s) (hs' : IsWord s')
    (h : s ++ js " " ++ nv = s' ++ js " " ++ nv') : s = s' ∧ nv = nv' := by
  have hcut : ∀ t r : JsString, IsWord t →
      before 0x20 (t ++ js " " ++ r) = t ∧ fromFirst 0x20 (t ++ js " " ++ r) = 0x20 :: r := by
    intro t r ht
    rw [List.append_assoc]
    exact before_unique ht.notMem_space (.inr rfl)
  have hl := hcut s nv hs
  have hr := hcut s' nv' hs'
  rw [h] at hl
  constructor
  · rw [← hl.1, hr.1]
  · have htail : (0x20 : UInt16) :: nv = 0x20 :: nv' := by rw [← hl.2, hr.2]
    exact List.tail_eq_of_cons_eq htail

theorem pin_triple {e e' : JsString × Entry} (h : triple e = triple e') : pin e = pin e' := by
  have hsect : sectionOfEntry e.2 = sectionOfEntry e'.2 := congrArg Prod.fst h
  have hname : nameVersion e.1 e.2 = nameVersion e'.1 e'.2 := congrArg (fun t => t.2.1) h
  have hint : e.2.integrity = e'.2.integrity := congrArg (fun t => t.2.2) h
  unfold pin snapshotKey integrityText
  rw [hsect, hname, hint]

/-- Next to an integrity that is a word, the snapshot says the whole triple. -/
theorem triple_of_pin {e e' : JsString × Entry} (h : pin e = pin e')
    (hword : ∃ i, e'.2.integrity = some i ∧ IsWord i) : triple e = triple e' := by
  obtain ⟨i, hi, hword⟩ := hword
  have hkey : snapshotKey e.1 e.2 = snapshotKey e'.1 e'.2 := congrArg Prod.fst h
  have hint : integrityText e.2 = integrityText e'.2 := congrArg Prod.snd h
  obtain ⟨hsect, hname⟩ := sectionKey_inj (isWord_of_mem_sections (sectionOfEntry_mem e.2))
    (isWord_of_mem_sections (sectionOfEntry_mem e'.2)) hkey
  have hsome : e.2.integrity = some i := by
    unfold integrityText at hint
    rw [hi, Option.getD_some] at hint
    cases hcase : e.2.integrity with
    | some j =>
      rw [hcase, Option.getD_some] at hint
      rw [hint]
    | none =>
      rw [hcase, Option.getD_none] at hint
      rw [← hint] at hword
      exact absurd hword (by decide)
  unfold triple
  rw [hsect, hname, hsome, hi]

/-! ## Conflicts -/

theorem oneIntegrity_cons {e : JsString × Entry} {es : List (JsString × Entry)} :
    OneIntegrity (e :: es) ↔ (∀ d ∈ es, (pin d).1 = (pin e).1 → (pin e).2 = (pin d).2) ∧
      OneIntegrity es := by
  constructor
  · intro h
    constructor
    · intro d hd hkey
      exact h e List.mem_cons_self d (List.mem_cons_of_mem e hd) hkey.symm
    · intro d hd d' hd'
      exact h d (List.mem_cons_of_mem e hd) d' (List.mem_cons_of_mem e hd')
  · rintro ⟨hhead, hone⟩ d hd d' hd' hkey
    rcases List.mem_cons.mp hd with rfl | hin
    · rcases List.mem_cons.mp hd' with rfl | hin'
      · rfl
      · exact hhead d' hin' hkey.symm
    · rcases List.mem_cons.mp hd' with rfl | hin'
      · exact (hhead d hin hkey).symm
      · exact hone d hin d' hin' hkey

theorem conflictsFrom_eq_nil {es : List (JsString × Entry)} {seen : OrderedMap JsString First} :
    conflictsFrom seen es = [] ↔
      (∀ e ∈ es, ∀ first, seen.get? (pin e).1 = some first → first.integrity = (pin e).2) ∧
        OneIntegrity es := by
  induction es generalizing seen with
  | nil => simp [conflictsFrom, OneIntegrity]
  | cons e es ih =>
    rw [oneIntegrity_cons, List.forall_mem_cons]
    cases hseen : seen.get? (pin e).1 with
    | none =>
      have hstep : conflictsFrom seen (e :: es) = conflictsFrom (seen.addNew (pin e).1 ⟨e.1,
          (pin e).2⟩) es := by
        unfold pin at hseen ⊢
        rw [conflictsFrom, hseen]
      have hget :=
        OrderedMap.get?_addNew (OrderedMap.get?_eq_none.mp hseen) (⟨e.1, (pin e).2⟩ : First)
      rw [hstep, ih]
      constructor
      · rintro ⟨hfirst, hone⟩
        refine ⟨⟨fun first h => (Option.some_ne_none first h.symm).elim, ?_⟩, ?_, hone⟩
        · intro d hd first h
          apply hfirst d hd first
          rw [hget, if_neg, h]
          intro hkey
          rw [hkey, hseen] at h
          cases h
        · intro d hd hkey
          exact hfirst d hd ⟨e.1, (pin e).2⟩ (by rw [hget, if_pos hkey])
      · rintro ⟨⟨-, hfirst⟩, hhead, hone⟩
        refine ⟨?_, hone⟩
        intro d hd first h
        rw [hget] at h
        split at h
        · rename_i hkey
          cases h
          exact hhead d hd hkey
        · exact hfirst d hd first h
    | some first =>
      have hstep : conflictsFrom seen (e :: es) = [] ↔ first.integrity = (pin e).2 ∧
          conflictsFrom seen es = [] := by
        unfold pin at hseen
        rw [conflictsFrom, hseen]
        dsimp only
        split
        · rename_i hne
          exact iff_of_false (List.cons_ne_nil _ _) fun h => hne h.1
        · rename_i heq
          exact ⟨fun h => ⟨not_not.mp heq, h⟩, And.right⟩
      rw [hstep, ih]
      constructor
      · rintro ⟨heq, hfirst, hone⟩
        refine ⟨⟨fun f hf => Option.some.inj hf ▸ heq, hfirst⟩, ?_, hone⟩
        intro d hd hkey
        rw [← heq]
        exact hfirst d hd first (by rw [hkey, hseen])
      · rintro ⟨⟨heq, hfirst⟩, -, hone⟩
        exact ⟨heq first rfl, hfirst, hone⟩

theorem snapshotConflicts_eq_nil {lock : Lock} :
    snapshotConflicts lock = [] ↔ OneIntegrity lock.installed := by
  rw [snapshotConflicts, conflictsFrom_eq_nil]
  constructor
  · exact And.right
  · intro h
    refine ⟨?_, h⟩
    intro e _ first hfirst
    cases hfirst

/-! ## The entries of the snapshot -/

theorem pin_of_mem_computeSnapshot {lock : Lock} {p : JsString × JsString}
    (h : p ∈ (computeSnapshot lock).entries) : ∃ e ∈ lock.installed, pin e = p := by
  rcases OrderedMap.mem_of_mem_addAll h with h | h
  · cases h
  · exact List.mem_map.mp h

/-- Without conflicts the snapshot holds what every entry brings. -/
theorem mem_computeSnapshot {lock : Lock} (hone : OneIntegrity lock.installed)
    {p : JsString × JsString} :
    p ∈ (computeSnapshot lock).entries ↔ ∃ e ∈ lock.installed, pin e = p := by
  constructor
  · exact pin_of_mem_computeSnapshot
  · rintro ⟨e, he, rfl⟩
    apply OrderedMap.mem_addAll_of_mem
    · intro p hp p' hp' hkey
      obtain ⟨d, hd, rfl⟩ := List.mem_map.mp hp
      obtain ⟨d', hd', rfl⟩ := List.mem_map.mp hp'
      exact hone d hd d' hd' hkey
    · exact List.mem_map_of_mem he

/-! ## Reading the text back -/

/-- The line of an entry. -/
def line (p : JsString × JsString) : JsString := p.1 ++ js " " ++ p.2

/-- An entry the text can say: three words. -/
structure Readable (p : JsString × JsString) : Prop where
  key : ∃ sect ∈ SNAPSHOT_SECTIONS, ∃ rest, IsWord rest ∧ p.1 = sect ++ js " " ++ rest
  integrity : IsWord p.2

theorem pin_readable {lock : Lock} (hclean : lock.Clean) {e : JsString × Entry}
    (he : e ∈ lock.installed) : Readable (pin e) := by
  obtain ⟨v, hv, hvword⟩ := hclean.version e he
  obtain ⟨i, hi, hiword⟩ := hclean.integrity e he
  constructor
  · refine ⟨sectionOfEntry e.2, sectionOfEntry_mem e.2, nameVersion e.1 e.2, ?_, rfl⟩
    rw [nameVersion, shown, hv, Option.getD_some, List.append_assoc]
    apply (hclean.name e he).append
    intro u hu
    rcases List.mem_append.mp hu with hu | hu
    · rw [List.mem_singleton.mp hu]
      decide
    · exact hvword.noSpace u hu
  · rw [pin, integrityText, hi]
    exact hiword

theorem space_noLineEnd : ∀ u ∈ js " ", u ≠ 0x0a ∧ u ≠ 0x0d := by
  intro u hu
  rw [List.mem_singleton.mp hu]
  decide

theorem Readable.noLineEnd {p : JsString × JsString} (h : Readable p) :
    ∀ u ∈ line p, u ≠ 0x0a ∧ u ≠ 0x0d := by
  obtain ⟨sect, hsect, rest, hrest, hkey⟩ := h.key
  intro u hu
  simp only [line, hkey, List.mem_append] at hu
  rcases hu with (((hu | hu) | hu) | hu) | hu
  · exact (isWord_of_mem_sections hsect).noLineEnd u hu
  · exact space_noLineEnd u hu
  · exact hrest.noLineEnd u hu
  · exact space_noLineEnd u hu
  · exact h.integrity.noLineEnd u hu

theorem parseLine_line {p : JsString × JsString} (h : Readable p) {out : Snapshot}
    (hnew : p.1 ∉ out.keys) : parseLine out (line p) = .ok (out.addNew p.1 p.2) := by
  obtain ⟨sect, hsect, rest, hrest, hkey⟩ := h.key
  have hword := isWord_of_mem_sections hsect
  have htext : line p = sect ++ 0x20 :: (rest ++ 0x20 :: p.2) := by
    rw [line, hkey, List.append_assoc, List.append_assoc]
    exact (List.append_assoc _ _ _).trans rfl
  have htrim : trim (line p) = line p := by
    have hend : line p = sect ++ ((js " " ++ rest ++ js " ") ++ p.2) := by
      rw [line, hkey]
      simp only [List.append_assoc]
    rw [hend]
    exact trim_between _ hword h.integrity
  have hknown : ¬ SNAPSHOT_SECTIONS.contains sect = false := by
    rw [List.contains_iff_mem.mpr hsect]
    decide
  have hskip : ¬ (line p = [] ∨ (js "#").isPrefixOf (line p) = true) := by
    rw [htext]
    rcases List.mem_pair.mp hsect with rfl | rfl
    · rintro (h | h) <;> cases h
    · rintro (h | h) <;> cases h
  rw [parseLine]
  dsimp only
  rw [htrim, if_neg hskip, htext, splitSpaces_three hword hrest h.integrity]
  dsimp only
  rw [if_neg hknown, ← hkey, if_neg fun hhas => hnew (OrderedMap.has_iff.mp hhas)]

/-- The lines of entries put the entries behind what was read before. -/
theorem foldlM_lines {ps : List (JsString × JsString)} {out : Snapshot} (h : ∀ p ∈ ps, Readable p)
    (hnodup : ((out.entries ++ ps).map Prod.fst).Nodup) :
    ∃ m, (ps.map line).foldlM parseLine out = .ok m ∧ m.entries = out.entries ++ ps := by
  induction ps generalizing out with
  | nil => exact ⟨out, rfl, (List.append_nil _).symm⟩
  | cons p ps ih =>
    have hnew : p.1 ∉ out.keys := by
      intro hmem
      rw [List.map_append, List.nodup_append] at hnodup
      exact hnodup.2.2 _ hmem _ (List.mem_map_of_mem List.mem_cons_self) rfl
    have hentries := OrderedMap.addNew_of_notMem hnew p.2
    have happend : (out.addNew p.1 p.2).entries ++ ps = out.entries ++ p :: ps := by
      rw [hentries, List.append_assoc, List.singleton_append]
    obtain ⟨m, hm, hmem⟩ := ih (fun q hq => h q (List.mem_cons_of_mem p hq)) (happend ▸ hnodup)
    refine ⟨m, ?_, hmem.trans happend⟩
    rw [List.map_cons, List.foldlM_cons, parseLine_line (h p List.mem_cons_self) hnew]
    exact hm

/-- A comment or an empty line changes nothing. -/
theorem foldlM_skipped {ls : List JsString}
    (h : ∀ l ∈ ls, trim l = [] ∨ (js "#").isPrefixOf (trim l) = true) (out : Snapshot) :
    ls.foldlM parseLine out = .ok out := by
  induction ls with
  | nil => rfl
  | cons l ls ih =>
    have hl : parseLine out l = .ok out := by
      rw [parseLine]
      exact if_pos (h l List.mem_cons_self)
    rw [List.foldlM_cons, hl]
    exact ih fun l' hl' => h l' (List.mem_cons_of_mem l hl')

/-- The lines of the header are comments of one line. -/
theorem header_line : ∀ l ∈ HEADER_LINES, (js "#").isPrefixOf (trim l) = true ∧ ∀ u ∈ l, u ≠ 0x0a ∧
    u ≠ 0x0d := by
  have h : HEADER_LINES.all (fun l => (js "#").isPrefixOf (trim l) && l.all fun u => u != 0x0a &&
      u != 0x0d) = true := by
    decide +kernel
  intro l hl
  have hline := Bool.and_eq_true_iff.mp (List.all_eq_true.mp h l hl)
  refine ⟨hline.1, ?_⟩
  intro u hu
  simpa using List.all_eq_true.mp hline.2 u hu

/-! ## Rendering and parsing -/

/-- The entries of a section in the order of their lines. -/
def sectionEntries (snapshot : Snapshot) (sect : JsString) : List (JsString × JsString) :=
  (snapshot.entries.filter fun p => (sect ++ js " ").isPrefixOf p.1).insertionSort (fun p q =>
    line p ≤ line q)

theorem sectionLines_eq (snapshot : Snapshot) (sect : JsString) :
    sectionLines snapshot sect = (sectionEntries snapshot sect).map line := by
  unfold sectionLines sectionEntries
  exact (List.map_insertionSort _ _ line _ fun _ _ _ _ => Iff.rfl).symm

theorem isPrefixOf_key {sect sect' rest : JsString} (h : sect ∈ SNAPSHOT_SECTIONS)
    (h' : sect' ∈ SNAPSHOT_SECTIONS) :
    (sect ++ js " ").isPrefixOf (sect' ++ js " " ++ rest) = decide (sect' = sect) := by
  by_cases heq : sect' = sect
  · rw [decide_eq_true heq, heq, List.isPrefixOf_iff_prefix]
    exact List.prefix_append _ _
  · rw [decide_eq_false heq, Bool.eq_false_iff]
    intro hpre
    obtain ⟨t, ht⟩ := List.isPrefixOf_iff_prefix.mp hpre
    exact heq (sectionKey_inj (isWord_of_mem_sections h) (isWord_of_mem_sections h') ht).1.symm

open scoped List in
/-- Every entry is in one of the sections. -/
theorem sections_perm {snapshot : Snapshot} (h : ∀ p ∈ snapshot.entries, Readable p) :
    SNAPSHOT_SECTIONS.flatMap (sectionEntries snapshot) ~ snapshot.entries := by
  have hrest : (snapshot.entries.filter fun p => (js "dev" ++ js " ").isPrefixOf p.1) =
      snapshot.entries.filter fun p => !(js "runtime" ++ js " ").isPrefixOf p.1 := by
    apply List.filter_congr
    intro p hp
    obtain ⟨sect, hsect, rest, -, hkey⟩ := (h p hp).key
    rw [hkey, isPrefixOf_key (List.mem_cons_of_mem _ List.mem_cons_self) hsect,
      isPrefixOf_key List.mem_cons_self hsect]
    rcases List.mem_pair.mp hsect with rfl | rfl
    · rfl
    · rfl
  have hflat : SNAPSHOT_SECTIONS.flatMap (sectionEntries snapshot) =
      sectionEntries snapshot (js "runtime") ++ sectionEntries snapshot (js "dev") := by
    simp [SNAPSHOT_SECTIONS]
  rw [hflat]
  calc sectionEntries snapshot (js "runtime") ++ sectionEntries snapshot (js "dev")
    _ ~ (snapshot.entries.filter fun p => (js "runtime" ++ js " ").isPrefixOf p.1) ++
        snapshot.entries.filter fun p => (js "dev" ++ js " ").isPrefixOf p.1 :=
      (List.perm_insertionSort _ _).append (List.perm_insertionSort _ _)
    _ ~ snapshot.entries := by
      rw [hrest]
      exact List.filter_append_perm _ _

/-- `parseSnapshot` undoes `renderSnapshot`, but for the order of the entries. -/
theorem parseSnapshot_renderSnapshot {snapshot : Snapshot}
    (h : ∀ p ∈ snapshot.entries, Readable p) :
    ∃ m, parseSnapshot (renderSnapshot snapshot) = .ok m ∧ m.entries.Perm snapshot.entries := by
  have hperm := sections_perm h
  have hlines : SNAPSHOT_SECTIONS.flatMap (sectionLines snapshot) =
      (SNAPSHOT_SECTIONS.flatMap (sectionEntries snapshot)).map line := by
    rw [List.map_flatMap]
    exact congrArg (SNAPSHOT_SECTIONS.flatMap ·) (funext (sectionLines_eq snapshot))
  have hread : ∀ p ∈ SNAPSHOT_SECTIONS.flatMap (sectionEntries snapshot), Readable p := fun p hp =>
    h p (hperm.mem_iff.mp hp)
  have hcut : splitLines (renderSnapshot snapshot) =
      HEADER_LINES ++ ((SNAPSHOT_SECTIONS.flatMap (sectionEntries snapshot)).map line ++ [[]]) := by
    unfold renderSnapshot SNAPSHOT_HEADER unlines
    rw [splitLines_flatMap fun l hl => (header_line l hl).2, hlines,
      ← List.append_nil (List.flatMap _ (List.map _ _)), splitLines_flatMap]
    · rfl
    · intro l hl
      obtain ⟨p, hp, rfl⟩ := List.mem_map.mp hl
      exact (hread p hp).noLineEnd
  obtain ⟨m, hm, hentries⟩ := @foldlM_lines _ OrderedMap.empty hread
    ((hperm.map Prod.fst).nodup_iff.mpr snapshot.nodup)
  refine ⟨m, ?_, ?_⟩
  · rw [parseSnapshot, hcut, List.foldlM_append, foldlM_skipped fun l hl =>
      .inr (header_line l hl).1]
    dsimp only [ok_bind]
    rw [List.foldlM_append, hm, ok_bind]
    rfl
  · rw [hentries]
    exact hperm

/-- The order of the entries does not show in the text. -/
theorem renderSnapshot_perm {m m' : Snapshot} (h : m.entries.Perm m'.entries) :
    renderSnapshot m = renderSnapshot m' := by
  have hlines : sectionLines m = sectionLines m' := by
    funext sect
    refine @List.Perm.eq_of_pairwise _ (· ≤ ·) _ _ (fun a b _ _ =>
      antisymm) (List.pairwise_insertionSort _ _)
      (List.pairwise_insertionSort _ _) ?_
    exact ((List.perm_insertionSort _ _).trans ((h.filter _).map _)).trans
      (List.perm_insertionSort _ _).symm
  rw [renderSnapshot, hlines, renderSnapshot]

/-! ## The gate -/

theorem gainedProblem_eq_none {committed : Snapshot} {e : JsString × JsString} :
    gainedProblem committed e = none ↔ e ∈ committed.entries := by
  rw [← OrderedMap.get?_eq_some, gainedProblem]
  cases committed.get? e.1 with
  | none => exact iff_of_false (Option.some_ne_none _) nofun
  | some integrity =>
    dsimp only
    split
    · rename_i hne
      exact iff_of_false (Option.some_ne_none _) fun h => hne (Option.some.inj h)
    · rename_i heq
      exact iff_of_true rfl (congrArg some (not_not.mp heq))

theorem lostProblem_eq_none {actual : Snapshot} {key : JsString} :
    lostProblem actual key = none ↔ key ∈ actual.keys := by
  rw [← OrderedMap.has_iff, lostProblem]
  split
  · rename_i h
    exact iff_of_true rfl h
  · rename_i h
    exact iff_of_false (Option.some_ne_none _) h

/-- Nothing is reported when the committed snapshot is the lockfile's. -/
theorem snapshotProblems_eq_nil {lock : Lock} {text : JsString} {committed : Snapshot}
    (h : parseSnapshot text = .ok committed) :
    snapshotProblems lock text = [] ↔ ∀ p, p ∈ (computeSnapshot lock).entries ↔
      p ∈ committed.entries := by
  rw [snapshotProblems, h]
  dsimp only
  rw [List.append_eq_nil_iff, List.filterMap_eq_nil_iff, List.filterMap_eq_nil_iff]
  simp only [gainedProblem_eq_none, lostProblem_eq_none]
  constructor
  · rintro ⟨hgained, hlost⟩ p
    constructor
    · exact hgained p
    · intro hp
      obtain ⟨v, hv⟩ := OrderedMap.mem_keys.mp (hlost p.1 (OrderedMap.mem_keys_of_mem hp))
      have hvalue : v = p.2 := OrderedMap.value_unique (hgained _ hv) hp
      rwa [hvalue] at hv
  · intro hsame
    constructor
    · exact fun p hp => (hsame p).mp hp
    · intro key hkey
      obtain ⟨v, hv⟩ := OrderedMap.mem_keys.mp hkey
      exact OrderedMap.mem_keys_of_mem ((hsame _).mpr hv)

/-- Two lockfiles without conflicts bring the same to the snapshot when their
snapshots are the same. -/
theorem computeSnapshot_same_iff {lock lock' : Lock} (h : OneIntegrity lock.installed)
    (h' : OneIntegrity lock'.installed) :
    (∀ p, p ∈ (computeSnapshot lock).entries ↔ p ∈ (computeSnapshot lock').entries) ↔
      ∀ p, (∃ e ∈ lock.installed, pin e = p) ↔ ∃ e ∈ lock'.installed, pin e = p := by
  simp only [mem_computeSnapshot h, mem_computeSnapshot h']

/-- Next to a clean lockfile, what is brought to the snapshot is what is installed. -/
theorem triples_eq_iff {lock lock₀ : Lock} (hclean : lock₀.Clean) :
    lock.triples = lock₀.triples ↔ ∀ p, (∃ e ∈ lock.installed, pin e = p) ↔ ∃ e ∈ lock₀.installed,
      pin e = p := by
  constructor
  · intro h p
    have hiff : ∀ t, (∃ e ∈ lock.installed, triple e = t) ↔ ∃ e ∈ lock₀.installed, triple e = t :=
      Set.ext_iff.mp h
    constructor
    · rintro ⟨e, he, rfl⟩
      obtain ⟨d, hd, htriple⟩ := (hiff (triple e)).mp ⟨e, he, rfl⟩
      exact ⟨d, hd, pin_triple htriple⟩
    · rintro ⟨e, he, rfl⟩
      obtain ⟨d, hd, htriple⟩ := (hiff (triple e)).mpr ⟨e, he, rfl⟩
      exact ⟨d, hd, pin_triple htriple⟩
  · intro h
    apply Set.ext
    intro t
    constructor
    · rintro ⟨e, he, rfl⟩
      obtain ⟨d, hd, hpin⟩ := (h (pin e)).mp ⟨e, he, rfl⟩
      exact ⟨d, hd, (triple_of_pin hpin.symm (hclean.integrity d hd)).symm⟩
    · rintro ⟨e, he, rfl⟩
      obtain ⟨d, hd, hpin⟩ := (h (pin e)).mpr ⟨e, he, rfl⟩
      exact ⟨d, hd, triple_of_pin hpin (hclean.integrity e he)⟩

/-- A lockfile that brings to the snapshot what one without conflicts brings has none. -/
theorem oneIntegrity_of_same {lock lock₀ : Lock} (hone : OneIntegrity lock₀.installed)
    (h : ∀ p, (∃ e ∈ lock.installed, pin e = p) → ∃ e ∈ lock₀.installed, pin e = p) :
    OneIntegrity lock.installed := by
  intro e he e' he' hkey
  obtain ⟨d, hd, hpin⟩ := h (pin e) ⟨e, he, rfl⟩
  obtain ⟨d', hd', hpin'⟩ := h (pin e') ⟨e', he', rfl⟩
  rw [← hpin, ← hpin'] at hkey ⊢
  exact hone d hd d' hd' hkey

/-- The gate passes a lockfile just when it installs what the snapshot's lockfile installs, and the
text of the snapshot stays as it is. -/
theorem snapshot_exact (lock₀ : Lock) (hconflicts : snapshotConflicts lock₀ = [])
    (hclean : lock₀.Clean) :
    (∀ lock : Lock, snapshotProblems lock (renderSnapshot (computeSnapshot lock₀)) = [] ∧
        snapshotConflicts lock = [] ↔
      lock.triples = lock₀.triples) ∧
    ∃ m, parseSnapshot (renderSnapshot (computeSnapshot lock₀)) = .ok m ∧
      (∀ key, m.get? key = (computeSnapshot lock₀).get? key) ∧
      renderSnapshot m = renderSnapshot (computeSnapshot lock₀) := by
  have hone := snapshotConflicts_eq_nil.mp hconflicts
  have hread : ∀ p ∈ (computeSnapshot lock₀).entries, Readable p := by
    intro p hp
    obtain ⟨e, he, rfl⟩ := pin_of_mem_computeSnapshot hp
    exact pin_readable hclean he
  obtain ⟨m, hm, hperm⟩ := parseSnapshot_renderSnapshot hread
  constructor
  · intro lock
    rw [snapshotProblems_eq_nil hm, snapshotConflicts_eq_nil, triples_eq_iff hclean]
    simp only [hperm.mem_iff]
    constructor
    · rintro ⟨hsame, hlock⟩
      exact (computeSnapshot_same_iff hlock hone).mp hsame
    · intro hsame
      have hlock := oneIntegrity_of_same hone fun p => (hsame p).mp
      exact ⟨(computeSnapshot_same_iff hlock hone).mpr hsame, hlock⟩
  · exact ⟨m, hm, OrderedMap.get?_congr fun _ => hperm.mem_iff, renderSnapshot_perm hperm⟩

/-- One package at two lock paths, and one that is only for development. -/
def twoCopies : Lock where
  lockfileVersion := some 3
  packages := some ⟨[
    ([], { dependencies := some ⟨[(js "ms", js "2.1.3")], by decide⟩ }),
    (js "node_modules/ms", { version := some (js "2.1.3"), integrity := some (js "sha512-Aa=") }),
    (js "node_modules/debug/node_modules/ms",
      { version := some (js "2.1.3"), integrity := some (js "sha512-Aa=") }),
    (js "node_modules/debug",
      { version := some (js "4.4.3"), integrity := some (js "sha512-Bb="), dev := true })],
    by decide⟩

theorem twoCopies_clean : twoCopies.Clean := by
  have h : twoCopies.installed.all (fun e => decide (IsWord (installedName e.1 e.2)) &&
      e.2.version.any (fun v => decide (IsWord v)) && e.2.integrity.any fun i =>
        decide (IsWord i)) = true := by
    decide +kernel
  have hsome : ∀ o : Option JsString, o.any (fun v => decide (IsWord v)) = true → ∃ v, o = some v ∧
      IsWord v := by
    intro o ho
    cases o with
    | none => cases ho
    | some v => exact ⟨v, rfl, of_decide_eq_true ho⟩
  have hall : ∀ e ∈ twoCopies.installed, _ := List.all_eq_true.mp h
  simp only [Bool.and_eq_true] at hall
  exact ⟨fun e he => of_decide_eq_true (hall e he).1.1, fun e he => hsome _ (hall e he).1.2,
    fun e he => hsome _ (hall e he).2⟩

theorem snapshot_exact_twoCopies :
    snapshotConflicts twoCopies = [] ∧ twoCopies.Clean ∧
      (∀ lock : Lock, snapshotProblems lock (renderSnapshot (computeSnapshot twoCopies)) = [] ∧
        snapshotConflicts lock = [] ↔ lock.triples = twoCopies.triples) ∧
      ∃ m, parseSnapshot (renderSnapshot (computeSnapshot twoCopies)) = .ok m ∧
        (∀ key, m.get? key = (computeSnapshot twoCopies).get? key) ∧
        renderSnapshot m = renderSnapshot (computeSnapshot twoCopies) :=
  ⟨rfl, twoCopies_clean, snapshot_exact twoCopies rfl twoCopies_clean⟩

end AgentService.Dependencies
