import Mathlib.Data.List.Basic
import Mathlib.Data.List.TakeWhile

/-!
# Cutting a list at a separator

Additions to core's `List.splitOn` and `List.intercalate`: what a prefix without the
separator does, and the pieces a text is cut into before and after its first separator.
-/

namespace Lib

variable {α : Type} [BEq α] [LawfulBEq α] {sep : α}

theorem splitOn_append_of_notMem {as : List α} (h : sep ∉ as) (bs : List α) :
    (as ++ bs).splitOn sep = (bs.splitOn sep).modifyHead (as ++ ·) := by
  induction as with
  | nil =>
    rw [List.nil_append]
    obtain ⟨x, xs, hx⟩ := List.exists_cons_of_ne_nil (List.splitOn_ne_nil sep bs)
    simp [hx]
  | cons a as ih =>
    rw [List.mem_cons, not_or] at h
    rw [List.cons_append, List.splitOn_cons_eq_if_modifyHead, if_neg (by simpa using Ne.symm h.1),
      ih h.2, List.modifyHead_modifyHead]
    rfl

/-- No piece of a list that was cut holds the separator. -/
theorem notMem_of_mem_splitOn {xs s : List α} (h : s ∈ xs.splitOn sep) : sep ∉ s := by
  induction xs generalizing s with
  | nil => simp at h; simp [h]
  | cons x xs ih =>
    rw [List.splitOn_cons_eq_if_modifyHead] at h
    split at h
    · rcases List.mem_cons.mp h with rfl | h
      · simp
      · exact ih h
    · rename_i hne
      obtain ⟨y, ys, hy⟩ := List.exists_cons_of_ne_nil (List.splitOn_ne_nil sep xs)
      rw [hy, List.modifyHead_cons] at h
      rcases List.mem_cons.mp h with rfl | h
      · rw [List.mem_cons, not_or]
        exact ⟨fun he => hne (by simp [he]), ih (by rw [hy]; simp)⟩
      · exact ih (by rw [hy]; exact List.mem_cons_of_mem _ h)

theorem splitOn_self (bs : List α) : (sep :: bs).splitOn sep = [] :: bs.splitOn sep := by
  simp [List.splitOn_cons_eq_if_modifyHead]

/-- Cutting commutes with a map that sends the separator, and nothing else, to the separator. -/
theorem splitOn_map {β : Type} [BEq β] [LawfulBEq β] {f : α → β} (hf : Function.Injective f)
    (xs : List α) : (xs.map f).splitOn (f sep) = (xs.splitOn sep).map (List.map f) := by
  induction xs with
  | nil => simp
  | cons x xs ih =>
    rw [List.map_cons, List.splitOn_cons_eq_if_modifyHead, List.splitOn_cons_eq_if_modifyHead, ih]
    by_cases hx : x = sep
    · simp [hx]
    · have hne : f x ≠ f sep := fun he => hx (hf he)
      obtain ⟨y, ys, hy⟩ := List.exists_cons_of_ne_nil (List.splitOn_ne_nil sep xs)
      simp [hx, hne, hy]

/-- Cutting commutes with a reading that keeps separators and never makes one. -/
theorem splitOn_of_distributes {β : Type} [BEq β] [LawfulBEq β] {sep' : β}
    {f : List α → List β} (hcut : ∀ as bs, f (as ++ sep :: bs) = f as ++ sep' :: f bs)
    (hkeep : ∀ as, sep ∉ as → sep' ∉ f as) (xs : List α) :
    (f xs).splitOn sep' = (xs.splitOn sep).map f := by
  induction h : xs.splitOn sep generalizing xs with
  | nil => exact absurd h (List.splitOn_ne_nil sep xs)
  | cons s ss ih =>
    have hs : sep ∉ s := notMem_of_mem_splitOn (by rw [h]; simp)
    have hxs : [sep].intercalate (s :: ss) = xs := by rw [← h, List.intercalate_splitOn]
    cases ss with
    | nil =>
      rw [List.intercalate_singleton] at hxs
      subst hxs
      rw [List.splitOn_eq_singleton (hkeep s hs)]
      rfl
    | cons t ts =>
      rw [List.intercalate_cons_cons, List.append_assoc, List.singleton_append] at hxs
      have ht : ([sep].intercalate (t :: ts)).splitOn sep = t :: ts := by
        have h' := h
        rw [← hxs, List.splitOn_append_cons_self_of_not_mem hs] at h'
        exact (List.cons.inj h').2
      rw [← hxs, hcut, List.splitOn_append_cons_self_of_not_mem (hkeep s hs), ih _ ht]
      rfl

omit [LawfulBEq α] in
/-- What a piece holds, the list holds. -/
theorem mem_of_mem_splitOn {xs s : List α} {x : α} (hs : s ∈ xs.splitOn sep) (hx : x ∈ s) :
    x ∈ xs := by
  induction xs generalizing s with
  | nil => simp at hs; simp [hs] at hx
  | cons y ys ih =>
    rw [List.splitOn_cons_eq_if_modifyHead] at hs
    split at hs
    · rcases List.mem_cons.mp hs with rfl | hs
      · simp at hx
      · exact List.mem_cons_of_mem _ (ih hs hx)
    · obtain ⟨z, zs, hz⟩ := List.exists_cons_of_ne_nil (List.splitOn_ne_nil sep ys)
      rw [hz, List.modifyHead_cons] at hs
      rcases List.mem_cons.mp hs with rfl | hs
      · rcases List.mem_cons.mp hx with rfl | hx
        · simp
        · exact List.mem_cons_of_mem _ (ih (by rw [hz]; simp) hx)
      · exact List.mem_cons_of_mem _ (ih (by rw [hz]; exact List.mem_cons_of_mem _ hs) hx)

omit [BEq α] [LawfulBEq α] in
/-- What joined pieces hold: the separator, or what a piece holds. -/
theorem mem_intercalate {ss : List (List α)} {x : α} (h : x ∈ [sep].intercalate ss) :
    x = sep ∨ ∃ s ∈ ss, x ∈ s := by
  induction ss with
  | nil => simp at h
  | cons s ss ih =>
    cases ss with
    | nil => exact .inr ⟨s, by simp, by simpa using h⟩
    | cons t ts =>
      rw [List.intercalate_cons_cons, List.append_assoc] at h
      rcases List.mem_append.mp h with h | h
      · exact .inr ⟨s, by simp, h⟩
      rcases List.mem_append.mp h with h | h
      · exact .inl (List.mem_singleton.mp h)
      · rcases ih h with h | ⟨y, hy, h⟩
        · exact .inl h
        · exact .inr ⟨y, List.mem_cons_of_mem _ hy, h⟩

/-- The index of the last occurrence of an element. -/
def lastIndexOf (a : α) : List α → Option Nat
  | [] => none
  | x :: xs =>
    match lastIndexOf a xs with
    | some i => some (i + 1)
    | none => if x == a then some 0 else none

theorem lastIndexOf_of_notMem {a : α} {xs : List α} (h : a ∉ xs) : lastIndexOf a xs = none := by
  induction xs with
  | nil => rfl
  | cons x xs ih =>
    rw [List.mem_cons, not_or] at h
    simp [lastIndexOf, ih h.2, Ne.symm h.1]

theorem lastIndexOf_append_cons {a : α} {post : List α} (h : a ∉ post) (pre : List α) :
    lastIndexOf a (pre ++ a :: post) = some pre.length := by
  induction pre with
  | nil => simp [lastIndexOf, lastIndexOf_of_notMem h]
  | cons x pre ih => simp [lastIndexOf, ih]

omit [BEq α] [LawfulBEq α] in
/-- A list is cut in two by the last occurrence of its member. -/
theorem exists_append_cons_of_mem {a : α} {xs : List α} (h : a ∈ xs) :
    ∃ pre post, xs = pre ++ a :: post ∧ a ∉ post := by
  obtain ⟨post, pre, hxs, hpost⟩ := List.eq_append_cons_of_mem (List.mem_reverse.mpr h)
  refine ⟨pre.reverse, post.reverse, ?_, by simpa using hpost⟩
  simpa using congrArg List.reverse hxs

/-- Either a list holds an element nowhere, or its last occurrence cuts the list in two. -/
theorem lastIndexOf_cases (a : α) (xs : List α) : (a ∉ xs ∧ lastIndexOf a xs = none) ∨
    ∃ pre post, xs = pre ++ a :: post ∧ a ∉ post ∧ lastIndexOf a xs = some pre.length := by
  by_cases h : a ∈ xs
  · obtain ⟨pre, post, rfl, hpost⟩ := exists_append_cons_of_mem h
    exact .inr ⟨pre, post, rfl, hpost, lastIndexOf_append_cons hpost pre⟩
  · exact .inl ⟨h, lastIndexOf_of_notMem h⟩

/-- The pieces of a list, when its last separator is known. -/
theorem splitOn_last {post : List α} (h : sep ∉ post) (pre : List α) :
    (pre ++ sep :: post).splitOn sep = pre.splitOn sep ++ [post] := by
  rw [List.splitOn_append_cons_self, List.splitOn_eq_singleton h]

/-- Pieces put behind a list, each after a separator, are its further pieces. -/
theorem splitOn_append_flatMap {ss : List (List α)} (h : ∀ s ∈ ss, sep ∉ s) (xs : List α) :
    (xs ++ ss.flatMap (sep :: ·)).splitOn sep = xs.splitOn sep ++ ss := by
  induction ss generalizing xs with
  | nil => simp
  | cons s ss ih =>
    rw [List.flatMap_cons, ← List.append_assoc, ih (fun t ht => h t (List.mem_cons_of_mem _ ht)),
      splitOn_last (h s List.mem_cons_self), List.append_assoc, List.singleton_append]

/-- The pieces with a separator in front of each are the list with one in front. -/
theorem flatMap_splitOn (xs : List α) : (xs.splitOn sep).flatMap (sep :: ·) = sep :: xs := by
  induction xs with
  | nil => simp
  | cons x xs ih =>
    by_cases hx : x = sep
    · rw [hx, splitOn_self, List.flatMap_cons, ih]
      rfl
    · have hsplit : (x :: xs).splitOn sep = (xs.splitOn sep).modifyHead (x :: ·) := by
        simp [List.splitOn_cons_eq_if_modifyHead, hx]
      cases hs : xs.splitOn sep with
      | nil => simp [hs] at ih
      | cons s ss =>
        rw [hs] at ih hsplit
        rw [hsplit]
        simpa using ih

/-! ## Before and after the first separator -/

/-- The text before the first separator: `s.slice(0, s.indexOf(sep))`, or all of it. -/
def before (sep : α) (xs : List α) : List α := xs.takeWhile (· != sep)

/-- The text from the first separator on: `s.slice(s.indexOf(sep))`, or nothing. -/
def fromFirst (sep : α) (xs : List α) : List α := xs.dropWhile (· != sep)

omit [LawfulBEq α] in
theorem before_append_fromFirst (sep : α) (xs : List α) : before sep xs ++ fromFirst sep xs = xs :=
  List.takeWhile_append_dropWhile

theorem notMem_before (sep : α) (xs : List α) : sep ∉ before sep xs := by
  intro h
  simpa using List.mem_takeWhile_imp h

theorem fromFirst_eq (sep : α) (xs : List α) :
    fromFirst sep xs = [] ∨ ∃ post, fromFirst sep xs = sep :: post := by
  induction xs with
  | nil => exact .inl rfl
  | cons x xs ih =>
    by_cases h : x = sep
    · exact .inr ⟨xs, by simp [fromFirst, h]⟩
    · simpa [fromFirst, h] using ih

theorem before_of_notMem {xs : List α} (h : sep ∉ xs) : before sep xs = xs := by
  refine List.takeWhile_eq_self_iff.mpr fun x hx => ?_
  have : x ≠ sep := fun he => h (he ▸ hx)
  simpa using this

theorem fromFirst_of_notMem {xs : List α} (h : sep ∉ xs) : fromFirst sep xs = [] := by
  refine List.dropWhile_eq_nil_iff.mpr fun x hx => ?_
  have : x ≠ sep := fun he => h (he ▸ hx)
  simpa using this

theorem before_append {xs : List α} (h : sep ∉ xs) (ys : List α) :
    before sep (xs ++ ys) = xs ++ before sep ys :=
  List.takeWhile_append_of_pos fun x hx => by
    have : x ≠ sep := fun he => h (he ▸ hx)
    simpa using this

theorem fromFirst_append {xs : List α} (h : sep ∉ xs) (ys : List α) :
    fromFirst sep (xs ++ ys) = fromFirst sep ys :=
  List.dropWhile_append_of_pos fun x hx => by
    have : x ≠ sep := fun he => h (he ▸ hx)
    simpa using this

@[simp] theorem before_fromFirst (sep : α) (xs : List α) : before sep (fromFirst sep xs) = [] := by
  rcases fromFirst_eq sep xs with h | ⟨post, h⟩ <;> simp [h, before]

@[simp] theorem fromFirst_fromFirst (sep : α) (xs : List α) :
    fromFirst sep (fromFirst sep xs) = fromFirst sep xs := by
  rcases fromFirst_eq sep xs with h | ⟨post, h⟩ <;> rw [h] <;> simp [fromFirst]

/-- What stands behind a list with a separator changes neither part. -/
theorem before_append_of_mem {xs : List α} (h : sep ∈ xs) (ys : List α) :
    before sep (xs ++ ys) = before sep xs ∧ fromFirst sep (xs ++ ys) = fromFirst sep xs ++ ys := by
  induction xs with
  | nil => cases h
  | cons x xs ih =>
    by_cases hx : x = sep
    · simp [before, fromFirst, hx]
    · have hmem : sep ∈ xs := (List.mem_cons.mp h).resolve_left (Ne.symm hx)
      obtain ⟨hbefore, hfrom⟩ := ih hmem
      simp only [before, fromFirst] at hbefore hfrom
      simp [before, fromFirst, hx, hbefore, hfrom]

omit [BEq α] [LawfulBEq α] in
/-- Two texts are cut apart by a test that the first passes and the second fails at once. -/
theorem takeWhile_dropWhile_append {p : α → Bool} {xs ys : List α} (hxs : ∀ x ∈ xs, p x = true)
    (hys : ∀ y, ys.head? = some y → p y = false) :
    (xs ++ ys).takeWhile p = xs ∧ (xs ++ ys).dropWhile p = ys := by
  rw [List.takeWhile_append_of_pos hxs, List.dropWhile_append_of_pos hxs]
  cases ys with
  | nil => simp
  | cons y ys => simp [hys y rfl]

/-- A text cut at its first separator is cut nowhere else. -/
theorem before_unique {xs ys : List α} (h : sep ∉ xs) (hy : ys = [] ∨ ys.head? = some sep) :
    before sep (xs ++ ys) = xs ∧ fromFirst sep (xs ++ ys) = ys := by
  apply takeWhile_dropWhile_append
  · intro x hx
    have hne : x ≠ sep := fun he => h (he ▸ hx)
    simpa using hne
  · intro y hhead
    rcases hy with rfl | hy
    · cases hhead
    · rw [hhead, Option.some_inj] at hy
      simp [hy]

end Lib
