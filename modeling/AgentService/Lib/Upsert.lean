import Mathlib.Data.List.Forall2
import Mathlib.Data.List.Induction

/-!
# Rows that are inserted or merged

What `INSERT … ON DUPLICATE KEY UPDATE` does to the rows of a table: a row that has the key of the
new one takes over some of it, and where none has, the new one is added. After any number of them
there is one row for each key, in which the first and all later ones of that key are merged in their
order.
-/

namespace Lib

variable {α : Type} (same : α → α → Bool) (merge : α → α → α)

def upsert (x : α) : List α → List α
  | [] => [x]
  | y :: ys => if same y x = true then merge y x :: ys else y :: upsert x ys

def upsertAll (rows xs : List α) : List α := xs.foldl (fun rows x => upsert same merge x rows) rows

/-- The first of some rows, with the last merged in. -/
def latest : List α → Option α
  | [] => none
  | first :: later => some (merge first (later.getLastD first))

/-- Rows are told apart by a key, and merging keeps it. -/
structure KeepsKeys : Prop where
  refl : ∀ a, same a a = true
  symm : ∀ a b, same a b = true → same b a = true
  trans : ∀ a b c, same a b = true → same b c = true → same a c = true
  merged : ∀ a b, same (merge a b) a = true

variable {same merge}

theorem upsertAll_append (rows xs ys : List α) :
    upsertAll same merge rows (xs ++ ys) = upsertAll same merge (upsertAll same merge rows xs) ys :=
      List.foldl_append

theorem upsert_append {x : α} {rows : List α} (h : ∀ y ∈ rows, same y x = false) :
    upsert same merge x rows = rows ++ [x] := by
  induction rows with
  | nil => rfl
  | cons y ys ih =>
    have hy : ¬ same y x = true := by simp [h y List.mem_cons_self]
    rw [upsert, if_neg hy, ih fun z hz => h z (List.mem_cons_of_mem _ hz)]
    rfl

/-- Rows that stand for others, with keys and merges that do, stay so. -/
theorem forall₂_upsert {β : Type} {R : α → β → Prop} {same' : β → β → Bool} {merge' : β → β → β}
    {x : α} {x' : β} {rows : List α} {rows' : List β} (h : List.Forall₂ R rows rows') (hx : R x x')
    (hsame : ∀ y y', R y y' → same y x = same' y' x')
    (hmerge : ∀ y y', R y y' → R (merge y x) (merge' y' x')) :
    List.Forall₂ R (upsert same merge x rows) (upsert same' merge' x' rows') := by
  induction h with
  | nil => exact .cons hx .nil
  | @cons y y' ys ys' hy hys ih =>
    rw [upsert, upsert, hsame y y' hy]
    split
    · exact .cons (hmerge y y' hy) hys
    · exact .cons hy ih

theorem foldl_found (a : α) (xs : List α) :
    xs.foldl (fun found x => some ((found.map fun y => merge y x).getD x)) (some a) =
      some (xs.foldl merge a) := by
  induction xs generalizing a with
  | nil => rfl
  | cons x xs ih => exact ih (merge a x)

/-- Where a later merge undoes the ones before it, only the last counts. -/
theorem foldl_merge_last (hself : ∀ a, merge a a = a)
    (hlast : ∀ a b c, merge (merge a b) c = merge a c) (a : α) (xs : List α) :
    xs.foldl merge a = merge a (xs.getLastD a) := by
  induction xs using List.reverseRecOn with
  | nil => exact (hself a).symm
  | append_singleton xs x ih => rw [List.foldl_concat, ih, hlast, List.getLastD_concat]

namespace KeepsKeys

variable (h : KeepsKeys same merge)
include h

theorem same_congr {a b : α} (hab : same a b = true) (c : α) : same a c = same b c := by
  rw [Bool.eq_iff_iff]
  exact ⟨h.trans b a c (h.symm a b hab), h.trans a b c hab⟩

/-- Of the rows with some key the upsert of another leaves them as they are. -/
theorem find_upsert (x k : α) (rows : List α) :
    (upsert same merge x rows).find? (same · k) =
      if same x k = true then some (((rows.find? (same · k)).map fun y => merge y x).getD x)
      else rows.find? (same · k) := by
  induction rows with
  | nil => by_cases hk : same x k = true <;> simp [upsert, hk]
  | cons y ys ih =>
    rw [upsert]
    by_cases hyx : same y x = true
    · have hmerged : same (merge y x) k = same y k := h.same_congr (h.merged y x) k
      have hboth : same y k = same x k := h.same_congr hyx k
      by_cases hk : same x k = true <;> simp [hyx, hmerged, hboth, hk]
    · by_cases hyk : same y k = true
      · have hxk : ¬ same x k = true := fun hxk => hyx (h.trans y k x hyk (h.symm x k hxk))
        simp [hyx, hyk, hxk]
      · simp [hyx, hyk, ih]

/-- The row of a key, after all the rows of that key were merged into the first. -/
theorem find_upsertAll (k : α) (rows xs : List α) :
    (upsertAll same merge rows xs).find? (same · k) =
      (xs.filter (same · k)).foldl (fun found x => some ((found.map fun y => merge y x).getD x))
      (rows.find? (same · k)) := by
  induction xs generalizing rows with
  | nil => rfl
  | cons x xs ih =>
    show (upsertAll same merge (upsert same merge x rows) xs).find? (same · k) = _
    rw [ih, h.find_upsert]
    by_cases hk : same x k = true <;> simp [hk]

/-- The row of a key: the first of that key, with the last merged in. -/
theorem find_latest (hself : ∀ a, merge a a = a) (hlast : ∀ a b c, merge (merge a b) c = merge a c)
    (k : α) (xs : List α) :
    (upsertAll same merge [] xs).find? (same · k) = latest merge (xs.filter (same · k)) := by
  rw [h.find_upsertAll]
  cases xs.filter (same · k) with
  | nil => rfl
  | cons first later =>
    show later.foldl _ (some first) = _
    rw [foldl_found, foldl_merge_last hself hlast]
    rfl

theorem mem_upsert {x y : α} {rows : List α} (hy : y ∈ upsert same merge x rows) :
    y ∈ rows ∨ same y x = true := by
  induction rows with
  | nil =>
    rw [upsert, List.mem_singleton] at hy
    exact .inr (hy ▸ h.refl x)
  | cons z zs ih =>
    rw [upsert] at hy
    split at hy
    · rename_i hzx
      rcases List.mem_cons.mp hy with rfl | hy
      · exact .inr (h.trans _ _ _ (h.merged z x) hzx)
      · exact .inl (List.mem_cons_of_mem _ hy)
    · rcases List.mem_cons.mp hy with rfl | hy
      · exact .inl List.mem_cons_self
      · exact (ih hy).imp_left (List.mem_cons_of_mem _)

/-- No two rows get the same key. -/
theorem distinct_upsert {x : α} {rows : List α}
    (hrows : rows.Pairwise fun a b => same a b = false) :
    (upsert same merge x rows).Pairwise fun a b => same a b = false := by
  induction rows with
  | nil => exact List.pairwise_singleton _ _
  | cons y ys ih =>
    rw [List.pairwise_cons] at hrows
    rw [upsert]
    split
    · refine List.pairwise_cons.mpr ⟨fun z hz => ?_, hrows.2⟩
      rw [h.same_congr (h.merged y x) z]
      exact hrows.1 z hz
    · rename_i hyx
      refine List.pairwise_cons.mpr ⟨fun z hz => ?_, ih hrows.2⟩
      rcases h.mem_upsert hz with hz | hzx
      · exact hrows.1 z hz
      · rw [Bool.eq_false_iff]
        exact fun hyz => hyx (h.trans y z x hyz hzx)

theorem distinct_upsertAll {rows : List α} (hrows : rows.Pairwise fun a b => same a b = false)
    (xs : List α) : (upsertAll same merge rows xs).Pairwise fun a b => same a b = false := by
  induction xs generalizing rows with
  | nil => exact hrows
  | cons x xs ih => exact ih (h.distinct_upsert hrows)

end KeepsKeys

end Lib
