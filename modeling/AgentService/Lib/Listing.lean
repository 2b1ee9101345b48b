import Mathlib.Data.List.Forall2
import Mathlib.Data.List.Perm.Basic

/-!
# The first few of a list, in an order

What `ORDER BY … LIMIT` comes to: the elements in order, up to a number of them, and nothing said
about which of two equal ones is first.
-/

namespace Lib

variable {α β : Type}

/-- `out` is the first `n` of `all` in an order of `le`. -/
def IsListing (le : α → α → Prop) (n : Nat) (all out : List α) : Prop :=
  ∃ rest, (out ++ rest).Perm all ∧ (out ++ rest).Pairwise le ∧ out.length = min n all.length

section
variable {R : α → β → Prop} {l : List α} {l' : List β}

theorem forall₂_mem_right (h : List.Forall₂ R l l') {b : β} (hb : b ∈ l') : ∃ a ∈ l, R a b := by
  induction h with
  | nil => cases hb
  | @cons a b' l l' hab _ ih =>
    rcases List.mem_cons.mp hb with rfl | hb
    · exact ⟨a, List.mem_cons_self, hab⟩
    · obtain ⟨a, ha, hab⟩ := ih hb
      exact ⟨a, List.mem_cons_of_mem _ ha, hab⟩

theorem forall₂_mem_left (h : List.Forall₂ R l l') {a : α} (ha : a ∈ l) : ∃ b ∈ l', R a b := by
  obtain ⟨b, hb, hab⟩ := forall₂_mem_right (List.Forall₂.flip (R := flip R) h) ha
  exact ⟨b, hb, hab⟩

theorem forall₂_with_right {P : β → Prop} (h : List.Forall₂ R l l') (hall : ∀ b ∈ l', P b) :
    List.Forall₂ (fun a b => R a b ∧ P b) l l' := by
  induction h with
  | nil => exact .nil
  | cons hab _ ih =>
    obtain ⟨hb, hl'⟩ := List.forall_mem_cons.mp hall
    exact .cons ⟨hab, hb⟩ (ih hl')

/-- Lists that belong together element by element are in order together. -/
theorem pairwise_forall₂ {le : α → α → Prop} {le' : β → β → Prop} (h : List.Forall₂ R l l')
    (hle : ∀ a a' b b', R a a' → R b b' → le a b → le' a' b') (hsorted : l.Pairwise le) :
    l'.Pairwise le' := by
  induction h with
  | nil => exact .nil
  | @cons a a' l l' haa' hl ih =>
    rw [List.pairwise_cons] at hsorted ⊢
    refine ⟨fun b' hb' => ?_, ih hsorted.2⟩
    obtain ⟨b, hb, hbb'⟩ := forall₂_mem_right hl hb'
    exact hle a a' b b' haa' hbb' (hsorted.1 b hb)

end

namespace IsListing

variable {le : α → α → Prop} {n : Nat} {all out : List α}

/-- The head of any sorted arrangement. -/
theorem of_sorted {sorted : List α} (hperm : sorted.Perm all) (hsorted : sorted.Pairwise le) :
    IsListing le n all (sorted.take n) := by
  refine ⟨sorted.drop n, ?_, ?_, ?_⟩
  · rwa [List.take_append_drop]
  · rwa [List.take_append_drop]
  · rw [List.length_take, hperm.length_eq]

theorem mem (h : IsListing le n all out) {a : α} (ha : a ∈ out) : a ∈ all := by
  obtain ⟨rest, hperm, -, -⟩ := h
  exact hperm.subset (List.mem_append_left rest ha)

theorem length_le (h : IsListing le n all out) : out.length ≤ n := by
  obtain ⟨rest, -, -, hlength⟩ := h
  rw [hlength]
  exact Nat.min_le_left n _

theorem sorted (h : IsListing le n all out) : out.Pairwise le := by
  obtain ⟨rest, -, hsorted, -⟩ := h
  exact (List.pairwise_append.mp hsorted).1

/-- With room for all of them nothing is left out. -/
theorem perm_of_le (h : IsListing le n all out) (hn : all.length ≤ n) : out.Perm all := by
  obtain ⟨rest, hperm, -, hlength⟩ := h
  have htotal := hperm.length_eq
  rw [List.length_append, hlength, Nat.min_eq_right hn] at htotal
  have hnil : rest = [] := List.eq_nil_of_length_eq_zero (by omega)
  rwa [hnil, List.append_nil] at hperm

/-- Lists that belong together element by element have listings that do. -/
theorem transport {R : α → β → Prop} {le' : β → β → Prop} {all' : List β}
    (h : IsListing le n all out) (hall : List.Forall₂ R all all')
    (hle : ∀ a a' b b', R a a' → R b b' → le a b → le' a' b') :
    ∃ out', IsListing le' n all' out' ∧ List.Forall₂ R out out' := by
  obtain ⟨rest, hperm, hsorted, hlength⟩ := h
  obtain ⟨arranged, harranged, hperm'⟩ := List.perm_comp_forall₂ hperm hall
  obtain ⟨out', hout', rest', hrest', rfl⟩ : ∃ out', List.Forall₂ R out out' ∧ ∃ rest',
    List.Forall₂ R rest rest' ∧
      out' ++ rest' = arranged := by
    refine ⟨arranged.take out.length, ?_, arranged.drop out.length, ?_, List.take_append_drop _ _⟩
    · simpa using List.forall₂_take out.length harranged
    · simpa using List.forall₂_drop out.length harranged
  refine ⟨out', ⟨rest', hperm', pairwise_forall₂ harranged hle hsorted, ?_⟩, hout'⟩
  rw [← hout'.length_eq, hlength, hall.length_eq]

end IsListing

end Lib
