import Mathlib.Logic.Relation

/-!
# What a search comes to

`Reached` is what the edges lead to from the roots. A search that has seen some of it and still has
a queue to follow keeps `Frontier`; with nothing left in the queue it has seen what is reached and
nothing else.
-/

namespace Lib

variable {α : Type} {roots roots' : α → Prop} {edge edge' : α → α → Prop}

/-- Reached from some root along the edges. -/
def Reached (roots : α → Prop) (edge : α → α → Prop) (a : α) : Prop :=
  ∃ root, roots root ∧ Relation.ReflTransGen edge root a

variable {a b : α}

namespace Reached

theorem root (h : roots a) : Reached roots edge a := ⟨a, h, .refl⟩

theorem step (ha : Reached roots edge a) (hab : edge a b) : Reached roots edge b := by
  obtain ⟨root, hroot, hpath⟩ := ha
  exact ⟨root, hroot, hpath.tail hab⟩

/-- The last edge, where there is one. -/
theorem root_or_step (h : Reached roots edge b) :
    roots b ∨ ∃ a, Reached roots edge a ∧ edge a b := by
  obtain ⟨root, hroot, hpath⟩ := h
  rcases Relation.ReflTransGen.cases_tail hpath with rfl | ⟨a, ha, hab⟩
  · exact .inl hroot
  · exact .inr ⟨a, ⟨root, hroot, ha⟩, hab⟩

theorem mono (hroots : ∀ a, roots a → roots' a) (hedge : ∀ a b, edge a b → edge' a b)
    (h : Reached roots edge a) : Reached roots' edge' a := by
  obtain ⟨root, hroot, hpath⟩ := h
  exact ⟨root, hroots root hroot, Relation.ReflTransGen.mono hedge _ _ hpath⟩

end Reached

/-- A search under way: what it has seen is reached, and what it has seen and does not have to
follow any more leads nowhere else. -/
structure Frontier (roots : α → Prop) (edge : α → α → Prop) (seen queued : α → Prop) : Prop where
  sound : ∀ a, seen a → Reached roots edge a
  start : ∀ a, roots a → seen a
  inSeen : ∀ a, queued a → seen a
  closed : ∀ a, seen a → ¬ queued a → ∀ b, edge a b → seen b

namespace Frontier

variable {seen queued : α → Prop}

/-- The roots are seen first. -/
theorem atRoots (roots : α → Prop) (edge : α → α → Prop) : Frontier roots edge roots roots where
  sound _ h := .root h
  start _ h := h
  inSeen _ h := h
  closed _ h hnot := absurd h hnot

/-- One element of the queue is followed: what it leads to is seen, and queued where
it was not seen before. -/
theorem follow {rest : α → Prop} (h : Frontier roots edge seen fun b => b = a ∨ rest b) :
    Frontier roots edge (fun b => seen b ∨ edge a b) (fun b => rest b ∨ ¬ seen b ∧ edge a b) where
  sound b hb := by
    rcases hb with hb | hb
    · exact h.sound b hb
    · exact .step (h.sound a (h.inSeen a (.inl rfl))) hb
  start b hb := .inl (h.start b hb)
  inSeen b hb := by
    rcases hb with hb | hb
    · exact .inl (h.inSeen b (.inr hb))
    · exact .inr hb.2
  closed b hb hnot c hc := by
    rw [not_or] at hnot
    by_cases hseen : seen b
    · by_cases heq : b = a
      · subst heq
        exact .inr hc
      · exact .inl (h.closed b hseen (by rw [not_or]; exact ⟨heq, hnot.1⟩) c hc)
    · exact absurd ⟨hseen, hb.resolve_left hseen⟩ hnot.2

/-- With nothing to follow, what is seen is what is reached. -/
theorem done (h : Frontier roots edge seen queued) (hdone : ∀ a, ¬ queued a) :
    seen a ↔ Reached roots edge a := by
  constructor
  · exact h.sound a
  · intro hreached
    obtain ⟨root, hroot, hpath⟩ := hreached
    induction hpath with
    | refl => exact h.start root hroot
    | tail _ hab ih => exact h.closed _ ih (hdone _) _ hab

end Frontier

end Lib
