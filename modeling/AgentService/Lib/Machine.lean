import Mathlib.Data.List.Basic

/-!
# Machines that many hands drive

A machine takes an action where it can and stays undefined where it cannot, so a list of
actions in any order is a run exactly where each action is possible when its turn comes.
What holds at the start and is kept by each step holds wherever a run leads.
-/

namespace Lib

structure Machine (σ α : Type) where
  start : σ
  step : σ → α → Option σ

namespace Machine

variable {σ α : Type} (M : Machine σ α)

/-- The state after some actions, if all of them were possible. -/
def runFrom (s : σ) : List α → Option σ
  | [] => some s
  | a :: as => (M.step s a).bind fun s' => runFrom s' as

def run (actions : List α) : Option σ := M.runFrom M.start actions

variable {M}

/-- What each step keeps, every run keeps. -/
theorem runFrom_keeps {P : σ → Prop} (step : ∀ s a s', P s → M.step s a = some s' → P s')
    {actions : List α} {s s' : σ} (hs : P s) (h : M.runFrom s actions = some s') : P s' := by
  induction actions generalizing s with
  | nil =>
    obtain rfl := Option.some.inj h
    exact hs
  | cons a as ih =>
    obtain ⟨t, ht, hrest⟩ := Option.bind_eq_some_iff.mp h
    exact ih (step s a t hs ht) hrest

theorem run_invariant {P : σ → Prop} (start : P M.start)
    (step : ∀ s a s', P s → M.step s a = some s' → P s') {actions : List α} {s : σ}
    (h : M.run actions = some s) : P s :=
  runFrom_keeps step start h

end Machine

end Lib
