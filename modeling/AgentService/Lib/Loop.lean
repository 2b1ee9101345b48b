import Mathlib.Data.List.Basic

/-!
# Loops that answer to an environment

A turn of the loop takes its state and the next answer of the environment and either goes
round again with a new state or leaves with a result. A `Loop` carries the rank that each
further turn lowers, so `run` is total for every sequence of answers. It keeps the states
it was in, one for each answer it used: what a program sends out at a turn is a function
of the state, so a property of everything sent is a property of the listed states.
-/

namespace Lib

inductive Turn (σ ρ : Type) where
  | again (s : σ)
  | done (r : ρ)

structure Loop (σ α ρ : Type) where
  turn : σ → α → Turn σ ρ
  rank : σ → Nat
  rank_lt : ∀ {s a s'}, turn s a = .again s' → rank s' < rank s

namespace Loop

variable {σ α ρ : Type} (L : Loop σ α ρ)

def go : (n : Nat) → (s : σ) → L.rank s < n → (Nat → α) → List σ × ρ
  | 0, _, h, _ => absurd h (Nat.not_lt_zero _)
  | n + 1, s, h, answers =>
    match ht : L.turn s (answers 0) with
    | .done r => ([s], r)
    | .again s' =>
      let rest := go n s' (Nat.lt_of_lt_of_le (L.rank_lt ht) (Nat.le_of_lt_succ h))
        fun i => answers (i + 1)
      (s :: rest.1, rest.2)

/-- The states the loop went through, and its result. -/
def run (s : σ) (answers : Nat → α) : List σ × ρ :=
  L.go (L.rank s + 1) s (Nat.lt_succ_self _) answers

theorem go_eq (n : Nat) : ∀ (m : Nat) (s : σ) (hn : L.rank s < n) (hm : L.rank s < m)
    (answers : Nat → α), L.go n s hn answers = L.go m s hm answers := by
  induction n with
  | zero => intro m s hn; exact absurd hn (Nat.not_lt_zero _)
  | succ n ih =>
    intro m s hn hm answers
    cases m with
    | zero => exact absurd hm (Nat.not_lt_zero _)
    | succ m =>
      unfold go
      split
      · rfl
      · rename_i s' ht
        rw [ih m s' _ (Nat.lt_of_lt_of_le (L.rank_lt ht) (Nat.le_of_lt_succ hm))]

variable {L} {s : σ} {answers : Nat → α}

theorem run_done {r : ρ} (h : L.turn s (answers 0) = .done r) : L.run s answers = ([s], r) := by
  unfold run go
  split
  · rename_i r' hr
    rw [h] at hr
    cases hr
    rfl
  · rename_i s' hs
    rw [h] at hs
    cases hs

theorem run_again {s' : σ} (h : L.turn s (answers 0) = .again s') :
    L.run s answers =
      (s :: (L.run s' fun i => answers (i + 1)).1, (L.run s' fun i => answers (i + 1)).2) := by
  rw [run, go]
  split
  · rename_i r hr
    rw [h] at hr
    cases hr
  · rename_i s'' hs
    rw [h] at hs
    cases hs
    rw [L.go_eq _ _ s' _ (Nat.lt_succ_self _)]
    rfl

/-- Either way a loop can go on from a state. -/
theorem run_cases (s : σ) (answers : Nat → α) :
    (∃ r, L.turn s (answers 0) = .done r ∧ L.run s answers = ([s], r)) ∨
    ∃ s', L.turn s (answers 0) = .again s' ∧ L.run s answers =
      (s :: (L.run s' fun i => answers (i + 1)).1, (L.run s' fun i => answers (i + 1)).2) := by
  cases h : L.turn s (answers 0) with
  | done r => exact .inl ⟨r, rfl, run_done h⟩
  | again s' => exact .inr ⟨s', rfl, run_again h⟩

/-- Induction along a run: at each turn the loop is done, or a shorter run follows. -/
theorem run_induction {P : σ → (Nat → α) → List σ × ρ → Prop}
    (done : ∀ s answers r, L.turn s (answers 0) = .done r → P s answers ([s], r))
    (again : ∀ s answers s', L.turn s (answers 0) = .again s' →
      P s' (fun i => answers (i + 1)) (L.run s' fun i => answers (i + 1)) →
      P s answers (s :: (L.run s' fun i => answers (i + 1)).1,
        (L.run s' fun i => answers (i + 1)).2))
    (s : σ) (answers : Nat → α) : P s answers (L.run s answers) := by
  induction hn : L.rank s using Nat.strongRecOn generalizing s answers with
  | ind n ih =>
    rcases L.run_cases s answers with ⟨r, ht, hr⟩ | ⟨s', ht, hr⟩
    · rw [hr]; exact done s answers r ht
    · rw [hr]
      exact again s answers s' ht (ih _ (hn ▸ L.rank_lt ht) s' _ rfl)

theorem run_head (s : σ) (answers : Nat → α) : (L.run s answers).1.head? = some s := by
  rcases L.run_cases s answers with ⟨r, -, hr⟩ | ⟨s', -, hr⟩ <;> rw [hr] <;> rfl

theorem run_length (s : σ) (answers : Nat → α) : (L.run s answers).1.length ≤ L.rank s + 1 := by
  refine run_induction (P := fun s _ r => r.1.length ≤ L.rank s + 1) ?_ ?_ s answers
  · intro s _ r _; simp
  · intro s answers s' ht ih
    have := L.rank_lt ht
    simp only [List.length_cons]
    omega

/-- Each state of a run is the turn of the one before it. -/
theorem run_step (s : σ) (answers : Nat → α) :
    ∀ i t t', (L.run s answers).1[i]? = some t → (L.run s answers).1[i + 1]? = some t' →
      L.turn t (answers i) = .again t' := by
  refine run_induction (P := fun s answers r => ∀ i t t', r.1[i]? = some t →
    r.1[i + 1]? = some t' → L.turn t (answers i) = .again t') ?_ ?_ s answers
  · intro s answers r _ i t t' _ h'
    simp at h'
  · intro s answers s' ht ih i t t' h h'
    cases i with
    | zero =>
      have hhead := L.run_head s' fun i => answers (i + 1)
      simp only [List.getElem?_cons_zero, List.getElem?_cons_succ, Option.some.injEq] at h h'
      rw [List.head?_eq_getElem?, h'] at hhead
      cases hhead
      rw [← h]
      exact ht
    | succ i =>
      rw [List.getElem?_cons_succ] at h h'
      exact ih i t t' h h'

/-- The result of a run is the turn of its last state. -/
theorem run_last (s : σ) (answers : Nat → α) :
    ∃ n t, (L.run s answers).1.length = n + 1 ∧ (L.run s answers).1[n]? = some t ∧
      L.turn t (answers n) = .done (L.run s answers).2 := by
  refine run_induction (P := fun _ answers r => ∃ n t, r.1.length = n + 1 ∧ r.1[n]? = some t ∧
    L.turn t (answers n) = .done r.2) ?_ ?_ s answers
  · intro s answers r ht
    exact ⟨0, s, rfl, rfl, ht⟩
  · rintro s answers s' - ⟨n, t, hlen, hn, ht⟩
    exact ⟨n + 1, t, by simp [hlen], by simpa using hn, ht⟩

/-- A relation every turn respects relates each state of a run to the later ones. -/
theorem run_relates {R : σ → σ → Prop} (refl : ∀ s, R s s)
    (trans : ∀ {a b c}, R a b → R b c → R a c) (step : ∀ s a s', L.turn s a = .again s' → R s s')
    (s : σ) (answers : Nat → α) :
    ∀ (i j : Nat) (t t' : σ), i ≤ j → (L.run s answers).1[i]? = some t →
      (L.run s answers).1[j]? = some t' →
      R t t' := by
  intro i j t t' hij hi hj
  induction hij generalizing t' with
  | refl =>
    rw [hi] at hj
    cases hj
    exact refl t
  | @step m _ ih =>
    have hm : m < (L.run s answers).1.length := by
      have := (List.getElem?_eq_some_iff.mp hj).1
      omega
    have hmid := List.getElem?_eq_getElem hm
    exact trans (ih _ hmid) (step _ _ _ (run_step s answers m _ t' hmid hj))

/-! ## Loops that ask nothing -/

section result

variable {σ ρ : Type} (L : Loop σ Unit ρ)

/-- What a loop comes to that runs by itself. -/
def result (s : σ) : ρ := (L.run s fun _ => ()).2

variable {L} {s s' : σ} {r : ρ}

theorem result_done (h : L.turn s () = .done r) : L.result s = r := by
  have hrun : L.run s (fun _ => ()) = ([s], r) := run_done h
  rw [result, hrun]

theorem result_again (h : L.turn s () = .again s') : L.result s = L.result s' := by
  have hrun : L.run s (fun _ => ()) = (s :: (L.run s' fun _ => ()).1, (L.run s' fun _ => ()).2) :=
    run_again h
  rw [result, hrun]
  rfl

/-- States that take the same turn come to the same. -/
theorem result_congr (h : L.turn s () = L.turn s' ()) : L.result s = L.result s' := by
  cases hs : L.turn s () with
  | done r => rw [result_done hs, result_done (h.symm.trans hs)]
  | again t => rw [result_again hs, result_again (h.symm.trans hs)]

theorem result_induction {P : σ → ρ → Prop} (done : ∀ s r, L.turn s () = .done r → P s r)
    (again : ∀ s s', L.turn s () = .again s' → P s' (L.result s') → P s (L.result s')) (s : σ) :
    P s (L.result s) :=
  run_induction (P := fun s _ r => P s r.2) (fun s _ r h => done s r h) (fun s _ s' h ih =>
    again s s' h ih) s _

end result

end Loop

end Lib
