import AgentService.Lib.Except

/-!
# Computations that throw and leave traces

An `Effect` runs from a state to a state and may throw on the way; what it has done to the
state before it threw stays done. A run is taken apart at its binds, and `attempt` is the
`try … catch` behind which nothing is thrown any more.
-/

namespace Lib

/-- A computation on a state that can throw. -/
def Effect (σ ε α : Type) : Type := σ → Except ε α × σ

namespace Effect

variable {σ ε ε' α β : Type}

instance : Monad (Effect σ ε) where
  pure a := fun s => (.ok a, s)
  bind x f := fun s =>
    match x s with
    | (.ok a, s') => f a s'
    | (.error e, s') => (.error e, s')

/-- A value computed without effects, or its exception. -/
def ofExcept (r : Except ε α) : Effect σ ε α := fun s => (r, s)

/-- A change of the state. -/
def change (f : σ → σ) : Effect σ ε Unit := fun s => (.ok (), f s)

/-- `try … catch` -/
def attempt (body : Effect σ ε' α) (handler : ε' → Effect σ ε α) : Effect σ ε α := fun s =>
  match body s with
  | (.ok a, s') => (.ok a, s')
  | (.error e, s') => handler e s'

variable {x : Effect σ ε α} {f : α → Effect σ ε β} {s s' : σ}

@[simp] theorem pure_run (a : α) : (pure a : Effect σ ε α) s = (.ok a, s) := rfl

@[simp] theorem ofExcept_run (r : Except ε α) : (ofExcept r : Effect σ ε α) s = (r, s) := rfl

@[simp] theorem change_run (g : σ → σ) : (change g : Effect σ ε Unit) s = (.ok (), g s) := rfl

/-- A sequence goes on with what its first half resolved with, in the state it left. -/
theorem bind_ok {a : α} (h : x s = (.ok a, s')) : (x >>= f) s = f a s' := by
  show (match x s with
    | (.ok a, s') => f a s'
    | (.error e, s') => (.error e, s')) = f a s'
  rw [h]

/-- A sequence ends where its first half throws. -/
theorem bind_error {e : ε} (h : x s = (.error e, s')) : (x >>= f) s = (.error e, s') := by
  show (match x s with
    | (.ok a, s') => f a s'
    | (.error e, s') => (.error e, s')) = _
  rw [h]

/-- A sequence resolves where both halves do. -/
theorem bind_eq_ok {b : β} (h : (x >>= f) s = (.ok b, s')) :
    ∃ a t, x s = (.ok a, t) ∧ f a t = (.ok b, s') := by
  cases hx : x s with
  | mk r t =>
    cases r with
    | error e =>
      rw [bind_error hx] at h
      cases h
    | ok a =>
      rw [bind_ok hx] at h
      exact ⟨a, t, rfl, h⟩

/-- A computed value is handed on, a computed exception ends the run. -/
theorem ofExcept_bind (r : Except ε α) :
    (ofExcept r >>= f) s = match r with
      | .ok a => f a s
      | .error e => (.error e, s) := by
  cases r with
  | ok a => exact bind_ok rfl
  | error e => exact bind_error rfl

/-- Where nothing is thrown the handler is not asked, -/
theorem attempt_ok {body : Effect σ ε' α} {handler : ε' → Effect σ ε α} {a : α}
    (h : body s = (.ok a, s')) : attempt body handler s = (.ok a, s') := by
  rw [attempt, h]

/-- and where something is, it goes on in the state that is left. -/
theorem attempt_error {body : Effect σ ε' α} {handler : ε' → Effect σ ε α} {e : ε'}
    (h : body s = (.error e, s')) : attempt body handler s = handler e s' := by
  rw [attempt, h]

/-! ## Runs as a whole -/

/-- Every run of the computation, also one that throws, moves the state along the relation. -/
def Moves (R : σ → σ → Prop) (x : Effect σ ε α) : Prop := ∀ s, R s (x s).2

theorem forM_cons (a : β) (l : List β) (body : β → Effect σ ε Unit) :
    (a :: l).forM body = (do body a; l.forM body) := rfl

section
variable {R : σ → σ → Prop} (hrefl : ∀ s, R s s) (htrans : ∀ s t u, R s t → R t u → R s u)
include hrefl

theorem moves_pure (a : α) : Moves R (pure a : Effect σ ε α) := fun s => hrefl s

include htrans

omit hrefl in
/-- What relates the states of both halves relates those of a sequence. -/
theorem moves_bind (hx : Moves R x) (hf : ∀ a, Moves R (f a)) : Moves R (x >>= f) := by
  intro s
  have hfirst := hx s
  cases hrun : x s with
  | mk r s₁ =>
    rw [hrun] at hfirst
    cases r with
    | ok a =>
      rw [bind_ok hrun]
      exact htrans _ _ _ hfirst (hf a s₁)
    | error e =>
      rw [bind_error hrun]
      exact hfirst

variable {l : List β} {body : β → Effect σ ε Unit}

/-- What relates the states of each turn relates those of a loop. -/
theorem moves_forM (h : ∀ b ∈ l, Moves R (body b)) : Moves R (l.forM body) := by
  induction l with
  | nil => exact moves_pure hrefl ()
  | cons b l ih =>
    rw [forM_cons]
    apply moves_bind htrans
    · exact h b List.mem_cons_self
    · exact fun _ => ih fun b hb => h b (List.mem_cons_of_mem _ hb)

/-- A loop that comes to its end has come through every element of its list. -/
theorem forM_ok (h : ∀ b ∈ l, Moves R (body b)) (hrun : l.forM body s = (.ok (), s')) :
    ∀ b ∈ l, ∃ s₁ s₂, R s s₁ ∧ body b s₁ = (.ok (), s₂) ∧ R s₂ s' := by
  induction l generalizing s with
  | nil => exact nofun
  | cons b l ih =>
    have hrest := fun b hb => h b (List.mem_cons_of_mem _ hb)
    rw [forM_cons] at hrun
    cases hb : body b s with
    | mk r s₁ =>
      cases r with
      | error e =>
        rw [bind_error hb] at hrun
        cases hrun
      | ok u =>
        rw [bind_ok hb] at hrun
        have hfirst := h b List.mem_cons_self s
        rw [hb] at hfirst
        intro b' hb'
        rcases List.mem_cons.mp hb' with rfl | hb'
        · have hlast := moves_forM hrefl htrans hrest s₁
          rw [hrun] at hlast
          exact ⟨s, s₁, hrefl s, hb, hlast⟩
        · obtain ⟨t₁, t₂, hbefore, hbody, hafter⟩ := ih hrest hrun b' hb'
          exact ⟨t₁, t₂, htrans _ _ _ hfirst hbefore, hbody, hafter⟩

end

/-- A loop comes to its end where each of its bodies does, under an invariant. -/
theorem forM_completes {I : σ → Prop} {l : List β} {body : β → Effect σ ε Unit}
    (h : ∀ b ∈ l, ∀ s, I s → ∃ s', body b s = (.ok (), s') ∧ I s') (hs : I s) :
    ∃ s', l.forM body s = (.ok (), s') ∧ I s' := by
  induction l generalizing s with
  | nil => exact ⟨s, rfl, hs⟩
  | cons b l ih =>
    obtain ⟨s₁, hb, hs₁⟩ := h b List.mem_cons_self s hs
    rw [forM_cons, bind_ok hb]
    exact ih (fun b hb => h b (List.mem_cons_of_mem _ hb)) hs₁

end Effect

end Lib
