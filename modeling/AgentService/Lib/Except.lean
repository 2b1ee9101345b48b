import Mathlib.Data.List.Basic

/-!
# Taking computations that can fail apart

What a bind says about its parts, for `Except`.
-/

namespace Lib

variable {ε α β : Type} {x : Except ε α}

@[simp] theorem ok_bind (a : α) (f : α → Except ε β) : (Except.ok a : Except ε α) >>= f = f a := rfl

@[simp] theorem error_bind (e : ε) (f : α → Except ε β) :
    (Except.error e : Except ε α) >>= f = .error e := rfl

/-- A sequence succeeds where both of its halves do. -/
theorem bind_eq_ok {f : α → Except ε β} {b : β} :
    x >>= f = .ok b ↔ ∃ a, x = .ok a ∧ f a = .ok b := by
  cases x with
  | error e => simp
  | ok a => simp

/-- A sequence fails in its first half, or behind it in the second. -/
theorem bind_eq_error {f : α → Except ε β} {e : ε} :
    x >>= f = .error e ↔ x = .error e ∨ ∃ a, x = .ok a ∧ f a = .error e := by
  cases x with
  | error e' => simp
  | ok a => simp

/-- What a mapped result holds comes from what the result held. -/
theorem map_eq_ok {f : α → β} {b : β} : x.map f = .ok b ↔ ∃ a, x = .ok a ∧ f a = b := by
  cases x with
  | error e => simp [Except.map]
  | ok a => simp [Except.map]

/-- Mapping changes no error. -/
theorem map_eq_error {f : α → β} {e : ε} : x.map f = .error e ↔ x = .error e := by
  cases x with
  | error e' => simp [Except.map]
  | ok a => simp [Except.map]

/-- Renaming errors changes no value. -/
theorem mapError_eq_ok {ε' : Type} {f : ε → ε'} {a : α} : x.mapError f = .ok a ↔ x = .ok a := by
  cases x with
  | error e => simp [Except.mapError]
  | ok a => simp [Except.mapError]

section
variable {ε' : Type} (g : ε → ε')

@[simp] theorem mapError_ok (a : α) : (Except.ok a : Except ε α).mapError g = .ok a := rfl

@[simp] theorem mapError_error (e : ε) : (Except.error e : Except ε α).mapError g = .error (g e) :=
  rfl

/-- Errors of a sequence are renamed in each half. -/
theorem mapError_bind (f : α → Except ε β) : (x >>= f).mapError g = x.mapError g >>= fun a =>
    (f a).mapError g := by
  cases x with
  | error e => rfl
  | ok a => rfl

/-- A value and an error are mapped independently. -/
theorem mapError_map (f : α → β) : (x.map f).mapError g = (x.mapError g).map f := by
  cases x with
  | error e => rfl
  | ok a => rfl

theorem mapError_id : x.mapError id = x := by
  cases x with
  | error e => rfl
  | ok a => rfl

end

end Lib
