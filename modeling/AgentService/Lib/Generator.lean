import AgentService.Lib.Except

/-!
# Generators

What a generator hands out before it ends, and what it throws then, if it does. Whoever takes the
elements one by one has those before the exception; whoever collects them all has the exception
only.
-/

namespace Lib

structure Generator (ε α : Type) where
  yields : List α
  thrown : Option ε

namespace Generator

variable {ε α : Type}

def yield (a : α) : Generator ε α := ⟨[a], none⟩

def throw (e : ε) : Generator ε α := ⟨[], some e⟩

/-- Nothing, and the end. -/
def done : Generator ε α := ⟨[], none⟩

/-- `yield*` one after the other; what throws ends both. -/
def andThen (g h : Generator ε α) : Generator ε α :=
  match g.thrown with
  | some _ => g
  | none => ⟨g.yields ++ h.yields, h.thrown⟩

/-- `Array.from` -/
def collect (g : Generator ε α) : Except ε (List α) :=
  match g.thrown with
  | some e => .error e
  | none => .ok g.yields

/-- A computation that has its elements only when it does not throw. -/
def ofExcept : Except ε α → Generator ε α
  | .ok a => yield a
  | .error e => throw e

@[simp] theorem collect_yield (a : α) : (yield a : Generator ε α).collect = .ok [a] := rfl

@[simp] theorem collect_throw (e : ε) : (throw e : Generator ε α).collect = .error e := rfl

@[simp] theorem collect_done : (done : Generator ε α).collect = .ok [] := rfl

/-- One yield or a throw, as the result it was made of. -/
theorem collect_ofExcept (r : Except ε α) : (ofExcept r).collect = r.map fun a => [a] := by
  cases r with
  | error e => rfl
  | ok a => rfl

/-- Collecting one generator behind another collects both, and the first throw ends it. -/
theorem collect_andThen (g h : Generator ε α) :
    (g.andThen h).collect = g.collect >>= fun as => h.collect.map fun bs => as ++ bs := by
  obtain ⟨as, thrown⟩ := g
  cases thrown with
  | some e => rfl
  | none =>
    obtain ⟨bs, thrown⟩ := h
    cases thrown with
    | some e => rfl
    | none => rfl

/-- What is collected is what was yielded, where nothing was thrown. -/
theorem collect_eq_ok {g : Generator ε α} {as : List α} :
    g.collect = .ok as ↔ g.thrown = none ∧ g.yields = as := by
  obtain ⟨bs, thrown⟩ := g
  cases thrown with
  | some e => simp [collect]
  | none => simp [collect]

/-- A generator is collected exactly where it throws nothing. -/
theorem collect_isOk (g : Generator ε α) : g.collect.isOk = g.thrown.isNone := by
  obtain ⟨bs, thrown⟩ := g
  cases thrown with
  | some e => rfl
  | none => rfl

end Generator

end Lib
