import AgentService.Scripts.DevFlags
import Mathlib.Data.List.Infix
import Mathlib.Data.List.Induction

/-!
# Lock paths

A lock path is a chain of names, each in the `node_modules` of the one before; the empty chain is
the root. Where no name has `node_modules/` in it, cutting a path at the last one cuts the last name
off the chain, and the lookup of a name from a path finds the copy nearest to it.
-/

namespace AgentService.Dependencies
open Lib

/-! ## The last occurrence of a text -/

section
variable {needle s : JsString}

theorem lastIndexOfText_eq_none : lastIndexOfText needle s = none ↔ ¬ needle <:+: s := by
  induction s with
  | nil =>
    rw [lastIndexOfText, List.infix_nil]
    split <;> simp_all
  | cons c s ih =>
    rw [lastIndexOfText, List.infix_cons_iff, not_or]
    split
    · rename_i i hi
      have hinside : needle <:+: s := by
        by_contra hnot
        rw [ih.mpr hnot] at hi
        cases hi
      simp [hinside]
    · rename_i hnone
      have hnot := ih.mp hnone
      rw [← List.isPrefixOf_iff_prefix]
      split <;> simp_all

/-- What stands in front only moves the occurrence. -/
theorem lastIndexOfText_append {i : Nat} (pre : JsString) (h : lastIndexOfText needle s = some i) :
    lastIndexOfText needle (pre ++ s) = some (pre.length + i) := by
  induction pre with
  | nil => simpa using h
  | cons c pre ih =>
    rw [List.cons_append, lastIndexOfText, ih, List.length_cons]
    simp only [Option.some.injEq]
    omega

/-- An occurrence starts where its first unit stands. -/
theorem infix_append_of_notMem {c : UInt16} {t u : JsString} (hc : c ∉ u) :
    c :: t <:+: u ++ s ↔ c :: t <:+: s := by
  induction u with
  | nil => rfl
  | cons d u ih =>
    rw [List.mem_cons, not_or] at hc
    rw [List.cons_append, List.infix_cons_iff, ih hc.2]
    constructor
    · rintro (h | h)
      · exact absurd (List.cons_prefix_cons.mp h).1 hc.1
      · exact h
    · exact Or.inr

end

/-- The last `node_modules/` stands before the last name. -/
theorem lastIndexOfText_lastName (pre : JsString) {name : JsString}
    (hname : ¬ NODE_MODULES <:+: name) :
    lastIndexOfText NODE_MODULES (pre ++ (NODE_MODULES ++ name)) = some pre.length := by
  have hcons : NODE_MODULES = 0x6e :: js "ode_modules/" := by decide
  have hrest : ¬ NODE_MODULES <:+: js "ode_modules/" ++ name := by
    rw [hcons, infix_append_of_notMem (by decide), ← hcons]
    exact hname
  have hhere : lastIndexOfText NODE_MODULES (NODE_MODULES ++ name) = some 0 := by
    conv_lhs => rw [hcons]
    rw [List.cons_append, lastIndexOfText, ← hcons, lastIndexOfText_eq_none.mpr hrest]
    rw [if_pos]
    rw [List.isPrefixOf_iff_prefix, ← List.cons_append, ← hcons]
    exact List.prefix_append NODE_MODULES name
  exact lastIndexOfText_append pre hhere

/-! ## Chains of names -/

/-- The path of a name in the `node_modules` of a name, and so on:
`node_modules/<name>/node_modules/<name>`. -/
def pathOf (chain : List JsString) : JsString := [0x2f].intercalate (chain.map (NODE_MODULES ++ ·))

@[simp] theorem pathOf_nil : pathOf [] = [] := rfl

theorem pathOf_cons (name : JsString) (chain : List JsString) :
    pathOf (name :: chain) = NODE_MODULES ++ name ++ if chain = [] then []
      else js "/" ++ pathOf chain := by
  unfold pathOf
  cases chain with
  | nil => simp
  | cons name' chain =>
    rw [List.map_cons, List.map_cons, List.intercalate_cons_cons, ← List.map_cons,
      if_neg (List.cons_ne_nil _ _), List.append_assoc]
    rfl

theorem pathOf_eq_nil {chain : List JsString} : pathOf chain = [] ↔ chain = [] := by
  cases chain with
  | nil => simp
  | cons name chain =>
    have hne : NODE_MODULES ≠ [] := by decide
    simp [pathOf_cons, hne]

/-- One name more is the path the script looks for. -/
theorem pathOf_concat (chain : List JsString) (name : JsString) :
    pathOf (chain ++ [name]) = candidate (pathOf chain) name := by
  simp only [candidate, pathOf_eq_nil]
  induction chain with
  | nil => simp [pathOf_cons]
  | cons first chain ih =>
    rw [if_neg (List.cons_ne_nil first chain), List.cons_append, pathOf_cons, pathOf_cons,
      if_neg (by simp), ih]
    split
    · simp
    · simp

/-- Cutting a path at its last `node_modules/` cuts the last name off. -/
theorem enclosingPath_concat (chain : List JsString) {name : JsString}
    (hname : ¬ NODE_MODULES <:+: name) :
    enclosingPath (pathOf (chain ++ [name])) = pathOf chain := by
  rw [pathOf_concat, candidate]
  split
  · rename_i hroot
    have hlast := lastIndexOfText_lastName [] hname
    rw [List.nil_append] at hlast
    rw [enclosingPath, hlast, hroot]
    rfl
  · have hlast := lastIndexOfText_lastName (pathOf chain ++ js "/") hname
    rw [List.length_append] at hlast
    rw [List.append_assoc _ NODE_MODULES, enclosingPath, hlast]
    change (pathOf chain ++ js "/" ++ (NODE_MODULES ++ name)).take (pathOf chain).length =
      pathOf chain
    rw [List.append_assoc, List.take_left]

/-- A path the lockfile may have an entry at. -/
def IsLockPath (path : JsString) : Prop :=
  ∃ chain : List JsString, (∀ name ∈ chain, ¬ NODE_MODULES <:+: name) ∧ path = pathOf chain

/-! ## The nearest copy -/

/-- `target` is the copy of `name` in the innermost `node_modules` around the last name of the
chain, its own included, that has one. -/
def Nearest (packages : Record Entry) (chain : List JsString) (name target : JsString) : Prop :=
  ∃ around, around <+: chain ∧ target = pathOf (around ++ [name]) ∧ target ∈ packages.keys ∧
    ∀ nearer, nearer <+: chain → around.length < nearer.length →
      pathOf (nearer ++ [name]) ∉ packages.keys

section
variable {packages : Record Entry} {chain : List JsString} {name target : JsString}

theorem nearest_of_mem (h : pathOf (chain ++ [name]) ∈ packages.keys) :
    Nearest packages chain name target ↔ target = pathOf (chain ++ [name]) := by
  constructor
  · rintro ⟨around, hpre, rfl, -, hnone⟩
    have hlength : chain.length ≤ around.length := by
      by_contra hlt
      exact hnone chain List.prefix_rfl (Nat.lt_of_not_le hlt) h
    rw [hpre.eq_of_length_le hlength]
  · rintro rfl
    refine ⟨chain, List.prefix_rfl, rfl, h, ?_⟩
    intro nearer hpre hlt
    exact absurd hpre.length_le (Nat.not_le_of_lt hlt)

theorem nearest_root_of_notMem (h : pathOf [name] ∉ packages.keys) :
    ¬ Nearest packages [] name target := by
  rintro ⟨around, hpre, rfl, hmem, -⟩
  rw [List.prefix_nil.mp hpre] at hmem
  exact h hmem

theorem nearest_concat_of_notMem {last : JsString}
    (h : pathOf (chain ++ [last] ++ [name]) ∉ packages.keys) :
    Nearest packages (chain ++ [last]) name target ↔ Nearest packages chain name target := by
  constructor
  · rintro ⟨around, hpre, rfl, hmem, hnone⟩
    rcases List.prefix_concat_iff.mp hpre with rfl | hpre
    · exact absurd hmem h
    · refine ⟨around, hpre, rfl, hmem, ?_⟩
      intro nearer hnearer
      exact hnone nearer (hnearer.trans (List.prefix_append chain [last]))
  · rintro ⟨around, hpre, rfl, hmem, hnone⟩
    refine ⟨around, hpre.trans (List.prefix_append chain [last]), rfl, hmem, ?_⟩
    intro nearer hnearer hlt
    rcases List.prefix_concat_iff.mp hnearer with rfl | hnearer
    · exact h
    · exact hnone nearer hnearer hlt

theorem resolveDep_of_mem (h : pathOf (chain ++ [name]) ∈ packages.keys) :
    resolveDep packages (pathOf chain) name = some (pathOf (chain ++ [name])) := by
  rw [pathOf_concat] at h ⊢
  apply Loop.result_done
  simp [resolveLoop, OrderedMap.has_iff.mpr h]

theorem resolveDep_root_of_notMem (h : pathOf [name] ∉ packages.keys) :
    resolveDep packages (pathOf []) name = none := by
  have hhas : packages.has (candidate [] name) = false := by
    rw [OrderedMap.has_eq_false, ← pathOf_nil, ← pathOf_concat]
    exact h
  apply Loop.result_done
  simp [resolveLoop, hhas]

theorem resolveDep_concat_of_notMem {last : JsString} (hlast : ¬ NODE_MODULES <:+: last)
    (h : pathOf (chain ++ [last] ++ [name]) ∉ packages.keys) :
    resolveDep packages (pathOf (chain ++ [last])) name =
      resolveDep packages (pathOf chain) name := by
  have hhas : packages.has (candidate (pathOf (chain ++ [last])) name) = false := by
    rw [OrderedMap.has_eq_false, ← pathOf_concat]
    exact h
  have hne : pathOf (chain ++ [last]) ≠ [] := by simp [pathOf_eq_nil]
  apply Loop.result_again
  simp [resolveLoop, hhas, hne, enclosingPath_concat chain hlast]

/-- The lookup finds the nearest copy. -/
theorem resolveDep_iff (hchain : ∀ name ∈ chain, ¬ NODE_MODULES <:+: name) :
    resolveDep packages (pathOf chain) name = some target ↔ Nearest packages chain name target := by
  induction chain using List.reverseRecOn with
  | nil =>
    by_cases hmem : pathOf ([] ++ [name]) ∈ packages.keys
    · rw [resolveDep_of_mem hmem, nearest_of_mem hmem, Option.some_inj, eq_comm]
    · rw [resolveDep_root_of_notMem hmem]
      simp [nearest_root_of_notMem hmem]
  | append_singleton chain last ih =>
    by_cases hmem : pathOf (chain ++ [last] ++ [name]) ∈ packages.keys
    · rw [resolveDep_of_mem hmem, nearest_of_mem hmem, Option.some_inj, eq_comm]
    · rw [resolveDep_concat_of_notMem (hchain last (by simp)) hmem, nearest_concat_of_notMem hmem]
      apply ih
      intro name hname
      exact hchain name (List.mem_append_left [last] hname)

end

end AgentService.Dependencies
