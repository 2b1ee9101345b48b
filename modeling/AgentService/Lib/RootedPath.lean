import AgentService.Lib.JsString
import AgentService.Lib.Split

/-!
# Rooted paths without dots

The normal form a path cleaner aims at: segments that are neither empty nor `.` nor
`..`, each after a slash, and at most one slash at the end. A `RootedPath` carries that
form as its invariant; `render` is the text of one.
-/

namespace Lib

/-- A segment that names something: not empty, no dot segment, no slash. -/
structure IsPlainSegment (s : JsString) : Prop where
  ne_nil : s ≠ []
  ne_dot : s ≠ js "."
  ne_dots : s ≠ js ".."
  notMem : 0x2f ∉ s

structure RootedPath where
  segments : List JsString
  plain : ∀ s ∈ segments, IsPlainSegment s
  directory : Bool
  segments_ne_nil : directory = true → segments ≠ []

namespace RootedPath

def render (p : RootedPath) : JsString :=
  0x2f :: ([0x2f].intercalate p.segments ++ if p.directory then [0x2f] else [])

/-- The pieces of a rendered path after its leading slash. -/
def pieces (p : RootedPath) : List JsString :=
  if p.segments = [] then [[]] else p.segments ++ if p.directory then [[]] else []

theorem intercalate_append_nil {ss : List JsString} (h : ss ≠ []) :
    [0x2f].intercalate (ss ++ [[]]) = [0x2f].intercalate ss ++ [0x2f] := by
  induction ss with
  | nil => exact absurd rfl h
  | cons s ss ih =>
    cases ss with
    | nil => simp [List.intercalate_cons_cons]
    | cons t ts =>
      rw [List.cons_append, List.cons_append, List.intercalate_cons_cons, ← List.cons_append,
        ih (by simp), List.intercalate_cons_cons]
      simp

theorem splitOn_render (p : RootedPath) : p.render.splitOn 0x2f = [] :: p.pieces := by
  rw [render, splitOn_self, pieces]
  by_cases hs : p.segments = []
  · have hd : p.directory = false := by
      by_contra h
      exact p.segments_ne_nil (by simpa using h) hs
    simp [hs, hd]
  · rw [if_neg hs]
    have hno : ∀ s ∈ p.segments, (0x2f : UInt16) ∉ s := fun s h => (p.plain s h).notMem
    cases hd : p.directory with
    | false => simp [List.splitOn_intercalate _ hno hs]
    | true =>
      simp only [if_true]
      rw [← intercalate_append_nil hs, List.splitOn_intercalate _ _ (by simp)]
      intro s h
      rcases List.mem_append.mp h with h | h
      · exact hno s h
      · simp [List.mem_singleton.mp h]

theorem getLast?_intercalate {ss : List JsString} (h : ∀ s ∈ ss, IsPlainSegment s) :
    ([0x2f].intercalate ss).getLast? ≠ some 0x2f := by
  induction ss with
  | nil => simp
  | cons s ss ih =>
    have hs := h s (by simp)
    cases ss with
    | nil =>
      rw [List.intercalate_singleton]
      intro he
      exact hs.notMem (List.mem_of_getLast? he)
    | cons t ts =>
      have ht : ([0x2f].intercalate (t :: ts)) ≠ [] := by
        have := (h t (by simp)).ne_nil
        cases ts with
        | nil => simpa using this
        | cons u us => simp [List.intercalate_cons_cons]
      rw [List.intercalate_cons_cons, List.getLast?_append_of_ne_nil _ ht]
      exact ih fun x hx => h x (List.mem_cons_of_mem _ hx)

/-- A rendered path ends in a slash exactly when it is the root or a directory. -/
theorem getLast?_render (p : RootedPath) :
    p.render.getLast? = some 0x2f ↔ p.segments = [] ∨ p.directory = true := by
  rw [render]
  cases hd : p.directory with
  | true => simp [List.getLast?_cons]
  | false =>
    simp only [Bool.false_eq_true, or_false, if_false, List.append_nil]
    by_cases hs : p.segments = []
    · simp [hs]
    · have hne : [0x2f].intercalate p.segments ≠ [] := by
        obtain ⟨s, ss, he⟩ := List.exists_cons_of_ne_nil hs
        have hp := (p.plain s (by simp [he])).ne_nil
        rw [he]
        cases ss with
        | nil => simpa using hp
        | cons t ts => simp [List.intercalate_cons_cons]
      obtain ⟨x, xs, he⟩ := List.exists_cons_of_ne_nil hne
      have hl := getLast?_intercalate p.plain
      rw [he] at hl ⊢
      rw [List.getLast?_cons_cons]
      simp [hs, hl]

/-- The second character of a rendered path is no slash. -/
theorem render_second (p : RootedPath) : ∀ s, p.render ≠ 0x2f :: 0x2f :: s := by
  intro s he
  have hp := p.splitOn_render
  rw [he, splitOn_self, splitOn_self, pieces] at hp
  have hp := (List.cons.inj hp).2
  by_cases hs : p.segments = []
  · rw [if_pos hs] at hp
    simp at hp
  · obtain ⟨t, ts, ht⟩ := List.exists_cons_of_ne_nil hs
    rw [if_neg hs, ht, List.cons_append] at hp
    exact (p.plain t (by simp [ht])).ne_nil (List.cons.inj hp).1.symm

end RootedPath

end Lib
