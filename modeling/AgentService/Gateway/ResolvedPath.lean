import AgentService.Gateway.BaseReference

/-!
# What `resolvePath` yields

The loop of `resolvePath` keeps a builder with a provisional leading slash and a flag that some
`..` segments reset. Behind that slash no segment is ever a dot segment, whatever was read, and
nothing stands there while the flag is up. So the path that comes out is rooted, free of dot
segments and a fixpoint of resolving.
-/

namespace AgentService
open Lib

/-- No segment of a path is `.` or `..`. -/
def IsDotFree (p : JsString) : Prop := ∀ e ∈ p.splitOn 0x2f, e ≠ js "." ∧ e ≠ js ".."

/-- The path that `resolvePath` walks over: `full`. -/
def mergedPath (base ref : JsString) : JsString :=
  if ref = [] then base
  else if ref.head? = some 0x2f then ref
  else
    (match lastIndexOf 0x2f base with
      | some i => base.take (i + 1)
      | none => []) ++ ref

/-! ## The builder -/

/-- What the loop keeps of its builder and its flag. -/
structure IsBuilder (st : JsString × Bool) (kept : JsString) : Prop where
  text : st.1 = 0x2f :: kept
  dotFree : IsDotFree kept
  first : st.2 = true → kept = []

theorem isDotFree_nil : IsDotFree [] := by
  intro e he
  rw [List.splitOn_nil, List.mem_singleton] at he
  subst he
  exact ⟨by simp [js], by simp [js]⟩

theorem IsDotFree.rooted {p : JsString} (h : IsDotFree p) : IsDotFree (0x2f :: p) := by
  intro e he
  rw [splitOn_self] at he
  rcases List.mem_cons.mp he with rfl | he
  · exact isDotFree_nil _ (by simp)
  · exact h e he

/-- One more segment behind a path without dot segments. -/
theorem IsDotFree.append {p elem : JsString} (h : IsDotFree p) (hslash : 0x2f ∉ elem)
    (helem : elem ≠ js "." ∧ elem ≠ js "..") : IsDotFree (p ++ 0x2f :: elem) := by
  intro e he
  rw [splitOn_last hslash] at he
  rcases List.mem_append.mp he with he | he
  · exact h e he
  · rw [List.mem_singleton.mp he]
    exact helem

/-- A path cut in front of its last slash. -/
theorem IsDotFree.of_append {pre post : JsString} (h : IsDotFree (pre ++ 0x2f :: post))
    (hslash : 0x2f ∉ post) : IsDotFree pre := by
  intro e he
  apply h e
  rw [splitOn_last hslash]
  exact List.mem_append_left _ he

/-- One element more: `.` lowers the flag, `..` takes the last segment back, any other is kept. -/
theorem IsBuilder.next {st : JsString × Bool} {kept elem : JsString} (h : IsBuilder st kept)
    (hslash : 0x2f ∉ elem) : ∃ kept', IsBuilder (resolveElement st elem) kept' := by
  obtain ⟨dst, first⟩ := st
  obtain ⟨rfl, hfree, hfirst⟩ := h
  by_cases hdot : elem = js "."
  · refine ⟨kept, ?_, hfree, ?_⟩
    · rw [resolveElement, if_pos hdot]
    · rw [resolveElement, if_pos hdot]
      intro hf
      cases hf
  by_cases hdots : elem = js ".."
  · rcases lastIndexOf_cases 0x2f kept with ⟨-, hnone⟩ | ⟨pre, post, rfl, hpost, hlast⟩
    · have hstep : resolveElement (0x2f :: kept, first) elem = (js "/", true) := by
        rw [resolveElement, if_neg hdot, if_pos hdots]
        simp [hnone]
      rw [hstep]
      exact ⟨[], rfl, isDotFree_nil, fun _ => rfl⟩
    · have hstep : resolveElement (0x2f :: (pre ++ 0x2f :: post), first) elem = (0x2f :: pre,
          first) := by
        rw [resolveElement, if_neg hdot, if_pos hdots]
        simp [hlast]
      rw [hstep]
      refine ⟨pre, rfl, hfree.of_append hpost, ?_⟩
      intro hf
      exact absurd (hfirst hf) (by simp)
  · rw [resolveElement_of_not_dot ⟨hdot, hdots⟩]
    cases first with
    | true =>
      obtain rfl := hfirst rfl
      refine ⟨elem, rfl, ?_, by simp⟩
      intro e he
      rw [List.splitOn_eq_singleton hslash, List.mem_singleton] at he
      exact he ▸ ⟨hdot, hdots⟩
    | false => exact ⟨kept ++ 0x2f :: elem, by simp, hfree.append hslash ⟨hdot, hdots⟩, by simp⟩

theorem IsBuilder.walk {elems : List JsString} (hslash : ∀ e ∈ elems, 0x2f ∉ e)
    {st : JsString × Bool} {kept : JsString} (h : IsBuilder st kept) :
    ∃ kept', IsBuilder (elems.foldl resolveElement st) kept' := by
  induction elems generalizing st kept with
  | nil => exact ⟨kept, h⟩
  | cons e elems ih =>
    obtain ⟨kept', h'⟩ := h.next (hslash e List.mem_cons_self)
    exact ih (fun x hx => hslash x (List.mem_cons_of_mem _ hx)) h'

/-! ## The path that comes out -/

/-- The last lines of `resolvePath` take the provisional slash off where another one follows it. -/
theorem isDotFree_trimmed {kept : JsString} (h : IsDotFree kept) :
    let dst : JsString := 0x2f :: kept
    let out := if 1 < dst.length ∧ dst[1]? = some 0x2f then dst.drop 1 else dst
    out.head? = some 0x2f ∧ IsDotFree out := by
  intro dst out
  by_cases hnext : 1 < dst.length ∧ dst[1]? = some 0x2f
  · have hout : out = kept := if_pos hnext
    rw [hout]
    refine ⟨?_, h⟩
    rw [List.head?_eq_getElem?]
    simpa [dst] using hnext.2
  · have hout : out = 0x2f :: kept := if_neg hnext
    rw [hout]
    exact ⟨rfl, h.rooted⟩

/-- `dst` after the loop over the merged path, closed by a slash where a dot segment came last. -/
def closedBuilder (full : JsString) : JsString :=
  let dst := ((full.splitOn 0x2f).foldl resolveElement (js "/", true)).1
  let elem := (full.splitOn 0x2f).getLast?.getD []
  if elem = js "." ∨ elem = js ".." then dst ++ [0x2f] else dst

theorem resolvePath_eq (base ref : JsString) : resolvePath base ref =
    if mergedPath base ref = [] then []
    else
      let dst := closedBuilder (mergedPath base ref)
      if 1 < dst.length ∧ dst[1]? = some 0x2f then dst.drop 1 else dst := rfl

theorem closedBuilder_spec (full : JsString) :
    ∃ kept, closedBuilder full = 0x2f :: kept ∧ IsDotFree kept := by
  have hslash : ∀ e ∈ full.splitOn 0x2f, 0x2f ∉ e := fun e he => notMem_of_mem_splitOn he
  have hstart : IsBuilder (js "/", true) [] := ⟨rfl, isDotFree_nil, fun _ => rfl⟩
  obtain ⟨kept, htext, hfree, -⟩ := hstart.walk hslash
  have hclosed : IsDotFree (kept ++ [0x2f]) := hfree.append (by simp) (isDotFree_nil [] (by simp))
  rw [closedBuilder]
  simp only [htext]
  split
  · exact ⟨kept ++ [0x2f], rfl, hclosed⟩
  · exact ⟨kept, rfl, hfree⟩

theorem resolvePath_of_merged {base ref : JsString} (h : mergedPath base ref ≠ []) :
    (resolvePath base ref).head? = some 0x2f ∧ IsDotFree (resolvePath base ref) := by
  obtain ⟨kept, htext, hfree⟩ := closedBuilder_spec (mergedPath base ref)
  rw [resolvePath_eq, if_neg h, htext]
  exact isDotFree_trimmed hfree

/-- The path that `resolvePath` yields is empty exactly where the merged path is; any other is
rooted, has no dot segment, and resolving it again leaves it as it is. -/
theorem resolvePath_rooted_dotFree_fixpoint (base ref : JsString) :
    (resolvePath base ref = [] ↔ mergedPath base ref = []) ∧
      (mergedPath base ref ≠ [] →
        (resolvePath base ref).head? = some 0x2f ∧
          (∀ e ∈ (resolvePath base ref).splitOn 0x2f, e ≠ js "." ∧ e ≠ js "..") ∧
          resolvePath (resolvePath base ref) [] = resolvePath base ref) := by
  constructor
  · constructor
    · intro hnil
      by_contra hmerged
      have hhead := (resolvePath_of_merged hmerged).1
      rw [hnil] at hhead
      cases hhead
    · intro hmerged
      rw [resolvePath_eq, if_pos hmerged]
  · intro hmerged
    obtain ⟨hroot, hfree⟩ := resolvePath_of_merged hmerged
    exact ⟨hroot, hfree, resolvePath_self hroot hfree⟩

example : resolvePath (js "/a/b/") (js "..//./c/..") = js "/a//" := by decide

end AgentService
