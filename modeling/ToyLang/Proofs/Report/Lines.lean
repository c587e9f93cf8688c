import Mathlib.Algebra.Ring.Nat
import ToyLang.Diagnostic

/-!
# Lines of output

`Text.lines` divides a text at its line feeds. The lines of texts that are joined by line feeds are
the lines of these texts one after the other (`Text.lines_intercalate`), and these are the texts
themselves if and only if none of them has a line feed (`Text.flatMap_lines_eq_self_iff`). For the
rendered diagnostics this says what their lines are (`Diagnostics.lines_render`).
-/

set_option autoImplicit false

namespace ToyLang

namespace Text

variable {s : String} {ss : List String}

/-- The lines of a text, as its line feeds divide it. The empty text has none. -/
def lines (s : String) : List String :=
  if s = "" then [] else (s.toList.splitOn '\n').map String.ofList

/-- The number of line feeds in a text. -/
def lineFeeds (s : String) : Nat := s.toList.count '\n'

theorem lineFeeds_eq_zero_iff : lineFeeds s = 0 ↔ '\n' ∉ s.toList := List.count_eq_zero

@[simp] theorem lineFeeds_append (s t : String) :
    lineFeeds (s ++ t) = lineFeeds s + lineFeeds t := by
  rw [lineFeeds, String.toList_append, List.count_append]
  rfl

theorem length_splitOn (cs : List Char) :
    (cs.splitOn '\n').length = cs.count '\n' + 1 := by
  induction cs with
  | nil => rfl
  | cons c cs ih =>
    rw [List.splitOn] at ih ⊢
    rw [List.splitOnP_cons_eq_if_modifyHead]
    by_cases hc : c = '\n'
    · simp [hc, ih]
    · simp [hc, ih]

/-- A text has a line more than it has line feeds. -/
theorem length_lines (hs : s ≠ "") : (lines s).length = lineFeeds s + 1 := by
  rw [lines, if_neg hs, List.length_map, length_splitOn, lineFeeds]

theorem lines_of_notMem (hs : s ≠ "") (h : '\n' ∉ s.toList) : lines s = [s] := by
  rw [lines, if_neg hs, List.splitOn_eq_singleton h, List.map_singleton, String.ofList_toList]

theorem lines_append_newline (hs : s ≠ "") {t : String} (ht : t ≠ "") :
    lines (s ++ "\n" ++ t) = lines s ++ lines t := by
  have hne : s ++ "\n" ++ t ≠ "" := by simp [String.append_eq_empty_iff, hs]
  have hlist : (s ++ "\n" ++ t).toList = s.toList ++ '\n' :: t.toList := by simp
  rw [lines, lines, lines, if_neg hne, if_neg hs, if_neg ht, hlist, List.splitOn_append_cons_self,
    List.map_append]

/-- The lines of texts that are joined by line feeds are the lines of these texts. -/
theorem lines_intercalate (h : ∀ s ∈ ss, s ≠ "") :
    lines ("\n".intercalate ss) = ss.flatMap lines := by
  induction ss with
  | nil => rfl
  | cons s ss ih =>
    obtain ⟨hs, hss⟩ := List.forall_mem_cons.1 h
    cases ss with
    | nil => simp
    | cons t ts =>
      have hrest : "\n".intercalate (t :: ts) ≠ "" := by
        cases ts <;> simp [String.intercalate_cons_cons, String.append_eq_empty_iff, hss]
      rw [String.intercalate_cons_cons, lines_append_newline hs hrest, ih hss, ← List.flatMap_cons]

theorem length_flatMap_lines (h : ∀ s ∈ ss, s ≠ "") :
    (ss.flatMap lines).length = ss.length + (ss.map lineFeeds).sum := by
  induction ss with
  | nil => rfl
  | cons s ss ih =>
    obtain ⟨hs, hss⟩ := List.forall_mem_cons.1 h
    rw [List.flatMap_cons, List.length_append, ih hss, length_lines hs, List.length_cons,
      List.map_cons, List.sum_cons]
    omega

/-- Texts are their own lines if and only if none of them has a line feed. -/
theorem flatMap_lines_eq_self_iff (h : ∀ s ∈ ss, s ≠ "") :
    ss.flatMap lines = ss ↔ ∀ s ∈ ss, '\n' ∉ s.toList := by
  constructor
  · intro heq s hs
    have hlength := length_flatMap_lines h
    have hsum : (ss.map lineFeeds).sum = 0 := by
      rw [heq] at hlength
      omega
    exact lineFeeds_eq_zero_iff.1
      (List.sum_eq_zero_iff_forall_eq_nat.1 hsum _ (List.mem_map_of_mem hs))
  · intro hfree
    have hlines : ∀ s ∈ ss, lines s = [s] := fun s hs => lines_of_notMem (h s hs) (hfree s hs)
    rw [List.flatMap_def, List.map_congr_left hlines, ← List.flatMap_def, List.flatMap_singleton']

end Text

/-! ## Rendered diagnostics -/

namespace Diagnostics

/-- What is put out for each diagnostic. -/
def entries (ds : Diagnostics) : List String := ds.items.toList.map fun d => "Error: " ++ d.text

theorem entries_ne_empty (ds : Diagnostics) : ∀ s ∈ ds.entries, s ≠ "" := by
  intro s hs
  obtain ⟨d, -, rfl⟩ := List.mem_map.1 hs
  simp [String.append_eq_empty_iff]

/-- The lines of the rendered diagnostics are those of what is put out for each. -/
theorem lines_render (ds : Diagnostics) : Text.lines ds.render = ds.entries.flatMap Text.lines :=
  Text.lines_intercalate ds.entries_ne_empty

/-- Each diagnostic is a line of output if and only if none of their texts has a line feed. -/
theorem lines_render_eq_entries_iff (ds : Diagnostics) :
    Text.lines ds.render = ds.entries ↔ ∀ d ∈ ds.items, Text.lineFeeds d.text = 0 := by
  rw [lines_render, Text.flatMap_lines_eq_self_iff ds.entries_ne_empty]
  simp [entries, Text.lineFeeds_eq_zero_iff]

end Diagnostics

end ToyLang
