import DocHarvest.Proofs.List
import DocHarvest.Proofs.Text.Cutting

/-! Lines of a text, as they come from splitting it at its line breaks. -/

namespace DocHarvest.Text

lemma splitOn_cons_of_ne {c : Char} (h : c ≠ '\n') (s : List Char) :
    (c :: s).splitOn '\n' = (s.splitOn '\n').modifyHead (c :: ·) := by
  rw [List.splitOn_cons_eq_if_modifyHead, if_neg (by simpa using h)]

lemma splitOn_newline (s : List Char) : ('\n' :: s).splitOn '\n' = [] :: s.splitOn '\n' := by
  rw [List.splitOn_cons_eq_if_modifyHead, if_pos (by rfl)]

lemma exists_splitOn_eq (s : List Char) : ∃ l ls, s.splitOn '\n' = l :: ls :=
  List.exists_cons_of_ne_nil (List.splitOn_ne_nil '\n' s)

lemma tail_splitOn_cons {c : Char} (h : c ≠ '\n') (s : List Char) :
    ((c :: s).splitOn '\n').tail = (s.splitOn '\n').tail := by
  obtain ⟨l, ls, hs⟩ := exists_splitOn_eq s
  rw [splitOn_cons_of_ne h, hs]
  rfl

lemma exists_line (a b : List Char) {x : Char} (hx : x ≠ '\n') :
    ∃ l ∈ ((a ++ '\n' :: x :: b).splitOn '\n').tail, l.head? = some x := by
  obtain ⟨l, ls, hb⟩ := exists_splitOn_eq b
  obtain ⟨k, ks, ha⟩ := exists_splitOn_eq a
  refine ⟨x :: l, ?_, rfl⟩
  rw [List.splitOn_append_cons_self, ha, splitOn_cons_of_ne hx, hb, List.cons_append,
    List.tail_cons]
  exact List.mem_append_right ks List.mem_cons_self

/-- A line goes on to the next line break. -/
lemma takeWhile_mem_splitOn {before : List Char} (h : before = [] ∨ before.getLast? = some '\n')
    (after : List Char) : after.takeWhile (· != '\n') ∈ (before ++ after).splitOn '\n' := by
  have hfirst : after.takeWhile (· != '\n') ∈ after.splitOn '\n' :=
    List.mem_of_head? (head?_splitOnP _ after)
  rcases h with rfl | hl
  · exact hfirst
  · obtain ⟨lines, rfl⟩ := List.getLast?_eq_some_iff.1 hl
    rw [List.append_assoc, List.singleton_append, List.splitOn_append_cons_self]
    exact List.mem_append_right _ hfirst

end DocHarvest.Text
