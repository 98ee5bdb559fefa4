import DocHarvest.Proofs.Format.Lines

/-! The lines and the array hold the same texts, one for each record: a line break ends each of them
there, and commas part them here. -/

namespace DocHarvest

namespace Json

mutual

/-- Without indentation the depth leaves no trace. -/
lemma write_compact_depth (d d' : Nat) : ∀ j : Json, write .compact d j = write .compact d' j
  | null => rfl
  | bool _ => rfl
  | text _ => rfl
  | array [] => rfl
  | array (x :: xs) => by
    have hx := write_compact_depth (d + 1) (d' + 1) x
    have hxs := writeItems_compact_depth (d + 1) (d' + 1) xs
    simp [write, hx, hxs]
  | object [] => rfl
  | object (m :: ms) => by
    have hm := writeMember_compact_depth (d + 1) (d' + 1) m
    have hms := writeMembers_compact_depth (d + 1) (d' + 1) ms
    simp [write, hm, hms]

lemma writeItems_compact_depth (d d' : Nat) :
    ∀ xs : List Json, writeItems .compact d xs = writeItems .compact d' xs
  | [] => rfl
  | x :: xs => by
    have hx := write_compact_depth d d' x
    have hxs := writeItems_compact_depth d d' xs
    simp [writeItems, hx, hxs]

lemma writeMember_compact_depth (d d' : Nat) :
    ∀ m : String × Json, writeMember .compact d m = writeMember .compact d' m
  | (_, value) => by
    have hv := write_compact_depth d d' value
    simp [writeMember, hv]

lemma writeMembers_compact_depth (d d' : Nat) :
    ∀ ms : List (String × Json), writeMembers .compact d ms = writeMembers .compact d' ms
  | [] => rfl
  | m :: ms => by
    have hm := writeMember_compact_depth d d' m
    have hms := writeMembers_compact_depth d d' ms
    simp [writeMembers, hm, hms]

end

lemma intercalate_write (d : Nat) (x : Json) (xs : List Json) :
    [','].intercalate ((x :: xs).map (write .compact d)) =
      write .compact d x ++ writeItems .compact d xs := by
  induction xs generalizing x with
  | nil => simp [writeItems]
  | cons y ys ih =>
    rw [List.map_cons, List.map_cons, List.intercalate_cons_cons, ← List.map_cons, ih y, writeItems]
    simp

lemma write_array_compact (d : Nat) (xs : List Json) :
    write .compact d (array xs) = '[' :: [','].intercalate (xs.map (write .compact 0)) ++ [']'] := by
  have hd : write .compact 0 = write .compact (d + 1) := funext (write_compact_depth 0 (d + 1))
  cases xs with
  | nil => rfl
  | cons x xs =>
    rw [hd, intercalate_write, write]
    simp

end Json

namespace Text

lemma count_lines {ls : List (List Char)} (h : ∀ l ∈ ls, '\n' ∉ l) :
    (ls.flatMap (· ++ ['\n'])).count '\n' = ls.length := by
  induction ls with
  | nil => rfl
  | cons l ls ih =>
    rw [List.forall_mem_cons] at h
    rw [List.flatMap_cons, List.count_append, List.count_append, List.count_eq_zero_of_not_mem h.1,
      ih h.2, List.length_cons, List.count_singleton_self]
    omega

lemma getLast?_lines (ls : List (List Char)) :
    (ls.flatMap (· ++ ['\n'])).getLast? = if ls = [] then none else some '\n' := by
  rcases ls.eq_nil_or_concat with rfl | ⟨ls, l, rfl⟩
  · rfl
  · simp [List.flatMap_append]

end Text

namespace Format

/-- The text of each record, without indentation. -/
def texts (records : List Record) : List String :=
  records.map fun r => r.toJson.render .compact

lemma map_toList_texts (records : List Record) :
    (texts records).map String.toList = records.map line := by
  simp [texts, line, Json.render]

lemma render_array (records : List Record) :
    (array false).render records = "[" ++ ",".intercalate (texts records) ++ "]\n" := by
  have hw : (records.map Record.toJson).map (Json.write .compact 0) =
      (texts records).map String.toList := by
    rw [map_toList_texts, List.map_map]
    rfl
  rw [render, Json.render, if_neg Bool.false_ne_true, Json.write_array_compact, hw,
    ← String.toList_inj]
  simp [String.toList_intercalate]

theorem render_lines (records : List Record) :
    (lines.render records).toList.count '\n' = records.length ∧
      (lines.render records).toList.getLast? = (if records = [] then none else some '\n') ∧
      (lines.render records).toList.splitOn '\n' = (texts records).map String.toList ++ [[]] ∧
      (array false).render records = "[" ++ ",".intercalate (texts records) ++ "]\n" := by
  have hn : ∀ l ∈ records.map line, '\n' ∉ l := List.forall_mem_map.2 fun r _ => newline_notMem_line r
  refine ⟨?_, ?_, ?_, render_array records⟩
  · rw [toList_render_lines, Text.count_lines hn, List.length_map]
  · rw [toList_render_lines, Text.getLast?_lines]
    simp only [List.map_eq_nil_iff]
  · rw [splitOn_render_lines, map_toList_texts]

end Format

end DocHarvest
