import DocHarvest.Proofs.Block.Marker
import DocHarvest.Proofs.Text.Lines

/-! The decoration of a comment: a star before each line, which goes away again when the line is
read, and which never makes a marker. -/

namespace DocHarvest.Block

open Text

/-- A content with a star before every line but the first. -/
def decorate (content : List Char) : List Char :=
  content.flatMap fun c => if c = '\n' then ['\n', ' ', '*', ' '] else [c]

/-- A text that has no marker, nor gets one when it is decorated. -/
structure Unmarked (s : List Char) : Prop where
  marker : ∀ before blanks after, (∀ c ∈ blanks, isBlank c) →
    s ≠ before ++ '*' :: (blanks ++ '@' :: after)
  line : ∀ l ∈ (s.splitOn '\n').tail, ∀ c ∈ l.head?, ¬isBlank c ∧ c ≠ '@'

lemma decorate_append (s t : List Char) : decorate (s ++ t) = decorate s ++ decorate t :=
  List.flatMap_append

lemma decorate_cons_of_ne {c : Char} (h : c ≠ '\n') (s : List Char) :
    decorate (c :: s) = c :: decorate s := by
  simp [decorate, h]

lemma decorate_newline (s : List Char) :
    decorate ('\n' :: s) = '\n' :: ' ' :: '*' :: ' ' :: decorate s := rfl

lemma decorate_eq_self {s : List Char} (h : '\n' ∉ s) : decorate s = s := by
  induction s with
  | nil => rfl
  | cons c s ih =>
    simp only [List.mem_cons, not_or] at h
    rw [decorate_cons_of_ne (Ne.symm h.1), ih h.2]

lemma splitOn_decorate (s : List Char) :
    (decorate s).splitOn '\n' =
      (s.splitOn '\n').head (List.splitOn_ne_nil _ _) ::
        (s.splitOn '\n').tail.map fun l => ' ' :: '*' :: ' ' :: l := by
  induction s with
  | nil => rfl
  | cons c s ih =>
    obtain ⟨l, ls, hs⟩ := List.exists_cons_of_ne_nil (List.splitOn_ne_nil '\n' s)
    simp only [hs, List.head_cons, List.tail_cons] at ih
    by_cases hc : c = '\n'
    · have hne : ' ' ≠ '\n' ∧ '*' ≠ '\n' := by decide
      simp [hc, decorate_newline, splitOn_newline, splitOn_cons_of_ne, hne, ih, hs]
    · simp [decorate_cons_of_ne hc, splitOn_cons_of_ne hc, ih, hs]

lemma stripLine_star {l : List Char} (h : ∀ c ∈ l.head?, ¬isIndent c) :
    stripLine ('*' :: ' ' :: l) = l ∧ stripLine (' ' :: '*' :: ' ' :: l) = l := by
  have hd : l.dropWhile isIndent = l := by
    cases l with
    | nil => rfl
    | cons c l => exact List.dropWhile_cons_of_neg (h c rfl)
  have hi : isIndent ' ' = true ∧ isIndent '*' = false ∧ isStar '*' = true := by decide
  simp [stripLine, hi, hd]

lemma map_stripLine_decorate {s : List Char}
    (h : ∀ l ∈ s.splitOn '\n', ∀ c ∈ l.head?, ¬isIndent c) :
    (('*' :: ' ' :: decorate s).splitOn '\n').map stripLine = s.splitOn '\n' := by
  have hne : ' ' ≠ '\n' ∧ '*' ≠ '\n' := by decide
  obtain ⟨l, ls, hs⟩ := List.exists_cons_of_ne_nil (List.splitOn_ne_nil '\n' s)
  have hd := splitOn_decorate s
  simp only [hs, List.head_cons, List.tail_cons] at hd h
  rw [splitOn_cons_of_ne hne.2, splitOn_cons_of_ne hne.1, hd, hs]
  simp only [List.modifyHead_cons, List.map_cons, List.map_map, List.cons.injEq]
  refine ⟨(stripLine_star (h l List.mem_cons_self)).1, ?_⟩
  rw [List.map_congr_left (g := id), List.map_id]
  exact fun k hk => (stripLine_star (h k (List.mem_cons_of_mem l hk))).2

lemma stripDecoration_decorate {s tail : List Char}
    (h : ∀ l ∈ s.splitOn '\n', ∀ c ∈ l.head?, ¬isIndent c) (ht : tail = [] ∨ tail = ['\n', ' ']) :
    stripDecoration ('*' :: ' ' :: (decorate s ++ tail)) = s ++ tail := by
  rcases ht with rfl | rfl
  · rw [List.append_nil, List.append_nil, stripDecoration, map_stripLine_decorate h,
      List.intercalate_splitOn]
  · -- The last line of a comment has no star, and stays as it is.
    have hl : stripLine [' '] = [' '] := by decide
    have hr : [' '].splitOn '\n' = [[' ']] := by decide
    rw [stripDecoration, ← List.cons_append, ← List.cons_append, List.splitOn_append_cons_self,
      List.map_append, map_stripLine_decorate h, hr, List.map_singleton, hl, ← hr,
      ← List.splitOn_append_cons_self, List.intercalate_splitOn]

lemma isBlank_of_isIndent {c : Char} (h : isIndent c) : isBlank c := by
  simp only [isIndent, Bool.or_eq_true, beq_iff_eq] at h
  rcases h with rfl | rfl <;> decide

namespace Unmarked

lemma after_newline {s a b : List Char} {x : Char} (h : Unmarked s) (he : s = a ++ '\n' :: x :: b)
    (hx : x ≠ '\n') : ¬isBlank x ∧ x ≠ '@' := by
  obtain ⟨l, hl, hh⟩ := exists_line a b hx
  exact h.line l (he ▸ hl) x hh

lemma nil : Unmarked [] where
  marker := by simp
  line := by simp

lemma cons {c : Char} {s : List Char} (h : Unmarked s) (hs : c ≠ '*') (hn : c ≠ '\n') :
    Unmarked (c :: s) where
  marker before blanks after hb he := by
    cases before with
    | nil =>
      cases he
      exact hs rfl
    | cons x before =>
      cases he
      exact h.marker before blanks after hb rfl
  line := by
    rw [tail_splitOn_cons hn]
    exact h.line

lemma append {s p : List Char} (h : Unmarked s) (hp : ∀ c ∈ p, c ≠ '*' ∧ c ≠ '\n') :
    Unmarked (p ++ s) := by
  induction p with
  | nil => exact h
  | cons c p ih =>
    have hc := hp c List.mem_cons_self
    exact (ih fun x hx => hp x (List.mem_cons_of_mem c hx)).cons hc.1 hc.2

end Unmarked

lemma head?_dropWhile_decorate {s : List Char}
    (h : ((decorate s).dropWhile isBlank).head? = some '@') :
    ∃ blanks after, (∀ c ∈ blanks, isBlank c) ∧ '\n' ∉ blanks ∧ s = blanks ++ '@' :: after := by
  induction s with
  | nil => cases h
  | cons c s ih =>
    by_cases hn : c = '\n'
    · rw [hn, decorate_newline] at h
      have hb : isBlank '\n' = true ∧ isBlank ' ' = true ∧ isBlank '*' = false := by decide
      simp [hb] at h
    · rw [decorate_cons_of_ne hn] at h
      by_cases hc : isBlank c
      · rw [List.dropWhile_cons_of_pos hc] at h
        obtain ⟨blanks, after, hb, hm, rfl⟩ := ih h
        refine ⟨c :: blanks, after, ?_, ?_, rfl⟩
        · simpa [hc] using hb
        · simpa [Ne.symm hn] using hm
      · rw [List.dropWhile_cons_of_neg hc] at h
        cases h
        exact ⟨[], s, by simp, by simp, rfl⟩

lemma head?_dropWhile_of_star {s before rest d : List Char} (h : Unmarked s)
    (hs : s = before ++ rest) (hd : '*' :: d <:+ decorate rest) :
    (d.dropWhile isBlank).head? ≠ some '@' := by
  induction rest generalizing before with
  | nil => simp [decorate] at hd
  | cons c rest ih =>
    have hs' : s = (before ++ [c]) ++ rest := by simp [hs]
    by_cases hn : c = '\n'
    · rw [hn, decorate_newline, List.suffix_cons_iff, List.suffix_cons_iff, List.suffix_cons_iff,
        List.suffix_cons_iff] at hd
      rcases hd with hd | hd | hd | hd | hd
      · cases hd
      · cases hd
      · -- A star that decorates a line: the line starts with neither a blank nor an at sign.
        intro hh
        cases hd
        rw [List.dropWhile_cons_of_pos (by decide)] at hh
        obtain ⟨blanks, after, hb, hm, rfl⟩ := head?_dropWhile_decorate hh
        rw [hn] at hs
        cases blanks with
        | nil => exact (h.after_newline hs (by decide)).2 rfl
        | cons x blanks =>
          have hx : x ≠ '\n' := fun he => hm (he ▸ List.mem_cons_self)
          exact (h.after_newline hs hx).1 (hb x List.mem_cons_self)
      · cases hd
      · exact ih hs' hd
    · rw [decorate_cons_of_ne hn, List.suffix_cons_iff] at hd
      rcases hd with hd | hd
      · -- A star of the text itself.
        intro hh
        cases hd
        obtain ⟨blanks, after, hb, -, rfl⟩ := head?_dropWhile_decorate hh
        exact h.marker before blanks after hb hs
      · exact ih hs' hd

lemma not_atMarker {s w d : List Char} {x : Char} (h : Unmarked (s ++ [x])) (hx : ¬isBlank x)
    (hw : (w.dropWhile isBlank).head? ≠ some '@') (hd : d <:+ decorate (s ++ [x])) (hne : d ≠ []) :
    ¬atMarker (d ++ w) := by
  have hxn : x ≠ '\n' := by
    rintro rfl
    exact hx (by decide)
  have hdec : decorate (s ++ [x]) = decorate s ++ [x] := by
    rw [decorate_append, decorate_cons_of_ne hxn]
    rfl
  obtain ⟨e, rfl, -⟩ := (List.suffix_concat_iff.1 (hdec ▸ hd)).resolve_left hne
  intro ha
  obtain ⟨before, blanks, after, hbefore, hb, he⟩ := atMarker_iff.1 ha
  have hlong : ∀ y, before ≠ e ++ [x] ++ y := by
    rintro y rfl
    exact hx (hbefore x (by simp))
  -- The star stands before the end of `d`, as the blanks before it cannot reach over `x`.
  rcases List.append_eq_append_iff.1 he with ⟨y, hy, -⟩ | ⟨y, hy, hr⟩
  · exact hlong y hy
  · cases y with
    | nil => exact hlong [] (by simpa using hy.symm)
    | cons z y =>
      obtain ⟨rfl, ht⟩ := List.cons.inj hr
      have hsuf : '*' :: y <:+ decorate (s ++ [x]) := List.IsSuffix.trans ⟨before, hy.symm⟩ hd
      have hh : ((blanks ++ '@' :: after).dropWhile isBlank).head? = some '@' :=
        head?_dropWhile_append hb _
      have hend : y <:+ e ++ [x] := ⟨before ++ ['*'], by simp [hy]⟩
      rw [ht] at hh
      rcases List.suffix_concat_iff.1 hend with rfl | ⟨y, rfl, -⟩
      · exact hw hh
      · change (((y ++ [x]) ++ w).dropWhile isBlank).head? = some '@' at hh
        rw [List.append_assoc, List.singleton_append, head?_dropWhile_stop hx] at hh
        exact head?_dropWhile_of_star h (List.nil_append _).symm hsuf hh

lemma unmarked_iff {s : List Char} :
    Unmarked s ↔ s.tails.all (fun d => (marker? d).isNone) ∧
      (s.splitOn '\n').tail.all fun l => l.head?.all fun c => !isBlank c && c != '@' := by
  have hl : (∀ l ∈ (s.splitOn '\n').tail, ∀ c ∈ l.head?, ¬isBlank c ∧ c ≠ '@') ↔
      (s.splitOn '\n').tail.all fun l => l.head?.all fun c => !isBlank c && c != '@' := by
    simp [Option.all_eq_true]
  rw [← hl]
  refine ⟨fun h => ⟨List.all_eq_true.2 fun d hd => ?_, h.line⟩,
    fun h => ⟨fun before blanks after hb he => ?_, h.2⟩⟩
  · cases hm : marker? d with
    | none => rfl
    | some p =>
      obtain ⟨blanks, hb, he, -⟩ := eq_of_marker? hm
      obtain ⟨before, hbefore⟩ := (List.mem_tails d s).1 hd
      exact (h.marker before blanks p.2 hb (he ▸ hbefore.symm)).elim
  · have hn := List.all_eq_true.1 h.1 ('*' :: (blanks ++ '@' :: after))
      ((List.mem_tails _ s).2 ⟨before, he.symm⟩)
    rw [marker?_star hb] at hn
    cases hn

end DocHarvest.Block
