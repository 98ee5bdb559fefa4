import DocHarvest.Block.Tag
import DocHarvest.Proofs.Text.Cutting

/-! Markers in a comment: stars that only blanks part from an at sign. -/

namespace DocHarvest.Block

open Text

lemma marker?_star {blanks : List Char} (h : ∀ c ∈ blanks, isBlank c) (body : List Char) :
    marker? ('*' :: (blanks ++ '@' :: body)) = some ('*' :: (blanks ++ ['@']), body) := by
  have hstop : ∀ c ∈ ('@' :: body).head?, ¬isBlank c := by
    intro c hc
    cases hc
    decide
  rw [marker?, dropWhile_append_stop h hstop, takeWhile_append_stop h hstop]
  rfl

lemma eq_of_marker? {s lead body : List Char} (h : marker? s = some (lead, body)) :
    ∃ blanks, (∀ c ∈ blanks, isBlank c) ∧ s = '*' :: (blanks ++ '@' :: body) ∧
      lead = '*' :: (blanks ++ ['@']) := by
  cases s with
  | nil => cases h
  | cons c s =>
    rw [marker?] at h
    split at h
    · cases h
    · next a t hd =>
      split at h
      · next hm =>
        cases h
        simp only [isStar, Bool.and_eq_true, beq_iff_eq] at hm
        obtain ⟨rfl, rfl⟩ := hm
        refine ⟨s.takeWhile isBlank, fun c hc => List.mem_takeWhile_imp hc, ?_, by simp⟩
        rw [← hd, List.takeWhile_append_dropWhile]
      · cases h

lemma marker?_eq_none_of_ne {c : Char} (h : c ≠ '*') (s : List Char) : marker? (c :: s) = none := by
  cases hm : marker? (c :: s) with
  | none => rfl
  | some p =>
    obtain ⟨blanks, -, he, -⟩ := eq_of_marker? hm
    cases he
    exact (h rfl).elim

lemma marker?_star_eq_none {s : List Char} (h : (s.dropWhile isBlank).head? ≠ some '@') :
    marker? ('*' :: s) = none := by
  cases hm : marker? ('*' :: s) with
  | none => rfl
  | some p =>
    obtain ⟨blanks, hb, he, -⟩ := eq_of_marker? hm
    cases he
    refine (h ?_).elim
    rw [head?_dropWhile_append hb]
    rfl

lemma atMarker_iff {s : List Char} :
    atMarker s ↔ ∃ before blanks body, (∀ c ∈ before, isBlank c) ∧ (∀ c ∈ blanks, isBlank c) ∧
      s = before ++ '*' :: (blanks ++ '@' :: body) := by
  rw [atMarker, Option.isSome_iff_exists]
  constructor
  · rintro ⟨⟨lead, body⟩, h⟩
    obtain ⟨blanks, hb, he, -⟩ := eq_of_marker? h
    refine ⟨s.takeWhile isBlank, blanks, body, fun c hc => List.mem_takeWhile_imp hc, hb, ?_⟩
    rw [← he, trimStart, List.takeWhile_append_dropWhile]
  · rintro ⟨before, blanks, body, hw, hb, rfl⟩
    have hstop : ∀ c ∈ ('*' :: (blanks ++ '@' :: body)).head?, ¬isBlank c := by
      intro c hc
      cases hc
      decide
    exact ⟨_, by rw [trimStart, dropWhile_append_stop hw hstop, marker?_star hb]⟩

lemma commentItems_of_none {c : Char} {s : List Char} (h : marker? (c :: s) = none) :
    commentItems (c :: s) = commentItems s := by
  rw [commentItems]
  split
  · rfl
  · next hm =>
    rw [h] at hm
    cases hm

lemma commentItems_of_some {s lead body : List Char} (h : marker? s = some (lead, body))
    (hb : (breakWhere atMarker body).1 ≠ []) :
    commentItems s =
      (lead ++ (breakWhere atMarker body).1) :: commentItems (breakWhere atMarker body).2 := by
  cases s with
  | nil => cases h
  | cons c s =>
    rw [commentItems]
    split
    · next hm =>
      rw [h] at hm
      cases hm
    · next hm =>
      rw [h] at hm
      cases hm
      rw [if_neg (by simpa using hb)]

lemma commentItems_of_empty {c : Char} {s lead body : List Char}
    (h : marker? (c :: s) = some (lead, body)) (hb : (breakWhere atMarker body).1 = []) :
    commentItems (c :: s) = commentItems s := by
  rw [commentItems]
  split
  · rfl
  · next hm =>
    rw [h] at hm
    cases hm
    rw [if_pos (by simpa using hb)]

end DocHarvest.Block
