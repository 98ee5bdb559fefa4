import DocHarvest.Text.Blank
import DocHarvest.Text.Split
import Mathlib

/-! What cutting a text gives when the text is known to be put together from parts. -/

namespace DocHarvest.Text

lemma cutAtChar?_append {c : Char} {before : List Char} (h : c ∉ before) (after : List Char) :
    cutAtChar? c (before ++ c :: after) = some (before, after) := by
  induction before with
  | nil => simp [cutAtChar?]
  | cons x before ih =>
    simp only [List.mem_cons, not_or] at h
    simp [cutAtChar?, Ne.symm h.1, ih h.2]

lemma cutAtChar?_eq_none {c : Char} {s : List Char} (h : c ∉ s) : cutAtChar? c s = none := by
  cases hc : cutAtChar? c s with
  | none => rfl
  | some p => exact (h (by simp [eq_of_cutAtChar? hc])).elim

lemma notMem_of_cutAtChar? {c : Char} {s before after : List Char}
    (h : cutAtChar? c s = some (before, after)) : c ∉ before := by
  induction s generalizing before with
  | nil => cases h
  | cons x s ih =>
    rw [cutAtChar?] at h
    split at h
    · cases h
      exact List.not_mem_nil
    · next hx =>
      obtain ⟨⟨b, a⟩, hb, he⟩ := Option.map_eq_some_iff.1 h
      cases he
      rw [List.mem_cons, not_or]
      exact ⟨fun hc => hx (by simp [hc]), ih hb⟩

lemma not_isInfix_of_cutAt?_none {piece s : List Char} (h : cutAt? piece s = none) :
    ¬piece <:+: s := by
  induction s with
  | nil =>
    rw [cutAt?] at h
    rw [List.infix_nil]
    rintro rfl
    simp at h
  | cons c s ih =>
    rw [cutAt?] at h
    split at h
    · cases h
    · next hp =>
      rw [List.infix_cons_iff, not_or]
      constructor
      · rintro ⟨t, ht⟩
        rw [List.isPrefixOf?_eq_some_iff_append_eq.2 ht] at hp
        cases hp
      · exact ih (Option.map_eq_none_iff.1 h)

lemma hasPiece_iff {piece s : List Char} : hasPiece piece s ↔ piece <:+: s := by
  rw [hasPiece]
  cases h : cutAt? piece s with
  | none => simpa using not_isInfix_of_cutAt?_none h
  | some p => simpa using ⟨p.1, p.2, (eq_of_cutAt? h).symm⟩

/-- The piece where a text is cut is the first: without its last character, there is none before. -/
lemma not_isInfix_of_cutAt? {piece s before after : List Char} (hp : piece ≠ [])
    (h : cutAt? piece s = some (before, after)) : ¬piece <:+: before ++ piece.dropLast := by
  induction s generalizing before with
  | nil =>
    rw [cutAt?, if_neg (by simpa using hp)] at h
    cases h
  | cons c s ih =>
    rw [cutAt?] at h
    split at h
    · cases h
      intro hi
      have hl := hi.length_le
      have hpos := List.length_pos_of_ne_nil hp
      rw [List.nil_append, List.length_dropLast] at hl
      omega
    · next hnone =>
      obtain ⟨⟨b, a⟩, hb, he⟩ := Option.map_eq_some_iff.1 h
      cases he
      rw [List.cons_append, List.infix_cons_iff, not_or]
      refine ⟨fun hpre => ?_, ih hb⟩
      have hs : c :: (b ++ piece.dropLast) <+: c :: s := by
        rw [eq_of_cutAt? hb, List.append_assoc, List.prefix_cons_inj, List.prefix_append_right_inj]
        exact (List.dropLast_prefix piece).trans (List.prefix_append piece after)
      obtain ⟨t, ht⟩ := hpre.trans hs
      rw [List.isPrefixOf?_eq_some_iff_append_eq.2 ht] at hnone
      cases hnone

/-- The first character of a piece is not in the rest of it, so no piece overlaps with another. -/
lemma cutAt?_append {c : Char} {rest before : List Char} (hc : c ∉ rest)
    (h : ¬c :: rest <:+: before) (after : List Char) :
    cutAt? (c :: rest) (before ++ c :: (rest ++ after)) = some (before, after) := by
  induction before with
  | nil =>
    have hp : (c :: rest).isPrefixOf? (c :: (rest ++ after)) = some after :=
      List.isPrefixOf?_eq_some_iff_append_eq.2 rfl
    rw [List.nil_append, cutAt?, hp]
  | cons x before ih =>
    rw [List.infix_cons_iff, not_or] at h
    have hp : (c :: rest).isPrefixOf? (x :: before ++ c :: (rest ++ after)) = none := by
      rw [Option.eq_none_iff_forall_ne_some]
      intro t ht
      have hpre : c :: rest <+: x :: before ++ c :: (rest ++ after) :=
        ⟨t, List.isPrefixOf?_eq_some_iff_append_eq.1 ht⟩
      have hend : x :: before ++ [c] <+: x :: before ++ c :: (rest ++ after) :=
        ⟨rest ++ after, by simp⟩
      -- A piece that begins before the first one would hold that one's first character.
      rcases List.prefix_or_prefix_of_prefix hpre hend with hl | hl
      · rcases List.prefix_concat_iff.1 hl with he | hl
        · obtain ⟨-, rfl⟩ := List.cons.inj he
          exact hc (by simp)
        · exact h.1 hl
      · exact hc ((List.cons_prefix_cons.1 hl).2.subset (by simp))
    rw [List.cons_append] at hp ⊢
    rw [cutAt?, hp, ih h.2]
    rfl

lemma takeWhile_append_stop {p : Char → Bool} {s t : List Char} (hs : ∀ c ∈ s, p c)
    (ht : ∀ c ∈ t.head?, ¬p c) : (s ++ t).takeWhile p = s := by
  rw [List.takeWhile_append_of_pos hs]
  cases t with
  | nil => simp
  | cons c t => simp [ht c rfl]

lemma takeWhile_append_of_notMem {c : Char} {s : List Char} (h : c ∉ s) (t : List Char) :
    (s ++ t).takeWhile (· != c) = s ++ t.takeWhile (· != c) := by
  apply List.takeWhile_append_of_pos
  intro x hx
  rw [bne_iff_ne]
  rintro rfl
  exact h hx

lemma dropWhile_append_stop {p : Char → Bool} {s t : List Char} (hs : ∀ c ∈ s, p c)
    (ht : ∀ c ∈ t.head?, ¬p c) : (s ++ t).dropWhile p = t := by
  rw [List.dropWhile_append_of_pos hs]
  cases t with
  | nil => rfl
  | cons c t => simp [ht c rfl]

lemma exists_append_stop (p : Char → Bool) (s : List Char) :
    ∃ u v, s = u ++ v ∧ (∀ c ∈ u, p c) ∧ ∀ c ∈ v.head?, ¬p c := by
  refine ⟨s.takeWhile p, s.dropWhile p, List.takeWhile_append_dropWhile.symm,
    fun c hc => List.mem_takeWhile_imp hc, fun c hc => ?_⟩
  have hstop := List.head?_dropWhile_not p s
  rw [Option.mem_def.1 hc] at hstop
  simpa using hstop

lemma takeWhile_append_cons {p : Char → Bool} {c : Char} (hc : ¬p c) (s t : List Char) :
    (s ++ c :: t).takeWhile p = s.takeWhile p := by
  induction s with
  | nil => simp [hc]
  | cons x s ih => rw [List.cons_append, List.takeWhile_cons, List.takeWhile_cons, ih]

lemma breakWhere_append_stop {here : List Char → Bool} {s t : List Char}
    (h : ∀ a b, s = a ++ b → b ≠ [] → ¬here (b ++ t)) :
    breakWhere here (s ++ t) = (s ++ (breakWhere here t).1, (breakWhere here t).2) := by
  induction s with
  | nil => rfl
  | cons c s ih =>
    have hc : here (c :: (s ++ t)) = false := by simpa using h [] (c :: s) rfl (by simp)
    have hs : ∀ a b, s = a ++ b → b ≠ [] → ¬here (b ++ t) := fun a b hab =>
      h (c :: a) b (congrArg (c :: ·) hab)
    rw [List.cons_append, breakWhere, hc, ih hs]
    rfl

lemma breakWhere_of_here {here : List Char → Bool} {s : List Char} (h : here s) :
    breakWhere here s = ([], s) := by
  cases s with
  | nil => rfl
  | cons c s => rw [breakWhere, if_pos h]

lemma head?_dropWhile_append {p : Char → Bool} {s : List Char} (hs : ∀ c ∈ s, p c)
    (t : List Char) : ((s ++ t).dropWhile p).head? = (t.dropWhile p).head? := by
  rw [List.dropWhile_append_of_pos hs]

lemma head?_dropWhile_stop {p : Char → Bool} {c : Char} (hc : ¬p c) (s t : List Char) :
    ((s ++ c :: t).dropWhile p).head? = ((s ++ [c]).dropWhile p).head? := by
  induction s with
  | nil => simp [hc]
  | cons x s ih =>
    by_cases hx : p x
    · simpa [hx] using ih
    · simp [hx]

lemma trimEnd_append {s t : List Char} (hs : ∀ c ∈ s.getLast?, ¬isBlank c)
    (ht : ∀ c ∈ t, isBlank c) : trimEnd (s ++ t) = s := by
  have hr : ∀ c ∈ t.reverse, isBlank c := fun c hc => ht c (List.mem_reverse.1 hc)
  have hh : ∀ c ∈ s.reverse.head?, ¬isBlank c := by
    rw [List.head?_reverse]
    exact hs
  rw [trimEnd, trimStart, List.reverse_append, dropWhile_append_stop hr hh, List.reverse_reverse]

lemma not_isBlank_of_toNat {c : Char} (h : 0x21 ≤ c.toNat ∧ c.toNat ≤ 0x7E) : ¬isBlank c := by
  simp only [isBlank, inRanges, blankRanges, List.any_cons, List.any_nil, Bool.or_eq_true,
    Bool.and_eq_true, decide_eq_true_eq, Bool.false_eq_true, or_false]
  omega

lemma toNat_of_isAlphanum {c : Char} (h : c.isAlphanum) : 0x30 ≤ c.toNat ∧ c.toNat ≤ 0x7A := by
  simp only [Char.isAlphanum, Char.isAlpha, Char.isUpper, Char.isLower, Char.isDigit,
    Bool.or_eq_true, Bool.and_eq_true, decide_eq_true_eq, ge_iff_le, UInt32.le_iff_toNat_le,
    Char.reduceVal, UInt32.reduceToNat, Char.toNat_val] at h
  omega

lemma not_isBlank_of_isAlphanum {c : Char} (h : c.isAlphanum) : ¬isBlank c := by
  have hr := toNat_of_isAlphanum h
  apply not_isBlank_of_toNat
  omega

end DocHarvest.Text
