import DocHarvest.Proofs.Text.Cutting

/-! Positions in a text: what stands at one, the part between two of them, and where a text is cut. -/

namespace DocHarvest.Text

variable {s u : List Char} {p : Nat}

lemma drop_succ {c : Char} (h : s.drop p = c :: u) : s.drop (p + 1) = u := by
  rw [← List.tail_drop, h]
  rfl

lemma lt_length_of_drop {c : Char} (h : s.drop p = c :: u) : p < s.length := by
  by_contra hle
  rw [List.drop_eq_nil_iff.2 (not_lt.1 hle)] at h
  cases h

lemma lt_length_of_getElem? {c : Char} (h : s[p]? = some c) : p < s.length :=
  (List.getElem?_eq_some_iff.1 h).1

lemma getElem?_of_drop_cons {c : Char} (h : s.drop p = c :: u) : s[p]? = some c := by
  rw [← List.head?_drop, h, List.head?_cons]

lemma getElem?_of_drop {before after : List Char} {c : Char} (h : s.drop p = before ++ c :: after) :
    s[p + before.length]? = some c := by
  rw [← List.getElem?_drop, h]
  simp

lemma drop_of_getElem? {c : Char} (h : s[p]? = some c) : s.drop p = c :: s.drop (p + 1) := by
  obtain ⟨hp, rfl⟩ := List.getElem?_eq_some_iff.1 h
  exact List.drop_eq_getElem_cons hp

lemma pair_isInfix_iff {x y : Char} :
    [x, y] <:+: s ↔ ∃ p : Nat, s[p]? = some x ∧ s[p + 1]? = some y := by
  constructor
  · rintro ⟨before, after, rfl⟩
    exact ⟨before.length, by simp, by simp⟩
  · rintro ⟨p, hx, hy⟩
    refine ⟨s.take p, s.drop (p + 2), ?_⟩
    rw [List.append_assoc, List.cons_append, List.cons_append, List.nil_append, ← drop_of_getElem? hy,
      ← drop_of_getElem? hx, List.take_append_drop]

lemma extract_append_drop {q : Nat} (h : p ≤ q) : s.extract p q ++ s.drop q = s.drop p := by
  have hq : s.drop q = (s.drop p).drop (q - p) := by rw [List.drop_drop, Nat.add_sub_cancel' h]
  rw [List.extract_eq_take_drop, hq, List.take_append_drop]

lemma eq_extract {q : Nat} (h : u ++ s.drop q = s.drop p) (hpq : p ≤ q) : u = s.extract p q :=
  List.append_cancel_right (h.trans (extract_append_drop hpq).symm)

/-- A text is cut at the first position where the remaining text is as it should be, or at its end. -/
lemma exists_isLeast_breakWhere {here : List Char → Bool} {P : Nat → Prop}
    (hP : ∀ p, here (s.drop p) ↔ P p) (hu : s.drop p = u) (hp : p ≤ s.length) :
    ∃ e, IsLeast {q | p ≤ q ∧ (P q ∨ q = s.length)} e ∧ (breakWhere here u).2 = s.drop e := by
  induction u generalizing p with
  | nil =>
    have he : p = s.length := hp.antisymm (List.drop_eq_nil_iff.1 hu)
    exact ⟨p, ⟨⟨le_rfl, .inr he⟩, fun q hq => hq.1⟩, hu.symm⟩
  | cons c u ih =>
    have hlt := lt_length_of_drop hu
    rw [breakWhere, ← hu]
    split
    · next hc => exact ⟨p, ⟨⟨le_rfl, .inl ((hP p).1 hc)⟩, fun q hq => hq.1⟩, rfl⟩
    · next hc =>
      obtain ⟨e, ⟨⟨hpe, he⟩, hmin⟩, hd⟩ := ih (drop_succ hu) hlt
      refine ⟨e, ⟨⟨by omega, he⟩, fun q hq => ?_⟩, hd⟩
      -- The cut is not at `p` itself.
      rcases hq.1.eq_or_lt with rfl | hpq
      · exact (hq.2.elim (fun h => hc ((hP p).2 h)) hlt.ne).elim
      · exact hmin ⟨hpq, hq.2⟩

end DocHarvest.Text
