import DocHarvest.Param
import DocHarvest.Proofs.Text.Cutting

/-! The form of a parameter line: which characters a name may have, and how a line that has a form is
read. -/

namespace DocHarvest

open Text

namespace Text

lemma not_inRanges {ranges ranges' : List (Nat × Nat)}
    (h : ∀ r ∈ ranges, ∀ r' ∈ ranges', r.2 < r'.1 ∨ r'.2 < r.1) {c : Char} (hc : inRanges ranges c) :
    ¬inRanges ranges' c := by
  simp only [inRanges, List.any_eq_true, Bool.and_eq_true, decide_eq_true_eq] at hc ⊢
  rintro ⟨r', hr', hc'⟩
  obtain ⟨r, hr, hc⟩ := hc
  have := h r hr r' hr'
  omega

lemma not_isBlank_of_isWord {c : Char} (h : isWord c) : ¬isBlank c := by
  rw [isWord] at h
  split at h
  · rcases (by simpa using h : c.isAlphanum ∨ c = '_') with ha | rfl
    · exact not_isBlank_of_isAlphanum ha
    · decide
  · rw [Bool.or_eq_true, Bool.or_eq_true] at h
    rcases h with (hl | hm) | hh
    · exact not_inRanges (by decide +kernel) hl
    · exact not_inRanges (by decide +kernel) hm
    · exact not_inRanges (by decide +kernel) hh

end Text

namespace Param

lemma isNameChar_iff {c : Char} :
    isNameChar c ↔ isWord c ∨ c = '[' ∨ c = ']' ∨ c = '=' ∨ c = '|' := by
  simp [isNameChar, or_assoc]

lemma not_isBlank_of_isNameChar {c : Char} (h : isNameChar c) : ¬isBlank c := by
  rcases isNameChar_iff.1 h with hw | rfl | rfl | rfl | rfl
  · exact not_isBlank_of_isWord hw
  all_goals decide

lemma description?_append {space description : List Char} (hne : space ≠ [])
    (hs : ∀ c ∈ space, isBlank c) (hd : description ≠ []) (hh : ∀ c ∈ description.head?, ¬isBlank c) :
    description? (space ++ description) = some description := by
  obtain ⟨x, space, rfl⟩ := List.exists_cons_of_ne_nil hne
  obtain ⟨y, description, rfl⟩ := List.exists_cons_of_ne_nil hd
  rw [description?, takeWhile_append_stop hs hh, dropWhile_append_stop hs hh]

/-- The token of a name ends where blanks begin. -/
lemma nameAndDescription?_append {gap name space description : List Char} (hg : ∀ c ∈ gap, isBlank c)
    (hne : name ≠ []) (hn : ∀ c ∈ name, isNameChar c) (hse : space ≠ []) (hs : ∀ c ∈ space, isBlank c)
    (hd : description ≠ []) (hh : ∀ c ∈ description.head?, ¬isBlank c) :
    nameAndDescription? (gap ++ (name ++ (space ++ description))) = some (name, description) := by
  obtain ⟨x, name, rfl⟩ := List.exists_cons_of_ne_nil hne
  obtain ⟨y, space, rfl⟩ := List.exists_cons_of_ne_nil hse
  have hstart : ∀ c ∈ (x :: name ++ (y :: space ++ description)).head?, ¬isBlank c := by
    intro c hc
    cases hc
    exact not_isBlank_of_isNameChar (hn x List.mem_cons_self)
  have hstop : ∀ c ∈ (y :: space ++ description).head?, ¬isNameChar c := by
    intro c hc hname
    cases hc
    exact not_isBlank_of_isNameChar hname (hs y List.mem_cons_self)
  rw [nameAndDescription?, trimStart, dropWhile_append_stop hg hstart, takeWhile_append_stop hn hstop,
    dropWhile_append_stop hn hstop, description?_append hse hs hd hh]
  rfl

lemma braced?_append {types : List Char} (hne : types ≠ []) (h : '}' ∉ types) (rest : List Char) :
    braced? ('{' :: (types ++ '}' :: rest)) = some (types, rest) := by
  obtain ⟨x, types, rfl⟩ := List.exists_cons_of_ne_nil hne
  rw [braced?, cutAtChar?_append h]

lemma braced?_eq_none {s : List Char} (h : s.head? ≠ some '{') : braced? s = none := by
  rw [braced?.eq_def]
  split
  · exact (h rfl).elim
  · rfl

lemma formHere?_of_braced {s types rest name description : List Char}
    (hb : braced? s = some (types, rest)) (hn : nameAndDescription? rest = some (name, description)) :
    formHere? s = some ⟨some types, name, description⟩ := by
  rw [formHere?, hb]
  dsimp only
  rw [hn]
  rfl

lemma formHere?_of_not_braced {s name description : List Char} (hb : braced? s = none)
    (hn : nameAndDescription? s = some (name, description)) :
    formHere? s = some ⟨none, name, description⟩ := by
  rw [formHere?, hb]
  dsimp only
  rw [hn]
  rfl

lemma form?_of_formHere? {s : List Char} {f : Form} (h : formHere? s = some f) : form? s = some f := by
  cases s with
  | nil => cases h
  | cons c s => rw [form?, h]

end Param

end DocHarvest
