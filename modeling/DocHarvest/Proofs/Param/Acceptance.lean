import DocHarvest.Proofs.Param.Form

/-! Which texts have a form at all, and where in the text the form that is found stands. -/

namespace DocHarvest.Param

open Text

/-- A text that ends with a list of types in braces and blanks after it. -/
def EndsWithTypes (s types : List Char) : Prop :=
  ∃ outer gap, s = outer ++ '{' :: (types ++ '}' :: gap) ∧ types ≠ [] ∧ '}' ∉ types ∧
    ∀ c ∈ gap, isBlank c

/-- The parts of a form where they stand in a text: `before` precedes the name, and `space` comes
between the name and the description. -/
structure Form.StandsIn (f : Form) (before space s : List Char) : Prop where
  text : s = before ++ (f.name ++ (space ++ f.description))
  name_ne : f.name ≠ []
  name : ∀ c ∈ f.name, isNameChar c
  left : ∀ c ∈ before.getLast?, ¬isNameChar c
  right : ∀ c ∈ (space ++ f.description).head?, ¬isNameChar c
  space_ne : space ≠ []
  space : ∀ c ∈ space, isBlank c
  description_ne : f.description ≠ []
  description : ∀ c ∈ f.description.head?, isBlank c → f.description = [c]
  types : ∀ t ∈ f.types, EndsWithTypes before t
  listed : ∀ t, EndsWithTypes before t → f.types.isSome

/-- The least that a form takes: a character of a name, a blank right after it, and one more
character. -/
def HoldsForm (s : List Char) : Prop :=
  ∃ before n b c after, s = before ++ n :: b :: c :: after ∧ isNameChar n ∧ isBlank b

variable {f : Form} {before space s gap name : List Char}

lemma eq_of_description? {description : List Char} (h : description? s = some description) :
    ∃ space, s = space ++ description ∧ space ≠ [] ∧ (∀ c ∈ space, isBlank c) ∧
      description ≠ [] ∧ ∀ c ∈ description.head?, isBlank c → description = [c] := by
  obtain ⟨blanks, rest, rfl, hb, hr⟩ := exists_append_stop isBlank s
  rw [description?, takeWhile_append_stop hb hr, dropWhile_append_stop hb hr] at h
  cases blanks with
  | nil => cases h
  | cons x blanks =>
    cases rest with
    | cons c rest =>
      cases h
      refine ⟨x :: blanks, rfl, List.cons_ne_nil _ _, hb, List.cons_ne_nil _ _, ?_⟩
      intro y hy hblank
      exact (hr y hy hblank).elim
    | nil =>
      -- All is blank, and the last blank stands for the description.
      obtain ⟨c, hc, rfl⟩ := Option.map_eq_some_iff.1 h
      obtain ⟨init, rfl⟩ := List.getLast?_eq_some_iff.1 hc
      rw [← List.cons_append, List.forall_mem_append] at hb
      refine ⟨x :: init, by simp, List.cons_ne_nil _ _, hb.1, List.cons_ne_nil _ _, ?_⟩
      rintro y ⟨⟩ -
      rfl

lemma isSome_description? {b c : Char} (hb : isBlank b) (after : List Char) :
    (description? (b :: c :: after)).isSome := by
  obtain ⟨blanks, rest, he, hblanks, hr⟩ := exists_append_stop isBlank (c :: after)
  have hb' : ∀ x ∈ b :: blanks, isBlank x := List.forall_mem_cons.2 ⟨hb, hblanks⟩
  rw [he, ← List.cons_append, description?, takeWhile_append_stop hb' hr,
    dropWhile_append_stop hb' hr]
  cases rest with
  | cons x rest => rfl
  | nil =>
    rw [List.append_nil] at he
    simp [← he]

/-- What a form begins with, before the blanks and the name. -/
def braces (types : Option (List Char)) : List Char :=
  types.elim [] fun t => '{' :: (t ++ ['}'])

lemma not_isNameChar_of_getLast?_braces (types : Option (List Char)) (hg : ∀ c ∈ gap, isBlank c) :
    ∀ c ∈ (braces types ++ gap).getLast?, ¬isNameChar c := by
  intro c hc hname
  rcases List.eq_nil_or_concat gap with rfl | ⟨init, y, rfl⟩
  · cases types with
    | none => cases hc
    | some t =>
      rw [List.append_nil, braces, Option.elim_some, ← List.cons_append, List.getLast?_concat] at hc
      cases hc
      revert hname
      decide
  · have hy : c = y := by simpa using hc.symm
    apply not_isBlank_of_isNameChar hname
    apply hg
    simp [hy]

lemma isSome_of_endsWithTypes_braces {types : Option (List Char)} (hg : ∀ c ∈ gap, isBlank c)
    {t : List Char} (h : EndsWithTypes (braces types ++ gap) t) : types.isSome := by
  obtain ⟨outer, gap', he, -⟩ := h
  cases types with
  | some t => rfl
  | none =>
    rw [braces, Option.elim_none, List.nil_append] at he
    have hbrace : '{' ∈ gap := by simp [he]
    exact absurd (hg '{' hbrace) (by decide)

lemma Form.StandsIn.of_nameAndDescription? {types : Option (List Char)}
    {name description : List Char} (h : nameAndDescription? s = some (name, description))
    (hne : ∀ t ∈ types, t ≠ [] ∧ '}' ∉ t) :
    ∃ before space, StandsIn ⟨types, name, description⟩ before space (braces types ++ s) := by
  obtain ⟨gap, t, rfl, hgap, hst⟩ := exists_append_stop isBlank s
  obtain ⟨word, u, rfl, hword, hu⟩ := exists_append_stop isNameChar t
  rw [nameAndDescription?, trimStart, dropWhile_append_stop hgap hst,
    takeWhile_append_stop hword hu, dropWhile_append_stop hword hu] at h
  cases word with
  | nil => cases h
  | cons x word =>
    obtain ⟨d, hd, he⟩ := Option.map_eq_some_iff.1 h
    cases he
    obtain ⟨space, rfl, hsne, hspace, hdne, hdh⟩ := eq_of_description? hd
    refine ⟨braces types ++ gap, space, by simp, List.cons_ne_nil _ _, hword,
      not_isNameChar_of_getLast?_braces types hgap, hu, hsne, hspace, hdne, hdh, ?_, ?_⟩
    · rintro t ht
      obtain rfl := Option.mem_def.1 ht
      exact ⟨[], gap, by simp [braces], (hne t rfl).1, (hne t rfl).2, hgap⟩
    · intro t ht
      exact isSome_of_endsWithTypes_braces hgap ht

lemma eq_of_braced? {types rest : List Char} (h : braced? s = some (types, rest)) :
    s = '{' :: (types ++ '}' :: rest) ∧ types ≠ [] ∧ '}' ∉ types := by
  rw [braced?.eq_def] at h
  split at h
  · split at h
    · next c inner after hc =>
      cases h
      exact ⟨congrArg ('{' :: ·) (eq_of_cutAtChar? hc), List.cons_ne_nil _ _,
        notMem_of_cutAtChar? hc⟩
    · cases h
  · cases h

lemma exists_standsIn_of_formHere? (h : formHere? s = some f) :
    ∃ before space, f.StandsIn before space s := by
  rw [formHere?] at h
  split at h
  · next types rest hb =>
    obtain ⟨⟨name, description⟩, hn, rfl⟩ := Option.map_eq_some_iff.1 h
    obtain ⟨rfl, hne⟩ := eq_of_braced? hb
    have hs : '{' :: (types ++ '}' :: rest) = braces (some types) ++ rest := by simp [braces]
    rw [hs]
    apply Form.StandsIn.of_nameAndDescription? hn
    rintro t ⟨⟩
    exact hne
  · obtain ⟨⟨name, description⟩, hn, rfl⟩ := Option.map_eq_some_iff.1 h
    apply Form.StandsIn.of_nameAndDescription? hn
    rintro t ⟨⟩

lemma isSome_nameAndDescription? (hg : ∀ c ∈ gap, isBlank c) (hne : name ≠ [])
    (hn : ∀ c ∈ name, isNameChar c) {b c : Char} (hb : isBlank b) (after : List Char) :
    (nameAndDescription? (gap ++ (name ++ b :: c :: after))).isSome := by
  obtain ⟨x, name, rfl⟩ := List.exists_cons_of_ne_nil hne
  have hstart : ∀ y ∈ (x :: name ++ b :: c :: after).head?, ¬isBlank y := by
    rintro y ⟨⟩
    exact not_isBlank_of_isNameChar (hn x List.mem_cons_self)
  have hstop : ∀ y ∈ (b :: c :: after).head?, ¬isNameChar y := by
    rintro y ⟨⟩ hy
    exact not_isBlank_of_isNameChar hy hb
  rw [nameAndDescription?, trimStart, dropWhile_append_stop hg hstart,
    takeWhile_append_stop hn hstop, dropWhile_append_stop hn hstop]
  simpa using isSome_description? hb after

lemma isSome_formHere? (hne : name ≠ []) (hn : ∀ c ∈ name, isNameChar c) {b c : Char}
    (hb : isBlank b) (after : List Char) : (formHere? (name ++ b :: c :: after)).isSome := by
  obtain ⟨x, name, rfl⟩ := List.exists_cons_of_ne_nil hne
  have hbrace : braced? (x :: name ++ b :: c :: after) = none := by
    apply braced?_eq_none
    rintro ⟨⟩
    exact absurd (hn '{' List.mem_cons_self) (by decide)
  have hgap : ∀ y ∈ ([] : List Char), isBlank y := nofun
  rw [formHere?, hbrace]
  simpa using isSome_nameAndDescription? hgap hne hn hb after

lemma isSome_formHere?_of_braced {types : List Char} (ht : types ≠ []) (hbrace : '}' ∉ types)
    (hg : ∀ c ∈ gap, isBlank c) (hne : name ≠ []) (hn : ∀ c ∈ name, isNameChar c) {b c : Char}
    (hb : isBlank b) (after : List Char) :
    (formHere? ('{' :: (types ++ '}' :: (gap ++ (name ++ b :: c :: after))))).isSome := by
  rw [formHere?, braced?_append ht hbrace]
  simpa using isSome_nameAndDescription? hg hne hn hb after

lemma Form.StandsIn.exists_parts (h : f.StandsIn before space s) :
    ∃ b c after, isBlank b ∧ s = before ++ (f.name ++ b :: c :: after) := by
  obtain ⟨b, blanks, hb⟩ := List.exists_cons_of_ne_nil h.space_ne
  obtain ⟨c, after, hc⟩ := List.exists_cons_of_ne_nil
    (List.append_ne_nil_of_right_ne_nil blanks h.description_ne)
  refine ⟨b, c, after, h.space b (hb ▸ List.mem_cons_self), ?_⟩
  rw [h.text, hb, List.cons_append, hc]

lemma Form.StandsIn.holdsForm (h : f.StandsIn before space s) : HoldsForm s := by
  obtain ⟨b, c, after, hb, hs⟩ := h.exists_parts
  rcases List.eq_nil_or_concat f.name with hnil | ⟨init, n, hn⟩
  · exact (h.name_ne hnil).elim
  · refine ⟨before ++ init, n, b, c, after, ?_, h.name n (by simp [hn]), hb⟩
    simp [hs, hn]

/-- A form that is found further on stands in the whole text, when none is found here: a longer name
or a list of types that begins here would have been read. -/
lemma Form.StandsIn.cons {x : Char} (h : f.StandsIn before space s)
    (hnone : formHere? (x :: s) = none) : f.StandsIn (x :: before) space (x :: s) := by
  obtain ⟨b, c, after, hb, hs⟩ := h.exists_parts
  refine ⟨congrArg (x :: ·) h.text, h.name_ne, h.name, ?_, h.right, h.space_ne, h.space,
    h.description_ne, h.description, ?_, ?_⟩
  · cases before with
    | cons y before => simpa using h.left
    | nil =>
      rintro y ⟨⟩ hx
      have hn : ∀ y ∈ x :: f.name, isNameChar y := List.forall_mem_cons.2 ⟨hx, h.name⟩
      have hsome := isSome_formHere? (List.cons_ne_nil _ _) hn hb after (c := c)
      rw [List.cons_append, ← List.nil_append (f.name ++ _), ← hs, hnone] at hsome
      cases hsome
  · intro t ht
    obtain ⟨outer, gap, hbefore, hrest⟩ := h.types t ht
    exact ⟨x :: outer, gap, congrArg (x :: ·) hbefore, hrest⟩
  · rintro t ⟨outer, gap, hbefore, ht, hbrace, hgap⟩
    cases outer with
    | cons y outer => exact h.listed t ⟨outer, gap, (List.cons.inj hbefore).2, ht, hbrace, hgap⟩
    | nil =>
      obtain ⟨rfl, rfl⟩ := List.cons.inj hbefore
      have hsome := isSome_formHere?_of_braced ht hbrace hgap h.name_ne h.name hb after (c := c)
      rw [List.append_assoc, List.cons_append] at hs
      rw [← hs, hnone] at hsome
      cases hsome

lemma exists_standsIn_of_form? (h : form? s = some f) :
    ∃ before space, f.StandsIn before space s := by
  induction s with
  | nil => cases h
  | cons x s ih =>
    rw [form?] at h
    split at h
    · next g hg =>
      cases h
      exact exists_standsIn_of_formHere? hg
    · next hnone =>
      obtain ⟨before, space, hf⟩ := ih h
      exact ⟨x :: before, space, hf.cons hnone⟩

lemma isSome_form? (h : HoldsForm s) : (form? s).isSome := by
  obtain ⟨before, n, b, c, after, rfl, hn, hb⟩ := h
  induction before with
  | nil =>
    have hsome := isSome_formHere? (List.cons_ne_nil n []) (by simpa using hn) hb after (c := c)
    obtain ⟨g, hg⟩ := Option.isSome_iff_exists.1 hsome
    exact Option.isSome_of_eq_some (form?_of_formHere? hg)
  | cons x before ih =>
    rw [List.cons_append, form?]
    split
    · rfl
    · exact ih

lemma isSome_form?_iff : (form? s).isSome ↔ HoldsForm s := by
  refine ⟨fun h => ?_, isSome_form?⟩
  obtain ⟨f, hf⟩ := Option.isSome_iff_exists.1 h
  obtain ⟨before, space, hs⟩ := exists_standsIn_of_form? hf
  exact hs.holdsForm

theorem parse?_accepts (raw : String) :
    ((parse? raw).isSome ↔ HoldsForm raw.toList) ∧
    ∀ p, parse? raw = some p → ∃ (f : Form) (before space : List Char),
      f.StandsIn before space raw.toList ∧ p = f.toParam ∧
        p.description.toList = f.description ∧ (p.types.isSome ↔ f.types.isSome) := by
  constructor
  · rw [parse?, Option.isSome_map]
    exact isSome_form?_iff
  · intro p h
    obtain ⟨f, hf, rfl⟩ := Option.map_eq_some_iff.1 h
    obtain ⟨before, space, hs⟩ := exists_standsIn_of_form? hf
    refine ⟨f, before, space, hs, rfl, ?_, ?_⟩
    · rw [Form.toParam, String.toList_ofList]
    · rw [Form.toParam, Option.isSome_map]

end DocHarvest.Param
