import DocHarvest.Proofs.Markup.Reading

/-! The attributes of a start tag end with their `>`: what follows it changes nothing in them. -/

namespace DocHarvest.Markup

open Text

namespace Attribute

/-- Reading stops at the end of `u`, whatever follows it. -/
def Reads (u : List Char) (attributes : List Attribute) : Prop :=
  '>' ∈ u ∧ ∀ rest, readAll? (u ++ rest) = some (attributes, rest)

lemma dropWhile_append_of_end {p : Char → Bool} (hp : p '>' = false) {u : List Char}
    (hu : '>' ∈ u) : ∃ c v, u.dropWhile p = c :: v ∧ p c = false ∧
      ∀ rest, (u ++ rest).dropWhile p = c :: (v ++ rest) := by
  induction u with
  | nil => cases hu
  | cons c u ih =>
    cases hc : p c with
    | false =>
      refine ⟨c, u, ?_, hc, fun rest => ?_⟩ <;> simp [hc]
    | true =>
      rcases List.mem_cons.1 hu with rfl | hu
      · rw [hp] at hc
        cases hc
      · simpa [hc] using ih hu

lemma Reads.head {u : List Char} {attributes : List Attribute} (h : Reads u attributes) :
    ∃ c v, u.dropWhile isFiller = c :: v ∧ ¬isQuote c := by
  obtain ⟨c, v, hv, -, ha⟩ := dropWhile_append_of_end (p := isFiller) (by decide) h.1
  refine ⟨c, v, hv, fun hq => ?_⟩
  have hr := h.2 []
  have hgt : c ≠ '>' := by
    rintro rfl
    revert hq
    decide
  have heq : c ≠ '=' := by
    rintro rfl
    revert hq
    decide
  rw [readAll?_of_cons (ha []), if_neg (by simpa using hgt), if_neg (by simpa using heq),
    if_pos hq] at hr
  cases hr

lemma readValue_quoted {blanks before : List Char} {q : Char} (hb : ∀ c ∈ blanks, isBlank c)
    (hq : isQuote q) (hn : q ∉ before) (after : List Char) :
    readValue (blanks ++ q :: (before ++ q :: after)) = (before, after) := by
  have hs : trimStart (blanks ++ q :: (before ++ q :: after)) = q :: (before ++ q :: after) := by
    apply dropWhile_append_stop hb
    intro c hc
    cases hc
    rw [isQuote, Bool.or_eq_true, beq_iff_eq, beq_iff_eq] at hq
    rcases hq with rfl | rfl <;> decide
  rw [readValue, hs]
  dsimp only
  rw [if_pos hq, cutAtChar?_append hn, Option.getD_some]

lemma readValue_bare {blanks bare rest : List Char} {c : Char} (hb : ∀ x ∈ blanks, isBlank x)
    (hq : ¬isQuote c) (hc : ∀ x ∈ c :: bare, isBareChar x) (hr : ∀ x ∈ rest.head?, ¬isBareChar x) :
    readValue (blanks ++ (c :: bare ++ rest)) = (c :: bare, rest) := by
  have hcb := hc c List.mem_cons_self
  have hs : trimStart (blanks ++ (c :: bare ++ rest)) = c :: (bare ++ rest) := by
    apply dropWhile_append_stop hb
    intro x hx
    cases hx
    rw [isBareChar, Bool.and_eq_true, Bool.not_eq_true'] at hcb
    simp [hcb.1]
  rw [readValue, hs]
  dsimp only
  rw [if_neg hq, if_pos hcb, ← List.cons_append, takeWhile_append_stop hc hr,
    dropWhile_append_stop hc hr]

lemma readValue_end {blanks : List Char} (hb : ∀ x ∈ blanks, isBlank x) (rest : List Char) :
    readValue (blanks ++ '>' :: rest) = ([], blanks ++ '>' :: rest) := by
  have hs : trimStart (blanks ++ '>' :: rest) = '>' :: rest := by
    apply dropWhile_append_stop hb
    intro x hx
    cases hx
    decide
  rw [readValue, hs]
  rfl

lemma readValue_cases (s : List Char) :
    (∃ blanks q before after, s = blanks ++ q :: (before ++ q :: after) ∧
      (∀ c ∈ blanks, isBlank c) ∧ isQuote q ∧ q ∉ before ∧ readValue s = (before, after)) ∨
    (∃ blanks c bare rest, s = blanks ++ (c :: bare ++ rest) ∧ (∀ x ∈ blanks, isBlank x) ∧
      ¬isQuote c ∧ (∀ x ∈ c :: bare, isBareChar x) ∧ (∀ x ∈ rest.head?, ¬isBareChar x) ∧
      readValue s = (c :: bare, rest)) ∨
    (readValue s = ([], s) ∧ ∀ c ∈ (trimStart s).head?, isQuote c ∨ c = '>') := by
  have hblank : ∀ x ∈ s.takeWhile isBlank, isBlank x := fun x hx => List.mem_takeWhile_imp hx
  have hsplit : s.takeWhile isBlank ++ trimStart s = s := List.takeWhile_append_dropWhile
  have hhead := List.head?_dropWhile_not isBlank s
  rw [← trimStart] at hhead
  rw [readValue]
  cases ht : trimStart s with
  | nil => exact Or.inr (Or.inr ⟨rfl, by simp⟩)
  | cons c t =>
    rw [ht] at hsplit hhead
    dsimp only
    by_cases hq : isQuote c
    · rw [if_pos hq]
      cases hcut : cutAtChar? c t with
      | none =>
        refine Or.inr (Or.inr ⟨rfl, ?_⟩)
        rintro x ⟨⟩
        exact Or.inl hq
      | some p =>
        refine Or.inl ⟨_, c, p.1, p.2, ?_, hblank, hq, notMem_of_cutAtChar? hcut, rfl⟩
        rw [← eq_of_cutAtChar? hcut, hsplit]
    · rw [if_neg hq]
      by_cases hb : isBareChar c
      · rw [if_pos hb]
        have hbare : (c :: t).takeWhile isBareChar = c :: t.takeWhile isBareChar :=
          List.takeWhile_cons_of_pos hb
        refine Or.inr (Or.inl ⟨_, c, t.takeWhile isBareChar, (c :: t).dropWhile isBareChar, ?_,
          hblank, hq, ?_, ?_, ?_⟩)
        · rw [← hbare, List.takeWhile_append_dropWhile, hsplit]
        · rw [← hbare]
          exact fun x hx => List.mem_takeWhile_imp hx
        · intro x hx
          have hh := List.head?_dropWhile_not isBareChar (c :: t)
          rw [Option.mem_def.1 hx] at hh
          simpa using hh
        · rw [hbare]
      · rw [if_neg hb]
        refine Or.inr (Or.inr ⟨rfl, ?_⟩)
        rintro x ⟨⟩
        right
        simpa [isBareChar, show isBlank c = false by simpa using hhead] using hb

lemma dropWhile_isFiller_trimStart (s : List Char) :
    (trimStart s).dropWhile isFiller = s.dropWhile isFiller := by
  have hf : ∀ c ∈ s.takeWhile isBlank, isFiller c := by
    intro c hc
    rw [isFiller, List.mem_takeWhile_imp hc, Bool.true_or]
  conv_rhs => rw [← List.takeWhile_append_dropWhile (p := isBlank) (l := s)]
  exact (List.dropWhile_append_of_pos hf).symm

/-- A value that ends before `u` does not depend on what follows `u`. -/
lemma readValue_append {s u rest : List Char} {attributes : List Attribute}
    (hu : Reads u attributes) (h : (readValue s).2 = u ++ rest) :
    ∃ v, s = v ++ (u ++ rest) ∧
      ∀ rest', readValue (v ++ (u ++ rest')) = ((readValue s).1, u ++ rest') := by
  rcases readValue_cases s with ⟨blanks, q, before, after, rfl, hb, hq, hn, he⟩ |
    ⟨blanks, c, bare, after, rfl, hb, hq, hc, hr, he⟩ | ⟨he, hc⟩
  · rw [he] at h ⊢
    obtain rfl : after = u ++ rest := h
    refine ⟨blanks ++ q :: (before ++ [q]), by simp, fun rest' => ?_⟩
    have hv := readValue_quoted hb hq hn (u ++ rest')
    simpa using hv
  · rw [he] at h ⊢
    obtain rfl : after = u ++ rest := h
    refine ⟨blanks ++ (c :: bare), by simp, fun rest' => ?_⟩
    rw [List.append_assoc]
    apply readValue_bare hb hq hc
    intro x hx
    apply hr x
    rwa [List.head?_append_of_ne_nil _ (List.ne_nil_of_mem hu.1)] at hx ⊢
  · rw [he] at h ⊢
    obtain rfl : s = u ++ rest := h
    refine ⟨[], rfl, fun rest' => ?_⟩
    obtain ⟨c, v, hv, -, ha⟩ := dropWhile_append_of_end (p := isBlank) (by decide) hu.1
    have hsplit : u = u.takeWhile isBlank ++ c :: v := by
      rw [← hv, List.takeWhile_append_dropWhile]
    rw [trimStart, ha rest] at hc
    rcases hc c rfl with hq | rfl
    · obtain ⟨x, w, hx, hnq⟩ := hu.head
      have hf : ¬isFiller c := by
        rw [isQuote, Bool.or_eq_true, beq_iff_eq, beq_iff_eq] at hq
        rcases hq with rfl | rfl <;> decide
      rw [← dropWhile_isFiller_trimStart, trimStart, hv, List.dropWhile_cons_of_neg hf] at hx
      cases hx
      exact (hnq hq).elim
    · rw [hsplit, List.nil_append, List.append_assoc]
      exact readValue_end (fun x hx => List.mem_takeWhile_imp hx) (v ++ rest')

lemma readAssigned_append {s u rest : List Char} {attributes : List Attribute}
    (hu : Reads u attributes) (h : (readAssigned s).2 = u ++ rest) :
    ∃ v, s = v ++ (u ++ rest) ∧
      ∀ rest', readAssigned (v ++ (u ++ rest')) = ((readAssigned s).1, u ++ rest') := by
  obtain ⟨c, w, -, -, ha⟩ := dropWhile_append_of_end (p := isFiller) (by decide) hu.1
  have hfill : ∀ x ∈ s.takeWhile isFiller, isFiller x := fun x hx => List.mem_takeWhile_imp hx
  have hsplit : s.takeWhile isFiller ++ s.dropWhile isFiller = s := List.takeWhile_append_dropWhile
  cases hs : s.dropWhile isFiller with
  | nil =>
    rw [readAssigned, hs] at h
    obtain rfl : s = u ++ rest := h
    rw [ha] at hs
    cases hs
  | cons x t =>
    rw [hs] at hsplit
    by_cases hx : x = '='
    · subst hx
      have hr : readAssigned s = readValue t := by rw [readAssigned, hs]; rfl
      rw [hr] at h ⊢
      obtain ⟨v, rfl, hv⟩ := readValue_append hu h
      refine ⟨s.takeWhile isFiller ++ '=' :: v, by simpa using hsplit.symm, fun rest' => ?_⟩
      have hd : (s.takeWhile isFiller ++ '=' :: v ++ (u ++ rest')).dropWhile isFiller =
          '=' :: (v ++ (u ++ rest')) := by
        rw [List.append_assoc]
        apply dropWhile_append_stop hfill
        intro y hy
        cases hy
        decide
      rw [readAssigned, hd]
      exact hv rest'
    · have hr : readAssigned s = ([], s) := by
        rw [readAssigned, hs]
        exact if_neg (by simpa using hx)
      rw [hr] at h ⊢
      obtain rfl : s = u ++ rest := h
      rw [ha] at hs
      cases hs
      refine ⟨[], rfl, fun rest' => ?_⟩
      rw [List.nil_append, readAssigned, ha]
      exact if_neg (by simpa using hx)

section Fillers

variable {fillers u v : List Char} {attributes : List Attribute}

lemma dropWhile_fillers (hf : ∀ c ∈ fillers, isFiller c) {c : Char} (hc : ¬isFiller c)
    (s : List Char) : (fillers ++ c :: s).dropWhile isFiller = c :: s := by
  apply dropWhile_append_stop hf
  rintro x ⟨⟩
  exact hc

lemma reads_end (hf : ∀ c ∈ fillers, isFiller c) : Reads (fillers ++ ['>']) [] := by
  refine ⟨by simp, fun rest => ?_⟩
  have hd := dropWhile_fillers hf (c := '>') (by decide) rest
  rw [List.append_assoc, List.singleton_append, readAll?_of_cons hd]
  rfl

lemma reads_value (hf : ∀ c ∈ fillers, isFiller c) (hu : Reads u attributes) {value : List Char}
    (hv : ∀ rest, readValue (v ++ (u ++ rest)) = (value, u ++ rest)) :
    Reads (fillers ++ '=' :: (v ++ u)) attributes := by
  refine ⟨by simp [hu.1], fun rest => ?_⟩
  have hd := dropWhile_fillers hf (c := '=') (by decide) (v ++ (u ++ rest))
  have hs : fillers ++ '=' :: (v ++ u) ++ rest = fillers ++ '=' :: (v ++ (u ++ rest)) := by simp
  rw [hs, readAll?_of_cons hd, if_neg (by decide), if_pos (by rfl), hv]
  exact hu.2 rest

lemma reads_name (hf : ∀ c ∈ fillers, isFiller c) (hu : Reads u attributes) {c : Char}
    {name value : List Char} (hc : isNameChar c) (hq : ¬isQuote c) (hn : ∀ x ∈ name, isNameChar x)
    (hstop : ∀ x ∈ (v ++ u).head?, ¬isNameChar x)
    (hv : ∀ rest, readAssigned (v ++ (u ++ rest)) = (value, u ++ rest)) :
    Reads (fillers ++ c :: (name ++ (v ++ u))) (ofText (c :: name) value :: attributes) := by
  refine ⟨by simp [hu.1], fun rest => ?_⟩
  simp only [isNameChar, Bool.and_eq_true, Bool.not_eq_true', bne_iff_ne] at hc
  obtain ⟨⟨hfill, heq⟩, hgt⟩ := hc
  have hd := dropWhile_fillers hf (c := c) (by simp [hfill]) (name ++ (v ++ (u ++ rest)))
  have hs : fillers ++ c :: (name ++ (v ++ u)) ++ rest =
      fillers ++ c :: (name ++ (v ++ (u ++ rest))) := by simp
  have hstop' : ∀ x ∈ (v ++ (u ++ rest)).head?, ¬isNameChar x := by
    intro x hx
    apply hstop x
    rw [← List.append_assoc, List.head?_append_of_ne_nil] at hx
    · exact hx
    · exact List.append_ne_nil_of_right_ne_nil v (List.ne_nil_of_mem hu.1)
  rw [hs, readAll?_of_cons hd, if_neg (by simpa using hgt), if_neg (by simpa using heq), if_neg hq,
    takeWhile_append_stop hn hstop', dropWhile_append_stop hn hstop', hv, hu.2]
  rfl

end Fillers

lemma exists_reads {s rest : List Char} {attributes : List Attribute}
    (h : readAll? s = some (attributes, rest)) : ∃ u, s = u ++ rest ∧ Reads u attributes := by
  have hf : ∀ t : List Char, ∀ c ∈ t.takeWhile isFiller, isFiller c := fun t c hc =>
    List.mem_takeWhile_imp hc
  have hsplit : ∀ {t u : List Char}, t.dropWhile isFiller = u → t = t.takeWhile isFiller ++ u := by
    rintro t u rfl
    exact List.takeWhile_append_dropWhile.symm
  fun_induction readAll? s generalizing attributes with
  | case1 => cases h
  | case2 s c t hs hc =>
    cases h
    obtain rfl := beq_iff_eq.1 hc
    exact ⟨_, by simpa using hsplit hs, reads_end (hf s)⟩
  | case3 s c t hs hc he ih =>
    obtain rfl := beq_iff_eq.1 he
    obtain ⟨u, hu, hr⟩ := ih h
    obtain ⟨v, rfl, hv⟩ := readValue_append hr hu
    exact ⟨_, by simpa using hsplit hs, reads_value (hf s) hr hv⟩
  | case4 => cases h
  | case5 s c t hs hc he hq ih =>
    obtain ⟨⟨as, r⟩, ha, heq⟩ := Option.map_eq_some_iff.1 h
    cases heq
    obtain ⟨u, hu, hr⟩ := ih ha
    obtain ⟨v, hv, hv'⟩ := readAssigned_append hr hu
    have hname : isNameChar c := by
      have hh := List.head?_dropWhile_not isFiller s
      rw [hs] at hh
      have hfill : isFiller c = false := by simpa using hh
      rw [isNameChar, hfill, Bool.and_eq_true, Bool.and_eq_true]
      exact ⟨⟨rfl, by simpa using he⟩, by simpa using hc⟩
    refine ⟨s.takeWhile isFiller ++ c :: (t.takeWhile isNameChar ++ (v ++ u)), ?_,
      reads_name (hf s) hr hname hq (fun x hx => List.mem_takeWhile_imp hx) ?_ hv'⟩
    · have ht : t = t.takeWhile isNameChar ++ (v ++ (u ++ rest)) := by
        rw [← hv, List.takeWhile_append_dropWhile]
      conv_lhs => rw [hsplit hs, ht]
      simp
    · intro x hx
      have hh := List.head?_dropWhile_not isNameChar t
      rw [hv, ← List.append_assoc, List.head?_append_of_ne_nil _
        (List.append_ne_nil_of_right_ne_nil v (List.ne_nil_of_mem hr.1)), Option.mem_def.1 hx] at hh
      simpa using hh

lemma read?_append {s rest : List Char} {attributes : List Attribute}
    (h : read? s = some (attributes, rest)) :
    ∃ u, s = u ++ rest ∧ ∀ rest', read? (u ++ rest') = some (attributes, rest') := by
  obtain ⟨⟨all, r⟩, hr, he⟩ := Option.map_eq_some_iff.1 h
  cases he
  obtain ⟨u, hu, hall⟩ := exists_reads hr
  refine ⟨u, hu, fun rest' => ?_⟩
  rw [read?, hall.2]
  rfl

end Attribute

end DocHarvest.Markup
