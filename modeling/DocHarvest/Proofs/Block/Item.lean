import DocHarvest.Proofs.Block.Marker
import DocHarvest.Proofs.Text.Position

/-! The items of a comment by position. Each marker whose body is not empty has one, which reaches up to
the blanks before the next marker; besides them there are only blanks, what stands before the first
marker, and markers without a body. -/

namespace DocHarvest.Block

open Text

def AreBlank (s : List Char) (p q : Nat) : Prop :=
  ∀ k, p ≤ k → k < q → ∃ c, s[k]? = some c ∧ isBlank c

/-- A star at `i` and an at sign at `a`, with blanks between them. -/
structure MarkerAt (s : List Char) (i a : Nat) : Prop where
  star : s[i]? = some '*'
  lt : i < a
  blanks : AreBlank s (i + 1) a
  sign : s[a]? = some '@'

def MarkerFrom (s : List Char) (p : Nat) : Prop :=
  ∃ i a, p ≤ i ∧ AreBlank s p i ∧ MarkerAt s i a

/-- The end of the body after an at sign: where the next marker or the blanks before it begin, or the end
of the text. -/
def IsItemEnd (s : List Char) (a e : Nat) : Prop :=
  IsLeast {p | a + 1 ≤ p ∧ (MarkerFrom s p ∨ p = s.length)} e

def IsItem (s : List Char) (i e : Nat) : Prop :=
  ∃ a, MarkerAt s i a ∧ IsItemEnd s a e ∧ a + 1 < e

structure ItemsFrom (s : List Char) (start : Nat) (spans : List (Nat × Nat)) : Prop where
  ordered : spans.Pairwise fun b b' => b.2 ≤ b'.1
  mem_iff : ∀ i e, (i, e) ∈ spans ↔ start ≤ i ∧ IsItem s i e

section Reading

variable {s : List Char} {i a p q : Nat}

lemma areBlank_of_drop {blanks rest : List Char} (hb : ∀ c ∈ blanks, isBlank c)
    (h : s.drop p = blanks ++ rest) : AreBlank s p (p + blanks.length) := by
  intro k hpk hk
  obtain ⟨j, rfl⟩ := Nat.exists_eq_add_of_le hpk
  have hj : j < blanks.length := by omega
  refine ⟨blanks[j], ?_, hb _ (List.getElem_mem hj)⟩
  rw [← List.getElem?_drop, h, List.getElem?_append_left hj, List.getElem?_eq_getElem hj]

lemma AreBlank.isBlank_of_mem (h : AreBlank s p q) : ∀ c ∈ s.extract p q, isBlank c := by
  intro c hc
  obtain ⟨j, hj, rfl⟩ := List.getElem_of_mem hc
  simp only [List.extract_eq_take_drop, List.length_take, List.length_drop] at hj
  obtain ⟨c, hget, hblank⟩ := h (p + j) (by omega) (by omega)
  obtain ⟨hlt, rfl⟩ := List.getElem?_eq_some_iff.1 hget
  simpa [List.extract_eq_take_drop] using hblank

lemma MarkerAt.drop_eq (h : MarkerAt s i a) :
    s.drop i = '*' :: (s.extract (i + 1) a ++ '@' :: s.drop (a + 1)) := by
  rw [drop_of_getElem? h.star, ← extract_append_drop (Nat.succ_le_of_lt h.lt), drop_of_getElem? h.sign]

lemma markerAt_of_drop {blanks body : List Char} (hb : ∀ c ∈ blanks, isBlank c)
    (h : s.drop i = '*' :: (blanks ++ '@' :: body)) :
    MarkerAt s i (i + 1 + blanks.length) ∧ s.drop (i + 1 + blanks.length + 1) = body := by
  have hd := drop_succ h
  have hsign : s[i + 1 + blanks.length]? = some '@' := getElem?_of_drop hd
  have hlast : s.drop (i + 1 + blanks.length) = '@' :: body := by
    rw [← List.drop_drop, hd, List.drop_left]
  exact ⟨⟨getElem?_of_drop_cons h, by omega, areBlank_of_drop hb hd, hsign⟩, drop_succ hlast⟩

lemma marker?_drop_eq_none_iff : marker? (s.drop i) = none ↔ ∀ a, ¬MarkerAt s i a := by
  constructor
  · intro hn a ha
    rw [ha.drop_eq, marker?_star ha.blanks.isBlank_of_mem] at hn
    cases hn
  · intro hn
    cases hm : marker? (s.drop i) with
    | none => rfl
    | some m =>
      obtain ⟨blanks, hb, hs, -⟩ := eq_of_marker? hm
      exact (hn _ (markerAt_of_drop hb hs).1).elim

lemma markerAt_of_marker? {lead body : List Char} (h : marker? (s.drop i) = some (lead, body)) :
    ∃ a, MarkerAt s i a ∧ s.drop (a + 1) = body ∧ lead ++ body = s.drop i := by
  obtain ⟨blanks, hb, hs, rfl⟩ := eq_of_marker? h
  obtain ⟨ha, hbody⟩ := markerAt_of_drop hb hs
  exact ⟨_, ha, hbody, by simp [hs]⟩

lemma atMarker_drop_iff : atMarker (s.drop p) ↔ MarkerFrom s p := by
  rw [atMarker_iff]
  constructor
  · rintro ⟨before, blanks, body, hbefore, hb, hs⟩
    have hd : s.drop (p + before.length) = '*' :: (blanks ++ '@' :: body) := by
      rw [← List.drop_drop, hs, List.drop_left]
    exact ⟨p + before.length, _, by omega, areBlank_of_drop hbefore hs, (markerAt_of_drop hb hd).1⟩
  · rintro ⟨i, a, hpi, hblank, ha⟩
    refine ⟨s.extract p i, s.extract (i + 1) a, s.drop (a + 1), hblank.isBlank_of_mem,
      ha.blanks.isBlank_of_mem, ?_⟩
    rw [← ha.drop_eq, extract_append_drop hpi]

end Reading

section Layout

variable {s : List Char} {i j a b e e' k : Nat}

lemma MarkerAt.sign_ne_star (h : MarkerAt s i a) : s[a]? ≠ some '*' := by
  rw [h.sign]
  decide

lemma MarkerAt.lt_of_lt (h : MarkerAt s i a) (hj : MarkerAt s j b) (hij : i < j) : a < j := by
  by_contra hle
  -- Neither the sign of a marker nor a blank before it is the star of another.
  rcases (not_lt.1 hle).eq_or_lt with rfl | hlt
  · exact h.sign_ne_star hj.star
  · obtain ⟨c, hc, hblank⟩ := h.blanks j hij hlt
    rw [hj.star] at hc
    cases hc
    cases hblank

lemma MarkerAt.unique (h : MarkerAt s i a) (h' : MarkerAt s i b) : a = b := by
  have hle : ∀ {a b}, MarkerAt s i a → MarkerAt s i b → a ≤ b := by
    intro a b h h'
    by_contra hlt
    obtain ⟨c, hc, hblank⟩ := h.blanks b h'.lt (not_le.1 hlt)
    rw [h'.sign] at hc
    cases hc
    cases hblank
  exact (hle h h').antisymm (hle h' h)

lemma MarkerAt.markerFrom (h : MarkerAt s i a) : MarkerFrom s i :=
  ⟨i, a, le_rfl, fun _ hk hk' => (hk.not_gt hk').elim, h⟩

lemma MarkerAt.exists_end (h : MarkerAt s i a) : ∃ e, IsItemEnd s a e := by
  obtain ⟨e, he, -⟩ := exists_isLeast_breakWhere (fun _ => atMarker_drop_iff)
    (rfl : s.drop (a + 1) = s.drop (a + 1)) (lt_length_of_getElem? h.sign)
  exact ⟨e, he⟩

lemma IsItemEnd.le_of_lt (h : MarkerAt s i a) (he : IsItemEnd s a e) (hj : MarkerAt s j b)
    (hij : i < j) : e ≤ j :=
  he.2 ⟨h.lt_of_lt hj hij, .inl hj.markerFrom⟩

lemma IsItem.eq_of_markerAt (h : IsItem s i e) (hj : MarkerAt s j b) (hij : i ≤ j) (hje : j < e) :
    j = i := by
  obtain ⟨a, ha, he, -⟩ := h
  by_contra hne
  have := he.le_of_lt ha hj (by omega)
  omega

lemma IsItem.unique (h : IsItem s i e) (h' : IsItem s i e') : e = e' := by
  obtain ⟨a, ha, he, -⟩ := h
  obtain ⟨b, hb, he', -⟩ := h'
  obtain rfl := ha.unique hb
  exact he.unique he'

/-- A position belongs to the last marker at or before it: to its item, or to what the item leaves. -/
lemma item_or_left (hk : k < s.length) :
    (∃ i e, IsItem s i e ∧ i ≤ k ∧ k < e) ∨ (∃ c, s[k]? = some c ∧ isBlank c) ∨
      (∀ i a, MarkerAt s i a → k < i) ∨
        ∃ i a, MarkerAt s i a ∧ IsItemEnd s a (a + 1) ∧ i ≤ k ∧ k ≤ a := by
  by_cases hn : ∀ i a, MarkerAt s i a → k < i
  · exact .inr (.inr (.inl hn))
  push Not at hn
  obtain ⟨i₀, a₀, h₀, hle₀⟩ := hn
  obtain ⟨i, ⟨hik, a, ha⟩, hmax⟩ : ∃ i, IsGreatest {i | i ≤ k ∧ ∃ a, MarkerAt s i a} i :=
    BddAbove.exists_isGreatest_of_nonempty ⟨k, fun i hi => hi.1⟩ ⟨i₀, hle₀, a₀, h₀⟩
  obtain ⟨e, he⟩ := ha.exists_end
  by_cases hke : k < e
  · rcases he.1.1.eq_or_lt with rfl | hlt
    · exact .inr (.inr (.inr ⟨i, a, ha, he, hik, by omega⟩))
    · exact .inl ⟨i, e, ⟨a, ha, he, hlt⟩, hik, hke⟩
  · -- The next marker comes after `k`, so `k` is one of the blanks before it.
    obtain ⟨j, b, hej, hblank, hj⟩ := he.1.2.resolve_right (by omega)
    have hij : i < j := by
      have := ha.lt
      have := he.1.1
      omega
    have hkj : k < j := by
      by_contra hle
      have := hmax ⟨not_lt.1 hle, b, hj⟩
      omega
    exact .inr (.inl (hblank k (not_lt.1 hke) hkj))

end Layout

section Run

variable {s u : List Char} {start e : Nat} {spans : List (Nat × Nat)}

lemma ItemsFrom.nil (h : s.length ≤ start) : ItemsFrom s start [] where
  ordered := .nil
  mem_iff i e := by
    refine ⟨nofun, fun ⟨hi, a, ha, _⟩ => ?_⟩
    have := lt_length_of_getElem? ha.star
    omega

lemma ItemsFrom.of_succ (h : ItemsFrom s (start + 1) spans) (hn : ∀ e, ¬IsItem s start e) :
    ItemsFrom s start spans where
  ordered := h.ordered
  mem_iff i e := by
    rw [h.mem_iff]
    refine ⟨fun ⟨hi, hie⟩ => ⟨by omega, hie⟩, fun ⟨hi, hie⟩ => ⟨?_, hie⟩⟩
    rcases hi.eq_or_lt with rfl | hlt
    · exact (hn e hie).elim
    · exact hlt

lemma ItemsFrom.cons (h : ItemsFrom s e spans) (hi : IsItem s start e) :
    ItemsFrom s start ((start, e) :: spans) where
  ordered := List.pairwise_cons.2 ⟨fun b hb => ((h.mem_iff b.1 b.2).1 hb).1, h.ordered⟩
  mem_iff i e' := by
    have hlt : start < e := by
      obtain ⟨a, ha, -, hae⟩ := hi
      have := ha.lt
      omega
    rw [List.mem_cons, h.mem_iff, Prod.mk.injEq]
    constructor
    · rintro (⟨rfl, rfl⟩ | ⟨hei, hie⟩)
      · exact ⟨le_rfl, hi⟩
      · exact ⟨by omega, hie⟩
    · rintro ⟨hsi, hie⟩
      rcases hsi.eq_or_lt with rfl | hlt
      · exact .inl ⟨rfl, hie.unique hi⟩
      · refine .inr ⟨?_, hie⟩
        obtain ⟨b, hb, -⟩ := hie
        by_contra hei
        have := hi.eq_of_markerAt hb hsi (not_le.1 hei)
        omega

lemma ItemsFrom.existsUnique_iff {i a : Nat} (h : ItemsFrom s start spans) (hi : start ≤ i)
    (ha : MarkerAt s i a) (he : IsItemEnd s a e) : a + 1 < e ↔ ∃! b, b ∈ spans ∧ b.1 = i := by
  constructor
  · intro hlt
    have hitem : IsItem s i e := ⟨a, ha, he, hlt⟩
    refine ⟨(i, e), ⟨(h.mem_iff i e).2 ⟨hi, hitem⟩, rfl⟩, ?_⟩
    rintro ⟨j, e'⟩ ⟨hb, rfl⟩
    exact Prod.ext rfl (((h.mem_iff j e').1 hb).2.unique hitem)
  · rintro ⟨⟨j, e'⟩, ⟨hb, rfl⟩, -⟩
    obtain ⟨b, hj, he', hlt⟩ := ((h.mem_iff j e').1 hb).2
    obtain rfl := ha.unique hj
    exact he.unique he' ▸ hlt

lemma exists_end_of_marker? {i : Nat} {lead body : List Char}
    (h : marker? (s.drop i) = some (lead, body)) :
    ∃ a e, MarkerAt s i a ∧ IsItemEnd s a e ∧ (breakWhere atMarker body).2 = s.drop e ∧
      lead ++ (breakWhere atMarker body).1 = s.extract i e ∧
      ((breakWhere atMarker body).1 = [] ↔ e = a + 1) := by
  obtain ⟨a, ha, hbody, hlead⟩ := markerAt_of_marker? h
  have hlt := lt_length_of_getElem? ha.sign
  obtain ⟨e, he, hrest⟩ := exists_isLeast_breakWhere (fun _ => atMarker_drop_iff) hbody hlt
  have hae : a + 1 ≤ e := he.1.1
  have hel : e ≤ s.length := he.2 ⟨hlt, .inr rfl⟩
  have happ := breakWhere_append atMarker body
  rw [hrest] at happ
  have hfirst : (breakWhere atMarker body).1 = s.extract (a + 1) e :=
    eq_extract (happ.trans hbody.symm) hae
  have hie := ha.lt
  refine ⟨a, e, ha, he, hrest, eq_extract ?_ (by omega), ?_⟩
  · rw [List.append_assoc, happ, hlead]
  · rw [hfirst, ← List.length_eq_zero_iff, List.extract_eq_take_drop, List.length_take,
      List.length_drop]
    omega

lemma exists_items (hu : s.drop start = u) :
    ∃ spans, ItemsFrom s start spans ∧ commentItems u = spans.map fun b => s.extract b.1 b.2 := by
  induction u using commentItems.induct generalizing start with
  | case1 => exact ⟨[], .nil (List.drop_eq_nil_iff.1 hu), by simp [commentItems]⟩
  | case2 c t hm ih =>
    obtain ⟨spans, hs, hc⟩ := ih (drop_succ hu)
    refine ⟨spans, hs.of_succ ?_, (commentItems_of_none hm).trans hc⟩
    rintro e ⟨a, ha, -⟩
    exact marker?_drop_eq_none_iff.1 (hu ▸ hm) a ha
  | case3 c t lead body hm hb ih =>
    obtain ⟨spans, hs, hc⟩ := ih (drop_succ hu)
    obtain ⟨a, e, ha, he, -, -, hempty⟩ := exists_end_of_marker? (hu ▸ hm)
    have hnil := List.isEmpty_iff.1 hb
    refine ⟨spans, hs.of_succ ?_, (commentItems_of_empty hm hnil).trans hc⟩
    rintro e' ⟨a', ha', he', hlt⟩
    obtain rfl := ha.unique ha'
    have := he.unique he'
    have := hempty.1 hnil
    omega
  | case4 c t lead body hm hb ih =>
    obtain ⟨a, e, ha, he, hrest, hitem, hempty⟩ := exists_end_of_marker? (hu ▸ hm)
    obtain ⟨spans, hs, hc⟩ := ih hrest.symm
    have hne : (breakWhere atMarker body).1 ≠ [] := fun hn => hb (List.isEmpty_iff.2 hn)
    have hae := he.1.1
    have hi : IsItem s start e := ⟨a, ha, he, lt_of_le_of_ne hae fun h => hne (hempty.2 h.symm)⟩
    refine ⟨(start, e) :: spans, hs.cons hi, ?_⟩
    rw [commentItems_of_some hm hne, hitem, hc]
    rfl

end Run

theorem commentItems_spans (text : String) :
    ∃ spans : List (Nat × Nat),
      commentItems text.toList = (spans.map fun b => text.toList.extract b.1 b.2) ∧
      (spans.Pairwise fun b b' => b.2 ≤ b'.1) ∧
      (∀ i e, (i, e) ∈ spans ↔ IsItem text.toList i e) ∧
      (∀ i a, MarkerAt text.toList i a →
        ∃ e, IsItemEnd text.toList a e ∧ (a + 1 < e ↔ ∃! b, b ∈ spans ∧ b.1 = i)) ∧
      (∀ b ∈ spans, ∀ j a, MarkerAt text.toList j a → b.1 ≤ j → j < b.2 → j = b.1) ∧
      ∀ k < text.toList.length, (∃ b ∈ spans, b.1 ≤ k ∧ k < b.2) ∨
        (∃ c, text.toList[k]? = some c ∧ isBlank c) ∨ (∀ i a, MarkerAt text.toList i a → k < i) ∨
          ∃ i a, MarkerAt text.toList i a ∧ IsItemEnd text.toList a (a + 1) ∧ i ≤ k ∧ k ≤ a := by
  obtain ⟨spans, hs, hc⟩ := exists_items (show text.toList.drop 0 = text.toList from List.drop_zero)
  have hmem : ∀ i e, (i, e) ∈ spans ↔ IsItem text.toList i e := fun i e =>
    (hs.mem_iff i e).trans (and_iff_right i.zero_le)
  refine ⟨spans, hc, hs.ordered, hmem, fun i a ha => ?_, fun b hb j a hj hbj hjb => ?_, fun k hk => ?_⟩
  · obtain ⟨e, he⟩ := ha.exists_end
    exact ⟨e, he, hs.existsUnique_iff i.zero_le ha he⟩
  · exact ((hmem b.1 b.2).1 hb).eq_of_markerAt hj hbj hjb
  · rcases item_or_left hk with ⟨i, e, hie, hik, hke⟩ | hleft
    · exact .inl ⟨(i, e), (hmem i e).2 hie, hik, hke⟩
    · exact .inr hleft

end DocHarvest.Block
