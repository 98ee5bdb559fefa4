import DocHarvest.Proofs.Block.Scan

/-! Blocks and the comments they come from. A block stays inside its comment unless the stars of the
opening are those of the close too: it then takes in the whole comment, and what follows it. -/

namespace DocHarvest.Block

open Text

def Shuts (s : List Char) (p : Nat) : Prop :=
  s[p]? = some '*' ∧ s[p + 1]? = some '/'

/-- Where the comment that opens at `i` is shut: at the first closing mark after the opening one, or else
at the end of the text. -/
def IsShut (s : List Char) (i c : Nat) : Prop :=
  IsLeast {c | i + 2 ≤ c ∧ (Shuts s c ∨ c = s.length)} c

variable {s : List Char} {i e p : Nat}

lemma Shuts.closes (h : Shuts s p) : Closes s p := by
  refine ⟨1, Nat.one_pos, fun k hk => ?_, h.2⟩
  obtain rfl : k = 0 := by omega
  exact h.1

lemma isInfix_extract_iff :
    "*/".toList <:+: s.extract i e ↔ ∃ p, i ≤ p ∧ p + 1 < e ∧ Shuts s p := by
  have hget : ∀ p, (s.extract i e)[p]? = if p < e - i then s[i + p]? else none := by
    intro p
    rw [List.extract_eq_take_drop, List.getElem?_take, List.getElem?_drop]
  have hmark : "*/".toList = ['*', '/'] := rfl
  rw [hmark, pair_isInfix_iff]
  simp only [hget, Option.ite_none_right_eq_some]
  constructor
  · rintro ⟨p, ⟨-, hx⟩, hlt, hy⟩
    exact ⟨i + p, by omega, by omega, hx, hy⟩
  · rintro ⟨p, hip, hpe, hx, hy⟩
    obtain ⟨k, rfl⟩ := Nat.exists_eq_add_of_le hip
    exact ⟨k, ⟨by omega, hx⟩, by omega, hy⟩

lemma getElem?_of_lt_bodyStart {k : Nat} (hik : i < k) (hk : k < bodyStart s i) : s[k]? = some '*' := by
  obtain ⟨j, rfl⟩ := Nat.exists_eq_add_of_le (Nat.succ_le_of_lt hik)
  have hj : j < ((s.drop (i + 1)).takeWhile isStar).length := by
    rw [bodyStart] at hk
    omega
  have hget : ((s.drop (i + 1)).takeWhile isStar ++ (s.drop (i + 1)).dropWhile isStar)[j]? =
      ((s.drop (i + 1)).takeWhile isStar)[j]? := List.getElem?_append_left hj
  rw [List.takeWhile_append_dropWhile, List.getElem?_drop] at hget
  have hstar := List.mem_takeWhile_imp (List.getElem_mem hj)
  rw [hget, List.getElem?_eq_getElem hj, Option.some.injEq]
  exact beq_iff_eq.1 hstar

lemma getElem?_bodyStart_ne : s[bodyStart s i]? ≠ some '*' := by
  have hget : s[bodyStart s i]? = ((s.drop (i + 1)).dropWhile isStar).head? := by
    rw [dropWhile_isStar, List.head?_drop]
  rw [hget]
  intro h
  have hstar := List.head?_dropWhile_not isStar (s.drop (i + 1))
  rw [h] at hstar
  cases hstar

lemma Opens.lt_bodyStart (h : Opens s i) : i + 2 < bodyStart s i := by
  by_contra hle
  have hend : bodyStart s i = i + 1 ∨ bodyStart s i = i + 2 := by
    have hlt : i < bodyStart s i := Block.lt_bodyStart
    omega
  have hstar : s[bodyStart s i]? = some '*' := by
    rcases hend with he | he
    · rw [he, h.2.1]
    · rw [he, h.2.2]
  exact getElem?_bodyStart_ne hstar

lemma IsEnd.lt_of_slash (h : IsEnd s (bodyStart s i) e) (hb : s[bodyStart s i]? = some '/') :
    bodyStart s i < e := by
  rcases h.1.1.eq_or_lt with rfl | hlt
  · rcases h.1.2 with ⟨n, hn, hstars, -⟩ | hl
    · exact (getElem?_bodyStart_ne (hstars 0 hn)).elim
    · rw [hl, List.getElem?_length] at hb
      cases hb
  · exact hlt

lemma bodyStart_le_of_shuts (hip : i ≤ p) (hp : Shuts s p) : bodyStart s i ≤ p + 1 := by
  -- Among the stars of the opening, only the last can have a slash after it.
  by_contra hlt
  have hstar := getElem?_of_lt_bodyStart (Nat.lt_succ_of_le hip) (not_le.1 hlt)
  rw [hp.2] at hstar
  cases hstar

lemma eq_bodyStart_of_shuts (he : IsEnd s (bodyStart s i) e) (hip : i ≤ p) (hpe : p < e)
    (hp : Shuts s p) : p + 1 = bodyStart s i := by
  rcases (bodyStart_le_of_shuts hip hp).eq_or_lt with hb | hb
  · exact hb.symm
  · have hep : e ≤ p := he.2 ⟨Nat.le_of_lt_succ hb, .inl hp.closes⟩
    exact (hep.not_gt hpe).elim

lemma isShut_of_slash (hs : Starts s i) (hb : s[bodyStart s i]? = some '/') :
    ∃ c, IsShut s i c ∧ Shuts s c ∧ c + 1 = bodyStart s i := by
  have hlt := hs.opens.lt_bodyStart
  have hbody := hs.body
  obtain ⟨c, hc⟩ := Nat.exists_eq_add_one_of_ne_zero (Nat.ne_zero_of_lt hlt)
  have hstar : s[c]? = some '*' := getElem?_of_lt_bodyStart (by omega : i < c) (by omega)
  have hshuts : Shuts s c := ⟨hstar, hc ▸ hb⟩
  refine ⟨c, ⟨⟨by omega, .inl hshuts⟩, ?_⟩, hshuts, hc.symm⟩
  rintro c' ⟨hic, hc' | rfl⟩
  · have hle := bodyStart_le_of_shuts (by omega : i ≤ c') hc'
    omega
  · omega

lemma span_inside_tfae (hs : Starts s i) (he : IsEnd s (bodyStart s i) e) :
    List.TFAE [¬"*/".toList <:+: s.extract i e, ∀ c, IsShut s i c → e ≤ c,
      s[bodyStart s i]? ≠ some '/'] := by
  have hshut : s[bodyStart s i]? ≠ some '/' → ∀ p, i ≤ p → p < e → ¬Shuts s p := by
    intro hb p hip hpe hp
    rw [← eq_bodyStart_of_shuts he hip hpe hp] at hb
    exact hb hp.2
  tfae_have 1 → 3 := by
    intro hn hb
    obtain ⟨c, ⟨⟨hic, -⟩, -⟩, hc, hcb⟩ := isShut_of_slash hs hb
    apply hn
    rw [isInfix_extract_iff]
    exact ⟨c, by omega, hcb ▸ he.lt_of_slash hb, hc⟩
  tfae_have 2 → 3 := by
    intro hn hb
    obtain ⟨c, hshut, -, hcb⟩ := isShut_of_slash hs hb
    have hle := hn c hshut
    have hlt := he.lt_of_slash hb
    omega
  tfae_have 3 → 1 := by
    intro hb
    rw [isInfix_extract_iff]
    rintro ⟨p, hip, hpe, hp⟩
    exact hshut hb p hip (by omega) hp
  tfae_have 3 → 2 := by
    rintro hb c ⟨⟨hic, hc | rfl⟩, -⟩
    · by_contra hlt
      exact hshut hb c (by omega) (by omega) hc
    · exact he.le_length hs.body.le
  tfae_finish

/-- The three say of a block that it holds no closing mark, that it ends before its comment is shut, and
that no slash follows the stars of the opening. -/
theorem inside_tfae (content : String) :
    ∃ spans, Scan content.toList 0 spans ∧
      comments content.toList = (spans.map fun b => content.toList.extract b.1 b.2) ∧
      ∀ b ∈ spans, List.TFAE [¬"*/".toList <:+: content.toList.extract b.1 b.2,
        ∀ c, IsShut content.toList b.1 c → b.2 ≤ c,
        content.toList[bodyStart content.toList b.1]? ≠ some '/'] := by
  obtain ⟨spans, hs, hc⟩ := exists_scan (show content.toList.drop 0 = content.toList from List.drop_zero)
  refine ⟨spans, hs, hc, fun b hb => ?_⟩
  obtain ⟨hstart, hend⟩ := hs.starts_and_ends b hb
  exact span_inside_tfae hstart hend

/-- After a comment without anything in it, a comment of another sort is read as documentation. -/
theorem not_inside_of_short_comment :
    let text := "/**/\n/*\n * @ngdoc service\n * @name draft\n */\n/**\n * @ngdoc directive\n * @name tabs\n */"
    let record (kind name : String) : Record := { Record.blank (some kind) with
      name := name, parent := some ⟨none, none⟩, file := "a.js" }
    comments text.toList = ["/**/\n/*\n * @ngdoc service\n * @name draft\n ".toList,
      "/**\n * @ngdoc directive\n * @name tabs\n ".toList] ∧
      Source.records? ⟨"a.js", "js", text⟩ = some [record "service" "draft", record "directive" "tabs"] ∧
      ¬∀ b ∈ comments text.toList, ¬"*/".toList <:+: b := by
  intro text record
  have hc : comments text.toList = ["/**/\n/*\n * @ngdoc service\n * @name draft\n ".toList,
      "/**\n * @ngdoc directive\n * @name tabs\n ".toList] := by decide +kernel
  have hr : Source.records? ⟨"a.js", "js", text⟩ =
      some [record "service" "draft", record "directive" "tabs"] := by decide +kernel
  refine ⟨hc, hr, fun h => ?_⟩
  rw [hc] at h
  exact h _ List.mem_cons_self (by decide +kernel)

end DocHarvest.Block
