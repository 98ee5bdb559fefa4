import DocHarvest.Proofs.Json.Grammar
import DocHarvest.Proofs.Text.Cutting

/-! A reader of tokens. It finds the tokens that a text spells, and finds some only if the text spells
them, so that no text spells two lists of tokens. -/

namespace DocHarvest.Json

open Text

/-- The character that code units write, and what is left. -/
def coded? (s : List Char) : Option (Char × List Char) :=
  (unit? (s.take 4)).bind fun n =>
    if n.isValidChar then some (.ofNat n, s.drop 4)
    else
      match s.drop 4 with
      | '\\' :: 'u' :: s => (unit? (s.take 4)).bind fun low => (pair? n low).map (·, s.drop 4)
      | _ => none

def escape? : List Char → Option (Char × List Char)
  | [] => none
  | 'u' :: s => coded? s
  | e :: s => (shortEscapes.lookup e).map (·, s)

lemma length_of_unit? {digits : List Char} {n : Nat} (h : unit? digits = some n) :
    digits.length = 4 := by
  rw [unit?] at h
  split at h
  · assumption
  · cases h

lemma unit?_take_append {digits : List Char} {n : Nat} (h : unit? digits = some n)
    (s : List Char) : unit? ((digits ++ s).take 4) = some n ∧ (digits ++ s).drop 4 = s := by
  have hl := length_of_unit? h
  rw [List.take_left' hl, List.drop_left' hl]
  exact ⟨h, rfl⟩

lemma not_isValidChar_of_pair? {high low : Nat} {c : Char} (h : pair? high low = some c) :
    ¬high.isValidChar := by
  rw [pair?] at h
  split at h
  · rintro (hv | hv) <;> omega
  · cases h

lemma lookup_eq_some_iff_mem {α β : Type} [BEq α] [LawfulBEq α] {l : List (α × β)}
    (hl : (l.map Prod.fst).Nodup) {k : α} {v : β} : l.lookup k = some v ↔ (k, v) ∈ l := by
  induction l with
  | nil => simp
  | cons e l ih =>
    obtain ⟨hn, hl⟩ := List.nodup_cons.1 hl
    rw [List.lookup_cons, List.mem_cons]
    by_cases hk : k = e.1
    · have hm : (k, v) ∉ l := fun hm => hn (List.mem_map.2 ⟨_, hm, hk⟩)
      rw [or_iff_left hm, hk, beq_self_eq_true, Option.some_inj, Prod.ext_iff]
      exact ⟨fun h => ⟨rfl, h.symm⟩, fun h => h.2.symm⟩
    · have hne : (k, v) ≠ e := fun h => hk (congrArg Prod.fst h)
      rw [or_iff_right hne, beq_eq_false_iff_ne.2 hk, ih hl]

lemma coded?_eq_some_iff {s r : List Char} {c : Char} :
    coded? s = some (c, r) ↔ ∃ e, s = e ++ r ∧ Escape ('u' :: e) c := by
  constructor
  · intro h
    obtain ⟨n, hn, h⟩ := Option.bind_eq_some_iff.1 h
    split at h
    · next hv =>
      cases h
      exact ⟨s.take 4, (List.take_append_drop 4 s).symm, Escape.unit hn hv⟩
    · split at h
      · next s' hs =>
        obtain ⟨low, hl, h⟩ := Option.bind_eq_some_iff.1 h
        obtain ⟨c', hp, h⟩ := Option.map_eq_some_iff.1 h
        cases h
        refine ⟨s.take 4 ++ '\\' :: 'u' :: s'.take 4, ?_, Escape.pair hn hl hp⟩
        rw [List.append_assoc, List.cons_append, List.cons_append, List.take_append_drop, ← hs,
          List.take_append_drop]
      · cases h
  · rintro ⟨e, rfl, h⟩
    cases h with
    | short he =>
      revert he
      simp [shortEscapes]
    | unit hn hv =>
      obtain ⟨ht, hd⟩ := unit?_take_append hn r
      rw [coded?, ht, hd, Option.bind_some, if_pos hv]
    | @pair digits digits' high low c hh hl hp =>
      obtain ⟨ht, hd⟩ := unit?_take_append hh ('\\' :: 'u' :: (digits' ++ r))
      obtain ⟨ht', hd'⟩ := unit?_take_append hl r
      rw [List.append_assoc, List.cons_append, List.cons_append, coded?, ht, hd, Option.bind_some,
        if_neg (not_isValidChar_of_pair? hp)]
      simp [ht', hd', hp]

lemma escape?_eq_some_iff {s r : List Char} {c : Char} :
    escape? s = some (c, r) ↔ ∃ e, s = e ++ r ∧ Escape e c := by
  constructor
  · intro h
    rw [escape?.eq_def] at h
    split at h
    · cases h
    · obtain ⟨e, rfl, he⟩ := coded?_eq_some_iff.1 h
      exact ⟨'u' :: e, rfl, he⟩
    · obtain ⟨c', hl, h⟩ := Option.map_eq_some_iff.1 h
      cases h
      exact ⟨[_], rfl, Escape.short ((lookup_eq_some_iff_mem (by decide)).1 hl)⟩
  · rintro ⟨e, rfl, h⟩
    cases h with
    | @short x c hx =>
      have hu : x ≠ 'u' := by
        rintro rfl
        revert hx
        simp [shortEscapes]
      have hl := (lookup_eq_some_iff_mem (by decide)).2 hx
      simp [escape?, hl]
    | unit hn hv => exact coded?_eq_some_iff.2 ⟨_, rfl, Escape.unit hn hv⟩
    | pair hh hl hp => exact coded?_eq_some_iff.2 ⟨_, rfl, Escape.pair hh hl hp⟩

lemma length_lt_of_escape? {s r : List Char} {c : Char} (h : escape? s = some (c, r)) :
    r.length < s.length := by
  obtain ⟨e, rfl, he⟩ := escape?_eq_some_iff.1 h
  have hpos : 0 < e.length := by cases he <;> exact Nat.zero_lt_succ _
  rw [List.length_append]
  omega

/-- The text up to the closing quote, and what is left after it. -/
def quoted? : List Char → Option (List Char × List Char)
  | [] => none
  | c :: s =>
    if c = '"' then some ([], s)
    else if c = '\\' then
      match _h : escape? s with
      | some (c, r) => (quoted? r).map fun q => (c :: q.1, q.2)
      | none => none
    else if isPlain c then (quoted? s).map fun q => (c :: q.1, q.2)
    else none
termination_by s => s.length
decreasing_by
  · have hl := length_lt_of_escape? _h
    rw [List.length_cons]
    omega
  · rw [List.length_cons]
    omega

lemma quoted?_escape {e : List Char} {c : Char} (h : Escape e c) (s : List Char) :
    quoted? ('\\' :: (e ++ s)) = (quoted? s).map fun q => (c :: q.1, q.2) := by
  have he : escape? (e ++ s) = some (c, s) := escape?_eq_some_iff.2 ⟨e, rfl, h⟩
  rw [quoted?, if_neg (by decide), if_pos rfl]
  split
  · next hs =>
    cases he.symm.trans hs
    rfl
  · next hs => cases he.symm.trans hs

lemma quoted?_eq_some_iff {s t r : List Char} :
    quoted? s = some (t, r) ↔ ∃ q, s = q ++ '"' :: r ∧ Quotes q t := by
  constructor
  · fun_induction quoted? s generalizing t with
    | case1 => exact fun h => nomatch h
    | case2 s =>
      rintro ⟨⟩
      exact ⟨[], rfl, Quotes.nil⟩
    | case3 s c rest hs _ ih =>
      intro h
      obtain ⟨⟨t', r'⟩, ht, he⟩ := Option.map_eq_some_iff.1 h
      cases he
      obtain ⟨e, rfl, he⟩ := escape?_eq_some_iff.1 hs
      obtain ⟨q, rfl, hq⟩ := ih ht
      exact ⟨'\\' :: (e ++ q), by simp, Quotes.escape he hq⟩
    | case4 => exact fun h => nomatch h
    | case5 c s _ _ hc ih =>
      intro h
      obtain ⟨⟨t', r'⟩, ht, he⟩ := Option.map_eq_some_iff.1 h
      cases he
      obtain ⟨q, rfl, hq⟩ := ih ht
      exact ⟨c :: q, rfl, Quotes.plain hc hq⟩
    | case6 => exact fun h => nomatch h
  · rintro ⟨q, rfl, h⟩
    induction h with
    | nil => rw [List.nil_append, quoted?, if_pos rfl]
    | @plain c s t hc _ ih =>
      have hq : c ≠ '"' := by rintro rfl; revert hc; decide
      have he : c ≠ '\\' := by rintro rfl; revert hc; decide
      rw [List.cons_append, quoted?, if_neg hq, if_neg he, if_pos hc, ih]
      rfl
    | @escape c e s t he _ ih =>
      rw [List.cons_append, List.append_assoc, quoted?_escape he, ih]
      rfl

/-- The token that a text starts with, and what is left after it. -/
def next? : List Char → Option (Token × List Char)
  | [] => none
  | c :: s =>
    if c = '"' then (quoted? s).map fun q => (.scalar (.text (String.ofList q.1)), q.2)
    else if isNumberChar c then
      let w := (c :: s).takeWhile isNumberChar
      if isNumber w then some (.scalar (.number w), (c :: s).dropWhile isNumberChar) else none
    else
      match marks.lookup c with
      | some t => some (t, s)
      | none => words.findSome? fun w => (w.1.isPrefixOf? (c :: s)).map (.scalar w.2, ·)

lemma isNumberChar_of_isDigit {c : Char} (h : c.isDigit) : isNumberChar c := by
  rw [isNumberChar, h, Bool.true_or]

lemma isNumberChar_of_mem {signs : List Char} (hs : signs ⊆ ['-', '+', '.', 'e', 'E']) {c : Char}
    (h : c ∈ signs) : isNumberChar c := by
  rw [isNumberChar, List.contains_iff_mem.2 (hs h), Bool.or_true]

lemma isNumberChar_of_isDigits {s : List Char} (h : isDigits s) {c : Char} (hc : c ∈ s) :
    isNumberChar c := by
  rw [isDigits, Bool.and_eq_true] at h
  exact isNumberChar_of_isDigit (List.all_eq_true.1 h.2 c hc)

lemma mem_skipSign {signs s : List Char} {c : Char} (h : c ∈ s) :
    c ∈ signs ∨ c ∈ skipSign signs s := by
  cases s with
  | nil => cases h
  | cons x s =>
    rw [skipSign]
    split
    · next hx =>
      rcases List.mem_cons.1 h with rfl | h
      · exact Or.inl (List.contains_iff_mem.1 hx)
      · exact Or.inr h
    · exact Or.inr h

lemma isNumberChar_of_isExponent {s : List Char} (h : isExponent s) {c : Char} (hc : c ∈ s) :
    isNumberChar c := by
  cases s with
  | nil => cases hc
  | cons x s =>
    rw [isExponent, Bool.and_eq_true] at h
    rcases List.mem_cons.1 hc with rfl | hc
    · have he : ['e', 'E'] ⊆ ['-', '+', '.', 'e', 'E'] := by decide
      exact isNumberChar_of_mem he (List.contains_iff_mem.1 h.1)
    · have hs : ['+', '-'] ⊆ ['-', '+', '.', 'e', 'E'] := by decide
      rcases mem_skipSign hc with hc | hc
      · exact isNumberChar_of_mem hs hc
      · exact isNumberChar_of_isDigits h.2 hc

lemma isNumberChar_of_isFraction {s : List Char} (h : isFraction s) {c : Char} (hc : c ∈ s) :
    isNumberChar c := by
  rw [isFraction.eq_def] at h
  split at h
  · next s =>
    rw [Bool.and_eq_true] at h
    rcases List.mem_cons.1 hc with rfl | hc
    · rfl
    · rw [← s.takeWhile_append_dropWhile (p := Char.isDigit), List.mem_append] at hc
      rcases hc with hc | hc
      · exact isNumberChar_of_isDigits h.1 hc
      · exact isNumberChar_of_isExponent h.2 hc
  · exact isNumberChar_of_isExponent h hc

lemma isNumberChar_of_isNumber {s : List Char} (h : isNumber s) {c : Char} (hc : c ∈ s) :
    isNumberChar c := by
  rw [isNumber, Bool.and_eq_true] at h
  have hm : c ∈ ['-'] ∨ c ∈ skipSign ['-'] s := mem_skipSign hc
  rcases hm with hc | hc
  · exact isNumberChar_of_mem (by decide) hc
  · rw [← (skipSign ['-'] s).takeWhile_append_dropWhile (p := Char.isDigit), List.mem_append] at hc
    rcases hc with hc | hc
    · exact isNumberChar_of_isDigit (List.mem_takeWhile_imp hc)
    · exact isNumberChar_of_isFraction h.2 hc

lemma not_isNumberChar_of_isSpace {c : Char} (h : isSpace c) : ¬isNumberChar c := by
  simp only [isSpace, Bool.or_eq_true, beq_iff_eq] at h
  rcases h with ((rfl | rfl) | rfl) | rfl
  all_goals decide

lemma next?_number {s rest : List Char} (h : isNumber s) (hr : ∀ c ∈ rest.head?, ¬isNumberChar c) :
    next? (s ++ rest) = some (.scalar (.number s), rest) := by
  have hs : ∀ c ∈ s, isNumberChar c := fun c hc => isNumberChar_of_isNumber h hc
  have ht := takeWhile_append_stop hs hr
  have hd := dropWhile_append_stop hs hr
  cases s with
  | nil => exact nomatch (h : false = true)
  | cons c s =>
    have hc : isNumberChar c := hs c List.mem_cons_self
    have hq : c ≠ '"' := by rintro rfl; revert hc; decide
    rw [List.cons_append] at ht hd ⊢
    rw [next?, if_neg hq, if_pos hc, ht, hd, if_pos h]

lemma next?_append {rest w : List Char} {t : Token} (h : Lexeme rest w t) :
    next? (w ++ rest) = some (t, rest) := by
  cases h with
  | @mark c t hc =>
    simp only [marks, List.mem_cons, Prod.mk.injEq, List.not_mem_nil, or_false] at hc
    rcases hc with ⟨rfl, rfl⟩ | ⟨rfl, rfl⟩ | ⟨rfl, rfl⟩ | ⟨rfl, rfl⟩ | ⟨rfl, rfl⟩ | ⟨rfl, rfl⟩
    all_goals rfl
  | @word s v hw =>
    simp only [words, List.mem_cons, Prod.mk.injEq, List.not_mem_nil, or_false] at hw
    rcases hw with ⟨rfl, rfl⟩ | ⟨rfl, rfl⟩ | ⟨rfl, rfl⟩
    all_goals rfl
  | number h hr => exact next?_number h hr
  | @text s t h =>
    have hq : quoted? (s ++ '"' :: rest) = some (t, rest) := quoted?_eq_some_iff.2 ⟨s, rfl, h⟩
    rw [List.cons_append, List.append_assoc, next?, if_pos rfl, List.singleton_append, hq]
    rfl

lemma exists_lexeme_of_next? {s rest : List Char} {t : Token} (h : next? s = some (t, rest)) :
    ∃ w, s = w ++ rest ∧ Lexeme rest w t := by
  rw [next?.eq_def] at h
  split at h
  · cases h
  next x s =>
  split_ifs at h with hq hn
  · obtain ⟨⟨q, r⟩, hs, he⟩ := Option.map_eq_some_iff.1 h
    cases he
    obtain ⟨q', rfl, hq'⟩ := quoted?_eq_some_iff.1 hs
    refine ⟨'"' :: (q' ++ ['"']), ?_, Lexeme.text hq'⟩
    simp [hq]
  · dsimp only at h
    split_ifs at h with hw
    cases h
    refine ⟨_, List.takeWhile_append_dropWhile.symm, Lexeme.number hw fun c hc => ?_⟩
    have hn := List.head?_dropWhile_not isNumberChar (x :: s)
    rw [Option.mem_def.1 hc] at hn
    simpa using hn
  · split at h
    · next hl =>
      cases h
      exact ⟨[_], rfl, Lexeme.mark ((lookup_eq_some_iff_mem (by decide)).1 hl)⟩
    · obtain ⟨w, hw, h⟩ := List.exists_of_findSome?_eq_some h
      obtain ⟨r, hr, h⟩ := Option.map_eq_some_iff.1 h
      cases h
      exact ⟨w.1, (List.isPrefixOf?_eq_some_iff_append_eq.1 hr).symm, Lexeme.word hw⟩

lemma Lexeme.exists_cons {rest w : List Char} {t : Token} (h : Lexeme rest w t) :
    ∃ c w', w = c :: w' ∧ ¬isSpace c := by
  have marks_not_space : ∀ m ∈ marks, ¬isSpace m.1 := by decide
  cases h with
  | mark hc => exact ⟨_, [], rfl, marks_not_space _ hc⟩
  | word hw =>
    simp only [words, List.mem_cons, Prod.mk.injEq, List.not_mem_nil, or_false] at hw
    rcases hw with ⟨rfl, rfl⟩ | ⟨rfl, rfl⟩ | ⟨rfl, rfl⟩
    all_goals exact ⟨_, _, rfl, by decide⟩
  | number hw =>
    cases w with
    | nil => exact nomatch (hw : false = true)
    | cons c w =>
      have hc := isNumberChar_of_isNumber hw List.mem_cons_self
      exact ⟨c, w, rfl, fun hs => not_isNumberChar_of_isSpace hs hc⟩
  | text hq => exact ⟨'"', _, rfl, by decide⟩

lemma length_lt_of_next? {s r : List Char} {t : Token} (h : next? s = some (t, r)) :
    r.length < s.length := by
  obtain ⟨w, rfl, hw⟩ := exists_lexeme_of_next? h
  obtain ⟨c, w', rfl, -⟩ := hw.exists_cons
  rw [List.length_append, List.length_cons]
  omega

/-- The tokens of a text, if it has no other parts than tokens and spaces. -/
def lex? : List Char → Option (List Token)
  | [] => some []
  | c :: s =>
    if isSpace c then lex? s
    else
      match _h : next? (c :: s) with
      | some (t, r) => (lex? r).map (t :: ·)
      | none => none
termination_by s => s.length
decreasing_by
  · rw [List.length_cons]
    omega
  · exact length_lt_of_next? _h

lemma lex?_append {rest w : List Char} {t : Token} (h : Lexeme rest w t) :
    lex? (w ++ rest) = (lex? rest).map (t :: ·) := by
  have hn := next?_append h
  obtain ⟨c, w, rfl, hc⟩ := h.exists_cons
  rw [List.cons_append] at hn ⊢
  rw [lex?, if_neg hc]
  split
  · next hs =>
    cases hn.symm.trans hs
    rfl
  · next hs => cases hn.symm.trans hs

/-- The reader finds just the tokens that the text spells. -/
theorem lex?_eq_some_iff {s : List Char} {ts : List Token} : lex? s = some ts ↔ Spells s ts := by
  constructor
  · fun_induction lex? s generalizing ts with
    | case1 =>
      rintro ⟨⟩
      exact Spells.nil
    | case2 c s hc ih => exact fun h => Spells.space hc (ih h)
    | case3 c s hc t r hn ih =>
      intro h
      obtain ⟨ts, hts, rfl⟩ := Option.map_eq_some_iff.1 h
      obtain ⟨w, hs, hw⟩ := exists_lexeme_of_next? hn
      rw [hs]
      exact Spells.token hw (ih hts)
    | case4 => exact fun h => nomatch h
  · intro h
    induction h with
    | nil => rw [lex?]
    | space hc _ ih => rw [lex?, if_pos hc, ih]
    | token hw _ ih => rw [lex?_append hw, ih, Option.map_some]

end DocHarvest.Json
