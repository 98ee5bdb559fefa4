import DocHarvest.Markup.Segment
import DocHarvest.Proofs.Text.Cutting

/-! Reading back what is written: the attributes of a rendered tag, the tag itself, and the tokens of
a text in which a tag comes next. -/

namespace DocHarvest.Markup

open Text

namespace Attribute

/-- A name and a value that come back as they are when the attribute is written and read. -/
structure Plain (a : Attribute) : Prop where
  name_ne : a.name ≠ ""
  name_char : ∀ c ∈ a.name.toList, isNameChar c ∧ ¬isQuote c ∧ c.toLower = c
  value_char : '"' ∉ a.value.toList

lemma readAssigned_quoted {value : List Char} (h : '"' ∉ value) (rest : List Char) :
    readAssigned ('=' :: '"' :: (value ++ '"' :: rest)) = (value, rest) := by
  have hv : readValue ('"' :: (value ++ '"' :: rest)) = (value, rest) := by
    have hb : isBlank '"' = false := by decide
    have hq : isQuote '"' = true := by decide
    simp [readValue, trimStart, hb, hq, cutAtChar?_append h]
  have he : isFiller '=' = false := by decide
  simp [readAssigned, he, hv]

lemma readAll?_of_cons {s t : List Char} {c : Char} (h : s.dropWhile isFiller = c :: t) :
    readAll? s =
      if c == '>' then some ([], t)
      else if c == '=' then readAll? (readValue t).2
      else if isQuote c then none
      else (readAll? (readAssigned (t.dropWhile isNameChar)).2).map fun (attributes, rest) =>
        (ofText (c :: t.takeWhile isNameChar) (readAssigned (t.dropWhile isNameChar)).1
          :: attributes, rest) := by
  rw [readAll?]
  split
  · next hn =>
    rw [hn] at h
    cases h
  · next hc =>
    rw [hc] at h
    cases h
    rfl

lemma readAll?_end (rest : List Char) : readAll? ('>' :: rest) = some ([], rest) := by
  have hf : isFiller '>' = false := by decide
  rw [readAll?_of_cons (List.dropWhile_cons_of_neg (by simp [hf]))]
  rfl

lemma lowerAscii_eq_self {s : List Char} (h : ∀ c ∈ s, c.toLower = c) : lowerAscii s = s := by
  rw [lowerAscii, List.map_congr_left h, List.map_id']

lemma readAll?_render {a : Attribute} (h : a.Plain) (rest : List Char) :
    readAll? (a.render.toList ++ rest) =
      (readAll? rest).map fun (attributes, rest) => (a :: attributes, rest) := by
  obtain ⟨name, value⟩ := a
  cases hn : name.toList with
  | nil => exact (h.name_ne (by simpa using hn)).elim
  | cons c s =>
    have hc : ∀ x ∈ c :: s, isNameChar x ∧ ¬isQuote x ∧ x.toLower = x := by
      simpa [hn] using h.name_char
    have hs : ∀ x ∈ s, isNameChar x := fun x hx => (hc x (List.mem_cons_of_mem c hx)).1
    have hl : lowerAscii (c :: s) = c :: s := lowerAscii_eq_self fun x hx => (hc x hx).2.2
    obtain ⟨hname, hquote, -⟩ := hc c List.mem_cons_self
    have hname' := hname
    simp only [isNameChar, Bool.and_eq_true, Bool.not_eq_true', bne_iff_ne] at hname'
    obtain ⟨⟨hfill, heq⟩, hgt⟩ := hname'
    have hr : (render ⟨name, value⟩).toList ++ rest =
        ' ' :: c :: (s ++ '=' :: '"' :: (value.toList ++ '"' :: rest)) := by
      simp [render, hn]
    have hd : (' ' :: c :: (s ++ '=' :: '"' :: (value.toList ++ '"' :: rest))).dropWhile isFiller =
        c :: (s ++ '=' :: '"' :: (value.toList ++ '"' :: rest)) := by
      have hb : isFiller ' ' = true := by decide
      rw [List.dropWhile_cons_of_pos hb, List.dropWhile_cons_of_neg (by simp [hfill])]
    have hstop : ∀ x ∈ ('=' :: '"' :: (value.toList ++ '"' :: rest)).head?, ¬isNameChar x := by
      intro x hx
      cases hx
      decide
    rw [hr, readAll?_of_cons hd, if_neg (by simpa using hgt), if_neg (by simpa using heq),
      if_neg hquote, takeWhile_append_stop hs hstop, dropWhile_append_stop hs hstop,
      readAssigned_quoted h.value_char, ofText, hl, ← hn]
    simp only [String.ofList_toList]

def renderAll (attributes : List Attribute) : List Char :=
  attributes.flatMap fun a => a.render.toList

lemma readAll?_renderAll {attributes : List Attribute} (h : ∀ a ∈ attributes, a.Plain)
    (rest : List Char) :
    readAll? (renderAll attributes ++ '>' :: rest) = some (attributes, rest) := by
  induction attributes with
  | nil => exact readAll?_end rest
  | cons a attributes ih =>
    rw [renderAll, List.flatMap_cons, List.append_assoc, readAll?_render (h a List.mem_cons_self)]
    rw [← renderAll, ih fun x hx => h x (List.mem_cons_of_mem a hx)]
    rfl

lemma distinct_eq_self {attributes : List Attribute} (h : (attributes.map name).Nodup) :
    distinct attributes = attributes := by
  induction attributes with
  | nil => rfl
  | cons a attributes ih =>
    rw [List.map_cons, List.nodup_cons] at h
    rw [distinct, ih h.2, List.filter_eq_self.2]
    intro x hx
    have hne : x.name ≠ a.name := fun he => h.1 (he ▸ List.mem_map_of_mem hx)
    simpa using hne

lemma read?_renderAll {attributes : List Attribute} (h : ∀ a ∈ attributes, a.Plain)
    (hd : (attributes.map name).Nodup) (rest : List Char) :
    read? (renderAll attributes ++ '>' :: rest) = some (attributes, rest) := by
  simp only [read?, readAll?_renderAll h, Option.map_some, distinct_eq_self hd]

end Attribute

namespace Token

lemma next_of_notMem {s : List Char} (h : '<' ∉ s) : next s = (s, none) := by
  induction s with
  | nil => rfl
  | cons c s ih =>
    simp only [List.mem_cons, not_or] at h
    rw [next, if_neg (by simpa using Ne.symm h.1), ih h.2]
    rfl

lemma next_append {t : List Char} (h : '<' ∉ t) (s : List Char) :
    next (t ++ s) = ((t ++ (next s).1), (next s).2) := by
  induction t with
  | nil => rfl
  | cons c t ih =>
    simp only [List.mem_cons, not_or] at h
    rw [List.cons_append, next, if_neg (by simpa using Ne.symm h.1), ih h.2]
    rfl

lemma next_of_mark {s rest : List Char} {token : Token} (h : read s = .mark token rest) :
    next ('<' :: s) = ([], some (token, rest)) := by
  rw [next, h]
  rfl

lemma tokens_of_none {s before : List Char} (h : next s = (before, none)) :
    tokens s = ofText before := by
  rw [tokens]
  split
  · next hn =>
    rw [hn] at h
    cases h
    rfl
  · next hn =>
    rw [hn] at h
    cases h

lemma tokens_of_some {s before rest : List Char} {token : Token}
    (h : next s = (before, some (token, rest))) :
    tokens s = ofText before ++
      token :: (ofText (rawContent token rest).1 ++ tokens (rawContent token rest).2) := by
  rw [tokens]
  split
  · next hn =>
    rw [hn] at h
    cases h
  · next hn =>
    rw [hn] at h
    cases h
    rfl

lemma tokens_of_notMem {s : List Char} (h : '<' ∉ s) : tokens s = ofText s :=
  tokens_of_none (next_of_notMem h)

lemma tokens_of_mark {s rest : List Char} {token : Token} (h : read s = .mark token rest) :
    tokens ('<' :: s) =
      token :: (ofText (rawContent token rest).1 ++ tokens (rawContent token rest).2) :=
  tokens_of_some (next_of_mark h)

lemma tokens_append_of_mark {t s rest : List Char} {token : Token} (ht : '<' ∉ t)
    (h : read s = .mark token rest) : tokens (t ++ '<' :: s) = ofText t ++ tokens ('<' :: s) := by
  have hn : next (t ++ '<' :: s) = (t, some (token, rest)) := by
    rw [next_append ht, next_of_mark h, List.append_nil]
  rw [tokens_of_some hn, tokens_of_mark h]

/-- A name that comes back as it is when a tag is written and read. -/
structure PlainName (name : String) : Prop where
  head : name.toList.head?.any Char.isAlpha
  char : ∀ c ∈ name.toList, isTagNameChar c ∧ c.toLower = c

lemma PlainName.of_all {name : String} (hh : name.toList.head?.any Char.isAlpha)
    (hc : name.toList.all fun c => isTagNameChar c && c.toLower == c) : PlainName name where
  head := hh
  char := by simpa using hc

lemma spelled_append (s rest : List Char) :
    spelled (s ++ rest) rest = String.ofList ('<' :: s) := by
  rw [spelled, List.length_append, Nat.add_sub_cancel, List.take_left']
  rfl

lemma tagName_append {name : String} (h : PlainName name) {s : List Char}
    (hs : ∀ c ∈ s.head?, ¬isTagNameChar c) : tagName (name.toList ++ s) = name := by
  rw [tagName, takeWhile_append_stop (fun c hc => (h.char c hc).1) hs,
    Attribute.lowerAscii_eq_self fun c hc => (h.char c hc).2, String.ofList_toList]

lemma toList_renderStart (name : String) (attributes : List Attribute) :
    (renderStart name attributes).toList =
      '<' :: (name.toList ++ (Attribute.renderAll attributes ++ ['>'])) := by
  simp [renderStart, Attribute.renderAll, List.flatMap_map]

lemma toList_renderEnd (name : String) :
    (renderEnd name).toList = '<' :: '/' :: (name.toList ++ ['>']) := by
  simp [renderEnd]

lemma not_isTagNameChar_of_head? (attributes : List Attribute) (rest : List Char) :
    ∀ c ∈ (Attribute.renderAll attributes ++ '>' :: rest).head?, ¬isTagNameChar c := by
  intro c hc
  cases attributes with
  | nil =>
    cases hc
    decide
  | cons a attributes =>
    simp only [Attribute.renderAll, List.flatMap_cons, Attribute.render, String.append_assoc,
      String.toList_append, List.append_assoc] at hc
    cases hc
    decide

lemma isTagNameChar_of_isAlphanum {c : Char} (h : c.isAlphanum) : isTagNameChar c := by
  have hne : ∀ x : Char, x.isAlphanum = false → c ≠ x := by
    rintro x hx rfl
    rw [h] at hx
    cases hx
  have hb := not_isBlank_of_isAlphanum h
  simp [isTagNameChar, hb, hne '/' (by decide), hne '>' (by decide)]

lemma ne_of_isAlpha {c x : Char} (h : c.isAlpha) (hx : x.isAlpha = false) : c ≠ x := by
  rintro rfl
  rw [h] at hx
  cases hx

lemma read_of_alpha {c : Char} {s : List Char} (h : c.isAlpha) :
    read (c :: s) = readStartTag (c :: s) := by
  have he : c ≠ '!' := ne_of_isAlpha h (by decide)
  have hq : c ≠ '?' := ne_of_isAlpha h (by decide)
  have hs : c ≠ '/' := ne_of_isAlpha h (by decide)
  have hc : opensComment (c :: s) = false := by
    simp [opensComment, List.isPrefixOf, Ne.symm he]
  have hd : opensDeclaration (c :: s) = false := by simp [opensDeclaration, he, hq]
  have hee : opensEndTag (c :: s) = false := by simp [opensEndTag, hs]
  have hst : opensStartTag (c :: s) = true := by simpa [opensStartTag] using h
  simp only [read, hc, hd, hee, hst, if_true, Bool.false_eq_true, if_false]

lemma read_renderStart {name : String} {attributes : List Attribute} (hn : PlainName name)
    (ha : ∀ a ∈ attributes, a.Plain) (hd : (attributes.map Attribute.name).Nodup)
    (rest : List Char) :
    read (name.toList ++ (Attribute.renderAll attributes ++ '>' :: rest)) =
      .mark (startTag (renderStart name attributes) name attributes) rest := by
  have hstop := not_isTagNameChar_of_head? attributes rest
  have hr : readStartTag (name.toList ++ (Attribute.renderAll attributes ++ '>' :: rest)) =
      .mark (startTag (renderStart name attributes) name attributes) rest := by
    have hsp : spelled (name.toList ++ (Attribute.renderAll attributes ++ '>' :: rest)) rest =
        renderStart name attributes := by
      have h := spelled_append (name.toList ++ (Attribute.renderAll attributes ++ ['>'])) rest
      simp only [List.append_assoc, List.singleton_append] at h
      rw [h, ← toList_renderStart, String.ofList_toList]
    rw [readStartTag, dropWhile_append_stop (fun c hc => (hn.char c hc).1) hstop,
      Attribute.read?_renderAll ha hd]
    simp only [hsp, tagName_append hn hstop]
  have hh := hn.head
  cases hl : name.toList with
  | nil => simp [hl] at hh
  | cons c s =>
    rw [hl] at hr hh
    rw [List.cons_append] at hr ⊢
    rw [read_of_alpha (by simpa using hh), hr]

lemma read_renderEnd {name : String} (hn : PlainName name) (rest : List Char) :
    read ('/' :: (name.toList ++ '>' :: rest)) = .mark (endTag (renderEnd name) name) rest := by
  have hh := hn.head
  have he : opensEndTag ('/' :: (name.toList ++ '>' :: rest)) = true := by
    cases hl : name.toList with
    | nil => simp [hl] at hh
    | cons c s => simpa [hl, opensEndTag] using hh
  have hg : '>' ∉ '/' :: name.toList := by
    intro hm
    rcases List.mem_cons.1 hm with h | h
    · cases h
    · exact absurd (hn.char '>' h).1 (by decide)
  have hc : cutAtChar? '>' ('/' :: (name.toList ++ '>' :: rest)) = some ('/' :: name.toList, rest) :=
    cutAtChar?_append hg rest
  have hsp : spelled ('/' :: (name.toList ++ '>' :: rest)) rest = renderEnd name := by
    have h := spelled_append ('/' :: (name.toList ++ ['>'])) rest
    simp only [List.cons_append, List.append_assoc, List.nil_append] at h
    rw [h, ← toList_renderEnd, String.ofList_toList]
  have hstop : ∀ c ∈ ('>' :: rest).head?, ¬isTagNameChar c := by
    intro c hc
    cases hc
    decide
  have hcm : opensComment ('/' :: (name.toList ++ '>' :: rest)) = false := rfl
  have hdc : opensDeclaration ('/' :: (name.toList ++ '>' :: rest)) = false := rfl
  simp only [read, hcm, hdc, he, readToAngle, hc, hsp, List.tail_cons, tagName_append hn hstop,
    if_true, Bool.false_eq_true, if_false]

lemma rawContent_startTag {name : String} (h : name ∉ rawNames) (source : String)
    (attributes : List Attribute) (s : List Char) :
    rawContent (startTag source name attributes) s = ([], s) := by
  rw [rawContent, if_neg (by simpa using h)]

lemma tokens_renderStart {name : String} {attributes : List Attribute} (hn : PlainName name)
    (hr : name ∉ rawNames) (ha : ∀ a ∈ attributes, a.Plain)
    (hd : (attributes.map Attribute.name).Nodup) {t : List Char} (ht : '<' ∉ t)
    (rest : List Char) :
    tokens (t ++ ((renderStart name attributes).toList ++ rest)) =
      ofText t ++ startTag (renderStart name attributes) name attributes :: tokens rest := by
  have h := read_renderStart hn ha hd rest
  have hs : (renderStart name attributes).toList ++ rest =
      '<' :: (name.toList ++ (Attribute.renderAll attributes ++ '>' :: rest)) := by
    rw [toList_renderStart]
    simp only [List.cons_append, List.append_assoc, List.nil_append]
  rw [hs, tokens_append_of_mark ht h, tokens_of_mark h, rawContent_startTag hr]
  rfl

lemma tokens_renderEnd {name : String} (hn : PlainName name) {t : List Char} (ht : '<' ∉ t)
    (rest : List Char) :
    tokens (t ++ ((renderEnd name).toList ++ rest)) =
      ofText t ++ endTag (renderEnd name) name :: tokens rest := by
  have h := read_renderEnd hn rest
  have hs : (renderEnd name).toList ++ rest = '<' :: '/' :: (name.toList ++ '>' :: rest) := by
    rw [toList_renderEnd]
    simp only [List.cons_append, List.append_assoc, List.nil_append]
  rw [hs, tokens_append_of_mark ht h, tokens_of_mark h]
  rfl

end Token

namespace Event

/-- The events of a text, read with the elements on `stack` open. -/
def ofChars (stack : List String) (s : List Char) : List Event :=
  ofTokens stack (Token.tokens s)

def ofRun (s : List Char) : List Event :=
  if s.isEmpty then [] else [text (String.ofList s)]

lemma ofTokens_ofText (stack : List String) (s : List Char) (ts : List Token) :
    ofTokens stack (Token.ofText s ++ ts) = ofRun s ++ ofTokens stack ts := by
  rw [Token.ofText, ofRun]
  split <;> rfl

lemma ofChars_of_notMem {s : List Char} (h : '<' ∉ s) : ofChars [] s = ofRun s := by
  have hs := ofTokens_ofText [] s []
  rw [List.append_nil] at hs
  rw [ofChars, Token.tokens_of_notMem h, hs]
  exact List.append_nil _

lemma ofChars_renderStart {name : String} {attributes : List Attribute}
    (hn : Token.PlainName name) (hr : name ∉ Token.rawNames) (hv : name ∉ voidNames)
    (ha : ∀ a ∈ attributes, a.Plain) (hd : (attributes.map Attribute.name).Nodup)
    (stack : List String) {t : List Char} (ht : '<' ∉ t) (rest : List Char) :
    ofChars stack (t ++ ((renderStart name attributes).toList ++ rest)) =
      ofRun t ++ opened name attributes :: ofChars (name :: stack) rest := by
  rw [ofChars, Token.tokens_renderStart hn hr ha hd ht, ofTokens_ofText, ofTokens,
    if_neg (by simpa using hv)]
  rfl

lemma ofChars_renderEnd {name : String} (hn : Token.PlainName name) (stack : List String)
    {t : List Char} (ht : '<' ∉ t) (rest : List Char) :
    ofChars (name :: stack) (t ++ ((renderEnd name).toList ++ rest)) =
      ofRun t ++ closed name :: ofChars stack rest := by
  have hs : (name :: stack).dropWhile (· != name) = name :: stack :=
    List.dropWhile_cons_of_neg (by simp)
  rw [ofChars, Token.tokens_renderEnd hn ht, ofTokens_ofText, ofTokens, hs]
  simp [ofChars]

end Event

end DocHarvest.Markup
