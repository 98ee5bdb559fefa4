import DocHarvest.Markup.Event
import DocHarvest.Proofs.Markup.Attribute

/-! The tokens of a text are consecutive pieces of it: runs of text, and constructs that are complete
where they stand. The texts among its events are those runs. -/

namespace DocHarvest.Markup

open Text

namespace Token

/-- A comment reaches up to the first mark that ends it, or else to the end of the text. -/
def IsComment (source rest : List Char) : Prop :=
  (∃ body, source = "<!--".toList ++ (body ++ "-->".toList) ∧
    ¬"-->".toList <:+: body ++ "--".toList) ∨
  ∃ body, source = "<!--".toList ++ body ∧ ¬"-->".toList <:+: body ∧ rest = []

def IsDeclaration (source : List Char) : Prop :=
  (∃ body, source = '<' :: '?' :: (body ++ ['>']) ∧ '>' ∉ body) ∨
  ∃ c body, source = '<' :: '!' :: c :: (body ++ ['>']) ∧ c ≠ '-' ∧ '>' ∉ c :: body

def IsEndTag (source : List Char) (name : String) : Prop :=
  ∃ c body, source = '<' :: '/' :: c :: (body ++ ['>']) ∧ c.isAlpha ∧ '>' ∉ c :: body ∧
    name = tagName (c :: body)

/-- A name, and then attributes up to the `>` with which the tag ends. -/
def IsStartTag (source : List Char) (name : String) (attributes : List Attribute) : Prop :=
  ∃ c word text, source = '<' :: c :: (word ++ text) ∧ c.isAlpha ∧
    (∀ x ∈ word, isTagNameChar x) ∧ (∀ x ∈ text.head?, ¬isTagNameChar x) ∧
    Attribute.read? text = some (attributes, []) ∧ name = String.ofList (lowerAscii (c :: word))

def Complete (rest : List Char) : Token → Prop
  | text content => content ≠ ""
  | startTag source name attributes => IsStartTag source.toList name attributes
  | endTag source name => IsEndTag source.toList name
  | skipped source => IsComment source.toList rest ∨ IsDeclaration source.toList

/-- The tokens are the consecutive pieces of a text, each complete where it stands. -/
inductive Pieces : List Token → List Char → Prop
  | nil : Pieces [] []
  | cons {token : Token} {tokens : List Token} {rest : List Char} : token.Complete rest →
      Pieces tokens rest → Pieces (token :: tokens) (token.source.toList ++ rest)

lemma toList_spelled {s u rest : List Char} (h : s = u ++ rest) :
    (spelled s rest).toList = '<' :: u := by
  rw [h, spelled_append, String.toList_ofList]

lemma tagName_append_end (s rest : List Char) : tagName (s ++ '>' :: rest) = tagName s := by
  have hgt : isTagNameChar '>' = false := by decide
  rw [tagName, tagName, List.takeWhile_append, List.takeWhile_cons_of_neg (by simp [hgt])]
  split
  · next h =>
    rw [List.append_nil, (List.takeWhile_prefix _).eq_of_length h]
  · rfl

lemma eq_of_opensComment {s : List Char} (h : opensComment s) : s = "!--".toList ++ s.drop 3 := by
  obtain ⟨t, rfl⟩ := List.isPrefixOf_iff_prefix.1 h
  rfl

lemma complete_of_readComment {s rest : List Char} {token : Token} (ho : opensComment s)
    (h : readComment s = .mark token rest) :
    '<' :: s = token.source.toList ++ rest ∧ token.Complete rest := by
  have hs := eq_of_opensComment ho
  rw [readComment] at h
  split at h
  · next before after hc =>
    cases h
    have hcut : s = "!--".toList ++ (before ++ "-->".toList) ++ rest := by
      rw [List.append_assoc, ← eq_of_cutAt? hc]
      exact hs
    have hsp := toList_spelled hcut
    refine ⟨?_, Or.inl (Or.inl ⟨before, hsp, not_isInfix_of_cutAt? (by decide) hc⟩)⟩
    rw [source, hsp, List.cons_append, ← hcut]
  · next hc =>
    cases h
    have hsp := toList_spelled (List.append_nil s).symm
    refine ⟨?_, Or.inl (Or.inr ⟨s.drop 3, ?_, not_isInfix_of_cutAt?_none hc, rfl⟩)⟩
    · rw [source, hsp, List.append_nil]
    · rw [hsp, hs]
      rfl

lemma eq_of_readToAngle {f : String → Token} {s rest : List Char} {token : Token}
    (h : readToAngle f s = .mark token rest) :
    ∃ body, s = body ++ '>' :: rest ∧ '>' ∉ body ∧
      token = f (String.ofList ('<' :: (body ++ ['>']))) := by
  rw [readToAngle] at h
  split at h
  · next before after hc =>
    cases h
    have hs : s = before ++ ['>'] ++ rest := by simpa using eq_of_cutAtChar? hc
    refine ⟨before, eq_of_cutAtChar? hc, notMem_of_cutAtChar? hc, ?_⟩
    rw [← toList_spelled hs, String.ofList_toList]
  · cases h

lemma isDeclaration_of_opensDeclaration {body rest : List Char} (hb : '>' ∉ body)
    (h : opensDeclaration (body ++ '>' :: rest)) : IsDeclaration ('<' :: (body ++ ['>'])) := by
  cases body with
  | nil => cases h
  | cons c body =>
    simp only [List.cons_append, opensDeclaration, Bool.or_eq_true, Bool.and_eq_true,
      beq_iff_eq] at h
    rcases h with rfl | ⟨rfl, hx⟩
    · exact Or.inl ⟨body, rfl, fun hm => hb (List.mem_cons_of_mem _ hm)⟩
    · cases body with
      | nil => cases hx
      | cons x body =>
        have hx' : x ≠ '-' ∧ x ≠ '>' := by simpa using hx
        exact Or.inr ⟨x, body, rfl, hx'.1, fun hm => hb (List.mem_cons_of_mem _ hm)⟩

lemma isEndTag_of_opensEndTag {body rest : List Char} (hb : '>' ∉ body)
    (h : opensEndTag (body ++ '>' :: rest)) :
    IsEndTag ('<' :: (body ++ ['>'])) (tagName (body ++ '>' :: rest).tail) := by
  cases body with
  | nil => cases h
  | cons c body =>
    simp only [List.cons_append, opensEndTag, Bool.and_eq_true, beq_iff_eq] at h
    obtain ⟨rfl, hx⟩ := h
    cases body with
    | nil => cases hx
    | cons x body =>
      refine ⟨x, body, rfl, by simpa using hx, fun hm => hb (List.mem_cons_of_mem _ hm), ?_⟩
      exact tagName_append_end (x :: body) rest

lemma complete_of_readStartTag {s rest : List Char} {token : Token} (ho : opensStartTag s)
    (h : readStartTag s = .mark token rest) :
    '<' :: s = token.source.toList ++ rest ∧ token.Complete rest := by
  cases s with
  | nil => cases ho
  | cons c t =>
    have hc : c.isAlpha := by simpa [opensStartTag] using ho
    have hn := isTagNameChar_of_isAlphanum (by rw [Char.isAlphanum, hc, Bool.true_or])
    rw [readStartTag] at h
    split at h
    · next attributes after ha =>
      cases h
      obtain ⟨text, htext, hall⟩ := Attribute.read?_append ha
      rw [List.dropWhile_cons_of_pos hn] at htext
      have ht : c :: t = c :: (t.takeWhile isTagNameChar ++ text) ++ rest := by
        rw [List.cons_append, List.append_assoc, ← htext, List.takeWhile_append_dropWhile]
      have hsp := toList_spelled ht
      refine ⟨?_, c, t.takeWhile isTagNameChar, text, hsp, hc,
        fun x hx => List.mem_takeWhile_imp hx, ?_, ?_, ?_⟩
      · rw [source, hsp, List.cons_append, ← ht]
      · intro x hx
        have hh := List.head?_dropWhile_not isTagNameChar t
        rw [htext, List.head?_append, Option.mem_def.1 hx] at hh
        simpa using hh
      · simpa using hall []
      · rw [tagName, List.takeWhile_cons_of_pos hn]
    · cases h

lemma complete_of_read {s rest : List Char} {token : Token} (h : read s = .mark token rest) :
    '<' :: s = token.source.toList ++ rest ∧ token.Complete rest := by
  rw [read] at h
  split at h
  · next ho => exact complete_of_readComment ho h
  · split at h
    · next ho =>
      obtain ⟨body, rfl, hb, rfl⟩ := eq_of_readToAngle h
      refine ⟨by simp [source], Or.inr ?_⟩
      rw [String.toList_ofList]
      exact isDeclaration_of_opensDeclaration hb ho
    · split at h
      · next ho =>
        obtain ⟨body, rfl, hb, rfl⟩ := eq_of_readToAngle h
        refine ⟨by simp [source], ?_⟩
        rw [Complete, String.toList_ofList]
        exact isEndTag_of_opensEndTag hb ho
      · split at h
        · next ho => exact complete_of_readStartTag ho h
        · cases h

lemma next_cons_cases (c : Char) (s : List Char) :
    (∃ token rest, c = '<' ∧ read s = .mark token rest ∧
      next (c :: s) = ([], some (token, rest))) ∨
    next (c :: s) = (c :: s, none) ∨ next (c :: s) = (c :: (next s).1, (next s).2) := by
  rw [next]
  split
  · next hc =>
    split
    · next token rest hr => exact Or.inl ⟨token, rest, beq_iff_eq.1 hc, hr, rfl⟩
    · exact Or.inr (Or.inr rfl)
    · exact Or.inr (Or.inl rfl)
  · exact Or.inr (Or.inr rfl)

lemma eq_of_next_none {s before : List Char} (h : next s = (before, none)) : s = before := by
  induction s generalizing before with
  | nil =>
    cases h
    rfl
  | cons c s ih =>
    rcases next_cons_cases c s with ⟨token, rest, -, -, he⟩ | he | he
    · rw [he] at h
      cases h
    · rw [he] at h
      cases h
      rfl
    · rw [he, Prod.mk.injEq] at h
      have hs := ih (Prod.ext rfl h.2)
      exact (congrArg (c :: ·) hs).trans h.1

lemma complete_of_next {s before rest : List Char} {token : Token}
    (h : next s = (before, some (token, rest))) :
    s = before ++ (token.source.toList ++ rest) ∧ token.Complete rest := by
  induction s generalizing before with
  | nil => cases h
  | cons c s ih =>
    rcases next_cons_cases c s with ⟨token', rest', rfl, hr, he⟩ | he | he
    · rw [he] at h
      cases h
      exact complete_of_read hr
    · rw [he] at h
      cases h
    · rw [he, Prod.mk.injEq] at h
      obtain ⟨hs, hc⟩ := ih (Prod.ext rfl h.2)
      refine ⟨?_, hc⟩
      rw [← h.1, List.cons_append, ← hs]

lemma Pieces.ofText {tokens : List Token} {rest : List Char} (h : Pieces tokens rest)
    (s : List Char) : Pieces (Token.ofText s ++ tokens) (s ++ rest) := by
  rw [Token.ofText]
  split
  · next hs =>
    rw [List.isEmpty_iff.1 hs]
    exact h
  · next hs =>
    have hc : (text (String.ofList s)).Complete rest := by
      rw [Complete]
      simpa using hs
    have hp := Pieces.cons hc h
    rwa [source, String.toList_ofList] at hp

lemma pieces_tokens (s : List Char) : Pieces (tokens s) s := by
  fun_induction tokens s with
  | case1 s before h =>
    obtain rfl := eq_of_next_none h
    have hp := Pieces.nil.ofText s
    rwa [List.append_nil, List.append_nil] at hp
  | case2 s before token rest h ih =>
    obtain ⟨hs, hc⟩ := complete_of_next h
    have hraw := ih.ofText (rawContent token rest).1
    rw [rawContent_append] at hraw
    have hp := (Pieces.cons hc hraw).ofText before
    rwa [← hs] at hp

lemma Pieces.ne_empty_of_text {tokens : List Token} {s : List Char} (h : Pieces tokens s)
    {content : String} (hm : text content ∈ tokens) : content ≠ "" := by
  induction h with
  | nil => cases hm
  | cons hc _ ih =>
    rcases List.mem_cons.1 hm with rfl | hm
    · exact hc
    · exact ih hm

def text? : Token → Option String
  | text content => some content
  | _ => none

end Token

namespace Event

def text? : Event → Option String
  | text content => some content
  | _ => none

lemma filterMap_text?_ofTokens (stack : List String) (ts : List Token) :
    (ofTokens stack ts).filterMap text? = ts.filterMap Token.text? := by
  have hc : ∀ names : List String, (names.map closed).filterMap text? = [] := by
    intro names
    rw [List.filterMap_map, List.filterMap_eq_nil_iff]
    intro name _
    rfl
  induction ts generalizing stack with
  | nil => exact hc stack
  | cons t ts ih =>
    cases t with
    | text content => exact congrArg (content :: ·) (ih stack)
    | skipped source => exact ih stack
    | startTag source name attributes =>
      rw [ofTokens]
      split
      · exact ih stack
      · exact ih (name :: stack)
    | endTag source name =>
      rw [ofTokens]
      split
      · exact ih stack
      · next outer _ =>
        rw [List.filterMap_append, hc]
        exact ih outer

lemma ne_empty_of_text_mem_ofMarkup {markup content : String}
    (h : text content ∈ ofMarkup markup) : content ≠ "" := by
  have hm : content ∈ (ofMarkup markup).filterMap text? := List.mem_filterMap.2 ⟨_, h, rfl⟩
  rw [ofMarkup, filterMap_text?_ofTokens] at hm
  obtain ⟨token, ht, hc⟩ := List.mem_filterMap.1 hm
  cases token with
  | text t =>
    cases hc
    exact (Token.pieces_tokens markup.toList).ne_empty_of_text ht
  | _ => cases hc

end Event

theorem pieces_ofMarkup (markup : String) :
    ∃ pieces, Token.Pieces pieces markup.toList ∧
      (Event.ofMarkup markup).filterMap Event.text? = pieces.filterMap Token.text? :=
  ⟨_, Token.pieces_tokens markup.toList, Event.filterMap_text?_ofTokens [] _⟩

end DocHarvest.Markup
