import DocHarvest.Proofs.Markup.Partition
import DocHarvest.Proofs.Markup.Passthrough

/-! Elements with raw content. The content ends at the first mark `</name`, whatever follows the mark,
but only an end tag of that very name ends the element. -/

namespace DocHarvest.Markup

open Text

namespace Token

/-- `</` and a name, in letters of either case. -/
def IsEndMark (name : String) (mark : List Char) : Prop :=
  lowerAscii mark = '<' :: '/' :: name.toList

def HasEndMark (name : String) (s : List Char) : Prop :=
  ∃ before mark after, s = before ++ (mark ++ after) ∧ IsEndMark name mark

/-- An end tag of the element: what follows its mark is no part of a name. -/
def HasEndTag (name : String) (s : List Char) : Prop :=
  ∃ before mark c after, s = before ++ (mark ++ c :: after) ∧ IsEndMark name mark ∧ ¬isTagNameChar c

variable {name : String} {s t before mark after : List Char}

lemma eq_of_toLower {c x : Char} (hx : x.isAlpha = false) (h : c.toLower = x) : c = x := by
  have hc : ¬c.isUpper := by
    intro hu
    rw [← h, Char.isAlpha_toLower_eq_isAlpha, Char.isAlpha, hu, Bool.true_or] at hx
    cases hx
  rwa [Char.toLower_eq_of_not_isUpper hc] at h

lemma isTagNameChar_of_toLower {c : Char} (h : isTagNameChar c.toLower) : isTagNameChar c := by
  by_cases hu : c.isUpper
  · apply isTagNameChar_of_isAlphanum
    simp [Char.isAlphanum, Char.isAlpha, hu]
  · rwa [Char.toLower_eq_of_not_isUpper hu] at h

lemma IsEndMark.exists_word (h : IsEndMark name mark) :
    ∃ word, mark = '<' :: '/' :: word ∧ lowerAscii word = name.toList := by
  rw [IsEndMark, lowerAscii, List.map_eq_cons_iff] at h
  obtain ⟨a, t, rfl, ha, ht⟩ := h
  obtain ⟨b, word, rfl, hb, hw⟩ := List.map_eq_cons_iff.1 ht
  obtain rfl := eq_of_toLower (by decide) ha
  obtain rfl := eq_of_toLower (by decide) hb
  exact ⟨word, rfl, hw⟩

lemma IsEndMark.length_eq (h : IsEndMark name mark) : mark.length = name.length + 2 := by
  simpa [lowerAscii, ← String.length_toList] using congrArg List.length h

lemma atEndTag_iff : atEndTag name s ↔ ∃ mark after, s = mark ++ after ∧ IsEndMark name mark := by
  rw [atEndTag, List.isPrefixOf_iff_prefix]
  constructor
  · intro h
    refine ⟨_, _, (List.take_append_drop (name.length + 2) s).symm, ?_⟩
    apply (h.eq_of_length_le _).symm
    simp [lowerAscii, ← String.length_toList]
  · rintro ⟨mark, after, rfl, h⟩
    have hl : mark.length = name.length + 2 := IsEndMark.length_eq h
    rw [← hl, List.take_left, h]
    exact List.prefix_rfl

lemma IsEndMark.atEndTag (h : IsEndMark name mark) (after : List Char) :
    atEndTag name (mark ++ after) :=
  atEndTag_iff.2 ⟨mark, after, rfl, h⟩

lemma hasEndTag_iff : HasEndTag name s ↔ ∃ t ∈ s.tails, Token.atEndTag name t ∧
    (t.drop (name.length + 2)).head?.any (!isTagNameChar ·) := by
  simp only [List.mem_tails]
  constructor
  · rintro ⟨before, mark, c, after, rfl, hm, hc⟩
    refine ⟨mark ++ c :: after, ⟨before, rfl⟩, hm.atEndTag _, ?_⟩
    rw [← hm.length_eq, List.drop_left]
    simpa using hc
  · rintro ⟨t, ⟨before, rfl⟩, h, hc⟩
    obtain ⟨mark, after, rfl, hm⟩ := atEndTag_iff.1 h
    rw [← hm.length_eq, List.drop_left] at hc
    cases after with
    | nil => cases hc
    | cons c after => exact ⟨before, mark, c, after, rfl, hm, by simpa using hc⟩

instance : Decidable (HasEndTag name s) :=
  decidable_of_iff _ hasEndTag_iff.symm

/-- A mark begins with the only `<` in it, so none reaches into the next one. -/
lemma hasEndMark_of_atEndTag (hl : '<' ∉ name.toList) (hs : s ≠ [])
    (h : Token.atEndTag name (s ++ '<' :: t)) : HasEndMark name s := by
  obtain ⟨mark, after, he, hm⟩ := atEndTag_iff.1 h
  rcases List.append_eq_append_iff.1 he with ⟨u, rfl, hu⟩ | ⟨u, rfl, -⟩
  · cases u with
    | nil => exact ⟨[], s, [], by simp, by simpa using hm⟩
    | cons x u =>
      obtain ⟨rfl, -⟩ := List.cons.inj hu
      obtain ⟨c, s, rfl⟩ := List.exists_cons_of_ne_nil hs
      have hmem : '<' ∈ '/' :: name.toList := by
        have htail := congrArg List.tail hm
        rw [List.tail_cons, lowerAscii, List.cons_append, List.map_cons, List.tail_cons] at htail
        rw [← htail]
        exact List.mem_map.2 ⟨'<', by simp, by decide⟩
      exact absurd hmem (by simpa using hl)
  · exact ⟨[], mark, u, rfl, hm⟩

lemma HasEndMark.append (h : HasEndMark name s) (before after : List Char) :
    HasEndMark name (before ++ (s ++ after)) := by
  obtain ⟨u, mark, v, rfl, hm⟩ := h
  exact ⟨before ++ u, mark, v ++ after, by simp, hm⟩

lemma not_hasEndMark_nil : ¬HasEndMark name [] := by
  rintro ⟨before, mark, after, hs, hm⟩
  obtain ⟨-, rfl, -⟩ : before = [] ∧ mark = [] ∧ after = [] := by simpa using hs.symm
  cases hm

lemma hasEndMark_cons_iff {c : Char} :
    HasEndMark name (c :: s) ↔ Token.atEndTag name (c :: s) ∨ HasEndMark name s := by
  constructor
  · rintro ⟨before, mark, after, he, hm⟩
    cases before with
    | nil => exact .inl (he ▸ hm.atEndTag after)
    | cons x before =>
      obtain ⟨-, rfl⟩ := List.cons.inj he
      exact .inr ⟨before, mark, after, rfl, hm⟩
  · rintro (h | ⟨before, mark, after, rfl, hm⟩)
    · obtain ⟨mark, after, he, hm⟩ := atEndTag_iff.1 h
      exact ⟨[], mark, after, he, hm⟩
    · exact ⟨c :: before, mark, after, rfl, hm⟩

lemma HasEndMark.exists_first (h : HasEndMark name s) :
    ∃ before mark after, s = before ++ (mark ++ after) ∧ IsEndMark name mark ∧
      ¬HasEndMark name before := by
  induction s with
  | nil => exact (not_hasEndMark_nil h).elim
  | cons c s ih =>
    by_cases hc : Token.atEndTag name (c :: s)
    · obtain ⟨mark, after, hs, hm⟩ := atEndTag_iff.1 hc
      exact ⟨[], mark, after, hs, hm, not_hasEndMark_nil⟩
    · obtain ⟨before, mark, after, rfl, hm, hb⟩ := ih ((hasEndMark_cons_iff.1 h).resolve_left hc)
      refine ⟨c :: before, mark, after, rfl, hm, fun hfirst => ?_⟩
      rcases hasEndMark_cons_iff.1 hfirst with hat | hbefore
      · obtain ⟨mark', rest, he, hm'⟩ := atEndTag_iff.1 hat
        apply hc
        rw [← List.cons_append, he, List.append_assoc]
        exact hm'.atEndTag _
      · exact hb hbefore

lemma mem_rawNames_iff : name ∈ rawNames ↔ name = "script" ∨ name = "style" := by
  simp [rawNames]

lemma plainName_of_mem_rawNames (h : name ∈ rawNames) : PlainName name ∧ '<' ∉ name.toList := by
  rcases mem_rawNames_iff.1 h with rfl | rfl
  · exact ⟨.of_all (by decide) (by decide), by decide⟩
  · exact ⟨.of_all (by decide) (by decide), by decide⟩

lemma breakWhere_atEndTag (hl : '<' ∉ name.toList) (hb : ¬HasEndMark name before)
    (hm : IsEndMark name mark) (after : List Char) :
    breakWhere (Token.atEndTag name) (before ++ (mark ++ after)) = (before, mark ++ after) := by
  obtain ⟨word, rfl, -⟩ := hm.exists_word
  have hnone : ∀ a b, before = a ++ b → b ≠ [] →
      ¬Token.atEndTag name (b ++ ('<' :: '/' :: word ++ after)) := by
    rintro a b rfl hne h
    have hmark := (hasEndMark_of_atEndTag hl hne h).append a []
    rw [List.append_nil] at hmark
    exact hb hmark
  rw [breakWhere_append_stop hnone, breakWhere_of_here (hm.atEndTag after), List.append_nil]

lemma tokens_rawStart (hn : name ∈ rawNames) (hb : ¬HasEndMark name before)
    (hm : IsEndMark name mark) (after : List Char) :
    tokens ((renderStart name []).toList ++ (before ++ (mark ++ after))) =
      startTag (renderStart name []) name [] :: (ofText before ++ tokens (mark ++ after)) := by
  obtain ⟨hplain, hl⟩ := plainName_of_mem_rawNames hn
  have hnone : ∀ a ∈ ([] : List Attribute), a.Plain := nofun
  have h := read_renderStart hplain hnone List.nodup_nil (before ++ (mark ++ after))
  have hs : (renderStart name []).toList ++ (before ++ (mark ++ after)) =
      '<' :: (name.toList ++ (Attribute.renderAll [] ++ '>' :: (before ++ (mark ++ after)))) := by
    rw [toList_renderStart]
    simp only [List.cons_append, List.append_assoc, List.nil_append]
  rw [hs, tokens_of_mark h, rawContent, if_pos (by simpa using hn), breakWhere_atEndTag hl hb hm]

lemma IsEndMark.opensEndTag {word : List Char} (hn : name ∈ rawNames)
    (hm : IsEndMark name ('<' :: '/' :: word)) (after : List Char) :
    opensEndTag ('/' :: (word ++ after)) := by
  have hh := (plainName_of_mem_rawNames hn).1.head
  rw [IsEndMark, lowerAscii, List.map_cons, List.map_cons] at hm
  obtain ⟨-, hword⟩ := List.cons.inj (List.cons.inj hm).2
  rw [← hword] at hh
  cases word with
  | nil => cases hh
  | cons c word =>
    rw [List.map_cons, List.head?_cons, Option.any_some, Char.isAlpha_toLower_eq_isAlpha] at hh
    simpa [Token.opensEndTag] using hh

lemma tokens_endMark (hn : name ∈ rawNames) (hm : IsEndMark name mark) {skipped : List Char}
    (hs : '>' ∉ skipped) (after : List Char) :
    ∃ source, tokens (mark ++ (skipped ++ '>' :: after)) =
      endTag source (tagName (mark.drop 2 ++ (skipped ++ '>' :: after))) :: tokens after := by
  obtain ⟨hplain, -⟩ := plainName_of_mem_rawNames hn
  obtain ⟨word, rfl, hw⟩ := hm.exists_word
  have hg : '>' ∉ '/' :: (word ++ skipped) := by
    rw [List.mem_cons, List.mem_append, not_or, not_or]
    refine ⟨by decide, fun hword => ?_, hs⟩
    have hmem : '>' ∈ name.toList := hw ▸ List.mem_map.2 ⟨'>', hword, by decide⟩
    exact absurd (hplain.char '>' hmem).1 (by decide)
  have hcut := cutAtChar?_append hg after
  rw [List.cons_append, List.append_assoc] at hcut
  have he : opensEndTag ('/' :: (word ++ (skipped ++ '>' :: after))) = true :=
    hm.opensEndTag hn (skipped ++ '>' :: after)
  have hcm : opensComment ('/' :: (word ++ (skipped ++ '>' :: after))) = false := rfl
  have hdc : opensDeclaration ('/' :: (word ++ (skipped ++ '>' :: after))) = false := rfl
  have hr : read ('/' :: (word ++ (skipped ++ '>' :: after))) =
      .mark (endTag (spelled ('/' :: (word ++ (skipped ++ '>' :: after))) after)
        (tagName (word ++ (skipped ++ '>' :: after)))) after := by
    simp only [read, hcm, hdc, he, readToAngle, hcut, List.tail_cons, if_true, Bool.false_eq_true,
      if_false]
  exact ⟨_, tokens_of_mark hr⟩

/-- A name that goes on after the mark is another name. -/
lemma tagName_ne (hn : name ∈ rawNames) (hm : IsEndMark name mark) {c : Char}
    (hc : isTagNameChar c) (after : List Char) : tagName (mark.drop 2 ++ c :: after) ≠ name := by
  obtain ⟨hplain, -⟩ := plainName_of_mem_rawNames hn
  obtain ⟨word, rfl, hw⟩ := hm.exists_word
  have hword : ∀ x ∈ word, isTagNameChar x := by
    intro x hx
    apply isTagNameChar_of_toLower
    exact (hplain.char x.toLower (hw ▸ List.mem_map_of_mem hx)).1
  intro he
  have hl := congrArg (fun t : String => t.toList.length) he
  rw [List.drop_succ_cons, List.drop_succ_cons, List.drop_zero] at hl
  simp only [tagName, List.takeWhile_append_of_pos hword, List.takeWhile_cons_of_pos hc,
    String.toList_ofList, ← hw, lowerAscii, List.length_map, List.length_append,
    List.length_cons] at hl
  omega

lemma Pieces.isInfix_of_text {tokens : List Token} (h : Pieces tokens s) {content : String}
    (hm : text content ∈ tokens) : content.toList <:+: s := by
  induction h with
  | nil => cases hm
  | @cons token tokens rest _ _ ih =>
    rcases List.mem_cons.1 hm with rfl | hm
    · exact (List.prefix_append _ _).isInfix
    · exact (ih hm).trans (List.suffix_append _ _).isInfix

end Token

namespace Event

lemma isInfix_of_text_mem_ofRun {s : List Char} {content : String} (h : text content ∈ ofRun s) :
    content.toList <:+: s := by
  rw [ofRun] at h
  split at h
  · cases h
  · obtain rfl := Event.text.inj (List.mem_singleton.1 h)
    rw [String.toList_ofList]

lemma isInfix_of_text_mem_ofChars {stack : List String} {s : List Char} {content : String}
    (h : text content ∈ ofChars stack s) : content.toList <:+: s := by
  have hm : content ∈ (ofChars stack s).filterMap text? := List.mem_filterMap.2 ⟨_, h, rfl⟩
  rw [ofChars, filterMap_text?_ofTokens] at hm
  obtain ⟨token, ht, hc⟩ := List.mem_filterMap.1 hm
  cases token with
  | text t =>
    cases hc
    exact (Token.pieces_tokens s).isInfix_of_text ht
  | _ => cases hc

end Event

open Token

def rawElement (name body : String) : String :=
  "<" ++ name ++ ">" ++ body ++ "</" ++ name ++ ">"

/-- The element comes back as it was written, and so does its content. -/
structure KeepsContent (name body : String) : Prop where
  events : Event.ofMarkup (rawElement name body) =
    .opened name [] :: (Event.ofRun body.toList ++ [.closed name])
  segments : Segment.ofMarkup (rawElement name body) = [.text (rawElement name body)]

variable {name body : String} {before mark after skipped rest : List Char}

lemma toList_rawElement (name body : String) : (rawElement name body).toList =
    (renderStart name []).toList ++ (body.toList ++ (renderEnd name).toList) := by
  simp [rawElement, renderStart, renderEnd]

lemma isEndMark_renderEnd (hn : name ∈ rawNames) :
    IsEndMark name ('<' :: '/' :: name.toList) := by
  have hl := Attribute.lowerAscii_eq_self fun c hc =>
    ((plainName_of_mem_rawNames hn).1.char c hc).2
  rw [lowerAscii] at hl
  rw [IsEndMark, lowerAscii, List.map_cons, List.map_cons, hl]
  rfl

lemma ofMarkup_rawElement (hn : name ∈ rawNames) (hb : ¬HasEndMark name before)
    (hm : IsEndMark name mark) (hs : body.toList ++ (renderEnd name).toList = before ++ (mark ++ rest)) :
    Event.ofMarkup (rawElement name body) =
      .opened name [] :: (Event.ofRun before ++ Event.ofChars [name] (mark ++ rest)) := by
  have hv : name ∉ Event.voidNames := by
    rcases mem_rawNames_iff.1 hn with rfl | rfl <;> decide
  rw [Event.ofMarkup, Token.ofMarkup, toList_rawElement, hs, tokens_rawStart hn hb hm,
    Event.ofTokens, if_neg (by simpa using hv), Event.ofTokens_ofText]
  rfl

lemma events_of_not_hasEndMark (hn : name ∈ rawNames) (hb : ¬HasEndMark name body.toList) :
    Event.ofMarkup (rawElement name body) =
      .opened name [] :: (Event.ofRun body.toList ++ [.closed name]) := by
  have hend : (renderEnd name).toList = '<' :: '/' :: name.toList ++ ['>'] := toList_renderEnd name
  have hclose : Event.ofChars [name] (renderEnd name).toList = [.closed name] := by
    have h := Event.ofChars_renderEnd (plainName_of_mem_rawNames hn).1 [] List.not_mem_nil []
      (t := [])
    rw [Event.ofChars_of_notMem List.not_mem_nil] at h
    simpa [Event.ofRun] using h
  have hs : body.toList ++ (renderEnd name).toList =
      body.toList ++ ('<' :: '/' :: name.toList ++ ['>']) := congrArg (body.toList ++ ·) hend
  rw [ofMarkup_rawElement hn hb (isEndMark_renderEnd hn) hs, ← hend, hclose]

lemma exists_head_after_mark (ht : ¬HasEndTag name body.toList)
    (hs : body.toList = before ++ (mark ++ rest)) (hm : IsEndMark name mark) :
    ∃ c tail, rest ++ (renderEnd name).toList = c :: tail ∧ isTagNameChar c := by
  cases rest with
  | nil =>
    rw [toList_renderEnd]
    exact ⟨'<', _, rfl, by decide⟩
  | cons c rest =>
    refine ⟨c, rest ++ (renderEnd name).toList, rfl, ?_⟩
    by_contra hc
    exact ht ⟨before, mark, c, rest, hs, hm, hc⟩

/-- Where the content has a mark, its text ends there. The mark belongs to a longer name, so what it
stands in, up to the next `>`, is dropped, and the element goes on after that. -/
lemma events_of_mark (hn : name ∈ rawNames) (ht : ¬HasEndTag name body.toList)
    (hs : body.toList = before ++ (mark ++ rest)) (hm : IsEndMark name mark)
    (hb : ¬HasEndMark name before) :
    ∃ skipped after, rest ++ (renderEnd name).toList = skipped ++ '>' :: after ∧ skipped ≠ [] ∧
      '>' ∉ skipped ∧ Event.ofMarkup (rawElement name body) =
        .opened name [] :: (Event.ofRun before ++ Event.ofChars [name] after) := by
  have hgt : '>' ∈ rest ++ (renderEnd name).toList := by simp [toList_renderEnd]
  obtain ⟨skipped, after, hrest, hskip⟩ := List.eq_append_cons_of_mem hgt
  obtain ⟨c, tail, htail, hc⟩ := exists_head_after_mark ht hs hm
  have hne : skipped ≠ [] := by
    rintro rfl
    rw [htail] at hrest
    obtain ⟨rfl, -⟩ := List.cons.inj hrest
    exact absurd hc (by decide)
  refine ⟨skipped, after, hrest, hne, hskip, ?_⟩
  have hall : body.toList ++ (renderEnd name).toList =
      before ++ (mark ++ (rest ++ (renderEnd name).toList)) := by simp [hs]
  obtain ⟨source, htokens⟩ := tokens_endMark hn hm hskip after
  have hother : tagName (mark.drop 2 ++ (skipped ++ '>' :: after)) ≠ name := by
    rw [← hrest, htail]
    exact tagName_ne hn hm hc tail
  have hdrop : [name].dropWhile (· != tagName (mark.drop 2 ++ (skipped ++ '>' :: after))) = [] := by
    simpa using hother.symm
  rw [ofMarkup_rawElement hn hb hm hall, hrest, Event.ofChars, htokens, Event.ofTokens, hdrop]
  rfl

lemma segments_of_events (hn : name ∈ rawNames) (h : Event.ofMarkup (rawElement name body) =
    .opened name [] :: (Event.ofRun body.toList ++ [.closed name])) :
    Segment.ofMarkup (rawElement name body) = [.text (rawElement name body)] := by
  have hname : ¬Event.isMarkName name := by
    rcases mem_rawNames_iff.1 hn with rfl | rfl <;> decide
  have hmark : ∀ e ∈ Event.opened name [] :: (Event.ofRun body.toList ++ [.closed name]),
      ¬e.isMark := by
    rw [List.forall_mem_cons, List.forall_mem_append, List.forall_mem_singleton]
    exact ⟨hname, fun e he => Event.not_isMark_of_mem_ofRun he, hname⟩
  have hwrite : Event.writeAll (.opened name [] :: (Event.ofRun body.toList ++ [.closed name])) =
      rawElement name body := by
    rw [Event.writeAll_cons, Event.writeAll_append, Event.writeAll_ofRun, String.ofList_toList]
    apply String.toList_injective
    simp [Event.written, toList_rawElement]
  rw [Segment.ofMarkup, Segment.ofEvents, h,
    Assembly.foldl_of_not_isMark hmark (List.cons_ne_nil _ _), hwrite]
  simp [Assembly.addText, Assembly.empty, Assembly.finish, Assembly.flushExample]

/-- The text before a mark is too short to be the content, and so is all that follows. -/
lemma not_keepsContent (hn : name ∈ rawNames) (ht : ¬HasEndTag name body.toList)
    (hmark : HasEndMark name body.toList) : ¬KeepsContent name body := by
  intro h
  obtain ⟨before, mark, rest, hs, hm, hb⟩ := hmark.exists_first
  obtain ⟨skipped, after, hrest, hne, -, he⟩ := events_of_mark hn ht hs hm hb
  have hbefore : before.length < body.toList.length := by
    rw [hs, List.length_append, List.length_append, hm.length_eq]
    omega
  have hafter : after.length < body.toList.length := by
    have hlen := congrArg List.length hrest
    have hskip := List.length_pos_of_ne_nil hne
    simp only [toList_renderEnd, List.length_append, List.length_cons, List.length_nil,
      String.length_toList] at hlen
    rw [hs, List.length_append, List.length_append, hm.length_eq]
    omega
  have hmem : Event.text body ∈ Event.ofMarkup (rawElement name body) := by
    have hnil : body.toList ≠ [] := List.ne_nil_of_length_pos (Nat.zero_lt_of_lt hbefore)
    rw [h.events, Event.ofRun, if_neg (by simpa using hnil), String.ofList_toList]
    simp
  rw [he, List.mem_cons, List.mem_append] at hmem
  rcases hmem with hmem | hmem | hmem
  · cases hmem
  · have hle := (Event.isInfix_of_text_mem_ofRun hmem).length_le
    omega
  · have hle := (Event.isInfix_of_text_mem_ofChars hmem).length_le
    omega

theorem keepsContent_iff (hn : name ∈ rawNames) (ht : ¬HasEndTag name body.toList) :
    (KeepsContent name body ↔ ¬HasEndMark name body.toList) ∧
    ∀ before mark rest, body.toList = before ++ (mark ++ rest) → IsEndMark name mark →
      ¬HasEndMark name before → ∃ skipped after,
        rest ++ (renderEnd name).toList = skipped ++ '>' :: after ∧ '>' ∉ skipped ∧
        Event.ofMarkup (rawElement name body) =
          .opened name [] :: (Event.ofRun before ++ Event.ofChars [name] after) := by
  refine ⟨⟨fun h hmark => not_keepsContent hn ht hmark h, fun hmark => ?_⟩, ?_⟩
  · have h := events_of_not_hasEndMark hn hmark
    exact ⟨h, segments_of_events hn h⟩
  · intro before mark rest hs hm hb
    obtain ⟨skipped, after, hrest, -, hskip, he⟩ := events_of_mark hn ht hs hm hb
    exact ⟨skipped, after, hrest, hskip, he⟩

/-- A longer name, a mark at the end, and other tags. -/
theorem keepsContent_iff_style :
    let body := "</p> </ style> <!-- </Stylesheet\n> </STYLE"
    "style" ∈ rawNames ∧ ¬HasEndTag "style" body.toList ∧
      (KeepsContent "style" body ↔ ¬HasEndMark "style" body.toList) ∧
      ∀ before mark rest, body.toList = before ++ (mark ++ rest) → IsEndMark "style" mark →
        ¬HasEndMark "style" before → ∃ skipped after,
          rest ++ (renderEnd "style").toList = skipped ++ '>' :: after ∧ '>' ∉ skipped ∧
          Event.ofMarkup (rawElement "style" body) =
            .opened "style" [] :: (Event.ofRun before ++ Event.ofChars ["style"] after) := by
  intro body
  have hn : "style" ∈ rawNames := by decide
  have ht : ¬HasEndTag "style" body.toList := by decide +kernel
  exact ⟨hn, ht, keepsContent_iff hn ht⟩

theorem not_keepsContent_of_longer_name :
    let body := "a </scripts> b"
    rawElement "script" body = "<script>a </scripts> b</script>" ∧
      ¬HasEndTag "script" body.toList ∧
      Event.ofMarkup (rawElement "script" body) =
        [.opened "script" [], .text "a ", .text " b", .closed "script"] ∧
      Segment.ofMarkup (rawElement "script" body) = [.text "<script>a  b</script>"] ∧
      ¬KeepsContent "script" body := by
  intro body
  have hs : Segment.ofMarkup (rawElement "script" body) = [.text "<script>a  b</script>"] := by
    decide +kernel
  refine ⟨by decide, by decide +kernel, by decide +kernel, hs, fun h => ?_⟩
  have hkept := hs.symm.trans h.segments
  revert hkept
  decide

end DocHarvest.Markup
