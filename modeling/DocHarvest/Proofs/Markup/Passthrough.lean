import DocHarvest.Proofs.Markup.Reading

/-! Elements other than examples and files come back as they were written. -/

namespace DocHarvest.Markup

open Text

namespace Event

def isMarkName (name : String) : Bool :=
  isExampleName name || name == "file"

/-- The start or the end of an example or of a file. -/
def isMark : Event → Bool
  | opened name _ => isMarkName name
  | closed name => isMarkName name
  | text _ => false

/-- An event as it is written back into the text around it. -/
def written : Event → String
  | opened name attributes => renderStart name attributes
  | closed name => renderEnd name
  | text content => content

def writeAll (es : List Event) : String :=
  String.join (es.map written)

@[simp] lemma writeAll_nil : writeAll [] = "" := rfl

@[simp] lemma writeAll_cons (e : Event) (es : List Event) :
    writeAll (e :: es) = e.written ++ writeAll es := by
  rw [writeAll, List.map_cons, String.join_cons, writeAll]

@[simp] lemma writeAll_append (es fs : List Event) :
    writeAll (es ++ fs) = writeAll es ++ writeAll fs := by
  rw [writeAll, List.map_append, String.join_append, writeAll, writeAll]

lemma writeAll_ofRun (s : List Char) : writeAll (ofRun s) = String.ofList s := by
  rw [ofRun]
  split
  · next h => rw [List.isEmpty_iff.1 h, writeAll_nil]
  · rw [writeAll_cons, writeAll_nil, String.append_empty, written]

lemma not_isMark_of_mem_ofRun {s : List Char} {e : Event} (h : e ∈ ofRun s) : ¬e.isMark := by
  rw [ofRun] at h
  split at h
  · cases h
  · obtain rfl := List.mem_singleton.1 h
    exact Bool.false_ne_true

end Event

namespace Assembly

lemma addText_addText (s t : String) (a : Assembly) :
    (a.addText s).addText t = a.addText (s ++ t) := by
  simp only [addText, Option.getD_some, String.append_assoc]

lemma step_of_not_isMark {e : Event} (h : ¬e.isMark) (a : Assembly) :
    a.step e = a.addText e.written := by
  cases e with
  | text content => rfl
  | opened name attributes =>
    simp only [Event.isMark, Event.isMarkName, Bool.or_eq_true, not_or] at h
    rw [step, if_neg h.1, if_neg h.2, Event.written]
  | closed name =>
    simp only [Event.isMark, Event.isMarkName, Bool.or_eq_true, not_or] at h
    rw [step, if_neg h.1, if_neg h.2, Event.written]

lemma foldl_of_not_isMark {es : List Event} (h : ∀ e ∈ es, ¬e.isMark) (hne : es ≠ [])
    (a : Assembly) : es.foldl step a = a.addText (Event.writeAll es) := by
  induction es generalizing a with
  | nil => exact (hne rfl).elim
  | cons e es ih =>
    have he := step_of_not_isMark (h e List.mem_cons_self) a
    have hes : ∀ x ∈ es, ¬x.isMark := fun x hx => h x (List.mem_cons_of_mem e hx)
    rw [List.foldl_cons, he]
    by_cases hnil : es = []
    · subst hnil
      simp
    · rw [ih hes hnil, addText_addText, Event.writeAll_cons]

end Assembly

/-- A tree of elements and texts. -/
inductive Node where
  | text (content : String)
  | element (name : String) (attributes : List Attribute) (children : List Node)

namespace Node

mutual

def write : Node → String
  | text content => content
  | element name attributes children =>
    "<" ++ name ++ String.join (attributes.map fun a => " " ++ a.name ++ "=\"" ++ a.value ++ "\"") ++
      ">" ++ writeAll children ++ "</" ++ name ++ ">"

def writeAll : List Node → String
  | [] => ""
  | n :: ns => n.write ++ writeAll ns

end

structure IsName (name : String) : Prop where
  head : name.toList.head?.any Char.isLower
  char : ∀ c ∈ name.toList, c.isLower ∨ c.isDigit ∨ c = '-'
  own : name ∉ ["example", "file"] ++ Event.voidNames ++ Token.rawNames

structure IsAttribute (a : Attribute) : Prop where
  name_ne : a.name ≠ ""
  name_char : ∀ c ∈ a.name.toList, ¬isBlank c ∧ ¬c.isUpper ∧ c ∉ ['=', '>', '/', '"', '\'']
  value_char : '"' ∉ a.value.toList

inductive Writable : Node → Prop
  | text {content : String} : content ≠ "" → '<' ∉ content.toList → Writable (text content)
  | element {name : String} {attributes : List Attribute} {children : List Node} : IsName name →
      (∀ a ∈ attributes, IsAttribute a) → (attributes.map Attribute.name).Nodup →
      (∀ n ∈ children, n.Writable) → Writable (element name attributes children)

lemma IsAttribute.plain {a : Attribute} (h : IsAttribute a) : a.Plain where
  name_ne := h.name_ne
  name_char := by
    intro c hc
    obtain ⟨hb, hu, hs⟩ := h.name_char c hc
    simp only [List.mem_cons, List.not_mem_nil, or_false, not_or] at hs
    refine ⟨?_, ?_, ?_⟩
    · simp [Attribute.isNameChar, Attribute.isFiller, hb, hs]
    · simp [Attribute.isQuote, hs]
    · exact Char.toLower_eq_of_not_isUpper hu
  value_char := h.value_char

lemma not_isUpper_of_isDigit {c : Char} (h : c.isDigit) : ¬c.isUpper := by
  simp only [Char.isUpper, Char.isDigit, Bool.and_eq_true, decide_eq_true_eq, ge_iff_le,
    UInt32.le_iff_toNat_le, Char.reduceVal, UInt32.reduceToNat, Char.toNat_val] at h ⊢
  omega

namespace IsName

variable {name : String}

lemma plainName (h : IsName name) : Token.PlainName name where
  head := by
    have hh := h.head
    cases hl : name.toList with
    | nil => simp [hl] at hh
    | cons c s =>
      rw [hl] at hh
      have hc : c.isLower := by simpa using hh
      simp [Char.isAlpha, hc]
  char := by
    intro c hc
    rcases h.char c hc with hl | hd | rfl
    · have ha : c.isAlphanum := by simp [Char.isAlphanum, Char.isAlpha, hl]
      exact ⟨Token.isTagNameChar_of_isAlphanum ha,
        Char.toLower_eq_of_not_isUpper (Char.not_isUpper_of_isLower hl)⟩
    · have ha : c.isAlphanum := by simp [Char.isAlphanum, hd]
      exact ⟨Token.isTagNameChar_of_isAlphanum ha,
        Char.toLower_eq_of_not_isUpper (not_isUpper_of_isDigit hd)⟩
    · exact ⟨by decide, by decide⟩

lemma not_isExampleName (h : IsName name) : ¬isExampleName name := by
  rw [isExampleName]
  split
  · next space part hcut =>
    have hm : ':' ∈ name.toList := by simp [eq_of_cutAtChar? hcut]
    exact absurd (h.char ':' hm) (by decide)
  · rintro he
    obtain rfl := beq_iff_eq.1 he
    exact h.own (by decide)

lemma not_isMark (h : IsName name) (attributes : List Attribute) :
    ¬(Event.opened name attributes).isMark ∧ ¬(Event.closed name).isMark := by
  have hf : ¬(name == "file") := by
    rw [beq_iff_eq]
    rintro rfl
    exact h.own (by decide)
  simp [Event.isMark, Event.isMarkName, h.not_isExampleName, hf]

end IsName

lemma write_element (name : String) (attributes : List Attribute) (children : List Node) :
    (element name attributes children).write =
      renderStart name attributes ++ (writeAll children ++ renderEnd name) := by
  have hr : (fun a : Attribute => " " ++ a.name ++ "=\"" ++ a.value ++ "\"") = Attribute.render := rfl
  rw [write, hr, renderStart, renderEnd]
  simp only [String.append_assoc]

end Node

/-- Whatever stands before and after it, the text `s` is read as events that are no marks and are
written back as `s`. What stands before it may be a part of the first text, and what it ends with a
part of the text that follows. -/
def PassesThrough (s : List Char) : Prop :=
  ∀ (stack : List String) (t rest : List Char), '<' ∉ t → ∃ es t', '<' ∉ t' ∧
    (∀ e ∈ es, ¬e.isMark) ∧ Event.writeAll es ++ String.ofList t' = String.ofList (t ++ s) ∧
    Event.ofChars stack (t ++ (s ++ rest)) = es ++ Event.ofChars stack (t' ++ rest)

namespace PassesThrough

lemma of_notMem {s : List Char} (h : '<' ∉ s) : PassesThrough s := by
  intro stack t rest ht
  refine ⟨[], t ++ s, by simp [ht, h], by simp, by simp, ?_⟩
  rw [List.append_assoc]
  rfl

lemma append {s u : List Char} (hs : PassesThrough s) (hu : PassesThrough u) :
    PassesThrough (s ++ u) := by
  intro stack t rest ht
  obtain ⟨es, t₁, ht₁, hes, hw, he⟩ := hs stack t (u ++ rest) ht
  obtain ⟨fs, t₂, ht₂, hfs, hw', he'⟩ := hu stack t₁ rest ht₁
  refine ⟨es ++ fs, t₂, ht₂, ?_, ?_, ?_⟩
  · intro e h
    rcases List.mem_append.1 h with h | h
    · exact hes e h
    · exact hfs e h
  · rw [Event.writeAll_append, String.append_assoc, hw', String.ofList_append, ← String.append_assoc,
      hw, ← String.ofList_append, List.append_assoc]
  · rw [List.append_assoc, he, he', List.append_assoc]

lemma element {name : String} {attributes : List Attribute} {s : List Char} (hn : Node.IsName name)
    (ha : ∀ a ∈ attributes, Node.IsAttribute a) (hd : (attributes.map Attribute.name).Nodup)
    (hs : PassesThrough s) :
    PassesThrough ((renderStart name attributes).toList ++ (s ++ (renderEnd name).toList)) := by
  intro stack t rest ht
  have hown := hn.own
  simp only [List.mem_append, not_or] at hown
  obtain ⟨es, t', ht', hes, hw, he⟩ :=
    hs (name :: stack) [] ((renderEnd name).toList ++ rest) List.not_mem_nil
  have hstart := Event.ofChars_renderStart hn.plainName hown.2 hown.1.2 (fun a h => (ha a h).plain)
    hd stack ht (s ++ ((renderEnd name).toList ++ rest))
  have hend := Event.ofChars_renderEnd hn.plainName stack ht' rest
  refine ⟨Event.ofRun t ++ Event.opened name attributes ::
    (es ++ Event.ofRun t' ++ [Event.closed name]), [], List.not_mem_nil, ?_, ?_, ?_⟩
  · intro e h
    simp only [List.mem_append, List.mem_cons, List.not_mem_nil, or_false] at h
    rcases h with h | rfl | (h | h) | rfl
    · exact Event.not_isMark_of_mem_ofRun h
    · exact (hn.not_isMark attributes).1
    · exact hes e h
    · exact Event.not_isMark_of_mem_ofRun h
    · exact (hn.not_isMark attributes).2
  · rw [List.nil_append] at hw
    have hi := congrArg (· ++ renderEnd name) hw
    simp only [String.append_assoc] at hi
    simp only [Event.writeAll_append, Event.writeAll_cons, Event.writeAll_ofRun, Event.writeAll_nil,
      Event.written, String.append_assoc, String.append_empty, String.ofList_nil, hi,
      String.ofList_append, String.ofList_toList]
  · rw [List.nil_append] at he
    rw [he, hend] at hstart
    simp only [List.append_assoc, List.cons_append, List.nil_append] at hstart ⊢
    exact hstart

end PassesThrough

namespace Node

lemma passesThrough_writeAll {nodes : List Node}
    (h : ∀ n ∈ nodes, PassesThrough n.write.toList) : PassesThrough (writeAll nodes).toList := by
  induction nodes with
  | nil => exact PassesThrough.of_notMem List.not_mem_nil
  | cons n nodes ih =>
    rw [writeAll, String.toList_append]
    apply PassesThrough.append (h n List.mem_cons_self)
    exact ih fun x hx => h x (List.mem_cons_of_mem n hx)

lemma Writable.passesThrough {n : Node} (h : n.Writable) : PassesThrough n.write.toList := by
  induction h with
  | text _ hlt => exact PassesThrough.of_notMem hlt
  | element hn ha hd _ ih =>
    rw [write_element, String.toList_append, String.toList_append]
    exact PassesThrough.element hn ha hd (passesThrough_writeAll ih)

end Node

lemma ofMarkup_of_passesThrough {markup : String} (h : PassesThrough markup.toList)
    (hne : markup ≠ "") : Segment.ofMarkup markup = [.text markup] := by
  obtain ⟨es, t, ht, hes, hw, he⟩ := h [] [] [] List.not_mem_nil
  have hev : Event.ofMarkup markup = es ++ Event.ofRun t := by
    rw [← Event.ofChars_of_notMem ht]
    simp only [List.nil_append, List.append_nil] at he
    exact he
  have hmark : ∀ e ∈ es ++ Event.ofRun t, ¬e.isMark := by
    intro e hm
    rcases List.mem_append.1 hm with hm | hm
    · exact hes e hm
    · exact Event.not_isMark_of_mem_ofRun hm
  have hwrite : Event.writeAll (es ++ Event.ofRun t) = markup := by
    rw [Event.writeAll_append, Event.writeAll_ofRun, hw, List.nil_append, String.ofList_toList]
  have hnil : es ++ Event.ofRun t ≠ [] := by
    intro hnil
    rw [hnil] at hwrite
    exact hne hwrite.symm
  rw [Segment.ofMarkup, Segment.ofEvents, hev, Assembly.foldl_of_not_isMark hmark hnil, hwrite]
  simp [Assembly.addText, Assembly.empty, Assembly.finish, Assembly.flushExample]

lemma ofMarkup_empty : Segment.ofMarkup "" = [] := by
  have he : Event.ofMarkup "" = [] := Event.ofChars_of_notMem List.not_mem_nil
  rw [Segment.ofMarkup, he]
  rfl

theorem ofMarkup_writeAll {nodes : List Node} (h : ∀ n ∈ nodes, n.Writable) :
    Segment.ofMarkup (Node.writeAll nodes) =
      if Node.writeAll nodes = "" then [] else [.text (Node.writeAll nodes)] := by
  split
  · next he =>
    rw [he]
    exact ofMarkup_empty
  · next hne =>
    apply ofMarkup_of_passesThrough _ hne
    exact Node.passesThrough_writeAll fun n hn => (h n hn).passesThrough

theorem ofMarkup_writeAll_signs :
    let nodes : List Node :=
      [.text "a > b\n",
        .element "h-1" [⟨"ng:if", "x<y && '<b>'\n"⟩, ⟨"class", ""⟩]
          [.element "h-1" [] [], .text "x", .text "\"y\""]]
    (∀ n ∈ nodes, n.Writable) ∧
      Segment.ofMarkup (Node.writeAll nodes) = [.text (Node.writeAll nodes)] := by
  intro nodes
  have hname : Node.IsName "h-1" :=
    ⟨by decide, by simp, by simp [Event.voidNames, Token.rawNames]⟩
  have hattr : ∀ a ∈ [⟨"ng:if", "x<y && '<b>'\n"⟩, ⟨"class", ""⟩], Node.IsAttribute a := by
    simp only [List.forall_mem_cons]
    exact ⟨⟨by simp, by simp [isBlank, inRanges, blankRanges], by simp⟩,
      ⟨by simp, by simp [isBlank, inRanges, blankRanges], by simp⟩, by simp⟩
  have hchildren : ∀ n ∈ [Node.element "h-1" [] [], .text "x", .text "\"y\""], n.Writable := by
    simp only [List.forall_mem_cons]
    exact ⟨.element hname (by simp) (by simp) (by simp), .text (by simp) (by simp),
      .text (by simp) (by simp), by simp⟩
  have h : ∀ n ∈ nodes, n.Writable := by
    simp only [nodes, List.forall_mem_cons]
    exact ⟨.text (by simp) (by simp), .element hname hattr (by decide) hchildren, by simp⟩
  refine ⟨h, ?_⟩
  rw [ofMarkup_writeAll h, if_neg]
  decide

end DocHarvest.Markup
