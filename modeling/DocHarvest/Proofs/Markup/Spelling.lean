import DocHarvest.Proofs.List
import DocHarvest.Proofs.Markup.Attribute

/-! Attributes in each form that a tag may give them: without a value, with one in quotes of either kind,
or with a bare one. They are read back in lower case, and of those with one name the first alone. -/

namespace DocHarvest.Markup

open Text

-- Without these two, a condition on the members of a text would be tried on every character there is.

local instance decidableForallMem (p : Char → Prop) [DecidablePred p] (s : List Char) :
    Decidable (∀ c ∈ s, p c) :=
  s.decidableBAll p

local instance decidableForallMemOption (p : Char → Prop) [DecidablePred p] (o : Option Char) :
    Decidable (∀ c ∈ o, p c) :=
  o.decidableForallMem

inductive Quoting where
  | double
  | single
  | bare
deriving DecidableEq, Repr

structure ValueText where
  before : String
  after : String
  quoting : Quoting
  content : String
deriving DecidableEq, Repr

structure AttributeText where
  gap : String
  name : String
  value : Option ValueText
deriving DecidableEq, Repr

namespace Quoting

def write (content : List Char) : Quoting → List Char
  | double => '"' :: (content ++ ['"'])
  | single => '\'' :: (content ++ ['\''])
  | bare => content

def Allows (content : List Char) : Quoting → Prop
  | double => '"' ∉ content
  | single => '\'' ∉ content
  | bare => content ≠ [] ∧ (∀ c ∈ content, ¬isBlank c ∧ c ≠ '>') ∧
      ∀ c ∈ content.head?, c ≠ '"' ∧ c ≠ '\''

instance (content : List Char) : (q : Quoting) → Decidable (q.Allows content)
  | double => inferInstanceAs (Decidable ('"' ∉ content))
  | single => inferInstanceAs (Decidable ('\'' ∉ content))
  | bare => inferInstanceAs (Decidable (content ≠ [] ∧ (∀ c ∈ content, ¬isBlank c ∧ c ≠ '>') ∧
      ∀ c ∈ content.head?, c ≠ '"' ∧ c ≠ '\''))

end Quoting

namespace ValueText

def write (v : ValueText) : List Char :=
  v.before.toList ++ '=' :: (v.after.toList ++ v.quoting.write v.content.toList)

@[mk_iff]
structure Writable (v : ValueText) : Prop where
  before : ∀ c ∈ v.before.toList, isBlank c
  after : ∀ c ∈ v.after.toList, isBlank c
  content : v.quoting.Allows v.content.toList

instance (v : ValueText) : Decidable v.Writable :=
  decidable_of_iff _ (writable_iff v).symm

end ValueText

namespace AttributeText

def toAttribute (a : AttributeText) : Attribute where
  name := String.ofList (lowerAscii a.name.toList)
  value := a.value.elim "" ValueText.content

def assigned (a : AttributeText) : List Char :=
  a.value.elim [] ValueText.write

def write (a : AttributeText) : List Char :=
  a.gap.toList ++ (a.name.toList ++ a.assigned)

/-- The attributes of a tag, and the blanks and the sign that end it. -/
def writeAll (gap : String) (attributes : List AttributeText) : List Char :=
  attributes.flatMap write ++ (gap.toList ++ ['>'])

@[mk_iff]
structure Writable (a : AttributeText) : Prop where
  gap_ne : a.gap ≠ ""
  gap : ∀ c ∈ a.gap.toList, isBlank c
  name_ne : a.name ≠ ""
  name : ∀ c ∈ a.name.toList, ¬isBlank c ∧ c ≠ '=' ∧ c ≠ '>' ∧ c ≠ '/'
  head : ∀ c ∈ a.name.toList.head?, c ≠ '"' ∧ c ≠ '\''
  value : ∀ v ∈ a.value, v.Writable

instance (a : AttributeText) : Decidable a.Writable :=
  decidable_of_iff _ (writable_iff a).symm

end AttributeText

namespace Attribute

/-- The first attribute of each name, in the order of the names. -/
def firsts (attributes : List Attribute) : List Attribute :=
  (attributes.map name).eraseDups.filterMap fun n => attributes.find? (·.name == n)

lemma filter_firsts (attributes : List Attribute) (n : String) :
    (firsts attributes).filter (·.name != n) =
      ((attributes.map name).eraseDups.filter (· != n)).filterMap fun m =>
        attributes.find? (·.name == m) := by
  rw [firsts, List.filter_filterMap, List.filterMap_filter]
  refine List.filterMap_congr fun m _ => ?_
  cases hf : attributes.find? (·.name == m) with
  | none => simp
  | some a =>
    have ha : a.name = m := by simpa using List.find?_some hf
    by_cases hm : m = n <;> simp [ha, hm]

lemma distinct_eq_firsts (attributes : List Attribute) : distinct attributes = firsts attributes := by
  induction attributes with
  | nil => rfl
  | cons a attributes ih =>
    rw [distinct, ih, filter_firsts, firsts, List.map_cons, List.eraseDups_cons, eraseDups_filter,
      List.filterMap_cons, List.find?_cons_of_pos (by simp)]
    dsimp only
    congr 1
    refine List.filterMap_congr fun m hm => ?_
    have hne : m ≠ a.name := by simpa using (List.mem_filter.1 hm).2
    rw [List.find?_cons_of_neg (by simpa using hne.symm)]

end Attribute

lemma isQuote_iff {c : Char} : Attribute.isQuote c ↔ c = '"' ∨ c = '\'' := by
  rw [Attribute.isQuote, Bool.or_eq_true, beq_iff_eq, beq_iff_eq]

lemma isFiller_of_isBlank {c : Char} (h : isBlank c) : Attribute.isFiller c := by
  rw [Attribute.isFiller, h, Bool.true_or]

lemma forall_head?_append {p : Char → Prop} {s : List Char} (hs : ∀ c ∈ s, p c) {c : Char} (hc : p c)
    (t : List Char) : ∀ x ∈ (s ++ c :: t).head?, p x := by
  intro x hx
  cases s with
  | nil =>
    cases hx
    exact hc
  | cons b s =>
    cases hx
    exact hs _ List.mem_cons_self

lemma readAssigned_of_head? {s : List Char}
    (h : ∀ c ∈ (s.dropWhile Attribute.isFiller).head?, c ≠ '=') :
    Attribute.readAssigned s = ([], s) := by
  rw [Attribute.readAssigned]
  split
  · rfl
  · next c t hd =>
    rw [hd] at h
    exact if_neg (by simpa using h c rfl)

/-- What ends a name or a bare value. -/
def Ends (c : Char) : Prop :=
  isBlank c ∨ c = '>'

lemma Ends.not_isNameChar {c : Char} (h : Ends c) : ¬Attribute.isNameChar c := by
  rcases h with hb | rfl
  · simp [Attribute.isNameChar, isFiller_of_isBlank hb]
  · decide

lemma Ends.not_isBareChar {c : Char} (h : Ends c) : ¬Attribute.isBareChar c := by
  rcases h with hb | rfl
  · simp [Attribute.isBareChar, hb]
  · decide

namespace ValueText.Writable

variable {v : ValueText} (h : v.Writable) {u : List Char} (hu : ∀ c ∈ u.head?, Ends c)
include h

lemma not_isNameChar_write (u : List Char) : ∀ c ∈ (v.write ++ u).head?, ¬Attribute.isNameChar c := by
  rw [write, List.append_assoc, List.cons_append]
  exact forall_head?_append (fun c hc => Ends.not_isNameChar (.inl (h.before c hc))) (by decide) _

include hu

lemma readValue : Attribute.readValue (v.after.toList ++ (v.quoting.write v.content.toList ++ u)) =
    (v.content.toList, u) := by
  have hc := h.content
  cases hq : v.quoting with
  | double =>
    rw [hq] at hc
    simpa [Quoting.write] using Attribute.readValue_quoted h.after (by decide) hc u
  | single =>
    rw [hq] at hc
    simpa [Quoting.write] using Attribute.readValue_quoted h.after (by decide) hc u
  | bare =>
    rw [hq] at hc
    obtain ⟨hne, hall, hhead⟩ := hc
    obtain ⟨c, rest, hs⟩ := List.exists_cons_of_ne_nil hne
    rw [hs] at hall hhead
    rw [Quoting.write, hs]
    refine Attribute.readValue_bare h.after (mt isQuote_iff.1 (not_or.2 (hhead c rfl))) ?_
      fun x hx => (hu x hx).not_isBareChar
    intro x hx
    simp [Attribute.isBareChar, hall x hx]

lemma readAssigned : Attribute.readAssigned (v.write ++ u) = (v.content.toList, u) := by
  have hd := Attribute.dropWhile_fillers (fun c hc => isFiller_of_isBlank (h.before c hc))
    (c := '=') (by decide) (v.after.toList ++ (v.quoting.write v.content.toList ++ u))
  rw [write, List.append_assoc, List.cons_append, List.append_assoc, Attribute.readAssigned, hd]
  exact h.readValue hu

end ValueText.Writable

namespace AttributeText

lemma writeAll_nil_append (gap : String) (rest : List Char) :
    writeAll gap [] ++ rest = gap.toList ++ '>' :: rest := by
  rw [writeAll, List.flatMap_nil, List.nil_append, List.append_assoc, List.singleton_append]

lemma writeAll_cons_append (gap : String) (a : AttributeText) (attributes : List AttributeText)
    (rest : List Char) :
    writeAll gap (a :: attributes) ++ rest =
      a.gap.toList ++ (a.name.toList ++ (a.assigned ++ (writeAll gap attributes ++ rest))) := by
  simp only [writeAll, write, List.flatMap_cons, List.append_assoc]

lemma toAttribute_eq {a : AttributeText} {c : Char} {s : List Char} (hs : a.name.toList = c :: s) :
    a.toAttribute = Attribute.ofText (c :: s) a.toAttribute.value.toList := by
  rw [Attribute.ofText, String.ofList_toList, ← hs]
  rfl

namespace Writable

variable {a : AttributeText} (h : a.Writable)
include h

lemma exists_cons : ∃ c s, a.name.toList = c :: s ∧ Attribute.isNameChar c ∧ ¬Attribute.isQuote c ∧
    ∀ x ∈ s, Attribute.isNameChar x := by
  obtain ⟨c, s, hs⟩ := List.exists_cons_of_ne_nil (mt String.toList_eq_nil_iff.1 h.name_ne)
  have hname : ∀ x ∈ c :: s, Attribute.isNameChar x := by
    intro x hx
    obtain ⟨hb, he, hg, hslash⟩ := h.name x (hs ▸ hx)
    simp [Attribute.isNameChar, Attribute.isFiller, hb, he, hg, hslash]
  rw [List.forall_mem_cons] at hname
  exact ⟨c, s, hs, hname.1, mt isQuote_iff.1 (not_or.2 (h.head c (by rw [hs]; rfl))), hname.2⟩

lemma isFiller_gap : ∀ c ∈ a.gap.toList, Attribute.isFiller c :=
  fun c hc => isFiller_of_isBlank (h.gap c hc)

section Assigned

variable {u : List Char} (hu : ∀ c ∈ u.head?, Ends c)
include hu

lemma not_isNameChar_assigned : ∀ c ∈ (a.assigned ++ u).head?, ¬Attribute.isNameChar c := by
  rw [assigned]
  cases hv : a.value with
  | none => exact fun c hc => (hu c hc).not_isNameChar
  | some v => exact (h.value v hv).not_isNameChar_write u

lemma readAssigned (hn : Attribute.readAssigned u = ([], u)) :
    Attribute.readAssigned (a.assigned ++ u) = (a.toAttribute.value.toList, u) := by
  rw [assigned, toAttribute]
  cases hv : a.value with
  | none => exact hn
  | some v => exact (h.value v hv).readAssigned hu

end Assigned

end Writable

section WriteAll

variable {gap : String} {attributes : List AttributeText} (hg : ∀ c ∈ gap.toList, isBlank c)
  (h : ∀ a ∈ attributes, a.Writable)
include hg h

lemma ends_head?_writeAll (rest : List Char) :
    ∀ c ∈ (writeAll gap attributes ++ rest).head?, Ends c := by
  cases attributes with
  | nil =>
    rw [writeAll_nil_append]
    exact forall_head?_append (fun c hc => .inl (hg c hc)) (.inr rfl) rest
  | cons a attributes =>
    have ha := h a List.mem_cons_self
    obtain ⟨b, blanks, hb⟩ := List.exists_cons_of_ne_nil (mt String.toList_eq_nil_iff.1 ha.gap_ne)
    rw [writeAll_cons_append, hb]
    rintro c ⟨⟩
    exact .inl (ha.gap _ (hb ▸ List.mem_cons_self))

/-- No value is taken from what comes next, be it a name or the end of the tag. -/
lemma readAssigned_writeAll (rest : List Char) :
    Attribute.readAssigned (writeAll gap attributes ++ rest) =
      ([], writeAll gap attributes ++ rest) := by
  apply readAssigned_of_head?
  cases attributes with
  | nil =>
    rw [writeAll_nil_append,
      Attribute.dropWhile_fillers (fun c hc => isFiller_of_isBlank (hg c hc)) (by decide)]
    rintro c ⟨⟩
    decide
  | cons a attributes =>
    have ha := h a List.mem_cons_self
    obtain ⟨c, s, hs, hc, -⟩ := ha.exists_cons
    simp only [Attribute.isNameChar, Bool.and_eq_true, Bool.not_eq_true', bne_iff_ne] at hc
    rw [writeAll_cons_append, hs, List.cons_append,
      Attribute.dropWhile_fillers ha.isFiller_gap (by simp [hc.1.1])]
    rintro x ⟨⟩
    exact hc.1.2

lemma reads_writeAll : Attribute.Reads (writeAll gap attributes) (attributes.map toAttribute) := by
  induction attributes with
  | nil => exact Attribute.reads_end fun c hc => isFiller_of_isBlank (hg c hc)
  | cons a attributes ih =>
    obtain ⟨ha, has⟩ := List.forall_mem_cons.1 h
    obtain ⟨c, s, hs, hc, hq, hname⟩ := ha.exists_cons
    have hu := ends_head?_writeAll hg has
    have hstop := ha.not_isNameChar_assigned (hu [])
    have hw := writeAll_cons_append gap a attributes []
    rw [List.append_nil] at hstop
    rw [List.append_nil, List.append_nil, hs, List.cons_append] at hw
    rw [hw, List.map_cons, toAttribute_eq hs]
    exact Attribute.reads_name ha.isFiller_gap (ih has) hc hq hname hstop fun rest =>
      ha.readAssigned (hu rest) (readAssigned_writeAll hg has rest)

end WriteAll

/-- The tag is read up to its end and no further, and each name is looked up in lower case. -/
theorem read?_writeAll {gap : String} {attributes : List AttributeText}
    (hg : ∀ c ∈ gap.toList, isBlank c) (h : ∀ a ∈ attributes, a.Writable) (rest : List Char) :
    Attribute.read? (writeAll gap attributes ++ rest) =
      some (Attribute.firsts (attributes.map toAttribute), rest) := by
  rw [Attribute.read?, (reads_writeAll hg h).2, Option.map_some, ← Attribute.distinct_eq_firsts]

/-- Signs of the grammar inside values and names, and two names that only differ in their case. -/
theorem read?_writeAll_signs :
    let gap := "\n"
    let attributes : List AttributeText :=
      [⟨" ", "Name", some ⟨" ", "\t", .double, "a > '=/\n b"⟩⟩, ⟨"\n ", "x\"'", none⟩,
        ⟨" ", "nAME", some ⟨"", "", .single, "\">"⟩⟩, ⟨" ", "src", some ⟨"", " ", .bare, "=/a\"b'"⟩⟩]
    let rest := " c=\"d\">".toList
    (∀ c ∈ gap.toList, isBlank c) ∧ (∀ a ∈ attributes, a.Writable) ∧
      Attribute.read? (writeAll gap attributes ++ rest) =
        some (Attribute.firsts (attributes.map toAttribute), rest) := by
  intro gap attributes rest
  have hg : ∀ c ∈ gap.toList, isBlank c := by decide
  have h : ∀ a ∈ attributes, a.Writable := by decide
  exact ⟨hg, h, read?_writeAll hg h rest⟩

end AttributeText

end DocHarvest.Markup
