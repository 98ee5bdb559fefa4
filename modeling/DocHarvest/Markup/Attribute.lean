import DocHarvest.Text.Blank
import DocHarvest.Text.Lowercase
import DocHarvest.Text.Split

/-! Attributes of a start tag, read up to the `>` that ends the tag. -/

namespace DocHarvest.Markup

open Text

structure Attribute where
  name : String
  value : String
deriving DecidableEq, Repr

namespace Attribute

/-- Blanks and slashes only keep attributes apart. -/
def isFiller (c : Char) : Bool :=
  isBlank c || c == '/'

def isNameChar (c : Char) : Bool :=
  !isFiller c && c != '=' && c != '>'

def isBareChar (c : Char) : Bool :=
  !isBlank c && c != '>'

def isQuote (c : Char) : Bool :=
  c == '"' || c == '\''

/-- The value after an equals sign, quoted or bare, and what follows it. Without a usable value the
value is empty and nothing is consumed. -/
def readValue (s : List Char) : List Char × List Char :=
  match trimStart s with
  | [] => ([], s)
  | c :: t =>
    if isQuote c then (cutAtChar? c t).getD ([], s)
    else if isBareChar c then ((c :: t).takeWhile isBareChar, (c :: t).dropWhile isBareChar)
    else ([], s)

/-- The value that belongs to a name just read: empty when no equals sign follows. -/
def readAssigned (s : List Char) : List Char × List Char :=
  match s.dropWhile isFiller with
  | [] => ([], s)
  | c :: t => if c == '=' then readValue t else ([], s)

theorem readValue_suffix (s : List Char) : (readValue s).2 <:+ s := by
  have hd : trimStart s <:+ s := List.dropWhile_suffix _
  rw [readValue]
  split
  · exact List.suffix_refl s
  · next c t ht =>
    rw [ht] at hd
    split
    · cases hc : cutAtChar? c t with
      | none => exact List.suffix_refl s
      | some p =>
        obtain ⟨before, after⟩ := p
        refine List.IsSuffix.trans ⟨c :: before ++ [c], ?_⟩ hd
        simp [eq_of_cutAtChar? hc]
    · split
      · exact (List.dropWhile_suffix _).trans hd
      · exact List.suffix_refl s

theorem readAssigned_suffix (s : List Char) : (readAssigned s).2 <:+ s := by
  have hd : s.dropWhile isFiller <:+ s := List.dropWhile_suffix _
  rw [readAssigned]
  split
  · exact List.suffix_refl s
  · next c t ht =>
    rw [ht] at hd
    split
    · exact (readValue_suffix t).trans ((List.suffix_cons c t).trans hd)
    · exact List.suffix_refl s

def ofText (name value : List Char) : Attribute :=
  ⟨String.ofList (lowerAscii name), String.ofList value⟩

/-- All attributes up to the closing `>`, in order, and what follows it. A value without a name is
dropped; a quote where a name should start, or the end of the text, means that this is no tag. -/
def readAll? (s : List Char) : Option (List Attribute × List Char) :=
  match _h : s.dropWhile isFiller with
  | [] => none
  | c :: t =>
    if c == '>' then some ([], t)
    else if c == '=' then readAll? (readValue t).2
    else if isQuote c then none
    else
      (readAll? (readAssigned (t.dropWhile isNameChar)).2).map fun (attributes, rest) =>
        (ofText (c :: t.takeWhile isNameChar) (readAssigned (t.dropWhile isNameChar)).1
          :: attributes, rest)
termination_by s.length
decreasing_by
  all_goals
    have hd := (List.dropWhile_suffix (l := s) isFiller).length_le
    rw [_h, List.length_cons] at hd
  · have := (readValue_suffix t).length_le
    omega
  · have := ((readAssigned_suffix (t.dropWhile isNameChar)).trans
      (List.dropWhile_suffix isNameChar)).length_le
    omega

/-- Keeps the first attribute of each name. -/
def distinct : List Attribute → List Attribute
  | [] => []
  | a :: as => a :: (distinct as).filter (·.name != a.name)

def read? (s : List Char) : Option (List Attribute × List Char) :=
  (readAll? s).map fun (attributes, rest) => (distinct attributes, rest)

def lookup (attributes : List Attribute) (name : String) : Option String :=
  (attributes.find? (·.name == name)).map Attribute.value

theorem readAll?_suffix {s rest : List Char} {attributes : List Attribute}
    (h : readAll? s = some (attributes, rest)) : rest <:+ s ∧ rest.length < s.length := by
  fun_induction readAll? s generalizing attributes with
  | case1 => simp at h
  | case2 s c t hs hc =>
    simp only [Option.some.injEq, Prod.mk.injEq] at h
    have hd := List.dropWhile_suffix (l := s) isFiller
    rw [hs] at hd
    have hl := hd.length_le
    rw [← h.2]
    exact ⟨(List.suffix_cons c t).trans hd, by simpa [Nat.succ_le_iff] using hl⟩
  | case3 s c t hs hc he ih =>
    have hd := List.dropWhile_suffix (l := s) isFiller
    rw [hs] at hd
    have ht := (readValue_suffix t).trans ((List.suffix_cons c t).trans hd)
    have hr := ih h
    exact ⟨hr.1.trans ht, Nat.lt_of_lt_of_le hr.2 ht.length_le⟩
  | case4 => simp at h
  | case5 s c t hs hc he hq ih =>
    have hd := List.dropWhile_suffix (l := s) isFiller
    rw [hs] at hd
    obtain ⟨⟨as, r⟩, ha, he⟩ := Option.map_eq_some_iff.1 h
    simp only [Prod.mk.injEq] at he
    obtain ⟨rfl, rfl⟩ := he
    have hr := ih ha
    have ht := ((readAssigned_suffix (t.dropWhile isNameChar)).trans
      (List.dropWhile_suffix isNameChar)).trans ((List.suffix_cons c t).trans hd)
    exact ⟨hr.1.trans ht, Nat.lt_of_lt_of_le hr.2 ht.length_le⟩

theorem read?_suffix {s rest : List Char} {attributes : List Attribute}
    (h : read? s = some (attributes, rest)) : rest <:+ s := by
  obtain ⟨⟨all, r⟩, hr, he⟩ := Option.map_eq_some_iff.1 h
  simp only [Prod.mk.injEq] at he
  exact he.2 ▸ (readAll?_suffix hr).1

end Attribute

end DocHarvest.Markup
