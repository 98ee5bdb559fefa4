import DocHarvest.Proofs.Param.Writing

/-! An alternative name and a default, in the two orders in which they can follow a name. A default is
told from the alternative name only where it comes first. -/

namespace DocHarvest

open Text

structure Signature where
  type : String
  name : String
  altName : String
  defaultValue : String
  description : String
deriving DecidableEq, Repr

namespace Signature

/-- The documented form of a parameter line. -/
def altFirst (p : Signature) : String :=
  String.join ["\x7b", p.type, "=\x7d [", p.name, "|", p.altName, "=", p.defaultValue, "] ",
    p.description]

def defaultFirst (p : Signature) : String :=
  String.join ["\x7b", p.type, "=\x7d [", p.name, "=", p.defaultValue, "|", p.altName, "] ",
    p.description]

@[mk_iff]
structure Writable (p : Signature) : Prop where
  type_ne : p.type ≠ ""
  type : TypeText.Writable ⟨p.type, true⟩
  name_ne : p.name ≠ ""
  name : ∀ c ∈ p.name.toList, isWord c
  altName_ne : p.altName ≠ ""
  altName : ∀ c ∈ p.altName.toList, isWord c
  defaultValue : ∀ c ∈ p.defaultValue.toList, isWord c
  description_ne : p.description ≠ ""
  head : ∀ c ∈ p.description.toList.head?, ¬isBlank c

def isWritable (p : Signature) : Bool :=
  p.type != "" && decide (TypeText.Writable ⟨p.type, true⟩) && p.name != "" &&
    p.name.toList.all isWord && p.altName != "" && p.altName.toList.all isWord &&
    p.defaultValue.toList.all isWord && p.description != "" &&
    p.description.toList.head?.all (!isBlank ·)

lemma isWritable_iff {p : Signature} : p.isWritable ↔ p.Writable := by
  simp only [isWritable, Bool.and_eq_true, writable_iff]
  simp [Option.all_eq_true, and_assoc]

instance (p : Signature) : Decidable p.Writable :=
  decidable_of_iff _ isWritable_iff

def toParam (p : Signature) (altName : String) (defaultValue : Option String) : Param where
  types := some [TypeText.toParamType ⟨p.type, true⟩]
  name := p.name
  altName := some altName
  description := p.description
  optional := true
  defaultValue := defaultValue

/-- A parameter that has the parts of a signature. -/
structure IsKept (p : Signature) (q : Param) : Prop where
  name : q.name = p.name
  altName : q.altName = some p.altName
  defaultValue : q.defaultValue = some p.defaultValue
  optional : q.optional

def line (p : Signature) (defaultValue : Option String) (altName : String) : ParamText where
  types := some [⟨p.type, true⟩]
  gap := " "
  name := p.name
  defaultValue := defaultValue
  altName := some altName
  bracketed := true
  space := " "
  description := p.description

variable {p : Signature} {defaultValue : Option String} {altName : String}

lemma altFirst_eq (p : Signature) :
    p.altFirst = (p.line none (p.altName ++ "=" ++ p.defaultValue)).write := by
  apply String.toList_injective
  simp [altFirst, line, ParamText.write, ParamText.writeTypes, ParamText.token, ParamText.names,
    ParamText.nameAndDefault, ParamText.writePart, TypeText.writeAll, TypeText.write]

lemma defaultFirst_eq (p : Signature) :
    p.defaultFirst = (p.line (some p.defaultValue) p.altName).write := by
  apply String.toList_injective
  simp [defaultFirst, line, ParamText.write, ParamText.writeTypes, ParamText.token, ParamText.names,
    ParamText.nameAndDefault, ParamText.writePart, TypeText.writeAll, TypeText.write]

lemma Writable.line (h : p.Writable)
    (hd : ∀ d ∈ defaultValue, ∀ c ∈ d.toList, isWord c ∨ c = '=')
    (ha : ∀ c ∈ altName.toList, isWord c ∨ c = '=') :
    (p.line defaultValue altName).Writable where
  types := by
    rintro ts ⟨⟩
    exact ⟨by simp [TypeText.writeAll, TypeText.write], by simpa using h.type⟩
  gap := by simp [Signature.line, isBlank, inRanges, blankRanges]
  name_ne := h.name_ne
  name := h.name
  defaultValue := hd
  altName := by
    rintro a ⟨⟩
    exact ha
  space_ne := by simp [Signature.line]
  space := by simp [Signature.line, isBlank, inRanges, blankRanges]
  description_ne := h.description_ne
  head := h.head

lemma Writable.parse?_line (h : p.Writable)
    (hd : ∀ d ∈ defaultValue, ∀ c ∈ d.toList, isWord c ∨ c = '=')
    (ha : ∀ c ∈ altName.toList, isWord c ∨ c = '=') :
    Param.parse? (p.line defaultValue altName).write = some (p.toParam altName defaultValue) := by
  have hl := h.line hd ha
  rw [Param.parse?, Param.form?_of_formHere? hl.formHere?_write, Option.map_some, hl.toParam_form]
  rfl

theorem parse?_orders (h : p.Writable) :
    Param.parse? p.defaultFirst = some (p.toParam p.altName (some p.defaultValue)) ∧
    Param.parse? p.altFirst = some (p.toParam (p.altName ++ "=" ++ p.defaultValue) none) ∧
    ∀ q, Param.parse? p.altFirst = some q → ¬p.IsKept q := by
  have hd : ∀ c ∈ p.defaultValue.toList, isWord c ∨ c = '=' := fun c hc => .inl (h.defaultValue c hc)
  have ha : ∀ c ∈ p.altName.toList, isWord c ∨ c = '=' := fun c hc => .inl (h.altName c hc)
  have hboth : ∀ c ∈ (p.altName ++ "=" ++ p.defaultValue).toList, isWord c ∨ c = '=' := by
    simp only [String.toList_append, List.forall_mem_append]
    exact ⟨⟨ha, by simp⟩, hd⟩
  have hlast : Param.parse? p.altFirst =
      some (p.toParam (p.altName ++ "=" ++ p.defaultValue) none) := by
    rw [altFirst_eq]
    exact h.parse?_line nofun hboth
  refine ⟨?_, hlast, fun q hq hk => ?_⟩
  · rw [defaultFirst_eq]
    apply h.parse?_line _ ha
    rintro d ⟨⟩
    exact hd
  · rw [hlast] at hq
    cases hq
    cases hk.defaultValue

theorem parse?_orders_count :
    let p : Signature := ⟨"number", "count", "limit", "10", "Max items"⟩
    p.Writable ∧ Param.parse? p.defaultFirst = some (p.toParam p.altName (some p.defaultValue)) ∧
      Param.parse? p.altFirst = some (p.toParam (p.altName ++ "=" ++ p.defaultValue) none) ∧
      ∀ q, Param.parse? p.altFirst = some q → ¬p.IsKept q := by
  intro p
  have h : p.Writable := by decide
  exact ⟨h, parse?_orders h⟩

theorem not_isKept_of_alt_first :
    let p : Signature := ⟨"number", "count", "limit", "10", "Max items"⟩
    p.altFirst = "\x7bnumber=\x7d [count|limit=10] Max items" ∧ p.Writable ∧
      Param.parse? p.altFirst =
        some ⟨some [⟨"number", "number"⟩], "count", some "limit=10", "Max items", true, none⟩ ∧
      ¬∃ q, Param.parse? p.altFirst = some q ∧ p.IsKept q := by
  intro p
  have hp : Param.parse? p.altFirst =
      some ⟨some [⟨"number", "number"⟩], "count", some "limit=10", "Max items", true, none⟩ := by
    decide +kernel
  refine ⟨by decide, by decide, hp, ?_⟩
  rintro ⟨q, hq, hk⟩
  rw [hp] at hq
  cases hq
  cases hk.defaultValue

end Signature

end DocHarvest
