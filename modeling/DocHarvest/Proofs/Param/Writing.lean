import DocHarvest.Proofs.List
import DocHarvest.Proofs.Param.Form

/-! Parameter lines written from their parts, and read back as they were. -/

namespace DocHarvest

open Text

structure TypeText where
  name : String
  optional : Bool
deriving DecidableEq, Repr

structure ParamText where
  types : Option (List TypeText)
  gap : String
  name : String
  defaultValue : Option String
  altName : Option String
  bracketed : Bool
  space : String
  description : String
deriving DecidableEq, Repr

namespace TypeText

def write (t : TypeText) : List Char :=
  t.name.toList ++ if t.optional then ['='] else []

def writeAll (ts : List TypeText) : List Char :=
  List.intercalate ['|'] (ts.map write)

def toParamType (t : TypeText) : ParamType where
  name := t.name
  kind :=
    if "function".toList <:+: t.name.toList then "function" else String.ofList (lower t.name.toList)

@[mk_iff]
structure Writable (t : TypeText) : Prop where
  bar : '|' ∉ t.name.toList
  equals : '=' ∉ t.name.toList
  brace : '}' ∉ t.name.toList

instance (t : TypeText) : Decidable t.Writable :=
  decidable_of_iff _ (writable_iff t).symm

end TypeText

namespace ParamText

def toParam (p : ParamText) : Param where
  types := p.types.map (·.map TypeText.toParamType)
  name := p.name
  altName := p.altName
  description := p.description
  optional := p.types.any (·.any TypeText.optional)
  defaultValue := p.defaultValue

def writeTypes (p : ParamText) : List Char :=
  match p.types with
  | none => []
  | some ts => '{' :: (TypeText.writeAll ts ++ '}' :: p.gap.toList)

def writePart (sign : Char) (part : Option String) : List Char :=
  part.elim [] (sign :: ·.toList)

def nameAndDefault (p : ParamText) : List Char :=
  p.name.toList ++ writePart '=' p.defaultValue

def names (p : ParamText) : List Char :=
  p.nameAndDefault ++ writePart '|' p.altName

def token (p : ParamText) : List Char :=
  if p.bracketed then '[' :: (p.names ++ [']']) else p.names

def write (p : ParamText) : String :=
  String.ofList (p.writeTypes ++ (p.token ++ (p.space.toList ++ p.description.toList)))

@[mk_iff]
structure Writable (p : ParamText) : Prop where
  types : ∀ ts ∈ p.types, TypeText.writeAll ts ≠ [] ∧ ∀ t ∈ ts, t.Writable
  gap : ∀ c ∈ p.gap.toList, isBlank c
  name_ne : p.name ≠ ""
  name : ∀ c ∈ p.name.toList, isWord c
  defaultValue : ∀ d ∈ p.defaultValue, ∀ c ∈ d.toList, isWord c ∨ c = '='
  altName : ∀ a ∈ p.altName, ∀ c ∈ a.toList, isWord c ∨ c = '='
  space_ne : p.space ≠ ""
  space : ∀ c ∈ p.space.toList, isBlank c
  description_ne : p.description ≠ ""
  head : ∀ c ∈ p.description.toList.head?, ¬isBlank c

def isWritable (p : ParamText) : Bool :=
  p.types.all (fun ts => TypeText.writeAll ts != [] && ts.all fun t => t.Writable) &&
    p.gap.toList.all isBlank && p.name != "" && p.name.toList.all isWord &&
    p.defaultValue.all (·.toList.all fun c => isWord c || c == '=') &&
    p.altName.all (·.toList.all fun c => isWord c || c == '=') && p.space != "" &&
    p.space.toList.all isBlank && p.description != "" && p.description.toList.head?.all (!isBlank ·)

lemma isWritable_iff {p : ParamText} : p.isWritable ↔ p.Writable := by
  simp only [isWritable, Bool.and_eq_true, writable_iff]
  simp [Option.all_eq_true, and_assoc]

instance (p : ParamText) : Decidable p.Writable :=
  decidable_of_iff _ isWritable_iff

end ParamText

namespace TypeText

variable {t : TypeText} {ts : List TypeText}

lemma Writable.notMem_write (h : t.Writable) : '|' ∉ t.write ∧ '}' ∉ t.write := by
  rw [write]
  constructor
  · cases t.optional <;> simp [h.bar]
  · cases t.optional <;> simp [h.brace]

lemma Writable.mem_write_iff (h : t.Writable) : '=' ∈ t.write ↔ t.optional := by
  rw [write]
  cases t.optional <;> simp [h.equals]

lemma notMem_writeAll (h : ∀ t ∈ ts, t.Writable) : '}' ∉ writeAll ts := by
  rw [writeAll, mem_intercalate_singleton_iff (by decide)]
  rintro ⟨l, hl, hm⟩
  obtain ⟨t, ht, rfl⟩ := List.mem_map.1 hl
  exact (h t ht).notMem_write.2 hm

lemma mem_writeAll_iff (h : ∀ t ∈ ts, t.Writable) : '=' ∈ writeAll ts ↔ ∃ t ∈ ts, t.optional := by
  rw [writeAll, mem_intercalate_singleton_iff (by decide)]
  simp only [List.mem_map, exists_exists_and_eq_and]
  exact exists_congr fun t => and_congr_right fun ht => (h t ht).mem_write_iff

lemma Writable.ofEntry_write (h : t.Writable) : ParamType.ofEntry t.write = t.toParamType := by
  have htake : t.write.takeWhile (· != '=') = t.name.toList := by
    rw [write, takeWhile_append_of_notMem h.equals]
    cases t.optional <;> simp
  rw [ParamType.ofEntry, htake, toParamType, ParamType.kindOf]
  simp only [hasPiece_iff, String.ofList_toList]
  split <;> simp_all

lemma map_ofEntry_splitOn (h : ∀ t ∈ ts, t.Writable) (hne : writeAll ts ≠ []) :
    ((writeAll ts).splitOn '|').map ParamType.ofEntry = ts.map toParamType := by
  have hts : ts.map write ≠ [] := by
    rintro he
    rw [writeAll, he] at hne
    exact hne rfl
  have hbar : ∀ l ∈ ts.map write, '|' ∉ l := by
    intro l hl
    obtain ⟨t, ht, rfl⟩ := List.mem_map.1 hl
    exact (h t ht).notMem_write.1
  rw [writeAll, List.splitOn_intercalate '|' hbar hts, List.map_map]
  exact List.map_congr_left fun t ht => (h t ht).ofEntry_write

end TypeText

namespace ParamText

lemma eq_or_mem_of_mem_writePart {sign c : Char} {part : Option String} (h : c ∈ writePart sign part) :
    c = sign ∨ ∃ text ∈ part, c ∈ text.toList := by
  cases part with
  | none => cases h
  | some text => exact (List.mem_cons.1 h).imp_right fun hc => ⟨text, rfl, hc⟩

namespace Writable

variable {p : ParamText}

lemma isWord_nameAndDefault (h : p.Writable) : ∀ c ∈ p.nameAndDefault, isWord c ∨ c = '=' := by
  intro c hc
  rcases List.mem_append.1 hc with hn | hd
  · exact .inl (h.name c hn)
  · rcases eq_or_mem_of_mem_writePart hd with he | ⟨d, hv, hd⟩
    · exact .inr he
    · exact h.defaultValue d hv c hd

lemma isWord_names (h : p.Writable) : ∀ c ∈ p.names, isWord c ∨ c = '=' ∨ c = '|' := by
  intro c hc
  rcases List.mem_append.1 hc with hn | ha
  · exact (h.isWord_nameAndDefault c hn).imp_right .inl
  · rcases eq_or_mem_of_mem_writePart ha with he | ⟨a, hv, ha⟩
    · exact .inr (.inr he)
    · exact (h.altName a hv c ha).imp_right .inl

lemma notMem_names (h : p.Writable) {c : Char} (hw : ¬isWord c) (hc : c ≠ '=' ∧ c ≠ '|') :
    c ∉ p.names := by
  intro hm
  rcases h.isWord_names c hm with hw' | he
  · exact hw hw'
  · exact not_or.2 hc he

lemma bar_notMem {s : List Char} (h : ∀ c ∈ s, isWord c ∨ c = '=') : '|' ∉ s := by
  intro hm
  rcases h _ hm with hw | he
  · revert hw
    decide
  · cases he

lemma equals_notMem_name (h : p.Writable) : '=' ∉ p.name.toList := by
  intro hm
  have hw := h.name _ hm
  revert hw
  decide

lemma names_ne_nil (h : p.Writable) : p.names ≠ [] := by
  simp [names, nameAndDefault, h.name_ne]

lemma isNameChar_token (h : p.Writable) : ∀ c ∈ p.token, Param.isNameChar c := by
  have hn : ∀ c ∈ p.names, Param.isNameChar c := fun c hc =>
    Param.isNameChar_iff.2 ((h.isWord_names c hc).imp_right (.inr <| .inr ·))
  rw [token]
  split
  · rw [List.forall_mem_cons, List.forall_mem_append, List.forall_mem_singleton]
    exact ⟨by decide, hn, by decide⟩
  · exact hn

lemma token_ne_nil (h : p.Writable) : p.token ≠ [] := by
  rw [token]
  split
  · exact List.cons_ne_nil _ _
  · exact h.names_ne_nil

lemma erase_token (h : p.Writable) : (p.token.erase '[').erase ']' = p.names := by
  have ho := h.notMem_names (c := '[') (by decide) (by decide)
  have hc := h.notMem_names (c := ']') (by decide) (by decide)
  rw [token]
  split
  · rw [List.erase_cons_head, List.erase_append_right _ hc, List.erase_cons_head, List.append_nil]
  · rw [List.erase_of_not_mem ho, List.erase_of_not_mem hc]

lemma splitOn_names (h : p.Writable) :
    p.names.splitOn '|' = p.nameAndDefault :: p.altName.toList.map String.toList := by
  have hfirst := bar_notMem h.isWord_nameAndDefault
  rw [names]
  cases hv : p.altName with
  | none =>
    rw [writePart, Option.elim_none, List.append_nil, List.splitOn_eq_singleton hfirst]
    rfl
  | some a =>
    rw [writePart, Option.elim_some, List.splitOn_append_cons_self_of_not_mem hfirst,
      List.splitOn_eq_singleton (bar_notMem (h.altName a hv))]
    rfl

lemma takeWhile_nameAndDefault (h : p.Writable) :
    p.nameAndDefault.takeWhile (· != '=') = p.name.toList := by
  rw [nameAndDefault, takeWhile_append_of_notMem h.equals_notMem_name]
  cases p.defaultValue <;> simp [writePart]

lemma cutAtChar?_nameAndDefault (h : p.Writable) :
    cutAtChar? '=' p.nameAndDefault = p.defaultValue.map fun d => (p.name.toList, d.toList) := by
  rw [nameAndDefault, writePart]
  cases p.defaultValue with
  | none =>
    rw [Option.elim_none, List.append_nil, cutAtChar?_eq_none h.equals_notMem_name]
    rfl
  | some d =>
    rw [Option.elim_some, cutAtChar?_append h.equals_notMem_name]
    rfl

lemma toParam_form (h : p.Writable) :
    Param.Form.toParam ⟨p.types.map TypeText.writeAll, p.token, p.description.toList⟩ = p.toParam := by
  have htypes : (p.types.map TypeText.writeAll).map (fun t => (t.splitOn '|').map ParamType.ofEntry) =
      p.types.map (·.map TypeText.toParamType) := by
    rw [Option.map_map]
    exact Option.map_congr fun ts hts => TypeText.map_ofEntry_splitOn (h.types ts hts).2 (h.types ts hts).1
  have hoptional : (p.types.map TypeText.writeAll).any (·.contains '=') =
      p.types.any (·.any TypeText.optional) := by
    cases hv : p.types with
    | none => rfl
    | some ts =>
      rw [Option.map_some, Option.any_some, Option.any_some, Bool.eq_iff_iff, List.contains_iff_mem,
        List.any_eq_true, TypeText.mem_writeAll_iff (h.types ts hv).2]
  have halt : (p.nameAndDefault :: p.altName.toList.map String.toList)[1]?.map String.ofList =
      p.altName := by
    cases p.altName <;> simp
  simp only [Param.Form.toParam, h.erase_token, h.splitOn_names, List.headD_cons,
    h.takeWhile_nameAndDefault, h.cutAtChar?_nameAndDefault, htypes, hoptional, halt, Option.map_map,
    Function.comp_def, String.ofList_toList, Option.map_id', toParam]

lemma nameAndDescription?_write (h : p.Writable) (gap : List Char) (hg : ∀ c ∈ gap, isBlank c) :
    Param.nameAndDescription? (gap ++ (p.token ++ (p.space.toList ++ p.description.toList))) =
      some (p.token, p.description.toList) := by
  have hs : p.space.toList ≠ [] := by simpa using h.space_ne
  have hd : p.description.toList ≠ [] := by simpa using h.description_ne
  exact Param.nameAndDescription?_append hg h.token_ne_nil h.isNameChar_token hs h.space hd h.head

lemma head?_token_append (h : p.Writable) (s : List Char) : (p.token ++ s).head? ≠ some '{' := by
  obtain ⟨x, rest, ht⟩ := List.exists_cons_of_ne_nil h.token_ne_nil
  have hx := h.isNameChar_token x (ht ▸ List.mem_cons_self)
  rw [ht]
  rintro he
  cases he
  revert hx
  decide

lemma formHere?_write (h : p.Writable) :
    Param.formHere? p.write.toList =
      some ⟨p.types.map TypeText.writeAll, p.token, p.description.toList⟩ := by
  rw [write, String.toList_ofList, writeTypes]
  cases hv : p.types with
  | none =>
    exact Param.formHere?_of_not_braced (Param.braced?_eq_none (h.head?_token_append _))
      (h.nameAndDescription?_write [] nofun)
  | some ts =>
    obtain ⟨hne, ht⟩ := h.types ts hv
    dsimp only
    rw [List.cons_append, List.append_assoc, List.cons_append]
    exact Param.formHere?_of_braced (Param.braced?_append hne (TypeText.notMem_writeAll ht) _)
      (h.nameAndDescription?_write _ h.gap)

end Writable

theorem parse?_write {p : ParamText} (h : p.Writable) : Param.parse? p.write = some p.toParam := by
  rw [Param.parse?, Param.form?_of_formHere? h.formHere?_write, Option.map_some, h.toParam_form]

/-- Braces, brackets and blanks inside a type, an empty type, and an equals sign in each other part. -/
theorem parse?_write_signs :
    let p : ParamText :=
      ⟨some [⟨"a\x7b[ b", true⟩, ⟨"", false⟩, ⟨"Function(x)", false⟩, ⟨"my function", false⟩], " \n",
        "größe_1", some "1=", some "=y", true, "\t ", "\x7bd\x7d [e] = |\n f "⟩
    p.Writable ∧ Param.parse? p.write = some p.toParam := by
  intro p
  have h : p.Writable := by decide
  exact ⟨h, parse?_write h⟩

end ParamText

end DocHarvest
