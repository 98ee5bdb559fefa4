import DocHarvest.Record.Json
import Mathlib

/-! The JSON value of a record determines the record. A field that is left out is told from a tag of
the same name, since the tags come after the file of the record. -/

namespace DocHarvest

open Markup Json

lemma Dictionary.entries_injective {α : Type} :
    Function.Injective (Dictionary.entries : Dictionary α → List (String × α)) := by
  rintro ⟨_, _⟩ ⟨_, _⟩ rfl
  rfl

lemma Json.ofOption_injective : Function.Injective Json.ofOption
  | none, none, _ => rfl
  | some _, some _, h => by cases h; rfl

lemma Json.array_map_injective {α : Type} {encode : α → Json} (he : Function.Injective encode) :
    Function.Injective fun xs : List α => Json.array (xs.map encode) := fun _ _ h =>
  List.map_injective_iff.2 he (Json.array.inj h)

lemma ParamType.toJson_injective : Function.Injective ParamType.toJson := by
  rintro ⟨_, _⟩ ⟨_, _⟩ h
  cases h
  rfl

lemma Param.typesToJson_injective : Function.Injective Param.typesToJson
  | none, none, _ => rfl
  | some _, some _, h => congrArg some (array_map_injective ParamType.toJson_injective h)

lemma Param.toJson_injective : Function.Injective Param.toJson := by
  rintro ⟨_, _, _, _, _, _⟩ ⟨_, _, _, _, _, _⟩ h
  simp only [toJson, object.injEq, List.cons.injEq, Prod.mk.injEq, true_and, and_true, text.injEq,
    bool.injEq, typesToJson_injective.eq_iff, ofOption_injective.eq_iff] at h
  obtain ⟨rfl, rfl, rfl, rfl, rfl, rfl⟩ := h
  rfl

lemma Markup.ExampleFile.toJson_injective : Function.Injective ExampleFile.toJson := by
  rintro ⟨_, _, _⟩ ⟨_, _, _⟩ h
  simp only [toJson, object.injEq, List.cons.injEq, Prod.mk.injEq, true_and, and_true, text.injEq,
    ofOption_injective.eq_iff] at h
  obtain ⟨rfl, rfl, rfl⟩ := h
  rfl

lemma Markup.Example.toJson_injective : Function.Injective Example.toJson := by
  rintro ⟨_, _, _⟩ ⟨_, _, _⟩ h
  have hf := array_map_injective ExampleFile.toJson_injective
  simp only [toJson, object.injEq, List.cons.injEq, Prod.mk.injEq, true_and, and_true,
    ofOption_injective.eq_iff, hf.eq_iff] at h
  obtain ⟨rfl, rfl, rfl⟩ := h
  rfl

lemma Markup.Segment.toJson_injective : Function.Injective Segment.toJson
  | .text _, .text _, h => by cases h; rfl
  | .worked _, .worked _, h => congrArg Segment.worked (Example.toJson_injective h)

lemma Parent.toJson_injective : Function.Injective Parent.toJson := by
  rintro ⟨_, _⟩ ⟨_, _⟩ h
  simp only [toJson, object.injEq, List.cons.injEq, Prod.mk.injEq, true_and, and_true,
    ofOption_injective.eq_iff] at h
  obtain ⟨rfl, rfl⟩ := h
  rfl

namespace Record

lemma segmentsToJson_injective : Function.Injective segmentsToJson :=
  array_map_injective Segment.toJson_injective

/-- The members of an object whose keys may stand without a value. -/
def present (slots : List (String × Option Json)) : List (String × Json) :=
  slots.flatMap fun s => optionalMember s.1 id s.2

lemma present_cons_none (key : String) (slots : List (String × Option Json)) :
    present ((key, none) :: slots) = present slots :=
  rfl

lemma present_cons_some (key : String) (value : Json) (slots : List (String × Option Json)) :
    present ((key, some value) :: slots) = (key, value) :: present slots :=
  rfl

lemma mem_of_mem_present {slots : List (String × Option Json)} {m : String × Json}
    (h : m ∈ present slots) : m.1 ∈ slots.map Prod.fst := by
  obtain ⟨⟨key, value⟩, hs, hm⟩ := List.mem_flatMap.1 h
  obtain ⟨v, -, rfl⟩ := Option.map_eq_some_iff.1 (Option.mem_toList.1 hm)
  exact List.mem_map.2 ⟨_, hs, rfl⟩

/-- What a missing value leaves out cannot be taken for a later member. -/
lemma cons_ne_present_append {key last : String} {v w : Json} {x y : List (String × Json)}
    {slots : List (String × Option Json)} (hk : key ∉ slots.map Prod.fst) (hl : key ≠ last) :
    (key, v) :: x ≠ present slots ++ (last, w) :: y := by
  intro h
  cases hp : present slots with
  | nil =>
    rw [hp] at h
    cases h
    exact hl rfl
  | cons m ms =>
    rw [hp] at h
    cases h
    have hm : (key, v) ∈ present slots := by
      rw [hp]
      exact List.mem_cons_self
    exact hk (mem_of_mem_present hm)

/-- Slots that end with a value are read off the members that start with them. -/
lemma present_append_inj {last : String} {keys : List String} {v w : Json}
    {x y : List (String × Json)} {a b : List (String × Option Json)} (hn : (last :: keys).Nodup)
    (ha : a.map Prod.fst = keys) (hb : b.map Prod.fst = keys)
    (h : present a ++ (last, v) :: x = present b ++ (last, w) :: y) : a = b ∧ v = w ∧ x = y := by
  induction keys generalizing a b with
  | nil =>
    obtain rfl := List.map_eq_nil_iff.1 ha
    obtain rfl := List.map_eq_nil_iff.1 hb
    cases h
    exact ⟨rfl, rfl, rfl⟩
  | cons key keys ih =>
    obtain ⟨⟨_, c⟩, a, rfl, rfl, ha'⟩ := List.map_eq_cons_iff.1 ha
    obtain ⟨⟨_, d⟩, b, rfl, rfl, hb'⟩ := List.map_eq_cons_iff.1 hb
    simp only [List.nodup_cons, List.mem_cons, not_or] at hn
    obtain ⟨⟨hne, hl⟩, hk, hn⟩ := hn
    have ih := ih (List.nodup_cons.2 ⟨hl, hn⟩) ha' hb'
    cases c with
    | none =>
      cases d with
      | none =>
        obtain ⟨rfl, hv, hx⟩ := ih h
        exact ⟨rfl, hv, hx⟩
      | some d =>
        rw [present_cons_none, present_cons_some, List.cons_append] at h
        exact (cons_ne_present_append (ha' ▸ hk) (Ne.symm hne) h.symm).elim
    | some c =>
      cases d with
      | none =>
        rw [present_cons_none, present_cons_some, List.cons_append] at h
        exact (cons_ne_present_append (hb' ▸ hk) (Ne.symm hne) h).elim
      | some d =>
        obtain ⟨hm, h⟩ := List.cons.inj h
        obtain ⟨rfl, hv, hx⟩ := ih h
        cases hm
        exact ⟨rfl, hv, hx⟩

def fieldKeys : List String :=
  ["docType", "ngdoc", "name", "module", "description", "example", "params", "scope", "methodOf",
    "propertyOf", "eventOf", "memberOf", "parentDoc"]

/-- The fields before the file of a record, with no value where a field is left out. -/
def slots (r : Record) : List (String × Option Json) :=
  [("docType", some (.text r.docType)),
    ("ngdoc", r.kind.map .text),
    ("name", r.name.map .text),
    ("module", r.module.map .text),
    ("description", r.description.map segmentsToJson),
    ("example", r.examples.map segmentsToJson),
    ("params", some (.array (r.params.map Param.toJson))),
    ("scope", if r.scope then some (.bool true) else none),
    ("methodOf", r.owners.methodOf.map .text),
    ("propertyOf", r.owners.propertyOf.map .text),
    ("eventOf", r.owners.eventOf.map .text),
    ("memberOf", r.owners.memberOf.map .text),
    ("parentDoc", r.parent.map Parent.toJson)]

lemma map_fst_slots (r : Record) : r.slots.map Prod.fst = fieldKeys :=
  rfl

lemma nodup_fieldKeys : ("file" :: fieldKeys).Nodup := by
  decide

lemma fieldMembers_eq_present (r : Record) :
    r.fieldMembers = present r.slots ++ [("file", .text r.file)] := by
  have hm : ∀ {α : Type} (key : String) (encode : α → Json) (value : Option α),
      optionalMember key id (value.map encode) = optionalMember key encode value := by
    intro α key encode value
    rw [optionalMember, Option.map_map]
    rfl
  have hs : optionalMember "scope" id (if r.scope then some (Json.bool true) else none) =
      if r.scope then [("scope", Json.bool true)] else [] := by
    split <;> rfl
  simp only [fieldMembers, present, slots, List.flatMap_cons, List.flatMap_nil, hm, hs,
    List.append_assoc, List.nil_append]
  rfl

lemma extra_eq_of_extraMembers {r r' : Record} (h : r.extraMembers = r'.extraMembers) :
    r.extra = r'.extra := by
  apply Dictionary.entries_injective
  apply List.map_injective_iff.2 _ h
  rintro ⟨_, _⟩ ⟨_, _⟩ he
  cases he
  rfl

lemma eq_of_slots {r r' : Record} (h : r.slots = r'.slots) (hf : r.file = r'.file)
    (he : r.extra = r'.extra) : r = r' := by
  have ht : Function.Injective (Option.map Json.text) :=
    Option.map_injective fun _ _ => Json.text.inj
  have hs := Option.map_injective segmentsToJson_injective
  have hp := array_map_injective Param.toJson_injective
  have hd := Option.map_injective Parent.toJson_injective
  have hb : ∀ {b c : Bool}, ((if b then some (Json.bool true) else none) =
      if c then some (Json.bool true) else none) → b = c
    | true, true, _ => rfl
    | false, false, _ => rfl
  obtain ⟨_, _, _, _, _, _, _, _, ⟨_, _, _, _⟩, _, _, _⟩ := r
  obtain ⟨_, _, _, _, _, _, _, _, ⟨_, _, _, _⟩, _, _, _⟩ := r'
  simp only [slots, List.cons.injEq, Prod.mk.injEq, true_and, and_true, Option.some.injEq,
    text.injEq, ht.eq_iff, hs.eq_iff, hp.eq_iff, hd.eq_iff] at h hf he
  obtain ⟨rfl, rfl, rfl, rfl, rfl, rfl, rfl, h, rfl, rfl, rfl, rfl, rfl⟩ := h
  obtain rfl := hb h
  rw [hf, he]

theorem toJson_injective : Function.Injective Record.toJson := by
  intro r r' h
  have hm : r.fieldMembers ++ r.extraMembers = r'.fieldMembers ++ r'.extraMembers := object.inj h
  rw [fieldMembers_eq_present, fieldMembers_eq_present, List.append_assoc, List.append_assoc,
    List.singleton_append, List.singleton_append] at hm
  obtain ⟨hs, hf, he⟩ :=
    present_append_inj nodup_fieldKeys (map_fst_slots r) (map_fst_slots r') hm
  exact eq_of_slots hs (text.inj hf) (extra_eq_of_extraMembers he)

end Record

end DocHarvest
